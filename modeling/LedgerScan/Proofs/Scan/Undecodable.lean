import LedgerScan.Proofs.Scan.Filters
import LedgerScan.Proofs.Scan.Predicates
import LedgerScan.Proofs.Scan.Tree

/-!
# Accounts that cannot be decoded

A run may keep such accounts or leave them out. Two runs that differ in this alone send the same
requests and get the same accounts back, so they can be compared account by account: what one makes
of an account the other makes of it as well (`LeafPlan.rebuild?_of_not_keptBare`), except that an
account that cannot be decoded may be a record without fields (`LeafPlan.rebuild?_of_keptBare`).

* `LeafPlan.Undecodable` says what can be wrong with an account;
* `LeafPlan.KeptBare` says which accounts become a record without fields, `LeafPlan.bare` is it.
  They are those of leaves that want fields: where none is wanted nothing is decoded, and every
  account is a record without fields in either run (`LeafPlan.rebuild?_of_nothing`);
* `Fetch.passes`: whether such accounts are kept or not, a record passes the predicates of its leaf;
* `Scan.fetchWith_keepUndecodable`: keeping them only adds records, and just those.
-/

namespace LedgerScan

open Fallible

/-! ## 1. Lists put together from two -/

/-- A list is put together from two others: its elements are theirs, those of either in their
    order. -/
inductive Interleaved {α : Type} : List α → List α → List α → Prop where
  | nil : Interleaved [] [] []
  | left (a : α) {xs ys zs : List α} : Interleaved xs ys zs → Interleaved (a :: xs) ys (a :: zs)
  | right (a : α) {xs ys zs : List α} : Interleaved xs ys zs → Interleaved xs (a :: ys) (a :: zs)

section Interleaved

variable {α β : Type} {xs ys zs : List α}

theorem Interleaved.length (h : Interleaved xs ys zs) : zs.length = xs.length + ys.length := by
  induction h with
  | nil => rfl
  | left _ _ ih => rw [List.length_cons, List.length_cons, ih, Nat.add_right_comm]
  | right _ _ ih => rw [List.length_cons, List.length_cons, ih, Nat.add_assoc]

theorem Interleaved.sublist (h : Interleaved xs ys zs) : xs.Sublist zs := by
  induction h with
  | nil => exact .slnil
  | left a _ ih => exact ih.cons_cons a
  | right a _ ih => exact ih.cons a

/-- Where two functions differ only in that one has a value of its own for some elements, its values
    are those of the other one and these. -/
theorem interleaved_filterMap {f g : α → Option β} {own : α → Bool} {value : α → β}
    (added : ∀ a, own a = true → f a = none ∧ g a = some (value a))
    (same : ∀ a, own a = false → g a = f a) (xs : List α) :
    Interleaved (xs.filterMap f) ((xs.filter own).map value) (xs.filterMap g) := by
  induction xs with
  | nil => exact .nil
  | cons a xs ih =>
    cases hown : own a with
    | true =>
      obtain ⟨hf, hg⟩ := added a hown
      rw [List.filterMap_cons_none hf, List.filterMap_cons_some hg, List.filter_cons_of_pos hown,
        List.map_cons]
      exact .right _ ih
    | false =>
      have hg := same a hown
      rw [List.filter_cons_of_neg (by rw [hown]; exact Bool.false_ne_true)]
      cases hf : f a with
      | none =>
        rw [List.filterMap_cons_none hf, List.filterMap_cons_none (hg.trans hf)]
        exact ih
      | some b =>
        rw [List.filterMap_cons_some hf, List.filterMap_cons_some (hg.trans hf)]
        exact .left _ ih

end Interleaved

/-! ## 2. What is made of an account -/

namespace LeafPlan

/-- **Why an account cannot be decoded**: its text is no base64, or its bytes, those of a window put
    back in their place, are no record. -/
inductive Undecodable (plan : LeafPlan) (schema : Schema) (account : RawAccount) :
    RebuildError → Prop where
  | base64 {e : Base64.Error} (failed : Base64.decode (Utf8.encode account.data) = .error e) :
      Undecodable plan schema account (.base64 e)
  | record {bytes : List UInt8} {e : DecodeError}
      (came : Base64.decode (Utf8.encode account.data) = .ok bytes)
      (failed : schema.decodeRecord plan.record (plan.wholeData bytes) = .error e) :
      Undecodable plan schema account (.decode e)

/-- The record without fields that an account becomes if it is kept without being decoded. -/
def bare (plan : LeafPlan) (options : FetchOptions) (account : RawAccount) : Record :=
  ⟨[], if options.metadata then some (plan.metadataFor account) else none⟩

section Account

variable {plan : LeafPlan} {schema : Schema} {options : FetchOptions} {account : RawAccount}
  {record : Record} {e : RebuildError}

/-- Decoding fails where it is tried and there is something wrong. -/
theorem fields_eq_error :
    plan.fields schema account = .error e ↔
      plan.selection ≠ .nothing ∧ plan.Undecodable schema account e := by
  unfold fields
  constructor
  · intro h
    split at h
    · cases h
    · next looked =>
      split at h
      · next failed =>
        cases h
        exact ⟨looked, .base64 failed⟩
      · next came =>
        split at h
        · next failed =>
          cases h
          exact ⟨looked, .record came failed⟩
        · cases h
  · rintro ⟨looked, lost⟩
    cases lost with
    | base64 failed => rw [if_neg looked, failed]
    | record came failed =>
      rw [if_neg looked, came]
      simp only [failed]

/-- An account is **kept bare** if its leaf wants fields, it cannot be decoded and all predicates
    accept null among no fields. -/
structure KeptBare (plan : LeafPlan) (schema : Schema) (account : RawAccount) : Prop where
  looked : plan.selection ≠ .nothing
  lost : ∃ e, plan.Undecodable schema account e
  accepted : ∀ p ∈ plan.pushdown.predicates, p.2 .null [] = true

instance : Decidable (plan.KeptBare schema account) :=
  decidable_of_iff ((failure? (plan.fields schema account)).isSome = true ∧
      ∀ p ∈ plan.pushdown.predicates, p.2 .null [] = true) <| by
    simp only [Option.isSome_iff_exists, failure?_eq_some, fields_eq_error]
    exact ⟨fun ⟨⟨e, looked, lost⟩, accepted⟩ => ⟨looked, ⟨e, lost⟩, accepted⟩,
      fun ⟨looked, ⟨e, lost⟩, accepted⟩ => ⟨⟨e, looked, lost⟩, accepted⟩⟩

theorem accepts_eq_true {predicates : List (String × Predicate)} {fields : Entries Json} :
    accepts predicates fields = true ↔
      ∀ p ∈ predicates, p.2 ((Entries.get? p.1 fields).getD .null) fields = true :=
  List.all_eq_true

/-- What is made of an account that cannot be decoded: at most a record without fields. -/
theorem rebuild?_of_undecodable (looked : plan.selection ≠ .nothing)
    (lost : plan.Undecodable schema account e) (options : FetchOptions) :
    plan.rebuild? schema options account
      = if options.keepUndecodable && accepts plan.pushdown.predicates [] then
          some (plan.bare options account)
        else none := by
  unfold rebuild? shown?
  rw [fields_eq_error.mpr ⟨looked, lost⟩]
  cases options.keepUndecodable with
  | false => rfl
  | true =>
    simp only [if_true, Bool.true_and]
    rfl

/-- Where no field is wanted every account that the predicates accept is a record without fields,
    whatever its data are. -/
theorem rebuild?_of_nothing (unseen : plan.selection = .nothing) (options : FetchOptions) :
    plan.rebuild? schema options account
      = if accepts plan.pushdown.predicates [] then some (plan.bare options account) else none := by
  unfold rebuild? shown? fields
  rw [if_pos unseen]
  rfl

/-- **An account that is kept bare** is no record if undecodable accounts are left out, and a record
    without fields if they are kept. -/
theorem rebuild?_of_keptBare (keptBare : plan.KeptBare schema account) (options : FetchOptions) :
    plan.rebuild? schema { options with keepUndecodable := false } account = none ∧
      plan.rebuild? schema { options with keepUndecodable := true } account
        = some (plan.bare options account) := by
  obtain ⟨looked, ⟨e, lost⟩, accepted⟩ := keptBare
  refine ⟨rebuild?_of_undecodable looked lost _, ?_⟩
  rw [rebuild?_of_undecodable looked lost, Bool.true_and, if_pos (accepts_eq_true.mpr accepted)]
  rfl

/-- **For any other account it does not matter what is kept**: it is not looked at, it is decoded,
    or the predicates reject it without fields. -/
theorem rebuild?_of_not_keptBare (other : ¬ plan.KeptBare schema account)
    (options : FetchOptions) :
    plan.rebuild? schema { options with keepUndecodable := true } account
      = plan.rebuild? schema { options with keepUndecodable := false } account := by
  cases hfields : plan.fields schema account with
  | ok fields =>
    unfold rebuild? shown?
    rw [hfields]
  | error e =>
    obtain ⟨looked, lost⟩ := fields_eq_error.mp hfields
    have rejected : accepts plan.pushdown.predicates [] = false :=
      Bool.eq_false_iff.mpr fun accepted => other ⟨looked, ⟨e, lost⟩, accepts_eq_true.mp accepted⟩
    rw [rebuild?_of_undecodable looked lost, rebuild?_of_undecodable looked lost, rejected,
      Bool.and_false, Bool.and_false]
    rfl

/-- **A record passes the predicates** of the plan that it is rebuilt by, whatever is kept. -/
theorem accepts_of_rebuild? (h : plan.rebuild? schema options account = some record) :
    accepts plan.pushdown.predicates record.fields = true := by
  unfold rebuild? at h
  split at h
  · cases h
  · next fields _ =>
    split at h
    · next accepted =>
      cases h
      exact accepted
    · cases h

end Account

end LeafPlan

/-! ## 3. Runs -/

/-- A plan wants what its leaf wants, and tests here what the conditions of the leaf leave to be
    tested. -/
theorem Scan.leaf_of_plan {scan : Scan} {commitment : Commitment} {plans : List LeafPlan}
    (planned : scan.plan commitment = .ok plans) :
    ∀ plan ∈ plans, ∃ leaf, scan.leaf? plan.node = some leaf ∧ plan.selection = leaf.selection ∧
      plan.pushdown.predicates = leaf.conditions.predicates := by
  intro plan hplan
  obtain ⟨i, hi⟩ := List.mem_iff_getElem?.mp hplan
  obtain ⟨layout, leaf, _, hleaf, hplanned⟩ := (ScanTree.planLeaf_of_plan planned).2 i plan hi
  obtain ⟨_, pushdown, hpushdown, rfl⟩ := Scan.planLeaf_eq_ok.mp hplanned
  exact ⟨leaf, hleaf, rfl, RecordLayout.predicates_of_pushDown hpushdown⟩

namespace Fetch

variable {run : Fetch} {plan : LeafPlan} {account : RawAccount} {record : Record}

theorem mem_plans_of_mem_returned (h : (plan, account) ∈ run.returned) : plan ∈ run.plans := by
  obtain ⟨entry, hentry, hmem⟩ := List.mem_flatMap.mp h
  obtain ⟨_, _, hsame⟩ := List.mem_map.mp hmem
  cases hsame
  exact (List.of_mem_zip hentry).1

/-- **Every record comes from an account and passes the predicates of its leaf.** -/
theorem passes (run : Fetch) {commitment : Commitment}
    (planned : run.scan.plan commitment = .ok run.plans) (h : record ∈ run.records) :
    ∃ plan account leaf, (plan, account) ∈ run.returned ∧
      plan.rebuild? run.scan.schema run.options account = some record ∧
      run.scan.leaf? plan.node = some leaf ∧
      ∀ p ∈ leaf.conditions.predicates,
        p.2 ((record.get? p.1).getD .null) record.fields = true := by
  obtain ⟨⟨plan, account⟩, hreturned, hrebuilt⟩ := List.mem_filterMap.mp h
  obtain ⟨leaf, hleaf, _, hpredicates⟩ :=
    Scan.leaf_of_plan planned plan (mem_plans_of_mem_returned hreturned)
  have haccepts := LeafPlan.accepts_of_rebuild? hrebuilt
  rw [hpredicates] at haccepts
  exact ⟨plan, account, leaf, hreturned, hrebuilt, hleaf, LeafPlan.accepts_eq_true.mp haccepts⟩

end Fetch

/-- **Keeping undecodable accounts only adds records.** Let a scan be planned, and fetch it twice,
    once leaving out the accounts that cannot be decoded and once keeping them. The same accounts
    come back. The records of the first run are among those of the second in their order, and the
    second has besides them, in the order of the accounts, exactly one record without fields for
    each account that cannot be decoded, if its leaf wants fields and the predicates of the leaf all
    accept null among no fields. An account of a leaf that wants no field is not decoded, and both
    runs make the same of it. In both runs every record passes all predicates of its leaf, asked for
    its own fields, null if a field is not there. -/
theorem Scan.fetchWith_keepUndecodable (scan : Scan) (connection : Connection)
    (options : FetchOptions) (transport : Rpc.Transport) {plans : List LeafPlan}
    (planned : scan.plan connection.resolve.1 = .ok plans) :
    ∃ strict lenient,
      scan.fetchWith connection { options with keepUndecodable := false } transport = .ok strict ∧
      scan.fetchWith connection { options with keepUndecodable := true } transport = .ok lenient ∧
      strict.returned = lenient.returned ∧
      strict.records.Sublist lenient.records ∧
      Interleaved strict.records
        ((lenient.returned.filter fun entry => entry.1.KeptBare scan.schema entry.2).map
          fun entry => entry.1.bare options entry.2)
        lenient.records ∧
      (∀ plan account, (plan, account) ∈ lenient.returned → ∃ leaf,
        scan.leaf? plan.node = some leaf ∧ plan.selection = leaf.selection ∧
        plan.pushdown.predicates = leaf.conditions.predicates ∧
        (leaf.selection = .nothing → plan.rebuild? scan.schema lenient.options account
          = plan.rebuild? scan.schema strict.options account)) ∧
      ∀ run ∈ [strict, lenient], ∀ record ∈ run.records, ∃ plan account leaf,
        (plan, account) ∈ run.returned ∧
        plan.rebuild? scan.schema run.options account = some record ∧
        scan.leaf? plan.node = some leaf ∧
        ∀ p ∈ leaf.conditions.predicates,
          p.2 ((record.get? p.1).getD .null) record.fields = true := by
  let run (keepUndecodable : Bool) : Fetch :=
    ⟨scan, { options with keepUndecodable }, plans, connection.resolve.2, transport⟩
  have hfetch (keepUndecodable : Bool) :
      scan.fetchWith connection { options with keepUndecodable } transport
        = .ok (run keepUndecodable) := fetchWith_of_plan planned _ transport
  -- what comes back does not depend on what is kept, so both runs go over the same accounts
  have interleaved : Interleaved (run false).records
      (((run true).returned.filter fun entry => entry.1.KeptBare scan.schema entry.2).map
        fun entry => entry.1.bare options entry.2)
      (run true).records := by
    refine interleaved_filterMap (fun entry kept => ?_) (fun entry kept => ?_) _
    · exact LeafPlan.rebuild?_of_keptBare (of_decide_eq_true kept) options
    · exact LeafPlan.rebuild?_of_not_keptBare (of_decide_eq_false kept) options
  refine ⟨run false, run true, hfetch false, hfetch true, rfl, interleaved.sublist, interleaved,
    fun plan account hreturned => ?_, ?_⟩
  · obtain ⟨leaf, hleaf, hselection, hpredicates⟩ :=
      leaf_of_plan planned plan (Fetch.mem_plans_of_mem_returned hreturned)
    refine ⟨leaf, hleaf, hselection, hpredicates, fun unseen => ?_⟩
    rw [LeafPlan.rebuild?_of_nothing (hselection.trans unseen),
      LeafPlan.rebuild?_of_nothing (hselection.trans unseen)]
    rfl
  · rw [List.forall_mem_cons, List.forall_mem_singleton]
    exact ⟨fun record => (run false).passes planned, fun record => (run true).passes planned⟩

/-- Three leaves for one book: orders not at six, orders at five, and all orders without fields. -/
def Scan.priceViews : Scan :=
  { Scan.ofRecord Schema.orders "Order" with leaves :=
    [(Leaf.ofAddress "book").filtered
      (Conditions.empty.satisfies "price" fun value _ => !value.same (.nat 6)),
    (Leaf.ofAddress "book").filtered
      (Conditions.empty.satisfies "price" fun value _ => value.same (.nat 5)),
    (Leaf.ofAddress "book").selectNothing] }

/-- The order of a side that is none is added for the first leaf alone: the second one rejects it,
    and the third one shows it in any case. -/
theorem fetch_priceViews :
    ∃ strict lenient,
      Scan.priceViews.fetchWith .standard { FetchOptions.standard with keepUndecodable := false }
        Ledger.prices.transport = .ok strict ∧
      Scan.priceViews.fetchWith .standard { FetchOptions.standard with keepUndecodable := true }
        Ledger.prices.transport = .ok lenient ∧
      strict.records.Sublist lenient.records ∧
      strict.records.map Record.pubkey? = [some "five", some "again", some "five", some "again",
        some "five", some "six", some "odd", some "again"] ∧
      lenient.records.map Record.pubkey? = [some "five", some "odd", some "again", some "five",
        some "again", some "five", some "six", some "odd", some "again"] ∧
      (lenient.returned.filter fun entry => entry.1.KeptBare Schema.orders entry.2).map
        (fun entry => (entry.1.node, entry.2.pubkey)) = [(1, "odd")] := by
  obtain ⟨strict, lenient, hstrict, hlenient, _, hsublist, _⟩ :=
    Scan.priceViews.fetchWith_keepUndecodable .standard .standard Ledger.prices.transport rfl
  refine ⟨strict, lenient, hstrict, hlenient, hsublist, ?_⟩
  cases hstrict
  cases hlenient
  exact ⟨by decide +kernel, by decide +kernel, by decide +kernel⟩

/-- A leaf that wants no field. -/
def Scan.unseen : Scan :=
  { Scan.ofRecord (Schema.empty.withStruct "R" [⟨"a", .primitive .u8⟩]) "R" with
    leaves := [(Leaf.ofAddress "p").selectNothing] }

/-- An answer with one account, whose data are no base64. -/
def Rpc.Transport.garbled : Rpc.Transport :=
  .ofReplies [.ok (.list [.ofPairs [("result", .list [.ofPairs [("pubkey", .text "k"),
    ("account", .ofPairs [("data", .text "!!!")])]])]])]

/-- Not every account that cannot be decoded and is accepted without fields is added: here it is a
    record already, and nothing is added to it. -/
theorem fetch_unseen :
    ∃ strict lenient plan account,
      Scan.unseen.fetchWith .standard { FetchOptions.standard with keepUndecodable := false }
        .garbled = .ok strict ∧
      Scan.unseen.fetchWith .standard { FetchOptions.standard with keepUndecodable := true }
        .garbled = .ok lenient ∧
      lenient.returned = [(plan, account)] ∧
      (∃ e, plan.Undecodable Scan.unseen.schema account e) ∧
      (∀ p ∈ plan.pushdown.predicates, p.2 .null [] = true) ∧
      strict.records.length = 1 ∧ lenient.records.length = 1 ∧
      ¬ Interleaved strict.records [plan.bare .standard account] lenient.records := by
  refine ⟨_, _, _, ⟨"k", "!!!"⟩, rfl, rfl, rfl, ⟨_, .base64 rfl⟩, nofun, rfl, rfl, fun h => ?_⟩
  exact absurd h.length (by decide)

end LedgerScan
