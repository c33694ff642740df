import LedgerScan.Proofs.Rpc.Lossless
import LedgerScan.Proofs.Scan.Alike
import LedgerScan.Proofs.Scan.Filters
import LedgerScan.Proofs.Scan.Predicates

/-!
# The order of conditions

A leaf stands for the same test in whatever order its conditions were set. Whether it can be planned
is a matter of each condition alone, predicates are asked until one rejects and so all must accept,
and bytes are sorted by their offsets. Only where two conditions compare bytes at one offset does
their order show in the request: one of the two fields has no bytes then.

* `sortByOffset_of_perm`: bytes at different offsets are sorted in one way only;
* `planLeaf_reordered`: leaves with the same conditions are planned alike;
* `Scan.fetchWith_reordered`: so are scans with such a leaf, and runs of both are the same.
-/

namespace LedgerScan

open Fallible

/-! ## 1. Bytes at different offsets -/

/-- **Bytes at different offsets are sorted in one way only.** -/
theorem RecordLayout.sortByOffset_of_perm {entries others : List (Nat × List UInt8)}
    (perm : entries.Perm others) (distinct : (entries.map Prod.fst).Nodup) :
    sortByOffset entries = sortByOffset others := by
  have hperm : (sortByOffset entries).Perm (sortByOffset others) :=
    (perm_sortByOffset entries).trans (perm.trans (perm_sortByOffset others).symm)
  refine hperm.eq_of_pairwise (fun a b ha hb hab hba => ?_) (pairwise_sortByOffset entries)
    (pairwise_sortByOffset others)
  have ha : a ∈ entries := mem_sortByOffset.mp ha
  have hb : b ∈ entries := perm.mem_iff.mpr (mem_sortByOffset.mp hb)
  exact List.inj_on_of_nodup_map distinct ha hb (Nat.le_antisymm hab hba)

section Conditions

variable {layout : RecordLayout} {conditions others : Conditions} {literal : Nat × List UInt8}
  {entry : String × Condition}

/-- Conditions that compare bytes are on fields at different offsets. -/
def Conditions.SeparateIn (conditions : Conditions) (layout : RecordLayout) : Prop :=
  ∀ a ∈ conditions.entries, ∀ b ∈ conditions.entries,
    a.2.comparesBytes = true → b.2.comparesBytes = true →
    ∀ p q, layout.find? a.1 = some p → layout.find? b.1 = some q → p.offset = q.offset → a.1 = b.1

/-- Where no two fields start at one offset, no conditions do. -/
theorem Conditions.separateIn_of_nodup (conditions : Conditions)
    (distinct : (layout.fields.map (·.2.offset)).Nodup) : conditions.SeparateIn layout := by
  intro a _ b _ _ _ p q hp hq hoffset
  have hsame : (a.1, p) = (b.1, q) := List.inj_on_of_nodup_map distinct
    (RecordLayout.mem_of_find? hp) (RecordLayout.mem_of_find? hq) hoffset
  exact (Prod.mk.inj hsame).1

theorem literal?_eq_some (h : layout.literal? entry = some literal) :
    entry.2.comparesBytes = true ∧
      ∃ place, layout.find? entry.1 = some place ∧ literal.1 = place.offset := by
  obtain ⟨place, hfind, hbytes⟩ := Option.bind_eq_some_iff.mp h
  obtain ⟨bytes, hbytes, rfl⟩ := Option.map_eq_some_iff.mp hbytes
  refine ⟨?_, place, hfind, rfl⟩
  cases hcondition : entry.2 with
  | eq _ | isNull => rfl
  | satisfies _ =>
    rw [hcondition] at hbytes
    cases hbytes

theorem nodup_offsets (distinct : conditions.fields.Nodup)
    (separate : conditions.SeparateIn layout) :
    ((conditions.entries.filterMap layout.literal?).map Prod.fst).Nodup := by
  have hnames : conditions.entries.Pairwise fun a b => a.1 ≠ b.1 := List.pairwise_map.mp distinct
  refine List.pairwise_map.mpr (List.pairwise_filterMap.mpr ?_)
  refine hnames.imp_of_mem fun {a b} ha hb hne x hx y hy hxy => hne ?_
  obtain ⟨hcompares, p, hp, hoffset⟩ := literal?_eq_some hx
  obtain ⟨hcompares', q, hq, hoffset'⟩ := literal?_eq_some hy
  exact separate a ha b hb hcompares hcompares' p q hp hq
    (hoffset.symm.trans (hxy.trans hoffset'))

/-- Conditions that come from calls have no order but the one in which they stand. -/
theorem Conditions.perm_ofCalls {calls others : List (String × Condition)}
    (same : ∀ entry, entry ∈ (ofCalls calls).entries ↔ entry ∈ (ofCalls others).entries) :
    (ofCalls calls).entries.Perm (ofCalls others).entries :=
  (List.perm_ext_iff_of_nodup (nodup_fields_ofCalls calls).of_map
    (nodup_fields_ofCalls others).of_map).mpr same

/-! ## 2. Plans -/

variable {scan : Scan} {commitment : Commitment} {leaf : Leaf} {number : Nat} {p q : LeafPlan}

theorem literals_reordered (perm : conditions.entries.Perm others.entries)
    (distinct : conditions.fields.Nodup) (separate : conditions.SeparateIn layout)
    {selection : Selection} {discriminator : List UInt8} {pushdown pushdown' : Pushdown}
    (planned : layout.pushDown conditions selection discriminator = .ok pushdown)
    (planned' : layout.pushDown others selection discriminator = .ok pushdown') :
    pushdown.literals = pushdown'.literals := by
  rw [(literals_of_pushDown planned).2, (literals_of_pushDown planned').2,
    RecordLayout.sortByOffset_of_perm (perm.filterMap _) (nodup_offsets distinct separate)]

/-- **Leaves with the same conditions in another order are planned alike.** -/
theorem planLeaf_reordered (perm : conditions.entries.Perm others.entries)
    (distinct : conditions.fields.Nodup) (separate : conditions.SeparateIn layout) :
    SucceedAlike LeafPlan.Alike (scan.planLeaf layout commitment (leaf.filtered conditions) number)
      (scan.planLeaf layout commitment (leaf.filtered others) number) := by
  -- the errors may differ: the first condition that does not fit decides
  refine succeedAlike_iff.mpr ⟨?_, fun p q hp hq => ?_⟩
  · rw [Scan.exists_planLeaf_iff, Scan.exists_planLeaf_iff]
    simp only [Leaf.filtered, perm.mem_iff]
  · obtain ⟨hwindow, _, hfields⟩ := cut_and_fields_of_selection hp hq rfl
    obtain ⟨_, pushdown, hpushdown, rfl⟩ := Scan.planLeaf_eq_ok.mp hp
    obtain ⟨_, pushdown', hpushdown', rfl⟩ := Scan.planLeaf_eq_ok.mp hq
    have hliterals := literals_reordered perm distinct separate hpushdown hpushdown'
    have htotal : pushdown.totalLength = pushdown'.totalLength :=
      (literals_of_pushDown hpushdown).1.trans (literals_of_pushDown hpushdown').1.symm
    have hpredicates : pushdown.predicates.Perm pushdown'.predicates := by
      rw [RecordLayout.predicates_of_pushDown hpushdown,
        RecordLayout.predicates_of_pushDown hpushdown']
      exact perm.filterMap _
    exact ⟨Pushdown.request_eq_of hliterals htotal (fun _ => hwindow) _ _,
      fun schema => LeafPlan.rebuild?_congr (hfields schema) hpredicates rfl rfl⟩

end Conditions

/-! ## 3. Runs -/

/-- **The order of conditions is immaterial.** Let a leaf get its conditions from two series of
    calls after which the same conditions stand, in whatever order, and let no two of them compare
    bytes at one offset. Then the leaf can be planned with both or with neither, and the request is
    the same. A scan with this leaf among others can be fetched with both or with neither, and then
    the same is posted and the records are the same, whatever comes back over the transport. -/
theorem Scan.fetchWith_reordered (scan : Scan) (leaf : Leaf)
    {calls others : List (String × Condition)}
    (same : ∀ entry, entry ∈ (Conditions.ofCalls calls).entries ↔
      entry ∈ (Conditions.ofCalls others).entries)
    (separate : ∀ layout, scan.schema.layoutOf scan.record = .ok layout →
      (Conditions.ofCalls calls).SeparateIn layout) :
    (∀ layout, scan.schema.layoutOf scan.record = .ok layout → ∀ commitment number,
      let plan? := fun conditions =>
        scan.planLeaf layout commitment (leaf.filtered conditions) number
      ((∃ plan, plan? (.ofCalls calls) = .ok plan) ↔
        ∃ plan, plan? (.ofCalls others) = .ok plan) ∧
      ∀ plan other, plan? (.ofCalls calls) = .ok plan → plan? (.ofCalls others) = .ok other →
        plan.request = other.request) ∧
    ∀ before after connection options transport,
      let fetch? := fun conditions =>
        { scan with leaves := before ++ leaf.filtered conditions :: after }.fetchWith connection
          options transport
      ((∃ run, fetch? (.ofCalls calls) = .ok run) ↔
        ∃ run, fetch? (.ofCalls others) = .ok run) ∧
      ∀ run other, fetch? (.ofCalls calls) = .ok run → fetch? (.ofCalls others) = .ok other →
        run.posts = other.posts ∧ run.records = other.records := by
  have perm := Conditions.perm_ofCalls same
  have hplans : ∀ layout, scan.schema.layoutOf scan.record = .ok layout → ∀ commitment,
      scan.PlansAlike scan layout commitment (leaf.filtered (.ofCalls calls))
        (leaf.filtered (.ofCalls others)) :=
    fun layout laid commitment number =>
      planLeaf_reordered perm (Conditions.nodup_fields_ofCalls calls) (separate layout laid)
  refine ⟨fun layout laid commitment number => ?_,
    fun before after connection options transport => ?_⟩
  · obtain ⟨both, halike⟩ := succeedAlike_iff.mp (hplans layout laid commitment number)
    exact ⟨both, fun plan other hplan hother => (halike plan other hplan hother).request⟩
  · exact succeedAlike_iff.mp
      (scan.fetchWith_replace before after fun layout laid => hplans layout laid _)

/-- Bytes of a field without any, and of the one behind it, keep the order of the conditions. -/
example :
    (Schema.narrowLayout.pushDown (.ofCalls [("gap", .isNull), ("b", .isNull)]) .all []).map
        Pushdown.literals = .ok [(1, []), (1, [0])] ∧
      (Schema.narrowLayout.pushDown (.ofCalls [("b", .isNull), ("gap", .isNull)]) .all []).map
        Pushdown.literals = .ok [(1, [0]), (1, [])] := by
  decide

/-- A price below a hundred. -/
def cheap : Predicate := fun value _ =>
  match value with
  | .number (.int price) => decide (price < 100)
  | _ => false

/-- Conditions on an order from its side to its size. -/
def cheapCalls : List (String × Condition) :=
  [("side", .eq (.bytes [1])), ("price", .satisfies cheap), ("size", .eq (.bytes [3]))]

/-- The same from its size to its side, with the size set once more. -/
def cheapCallsBack : List (String × Condition) :=
  [("size", .isNull), ("price", .satisfies cheap), ("side", .eq (.bytes [1])),
    ("size", .eq (.bytes [3]))]

/-- All orders of one book, and those of another that satisfy some conditions. -/
def Scan.otherAndBook (conditions : Conditions) : Scan :=
  { Scan.twoBooks with
    leaves := [.ofAddress "other", (Leaf.ofAddress "book").filtered conditions] }

/-- Set from either end, the conditions keep the same order of the second book. -/
theorem fetch_cheapCalls :
    ∃ run other,
      (Scan.otherAndBook (.ofCalls cheapCalls)).fetchWith .standard .standard
        Ledger.bidAndAsk.transport = .ok run ∧
      (Scan.otherAndBook (.ofCalls cheapCallsBack)).fetchWith .standard .standard
        Ledger.bidAndAsk.transport = .ok other ∧
      run.posts = other.posts ∧ run.records = other.records ∧
      run.records.map Record.pubkey? = [some "bid", some "ask", some "ask"] := by
  have laid : Schema.orders.layoutOf "Order" = .ok Schema.ordersLayout := by decide +kernel
  have same : ∀ entry, entry ∈ (Conditions.ofCalls cheapCalls).entries ↔
      entry ∈ (Conditions.ofCalls cheapCallsBack).entries := fun _ => List.mem_reverse.symm
  obtain ⟨_, hfetch⟩ := Scan.twoBooks.fetchWith_reordered (Leaf.ofAddress "book") same
    fun layout h => by
      cases laid.symm.trans h
      exact Conditions.separateIn_of_nodup _ (by decide)
  obtain ⟨both, hruns⟩ := hfetch [.ofAddress "other"] [] .standard .standard
    Ledger.bidAndAsk.transport
  obtain ⟨other, hother⟩ := both.mp ⟨_, rfl⟩
  obtain ⟨hposts, hrecords⟩ := hruns _ other rfl hother
  exact ⟨_, other, rfl, hother, hposts, hrecords, by decide +kernel⟩

end LedgerScan
