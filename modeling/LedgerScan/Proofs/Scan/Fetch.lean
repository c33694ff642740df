import LedgerScan.Proofs.Borsh.Zeros
import LedgerScan.Proofs.Record.Window
import LedgerScan.Proofs.Rpc.Ledger
import LedgerScan.Scan.Fetch

/-!
# Fetching from an honest node

What a leaf asks for can be said without any request: an account matches if its data have the
length of the record, start with its discriminator and hold at the place of every field what the
condition on it asks for, and if the predicates accept what is shown of it. `Leaf.admits` and
`Leaf.accepts` say so of whole accounts, `Leaf.record` is what such an account is shown as.

A run does none of this itself. It turns the conditions into tests of the node and gets windows
back. That nothing is lost or added on the way is shown part by part:

* the node's tests admit the same data (`tests_admit`);
* a window shows the same fields as the whole data (`fields_cut`);
* `fetchWith_ledger`: the records are those of the matching accounts, in the order of the node.
-/

namespace LedgerScan

open Fallible

/-! ## 1. What a leaf asks for -/

/-- Whether the bytes at a place are what a condition asks for. A predicate asks for none. -/
def Condition.admits (condition : Condition) (place : Placement) (data : List UInt8) : Bool :=
  match condition with
  | .eq literal => place.slice data == literal.encode
  | .isNull => place.slice data == List.replicate place.length 0
  | .satisfies _ => true

/-- Whether a condition accepts its field among those that are shown. Bytes were tested before. -/
def Condition.accepts (condition : Condition) (field : String) (shown : Entries Json) : Bool :=
  match condition with
  | .satisfies predicate => predicate ((Entries.get? field shown).getD .null) shown
  | .eq _ | .isNull => true

namespace Leaf

/-- Whether data have the length of a record, its discriminator in front and at every place what
    the condition on it asks for. A record without any bytes leaves the length open. -/
def admits (leaf : Leaf) (layout : RecordLayout) (discriminator data : List UInt8) : Bool :=
  (layout.totalLength == 0 || data.length == layout.totalLength)
  && discriminator.isPrefixOf data
  && leaf.conditions.entries.all fun entry =>
    match layout.find? entry.1 with
    | some place => entry.2.admits place data
    | none => false

theorem length_of_admits {leaf : Leaf} {layout : RecordLayout} {discriminator data : List UInt8}
    (h : leaf.admits layout discriminator data = true) :
    0 < layout.totalLength → data.length = layout.totalLength := by
  rw [admits, Bool.and_eq_true, Bool.and_eq_true, Bool.or_eq_true, beq_iff_eq, beq_iff_eq] at h
  omega

/-- Whether all predicates accept the fields that are shown. -/
def accepts (leaf : Leaf) (shown : Entries Json) : Bool :=
  leaf.conditions.entries.all fun entry => entry.2.accepts entry.1 shown

/-- The wanted fields of data that are decoded in full. -/
def shown (leaf : Leaf) (schema : Schema) (record : String) (data : List UInt8) : Entries Json :=
  match schema.decodeRecord record data with
  | .ok decoded => decoded.filter fun entry => leaf.selection.wants entry.1
  | .error _ => []

/-- What an account is shown as. -/
def record (leaf : Leaf) (scan : Scan) (options : FetchOptions) (account : StoredAccount) :
    Record where
  fields := leaf.shown scan.schema scan.record account.data
  metadata :=
    if options.metadata then
      some {
        extra := Entries.erase Metadata.requestKey (Entries.erase Metadata.pubkeyKey leaf.metadata)
        pubkey := account.pubkey
        requestId := leaf.requestId.getD standardRequestId }
    else none

end Leaf

/-! ## 2. The tests of the node -/

section Tests

variable {layout : RecordLayout} {conditions : Conditions} {discriminator data : List UInt8}
  {pushdown : Pushdown}

/-- Bytes stand at an offset of the data. -/
def Stands (data : List UInt8) (literal : Nat × List UInt8) : Prop :=
  literal.1 + literal.2.length ≤ data.length ∧
    (data.drop literal.1).take literal.2.length = literal.2

theorem all_tests_iff (pushdown : Pushdown) (data : List UInt8) :
    pushdown.tests.all (NodeTest.admits data) = true ↔
      (0 < pushdown.totalLength → data.length = pushdown.totalLength) ∧
      ∀ literal ∈ pushdown.literals, Stands data literal := by
  have hsize : (pushdown.dataSize?.toList.map NodeTest.dataSize).all (NodeTest.admits data) = true ↔
      (0 < pushdown.totalLength → data.length = pushdown.totalLength) := by
    unfold Pushdown.dataSize?
    by_cases h : 0 < pushdown.totalLength <;> simp [h, NodeTest.admits]
  rw [Pushdown.tests, List.all_append, Bool.and_eq_true, hsize, and_comm, List.all_map,
    List.all_eq_true]
  simp [NodeTest.admits, Stands]

theorem forall_header_iff :
    (∀ literal ∈ RecordLayout.header discriminator, Stands data literal) ↔
      discriminator.isPrefixOf data = true := by
  rw [List.isPrefixOf_iff_prefix]
  cases discriminator with
  | nil => exact ⟨fun _ => List.nil_prefix, fun _ literal h => by cases h⟩
  | cons byte rest =>
    have hstands : Stands data (0, byte :: rest) ↔ byte :: rest <+: data := by
      unfold Stands
      rw [List.drop_zero, Nat.zero_add]
      exact ⟨fun h => List.prefix_iff_eq_take.mpr h.2.symm,
        fun h => ⟨h.length_le, (List.prefix_iff_eq_take.mp h).symm⟩⟩
    rw [← hstands]
    exact List.forall_mem_singleton

/-- What a condition on the field at a place becomes. -/
def Condition.testAt (condition : Condition) (field : String) (place : Placement) :
    (Nat × List UInt8) ⊕ (String × Predicate) :=
  match condition with
  | .eq literal => .inl (place.offset, literal.encode)
  | .isNull => .inl (place.offset, List.replicate place.length 0)
  | .satisfies predicate => .inr (field, predicate)

/-- Planned conditions are on fields of the record, and literals are as long as their fields. -/
theorem test_eq_ok {field : String} {condition : Condition}
    {test : (Nat × List UInt8) ⊕ (String × Predicate)}
    (h : layout.test field condition = .ok test) :
    ∃ place, layout.find? field = some place ∧ test = condition.testAt field place ∧
      ∀ literal, condition = .eq literal → literal.encode.length = place.length := by
  obtain ⟨place, hplace, h⟩ := except_bind_eq_ok.mp h
  refine ⟨place, RecordLayout.place_eq_ok.mp hplace, ?_⟩
  cases condition with
  | eq literal =>
    obtain ⟨found, hfound, h⟩ := except_bind_eq_ok.mp h
    unfold Placement.literal at hfound
    split at hfound
    · next hlength =>
        cases hfound
        cases h
        exact ⟨rfl, fun _ h => by cases h; exact hlength⟩
    · cases hfound
  | isNull => cases h; exact ⟨rfl, fun _ h => by cases h⟩
  | satisfies predicate => cases h; exact ⟨rfl, fun _ h => by cases h⟩

theorem stands_iff_slice {place : Placement} {bytes : List UInt8}
    (hlength : bytes.length = place.length) (inside : place.stop ≤ data.length) :
    Stands data (place.offset, bytes) ↔ place.slice data = bytes := by
  unfold Stands Placement.slice
  simp only [hlength]
  exact and_iff_right inside

/-- The bytes that a condition becomes stand in the data exactly if the data hold at the place of
    the field what the condition asks for. -/
theorem stands_test_iff {field : String} {condition : Condition}
    {test : (Nat × List UInt8) ⊕ (String × Predicate)} {place : Placement}
    (h : layout.test field condition = .ok test) (found : layout.find? field = some place)
    (inside : place.stop ≤ data.length) :
    (∀ literal, test = .inl literal → Stands data literal) ↔
      condition.admits place data = true := by
  obtain ⟨_, hfound, rfl, hlength⟩ := test_eq_ok h
  cases found.symm.trans hfound
  cases condition with
  | eq literal =>
    simp [Condition.testAt, Condition.admits, stands_iff_slice (hlength literal rfl) inside]
  | isNull =>
    simp [Condition.testAt, Condition.admits, stands_iff_slice List.length_replicate inside]
  | satisfies predicate => simp [Condition.testAt, Condition.admits]

/-- All the bytes that conditions become stand in the data exactly if the data hold at every place
    what the condition on it asks for. -/
theorem stands_conditions_iff {tests : List ((Nat × List UInt8) ⊕ (String × Predicate))}
    (planned : conditions.entries.mapM (fun entry => layout.test entry.1 entry.2) = .ok tests)
    (inside : ∀ field place, layout.find? field = some place → place.stop ≤ data.length) :
    (∀ literal ∈ tests.filterMap Sum.getLeft?, Stands data literal) ↔
      (conditions.entries.all fun entry =>
        match layout.find? entry.1 with
        | some place => entry.2.admits place data
        | none => false) = true := by
  obtain ⟨hto, hfrom⟩ := mem_of_mapM_ok planned
  rw [List.all_eq_true]
  constructor
  · intro h entry hentry
    obtain ⟨test, htest, hplanned⟩ := hto entry hentry
    obtain ⟨place, hfind, _⟩ := test_eq_ok hplanned
    rw [hfind]
    exact (stands_test_iff hplanned hfind (inside _ _ hfind)).mp fun literal hliteral =>
      h literal (List.mem_filterMap.mpr ⟨test, htest, by rw [hliteral]; rfl⟩)
  · intro h literal hliteral
    obtain ⟨test, htest, hleft⟩ := List.mem_filterMap.mp hliteral
    obtain ⟨entry, hentry, hplanned⟩ := hfrom test htest
    obtain ⟨place, hfind, _⟩ := test_eq_ok hplanned
    have hadmits := h entry hentry
    rw [hfind] at hadmits
    exact (stands_test_iff hplanned hfind (inside _ _ hfind)).mpr hadmits literal
      (Sum.getLeft?_eq_some_iff.mp hleft)

/-- **The node's tests admit the data that a leaf admits.** -/
theorem tests_admit {schema : Schema} {record : String} {leaf : Leaf}
    (laid : schema.layoutOf record = .ok layout)
    (planned : layout.pushDown leaf.conditions leaf.selection discriminator = .ok pushdown)
    (data : List UInt8) :
    pushdown.tests.all (NodeTest.admits data) = leaf.admits layout discriminator data := by
  obtain ⟨tests, window, htests, _, rfl⟩ := RecordLayout.pushDown_eq_ok.mp planned
  obtain ⟨_, _, _, _, placed⟩ := Schema.placed_of_layoutOf laid
  have hsize : (0 < layout.totalLength → data.length = layout.totalLength) ↔
      (layout.totalLength == 0 || data.length == layout.totalLength) = true := by
    rw [Bool.or_eq_true, beq_iff_eq, beq_iff_eq]
    omega
  rw [Bool.eq_iff_iff, all_tests_iff, Pushdown.literals_mk, Leaf.admits, Bool.and_eq_true,
    Bool.and_eq_true, ← hsize, and_assoc]
  -- only in data of the length of the record every place lies inside
  refine and_congr_right fun hlength => ?_
  have inside : ∀ field place, layout.find? field = some place → place.stop ≤ data.length := by
    intro field place hfind
    have hstop : place.stop ≤ layout.totalLength :=
      (placed.bounds _ (RecordLayout.mem_of_find? hfind)).2.1
    have hlength' : 0 < layout.totalLength → data.length = layout.totalLength := hlength
    omega
  simp only [RecordLayout.mem_sortByOffset, List.mem_append, or_imp, forall_and]
  rw [forall_header_iff, stands_conditions_iff htests inside]

/-- **The predicates of a plan accept what the conditions accept.** -/
theorem accepts_predicates {leaf : Leaf}
    (planned : layout.pushDown leaf.conditions leaf.selection discriminator = .ok pushdown)
    (shown : Entries Json) :
    LeafPlan.accepts pushdown.predicates shown = leaf.accepts shown := by
  obtain ⟨tests, window, htests, _, rfl⟩ := RecordLayout.pushDown_eq_ok.mp planned
  obtain ⟨hto, hfrom⟩ := mem_of_mapM_ok htests
  rw [Pushdown.predicates_mk, Bool.eq_iff_iff, LeafPlan.accepts, Leaf.accepts, List.all_eq_true,
    List.all_eq_true]
  constructor
  · intro h entry hentry
    obtain ⟨test, htest, hentry⟩ := hto entry hentry
    obtain ⟨_, _, rfl, _⟩ := test_eq_ok hentry
    cases hcondition : entry.2 with
    | satisfies predicate =>
      rw [hcondition] at htest
      exact h (entry.1, predicate) (List.mem_filterMap.mpr ⟨_, htest, rfl⟩)
    | eq _ => rfl
    | isNull => rfl
  · intro h predicate hpredicate
    obtain ⟨test, htest, hright⟩ := List.mem_filterMap.mp hpredicate
    obtain ⟨entry, hentry, hentrytest⟩ := hfrom test htest
    have haccepts := h entry hentry
    obtain ⟨_, _, rfl, _⟩ := test_eq_ok hentrytest
    cases hcondition : entry.2 with
    | satisfies test =>
      rw [hcondition] at hright haccepts
      cases hright
      exact haccepts
    | eq _ => rw [hcondition] at hright; cases hright
    | isNull => rw [hcondition] at hright; cases hright

end Tests

/-! ## 3. The fields that are shown -/

section Shown

variable {schema : Schema} {record : String} {layout : RecordLayout} {names : List String}
  {window : Window} {data : List UInt8}

/-- Of data that are decoded in full every padded window is decoded: what was cut off is zeros. -/
theorem exists_value_of_bytesAt (window : Window) (laid : schema.layoutOf record = .ok layout)
    (size : data.length = layout.totalLength) {decoded : Entries Json}
    (h : schema.decodeRecord record data = .ok decoded) :
    ∀ p ∈ layout.fields, ∃ value,
      schema.decodeValue p.2.type (window.bytesAt data p.2) = .ok (value, []) := by
  intro p hp
  obtain ⟨_, _, _, _, placed⟩ := Schema.placed_of_layoutOf laid
  obtain ⟨value, hvalue⟩ := ((Schema.decodeRecord_eq_ok laid size.ge).mp h).1 p hp
  unfold Window.bytesAt
  split
  · exact ⟨value, hvalue⟩
  · exact Schema.exists_value_of_zeros (placed.bounds p hp).2.2.2 hvalue

/-- **A window shows the selected fields as the whole data do.** -/
theorem shown_window_eq (laid : schema.layoutOf record = .ok layout)
    (distinct : layout.names.Nodup) (aligned : layout.Aligned window)
    (covered : ∀ name ∈ names, ∃ place, layout.find? name = some place ∧ window.Covers place)
    (size : data.length = layout.totalLength) {decoded : Entries Json}
    (h : schema.decodeRecord record data = .ok decoded) :
    ∃ padded,
      schema.decodeRecord record (window.pad layout.totalLength (window.cut data)) = .ok padded ∧
      padded.filter (fun entry => names.contains entry.1)
        = decoded.filter (fun entry => names.contains entry.1) := by
  have hall := exists_value_of_bytesAt window laid size h
  refine ⟨_, (decodeRecord_pad_eq_ok laid aligned size).mpr ⟨hall, rfl⟩, ?_⟩
  rw [((Schema.decodeRecord_eq_ok laid size.ge).mp h).2]
  refine Entries.ext_of_sorted ((Entries.sorted_ofList _).filter _)
    ((Entries.sorted_ofList _).filter _) fun name => ?_
  rw [Entries.get?_filter names.contains, Entries.get?_filter names.contains]
  split
  · next hname =>
    obtain ⟨place, hfind, hcovers⟩ := covered name (by simpa using hname)
    rw [get?_ofList_valueAt distinct hfind, get?_ofList_valueAt distinct hfind,
      valueAt_pad laid aligned size (RecordLayout.mem_of_find? hfind) hcovers]
  · rfl

end Shown

/-- What the node reads from the request of a plan. -/
def LeafPlan.query (plan : LeafPlan) : NodeQuery :=
  ⟨plan.address, plan.pushdown.tests, plan.pushdown.asked⟩

section Leaf

variable {scan : Scan} {layout : RecordLayout} {commitment : Commitment} {leaf : Leaf}
  {number : Nat} {plan : LeafPlan} {data : List UInt8}

theorem LeafPlan.cut_eq (plan : LeafPlan) (data : List UInt8) :
    plan.query.cut data = match plan.pushdown.asked with
      | some window => window.cut data
      | none => data := rfl

/-- Where no field is wanted none is shown. -/
theorem fields_nothing (hselection : plan.selection = leaf.selection)
    (h : leaf.selection = .nothing) (account : RawAccount) :
    plan.fields scan.schema account = .ok (leaf.shown scan.schema scan.record data) := by
  have hshown : leaf.shown scan.schema scan.record data = [] := by
    unfold Leaf.shown
    rw [h]
    split
    · exact List.filter_eq_nil_iff.mpr fun _ _ => Bool.false_ne_true
    · rfl
  rw [hshown, LeafPlan.fields, if_pos (hselection.trans h)]

/-- Where the whole data come back, what is decoded from them is shown. -/
theorem fields_whole (hselection : plan.selection = leaf.selection)
    (hrecord : plan.record = scan.record) (hsome : leaf.selection ≠ .nothing)
    (hasked : plan.pushdown.asked = none) {decoded : Entries Json}
    (hwhole : scan.schema.decodeRecord scan.record (plan.wholeData data) = .ok decoded)
    (h : scan.schema.decodeRecord scan.record data = .ok decoded) (pubkey : String) :
    plan.fields scan.schema ⟨pubkey, Base64.encode (plan.query.cut data)⟩
      = .ok (leaf.shown scan.schema scan.record data) := by
  rw [LeafPlan.cut_eq, hasked]
  refine (LeafPlan.fields_eq_ok (hselection ▸ hsome)).mpr ⟨decoded, ?_, ?_⟩
  · rw [hrecord]
    exact hwhole
  · rw [Leaf.shown, h, hselection]

theorem LeafPlan.wholeData_of_no_window (h : plan.pushdown.window = none) :
    plan.wholeData data = data := by
  unfold LeafPlan.wholeData
  split
  · next hwindow => rw [h] at hwindow; cases hwindow
  · rfl

/-- Only a selection of some fields asks for a window and shows something of it. -/
theorem exists_names_of_window {selection : Selection} {window : Window}
    (h : layout.window selection = .ok (some window)) (hsome : selection ≠ .nothing) :
    ∃ names, selection = .fields names ∧ names ≠ [] := by
  match selection with
  | .all => cases h
  | .nothing => exact absurd rfl hsome
  | .fields [] => cases h
  | .fields (name :: names) => exact ⟨_, rfl, List.cons_ne_nil _ _⟩

/-- **What comes back of an account shows what the whole account does.** -/
theorem fields_cut (laid : scan.schema.layoutOf scan.record = .ok layout)
    (distinct : layout.names.Nodup)
    (planned : scan.planLeaf layout commitment leaf number = .ok plan)
    (size : 0 < layout.totalLength → data.length = layout.totalLength)
    {decoded : Entries Json} (h : scan.schema.decodeRecord scan.record data = .ok decoded)
    (pubkey : String) :
    plan.fields scan.schema ⟨pubkey, Base64.encode (plan.query.cut data)⟩
      = .ok (leaf.shown scan.schema scan.record data) := by
  obtain ⟨_, pushdown, hpushdown, hparts⟩ := Scan.planLeaf_eq_ok.mp planned
  obtain ⟨tests, found, _, hfound, htests⟩ := RecordLayout.pushDown_eq_ok.mp hpushdown
  have hrecord : plan.record = scan.record := by rw [hparts]
  have hselection : plan.selection = leaf.selection := by rw [hparts]
  have hwindow : plan.pushdown.window = found := by rw [hparts, htests]
  have htotal : plan.pushdown.totalLength = layout.totalLength := by rw [hparts, htests]
  have hasked : plan.pushdown.asked = if 0 < layout.totalLength then found else none := by
    rw [Pushdown.asked, htotal, hwindow]
  by_cases hsome : leaf.selection = .nothing
  · exact fields_nothing hselection hsome _
  cases found with
  | none =>
    rw [ite_self] at hasked
    exact fields_whole hselection hrecord hsome hasked
      (by rw [LeafPlan.wholeData_of_no_window hwindow]; exact h) h pubkey
  | some window =>
    obtain ⟨names, hkind, nonempty⟩ := exists_names_of_window hfound hsome
    rw [hkind] at hfound
    obtain ⟨_, hsame, aligned, covered⟩ := aligned_of_window laid hfound nonempty
    cases hsame
    have hpad := LeafPlan.wholeData_of_window (hselection.trans hkind) nonempty hwindow
    by_cases hpositive : 0 < layout.totalLength
    · obtain ⟨padded, hpadded, hfilter⟩ :=
        shown_window_eq laid distinct aligned covered (size hpositive) h
      rw [LeafPlan.cut_eq, hasked, if_pos hpositive]
      refine (LeafPlan.fields_eq_ok (hselection ▸ hsome)).mpr ⟨padded, ?_, ?_⟩
      · rw [hpad, htotal, hrecord]
        exact hpadded
      · rw [Leaf.shown, h, hselection, hkind]
        exact hfilter.symm
    · -- a record without bytes is decoded from any data, and no window is asked for
      have hzero : layout.totalLength = 0 := Nat.eq_zero_of_not_pos hpositive
      obtain ⟨_, _, _, _, placed⟩ := Schema.placed_of_layoutOf laid
      refine fields_whole hselection hrecord hsome (by rw [hasked, if_neg hpositive]) ?_ h pubkey
      refine (Schema.decodeRecord_congr laid (hzero.trans_le (Nat.zero_le _))
        (hzero.trans_le (Nat.zero_le _)) fun p hp => ?_).mpr h
      have hstop : p.2.offset + p.2.length = 0 :=
        Nat.eq_zero_of_le_zero ((placed.bounds p hp).2.1.trans hzero.le)
      rw [Placement.slice, Placement.slice, (Nat.add_eq_zero_iff.mp hstop).2, List.take_zero,
        List.take_zero]

/-- An account that comes back becomes its record exactly if the predicates accept it. -/
theorem rebuild?_cut {account : StoredAccount}
    (laid : scan.schema.layoutOf scan.record = .ok layout) (distinct : layout.names.Nodup)
    (planned : scan.planLeaf layout commitment leaf number = .ok plan)
    (size : 0 < layout.totalLength → account.data.length = layout.totalLength)
    {decoded : Entries Json}
    (h : scan.schema.decodeRecord scan.record account.data = .ok decoded)
    (options : FetchOptions) :
    plan.rebuild? scan.schema options
        ⟨account.pubkey, Base64.encode (plan.query.cut account.data)⟩
      = if leaf.accepts (leaf.shown scan.schema scan.record account.data) then
          some (leaf.record scan options account)
        else none := by
  have hfields := fields_cut laid distinct planned size h account.pubkey
  obtain ⟨_, pushdown, hpushdown, hparts⟩ := Scan.planLeaf_eq_ok.mp planned
  have hpredicates : plan.pushdown.predicates = pushdown.predicates := by rw [hparts]
  have hmetadata : plan.metadataFor ⟨account.pubkey, Base64.encode (plan.query.cut account.data)⟩
      = ⟨Entries.erase Metadata.requestKey (Entries.erase Metadata.pubkeyKey leaf.metadata),
          account.pubkey, leaf.requestId.getD standardRequestId⟩ := by
    rw [LeafPlan.metadataFor, hparts]
  unfold LeafPlan.rebuild? LeafPlan.shown?
  simp only [hfields, hpredicates, hmetadata, accepts_predicates hpushdown]
  rfl

end Leaf

/-! ## 4. Runs -/

theorem batches_singleton (size : Nat) (request : Json) :
    Rpc.batches size [request] = [[request]] := by
  have hsize : [request].length ≤ max size 1 := Nat.le_max_right _ _
  show [request].take (max size 1) :: Rpc.chunks (max size 1) 0 ([request].drop (max size 1)) = _
  rw [List.take_of_length_le hsize, List.drop_of_length_le hsize]
  rfl

/-- A run of one plan gets from an honest node the accounts that its query keeps. -/
theorem returned_singleton {run : Fetch} {plan : LeafPlan} {ledger : Ledger}
    (single : run.plans = [plan]) (honest : run.transport = ledger.transport)
    (hread : NodeQuery.ofJson? plan.request = some plan.query) :
    run.returned = (ledger.kept plan.query).map fun account =>
      (plan, ⟨account.pubkey, Base64.encode (plan.query.cut account.data)⟩) := by
  have hexchanges : run.exchanges.flatMap Rpc.Exchange.accounts
      = [Rpc.accounts (ledger.answer plan.request)] := by
    unfold Fetch.exchanges Fetch.requests Rpc.exchanges
    rw [single, honest, List.map_singleton, batches_singleton]
    rfl
  unfold Fetch.returned
  rw [hexchanges, single, accounts_answer hread]
  simp [Function.comp_def]

/-- Keeping with one test and rebuilding some of what is kept is keeping with both. -/
theorem filterMap_filter_eq {α β : Type} {p q : α → Bool} {f : α → β} {g : α → Option β}
    {xs : List α} (h : ∀ x ∈ xs, p x = true → g x = if q x then some (f x) else none) :
    (xs.filter p).filterMap g = (xs.filter fun x => p x && q x).map f := by
  induction xs with
  | nil => rfl
  | cons x xs ih =>
    rw [List.forall_mem_cons] at h
    have ih := ih h.2
    cases hp : p x with
    | false => simp [hp, ih]
    | true =>
      have hg := h.1 hp
      cases hq : q x <;> simp [hp, hq, hg, ih]

/-- The plan of a scan with one leaf is the plan of the leaf. -/
theorem plan_singleton {scan : Scan} {layout : RecordLayout} {commitment : Commitment} {leaf : Leaf}
    {plans : List LeafPlan} (laid : scan.schema.layoutOf scan.record = .ok layout)
    (single : scan.leaves = [leaf]) (planned : scan.plan commitment = .ok plans) :
    ∃ plan, scan.planLeaf layout commitment leaf 1 = .ok plan ∧ plans = [plan] := by
  unfold Scan.plan at planned
  rw [single, laid] at planned
  obtain ⟨plan, hplan, h⟩ := except_bind_eq_ok.mp planned
  cases h
  exact ⟨plan, hplan, rfl⟩

/-- **Fetching from an honest node is sound and complete.** A scan with one leaf that can be planned
    is carried out, whatever the options, and its records are those of the accounts that match: in
    the order of the node, one for each account whose data have the length of the record, start
    with its discriminator and hold what the conditions ask for at the places of their fields, and
    whose shown fields the predicates accept. -/
theorem Scan.fetchWith_ledger (scan : Scan) (connection : Connection) (options : FetchOptions)
    (ledger : Ledger) {leaf : Leaf} (single : scan.leaves = [leaf]) {layout : RecordLayout}
    (laid : scan.schema.layoutOf scan.record = .ok layout) (distinct : layout.names.Nodup)
    {plans : List LeafPlan} (planned : scan.plan connection.resolve.1 = .ok plans)
    (decodable : ∀ account ∈ ledger leaf.address,
      leaf.admits layout (scan.schema.discriminator scan.record) account.data = true →
      ∃ decoded, scan.schema.decodeRecord scan.record account.data = .ok decoded) :
    ∃ run, scan.fetchWith connection options ledger.transport = .ok run ∧
      run.records = ((ledger leaf.address).filter fun account =>
          leaf.admits layout (scan.schema.discriminator scan.record) account.data
          && leaf.accepts (leaf.shown scan.schema scan.record account.data)).map
        (leaf.record scan options) := by
  obtain ⟨plan, hplan, rfl⟩ := plan_singleton laid single planned
  obtain ⟨_, pushdown, hpushdown, hparts⟩ := planLeaf_eq_ok.mp hplan
  let run : Fetch := ⟨scan, options, [plan], connection.resolve.2, ledger.transport⟩
  have hread : NodeQuery.ofJson? plan.request = some plan.query := by
    rw [hparts]
    exact ofJson?_request _ _ _
  have hadmits : ∀ data, plan.query.admits data
      = leaf.admits layout (scan.schema.discriminator scan.record) data := by
    intro data
    rw [hparts]
    exact tests_admit laid hpushdown data
  have hkept : ledger.kept plan.query = (ledger leaf.address).filter fun account =>
      leaf.admits layout (scan.schema.discriminator scan.record) account.data := by
    simp only [Ledger.kept, hadmits]
    rw [hparts]
    rfl
  refine ⟨run, ?_, ?_⟩
  · show (scan.plan connection.resolve.1).map _ = _
    rw [planned]
    rfl
  · unfold Fetch.records
    rw [returned_singleton rfl rfl hread, List.filterMap_map, hkept]
    refine filterMap_filter_eq fun account haccount hadmitted => ?_
    obtain ⟨decoded, hdecoded⟩ := decodable account haccount hadmitted
    exact rebuild?_cut laid distinct hplan (Leaf.length_of_admits hadmitted) hdecoded options

/-- Wants the prices below a hundred of the orders that ask. -/
def Leaf.cheapAsks : Leaf where
  address := "book"
  selection := .fields ["price"]
  conditions := Conditions.empty
    |>.eq "side" (.bytes [1])
    |>.satisfies "price" fun value _ => match value with
      | .number (.int price) => decide (price < 100)
      | _ => false
  metadata := []
  requestId := none

/-- Of five accounts one matches: the others bid, are too dear, are no orders or are too short. -/
theorem fetch_cheapAsks :
    ∃ run, Scan.fetchWith { Scan.ofRecord Schema.orders "Order" with leaves := [Leaf.cheapAsks] }
        .standard .standard (Ledger.transport fun _ => [⟨"bid", [7, 0, 5, 0, 3]⟩,
          ⟨"ask", [7, 1, 5, 0, 3]⟩, ⟨"dear", [7, 1, 5, 1, 3]⟩, ⟨"other", [8, 1, 5, 0, 3]⟩,
          ⟨"short", [7, 1]⟩]) = .ok run ∧
      run.records.map (fun record => (record.pubkey?, record.fields))
        = [(some "ask", [("price", .nat 5)])] := by
  have laid : Schema.orders.layoutOf "Order" = .ok Schema.ordersLayout := by decide +kernel
  obtain ⟨run, hrun, hrecords⟩ := Scan.fetchWith_ledger
    { Scan.ofRecord Schema.orders "Order" with leaves := [Leaf.cheapAsks] } .standard .standard
    (fun _ => [⟨"bid", [7, 0, 5, 0, 3]⟩, ⟨"ask", [7, 1, 5, 0, 3]⟩, ⟨"dear", [7, 1, 5, 1, 3]⟩,
      ⟨"other", [8, 1, 5, 0, 3]⟩, ⟨"short", [7, 1]⟩])
    rfl laid (by decide) rfl (by
      simp only [List.forall_mem_cons]
      exact ⟨fun _ => ⟨_, rfl⟩, fun _ => ⟨_, rfl⟩, fun _ => ⟨_, rfl⟩, fun _ => ⟨_, rfl⟩,
        fun h => absurd h (by decide +kernel), fun _ h => by cases h⟩)
  exact ⟨run, hrun, by rw [hrecords]; rfl⟩

end LedgerScan
