import LedgerScan.Proofs.Borsh.Primitive
import LedgerScan.Proofs.Filter.Conditions
import LedgerScan.Proofs.Scan.Failure

/-!
# Bytes at the node or values here

That a field has a certain value can be tested in two places: the node compares its bytes, or a
predicate compares the value that is decoded from what comes back. The two go different ways through
a run. That they come to the same is shown step by step:

* `failure?_planLeaf_set`: which of two conditions is set decides nothing about failing;
* `admits_set`, `accepts_set`: bytes that are compared are one more test of the data, a predicate is
  one more test of what is shown;
* `get?_of_fields_cut`: what is shown of a wanted field is the value that its own bytes have;
* `Scan.fetchWith_literal`: for integers and addresses that value tells the bytes, so the records
  are the same.
-/

namespace LedgerScan

open Fallible

/-! ## 1. One condition for another -/

section Set

variable {scan : Scan} {layout : RecordLayout} {commitment : Commitment} {leaf : Leaf}
  {number : Nat} {field : String} {place : Placement} {a b : Condition}
  {discriminator data : List UInt8} {shown : Entries Json}

/-- The leaf with the condition on a field set. -/
def Leaf.set (leaf : Leaf) (field : String) (condition : Condition) : Leaf :=
  leaf.filtered (leaf.conditions.set field condition)

/-- Whichever condition is set, it stands in the same place between the same others. -/
theorem exists_entries_set (leaf : Leaf) (field : String) :
    ∃ before after, ∀ condition, (leaf.set field condition).conditions.entries
      = before ++ (field, condition) :: after :=
  Conditions.exists_put field leaf.conditions.entries

/-- What is wrong with a leaf is wrong with it whichever of two fitting conditions is set. -/
theorem failure?_planLeaf_set {s t : (Nat × List UInt8) ⊕ (String × Predicate)}
    (ha : layout.test field a = .ok s) (hb : layout.test field b = .ok t) :
    failure? (scan.planLeaf layout commitment (leaf.set field a) number)
      = failure? (scan.planLeaf layout commitment (leaf.set field b) number) := by
  obtain ⟨before, after, hentries⟩ := exists_entries_set leaf field
  rw [failure?_planLeaf, failure?_planLeaf, failure?_pushDown, failure?_pushDown, hentries,
    hentries, List.findSome?_append, List.findSome?_append, List.findSome?_cons,
    List.findSome?_cons, ha, hb]
  rfl

theorem admits_set (found : layout.find? field = some place) (hb : b.admits place data = true) :
    (leaf.set field a).admits layout discriminator data
      = ((leaf.set field b).admits layout discriminator data && a.admits place data) := by
  obtain ⟨before, after, hentries⟩ := exists_entries_set leaf field
  unfold Leaf.admits
  rw [hentries, hentries]
  simp only [List.all_append, List.all_cons, found, hb, Bool.true_and]
  ac_rfl

theorem accepts_set (ha : a.accepts field shown = true) :
    (leaf.set field b).accepts shown
      = ((leaf.set field a).accepts shown && b.accepts field shown) := by
  obtain ⟨before, after, hentries⟩ := exists_entries_set leaf field
  unfold Leaf.accepts
  rw [hentries, hentries]
  simp only [List.all_append, List.all_cons, ha, Bool.true_and]
  ac_rfl

end Set

/-! ## 2. What comes back of one leaf -/

section Leaf

variable {scan : Scan} {layout : RecordLayout} {commitment : Commitment} {leaf : Leaf}
  {number : Nat} {plan : LeafPlan} {options : FetchOptions}

/-- A leaf alone brings from an honest node what its plan rebuilds from the accounts that are
    kept. -/
theorem records_only (laid : scan.schema.layoutOf scan.record = .ok layout)
    (connection : Connection) (ledger : Ledger) :
    ((scan.only leaf).fetchWith connection options ledger.transport).map Fetch.records
      = (scan.planLeaf layout connection.resolve.1 leaf 1).map fun plan =>
          (ledger.kept plan.query).filterMap fun account =>
            plan.rebuild? scan.schema options
              ⟨account.pubkey, Base64.encode (plan.query.cut account.data)⟩ := by
  cases hplan : scan.planLeaf layout connection.resolve.1 leaf 1 with
  | error e =>
    have hfails : (scan.only leaf).Fails e :=
      .leaf laid ⟨[], leaf, [], rfl, nofun,
        failure?_planLeaf_eq_some.mp (failure?_eq_some.mpr hplan)⟩
    rw [fetchWith_eq_error.mpr hfails]
    rfl
  | ok plan =>
    have hread : NodeQuery.ofJson? plan.request = some plan.query := by
      obtain ⟨_, _, _, rfl⟩ := Scan.planLeaf_eq_ok.mp hplan
      exact ofJson?_request _ _ _
    rw [Scan.fetchWith_only laid hplan]
    show Except.ok (Fetch.records _) = _
    rw [Fetch.records_of_answers (Ledger.answers ledger)]
    show Except.ok ([{ plan with node := 1 }].flatMap _) = _
    rw [List.flatMap_singleton, LeafPlan.recordsFrom, accounts_answer hread, List.filterMap_map]
    rfl

/-- What a plan asks for besides its tests. -/
theorem parts_of_planLeaf (planned : scan.planLeaf layout commitment leaf number = .ok plan) :
    plan.record = scan.record ∧ plan.selection = leaf.selection ∧
      layout.window leaf.selection = .ok plan.pushdown.window ∧
      plan.pushdown.totalLength = layout.totalLength := by
  obtain ⟨_, pushdown, hpushdown, rfl⟩ := Scan.planLeaf_eq_ok.mp planned
  obtain ⟨_, window, _, hwindow, rfl⟩ := RecordLayout.pushDown_eq_ok.mp hpushdown
  exact ⟨rfl, rfl, hwindow, rfl⟩

/-- Plans that ask for the same window of the same record cut it out and show it in the same way. -/
theorem cut_and_fields_congr {p q : LeafPlan} (record : p.record = q.record)
    (selection : p.selection = q.selection) (window : p.pushdown.window = q.pushdown.window)
    (total : p.pushdown.totalLength = q.pushdown.totalLength) (schema : Schema) :
    p.query.cut = q.query.cut ∧ p.fields schema = q.fields schema := by
  constructor
  · unfold LeafPlan.query NodeQuery.cut Pushdown.asked
    rw [window, total]
  · unfold LeafPlan.fields LeafPlan.wholeData
    rw [record, selection, window, total]

/-- Leaves that want the same fields ask for the same window and show it in the same way. -/
theorem cut_and_fields_of_selection {other : Leaf} {number' : Nat} {p q : LeafPlan}
    (hp : scan.planLeaf layout commitment leaf number = .ok p)
    (hq : scan.planLeaf layout commitment other number' = .ok q)
    (same : leaf.selection = other.selection) :
    p.pushdown.window = q.pushdown.window ∧ p.query.cut = q.query.cut ∧
      ∀ schema, p.fields schema = q.fields schema := by
  obtain ⟨hrecord, hselection, hwindow, htotal⟩ := parts_of_planLeaf hp
  obtain ⟨hrecord', hselection', hwindow', htotal'⟩ := parts_of_planLeaf hq
  rw [same] at hselection hwindow
  have hsame : p.pushdown.window = q.pushdown.window :=
    Except.ok.inj (hwindow.symm.trans hwindow')
  have hcongr := cut_and_fields_congr (hrecord.trans hrecord'.symm)
    (hselection.trans hselection'.symm) hsame (htotal.trans htotal'.symm)
  exact ⟨hsame, (hcongr scan.schema).1, fun schema => (hcongr schema).2⟩

/-- Which accounts are kept. -/
theorem kept_of_planLeaf (laid : scan.schema.layoutOf scan.record = .ok layout)
    (planned : scan.planLeaf layout commitment leaf number = .ok plan) (ledger : Ledger) :
    ledger.kept plan.query = (ledger leaf.address).filter fun account =>
      leaf.admits layout (scan.schema.discriminator scan.record) account.data := by
  obtain ⟨_, pushdown, hpushdown, rfl⟩ := Scan.planLeaf_eq_ok.mp planned
  simp only [← tests_admit laid hpushdown]
  rfl

/-- An account whose fields are shown becomes a record exactly if the predicates accept them. -/
theorem rebuild?_of_fields (planned : scan.planLeaf layout commitment leaf number = .ok plan)
    {account : RawAccount} {shown : Entries Json}
    (h : plan.fields scan.schema account = .ok shown) (options : FetchOptions) :
    plan.rebuild? scan.schema options account
      = if leaf.accepts shown then
          some ⟨shown, if options.metadata then some ⟨Entries.erase Metadata.requestKey
            (Entries.erase Metadata.pubkeyKey leaf.metadata), account.pubkey,
            leaf.requestId.getD standardRequestId⟩ else none⟩
        else none := by
  obtain ⟨_, pushdown, hpushdown, rfl⟩ := Scan.planLeaf_eq_ok.mp planned
  unfold LeafPlan.rebuild? LeafPlan.shown?
  simp only [h, accepts_predicates hpushdown]
  rfl

/-- An account that cannot be decoded is left out unless it is to be kept. -/
theorem rebuild?_of_error {account : RawAccount} {e : RebuildError}
    (h : plan.fields scan.schema account = .error e) (strict : options.keepUndecodable = false) :
    plan.rebuild? scan.schema options account = none := by
  unfold LeafPlan.rebuild? LeafPlan.shown?
  rw [h, strict]
  rfl

/-- **What is shown of a wanted field is the value that its own bytes have.** -/
theorem get?_of_fields_cut (laid : scan.schema.layoutOf scan.record = .ok layout)
    (distinct : layout.names.Nodup)
    (planned : scan.planLeaf layout commitment leaf number = .ok plan) {data : List UInt8}
    (positive : 0 < layout.totalLength) (size : data.length = layout.totalLength) {name : String}
    {place : Placement} (found : layout.find? name = some place)
    (wanted : leaf.selection.wants name = true) {pubkey : String} {shown : Entries Json}
    (h : plan.fields scan.schema ⟨pubkey, Base64.encode (plan.query.cut data)⟩ = .ok shown) :
    ∃ value, scan.schema.Reads data place value ∧ Entries.get? name shown = some value := by
  obtain ⟨hrecord, hselection, hwindow, htotal⟩ := parts_of_planLeaf planned
  have hlaid : scan.schema.layoutOf plan.record = .ok layout := hrecord ▸ laid
  have hasked : plan.pushdown.asked = plan.pushdown.window := by
    rw [Pushdown.asked, htotal, if_pos positive]
  rw [LeafPlan.cut_eq, hasked] at h
  cases hkind : leaf.selection with
  | nothing =>
    rw [hkind] at wanted
    cases wanted
  | all =>
    rw [hkind] at hwindow hselection
    have hnone : plan.pushdown.window = none := (Except.ok.inj hwindow).symm
    rw [hnone] at h
    obtain ⟨decoded, hdecoded, rfl⟩ :=
      (LeafPlan.fields_eq_ok (by rw [hselection]; rintro ⟨⟩)).mp h
    rw [LeafPlan.wholeData_of_no_window hnone] at hdecoded
    obtain ⟨hall, rfl⟩ := (Schema.decodeRecord_eq_ok hlaid size.ge).mp hdecoded
    obtain ⟨value, hvalue⟩ := hall _ (RecordLayout.mem_of_find? found)
    refine ⟨value, hvalue, ?_⟩
    rw [Entries.get?_filter plan.selection.wants, hselection, Selection.wants, if_pos rfl,
      get?_ofList_valueAt distinct found, hvalue.valueAt_eq]
  | fields names =>
    rw [hkind] at hwindow wanted hselection
    have hname : name ∈ names := by simpa [Selection.wants] using wanted
    have nonempty : names ≠ [] := List.ne_nil_of_mem hname
    obtain ⟨window, hsome, aligned, covered⟩ := aligned_of_window laid hwindow nonempty
    rw [hsome] at h
    obtain ⟨hall, hshown⟩ :=
      (LeafPlan.fields_cut_eq_ok hlaid hselection nonempty hsome htotal aligned size).mp h
    obtain ⟨_, _, hvalues⟩ := shown_of_window hlaid distinct aligned covered size hall hshown
    obtain ⟨place', value, hfound, hvalue, hget⟩ := hvalues name hname
    cases found.symm.trans hfound
    exact ⟨value, hvalue, hget⟩

end Leaf

/-! ## 3. Two leaves -/

section Agree

variable {scan : Scan} {layout : RecordLayout} {commitment : Commitment} {connection : Connection}
  {leaf : Leaf} {number : Nat} {field : String} {place : Placement} {a b : Condition}
  {p q : LeafPlan} {options : FetchOptions}

/-- With either condition the same is cut out of an account and shown of it. -/
theorem cut_and_fields_set
    (hp : scan.planLeaf layout commitment (leaf.set field a) number = .ok p)
    (hq : scan.planLeaf layout commitment (leaf.set field b) number = .ok q) :
    p.query.cut = q.query.cut ∧ p.fields scan.schema = q.fields scan.schema := by
  obtain ⟨_, hcut, hfields⟩ := cut_and_fields_of_selection hp hq rfl
  exact ⟨hcut, hfields scan.schema⟩

/-- A predicate makes of an account what is made of it without the predicate if it passes, and
    nothing if it does not. -/
theorem rebuild?_set (strict : options.keepUndecodable = false)
    (hp : scan.planLeaf layout commitment (leaf.set field a) number = .ok p)
    (hq : scan.planLeaf layout commitment (leaf.set field b) number = .ok q)
    (accepted : ∀ shown, a.accepts field shown = true) {account : RawAccount} {passes : Bool}
    (agree : ∀ shown, q.fields scan.schema account = .ok shown →
      b.accepts field shown = passes) :
    q.rebuild? scan.schema options account
      = if passes then p.rebuild? scan.schema options account else none := by
  have hfields := (cut_and_fields_set hp hq).2
  cases hshown : q.fields scan.schema account with
  | error e =>
    rw [rebuild?_of_error hshown strict, rebuild?_of_error (hfields ▸ hshown) strict, ite_self]
  | ok shown =>
    rw [rebuild?_of_fields hq hshown, rebuild?_of_fields hp (hfields ▸ hshown),
      accepts_set (b := b) (accepted shown), agree shown hshown]
    cases passes with
    | false =>
      rw [Bool.and_false]
      rfl
    | true =>
      rw [Bool.and_true]
      rfl

/-- **Bytes that are compared and a predicate bring the same records** if they agree on what is
    shown of accounts of the right length. -/
theorem records_set (laid : scan.schema.layoutOf scan.record = .ok layout)
    (strict : options.keepUndecodable = false) (found : layout.find? field = some place)
    {s t : (Nat × List UInt8) ⊕ (String × Predicate)}
    (ha : layout.test field a = .ok s) (hb : layout.test field b = .ok t)
    (accepted : ∀ shown, a.accepts field shown = true)
    (admitted : ∀ data, b.admits place data = true)
    (agree : ∀ plan, scan.planLeaf layout connection.resolve.1 (leaf.set field b) 1 = .ok plan →
      ∀ (account : StoredAccount) (shown : Entries Json),
        (0 < layout.totalLength → account.data.length = layout.totalLength) →
        plan.fields scan.schema
          ⟨account.pubkey, Base64.encode (plan.query.cut account.data)⟩ = .ok shown →
        b.accepts field shown = a.admits place account.data)
    (ledger : Ledger) :
    ((scan.only (leaf.set field a)).fetchWith connection options ledger.transport).map
        Fetch.records
      = ((scan.only (leaf.set field b)).fetchWith connection options ledger.transport).map
        Fetch.records := by
  rw [records_only laid, records_only laid]
  have hfailure : failure? (scan.planLeaf layout connection.resolve.1 (leaf.set field a) 1)
      = failure? (scan.planLeaf layout connection.resolve.1 (leaf.set field b) 1) :=
    failure?_planLeaf_set ha hb
  cases hp : scan.planLeaf layout connection.resolve.1 (leaf.set field a) 1 with
  | error e =>
    rw [hp] at hfailure
    rw [failure?_eq_some.mp hfailure.symm]
  | ok p =>
    rw [hp] at hfailure
    obtain ⟨q, hq⟩ := failure?_eq_none.mp hfailure.symm
    rw [hq]
    refine congrArg Except.ok ?_
    dsimp only
    rw [kept_of_planLeaf laid hp, kept_of_planLeaf laid hq, List.filterMap_filter,
      List.filterMap_filter]
    refine List.filterMap_congr fun account _ => ?_
    rw [admits_set found (admitted _), (cut_and_fields_set hp hq).1]
    cases hadmits : (leaf.set field b).admits layout (scan.schema.discriminator scan.record)
      account.data with
    | false => rfl
    | true =>
      rw [Bool.true_and, if_pos rfl]
      exact (rebuild?_set strict hp hq accepted fun shown hshown =>
        agree q hq account shown (Leaf.length_of_admits hadmits) hshown).symm

end Agree

/-! ## 4. Integers and addresses -/

section Exact

variable {scan : Scan} {options : FetchOptions} {fields : List Field} {field : Field}
  {p : Primitive} {leaf : Leaf}

/-- The field of a primitive type lies at a place as wide as the type. -/
theorem exists_place_of_primitive {layout : RecordLayout}
    (laid : scan.schema.layoutOf scan.record = .ok layout)
    (found : scan.schema.fields? scan.record = some fields)
    (distinct : (fields.map (·.name)).Nodup) (member : field ∈ fields)
    (typed : field.type = .primitive p) :
    layout.names.Nodup ∧ ∃ place, layout.find? field.name = some place ∧
      place.type = .primitive p ∧ place.length = p.width ∧ place.stop ≤ layout.totalLength := by
  obtain ⟨_, hfields, _, _, placed⟩ := Schema.placed_of_layoutOf laid
  unfold Schema.fields? at found
  rw [hfields] at found
  cases found
  have hnames : layout.names.Nodup := by
    rw [RecordLayout.names, placed.names]
    exact distinct
  obtain ⟨place, hplace, htype⟩ := placed.exists_place field member
  obtain ⟨_, hstop, _, hlength⟩ := placed.bounds _ hplace
  rw [htype, typed] at hlength
  exact ⟨hnames, place, RecordLayout.find?_of_mem hnames hplace, htype.trans typed,
    (Except.ok.inj hlength).symm, hstop⟩

/-- **A condition that asks for the bytes of a value brings what the predicate does that asks for
    the value.** -/
theorem records_of_bytes (strict : options.keepUndecodable = false)
    (found : scan.schema.fields? scan.record = some fields)
    (distinct : (fields.map (·.name)).Nodup) (member : field ∈ fields)
    (typed : field.type = .primitive p) (exact : p.exact = true)
    (wanted : leaf.selection.wants field.name = true) {condition : Condition} {bytes : List UInt8}
    (width : bytes.length = p.width)
    (fits : ∀ place : Placement, place.length = p.width →
      ∀ literal, condition = .eq literal → literal.encode.length = place.length)
    (admits : ∀ (place : Placement) (data : List UInt8), place.length = p.width →
      condition.admits place data = (place.slice data == bytes))
    (accepts : ∀ shown, condition.accepts field.name shown = true)
    (connection : Connection) (ledger : Ledger) :
    ((scan.only (leaf.set field.name condition)).fetchWith connection options
        ledger.transport).map Fetch.records
      = ((scan.only (leaf.set field.name
          (.satisfies fun value _ => value.same (p.value bytes)))).fetchWith connection options
        ledger.transport).map Fetch.records := by
  cases laid : scan.schema.layoutOf scan.record with
  | error e =>
    have hfails : ∀ leaf, (scan.only leaf).Fails (.layout e) := fun leaf =>
      .layout (List.cons_ne_nil _ _) laid
    rw [fetchWith_eq_error.mpr (hfails _), fetchWith_eq_error.mpr (hfails _)]
  | ok layout =>
    obtain ⟨hnames, place, hfind, htype, hwidth, hstop⟩ :=
      exists_place_of_primitive laid found distinct member typed
    have hpositive : 0 < layout.totalLength := by
      have := p.width_pos
      unfold Placement.stop at hstop
      omega
    refine records_set laid strict hfind (test_of_find? hfind (fits place hwidth))
      (test_of_find? hfind fun _ h => by cases h) accepts (fun _ => rfl) ?_ ledger
    intro plan planned account shown size hshown
    have hsize := size hpositive
    obtain ⟨value, hvalue, hget⟩ :=
      get?_of_fields_cut laid hnames planned hpositive hsize hfind wanted hshown
    have hslice : (place.slice account.data).length = p.width :=
      (Placement.length_slice (hstop.trans hsize.ge)).trans hwidth
    have hdecode := scan.schema.decodeValue_primitive hslice
    unfold Schema.Reads at hvalue
    rw [htype, hdecode] at hvalue
    cases hvalue
    rw [admits place _ hwidth, Condition.accepts, hget, Bool.eq_iff_iff, beq_iff_eq]
    exact Primitive.same_value_iff exact (hslice.trans width.symm)

end Exact

/-- **A comparison at the node agrees with the test of the decoded value.** Let a field be of an
    integer type or of addresses, in a record whose names do not repeat, and let a leaf want it. The
    value that decoding gives for the bytes of a literal of that type is what a predicate can ask
    for in place of the literal, and the value of zeros what it can ask for in place of null:
    whatever the other conditions and whatever accounts the node holds, the records are the same, in
    the same order, if accounts that cannot be decoded are left out. -/
theorem Scan.fetchWith_literal (scan : Scan) (connection : Connection) (options : FetchOptions)
    (strict : options.keepUndecodable = false) (ledger : Ledger) {fields : List Field}
    (found : scan.schema.fields? scan.record = some fields)
    (distinct : (fields.map (·.name)).Nodup) (field : Field) (member : field ∈ fields)
    {p : Primitive} (typed : field.type = .primitive p) (exact : p.exact = true) (leaf : Leaf)
    (wanted : leaf.selection.wants field.name = true) :
    let records (conditions : Conditions) : Except ScanError (List Record) :=
      ((scan.only (leaf.filtered conditions)).fetchWith connection options
        ledger.transport).map Fetch.records
    (∀ literal : Literal, literal.type? = some p →
      ∃ json, scan.schema.decodeValue field.type literal.encode = .ok (json, []) ∧
        records (leaf.conditions.eq field.name literal)
          = records (leaf.conditions.satisfies field.name fun value _ => value.same json)) ∧
    ∃ json, scan.schema.decodeValue field.type (List.replicate p.width 0) = .ok (json, []) ∧
      records (leaf.conditions.isNull field.name)
        = records (leaf.conditions.satisfies field.name fun value _ => value.same json) := by
  intro records
  rw [typed]
  constructor
  · intro literal htype
    have hwidth := Literal.length_encode_of_type htype
    refine ⟨_, scan.schema.decodeValue_primitive hwidth, ?_⟩
    refine records_of_bytes strict found distinct member typed exact wanted hwidth ?_
      (fun _ _ _ => rfl) (fun _ => rfl) connection ledger
    rintro place hplace _ ⟨⟩
    exact hwidth.trans hplace.symm
  · refine ⟨_, scan.schema.decodeValue_primitive List.length_replicate, ?_⟩
    refine records_of_bytes strict found distinct member typed exact wanted
      List.length_replicate (fun _ _ _ h => by cases h) (fun place data hplace => ?_)
      (fun _ => rfl) connection ledger
    rw [Condition.admits, hplace]

/-- Orders of two prices, one of a side that is none, and data that are too short. -/
def Ledger.prices : Ledger := fun _ =>
  [⟨"five", [7, 0, 5, 0, 3]⟩, ⟨"six", [7, 1, 6, 0, 3]⟩, ⟨"odd", [7, 9, 5, 0, 3]⟩, ⟨"short", [7, 1]⟩,
    ⟨"again", [7, 1, 5, 0, 1]⟩]

/-- The orders of one price, whose bytes the node compares or whose price is looked at here. -/
theorem fetch_priceFive :
    let fetched (conditions : Conditions) : Except ScanError (List Record) :=
      (((Scan.ofRecord Schema.orders "Order").only
        ((Leaf.ofAddress "book").filtered conditions)).fetchWith .standard .standard
          Ledger.prices.transport).map Fetch.records
    (fetched (Conditions.empty.eq "price" (.integer .u16 5 (by decide)))).map
        (List.map Record.pubkey?) = .ok [some "five", some "again"] ∧
      fetched (Conditions.empty.eq "price" (.integer .u16 5 (by decide)))
        = fetched (Conditions.empty.satisfies "price" fun value _ => value.same (.nat 5)) := by
  intro fetched
  obtain ⟨hliteral, _⟩ := (Scan.ofRecord Schema.orders "Order").fetchWith_literal .standard
    .standard rfl Ledger.prices rfl (by decide) ⟨"price", .primitive .u16⟩ (by decide) rfl rfl
    (Leaf.ofAddress "book") rfl
  obtain ⟨json, hjson, hrecords⟩ := hliteral (.integer .u16 5 (by decide)) rfl
  cases hjson
  exact ⟨by decide +kernel, hrecords⟩

end LedgerScan
