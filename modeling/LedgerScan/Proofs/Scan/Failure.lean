import LedgerScan.Proofs.Scan.Leaves

/-!
# What can be wrong with a scan

Only planning fails. What can be wrong is said here of the scan itself, and which of several errors
comes first:

* a condition is on a field that the record does not have, or its literal is not as long as the
  field: `Condition.Misfits`;
* a leaf has no address, or else one of its conditions misfits, or else it selects a field that the
  record does not have: `Leaf.Fails`;
* a scan with leaves is of a record without a layout, or else one of the leaves fails:
  `Scan.Fails`.

`Scan.fetchWith_fails` shows that fetching fails for just these reasons, and then nothing is sent:
`carryOut_of_error` and `carryOut_of_ok` say what is on the wire afterwards.
-/

namespace LedgerScan

open Fallible

/-! ## 1. Conditions -/

/-- **What can be wrong with a condition on a field.** -/
inductive Condition.Misfits (layout : RecordLayout) (field : String) :
    Condition → ScanError → Prop where
  | unknown {condition : Condition} (missing : field ∉ layout.names) :
      Misfits layout field condition (.unknownField layout.record field)
  | length {literal : Literal} {place : Placement} (found : layout.find? field = some place)
      (differs : literal.encode.length ≠ place.length) :
      Misfits layout field (.eq literal)
        (.lengthMismatch field place.length literal.encode.length)

section Pushdown

variable {layout : RecordLayout} {field : String} {place : Placement} {condition : Condition}
  {conditions : Conditions} {selection : Selection} {discriminator : List UInt8} {e : ScanError}

theorem RecordLayout.find?_eq_none_iff : layout.find? field = none ↔ field ∉ layout.names := by
  constructor
  · intro h hmem
    obtain ⟨place, hplace⟩ := RecordLayout.exists_find? hmem
    rw [h] at hplace
    cases hplace
  · intro h
    cases hfind : layout.find? field with
    | none => rfl
    | some place => exact absurd (List.mem_map_of_mem (RecordLayout.mem_of_find? hfind)) h

theorem RecordLayout.place_eq_error :
    layout.place field = .error e ↔
      field ∉ layout.names ∧ e = .unknownField layout.record field := by
  rw [← RecordLayout.find?_eq_none_iff]
  unfold RecordLayout.place
  cases layout.find? field with
  | none => exact ⟨fun h => by cases h; exact ⟨rfl, rfl⟩, fun h => by rw [h.2]⟩
  | some place => exact ⟨nofun, nofun⟩

theorem test_of_unknown (missing : field ∉ layout.names) :
    layout.test field condition = .error (.unknownField layout.record field) := by
  unfold RecordLayout.test
  rw [RecordLayout.place_eq_error.mpr ⟨missing, rfl⟩]
  rfl

theorem test_of_differs {literal : Literal} (found : layout.find? field = some place)
    (differs : literal.encode.length ≠ place.length) :
    layout.test field (.eq literal)
      = .error (.lengthMismatch field place.length literal.encode.length) := by
  unfold RecordLayout.test
  rw [RecordLayout.place_eq_ok.mpr found]
  show (place.literal field literal.encode >>= _) = _
  rw [Placement.literal, if_neg differs]
  rfl

/-- A condition on a field of the record is planned if its literal is as long as the field. -/
theorem test_of_find? (found : layout.find? field = some place)
    (fits : ∀ literal, condition = .eq literal → literal.encode.length = place.length) :
    layout.test field condition = .ok (condition.testAt field place) := by
  refine except_bind_eq_ok.mpr ⟨place, RecordLayout.place_eq_ok.mpr found, ?_⟩
  cases condition with
  | eq literal => exact except_bind_eq_ok.mpr ⟨_, if_pos (fits literal rfl), rfl⟩
  | isNull => rfl
  | satisfies predicate => rfl

theorem test_eq_error :
    layout.test field condition = .error e ↔ condition.Misfits layout field e := by
  constructor
  · intro h
    by_cases missing : field ∉ layout.names
    · rw [test_of_unknown missing] at h
      cases h
      exact .unknown missing
    obtain ⟨place, found⟩ := RecordLayout.exists_find? (not_not.mp missing)
    by_cases fits : ∀ literal, condition = .eq literal → literal.encode.length = place.length
    · rw [test_of_find? found fits] at h
      cases h
    · push Not at fits
      obtain ⟨literal, rfl, differs⟩ := fits
      rw [test_of_differs found differs] at h
      cases h
      exact .length found differs
  · rintro (missing | ⟨found, differs⟩)
    · exact test_of_unknown missing
    · exact test_of_differs found differs

/-! ## 2. Leaves -/

/-- A selected field that the record does not have. -/
def RecordLayout.Unknown (layout : RecordLayout) (name : String) (e : ScanError) : Prop :=
  name ∉ layout.names ∧ e = .unknownField layout.record name

/-- **What can be wrong with a leaf.** An address goes before the conditions, and these before the
    selection; of several conditions and of several names the first one decides. -/
inductive Leaf.Fails (layout : RecordLayout) (leaf : Leaf) : ScanError → Prop where
  | address (missing : leaf.address = "") : Fails layout leaf .missingAddress
  | condition {e : ScanError} (named : leaf.address ≠ "")
      (misfits : FirstFails (fun entry => entry.2.Misfits layout entry.1)
        leaf.conditions.entries e) : Fails layout leaf e
  | selection {names : List String} {e : ScanError} (named : leaf.address ≠ "")
      (fit : ∀ entry ∈ leaf.conditions.entries, ¬ ∃ e, entry.2.Misfits layout entry.1 e)
      (selected : leaf.selection = .fields names)
      (unknown : FirstFails layout.Unknown names e) : Fails layout leaf e

theorem failure?_window (names : List String) :
    failure? (layout.window (.fields names))
      = names.findSome? fun name => failure? (layout.place name) := by
  rw [← failure?_mapM]
  show failure? (names.mapM layout.place >>= _) = _
  cases names.mapM layout.place with
  | error e => rfl
  | ok places => cases places <;> rfl

/-- Conditions go before the selection. -/
theorem failure?_pushDown :
    failure? (layout.pushDown conditions selection discriminator)
      = (conditions.entries.findSome? fun entry => failure? (layout.test entry.1 entry.2)).or
          (failure? (layout.window selection)) := by
  unfold RecordLayout.pushDown
  rw [← failure?_mapM]
  cases conditions.entries.mapM fun entry => layout.test entry.1 entry.2 with
  | error e => rfl
  | ok tests => cases layout.window selection <;> rfl

theorem failure?_window_eq_some :
    failure? (layout.window selection) = some e ↔
      ∃ names, selection = .fields names ∧ FirstFails layout.Unknown names e := by
  cases selection with
  | all | nothing => exact ⟨nofun, nofun⟩
  | fields names =>
    rw [failure?_window, findSome?_eq_some_iff_firstFails fun name e =>
      failure?_eq_some.trans RecordLayout.place_eq_error]
    exact ⟨fun h => ⟨names, rfl, h⟩, fun ⟨_, h, hfails⟩ => by cases h; exact hfails⟩

theorem failure?_pushDown_eq_some :
    failure? (layout.pushDown conditions selection discriminator) = some e ↔
      FirstFails (fun entry => entry.2.Misfits layout entry.1) conditions.entries e ∨
      (∀ entry ∈ conditions.entries, ¬ ∃ e, entry.2.Misfits layout entry.1 e) ∧
        ∃ names, selection = .fields names ∧ FirstFails layout.Unknown names e := by
  have htest : ∀ (entry : String × Condition) e,
      failure? (layout.test entry.1 entry.2) = some e ↔ entry.2.Misfits layout entry.1 e :=
    fun entry e => failure?_eq_some.trans test_eq_error
  rw [failure?_pushDown, Option.or_eq_some_iff, findSome?_eq_some_iff_firstFails htest,
    findSome?_eq_none_iff_forall htest, failure?_window_eq_some]

section Leaf

variable {scan : Scan} {commitment : Commitment} {leaf : Leaf} {number : Nat}

theorem failure?_planLeaf :
    failure? (scan.planLeaf layout commitment leaf number)
      = if leaf.address = "" then some .missingAddress
        else failure? (layout.pushDown leaf.conditions leaf.selection
          (scan.schema.discriminator scan.record)) := by
  unfold Scan.planLeaf
  by_cases missing : leaf.address = ""
  · rw [if_pos missing, missing]
    rfl
  · have named : leaf.address.isEmpty = false := by simpa using missing
    rw [if_neg missing, named]
    cases layout.pushDown leaf.conditions leaf.selection
      (scan.schema.discriminator scan.record) <;> rfl

/-- **A leaf is not planned for just these reasons.** -/
theorem failure?_planLeaf_eq_some :
    failure? (scan.planLeaf layout commitment leaf number) = some e ↔ leaf.Fails layout e := by
  rw [failure?_planLeaf]
  split
  · next missing =>
    constructor
    · intro h
      cases h
      exact .address missing
    · intro h
      cases h with
      | address _ => rfl
      | condition named _ => exact absurd missing named
      | selection named _ _ _ => exact absurd missing named
  · next missing =>
    rw [failure?_pushDown_eq_some]
    constructor
    · rintro (misfits | ⟨fit, names, selected, unknown⟩)
      · exact .condition missing misfits
      · exact .selection missing fit selected unknown
    · intro h
      cases h with
      | address named => exact absurd named missing
      | condition _ misfits => exact .inl misfits
      | selection _ fit selected unknown => exact .inr ⟨fit, _, selected, unknown⟩

end Leaf

end Pushdown

/-! ## 3. Scans -/

/-- **What can be wrong with a scan.** Without leaves nothing can. The layout goes before the
    leaves, and of several leaves the first one decides. -/
inductive Scan.Fails (scan : Scan) : ScanError → Prop where
  | layout {e : LayoutError} (leaves : scan.leaves ≠ [])
      (failed : scan.schema.layoutOf scan.record = .error e) : scan.Fails (.layout e)
  | leaf {layout : RecordLayout} {e : ScanError}
      (laid : scan.schema.layoutOf scan.record = .ok layout)
      (fails : FirstFails (Leaf.Fails layout) scan.leaves e) : scan.Fails e

section Scans

variable {scan : Scan} {layout : RecordLayout} {commitment : Commitment} {e : ScanError}

/-- A scan fails for one of its leaves if any of them fails. -/
theorem exists_fails_iff (leaves : scan.leaves ≠ []) :
    (∃ e, scan.Fails e) ↔ (∃ e, scan.schema.layoutOf scan.record = .error e) ∨
      ∃ layout, scan.schema.layoutOf scan.record = .ok layout ∧
        ∃ leaf ∈ scan.leaves, ∃ e, leaf.Fails layout e := by
  constructor
  · rintro ⟨e, ⟨_, failed⟩ | ⟨laid, fails⟩⟩
    · exact .inl ⟨_, failed⟩
    · exact .inr ⟨_, laid, exists_firstFails_iff.mp ⟨e, fails⟩⟩
  · rintro (⟨e, failed⟩ | ⟨layout, laid, fails⟩)
    · exact ⟨_, .layout leaves failed⟩
    · obtain ⟨e, fails⟩ := exists_firstFails_iff.mpr fails
      exact ⟨e, .leaf laid fails⟩

/-- Leaves are planned in turn, under whatever numbers. -/
theorem failure?_planLeaves_eq_some (leaves : List Leaf) (number : Nat) :
    failure? (scan.planLeaves layout commitment leaves number) = some e ↔
      FirstFails (Leaf.Fails layout) leaves e := by
  have hleaf : ∀ leaf e, failure? (scan.planLeaf layout commitment leaf number) = some e ↔
      leaf.Fails layout e := fun _ _ => failure?_planLeaf_eq_some
  rw [← findSome?_eq_some_iff_firstFails hleaf]
  suffices h : ∀ other, failure? (scan.planLeaves layout commitment leaves other)
      = leaves.findSome? fun leaf => failure? (scan.planLeaf layout commitment leaf number) by
    rw [h]
  induction leaves with
  | nil => exact fun _ => rfl
  | cons leaf leaves ih =>
    intro other
    have hfirst : failure? (scan.planLeaf layout commitment leaf other)
        = failure? (scan.planLeaf layout commitment leaf number) :=
      Option.ext fun e => failure?_planLeaf_eq_some.trans failure?_planLeaf_eq_some.symm
    rw [List.findSome?_cons, ← hfirst, ← ih (other + 1), Scan.planLeaves]
    cases scan.planLeaf layout commitment leaf other with
    | error e => rfl
    | ok plan => cases scan.planLeaves layout commitment leaves (other + 1) <;> rfl

/-- **A scan is not planned for just these reasons.** -/
theorem failure?_plan_eq_some : failure? (scan.plan commitment) = some e ↔ scan.Fails e := by
  by_cases leaves : scan.leaves = []
  · have hplan : scan.plan commitment = .ok [] := by
      unfold Scan.plan
      rw [leaves]
      rfl
    rw [hplan]
    constructor
    · exact nofun
    · rintro (⟨some, _⟩ | ⟨_, before, leaf, after, hleaves, _⟩)
      · exact absurd leaves some
      · exact absurd (hleaves.symm.trans leaves) (by simp)
  cases hlaid : scan.schema.layoutOf scan.record with
  | error e' =>
    have hplan : scan.plan commitment = .error (.layout e') := by
      unfold Scan.plan
      rw [hlaid, if_neg (by simpa using leaves)]
    rw [hplan]
    constructor
    · intro h
      cases h
      exact .layout leaves hlaid
    · rintro (⟨_, failed⟩ | ⟨laid, _⟩)
      · cases hlaid.symm.trans failed
        rfl
      · cases hlaid.symm.trans laid
  | ok layout =>
    rw [Scan.plan_of_layout hlaid, failure?_planLeaves_eq_some]
    constructor
    · exact .leaf hlaid
    · rintro (⟨_, failed⟩ | ⟨laid, fails⟩)
      · cases hlaid.symm.trans failed
      · cases hlaid.symm.trans laid
        exact fails

variable {connection : Connection} {options : FetchOptions} {transport : Rpc.Transport}

theorem fetchWith_eq_error_iff_plan :
    scan.fetchWith connection options transport = .error e ↔
      scan.plan connection.resolve.1 = .error e := by
  show (scan.plan connection.resolve.1).map _ = _ ↔ _
  cases scan.plan connection.resolve.1 with
  | error e' => exact ⟨fun h => by cases h; rfl, fun h => by cases h; rfl⟩
  | ok plans => exact ⟨nofun, nofun⟩

theorem plan_eq_error : scan.plan commitment = .error e ↔ scan.Fails e :=
  failure?_eq_some.symm.trans failure?_plan_eq_some

theorem fetchWith_eq_error :
    scan.fetchWith connection options transport = .error e ↔ scan.Fails e :=
  fetchWith_eq_error_iff_plan.trans plan_eq_error

/-! ## 4. What goes over the wire -/

/-- **What cannot be planned leaves the wire as it is.** -/
theorem carryOut_of_error (failed : scan.plan connection.resolve.1 = .error e) (wire : Rpc.Wire) :
    (scan.carryOut connection options transport).run wire = (.error e, wire) := by
  unfold Scan.carryOut
  simp only [failed]
  rfl

/-- What is done over the wire comes before the rest. -/
theorem run_liftM_bind {α β : Type} (first : StateM Rpc.Wire α)
    (rest : α → ExceptT ScanError (StateM Rpc.Wire) β) (wire : Rpc.Wire) :
    (liftM first >>= rest : ExceptT ScanError (StateM Rpc.Wire) β).run wire
      = (rest (first wire).1).run (first wire).2 := rfl

/-- **A scan that is carried out** brings the records of its run and makes its exchanges. -/
theorem carryOut_of_ok {run : Fetch}
    (fetched : scan.fetchWith connection options transport = .ok run) :
    (scan.carryOut connection options transport).run .fresh
      = (.ok run.records, ⟨run.elapsed, run.exchanges⟩) := by
  cases planned : scan.plan connection.resolve.1 with
  | error e => cases (fetchWith_eq_error_iff_plan.mpr planned).symm.trans fetched
  | ok plans =>
    cases (Scan.fetchWith_of_plan planned options transport).symm.trans fetched
    rw [Fetch.records_eq]
    have hplans : (MonadExcept.ofExcept (.ok plans : Except ScanError (List LeafPlan)) :
        ExceptT ScanError (StateM Rpc.Wire) (List LeafPlan)) = pure plans := rfl
    unfold Scan.carryOut
    simp only [planned, hplans, pure_bind]
    cases plans with
    | nil => rfl
    | cons plan plans =>
      rw [if_neg (by simp), run_liftM_bind, Rpc.send_eq]
      rfl

theorem posted_of_error (failed : scan.plan connection.resolve.1 = .error e) :
    scan.posted connection options transport = [] := by
  unfold Scan.posted
  rw [carryOut_of_error failed]
  rfl

theorem posted_of_ok {run : Fetch}
    (fetched : scan.fetchWith connection options transport = .ok run) :
    scan.posted connection options transport = run.posts := by
  unfold Scan.posted
  rw [carryOut_of_ok fetched]
  rfl

end Scans

/-- **Fetching fails exactly when the scan cannot be planned, and then nothing is sent.** Without
    leaves there is a run without records and posts, whatever the record. Otherwise fetching fails
    exactly if the record has no layout or some leaf fails, and `Scan.Fails` says with which error.
    A scan that fails posts nothing, and one that does not posts what its run says, whatever comes
    back over the transport. -/
theorem Scan.fetchWith_fails (scan : Scan) (connection : Connection) (options : FetchOptions)
    (transport : Rpc.Transport) :
    (scan.leaves = [] → ∃ run, scan.fetchWith connection options transport = .ok run ∧
      run.records = [] ∧ run.posts = []) ∧
    (scan.leaves ≠ [] →
      ((∃ e, scan.fetchWith connection options transport = .error e) ↔
        (∃ e, scan.schema.layoutOf scan.record = .error e) ∨
          ∃ layout, scan.schema.layoutOf scan.record = .ok layout ∧
            ∃ leaf ∈ scan.leaves, ∃ e, leaf.Fails layout e)) ∧
    (∀ e, scan.fetchWith connection options transport = .error e ↔ scan.Fails e) ∧
    ((∃ e, scan.Fails e) → scan.posted connection options transport = []) ∧
    ((∀ e, ¬ scan.Fails e) → ∃ run, scan.fetchWith connection options transport = .ok run ∧
      run.transport = transport ∧
      scan.posted connection options transport = run.posts) := by
  refine ⟨fun none => ?_, fun leaves => ?_, fun _ => fetchWith_eq_error, ?_, fun fine => ?_⟩
  · have hplan : scan.plan connection.resolve.1 = .ok [] := by
      unfold Scan.plan
      rw [none]
      rfl
    exact ⟨_, fetchWith_of_plan hplan options transport, rfl, rfl⟩
  · simp only [fetchWith_eq_error]
    exact exists_fails_iff leaves
  · rintro ⟨e, fails⟩
    exact posted_of_error (plan_eq_error.mpr fails)
  · cases hplan : scan.plan connection.resolve.1 with
    | error e => exact absurd (plan_eq_error.mp hplan) (fine e)
    | ok plans =>
      have fetched := fetchWith_of_plan hplan options transport
      exact ⟨_, fetched, rfl, posted_of_ok fetched⟩

/-- All orders of one book, and those of another whose price is a number of four bytes. -/
def Scan.widePrice : Scan :=
  { Scan.ofRecord Schema.orders "Order" with
    leaves := [Leaf.ofAddress "book", (Leaf.ofAddress "other").filtered
      (Conditions.empty.eq "price" (.integer .u32 5 (by decide)))] }

/-- Prices have two bytes, so not even the first book is asked for its orders. -/
theorem fetch_widePrice :
    Scan.widePrice.Fails (.lengthMismatch "price" 2 4) ∧
      Scan.widePrice.posted .standard .standard Ledger.bidAndAsk.transport = [] := by
  obtain ⟨_, _, herror, hposted, _⟩ :=
    Scan.widePrice.fetchWith_fails .standard .standard Ledger.bidAndAsk.transport
  have hfails : Scan.widePrice.Fails (.lengthMismatch "price" 2 4) := (herror _).mp rfl
  exact ⟨hfails, hposted ⟨_, hfails⟩⟩

end LedgerScan
