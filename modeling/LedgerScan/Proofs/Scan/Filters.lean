import LedgerScan.Proofs.Scan.Failure
import LedgerScan.Proofs.Scan.Literals

/-!
# The filters of a plan

What conditions become is told here in full. `Condition.Fits` says when a condition can be planned,
`RecordLayout.compared` lists the bytes that are compared in the order in which they are asked for,
the discriminator before the conditions, and `Conditions.predicates` what is left to be tested here.

* `Condition.fits_iff`: a condition fits exactly if nothing is wrong with it;
* `RecordLayout.filter_sortByOffset`: sorting by offset is stable;
* `RecordLayout.filters_of_pushDown`: the filters are the bytes, sorted, and then the predicates.

`RecordLayout.pushDown_exact` says when there is a plan, what it is, and which error there is else.
-/

namespace LedgerScan

open Fallible

/-! ## 1. Conditions that fit -/

/-- **A condition fits** if its field is one of the record, and its literal is as long as it. -/
def Condition.Fits (layout : RecordLayout) (field : String) (condition : Condition) : Prop :=
  ∃ place, layout.find? field = some place ∧
    ∀ literal, condition = .eq literal → literal.encode.length = place.length

section Fits

variable {layout : RecordLayout} {field : String} {condition : Condition} {selection : Selection}

theorem Condition.fits_iff :
    condition.Fits layout field ↔ ¬ ∃ e, condition.Misfits layout field e := by
  constructor
  · intro ⟨place, found, fits⟩ ⟨e, misfits⟩
    have htest := test_of_find? found fits
    rw [test_eq_error.mpr misfits] at htest
    cases htest
  · intro fine
    have hnone : failure? (layout.test field condition) = none := by
      cases htest : layout.test field condition with
      | ok test => rfl
      | error e => exact absurd ⟨e, test_eq_error.mp htest⟩ fine
    obtain ⟨test, htest⟩ := failure?_eq_none.mp hnone
    obtain ⟨place, found, _, fits⟩ := test_eq_ok htest
    exact ⟨place, found, fits⟩

theorem forall_fits_iff {entries : List (String × Condition)} :
    (∀ entry ∈ entries, entry.2.Fits layout entry.1) ↔
      ∀ entry ∈ entries, ¬ ∃ e, entry.2.Misfits layout entry.1 e := by
  simp only [Condition.fits_iff]

/-- A window can be planned if all selected fields are fields of the record. -/
theorem failure?_window_eq_none :
    failure? (layout.window selection) = none ↔
      ∀ names, selection = .fields names → ∀ name ∈ names, name ∈ layout.names := by
  cases selection with
  | all | nothing => exact ⟨fun _ => nofun, fun _ => rfl⟩
  | fields names =>
    have hplace : ∀ name e, failure? (layout.place name) = some e ↔ layout.Unknown name e :=
      fun name e => failure?_eq_some.trans RecordLayout.place_eq_error
    have hknown : ∀ name, (¬ ∃ e, layout.Unknown name e) ↔ name ∈ layout.names := by
      intro name
      unfold RecordLayout.Unknown
      simp
    rw [failure?_window, findSome?_eq_none_iff_forall hplace]
    simp only [hknown, Selection.fields.injEq, forall_eq']

end Fits

/-! ## 2. Bytes and predicates -/

/-- The predicate of a condition. -/
def Condition.predicate? : Condition → Option Predicate
  | .satisfies predicate => some predicate
  | .eq _ | .isNull => none

/-- The predicates among conditions, each with its field, in the order of the conditions. -/
def Conditions.predicates (conditions : Conditions) : List (String × Predicate) :=
  conditions.entries.filterMap fun entry => entry.2.predicate?.map fun test => (entry.1, test)

namespace RecordLayout

/-- The bytes that are compared, each with its offset: the discriminator, if there is one, and then
    what each condition asks for, in the order of the conditions. -/
def compared (layout : RecordLayout) (conditions : Conditions) (discriminator : List UInt8) :
    List (Nat × List UInt8) :=
  header discriminator ++ conditions.entries.filterMap layout.literal?

variable {layout : RecordLayout} {conditions : Conditions} {selection : Selection}
  {discriminator : List UInt8} {pushdown : Pushdown} {e : ScanError}

theorem getRight?_of_test {entry : String × Condition}
    {test : (Nat × List UInt8) ⊕ (String × Predicate)}
    (h : layout.test entry.1 entry.2 = .ok test) :
    test.getRight? = entry.2.predicate?.map fun predicate => (entry.1, predicate) := by
  obtain ⟨place, _, htest, _⟩ := test_eq_ok h
  rw [htest]
  cases entry.2 <;> rfl

/-- **Sorting by offset is stable**: bytes at one offset keep their order. They are in order
    already, so sorting keeps them as a part of the list, and there are no others at this offset. -/
theorem filter_sortByOffset (offset : Nat) (entries : List (Nat × List UInt8)) :
    (sortByOffset entries).filter (·.1 = offset) = entries.filter (·.1 = offset) := by
  have : Std.Total fun a b : Nat × List UInt8 => a.1 ≤ b.1 := ⟨fun a b => Nat.le_total a.1 b.1⟩
  have : IsTrans (Nat × List UInt8) (·.1 ≤ ·.1) := ⟨fun _ _ _ => Nat.le_trans⟩
  have hordered : (entries.filter (·.1 = offset)).Pairwise (·.1 ≤ ·.1) := by
    refine List.pairwise_of_forall_mem_list fun a ha b hb => ?_
    have ha := List.of_mem_filter ha
    have hb := List.of_mem_filter hb
    simp only [decide_eq_true_eq] at ha hb
    omega
  have hkept : (entries.filter (·.1 = offset)).Sublist (sortByOffset entries) := by
    rw [sortByOffset_eq]
    exact List.sublist_insertionSort hordered List.filter_sublist
  have hpart : (entries.filter (·.1 = offset)).Sublist
      ((sortByOffset entries).filter (·.1 = offset)) := by
    simpa using hkept.filter (·.1 = offset)
  have hlength := ((perm_sortByOffset entries).filter (·.1 = offset)).length_eq
  exact (hpart.eq_of_length hlength.symm).symm

/-- **The filters of a plan** are the compared bytes, sorted by offset, and then the predicates. -/
theorem filters_of_pushDown
    (planned : layout.pushDown conditions selection discriminator = .ok pushdown) :
    pushdown.filters
      = (sortByOffset (layout.compared conditions discriminator)).map
          (fun literal => Filter.bytes literal.1 literal.2)
        ++ conditions.predicates.map (fun p => Filter.predicate p.1 p.2) := by
  obtain ⟨tests, window, htests, _, rfl⟩ := pushDown_eq_ok.mp planned
  have hliterals : tests.filterMap Sum.getLeft? = conditions.entries.filterMap layout.literal? :=
    filterMap_getLeft? htests
  have hpredicates : tests.filterMap Sum.getRight? = conditions.predicates :=
    filterMap_of_mapM_ok htests fun _ _ _ h => getRight?_of_test h
  rw [hliterals, hpredicates]
  rfl

/-- What is left to be tested here are the predicates among the conditions. -/
theorem predicates_of_pushDown
    (planned : layout.pushDown conditions selection discriminator = .ok pushdown) :
    pushdown.predicates = conditions.predicates := by
  cases pushdown with
  | mk filters window total =>
    rw [show filters = _ from filters_of_pushDown planned, Pushdown.predicates_mk]

/-! ## 3. Push-down -/

theorem exists_pushDown_iff :
    (∃ pushdown, layout.pushDown conditions selection discriminator = .ok pushdown) ↔
      (∀ entry ∈ conditions.entries, entry.2.Fits layout entry.1) ∧
        ∀ names, selection = .fields names → ∀ name ∈ names, name ∈ layout.names := by
  have htest : ∀ (entry : String × Condition) e,
      failure? (layout.test entry.1 entry.2) = some e ↔ entry.2.Misfits layout entry.1 e :=
    fun entry e => failure?_eq_some.trans test_eq_error
  rw [← failure?_eq_none, failure?_pushDown, Option.or_eq_none_iff,
    findSome?_eq_none_iff_forall htest, failure?_window_eq_none, forall_fits_iff]

/-- **What conditions become, exactly.** There is a plan exactly if all conditions fit and all
    selected fields are fields of the record. Its filters are first the bytes that are compared, the
    discriminator and those of the conditions, none lost or added: in ascending order of their
    offsets, and at one offset the discriminator first and then in the order of the conditions.
    Then come the predicates, in the order of the conditions. If there is no plan the error is that
    of the first condition that does not fit; only if all of them fit is it that of the first
    selected field that is none of the record. -/
theorem pushDown_exact (layout : RecordLayout) (conditions : Conditions) (selection : Selection)
    (discriminator : List UInt8) :
    ((∃ pushdown, layout.pushDown conditions selection discriminator = .ok pushdown) ↔
      (∀ entry ∈ conditions.entries, entry.2.Fits layout entry.1) ∧
        ∀ names, selection = .fields names → ∀ name ∈ names, name ∈ layout.names) ∧
    (∀ pushdown, layout.pushDown conditions selection discriminator = .ok pushdown →
      pushdown.totalLength = layout.totalLength ∧
      ∃ literals : List (Nat × List UInt8),
        pushdown.filters = literals.map (fun literal => Filter.bytes literal.1 literal.2)
          ++ conditions.predicates.map (fun p => Filter.predicate p.1 p.2) ∧
        literals.Perm (layout.compared conditions discriminator) ∧
        literals.Pairwise (fun a b => a.1 ≤ b.1) ∧
        ∀ offset, literals.filter (·.1 = offset)
          = (layout.compared conditions discriminator).filter (·.1 = offset)) ∧
    ∀ e, layout.pushDown conditions selection discriminator = .error e ↔
      FirstFails (fun entry => entry.2.Misfits layout entry.1) conditions.entries e ∨
      (∀ entry ∈ conditions.entries, entry.2.Fits layout entry.1) ∧
        ∃ names, selection = .fields names ∧ FirstFails layout.Unknown names e := by
  refine ⟨exists_pushDown_iff, fun pushdown planned => ⟨?_, ?_⟩, fun e => ?_⟩
  · exact (literals_of_pushDown planned).1
  · exact ⟨_, filters_of_pushDown planned, perm_sortByOffset _, pairwise_sortByOffset _,
      fun offset => filter_sortByOffset offset _⟩
  · rw [forall_fits_iff, ← failure?_eq_some]
    exact failure?_pushDown_eq_some

end RecordLayout

/-- A leaf can be planned if it has an address, its conditions fit and its selected fields are
    fields of the record. -/
theorem Scan.exists_planLeaf_iff {scan : Scan} {layout : RecordLayout} {commitment : Commitment}
    {leaf : Leaf} {number : Nat} :
    (∃ plan, scan.planLeaf layout commitment leaf number = .ok plan) ↔
      leaf.address ≠ "" ∧ (∀ entry ∈ leaf.conditions.entries, entry.2.Fits layout entry.1) ∧
        ∀ names, leaf.selection = .fields names → ∀ name ∈ names, name ∈ layout.names := by
  have haddress : leaf.address.isEmpty = false ↔ leaf.address ≠ "" := by simp
  rw [← RecordLayout.exists_pushDown_iff]
  simp only [planLeaf_eq_ok, haddress]
  constructor
  · rintro ⟨_, haddress, pushdown, hpushdown, _⟩
    exact ⟨haddress, pushdown, hpushdown⟩
  · rintro ⟨haddress, pushdown, hpushdown⟩
    exact ⟨_, haddress, pushdown, hpushdown, rfl⟩

/-- A record with fields that take no bytes beside fields that do. -/
def Schema.narrow : Schema :=
  empty |>.withStruct "Narrow" [⟨"start", .array (.primitive .u8) 0⟩, ⟨"a", .primitive .u8⟩,
    ⟨"gap", .array (.primitive .u16) 0⟩, ⟨"b", .primitive .u8⟩, ⟨"c", .primitive .u8⟩]

/-- The layout of a narrow record. -/
def Schema.narrowLayout : RecordLayout :=
  ⟨"Narrow", 0, 3, [("start", ⟨0, 0, .array (.primitive .u8) 0⟩), ("a", ⟨0, 1, .primitive .u8⟩),
    ("gap", ⟨1, 0, .array (.primitive .u16) 0⟩), ("b", ⟨1, 1, .primitive .u8⟩),
    ("c", ⟨2, 1, .primitive .u8⟩)]⟩

/-- Conditions on all its fields, from behind and with one predicate. -/
def narrowConditions : Conditions :=
  Conditions.empty.eq "b" (.bytes [3]) |>.satisfies "c" (fun _ _ => true) |>.isNull "a"
    |>.eq "start" (.bytes []) |>.isNull "gap"

/-- At one offset the discriminator stands first, and a field with bytes before one without them if
    its condition does. -/
theorem pushDown_narrow :
    Schema.narrow.layoutOf "Narrow" = .ok Schema.narrowLayout ∧
    ∃ (pushdown : Pushdown) (literals : List (Nat × List UInt8)),
      Schema.narrowLayout.pushDown narrowConditions (.fields ["gap"]) [9, 9] = .ok pushdown ∧
      pushdown.filters = literals.map (fun literal => Filter.bytes literal.1 literal.2)
        ++ narrowConditions.predicates.map (fun p => Filter.predicate p.1 p.2) ∧
      literals.filter (·.1 = 0) = [(0, [9, 9]), (0, [0]), (0, [])] ∧
      literals.filter (·.1 = 1) = [(1, [3]), (1, [])] := by
  have laid : Schema.narrow.layoutOf "Narrow" = .ok Schema.narrowLayout := by decide +kernel
  obtain ⟨_, hplanned, _⟩ := Schema.narrowLayout.pushDown_exact narrowConditions
    (.fields ["gap"]) [9, 9]
  obtain ⟨_, literals, hfilters, _, _, hstable⟩ := hplanned _ rfl
  exact ⟨laid, _, literals, rfl, hfilters, (hstable 0).trans (by rfl), (hstable 1).trans (by rfl)⟩

end LedgerScan
