import LedgerScan.Filter.Pushdown
import LedgerScan.Proofs.Fallible
import LedgerScan.Proofs.Filter.Window
import LedgerScan.Scan.Plan
import Mathlib.Data.List.Nodup

/-!
# What a selection and conditions become

Planning looks up every field by name. `window_fields_eq_ok` says which window a selection of
fields asks for, `pushDown_eq_ok` takes a plan apart into the tests that the conditions become and
the window. The node gets the bytes of these tests in another order, but none is lost or added
(`mem_sortByOffset`).
-/

namespace LedgerScan

open Fallible

namespace RecordLayout

variable {layout : RecordLayout} {name : String} {names : List String} {place : Placement}

/-! ## 1. Fields by name -/

theorem place_eq_ok : layout.place name = .ok place ↔ layout.find? name = some place := by
  unfold RecordLayout.place
  cases layout.find? name with
  | none => exact ⟨fun h => (by cases h), fun h => (by cases h)⟩
  | some p => exact ⟨fun h => by cases h; rfl, fun h => by cases h; rfl⟩

theorem mem_of_find? (h : layout.find? name = some place) : (name, place) ∈ layout.fields := by
  obtain ⟨⟨found, p⟩, hfound, rfl⟩ := Option.map_eq_some_iff.mp h
  have hname := List.find?_some hfound
  simp only [beq_iff_eq] at hname
  subst hname
  exact List.mem_of_find?_eq_some hfound

/-- If names do not repeat every field is found by its own. -/
theorem find?_of_mem (distinct : layout.names.Nodup) (h : (name, place) ∈ layout.fields) :
    layout.find? name = some place := by
  cases hfind : layout.fields.find? (·.1 == name) with
  | none => exact absurd (beq_self_eq_true name) (List.find?_eq_none.mp hfind _ h)
  | some found =>
    have hname := List.find?_some hfind
    simp only [beq_iff_eq] at hname
    have hsame : found = (name, place) :=
      List.inj_on_of_nodup_map distinct (List.mem_of_find?_eq_some hfind) h hname
    rw [find?, hfind, hsame]
    rfl

theorem exists_find? (h : name ∈ layout.names) : ∃ place, layout.find? name = some place := by
  obtain ⟨p, hp, rfl⟩ := List.mem_map.mp h
  cases hfind : layout.fields.find? (·.1 == p.1) with
  | none => exact absurd (beq_self_eq_true p.1) (List.find?_eq_none.mp hfind p hp)
  | some q => exact ⟨q.2, by rw [RecordLayout.find?, hfind]; rfl⟩

/-! ## 2. Windows of selections -/

/-- The window that is asked for spans the selected fields, if there are any. -/
theorem window_fields_eq_ok {window : Option Window}
    (h : layout.window (.fields names) = .ok window) :
    ∃ places, (∀ name ∈ names, ∃ place ∈ places, layout.find? name = some place) ∧
      (∀ place ∈ places, ∃ name ∈ names, layout.find? name = some place) ∧
      ((names = [] ∧ window = none) ∨
        ∃ w, names ≠ [] ∧ window = some w ∧ w.Spans places) := by
  obtain ⟨places, hplaces, h⟩ := except_bind_eq_ok.mp h
  obtain ⟨hto, hfrom⟩ := mem_of_mapM_ok hplaces
  simp only [place_eq_ok] at hto hfrom
  refine ⟨places, hto, hfrom, ?_⟩
  cases places with
  | nil =>
    cases h
    refine .inl ⟨List.eq_nil_iff_forall_not_mem.mpr fun name hname => ?_, rfl⟩
    obtain ⟨_, hplace, _⟩ := hto name hname
    cases hplace
  | cons place places =>
    cases h
    refine .inr ⟨_, ?_, rfl, Window.spans_cover _ _⟩
    obtain ⟨name, hname, _⟩ := hfrom place List.mem_cons_self
    exact List.ne_nil_of_mem hname

/-- Fields that are all there can be selected. -/
theorem exists_window (known : ∀ name ∈ names, name ∈ layout.names) :
    ∃ window, layout.window (.fields names) = .ok window := by
  obtain ⟨places, hplaces⟩ := exists_mapM_ok (f := layout.place) fun name hname => by
    obtain ⟨place, hplace⟩ := exists_find? (known name hname)
    exact ⟨place, place_eq_ok.mpr hplace⟩
  show ∃ window, (names.mapM layout.place >>= _) = .ok window
  rw [hplaces]
  cases places with
  | nil => exact ⟨none, rfl⟩
  | cons place places => exact ⟨some _, rfl⟩

/-! ## 3. Plans -/

variable {conditions : Conditions} {selection : Selection} {discriminator : List UInt8}
  {pushdown : Pushdown}

/-- The bytes to compare at the start of the data, if the record has a discriminator. -/
def header (discriminator : List UInt8) : List (Nat × List UInt8) :=
  if discriminator.isEmpty then [] else [(0, discriminator)]

theorem pushDown_eq_ok :
    layout.pushDown conditions selection discriminator = .ok pushdown ↔
      ∃ tests window,
        conditions.entries.mapM (fun entry => layout.test entry.1 entry.2) = .ok tests ∧
        layout.window selection = .ok window ∧
        pushdown = {
          filters :=
            (sortByOffset (header discriminator ++ tests.filterMap Sum.getLeft?)).map
              (fun e => Filter.bytes e.1 e.2)
            ++ (tests.filterMap Sum.getRight?).map (fun e => Filter.predicate e.1 e.2)
          window
          totalLength := layout.totalLength } := by
  unfold pushDown
  simp only [except_bind_eq_ok]
  constructor
  · rintro ⟨tests, htests, window, hwindow, h⟩
    cases h
    exact ⟨tests, window, htests, hwindow, rfl⟩
  · rintro ⟨tests, window, htests, hwindow, rfl⟩
    exact ⟨tests, htests, window, hwindow, rfl⟩

theorem mem_insertByOffset {entry e : Nat × List UInt8} :
    ∀ {entries : List (Nat × List UInt8)},
      e ∈ insertByOffset entry entries ↔ e = entry ∨ e ∈ entries
  | [] => by simp [insertByOffset]
  | other :: rest => by
      unfold insertByOffset
      split
      · rw [List.mem_cons]
      · rw [List.mem_cons, mem_insertByOffset, List.mem_cons, or_left_comm]

/-- Sorting keeps what there is. -/
theorem mem_sortByOffset {e : Nat × List UInt8} {entries : List (Nat × List UInt8)} :
    e ∈ sortByOffset entries ↔ e ∈ entries := by
  induction entries with
  | nil => exact Iff.rfl
  | cons entry entries ih =>
    show e ∈ insertByOffset entry (sortByOffset entries) ↔ _
    rw [mem_insertByOffset, ih, List.mem_cons]

end RecordLayout

namespace Pushdown

variable {literals : List (Nat × List UInt8)} {predicates : List (String × Predicate)}
  {window : Option Window} {total : Nat}

theorem literals_mk :
    (Pushdown.mk (literals.map (fun e => Filter.bytes e.1 e.2)
      ++ predicates.map (fun e => Filter.predicate e.1 e.2)) window total).literals = literals := by
  simp only [Pushdown.literals, List.filterMap_append, List.filterMap_map, Function.comp_def]
  simp

theorem predicates_mk :
    (Pushdown.mk (literals.map (fun e => Filter.bytes e.1 e.2)
      ++ predicates.map (fun e => Filter.predicate e.1 e.2)) window total).predicates
      = predicates := by
  simp only [Pushdown.predicates, List.filterMap_append, List.filterMap_map, Function.comp_def]
  simp

end Pushdown

/-! ## 4. Plans of leaves -/

theorem Scan.planLeaf_eq_ok {scan : Scan} {layout : RecordLayout} {commitment : Commitment}
    {leaf : Leaf} {number : Nat} {plan : LeafPlan} :
    scan.planLeaf layout commitment leaf number = .ok plan ↔
      leaf.address.isEmpty = false ∧ ∃ pushdown,
        layout.pushDown leaf.conditions leaf.selection (scan.schema.discriminator scan.record)
          = .ok pushdown ∧
        plan = {
          node := number
          record := scan.record
          address := leaf.address
          selection := leaf.selection
          pushdown
          metadata := leaf.metadata
          requestId := leaf.requestId.getD standardRequestId
          request := pushdown.request leaf.address commitment } := by
  unfold Scan.planLeaf
  cases leaf.address.isEmpty with
  | true => exact ⟨fun h => (by cases h), fun h => (by cases h.1)⟩
  | false =>
    simp only [Bool.false_eq_true, if_false, true_and]
    constructor
    · intro h
      obtain ⟨pushdown, hpushdown, h⟩ := except_bind_eq_ok.mp h
      cases h
      exact ⟨pushdown, hpushdown, rfl⟩
    · rintro ⟨pushdown, hpushdown, rfl⟩
      exact except_bind_eq_ok.mpr ⟨pushdown, hpushdown, rfl⟩

end LedgerScan
