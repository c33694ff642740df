import LedgerScan.Proofs.Scan.Alike
import LedgerScan.Proofs.Scan.Filters
import LedgerScan.Proofs.Scan.Predicates

/-!
# Selections as sets

A leaf lists the fields that it wants. In which order and how often it names them decides nothing:
the window is the least one around their places (`RecordLayout.window_fields`), and two lists with
the same names have the same places. Of the list itself a plan keeps only which names it wants
(`Scan.planLeaf_select`), and that is the same too (`LeafPlan.rebuild?_selecting`).
`Scan.selection_as_set` puts this together for the leaves of a scan.
-/

namespace LedgerScan

open Fallible

section Selections

variable {layout : RecordLayout} {names others : List String}

/-! ## 1. The window -/

/-- The places of some fields, in the order in which they are named. -/
def RecordLayout.places (layout : RecordLayout) (names : List String) : List Placement :=
  names.filterMap layout.find?

theorem RecordLayout.mem_places {place : Placement} :
    place ∈ layout.places names ↔ ∃ name ∈ names, layout.find? name = some place :=
  List.mem_filterMap

/-- **The window of some fields spans their places.** -/
theorem RecordLayout.window_fields (nonempty : names ≠ [])
    (known : ∀ name ∈ names, name ∈ layout.names) :
    ∃ window, layout.window (.fields names) = .ok (some window) ∧
      window.Spans (layout.places names) := by
  obtain ⟨found, hfound⟩ := exists_window known
  obtain ⟨places, hto, hfrom, ⟨hnil, _⟩ | ⟨window, _, rfl, spans⟩⟩ := window_fields_eq_ok hfound
  · exact absurd hnil nonempty
  · have hsame : ∀ place, place ∈ places ↔ place ∈ layout.places names := by
      intro place
      rw [mem_places]
      refine ⟨hfrom place, fun ⟨name, hname, hfind⟩ => ?_⟩
      obtain ⟨place', hplace', hfind'⟩ := hto name hname
      cases hfind.symm.trans hfind'
      exact hplace'
    obtain ⟨first, hfirst, hstart⟩ := spans.start
    obtain ⟨last, hlast, hstop⟩ := spans.stop
    exact ⟨window, hfound, fun place h => spans.covers place ((hsame place).mpr h),
      ⟨first, (hsame first).mp hfirst, hstart⟩, ⟨last, (hsame last).mp hlast, hstop⟩⟩

/-- It lies behind the discriminator and inside the record, and ends within 64 bits. -/
theorem RecordLayout.bounds_of_spans {schema : Schema} {record : String} {window : Window}
    (laid : schema.layoutOf record = .ok layout) (spans : window.Spans (layout.places names)) :
    layout.headerLength ≤ window.offset ∧ window.offset + window.length ≤ layout.totalLength ∧
      window.offset + window.length ≤ maxLength := by
  obtain ⟨_, _, _, _, placed⟩ := Schema.placed_of_layoutOf laid
  obtain ⟨first, hfirst, hstart⟩ := spans.start
  obtain ⟨last, hlast, hstop⟩ := spans.stop
  obtain ⟨_, _, hfindFirst⟩ := mem_places.mp hfirst
  obtain ⟨_, _, hfindLast⟩ := mem_places.mp hlast
  have hafter := (placed.bounds _ (mem_of_find? hfindFirst)).1
  obtain ⟨_, hinside, hfits, _⟩ := placed.bounds _ (mem_of_find? hfindLast)
  exact ⟨hstart ▸ hafter, hstop.trans_le hinside, hstop.trans_le hfits⟩

/-- Lists with the same names ask for the same window. -/
theorem RecordLayout.window_congr (nonempty : names ≠ [])
    (known : ∀ name ∈ names, name ∈ layout.names) (same : ∀ name, name ∈ others ↔ name ∈ names) :
    layout.window (.fields others) = layout.window (.fields names) := by
  obtain ⟨name, hname⟩ := List.exists_mem_of_ne_nil names nonempty
  have nonempty' : others ≠ [] := List.ne_nil_of_mem ((same name).mpr hname)
  have known' : ∀ name ∈ others, name ∈ layout.names := fun name h => known name ((same name).mp h)
  obtain ⟨window, hwindow, spans⟩ := window_fields nonempty known
  obtain ⟨window', hwindow', spans'⟩ := window_fields nonempty' known'
  have hplaces : ∀ place, place ∈ layout.places others ↔ place ∈ layout.places names := by
    simp only [mem_places, same, implies_true]
  rw [hwindow, hwindow', spans'.unique spans hplaces]

/-! ## 2. Plans -/

/-- The plan with another list of wanted fields. -/
def LeafPlan.selecting (plan : LeafPlan) (names : List String) : LeafPlan :=
  { plan with selection := .fields names }

/-- Planning reads nothing but the window off the list. -/
theorem Scan.planLeaf_select (scan : Scan) (commitment : Commitment) (leaf : Leaf) (number : Nat)
    (window : layout.window (.fields others) = layout.window (.fields names)) :
    scan.planLeaf layout commitment (leaf.select others) number
      = (scan.planLeaf layout commitment (leaf.select names) number).map
          (LeafPlan.selecting · others) := by
  have hpushdown : ∀ discriminator,
      layout.pushDown leaf.conditions (.fields others) discriminator
        = layout.pushDown leaf.conditions (.fields names) discriminator := by
    intro discriminator
    rw [RecordLayout.pushDown, window, RecordLayout.pushDown]
  unfold planLeaf
  show (if leaf.address.isEmpty then _
      else layout.pushDown leaf.conditions (.fields others) _ >>= _)
    = Except.map _ (if leaf.address.isEmpty then _
      else layout.pushDown leaf.conditions (.fields names) _ >>= _)
  rw [hpushdown]
  split
  · rfl
  · cases layout.pushDown leaf.conditions (.fields names)
      (scan.schema.discriminator scan.record) with
    | error e => rfl
    | ok pushdown => rfl

/-- A record depends on which fields are wanted, not on how they are listed. -/
theorem LeafPlan.rebuild?_selecting {plan : LeafPlan} (selected : plan.selection = .fields names)
    (nonempty : names ≠ []) (same : ∀ name, name ∈ others ↔ name ∈ names) (schema : Schema)
    (options : FetchOptions) (account : RawAccount) :
    (plan.selecting others).rebuild? schema options account
      = plan.rebuild? schema options account := by
  obtain ⟨name, hname⟩ := List.exists_mem_of_ne_nil names nonempty
  have nonempty' : others ≠ [] := List.ne_nil_of_mem ((same name).mpr hname)
  have hselected : (plan.selecting others).selection = .fields others := rfl
  have hwants : (plan.selecting others).selection.wants = plan.selection.wants := by
    funext name
    rw [selected, hselected]
    exact Bool.eq_iff_iff.mpr (by simpa [Selection.wants] using same name)
  -- an empty list of names would leave the window unpadded, and neither is empty
  have hwhole : (plan.selecting others).wholeData = plan.wholeData := by
    funext bytes
    cases hwindow : plan.pushdown.window with
    | none =>
      rw [wholeData_of_no_window hwindow]
      exact wholeData_of_no_window hwindow
    | some window =>
      rw [wholeData_of_window selected nonempty hwindow]
      exact wholeData_of_window hselected nonempty' hwindow bytes
  have hfields : (plan.selecting others).fields schema = plan.fields schema := by
    funext account
    unfold fields
    rw [hwants, hwhole, selected]
    rfl
  exact rebuild?_congr hfields (List.Perm.refl _) rfl rfl options account

end Selections

/-- **A selection is a set, and its window the least one.** Let a leaf select some fields of a
    record. There is a plan exactly if the leaf has an address and its conditions fit. The window
    that is asked for lies behind the discriminator and inside the record, within 64 bits. It starts
    where a selected field starts, stops where one stops, covers them all and lies inside every
    other window that does. A list with the same names in any order, repeated or not, fails with the
    same error or asks for the same, and the same record is rebuilt from every account. -/
theorem Scan.selection_as_set (scan : Scan) {layout : RecordLayout}
    (laid : scan.schema.layoutOf scan.record = .ok layout) (commitment : Commitment) (leaf : Leaf)
    (number : Nat) {names : List String} (nonempty : names ≠ [])
    (known : ∀ name ∈ names, name ∈ layout.names) :
    let plan? := fun list => scan.planLeaf layout commitment (leaf.select list) number
    ((∃ plan, plan? names = .ok plan) ↔
      leaf.address ≠ "" ∧ ∀ entry ∈ leaf.conditions.entries, entry.2.Fits layout entry.1) ∧
    ∃ window : Window,
      (∀ plan, plan? names = .ok plan → plan.pushdown.window = some window) ∧
      layout.headerLength ≤ window.offset ∧
      window.offset + window.length ≤ layout.totalLength ∧
      window.offset + window.length ≤ maxLength ∧
      (∃ name ∈ names, ∃ place, layout.find? name = some place ∧
        window.offset = place.offset) ∧
      (∃ name ∈ names, ∃ place, layout.find? name = some place ∧
        window.offset + window.length = place.stop) ∧
      (∀ name ∈ names, ∃ place, layout.find? name = some place ∧ window.Covers place) ∧
      (∀ start stop, (∀ name ∈ names, ∀ place, layout.find? name = some place →
          start ≤ place.offset ∧ place.stop ≤ stop) →
        start ≤ window.offset ∧ window.offset + window.length ≤ stop) ∧
      ∀ others : List String, (∀ name, name ∈ others ↔ name ∈ names) →
        (∀ e, plan? others = .error e ↔ plan? names = .error e) ∧
        ∀ plan, plan? names = .ok plan → ∃ other, plan? others = .ok other ∧
          other.pushdown.window = some window ∧ other.request = plan.request ∧
          ∀ options account, other.rebuild? scan.schema options account
            = plan.rebuild? scan.schema options account := by
  intro plan?
  obtain ⟨window, hwindow, spans⟩ := RecordLayout.window_fields nonempty known
  obtain ⟨hafter, hinside, hfits⟩ := RecordLayout.bounds_of_spans laid spans
  have hasked : ∀ plan, plan? names = .ok plan → plan.pushdown.window = some window :=
    fun plan hplan =>
      (Except.ok.inj (hwindow.symm.trans (parts_of_planLeaf hplan).2.2.1)).symm
  obtain ⟨first, hfirst, hstart⟩ := spans.start
  obtain ⟨last, hlast, hstop⟩ := spans.stop
  obtain ⟨front, hfront, hfindFirst⟩ := RecordLayout.mem_places.mp hfirst
  obtain ⟨back, hback, hfindLast⟩ := RecordLayout.mem_places.mp hlast
  refine ⟨?_, window, hasked, hafter, hinside, hfits, ⟨front, hfront, first, hfindFirst, hstart⟩,
    ⟨back, hback, last, hfindLast, hstop⟩, fun name hname => ?_,
    fun start stop hwide => spans.least fun place hplace => ?_, fun others same => ?_⟩
  · rw [exists_planLeaf_iff]
    exact and_congr_right fun _ => and_iff_left fun _ h => by cases h; exact known
  · obtain ⟨place, hfind⟩ := RecordLayout.exists_find? (known name hname)
    exact ⟨place, hfind, spans.covers place (RecordLayout.mem_places.mpr ⟨name, hname, hfind⟩)⟩
  · obtain ⟨name, hname, hfind⟩ := RecordLayout.mem_places.mp hplace
    exact hwide name hname place hfind
  · have hplans : plan? others = (plan? names).map (LeafPlan.selecting · others) :=
      scan.planLeaf_select commitment leaf number (RecordLayout.window_congr nonempty known same)
    refine ⟨fun e => ?_, fun plan hplan => ⟨plan.selecting others, ?_, hasked plan hplan, rfl,
      LeafPlan.rebuild?_selecting (parts_of_planLeaf hplan).2.1 nonempty same scan.schema⟩⟩
    · rw [hplans]
      cases plan? names with
      | error e' => exact Iff.rfl
      | ok plan => exact ⟨nofun, nofun⟩
    · rw [hplans, hplan]
      rfl

/-- A field without bytes and a later one, named twice, ask for the window that both ask for. -/
theorem selection_of_crooked :
    ∃ plan other,
      (Scan.ofRecord Schema.crooked "Crooked").planLeaf Schema.crookedLayout .confirmed
        ((Leaf.ofAddress "program").select ["b", "gap", "b"]) 1 = .ok plan ∧
      (Scan.ofRecord Schema.crooked "Crooked").planLeaf Schema.crookedLayout .confirmed
        ((Leaf.ofAddress "program").select ["gap", "b"]) 1 = .ok other ∧
      other.pushdown.window = some ⟨3, 3⟩ ∧ other.request = plan.request := by
  have laid : Schema.crooked.layoutOf "Crooked" = .ok Schema.crookedLayout := by decide +kernel
  obtain ⟨hplans, window, hasked, _, _, _, _, _, _, _, hothers⟩ := Scan.selection_as_set
    (Scan.ofRecord Schema.crooked "Crooked") laid .confirmed (Leaf.ofAddress "program") 1
    (List.cons_ne_nil "b" ["gap", "b"]) (by decide)
  obtain ⟨plan, hplan⟩ := hplans.mpr ⟨by decide, List.forall_mem_nil _⟩
  obtain ⟨other, hother, hwindow, hrequest, _⟩ :=
    (hothers ["gap", "b"] (by simp)).2 plan hplan
  cases hplan
  cases hasked _ rfl
  exact ⟨_, other, rfl, hother, hwindow, hrequest⟩

end LedgerScan
