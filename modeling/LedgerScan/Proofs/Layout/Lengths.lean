import LedgerScan.Proofs.Entries
import LedgerScan.Proofs.Layout.Sizing
import Mathlib.Tactic.Choose

/-!
# Which types have a length

The computation of lengths meets its specification from both sides. What it finds is derived
(`lengthBy_sized`), and what is derived it finds (`Sized.lengthBy`): a derived type never leads back
to a structure that is open, because it reaches no type that mentions itself. Two more facts rest on
`unopened`, the definitions whose names are not open, of which every opened structure takes one
away: the bound on the levels is never met (`lengthOfNamed_levels`), and who is reported to contain
itself does (`embeds_self_of_named`).
-/

namespace LedgerScan

open Relation

namespace Schema

variable {schema : Schema} {levels n : Nat} {opened s : List String} {type : FieldType}

/-! ## 1. What is found is derived -/

/-- The lengths that a computation finds are values of one function of the type. -/
theorem exists_lengthAt (named : String → Sizing Nat) (opened : List String) :
    ∃ lengthAt : FieldType → Nat, ∀ (type : FieldType) (m : Nat) (s : List String),
      type.lengthBy named opened = .ok (m, s) → m = lengthAt type := by
  have each : ∀ type : FieldType, ∃ k, ∀ (m : Nat) (s : List String),
      type.lengthBy named opened = .ok (m, s) → m = k := by
    intro type
    cases hr : type.lengthBy named opened with
    | error e => exact ⟨0, fun m s h => by cases h⟩
    | ok r => exact ⟨r.1, fun m s h => by cases h; rfl⟩
  choose lengthAt h using each
  exact ⟨lengthAt, h⟩

theorem sized_of_named
    (h : ∀ name n s, schema.lengthOfNamed levels name opened = .ok (n, s) →
      schema.Sized levels (.defined name) n)
    (hr : type.lengthBy (schema.lengthOfNamed levels) opened = .ok (n, s)) :
    schema.Sized levels type n := by
  induction type generalizing n with
  | primitive p => cases hr; exact .primitive p
  | array element count ih =>
    obtain ⟨m, hm, fits, rfl⟩ := FieldType.lengthBy_array_ok.mp hr
    exact .array count (ih hm) fits
  | defined name => exact h name n s hr
  | option | vec | string | bytes | map => cases hr

theorem lengthOfNamed_sized (levels : Nat) :
    ∀ (name : String) (opened : List String) (n : Nat) (s : List String),
      schema.lengthOfNamed levels name opened = .ok (n, s) →
      schema.Sized levels (.defined name) n := by
  induction levels with
  | zero =>
    intro name opened n s hr
    obtain ⟨_, ⟨variants, found, units, rfl, _⟩ | ⟨_, _, _, _, hl, _⟩⟩ := lengthOfNamed_ok.mp hr
    · exact .enum found units
    · cases hl
  | succ below ih =>
    intro name opened n s hr
    obtain ⟨_, ⟨variants, found, units, rfl, _⟩ | ⟨fields, _, s', found, hl, ht, _⟩⟩ :=
      lengthOfNamed_ok.mp hr
    · exact .enum found units
    · cases hl
      obtain ⟨lengthAt, hat⟩ := exists_lengthAt (schema.lengthOfNamed below) (name :: opened)
      obtain ⟨hfields, hn, fits, _⟩ := (Field.totalBy_ok (schema.lengthOfNamed_frames below)
        lengthAt (fun field _ => hat field.type) (Nat.zero_le _)).mp ht
      rw [Nat.zero_add] at hn
      subst hn
      exact .struct found lengthAt
        (fun field hm => sized_of_named (fun name n s => ih name _ n s) (hfields field hm)) fits

/-- **Every length that is found has a derivation.** -/
theorem lengthBy_sized (hr : type.lengthBy (schema.lengthOfNamed levels) opened = .ok (n, s)) :
    schema.Sized levels type n :=
  sized_of_named (fun name n s => lengthOfNamed_sized levels name opened n s) hr

/-! ## 2. Definitions that are not open -/

/-- The definitions whose names are not open. -/
def unopened (schema : Schema) (opened : List String) : List (String × TypeDef) :=
  schema.types.filter fun entry => entry.1 ∉ opened

/-- Opening a structure takes its definition away. -/
theorem unopened_cons_lt {name : String} {definition : TypeDef}
    (found : schema.find? name = some definition) (h : name ∉ opened) :
    (schema.unopened (name :: opened)).length < (schema.unopened opened).length := by
  have hsplit : schema.unopened (name :: opened)
      = (schema.unopened opened).filter fun entry => entry.1 ≠ name := by
    unfold unopened
    rw [List.filter_filter]
    refine List.filter_congr fun entry _ => ?_
    simp
  rw [hsplit, List.length_filter_lt_length_iff_exists]
  refine ⟨(name, definition), List.mem_filter.mpr ⟨Entries.mem_of_get? found, ?_⟩, ?_⟩
  · simpa using h
  · simp

theorem unopened_nil_length : (schema.unopened []).length = schema.types.length := by
  simp [unopened]

/-- Only where a structure is opened does the number of levels matter. -/
theorem lengthOfNamed_of_not_opening {name : String} {more : Nat}
    (h : name ∈ opened ∨ ∀ fields, schema.find? name ≠ some (.struct fields)) :
    schema.lengthOfNamed levels name opened = schema.lengthOfNamed more name opened := by
  unfold lengthOfNamed
  by_cases ho : name ∈ opened
  · simp [ho]
  · have hf := h.resolve_left ho
    cases found : schema.find? name with
    | none => simp [ho]
    | some definition =>
      cases definition with
      | enum variants => simp [ho]
      | struct fields => exact absurd found (hf fields)

/-- **The bound on the levels is never met**: with at least as many levels as there are definitions
    to open, their number does not matter. -/
theorem lengthOfNamed_levels (levels : Nat) :
    ∀ (more : Nat) (name : String) (opened : List String),
      (schema.unopened opened).length ≤ levels → (schema.unopened opened).length ≤ more →
      schema.lengthOfNamed levels name opened = schema.lengthOfNamed more name opened := by
  induction levels with
  | zero =>
    intro more name opened hlevels _
    refine lengthOfNamed_of_not_opening (or_iff_not_imp_left.mpr fun ho fields found => ?_)
    have := unopened_cons_lt found ho
    omega
  | succ below ih =>
    intro more name opened hlevels hmore
    by_cases hs : name ∉ opened ∧ ∃ fields, schema.find? name = some (.struct fields)
    · obtain ⟨ho, fields, found⟩ := hs
      have hlt := unopened_cons_lt found ho
      obtain ⟨more, rfl⟩ : ∃ m, more = m + 1 := ⟨more - 1, by omega⟩
      have inner : ∀ other, schema.lengthOfNamed below other (name :: opened)
          = schema.lengthOfNamed more other (name :: opened) := fun other =>
        ih more other (name :: opened) (by omega) (by omega)
      unfold lengthOfNamed
      simp only [ho, if_false, found, Sizing.opening]
      rw [Field.totalBy_congr (schema.lengthOfNamed_frames below) inner]
    · refine lengthOfNamed_of_not_opening (or_iff_not_imp_left.mpr fun ho fields found => ?_)
      exact hs ⟨ho, fields, found⟩

theorem lengthBy_levels {levels : Nat} (h : schema.types.length ≤ levels) (type : FieldType) :
    type.lengthBy (schema.lengthOfNamed levels) [] = schema.sizing type [] :=
  FieldType.lengthBy_congr (fun name => lengthOfNamed_levels levels schema.types.length name []
    (unopened_nil_length.trans_le h) unopened_nil_length.le) type

/-! ## 3. What is derived is found -/

/-- **Every derivation is found**, as long as the type does not lead to an open structure. -/
theorem Sized.lengthBy {depth : Nat} (h : schema.Sized depth type n) :
    ∀ (levels : Nat) (opened : List String), (schema.unopened opened).length ≤ levels →
      (∀ name ∈ opened, ¬ ReflTransGen schema.Embeds type (.defined name)) →
      type.lengthBy (schema.lengthOfNamed levels) opened = .ok (n, opened) := by
  induction h with
  | primitive p => exact fun _ _ _ _ => rfl
  | array count _ fits ih =>
    intro levels opened hlevels away
    refine FieldType.lengthBy_array_ok.mpr ⟨_, ih levels opened hlevels ?_, fits, rfl⟩
    exact fun name hm hr => away name hm (.head (.element _ _) hr)
  | enum found units =>
    intro levels opened _ away
    exact lengthOfNamed_ok.mpr
      ⟨fun hm => away _ hm .refl, .inl ⟨_, found, units, rfl, rfl⟩⟩
  | @struct depth name fields found lengthAt sized fits ih =>
    intro levels opened hlevels away
    have ho : name ∉ opened := fun hm => away name hm .refl
    have hlt := unopened_cons_lt found ho
    obtain ⟨below, rfl⟩ : ∃ m, levels = m + 1 := ⟨levels - 1, by omega⟩
    -- a field leads neither to what was open before nor back to the structure just opened
    have inner : ∀ field ∈ fields, field.type.lengthBy (schema.lengthOfNamed below) (name :: opened)
        = .ok (lengthAt field.type, name :: opened) := by
      intro field hfield
      refine ih field hfield below (name :: opened) (by omega) fun other hm hr => ?_
      have step : schema.Embeds (.defined name) field.type := .field found hfield
      rcases List.mem_cons.mp hm with rfl | hm
      · exact (Sized.struct found lengthAt sized fits).not_embeds_self .refl (.head' step hr)
      · exact away other hm (.head step hr)
    refine lengthOfNamed_ok.mpr ⟨ho, .inr ⟨fields, below, name :: opened, found, rfl, ?_, rfl⟩⟩
    refine (Field.totalBy_ok (schema.lengthOfNamed_frames below) lengthAt ?_
      (Nat.zero_le _)).mpr ⟨inner, (Nat.zero_add _).symm, fits, rfl⟩
    intro field hfield m s hm
    rw [inner field hfield] at hm
    cases hm
    rfl

/-! ## 4. Who is said to contain itself -/

/-- A type that is said to lead to a structure that contains itself holds a name of which that is
    said. -/
theorem exists_named_of_recursive (schema : Schema) {named : String → Sizing Nat}
    {e : LayoutError} {culprit : String}
    (hr : type.lengthBy named opened = .error e) (he : e.root = .recursive culprit) :
    ∃ name, ReflTransGen schema.Embeds type (.defined name) ∧ named name opened = .error e := by
  induction type with
  | primitive p => cases hr
  | array element count ih =>
    obtain hr | ⟨_, _, _, _, rfl⟩ := FieldType.lengthBy_array_error.mp hr
    · obtain ⟨name, hreach, hname⟩ := ih hr
      exact ⟨name, .head (.element _ _) hreach, hname⟩
    · cases he
  | defined name => exact ⟨name, .refl, hr⟩
  | option | vec | string | bytes | map => cases hr; cases he

/-- The same for the fields of a structure. -/
theorem exists_field_of_recursive {named : String → Sizing Nat} {owner culprit : String}
    {fields : List Field} {total : Nat} {e : LayoutError} (frames : ∀ name, (named name).Frames)
    (hr : Field.totalBy named owner fields total opened = .error e)
    (he : e.root = .recursive culprit) :
    ∃ field ∈ fields, ∃ cause, field.type.lengthBy named opened = .error cause ∧
      cause.root = .recursive culprit := by
  induction fields generalizing total with
  | nil => cases hr
  | cons field fields ih =>
    obtain ⟨cause, hc, rfl⟩ | ⟨m, s, hm, ⟨_, rfl⟩ | ⟨_, ht⟩⟩ := Field.totalBy_cons_error.mp hr
    · exact ⟨field, List.mem_cons_self, cause, hc, he⟩
    · cases he
    · have hs : s = opened := FieldType.lengthBy_frames frames field.type _ _ _ hm
      subst hs
      obtain ⟨g, hg, cause, hc, hroot⟩ := ih ht
      exact ⟨g, List.mem_cons_of_mem _ hg, cause, hc, hroot⟩

/-- **Who is said to contain itself is open or has itself as a part.** -/
theorem embeds_self_of_named (levels : Nat) :
    ∀ (name culprit : String) (opened : List String) (e : LayoutError),
      (schema.unopened opened).length ≤ levels →
      schema.lengthOfNamed levels name opened = .error e → e.root = .recursive culprit →
      ReflTransGen schema.Embeds (.defined name) (.defined culprit) ∧
        (culprit ∈ opened ∨ TransGen schema.Embeds (.defined culprit) (.defined culprit)) := by
  induction levels with
  | zero =>
    intro name culprit opened e hlevels hr he
    obtain ⟨ho, rfl⟩ | ⟨ho, ⟨_, rfl⟩ | ⟨_, _, _, rfl⟩ | ⟨fields, found, _⟩⟩ :=
      lengthOfNamed_error.mp hr
    · cases he
      exact ⟨.refl, .inl ho⟩
    · cases he
    · cases he
    · have := unopened_cons_lt found ho
      omega
  | succ below ih =>
    intro name culprit opened e hlevels hr he
    obtain ⟨ho, rfl⟩ | ⟨ho, ⟨_, rfl⟩ | ⟨_, _, _, rfl⟩ | ⟨fields, found, ⟨hl, _⟩ | ⟨_, hl, ht⟩⟩⟩ :=
      lengthOfNamed_error.mp hr
    · cases he
      exact ⟨.refl, .inl ho⟩
    · cases he
    · cases he
    · cases hl
    · cases hl
      have hlt := unopened_cons_lt found ho
      obtain ⟨field, hfield, cause, hc, hroot⟩ :=
        exists_field_of_recursive (schema.lengthOfNamed_frames below) ht he
      obtain ⟨inner, hreach, hinner⟩ := exists_named_of_recursive schema hc hroot
      obtain ⟨hdown, hself⟩ := ih inner culprit (name :: opened) cause (by omega) hinner hroot
      have hdeep : TransGen schema.Embeds (.defined name) (.defined culprit) :=
        .head' (.field found hfield) (hreach.trans hdown)
      refine ⟨hdeep.to_reflTransGen, ?_⟩
      rcases hself with hmem | hself
      · rcases List.mem_cons.mp hmem with rfl | hmem
        · exact .inr hdeep
        · exact .inl hmem
      · exact .inr hself

/-! ## 5. The length of a type -/

theorem lengthOf_eq_ok :
    schema.lengthOf type = .ok n ↔ schema.sizing type [] = .ok (n, []) := by
  show (fun r => r.1) <$> schema.sizing type [] = .ok n ↔ _
  cases hr : schema.sizing type [] with
  | error e => simp
  | ok r =>
    obtain ⟨m, s⟩ := r
    have hs : s = [] :=
      FieldType.lengthBy_frames (schema.lengthOfNamed_frames _) type _ _ _ hr
    simp [hs]

theorem lengthOf_eq_error {e : LayoutError} :
    schema.lengthOf type = .error e ↔ schema.sizing type [] = .error e := by
  show (fun r => r.1) <$> schema.sizing type [] = .error e ↔ _
  cases schema.sizing type [] <;> simp

/-- A length that is found has a derivation with no more levels than the schema has definitions. -/
theorem sized_of_lengthOf (h : schema.lengthOf type = .ok n) :
    schema.Sized schema.types.length type n :=
  lengthBy_sized (lengthOf_eq_ok.mp h)

theorem lengthOf_of_sized {depth : Nat} (h : schema.Sized depth type n) :
    schema.lengthOf type = .ok n :=
  lengthOf_eq_ok.mpr (h.lengthBy _ [] unopened_nil_length.le (fun _ hm => by cases hm))

/-- **The length of a type, exactly.** It is found exactly when it has a derivation. The computation
    comes to an end by itself: allowing more levels changes neither its result nor its error. A type
    that leads to definitions that mention each other in a circle has no length, and only a type
    with a structure inside that is a part of itself is said to have one. -/
theorem lengthOf_exact (schema : Schema) (type : FieldType) :
    (∀ n, schema.lengthOf type = .ok n ↔ ∃ depth, schema.Sized depth type n) ∧
    (∀ levels, schema.types.length ≤ levels →
      (type.lengthBy (schema.lengthOfNamed levels)).run' [] = schema.lengthOf type) ∧
    (∀ part, ReflTransGen schema.Mentions type part → TransGen schema.Mentions part part →
      ∃ e, schema.lengthOf type = .error e) ∧
    (∀ e culprit, schema.lengthOf type = .error e → e.root = .recursive culprit →
      ReflTransGen schema.Embeds type (.defined culprit) ∧
        TransGen schema.Embeds (.defined culprit) (.defined culprit)) := by
  refine ⟨fun n => ⟨fun h => ⟨_, sized_of_lengthOf h⟩, fun ⟨_, h⟩ => lengthOf_of_sized h⟩,
    fun levels hlevels => ?_, fun part hreach hself => ?_, fun e culprit hr he => ?_⟩
  · show (fun r => r.1) <$> type.lengthBy (schema.lengthOfNamed levels) [] = _
    rw [lengthBy_levels hlevels]
    rfl
  · cases hr : schema.lengthOf type with
    | error e => exact ⟨e, rfl⟩
    | ok n => exact absurd hself ((sized_of_lengthOf hr).acyclic hreach)
  · obtain ⟨name, hreach, hname⟩ :=
      exists_named_of_recursive schema (lengthOf_eq_error.mp hr) he
    obtain ⟨hdown, hself⟩ :=
      embeds_self_of_named _ name culprit [] e unopened_nil_length.le hname he
    exact ⟨hreach.trans hdown, hself.resolve_left List.not_mem_nil⟩

/-- Lines between points, and two structures that hold each other. -/
def lines : Schema :=
  empty |>.withStruct "Point" [⟨"x", .primitive .u32⟩, ⟨"y", .primitive .u32⟩]
    |>.withStruct "Line" [⟨"from", .defined "Point"⟩, ⟨"to", .defined "Point"⟩]
    |>.withStruct "Hen" [⟨"egg", .defined "Egg"⟩]
    |>.withStruct "Egg" [⟨"hen", .array (.defined "Hen") 0⟩]

/-- Two points in one structure are no circle, a hen and its egg are one, even in an empty array. -/
theorem lengthOf_lines :
    (∃ depth, lines.Sized depth (.array (.defined "Line") 3) 48) ∧
    ∃ e, lines.lengthOf (.defined "Hen") = .error e := by
  have hen : lines.find? "Hen" = some (.struct [⟨"egg", .defined "Egg"⟩]) := by decide +kernel
  have egg : lines.find? "Egg" = some (.struct [⟨"hen", .array (.defined "Hen") 0⟩]) := by
    decide +kernel
  have circle : TransGen lines.Mentions (.defined "Hen") (.defined "Hen") :=
    .tail (.tail (.single (.part (.field hen List.mem_cons_self)))
      (.part (.field egg List.mem_cons_self))) (.part (.element _ 0))
  exact ⟨((lengthOf_exact lines _).1 48).mp (by decide +kernel),
    (lengthOf_exact lines _).2.2.1 _ .refl circle⟩

end Schema

end LedgerScan
