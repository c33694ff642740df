import LedgerScan.Proofs.Fallible
import LedgerScan.Proofs.Layout.Derivation

/-!
# What a computation of lengths does

`Schema.lengthOfNamed` follows names with a list of open structures and a bound on the levels. Here
stands, once for each step, what it can do:

* `FieldType.lengthBy_array_ok`, `Field.totalBy_ok`, `Schema.lengthOfNamed_ok` say when a step
  succeeds and with what, their counterparts with `error` say what fails;
* a step that succeeds leaves the open names as they were (`Sizing.Frames`);
* a step does only what the lengths of names tell it (`FieldType.lengthBy_congr`,
  `Field.totalBy_congr`).
-/

namespace LedgerScan

open Fallible

/-! ## 1. Single steps -/

namespace Sizing

variable {α : Type} {sizing : Sizing α} {opened : List String}

theorem checked_ok {type : String} {length : Nat} {r : Nat × List String} :
    checked type length opened = .ok r ↔ length ≤ maxLength ∧ r = (length, opened) := by
  unfold checked
  split
  · rename_i h
    simp [h, eq_comm]
  · rename_i h
    simp [h]

theorem checked_error {type : String} {length : Nat} {e : LayoutError} :
    checked type length opened = .error e ↔ maxLength < length ∧ e = .overflow type := by
  unfold checked
  split
  · rename_i h
    simp only [pure_apply, reduceCtorEq, false_iff]
    omega
  · rename_i h
    simp only [throw_apply, Except.error.injEq]
    exact ⟨fun he => ⟨by omega, he.symm⟩, fun he => he.2.symm⟩

theorem inField_ok {record field : String} {r : α × List String} :
    inField record field sizing opened = .ok r ↔ sizing opened = .ok r := by
  unfold inField
  cases sizing opened <;> simp

theorem inField_error {record field : String} {e : LayoutError} :
    inField record field sizing opened = .error e ↔
      ∃ cause, sizing opened = .error cause ∧ e = .inField record field cause := by
  unfold inField
  cases sizing opened <;> simp [eq_comm]

theorem opening_ok {name : String} {result : α} {opened' : List String} :
    opening name sizing opened = .ok (result, opened') ↔
      ∃ inner, sizing (name :: opened) = .ok (result, inner) ∧ opened' = inner.tail := by
  unfold opening
  cases sizing (name :: opened) with
  | error e => simp
  | ok r =>
    obtain ⟨result', inner⟩ := r
    simp only [Except.ok.injEq, Prod.mk.injEq]
    exact ⟨fun ⟨h₁, h₂⟩ => ⟨inner, ⟨h₁, rfl⟩, h₂.symm⟩, fun ⟨_, ⟨h₁, h₂⟩, h₃⟩ => ⟨h₁, h₂ ▸ h₃.symm⟩⟩

theorem opening_error {name : String} {e : LayoutError} :
    opening name sizing opened = .error e ↔ sizing (name :: opened) = .error e := by
  unfold opening
  cases sizing (name :: opened) <;> simp

/-- A computation that leaves the open names as it found them. -/
def Frames (sizing : Sizing α) : Prop :=
  ∀ opened result opened', sizing opened = .ok (result, opened') → opened' = opened

end Sizing

variable {named : String → Sizing Nat} {opened opened' : List String}

theorem FieldType.lengthBy_array_ok {element : FieldType} {count n : Nat} :
    (FieldType.array element count).lengthBy named opened = .ok (n, opened') ↔
      ∃ m, element.lengthBy named opened = .ok (m, opened') ∧ m * count ≤ maxLength ∧
        n = m * count := by
  show (element.lengthBy named >>= fun m => Sizing.checked _ (m * count)) opened = _ ↔ _
  rw [bind_eq_ok_iff]
  constructor
  · rintro ⟨m, s, hm, hc⟩
    obtain ⟨fits, hr⟩ := Sizing.checked_ok.mp hc
    cases hr
    exact ⟨m, hm, fits, rfl⟩
  · rintro ⟨m, hm, fits, rfl⟩
    exact ⟨m, opened', hm, Sizing.checked_ok.mpr ⟨fits, rfl⟩⟩

theorem FieldType.lengthBy_array_error {element : FieldType} {count : Nat} {e : LayoutError} :
    (FieldType.array element count).lengthBy named opened = .error e ↔
      element.lengthBy named opened = .error e ∨
      ∃ m s, element.lengthBy named opened = .ok (m, s) ∧ maxLength < m * count ∧
        e = .overflow (FieldType.array element count).text := by
  show (element.lengthBy named >>= fun m => Sizing.checked _ (m * count)) opened = _ ↔ _
  rw [bind_eq_error_iff]
  simp only [Sizing.checked_error]

/-- If names leave the open names alone, so do types. -/
theorem FieldType.lengthBy_frames (h : ∀ name, (named name).Frames) (type : FieldType) :
    (type.lengthBy named).Frames := by
  induction type with
  | primitive p => exact fun _ _ _ hr => by cases hr; rfl
  | array element count ih =>
    intro opened n opened' hr
    obtain ⟨m, hm, _⟩ := lengthBy_array_ok.mp hr
    exact ih _ _ _ hm
  | defined name => exact h name
  | option | vec | string | bytes | map => exact fun _ _ _ hr => by cases hr

/-- Only what the names do under the open names at hand matters for a type. -/
theorem FieldType.lengthBy_congr {other : String → Sizing Nat}
    (h : ∀ name, named name opened = other name opened) (type : FieldType) :
    type.lengthBy named opened = type.lengthBy other opened := by
  induction type with
  | array element count ih =>
    show (element.lengthBy named >>= _) opened = (element.lengthBy other >>= _) opened
    exact bind_congr_left ih
  | defined name => exact h name
  | primitive | option | vec | string | bytes | map => rfl

namespace Field

variable {owner : String} {field : Field} {fields : List Field} {total n : Nat}

theorem totalBy_cons_ok :
    Field.totalBy named owner (field :: fields) total opened = .ok (n, opened') ↔
      ∃ m s, field.type.lengthBy named opened = .ok (m, s) ∧ total + m ≤ maxLength ∧
        Field.totalBy named owner fields (total + m) s = .ok (n, opened') := by
  show (Sizing.inField owner field.name (field.type.lengthBy named) >>= fun m =>
    Sizing.checked owner (total + m) >>= fun t => Field.totalBy named owner fields t) opened = _ ↔ _
  simp only [bind_eq_ok_iff, Sizing.inField_ok, Sizing.checked_ok]
  constructor
  · rintro ⟨m, s, hm, t, s', ⟨fits, hr⟩, ht⟩
    cases hr
    exact ⟨m, s, hm, fits, ht⟩
  · rintro ⟨m, s, hm, fits, ht⟩
    exact ⟨m, s, hm, total + m, s, ⟨fits, rfl⟩, ht⟩

theorem totalBy_cons_error {e : LayoutError} :
    Field.totalBy named owner (field :: fields) total opened = .error e ↔
      (∃ cause, field.type.lengthBy named opened = .error cause ∧
        e = .inField owner field.name cause) ∨
      ∃ m s, field.type.lengthBy named opened = .ok (m, s) ∧
        ((maxLength < total + m ∧ e = .overflow owner) ∨
          (total + m ≤ maxLength ∧ Field.totalBy named owner fields (total + m) s = .error e)) := by
  show (Sizing.inField owner field.name (field.type.lengthBy named) >>= fun m =>
    Sizing.checked owner (total + m) >>= fun t => Field.totalBy named owner fields t) opened = _ ↔ _
  simp only [bind_eq_error_iff, Sizing.inField_ok, Sizing.inField_error, Sizing.checked_ok,
    Sizing.checked_error]
  refine or_congr_right (exists_congr fun m => exists_congr fun s => and_congr_right fun _ =>
    or_congr_right ⟨?_, ?_⟩)
  · rintro ⟨t, s', ⟨fits, hr⟩, ht⟩
    cases hr
    exact ⟨fits, ht⟩
  · rintro ⟨fits, ht⟩
    exact ⟨total + m, s, ⟨fits, rfl⟩, ht⟩

theorem totalBy_frames (h : ∀ name, (named name).Frames) :
    ∀ (fields : List Field) (total : Nat), (Field.totalBy named owner fields total).Frames
  | [], _ => fun _ _ _ hr => by cases hr; rfl
  | field :: fields, total => fun opened n opened' hr => by
      obtain ⟨m, s, hm, _, ht⟩ := totalBy_cons_ok.mp hr
      have hs : s = opened := FieldType.lengthBy_frames h field.type _ _ _ hm
      subst hs
      exact totalBy_frames h fields (total + m) _ _ _ ht

/-- **A structure has a length exactly when all its fields have one and the sum is not beyond the
    greatest.** Running sums grow, so it is enough to look at the last one. -/
theorem totalBy_ok (h : ∀ name, (named name).Frames) (lengthAt : FieldType → Nat)
    (hl : ∀ field ∈ fields, ∀ m s, field.type.lengthBy named opened = .ok (m, s) →
      m = lengthAt field.type) (start : total ≤ maxLength) :
    Field.totalBy named owner fields total opened = .ok (n, opened') ↔
      (∀ field ∈ fields, field.type.lengthBy named opened = .ok (lengthAt field.type, opened)) ∧
      n = total + (fields.map fun field => lengthAt field.type).sum ∧ n ≤ maxLength ∧
      opened' = opened := by
  induction fields generalizing total with
  | nil =>
    show Except.ok (total, opened) = _ ↔ _
    simp only [Except.ok.injEq, Prod.mk.injEq, List.not_mem_nil, false_implies, implies_true,
      List.map_nil, List.sum_nil, Nat.add_zero, true_and]
    exact ⟨fun ⟨h₁, h₂⟩ => ⟨h₁.symm, h₁ ▸ start, h₂.symm⟩, fun ⟨h₁, _, h₂⟩ => ⟨h₁.symm, h₂.symm⟩⟩
  | cons field fields ih =>
    rw [totalBy_cons_ok, List.forall_mem_cons, List.map_cons, List.sum_cons]
    have tail := fun g hg => hl g (List.mem_cons_of_mem field hg)
    constructor
    · rintro ⟨m, s, hm, fits, ht⟩
      have hs : s = opened := FieldType.lengthBy_frames h field.type _ _ _ hm
      have hml := hl field List.mem_cons_self m s hm
      subst hs hml
      obtain ⟨hf, hn, hle, ho⟩ := (ih tail fits).mp ht
      exact ⟨⟨hm, hf⟩, by omega, hle, ho⟩
    · rintro ⟨⟨hm, hf⟩, hn, hle, ho⟩
      have fits : total + lengthAt field.type ≤ maxLength := by omega
      exact ⟨_, _, hm, fits, (ih tail fits).mpr ⟨hf, by omega, hle, ho⟩⟩

theorem totalBy_congr {other : String → Sizing Nat} (frames : ∀ name, (named name).Frames)
    (h : ∀ name, named name opened = other name opened) :
    Field.totalBy named owner fields total opened
      = Field.totalBy other owner fields total opened := by
  induction fields generalizing total with
  | nil => rfl
  | cons field fields ih =>
    have hlength := FieldType.lengthBy_congr h field.type
    cases hr : Field.totalBy other owner (field :: fields) total opened with
    | ok r =>
      obtain ⟨n, s'⟩ := r
      obtain ⟨m, s, hm, fits, ht⟩ := totalBy_cons_ok.mp hr
      rw [← hlength] at hm
      have hs : s = opened := FieldType.lengthBy_frames frames field.type _ _ _ hm
      subst hs
      exact totalBy_cons_ok.mpr ⟨m, s, hm, fits, ih.trans ht⟩
    | error e =>
      obtain ⟨cause, hc, rfl⟩ | ⟨m, s, hm, hrest⟩ := totalBy_cons_error.mp hr
      · exact totalBy_cons_error.mpr (.inl ⟨cause, hlength.trans hc, rfl⟩)
      · rw [← hlength] at hm
        have hs : s = opened := FieldType.lengthBy_frames frames field.type _ _ _ hm
        subst hs
        exact totalBy_cons_error.mpr (.inr ⟨m, s, hm, hrest.imp_right fun ⟨fits, ht⟩ =>
          ⟨fits, ih.trans ht⟩⟩)

end Field

namespace Schema

variable {schema : Schema} {levels n : Nat} {name : String}

theorem lengthOfNamed_ok :
    schema.lengthOfNamed levels name opened = .ok (n, opened') ↔
      name ∉ opened ∧
      ((∃ variants, schema.find? name = some (.enum variants) ∧
          (∀ v ∈ variants, v.hasFields = false) ∧ n = 1 ∧ opened' = opened) ∨
        ∃ fields below s, schema.find? name = some (.struct fields) ∧ levels = below + 1 ∧
          Field.totalBy (schema.lengthOfNamed below) name fields 0 (name :: opened) = .ok (n, s) ∧
          opened' = s.tail) := by
  unfold Schema.lengthOfNamed
  by_cases ho : name ∈ opened
  · simp [ho]
  · rw [if_neg ho]
    cases hf : schema.find? name with
    | none => simp
    | some definition =>
      cases definition with
      | enum variants =>
        by_cases hv : variants.any (·.hasFields) = true
        · have hv' : ¬ ∀ v ∈ variants, v.hasFields = false := by
            simpa using hv
          simp [hv, hv']
        · have hv' : ∀ v ∈ variants, v.hasFields = false := by
            simpa using hv
          simp only [hv, Bool.false_eq_true, if_false, Except.ok.injEq, Prod.mk.injEq, ho,
            not_false_eq_true, true_and, Option.some.injEq, TypeDef.enum.injEq, exists_eq_left',
            reduceCtorEq, false_and, exists_false, or_false]
          exact ⟨fun ⟨h₁, h₂⟩ => ⟨hv', h₁.symm, h₂.symm⟩, fun ⟨_, h₁, h₂⟩ => ⟨h₁.symm, h₂.symm⟩⟩
      | struct fields =>
        cases levels with
        | zero => simp
        | succ below => simp [Sizing.opening_ok, ho]

theorem lengthOfNamed_error {e : LayoutError} :
    schema.lengthOfNamed levels name opened = .error e ↔
      (name ∈ opened ∧ e = .recursive name) ∨
      (name ∉ opened ∧
        ((schema.find? name = none ∧ e = .unknownType name) ∨
          (∃ variants, schema.find? name = some (.enum variants) ∧
            (∃ v ∈ variants, v.hasFields = true) ∧ e = .unsized name) ∨
          ∃ fields, schema.find? name = some (.struct fields) ∧
            ((levels = 0 ∧ e = .recursive name) ∨
              ∃ below, levels = below + 1 ∧
                Field.totalBy (schema.lengthOfNamed below) name fields 0 (name :: opened)
                  = .error e))) := by
  unfold Schema.lengthOfNamed
  by_cases ho : name ∈ opened
  · simp [ho, eq_comm (a := e)]
  · rw [if_neg ho]
    cases hf : schema.find? name with
    | none => simp [ho, eq_comm (a := e)]
    | some definition =>
      cases definition with
      | enum variants =>
        by_cases hv : variants.any (·.hasFields) = true
        · have hv' : ∃ v ∈ variants, v.hasFields = true := by
            simpa using hv
          simp [hv, hv', ho, eq_comm (a := e)]
        · have hv' : ¬ ∃ v ∈ variants, v.hasFields = true := by
            simpa using hv
          simp [hv, hv', ho]
      | struct fields =>
        cases levels with
        | zero => simp [ho, eq_comm (a := e)]
        | succ below => simp [Sizing.opening_error, ho]

/-- Whatever is opened on the way is closed again. -/
theorem lengthOfNamed_frames (schema : Schema) (levels : Nat) :
    ∀ name, (schema.lengthOfNamed levels name).Frames := by
  induction levels with
  | zero =>
    intro name opened n opened' hr
    obtain ⟨_, ⟨_, _, _, _, rfl⟩ | ⟨_, _, _, _, hl, _⟩⟩ := lengthOfNamed_ok.mp hr
    · rfl
    · cases hl
  | succ below ih =>
    intro name opened n opened' hr
    obtain ⟨_, ⟨_, _, _, _, rfl⟩ | ⟨fields, _, s, _, hl, ht, rfl⟩⟩ := lengthOfNamed_ok.mp hr
    · rfl
    · cases hl
      rw [Field.totalBy_frames ih fields 0 _ _ _ ht]
      rfl

end Schema

end LedgerScan
