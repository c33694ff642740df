import LedgerScan.Proofs.Layout.Lengths

/-!
# Which structures are open

A length is computed inside some structures that are open already, those around it. What the length
is does not hang on them; they only can be met on the way. Two computations of one type inside
different structures go the same way, step by step, until the second meets a name that is open for
it and was not open for the first: this is `Sizing.Follows`, and every step keeps it
(`FieldType.lengthBy_follows`, `Field.totalBy_follows`, `Schema.lengthOfNamed_follows`).

Opening a structure opens it for both, so what is met deeper inside is one of the names that told
the two apart from the start. `Schema.sizing_opened` draws the conclusions.
-/

namespace LedgerScan

/-! ## 1. Two computations side by side -/

namespace Sizing

/-- A computation meets a name that is open now and was not open before. -/
def Meets (sizing : Sizing Nat) (before now : List String) : Prop :=
  ∃ e name, sizing now = .error e ∧ e.root = .recursive name ∧ name ∈ now ∧ name ∉ before

/-- **What succeeds with some names open does the same with others**, and leaves them as they are,
    unless it meets one of these. -/
def Follows (sizing : Sizing Nat) (before now : List String) : Prop :=
  ∀ n s, sizing before = .ok (n, s) → sizing now = .ok (n, now) ∨ sizing.Meets before now

end Sizing

variable {named : String → Sizing Nat} {before now : List String}

theorem FieldType.lengthBy_follows (h : ∀ name, (named name).Follows before now)
    (type : FieldType) : (type.lengthBy named).Follows before now := by
  induction type with
  | primitive p =>
    intro n s hr
    cases hr
    exact .inl rfl
  | array element count ih =>
    intro n s hr
    obtain ⟨m, hm, fits, rfl⟩ := lengthBy_array_ok.mp hr
    rcases ih m s hm with hsame | ⟨e, name, he, hmet⟩
    · exact .inl (lengthBy_array_ok.mpr ⟨m, hsame, fits, rfl⟩)
    · exact .inr ⟨e, name, lengthBy_array_error.mpr (.inl he), hmet⟩
  | defined name => exact h name
  | option | vec | string | bytes | map => exact fun _ _ hr => by cases hr

theorem Field.totalBy_follows (owner : String) (frames : ∀ name, (named name).Frames)
    (h : ∀ name, (named name).Follows before now) (fields : List Field) :
    ∀ total, (Field.totalBy named owner fields total).Follows before now := by
  induction fields with
  | nil =>
    intro total n s hr
    cases hr
    exact .inl rfl
  | cons field fields ih =>
    intro total n s hr
    obtain ⟨m, s₁, hm, fits, hrest⟩ := totalBy_cons_ok.mp hr
    obtain rfl : s₁ = before := FieldType.lengthBy_frames frames field.type _ _ _ hm
    rcases FieldType.lengthBy_follows h field.type m _ hm with hfirst | ⟨e, name, he, hroot, hmet⟩
    · rcases ih (total + m) n s hrest with hsame | ⟨e, name, he, hmet⟩
      · exact .inl (totalBy_cons_ok.mpr ⟨m, now, hfirst, fits, hsame⟩)
      · exact .inr ⟨e, name, totalBy_cons_error.mpr (.inr ⟨m, now, hfirst, .inr ⟨fits, he⟩⟩), hmet⟩
    · exact .inr ⟨_, name, totalBy_cons_error.mpr (.inl ⟨e, he, rfl⟩), hroot, hmet⟩

namespace Schema

variable {schema : Schema}

/-- The induction is on the levels, of which a structure takes one away. A name that is open now was
    not open before, for there it was followed. -/
theorem lengthOfNamed_follows (levels : Nat) :
    ∀ (name : String) (before now : List String),
      (schema.lengthOfNamed levels name).Follows before now := by
  induction levels using Nat.strongRecOn with
  | ind levels ih =>
    intro name before now n s hr
    obtain ⟨hclosed, hr⟩ := lengthOfNamed_ok.mp hr
    by_cases hmet : name ∈ now
    · exact .inr ⟨_, name, lengthOfNamed_error.mpr (.inl ⟨hmet, rfl⟩), rfl, hmet, hclosed⟩
    rcases hr with ⟨variants, found, units, rfl, _⟩ | ⟨fields, below, s₁, found, rfl, ht, _⟩
    · exact .inl (lengthOfNamed_ok.mpr ⟨hmet, .inl ⟨variants, found, units, rfl, rfl⟩⟩)
    have inner := Field.totalBy_follows name (schema.lengthOfNamed_frames below)
      (fun other => ih below (Nat.lt_succ_self below) other (name :: before) (name :: now)) fields
    rcases inner 0 n s₁ ht with hsame | ⟨e, culprit, he, hroot, hin, hout⟩
    · exact .inl (lengthOfNamed_ok.mpr
        ⟨hmet, .inr ⟨fields, below, name :: now, found, rfl, hsame, rfl⟩⟩)
    · -- the structure itself is open on both sides, so it is not what is met
      rw [List.mem_cons, not_or] at hout
      exact .inr ⟨e, culprit, lengthOfNamed_error.mpr (.inr ⟨hmet, .inr (.inr
        ⟨fields, found, .inr ⟨below, rfl, he⟩⟩)⟩), hroot,
        (List.mem_cons.mp hin).resolve_left hout.1, hout.2⟩

/-! ## 2. The length of a type inside open structures -/

theorem sizing_follows (type : FieldType) (before now : List String) :
    (schema.sizing type).Follows before now :=
  FieldType.lengthBy_follows (fun name => lengthOfNamed_follows _ name before now) type

theorem sizing_frames (schema : Schema) (type : FieldType) : (schema.sizing type).Frames :=
  FieldType.lengthBy_frames (schema.lengthOfNamed_frames _) type

/-- **Open structures decide only whether there is a length.** Let the length of a type be found
    inside some structures. Then the same ones are open afterwards. Inside any others the length is
    the same if it is found, and these are left open too. It is found if they are among the first
    ones, and if it is not found the error is that a structure contains itself, and its name is one
    of the others that is not among the first. -/
theorem sizing_opened (schema : Schema) (type : FieldType) (opened : List String) {n : Nat}
    {s : List String} (sized : schema.sizing type opened = .ok (n, s)) :
    s = opened ∧ ∀ others : List String,
      (∀ m s', schema.sizing type others = .ok (m, s') → m = n ∧ s' = others) ∧
      (others ⊆ opened → schema.sizing type others = .ok (n, others)) ∧
      ∀ e, schema.sizing type others = .error e →
        ∃ name ∈ others, name ∉ opened ∧ e.root = .recursive name := by
  refine ⟨schema.sizing_frames type _ _ _ sized, fun others => ?_⟩
  rcases sizing_follows type opened others n s sized with hsame | ⟨e, name, he, hroot, hin, hout⟩
  · refine ⟨fun m s' h => ?_, fun _ => hsame, fun e h => ?_⟩
    · cases hsame.symm.trans h
      exact ⟨rfl, rfl⟩
    · cases hsame.symm.trans h
  · refine ⟨fun m s' h => ?_, fun fewer => absurd (fewer hin) hout, fun e' h => ?_⟩
    · cases he.symm.trans h
    · cases he.symm.trans h
      exact ⟨name, hin, hout, hroot⟩

/-- Inside a hen a line is as long as anywhere, but not inside one of its points. -/
theorem sizing_lines :
    lines.sizing (.defined "Line") ["Hen"] = .ok (16, ["Hen"]) ∧
    lines.sizing (.defined "Line") [] = .ok (16, []) ∧
    ∃ e, lines.sizing (.defined "Line") ["Point", "Hen"] = .error e ∧
      e.root = .recursive "Point" := by
  have sized : lines.sizing (.defined "Line") ["Hen"] = .ok (16, ["Hen"]) := by decide +kernel
  obtain ⟨_, hothers⟩ := sizing_opened lines (.defined "Line") ["Hen"] sized
  obtain ⟨_, hfewer, _⟩ := hothers []
  obtain ⟨_, _, hmet⟩ := hothers ["Point", "Hen"]
  have failed : lines.sizing (.defined "Line") ["Point", "Hen"]
      = .error (.inField "Line" "from" (.recursive "Point")) := by decide +kernel
  obtain ⟨name, hin, hout, hroot⟩ := hmet _ failed
  have hname : name = "Point" := by
    rcases List.mem_cons.mp hin with rfl | hin
    · rfl
    · exact absurd hin hout
  exact ⟨sized, hfewer (List.nil_subset _), _, failed, hname ▸ hroot⟩

end Schema

end LedgerScan
