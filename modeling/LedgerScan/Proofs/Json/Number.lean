import LedgerScan.Json.Document
import Mathlib.Data.Nat.Digits.Defs

/-!
# Integers are read back

An integer is written with the digits of its magnitude, none of them a zero in front of another
(`digitChars_of_pos`), and the reader takes exactly these digits if what follows does not go on with
a number (`read?_encode`). Collected again they are the magnitude (`collect_digits`), so an integer
of 64 bits is read as itself; and no text is read as an integer of more (`isInteger_of_value?`).
-/

namespace LedgerScan

/-- An integer that fits 64 bits, signed or unsigned. -/
def Number.IsInteger : Number → Prop
  | .int i => -0x8000000000000000 ≤ i ∧ i ≤ 0xFFFFFFFFFFFFFFFF
  | .float _ => False

namespace NumberText

/-! ## 1. Digits -/

/-- What may follow a value inside a document: nothing, a comma or a closing bracket. -/
def Ends (rest : List Char) : Prop :=
  ∀ c ∈ rest.head?, c ∈ [',', ']', '}']

/-- The value of a digit. -/
def digitValue (c : Char) : Nat :=
  c.toNat - '0'.toNat

theorem digit?_eq {c : Char} (h : c.isDigit = true) : digit? c = some (digitValue c) := by
  have hrange : 48 ≤ c.val ∧ c.val ≤ 57 := by simpa [Char.isDigit] using h
  exact if_pos hrange

theorem digits_append {cs : List Char} (hdigits : ∀ c ∈ cs, c.isDigit = true) {rest : List Char}
    (hrest : Ends rest) : digits (cs ++ rest) = (cs.map digitValue, rest) := by
  induction cs with
  | nil =>
    cases rest with
    | nil => rfl
    | cons c rest =>
      have hnone : digit? c = none := by
        have hc := hrest c rfl
        simp only [List.mem_cons, List.not_mem_nil, or_false] at hc
        rcases hc with rfl | rfl | rfl <;> rfl
      rw [List.nil_append, digits, hnone]
      rfl
  | cons c cs ih =>
    rw [List.forall_mem_cons] at hdigits
    rw [List.cons_append, digits, digit?_eq hdigits.1, ih hdigits.2]
    rfl

theorem isDigit_of_mem_digitChars {n : Nat} {c : Char} (h : c ∈ Binary64.digitChars n) :
    c.isDigit = true :=
  Nat.isDigit_of_mem_toDigits (by decide) (le_refl 10) h

theorem digitChar_ne_zero : ∀ n < 10, 0 < n → digitValue n.digitChar ≠ 0 := by
  decide

/-- The digits of a positive number do not begin with a zero. -/
theorem digitChars_of_pos {n : Nat} (h : 0 < n) :
    ∃ c cs, Binary64.digitChars n = c :: cs ∧ digitValue c ≠ 0 := by
  induction n using Nat.strong_induction_on with
  | _ n ih =>
    unfold Binary64.digitChars at ih ⊢
    by_cases hn : n < 10
    · exact ⟨n.digitChar, [], Nat.toDigits_of_lt_base hn, digitChar_ne_zero n hn h⟩
    · obtain ⟨c, cs, hdigits, hc⟩ := ih (n / 10) (by omega) (by omega)
      refine ⟨c, cs ++ [(n % 10).digitChar], ?_, hc⟩
      rw [Nat.toDigits_of_base_le (by decide) (by omega), hdigits, List.cons_append]

/-- **The digits of a number are those before a point**: at least one and no zero in front. -/
theorem readWhole?_digitChars (n : Nat) {rest : List Char} (hrest : Ends rest) :
    readWhole? (Binary64.digitChars n ++ rest)
      = some ((Binary64.digitChars n).map digitValue, rest) := by
  unfold readWhole?
  rw [digits_append (fun c hc => isDigit_of_mem_digitChars hc) hrest]
  rcases Nat.eq_zero_or_pos n with rfl | hn
  · rfl
  · obtain ⟨c, cs, hdigits, hc⟩ := digitChars_of_pos hn
    rw [hdigits, List.map_cons]
    cases hvalue : digitValue c with
    | zero => exact absurd hvalue hc
    | succ d => rfl

theorem le_ofDigitChars (cs : List Char) (n : Nat) : n ≤ Nat.ofDigitChars 10 cs n := by
  induction cs generalizing n with
  | nil => exact le_refl n
  | cons c cs ih =>
    calc n ≤ 10 * n + digitValue c := by omega
      _ ≤ Nat.ofDigitChars 10 cs (10 * n + digitValue c) := ih _

/-- Digits are collected to the number they spell, if it fits. -/
theorem collect_map_digitValue {cs : List Char} {start : Nat}
    (fits : Nat.ofDigitChars 10 cs start ≤ maxSignificand) :
    collect start (cs.map digitValue) = (Nat.ofDigitChars 10 cs start, []) := by
  induction cs generalizing start with
  | nil => rfl
  | cons c cs ih =>
    have hstep : start * 10 + digitValue c = 10 * start + digitValue c := by rw [Nat.mul_comm]
    have hfits : Nat.ofDigitChars 10 cs (10 * start + digitValue c) ≤ maxSignificand := fits
    rw [List.map_cons, collect, hstep, if_pos ((le_ofDigitChars cs _).trans hfits), ih hfits]
    rfl

theorem collect_digits {n : Nat} (fits : n ≤ maxSignificand) :
    collect 0 ((Binary64.digitChars n).map digitValue) = (n, []) := by
  have hspells : Nat.ofDigitChars 10 (Binary64.digitChars n) 0 = n :=
    Nat.ofDigitChars_toDigits (by decide) (le_refl 10)
  rw [collect_map_digitValue (hspells.symm ▸ fits), hspells]

/-! ## 2. Integers -/

theorem readFraction?_of_ends {rest : List Char} (h : Ends rest) :
    readFraction? rest = some (none, rest) := by
  cases rest with
  | nil => rfl
  | cons c rest =>
    have hc := h c rfl
    simp only [List.mem_cons, List.not_mem_nil, or_false] at hc
    rcases hc with rfl | rfl | rfl <;> rfl

theorem readExponent?_of_ends {rest : List Char} (h : Ends rest) :
    readExponent? rest = some (none, rest) := by
  cases rest with
  | nil => rfl
  | cons c rest =>
    have hc := h c rfl
    simp only [List.mem_cons, List.not_mem_nil, or_false] at hc
    rcases hc with rfl | rfl | rfl <;> rfl

/-- What is found in the text of an integer. -/
def ofInt (i : Int) : NumberText :=
  ⟨i < 0, (Binary64.digitChars i.natAbs).map digitValue, none, none⟩

/-- A sign in front of the text is the only part that is not in the digits. -/
theorem read?_minus (text : List Char) :
    read? ('-' :: text) = (do
      let (whole, rest) ← readWhole? text
      let (fraction, rest) ← readFraction? rest
      let (exponent, rest) ← readExponent? rest
      return (⟨true, whole, fraction, exponent⟩, rest)) := rfl

theorem read?_of_ne {c : Char} (h : c ≠ '-') (text : List Char) :
    read? (c :: text) = (do
      let (whole, rest) ← readWhole? (c :: text)
      let (fraction, rest) ← readFraction? rest
      let (exponent, rest) ← readExponent? rest
      return (⟨false, whole, fraction, exponent⟩, rest)) := by
  unfold read?
  split
  rename_i hmatch
  split at hmatch
  · rename_i heq
    exact absurd (List.cons.inj heq).1 h
  · cases hmatch
    rfl

/-- **The text of an integer is taken apart into its sign and its digits.** -/
theorem read?_encode (i : Int) {rest : List Char} (h : Ends rest) :
    read? ((Number.int i).encode ++ rest) = some (ofInt i, rest) := by
  have hwhole := readWhole?_digitChars i.natAbs h
  unfold Number.encode ofInt
  dsimp only
  split
  · rename_i hneg
    rw [show (-i).toNat = i.natAbs by omega, List.cons_append, read?_minus, hwhole,
      decide_eq_true hneg]
    simp only [Option.bind_eq_bind, Option.bind_some, readFraction?_of_ends h,
      readExponent?_of_ends h]
    rfl
  · rename_i hneg
    rw [show i.toNat = i.natAbs by omega, decide_eq_false hneg]
    obtain ⟨c, cs, hdigits⟩ : ∃ c cs, Binary64.digitChars i.natAbs = c :: cs :=
      List.exists_cons_of_ne_nil Nat.toDigits_ne_nil
    have hc : c ≠ '-' := by
      rintro rfl
      exact absurd (isDigit_of_mem_digitChars (hdigits ▸ List.mem_cons_self)) (by decide)
    rw [hdigits, List.cons_append] at hwhole
    rw [hdigits, List.cons_append, read?_of_ne hc, hwhole]
    simp only [Option.bind_eq_bind, Option.bind_some, readFraction?_of_ends h,
      readExponent?_of_ends h]
    rfl

theorem integer?_ofInt {i : Int} (h : (Number.int i).IsInteger) :
    integer? (i < 0) i.natAbs = some (.int i) := by
  obtain ⟨hlow, hhigh⟩ := h
  unfold integer?
  by_cases hneg : i < 0
  · have hnone : ¬ (i.natAbs = 0 ∨ 0x8000000000000000 < i.natAbs) := by omega
    rw [if_pos (decide_eq_true hneg), if_neg hnone]
    exact congrArg (fun j => some (Number.int j)) (by omega)
  · rw [if_neg (by simpa using hneg)]
    exact congrArg (fun j => some (Number.int j)) (by omega)

theorem value?_ofInt {i : Int} (h : (Number.int i).IsInteger) :
    (ofInt i).value? = some (.int i) := by
  have hfits : i.natAbs ≤ maxSignificand := by
    unfold Number.IsInteger at h
    unfold maxSignificand
    omega
  unfold ofInt value?
  simp only [collect_digits hfits, integer?_ofInt h]
  rfl

/-! ## 3. No other integers -/

theorem collect_le {start : Nat} (h : start ≤ maxSignificand) (ds : List Nat) :
    (collect start ds).1 ≤ maxSignificand := by
  induction ds generalizing start with
  | nil => exact h
  | cons d ds ih =>
    unfold collect
    split
    · rename_i hfits
      exact ih hfits
    · exact h

theorem applyExponent?_ne_int {negative : Bool} {significand : Nat} {exponent : Int}
    {written : Option (Bool × List Nat)} {i : Int} :
    applyExponent? negative significand exponent written ≠ some (.int i) := by
  unfold applyExponent? signed
  split
  · simp
  · dsimp only
    split
    · split <;> simp
    · simp

/-- **A number that is read as an integer fits 64 bits.** -/
theorem isInteger_of_value? {t : NumberText} {i : Int} (h : t.value? = some (.int i)) :
    (Number.int i).IsInteger := by
  have hle := collect_le (Nat.zero_le maxSignificand) t.whole
  unfold value? at h
  dsimp only at h
  split at h
  · exact absurd h applyExponent?_ne_int
  split at h
  · split at h
    · rename_i n hinteger
      cases h
      unfold integer? at hinteger
      unfold maxSignificand at hle
      split at hinteger
      · split at hinteger
        · cases hinteger
        · cases hinteger
          unfold Number.IsInteger
          omega
      · cases hinteger
        unfold Number.IsInteger
        omega
    · cases h
  · exact absurd h applyExponent?_ne_int

end NumberText

end LedgerScan
