import LedgerScan.Json.Document

/-!
# Quoted texts are read back

Each character is written as itself or as an escape, and either way the reader finds one piece that
stands for it (`Stands`): the character, or one unit below the space, which is half of nothing. So a
text that was written between quotes is read as what it was, whatever comes behind the closing
quote (`readQuoted?_encode`).
-/

namespace LedgerScan.Json.Quoted

/-! ## 1. One character -/

/-- A piece that stands for a character, whatever pieces come behind it. -/
def Stands (piece : Piece) (c : Char) : Prop :=
  ∀ rest, assemble (piece :: rest) = (assemble rest).map (c :: ·)

theorem stands_plain (c : Char) : Stands (.plain c) c := fun _ => rfl

/-- A unit below the surrogates is a character of its own. -/
theorem stands_unit {n : Nat} (h : n < 0xD800) : Stands (.unit n) (Char.ofNat n) := by
  have hhigh : isHighHalf n = false := by simp [isHighHalf]; omega
  have hlow : isLowHalf n = false := by simp [isLowHalf]; omega
  intro rest
  match rest with
  | [] | .plain _ :: _ | .unit _ :: _ => simp [assemble, hhigh, hlow]

/-- Puts a piece in front of those that were found. -/
def withPiece (piece : Piece) (found : Option (List Piece × List Char)) :
    Option (List Piece × List Char) :=
  found.map fun (pieces, rest) => (piece :: pieces, rest)

theorem scan_letter {letter c : Char} (h : unescape? letter = some c) (text : List Char) :
    scan ('\\' :: letter :: text) = withPiece (.plain c) (scan text) := by
  rw [scan.eq_4 letter text (by rintro _ _ _ _ _ rfl; cases h), h]
  cases scan text <;> rfl

theorem scan_unit {a b c d : Char} {n : Nat} (h : hexUnit? a b c d = some n) (text : List Char) :
    scan ('\\' :: 'u' :: a :: b :: c :: d :: text) = withPiece (.unit n) (scan text) := by
  rw [scan, h]
  cases scan text <;> rfl

theorem scan_plain {c : Char} (quote : c ≠ '"') (backslash : c ≠ '\\') (space : 32 ≤ c.toNat)
    (text : List Char) : scan (c :: text) = withPiece (.plain c) (scan text) := by
  rw [scan.eq_5 c text quote (fun _ _ _ _ _ h => absurd h backslash)
    (fun _ _ h => absurd h backslash), if_neg (by simp [backslash]; omega)]
  cases scan text <;> rfl

theorem hexUnit?_hexChar :
    ∀ n < 32, hexUnit? '0' '0' (hexChar (n / 16)) (hexChar (n % 16)) = some n := by
  decide

/-- **A character is read as one piece that stands for it.** -/
theorem scan_escape (c : Char) : ∃ piece, Stands piece c ∧
    ∀ text, scan (escape c ++ text) = withPiece piece (scan text) := by
  have letter : ∀ l, unescape? l = some c →
      ∃ piece, Stands piece c ∧ ∀ text, scan (['\\', l] ++ text) = withPiece piece (scan text) :=
    fun l h => ⟨.plain c, stands_plain c, scan_letter h⟩
  unfold escape
  split
  · subst c
    exact letter '"' rfl
  split
  · subst c
    exact letter '\\' rfl
  split
  · subst c
    exact letter 'n' rfl
  split
  · subst c
    exact letter 't' rfl
  split
  · subst c
    exact letter 'r' rfl
  split
  · subst c
    exact letter 'b' rfl
  split
  · subst c
    exact letter 'f' rfl
  split
  · rename_i hcontrol
    have hstands : Stands (.unit c.toNat) (Char.ofNat c.toNat) := stands_unit (by omega)
    rw [Char.ofNat_toNat] at hstands
    exact ⟨.unit c.toNat, hstands, scan_unit (hexUnit?_hexChar c.toNat hcontrol)⟩
  · rename_i hquote hbackslash _ _ _ _ _ hspace
    exact ⟨.plain c, stands_plain c, scan_plain hquote hbackslash (by omega)⟩

/-! ## 2. A whole text -/

theorem scan_flatMap_escape (content rest : List Char) :
    ∃ pieces, scan (content.flatMap escape ++ '"' :: rest) = some (pieces, rest) ∧
      assemble pieces = some content := by
  induction content with
  | nil => exact ⟨[], rfl, rfl⟩
  | cons c content ih =>
    obtain ⟨pieces, hscan, hassemble⟩ := ih
    obtain ⟨piece, hstands, hpiece⟩ := scan_escape c
    refine ⟨piece :: pieces, ?_, ?_⟩
    · rw [List.flatMap_cons, List.append_assoc, hpiece, hscan]
      rfl
    · rw [hstands, hassemble]
      rfl

/-- **What was written between quotes is read back**, up to the closing quote. -/
theorem readQuoted?_encode (s : String) (rest : List Char) :
    Document.readQuoted? (s.toList.flatMap escape ++ '"' :: rest) = some (some s, rest) := by
  obtain ⟨pieces, hscan, hassemble⟩ := scan_flatMap_escape s.toList rest
  unfold Document.readQuoted?
  rw [hscan]
  show some ((assemble pieces).map String.ofList, rest) = _
  rw [hassemble, Option.map_some, String.ofList_toList]

end LedgerScan.Json.Quoted
