/-!
# UTF-8

`encode` writes a text as bytes. `decode` reads bytes one at a time: `Open` says what an unfinished
character still needs, and the least and greatest byte that may come next rule out long forms,
surrogates and code points above the last one. The first byte that cannot continue the character
decides the error, which names the place where the character started and how many of its bytes were
good; if the bytes end inside a character it is incomplete.
-/

namespace LedgerScan.Utf8

/-- The bytes of a text. -/
def encode (s : String) : List UInt8 :=
  s.toList.flatMap String.utf8EncodeChar

/-! ## 1. Errors -/

/-- Why bytes are not UTF-8. The index is that of the first byte of the bad character. -/
inductive Error where
  /-- The first `length` bytes of the character cannot be continued as they are. -/
  | invalid (index length : Nat)
  /-- The bytes end inside the character. -/
  | incomplete (index : Nat)
  deriving DecidableEq, Repr

/-- The text of an error. -/
def Error.message : Error → String
  | .invalid index length => s!"invalid utf-8 sequence of {length} bytes from index {index}"
  | .incomplete index => s!"incomplete utf-8 byte sequence from index {index}"

/-! ## 2. Reading -/

/-- A character that is not finished. -/
structure Open where
  /-- Bytes that are still to come, less one. -/
  more : Nat
  /-- The least byte that may come next. -/
  low : Nat
  /-- The greatest byte that may come next. -/
  high : Nat
  /-- The bits read so far. -/
  code : Nat
  /-- Where the character started. -/
  start : Nat
  /-- Bytes read so far. -/
  seen : Nat
  deriving DecidableEq, Repr

/-- What a first byte of a character of two bytes or more opens. -/
def opening? (start byte : Nat) : Option Open :=
  if 0xC2 ≤ byte ∧ byte ≤ 0xDF then some ⟨0, 0x80, 0xBF, byte - 0xC0, start, 1⟩
  else if byte = 0xE0 then some ⟨1, 0xA0, 0xBF, 0, start, 1⟩
  else if byte = 0xED then some ⟨1, 0x80, 0x9F, 13, start, 1⟩
  else if 0xE1 ≤ byte ∧ byte ≤ 0xEF then some ⟨1, 0x80, 0xBF, byte - 0xE0, start, 1⟩
  else if byte = 0xF0 then some ⟨2, 0x90, 0xBF, 0, start, 1⟩
  else if 0xF1 ≤ byte ∧ byte ≤ 0xF3 then some ⟨2, 0x80, 0xBF, byte - 0xF0, start, 1⟩
  else if byte = 0xF4 then some ⟨2, 0x80, 0x8F, 4, start, 1⟩
  else none

/-- Reads the bytes from an index on, with the character that is open there. -/
def decodeFrom (index : Nat) : Option Open → List UInt8 → Except Error (List Char)
  | none, [] => .ok []
  | some c, [] => .error (.incomplete c.start)
  | none, byte :: rest =>
    if byte.toNat < 0x80 then
      (decodeFrom (index + 1) none rest).map (Char.ofNat byte.toNat :: ·)
    else
      match opening? index byte.toNat with
      | some c => decodeFrom (index + 1) (some c) rest
      | none => .error (.invalid index 1)
  | some c, byte :: rest =>
    if c.low ≤ byte.toNat ∧ byte.toNat ≤ c.high then
      let code := c.code * 64 + byte.toNat % 64
      match c.more with
      | 0 => (decodeFrom (index + 1) none rest).map (Char.ofNat code :: ·)
      | more + 1 =>
        decodeFrom (index + 1) (some ⟨more, 0x80, 0xBF, code, c.start, c.seen + 1⟩) rest
    else .error (.invalid c.start c.seen)

/-- The text that bytes encode. -/
def decode (bytes : List UInt8) : Except Error String :=
  (decodeFrom 0 none bytes).map String.ofList

end LedgerScan.Utf8
