import LedgerScan.Text.Printable
import LedgerScan.Binary64.Shortest

/-!
# Quoted text for diagnostics

Between quotes a text is shown so that nothing in it can be mistaken: a quote, a backslash and the
common controls have an escape of two characters, every other character that cannot stand on its
own is written as its code point in braces, and all else is written as it is.
-/

namespace LedgerScan.Quoted

/-- The lower-case hexadecimal digits of a code point. -/
def codePointDigits (c : Char) : List Char :=
  Nat.toDigits 16 c.toNat

/-- How one character is shown. -/
def escape (c : Char) : List Char :=
  if c = '\x00' then ['\\', '0']
  else if c = '\t' then ['\\', 't']
  else if c = '\r' then ['\\', 'r']
  else if c = '\n' then ['\\', 'n']
  else if c = '"' then ['\\', '"']
  else if c = '\\' then ['\\', '\\']
  else if Printable.isShown c then [c]
  else ['\\', 'u', '\x7b'] ++ codePointDigits c ++ ['\x7d']

/-- A text between quotes. -/
def encode (s : String) : String :=
  String.ofList ('"' :: (s.toList.flatMap escape ++ ['"']))

end LedgerScan.Quoted
