import LedgerScan.Json.Basic
import LedgerScan.Json.Quoted

/-!
# The compact text of a JSON value

No blanks, the entries of an object in ascending order of their keys, texts as `Quoted.encode`
writes them and numbers as `Number.encode` does. The text is built as a list of characters, over
which the laws of the format are stated; `Json.render` is the same as a `String`.
-/

namespace LedgerScan.Json

mutual

/-- The characters of the compact text. -/
def encode : Json → List Char
  | .null => ['n', 'u', 'l', 'l']
  | .bool true => ['t', 'r', 'u', 'e']
  | .bool false => ['f', 'a', 'l', 's', 'e']
  | .number n => n.encode
  | .text s => Quoted.encode s
  | .list [] => ['[', ']']
  | .list (item :: items) => '[' :: (encode item ++ encodeItems items)
  | .object [] => ['{', '}']
  | .object ((key, value) :: entries) =>
    '{' :: (Quoted.encode key ++ ':' :: (encode value ++ encodeEntries entries))

/-- The further items of a list and its closing bracket. -/
def encodeItems : List Json → List Char
  | [] => [']']
  | item :: items => ',' :: (encode item ++ encodeItems items)

/-- The further entries of an object and its closing brace. -/
def encodeEntries : List (String × Json) → List Char
  | [] => ['}']
  | (key, value) :: entries =>
    ',' :: (Quoted.encode key ++ ':' :: (encode value ++ encodeEntries entries))

end

/-- The compact text. -/
def render (value : Json) : String :=
  String.ofList value.encode

end LedgerScan.Json
