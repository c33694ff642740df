import LedgerScan.Idl.Basic
import LedgerScan.Text.Quoted

/-!
# The shape of a type expression

An array expression that is not of the form `[type, length]` is shown in messages as a term: each
form with its name and its parts, texts quoted.
-/

namespace LedgerScan.Idl

/-- A term with one named part. -/
def shapeOf (form part value : String) : String :=
  form ++ " \x7b " ++ part ++ ": " ++ value ++ " \x7d"

/-- The shape of a reference. -/
def Reference.shape : Reference → String
  | .named name => shapeOf "Named" "name" (Quoted.encode name)
  | .plain name => "Simple(" ++ Quoted.encode name ++ ")"

mutual

/-- The shape of a type. -/
def TypeExpr.shape : TypeExpr → String
  | .simple name => "Simple(" ++ Quoted.encode name ++ ")"
  | .array extents =>
    "Array(" ++ shapeOf "IdlTypeArray" "array" ("[" ++ Extent.shapes extents ++ "]") ++ ")"
  | .option inner => "Option(" ++ shapeOf "IdlTypeOption" "option" inner.shape ++ ")"
  | .vec element => "Vec(" ++ shapeOf "IdlTypeVec" "vec" element.shape ++ ")"
  | .map key value =>
    "HashMap("
      ++ shapeOf "IdlTypeHashMap" "hash_map" ("(" ++ key.shape ++ ", " ++ value.shape ++ ")") ++ ")"
  | .defined target =>
    "Defined(" ++ shapeOf "IdlTypeDefined" "defined" target.shape ++ ")"

/-- The shape of an array element. -/
def Extent.shape : Extent → String
  | .nested type => "Nested(" ++ type.shape ++ ")"
  | .size n => "Size(" ++ toString n ++ ")"

/-- The shapes of array elements, with commas between them. -/
def Extent.shapes : List Extent → String
  | [] => ""
  | [extent] => extent.shape
  | extent :: extents => extent.shape ++ ", " ++ Extent.shapes extents

end

end LedgerScan.Idl
