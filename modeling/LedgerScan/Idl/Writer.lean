import LedgerScan.Idl.Basic
import LedgerScan.Json.Printer

/-!
# Writing interface descriptions

The canonical form of a description: every member is there, null where there is nothing; every
structure is an object, every map is a `hashMap`, and a serialization is its word.
-/

namespace LedgerScan.Idl

/-- A text or null. -/
def textOrNull : Option String → Json
  | none => .null
  | some s => .text s

/-- The canonical form of a reference. -/
def Reference.toJson : Reference → Json
  | .named name => .ofPairs [("name", .text name)]
  | .plain name => .text name

mutual

/-- The canonical form of a type. -/
def TypeExpr.toJson : TypeExpr → Json
  | .simple name => .text name
  | .array extents => .ofPairs [("array", .list (Extent.toJsons extents))]
  | .option inner => .ofPairs [("option", inner.toJson)]
  | .vec element => .ofPairs [("vec", element.toJson)]
  | .map key value => .ofPairs [("hashMap", .list [key.toJson, value.toJson])]
  | .defined target => .ofPairs [("defined", target.toJson)]

/-- The canonical form of a type or a length. -/
def Extent.toJson : Extent → Json
  | .nested type => type.toJson
  | .size n => .nat n

/-- The canonical forms of types and lengths. -/
def Extent.toJsons : List Extent → List Json
  | [] => []
  | extent :: extents => extent.toJson :: Extent.toJsons extents

end

/-- The canonical form of a field. -/
def Member.toJson (m : Member) : Json :=
  .ofPairs [("name", .text m.name), ("type", m.type.toJson)]

/-- The canonical form of a variant. -/
def Alternative.toJson (a : Alternative) : Json :=
  .ofPairs [("name", .text a.name), ("fields", a.fields.getD .null)]

/-- The canonical form of a definition. -/
def Body.toJson : Body → Json
  | .struct kind fields =>
    .ofPairs [("kind", .text kind), ("fields", .list (fields.map Member.toJson))]
  | .tuple kind fields =>
    .ofPairs [("kind", .text kind), ("fields", .list (fields.map TypeExpr.toJson))]
  | .enum kind variants =>
    .ofPairs [("kind", .text kind), ("variants", .list (variants.map Alternative.toJson))]

/-- The word of a serialization. -/
def Serialization.word : Serialization → String
  | .borsh => "borsh"
  | .bytemuck => "bytemuck"
  | .bytemuckUnsafe => "bytemuckunsafe"

/-- The canonical form of a declaration. -/
def Declaration.toJson (d : Declaration) : Json :=
  .ofPairs [("name", .text d.name),
    ("serialization", textOrNull (d.serialization.map Serialization.word)),
    ("type", d.body.toJson)]

/-- The canonical form of an account type. -/
def Account.toJson (a : Account) : Json :=
  .ofPairs [("name", .text a.name),
    ("discriminator", .list (a.discriminator.map fun b => .nat b.toNat)),
    ("type", (a.body.map Body.toJson).getD .null)]

/-- The canonical form of the metadata. -/
def Metadata.toJson (m : Metadata) : Json :=
  .ofPairs [("name", textOrNull m.name), ("version", textOrNull m.version),
    ("address", textOrNull m.address)]

/-- The canonical form of a description. -/
def toJson (idl : Idl) : Json :=
  .ofPairs [("version", textOrNull idl.version), ("name", textOrNull idl.name),
    ("address", textOrNull idl.address),
    ("accounts", .list (idl.accounts.map Account.toJson)),
    ("types", .list (idl.types.map Declaration.toJson)),
    ("metadata", (idl.metadata.map Metadata.toJson).getD .null)]

/-- The text of a description. -/
def render (idl : Idl) : String :=
  idl.toJson.render

end LedgerScan.Idl
