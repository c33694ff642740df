import LedgerScan.Codec.Sha256
import LedgerScan.Codec.Utf8
import LedgerScan.Json.Basic

/-!
# Interface descriptions

An interface description (IDL) is the document in which a program publishes its account types. Of
all it may say, only what a schema needs is kept: the accounts with their discriminators, the type
declarations, and the name and address of the program.

Type expressions are kept as they are written. Whether a name is that of a primitive, or an array
has the form `[type, length]`, is decided when a schema is built from them.
-/

namespace LedgerScan

namespace Idl

/-! ## 1. Type expressions -/

/-- A reference to a declared type: its name, bare or as a member `name` of an object. -/
inductive Reference where
  | named (name : String)
  | plain (name : String)
  deriving DecidableEq, Repr

/-- The name that is referred to. -/
def Reference.name : Reference → String
  | .named name => name
  | .plain name => name

mutual

/-- A type as it is written. -/
inductive TypeExpr where
  | simple (name : String)
  | array (extents : List Extent)
  | option (inner : TypeExpr)
  | vec (element : TypeExpr)
  | map (key value : TypeExpr)
  | defined (target : Reference)
  deriving Repr

/-- An element of an array expression: a type or a length. -/
inductive Extent where
  | nested (type : TypeExpr)
  | size (n : Nat)
  deriving Repr

end

/-! ## 2. Declarations -/

/-- A field of a structure. -/
structure Member where
  name : String
  type : TypeExpr
  deriving Repr

/-- A variant of an enumeration. The data it carries is kept and not looked into. -/
structure Alternative where
  name : String
  fields : Option Json
  deriving Repr

/-- The definition of a type. The kind is a word that the document gives and nothing depends on. -/
inductive Body where
  | struct (kind : String) (fields : List Member)
  | tuple (kind : String) (fields : List TypeExpr)
  | enum (kind : String) (variants : List Alternative)
  deriving Repr

/-- How the accounts of a type are written. -/
inductive Serialization where
  | borsh
  | bytemuck
  | bytemuckUnsafe
  deriving DecidableEq, Repr

/-- Whether values are the memory of the program as it is, padding included. -/
def Serialization.isZeroCopy : Serialization → Bool
  | .borsh => false
  | .bytemuck | .bytemuckUnsafe => true

/-- The declaration of a type. -/
structure Declaration where
  name : String
  serialization : Option Serialization
  body : Body
  deriving Repr

/-- An account type. An older document defines the structure here, a newer one among the types. -/
structure Account where
  name : String
  discriminator : List UInt8
  body : Option Body
  deriving Repr

/-- The bytes in front of an account: those that are given, or the first eight of the digest of
    the name with `account:` before it. -/
def Account.header (account : Account) : List UInt8 :=
  if account.discriminator.isEmpty then
    (Sha256.digest (Utf8.encode ("account:" ++ account.name))).take 8
  else account.discriminator

/-- What a newer document says about the program. -/
structure Metadata where
  name : Option String
  version : Option String
  address : Option String
  deriving DecidableEq, Repr

end Idl

/-- An interface description. -/
structure Idl where
  version : Option String
  name : Option String
  address : Option String
  accounts : List Idl.Account
  types : List Idl.Declaration
  metadata : Option Idl.Metadata
  deriving Repr

namespace Idl

/-- The name of the program: its own, else the one in the metadata. -/
def programName (idl : Idl) : String :=
  (idl.name <|> idl.metadata.bind (·.name)).getD "unknown"

/-- The address of the program: its own, else the one in the metadata. -/
def programAddress? (idl : Idl) : Option String :=
  idl.address <|> idl.metadata.bind (·.address)

end Idl

end LedgerScan
