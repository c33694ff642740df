import LedgerScan.Proofs.Fallible
import LedgerScan.Schema.OfIdl
import Mathlib.Data.List.Forall2

/-!
# What the types of a description mean

A type expression is a tree, and what it means is said by one rule for each form of it
(`TypeExpr.Means`). An expression without a meaning has a first part that has none: `TypeExpr.Fails`
walks to it depth first, and an array that has not the form `[type, length]` is itself that part,
whatever its elements are. Both are said of definitions as well. Conversion finds the meaning if
there is one (`toTypeDef_eq_ok`), and else the first part that has none (`toTypeDef_eq_error`).
-/

namespace LedgerScan.Idl

open Fallible

/-! ## 1. Types -/

/-- **What a type expression means.** -/
inductive TypeExpr.Means : TypeExpr → FieldType → Prop where
  | string : Means (.simple "string") .string
  | bytes : Means (.simple "bytes") .bytes
  | primitive {name : String} {p : Primitive} (known : Primitive.parse? name = some p) :
      Means (.simple name) (.primitive p)
  | array {element : TypeExpr} {type : FieldType} (length : Nat) (means : Means element type) :
      Means (.array [.nested element, .size length]) (.array type length)
  | option {inner : TypeExpr} {type : FieldType} (means : Means inner type) :
      Means (.option inner) (.option type)
  | vec {element : TypeExpr} {type : FieldType} (means : Means element type) :
      Means (.vec element) (.vec type)
  | map {key value : TypeExpr} {keyType valueType : FieldType} (means : Means key keyType)
      (valueMeans : Means value valueType) : Means (.map key value) (.map keyType valueType)
  | defined (target : Reference) : Means (.defined target) (.defined target.name)

/-- **The first part of a type expression without a meaning**, as the error that names it. -/
inductive TypeExpr.Fails (owner : String) : TypeExpr → SchemaError → Prop where
  | simple {name : String} (notString : name ≠ "string") (notBytes : name ≠ "bytes")
      (unknown : Primitive.parse? name = none) :
      Fails owner (.simple name) (.unsupportedType owner name)
  | shape {extents : List Extent}
      (other : ∀ element length, extents ≠ [.nested element, .size length]) :
      Fails owner (.array extents)
        (.unsupportedType owner ("[" ++ Extent.shapes extents ++ "]"))
  | element {element : TypeExpr} {e : SchemaError} (length : Nat) (fails : Fails owner element e) :
      Fails owner (.array [.nested element, .size length]) e
  | option {inner : TypeExpr} {e : SchemaError} (fails : Fails owner inner e) :
      Fails owner (.option inner) e
  | vec {element : TypeExpr} {e : SchemaError} (fails : Fails owner element e) :
      Fails owner (.vec element) e
  | key {key value : TypeExpr} {e : SchemaError} (fails : Fails owner key e) :
      Fails owner (.map key value) e
  | value {key value : TypeExpr} {keyType : FieldType} {e : SchemaError}
      (means : key.Means keyType) (fails : Fails owner value e) : Fails owner (.map key value) e

section Types

variable {owner : String} {t : TypeExpr} {type : FieldType} {e : SchemaError}

theorem TypeExpr.Means.toFieldType (h : t.Means type) : t.toFieldType owner = .ok type := by
  induction h with
  | string | bytes => rfl
  | @primitive name p known =>
    have hstring : name ≠ "string" := by rintro rfl; cases known
    have hbytes : name ≠ "bytes" := by rintro rfl; cases known
    show simpleType owner name = _
    rw [simpleType, if_neg hstring, if_neg hbytes, known]
  | array _ _ ih | option _ ih | vec _ ih => exact except_bind_eq_ok.mpr ⟨_, ih, rfl⟩
  | map _ _ ihKey ihValue =>
    exact except_bind_eq_ok.mpr ⟨_, ihKey, except_bind_eq_ok.mpr ⟨_, ihValue, rfl⟩⟩
  | defined target => rfl

theorem TypeExpr.Fails.toFieldType (h : t.Fails owner e) : t.toFieldType owner = .error e := by
  induction h with
  | @simple name hstring hbytes unknown =>
    show simpleType owner name = _
    rw [simpleType, if_neg hstring, if_neg hbytes, unknown]
  | shape other =>
    rw [TypeExpr.toFieldType]
    exact other
  | element _ _ ih | option _ ih | vec _ ih | key _ ih => exact except_bind_of_error ih
  | @value key value _ _ means _ ih =>
    rw [TypeExpr.toFieldType, means.toFieldType]
    show (value.toFieldType owner >>= _) = _
    exact except_bind_of_error ih

/-- An expression has a meaning, or a first part without one. -/
theorem TypeExpr.means_or_fails (owner : String) (t : TypeExpr) :
    (∃ type, t.Means type) ∨ ∃ e, t.Fails owner e := by
  fun_induction TypeExpr.toFieldType owner t with
  | case1 name =>
    by_cases hstring : name = "string"
    · subst hstring
      exact .inl ⟨_, .string⟩
    by_cases hbytes : name = "bytes"
    · subst hbytes
      exact .inl ⟨_, .bytes⟩
    cases known : Primitive.parse? name with
    | some p => exact .inl ⟨_, .primitive known⟩
    | none => exact .inr ⟨_, .simple hstring hbytes known⟩
  | case2 element length ih =>
    exact ih.imp (fun ⟨type, h⟩ => ⟨_, .array length h⟩) fun ⟨e, h⟩ => ⟨e, .element length h⟩
  | case3 extents other => exact .inr ⟨_, .shape other⟩
  | case4 inner ih => exact ih.imp (fun ⟨type, h⟩ => ⟨_, .option h⟩) fun ⟨e, h⟩ => ⟨e, .option h⟩
  | case5 element ih => exact ih.imp (fun ⟨type, h⟩ => ⟨_, .vec h⟩) fun ⟨e, h⟩ => ⟨e, .vec h⟩
  | case6 key value ihKey ihValue =>
    obtain ⟨keyType, hkey⟩ | ⟨e, hkey⟩ := ihKey
    · exact ihValue.imp (fun ⟨type, h⟩ => ⟨_, .map hkey h⟩) fun ⟨e, h⟩ => ⟨e, .value hkey h⟩
    · exact .inr ⟨e, .key hkey⟩
  | case7 target => exact .inl ⟨_, .defined target⟩

/-- **Conversion finds the meaning of an expression**, if there is one. -/
theorem TypeExpr.toFieldType_eq_ok : t.toFieldType owner = .ok type ↔ t.Means type := by
  refine ⟨fun h => ?_, Means.toFieldType⟩
  obtain ⟨type', means⟩ | ⟨e, fails⟩ := t.means_or_fails owner
  · cases h.symm.trans means.toFieldType
    exact means
  · cases h.symm.trans fails.toFieldType

/-- **Else it finds the first part that has none.** -/
theorem TypeExpr.toFieldType_eq_error : t.toFieldType owner = .error e ↔ t.Fails owner e := by
  refine ⟨fun h => ?_, Fails.toFieldType⟩
  obtain ⟨type, means⟩ | ⟨e', fails⟩ := t.means_or_fails owner
  · cases h.symm.trans means.toFieldType
  · cases h.symm.trans fails.toFieldType
    exact fails

end Types

/-! ## 2. Definitions -/

/-- A field of a structure and what it means. -/
def Member.Means (member : Member) (field : Field) : Prop :=
  field.name = member.name ∧ member.type.Means field.type

/-- The fields of a structure whose fields are named by their positions. -/
def positional (types : List TypeExpr) : List Member :=
  types.zipIdx.map fun (type, position) => ⟨toString position, type⟩

/-- **What a definition means.** Of a variant it only matters whether it carries data. -/
inductive Body.Means : Body → TypeDef → Prop where
  | struct {members : List Member} {fields : List Field} (kind : String)
      (means : List.Forall₂ Member.Means members fields) :
      Means (.struct kind members) (.struct fields)
  | tuple {types : List TypeExpr} {fields : List Field} (kind : String)
      (means : List.Forall₂ Member.Means (positional types) fields) :
      Means (.tuple kind types) (.struct fields)
  | enum (kind : String) (variants : List Alternative) :
      Means (.enum kind variants) (.enum (variants.map fun v => ⟨v.name, v.fields.isSome⟩))

/-- **The first part of a definition without a meaning.** -/
inductive Body.Fails (owner : String) : Body → SchemaError → Prop where
  | struct {members : List Member} {e : SchemaError} (kind : String)
      (fails : FirstFails (fun member : Member => member.type.Fails owner) members e) :
      Fails owner (.struct kind members) e
  | tuple {types : List TypeExpr} {e : SchemaError} (kind : String)
      (fails : FirstFails (fun type : TypeExpr => type.Fails owner) types e) :
      Fails owner (.tuple kind types) e

section Bodies

variable {owner : String} {body : Body} {definition : TypeDef} {e : SchemaError}

/-- Converts a field of a structure. -/
def Member.toField (owner : String) (member : Member) : Except SchemaError Field := do
  return ⟨member.name, ← member.type.toFieldType owner⟩

theorem Member.toField_eq_ok {member : Member} {field : Field} :
    member.toField owner = .ok field ↔ member.Means field := by
  unfold toField Means
  rw [except_bind_eq_ok]
  simp only [TypeExpr.toFieldType_eq_ok]
  constructor
  · rintro ⟨type, means, ⟨⟩⟩
    exact ⟨rfl, means⟩
  · rintro ⟨hname, means⟩
    exact ⟨_, means, by rw [← hname]; rfl⟩

theorem Member.failure?_toField (member : Member) :
    failure? (member.toField owner) = failure? (member.type.toFieldType owner) := by
  unfold toField
  cases member.type.toFieldType owner <;> rfl

/-- Fields without names are converted under the names of their positions. -/
theorem tupleFields_eq (types : List TypeExpr) (position : Nat) :
    tupleFields owner position types
      = ((types.zipIdx position).map fun (type, position) =>
          Member.mk (toString position) type).mapM (Member.toField owner) := by
  induction types generalizing position with
  | nil => rfl
  | cons type types ih =>
    rw [List.zipIdx_cons, List.map_cons, List.mapM_cons, tupleFields, ih]
    show _ = (type.toFieldType owner >>= _) >>= _
    cases type.toFieldType owner <;> rfl

theorem failure?_tupleFields (types : List TypeExpr) (position : Nat) :
    failure? (tupleFields owner position types)
      = types.findSome? fun type => failure? (type.toFieldType owner) := by
  rw [tupleFields_eq, failure?_mapM, funext Member.failure?_toField, List.findSome?_map]
  conv_rhs => rw [← List.zipIdx_map_fst position types, List.findSome?_map]
  rfl

/-- A definition of fields is converted field by field, whether they have names or not. -/
theorem mapM_toField_eq_ok {members : List Member} {fields : List Field} :
    members.mapM (Member.toField owner) = .ok fields ↔
      List.Forall₂ Member.Means members fields := by
  rw [mapM_eq_ok_iff, ← List.forall₂_eq_eq_eq, List.forall₂_map_left_iff,
    List.forall₂_map_right_iff]
  simp only [Member.toField_eq_ok]

/-- **Conversion finds the meaning of a definition**, if there is one. -/
theorem Body.toTypeDef_eq_ok : body.toTypeDef owner = .ok definition ↔ body.Means definition := by
  cases body with
  | struct kind members =>
    show (members.mapM (Member.toField owner) >>= _) = _ ↔ _
    rw [except_bind_eq_ok]
    simp only [mapM_toField_eq_ok]
    constructor
    · rintro ⟨fields, means, ⟨⟩⟩
      exact .struct kind means
    · rintro ⟨_, means⟩
      exact ⟨_, means, rfl⟩
  | tuple kind types =>
    show (tupleFields owner 0 types >>= _) = _ ↔ _
    rw [except_bind_eq_ok, tupleFields_eq]
    simp only [mapM_toField_eq_ok]
    constructor
    · rintro ⟨fields, means, ⟨⟩⟩
      exact .tuple kind means
    · intro h
      cases h with
      | tuple _ means => exact ⟨_, means, rfl⟩
  | enum kind variants =>
    constructor
    · rintro ⟨⟩
      exact .enum kind variants
    · rintro ⟨⟩
      rfl

/-- **Else it finds the first part that has none.** -/
theorem Body.toTypeDef_eq_error : body.toTypeDef owner = .error e ↔ body.Fails owner e := by
  have hfails : ∀ (type : TypeExpr) e,
      failure? (type.toFieldType owner) = some e ↔ type.Fails owner e :=
    fun type e => failure?_eq_some.trans TypeExpr.toFieldType_eq_error
  rw [← failure?_eq_some]
  cases body with
  | struct kind members =>
    have hbody : failure? ((Body.struct kind members).toTypeDef owner)
        = failure? (members.mapM (Member.toField owner)) := by
      show failure? (members.mapM (Member.toField owner) >>= _) = _
      cases members.mapM (Member.toField owner) <;> rfl
    rw [hbody, failure?_mapM, funext Member.failure?_toField,
      findSome?_eq_some_iff_firstFails fun member e => hfails member.type e]
    exact ⟨.struct kind, fun h => by cases h with | struct _ fails => exact fails⟩
  | tuple kind types =>
    have hbody : failure? ((Body.tuple kind types).toTypeDef owner)
        = failure? (tupleFields owner 0 types) := by
      show failure? (tupleFields owner 0 types >>= _) = _
      cases tupleFields owner 0 types <;> rfl
    rw [hbody, failure?_tupleFields, findSome?_eq_some_iff_firstFails hfails]
    exact ⟨.tuple kind, fun h => by cases h with | tuple _ fails => exact fails⟩
  | enum kind variants => exact ⟨nofun, nofun⟩

end Bodies

end LedgerScan.Idl
