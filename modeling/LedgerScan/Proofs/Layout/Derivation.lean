import LedgerScan.Layout.Basic
import Mathlib.Algebra.GroupWithZero.Nat
import Mathlib.Logic.Relation

/-!
# What it means to have a fixed length

`Schema.lengthOf` computes; this file says what it ought to compute, without open names and without
a bound on the levels:

* `Schema.Sized` derives the length of a type in unbounded arithmetic, and no length in the
  derivation is beyond `maxLength`;
* `Schema.Embeds` relates a type to those whose values lie inside its own, with no indirection,
  and `Schema.Mentions` to all types that its definition names, behind an option or a vector too;
* `Sized.acyclic`: a type that is derived mentions no type that mentions itself.
-/

namespace LedgerScan

open Relation

namespace Schema

/-! ## 1. Derivations -/

/-- **The derivation of a length**: a primitive has its width, an array the length of its element
    times its count, an enumeration without data one byte and a structure the sum of the lengths of
    its fields. Structures are nested at most `depth` levels deep, and no length is beyond the
    greatest one. -/
inductive Sized (schema : Schema) : (depth : Nat) → FieldType → (length : Nat) → Prop where
  | primitive {depth : Nat} (p : Primitive) : Sized schema depth (.primitive p) p.width
  | array {depth length : Nat} {element : FieldType} (count : Nat)
      (sized : Sized schema depth element length) (fits : length * count ≤ maxLength) :
      Sized schema depth (.array element count) (length * count)
  | enum {depth : Nat} {name : String} {variants : List Variant}
      (found : schema.find? name = some (.enum variants))
      (units : ∀ v ∈ variants, v.hasFields = false) :
      Sized schema depth (.defined name) 1
  | struct {depth : Nat} {name : String} {fields : List Field}
      (found : schema.find? name = some (.struct fields)) (lengthAt : FieldType → Nat)
      (sized : ∀ field ∈ fields, Sized schema depth field.type (lengthAt field.type))
      (fits : (fields.map fun field => lengthAt field.type).sum ≤ maxLength) :
      Sized schema (depth + 1) (.defined name) (fields.map fun field => lengthAt field.type).sum

/-! ## 2. Types inside types -/

/-- The values of the second type are parts of the values of the first. -/
inductive Embeds (schema : Schema) : FieldType → FieldType → Prop where
  | element (element : FieldType) (count : Nat) : Embeds schema (.array element count) element
  | field {name : String} {fields : List Field} {field : Field}
      (found : schema.find? name = some (.struct fields)) (mem : field ∈ fields) :
      Embeds schema (.defined name) field.type

/-- The definition of the first type names the second, as a part or behind an option, a vector or
    a map. -/
inductive Mentions (schema : Schema) : FieldType → FieldType → Prop where
  | part {type part : FieldType} (embeds : schema.Embeds type part) : Mentions schema type part
  | inner (inner : FieldType) : Mentions schema (.option inner) inner
  | item (element : FieldType) : Mentions schema (.vec element) element
  | key (key value : FieldType) : Mentions schema (.map key value) key
  | value (key value : FieldType) : Mentions schema (.map key value) value

variable {schema : Schema}

/-- A derived type has no infinite chain of mentions below it. -/
theorem Sized.acc {depth length : Nat} {type : FieldType} (h : schema.Sized depth type length) :
    Acc (Function.swap schema.Mentions) type := by
  induction h with
  | primitive p =>
    refine Acc.intro _ fun part hm => ?_
    cases hm with
    | part embeds => cases embeds
  | array count _ _ ih =>
    refine Acc.intro _ fun part hm => ?_
    cases hm with
    | part embeds =>
      cases embeds with
      | element => exact ih
  | enum found _ =>
    refine Acc.intro _ fun part hm => ?_
    cases hm with
    | part embeds =>
      cases embeds with
      | field found' _ => rw [found] at found'; cases found'
  | struct found _ _ _ ih =>
    refine Acc.intro _ fun part hm => ?_
    cases hm with
    | part embeds =>
      cases embeds with
      | field found' mem =>
        rw [found] at found'
        cases found'
        exact ih _ mem

/-- **A derived type reaches no type that mentions itself.** -/
theorem Sized.acyclic {depth length : Nat} {type part : FieldType}
    (h : schema.Sized depth type length) (hp : ReflTransGen schema.Mentions type part) :
    ¬ TransGen schema.Mentions part part := by
  have below : Acc (Function.swap schema.Mentions) part := by
    induction hp with
    | refl => exact h.acc
    | tail _ hm ih => exact ih.inv hm
  intro hc
  have descent := below.transGen
  induction descent with
  | intro x _ ih => exact ih x (transGen_swap.mpr hc) hp below hc

/-- So no structure it reaches has itself as a part. -/
theorem Sized.not_embeds_self {depth length : Nat} {type part : FieldType}
    (h : schema.Sized depth type length) (hp : ReflTransGen schema.Embeds type part) :
    ¬ TransGen schema.Embeds part part := fun hc =>
  h.acyclic (ReflTransGen.mono (fun _ _ => .part) _ _ hp) (TransGen.mono (fun _ _ => .part) _ _ hc)

end Schema

end LedgerScan
