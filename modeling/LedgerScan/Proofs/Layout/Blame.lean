import LedgerScan.Proofs.Layout.Totals

/-!
# What layout errors tell

An error of a layout names a field of the record, a field of the structure that this field is of,
and so on, and in the end what is wrong with the last of these fields. All of it is true of the
schema:

* `Schema.Leads` is a way through the definitions along fields that are named, and the fields before
  each of them have lengths;
* `Schema.NoLength` says what can be wrong with the type at the end of the way;
* `LayoutError.along` is the error that tells both, and `Schema.Told` says of an error that it is of
  this kind.

Whatever structures are open, every error of a length is (`told_of_lengthOfNamed`, by induction on
the levels), and so is every error of a layout, unless the record itself is too long:
`Schema.layoutOf_blames`.
-/

namespace LedgerScan

open Fallible

/-! ## 1. Types and array layers -/

namespace FieldType

/-- A type without its array layers. -/
def stripped : FieldType → FieldType
  | .array element _ => element.stripped
  | type => type

/-- The array layers of a type, the outermost first, each with its element and its count. -/
def layers : FieldType → List (FieldType × Nat)
  | .array element count => (element, count) :: element.layers
  | _ => []

/-- Whether the values of a type differ in length, whatever the names in it stand for. -/
def varies : FieldType → Bool
  | .option _ | .vec _ | .string | .bytes | .map _ _ => true
  | .primitive _ | .array _ _ | .defined _ => false

end FieldType

/-- The error that leads through fields of structures to a root. -/
def LayoutError.along (path : List (String × String)) (root : LayoutError) : LayoutError :=
  path.foldr (fun step cause => .inField step.1 step.2 cause) root

theorem LayoutError.root_along (path : List (String × String)) (e : LayoutError) :
    (LayoutError.along path e).root = e.root := by
  induction path with
  | nil => rfl
  | cons step path ih => exact ih

namespace Schema

/-! ## 2. Ways through the definitions -/

/-- A structure has a field, and the fields before it have lengths. -/
def Reaches (schema : Schema) (record : String) (field : Field) : Prop :=
  ∃ before after, schema.find? record = some (.struct (before ++ field :: after)) ∧
    ∀ earlier ∈ before, ∃ length, schema.lengthOf earlier.type = .ok length

/-- **A way from a type to a type inside it.** Each step goes from a name, in any number of array
    layers, to the type of a field of the structure of that name. -/
inductive Leads (schema : Schema) : FieldType → List (String × String) → FieldType → Prop where
  | here (type : FieldType) : Leads schema type [] type
  | inside {type inner : FieldType} {name : String} {field : Field} {path : List (String × String)}
      (named : type.stripped = .defined name) (reaches : schema.Reaches name field)
      (rest : Leads schema field.type path inner) :
      Leads schema type ((name, field.name) :: path) inner

/-- The lengths of some first fields of a structure, added to a start, are too great. -/
def Exceeds (schema : Schema) (fields : List Field) (start : Nat) : Prop :=
  ∃ before after lengths, fields = before ++ after ∧
    List.Forall₂ (fun field length => schema.lengthOf field.type = .ok length) before lengths ∧
    maxLength < start + lengths.sum

/-- **What can be wrong with a type** inside structures of some names, other than with a field of a
    structure. -/
inductive NoLength (schema : Schema) (names : List String) (type : FieldType) :
    LayoutError → Prop where
  | unknown {name : String} (named : type.stripped = .defined name)
      (missing : schema.find? name = none) : NoLength schema names type (.unknownType name)
  | recursive {name : String} (named : type.stripped = .defined name) (mem : name ∈ names) :
      NoLength schema names type (.recursive name)
  | varies (varies : type.stripped.varies = true) :
      NoLength schema names type (.unsized type.stripped.text)
  | carriesData {name : String} {variants : List Variant} (named : type.stripped = .defined name)
      (found : schema.find? name = some (.enum variants))
      (data : ∃ v ∈ variants, v.hasFields = true) :
      NoLength schema names type (.unsized name)
  | layer {element : FieldType} {count length : Nat} (layer : (element, count) ∈ type.layers)
      (sized : schema.lengthOf element = .ok length) (exceeds : maxLength < length * count) :
      NoLength schema names type (.overflow (FieldType.array element count).text)
  | sum {name : String} {fields : List Field} (named : type.stripped = .defined name)
      (found : schema.find? name = some (.struct fields)) (exceeds : schema.Exceeds fields 0) :
      NoLength schema names type (.overflow name)

/-- An error tells what is wrong with a type while some structures are open: it leads from the type
    to one that has no length. -/
def Told (schema : Schema) (opened : List String) (type : FieldType) (e : LayoutError) : Prop :=
  ∃ path inner root, schema.Leads type path inner ∧
    schema.NoLength (path.map Prod.fst ++ opened) inner root ∧ e = LayoutError.along path root

variable {schema : Schema} {names more opened : List String} {type element : FieldType}
  {count levels total : Nat} {record name : String} {field : Field} {fields : List Field}
  {e : LayoutError}

/-- What is wrong with a type itself is not inside a field. -/
theorem NoLength.root_eq (h : schema.NoLength names type e) : e.root = e := by
  cases h <;> rfl

theorem NoLength.mono (h : schema.NoLength names type e) (sub : ∀ name ∈ names, name ∈ more) :
    schema.NoLength more type e := by
  cases h with
  | unknown named missing => exact .unknown named missing
  | recursive named mem => exact .recursive named (sub _ mem)
  | varies varies => exact .varies varies
  | carriesData named found data => exact .carriesData named found data
  | layer layer sized exceeds => exact .layer layer sized exceeds
  | sum named found exceeds => exact .sum named found exceeds

/-- What is wrong with the element of an array is wrong with the array. -/
theorem NoLength.array (h : schema.NoLength names element e) (count : Nat) :
    schema.NoLength names (.array element count) e := by
  cases h with
  | unknown named missing => exact .unknown named missing
  | recursive named mem => exact .recursive named mem
  | varies varies => exact @NoLength.varies _ _ (.array element count) varies
  | carriesData named found data => exact .carriesData named found data
  | layer layer sized exceeds => exact .layer (List.mem_cons_of_mem _ layer) sized exceeds
  | sum named found exceeds => exact .sum named found exceeds

/-! ## 3. Errors of lengths -/

theorem NoLength.told (h : schema.NoLength opened type e) : schema.Told opened type e :=
  ⟨[], type, e, .here type, h, rfl⟩

theorem told_of_varies (h : type.stripped.varies = true) :
    schema.Told opened type (.unsized type.stripped.text) :=
  NoLength.told (.varies h)

theorem Told.array (h : schema.Told opened element e) (count : Nat) :
    schema.Told opened (.array element count) e := by
  obtain ⟨path, inner, root, leads, wrong, rfl⟩ := h
  cases leads with
  | here => exact (wrong.array count).told
  | inside named reaches rest => exact ⟨_, inner, root, .inside named reaches rest, wrong, rfl⟩

/-- What is wrong with a field is wrong with its structure, which is open meanwhile. -/
theorem Told.inField (h : schema.Told (name :: opened) field.type e)
    (reaches : schema.Reaches name field) :
    schema.Told opened (.defined name) (.inField name field.name e) := by
  obtain ⟨path, inner, root, leads, wrong, rfl⟩ := h
  refine ⟨(name, field.name) :: path, inner, root, .inside rfl reaches leads, ?_, rfl⟩
  refine wrong.mono fun other hmem => ?_
  rcases List.mem_append.mp hmem with hpath | hopened
  · exact List.mem_append_left _ (List.mem_cons_of_mem _ hpath)
  · rcases List.mem_cons.mp hopened with rfl | hopened
    · exact List.mem_append_left _ List.mem_cons_self
    · exact List.mem_append_right _ hopened

/-- Lengths that are found inside open structures are the lengths of the types. -/
theorem lengthOf_of_lengthBy {length : Nat} {s : List String}
    (h : type.lengthBy (schema.lengthOfNamed levels) opened = .ok (length, s)) :
    schema.lengthOf type = .ok length :=
  lengthOf_of_sized (lengthBy_sized h)

/-- **Why a sum of lengths fails**: the fields up to some field are too long together, or a first
    field has no length. -/
theorem totalBy_error_cases
    (h : Field.totalBy (schema.lengthOfNamed levels) name fields total opened = .error e) :
    (e = .overflow name ∧ schema.Exceeds fields total) ∨
    ∃ before field after cause, fields = before ++ field :: after ∧
      (∀ earlier ∈ before, ∃ length, schema.lengthOf earlier.type = .ok length) ∧
      field.type.lengthBy (schema.lengthOfNamed levels) opened = .error cause ∧
      e = .inField name field.name cause := by
  induction fields generalizing total with
  | nil => cases h
  | cons field fields ih =>
    rcases Field.totalBy_cons_error.mp h with ⟨cause, hcause, he⟩ | ⟨length, s, hlength, hrest⟩
    · exact .inr ⟨[], field, fields, cause, rfl, nofun, hcause, he⟩
    · have hs : s = opened :=
        FieldType.lengthBy_frames (schema.lengthOfNamed_frames levels) field.type _ _ _ hlength
      have sized := lengthOf_of_lengthBy hlength
      subst hs
      rcases hrest with ⟨exceeds, he⟩ | ⟨_, hrest⟩
      · refine .inl ⟨he, [field], fields, [length], rfl, .cons sized .nil, ?_⟩
        simpa using exceeds
      · rcases ih hrest with ⟨he, before, after, lengths, hfields, hlengths, exceeds⟩ |
          ⟨before, culprit, after, cause, hfields, hbefore, hcause, he⟩
        · refine .inl ⟨he, field :: before, after, length :: lengths, by rw [hfields]; rfl,
            .cons sized hlengths, ?_⟩
          rw [List.sum_cons]
          omega
        · exact .inr ⟨field :: before, culprit, after, cause, by rw [hfields]; rfl,
            List.forall_mem_cons.mpr ⟨⟨length, sized⟩, hbefore⟩, hcause, he⟩

/-- An error of a type is told if the errors of names are. -/
theorem told_of_named
    (h : ∀ name e, schema.lengthOfNamed levels name opened = .error e →
      schema.Told opened (.defined name) e)
    (hr : type.lengthBy (schema.lengthOfNamed levels) opened = .error e) :
    schema.Told opened type e := by
  induction type with
  | primitive p => cases hr
  | array element count ih =>
    rcases FieldType.lengthBy_array_error.mp hr with hr | ⟨length, s, hlength, exceeds, he⟩
    · exact (ih hr).array count
    · have wrong : schema.NoLength opened (.array element count)
          (.overflow (FieldType.array element count).text) :=
        .layer List.mem_cons_self (lengthOf_of_lengthBy hlength) exceeds
      exact he ▸ wrong.told
  | defined name => exact h name e hr
  | option inner => cases hr; exact told_of_varies rfl
  | vec element => cases hr; exact told_of_varies rfl
  | string => cases hr; exact told_of_varies rfl
  | bytes => cases hr; exact told_of_varies rfl
  | map key value => cases hr; exact told_of_varies rfl

/-- An error of a name is told if inside its structure the errors of the types of its fields are. -/
theorem told_of_fields (levels : Nat)
    (h : ∀ fields below cause, schema.find? name = some (.struct fields) → name ∉ opened →
      levels = below + 1 → ∀ type : FieldType,
      type.lengthBy (schema.lengthOfNamed below) (name :: opened) = .error cause →
      schema.Told (name :: opened) type cause)
    (hlevels : (schema.unopened opened).length ≤ levels)
    (hr : schema.lengthOfNamed levels name opened = .error e) :
    schema.Told opened (.defined name) e := by
  rcases lengthOfNamed_error.mp hr with ⟨hopen, rfl⟩ | ⟨hopen, ⟨missing, rfl⟩ |
    ⟨variants, found, data, rfl⟩ | ⟨fields, found, ⟨hzero, _⟩ | ⟨below, hbelow, ht⟩⟩⟩
  · exact NoLength.told (.recursive rfl hopen)
  · exact NoLength.told (.unknown rfl missing)
  · exact NoLength.told (.carriesData rfl found data)
  · -- there is always a level left for a definition that is not open
    have := unopened_cons_lt found hopen
    omega
  · rcases totalBy_error_cases ht with ⟨rfl, exceeds⟩ |
      ⟨before, field, after, cause, hfields, hbefore, hcause, rfl⟩
    · exact NoLength.told (.sum rfl found exceeds)
    · exact (h fields below cause found hopen hbelow field.type hcause).inField
        ⟨before, after, hfields ▸ found, hbefore⟩

/-- **Every error of a name is told**, whatever structures are open. -/
theorem told_of_lengthOfNamed (levels : Nat) :
    ∀ (name : String) (opened : List String) (e : LayoutError),
      (schema.unopened opened).length ≤ levels →
      schema.lengthOfNamed levels name opened = .error e →
      schema.Told opened (.defined name) e := by
  induction levels with
  | zero =>
    intro name opened e hlevels hr
    exact told_of_fields 0 (fun _ _ _ _ _ hl => by cases hl) hlevels hr
  | succ below ih =>
    intro name opened e hlevels hr
    refine told_of_fields (below + 1) (fun fields _ cause found hopen hl type ht => ?_) hlevels hr
    cases hl
    have hlt := unopened_cons_lt found hopen
    exact told_of_named (fun inner e => ih inner (name :: opened) e (by omega)) ht

/-! ## 4. Errors of layouts -/

/-- **Every error of a layout is true.** Let a structure have no layout. Either its fields, up to
    some field, are too long together behind the discriminator, and the error says so of the record.
    Or the error leads along a way through the definitions that starts with a field of the record:
    each field that is named is a field of its structure, all fields before it have lengths, and its
    type, without its array layers, is the name of the next structure. The root of the error is what
    is wrong with the type of the last field. It is a name that is not defined, a name that the way
    has come along, a type whose values differ in length, an enumeration with data, an array layer
    that is too long, or a structure whose fields are too long together. -/
theorem layoutOf_blames (schema : Schema) {record : String} {fields : List Field}
    (found : schema.find? record = some (.struct fields)) {e : LayoutError}
    (failed : schema.layoutOf record = .error e) :
    (e = .overflow record ∧ schema.Exceeds fields (schema.discriminator record).length) ∨
    ∃ field path inner, schema.Leads (.defined record) ((record, field) :: path) inner ∧
      schema.NoLength (record :: path.map Prod.fst) inner e.root ∧
      e = LayoutError.along ((record, field) :: path) e.root := by
  have hsum := (layoutOf_eq_error found).mp failed
  rcases totalBy_error_cases hsum with ⟨he, exceeds⟩ |
    ⟨before, field, after, cause, hfields, hbefore, hcause, he⟩
  · exact .inl ⟨he, exceeds⟩
  · have hlevels : (schema.unopened [record]).length ≤ schema.types.length :=
      ((unopened_cons_lt found List.not_mem_nil).trans_eq unopened_nil_length).le
    have told : schema.Told [record] field.type cause := told_of_named
      (fun name e => told_of_lengthOfNamed schema.types.length name [record] e hlevels) hcause
    have reaches : schema.Reaches record field := ⟨before, after, hfields ▸ found, hbefore⟩
    obtain ⟨path, inner, root, leads, wrong, rfl⟩ := told
    have hroot : e.root = root := by
      rw [he]
      exact (LayoutError.root_along path root).trans wrong.root_eq
    refine .inr ⟨field.name, path, inner, .inside rfl reaches leads, ?_, by rw [hroot]; exact he⟩
    rw [hroot]
    refine wrong.mono fun name hname => ?_
    rcases List.mem_append.mp hname with hpath | hrecord
    · exact List.mem_cons_of_mem _ hpath
    · rw [List.mem_singleton.mp hrecord]
      exact List.mem_cons_self

/-- A tower on a ground, with floors that have labels. -/
def tower : Schema :=
  empty |>.withStruct "Tower" [⟨"ground", .primitive .u64⟩, ⟨"floors", .array (.defined "Floor") 3⟩]
    |>.withStruct "Floor" [⟨"height", .primitive .u16⟩, ⟨"label", .option .string⟩,
      ⟨"next", .defined "Tower"⟩]

/-- The label is to blame, before the tower in the floor is looked at. -/
theorem layoutOf_tower :
    tower.layoutOf "Tower"
      = .error (.inField "Tower" "floors" (.inField "Floor" "label" (.unsized "Option<string>"))) ∧
    ∃ field path inner, tower.Leads (.defined "Tower") (("Tower", field) :: path) inner ∧
      tower.NoLength ("Tower" :: path.map Prod.fst) inner (.unsized "Option<string>") := by
  have found : tower.find? "Tower" = some (.struct [⟨"ground", .primitive .u64⟩,
      ⟨"floors", .array (.defined "Floor") 3⟩]) := by
    decide +kernel
  have failed : tower.layoutOf "Tower" = .error (.inField "Tower" "floors"
      (.inField "Floor" "label" (.unsized "Option<string>"))) := by
    decide +kernel
  refine ⟨failed, ?_⟩
  rcases layoutOf_blames tower found failed with ⟨he, _⟩ | ⟨field, path, inner, leads, wrong, _⟩
  · cases he
  · exact ⟨field, path, inner, leads, wrong⟩

end Schema

end LedgerScan
