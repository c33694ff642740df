import LedgerScan.Idl.Writer
import LedgerScan.Proofs.Idl.Reader

/-!
# What the reader gives

Not every description can be read: a length has at most 32 bits, a tuple at least one type, a
variant never the value null, and all of it fits into the brackets that may be open at once. What
was read has these properties (`isRegular_of_parse?`), whichever spelling it was read from: the
canonical form of a type is nested no deeper than the part it was read from (`readsRegular`). So the
canonical form can be read again.
-/

namespace LedgerScan

open Document

/-! ## 1. Values that can be written and read -/

namespace Json

/-- A plain value that needs no more open brackets than there are. -/
def PlainWithin (depth : Nat) (v : Json) : Prop :=
  v.Plain ∧ v.toDocument.readable depth = true

section PlainWithin

variable {depth : Nat} {pairs : List (String × Json)} {values : List Json}

theorem plainWithin_null (depth : Nat) : PlainWithin depth .null := ⟨.null, rfl⟩

theorem plainWithin_text (depth : Nat) (s : String) : PlainWithin depth (.text s) := ⟨.text s, rfl⟩

theorem plain_nat {n : Nat} (h : n ≤ 0xFFFFFFFF) : (Json.nat n).Plain :=
  .number (by unfold Number.IsInteger; omega)

theorem plainWithin_nat {n : Nat} (h : n ≤ 0xFFFFFFFF) : PlainWithin depth (.nat n) :=
  ⟨plain_nat h, rfl⟩

theorem plainWithin_list (h : ∀ v ∈ values, PlainWithin depth v) :
    PlainWithin (depth + 1) (.list values) := by
  refine ⟨.list fun v hv => (h v hv).1, ?_⟩
  rw [toDocument_list, readable_list, List.forall_mem_map]
  exact ⟨Nat.succ_pos depth, fun v hv => (h v hv).2⟩

theorem plain_ofPairs (h : ∀ entry ∈ pairs, entry.2.Plain) : (ofPairs pairs).Plain :=
  .object (Entries.sorted_ofList pairs)
    fun entry hentry => h entry (Entries.mem_of_mem_ofList hentry)

theorem plainWithin_ofPairs (h : ∀ entry ∈ pairs, PlainWithin depth entry.2) :
    PlainWithin (depth + 1) (.ofPairs pairs) := by
  refine ⟨plain_ofPairs fun entry hentry => (h entry hentry).1, ?_⟩
  rw [ofPairs, toDocument_object, readable_object, List.forall_mem_map]
  exact ⟨Nat.succ_pos depth,
    fun entry hentry => ⟨rfl, (h entry (Entries.mem_of_mem_ofList hentry)).2⟩⟩

theorem plainWithin_single {name : String} {v : Json} (h : PlainWithin depth v) :
    PlainWithin (depth + 1) (.ofPairs [(name, v)]) :=
  plainWithin_ofPairs (List.forall_mem_singleton.mpr h)

end PlainWithin

end Json

namespace Idl

/-! ## 2. Type expressions -/

/-- **A type expression that can be read** with some room: its lengths have 32 bits and its
    canonical form needs no more brackets than there are. -/
inductive TypeExpr.Regular : Nat → TypeExpr → Prop where
  | simple (depth : Nat) (name : String) : Regular depth (.simple name)
  | array {depth : Nat} {extents : List Extent}
      (types : ∀ t, Extent.nested t ∈ extents → Regular depth t)
      (sizes : ∀ n, Extent.size n ∈ extents → n ≤ 0xFFFFFFFF) :
      Regular (depth + 2) (.array extents)
  | option {depth : Nat} {inner : TypeExpr} (h : Regular depth inner) :
      Regular (depth + 1) (.option inner)
  | vec {depth : Nat} {element : TypeExpr} (h : Regular depth element) :
      Regular (depth + 1) (.vec element)
  | map {depth : Nat} {key value : TypeExpr} (hkey : Regular depth key)
      (hvalue : Regular depth value) : Regular (depth + 2) (.map key value)
  | named (depth : Nat) (name : String) : Regular (depth + 2) (.defined (.named name))
  | plain (depth : Nat) (name : String) : Regular (depth + 1) (.defined (.plain name))

section Types

variable {depth : Nat} {t : TypeExpr} {d part : Document}
  {members : List (Option String × Document)} {names : List String}

theorem toJsons_eq (extents : List Extent) :
    Extent.toJsons extents = extents.map Extent.toJson := by
  induction extents with
  | nil => rfl
  | cons extent extents ih => rw [Extent.toJsons, ih, List.map_cons]

/-- **The canonical form of a regular expression** can be written and read. -/
theorem TypeExpr.Regular.plainWithin (h : t.Regular depth) : t.toJson.PlainWithin depth := by
  induction h with
  | simple depth name =>
    rw [toJson]
    exact Json.plainWithin_text depth name
  | @array depth extents _ sizes ih =>
    rw [toJson, toJsons_eq]
    refine Json.plainWithin_single (Json.plainWithin_list (List.forall_mem_map.mpr ?_))
    intro extent hextent
    cases extent with
    | nested t =>
      rw [Extent.toJson]
      exact ih t hextent
    | size n =>
      rw [Extent.toJson]
      exact Json.plainWithin_nat (sizes n hextent)
  | option _ ih | vec _ ih =>
    rw [toJson]
    exact Json.plainWithin_single ih
  | map _ _ ihKey ihValue =>
    rw [toJson]
    refine Json.plainWithin_single (Json.plainWithin_list ?_)
    exact List.forall_mem_cons.mpr ⟨ihKey, List.forall_mem_singleton.mpr ihValue⟩
  | named depth name =>
    rw [toJson]
    exact Json.plainWithin_single (Json.plainWithin_single (Json.plainWithin_text depth name))
  | plain depth name =>
    rw [toJson]
    exact Json.plainWithin_single (Json.plainWithin_text depth name)

/-! ## 3. Reading a type expression -/

/-- What is read from a part is regular: a type, the list of an array, the pair of a map. -/
structure ReadsRegular (part : Document) : Prop where
  type : ∀ {t depth}, TypeExpr.ofDocument? part = some t → part.readable depth = true →
    t.Regular depth
  extents : ∀ {extents depth}, Extent.listOfDocument? part = some extents →
    part.readable depth = true → (TypeExpr.array extents).Regular (depth + 1)
  pair : ∀ {key value depth}, TypeExpr.pairOfDocument? part = some (key, value) →
    part.readable depth = true → (TypeExpr.map key value).Regular (depth + 1)

theorem regular_of_reference {target : Reference} (h : Reference.ofDocument? part = some target)
    (hpart : part.readable depth = true) : (TypeExpr.defined target).Regular (depth + 1) := by
  unfold Reference.ofDocument? at h
  split at h
  · obtain ⟨name, -, rfl⟩ := Option.map_eq_some_iff.mp h
    obtain ⟨below, rfl⟩ := Nat.exists_eq_add_one.mpr (readable_object.mp hpart).1
    exact .named below name
  · obtain ⟨name, -, rfl⟩ := Option.map_eq_some_iff.mp h
    exact .plain depth name

/-- Each item of an array expression is a type that was read from a part, or a length. -/
theorem types_or_sizes {parts : List Document} {extents : List Extent}
    (h : Extent.ofDocuments? parts = some extents) : ∀ extent ∈ extents,
      (∃ part ∈ parts, ∃ t, TypeExpr.ofDocument? part = some t ∧ extent = .nested t) ∨
        ∃ n ≤ 0xFFFFFFFF, extent = .size n := by
  induction parts generalizing extents with
  | nil =>
    cases h
    nofun
  | cons part parts ih =>
    rw [Extent.ofDocuments?] at h
    obtain ⟨extent, hextent, h⟩ := Option.bind_eq_some_iff.mp h
    obtain ⟨extents, hextents, h⟩ := Option.bind_eq_some_iff.mp h
    cases h
    refine List.forall_mem_cons.mpr ⟨?_, fun other hother => ?_⟩
    · rcases (Option.orElse_eq_some ..).mp hextent with htype | ⟨-, hsize⟩
      · obtain ⟨t, ht, rfl⟩ := Option.map_eq_some_iff.mp htype
        exact .inl ⟨part, List.mem_cons_self, t, ht, rfl⟩
      · obtain ⟨n, hn, rfl⟩ := Option.map_eq_some_iff.mp hsize
        refine .inr ⟨n, ?_, rfl⟩
        unfold natUpTo? at hn
        split at hn
        · split at hn
          · cases hn
            omega
          · cases hn
        · cases hn
    · exact (ih hextents other hother).imp_left fun ⟨found, hfound, ht⟩ =>
        ⟨found, List.mem_cons_of_mem _ hfound, ht⟩

/-- **Whatever is read is regular**, in each of the spellings of each form. -/
theorem readsRegular (part : Document) : ReadsRegular part := by
  induction part with
  | null | bool _ | number _ => exact ⟨nofun, nofun, nofun⟩
  | text content =>
    refine ⟨fun {t depth} h _ => ?_, nofun, nofun⟩
    rw [TypeExpr.ofDocument?] at h
    obtain ⟨name, -, rfl⟩ := Option.map_eq_some_iff.mp h
    exact .simple depth name
  | list items ih =>
    have inside : ∀ {depth}, (Document.list items).readable depth = true → ∃ below,
        depth = below + 1 ∧ ∀ part ∈ items, ReadsRegular part ∧ part.readable below = true := by
      intro depth hreadable
      obtain ⟨hpos, hitems⟩ := readable_list.mp hreadable
      obtain ⟨below, rfl⟩ := Nat.exists_eq_add_one.mpr hpos
      exact ⟨below, rfl, fun part hpart => ⟨ih part hpart, hitems part hpart⟩⟩
    refine ⟨fun {t depth} h hreadable => ?_, fun {extents depth} h hreadable => ?_,
      fun {key value depth} h hreadable => ?_⟩
    · obtain ⟨below, rfl, hinside⟩ := inside hreadable
      match items, h with
      | [part], hread =>
        obtain ⟨hregular, hpart⟩ := hinside part List.mem_cons_self
        rw [TypeExpr.ofDocument?] at hread
        simp only [Option.orElse_eq_some, Option.map_eq_some_iff] at hread
        rcases hread with ⟨_, hread, rfl⟩ | ⟨-, ⟨_, hread, rfl⟩ | ⟨-, ⟨_, hread, rfl⟩ |
          ⟨-, ⟨_, hread, rfl⟩ | ⟨-, _, hread, rfl⟩⟩⟩⟩
        · exact hregular.extents hread hpart
        · exact .option (hregular.type hread hpart)
        · exact .vec (hregular.type hread hpart)
        · exact hregular.pair hread hpart
        · exact regular_of_reference hread hpart
    · obtain ⟨below, rfl, hinside⟩ := inside hreadable
      refine .array (fun t ht => ?_) fun n hn => ?_
      · rcases types_or_sizes h _ ht with ⟨part, hpart, _, hread, hnested⟩ | ⟨_, -, hsize⟩
        · cases hnested
          exact (hinside part hpart).1.type hread (hinside part hpart).2
        · cases hsize
      · rcases types_or_sizes h _ hn with ⟨_, -, _, -, hnested⟩ | ⟨_, hle, hsize⟩
        · cases hnested
        · cases hsize
          exact hle
    · obtain ⟨below, rfl, hinside⟩ := inside hreadable
      match items, h with
      | [keyPart, valuePart], hread =>
        obtain ⟨hkey, hvalue, -⟩ :=
          (List.forall_mem_cons.mp hinside).imp_right List.forall_mem_cons.mp
        rw [TypeExpr.pairOfDocument?] at hread
        obtain ⟨_, hkeyRead, hread⟩ := Option.bind_eq_some_iff.mp hread
        obtain ⟨_, hvalueRead, hread⟩ := Option.bind_eq_some_iff.mp hread
        cases hread
        exact .map (hkey.1.type hkeyRead hkey.2) (hvalue.1.type hvalueRead hvalue.2)
  | object members ih =>
    refine ⟨fun {t depth} h hreadable => ?_, nofun, nofun⟩
    obtain ⟨hpos, hmembers⟩ := readable_object.mp hreadable
    obtain ⟨below, rfl⟩ := Nat.exists_eq_add_one.mpr hpos
    have inside : ∀ {names part}, memberUnder? names members = some part →
        ReadsRegular part ∧ part.readable below = true := by
      intro names part hpart
      cases inside_of_memberUnder? hpart with
      | member key hmem => exact ⟨ih _ hmem, (hmembers _ hmem).2⟩
    rw [TypeExpr.ofDocument?, listUnder?_eq, under?_eq, under?_eq, pairUnder?_eq] at h
    simp only [Option.orElse_eq_some, Option.map_eq_some_iff, Option.bind_eq_some_iff] at h
    rcases h with ⟨_, ⟨part, hpart, h⟩, rfl⟩ | ⟨-, ⟨_, ⟨part, hpart, h⟩, rfl⟩ |
      ⟨-, ⟨_, ⟨part, hpart, h⟩, rfl⟩ | ⟨-, ⟨_, ⟨part, hpart, h⟩, rfl⟩ |
        ⟨-, _, ⟨part, hpart, h⟩, rfl⟩⟩⟩⟩
    all_goals obtain ⟨hregular, hreadable⟩ := inside hpart
    · exact hregular.extents h hreadable
    · exact .option (hregular.type h hreadable)
    · exact .vec (hregular.type h hreadable)
    · exact hregular.pair h hreadable
    · exact regular_of_reference h hreadable

end Types

/-! ## 4. Definitions -/

/-- The variants of a definition. -/
def Body.variants : Body → List Alternative
  | .struct _ _ | .tuple _ _ => []
  | .enum _ variants => variants

/-- **A definition that can be read**: a tuple has a first type, which is not a field, and a variant
    that carries null is read as one that carries nothing. -/
def Body.Regular : Body → Prop
  | .struct _ members => ∀ m ∈ members, ∃ depth, m.type.Regular depth
  | .tuple _ types => types ≠ [] ∧ ∀ t ∈ types, ∃ depth, t.Regular depth
  | .enum _ variants => ∀ a ∈ variants, a.fields ≠ some .null

section Bodies

variable {depth : Nat} {part : Document} {members : List (Option String × Document)}
  {name kind : String}

theorem regular_of_member {m : Member} (h : Member.ofDocument? part = some m)
    (hpart : part.readable depth = true) :
    (∃ depth, m.type.Regular depth) ∧ m.toJson.PlainWithin depth := by
  obtain ⟨type, hparts, htype⟩ := member_eq_some.mp h
  have hinside : Inside type part := inside_of_parts? hparts (by simp)
  obtain ⟨below, rfl, hreadable⟩ := hinside.readable hpart
  have hregular := (readsRegular type).type htype hreadable
  refine ⟨⟨below, hregular⟩, Json.plainWithin_ofPairs ?_⟩
  exact List.forall_mem_cons.mpr ⟨Json.plainWithin_text below m.name,
    List.forall_mem_singleton.mpr hregular.plainWithin⟩

/-- What a variant carries is the value of a part of it, and not null. -/
theorem regular_of_alternative {a : Alternative} (h : Alternative.ofDocument? part = some a)
    (hpart : part.readable depth = true) (hfits : part.Fits)
    (hfloat : ∀ v ∈ a.fields, v.HasNoFloat) :
    a.fields ≠ some .null ∧ a.toJson.PlainWithin depth := by
  obtain ⟨fields, hparts, hfields⟩ := alternative_eq_some.mp h
  have hinside : Inside (.text (some a.name)) part := inside_of_parts? hparts (by simp)
  obtain ⟨below, rfl, -⟩ := hinside.readable hpart
  suffices hcarried : a.fields ≠ some .null ∧ (a.fields.getD .null).PlainWithin below by
    refine ⟨hcarried.1, Json.plainWithin_ofPairs ?_⟩
    exact List.forall_mem_cons.mpr ⟨Json.plainWithin_text below a.name,
      List.forall_mem_singleton.mpr hcarried.2⟩
  rcases optional?_eq_some hfields with hnone | ⟨d, v, rfl, hnull, hvalue, hsome⟩
  · rw [hnone]
    exact ⟨nofun, Json.plainWithin_null below⟩
  · have hd : Inside d part := inside_of_parts? hparts (by simp)
    obtain ⟨_, hbelow, hreadable⟩ := hd.readable hpart
    cases hbelow
    have hplain := plain_of_value? (hd.fits hfits) hvalue (hfloat v hsome)
    rw [hsome]
    refine ⟨?_, hplain, readable_of_value? hvalue hreadable⟩
    rintro ⟨⟩
    exact hnull (eq_toDocument hvalue rfl)

/-- A part of a list that a definition has stands two brackets inside it. -/
theorem inside_of_listUnder? {α : Type} {read : Document → Option α} {xs : List α}
    (h : Body.listUnder? name read members = some (kind, xs))
    (hreadable : (Document.object members).readable depth = true)
    (hfits : (Document.object members).Fits) :
    ∃ below, depth = below + 2 ∧ ∀ x ∈ xs, ∃ item,
      read item = some x ∧ item.readable below = true ∧ item.Fits := by
  obtain ⟨items, hparts, hitems⟩ := listUnder?_eq_some.mp h
  have hinside : Inside (.list items) (.object members) := inside_of_parts? hparts (by simp)
  obtain ⟨below, rfl, hlist⟩ := hinside.readable hreadable
  obtain ⟨hpos, heach⟩ := readable_list.mp hlist
  obtain ⟨below, rfl⟩ := Nat.exists_eq_add_one.mpr hpos
  refine ⟨below, rfl, fun x hx => ?_⟩
  obtain ⟨item, hitem, hread⟩ := exists_left (Fallible.mapM_eq_some_iff.mp hitems) x hx
  exact ⟨item, hread, heach item hitem, Inside.fits (.item hitem) (hinside.fits hfits)⟩

theorem plainWithin_definition {values : List Json} (kind name : String)
    (h : ∀ v ∈ values, v.PlainWithin depth) :
    (Json.ofPairs [("kind", .text kind), (name, .list values)]).PlainWithin (depth + 2) := by
  refine Json.plainWithin_ofPairs (List.forall_mem_cons.mpr ⟨Json.plainWithin_text _ kind, ?_⟩)
  exact List.forall_mem_singleton.mpr (Json.plainWithin_list h)

/-- **Whatever is read is a regular definition**, and without doubles its canonical form can be
    written and read. -/
theorem regular_of_body {body : Body} (h : Body.ofDocument? part = some body)
    (hreadable : part.readable depth = true) (hfits : part.Fits)
    (hfloat : ∀ a ∈ body.variants, ∀ v ∈ a.fields, v.HasNoFloat) :
    body.Regular ∧ body.toJson.PlainWithin depth := by
  unfold Body.ofDocument? at h
  split at h
  · simp only [Option.orElse_eq_some, Option.map_eq_some_iff] at h
    rcases h with ⟨⟨kind, fields⟩, hread, rfl⟩ | ⟨hstruct, ⟨⟨kind, types⟩, hread, rfl⟩ |
      ⟨-, ⟨kind, variants⟩, hread, rfl⟩⟩
    · obtain ⟨below, rfl, heach⟩ := inside_of_listUnder? hread hreadable hfits
      have hfields : ∀ m ∈ fields,
          (∃ depth, m.type.Regular depth) ∧ m.toJson.PlainWithin below := by
        intro m hm
        obtain ⟨item, hitem, hdepth, -⟩ := heach m hm
        exact regular_of_member hitem hdepth
      exact ⟨fun m hm => (hfields m hm).1, plainWithin_definition kind "fields"
        (List.forall_mem_map.mpr fun m hm => (hfields m hm).2)⟩
    · obtain ⟨below, rfl, heach⟩ := inside_of_listUnder? hread hreadable hfits
      have htypes : ∀ t ∈ types, t.Regular below := by
        intro t ht
        obtain ⟨item, hitem, hdepth, -⟩ := heach t ht
        exact (readsRegular item).type hitem hdepth
      refine ⟨⟨?_, fun t ht => ⟨below, htypes t ht⟩⟩, plainWithin_definition kind "fields"
        (List.forall_mem_map.mpr fun t ht => (htypes t ht).plainWithin)⟩
      -- an empty list would have been read as one of fields with names
      rintro rfl
      obtain ⟨items, hparts, hitems⟩ := listUnder?_eq_some.mp hread
      cases Fallible.mapM_eq_some_iff.mp hitems
      rw [listUnder?_eq_some.mpr ⟨[], hparts, rfl⟩] at hstruct
      cases hstruct
    · obtain ⟨below, rfl, heach⟩ := inside_of_listUnder? hread hreadable hfits
      have hvariants : ∀ a ∈ variants,
          a.fields ≠ some .null ∧ a.toJson.PlainWithin below := by
        intro a ha
        obtain ⟨item, hitem, hdepth, hitemFits⟩ := heach a ha
        exact regular_of_alternative hitem hdepth hitemFits (hfloat a ha)
      exact ⟨fun a ha => (hvariants a ha).1, plainWithin_definition kind "variants"
        (List.forall_mem_map.mpr fun a ha => (hvariants a ha).2)⟩
  · cases h

end Bodies

/-! ## 5. Whole descriptions -/

/-- All definitions of a description, declared or embedded. -/
def bodies (idl : Idl) : List Body :=
  idl.types.map (·.body) ++ idl.accounts.filterMap (·.body)

/-- How many brackets may be open inside a definition: three are open around it. -/
def bodyRoom : Nat := maxDepth - 3

/-- **A description that can be read**, by its definitions. -/
def IsRegular (idl : Idl) : Prop :=
  ∀ body ∈ idl.bodies, body.Regular ∧ body.toJson.PlainWithin bodyRoom

/-- No variant carries a double. -/
def HasNoFloat (idl : Idl) : Prop :=
  ∀ body ∈ idl.bodies, ∀ a ∈ body.variants, ∀ v ∈ a.fields, v.HasNoFloat

section Whole

variable {d : Document} {idl : Idl}

/-- Every definition was read from a part that was checked before. -/
theorem exists_part_of_body (h : ofDocument? d = some idl) {body : Body}
    (hbody : body ∈ idl.bodies) : ∃ part, Body.ofDocument? part = some body ∧
      part.readable bodyRoom = true ∧ (d.Fits → part.Fits) := by
  obtain ⟨_, _, _, accounts, types, _, hparts, -, -, -, haccounts, htypes, -⟩ := idl_eq_some.mp h
  rcases List.mem_append.mp hbody with hbody | hbody
  · obtain ⟨declaration, hmem, rfl⟩ := List.mem_map.mp hbody
    obtain ⟨list, item, rfl, hitem, hread⟩ := exists_item htypes hmem
    obtain ⟨_, type, htype, -, hreadable, hbody⟩ := declaration_eq_some.mp hread
    refine ⟨type, hbody, hreadable, fun hfits => ?_⟩
    have hlist : Inside list d := inside_of_parts? hparts (by simp)
    exact (inside_of_parts? htype (by simp)).fits (hitem.fits (hlist.fits hfits))
  · obtain ⟨account, hmem, hsome⟩ := List.mem_filterMap.mp hbody
    obtain ⟨list, item, rfl, hitem, hread⟩ := exists_item haccounts hmem
    obtain ⟨_, type, htype, -, hembedded⟩ := account_eq_some.mp hread
    rcases optional?_eq_some hembedded with hnone | ⟨part, _, rfl, -, hwhole, hfound⟩
    · rw [hnone] at hsome
      cases hsome
    · rw [hfound] at hsome
      cases hsome
      obtain ⟨hreadable, hbody⟩ := whole?_eq_some.mp hwhole
      refine ⟨part, hbody, hreadable, fun hfits => ?_⟩
      have hlist : Inside list d := inside_of_parts? hparts (by simp)
      exact (inside_of_parts? htype (by simp)).fits (hitem.fits (hlist.fits hfits))

/-- **Whatever is read without doubles can be read**, written in its canonical form. -/
theorem isRegular_of_parse? {text : String} (h : parse? text = some idl) (hfloat : idl.HasNoFloat) :
    idl.IsRegular := by
  obtain ⟨d, hd, hread⟩ := Option.bind_eq_some_iff.mp h
  intro body hbody
  obtain ⟨part, hpart, hreadable, hfits⟩ := exists_part_of_body hread hbody
  exact regular_of_body hpart hreadable (hfits (fits_of_parse? hd)) (hfloat body hbody)

end Whole

end Idl

end LedgerScan
