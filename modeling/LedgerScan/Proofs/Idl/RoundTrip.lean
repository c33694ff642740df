import LedgerScan.Proofs.Idl.Regular
import Mathlib

/-!
# Descriptions survive writing

What shows the canonical form of a type, a definition or a whole description is read as that, in
every order of the members and with the forms tried in their fixed order
(`ofDocument?_of_shows`): a canonical form of a type is a text or an object with one name, and
each name belongs to one form only. So a description that was read from a text in any spelling is
read again from its canonical text (`parse?_written`), if no variant carries a double.
-/

namespace LedgerScan.Idl

open Document

variable {d part : Document} {members : List (Option String × Document)} {names : List String}
  {name kind : String} {depth : Nat}

/-! ## 1. Type expressions -/

theorem memberUnder?_singleton :
    memberUnder? names [(some name, part)] = if names.contains name then some part else none := by
  rw [memberUnder?_cons]
  rfl

theorem Reference.ofDocument?_of_shows {target : Reference} (h : d.Shows target.toJson) :
    Reference.ofDocument? d = some target := by
  cases target with
  | named name =>
    obtain ⟨part, rfl, hpart⟩ := exists_single h
    rw [eq_toDocument hpart.2 rfl, Reference.ofDocument?, memberUnder?_singleton]
    simp [text?, Json.toDocument]
  | plain name =>
    rw [eq_toDocument h.2 rfl]
    rfl

/-- The items of an array are read again, lengths as lengths. -/
theorem Extent.ofDocuments?_of_shows {extents : List Extent} {items : List Document}
    (types : ∀ t, Extent.nested t ∈ extents →
      ∀ {d : Document}, d.Shows t.toJson → TypeExpr.ofDocument? d = some t)
    (sizes : ∀ n, Extent.size n ∈ extents → n ≤ 0xFFFFFFFF)
    (h : List.Forall₂ Shows items (extents.map Extent.toJson)) :
    Extent.ofDocuments? items = some extents := by
  induction extents generalizing items with
  | nil =>
    cases h
    rfl
  | cons extent extents ih =>
    cases h with
    | @cons item _ items _ hitem hitems =>
      have hrest := ih (fun t ht => types t (List.mem_cons_of_mem _ ht))
        (fun n hn => sizes n (List.mem_cons_of_mem _ hn)) hitems
      rw [Extent.ofDocuments?, hrest]
      cases extent with
      | nested t =>
        rw [Extent.toJson] at hitem
        rw [types t List.mem_cons_self hitem]
        rfl
      | size n =>
        rw [Extent.toJson] at hitem
        have hsize := sizes n List.mem_cons_self
        rw [eq_toDocument hitem.2 rfl]
        have hnat : natUpTo? 0xFFFFFFFF (Json.nat n).toDocument = some n := by
          simp [natUpTo?, Json.nat, Json.toDocument]
          omega
        rw [hnat]
        rfl

/-- **What shows the canonical form of a type is read as that type.** -/
theorem TypeExpr.ofDocument?_of_shows {t : TypeExpr} (h : t.Regular depth) :
    ∀ {d : Document}, d.Shows t.toJson → TypeExpr.ofDocument? d = some t := by
  induction h with
  | simple depth name =>
    intro d hd
    rw [toJson] at hd
    rw [eq_toDocument hd.2 rfl]
    rfl
  | @array depth extents _ sizes ih =>
    intro d hd
    rw [toJson, toJsons_eq] at hd
    obtain ⟨part, rfl, hpart⟩ := exists_single hd
    obtain ⟨items, rfl, hitems⟩ := hpart.list
    have hextents := Extent.ofDocuments?_of_shows ih sizes hitems
    rw [TypeExpr.ofDocument?, listUnder?_eq, memberUnder?_singleton]
    simp [Extent.listOfDocument?, hextents]
  | option _ ih =>
    intro d hd
    rw [toJson] at hd
    obtain ⟨part, rfl, hpart⟩ := exists_single hd
    rw [TypeExpr.ofDocument?, listUnder?_eq, under?_eq, memberUnder?_singleton,
      memberUnder?_singleton]
    simp [ih hpart]
  | vec _ ih =>
    intro d hd
    rw [toJson] at hd
    obtain ⟨part, rfl, hpart⟩ := exists_single hd
    simp only [TypeExpr.ofDocument?, listUnder?_eq, under?_eq, memberUnder?_singleton]
    simp [ih hpart]
  | @map depth key value _ _ ihKey ihValue =>
    intro d hd
    rw [toJson] at hd
    obtain ⟨part, rfl, hpart⟩ := exists_single hd
    obtain ⟨items, rfl, hitems⟩ := hpart.list
    cases hitems with
    | cons hkey hrest =>
      cases hrest with
      | cons hvalue hnil =>
        cases hnil
        simp only [TypeExpr.ofDocument?, listUnder?_eq, under?_eq, pairUnder?_eq,
          memberUnder?_singleton]
        simp [TypeExpr.pairOfDocument?, ihKey hkey, ihValue hvalue]
  | named depth name | plain depth name =>
    intro d hd
    rw [toJson] at hd
    obtain ⟨part, rfl, hpart⟩ := exists_single hd
    simp only [TypeExpr.ofDocument?, listUnder?_eq, under?_eq, pairUnder?_eq,
      memberUnder?_singleton]
    simp [Reference.ofDocument?_of_shows hpart]

/-! ## 2. Fields and variants -/

theorem optional?_of_ne_null {α : Type} {read : Document → Option α} {found : α} (h : d ≠ .null)
    (hread : read d = some found) : optional? read (some d) = some (some found) := by
  unfold optional?
  split
  · rename_i hsome
    cases hsome
  · rename_i hsome
    exact absurd (Option.some.inj hsome) h
  · rename_i hsome
    cases hsome
    rw [hread]
    rfl

theorem ne_null_of_shows {v : Json} (h : d.Shows v) (hv : v ≠ .null) : d ≠ .null := by
  rintro rfl
  exact hv (Option.some.inj h.2).symm

theorem Member.ofDocument?_of_shows {m : Member} (hm : m.type.Regular depth)
    (h : d.Shows m.toJson) : Member.ofDocument? d = some m := by
  obtain ⟨parts, hparts, hshows⟩ := exists_parts h (show ["name", "type"].Nodup by decide)
  match parts, hparts, hshows with
  | [name, type], hparts, .cons hname (.cons htype .nil) =>
    cases eq_toDocument hname.2 rfl
    exact member_eq_some.mpr ⟨type, hparts, TypeExpr.ofDocument?_of_shows hm htype⟩

/-- The canonical form of a type is not read as a field: it has neither a name nor a type. -/
theorem Member.ofDocument?_of_type {t : TypeExpr} (h : d.Shows t.toJson) :
    Member.ofDocument? d = none := by
  cases t with
  | simple name =>
    rw [TypeExpr.toJson] at h
    rw [eq_toDocument h.2 rfl]
    rfl
  | array _ | option _ | vec _ | map _ _ | defined _ =>
    rw [TypeExpr.toJson] at h
    obtain ⟨part, rfl, -⟩ := exists_single h
    rfl

theorem Alternative.ofDocument?_of_shows {a : Alternative} (ha : a.fields ≠ some .null)
    (h : d.Shows a.toJson) : Alternative.ofDocument? d = some a := by
  obtain ⟨parts, hparts, hshows⟩ := exists_parts h (show ["name", "fields"].Nodup by decide)
  match parts, hparts, hshows with
  | [name, fields], hparts, .cons hname (.cons hfields .nil) =>
    cases eq_toDocument hname.2 rfl
    refine alternative_eq_some.mpr ⟨some fields, hparts, ?_⟩
    cases hcarried : a.fields with
    | none =>
      rw [hcarried] at hfields
      cases eq_toDocument hfields.2 rfl
      rfl
    | some v =>
      rw [hcarried] at hfields ha
      refine optional?_of_ne_null (ne_null_of_shows hfields fun hv => ha (hv ▸ rfl)) hfields.2

/-! ## 3. Definitions -/

section Lists

variable {values : List Json}

/-- The names of a canonical definition. -/
theorem distinct_of_ne (hname : name ≠ "kind") :
    (([("kind", .text kind), (name, .list values)] : List (String × Json)).map Prod.fst).Nodup := by
  show ["kind", name].Nodup
  exact List.nodup_cons.mpr
    ⟨fun h => hname (List.mem_singleton.mp h).symm, List.nodup_singleton name⟩

/-- The list of a definition is found under its name. -/
theorem parts?_of_shows (hname : name ≠ "kind")
    (h : d.Shows (.ofPairs [("kind", .text kind), (name, .list values)])) :
    ∃ members items, d = .object members ∧
      parts? ["kind", name] (.object members)
        = some [some (.text (some kind)), some (.list items)] ∧
      List.Forall₂ Shows items values := by
  obtain ⟨members, rfl, -⟩ := h.object (distinct_of_ne hname)
  obtain ⟨parts, hparts, hshows⟩ := exists_parts h (distinct_of_ne hname)
  match parts, hparts, hshows with
  | [first, second], hparts, .cons hfirst (.cons hsecond .nil) =>
    cases eq_toDocument hfirst.2 rfl
    obtain ⟨items, rfl, hitems⟩ := hsecond.list
    exact ⟨members, items, rfl, hparts, hitems⟩

/-- There is no list under another name. -/
theorem listUnder?_eq_none {α : Type} {read : Document → Option α} {other : String}
    (hname : name ≠ "kind") (hkind : other ≠ "kind") (hother : other ≠ name)
    (h : (Document.object members).Shows (.ofPairs [("kind", .text kind), (name, .list values)])) :
    Body.listUnder? other read members = none := by
  obtain ⟨_, hobject, hmembers⟩ := h.object (distinct_of_ne hname)
  cases hobject
  have habsent : memberUnder? [other] members = none := by
    refine hmembers.absent ?_
    show other ∉ ["kind", name]
    simp [hkind, hother]
  cases hread : Body.listUnder? other read members with
  | none => rfl
  | some found =>
    obtain ⟨items, hparts, -⟩ := listUnder?_eq_some.mp hread
    rw [hmembers.parts?, List.map_cons, List.map_cons, List.map_nil, habsent] at hparts
    simp at hparts

/-- What is written item by item is read item by item. -/
theorem mapM_of_shows {α : Type} {write : α → Json} {read : Document → Option α} {xs : List α}
    {items : List Document} (h : List.Forall₂ Shows items (xs.map write))
    (hread : ∀ x ∈ xs, ∀ {item : Document}, item.Shows (write x) → read item = some x) :
    items.mapM read = some xs := by
  rw [Fallible.mapM_eq_some_iff]
  induction xs generalizing items with
  | nil =>
    cases h
    exact .nil
  | cons x xs ih =>
    cases h with
    | cons hitem hitems =>
      rw [List.forall_mem_cons] at hread
      exact .cons (hread.1 hitem) (ih hitems hread.2)

end Lists

/-- **What shows the canonical form of a definition is read as that definition.** -/
theorem Body.ofDocument?_of_shows {body : Body} (hbody : body.Regular) (h : d.Shows body.toJson) :
    Body.ofDocument? d = some body := by
  cases body with
  | struct kind fields =>
    obtain ⟨members, items, rfl, hparts, hitems⟩ := parts?_of_shows (by decide) h
    have hfields : items.mapM Member.ofDocument? = some fields :=
      mapM_of_shows hitems fun m hm _ hitem =>
        let ⟨_, hregular⟩ := hbody m hm
        Member.ofDocument?_of_shows hregular hitem
    rw [Body.ofDocument?, listUnder?_eq_some.mpr ⟨items, hparts, hfields⟩]
    rfl
  | tuple kind types =>
    obtain ⟨members, items, rfl, hparts, hitems⟩ := parts?_of_shows (by decide) h
    obtain ⟨hne, hregular⟩ := hbody
    have htypes : items.mapM TypeExpr.ofDocument? = some types :=
      mapM_of_shows hitems fun t ht _ hitem =>
        let ⟨_, hregular⟩ := hregular t ht
        TypeExpr.ofDocument?_of_shows hregular hitem
    -- the first type is no field, so the list is not one of fields with names
    have hnone : Body.listUnder? "fields" Member.ofDocument? members = none := by
      cases hread : Body.listUnder? "fields" Member.ofDocument? members with
      | none => rfl
      | some found =>
        obtain ⟨_, fields⟩ := found
        obtain ⟨_, hsame, hmembers⟩ := listUnder?_eq_some.mp hread
        cases hparts.symm.trans hsame
        match types, hne, hitems with
        | t :: _, _, .cons hfirst _ =>
          cases Fallible.mapM_eq_some_iff.mp hmembers with
          | cons hmember _ =>
            rw [Member.ofDocument?_of_type hfirst] at hmember
            cases hmember
    rw [Body.ofDocument?, hnone, listUnder?_eq_some.mpr ⟨items, hparts, htypes⟩]
    rfl
  | enum kind variants =>
    obtain ⟨members, items, rfl, hparts, hitems⟩ := parts?_of_shows (by decide) h
    have hvariants : items.mapM Alternative.ofDocument? = some variants :=
      mapM_of_shows hitems fun a ha _ hitem => Alternative.ofDocument?_of_shows (hbody a ha) hitem
    rw [Body.ofDocument?, listUnder?_eq_none (by decide) (by decide) (by decide) h,
      listUnder?_eq_none (by decide) (by decide) (by decide) h,
      listUnder?_eq_some.mpr ⟨items, hparts, hvariants⟩]
    rfl

/-! ## 4. Whole descriptions -/

theorem optional?_textOrNull {s : Option String} (h : part.Shows (textOrNull s)) :
    optional? text? (some part) = some s := by
  cases s with
  | none =>
    cases eq_toDocument h.2 rfl
    rfl
  | some s =>
    cases eq_toDocument h.2 rfl
    rfl

theorem Serialization.ofWord?_word (s : Serialization) :
    Serialization.ofWord? s.word = some s := by
  cases s <;> rfl

theorem optional?_serialization {room : Nat} {s : Option Serialization}
    (h : part.Shows (textOrNull (s.map Serialization.word))) :
    optional? (Serialization.ofDocument? room) (some part) = some s := by
  cases s with
  | none =>
    cases eq_toDocument h.2 rfl
    rfl
  | some s =>
    cases eq_toDocument h.2 rfl
    exact optional?_of_ne_null nofun (Serialization.ofWord?_word s)

/-- The bytes of a discriminator are read again. -/
theorem discriminatorOfDocument?_of_shows {bytes : List UInt8}
    (h : part.Shows (.list (bytes.map fun b => .nat b.toNat))) :
    discriminatorOfDocument? part = some bytes := by
  obtain ⟨items, rfl, hitems⟩ := h.list
  show items.mapM _ = _
  refine mapM_of_shows hitems fun b _ item hitem => ?_
  have hb := b.toNat_lt
  rw [eq_toDocument hitem.2 rfl]
  have hnat : natUpTo? 255 (Json.nat b.toNat).toDocument = some b.toNat := by
    simp [natUpTo?, Json.nat, Json.toDocument]
    omega
  rw [hnat, Option.map_some, UInt8.ofNat_toNat]

theorem ne_null_of_body (body : Body) : body.toJson ≠ .null := by
  cases body <;> nofun

theorem Declaration.ofDocument?_of_shows {room : Nat} {declaration : Declaration}
    (hbody : declaration.body.Regular)
    (hroom : declaration.body.toJson.toDocument.readable room = true)
    (h : d.Shows declaration.toJson) : Declaration.ofDocument? room d = some declaration := by
  obtain ⟨parts, hparts, hshows⟩ :=
    exists_parts h (show ["name", "serialization", "type"].Nodup by decide)
  match parts, hparts, hshows with
  | [name, serialization, type], hparts, .cons hname (.cons hserialization (.cons htype .nil)) =>
    cases eq_toDocument hname.2 rfl
    exact declaration_eq_some.mpr ⟨some serialization, type, hparts,
      optional?_serialization hserialization, htype.readable hroom,
      Body.ofDocument?_of_shows hbody htype⟩

theorem Account.ofDocument?_of_shows {room : Nat} {account : Account} (hpos : 0 < room)
    (hbody : ∀ body ∈ account.body,
      body.Regular ∧ body.toJson.toDocument.readable room = true)
    (h : d.Shows account.toJson) : Account.ofDocument? room d = some account := by
  obtain ⟨parts, hparts, hshows⟩ :=
    exists_parts h (show ["name", "discriminator", "type"].Nodup by decide)
  match parts, hparts, hshows with
  | [name, discriminator, type], hparts, .cons hname (.cons hdiscriminator (.cons htype .nil)) =>
    cases eq_toDocument hname.2 rfl
    have hbytes : inside? room (fun _ => discriminatorOfDocument?) discriminator
        = some account.discriminator :=
      inside?_eq_some.mpr ⟨hpos, discriminatorOfDocument?_of_shows hdiscriminator⟩
    refine account_eq_some.mpr ⟨some discriminator, some type, hparts, hbytes, ?_⟩
    cases hembedded : account.body with
    | none =>
      rw [hembedded] at htype
      cases eq_toDocument htype.2 rfl
      rfl
    | some body =>
      rw [hembedded] at htype
      obtain ⟨hregular, hreadable⟩ := hbody body hembedded
      exact optional?_of_ne_null (ne_null_of_shows htype (ne_null_of_body body))
        (whole?_eq_some.mpr ⟨htype.readable hreadable, Body.ofDocument?_of_shows hregular htype⟩)

theorem Metadata.ofDocument?_of_shows {m : Metadata} (h : d.Shows m.toJson) :
    Metadata.ofDocument? d = some m := by
  obtain ⟨parts, hparts, hshows⟩ :=
    exists_parts h (show ["name", "version", "address"].Nodup by decide)
  match parts, hparts, hshows with
  | [_, _, _], hparts, .cons hname (.cons hversion (.cons haddress .nil)) =>
    exact metadata_of_parts hparts (optional?_textOrNull hname) (optional?_textOrNull hversion)
      (optional?_textOrNull haddress)

/-- A list of objects is read again item by item. -/
theorem listOf_of_shows {α : Type} {write : α → Json} {read : Nat → Document → Option α}
    {room : Nat} {xs : List α} (h : part.Shows (.list (xs.map write)))
    (hread : ∀ x ∈ xs, ∀ {item : Document}, item.Shows (write x) → read room item = some x) :
    inside? (room + 2) (listOf? read) part = some xs := by
  obtain ⟨items, rfl, hitems⟩ := h.list
  exact listOf_eq_some.mpr ⟨items, rfl, Fallible.mapM_eq_some_iff.mp (mapM_of_shows hitems hread)⟩

theorem mem_bodies_of_type {idl : Idl} {declaration : Declaration}
    (h : declaration ∈ idl.types) : declaration.body ∈ idl.bodies :=
  List.mem_append_left _ (List.mem_map_of_mem h)

theorem mem_bodies_of_account {idl : Idl} {account : Account} {body : Body}
    (h : account ∈ idl.accounts) (hbody : account.body = some body) : body ∈ idl.bodies :=
  List.mem_append_right _ (List.mem_filterMap.mpr ⟨account, h, hbody⟩)

/-- **What shows the canonical form of a description is read as that description.** -/
theorem ofDocument?_of_shows {idl : Idl} (hidl : idl.IsRegular) (h : d.Shows idl.toJson) :
    ofDocument? d = some idl := by
  obtain ⟨parts, hparts, hshows⟩ := exists_parts h
    (show ["version", "name", "address", "accounts", "types", "metadata"].Nodup by decide)
  match parts, hparts, hshows with
  | [version, name, address, accounts, types, metadata], hparts,
    .cons hversion (.cons hname (.cons haddress (.cons haccounts (.cons htypes
      (.cons hmetadata .nil))))) =>
    have haccountsRead :
        inside? (bodyRoom + 2) (listOf? Account.ofDocument?) accounts = some idl.accounts := by
      refine listOf_of_shows haccounts fun account haccount _ hitem =>
        Account.ofDocument?_of_shows (by decide) (fun body hbody => ?_) hitem
      obtain ⟨hregular, hplain⟩ := hidl body (mem_bodies_of_account haccount hbody)
      exact ⟨hregular, hplain.2⟩
    have htypesRead :
        inside? (bodyRoom + 2) (listOf? Declaration.ofDocument?) types = some idl.types := by
      refine listOf_of_shows htypes fun declaration hdeclaration _ hitem => ?_
      obtain ⟨hregular, hplain⟩ := hidl declaration.body (mem_bodies_of_type hdeclaration)
      exact Declaration.ofDocument?_of_shows hregular hplain.2 hitem
    refine idl_eq_some.mpr ⟨some version, some name, some address, some accounts, some types,
      some metadata, hparts, optional?_textOrNull hversion, optional?_textOrNull hname,
      optional?_textOrNull haddress, haccountsRead, htypesRead, ?_⟩
    cases hm : idl.metadata with
    | none =>
      rw [hm] at hmetadata
      cases eq_toDocument hmetadata.2 rfl
      rfl
    | some m =>
      rw [hm] at hmetadata
      exact optional?_of_ne_null (ne_null_of_shows hmetadata nofun)
        (inside?_eq_some.mpr ⟨by decide, Metadata.ofDocument?_of_shows hmetadata⟩)

/-! ## 5. The text of a description -/

theorem plain_textOrNull (s : Option String) : (textOrNull s).Plain := by
  cases s with
  | none => exact .null
  | some s => exact .text s

theorem plain_account {account : Account} (h : ∀ body ∈ account.body, body.toJson.Plain) :
    account.toJson.Plain := by
  have hbytes : (Json.list (account.discriminator.map fun b => .nat b.toNat)).Plain :=
    .list (List.forall_mem_map.mpr fun b _ => Json.plain_nat (by have := b.toNat_lt; omega))
  have hbody : ((account.body.map Body.toJson).getD .null).Plain := by
    cases hembedded : account.body with
    | none => exact .null
    | some body => exact h body hembedded
  apply Json.plain_ofPairs
  simpa using ⟨.text account.name, hbytes, hbody⟩

theorem plain_declaration {declaration : Declaration} (h : declaration.body.toJson.Plain) :
    declaration.toJson.Plain := by
  apply Json.plain_ofPairs
  simpa using ⟨.text declaration.name, plain_textOrNull _, h⟩

theorem plain_metadata (m : Metadata) : m.toJson.Plain := by
  apply Json.plain_ofPairs
  simpa using ⟨plain_textOrNull _, plain_textOrNull _, plain_textOrNull _⟩

/-- The canonical form of a description without doubles is plain. -/
theorem IsRegular.plain {idl : Idl} (h : idl.IsRegular) : idl.toJson.Plain := by
  have haccounts : (Json.list (idl.accounts.map Account.toJson)).Plain :=
    .list (List.forall_mem_map.mpr fun account haccount => plain_account fun body hbody =>
      (h body (mem_bodies_of_account haccount hbody)).2.1)
  have htypes : (Json.list (idl.types.map Declaration.toJson)).Plain :=
    .list (List.forall_mem_map.mpr fun declaration hdeclaration =>
      plain_declaration (h declaration.body (mem_bodies_of_type hdeclaration)).2.1)
  have hmetadata : ((idl.metadata.map Metadata.toJson).getD .null).Plain := by
    cases idl.metadata with
    | none => exact .null
    | some m => exact plain_metadata m
  apply Json.plain_ofPairs
  simpa using ⟨plain_textOrNull _, plain_textOrNull _, plain_textOrNull _, haccounts, htypes,
    hmetadata⟩

/-- **A description survives writing and reading.** Read from a text in any spelling, and without
    doubles in what its variants carry, it is read again from its canonical text; and so from every
    text that shows its canonical form, whatever the order of the members and the blanks. -/
theorem parse?_written {text : String} {idl : Idl} (read : parse? text = some idl)
    (noFloat : idl.HasNoFloat) :
    parse? idl.render = some idl ∧
      ∀ written document, Document.parse? written = some document →
        document.Shows idl.toJson → parse? written = some idl := by
  have hregular := isRegular_of_parse? read noFloat
  have hwritten : ∀ written document, Document.parse? written = some document →
      document.Shows idl.toJson → parse? written = some idl := by
    intro written document hdocument hshows
    rw [parse?, hdocument]
    exact ofDocument?_of_shows hregular hshows
  exact ⟨hwritten _ _ (Document.parse?_render hregular.plain) (shows_of_plain hregular.plain),
    hwritten⟩

/-- A text in several spellings: lists for objects, another word for a map, a tuple, a variant. -/
def mixedText : String :=
  "\x7b\"types\":[[\"A\",null,\x7b\"fields\":[\"u8\",\x7b\"bTreeMap\":[\"u8\",[\"u16\"]]\x7d],"
    ++ "\"kind\":\"\"\x7d],[\"B\",null,\x7b\"kind\":\"\",\"variants\":[[\"C\",[1]]]\x7d]]\x7d"

/-- The description that it is. -/
def mixed : Idl where
  version := none
  name := none
  address := none
  accounts := []
  types :=
    [⟨"A", none, .tuple "" [.simple "u8", .map (.simple "u8") (.option (.simple "u16"))]⟩,
      ⟨"B", none, .enum "" [⟨"C", some (.list [.nat 1])⟩]⟩]
  metadata := none

set_option maxRecDepth 4000 in
/-- It is read again from its canonical text. -/
theorem parse?_mixed : parse? mixedText = some mixed ∧ mixed.HasNoFloat ∧
    parse? mixed.render = some mixed := by
  have read : parse? mixedText = some mixed := by cbv
  have noFloat : mixed.HasNoFloat := by
    intro body hbody a ha v hv n hn
    simp only [bodies, mixed, List.map_cons, List.map_nil, List.filterMap_nil, List.append_nil,
      List.mem_cons, List.not_mem_nil, or_false] at hbody
    rcases hbody with rfl | rfl
    · cases ha
    · cases List.mem_singleton.mp ha
      cases hv
      exact ⟨1, List.mem_singleton.mp hn⟩
  exact ⟨read, noFloat, (parse?_written read noFloat).1⟩

end LedgerScan.Idl
