import LedgerScan.Proofs.Fallible
import LedgerScan.Proofs.Idl.Parts

/-!
# What each reader asks for

One law for each reader of a description: it gives a result exactly when the parts of the document
are those that the result needs, each read by its own reader. Later proofs go through these laws in
both directions and open no reader.
-/

namespace LedgerScan.Idl

open Document

variable {part : Document} {members : List (Option String × Document)} {names : List String}
  {name kind : String}

/-! ## 1. Single parts -/

theorem text?_eq_some {s : String} : text? part = some s ↔ part = .text (some s) := by
  constructor
  · intro h
    unfold text? at h
    split at h
    · rw [h]
    · cases h
  · rintro rfl
    rfl

theorem items?_eq_some {items : List Document} : items? part = some items ↔ part = .list items := by
  constructor
  · intro h
    unfold items? at h
    split at h
    · rw [Option.some.inj h]
    · cases h
  · rintro rfl
    rfl

theorem optional?_eq_some {α : Type} {read : Document → Option α} {part : Option Document}
    {found : Option α} (h : optional? read part = some found) :
    found = none ∨ ∃ d a, part = some d ∧ d ≠ .null ∧ read d = some a ∧ found = some a := by
  unfold optional? at h
  split at h
  · cases h
    exact .inl rfl
  · cases h
    exact .inl rfl
  · rename_i d hnull
    obtain ⟨a, ha, rfl⟩ := Option.map_eq_some_iff.mp h
    exact .inr ⟨d, a, rfl, hnull, ha, rfl⟩

theorem inside?_eq_some {α : Type} {read : Nat → Document → Option α} {room : Nat} {found : α} :
    inside? room read part = some found ↔ 0 < room ∧ read (room - 1) part = some found := by
  unfold inside?
  split
  · rename_i hroom
    exact ⟨fun h => ⟨hroom, h⟩, And.right⟩
  · rename_i hroom
    exact ⟨nofun, fun h => absurd h.1 hroom⟩

theorem whole?_eq_some {α : Type} {read : Document → Option α} {room : Nat} {found : α} :
    whole? room read part = some found ↔ part.readable room = true ∧ read part = some found := by
  unfold whole?
  split
  · rename_i hreadable
    exact ⟨fun h => ⟨hreadable, h⟩, And.right⟩
  · rename_i hreadable
    exact ⟨nofun, fun h => absurd h.1 hreadable⟩

/-! ## 2. The forms of a type expression -/

theorem under?_eq : TypeExpr.under? names members
    = (memberUnder? names members).bind TypeExpr.ofDocument? := by
  induction members with
  | nil => rfl
  | cons member members ih =>
    obtain ⟨key, part⟩ := member
    rw [TypeExpr.under?, memberUnder?_cons, ih]
    split
    · split <;> rfl
    · rfl

theorem pairUnder?_eq : TypeExpr.pairUnder? members
    = (memberUnder? ["hashMap", "bTreeMap"] members).bind TypeExpr.pairOfDocument? := by
  induction members with
  | nil => rfl
  | cons member members ih =>
    obtain ⟨key, part⟩ := member
    rw [TypeExpr.pairUnder?, memberUnder?_cons, ih]
    split
    · split <;> rfl
    · rfl

theorem listUnder?_eq : Extent.listUnder? members
    = (memberUnder? ["array"] members).bind Extent.listOfDocument? := by
  induction members with
  | nil => rfl
  | cons member members ih =>
    obtain ⟨key, part⟩ := member
    rw [Extent.listUnder?, memberUnder?_cons, ih]
    split
    · split <;> rfl
    · rfl

/-! ## 3. Structures -/

/-- A field is read from its name and its type. -/
theorem member_eq_some {m : Member} : Member.ofDocument? part = some m ↔ ∃ type,
    parts? ["name", "type"] part = some [some (.text (some m.name)), some type] ∧
      TypeExpr.ofDocument? type = some m.type := by
  unfold Member.ofDocument?
  constructor
  · intro h
    obtain ⟨parts, hparts, h⟩ := Option.bind_eq_some_iff.mp h
    split at h
    · obtain ⟨name, hname, h⟩ := Option.bind_eq_some_iff.mp h
      obtain ⟨t, ht, h⟩ := Option.bind_eq_some_iff.mp h
      cases h
      cases text?_eq_some.mp hname
      exact ⟨_, hparts, ht⟩
    · cases h
  · rintro ⟨type, hparts, htype⟩
    rw [hparts]
    show (TypeExpr.ofDocument? type >>= _) = _
    rw [htype]
    rfl

/-- A variant is read from its name and what it carries. -/
theorem alternative_eq_some {a : Alternative} : Alternative.ofDocument? part = some a ↔ ∃ fields,
    parts? ["name", "fields"] part = some [some (.text (some a.name)), fields] ∧
      optional? Document.value? fields = some a.fields := by
  unfold Alternative.ofDocument?
  constructor
  · intro h
    obtain ⟨parts, hparts, h⟩ := Option.bind_eq_some_iff.mp h
    split at h
    · obtain ⟨name, hname, h⟩ := Option.bind_eq_some_iff.mp h
      obtain ⟨found, hfound, h⟩ := Option.bind_eq_some_iff.mp h
      cases h
      cases text?_eq_some.mp hname
      exact ⟨_, hparts, hfound⟩
    · cases h
  · rintro ⟨fields, hparts, hfields⟩
    rw [hparts]
    show (optional? Document.value? fields >>= _) = _
    rw [hfields]
    rfl

/-- A definition is read from its kind and one list. -/
theorem listUnder?_eq_some {α : Type} {read : Document → Option α} {xs : List α} :
    Body.listUnder? name read members = some (kind, xs) ↔ ∃ items,
      parts? ["kind", name] (.object members)
          = some [some (.text (some kind)), some (.list items)] ∧
        items.mapM read = some xs := by
  unfold Body.listUnder?
  constructor
  · intro h
    obtain ⟨parts, hparts, h⟩ := Option.bind_eq_some_iff.mp h
    split at h
    · obtain ⟨kind, hkind, h⟩ := Option.bind_eq_some_iff.mp h
      obtain ⟨items, hitems, h⟩ := Option.bind_eq_some_iff.mp h
      obtain ⟨xs, hxs, h⟩ := Option.bind_eq_some_iff.mp h
      cases h
      cases text?_eq_some.mp hkind
      cases items?_eq_some.mp hitems
      exact ⟨items, hparts, hxs⟩
    · cases h
  · rintro ⟨items, hparts, hxs⟩
    rw [hparts]
    show (items.mapM read >>= _) = _
    rw [hxs]
    rfl

/-- A declaration is read from its name, its serialization and its type, which is checked first. -/
theorem declaration_eq_some {room : Nat} {d : Declaration} :
    Declaration.ofDocument? room part = some d ↔ ∃ serialization type,
      parts? ["name", "serialization", "type"] part
          = some [some (.text (some d.name)), serialization, some type] ∧
        optional? (Serialization.ofDocument? room) serialization = some d.serialization ∧
        type.readable room = true ∧ Body.ofDocument? type = some d.body := by
  unfold Declaration.ofDocument?
  constructor
  · intro h
    obtain ⟨parts, hparts, h⟩ := Option.bind_eq_some_iff.mp h
    split at h
    · obtain ⟨name, hname, h⟩ := Option.bind_eq_some_iff.mp h
      obtain ⟨found, hfound, h⟩ := Option.bind_eq_some_iff.mp h
      obtain ⟨body, hbody, h⟩ := Option.bind_eq_some_iff.mp h
      cases h
      cases text?_eq_some.mp hname
      exact ⟨_, _, hparts, hfound, whole?_eq_some.mp hbody⟩
    · cases h
  · rintro ⟨serialization, type, hparts, hfound, hbody⟩
    rw [hparts]
    show (optional? (Serialization.ofDocument? room) serialization >>= _) = _
    rw [hfound]
    show (whole? room Body.ofDocument? type >>= _) = _
    rw [whole?_eq_some.mpr hbody]
    rfl

/-- An account is read from its name, its discriminator and its type. -/
theorem account_eq_some {room : Nat} {a : Account} :
    Account.ofDocument? room part = some a ↔ ∃ discriminator type,
      parts? ["name", "discriminator", "type"] part
          = some [some (.text (some a.name)), discriminator, type] ∧
        listOrEmpty? (inside? room fun _ => discriminatorOfDocument?) discriminator
          = some a.discriminator ∧
        optional? (whole? room Body.ofDocument?) type = some a.body := by
  unfold Account.ofDocument?
  constructor
  · intro h
    obtain ⟨parts, hparts, h⟩ := Option.bind_eq_some_iff.mp h
    split at h
    · obtain ⟨name, hname, h⟩ := Option.bind_eq_some_iff.mp h
      obtain ⟨bytes, hbytes, h⟩ := Option.bind_eq_some_iff.mp h
      obtain ⟨body, hbody, h⟩ := Option.bind_eq_some_iff.mp h
      cases h
      cases text?_eq_some.mp hname
      exact ⟨_, _, hparts, hbytes, hbody⟩
    · cases h
  · rintro ⟨discriminator, type, hparts, hbytes, hbody⟩
    rw [hparts]
    show (listOrEmpty? _ discriminator >>= _) = _
    rw [hbytes]
    show (optional? _ type >>= _) = _
    rw [hbody]
    rfl

/-- What is said about the program is read from three texts that may be missing. -/
theorem metadata_of_parts {m : Metadata} {name version address : Option Document}
    (hparts : parts? ["name", "version", "address"] part = some [name, version, address])
    (hname : optional? text? name = some m.name)
    (hversion : optional? text? version = some m.version)
    (haddress : optional? text? address = some m.address) :
    Metadata.ofDocument? part = some m := by
  unfold Metadata.ofDocument?
  rw [hparts]
  show (optional? text? name >>= _) = _
  rw [hname]
  show (optional? text? version >>= _) = _
  rw [hversion]
  show (optional? text? address >>= _) = _
  rw [haddress]
  rfl

/-- A description is read from six parts, each of which may be missing. -/
theorem idl_eq_some {idl : Idl} : ofDocument? part = some idl ↔
    ∃ version name address accounts types metadata,
      parts? ["version", "name", "address", "accounts", "types", "metadata"] part
          = some [version, name, address, accounts, types, metadata] ∧
        optional? text? version = some idl.version ∧ optional? text? name = some idl.name ∧
        optional? text? address = some idl.address ∧
        listOrEmpty? (inside? 126 (listOf? Account.ofDocument?)) accounts = some idl.accounts ∧
        listOrEmpty? (inside? 126 (listOf? Declaration.ofDocument?)) types = some idl.types ∧
        optional? (inside? 126 fun _ => Metadata.ofDocument?) metadata = some idl.metadata := by
  unfold ofDocument?
  constructor
  · intro h
    obtain ⟨parts, hparts, h⟩ := Option.bind_eq_some_iff.mp h
    split at h
    · obtain ⟨version, hversion, h⟩ := Option.bind_eq_some_iff.mp h
      obtain ⟨name, hname, h⟩ := Option.bind_eq_some_iff.mp h
      obtain ⟨address, haddress, h⟩ := Option.bind_eq_some_iff.mp h
      obtain ⟨accounts, haccounts, h⟩ := Option.bind_eq_some_iff.mp h
      obtain ⟨types, htypes, h⟩ := Option.bind_eq_some_iff.mp h
      obtain ⟨metadata, hmetadata, h⟩ := Option.bind_eq_some_iff.mp h
      cases h
      exact ⟨_, _, _, _, _, _, hparts, hversion, hname, haddress, haccounts, htypes, hmetadata⟩
    · cases h
  · rintro ⟨version, name, address, accounts, types, metadata, hparts, hversion, hname, haddress,
      haccounts, htypes, hmetadata⟩
    rw [hparts]
    show (optional? text? version >>= _) = _
    rw [hversion]
    show (optional? text? name >>= _) = _
    rw [hname]
    show (optional? text? address >>= _) = _
    rw [haddress]
    show (listOrEmpty? (inside? 126 (listOf? Account.ofDocument?)) accounts >>= _) = _
    rw [haccounts]
    show (listOrEmpty? (inside? 126 (listOf? Declaration.ofDocument?)) types >>= _) = _
    rw [htypes]
    show (optional? (inside? 126 fun _ => Metadata.ofDocument?) metadata >>= _) = _
    rw [hmetadata]
    rfl

/-- The items of a list are read one by one, two brackets deeper than the list stands. -/
theorem listOf_eq_some {α : Type} {read : Nat → Document → Option α} {room : Nat} {xs : List α} :
    inside? (room + 2) (listOf? read) part = some xs ↔ ∃ items, part = .list items ∧
      List.Forall₂ (fun item x => read room item = some x) items xs := by
  have hitem : ∀ item x, inside? (room + 1) read item = some x ↔ read room item = some x :=
    fun item x => inside?_eq_some.trans (and_iff_right (Nat.succ_pos room))
  rw [inside?_eq_some]
  unfold listOf?
  constructor
  · rintro ⟨-, h⟩
    obtain ⟨items, hitems, h⟩ := Option.bind_eq_some_iff.mp h
    refine ⟨items, items?_eq_some.mp hitems, ?_⟩
    exact (Fallible.mapM_eq_some_iff.mp h).imp fun item x => (hitem item x).mp
  · rintro ⟨items, rfl, h⟩
    refine ⟨Nat.succ_pos _, Option.bind_eq_some_iff.mpr ⟨items, rfl, ?_⟩⟩
    exact Fallible.mapM_eq_some_iff.mpr (h.imp fun item x => (hitem item x).mpr)

theorem listOrEmpty?_eq_some {α : Type} {read : Document → Option (List α)} {xs : List α}
    {part : Option Document} (h : listOrEmpty? read part = some xs) :
    xs = [] ∨ ∃ d, part = some d ∧ read d = some xs := by
  unfold listOrEmpty? at h
  split at h
  · cases h
    exact .inl rfl
  · exact .inr ⟨_, rfl, h⟩

/-- Whatever is read in a list of objects was read from an item of it. -/
theorem exists_item {α : Type} {read : Nat → Document → Option α} {room : Nat} {xs : List α} {x : α}
    {part : Option Document} (h : listOrEmpty? (inside? (room + 2) (listOf? read)) part = some xs)
    (hx : x ∈ xs) : ∃ list item, part = some list ∧ Inside item list ∧ read room item = some x := by
  rcases listOrEmpty?_eq_some h with rfl | ⟨list, rfl, hlist⟩
  · cases hx
  · obtain ⟨items, rfl, hitems⟩ := listOf_eq_some.mp hlist
    obtain ⟨item, hitem, hread⟩ := exists_left hitems x hx
    exact ⟨_, item, rfl, .item hitem, hread⟩

end LedgerScan.Idl
