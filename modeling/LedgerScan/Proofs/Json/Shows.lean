import LedgerScan.Proofs.Fallible
import LedgerScan.Proofs.Json.RoundTrip
import Mathlib.Data.List.Nodup

/-!
# What documents show

A document shows a value if that is its value and no object in it repeats a key. It may still be
written in many ways: with the members of an object in any order, with blanks anywhere, with escapes
in its texts. What is inside it shows what is inside the value: the items of a list one by one
(`Shows.list`), the members of an object by name (`Shows.object`). A document that shows a value is
nested as deep as the value (`Shows.readable`), and a plain value is shown by its own document
(`shows_of_plain`).
-/

namespace LedgerScan

/-- Neither a list nor an object. -/
def Json.isScalar : Json → Bool
  | .null | .bool _ | .number _ | .text _ => true
  | .list _ | .object _ => false

namespace Document

open Fallible

/-! ## 1. Induction -/

/-- Documents by structural induction: for a list and for an object the claim may be assumed of
    everything directly inside. -/
@[elab_as_elim, induction_eliminator]
theorem induction {motive : Document → Prop} (null : motive .null) (bool : ∀ b, motive (.bool b))
    (number : ∀ n, motive (.number n)) (text : ∀ s, motive (.text s))
    (list : ∀ items, (∀ item ∈ items, motive item) → motive (.list items))
    (object : ∀ members, (∀ member ∈ members, motive member.2) → motive (.object members)) :
    ∀ document, motive document
  | .null => null
  | .bool b => bool b
  | .number n => number n
  | .text s => text s
  | .list items => list items fun item _ => induction null bool number text list object item
  | .object members =>
    object members fun member _ => induction null bool number text list object member.2
termination_by document => sizeOf document
decreasing_by
  · have hitem := List.sizeOf_lt_of_mem ‹_›
    simp only [Document.list.sizeOf_spec]
    omega
  · have hmember := List.sizeOf_lt_of_mem ‹_›
    obtain ⟨key, part⟩ := member
    simp only [Document.object.sizeOf_spec, Prod.mk.sizeOf_spec] at hmember ⊢
    omega

/-! ## 2. Lists and objects -/

variable {depth : Nat} {d : Document} {items : List Document}
  {members : List (Option String × Document)} {v : Json} {pairs : List (String × Json)}

theorem readable_list :
    (list items).readable depth = true ↔
      0 < depth ∧ ∀ item ∈ items, item.readable (depth - 1) = true := by
  have hitems : ∀ (n : Nat) (items : List Document),
      readableItems n items = true ↔ ∀ item ∈ items, item.readable n = true := by
    intro n items
    induction items with
    | nil => simp [readableItems]
    | cons item items ih => simp [readableItems, ih]
  rw [readable, Bool.and_eq_true, decide_eq_true_eq, hitems]

theorem readable_object :
    (object members).readable depth = true ↔ 0 < depth ∧
      ∀ member ∈ members, member.1.isSome ∧ member.2.readable (depth - 1) = true := by
  have hmembers : ∀ (n : Nat) (members : List (Option String × Document)),
      readableMembers n members = true ↔
        ∀ member ∈ members, member.1.isSome ∧ member.2.readable n = true := by
    intro n members
    induction members with
    | nil => simp [readableMembers]
    | cons member members ih =>
      obtain ⟨key, part⟩ := member
      simp [readableMembers, ih, and_assoc]
  rw [readable, Bool.and_eq_true, decide_eq_true_eq, hmembers]

theorem itemValues?_eq (items : List Document) : itemValues? items = items.mapM value? := by
  induction items with
  | nil => rfl
  | cons item items ih => rw [itemValues?, List.mapM_cons, ih]

/-- The key and the value of a member. -/
def memberValue? (member : Option String × Document) : Option (String × Json) := do
  return (← member.1, ← member.2.value?)

theorem memberValue?_eq_some {member : Option String × Document} {entry : String × Json} :
    memberValue? member = some entry ↔
      member.1 = some entry.1 ∧ member.2.value? = some entry.2 := by
  obtain ⟨key, part⟩ := member
  unfold memberValue?
  cases key <;> cases part.value? <;> simp [Prod.ext_iff]

theorem memberValues?_eq (members : List (Option String × Document)) :
    memberValues? members = members.mapM memberValue? := by
  induction members with
  | nil => rfl
  | cons member members ih =>
    obtain ⟨key, part⟩ := member
    rw [memberValues?, List.mapM_cons, ih, memberValue?]
    cases key <;> cases part.value? <;> rfl

/-- The value of a list is that of its items. -/
theorem value?_list : (list items).value? = some v ↔
    ∃ values, List.Forall₂ (fun item v => value? item = some v) items values ∧
      v = .list values := by
  rw [value?, itemValues?_eq, Option.map_eq_some_iff]
  simp only [mapM_eq_some_iff, eq_comm]

/-- The value of an object is that of its members. -/
theorem value?_object : (object members).value? = some v ↔
    ∃ pairs, List.Forall₂ (fun member entry => memberValue? member = some entry) members pairs ∧
      v = Json.ofPairs pairs := by
  rw [value?, memberValues?_eq, Option.map_eq_some_iff]
  simp only [mapM_eq_some_iff, eq_comm]

/-! ## 3. Documents without repeated keys -/

/-- No object repeats a key. -/
inductive Distinct : Document → Prop where
  | null : Distinct .null
  | bool (b : Bool) : Distinct (.bool b)
  | number (n : Option Number) : Distinct (.number n)
  | text (s : Option String) : Distinct (.text s)
  | list {items : List Document} (each : ∀ item ∈ items, item.Distinct) : Distinct (.list items)
  | object {members : List (Option String × Document)} (keys : (members.map Prod.fst).Nodup)
      (each : ∀ member ∈ members, member.2.Distinct) : Distinct (.object members)

theorem Distinct.of_list (h : (Document.list items).Distinct) : ∀ item ∈ items, item.Distinct := by
  cases h with | list each => exact each

theorem Distinct.nodup_keys (h : (Document.object members).Distinct) :
    (members.map Prod.fst).Nodup := by
  cases h with | object keys _ => exact keys

theorem Distinct.of_object (h : (Document.object members).Distinct) :
    ∀ member ∈ members, member.2.Distinct := by
  cases h with | object _ each => exact each

/-- **A document shows a value.** -/
def Shows (document : Document) (v : Json) : Prop :=
  document.Distinct ∧ document.value? = some v

/-- The members of an object show named values: no name is repeated, and each member shows the value
    under its name. -/
structure MembersShow (members : List (Option String × Document)) (pairs : List (String × Json)) :
    Prop where
  keys : (members.map Prod.fst).Nodup
  entry : ∀ member ∈ members, ∃ entry ∈ pairs, member.1 = some entry.1 ∧ member.2.Shows entry.2
  part : ∀ entry ∈ pairs, ∃ part, (some entry.1, part) ∈ members ∧ part.Shows entry.2

/-- What has a scalar for its value is the document of that scalar. -/
theorem eq_toDocument (hvalue : d.value? = some v) (scalar : v.isScalar = true) :
    d = v.toDocument := by
  match d, hvalue with
  | .null, h | .bool _, h | .number (some _), h | .text (some _), h =>
    cases h
    rfl
  | .list _, h =>
    obtain ⟨_, -, rfl⟩ := value?_list.mp h
    cases scalar
  | .object _, h =>
    obtain ⟨_, -, rfl⟩ := value?_object.mp h
    cases scalar

/-- **What shows a list is a list**, and its items show the items. -/
theorem Shows.list {values : List Json} (h : d.Shows (.list values)) :
    ∃ items, d = .list items ∧ List.Forall₂ Shows items values := by
  obtain ⟨hdistinct, hvalue⟩ := h
  match d, hvalue, hdistinct with
  | .number (some _), h, _ | .text (some _), h, _ => cases h
  | .object _, h, _ =>
    obtain ⟨_, _, hobject⟩ := value?_object.mp h
    cases hobject
  | .list items, h, hdistinct =>
    obtain ⟨_, hitems, hlist⟩ := value?_list.mp h
    cases hlist
    exact ⟨items, rfl, (List.forall₂_and_left ..).mpr ⟨hdistinct.of_list, hitems⟩⟩

/-- Each item of one list has a partner in the other. -/
theorem exists_right {α β : Type} {r : α → β → Prop} {xs : List α} {ys : List β}
    (h : List.Forall₂ r xs ys) : ∀ x ∈ xs, ∃ y ∈ ys, r x y := by
  induction h with
  | nil => nofun
  | cons hxy _ ih =>
    exact List.forall_mem_cons.mpr ⟨⟨_, List.mem_cons_self, hxy⟩, fun x hx =>
      (ih x hx).imp fun _ hy => ⟨List.mem_cons_of_mem _ hy.1, hy.2⟩⟩

theorem exists_left {α β : Type} {r : α → β → Prop} {xs : List α} {ys : List β}
    (h : List.Forall₂ r xs ys) : ∀ y ∈ ys, ∃ x ∈ xs, r x y :=
  exists_right h.flip

/-- The keys of members that have a value are those of their values. -/
theorem map_fst_eq
    (h : List.Forall₂ (fun member entry => memberValue? member = some entry) members pairs) :
    members.map Prod.fst = (pairs.map Prod.fst).map some := by
  induction h with
  | nil => rfl
  | cons hmember _ ih =>
    rw [List.map_cons, List.map_cons, List.map_cons, ih, (memberValue?_eq_some.mp hmember).1]

theorem Distinct.nodup_pairs (h : (Document.object members).Distinct)
    (hvalues : List.Forall₂ (fun member entry => memberValue? member = some entry) members pairs) :
    (pairs.map Prod.fst).Nodup :=
  List.Nodup.of_map some (map_fst_eq hvalues ▸ h.nodup_keys)

/-- **What shows an object is an object**, and its members show what is under its names. -/
theorem Shows.object (distinct : (pairs.map Prod.fst).Nodup) (h : d.Shows (.ofPairs pairs)) :
    ∃ members, d = .object members ∧ MembersShow members pairs := by
  obtain ⟨hdistinct, hvalue⟩ := h
  match d, hvalue, hdistinct with
  | .number (some _), h, _ | .text (some _), h, _ => cases h
  | .list _, h, _ =>
    obtain ⟨_, _, hlist⟩ := value?_list.mp h
    cases hlist
  | .object members, h, hdistinct =>
    obtain ⟨found, hmembers, hobject⟩ := value?_object.mp h
    have hfound := hdistinct.nodup_pairs hmembers
    -- both lists of pairs are the entries of one map, so they have the same members
    have hsame : ∀ entry, entry ∈ found ↔ entry ∈ pairs := by
      intro entry
      rw [← Entries.mem_ofList hfound, ← Entries.mem_ofList distinct, Json.object.inj hobject]
    refine ⟨members, rfl, hdistinct.nodup_keys, fun member hm => ?_, fun entry he => ?_⟩
    · obtain ⟨entry, hentry, hvalue⟩ := exists_right hmembers member hm
      rw [memberValue?_eq_some] at hvalue
      exact ⟨entry, (hsame entry).mp hentry, hvalue.1, hdistinct.of_object member hm, hvalue.2⟩
    · obtain ⟨member, hm, hvalue⟩ := exists_left hmembers entry ((hsame entry).mpr he)
      rw [memberValue?_eq_some] at hvalue
      exact ⟨member.2, hvalue.1 ▸ hm, hdistinct.of_object member hm, hvalue.2⟩

/-! ## 4. Depth -/

theorem toDocument_list (values : List Json) :
    (Json.list values).toDocument = .list (values.map Json.toDocument) := by
  have hitems : Json.toDocuments values = values.map Json.toDocument := by
    induction values with
    | nil => rfl
    | cons v values ih => rw [Json.toDocuments, ih, List.map_cons]
  rw [Json.toDocument, hitems]

theorem toDocument_object (entries : List (String × Json)) :
    (Json.object entries).toDocument
      = .object (entries.map fun entry => (some entry.1, entry.2.toDocument)) := by
  have hmembers : Json.toMembers entries
      = entries.map fun entry => (some entry.1, entry.2.toDocument) := by
    induction entries with
    | nil => rfl
    | cons entry entries ih =>
      obtain ⟨key, v⟩ := entry
      rw [Json.toMembers, ih, List.map_cons]
  rw [Json.toDocument, hmembers]

/-- The value of a document is nested no deeper than the document. -/
theorem readable_of_value? (hvalue : d.value? = some v) (h : d.readable depth = true) :
    v.toDocument.readable depth = true := by
  induction d generalizing v depth with
  | null | bool b =>
    cases hvalue
    rfl
  | number n | text s =>
    obtain ⟨_, rfl, rfl⟩ := Option.map_eq_some_iff.mp hvalue
    rfl
  | list items ih =>
    obtain ⟨values, hitems, rfl⟩ := value?_list.mp hvalue
    rw [readable_list] at h
    rw [toDocument_list, readable_list, List.forall_mem_map]
    refine ⟨h.1, fun v hv => ?_⟩
    obtain ⟨item, hitem, hvalue⟩ := exists_left hitems v hv
    exact ih item hitem hvalue (h.2 item hitem)
  | object members ih =>
    obtain ⟨pairs, hmembers, rfl⟩ := value?_object.mp hvalue
    rw [readable_object] at h
    rw [Json.ofPairs, toDocument_object, readable_object, List.forall_mem_map]
    refine ⟨h.1, fun entry hentry => ⟨rfl, ?_⟩⟩
    obtain ⟨member, hmember, hvalue⟩ :=
      exists_left hmembers entry (Entries.mem_of_mem_ofList hentry)
    exact ih member hmember (memberValue?_eq_some.mp hvalue).2 (h.2 member hmember).2

/-- **What shows a value is nested no deeper than the value.** -/
theorem Shows.readable (hshows : d.Shows v) (h : v.toDocument.readable depth = true) :
    d.readable depth = true := by
  obtain ⟨hdistinct, hvalue⟩ := hshows
  induction d generalizing v depth with
  | null | bool b => rfl
  | number n | text s =>
    obtain ⟨_, rfl, -⟩ := Option.map_eq_some_iff.mp hvalue
    rfl
  | list items ih =>
    obtain ⟨values, hitems, rfl⟩ := value?_list.mp hvalue
    rw [toDocument_list, readable_list, List.forall_mem_map] at h
    rw [readable_list]
    refine ⟨h.1, fun item hitem => ?_⟩
    obtain ⟨v, hv, hvalue⟩ := exists_right hitems item hitem
    exact ih item hitem (h.2 v hv) (hdistinct.of_list item hitem) hvalue
  | object members ih =>
    obtain ⟨pairs, hmembers, rfl⟩ := value?_object.mp hvalue
    rw [Json.ofPairs, toDocument_object, readable_object, List.forall_mem_map] at h
    rw [readable_object]
    refine ⟨h.1, fun member hmember => ?_⟩
    obtain ⟨entry, hentry, hvalue⟩ := exists_right hmembers member hmember
    have hreadable := h.2 entry ((Entries.mem_ofList (hdistinct.nodup_pairs hmembers)).mpr hentry)
    rw [memberValue?_eq_some] at hvalue
    exact ⟨hvalue.1 ▸ rfl,
      ih member hmember hreadable.2 (hdistinct.of_object member hmember) hvalue.2⟩

/-! ## 5. The document of a plain value -/

/-- **A plain value is shown by its own document.** -/
theorem shows_of_plain (h : v.Plain) : v.toDocument.Shows v := by
  induction h with
  | null => exact ⟨.null, rfl⟩
  | bool b => exact ⟨.bool b, rfl⟩
  | @number n _ => exact ⟨.number (some n), rfl⟩
  | text s => exact ⟨.text (some s), rfl⟩
  | @list values _ ih =>
    rw [toDocument_list]
    refine ⟨.list (List.forall_mem_map.mpr fun v hv => (ih v hv).1),
      value?_list.mpr ⟨values, ?_, rfl⟩⟩
    exact List.forall₂_map_left_iff.mpr (List.forall₂_same.mpr fun v hv => (ih v hv).2)
  | @object entries sorted _ ih =>
    rw [toDocument_object]
    refine ⟨.object ?_ (List.forall_mem_map.mpr fun entry he => (ih entry he).1),
      value?_object.mpr ⟨entries, ?_, ?_⟩⟩
    · have hkeys := sorted.nodup_keys.map (Option.some_injective String)
      rw [Entries.keys, List.map_map] at hkeys
      rw [List.map_map]
      exact hkeys
    · exact List.forall₂_map_left_iff.mpr (List.forall₂_same.mpr fun entry he =>
        memberValue?_eq_some.mpr ⟨rfl, (ih entry he).2⟩)
    · rw [Json.ofPairs, sorted.ofList_eq]

end Document

end LedgerScan
