import LedgerScan.Proofs.Json.Shows

/-!
# What is read is plain

The numbers of a text are integers of 64 bits or doubles, so every integer in a document that was
read fits 64 bits (`fits_of_parse?`). The value of such a document is plain if there is no double in
it (`plain_of_value?`).
-/

namespace LedgerScan

mutual

/-- All numbers in a value. -/
def Json.numbers : Json → List Number
  | .number n => [n]
  | .list items => itemNumbers items
  | .object entries => entryNumbers entries
  | .null | .bool _ | .text _ => []

/-- All numbers in the items of a list. -/
def Json.itemNumbers : List Json → List Number
  | [] => []
  | item :: items => item.numbers ++ itemNumbers items

/-- All numbers in the entries of an object. -/
def Json.entryNumbers : List (String × Json) → List Number
  | [] => []
  | (_, value) :: entries => value.numbers ++ entryNumbers entries

end

/-- No number in a value is a double. -/
def Json.HasNoFloat (v : Json) : Prop :=
  ∀ n ∈ v.numbers, ∃ i, n = .int i

theorem Json.HasNoFloat.of_list {values : List Json} (h : (Json.list values).HasNoFloat) :
    ∀ v ∈ values, v.HasNoFloat := by
  intro v hv n hn
  refine h n ?_
  show n ∈ itemNumbers values
  clear h
  induction values with
  | nil => cases hv
  | cons w values ih =>
    rcases List.mem_cons.mp hv with rfl | hv
    · exact List.mem_append_left _ hn
    · exact List.mem_append_right _ (ih hv)

theorem Json.HasNoFloat.of_object {entries : List (String × Json)}
    (h : (Json.object entries).HasNoFloat) : ∀ entry ∈ entries, entry.2.HasNoFloat := by
  intro entry hentry n hn
  refine h n ?_
  show n ∈ entryNumbers entries
  clear h
  induction entries with
  | nil => cases hentry
  | cons first entries ih =>
    rcases List.mem_cons.mp hentry with rfl | hentry
    · exact List.mem_append_left _ hn
    · exact List.mem_append_right _ (ih hentry)

namespace Document

open Fallible

/-- Every integer in a document fits 64 bits. -/
inductive Fits : Document → Prop where
  | null : Fits .null
  | bool (b : Bool) : Fits (.bool b)
  | number {n : Option Number} (fits : ∀ i, n = some (.int i) → (Number.int i).IsInteger) :
      Fits (.number n)
  | text (s : Option String) : Fits (.text s)
  | list {items : List Document} (each : ∀ item ∈ items, item.Fits) : Fits (.list items)
  | object {members : List (Option String × Document)}
      (each : ∀ member ∈ members, member.2.Fits) : Fits (.object members)

/-! ## 1. Reading -/

/-- What a number of steps reads fits: a value, the items of a list, the members of an object. -/
structure ReadsFit (steps : Nat) : Prop where
  value : ∀ {input d rest}, read? steps input = some (d, rest) → d.Fits
  items : ∀ {input items rest}, readItems? steps input = some (items, rest) →
    ∀ item ∈ items, item.Fits
  members : ∀ {input members rest}, readMembers? steps input = some (members, rest) →
    ∀ member ∈ members, member.2.Fits

theorem readsFit_zero : ReadsFit 0 := ⟨nofun, nofun, nofun⟩

theorem ReadsFit.succ {steps : Nat} (h : ReadsFit steps) : ReadsFit (steps + 1) := by
  refine ⟨fun {input d rest} hread => ?_, fun {input items rest} hread => ?_,
    fun {input members rest} hread => ?_⟩
  · unfold read? at hread
    split at hread
    · cases hread
    split at hread
    · split at hread
      · cases hread
        exact .list (List.forall_mem_nil _)
      · obtain ⟨⟨items, _⟩, hitems, hd⟩ := Option.map_eq_some_iff.mp hread
        cases hd
        exact .list (h.items hitems)
    split at hread
    · split at hread
      · cases hread
        exact .object (List.forall_mem_nil _)
      · obtain ⟨⟨members, _⟩, hmembers, hd⟩ := Option.map_eq_some_iff.mp hread
        cases hd
        exact .object (h.members hmembers)
    split at hread
    · obtain ⟨_, _, hd⟩ := Option.map_eq_some_iff.mp hread
      cases hd
      exact .text _
    split at hread
    · obtain ⟨_, _, hd⟩ := Option.map_eq_some_iff.mp hread
      cases hd
      exact .null
    split at hread
    · obtain ⟨_, _, hd⟩ := Option.map_eq_some_iff.mp hread
      cases hd
      exact .bool true
    split at hread
    · obtain ⟨_, _, hd⟩ := Option.map_eq_some_iff.mp hread
      cases hd
      exact .bool false
    · obtain ⟨_, _, hd⟩ := Option.map_eq_some_iff.mp hread
      cases hd
      exact .number fun i => NumberText.isInteger_of_value?
  · unfold readItems? at hread
    obtain ⟨⟨item, _⟩, hitem, hread⟩ := Option.bind_eq_some_iff.mp hread
    dsimp only at hread
    split at hread
    · obtain ⟨⟨items, _⟩, hitems, hd⟩ := Option.bind_eq_some_iff.mp hread
      cases hd
      exact List.forall_mem_cons.mpr ⟨h.value hitem, h.items hitems⟩
    · cases hread
      exact List.forall_mem_singleton.mpr (h.value hitem)
    · cases hread
  · unfold readMembers? at hread
    split at hread
    · obtain ⟨⟨key, _⟩, _, hread⟩ := Option.bind_eq_some_iff.mp hread
      dsimp only at hread
      split at hread
      · obtain ⟨⟨value, _⟩, hvalue, hread⟩ := Option.bind_eq_some_iff.mp hread
        dsimp only at hread
        split at hread
        · obtain ⟨⟨members, _⟩, hmembers, hd⟩ := Option.bind_eq_some_iff.mp hread
          cases hd
          exact List.forall_mem_cons.mpr ⟨h.value hvalue, h.members hmembers⟩
        · cases hread
          exact List.forall_mem_singleton.mpr (h.value hvalue)
        · cases hread
      · cases hread
    · cases hread

theorem readsFit (steps : Nat) : ReadsFit steps := by
  induction steps with
  | zero => exact readsFit_zero
  | succ steps ih => exact ih.succ

/-- **Every integer in a document that was read fits 64 bits.** -/
theorem fits_of_parse? {text : String} {d : Document} (h : parse? text = some d) : d.Fits := by
  unfold parse? at h
  dsimp only at h
  split at h
  · rename_i hread
    split at h
    · cases h
      exact (readsFit _).value hread
    · cases h
  · cases h

/-! ## 2. The value of what was read -/

/-- **A value without doubles is plain**, if it is that of a document whose integers fit. -/
theorem plain_of_value? {d : Document} {v : Json} (hfits : d.Fits) (hvalue : d.value? = some v)
    (h : v.HasNoFloat) : v.Plain := by
  induction d generalizing v with
  | null =>
    cases hvalue
    exact .null
  | bool b =>
    cases hvalue
    exact .bool b
  | text s =>
    obtain ⟨s, rfl, rfl⟩ := Option.map_eq_some_iff.mp hvalue
    exact .text s
  | number n =>
    obtain ⟨n, rfl, rfl⟩ := Option.map_eq_some_iff.mp hvalue
    obtain ⟨i, rfl⟩ := h n List.mem_cons_self
    cases hfits with
    | number fits => exact .number (fits i rfl)
  | list items ih =>
    obtain ⟨values, hitems, rfl⟩ := value?_list.mp hvalue
    refine .list fun v hv => ?_
    obtain ⟨item, hitem, hvalue⟩ := exists_left hitems v hv
    cases hfits with
    | list each => exact ih item hitem (each item hitem) hvalue (h.of_list v hv)
  | object members ih =>
    obtain ⟨pairs, hmembers, rfl⟩ := value?_object.mp hvalue
    refine .object (Entries.sorted_ofList pairs) fun entry hentry => ?_
    obtain ⟨member, hmember, hvalue⟩ :=
      exists_left hmembers entry (Entries.mem_of_mem_ofList hentry)
    cases hfits with
    | object each =>
      exact ih member hmember (each member hmember) (memberValue?_eq_some.mp hvalue).2
        (h.of_object entry hentry)

end Document

end LedgerScan
