import LedgerScan.Idl.Reader
import LedgerScan.Proofs.Json.Plain

/-!
# Parts by name

The reader of a description takes the members of an object by name. Where a document shows a value
with distinct names, the part under each name shows what is under it (`exists_parts`), and there is
no part under another name. Whatever the reader takes stands directly inside the document
(`inside_of_parts?`, `inside_of_memberUnder?`), so it is less deep.
-/

namespace LedgerScan

open Document

variable {name : String} {names : List String} {key : Option String} {d part : Document}
  {members : List (Option String × Document)} {pairs : List (String × Json)} {v : Json}

/-! ## 1. The part under a name -/

namespace Idl

theorem any_singleton : key.any [name].contains = true ↔ key = some name := by
  cases key <;> simp

/-- A member is the one under some names if its key is one of them and no later key is. -/
theorem memberUnder?_cons :
    memberUnder? names ((key, part) :: members)
      = if key.any names.contains then if lacks names members then some part else none
        else memberUnder? names members := by
  unfold memberUnder? lacks
  by_cases hkey : key.any names.contains = true
  · rw [List.filter_cons_of_pos (by exact hkey), if_pos hkey]
    cases hrest : members.filter fun m => m.1.any names.contains with
    | nil =>
      rw [if_pos]
      simpa [List.filter_eq_nil_iff] using hrest
    | cons m rest =>
      have hm := List.mem_filter.mp (hrest ▸ List.mem_cons_self)
      rw [if_neg]
      intro hall
      have hnot := List.all_eq_true.mp hall m hm.1
      rw [hm.2] at hnot
      cases hnot
  · rw [List.filter_cons_of_neg (by exact hkey), if_neg hkey]

theorem memberUnder?_eq_none (h : ∀ member ∈ members, member.1 ≠ some name) :
    memberUnder? [name] members = none := by
  induction members with
  | nil => rfl
  | cons member members ih =>
    obtain ⟨key, part⟩ := member
    rw [List.forall_mem_cons] at h
    rw [memberUnder?_cons, if_neg (any_singleton.not.mpr h.1), ih h.2]

theorem memberUnder?_of_mem (keys : (members.map Prod.fst).Nodup)
    (h : (some name, part) ∈ members) : memberUnder? [name] members = some part := by
  induction members with
  | nil => cases h
  | cons member members ih =>
    obtain ⟨key, other⟩ := member
    rw [List.map_cons, List.nodup_cons] at keys
    rw [memberUnder?_cons]
    rcases List.mem_cons.mp h with hm | hm
    · cases hm
      have hlacks : lacks [name] members = true := by
        refine List.all_eq_true.mpr fun member hm => ?_
        rw [Bool.not_eq_true', Bool.eq_false_iff]
        intro hany
        exact keys.1 (List.mem_map.mpr ⟨member, hm, any_singleton.mp hany⟩)
      rw [if_pos (any_singleton.mpr rfl), if_pos hlacks]
    · have hne : key ≠ some name := by
        rintro rfl
        exact keys.1 (List.mem_map.mpr ⟨_, hm, rfl⟩)
      rw [if_neg (any_singleton.not.mpr hne), ih keys.2 hm]

theorem memberCount_le_one (keys : (members.map Prod.fst).Nodup) (name : String) :
    memberCount name members ≤ 1 := by
  have hcount : memberCount name members = (members.map Prod.fst).count (some name) := by
    rw [memberCount, List.count, List.countP_map]
    rfl
  rw [hcount]
  exact List.nodup_iff_count_le_one.mp keys (some name)

/-! ## 2. Parts of what shows a value -/

end Idl

open Idl

theorem Document.MembersShow.under (h : MembersShow members pairs) (hv : (name, v) ∈ pairs) :
    ∃ part, memberUnder? [name] members = some part ∧ part.Shows v := by
  obtain ⟨part, hmem, hpart⟩ := h.part (name, v) hv
  exact ⟨part, memberUnder?_of_mem h.keys hmem, hpart⟩

theorem Document.MembersShow.absent (h : MembersShow members pairs)
    (hname : name ∉ pairs.map Prod.fst) : memberUnder? [name] members = none := by
  refine memberUnder?_eq_none fun member hm hkey => ?_
  obtain ⟨entry, hentry, hsome, -⟩ := h.entry member hm
  cases hkey.symm.trans hsome
  exact hname (List.mem_map.mpr ⟨entry, hentry, rfl⟩)

/-- An object without repeated keys has a part, or none, under each of the names asked for. -/
theorem Document.MembersShow.parts? (h : MembersShow members pairs) (names : List String) :
    parts? names (.object members) = some (names.map fun name => memberUnder? [name] members) := by
  have hnamed : members.all (·.1.isSome) = true := by
    refine List.all_eq_true.mpr fun member hm => ?_
    obtain ⟨entry, -, hsome, -⟩ := h.entry member hm
    rw [hsome]
    rfl
  have honce : names.all (memberCount · members ≤ 1) = true :=
    List.all_eq_true.mpr fun name _ => decide_eq_true (memberCount_le_one h.keys name)
  rw [Idl.parts?, hnamed, honce]
  rfl

namespace Idl

/-- **The parts of an object with all its names** show what is under them. -/
theorem exists_parts (h : d.Shows (.ofPairs pairs)) (distinct : (pairs.map Prod.fst).Nodup) :
    ∃ parts, parts? (pairs.map Prod.fst) d = some (parts.map some) ∧
      List.Forall₂ Shows parts (pairs.map Prod.snd) := by
  obtain ⟨members, rfl, hmembers⟩ := h.object distinct
  rw [hmembers.parts?, List.map_map]
  suffices hfound : ∀ few ⊆ pairs, ∃ parts,
      few.map (fun entry => memberUnder? [entry.1] members) = parts.map some ∧
        List.Forall₂ Shows parts (few.map Prod.snd) by
    obtain ⟨parts, hparts, hshows⟩ := hfound pairs (List.Subset.refl pairs)
    exact ⟨parts, congrArg some hparts, hshows⟩
  intro few hfew
  induction few with
  | nil => exact ⟨[], rfl, .nil⟩
  | cons entry few ih =>
    rw [List.cons_subset] at hfew
    obtain ⟨part, hpart, hshows⟩ := hmembers.under hfew.1
    obtain ⟨parts, hparts, hall⟩ := ih hfew.2
    exact ⟨part :: parts, by rw [List.map_cons, List.map_cons, hpart, hparts], .cons hshows hall⟩

/-- What shows an object with one name has one member. -/
theorem exists_single (h : d.Shows (.ofPairs [(name, v)])) :
    ∃ part, d = .object [(some name, part)] ∧ part.Shows v := by
  have distinct : ([(name, v)].map Prod.fst).Nodup := List.nodup_singleton name
  obtain ⟨members, rfl, hmembers⟩ := h.object distinct
  obtain ⟨part, hmem, hpart⟩ := hmembers.part _ List.mem_cons_self
  have hkey : ∀ member ∈ members, member.1 = some name := by
    intro member hm
    obtain ⟨entry, hentry, hsome, -⟩ := hmembers.entry member hm
    rw [hsome, List.mem_singleton.mp hentry]
  have hkeys := hmembers.keys
  match members, hmem, hkey, hkeys with
  | [member], hmem, _, _ =>
    cases List.mem_singleton.mp hmem
    exact ⟨part, rfl, hpart⟩
  | first :: second :: members, _, hkey, hkeys =>
    obtain ⟨hfirst, hsecond, -⟩ := List.forall_mem_cons.mp hkey |>.imp_right List.forall_mem_cons.mp
    rw [List.map_cons, List.map_cons, hfirst, hsecond, List.nodup_cons] at hkeys
    exact absurd List.mem_cons_self hkeys.1

/-! ## 3. Inside a document -/

/-- A part stands directly inside a document: as an item, or as what a member holds. -/
inductive Inside (part : Document) : Document → Prop where
  | item {items : List Document} (h : part ∈ items) : Inside part (.list items)
  | member {members : List (Option String × Document)} (key : Option String)
      (h : (key, part) ∈ members) : Inside part (.object members)

theorem Inside.readable {depth : Nat} (h : Inside part d) (hd : d.readable depth = true) :
    ∃ below, depth = below + 1 ∧ part.readable below = true := by
  cases h with
  | item h =>
    obtain ⟨hpos, hitems⟩ := readable_list.mp hd
    obtain ⟨below, rfl⟩ := Nat.exists_eq_add_one.mpr hpos
    exact ⟨below, rfl, hitems part h⟩
  | member key h =>
    obtain ⟨hpos, hmembers⟩ := readable_object.mp hd
    obtain ⟨below, rfl⟩ := Nat.exists_eq_add_one.mpr hpos
    exact ⟨below, rfl, (hmembers (key, part) h).2⟩

theorem Inside.fits (h : Inside part d) (hd : d.Fits) : part.Fits := by
  cases h with
  | item h => cases hd with | list each => exact each part h
  | member key h => cases hd with | object each => exact each (key, part) h

theorem inside_of_memberUnder? (h : memberUnder? names members = some part) :
    Inside part (.object members) := by
  unfold memberUnder? at h
  split at h
  · rename_i key value hfilter
    cases h
    exact .member key (List.mem_of_mem_filter (hfilter ▸ List.mem_singleton_self _))
  · cases h

/-- **The parts of a document stand directly inside it**, whether it is an object or a list. -/
theorem inside_of_parts? {parts : List (Option Document)} (h : parts? names d = some parts)
    (hpart : some part ∈ parts) : Inside part d := by
  unfold parts? at h
  split at h
  · split at h
    · cases h
      obtain ⟨name, -, hname⟩ := List.mem_map.mp hpart
      exact inside_of_memberUnder? hname
    · cases h
  · split at h
    · cases h
      rcases List.mem_append.mp hpart with hpart | hpart
      · obtain ⟨item, hitem, hsome⟩ := List.mem_map.mp hpart
        cases hsome
        exact .item hitem
      · cases List.eq_of_mem_replicate hpart
    · cases h
  · cases h

end Idl

end LedgerScan
