import LedgerScan.Entries
import Mathlib.Data.List.Induction
import Mathlib.Data.String.Basic

/-!
# Finite maps as sets of lookups

A map in ascending order of its keys is known by what its keys look up: two such maps are equal
when they agree on every key (`ext_of_sorted`), and every map that is built by inserting is one of
them (`sorted_ofList`). A list of pairs whose keys are distinct is found again in the map it stands
for (`get?_ofList`), and a selection of keys is one of lookups (`get?_filter`). Pairs in any other
order are known by their keys and what these look up: `ext_of_nodup`.
-/

namespace LedgerScan.Entries

universe u

variable {α : Type u} {key : String} {value : α} {entries : Entries α}

/-! ## 1. Lookups and entries -/

theorem mem_of_get? (h : get? key entries = some value) : (key, value) ∈ entries := by
  induction entries with
  | nil => cases h
  | cons entry rest ih =>
    obtain ⟨k, v⟩ := entry
    unfold get? at h
    split at h
    · rename_i hk
      cases h
      exact hk ▸ List.mem_cons_self
    · exact List.mem_cons_of_mem _ (ih h)

theorem get?_eq_none (h : key ∉ keys entries) : get? key entries = none := by
  cases hk : get? key entries with
  | none => rfl
  | some value => exact absurd (List.mem_map_of_mem (mem_of_get? hk)) h

theorem exists_get?_iff : (∃ value, get? key entries = some value) ↔ key ∈ keys entries := by
  constructor
  · rintro ⟨value, h⟩
    exact List.mem_map_of_mem (mem_of_get? h)
  · intro h
    induction entries with
    | nil => cases h
    | cons entry rest ih =>
      obtain ⟨k, v⟩ := entry
      unfold get?
      by_cases hk : k = key
      · exact ⟨v, if_pos hk⟩
      · rw [if_neg hk]
        exact ih ((List.mem_cons.mp h).resolve_left (Ne.symm hk))

theorem get?_append (key : String) (entries more : Entries α) :
    get? key (entries ++ more) = (get? key entries).or (get? key more) := by
  induction entries with
  | nil => rfl
  | cons entry rest ih =>
    obtain ⟨k, v⟩ := entry
    rw [List.cons_append]
    by_cases hk : k = key
    · simp only [get?, if_pos hk, Option.some_or]
    · simp only [get?, if_neg hk, ih]

/-- What is found is the first of the pairs with the key. -/
theorem get?_eq_some_iff_append :
    get? key entries = some value ↔
      ∃ before after, entries = before ++ (key, value) :: after ∧ key ∉ keys before := by
  constructor
  · intro h
    induction entries with
    | nil => cases h
    | cons entry rest ih =>
      obtain ⟨k, v⟩ := entry
      unfold get? at h
      split at h
      · next hk =>
        cases h
        exact ⟨[], rest, by rw [hk, List.nil_append], List.not_mem_nil⟩
      · next hk =>
        obtain ⟨before, after, rfl, hfirst⟩ := ih h
        exact ⟨(k, v) :: before, after, rfl, List.not_mem_cons_of_ne_of_not_mem (Ne.symm hk) hfirst⟩
  · rintro ⟨before, after, rfl, hfirst⟩
    rw [get?_append, get?_eq_none hfirst, Option.none_or, get?, if_pos rfl]

/-- A pair is found by its key if no other has it. -/
theorem get?_of_nodup (distinct : (keys entries).Nodup) (h : (key, value) ∈ entries) :
    get? key entries = some value := by
  obtain ⟨before, after, rfl⟩ := List.append_of_mem h
  rw [keys, List.map_append, List.map_cons] at distinct
  obtain ⟨_, _, hapart⟩ := List.nodup_append.mp distinct
  exact get?_eq_some_iff_append.mpr ⟨before, after, rfl, fun hfirst =>
    hapart key hfirst key List.mem_cons_self rfl⟩

/-- Pairs with the same distinct keys in the same order are equal when they look up the same. -/
theorem ext_of_nodup {a b : Entries α} (same : keys a = keys b) (distinct : (keys a).Nodup)
    (h : ∀ key ∈ keys a, get? key a = get? key b) : a = b := by
  induction a generalizing b with
  | nil => exact (List.map_eq_nil_iff.mp same.symm).symm
  | cons entry as ih =>
    obtain ⟨k, v⟩ := entry
    obtain ⟨⟨l, w⟩, bs, rfl, hkl, hkeys⟩ := List.map_eq_cons_iff.mp same.symm
    obtain rfl : l = k := hkl
    obtain ⟨hhead, hdistinct⟩ := List.nodup_cons.mp distinct
    obtain rfl : v = w := by simpa [get?] using h l List.mem_cons_self
    refine congrArg _ (ih hkeys.symm hdistinct fun key hkey => ?_)
    have hne : l ≠ key := fun heq => hhead (heq ▸ hkey)
    simpa [get?, hne] using h key (List.mem_cons_of_mem _ hkey)

theorem get?_filter (p : String → Bool) (key : String) (entries : Entries α) :
    get? key (entries.filter fun entry => p entry.1)
      = if p key then get? key entries else none := by
  induction entries with
  | nil => simp
  | cons entry rest ih =>
    obtain ⟨k, v⟩ := entry
    by_cases hk : k = key
    · subst hk
      by_cases hp : p k = true
      · simp [hp, get?]
      · simp [hp, ih]
    · by_cases hp : p k = true
      · simp [hp, get?, hk, ih]
      · simp [hp, get?, hk, ih]

theorem get?_erase (key other : String) (entries : Entries α) :
    get? other (erase key entries) = if other = key then none else get? other entries := by
  unfold erase
  rw [get?_filter (fun k => k ≠ key) other entries]
  by_cases h : other = key
  · simp [h]
  · simp [h]

/-- What is put under a key and removed again leaves nothing behind. -/
theorem erase_insert_self (key : String) (value : α) (entries : Entries α) :
    erase key (insert key value entries) = erase key entries := by
  induction entries with
  | nil => simp [erase, insert]
  | cons entry rest ih =>
    obtain ⟨k, v⟩ := entry
    unfold insert
    split
    · simp [erase]
    · split
      · rename_i heq
        simp [erase, heq]
      · unfold erase at ih ⊢
        rw [List.filter_cons, List.filter_cons, ih]

/-- Removing a key changes nothing exactly if it is not there. -/
theorem erase_eq_self : erase key entries = entries ↔ key ∉ keys entries := by
  unfold erase keys
  rw [List.filter_eq_self, List.mem_map]
  constructor
  · rintro h ⟨entry, hentry, rfl⟩
    exact absurd rfl (of_decide_eq_true (h entry hentry))
  · intro h entry hentry
    exact decide_eq_true fun heq => h ⟨entry, hentry, heq⟩

/-! ## 2. Many keys -/

theorem get?_merge_of_notMem {patch : List (String × α)} (h : key ∉ patch.map Prod.fst) :
    get? key (merge entries patch) = get? key entries := by
  induction patch generalizing entries with
  | nil => rfl
  | cons entry patch ih =>
    rw [List.map_cons, List.mem_cons, not_or] at h
    show get? key (merge (insert entry.1 entry.2 entries) patch) = _
    rw [ih h.2, get?_insert_of_ne (Ne.symm h.1)]

theorem get?_merge_of_mem {patch : List (String × α)} (distinct : (patch.map Prod.fst).Nodup)
    (h : (key, value) ∈ patch) : get? key (merge entries patch) = some value := by
  induction patch generalizing entries with
  | nil => cases h
  | cons entry patch ih =>
    rw [List.map_cons, List.nodup_cons] at distinct
    show get? key (merge (insert entry.1 entry.2 entries) patch) = _
    rcases List.mem_cons.mp h with rfl | h
    · rw [get?_merge_of_notMem distinct.1, get?_insert_self]
    · exact ih distinct.2 h

/-- **Distinct pairs are found again.** -/
theorem get?_ofList {pairs : List (String × α)} (distinct : (pairs.map Prod.fst).Nodup)
    (h : (key, value) ∈ pairs) : get? key (ofList pairs) = some value :=
  get?_merge_of_mem distinct h

/-- Of pairs with one key the last one stays. -/
theorem get?_ofList_of_last {before after : List (String × α)} (last : key ∉ after.map Prod.fst) :
    get? key (ofList (before ++ (key, value) :: after)) = some value := by
  have hfold : ofList (before ++ (key, value) :: after)
      = merge (insert key value (ofList before)) after := by
    unfold ofList merge
    rw [List.foldl_append, List.foldl_cons]
  rw [hfold, get?_merge_of_notMem last, get?_insert_self]

theorem mem_of_mem_insert {entry : String × α} (h : entry ∈ insert key value entries) :
    entry = (key, value) ∨ entry ∈ entries := by
  induction entries with
  | nil => exact .inl (List.mem_singleton.mp h)
  | cons first rest ih =>
    obtain ⟨k, v⟩ := first
    unfold insert at h
    split at h
    · exact List.mem_cons.mp h
    · split at h
      · exact (List.mem_cons.mp h).imp_right (List.mem_cons_of_mem _)
      · rcases List.mem_cons.mp h with rfl | h
        · exact .inr List.mem_cons_self
        · exact (ih h).imp_right (List.mem_cons_of_mem _)

/-- A map has no other entries than the pairs it was built from. -/
theorem mem_of_mem_ofList {pairs : List (String × α)} {entry : String × α}
    (h : entry ∈ ofList pairs) : entry ∈ pairs := by
  induction pairs using List.reverseRecOn with
  | nil => cases h
  | append_singleton pairs pair ih =>
    have hinsert : ofList (pairs ++ [pair]) = insert pair.1 pair.2 (ofList pairs) := by
      unfold ofList merge
      rw [List.foldl_append]
      rfl
    rcases mem_of_mem_insert (hinsert ▸ h) with rfl | h
    · exact List.mem_append_right _ List.mem_cons_self
    · exact List.mem_append_left _ (ih h)

/-- Distinct pairs are the entries of the map they stand for, in another order. -/
theorem mem_ofList {pairs : List (String × α)} (distinct : (pairs.map Prod.fst).Nodup)
    {entry : String × α} : entry ∈ ofList pairs ↔ entry ∈ pairs :=
  ⟨mem_of_mem_ofList, fun h => mem_of_get? (get?_ofList distinct h)⟩

theorem mem_keys_insert {other : String} :
    other ∈ keys (insert key value entries) ↔ other = key ∨ other ∈ keys entries := by
  rw [← exists_get?_iff, ← exists_get?_iff, get?_insert]
  by_cases h : key = other
  · simp [h]
  · simp [h, Ne.symm h]

theorem mem_keys_merge {patch : List (String × α)} :
    key ∈ keys (merge entries patch) ↔ key ∈ keys entries ∨ key ∈ patch.map Prod.fst := by
  induction patch generalizing entries with
  | nil => simp [merge]
  | cons entry patch ih =>
    show key ∈ keys (merge (insert entry.1 entry.2 entries) patch) ↔ _
    rw [ih, mem_keys_insert, List.map_cons, List.mem_cons]
    tauto

/-- The keys of a map are those of the pairs it stands for. -/
theorem mem_keys_ofList {pairs : List (String × α)} :
    key ∈ keys (ofList pairs) ↔ key ∈ pairs.map Prod.fst :=
  mem_keys_merge.trans (or_iff_right List.not_mem_nil)

/-! ## 3. Order -/

/-- Every key is smaller than those after it. -/
def Sorted (entries : Entries α) : Prop :=
  (keys entries).Pairwise (· < ·)

theorem Sorted.tail {entry : String × α} (h : Sorted (entry :: entries)) : Sorted entries :=
  (List.pairwise_cons.mp h).2

theorem Sorted.nodup_keys (h : Sorted entries) : (keys entries).Nodup :=
  List.Pairwise.imp (fun hlt => ne_of_lt hlt) h

theorem sorted_insert (h : Sorted entries) : Sorted (insert key value entries) := by
  induction entries with
  | nil => exact List.pairwise_singleton _ _
  | cons entry rest ih =>
    obtain ⟨k, v⟩ := entry
    obtain ⟨hfirst, hrest⟩ := List.pairwise_cons.mp h
    unfold insert
    split
    · rename_i hlt
      refine List.pairwise_cons.mpr ⟨fun other hm => ?_, h⟩
      rcases List.mem_cons.mp hm with rfl | hm
      · exact hlt
      · exact hlt.trans (hfirst other hm)
    · rename_i hnlt
      split
      · rename_i heq
        subst heq
        exact List.pairwise_cons.mpr ⟨hfirst, hrest⟩
      · rename_i hne
        refine List.pairwise_cons.mpr ⟨fun other hm => ?_, ih hrest⟩
        rcases mem_keys_insert.mp hm with rfl | hm
        · exact lt_of_le_of_ne (not_lt.mp hnlt) (Ne.symm hne)
        · exact hfirst other hm

theorem sorted_merge {patch : List (String × α)} (h : Sorted entries) :
    Sorted (merge entries patch) := by
  induction patch generalizing entries with
  | nil => exact h
  | cons entry patch ih => exact ih (sorted_insert h)

theorem sorted_ofList (pairs : List (String × α)) : Sorted (ofList pairs) :=
  sorted_merge List.Pairwise.nil

theorem Sorted.filter (h : Sorted entries) (p : String × α → Bool) : Sorted (entries.filter p) :=
  h.sublist ((List.filter_sublist).map Prod.fst)

theorem Sorted.head_notMem {rest : Entries α} (h : Sorted ((key, value) :: rest)) :
    key ∉ keys rest := fun hm =>
  lt_irrefl key ((List.pairwise_cons.mp h).1 key hm)

theorem Sorted.notMem_of_lt {other : String} {rest : Entries α}
    (h : Sorted ((key, value) :: rest)) (hlt : other < key) :
    other ∉ keys ((key, value) :: rest) := by
  intro hm
  rcases List.mem_cons.mp hm with rfl | hm
  · exact lt_irrefl _ hlt
  · exact lt_irrefl other (hlt.trans ((List.pairwise_cons.mp h).1 other hm))

theorem Sorted.get?_of_mem (h : Sorted entries) (hm : (key, value) ∈ entries) :
    get? key entries = some value :=
  get?_of_nodup h.nodup_keys hm

/-- **Maps in order are equal when they look up the same.** -/
theorem ext_of_sorted {a b : Entries α} (ha : Sorted a) (hb : Sorted b)
    (h : ∀ key, get? key a = get? key b) : a = b := by
  induction a generalizing b with
  | nil =>
    cases b with
    | nil => rfl
    | cons entry rest => simpa [get?] using h entry.1
  | cons entry as ih =>
    obtain ⟨k, v⟩ := entry
    cases b with
    | nil => simpa [get?] using h k
    | cons entry bs =>
      obtain ⟨l, w⟩ := entry
      -- the smaller of two different first keys would not be found in the other map
      have hkl : k = l := by
        rcases lt_trichotomy k l with hlt | heq | hgt
        · have hk := h k
          rw [get?_eq_none (hb.notMem_of_lt hlt)] at hk
          simp [get?] at hk
        · exact heq
        · have hl := h l
          rw [get?_eq_none (ha.notMem_of_lt hgt)] at hl
          simp [get?] at hl
      subst hkl
      have hvw : v = w := by simpa [get?] using h k
      subst hvw
      refine congrArg _ (ih ha.tail hb.tail fun key => ?_)
      by_cases hk : k = key
      · subst hk
        rw [get?_eq_none ha.head_notMem, get?_eq_none hb.head_notMem]
      · simpa [get?, hk] using h key

/-- A map in order is built from its own entries. -/
theorem Sorted.ofList_eq (h : Sorted entries) : ofList entries = entries := by
  refine ext_of_sorted (sorted_ofList entries) h fun key => Option.ext fun value => ?_
  constructor
  · exact fun hget => h.get?_of_mem (mem_of_mem_ofList (mem_of_get? hget))
  · exact fun hget => get?_ofList h.nodup_keys (mem_of_get? hget)

end LedgerScan.Entries
