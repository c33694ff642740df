import LedgerScan.Proofs.Borsh.Yields
import LedgerScan.Proofs.Json.Shows
import Mathlib.Data.Set.Function

/-!
# Keys of maps

Entries of a map have keys of any type, an object has texts. A key that is shown as a text stands
for itself, any other is written as compact JSON. Two keys under one text would be one entry, so it
takes three facts that this cannot be: a compact text says its value (`Json.render_inj`), a key type
never mixes the two ways (`textual_of_decodeValue`), and without floats every key is plain
(`plain_of_decodeValue`). An option mixes them, for null and a text are written alike.

`Schema.Pairs` are the entries of a map as they lie in the bytes, and `decodeValue_map` says which
object is made of them.
-/

namespace LedgerScan

open Decoder Fallible

/-! ## 1. The text of a key -/

/-- **A plain value is known by its compact text.** -/
theorem Json.render_inj {a b : Json} (ha : a.Plain) (hb : b.Plain) (h : a.render = b.render) :
    a = b := by
  have hparse := Document.parse?_render ha
  rw [h, Document.parse?_render hb] at hparse
  have hvalue := (Document.shows_of_plain ha).2
  rw [← Option.some.inj hparse, (Document.shows_of_plain hb).2] at hvalue
  exact (Option.some.inj hvalue).symm

theorem Decoder.keyText_of_not_text {v : Json} (h : v.asText? = none) : keyText v = v.render := by
  cases v with
  | text t => cases h
  | null | bool | number | list | object => rfl

/-- Keys of which both are texts or neither is are known by their texts. -/
theorem Decoder.keyText_inj {a b : Json} (ha : a.Plain) (hb : b.Plain)
    (alike : a.asText?.isSome = b.asText?.isSome) (h : keyText a = keyText b) : a = b := by
  cases hat : a.asText? with
  | some s =>
    obtain ⟨t, hbt⟩ := Option.isSome_iff_exists.mp (alike.symm.trans (by rw [hat]; rfl))
    obtain rfl := Json.asText?_eq_some.mp hat
    obtain rfl := Json.asText?_eq_some.mp hbt
    exact congrArg Json.text h
  | none =>
    have hbt : b.asText? = none := by
      rw [hat] at alike
      exact Option.not_isSome_iff_eq_none.mp (by rw [← alike]; decide)
    rw [keyText_of_not_text hat, keyText_of_not_text hbt] at h
    exact Json.render_inj ha hb h

namespace Schema

variable {schema : Schema} {key value : FieldType} {bytes rest : List UInt8} {shown : Json}
  {pairs : List (Json × Json)}

/-! ## 2. The entries in the bytes -/

/-- **The entries of a map as they lie in the bytes**, each key in front of its value. -/
inductive Pairs (schema : Schema) (key value : FieldType) :
    List UInt8 → List (Json × Json) → (rest : List UInt8) → Prop where
  | nil (bytes : List UInt8) : Pairs schema key value bytes [] bytes
  | cons {bytes middle behind rest : List UInt8} {k v : Json} {pairs : List (Json × Json)}
      (hkey : schema.decodeValue key bytes = .ok (k, middle))
      (hvalue : schema.decodeValue value middle = .ok (v, behind))
      (more : Pairs schema key value behind pairs rest) :
      Pairs schema key value bytes ((k, v) :: pairs) rest

/-- The object that the entries make up. -/
def objectOf (pairs : List (Json × Json)) : Entries Json :=
  Entries.ofList (pairs.map fun pair => (keyText pair.1, pair.2))

/-- With levels for all the bytes, entries are those that lie in any end of them. -/
theorem exists_pairs_of_entries (n : Nat) : ∀ (done : Entries Json) {bytes whole rest : List UInt8}
    {entries : Entries Json}, bytes <:+ whole →
    Decoder.entries (key.decodeBy (schema.decodeNamed (schema.levelsFor whole)))
      (value.decodeBy (schema.decodeNamed (schema.levelsFor whole))) n done bytes
        = .ok (entries, rest) →
    ∃ pairs, schema.Pairs key value bytes pairs rest ∧ pairs.length = n ∧
      entries = Entries.merge done (pairs.map fun pair => (keyText pair.1, pair.2)) := by
  induction n with
  | zero =>
    intro done bytes whole rest entries _ h
    cases h
    exact ⟨[], .nil bytes, rfl, rfl⟩
  | succ n ih =>
    intro done bytes whole rest entries hends h
    obtain ⟨k, middle, hkey, h⟩ := bind_eq_ok_iff.mp h
    obtain ⟨v, behind, hvalue, h⟩ := bind_eq_ok_iff.mp h
    have hmiddle := ((schema.local_decodeValue key whole).suffix hkey).trans hends
    replace hvalue := ok_of_within hvalue
    have hbehind := ((schema.local_decodeValue value whole).suffix hvalue).trans hmiddle
    obtain ⟨pairs, hpairs, hlength, hentries⟩ := ih _ hbehind h
    have hfirst := decodeValue_of_levels (schema.levelsFor_le_of_suffix hends) hkey
    have hsecond := decodeValue_of_levels (schema.levelsFor_le_of_suffix hmiddle) hvalue
    exact ⟨(k, v) :: pairs, .cons hfirst hsecond hpairs, congrArg (· + 1) hlength, hentries⟩

/-- A map is its count and so many entries. -/
theorem exists_pairs_of_map (h : schema.decodeValue (.map key value) bytes = .ok (shown, rest)) :
    ∃ header body pairs, bytes = header ++ body ∧ header.length = 4 ∧
      pairs.length = LittleEndian.decode header ∧ schema.Pairs key value body pairs rest ∧
      shown = .object (objectOf pairs) := by
  obtain ⟨n, body, hcount, h⟩ := bind_eq_ok_iff.mp h
  obtain ⟨entries, rest', hentries, h⟩ := bind_eq_ok_iff.mp h
  cases h
  obtain ⟨header, body', htake, hpure⟩ := bind_eq_ok_iff.mp hcount
  cases hpure
  obtain ⟨hheader, rfl⟩ := take_ok htake
  obtain ⟨pairs, hpairs, hlength, rfl⟩ :=
    exists_pairs_of_entries _ [] (List.suffix_append header body) hentries
  exact ⟨header, body, pairs, rfl, hheader, hlength, hpairs, rfl⟩

/-- What is said of all values of the key type is said of all keys. -/
theorem Pairs.forall_keys {P : Json → Prop} (h : schema.Pairs key value bytes pairs rest)
    (hkeys : ∀ bytes k rest, schema.decodeValue key bytes = .ok (k, rest) → P k) :
    ∀ k ∈ pairs.map Prod.fst, P k := by
  induction h with
  | nil => exact List.forall_mem_nil _
  | cons hkey _ _ ih => exact List.forall_mem_cons.mpr ⟨hkeys _ _ _ hkey, ih⟩

/-- **Different keys have different texts.** -/
theorem Pairs.injOn (h : schema.Pairs key value bytes pairs rest)
    (hoption : ∀ inner, key ≠ .option inner) (free : schema.FloatFree key) :
    Set.InjOn keyText {k | k ∈ pairs.map Prod.fst} := by
  have hplain := h.forall_keys fun _ _ _ hkey => plain_of_decodeValue free hkey
  have htextual := h.forall_keys fun _ _ _ hkey => textual_of_decodeValue hoption hkey
  intro a ha b hb hab
  have alike : a.asText?.isSome = b.asText?.isSome := (htextual a ha).trans (htextual b hb).symm
  exact keyText_inj (hplain a ha) (hplain b hb) alike hab

/-! ## 3. The object -/

theorem mem_keys_objectOf {name : String} :
    name ∈ Entries.keys (objectOf pairs) ↔ ∃ k ∈ pairs.map Prod.fst, keyText k = name := by
  unfold objectOf
  rw [Entries.mem_keys_ofList]
  simp

theorem get?_objectOf_of_last (injective : Set.InjOn keyText {k | k ∈ pairs.map Prod.fst})
    {before after : List (Json × Json)} {k v : Json} (hpairs : pairs = before ++ (k, v) :: after)
    (last : k ∉ after.map Prod.fst) :
    Entries.get? (keyText k) (objectOf pairs) = some v := by
  subst hpairs
  unfold objectOf
  rw [List.map_append, List.map_cons]
  refine Entries.get?_ofList_of_last fun hmem => last ?_
  rw [List.map_map] at hmem
  obtain ⟨pair, hpair, htext⟩ := List.mem_map.mp hmem
  have hk : k ∈ (before ++ (k, v) :: after).map Prod.fst := by simp
  have hother : pair.1 ∈ (before ++ (k, v) :: after).map Prod.fst :=
    List.mem_map_of_mem (List.mem_append_right _ (List.mem_cons_of_mem _ hpair))
  exact injective hother hk htext ▸ List.mem_map_of_mem hpair

/-- **No entry of a map is lost to the text of its key.** Whenever a map is decoded whose keys are
    no options and have no floats in them, the bytes are a count and so many entries. Two of them
    are under one key of the object exactly when their keys are equal. So the object has one key for
    each key that was decoded, no other, and under it the value of the last entry with that key. -/
theorem decodeValue_map (hoption : ∀ inner, key ≠ .option inner) (free : schema.FloatFree key)
    (h : schema.decodeValue (.map key value) bytes = .ok (shown, rest)) :
    ∃ header body pairs, bytes = header ++ body ∧ header.length = 4 ∧
      pairs.length = LittleEndian.decode header ∧ schema.Pairs key value body pairs rest ∧
      shown = .object (objectOf pairs) ∧
      (∀ p ∈ pairs, ∀ q ∈ pairs, keyText p.1 = keyText q.1 ↔ p.1 = q.1) ∧
      (Entries.keys (objectOf pairs)).Nodup ∧
      Set.BijOn keyText {k | k ∈ pairs.map Prod.fst}
        {name | name ∈ Entries.keys (objectOf pairs)} ∧
      ∀ before k v after, pairs = before ++ (k, v) :: after → k ∉ after.map Prod.fst →
        Entries.get? (keyText k) (objectOf pairs) = some v := by
  obtain ⟨header, body, pairs, hbytes, hheader, hlength, hpairs, hshown⟩ := exists_pairs_of_map h
  have injective := hpairs.injOn hoption free
  refine ⟨header, body, pairs, hbytes, hheader, hlength, hpairs, hshown, ?_, ?_, ?_, ?_⟩
  · intro p hp q hq
    exact injective.eq_iff (List.mem_map_of_mem hp) (List.mem_map_of_mem hq)
  · exact (Entries.sorted_ofList _).nodup_keys
  · refine ⟨fun k hk => mem_keys_objectOf.mpr ⟨k, hk, rfl⟩, injective, fun name hname => ?_⟩
    exact mem_keys_objectOf.mp hname
  · exact fun before k v after hsplit last => get?_objectOf_of_last injective hsplit last

theorem floatFree_pairOfBytes (schema : Schema) :
    schema.FloatFree (.array (.primitive .u8) 2) := by
  intro p reaches
  rcases reaches.cases_head with heq | ⟨part, mentions, reaches⟩
  · cases heq
  rcases mentions with ⟨⟨element, count⟩⟩
  rcases reaches.cases_head with heq | ⟨part, mentions, _⟩
  · cases heq
    decide
  · rcases mentions with ⟨⟨⟩⟩

/-- Pairs of bytes are no texts, so they are keys as compact JSON. Of the three entries two are
    under one pair, and the later one stays. -/
theorem decodeValue_pairKeys :
    empty.decodeValue (.map (.array (.primitive .u8) 2) (.primitive .u8))
        [3, 0, 0, 0, 1, 2, 7, 12, 0, 8, 1, 2, 9]
      = .ok (.object [("[1,2]", .nat 9), ("[12,0]", .nat 8)], []) ∧
    ∃ body pairs, empty.Pairs (.array (.primitive .u8) 2) (.primitive .u8) body pairs [] ∧
      (∀ p ∈ pairs, ∀ q ∈ pairs, keyText p.1 = keyText q.1 ↔ p.1 = q.1) ∧
      Set.BijOn keyText {k | k ∈ pairs.map Prod.fst} {name | name ∈ ["[1,2]", "[12,0]"]} := by
  have h : empty.decodeValue (.map (.array (.primitive .u8) 2) (.primitive .u8))
        [3, 0, 0, 0, 1, 2, 7, 12, 0, 8, 1, 2, 9]
      = .ok (.object [("[1,2]", .nat 9), ("[12,0]", .nat 8)], []) := rfl
  obtain ⟨_, body, pairs, _, _, _, hpairs, hshown, hkeys, _, hnames, _⟩ :=
    decodeValue_map (fun _ heq => by cases heq) (floatFree_pairOfBytes empty) h
  rw [← Json.object.inj hshown] at hnames
  exact ⟨h, body, pairs, hpairs, hkeys, hnames⟩

end Schema

end LedgerScan
