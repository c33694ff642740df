import LedgerScan.Proofs.Borsh.Prefix
import LedgerScan.Proofs.Entries
import Mathlib.Data.Finset.Prod
import Mathlib.Data.Fintype.Card
import Mathlib.Order.Fin.Basic

/-!
# The bound on the levels does not show

`Schema.decodeValue` follows names to a bounded number of levels. A run that meets the bound ends
in an error of its own, and with more levels it may end otherwise. So the outcomes at growing
levels are compared in an order in which only the endless one may change (`Decoder.Below`): every
piece of the decoder keeps this order, and more levels only go up in it (`decodeNamed_mono`).

What a name does at the next level depends on what names do at this one. Hence the levels are
settled for good once a level changes no outcome (`Settled.succ`), and a level that is not the last
settles the outcome of a name at some end of the bytes. There are only so many names and ends
(`exists_settled`), and `levelsFor` counts them: with more levels every outcome is the same, and
what is endless stays so (`decodeBy_levels`).
-/

namespace LedgerScan

open Fallible

/-! ## 1. Outcomes at more levels -/

/-- The type contains itself without a byte in between. -/
def Endless {α : Type} (outcome : Except DecodeError α) : Prop :=
  ∃ path type, outcome = .error (.endless path type)

/-- The same outcome; where none is ever reached the paths are of no account. -/
def SameOutcome {α : Type} (outcome other : Except DecodeError α) : Prop :=
  outcome = other ∨ Endless outcome ∧ Endless other

section Outcomes

variable {α β : Type} {decoder : Decoder α} {bytes : List UInt8}

theorem not_endless_ok (result : α × List UInt8) : ¬ Endless (.ok result) := by
  rintro ⟨_, _, h⟩
  cases h

theorem Endless.bind {next : α → Decoder β} (h : Endless (decoder bytes)) :
    Endless ((decoder >>= next) bytes) := by
  obtain ⟨path, type, h⟩ := h
  exact ⟨path, type, bind_of_error h⟩

theorem Endless.within (h : Endless (decoder bytes)) (segment : String) :
    Endless (Decoder.within segment decoder bytes) := by
  obtain ⟨path, type, h⟩ := h
  exact ⟨segment :: path, type, Decoder.within_of_error h⟩

end Outcomes

namespace Decoder

variable {α β : Type} {decoder other third : Decoder α} {whole : List UInt8}

/-- **The second decoder does what the first does**, at every end of the bytes, unless the first
    is endless there. -/
def Below (whole : List UInt8) (decoder other : Decoder α) : Prop :=
  ∀ bytes, bytes <:+ whole → Endless (decoder bytes) ∨ decoder bytes = other bytes

theorem Below.refl (whole : List UInt8) (decoder : Decoder α) : Below whole decoder decoder :=
  fun _ _ => .inr rfl

theorem Below.trans (h : Below whole decoder other) (h' : Below whole other third) :
    Below whole decoder third := by
  intro bytes hends
  rcases h bytes hends with hendless | heq
  · exact .inl hendless
  · rw [heq]
    exact h' bytes hends

theorem Below.bind {next next' : α → Decoder β} (hlocal : Local decoder)
    (h : Below whole decoder other) (hnext : ∀ value, Below whole (next value) (next' value)) :
    Below whole (decoder >>= next) (other >>= next') := by
  intro bytes hends
  rcases h bytes hends with hendless | heq
  · exact .inl hendless.bind
  cases hd : decoder bytes with
  | error e =>
    refine .inr ?_
    rw [bind_of_error hd, bind_of_error (heq.symm.trans hd)]
  | ok r =>
    obtain ⟨value, rest⟩ := r
    rw [bind_of_ok hd, bind_of_ok (heq.symm.trans hd)]
    exact hnext value rest ((hlocal.suffix hd).trans hends)

theorem Below.within (h : Below whole decoder other) (segment : String) :
    Below whole (Decoder.within segment decoder) (Decoder.within segment other) := by
  intro bytes hends
  rcases h bytes hends with hendless | heq
  · exact .inl (hendless.within segment)
  · refine .inr ?_
    unfold Decoder.within
    rw [heq]

theorem below_items {item item' : Decoder Json} (hlocal : Local item)
    (h : Below whole item item') (n : Nat) :
    ∀ done : List Json, Below whole (items item n done) (items item' n done) := by
  induction n with
  | zero => exact fun done => Below.refl _ _
  | succ n ih =>
    exact fun done => (h.within _).bind (hlocal.within _) fun value => ih (value :: done)

theorem below_entries {key key' value value' : Decoder Json} (hkey : Local key)
    (hvalue : Local value) (h : Below whole key key') (h' : Below whole value value') (n : Nat) :
    ∀ done : Entries Json, Below whole (entries key value n done) (entries key' value' n done) := by
  induction n with
  | zero => exact fun done => Below.refl _ _
  | succ n ih =>
    exact fun done => h.bind hkey fun name => (h'.within _).bind (hvalue.within _) fun v => ih _

theorem below_fields {decode decode' : FieldType → Decoder Json}
    (hlocal : ∀ type, Local (decode type)) (h : ∀ type, Below whole (decode type) (decode' type))
    (fields : List Field) : ∀ done : Entries Json,
      Below whole (Decoder.fields decode fields done) (Decoder.fields decode' fields done) := by
  induction fields with
  | nil => exact fun done => Below.refl _ _
  | cons field fields ih =>
    exact fun done =>
      ((h field.type).within _).bind ((hlocal field.type).within _) fun value => ih _

end Decoder

open Decoder

theorem FieldType.below_decodeBy {named named' : String → Decoder Json} {whole : List UInt8}
    (hlocal : ∀ name, (named name).Local) (h : ∀ name, Below whole (named name) (named' name))
    (type : FieldType) : Below whole (type.decodeBy named) (type.decodeBy named') := by
  induction type with
  | primitive p => exact Below.refl _ _
  | array element length ih =>
    exact (below_items (local_decodeBy hlocal element) ih length []).bind
      (local_items (local_decodeBy hlocal element) length []) fun _ => Below.refl _ _
  | defined name => exact h name
  | option inner ih =>
    refine (Below.refl _ _).bind local_byte fun tag => ?_
    show Below whole (if tag = 0 then pure Json.null else inner.decodeBy named)
      (if tag = 0 then pure Json.null else inner.decodeBy named')
    split
    · exact Below.refl _ _
    · exact ih
  | vec element ih =>
    exact (Below.refl _ _).bind local_count fun n =>
      (below_items (local_decodeBy hlocal element) ih n []).bind
        (local_items (local_decodeBy hlocal element) n []) fun _ => Below.refl _ _
  | string => exact Below.refl _ _
  | bytes => exact Below.refl _ _
  | map key value ihkey ihvalue =>
    have hkey := local_decodeBy hlocal key
    have hvalue := local_decodeBy hlocal value
    exact (Below.refl _ _).bind local_count fun n =>
      (below_entries hkey hvalue ihkey ihvalue n []).bind (local_entries hkey hvalue n [])
        fun _ => Below.refl _ _

namespace Schema

variable {schema : Schema} {whole bytes : List UInt8} {levels more : Nat} {name : String}

/-! ## 2. More levels -/

/-- What does not name a structure does not depend on the levels. -/
theorem decodeNamed_of_no_struct (h : ∀ fields, schema.find? name ≠ some (.struct fields))
    (levels more : Nat) : schema.decodeNamed levels name = schema.decodeNamed more name := by
  unfold decodeNamed
  split
  · rfl
  · rfl
  · next fields hfind => exact absurd hfind (h fields)

/-- **What names do at the next levels is ordered as what they do at these.** -/
theorem below_decodeNamed_succ
    (h : ∀ name, Below whole (schema.decodeNamed levels name) (schema.decodeNamed more name))
    (name : String) :
    Below whole (schema.decodeNamed (levels + 1) name) (schema.decodeNamed (more + 1) name) := by
  unfold decodeNamed
  cases schema.find? name with
  | none => exact Below.refl _ _
  | some definition =>
    cases definition with
    | enum variants => exact Below.refl _ _
    | struct fields =>
      have hlocal := FieldType.local_decodeBy (schema.local_decodeNamed levels)
      exact (below_fields hlocal (FieldType.below_decodeBy (schema.local_decodeNamed levels) h)
        fields []).bind (local_fields hlocal fields []) fun _ => Below.refl _ _

/-- More levels change only what is endless. -/
theorem decodeNamed_mono (h : levels ≤ more) :
    ∀ name, Below whole (schema.decodeNamed levels name) (schema.decodeNamed more name) := by
  induction levels generalizing more with
  | zero =>
    intro name bytes _
    by_cases hstruct : ∃ fields, schema.find? name = some (.struct fields)
    · obtain ⟨fields, hfind⟩ := hstruct
      refine .inl ⟨[], name, ?_⟩
      unfold decodeNamed
      rw [hfind]
      rfl
    · have hno : ∀ fields, schema.find? name ≠ some (.struct fields) :=
        fun fields hfind => hstruct ⟨fields, hfind⟩
      exact .inr (congrFun (decodeNamed_of_no_struct hno 0 more) bytes)
  | succ levels ih =>
    obtain ⟨below, rfl⟩ : ∃ m, more = m + 1 := ⟨more - 1, by omega⟩
    exact below_decodeNamed_succ (ih (by omega))

/-! ## 3. Levels enough -/

/-- The next level changes no outcome of a name at an end of the bytes. -/
def Settled (schema : Schema) (whole : List UInt8) (levels : Nat) : Prop :=
  ∀ name, Below whole (schema.decodeNamed (levels + 1) name) (schema.decodeNamed levels name)

/-- Then no level after it does. -/
theorem Settled.succ (h : schema.Settled whole levels) : schema.Settled whole (levels + 1) :=
  below_decodeNamed_succ h

theorem Settled.below (h : schema.Settled whole levels) (hmore : levels ≤ more) :
    ∀ name, Below whole (schema.decodeNamed more name) (schema.decodeNamed levels name) := by
  have hsettled : ∀ n, schema.Settled whole (levels + n) := by
    intro n
    induction n with
    | zero => exact h
    | succ n ih => exact ih.succ
  intro name
  obtain ⟨n, rfl⟩ := Nat.exists_eq_add_of_le hmore
  induction n with
  | zero => exact Below.refl _ _
  | succ n ih => exact (hsettled n name).trans (ih (Nat.le_add_right _ _))

/-- A level that is not settled has a structure that is endless here and no longer at the next
    level. -/
theorem exists_name_of_not_settled (h : ¬ schema.Settled whole levels) :
    ∃ name ∈ Entries.keys schema.types, ∃ bytes, bytes <:+ whole ∧
      Endless (schema.decodeNamed levels name bytes) ∧
      ¬ Endless (schema.decodeNamed (levels + 1) name bytes) := by
  unfold Settled Below at h
  push Not at h
  obtain ⟨name, bytes, hends, hnext, hne⟩ := h
  refine ⟨name, ?_, bytes, hends, ?_, hnext⟩
  · by_contra hno
    have hfind : schema.find? name = none := Entries.get?_eq_none hno
    refine hne (congrFun (decodeNamed_of_no_struct (fun fields hfields => ?_) _ _) bytes)
    rw [hfind] at hfields
    cases hfields
  · exact (decodeNamed_mono (Nat.le_succ levels) name bytes hends).resolve_right
      fun heq => hne heq.symm

/-- **Some level is settled**: each level before it ends the endlessness of a name at an end of the
    bytes, and no two of them that of the same. -/
theorem exists_settled (schema : Schema) (whole : List UInt8) :
    ∃ levels ≤ schema.types.length * (whole.length + 1), schema.Settled whole levels := by
  by_contra hnone
  push Not at hnone
  obtain ⟨bound, hbound⟩ : ∃ n, n = schema.types.length * (whole.length + 1) := ⟨_, rfl⟩
  rw [← hbound] at hnone
  have hplaces := fun levels : Fin (bound + 1) =>
    exists_name_of_not_settled (hnone levels (Nat.le_of_lt_succ levels.isLt))
  choose name hname bytes hends hendless hnext using hplaces
  -- what a level ends is endless at no later one, so two levels never have one place
  have hapart : ∀ a b, a < b → (name a, bytes a) ≠ (name b, bytes b) := by
    intro a b hlt hsame
    refine hnext a ?_
    obtain ⟨hname', hbytes'⟩ := Prod.mk.inj hsame
    have hmono : Below whole (schema.decodeNamed (a + 1) (name a))
        (schema.decodeNamed b (name a)) :=
      decodeNamed_mono (Nat.succ_le_of_lt hlt) (name a)
    rcases hmono (bytes a) (hends a) with h | h
    · exact h
    · rw [h, hname', hbytes']
      exact hendless b
  have hinj : Function.Injective fun levels => (name levels, bytes levels) := by
    intro a b hsame
    rcases lt_trichotomy a b with hlt | heq | hgt
    · exact absurd hsame (hapart a b hlt)
    · exact heq
    · exact absurd hsame.symm (hapart b a hgt)
  let places := (Entries.keys schema.types).toFinset ×ˢ whole.tails.toFinset
  have hcard : places.card ≤ bound := by
    rw [Finset.card_product, hbound]
    refine Nat.mul_le_mul ?_ ?_
    · exact (List.toFinset_card_le _).trans_eq (List.length_map _)
    · exact (List.toFinset_card_le _).trans_eq (List.length_tails _)
  have hmem : ∀ levels, (name levels, bytes levels) ∈ places := by
    intro levels
    simp only [places, Finset.mem_product, List.mem_toFinset, List.mem_tails]
    exact ⟨hname levels, hends levels⟩
  have hmany : (Finset.univ : Finset (Fin (bound + 1))).card ≤ places.card :=
    Finset.card_le_card_of_injOn _ (fun levels _ => hmem levels) hinj.injOn
  rw [Finset.card_univ, Fintype.card_fin] at hmany
  omega

/-! ## 4. Every outcome -/

/-- **With more levels than `levelsFor` every outcome is the same.** -/
theorem decodeBy_levels (type : FieldType) (h : schema.levelsFor bytes ≤ levels) :
    SameOutcome (schema.decodeValue type bytes)
      (type.decodeBy (schema.decodeNamed levels) bytes) := by
  obtain ⟨settled, hle, hsettled⟩ := exists_settled schema bytes
  have henough : settled ≤ schema.levelsFor bytes := by
    unfold levelsFor
    calc settled ≤ schema.types.length * (bytes.length + 1) := hle
      _ = (bytes.length + 1) * schema.types.length := Nat.mul_comm _ _
      _ ≤ (bytes.length + 1) * (schema.types.length + 1) := by gcongr; omega
  have hup : Below bytes (type.decodeBy (schema.decodeNamed (schema.levelsFor bytes)))
      (type.decodeBy (schema.decodeNamed levels)) :=
    FieldType.below_decodeBy (schema.local_decodeNamed _) (decodeNamed_mono h) type
  have hdown : Below bytes (type.decodeBy (schema.decodeNamed levels))
      (type.decodeBy (schema.decodeNamed (schema.levelsFor bytes))) :=
    FieldType.below_decodeBy (schema.local_decodeNamed _)
      (fun name => (hsettled.below (henough.trans h) name).trans
        (decodeNamed_mono henough name)) type
  rcases hup bytes List.suffix_rfl with hendless | heq
  · rcases hdown bytes List.suffix_rfl with hendless' | heq
    · exact .inr ⟨hendless, hendless'⟩
    · exact .inl heq.symm
  · exact .inl heq

end Schema

end LedgerScan
