import LedgerScan.Proofs.Borsh.Trailing
import LedgerScan.Proofs.Layout.Lengths

/-!
# Schemas that guard their cycles

A structure may lead back to itself, a list to its rest or a tree to its children, as long as every
way back goes through an option, a vector or a map (`Schema.Guarded`). These have a byte or a count
in front, so once round the circle some byte is gone. With so many bytes left and so many names that
may be met before the next one is taken, there is a number of levels that is never used up:
`ends_decodeNamed` counts it down, by one name for each structure that is opened and by all names
again for each byte.

So the bound on the levels is none. `Schema.Solves` are the equations of the decoder without it, in
which a name is just its definition, and `decodeValue_returns` says that they have one solution, the
decoder with the bound.
-/

namespace LedgerScan

open Relation Fallible

/-! ## 1. Decoders that come to an end -/

namespace Decoder

variable {α β : Type} {decoder : Decoder α} {limit : Nat}

/-- **The decoder comes to an end** on so many bytes: with a value or with an error, but it never
    finds that a type contains itself. -/
def Ends (limit : Nat) (decoder : Decoder α) : Prop :=
  ∀ bytes : List UInt8, bytes.length ≤ limit → ¬ Endless (decoder bytes)

theorem ends_pure (limit : Nat) (value : α) : Ends limit (pure value) :=
  fun bytes _ => not_endless_ok (value, bytes)

theorem ends_malformed (limit : Nat) (path : List String) (problem : Malformed) :
    Ends limit (throw (.malformed path problem) : Decoder α) := by
  rintro _ _ ⟨_, _, h⟩
  cases h

theorem ends_unsupported (limit : Nat) (path : List String) (type : String) :
    Ends limit (throw (.unsupported path type) : Decoder α) := by
  rintro _ _ ⟨_, _, h⟩
  cases h

theorem ends_take (limit count : Nat) : Ends limit (take count) := by
  rintro bytes _ ⟨path, type, h⟩
  obtain ⟨_, hshort⟩ := take_error h
  cases hshort

/-- What the second decoder is left with has to be few enough bytes for it. -/
theorem Ends.bind_of_le {next : α → Decoder β} (h : Ends limit decoder)
    (hnext : ∀ bytes value rest, bytes.length ≤ limit → decoder bytes = .ok (value, rest) →
      ∃ left, rest.length ≤ left ∧ Ends left (next value)) :
    Ends limit (decoder >>= next) := by
  intro bytes hbytes hendless
  cases hd : decoder bytes with
  | error e =>
    obtain ⟨path, type, he⟩ := hendless
    rw [bind_of_error hd] at he
    cases he
    exact h bytes hbytes ⟨path, type, hd⟩
  | ok result =>
    obtain ⟨value, rest⟩ := result
    obtain ⟨left, hleft, hends⟩ := hnext bytes value rest hbytes hd
    rw [bind_of_ok hd] at hendless
    exact hends rest hleft hendless

theorem Ends.bind {next : α → Decoder β} (hlocal : Local decoder) (h : Ends limit decoder)
    (hnext : ∀ value, Ends limit (next value)) : Ends limit (decoder >>= next) :=
  h.bind_of_le fun _ value _ hbytes hd =>
    ⟨limit, (hlocal.suffix hd).length_le.trans hbytes, hnext value⟩

/-- A decoder that takes bytes leaves fewer of them to the second one. -/
theorem Ends.guards {next : α → Decoder β} (h : Ends limit decoder)
    (takes : ∀ bytes value rest, decoder bytes = .ok (value, rest) → rest.length < bytes.length)
    (hnext : ∀ left < limit, ∀ value, Ends left (next value)) : Ends limit (decoder >>= next) :=
  h.bind_of_le fun bytes value rest hbytes hd =>
    ⟨rest.length, le_rfl, hnext _ ((takes bytes value rest hd).trans_le hbytes) value⟩

theorem Ends.within (h : Ends limit decoder) (segment : String) :
    Ends limit (Decoder.within segment decoder) := by
  rintro bytes hbytes ⟨path, type, he⟩
  cases hd : decoder bytes with
  | ok result =>
    rw [within_of_ok hd] at he
    cases he
  | error e =>
    rw [within_of_error hd] at he
    cases e with
    | unknownRecord name | malformed path problem | unsupported path type => cases he
    | endless path type => exact h bytes hbytes ⟨path, type, hd⟩

/-! ## 2. Pieces -/

theorem ends_byte (limit : Nat) : Ends limit byte :=
  (ends_take limit 1).bind (local_take 1) fun _ => ends_pure limit _

theorem ends_count (limit : Nat) : Ends limit count :=
  (ends_take limit 4).bind (local_take 4) fun _ => ends_pure limit _

theorem length_lt_of_take {n : Nat} {f : List UInt8 → α} {bytes rest : List UInt8} {value : α}
    (hn : 0 < n) (h : (do return f (← take n) : Decoder α) bytes = .ok (value, rest)) :
    rest.length < bytes.length := by
  obtain ⟨front, middle, htake, hpure⟩ := bind_eq_ok_iff.mp h
  obtain ⟨hlength, rfl⟩ := take_ok htake
  cases hpure
  rw [List.length_append]
  omega

/-- Behind a byte there are fewer bytes. -/
theorem ends_behind_byte {next : Nat → Decoder β}
    (h : ∀ left < limit, ∀ value, Ends left (next value)) : Ends limit (byte >>= next) :=
  (ends_byte limit).guards (fun _ _ _ => length_lt_of_take Nat.one_pos) h

/-- Behind a count there are fewer bytes, whatever it counts. -/
theorem ends_behind_count {next : Nat → Decoder β}
    (h : ∀ left < limit, ∀ value, Ends left (next value)) : Ends limit (count >>= next) :=
  (ends_count limit).guards (fun _ _ _ => length_lt_of_take (by decide)) h

theorem ends_items {item : Decoder Json} (hlocal : Local item) (h : Ends limit item) (n : Nat) :
    ∀ done : List Json, Ends limit (items item n done) := by
  induction n with
  | zero => exact fun done => ends_pure limit _
  | succ n ih => exact fun done => (h.within _).bind (hlocal.within _) fun value => ih _

theorem ends_entries {key value : Decoder Json} (hkey : Local key) (hvalue : Local value)
    (h : Ends limit key) (h' : Ends limit value) (n : Nat) :
    ∀ done : Entries Json, Ends limit (entries key value n done) := by
  induction n with
  | zero => exact fun done => ends_pure limit _
  | succ n ih =>
    exact fun done => h.bind hkey fun name => (h'.within _).bind (hvalue.within _) fun v => ih _

theorem ends_fields {decode : FieldType → Decoder Json} {fields : List Field}
    (hlocal : ∀ type, Local (decode type)) (h : ∀ field ∈ fields, Ends limit (decode field.type)) :
    ∀ done : Entries Json, Ends limit (Decoder.fields decode fields done) := by
  induction fields with
  | nil => exact fun done => ends_pure limit _
  | cons field fields ih =>
    intro done
    rw [List.forall_mem_cons] at h
    exact (h.1.within _).bind ((hlocal field.type).within _) fun value => ih h.2 _

theorem ends_variant (limit : Nat) (name : String) (variants : List Variant) :
    Ends limit (variant name variants) := by
  refine (ends_byte limit).bind local_byte fun index => ?_
  cases variants[index]? with
  | none => exact ends_malformed _ _ _
  | some v =>
    show Ends limit (if v.hasFields then throw _ else pure (Json.text v.name) : Decoder Json)
    cases v.hasFields with
    | false => exact ends_pure _ _
    | true => exact ends_unsupported _ _ _

end Decoder

open Decoder

/-- **A type comes to an end** if the names that are parts of it do, and those behind an option, a
    vector or a map do on fewer bytes. -/
theorem FieldType.ends_decodeBy (schema : Schema) {named : String → Decoder Json}
    (hlocal : ∀ name, (named name).Local) (type : FieldType) :
    ∀ limit, (∀ name, ReflTransGen schema.Embeds type (.defined name) → Ends limit (named name)) →
      (∀ left < limit, ∀ name, Ends left (named name)) → Ends limit (type.decodeBy named) := by
  induction type with
  | primitive p =>
    exact fun limit _ _ => (ends_take limit _).bind (local_take _) fun _ => ends_pure limit _
  | array element length ih =>
    intro limit parts guarded
    have hitem := ih limit (fun name reaches => parts name (.head (.element _ _) reaches)) guarded
    have hitems := ends_items (local_decodeBy hlocal element) hitem length []
    exact hitems.bind (local_items (local_decodeBy hlocal element) length [])
      fun _ => ends_pure limit _
  | defined name => exact fun limit parts _ => parts name .refl
  | option inner ih =>
    intro limit _ guarded
    refine ends_behind_byte fun left hleft tag => ?_
    show Ends left (if tag = 0 then pure Json.null else inner.decodeBy named)
    split
    · exact ends_pure left _
    · exact ih left (fun name _ => guarded left hleft name)
        fun less hless => guarded less (hless.trans hleft)
  | vec element ih =>
    intro limit _ guarded
    refine ends_behind_count fun left hleft n => ?_
    have hitem := ih left (fun name _ => guarded left hleft name)
      fun less hless => guarded less (hless.trans hleft)
    have hitems := ends_items (local_decodeBy hlocal element) hitem n []
    exact hitems.bind (local_items (local_decodeBy hlocal element) n []) fun _ => ends_pure left _
  | string =>
    intro limit _ _
    refine (ends_count limit).bind local_count fun n =>
      (ends_take limit n).bind (local_take n) fun bytes => ?_
    cases Utf8.decode bytes with
    | ok s => exact ends_pure limit _
    | error e => exact ends_malformed limit _ _
  | bytes =>
    exact fun limit _ _ => (ends_count limit).bind local_count fun n =>
      (ends_take limit n).bind (local_take n) fun _ => ends_pure limit _
  | map key value ihkey ihvalue =>
    intro limit _ guarded
    have hkey := local_decodeBy hlocal key
    have hvalue := local_decodeBy hlocal value
    refine ends_behind_count fun left hleft n => ?_
    have hentries := ends_entries hkey hvalue
      (ihkey left (fun name _ => guarded left hleft name)
        fun less hless => guarded less (hless.trans hleft))
      (ihvalue left (fun name _ => guarded left hleft name)
        fun less hless => guarded less (hless.trans hleft)) n []
    exact hentries.bind (local_entries hkey hvalue n []) fun _ => ends_pure left _

namespace Schema

variable {schema : Schema} {bytes : List UInt8} {name : String} {type : FieldType}

/-! ## 3. Names -/

/-- **Every cycle of definitions goes through an option, a vector or a map**: no structure is a part
    of itself. -/
def Guarded (schema : Schema) : Prop :=
  ∀ name, ¬ TransGen schema.Embeds (.defined name) (.defined name)

/-- **Names come to an end**, by induction on the levels. `opened` are the structures that the name
    is a part of, and since cycles are guarded it is none of them. Behind a byte no structure is
    open, and there are levels for one name each again. -/
theorem Guarded.ends_decodeNamed (guarded : schema.Guarded) (levels : Nat) :
    ∀ (limit : Nat) (opened : List String) (name : String),
      (∀ outer ∈ opened, TransGen schema.Embeds (.defined outer) (.defined name)) →
      limit * (schema.types.length + 1) + (schema.unopened opened).length ≤ levels →
      Ends limit (schema.decodeNamed levels name) := by
  induction levels with
  | zero =>
    intro limit opened name around hlevels
    unfold decodeNamed
    cases found : schema.find? name with
    | none => exact ends_unsupported _ _ _
    | some definition =>
      cases definition with
      | enum variants => exact ends_variant _ _ _
      | struct fields =>
        have hlt := unopened_cons_lt found fun ho => guarded name (around name ho)
        omega
  | succ levels ih =>
    intro limit opened name around hlevels
    unfold decodeNamed
    cases found : schema.find? name with
    | none => exact ends_unsupported _ _ _
    | some definition =>
      cases definition with
      | enum variants => exact ends_variant _ _ _
      | struct fields =>
        have hlt := unopened_cons_lt found fun ho => guarded name (around name ho)
        have hlocal := FieldType.local_decodeBy (schema.local_decodeNamed levels)
        refine Ends.bind (local_fields hlocal fields []) ?_ fun _ => ends_pure limit _
        refine ends_fields hlocal (fun field hfield => ?_) []
        refine field.type.ends_decodeBy schema (schema.local_decodeNamed levels) limit ?_ ?_
        · -- the parts of a field are parts of the structure
          intro part reaches
          refine ih limit (name :: opened) part (fun outer houter => ?_) (by omega)
          have step : TransGen schema.Embeds (.defined name) (.defined part) :=
            .head' (.field found hfield) reaches
          rcases List.mem_cons.mp houter with rfl | houter
          · exact step
          · exact (around outer houter).trans step
        · intro left hleft part
          refine ih left [] part (fun _ hm => by cases hm) ?_
          have hbytes : (left + 1) * (schema.types.length + 1)
              ≤ limit * (schema.types.length + 1) := Nat.mul_le_mul_right _ hleft
          rw [Nat.succ_mul] at hbytes
          rw [unopened_nil_length]
          omega

/-- So every type does, with as many levels as there are for the bytes. -/
theorem Guarded.ends_decodeBy (guarded : schema.Guarded) (type : FieldType) {limit levels : Nat}
    (hlevels : (limit + 1) * (schema.types.length + 1) ≤ levels) :
    Ends limit (type.decodeBy (schema.decodeNamed levels)) := by
  have hnames : ∀ left ≤ limit, ∀ name, Ends left (schema.decodeNamed levels name) := by
    intro left hleft name
    refine guarded.ends_decodeNamed levels left [] name (fun _ hm => by cases hm) ?_
    have hbytes : left * (schema.types.length + 1) ≤ limit * (schema.types.length + 1) :=
      Nat.mul_le_mul_right _ hleft
    rw [Nat.succ_mul] at hlevels
    rw [unopened_nil_length]
    omega
  exact type.ends_decodeBy schema (schema.local_decodeNamed levels) limit
    (fun name _ => hnames limit le_rfl name) fun left hleft => hnames left hleft.le

theorem Guarded.not_endless (guarded : schema.Guarded) (type : FieldType) (bytes : List UInt8) :
    ¬ Endless (schema.decodeValue type bytes) :=
  guarded.ends_decodeBy type le_rfl bytes le_rfl

/-- With more levels than are needed every outcome is the same. -/
theorem Guarded.decodeBy_eq (guarded : schema.Guarded) (type : FieldType) {levels : Nat}
    (hlevels : schema.levelsFor bytes ≤ levels) :
    type.decodeBy (schema.decodeNamed levels) bytes = schema.decodeValue type bytes := by
  rcases decodeBy_levels type hlevels with heq | ⟨hendless, _⟩
  · exact heq.symm
  · exact absurd hendless (guarded.not_endless type bytes)

/-- So the levels for some bytes do for every end of them what the levels for that end do. -/
theorem Guarded.below_decodeValue (guarded : schema.Guarded) (bytes : List UInt8)
    (type : FieldType) :
    Below bytes (type.decodeBy (schema.decodeNamed (schema.levelsFor bytes)))
      (schema.decodeValue type) :=
  fun _ hrest => .inr (guarded.decodeBy_eq type (schema.levelsFor_le_of_suffix hrest))

/-! ## 4. Without a bound -/

/-- What a name does, given what types do. -/
def namedBy (schema : Schema) (decode : FieldType → Decoder Json) (name : String) :
    Decoder Json :=
  match schema.find? name with
  | none => throw (.unsupported [] name)
  | some (.enum variants) => Decoder.variant name variants
  | some (.struct fields) => do return .object (← Decoder.fields decode fields [])

/-- **The equations of the decoder**, in which a name is its definition, with no bound on how often
    names are followed. -/
def Solves (schema : Schema) (decode : FieldType → Decoder Json) : Prop :=
  ∀ type, decode type = type.decodeBy (schema.namedBy decode)

theorem decodeNamed_succ (schema : Schema) (levels : Nat) :
    schema.decodeNamed (levels + 1)
      = schema.namedBy (FieldType.decodeBy (schema.decodeNamed levels)) := by
  funext name
  unfold decodeNamed namedBy
  cases schema.find? name with
  | none => rfl
  | some definition => cases definition <;> rfl

theorem below_namedBy {decode decode' : FieldType → Decoder Json}
    (hlocal : ∀ type, Local (decode type)) (h : ∀ type, Below bytes (decode type) (decode' type))
    (name : String) : Below bytes (schema.namedBy decode name) (schema.namedBy decode' name) := by
  unfold namedBy
  cases schema.find? name with
  | none => exact Below.refl _ _
  | some definition =>
    cases definition with
    | enum variants => exact Below.refl _ _
    | struct fields =>
      exact (below_fields hlocal h fields []).bind (local_fields hlocal fields [])
        fun _ => Below.refl _ _

/-- **The decoder solves its equations.** -/
theorem Guarded.solves_decodeValue (guarded : schema.Guarded) :
    schema.Solves schema.decodeValue := by
  intro type
  funext bytes
  have hlocal := schema.local_decodeNamed (schema.levelsFor bytes)
  have hnames : ∀ name, Below bytes (schema.decodeNamed (schema.levelsFor bytes + 1) name)
      (schema.namedBy schema.decodeValue name) := by
    rw [decodeNamed_succ]
    exact below_namedBy (FieldType.local_decodeBy hlocal) (guarded.below_decodeValue bytes)
  have hmore := guarded.decodeBy_eq type (Nat.le_succ (schema.levelsFor bytes))
  rcases FieldType.below_decodeBy (schema.local_decodeNamed _) hnames type bytes List.suffix_rfl
    with hendless | heq
  · exact absurd (hmore ▸ hendless) (guarded.not_endless type bytes)
  · exact hmore.symm.trans heq

/-- With any number of levels the decoder does what a solution does, unless it meets the bound. -/
theorem Solves.below_decodeNamed {decode : FieldType → Decoder Json}
    (solves : schema.Solves decode) (levels : Nat) :
    ∀ name, Below bytes (schema.decodeNamed levels name) (schema.namedBy decode name) := by
  induction levels with
  | zero =>
    intro name rest _
    unfold decodeNamed namedBy
    cases schema.find? name with
    | none => exact .inr rfl
    | some definition =>
      cases definition with
      | enum variants => exact .inr rfl
      | struct fields => exact .inl ⟨[], name, rfl⟩
  | succ levels ih =>
    have hlocal := schema.local_decodeNamed levels
    rw [decodeNamed_succ]
    refine below_namedBy (FieldType.local_decodeBy hlocal) fun type => ?_
    rw [solves type]
    exact FieldType.below_decodeBy hlocal ih type

/-- **No other decoder solves them.** -/
theorem Guarded.eq_decodeValue (guarded : schema.Guarded) {decode : FieldType → Decoder Json}
    (solves : schema.Solves decode) : decode = schema.decodeValue := by
  funext type bytes
  have hnames : ∀ name, Below bytes (schema.decodeNamed (schema.levelsFor bytes) name)
      (schema.namedBy decode name) := solves.below_decodeNamed _
  rcases FieldType.below_decodeBy (schema.local_decodeNamed _) hnames type bytes List.suffix_rfl
    with hendless | heq
  · exact absurd hendless (guarded.not_endless type bytes)
  · rw [solves type]
    exact heq.symm

/-! ## 5. Records -/

/-- The fields of a record come to an end, and the decoder without a bound does the same on them. -/
theorem Guarded.fields_eq (guarded : schema.Guarded) (fields : List Field) {rest : List UInt8}
    (hrest : rest <:+ bytes) :
    Decoder.fields (FieldType.decodeBy (schema.decodeNamed (schema.levelsFor bytes))) fields [] rest
      = Decoder.fields schema.decodeValue fields [] rest ∧
    ¬ Endless (Decoder.fields schema.decodeValue fields [] rest) := by
  have hlocal := FieldType.local_decodeBy (schema.local_decodeNamed (schema.levelsFor bytes))
  have hends : Ends bytes.length (Decoder.fields
      (FieldType.decodeBy (schema.decodeNamed (schema.levelsFor bytes))) fields []) :=
    ends_fields hlocal (fun field _ => guarded.ends_decodeBy field.type le_rfl) []
  have hnot := hends rest hrest.length_le
  rcases below_fields hlocal (guarded.below_decodeValue bytes) fields [] rest hrest with h | heq
  · exact absurd h hnot
  · exact ⟨heq, heq ▸ hnot⟩

theorem Guarded.decodeRecord_eq (guarded : schema.Guarded) {record : String} {fields : List Field}
    {data : List UInt8} (found : schema.fields? record = some fields)
    (hheader : (schema.discriminator record).length ≤ data.length) :
    schema.decodeRecord record data = (Decoder.fields schema.decodeValue fields []).run'
      (data.drop (schema.discriminator record).length) := by
  unfold decodeRecord
  simp only [found, if_neg (not_lt.mpr hheader), StateT.run',
    (guarded.fields_eq fields (List.drop_suffix _ data)).1]

theorem Guarded.record_not_endless (guarded : schema.Guarded) (record : String)
    (data : List UInt8) : ¬ Endless (schema.decodeRecord record data) := by
  rintro ⟨path, type, h⟩
  cases found : schema.fields? record with
  | none =>
    unfold decodeRecord at h
    rw [found] at h
    cases h
  | some fields =>
    by_cases hheader : (schema.discriminator record).length ≤ data.length
    · rw [guarded.decodeRecord_eq found hheader] at h
      have hnot := (guarded.fields_eq fields
        (List.drop_suffix (schema.discriminator record).length data)).2
      unfold StateT.run' at h
      cases hd : Decoder.fields schema.decodeValue fields []
          (data.drop (schema.discriminator record).length) with
      | ok result =>
        rw [hd] at h
        cases h
      | error e =>
        rw [hd] at h
        cases h
        exact hnot ⟨path, type, hd⟩
    · unfold decodeRecord at h
      simp only [found, if_pos (not_le.mp hheader)] at h
      cases h

/-! ## 6. The decoder -/

/-- **Where cycles are guarded the decoder always returns.** On no type, record or bytes does it
    find a type that contains itself, and however many more levels it is given it returns the same.
    Without a bound on the levels its equations have a solution, this one, and no other; a record
    that is not cut off in its discriminator is its fields in this solution. -/
theorem decodeValue_returns (guarded : schema.Guarded) :
    (∀ type bytes, ¬ Endless (schema.decodeValue type bytes)) ∧
    (∀ record data, ¬ Endless (schema.decodeRecord record data)) ∧
    (∀ (type : FieldType) (bytes : List UInt8) (levels : Nat), schema.levelsFor bytes ≤ levels →
      type.decodeBy (schema.decodeNamed levels) bytes = schema.decodeValue type bytes) ∧
    (∀ decode, schema.Solves decode ↔ decode = schema.decodeValue) ∧
    ∀ record fields data, schema.fields? record = some fields →
      (schema.discriminator record).length ≤ data.length →
      schema.decodeRecord record data = (Decoder.fields schema.decodeValue fields []).run'
        (data.drop (schema.discriminator record).length) := by
  refine ⟨guarded.not_endless, guarded.record_not_endless,
    fun type bytes levels hlevels => guarded.decodeBy_eq type hlevels, fun decode => ⟨?_, ?_⟩,
    fun record fields data found hheader => guarded.decodeRecord_eq found hheader⟩
  · exact fun solves => guarded.eq_decodeValue solves
  · rintro rfl
    exact guarded.solves_decodeValue

/-- Types that rank below those that they are parts of are parts of no cycle. -/
theorem guarded_of_rank (rank : FieldType → Nat)
    (h : ∀ type part, schema.Embeds type part → rank part < rank type) : schema.Guarded := by
  have hchain : ∀ type part, TransGen schema.Embeds type part → rank part < rank type := by
    intro type part hpart
    induction hpart with
    | single embeds => exact h _ _ embeds
    | tail _ embeds ih => exact (h _ _ embeds).trans ih
  exact fun name hcycle => lt_irrefl _ (hchain _ _ hcycle)

/-- A schema of trees with as many children as they like. -/
def groves : Schema :=
  empty |>.withStruct "Tree" [⟨"label", .primitive .u8⟩, ⟨"children", .defined "Forest"⟩]
    |>.withStruct "Forest" [⟨"trees", .vec (.defined "Tree")⟩]

/-- A forest is part of a tree, but a tree is none of a forest: the vector is in between. -/
def groveRank : FieldType → Nat
  | .array element _ => groveRank element + 1
  | .defined name => if name = "Tree" then 2 else if name = "Forest" then 1 else 0
  | _ => 0

theorem guarded_groves : groves.Guarded := by
  refine guarded_of_rank groveRank fun type part embeds => ?_
  cases embeds with
  | element element count => exact Nat.lt_succ_self _
  | @field name fields field found hfield =>
    have hmem : (name, TypeDef.struct fields) ∈ groves.types := Entries.mem_of_get? found
    have htypes : groves.types = [("Forest", .struct [⟨"trees", .vec (.defined "Tree")⟩]),
      ("Tree", .struct [⟨"label", .primitive .u8⟩, ⟨"children", .defined "Forest"⟩])] := by
        decide +kernel
    rw [htypes] at hmem
    simp only [List.mem_cons, List.not_mem_nil, Prod.mk.injEq, TypeDef.struct.injEq,
      or_false] at hmem
    revert field
    rcases hmem with ⟨rfl, rfl⟩ | ⟨rfl, rfl⟩ <;> decide

/-- A tree that says it has as many children as four bytes can say, and ends there, is refused like
    any other, and one with a single child is what the equations say. -/
theorem decodeValue_groves : groves.Guarded ∧
    ¬ Endless (groves.decodeValue (.defined "Tree") [7, 255, 255, 255, 255]) ∧
    ¬ Endless (groves.decodeRecord "Tree" [7, 255, 255, 255, 255]) ∧
    FieldType.decodeBy (groves.namedBy groves.decodeValue) (.defined "Tree")
        [7, 1, 0, 0, 0, 8, 0, 0, 0, 0]
      = .ok (.object [("children", .object [("trees", .list [.object
          [("children", .object [("trees", .list [])]), ("label", .nat 8)]])]),
        ("label", .nat 7)], []) := by
  obtain ⟨hvalue, hrecord, _, hsolves, _⟩ := decodeValue_returns guarded_groves
  refine ⟨guarded_groves, hvalue _ _, hrecord _ _, ?_⟩
  rw [← (hsolves groves.decodeValue).mpr rfl]
  rfl

end Schema

end LedgerScan
