import LedgerScan.Proofs.Scan.Filters
import LedgerScan.Proofs.Scan.Predicates
import LedgerScan.Proofs.Scan.Truncated

/-!
# Addresses come back as they were written

An address is written as text three times: it is read into a literal, the request compares bytes
with it, and a record shows it. All three are the base58 text of the same thirty-two bytes, and
these have no other text that is read as them.

* `Literal.address?_eq_ok`: the texts that are accepted;
* `mem_filterEntries_of_eq`: what a literal becomes in the request;
* `fields_cut_of_decoded`: what is shown of an account whose data are longer than the record;
* `Scan.address_unchanged`: the way of an address through all of it.
-/

namespace LedgerScan

open Fallible

/-! ## 1. Texts -/

/-- **The accepted texts** are those of thirty-two bytes. -/
theorem Literal.address?_eq_ok {text : String} {literal : Literal} :
    Literal.address? text = .ok literal ↔
      ∃ key size, literal = .pubkey key size ∧ text = Base58.encode key := by
  simp only [← Base58.decode?_eq_some_iff]
  unfold Literal.address?
  constructor
  · intro h
    split at h
    · next key hkey =>
      split at h
      · next size =>
        cases h
        exact ⟨key, size, rfl, hkey⟩
      · cases h
    · cases h
  · rintro ⟨key, size, rfl, hkey⟩
    rw [hkey]
    exact dif_pos size

/-- An accepted text is that of the bytes of its literal. -/
theorem Literal.eq_encode_of_address? {text : String} {literal : Literal}
    (h : Literal.address? text = .ok literal) :
    literal.encode.length = 32 ∧ text = Base58.encode literal.encode := by
  obtain ⟨key, size, rfl, rfl⟩ := address?_eq_ok.mp h
  exact ⟨size, rfl⟩

/-! ## 2. Requests -/

section Requests

variable {scan : Scan} {layout : RecordLayout} {commitment : Commitment} {leaf : Leaf}
  {number : Nat} {plan : LeafPlan} {field : String} {place : Placement} {literal : Literal}

/-- The text of a literal stands in the request at the offset of its field. -/
theorem mem_filterEntries_of_eq
    (planned : scan.planLeaf layout commitment leaf number = .ok plan)
    (found : layout.find? field = some place)
    (asked : (field, Condition.eq literal) ∈ leaf.conditions.entries) :
    .ofPairs [("memcmp", .ofPairs [("offset", .nat place.offset),
      ("bytes", .text (Base58.encode literal.encode))])] ∈ plan.pushdown.filterEntries := by
  obtain ⟨_, pushdown, hpushdown, rfl⟩ := Scan.planLeaf_eq_ok.mp planned
  have hliteral : layout.literal? (field, .eq literal) = some (place.offset, literal.encode) := by
    unfold RecordLayout.literal?
    rw [found]
    rfl
  have hmem : (place.offset, literal.encode) ∈ pushdown.literals := by
    rw [(literals_of_pushDown hpushdown).2]
    exact List.mem_append_right _ (RecordLayout.mem_sortByOffset.mpr
      (List.mem_filterMap.mpr ⟨_, asked, hliteral⟩))
  exact List.mem_append_left _ (List.mem_map.mpr ⟨_, hmem, rfl⟩)

theorem exists_filters_of_eq (planned : scan.planLeaf layout commitment leaf number = .ok plan)
    (found : layout.find? field = some place)
    (asked : (field, Condition.eq literal) ∈ leaf.conditions.entries) :
    ∃ options filters,
      plan.request.get? "params" = some (.list [.text leaf.address, options]) ∧
      options.get? "filters" = some (.list filters) ∧
      .ofPairs [("memcmp", .ofPairs [("offset", .nat place.offset),
        ("bytes", .text (Base58.encode literal.encode))])] ∈ filters := by
  have hmem := mem_filterEntries_of_eq planned found asked
  obtain ⟨_, pushdown, _, rfl⟩ := Scan.planLeaf_eq_ok.mp planned
  have hsome : pushdown.filterEntries.isEmpty = false :=
    List.isEmpty_eq_false_iff.mpr (List.ne_nil_of_mem hmem)
  refine ⟨_, _, get?_params_request _ _ _, ?_, hmem⟩
  rw [get?_filters_requestOptions, hsome]
  rfl

end Requests

/-! ## 3. Records -/

section Records

variable {schema : Schema} {record : String} {layout : RecordLayout} {data : List UInt8}
  {place : Placement} {name : String} {decoded : Entries Json}

/-- Data that are decoded are long enough, and what stands behind the record plays no part. -/
theorem Schema.decodeRecord_take (laid : schema.layoutOf record = .ok layout)
    (h : schema.decodeRecord record data = .ok decoded) :
    layout.totalLength ≤ data.length ∧
      schema.decodeRecord record (data.take layout.totalLength) = .ok decoded := by
  obtain ⟨_, _, _, _, placed⟩ := placed_of_layoutOf laid
  have hlong : layout.totalLength ≤ data.length := by
    by_contra hshort
    obtain ⟨e, he⟩ := decodeRecord_short laid (not_le.mp hshort)
    rw [h] at he
    cases he
  have htake : layout.totalLength ≤ (data.take layout.totalLength).length := by
    rw [List.length_take, Nat.min_eq_left hlong]
  exact ⟨hlong, (decodeRecord_congr laid hlong htake fun p hp =>
    Placement.slice_take (placed.bounds p hp).2.1).mpr h⟩

/-- A decoded record has under the name of a field what stands at its place. -/
theorem Schema.get?_of_decodeRecord (laid : schema.layoutOf record = .ok layout)
    (distinct : layout.names.Nodup) (found : layout.find? name = some place)
    (h : schema.decodeRecord record data = .ok decoded) :
    Entries.get? name decoded = some (schema.valueAt data place) := by
  have hlong := (decodeRecord_take laid h).1
  rw [((decodeRecord_eq_ok laid hlong).mp h).2]
  exact get?_ofList_valueAt distinct found data

end Records

section Plans

variable {scan : Scan} {layout : RecordLayout} {commitment : Commitment} {leaf : Leaf}
  {number : Nat} {plan : LeafPlan} {data : List UInt8} {decoded : Entries Json}

/-- **Of data that are decoded the wanted fields are shown**, also if the data are longer than the
    record and only a window of them comes back. -/
theorem fields_cut_of_decoded (laid : scan.schema.layoutOf scan.record = .ok layout)
    (distinct : layout.names.Nodup) (positive : 0 < layout.totalLength)
    (planned : scan.planLeaf layout commitment leaf number = .ok plan)
    (looked : leaf.selection ≠ .nothing)
    (h : scan.schema.decodeRecord scan.record data = .ok decoded) (pubkey : String) :
    plan.fields scan.schema ⟨pubkey, Base64.encode (plan.query.cut data)⟩
      = .ok (decoded.filter fun entry => leaf.selection.wants entry.1) := by
  obtain ⟨hlong, htake⟩ := Schema.decodeRecord_take laid h
  obtain ⟨hrecord, hselection, hwindow, htotal⟩ := parts_of_planLeaf planned
  have hasked : plan.pushdown.asked = plan.pushdown.window := by
    rw [Pushdown.asked, htotal, if_pos positive]
  cases hfound : plan.pushdown.window with
  | none =>
    rw [hfound] at hasked
    rw [fields_whole hselection hrecord looked hasked
      (by rw [LeafPlan.wholeData_of_no_window hfound]; exact h) h,
      Leaf.shown, h]
  | some window =>
    rw [hfound] at hasked hwindow
    obtain ⟨names, hnames, nonempty⟩ := exists_names_of_window hwindow looked
    rw [hnames] at hwindow
    obtain ⟨_, hsame, aligned, _⟩ := aligned_of_window laid hwindow nonempty
    cases hsame
    have hcut : plan.query.cut (data.take layout.totalLength) = plan.query.cut data := by
      rw [LeafPlan.cut_eq, LeafPlan.cut_eq, hasked]
      exact Window.cut_take aligned.inside.within
    have hsize : (data.take layout.totalLength).length = layout.totalLength := by
      rw [List.length_take, Nat.min_eq_left hlong]
    rw [← hcut, fields_cut laid distinct planned (fun _ => hsize) htake, Leaf.shown, htake]

/-- The fields of a record are those that are shown. -/
theorem fields_of_rebuild? {schema : Schema} {account : RawAccount} {shown : Entries Json}
    (h : plan.fields schema account = .ok shown) {options : FetchOptions} {record : Record}
    (rebuilt : plan.rebuild? schema options account = some record) : record.fields = shown := by
  unfold LeafPlan.rebuild? LeafPlan.shown? at rebuilt
  rw [h] at rebuilt
  simp only at rebuilt
  split at rebuilt
  · cases rebuilt
    rfl
  · cases rebuilt

end Plans

/-- **An address comes back as it was written.** Let a field hold addresses, in a record whose names
    do not repeat. Every accepted text that it is compared with fits, and so a leaf that asks for it
    can be planned if nothing else is wrong with it. The request then has this very text in the
    comparison at the offset of the field. Data that hold the bytes there and are decoded have this
    very text under the name of the field, and so has every record that a plan makes of them, also
    where only a window of the data comes back. And the value of any thirty-two bytes is a text, the
    only one that is accepted and stands for these bytes. -/
theorem Scan.address_unchanged (scan : Scan) {layout : RecordLayout}
    (laid : scan.schema.layoutOf scan.record = .ok layout) {fields : List Field}
    (found : scan.schema.fields? scan.record = some fields)
    (distinct : (fields.map (·.name)).Nodup) {field : Field} (member : field ∈ fields)
    (typed : field.type = .primitive .pubkey) :
    ∃ place, layout.find? field.name = some place ∧
      (∀ text literal, Literal.address? text = .ok literal →
        (∀ commitment (leaf : Leaf) number,
          (field.name, Condition.eq literal) ∈ leaf.conditions.entries →
          ((∃ plan, scan.planLeaf layout commitment leaf number = .ok plan) ↔
            leaf.address ≠ "" ∧
            (∀ entry ∈ leaf.conditions.entries,
              entry = (field.name, Condition.eq literal) ∨ entry.2.Fits layout entry.1) ∧
            ∀ names, leaf.selection = .fields names → ∀ name ∈ names, name ∈ layout.names) ∧
          ∀ plan, scan.planLeaf layout commitment leaf number = .ok plan →
            ∃ options filters,
              plan.request.get? "params" = some (.list [.text leaf.address, options]) ∧
              options.get? "filters" = some (.list filters) ∧
              .ofPairs [("memcmp", .ofPairs [("offset", .nat place.offset),
                ("bytes", .text text)])] ∈ filters) ∧
        ∀ data decoded, place.slice data = literal.encode →
          scan.schema.decodeRecord scan.record data = .ok decoded →
          Entries.get? field.name decoded = some (.text text) ∧
          ∀ commitment (leaf : Leaf) number plan,
            scan.planLeaf layout commitment leaf number = .ok plan →
            leaf.selection.wants field.name = true →
            ∀ pubkey, ∃ shown,
              plan.fields scan.schema ⟨pubkey, Base64.encode (plan.query.cut data)⟩ = .ok shown ∧
              Entries.get? field.name shown = some (.text text) ∧
              ∀ options record, plan.rebuild? scan.schema options
                  ⟨pubkey, Base64.encode (plan.query.cut data)⟩ = some record →
                record.fields = shown) ∧
      ∀ key : List UInt8, key.length = 32 →
        ∃ text, scan.schema.decodeValue field.type key = .ok (.text text, []) ∧
          ∀ other, (∃ literal, Literal.address? other = .ok literal ∧ literal.encode = key) ↔
            other = text := by
  obtain ⟨hnames, place, hfind, htype, hwidth, hstop⟩ :=
    exists_place_of_primitive laid found distinct member typed
  have hdecode : ∀ key : List UInt8, key.length = 32 →
      scan.schema.decodeValue (.primitive .pubkey) key = .ok (.text (Base58.encode key), []) :=
    fun key size => scan.schema.decodeValue_primitive size
  have hpositive : 0 < layout.totalLength := by
    have hsize : place.length = 32 := hwidth
    unfold Placement.stop at hstop
    omega
  refine ⟨place, hfind, fun text literal accepted => ?_, fun key size =>
    ⟨Base58.encode key, typed ▸ hdecode key size, fun other => ⟨?_, ?_⟩⟩⟩
  · obtain ⟨size, rfl⟩ := Literal.eq_encode_of_address? accepted
    have hfits : (Condition.eq literal).Fits layout field.name :=
      ⟨place, hfind, fun _ h => by cases h; exact size.trans hwidth.symm⟩
    refine ⟨fun commitment leaf number asked => ⟨?_, fun plan planned =>
      exists_filters_of_eq planned hfind asked⟩, fun data decoded hslice hdecoded => ?_⟩
    · rw [exists_planLeaf_iff]
      refine and_congr_right fun _ => and_congr_left fun _ => forall₂_congr fun entry _ => ?_
      exact ⟨.inr, fun h => h.elim (fun hsame => hsame ▸ hfits) id⟩
    · have hvalue : scan.schema.Reads data place (.text (Base58.encode literal.encode)) := by
        unfold Schema.Reads
        rw [htype, hslice]
        exact hdecode _ size
      have hget := Schema.get?_of_decodeRecord laid hnames hfind hdecoded
      rw [hvalue.valueAt_eq] at hget
      refine ⟨hget, fun commitment leaf number plan planned wanted pubkey => ?_⟩
      have hlooked : leaf.selection ≠ .nothing := by
        intro h
        rw [h] at wanted
        cases wanted
      have hfields := fields_cut_of_decoded laid hnames hpositive planned hlooked hdecoded pubkey
      refine ⟨_, hfields, ?_, fun options record rebuilt => fields_of_rebuild? hfields rebuilt⟩
      rw [Entries.get?_filter leaf.selection.wants, wanted, if_pos rfl, hget]
  · rintro ⟨literal, accepted, rfl⟩
    exact (Literal.eq_encode_of_address? accepted).2
  · rintro rfl
    exact ⟨_, Literal.address?_eq_ok.mpr ⟨key, size, rfl, rfl⟩, rfl⟩

/-- A vault with an amount and an owner. -/
def Schema.vaults : Schema :=
  empty |>.withStruct "Vault" [⟨"amount", .primitive .u8⟩, ⟨"owner", .primitive .pubkey⟩]
    |>.withDiscriminator "Vault" [4]

/-- The layout of a vault. -/
def Schema.vaultsLayout : RecordLayout :=
  ⟨"Vault", 1, 34, [("amount", ⟨1, 1, .primitive .u8⟩), ("owner", ⟨2, 32, .primitive .pubkey⟩)]⟩

/-- An owner whose bytes start with zeros. -/
def ownerBytes : List UInt8 := 0 :: 0 :: (List.range' 1 30).map UInt8.ofNat

/-- The text of the owner, with a `1` in front for each of the zeros. -/
def ownerText : String := "11CiMQsCUhqABwwLyCFeX2iPnBZX3s28dUUCBrirhs"

/-- The owner of a vault is asked for and shown by the same text. -/
theorem owner_unchanged :
    ∃ literal plan options filters,
      Literal.address? ownerText = .ok literal ∧ literal.encode = ownerBytes ∧
      (Scan.ofRecord Schema.vaults "Vault").planLeaf Schema.vaultsLayout .confirmed
        ((Leaf.ofAddress "program").filtered (Conditions.empty.eq "owner" literal)) 1 = .ok plan ∧
      plan.request.get? "params" = some (.list [.text "program", options]) ∧
      options.get? "filters" = some (.list filters) ∧
      .ofPairs [("memcmp", .ofPairs [("offset", .nat 2), ("bytes", .text ownerText)])] ∈ filters ∧
      ∃ shown, plan.fields Schema.vaults
          ⟨"vault", Base64.encode (plan.query.cut ([4, 9] ++ ownerBytes))⟩ = .ok shown ∧
        Entries.get? "owner" shown = some (.text ownerText) := by
  have laid : Schema.vaults.layoutOf "Vault" = .ok Schema.vaultsLayout := by decide +kernel
  obtain ⟨place, hfind, htexts, _⟩ := (Scan.ofRecord Schema.vaults "Vault").address_unchanged laid
    rfl (by decide) (List.mem_cons_of_mem _ (List.mem_singleton.mpr rfl)) rfl
  cases hfind
  have accepted : Literal.address? ownerText = .ok (.pubkey ownerBytes rfl) :=
    Literal.address?_eq_ok.mpr ⟨ownerBytes, rfl, rfl, by decide +kernel⟩
  obtain ⟨hplans, hdata⟩ := htexts _ _ accepted
  obtain ⟨hplan, hfilters⟩ := hplans .confirmed
    ((Leaf.ofAddress "program").filtered (Conditions.empty.eq "owner" (.pubkey ownerBytes rfl))) 1
    (List.mem_singleton.mpr rfl)
  obtain ⟨plan, planned⟩ :=
    hplan.mpr ⟨by decide, fun entry h => .inl (List.mem_singleton.mp h), nofun⟩
  obtain ⟨options, filters, hparams, hlist, hmem⟩ := hfilters plan planned
  obtain ⟨_, hshown⟩ := hdata ([4, 9] ++ ownerBytes) _ rfl rfl
  obtain ⟨shown, hfields, hget, _⟩ := hshown .confirmed _ 1 plan planned rfl "vault"
  exact ⟨_, plan, options, filters, accepted, rfl, planned, hparams, hlist, hmem, shown, hfields,
    hget⟩

end LedgerScan
