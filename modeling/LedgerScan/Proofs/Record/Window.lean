import LedgerScan.Proofs.Borsh.Record
import LedgerScan.Proofs.Codec.Base64
import LedgerScan.Proofs.Entries
import LedgerScan.Proofs.Filter.Pushdown
import LedgerScan.Scan.Plan

/-!
# Records rebuilt from a window

The node answers a window of the data, and the record is decoded from that window padded with
zeros. Every field lies inside the window or apart from it, so it is decoded from its own bytes or
from zeros (`decodeRecord_pad_eq_ok`). Only the wanted fields are kept, and these lie inside: what
is shown is what the account holds (`fields_of_window`).
-/

namespace LedgerScan

open Fallible

/-- What stands at a place after a window of the data was padded: the data's bytes, or zeros. -/
def Window.bytesAt (window : Window) (data : List UInt8) (place : Placement) : List UInt8 :=
  if window.Covers place then place.slice data else List.replicate place.length 0

/-- A window that can be cut out of a record and put back: it lies inside and cuts no field. -/
structure RecordLayout.Aligned (layout : RecordLayout) (window : Window) : Prop where
  inside : window.Inside layout.totalLength
  coversOrApart : ∀ p ∈ layout.fields, window.Covers p.2 ∨ window.Apart p.2

/-! ## 1. Windows of records -/

section Padding

variable {schema : Schema} {record : String} {layout : RecordLayout} {window : Window}
  {names : List String} {data : List UInt8}

/-- The window that selected fields ask for is aligned and covers them. -/
theorem aligned_of_window (laid : schema.layoutOf record = .ok layout) {found : Option Window}
    (h : layout.window (.fields names) = .ok found) (nonempty : names ≠ []) :
    ∃ window, found = some window ∧ layout.Aligned window ∧
      ∀ name ∈ names, ∃ place, layout.find? name = some place ∧ window.Covers place := by
  obtain ⟨_, _, _, _, placed⟩ := Schema.placed_of_layoutOf laid
  obtain ⟨places, hto, hfrom, ⟨hnil, _⟩ | ⟨window, _, rfl, spans⟩⟩ :=
    RecordLayout.window_fields_eq_ok h
  · exact absurd hnil nonempty
  · have hplaces : ∀ p ∈ places, ∃ name, (name, p) ∈ layout.fields := fun p hp =>
      (hfrom p hp).imp fun _ hname => RecordLayout.mem_of_find? hname.2
    obtain ⟨last, hlast, hstop⟩ := spans.stop
    obtain ⟨_, hlast⟩ := hplaces last hlast
    have hcounted := placed.total_le (List.ne_nil_of_mem hlast)
    refine ⟨window, rfl, ⟨⟨hstop.trans_le (placed.bounds _ hlast).2.1, hcounted⟩,
      spans.covers_or_apart placed hplaces⟩, fun name hname => ?_⟩
    obtain ⟨place, hplace, hfind⟩ := hto name hname
    exact ⟨place, hfind, spans.covers place hplace⟩

theorem slice_pad_eq_bytesAt (laid : schema.layoutOf record = .ok layout)
    (aligned : layout.Aligned window) (size : data.length = layout.totalLength) :
    ∀ p ∈ layout.fields,
      p.2.slice (window.pad layout.totalLength (window.cut data)) = window.bytesAt data p.2 := by
  intro p hp
  obtain ⟨_, _, _, _, placed⟩ := Schema.placed_of_layoutOf laid
  have hdata : window.offset + window.length ≤ data.length := aligned.inside.within.trans size.ge
  unfold Window.bytesAt
  split
  · next hcovers => exact Window.slice_pad_of_covers hcovers aligned.inside hdata
  · next hcovers =>
      exact Window.slice_pad_of_apart ((aligned.coversOrApart p hp).resolve_left hcovers)
        aligned.inside (Window.length_cut hdata) (placed.bounds p hp).2.1

/-- **A record is decoded from a padded window exactly when every field is**, from its own bytes
    inside the window and from zeros apart from it. -/
theorem decodeRecord_pad_eq_ok (laid : schema.layoutOf record = .ok layout)
    (aligned : layout.Aligned window) (size : data.length = layout.totalLength)
    {shown : Entries Json} :
    schema.decodeRecord record (window.pad layout.totalLength (window.cut data)) = .ok shown ↔
      (∀ p ∈ layout.fields, ∃ value,
        schema.decodeValue p.2.type (window.bytesAt data p.2) = .ok (value, [])) ∧
      shown = Entries.ofList (layout.fields.map fun p =>
        (p.1, schema.valueAt (window.pad layout.totalLength (window.cut data)) p.2)) := by
  have hslice := slice_pad_eq_bytesAt laid aligned size
  have hlength := aligned.inside.length_pad_cut (aligned.inside.within.trans size.ge)
  rw [Schema.decodeRecord_eq_ok laid hlength.ge]
  refine and_congr_left fun _ => forall₂_congr fun p hp => ?_
  unfold Schema.Reads
  rw [hslice p hp]

/-- What is shown of a field inside the window is what the account holds there. -/
theorem valueAt_pad (laid : schema.layoutOf record = .ok layout) (aligned : layout.Aligned window)
    (size : data.length = layout.totalLength) {p : String × Placement} (hp : p ∈ layout.fields)
    (hcovers : window.Covers p.2) :
    schema.valueAt (window.pad layout.totalLength (window.cut data)) p.2
      = schema.valueAt data p.2 := by
  unfold Schema.valueAt
  rw [slice_pad_eq_bytesAt laid aligned size p hp, Window.bytesAt, if_pos hcovers]

/-- In the record that is decoded from any bytes a field has the value at its place. -/
theorem get?_ofList_valueAt (distinct : layout.names.Nodup) {name : String} {place : Placement}
    (h : layout.find? name = some place) (bytes : List UInt8) :
    Entries.get? name (Entries.ofList (layout.fields.map fun p =>
      (p.1, schema.valueAt bytes p.2))) = some (schema.valueAt bytes place) := by
  have hnames : ((layout.fields.map fun p =>
      (p.1, schema.valueAt bytes p.2)).map Prod.fst).Nodup := by
    rw [List.map_map]
    exact distinct
  exact Entries.get?_ofList hnames (List.mem_map.mpr ⟨_, RecordLayout.mem_of_find? h, rfl⟩)

end Padding

/-! ## 2. Plans -/

/-- Of an account whose data is looked at, the decoded fields that are wanted are shown. -/
theorem LeafPlan.fields_eq_ok {plan : LeafPlan} {schema : Schema} (h : plan.selection ≠ .nothing)
    {pubkey : String} {bytes : List UInt8} {shown : Entries Json} :
    plan.fields schema ⟨pubkey, Base64.encode bytes⟩ = .ok shown ↔
      ∃ decoded, schema.decodeRecord plan.record (plan.wholeData bytes) = .ok decoded ∧
        shown = decoded.filter fun entry => plan.selection.wants entry.1 := by
  unfold LeafPlan.fields
  simp only [if_neg h, Base64.decode_encode]
  cases schema.decodeRecord plan.record (plan.wholeData bytes) with
  | error e => exact ⟨fun h => (by cases h), fun ⟨_, h, _⟩ => (by cases h)⟩
  | ok decoded =>
    exact ⟨fun h => by cases h; exact ⟨decoded, rfl, rfl⟩, fun ⟨_, h, hshown⟩ => by
      cases h; rw [hshown]⟩

section Shown

variable {plan : LeafPlan} {schema : Schema} {layout : RecordLayout} {names : List String}
  {window : Window} {data : List UInt8} {pubkey : String} {shown : Entries Json}

/-- A window of some fields is padded before the record is decoded. -/
theorem LeafPlan.wholeData_of_window (selected : plan.selection = .fields names)
    (nonempty : names ≠ []) (asked : plan.pushdown.window = some window) (bytes : List UInt8) :
    plan.wholeData bytes = window.pad plan.pushdown.totalLength bytes := by
  unfold LeafPlan.wholeData
  cases names with
  | nil => exact absurd rfl nonempty
  | cons name names => simp only [selected, asked]

/-- What is shown of a window: the wanted ones of the fields that were decoded from it. -/
theorem LeafPlan.fields_cut_eq_ok (laid : schema.layoutOf plan.record = .ok layout)
    (selected : plan.selection = .fields names) (nonempty : names ≠ [])
    (asked : plan.pushdown.window = some window)
    (total : plan.pushdown.totalLength = layout.totalLength) (aligned : layout.Aligned window)
    (size : data.length = layout.totalLength) :
    plan.fields schema ⟨pubkey, Base64.encode (window.cut data)⟩ = .ok shown ↔
      (∀ p ∈ layout.fields, ∃ value,
        schema.decodeValue p.2.type (window.bytesAt data p.2) = .ok (value, [])) ∧
      shown = (Entries.ofList (layout.fields.map fun p =>
          (p.1, schema.valueAt (window.pad layout.totalLength (window.cut data)) p.2))).filter
        fun entry => names.contains entry.1 := by
  rw [fields_eq_ok (by rw [selected]; exact nofun), wholeData_of_window selected nonempty asked,
    total]
  simp only [decodeRecord_pad_eq_ok laid aligned size, selected, Selection.wants]
  constructor
  · rintro ⟨decoded, ⟨hall, rfl⟩, rfl⟩
    exact ⟨hall, rfl⟩
  · rintro ⟨hall, rfl⟩
    exact ⟨_, ⟨hall, rfl⟩, rfl⟩

/-- These are the selected fields with the values that their own bytes have. -/
theorem shown_of_window (laid : schema.layoutOf plan.record = .ok layout)
    (distinct : layout.names.Nodup) (aligned : layout.Aligned window)
    (covered : ∀ name ∈ names, ∃ place, layout.find? name = some place ∧ window.Covers place)
    (size : data.length = layout.totalLength)
    (hall : ∀ p ∈ layout.fields, ∃ value,
      schema.decodeValue p.2.type (window.bytesAt data p.2) = .ok (value, []))
    (hshown : shown = (Entries.ofList (layout.fields.map fun p =>
        (p.1, schema.valueAt (window.pad layout.totalLength (window.cut data)) p.2))).filter
      fun entry => names.contains entry.1) :
    (Entries.keys shown).Nodup ∧ (∀ name, name ∈ Entries.keys shown ↔ name ∈ names) ∧
    ∀ name ∈ names, ∃ place value, layout.find? name = some place ∧
      schema.decodeValue place.type (place.slice data) = .ok (value, []) ∧
      Entries.get? name shown = some value := by
  have hvalues : ∀ name ∈ names, ∃ place value, layout.find? name = some place ∧
      schema.decodeValue place.type (place.slice data) = .ok (value, []) ∧
      Entries.get? name shown = some value := by
    intro name hname
    obtain ⟨place, hfind, hcovers⟩ := covered name hname
    have hmem := RecordLayout.mem_of_find? hfind
    obtain ⟨value, hvalue⟩ := hall _ hmem
    rw [Window.bytesAt, if_pos hcovers] at hvalue
    have hpad := (valueAt_pad laid aligned size hmem hcovers).trans
      (Schema.Reads.valueAt_eq hvalue)
    refine ⟨place, value, hfind, hvalue, ?_⟩
    rw [hshown, Entries.get?_filter names.contains, if_pos (by simpa using hname),
      get?_ofList_valueAt distinct hfind, hpad]
  refine ⟨?_, fun name => ⟨fun h => ?_, fun h => ?_⟩, hvalues⟩
  · rw [hshown]
    exact ((Entries.sorted_ofList _).filter _).nodup_keys
  · obtain ⟨entry, hentry, rfl⟩ := List.mem_map.mp h
    rw [hshown] at hentry
    simpa using (List.mem_filter.mp hentry).2
  · obtain ⟨_, value, _, _, hvalue⟩ := hvalues name h
    exact Entries.exists_get?_iff.mp ⟨value, hvalue⟩

end Shown

/-- **A record rebuilt from a window shows exactly the account's own bytes.** Selected fields that
    the record has are always planned for, and then the window of any data of the record's length
    becomes a record exactly when every field inside the window is decoded from its own bytes and
    every other one from zeros. The record has the selected fields and no other, each with the
    value that its own bytes have. -/
theorem Scan.fields_of_window (scan : Scan) {layout : RecordLayout}
    (laid : scan.schema.layoutOf scan.record = .ok layout) (distinct : layout.names.Nodup)
    (commitment : Commitment) (number : Nat) {leaf : Leaf} {names : List String}
    (selected : leaf.selection = .fields names) (nonempty : names ≠ []) :
    (leaf.address ≠ "" → leaf.conditions = .empty → (∀ name ∈ names, name ∈ layout.names) →
      ∃ plan, scan.planLeaf layout commitment leaf number = .ok plan) ∧
    ∀ plan, scan.planLeaf layout commitment leaf number = .ok plan →
      ∃ window, plan.pushdown.window = some window ∧
        window.offset + window.length ≤ layout.totalLength ∧
        ∀ (pubkey : String) (data : List UInt8), data.length = layout.totalLength →
          ((∃ shown,
              plan.fields scan.schema ⟨pubkey, Base64.encode (window.cut data)⟩ = .ok shown) ↔
            ∀ p ∈ layout.fields, ∃ value, scan.schema.decodeValue p.2.type
              (if window.Covers p.2 then p.2.slice data else List.replicate p.2.length 0)
                = .ok (value, [])) ∧
          ∀ shown, plan.fields scan.schema ⟨pubkey, Base64.encode (window.cut data)⟩ = .ok shown →
            (Entries.keys shown).Nodup ∧ (∀ name, name ∈ Entries.keys shown ↔ name ∈ names) ∧
            ∀ name ∈ names, ∃ place value, layout.find? name = some place ∧
              scan.schema.decodeValue place.type (place.slice data) = .ok (value, []) ∧
              Entries.get? name shown = some value := by
  constructor
  · intro haddress hconditions hknown
    obtain ⟨window, hwindow⟩ := RecordLayout.exists_window hknown
    rw [← selected] at hwindow
    have haddress' : leaf.address.isEmpty = false := by simpa using haddress
    exact ⟨_, planLeaf_eq_ok.mpr ⟨haddress', _, RecordLayout.pushDown_eq_ok.mpr
      ⟨[], window, by rw [hconditions]; rfl, hwindow, rfl⟩, rfl⟩⟩
  · intro plan hplan
    obtain ⟨_, pushdown, hpushdown, hparts⟩ := planLeaf_eq_ok.mp hplan
    obtain ⟨tests, found, _, hfound, htests⟩ := RecordLayout.pushDown_eq_ok.mp hpushdown
    rw [selected] at hfound
    obtain ⟨window, rfl, aligned, hcovered⟩ := aligned_of_window laid hfound nonempty
    have hrecord : scan.schema.layoutOf plan.record = .ok layout := by rw [hparts]; exact laid
    have hselection : plan.selection = .fields names := by rw [hparts]; exact selected
    have hwindow : plan.pushdown.window = some window := by rw [hparts, htests]
    have htotal : plan.pushdown.totalLength = layout.totalLength := by rw [hparts, htests]
    refine ⟨window, hwindow, aligned.inside.within, fun pubkey data size => ?_⟩
    simp only [LeafPlan.fields_cut_eq_ok hrecord hselection nonempty hwindow htotal aligned size]
    exact ⟨⟨fun ⟨_, hall, _⟩ => hall, fun hall => ⟨_, hall, rfl⟩⟩, fun shown ⟨hall, hshown⟩ =>
      shown_of_window hrecord distinct aligned hcovered size hall hshown⟩

/-- The layout of an order. -/
def Schema.ordersLayout : RecordLayout :=
  ⟨"Order", 1, 5, [("side", ⟨1, 1, .defined "Side"⟩), ("price", ⟨2, 2, .primitive .u16⟩),
    ("size", ⟨4, 1, .primitive .u8⟩)]⟩

/-- The price of an order whose side is none is shown from the two bytes of the window. -/
theorem price_of_window :
    ∃ plan shown,
      (Scan.ofRecord Schema.orders "Order").planLeaf Schema.ordersLayout .confirmed
        ((Leaf.ofAddress "book").select ["price"]) 1 = .ok plan ∧
      plan.pushdown.window = some ⟨2, 2⟩ ∧
      plan.fields Schema.orders ⟨"key", Base64.encode (Window.cut ⟨2, 2⟩ [7, 9, 5, 0, 3])⟩
        = .ok shown ∧
      ∀ name, name ∈ Entries.keys shown ↔ name ∈ ["price"] := by
  have laid : Schema.orders.layoutOf "Order" = .ok Schema.ordersLayout := by decide +kernel
  have selected : ((Leaf.ofAddress "book").select ["price"]).selection = .fields ["price"] := rfl
  obtain ⟨hplans, hwindows⟩ := Scan.fields_of_window (Scan.ofRecord Schema.orders "Order") laid
    (by decide) .confirmed 1 selected (List.cons_ne_nil _ _)
  obtain ⟨plan, hplan⟩ := hplans (by decide) rfl (by decide)
  obtain ⟨window, hwindow, _, hdata⟩ := hwindows plan hplan
  obtain ⟨hshown, hkeys⟩ := hdata "key" [7, 9, 5, 0, 3] rfl
  cases hplan
  cases hwindow
  obtain ⟨shown, hfields⟩ := hshown.mpr (by
    simp only [Schema.ordersLayout, List.forall_mem_cons]
    exact ⟨⟨_, rfl⟩, ⟨_, rfl⟩, ⟨_, rfl⟩, fun p hp => by cases hp⟩)
  exact ⟨_, shown, rfl, rfl, hfields, (hkeys shown hfields).2.1⟩

end LedgerScan
