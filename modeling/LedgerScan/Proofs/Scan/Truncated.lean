import LedgerScan.Proofs.Scan.Predicates

/-!
# Data that are cut short

A node may answer fewer bytes than it was asked for. Padding reckons with the window and not with
what came, so bytes that are missing are missing from the padded record as well (`length_pad_lt`),
and no record is decoded from fewer bytes than its fields have (`Schema.decodeRecord_short`). So
data that are cut short never show a field: `Scan.rebuild?_truncated`.
-/

namespace LedgerScan

/-! ## 1. Records -/

section Decoding

variable {schema : Schema} {record : String} {layout : RecordLayout} {fields : List Field}
  {offset total levels : Nat} {placed : List (String × Placement)} {data : List UInt8}

/-- Fields that are placed one after the other are decided by the bytes from the first place to the
    end of the last one. -/
theorem Schema.Placed.fixed (h : schema.Placed fields offset placed total)
    (hlevels : schema.types.length ≤ levels) (done : Entries Json) :
    Decoder.Fixed schema (total - offset)
      (Decoder.fields (FieldType.decodeBy (schema.decodeNamed levels)) fields done) := by
  induction h generalizing done with
  | nil offset =>
    rw [Nat.sub_self]
    exact Decoder.fixed_pure done
  | @cons field _ offset length total _ sized _ rest ih =>
    have hfirst : Decoder.Fixed schema length
        (field.type.decodeBy (schema.decodeNamed levels)) := by
      rw [decodeBy_eq_decoderOf sized hlevels]
      exact fixed_decoderOf sized
    have hwidth : total - offset = length + (total - (offset + length)) := by
      have := rest.le
      omega
    rw [hwidth]
    exact (hfirst.within _).bind fun value => ih _

/-- **No record is decoded from fewer bytes than it has.** -/
theorem Schema.decodeRecord_short (laid : schema.layoutOf record = .ok layout)
    (short : data.length < layout.totalLength) :
    ∃ e, schema.decodeRecord record data = .error e := by
  obtain ⟨fields, found, _, header, placed⟩ := placed_of_layoutOf laid
  unfold decodeRecord fields?
  simp only [found, ← header]
  by_cases hheader : data.length < layout.headerLength
  · exact ⟨_, if_pos hheader⟩
  · have hrest : (data.drop layout.headerLength).length
        < layout.totalLength - layout.headerLength := by
      rw [List.length_drop]
      omega
    obtain ⟨e, he⟩ := (placed.fixed (schema.length_le_levelsFor data) []).short _ hrest
    exact ⟨e, by rw [if_neg hheader, StateT.run', he]; rfl⟩

/-- A window that lacks bytes lacks them after padding. -/
theorem Window.length_pad_lt {window : Window} (aligned : layout.Aligned window)
    (short : data.length < window.length) :
    (window.pad layout.totalLength data).length < layout.totalLength := by
  have := aligned.inside.within
  rw [aligned.inside.length_pad (Nat.le_of_lt short)]
  omega

end Decoding

/-! ## 2. Accounts -/

/-- How many bytes of an account a plan expects: those of the window, or else the whole record. -/
def Pushdown.expected (pushdown : Pushdown) : Nat :=
  match pushdown.window with
  | some window => window.length
  | none => pushdown.totalLength

section Account

variable {scan : Scan} {layout : RecordLayout} {commitment : Commitment} {leaf : Leaf}
  {number : Nat} {plan : LeafPlan} {bytes : List UInt8}

/-- What a record is decoded from is too short if what came is. -/
theorem LeafPlan.length_wholeData_lt (laid : scan.schema.layoutOf scan.record = .ok layout)
    (planned : scan.planLeaf layout commitment leaf number = .ok plan)
    (wanted : leaf.selection ≠ .nothing) (short : bytes.length < plan.pushdown.expected) :
    (plan.wholeData bytes).length < layout.totalLength := by
  obtain ⟨_, hselection, hwindow, htotal⟩ := parts_of_planLeaf planned
  unfold Pushdown.expected at short
  cases hasked : plan.pushdown.window with
  | none =>
    rw [hasked] at short
    rw [wholeData_of_no_window hasked, ← htotal]
    exact short
  | some window =>
    rw [hasked] at short hwindow
    obtain ⟨names, hnames, nonempty⟩ := exists_names_of_window hwindow wanted
    rw [hnames] at hwindow
    obtain ⟨_, ⟨⟩, aligned, _⟩ := aligned_of_window laid hwindow nonempty
    rw [wholeData_of_window (hselection.trans hnames) nonempty hasked, htotal]
    exact Window.length_pad_lt aligned short

end Account

/-- **Data that are cut short never show a field.** Let a leaf want all fields or some, and let an
    account come back with fewer bytes than its plan expects. The account cannot be decoded: it is
    left out, or, if such accounts are kept, it is a record without fields, for which the predicates
    of the leaf are asked. -/
theorem Scan.rebuild?_truncated (scan : Scan) {layout : RecordLayout}
    (laid : scan.schema.layoutOf scan.record = .ok layout) {commitment : Commitment} {leaf : Leaf}
    {number : Nat} {plan : LeafPlan}
    (planned : scan.planLeaf layout commitment leaf number = .ok plan)
    (wanted : leaf.selection ≠ .nothing) (options : FetchOptions) {account : RawAccount}
    {bytes : List UInt8} (came : Base64.decode (Utf8.encode account.data) = .ok bytes)
    (short : bytes.length < plan.pushdown.expected) :
    (∃ e, plan.fields scan.schema account = .error (.decode e)) ∧
    plan.rebuild? scan.schema options account
      = if options.keepUndecodable && LeafPlan.accepts plan.pushdown.predicates [] then
          some ⟨[], if options.metadata then some (plan.metadataFor account) else none⟩
        else none := by
  obtain ⟨hrecord, hselection, _, _⟩ := parts_of_planLeaf planned
  obtain ⟨e, he⟩ := Schema.decodeRecord_short laid
    (LeafPlan.length_wholeData_lt laid planned wanted short)
  have hfields : plan.fields scan.schema account = .error (.decode e) := by
    unfold LeafPlan.fields
    rw [if_neg (hselection ▸ wanted), came]
    simp only [hrecord, he]
  refine ⟨⟨e, hfields⟩, ?_⟩
  cases hkeep : options.keepUndecodable with
  | false => exact rebuild?_of_error hfields hkeep
  | true =>
    unfold LeafPlan.rebuild? LeafPlan.shown?
    simp only [hfields, hkeep, if_true, Bool.true_and]

/-- One of the two bytes of a price: the byte that is missing is not taken from the zeros behind. -/
theorem rebuild?_halfPrice :
    let account : RawAccount := ⟨"key", "BQ=="⟩
    ∃ plan,
      (Scan.ofRecord Schema.orders "Order").planLeaf Schema.ordersLayout .confirmed
        ((Leaf.ofAddress "book").select ["price"]) 1 = .ok plan ∧
      plan.pushdown.expected = 2 ∧ Base64.decode (Utf8.encode account.data) = .ok [5] ∧
      plan.rebuild? Schema.orders .standard account = none ∧
      plan.rebuild? Schema.orders { FetchOptions.standard with keepUndecodable := true } account
        = some ⟨[], some ⟨[], "key", .int 1⟩⟩ := by
  intro account
  have laid : Schema.orders.layoutOf "Order" = .ok Schema.ordersLayout := by decide +kernel
  have came : Base64.decode (Utf8.encode account.data) = .ok [5] := by decide +kernel
  obtain ⟨plan, planned⟩ : ∃ plan, (Scan.ofRecord Schema.orders "Order").planLeaf
      Schema.ordersLayout .confirmed ((Leaf.ofAddress "book").select ["price"]) 1 = .ok plan :=
    ⟨_, rfl⟩
  have expected : plan.pushdown.expected = 2 := by
    cases planned
    rfl
  have truncated := fun options => ((Scan.ofRecord Schema.orders "Order").rebuild?_truncated laid
    planned nofun options came (by rw [expected]; decide)).2
  cases planned
  exact ⟨_, rfl, rfl, came, truncated _, truncated _⟩

end LedgerScan
