import LedgerScan.Proofs.Borsh.Record
import LedgerScan.Proofs.Entries
import LedgerScan.Proofs.Filter.Pushdown

/-!
# Fields of one name

Nothing keeps a record from having two fields of one name. A layout finds the first of them, but a
decoded record holds the value of the last one (`Schema.decodeRecord_last`). Under a name that
occurs once both are the same field.
-/

namespace LedgerScan

variable {schema : Schema} {record name : String} {layout : RecordLayout} {data : List UInt8}
  {shown : Entries Json} {place : Placement}

/-- A name that occurs has a last occurrence. -/
theorem exists_last_of_mem {fields : List (String × Placement)} (h : name ∈ fields.map Prod.fst) :
    ∃ before last after, fields = before ++ (name, last) :: after ∧
      name ∉ after.map Prod.fst := by
  induction fields with
  | nil => cases h
  | cons field fields ih =>
    by_cases later : name ∈ fields.map Prod.fst
    · obtain ⟨before, last, after, rfl, hlast⟩ := ih later
      exact ⟨field :: before, last, after, rfl, hlast⟩
    · obtain rfl := (List.mem_cons.mp h).resolve_right later
      exact ⟨[], field.2, fields, rfl, later⟩

/-- The last field of a name that occurs once is the one that is found. -/
theorem find?_of_count {before after : List (String × Placement)} {last : Placement}
    (hfields : layout.fields = before ++ (name, last) :: after)
    (once : layout.names.count name = 1) : layout.find? name = some last := by
  have hfirst : name ∉ before.map Prod.fst := by
    rw [RecordLayout.names, hfields, List.map_append, List.count_append, List.map_cons,
      List.count_cons_self] at once
    exact List.count_eq_zero.mp (Nat.eq_zero_of_add_eq_zero_right (Nat.succ.inj once))
  have hnone : before.find? (·.1 == name) = none :=
    List.find?_eq_none.mpr fun field hfield hname =>
      hfirst (eq_of_beq hname ▸ List.mem_map_of_mem hfield)
  rw [RecordLayout.find?, hfields, List.find?_append, hnone]
  simp

/-- **A decoded record holds the last field of every name.** In data of at least the length of the
    record that are decoded, every name that the layout finds has a value, and it is what the bytes
    at the place of the last field of that name are. This is the place that the layout finds if the
    name occurs once. -/
theorem Schema.decodeRecord_last (laid : schema.layoutOf record = .ok layout)
    (inside : layout.totalLength ≤ data.length)
    (decoded : schema.decodeRecord record data = .ok shown)
    (found : layout.find? name = some place) :
    ∃ before last after, layout.fields = before ++ (name, last) :: after ∧
      name ∉ after.map Prod.fst ∧
      (∃ value, Entries.get? name shown = some value) ∧
      (∀ value, Entries.get? name shown = some value ↔
        schema.decodeValue last.type (last.slice data) = .ok (value, [])) ∧
      (layout.names.count name = 1 → last = place) := by
  obtain ⟨hall, rfl⟩ := (decodeRecord_eq_ok laid inside).mp decoded
  obtain ⟨before, last, after, hfields, hlast⟩ :=
    exists_last_of_mem (List.mem_map_of_mem (RecordLayout.mem_of_find? found))
  obtain ⟨value, hvalue⟩ := hall (name, last) (hfields ▸ List.mem_append_right _ List.mem_cons_self)
  have hget : Entries.get? name (Entries.ofList (layout.fields.map fun p =>
      (p.1, schema.valueAt data p.2))) = some value := by
    rw [hfields, List.map_append, List.map_cons, Entries.get?_ofList_of_last, hvalue.valueAt_eq]
    rw [List.map_map]
    exact hlast
  refine ⟨before, last, after, hfields, hlast, ⟨value, hget⟩, fun other => ?_, fun once => ?_⟩
  · rw [hget, show schema.decodeValue last.type (last.slice data) = .ok (value, []) from hvalue]
    simp
  · exact Option.some.inj ((find?_of_count hfields once).symm.trans found)

/-- A record of two fields of one name. -/
def Schema.twice : Schema :=
  empty |>.withStruct "Twice" [⟨"a", .primitive .u8⟩, ⟨"a", .primitive .u8⟩]

/-- The layout of these fields. -/
def Schema.twiceLayout : RecordLayout :=
  ⟨"Twice", 0, 2, [("a", ⟨0, 1, .primitive .u8⟩), ("a", ⟨1, 1, .primitive .u8⟩)]⟩

/-- The layout finds the byte one, the record holds the byte two. -/
theorem Schema.decodeRecord_twice :
    ∃ (place last : Placement) (shown : Entries Json),
      Schema.twiceLayout.find? "a" = some place ∧
      Schema.twice.decodeRecord "Twice" [1, 2] = .ok shown ∧
      Entries.get? "a" shown = some (.nat 2) ∧
      Schema.twice.decodeValue last.type (last.slice [1, 2]) = .ok (.nat 2, []) ∧
      Schema.twice.decodeValue place.type (place.slice [1, 2]) = .ok (.nat 1, []) := by
  have laid : Schema.twice.layoutOf "Twice" = .ok Schema.twiceLayout := by decide +kernel
  have inside : Schema.twiceLayout.totalLength ≤ [(1 : UInt8), 2].length := by decide
  have decoded : Schema.twice.decodeRecord "Twice" [1, 2] = .ok [("a", .nat 2)] := rfl
  have found : Schema.twiceLayout.find? "a" = some ⟨0, 1, .primitive .u8⟩ := rfl
  obtain ⟨_, last, _, _, _, _, hvalue, _⟩ := Schema.decodeRecord_last laid inside decoded found
  exact ⟨_, last, _, found, decoded, rfl, (hvalue _).mp rfl, rfl⟩

end LedgerScan
