import LedgerScan.Proofs.Filter.Conditions
import LedgerScan.Proofs.Scan.Fetch
import Mathlib.Data.List.Sort
import Mathlib.Order.Interval.Finset.Nat

/-!
# Compared bytes never conflict

The node compares bytes for the discriminator of a record and for conditions on its fields. There is
at most one condition on a field, fields of different names lie apart, and all of them lie behind
the discriminator. So no two comparisons share a position, and there are always data that pass them
all.

* `exists_stands`: bytes that lie apart from each other stand together in some data;
* `literals_of_pushDown`: what is compared is the discriminator and then, by their offsets, the
  bytes that conditions ask for;
* `Scan.literals_compatible`: of a leaf that can be planned these lie apart, and the node admits
  some data.
-/

namespace LedgerScan

open Fallible

/-! ## 1. Bytes that lie apart -/

section Apart

variable {data : List UInt8} {literal other : Nat × List UInt8} {total : Nat}

/-- The positions of the data that bytes at an offset are compared with. -/
def positions (literal : Nat × List UInt8) : Finset Nat :=
  Finset.Ico literal.1 (literal.1 + literal.2.length)

/-- One of two literals ends before the other starts. -/
def LiesApart (a b : Nat × List UInt8) : Prop :=
  a.1 + a.2.length ≤ b.1 ∨ b.1 + b.2.length ≤ a.1

theorem LiesApart.symm (h : LiesApart literal other) : LiesApart other literal :=
  Or.symm h

theorem LiesApart.disjoint (h : LiesApart literal other) :
    Disjoint (positions literal) (positions other) := by
  rw [Finset.disjoint_left]
  intro position hliteral hother
  obtain ⟨hfrom, hto⟩ := Finset.mem_Ico.mp hliteral
  obtain ⟨hfrom', hto'⟩ := Finset.mem_Ico.mp hother
  unfold LiesApart at h
  omega

/-- The data with bytes written over what stood at their place. -/
def overwrite (data : List UInt8) (literal : Nat × List UInt8) : List UInt8 :=
  data.take literal.1 ++ literal.2 ++ data.drop (literal.1 + literal.2.length)

theorem length_overwrite (inside : literal.1 + literal.2.length ≤ data.length) :
    (overwrite data literal).length = data.length := by
  simp only [overwrite, List.length_append, List.length_take, List.length_drop]
  omega

theorem stands_overwrite (inside : literal.1 + literal.2.length ≤ data.length) :
    Stands (overwrite data literal) literal := by
  have hfront : (data.take literal.1).length = literal.1 := by
    rw [List.length_take]
    omega
  refine ⟨(length_overwrite inside).symm ▸ inside, ?_⟩
  rw [overwrite, List.append_assoc, List.drop_left' hfront, List.take_left]

/-- What lies apart from the bytes that are written is still there. -/
theorem Stands.overwrite (h : Stands data other)
    (inside : literal.1 + literal.2.length ≤ data.length) (apart : LiesApart literal other) :
    Stands (overwrite data literal) other := by
  obtain ⟨hother, hbytes⟩ := h
  have hfront : (data.take literal.1 ++ literal.2).length = literal.1 + literal.2.length := by
    rw [List.length_append, List.length_take]
    omega
  refine ⟨(length_overwrite inside).symm ▸ hother, ?_⟩
  unfold LedgerScan.overwrite
  rcases apart with hbefore | hafter
  · rw [List.drop_append, List.drop_eq_nil_of_le (hfront.trans_le hbefore), List.nil_append, hfront,
      List.drop_drop, Nat.add_sub_cancel' hbefore]
    exact hbytes
  · have hskip : other.1 ≤ (data.take literal.1).length := by
      rw [List.length_take]
      omega
    have hkeep : other.2.length ≤ ((data.take literal.1).drop other.1).length := by
      rw [List.length_drop, List.length_take]
      omega
    rw [List.append_assoc, List.drop_append_of_le_length hskip,
      List.take_append_of_le_length hkeep, List.drop_take, List.take_take,
      Nat.min_eq_left (by omega)]
    exact hbytes

/-- **Bytes that lie apart from each other stand together in some data.** They are written one after
    the other, by induction on their list. -/
theorem exists_stands : ∀ {literals : List (Nat × List UInt8)}, literals.Pairwise LiesApart →
    (∀ literal ∈ literals, literal.1 + literal.2.length ≤ total) →
    ∃ data : List UInt8, data.length = total ∧ ∀ literal ∈ literals, Stands data literal
  | [], _, _ => ⟨List.replicate total 0, List.length_replicate, nofun⟩
  | literal :: literals, apart, inside => by
      obtain ⟨hfirst, hrest⟩ := List.pairwise_cons.mp apart
      rw [List.forall_mem_cons] at inside
      obtain ⟨data, rfl, hstands⟩ := exists_stands hrest inside.2
      refine ⟨overwrite data literal, length_overwrite inside.1, ?_⟩
      rw [List.forall_mem_cons]
      exact ⟨stands_overwrite inside.1, fun other hother =>
        (hstands other hother).overwrite inside.1 (hfirst other hother)⟩

end Apart

/-! ## 2. The bytes that conditions ask for -/

section Conditions

variable {schema : Schema} {record : String} {layout : RecordLayout} {field : String}
  {condition : Condition} {test : (Nat × List UInt8) ⊕ (String × Predicate)}
  {literal : Nat × List UInt8} {entry : String × Condition} {conditions : Conditions}

/-- Whether a condition is left to the node. -/
def Condition.comparesBytes : Condition → Bool
  | .eq _ | .isNull => true
  | .satisfies _ => false

/-- The bytes that a condition asks for at the place of its field. -/
def Condition.bytes? (condition : Condition) (place : Placement) : Option (List UInt8) :=
  match condition with
  | .eq literal => some literal.encode
  | .isNull => some (List.replicate place.length 0)
  | .satisfies _ => none

/-- The bytes that the condition on a field asks for, with their offset. -/
def RecordLayout.literal? (layout : RecordLayout) (entry : String × Condition) :
    Option (Nat × List UInt8) :=
  (layout.find? entry.1).bind fun place =>
    (entry.2.bytes? place).map fun bytes => (place.offset, bytes)

theorem getLeft?_of_test (h : layout.test field condition = .ok test) :
    test.getLeft? = layout.literal? (field, condition) := by
  obtain ⟨place, hfind, rfl, _⟩ := test_eq_ok h
  unfold RecordLayout.literal?
  rw [hfind]
  cases condition <;> rfl

theorem isSome_literal? (h : layout.test field condition = .ok test) :
    (layout.literal? (field, condition)).isSome = condition.comparesBytes := by
  obtain ⟨place, hfind, _⟩ := test_eq_ok h
  unfold RecordLayout.literal?
  rw [hfind]
  cases condition <;> rfl

/-- Planned bytes fill the place of their field. -/
theorem exists_place_of_literal? (h : layout.test entry.1 entry.2 = .ok test)
    (hliteral : layout.literal? entry = some literal) :
    ∃ place, layout.find? entry.1 = some place ∧ literal.1 = place.offset ∧
      literal.1 + literal.2.length = place.stop := by
  obtain ⟨place, hfind, _, hlength⟩ := test_eq_ok h
  unfold RecordLayout.literal? at hliteral
  rw [hfind, Option.bind_some] at hliteral
  obtain ⟨bytes, hbytes, rfl⟩ := Option.map_eq_some_iff.mp hliteral
  refine ⟨place, hfind, rfl, congrArg (place.offset + ·) ?_⟩
  cases hcondition : entry.2 with
  | eq value =>
    rw [hcondition] at hbytes
    cases hbytes
    exact hlength value hcondition
  | isNull =>
    rw [hcondition] at hbytes
    cases hbytes
    exact List.length_replicate
  | satisfies _ =>
    rw [hcondition] at hbytes
    cases hbytes

variable {tests : List ((Nat × List UInt8) ⊕ (String × Predicate))}

theorem filterMap_getLeft?
    (planned : conditions.entries.mapM (fun entry => layout.test entry.1 entry.2) = .ok tests) :
    tests.filterMap Sum.getLeft? = conditions.entries.filterMap layout.literal? :=
  filterMap_of_mapM_ok planned fun _ _ _ h => getLeft?_of_test h

/-- There are as many of them as conditions that compare bytes. -/
theorem length_filterMap_literal?
    (planned : conditions.entries.mapM (fun entry => layout.test entry.1 entry.2) = .ok tests) :
    (conditions.entries.filterMap layout.literal?).length
      = conditions.entries.countP (·.2.comparesBytes) := by
  rw [List.length_filterMap_eq_countP]
  refine List.countP_congr fun entry hentry => ?_
  obtain ⟨test, _, htest⟩ := (mem_of_mapM_ok planned).1 entry hentry
  rw [isSome_literal? htest]

/-- They lie behind the discriminator and inside the record. -/
theorem bounds_of_mem_filterMap_literal? (laid : schema.layoutOf record = .ok layout)
    (planned : conditions.entries.mapM (fun entry => layout.test entry.1 entry.2) = .ok tests)
    (h : literal ∈ conditions.entries.filterMap layout.literal?) :
    layout.headerLength ≤ literal.1 ∧ literal.1 + literal.2.length ≤ layout.totalLength := by
  obtain ⟨_, _, _, _, placed⟩ := Schema.placed_of_layoutOf laid
  obtain ⟨entry, hentry, hliteral⟩ := List.mem_filterMap.mp h
  obtain ⟨test, _, htest⟩ := (mem_of_mapM_ok planned).1 entry hentry
  obtain ⟨place, hfind, hoffset, hstop⟩ := exists_place_of_literal? htest hliteral
  obtain ⟨hfrom, hto, _⟩ := placed.bounds _ (RecordLayout.mem_of_find? hfind)
  exact ⟨hoffset.symm ▸ hfrom, hstop.trans_le hto⟩

/-- **Conditions on different fields ask for bytes that lie apart**, also if names repeat in the
    record: what is found by different names are different fields. -/
theorem pairwise_filterMap_literal? (laid : schema.layoutOf record = .ok layout)
    (distinct : conditions.fields.Nodup)
    (planned : conditions.entries.mapM (fun entry => layout.test entry.1 entry.2) = .ok tests) :
    (conditions.entries.filterMap layout.literal?).Pairwise LiesApart := by
  obtain ⟨_, _, _, _, placed⟩ := Schema.placed_of_layoutOf laid
  have hto := (mem_of_mapM_ok planned).1
  have hnames : conditions.entries.Pairwise fun a b => a.1 ≠ b.1 := List.pairwise_map.mp distinct
  rw [List.pairwise_filterMap]
  refine hnames.imp_of_mem fun {a b} ha hb hne x hx y hy => ?_
  obtain ⟨_, _, htest⟩ := hto a ha
  obtain ⟨p, hp, hoffset, hstop⟩ := exists_place_of_literal? htest hx
  obtain ⟨_, _, htest'⟩ := hto b hb
  obtain ⟨q, hq, hoffset', hstop'⟩ := exists_place_of_literal? htest' hy
  have hapart := placed.apart _ (RecordLayout.mem_of_find? hp) _ (RecordLayout.mem_of_find? hq)
  unfold LiesApart
  rw [hstop, hstop', hoffset, hoffset']
  exact hapart.resolve_left fun hsame => hne (Prod.mk.inj hsame).1

end Conditions

/-! ## 3. The bytes of a plan -/

namespace RecordLayout

variable {entries : List (Nat × List UInt8)}

theorem insertByOffset_eq (entry : Nat × List UInt8) (entries : List (Nat × List UInt8)) :
    insertByOffset entry entries = entries.orderedInsert (·.1 ≤ ·.1) entry := by
  induction entries with
  | nil => rfl
  | cons other rest ih => rw [insertByOffset, List.orderedInsert, ih]

theorem sortByOffset_eq (entries : List (Nat × List UInt8)) :
    sortByOffset entries = entries.insertionSort (·.1 ≤ ·.1) := by
  induction entries with
  | nil => rfl
  | cons entry entries ih =>
    show insertByOffset entry (sortByOffset entries) = _
    rw [ih, insertByOffset_eq, List.insertionSort_cons]

theorem perm_sortByOffset (entries : List (Nat × List UInt8)) :
    (sortByOffset entries).Perm entries :=
  sortByOffset_eq entries ▸ List.perm_insertionSort _ entries

theorem pairwise_sortByOffset (entries : List (Nat × List UInt8)) :
    (sortByOffset entries).Pairwise (·.1 ≤ ·.1) := by
  have : Std.Total fun a b : Nat × List UInt8 => a.1 ≤ b.1 := ⟨fun a b => Nat.le_total a.1 b.1⟩
  have : IsTrans (Nat × List UInt8) (·.1 ≤ ·.1) := ⟨fun _ _ _ => Nat.le_trans⟩
  rw [sortByOffset_eq]
  exact List.pairwise_insertionSort _ entries

/-- Nothing has a smaller offset than the discriminator, and it stays in front. -/
theorem sortByOffset_header (discriminator : List UInt8) (entries : List (Nat × List UInt8)) :
    sortByOffset (header discriminator ++ entries)
      = header discriminator ++ sortByOffset entries := by
  unfold header
  split
  · rfl
  · show insertByOffset (0, discriminator) (sortByOffset entries) = _
    cases sortByOffset entries with
    | nil => rfl
    | cons other rest => exact if_pos (Nat.zero_le _)

end RecordLayout

section Plans

variable {schema : Schema} {record : String} {layout : RecordLayout} {conditions : Conditions}
  {selection : Selection} {pushdown : Pushdown}

/-- What is compared: the discriminator, and then the bytes that conditions ask for. -/
theorem literals_of_pushDown {discriminator : List UInt8}
    (planned : layout.pushDown conditions selection discriminator = .ok pushdown) :
    pushdown.totalLength = layout.totalLength ∧
    pushdown.literals = RecordLayout.header discriminator
      ++ RecordLayout.sortByOffset (conditions.entries.filterMap layout.literal?) := by
  obtain ⟨tests, window, htests, _, rfl⟩ := RecordLayout.pushDown_eq_ok.mp planned
  rw [Pushdown.literals_mk, RecordLayout.sortByOffset_header, filterMap_getLeft? htests]
  exact ⟨rfl, rfl⟩

/-- **What is compared lies apart**, in the order of the offsets and inside the record. -/
theorem literals_apart (laid : schema.layoutOf record = .ok layout)
    (distinct : conditions.fields.Nodup)
    (planned : layout.pushDown conditions selection (schema.discriminator record)
      = .ok pushdown) :
    pushdown.literals.Pairwise (fun a b => a.1 ≤ b.1) ∧ pushdown.literals.Pairwise LiesApart ∧
      ∀ literal ∈ pushdown.literals, literal.1 + literal.2.length ≤ layout.totalLength := by
  obtain ⟨_, _, _, hheader, placed⟩ := Schema.placed_of_layoutOf laid
  obtain ⟨tests, _, htests, _⟩ := RecordLayout.pushDown_eq_ok.mp planned
  have hperm := RecordLayout.perm_sortByOffset (conditions.entries.filterMap layout.literal?)
  have hbounds : ∀ literal ∈
      RecordLayout.sortByOffset (conditions.entries.filterMap layout.literal?),
      layout.headerLength ≤ literal.1 ∧ literal.1 + literal.2.length ≤ layout.totalLength :=
    fun literal h => bounds_of_mem_filterMap_literal? laid htests (hperm.mem_iff.mp h)
  have hfields : (RecordLayout.sortByOffset
      (conditions.entries.filterMap layout.literal?)).Pairwise LiesApart :=
    hperm.symm.pairwise (pairwise_filterMap_literal? laid distinct htests) LiesApart.symm
  have hsorted := RecordLayout.pairwise_sortByOffset
    (conditions.entries.filterMap layout.literal?)
  rw [(literals_of_pushDown planned).2]
  unfold RecordLayout.header
  split
  · exact ⟨hsorted, hfields, fun literal h => (hbounds literal h).2⟩
  · refine ⟨List.pairwise_cons.mpr ⟨fun _ _ => Nat.zero_le _, hsorted⟩,
      List.pairwise_cons.mpr ⟨fun literal h => .inl ?_, hfields⟩, ?_⟩
    · rw [Nat.zero_add, ← hheader]
      exact (hbounds literal h).1
    · rw [List.forall_mem_append]
      refine ⟨fun literal h => ?_, fun literal h => (hbounds literal h).2⟩
      obtain rfl := List.mem_singleton.mp h
      rw [Nat.zero_add, ← hheader]
      exact placed.le

end Plans

/-- **Compared bytes never conflict.** Let a leaf with conditions from any calls be planned. What
    the node compares is the discriminator, if the record has one, and then one byte string for each
    condition that compares bytes, all of them behind the discriminator. They are in the order of
    their offsets, lie inside the record, and no two share a position. So there are data of the
    record's length that pass all tests which the node reads from the request. -/
theorem Scan.literals_compatible (scan : Scan) {layout : RecordLayout}
    (laid : scan.schema.layoutOf scan.record = .ok layout) (commitment : Commitment) (leaf : Leaf)
    (calls : List (String × Condition)) (number : Nat) {plan : LeafPlan}
    (planned : scan.planLeaf layout commitment (leaf.filtered (.ofCalls calls)) number
      = .ok plan) :
    let discriminator := scan.schema.discriminator scan.record
    let literals := plan.pushdown.literals
    (∃ fields, literals = (if discriminator = [] then [] else [(0, discriminator)]) ++ fields ∧
      fields.length = (Conditions.ofCalls calls).entries.countP (·.2.comparesBytes) ∧
      ∀ literal ∈ fields, layout.headerLength ≤ literal.1) ∧
    literals.Pairwise (fun a b => a.1 ≤ b.1) ∧
    literals.Pairwise (fun a b => Disjoint (positions a) (positions b)) ∧
    (∀ literal ∈ literals, literal.1 + literal.2.length ≤ layout.totalLength) ∧
    ∃ query data, NodeQuery.ofJson? plan.request = some query ∧
      data.length = layout.totalLength ∧ query.admits data = true := by
  intro discriminator literals
  obtain ⟨_, pushdown, hpushdown, rfl⟩ := planLeaf_eq_ok.mp planned
  obtain ⟨tests, _, htests, _⟩ := RecordLayout.pushDown_eq_ok.mp hpushdown
  obtain ⟨htotal, hliterals⟩ := literals_of_pushDown hpushdown
  obtain ⟨hsorted, hapart, hinside⟩ :=
    literals_apart laid (Conditions.nodup_fields_ofCalls calls) hpushdown
  have hperm := RecordLayout.perm_sortByOffset
    ((Conditions.ofCalls calls).entries.filterMap layout.literal?)
  obtain ⟨data, hlength, hstands⟩ := exists_stands hapart hinside
  refine ⟨⟨_, ?_, hperm.length_eq.trans (length_filterMap_literal? htests), fun literal h => ?_⟩,
    hsorted, hapart.imp LiesApart.disjoint, hinside, _, data, ofJson?_request _ _ _, hlength, ?_⟩
  · show pushdown.literals = _
    rw [hliterals, RecordLayout.header]
    simp only [List.isEmpty_iff]
    rfl
  · exact (bounds_of_mem_filterMap_literal? laid htests (hperm.mem_iff.mp h)).1
  · exact (all_tests_iff pushdown data).mpr ⟨fun _ => hlength.trans htotal.symm, hstands⟩

/-- A record that repeats a name and has a field without bytes between the two. -/
def Schema.crooked : Schema :=
  empty |>.withStruct "Crooked" [⟨"a", .primitive .u8⟩, ⟨"gap", .array (.primitive .u8) 0⟩,
      ⟨"a", .primitive .u16⟩, ⟨"b", .primitive .u8⟩]
    |>.withDiscriminator "Crooked" [9, 9]

/-- The layout of a crooked record. -/
def Schema.crookedLayout : RecordLayout :=
  ⟨"Crooked", 2, 6, [("a", ⟨2, 1, .primitive .u8⟩), ("gap", ⟨3, 0, .array (.primitive .u8) 0⟩),
    ("a", ⟨3, 2, .primitive .u16⟩), ("b", ⟨5, 1, .primitive .u8⟩)]⟩

/-- Calls that set a condition on `b`, one on the field without bytes, one on the first `a`, and `b`
    once more. -/
def crookedCalls : List (String × Condition) :=
  [("b", .isNull), ("gap", .eq (.bytes [])), ("a", .eq (.bytes [1])), ("b", .eq (.bytes [3]))]

/-- A condition that is replaced leaves no bytes, one on a field without bytes leaves empty ones. -/
theorem literals_of_crooked :
    ∃ plan, (Scan.ofRecord Schema.crooked "Crooked").planLeaf Schema.crookedLayout .confirmed
        ((Leaf.ofAddress "program").filtered (.ofCalls crookedCalls)) 1 = .ok plan ∧
      plan.pushdown.literals = [(0, [9, 9]), (2, [1]), (3, []), (5, [3])] ∧
      ∃ query data, NodeQuery.ofJson? plan.request = some query ∧ data.length = 6 ∧
        query.admits data = true := by
  have laid : Schema.crooked.layoutOf "Crooked" = .ok Schema.crookedLayout := by decide +kernel
  obtain ⟨_, _, _, _, hdata⟩ := Scan.literals_compatible
    (Scan.ofRecord Schema.crooked "Crooked") laid .confirmed (Leaf.ofAddress "program")
    crookedCalls 1 rfl
  exact ⟨_, rfl, rfl, hdata⟩

end LedgerScan
