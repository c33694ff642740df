import LedgerScan.Proofs.Filter.Conditions
import LedgerScan.Proofs.Scan.Filters

/-!
# What calls leave behind

Conditions are set by calls, and a plan is made of the conditions. So a plan has no more to show of
the calls than the conditions have: the fields in the order in which they were first called, and for
each the condition of the last call on it.

* `Condition.Becomes`: the filter that a condition on a field becomes, by the kind of condition;
* `RecordLayout.exists_filters`: a plan has one filter for each condition, and one for the
  discriminator if there is one;
* `Conditions.exists_filters_ofCalls`: of a field that was called there is one filter, that of its
  last call.

`Conditions.ofCalls_exact` puts this together with what calls make of the conditions.
-/

namespace LedgerScan

open Fallible

/-! ## 1. One filter for each condition -/

/-- **What a condition on a field becomes**: bytes at the place of the field, those of the literal
    or as many zeros as the field is long, or a predicate on the field. -/
inductive Condition.Becomes (layout : RecordLayout) (field : String) :
    Condition → Filter → Prop where
  | literal {literal : Literal} {place : Placement} (found : layout.find? field = some place) :
      Becomes layout field (.eq literal) (.bytes place.offset literal.encode)
  | zeros {place : Placement} (found : layout.find? field = some place) :
      Becomes layout field .isNull (.bytes place.offset (List.replicate place.length 0))
  | predicate (predicate : Predicate) :
      Becomes layout field (.satisfies predicate) (.predicate field predicate)

/-- The filter that a test is. -/
def Filter.ofTest : (Nat × List UInt8) ⊕ (String × Predicate) → Filter
  | .inl (offset, data) => .bytes offset data
  | .inr (field, test) => .predicate field test

section Plan

variable {layout : RecordLayout} {field : String} {condition : Condition} {conditions : Conditions}
  {selection : Selection} {discriminator : List UInt8} {pushdown : Pushdown}
  {tests : List ((Nat × List UInt8) ⊕ (String × Predicate))}

theorem Condition.becomes_of_test {test : (Nat × List UInt8) ⊕ (String × Predicate)}
    (h : layout.test field condition = .ok test) :
    condition.Becomes layout field (Filter.ofTest test) := by
  obtain ⟨place, found, rfl, _⟩ := test_eq_ok h
  cases condition with
  | eq literal => exact .literal found
  | isNull => exact .zeros found
  | satisfies predicate => exact .predicate predicate

/-- Bytes first and predicates behind them is only another order of the tests. -/
theorem Filter.perm_ofTest (tests : List ((Nat × List UInt8) ⊕ (String × Predicate))) :
    ((tests.filterMap Sum.getLeft?).map (fun literal => Filter.bytes literal.1 literal.2)
      ++ (tests.filterMap Sum.getRight?).map (fun p => Filter.predicate p.1 p.2)).Perm
    (tests.map Filter.ofTest) := by
  induction tests with
  | nil => exact .nil
  | cons test tests ih =>
    cases test with
    | inl bytes => exact ih.cons _
    | inr test => exact List.perm_middle.trans (ih.cons _)

/-- **A plan has one filter for each condition**, besides the one for the discriminator. -/
theorem RecordLayout.exists_filters
    (planned : layout.pushDown conditions selection discriminator = .ok pushdown) :
    ∃ filters, List.Forall₂ (fun entry filter => entry.2.Becomes layout entry.1 filter)
        conditions.entries filters ∧
      pushdown.filters.Perm
        ((header discriminator).map (fun literal => Filter.bytes literal.1 literal.2)
          ++ filters) := by
  obtain ⟨tests, window, htests, _, rfl⟩ := pushDown_eq_ok.mp planned
  refine ⟨tests.map Filter.ofTest, ?_, ?_⟩
  · refine List.forall₂_map_right_iff.mpr ((forall₂_of_mapM_ok htests).imp fun _ _ h => ?_)
    exact Condition.becomes_of_test h
  · refine (((perm_sortByOffset _).map _).append_right _).trans ?_
    rw [List.map_append, List.append_assoc]
    exact (Filter.perm_ofTest tests).append_left _

end Plan

/-! ## 2. One filter for each field that was called -/

namespace Conditions

variable {calls : List (String × Condition)} {layout : RecordLayout} {selection : Selection}
  {discriminator : List UInt8} {pushdown : Pushdown}

theorem lastCall_of_mem {entry : String × Condition} (h : entry ∈ (ofCalls calls).entries) :
    LastCall calls entry.1 entry.2 :=
  find?_ofCalls_eq_some.mp (Entries.get?_of_nodup (nodup_fields_ofCalls calls) h)

/-- **Of each field that was called there is one filter**, the one that the condition of the last
    call on it becomes. -/
theorem exists_filters_ofCalls
    (planned : layout.pushDown (ofCalls calls) selection discriminator = .ok pushdown) :
    ∃ filters,
      List.Forall₂ (fun field filter => ∃ condition, LastCall calls field condition ∧
        condition.Becomes layout field filter) (calls.map Prod.fst).eraseDups filters ∧
      pushdown.filters.Perm
        ((RecordLayout.header discriminator).map (fun literal => Filter.bytes literal.1 literal.2)
          ++ filters) := by
  obtain ⟨filters, hbecome, hperm⟩ := RecordLayout.exists_filters planned
  refine ⟨filters, ?_, hperm⟩
  rw [← fields_ofCalls]
  have hlast := (List.forall₂_and_left _ _).mpr ⟨fun _ => lastCall_of_mem, hbecome⟩
  exact List.forall₂_map_left_iff.mpr (hlast.imp fun _ _ h => ⟨_, h⟩)

/-! ## 3. Calls that leave nothing behind -/

/-- Two neighbouring calls on different fields can change places as far as each field is
    concerned. -/
theorem find?_ofCalls_swap {a b : String × Condition} (differ : a.1 ≠ b.1)
    (before after : List (String × Condition)) (field : String) :
    (ofCalls (before ++ b :: a :: after)).find? field
      = (ofCalls (before ++ a :: b :: after)).find? field := by
  rw [find?_ofCalls, find?_ofCalls]
  simp only [List.reverse_append, List.reverse_cons, List.append_assoc, List.singleton_append,
    Entries.get?_append]
  refine congrArg (Option.or _) ?_
  by_cases ha : a.1 = field
  · have hb : b.1 ≠ field := fun hb => differ (ha.trans hb.symm)
    simp only [Entries.get?, if_pos ha, if_neg hb]
  · simp only [Entries.get?, if_neg ha]

/-- Nothing of a call is left when the same field is called again. -/
theorem ofCalls_replaced (before between after : List (String × Condition)) (field : String)
    (earlier other later : Condition) :
    ofCalls (before ++ (field, other) :: (between ++ (field, later) :: after))
      = ofCalls (before ++ (field, earlier) :: (between ++ (field, later) :: after)) := by
  refine ofCalls_congr (by simp only [List.map_append, List.map_cons]) fun name => ?_
  simp only [List.reverse_append, List.reverse_cons, List.append_assoc, List.singleton_append,
    Entries.get?_append]
  by_cases hname : field = name
  · simp only [Entries.get?, if_pos hname, Option.some_or]
  · simp only [Entries.get?, if_neg hname]

/-- **Conditions are a map in the order of first mention, in which the last call wins.** After any
    series of calls no field has two conditions. The fields that have one are those that were
    called, in the order of their first calls, and each has the condition of the last call on it.
    Two neighbouring calls on different fields can change places without changing the condition of
    any field. A call that is replaced by a later one on the same field might as well have set any
    other condition: the result is the same, and so is all that is made of it. What is made of it
    are filters, one of each field that was called, and it is what the condition of the last call on
    the field becomes; the only other filter is that of the discriminator, if there is one. -/
theorem ofCalls_exact (calls : List (String × Condition)) :
    (ofCalls calls).fields.Nodup ∧
    (ofCalls calls).fields = (calls.map Prod.fst).eraseDups ∧
    (∀ field condition,
      (ofCalls calls).find? field = some condition ↔ LastCall calls field condition) ∧
    (∀ before a b after, calls = before ++ a :: b :: after → a.1 ≠ b.1 → ∀ field,
      (ofCalls (before ++ b :: a :: after)).find? field = (ofCalls calls).find? field) ∧
    (∀ before field earlier between later after,
      calls = before ++ (field, earlier) :: (between ++ (field, later) :: after) → ∀ other,
        ofCalls (before ++ (field, other) :: (between ++ (field, later) :: after))
          = ofCalls calls) ∧
    ∀ (layout : RecordLayout) selection discriminator pushdown,
      layout.pushDown (ofCalls calls) selection discriminator = .ok pushdown →
      ∃ filters,
        List.Forall₂ (fun field filter => ∃ condition, LastCall calls field condition ∧
          condition.Becomes layout field filter) (calls.map Prod.fst).eraseDups filters ∧
        pushdown.filters.Perm
          ((RecordLayout.header discriminator).map (fun literal => Filter.bytes literal.1 literal.2)
            ++ filters) := by
  refine ⟨nodup_fields_ofCalls calls, fields_ofCalls calls, fun _ _ => find?_ofCalls_eq_some,
    ?_, ?_, fun layout selection discriminator pushdown planned => ?_⟩
  · rintro before a b after rfl differ field
    exact find?_ofCalls_swap differ before after field
  · rintro before field earlier between later after rfl other
    exact ofCalls_replaced before between after field earlier other later
  · exact exists_filters_ofCalls planned

/-- Calls on two fields, of which the first is called with bytes and then with a predicate. -/
def replacedCalls (predicate : Predicate) : List (String × Condition) :=
  [("b", .eq (.bytes [3])), ("a", .isNull), ("b", .satisfies predicate)]

/-- The bytes are not compared any more, and the field stands before the other one still. -/
theorem ofCalls_replacedCalls :
    let predicate : Predicate := fun value _ => value.same (.nat 3)
    let calls := replacedCalls predicate
    (ofCalls calls).fields = ["b", "a"] ∧
      (ofCalls calls).find? "b" = some (.satisfies predicate) ∧
      ofCalls calls = ofCalls [("b", .isNull), ("a", .isNull), ("b", .satisfies predicate)] ∧
      ∃ pushdown filters,
        Schema.narrowLayout.pushDown (ofCalls calls) .all [9] = .ok pushdown ∧
        List.Forall₂ (fun field filter => ∃ condition, LastCall calls field condition ∧
          condition.Becomes Schema.narrowLayout field filter) ["b", "a"] filters ∧
        pushdown.filters.Perm (Filter.bytes 0 [9] :: filters) := by
  intro predicate calls
  obtain ⟨_, hfields, hlast, _, hreplaced, hplanned⟩ := ofCalls_exact calls
  obtain ⟨filters, hbecome, hperm⟩ := hplanned Schema.narrowLayout .all [9] _ rfl
  exact ⟨hfields, (hlast "b" _).mpr ⟨[_, _], [], rfl, List.not_mem_nil⟩,
    (hreplaced [] "b" _ [("a", .isNull)] _ [] rfl .isNull).symm, _, filters, rfl, hbecome, hperm⟩

end Conditions

end LedgerScan
