import LedgerScan.Filter.Conditions
import LedgerScan.Proofs.Entries
import Mathlib.Data.List.Nodup

/-!
# Conditions set one after the other

Conditions come from calls that each set one field (`ofCalls`). A call changes the conditions in one
place, and which place that is does not depend on the condition that is set (`exists_put`): a field
that is there stays where it is, any other comes last (`fields_set`). So after a series of calls no
field is mentioned twice (`nodup_fields_ofCalls`), the fields stand in the order in which they were
first called (`fields_ofCalls`), and each has the condition of the last call on it
(`find?_ofCalls_eq_some`). This is all there is to conditions: `ofCalls_congr`.
-/

namespace LedgerScan.Conditions

variable {field other : String} {condition : Condition} {entries : List (String × Condition)}
  {conditions : Conditions} {calls others : List (String × Condition)}

/-- The conditions after some calls, each of which sets the condition of a field: `eq`, `isNull` and
    `satisfies` do so with a condition of their kind. -/
def ofCalls (calls : List (String × Condition)) : Conditions :=
  calls.foldl (fun conditions call => conditions.set call.1 call.2) empty

/-! ## 1. One call -/

/-- Whatever condition is set, it stands in the same place between the same others. -/
theorem exists_put (field : String) (entries : List (String × Condition)) :
    ∃ before after, ∀ condition,
      put field condition entries = before ++ (field, condition) :: after := by
  induction entries with
  | nil => exact ⟨[], [], fun _ => rfl⟩
  | cons entry rest ih =>
    obtain ⟨name, earlier⟩ := entry
    by_cases hname : name = field
    · subst hname
      exact ⟨[], rest, fun condition => by rw [put, if_pos rfl, List.nil_append]⟩
    · obtain ⟨before, after, h⟩ := ih
      exact ⟨(name, earlier) :: before, after, fun condition => by
        rw [put, if_neg hname, h, List.cons_append]⟩

theorem map_fst_put :
    (put field condition entries).map Prod.fst
      = if field ∈ entries.map Prod.fst then entries.map Prod.fst
        else entries.map Prod.fst ++ [field] := by
  induction entries with
  | nil => rfl
  | cons entry rest ih =>
    obtain ⟨name, earlier⟩ := entry
    unfold put
    by_cases hname : name = field
    · rw [if_pos hname, if_pos (hname ▸ List.mem_cons_self)]
      rfl
    · rw [if_neg hname, List.map_cons, ih, List.map_cons]
      simp only [List.mem_cons, Ne.symm hname, false_or]
      split <;> rfl

theorem get?_put :
    Entries.get? other (put field condition entries)
      = if field = other then some condition else Entries.get? other entries := by
  induction entries with
  | nil => rfl
  | cons entry rest ih =>
    obtain ⟨name, earlier⟩ := entry
    unfold put
    by_cases hname : name = field
    · subst hname
      rw [if_pos rfl, Entries.get?, Entries.get?]
      split <;> rfl
    · rw [if_neg hname, Entries.get?, Entries.get?, ih]
      by_cases hother : name = other
      · rw [if_pos hother, if_pos hother, if_neg fun heq => hname (hother.trans heq.symm)]
      · rw [if_neg hother, if_neg hother]

/-- A field that has a condition keeps its place, any other comes last. -/
theorem fields_set (conditions : Conditions) (field : String) (condition : Condition) :
    (conditions.set field condition).fields
      = if field ∈ conditions.fields then conditions.fields else conditions.fields ++ [field] :=
  map_fst_put

/-- The field has the condition that is set, every other one keeps its own. -/
theorem find?_set (conditions : Conditions) (field other : String) (condition : Condition) :
    (conditions.set field condition).find? other
      = if field = other then some condition else conditions.find? other :=
  get?_put

theorem nodup_fields_set (h : conditions.fields.Nodup) :
    (conditions.set field condition).fields.Nodup := by
  rw [fields_set]
  split
  · exact h
  · next hnew => exact List.concat_eq_append ▸ List.Nodup.concat hnew h

/-! ## 2. Many calls -/

theorem ofCalls_concat (calls : List (String × Condition)) (call : String × Condition) :
    ofCalls (calls ++ [call]) = (ofCalls calls).set call.1 call.2 :=
  List.foldl_append

/-- **No field has two conditions.** -/
theorem nodup_fields_ofCalls (calls : List (String × Condition)) :
    (ofCalls calls).fields.Nodup := by
  exact List.foldlRecOn (motive := fun conditions : Conditions => conditions.fields.Nodup)
    calls _ List.nodup_nil fun _ h _ _ => nodup_fields_set h

/-- **Fields stand in the order of their first calls.** -/
theorem fields_ofCalls (calls : List (String × Condition)) :
    (ofCalls calls).fields = (calls.map Prod.fst).eraseDups := by
  induction calls using List.reverseRecOn with
  | nil => rfl
  | append_singleton calls call ih =>
    rw [ofCalls_concat, fields_set, ih, List.map_append, List.eraseDups_append]
    by_cases hcalled : call.1 ∈ calls.map Prod.fst
    · simp [List.cons_removeAll, hcalled]
    · simp [List.cons_removeAll, List.eraseDups_cons, hcalled]

/-- The condition of a field is the first one that is met from behind. -/
theorem find?_ofCalls (calls : List (String × Condition)) (field : String) :
    (ofCalls calls).find? field = Entries.get? field calls.reverse := by
  induction calls using List.reverseRecOn with
  | nil => rfl
  | append_singleton calls call ih =>
    rw [ofCalls_concat, find?_set, ih, List.reverse_append]
    rfl

/-- The last call on a field sets this condition. -/
def LastCall (calls : List (String × Condition)) (field : String) (condition : Condition) : Prop :=
  ∃ before after, calls = before ++ (field, condition) :: after ∧ field ∉ after.map Prod.fst

/-- **A field has the condition of the last call on it**, and none if there was no call on it. -/
theorem find?_ofCalls_eq_some :
    (ofCalls calls).find? field = some condition ↔ LastCall calls field condition := by
  rw [find?_ofCalls, Entries.get?_eq_some_iff_append]
  constructor
  · rintro ⟨after, before, hcalls, hlast⟩
    refine ⟨before.reverse, after.reverse, ?_, by simpa [Entries.keys] using hlast⟩
    simpa using congrArg List.reverse hcalls
  · rintro ⟨before, after, rfl, hlast⟩
    exact ⟨after.reverse, before.reverse, by simp, by simpa [Entries.keys] using hlast⟩

/-- **Conditions are the order of the first calls and what the last calls set.** Where two series of
    calls agree on both, the conditions are the same. -/
theorem ofCalls_congr
    (fields : (calls.map Prod.fst).eraseDups = (others.map Prod.fst).eraseDups)
    (last : ∀ field, Entries.get? field calls.reverse = Entries.get? field others.reverse) :
    ofCalls calls = ofCalls others := by
  have hfields : (ofCalls calls).fields = (ofCalls others).fields := by
    rw [fields_ofCalls, fields_ofCalls, fields]
  have hentries : (ofCalls calls).entries = (ofCalls others).entries := by
    refine Entries.ext_of_nodup hfields (nodup_fields_ofCalls calls) fun field _ => ?_
    show (ofCalls calls).find? field = (ofCalls others).find? field
    rw [find?_ofCalls, find?_ofCalls, last]
  exact congrArg Conditions.mk hentries

end LedgerScan.Conditions
