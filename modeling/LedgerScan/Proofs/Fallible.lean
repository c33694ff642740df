import Mathlib.Data.List.Forall2
import Mathlib.Data.List.Induction

/-!
# Computations with a state that may fail

Lengths are computed with the names that are open, values are decoded off the front of the bytes
that are left: both carry a state and may fail. These are the laws by which their runs are taken
apart. Two steps succeed exactly when the first does and the second does from where the first
ended (`bind_eq_ok_iff`); with the outcome of the first step known, the two are the second step
from there (`bind_of_ok`) or the error of the first (`bind_of_error`). Planning may fail too, but
has no state: the sections behind the first have the same laws for it. Two plannings are compared by
`SucceedAlike`, which the steps that they are built of keep (`SucceedAlike.bind`).
-/

namespace LedgerScan.Fallible

variable {σ ε α β : Type} {x : StateT σ (Except ε) α} {f : α → StateT σ (Except ε) β} {s s' : σ}

@[simp] theorem pure_apply (a : α) : (pure a : StateT σ (Except ε) α) s = .ok (a, s) := rfl

@[simp] theorem throw_apply (e : ε) : (throw e : StateT σ (Except ε) α) s = .error e := rfl

theorem bind_of_ok {a : α} (h : x s = .ok (a, s')) : (x >>= f) s = f a s' := by
  show (x s >>= fun r => f r.1 r.2) = f a s'
  rw [h]
  rfl

theorem bind_of_error {e : ε} (h : x s = .error e) : (x >>= f) s = .error e := by
  show (x s >>= fun r => f r.1 r.2) = .error e
  rw [h]
  rfl

theorem bind_eq_ok_iff {r : β × σ} :
    (x >>= f) s = .ok r ↔ ∃ a s', x s = .ok (a, s') ∧ f a s' = .ok r := by
  constructor
  · intro h
    cases hx : x s with
    | error e => rw [bind_of_error hx] at h; cases h
    | ok first =>
      obtain ⟨a, s'⟩ := first
      rw [bind_of_ok hx] at h
      exact ⟨a, s', rfl, h⟩
  · rintro ⟨a, s', hx, h⟩
    rw [bind_of_ok hx]
    exact h

theorem bind_eq_error_iff {e : ε} :
    (x >>= f) s = .error e ↔
      x s = .error e ∨ ∃ a s', x s = .ok (a, s') ∧ f a s' = .error e := by
  cases hx : x s with
  | error e' => simp [bind_of_error hx]
  | ok first =>
    obtain ⟨a, s'⟩ := first
    simp only [bind_of_ok hx, reduceCtorEq, Except.ok.injEq, Prod.mk.injEq, false_or]
    exact ⟨fun h => ⟨a, s', ⟨rfl, rfl⟩, h⟩, fun ⟨_, _, ⟨ha, hs⟩, h⟩ => ha ▸ hs ▸ h⟩

/-- Two computations that agree where the first one runs agree with the same step after them. -/
theorem bind_congr_left {y : StateT σ (Except ε) α} (h : x s = y s) :
    (x >>= f) s = (y >>= f) s := by
  show (x s >>= fun r => f r.1 r.2) = y s >>= fun r => f r.1 r.2
  rw [h]

/-! ## Without a state -/

theorem except_bind_eq_ok {x : Except ε α} {f : α → Except ε β} {b : β} :
    (x >>= f) = .ok b ↔ ∃ a, x = .ok a ∧ f a = .ok b := by
  cases x with
  | error e => exact ⟨fun h => (by cases h), fun ⟨_, h, _⟩ => (by cases h)⟩
  | ok a => exact ⟨fun h => ⟨a, rfl, h⟩, fun ⟨_, ha, h⟩ => by cases ha; exact h⟩

theorem except_bind_of_error {x : Except ε α} {f : α → Except ε β} {e : ε} (h : x = .error e) :
    (x >>= f) = .error e := by
  rw [h]
  rfl

theorem except_map_eq_ok {x : Except ε α} {f : α → β} {b : β} :
    x.map f = .ok b ↔ ∃ a, x = .ok a ∧ f a = b := by
  cases x with
  | error e => exact ⟨nofun, nofun⟩
  | ok a =>
    exact ⟨fun h => ⟨a, rfl, Except.ok.inj h⟩, fun ⟨_, ha, h⟩ => by cases ha; exact congrArg _ h⟩

theorem except_map_eq_error {x : Except ε α} {f : α → β} {e : ε} :
    x.map f = .error e ↔ x = .error e := by
  cases x with
  | error e' => exact ⟨fun h => by cases h; rfl, fun h => by cases h; rfl⟩
  | ok a => exact ⟨nofun, nofun⟩

/-- Each of many steps that succeed together has its result among theirs, and no result is of
    another step. -/
theorem mem_of_mapM_ok {f : α → Except ε β} :
    ∀ {xs : List α} {ys : List β}, xs.mapM f = .ok ys →
      (∀ x ∈ xs, ∃ y ∈ ys, f x = .ok y) ∧ ∀ y ∈ ys, ∃ x ∈ xs, f x = .ok y
  | [], _, h => by
      cases h
      exact ⟨fun x hx => (by cases hx), fun y hy => (by cases hy)⟩
  | x :: xs, _, h => by
      rw [List.mapM_cons] at h
      obtain ⟨y, hy, h⟩ := except_bind_eq_ok.mp h
      obtain ⟨ys, hys, h⟩ := except_bind_eq_ok.mp h
      cases h
      obtain ⟨hto, hfrom⟩ := mem_of_mapM_ok hys
      constructor
      · intro z hz
        rcases List.mem_cons.mp hz with rfl | hz
        · exact ⟨y, List.mem_cons_self, hy⟩
        · obtain ⟨w, hw, hzw⟩ := hto z hz
          exact ⟨w, List.mem_cons_of_mem _ hw, hzw⟩
      · intro w hw
        rcases List.mem_cons.mp hw with rfl | hw
        · exact ⟨x, List.mem_cons_self, hy⟩
        · obtain ⟨z, hz, hzw⟩ := hfrom w hw
          exact ⟨z, List.mem_cons_of_mem _ hz, hzw⟩

/-- Where every step keeps what is read off it, the results of many steps have what these had. -/
theorem filterMap_of_mapM_ok {γ : Type} {f : α → Except ε β} {before : α → Option γ}
    {after : β → Option γ} :
    ∀ {xs : List α} {ys : List β}, xs.mapM f = .ok ys →
      (∀ x ∈ xs, ∀ y, f x = .ok y → after y = before x) →
      ys.filterMap after = xs.filterMap before
  | [], _, h, _ => by
      cases h
      rfl
  | x :: xs, _, h, hkept => by
      rw [List.mapM_cons] at h
      obtain ⟨y, hy, h⟩ := except_bind_eq_ok.mp h
      obtain ⟨ys, hys, h⟩ := except_bind_eq_ok.mp h
      cases h
      rw [List.forall_mem_cons] at hkept
      rw [List.filterMap_cons, List.filterMap_cons, hkept.1 y hy, filterMap_of_mapM_ok hys hkept.2]

/-- Many steps succeed together if each of them does, with the results in the order of the steps. -/
theorem mapM_eq_ok_iff {f : α → Except ε β} :
    ∀ {xs : List α} {ys : List β}, xs.mapM f = .ok ys ↔ xs.map f = ys.map .ok
  | [], [] => ⟨fun _ => rfl, fun _ => rfl⟩
  | [], _ :: _ => ⟨nofun, nofun⟩
  | x :: xs, ys => by
      rw [List.mapM_cons, except_bind_eq_ok]
      constructor
      · rintro ⟨y, hy, h⟩
        obtain ⟨ys, hys, h⟩ := except_bind_eq_ok.mp h
        cases h
        rw [List.map_cons, List.map_cons, hy, mapM_eq_ok_iff.mp hys]
      · intro h
        cases ys with
        | nil => cases h
        | cons y ys =>
          obtain ⟨hy, hys⟩ := List.cons.inj h
          exact ⟨y, hy, except_bind_eq_ok.mpr ⟨ys, mapM_eq_ok_iff.mpr hys, rfl⟩⟩

/-- Steps that succeed together, each beside its result. -/
theorem forall₂_of_mapM_ok {f : α → Except ε β} {xs : List α} {ys : List β}
    (h : xs.mapM f = .ok ys) : List.Forall₂ (fun x y => f x = .ok y) xs ys := by
  have hsame : List.Forall₂ Eq (xs.map f) (ys.map .ok) :=
    List.forall₂_eq_eq_eq ▸ mapM_eq_ok_iff.mp h
  rwa [List.forall₂_map_left_iff, List.forall₂_map_right_iff] at hsame

/-- Steps that all succeed succeed together. -/
theorem exists_mapM_ok {f : α → Except ε β} :
    ∀ {xs : List α}, (∀ x ∈ xs, ∃ y, f x = .ok y) → ∃ ys, xs.mapM f = .ok ys
  | [], _ => ⟨[], rfl⟩
  | x :: xs, h => by
      rw [List.forall_mem_cons] at h
      obtain ⟨⟨y, hy⟩, h⟩ := h
      obtain ⟨ys, hys⟩ := exists_mapM_ok h
      exact ⟨y :: ys, by rw [List.mapM_cons, hy, hys]; rfl⟩

/-- The error of a computation that fails. -/
def failure? : Except ε α → Option ε
  | .error e => some e
  | .ok _ => none

theorem failure?_eq_some {x : Except ε α} {e : ε} : failure? x = some e ↔ x = .error e := by
  cases x with
  | error e' => exact ⟨fun h => by cases h; rfl, fun h => by cases h; rfl⟩
  | ok a => exact ⟨nofun, nofun⟩

theorem failure?_eq_none {x : Except ε α} : failure? x = none ↔ ∃ a, x = .ok a := by
  cases x with
  | error e => exact ⟨nofun, nofun⟩
  | ok a => exact ⟨fun _ => ⟨a, rfl⟩, fun _ => rfl⟩

/-- **Many steps fail with the error of the first one that fails.** -/
theorem failure?_mapM (f : α → Except ε β) (xs : List α) :
    failure? (xs.mapM f) = xs.findSome? fun x => failure? (f x) := by
  induction xs with
  | nil => rfl
  | cons x xs ih =>
    rw [List.mapM_cons, List.findSome?_cons]
    cases f x with
    | error e => rfl
    | ok y =>
      show failure? (xs.mapM f >>= fun ys => pure (y :: ys)) = xs.findSome? _
      rw [← ih]
      cases xs.mapM f <;> rfl

/-- Something is wrong with one of many items, and with none before it. -/
def FirstFails (fails : α → ε → Prop) (xs : List α) (e : ε) : Prop :=
  ∃ before x after, xs = before ++ x :: after ∧ (∀ y ∈ before, ¬ ∃ e, fails y e) ∧ fails x e

section FirstFails

variable {failure : α → Option ε} {fails : α → ε → Prop} {xs : List α}

theorem eq_none_iff_of_eq_some_iff (h : ∀ x e, failure x = some e ↔ fails x e) (x : α) :
    failure x = none ↔ ¬ ∃ e, fails x e := by
  simp only [← h, Option.eq_none_iff_forall_ne_some, not_exists, ne_eq]

theorem findSome?_eq_none_iff_forall (h : ∀ x e, failure x = some e ↔ fails x e) :
    xs.findSome? failure = none ↔ ∀ x ∈ xs, ¬ ∃ e, fails x e := by
  simp only [List.findSome?_eq_none_iff, eq_none_iff_of_eq_some_iff h]

theorem findSome?_eq_some_iff_firstFails (h : ∀ x e, failure x = some e ↔ fails x e) {e : ε} :
    xs.findSome? failure = some e ↔ FirstFails fails xs e := by
  rw [List.findSome?_eq_some_iff]
  unfold FirstFails
  simp only [h, eq_none_iff_of_eq_some_iff h]
  constructor
  · rintro ⟨before, x, after, hxs, hx, hbefore⟩
    exact ⟨before, x, after, hxs, hbefore, hx⟩
  · rintro ⟨before, x, after, hxs, hbefore, hx⟩
    exact ⟨before, x, after, hxs, hx, hbefore⟩

/-- Where something is wrong with any item, something is wrong with a first one. -/
theorem exists_firstFails_iff : (∃ e, FirstFails fails xs e) ↔ ∃ x ∈ xs, ∃ e, fails x e := by
  constructor
  · rintro ⟨e, before, x, after, rfl, _, hx⟩
    exact ⟨x, List.mem_append_right _ List.mem_cons_self, e, hx⟩
  · rintro ⟨x, hx, e, he⟩
    induction xs with
    | nil => cases hx
    | cons y ys ih =>
      by_cases hy : ∃ e, fails y e
      · obtain ⟨e, hy⟩ := hy
        exact ⟨e, [], y, ys, rfl, nofun, hy⟩
      · rcases List.mem_cons.mp hx with rfl | hx
        · exact absurd ⟨e, he⟩ hy
        · obtain ⟨e, before, z, after, rfl, hbefore, hz⟩ := ih hx
          exact ⟨e, y :: before, z, after, rfl, List.forall_mem_cons.mpr ⟨hy, hbefore⟩, hz⟩

theorem FirstFails.singleton {x : α} {e : ε} (h : fails x e) : FirstFails fails [x] e :=
  ⟨[], x, [], rfl, nofun, h⟩

/-- The first thing that is wrong stays the first whatever comes behind it. -/
theorem FirstFails.append {e : ε} (h : FirstFails fails xs e) (ys : List α) :
    FirstFails fails (xs ++ ys) e := by
  obtain ⟨before, x, after, rfl, hbefore, hx⟩ := h
  exact ⟨before, x, after ++ ys, by simp, hbefore, hx⟩

/-- It stays the first behind items with which nothing is wrong. -/
theorem FirstFails.behind {ys : List α} {e : ε} (h : FirstFails fails ys e)
    (good : ∀ x ∈ xs, ¬ ∃ e, fails x e) : FirstFails fails (xs ++ ys) e := by
  obtain ⟨before, y, after, rfl, hbefore, hy⟩ := h
  exact ⟨xs ++ before, y, after, by simp, List.forall_mem_append.mpr ⟨good, hbefore⟩, hy⟩

/-- It stays the first when items and errors are changed alike. -/
theorem FirstFails.map {e : ε} {f : α → β} {g : ε → ε} {fails' : β → ε → Prop}
    (h : FirstFails fails xs e) (changed : ∀ x e, fails x e → fails' (f x) (g e))
    (back : ∀ x e, fails' (f x) e → ∃ e, fails x e) : FirstFails fails' (xs.map f) (g e) := by
  obtain ⟨before, x, after, rfl, hbefore, hx⟩ := h
  refine ⟨before.map f, f x, after.map f, by simp, ?_, changed x e hx⟩
  refine List.forall_mem_map.mpr fun y hy => ?_
  rintro ⟨e', he'⟩
  exact hbefore y hy (back y e' he')

end FirstFails

/-! ## Steps that build on each other -/

/-- Every item is good where it stands, behind the items before it. -/
def EachBehind (good : List α → α → Prop) (xs : List α) : Prop :=
  ∀ before x after, xs = before ++ x :: after → good before x

/-- Something is wrong with an item where it stands, and every item before it is good. -/
def FirstFailsBehind (good : List α → α → Prop) (fails : List α → α → ε → Prop) (xs : List α)
    (e : ε) : Prop :=
  ∃ before x after, xs = before ++ x :: after ∧ EachBehind good before ∧ fails before x e

section Folds

variable {good : List α → α → Prop} {fails : List α → α → ε → Prop} {before xs : List α} {a : α}

theorem eachBehind_nil : EachBehind good [] := by
  rintro before x after h
  exact absurd h.symm (List.append_ne_nil_of_right_ne_nil before (List.cons_ne_nil x after))

theorem eachBehind_concat : EachBehind good (xs ++ [a]) ↔ EachBehind good xs ∧ good xs a := by
  constructor
  · refine fun h => ⟨fun before x after hxs => ?_, h xs a [] rfl⟩
    exact h before x (after ++ [a]) (by rw [hxs, List.append_assoc, List.cons_append])
  · rintro ⟨hxs, ha⟩ before x after h
    obtain rfl | ⟨after, b, rfl⟩ := List.eq_nil_or_concat after
    · obtain ⟨rfl, hax⟩ := List.append_inj' h rfl
      cases hax
      exact ha
    · rw [List.concat_eq_append, ← List.cons_append, ← List.append_assoc] at h
      exact hxs before x after (List.append_inj' h rfl).1

/-- Where an item is good or something is wrong with it, all of many are good or something is wrong
    with a first one. -/
theorem eachBehind_or_firstFails (cases : ∀ before x, good before x ∨ ∃ e, fails before x e)
    (xs : List α) : EachBehind good xs ∨ ∃ e, FirstFailsBehind good fails xs e := by
  induction xs using List.reverseRecOn with
  | nil => exact .inl eachBehind_nil
  | append_singleton xs a ih =>
    obtain hxs | ⟨e, before, x, after, rfl, hbefore, hx⟩ := ih
    · obtain ha | ⟨e, ha⟩ := cases xs a
      · exact .inl (eachBehind_concat.mpr ⟨hxs, ha⟩)
      · exact .inr ⟨e, xs, a, [], rfl, hxs, ha⟩
    · exact .inr ⟨e, before, x, after ++ [a], by simp, hbefore, hx⟩

variable {τ : Type} {step : τ → α → Except ε τ} (holds : List α → τ → Prop) {start : τ}

/-- **Good items are all taken in**, and what one step keeps holds at the end. -/
theorem foldlM_of_eachBehind (first : holds [] start)
    (keeps : ∀ before x s, holds before s → good before x →
      ∃ s', step s x = .ok s' ∧ holds (before ++ [x]) s')
    (each : EachBehind good xs) : ∃ s, xs.foldlM step start = .ok s ∧ holds xs s := by
  induction xs using List.reverseRecOn with
  | nil => exact ⟨start, rfl, first⟩
  | append_singleton xs a ih =>
    obtain ⟨hxs, ha⟩ := eachBehind_concat.mp each
    obtain ⟨s, hrun, hs⟩ := ih hxs
    obtain ⟨s', hstep, hs'⟩ := keeps xs a s hs ha
    refine ⟨s', ?_, hs'⟩
    rw [List.foldlM_append, hrun]
    show (step s a >>= pure) = _
    rw [hstep]
    rfl

/-- **Else the run stops at the first item that is not good.** -/
theorem foldlM_of_firstFails {e : ε} (first : holds [] start)
    (keeps : ∀ before x s, holds before s → good before x →
      ∃ s', step s x = .ok s' ∧ holds (before ++ [x]) s')
    (stops : ∀ before x s e, holds before s → fails before x e → step s x = .error e)
    (h : FirstFailsBehind good fails xs e) : xs.foldlM step start = .error e := by
  obtain ⟨before, x, after, rfl, hbefore, hx⟩ := h
  obtain ⟨s, hrun, hs⟩ := foldlM_of_eachBehind holds first keeps hbefore
  rw [List.foldlM_append, hrun]
  show (step s x >>= _) = _
  exact except_bind_of_error (stops before x s e hs hx)

end Folds

/-- Many steps give some result if each of them does, with the results in their order. -/
theorem mapM_eq_some_iff {f : α → Option β} {xs : List α} {ys : List β} :
    xs.mapM f = some ys ↔ List.Forall₂ (fun x y => f x = some y) xs ys := by
  induction xs generalizing ys with
  | nil => cases ys <;> simp
  | cons x xs ih =>
    rw [List.mapM_cons]
    constructor
    · intro h
      obtain ⟨y, hy, h⟩ := Option.bind_eq_some_iff.mp h
      obtain ⟨ys, hys, h⟩ := Option.bind_eq_some_iff.mp h
      cases h
      exact .cons hy (ih.mp hys)
    · rintro (_ | ⟨hy, hys⟩)
      exact Option.bind_eq_some_iff.mpr
        ⟨_, hy, Option.bind_eq_some_iff.mpr ⟨_, ih.mpr hys, rfl⟩⟩

/-- What is written item by item and read back item by item is read back as a whole. -/
theorem mapM_map_eq_some {γ : Type} {write : α → β} {read : β → Option γ} {back : α → γ} :
    ∀ {xs : List α}, (∀ x ∈ xs, read (write x) = some (back x)) →
      (xs.map write).mapM read = some (xs.map back)
  | [], _ => rfl
  | x :: xs, h => by
      rw [List.forall_mem_cons] at h
      rw [List.map_cons, List.mapM_cons, h.1, mapM_map_eq_some h.2]
      rfl

/-! ## Two computations side by side -/

/-- **Two computations succeed alike**: with results that are related, or else both fail, for
    whatever reasons. -/
inductive SucceedAlike {α β ε : Type} (related : α → β → Prop) :
    Except ε α → Except ε β → Prop where
  | ok {a : α} {b : β} (h : related a b) : SucceedAlike related (.ok a) (.ok b)
  | error (e e' : ε) : SucceedAlike related (.error e) (.error e')

section SucceedAlike

variable {α' β' : Type} {related : α → β → Prop} {x : Except ε α} {y : Except ε β}

theorem SucceedAlike.refl {related : α → α → Prop} (h : ∀ a, related a a) (x : Except ε α) :
    SucceedAlike related x x := by
  cases x with
  | ok a => exact .ok (h a)
  | error e => exact .error e e

theorem SucceedAlike.bind {related' : α' → β' → Prop} {f : α → Except ε α'} {g : β → Except ε β'}
    (h : SucceedAlike related x y)
    (next : ∀ a b, related a b → SucceedAlike related' (f a) (g b)) :
    SucceedAlike related' (x >>= f) (y >>= g) := by
  cases h with
  | ok hab => exact next _ _ hab
  | error e e' => exact .error e e'

theorem SucceedAlike.map {related' : α' → β' → Prop} {f : α → α'} {g : β → β'}
    (h : SucceedAlike related x y) (next : ∀ a b, related a b → related' (f a) (g b)) :
    SucceedAlike related' (x.map f) (y.map g) := by
  cases h with
  | ok hab => exact .ok (next _ _ hab)
  | error e e' => exact .error e e'

/-- Two computations succeed alike if one of them succeeds only together with the other, and then
    with related results. -/
theorem succeedAlike_iff :
    SucceedAlike related x y ↔ ((∃ a, x = .ok a) ↔ ∃ b, y = .ok b) ∧
      ∀ a b, x = .ok a → y = .ok b → related a b := by
  constructor
  · rintro (hab | _)
    · refine ⟨⟨fun _ => ⟨_, rfl⟩, fun _ => ⟨_, rfl⟩⟩, ?_⟩
      rintro _ _ ⟨⟩ ⟨⟩
      exact hab
    · exact ⟨⟨nofun, nofun⟩, nofun⟩
  · rintro ⟨both, hrelated⟩
    cases x with
    | ok a =>
      obtain ⟨b, rfl⟩ := both.mp ⟨a, rfl⟩
      exact .ok (hrelated a b rfl rfl)
    | error e =>
      cases y with
      | ok b =>
        obtain ⟨_, ⟨⟩⟩ := both.mpr ⟨b, rfl⟩
      | error e' => exact .error e e'

end SucceedAlike

end LedgerScan.Fallible
