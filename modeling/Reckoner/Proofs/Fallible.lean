import Mathlib.Data.List.Forall2

/-!
# Fallible computations

When a computation that consists of several fallible ones succeeds.
-/

namespace Reckoner

variable {ε α β γ : Type}

@[simp]
theorem ok_bind (a : α) (f : α → Except ε β) : Except.ok a >>= f = f a := rfl

@[simp]
theorem error_bind (error : ε) (f : α → Except ε β) : Except.error error >>= f = .error error := rfl

/-- The failure of a computation, if it fails. -/
def failure? : Except ε α → Option ε
  | .ok _ => none
  | .error error => some error

@[simp]
theorem failure?_ok (a : α) : failure? (Except.ok a : Except ε α) = none := rfl

@[simp]
theorem failure?_error (error : ε) : failure? (Except.error error : Except ε α) = some error := rfl

/-- A computation without a result is its failure. -/
theorem eq_elim_failure? (x : Except ε Unit) : x = (failure? x).elim (.ok ()) .error := by
  cases x <;> rfl

/-- Two computations in a row succeed exactly if the first one and then the second one does. -/
theorem bind_eq_ok_iff {x : Except ε α} {f : α → Except ε β} {b : β} :
    x >>= f = .ok b ↔ ∃ a, x = .ok a ∧ f a = .ok b := by
  cases x <;> simp

/-- Two computations in a row fail exactly if the first one does, or the second one behind it. -/
theorem bind_eq_error_iff {x : Except ε α} {f : α → Except ε β} {error : ε} :
    x >>= f = .error error ↔ x = .error error ∨ ∃ a, x = .ok a ∧ f a = .error error := by
  cases x <;> simp

/-- A computation on every member of a list succeeds exactly if it does on each of them. -/
theorem mapM_eq_ok_iff {f : α → Except ε β} {xs : List α} {ys : List β} :
    xs.mapM f = .ok ys ↔ List.Forall₂ (fun x y => f x = .ok y) xs ys := by
  induction xs generalizing ys with
  | nil =>
      rw [List.mapM_nil, List.forall₂_nil_left_iff]
      exact ⟨fun h => (Except.ok.inj h).symm, fun h => h ▸ rfl⟩
  | cons x rest ih =>
      rw [List.mapM_cons, List.forall₂_cons_left_iff]
      simp only [bind_eq_ok_iff, ih]
      constructor
      · rintro ⟨y, hy, following, hfollowing, heq⟩
        exact ⟨y, following, hy, hfollowing, (Except.ok.inj heq).symm⟩
      · rintro ⟨y, following, hy, hfollowing, rfl⟩
        exact ⟨y, hy, following, hfollowing, rfl⟩

/-- A partial computation on every member of a list has a result exactly if it has one on each of
them. -/
theorem mapM_eq_some_iff {f : α → Option β} {xs : List α} {ys : List β} :
    xs.mapM f = some ys ↔ List.Forall₂ (fun x y => f x = some y) xs ys := by
  induction xs generalizing ys with
  | nil => simp [eq_comm]
  | cons x rest ih =>
      rw [List.forall₂_cons_left_iff]
      simp only [List.mapM_cons, ← ih, Option.bind_eq_bind, Option.bind_eq_some_iff,
        Option.pure_def, Option.some.injEq]
      constructor
      · rintro ⟨y, hy, following, hfollowing, rfl⟩
        exact ⟨y, following, hy, hfollowing, rfl⟩
      · rintro ⟨y, following, hy, hfollowing, rfl⟩
        exact ⟨y, hy, following, hfollowing, rfl⟩

/-- Every result comes from a member of the list. -/
theorem exists_of_mem_mapM {f : α → Option β} {xs : List α} {ys : List β}
    (h : xs.mapM f = some ys) {y : β} (hy : y ∈ ys) : ∃ x ∈ xs, f x = some y := by
  rw [mapM_eq_some_iff] at h
  induction h with
  | nil => cases hy
  | @cons x z _ _ hx _ ih =>
      rcases List.mem_cons.1 hy with rfl | hy
      · exact ⟨x, List.mem_cons_self, hx⟩
      · obtain ⟨x, hmem, hx⟩ := ih hy
        exact ⟨x, List.mem_cons_of_mem _ hmem, hx⟩

/-- A partial computation gives back a list exactly if it gives back every member. -/
theorem mapM_eq_some_self_iff {f : α → Option α} {xs : List α} :
    xs.mapM f = some xs ↔ ∀ x ∈ xs, f x = some x :=
  mapM_eq_some_iff.trans List.forall₂_same

/-- A partial computation that has no result on some member of a list has none on the list. -/
theorem mapM_eq_none {f : α → Option β} {xs : List α} {x : α} (hx : x ∈ xs) (h : f x = none) :
    xs.mapM f = none := by
  induction xs with
  | nil => cases hx
  | cons y rest ih =>
      rcases List.mem_cons.1 hx with rfl | hx
      · simp [List.mapM_cons, h]
      · simp [List.mapM_cons, ih hx]

/-- Two partial computations on every member of a list, one after the other. -/
theorem mapM_bind_mapM {f : α → Option β} {g : β → Option γ} (xs : List α) :
    ((xs.mapM f).bind fun ys => ys.mapM g) = xs.mapM fun x => (f x).bind g := by
  induction xs with
  | nil => rfl
  | cons x rest ih =>
      rw [List.mapM_cons, List.mapM_cons, ← ih]
      cases f x with
      | none => rfl
      | some y =>
          cases rest.mapM f with
          | none => cases hy : g y <;> simp [hy]
          | some ys => simp [List.mapM_cons]

/-- A computation on every member of a list fails with the failure on the first one on which it
fails. -/
theorem exists_of_mapM_eq_error {f : α → Except ε β} {xs : List α} {error : ε}
    (h : xs.mapM f = .error error) :
    ∃ left x right, xs = left ++ x :: right ∧ (∀ y ∈ left, ∃ z, f y = .ok z) ∧
      f x = .error error := by
  induction xs with
  | nil => cases h
  | cons x rest ih =>
      rw [List.mapM_cons] at h
      cases hx : f x with
      | error failure =>
          rw [hx] at h
          cases h
          exact ⟨[], x, rest, rfl, by simp, hx⟩
      | ok y =>
          rw [hx, ok_bind] at h
          cases hrest : rest.mapM f with
          | error failure =>
              rw [hrest] at h
              cases h
              obtain ⟨left, z, right, rfl, hleft, hz⟩ := ih hrest
              exact ⟨x :: left, z, right, rfl, List.forall_mem_cons.2 ⟨⟨y, hx⟩, hleft⟩, hz⟩
          | ok following =>
              rw [hrest] at h
              cases h

end Reckoner
