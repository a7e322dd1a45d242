import Mathlib.Data.List.Basic
import Mathlib.Data.List.Pairwise
import Mathlib.Tactic.Common

/-!
# Lists without repetitions up to a test

`push` appends an element unless the test finds it in the list; `ofList` pushes a list's elements one
after the other. A list that is already distinct is its own `ofList`.
-/

namespace Distinct

variable {α : Type} (same : α → α → Bool)

def push (xs : List α) (x : α) : List α := if xs.any fun y => same y x then xs else xs ++ [x]

def ofList (xs : List α) : List α := xs.foldl (push same) []

def IsDistinct (xs : List α) : Prop := xs.Pairwise fun a b => same a b = false

variable {same} {xs ys : List α} {x : α}

theorem mem_push {a : α} (h : a ∈ push same xs x) : a ∈ xs ∨ a = x := by
  unfold push at h
  split_ifs at h
  · exact Or.inl h
  · simpa using h

theorem mem_foldl_push {a : α} (h : a ∈ ys.foldl (push same) xs) : a ∈ xs ∨ a ∈ ys := by
  induction ys generalizing xs with
  | nil => exact Or.inl h
  | cons y ys ih =>
    rcases ih h with h | h
    · rcases mem_push h with h | rfl
      · exact Or.inl h
      · exact Or.inr (List.mem_cons_self ..)
    · exact Or.inr (List.mem_cons_of_mem _ h)

theorem push_ne_nil (xs : List α) (x : α) : push same xs x ≠ [] := by
  unfold push
  split_ifs with h
  · rintro rfl
    simp at h
  · simp

theorem foldl_push_ne_nil (h : xs ≠ []) (ys : List α) : ys.foldl (push same) xs ≠ [] := by
  induction ys generalizing xs with
  | nil => exact h
  | cons y ys ih => exact ih (push_ne_nil xs y)

theorem ofList_ne_nil (h : xs ≠ []) : ofList same xs ≠ [] := by
  cases xs with
  | nil => exact absurd rfl h
  | cons x xs => exact foldl_push_ne_nil (push_ne_nil [] x) xs

theorem IsDistinct.push (h : IsDistinct same xs) (x : α) : IsDistinct same (push same xs x) := by
  unfold Distinct.push
  split_ifs with hx
  · exact h
  · refine List.pairwise_append.2 ⟨h, List.pairwise_singleton .., fun a ha b hb => ?_⟩
    rw [List.mem_singleton] at hb
    subst hb
    by_contra hab
    exact hx (List.any_eq_true.2 ⟨a, ha, by simpa using hab⟩)

theorem IsDistinct.foldl_push (h : IsDistinct same xs) (ys : List α) :
    IsDistinct same (ys.foldl (Distinct.push same) xs) := by
  induction ys generalizing xs with
  | nil => exact h
  | cons y ys ih => exact ih (h.push y)

theorem isDistinct_ofList (xs : List α) : IsDistinct same (ofList same xs) :=
  IsDistinct.foldl_push List.Pairwise.nil xs

theorem foldl_push_of_distinct (h : IsDistinct same (xs ++ ys)) :
    ys.foldl (push same) xs = xs ++ ys := by
  induction ys generalizing xs with
  | nil => simp
  | cons y ys ih =>
    have hy : push same xs y = xs ++ [y] := by
      have hxy := (List.pairwise_append.1 h).2.2
      refine if_neg fun hany => ?_
      obtain ⟨x, hx, hsame⟩ := List.any_eq_true.1 hany
      rw [hxy x hx y (List.mem_cons_self ..)] at hsame
      cases hsame
    rw [List.foldl_cons, hy, ih (by simpa using h)]
    simp

theorem ofList_of_distinct (h : IsDistinct same xs) : ofList same xs = xs := by
  have h' : IsDistinct same ([] ++ xs) := h
  exact foldl_push_of_distinct h'

end Distinct
