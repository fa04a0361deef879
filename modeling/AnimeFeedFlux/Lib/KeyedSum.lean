import Mathlib.Algebra.Order.BigOperators.Group.List
import Mathlib.Data.List.Nodup

/-!
# Sums over keyed rows

A table is a list of rows, each with a key, and a total over it is the sum of what its rows
contribute.  A query with a `WHERE` is such a sum in which the other rows contribute
nothing.  What an update does to a total is what it does to the contributions.
-/

namespace AnimeFeedFlux.KeyedSum

open List

variable {α κ M : Type}

theorem sum_filter_map [AddCommMonoid M] (l : List α) (p : α → Bool) (v : α → M) :
    ((l.filter p).map v).sum = (l.map fun x => if p x then v x else 0).sum := by
  induction l with
  | nil => rfl
  | cons x l ih => cases hp : p x <;> simp [hp, ih]

/-- Adding `d` to the contribution of the row with the key of `a`, and changing no other,
adds `d` to the total. -/
theorem sum_map_update [AddCommMonoid M] {l : List α} {key : α → κ} {v w : α → M} {a : α} {d : M}
    (hkeys : (l.map key).Nodup) (ha : a ∈ l) (hother : ∀ x ∈ l, key x ≠ key a → w x = v x)
    (hadd : w a = v a + d) : (l.map w).sum = (l.map v).sum + d := by
  induction l with
  | nil => simp at ha
  | cons x l ih =>
    simp only [map_cons, nodup_cons] at hkeys
    rcases mem_cons.mp ha with rfl | hmem
    · have hrest : l.map w = l.map v := by
        apply map_congr_left
        intro y hy
        apply hother y (mem_cons_of_mem _ hy)
        intro heq
        exact hkeys.1 (heq ▸ mem_map_of_mem hy)
      simp only [map_cons, sum_cons, hadd, hrest]
      exact add_right_comm _ _ _
    · have hne : key x ≠ key a := by
        intro heq
        exact hkeys.1 (heq ▸ mem_map_of_mem hmem)
      have hrec := ih hkeys.2 hmem fun y hy => hother y (mem_cons_of_mem _ hy)
      simp only [map_cons, sum_cons, hother x mem_cons_self hne, hrec, add_assoc]

theorem sum_filter_of_zero [AddCommMonoid M] {l : List α} {p : α → Bool} {v : α → M}
    (h : ∀ x ∈ l, p x = false → v x = 0) : ((l.filter p).map v).sum = (l.map v).sum := by
  rw [sum_filter_map]
  congr 1
  apply map_congr_left
  intro x hx
  cases hp : p x with
  | true => simp
  | false => simp [h x hx hp]

end AnimeFeedFlux.KeyedSum
