import Mathlib

set_option autoImplicit false

/-! # Counting by keys

The elements of a list with one of some keys are counted key by key.
-/

namespace Counting

variable {α κ : Type} [DecidableEq κ]

theorem sum_countP (f : α → κ) (l : List α) {keys : List κ} (hkeys : keys.Nodup) :
    (keys.map fun k => l.countP fun a => decide (f a = k)).sum
      = l.countP fun a => decide (f a ∈ keys) := by
  induction keys with
  | nil => simp
  | cons k keys ih =>
      rw [List.nodup_cons] at hkeys
      rw [List.map_cons, List.sum_cons, ih hkeys.2]
      clear ih
      induction l with
      | nil => rfl
      | cons a l ih =>
          rw [List.countP_cons, List.countP_cons, List.countP_cons, ← ih]
          by_cases hk : f a = k
          · -- the key is none of the others
            subst hk
            simp [hkeys.1]
            omega
          · simp [hk]
            omega

end Counting
