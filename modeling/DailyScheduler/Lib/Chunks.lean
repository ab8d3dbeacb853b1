import Mathlib.Data.List.Basic

set_option autoImplicit false

/-! # Chunks of a list

A list is cut into slices of `k` elements; the last one may be shorter.
-/

namespace Chunks

variable {α : Type}

/-- The slices from the positions `0`, `k`, `2 * k` and so on. -/
def chunks (k : Nat) (l : List α) : List (List α) :=
  (List.range ((l.length + k - 1) / k)).map fun i => (l.drop (k * i)).take k

theorem flatten_slices (l : List α) (k n : Nat) :
    ((List.range n).map fun i => (l.drop (k * i)).take k).flatten = l.take (k * n) := by
  induction n with
  | zero => simp
  | succ n ih =>
      rw [List.range_succ, List.map_append, List.flatten_append, ih, List.map_singleton,
        List.flatten_singleton, ← List.take_add, Nat.mul_succ]

/-- **The slices are the list again.** -/
theorem flatten_chunks {k : Nat} (hk : 0 < k) (l : List α) : (chunks k l).flatten = l := by
  unfold chunks
  rw [flatten_slices]
  apply List.take_of_length_le
  -- the last slice reaches the end
  have hdiv := Nat.div_add_mod (l.length + k - 1) k
  have hmod := Nat.mod_lt (l.length + k - 1) hk
  omega

theorem mem_of_mem_chunk {k : Nat} {l c : List α} (hc : c ∈ chunks k l) {a : α} (ha : a ∈ c) : a ∈ l := by
  obtain ⟨i, -, rfl⟩ := List.mem_map.1 hc
  exact List.mem_of_mem_drop (List.mem_of_mem_take ha)

end Chunks
