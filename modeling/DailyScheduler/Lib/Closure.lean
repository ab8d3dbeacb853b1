import Mathlib.Data.Finset.Card
import Mathlib.Data.Finset.Image
import Mathlib.Order.Monotone.Basic

set_option autoImplicit false

/-! # What lies under some nodes

Rows with a key and perhaps a parent form a graph. `under rows key parent ids depth` goes `depth` levels
down from the keys `ids`. As many levels as there are rows are enough: going further reaches nothing
new, so what was reached is closed under children. It is also the least such set.
-/

namespace Closure

variable {α β : Type} [DecidableEq α] (rows : List β) (key : β → α) (parent : β → Option α)

/-- The keys of the rows right under some keys. -/
def children (ids : List α) : List α :=
  (rows.filter fun r => (parent r).any fun p => decide (p ∈ ids)).map key

/-- Some keys and those of the rows under them, `depth` levels deep. -/
def under (ids : List α) : Nat → List α
  | 0 => ids
  | depth + 1 => under (ids ++ children rows key parent ids) depth

/-- With a row whose parent is in the set the set has the row. -/
def Closed (s : α → Prop) : Prop := ∀ r ∈ rows, ∀ p, parent r = some p → s p → s (key r)

variable {rows key parent}

theorem mem_children {ids : List α} {k : α} : k ∈ children rows key parent ids ↔
    ∃ r ∈ rows, key r = k ∧ ∃ p ∈ ids, parent r = some p := by
  unfold children
  rw [List.mem_map]
  constructor
  · rintro ⟨r, hr, hk⟩
    obtain ⟨hmem, hany⟩ := List.mem_filter.1 hr
    obtain ⟨p, hp, hin⟩ := (Option.any_eq_true _ _).1 hany
    exact ⟨r, hmem, hk, p, of_decide_eq_true hin, hp⟩
  · rintro ⟨r, hmem, hk, p, hin, hp⟩
    refine ⟨r, List.mem_filter.2 ⟨hmem, ?_⟩, hk⟩
    rw [hp]
    simpa using hin

theorem mem_under_of_mem {ids : List α} {k : α} (h : k ∈ ids) (depth : Nat) :
    k ∈ under rows key parent ids depth := by
  induction depth generalizing ids with
  | zero => exact h
  | succ depth ih => exact ih (List.mem_append_left _ h)

/-- A closed set with the first keys has all that are reached. -/
theorem under_least {s : α → Prop} (hs : Closed rows key parent s) {ids : List α}
    (hids : ∀ k ∈ ids, s k) {depth : Nat} {k : α} (hk : k ∈ under rows key parent ids depth) :
    s k := by
  induction depth generalizing ids with
  | zero => exact hids k hk
  | succ depth ih =>
      refine ih (fun k' hk' => ?_) hk
      rcases List.mem_append.1 hk' with hk' | hk'
      · exact hids k' hk'
      · obtain ⟨r, hr, rfl, p, hp, hparent⟩ := mem_children.1 hk'
        exact hs r hr p hparent (hids p hp)

/-! ## Enough levels -/

section Levels

variable (rows key parent)

/-- One level more. -/
def grow (s : Finset α) : Finset α :=
  s ∪ ((rows.filter fun r => (parent r).any fun p => decide (p ∈ s)).map key).toFinset

variable {rows key parent}

theorem mem_grow {s : Finset α} {k : α} : k ∈ grow rows key parent s ↔
    k ∈ s ∨ ∃ r ∈ rows, key r = k ∧ ∃ p ∈ s, parent r = some p := by
  have hkey : ∀ r, ((parent r).any fun p => decide (p ∈ s)) = true ↔ ∃ p ∈ s, parent r = some p := by
    intro r
    cases parent r <;> simp
  simp only [grow, Finset.mem_union, List.mem_toFinset, List.mem_map, List.mem_filter, hkey,
    and_right_comm, and_assoc]

theorem toFinset_append_children (ids : List α) :
    (ids ++ children rows key parent ids).toFinset = grow rows key parent ids.toFinset := by
  ext k
  rw [List.mem_toFinset, List.mem_append, mem_children, mem_grow]
  simp only [List.mem_toFinset]

theorem toFinset_under (ids : List α) (depth : Nat) :
    (under rows key parent ids depth).toFinset = (grow rows key parent)^[depth] ids.toFinset := by
  induction depth generalizing ids with
  | zero => rfl
  | succ depth ih =>
      calc (under rows key parent ids (depth + 1)).toFinset
          = (grow rows key parent)^[depth] (ids ++ children rows key parent ids).toFinset := ih _
        _ = (grow rows key parent)^[depth] (grow rows key parent ids.toFinset) := by
            rw [toFinset_append_children]
        _ = (grow rows key parent)^[depth + 1] ids.toFinset := rfl

theorem subset_grow (s : Finset α) : s ⊆ grow rows key parent s := Finset.subset_union_left

theorem subset_iterate (s : Finset α) (m : Nat) : s ⊆ (grow rows key parent)^[m] s := by
  induction m with
  | zero => exact Finset.Subset.refl s
  | succ m ih =>
      rw [Function.iterate_succ_apply']
      exact ih.trans (subset_grow _)

/-- Only keys of rows are new. -/
theorem iterate_subset (s : Finset α) (m : Nat) :
    (grow rows key parent)^[m] s ⊆ s ∪ (rows.map key).toFinset := by
  induction m with
  | zero => exact Finset.subset_union_left
  | succ m ih =>
      intro k hk
      rw [Function.iterate_succ_apply'] at hk
      rcases mem_grow.1 hk with hk | ⟨r, hr, rfl, -⟩
      · exact ih hk
      · exact Finset.mem_union_right _ (List.mem_toFinset.2 (List.mem_map_of_mem hr))

/-- The number of new keys at each level, which stands still once it has stood still. -/
theorem iterate_length (s : Finset α) :
    (grow rows key parent)^[rows.length + 1] s = (grow rows key parent)^[rows.length] s := by
  let f : Nat → Nat := fun m => ((grow rows key parent)^[m] s).card - s.card
  have hle : ∀ m, s.card ≤ ((grow rows key parent)^[m] s).card := fun m =>
    Finset.card_le_card (subset_iterate s m)
  have hstep : ∀ m, ((grow rows key parent)^[m] s) ⊆ (grow rows key parent)^[m + 1] s := by
    intro m
    rw [Function.iterate_succ_apply']
    exact subset_grow _
  have hmono : Monotone f := by
    apply monotone_nat_of_le_succ
    intro m
    have hcard := Finset.card_le_card (hstep m)
    show _ - _ ≤ _ - _
    omega
  have hbound : ∀ m, f m ≤ rows.length := by
    intro m
    have hcard : ((grow rows key parent)^[m] s).card ≤ s.card + rows.length :=
      calc ((grow rows key parent)^[m] s).card
          ≤ (s ∪ (rows.map key).toFinset).card := Finset.card_le_card (iterate_subset s m)
        _ ≤ s.card + (rows.map key).toFinset.card := Finset.card_union_le _ _
        _ ≤ s.card + rows.length := by
            have hlen := List.toFinset_card_le (rows.map key)
            rw [List.length_map] at hlen
            omega
    show _ - _ ≤ _
    omega
  have heq : ∀ m, f m = f (m + 1) →
      (grow rows key parent)^[m + 1] s = (grow rows key parent)^[m] s := by
    intro m hm
    have h₀ := hle m
    have h₁ := hle (m + 1)
    change _ - _ = _ - _ at hm
    refine (Finset.eq_of_subset_of_card_le (hstep m) ?_).symm
    omega
  have hstill : ∀ m, f m = f (m + 1) → f (m + 1) = f (m + 2) := by
    intro m hm
    have hsame : (grow rows key parent)^[m + 2] s = (grow rows key parent)^[m + 1] s :=
      calc (grow rows key parent)^[m + 2] s
          = grow rows key parent ((grow rows key parent)^[m + 1] s) :=
            Function.iterate_succ_apply' ..
        _ = grow rows key parent ((grow rows key parent)^[m] s) := by rw [heq m hm]
        _ = (grow rows key parent)^[m + 1] s := (Function.iterate_succ_apply' ..).symm
    show _ - _ = _ - _
    rw [hsame]
  have hlast : f (rows.length + 1) = f rows.length :=
    Nat.stabilises_of_monotone hmono hbound hstill (Nat.le_succ _)
  exact heq rows.length hlast.symm

end Levels

/-- **As many levels as there are rows are enough.** -/
theorem under_closed (ids : List α) :
    Closed rows key parent (· ∈ under rows key parent ids rows.length) := by
  intro r hr p hparent hp
  have hmem : ∀ k, k ∈ under rows key parent ids rows.length ↔
      k ∈ (grow rows key parent)^[rows.length] ids.toFinset := by
    intro k
    rw [← toFinset_under, List.mem_toFinset]
  rw [hmem] at hp ⊢
  rw [← iterate_length, Function.iterate_succ_apply']
  exact mem_grow.2 (.inr ⟨r, hr, rfl, p, hp, hparent⟩)

end Closure
