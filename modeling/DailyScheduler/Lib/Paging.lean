import Mathlib.Data.List.Nodup

set_option autoImplicit false

/-! # Pages of a list that shrinks

A list is read in pages of `p` entries. After each page the entries of it that are not `alive` are taken
out of the list, so everything behind moves forward by their number, and the next page begins that many
entries too late.
-/

namespace Paging

variable {α : Type} (alive : α → Bool) (p : Nat)

/-- The number of entries of the first page that are taken out. -/
def dead (l : List α) : Nat := (l.take p).countP fun a => !alive a

/-- What the pages after the first one are read from. -/
def rest (l : List α) : List α := l.drop (p + dead alive p l)

/-- The living entries that the first `k` pages show. -/
def browse : Nat → List α → List α
  | 0, _ => []
  | k + 1, l => (l.take p).filter alive ++ browse k (rest alive p l)

/-- Behind every page, as many entries as are taken out of it are not alive either. -/
def Clear : Nat → List α → Prop
  | 0, _ => True
  | k + 1, l => (∀ a ∈ (l.drop p).take (dead alive p l), alive a = false) ∧ Clear k (rest alive p l)

instance Clear.decidable : (k : Nat) → (l : List α) → Decidable (Clear alive p k l)
  | 0, _ => .isTrue trivial
  | k + 1, l => @instDecidableAnd _ _ _ (Clear.decidable k (rest alive p l))

/-- The number of pages of `n` entries. -/
def pages (n : Nat) : Nat := (n + p - 1) / p

variable {alive p}

theorem le_pages (hp : 0 < p) (n : Nat) : n ≤ p * pages p n := by
  have hdiv := Nat.div_add_mod (n + p - 1) p
  have hmod := Nat.mod_lt (n + p - 1) hp
  unfold pages
  omega

/-- The first page, what slips past it, and the rest. -/
theorem split (alive : α → Bool) (p : Nat) (l : List α) :
    l.take p ++ ((l.drop p).take (dead alive p l) ++ rest alive p l) = l := by
  calc l.take p ++ ((l.drop p).take (dead alive p l) ++ rest alive p l)
      = l.take p ++ ((l.drop p).take (dead alive p l) ++ (l.drop p).drop (dead alive p l)) := by
        rw [rest, List.drop_drop]
    _ = l.take p ++ l.drop p := by rw [List.take_append_drop]
    _ = l := List.take_append_drop p l

theorem browse_sublist (k : Nat) (l : List α) : (browse alive p k l).Sublist (l.filter alive) := by
  induction k generalizing l with
  | zero => exact List.nil_sublist _
  | succ k ih =>
      conv => rhs; rw [← split alive p l, List.filter_append, List.filter_append]
      refine (List.Sublist.refl _).append ?_
      exact (ih _).trans (List.sublist_append_right _ _)

theorem mem_of_mem_browse {k : Nat} {l : List α} {a : α} (h : a ∈ browse alive p k l) : a ∈ l :=
  List.mem_of_mem_filter ((browse_sublist k l).subset h)

/-- No living entry is shown twice, and all of them are shown exactly when none of them slips past a
page. -/
theorem forall_mem_browse_iff {k : Nat} {l : List α} (hl : l.Nodup) (hk : l.length ≤ p * k) :
    (∀ a ∈ l, alive a = true → a ∈ browse alive p k l) ↔ Clear alive p k l := by
  induction k generalizing l with
  | zero =>
      have hnil : l = [] := List.length_eq_zero_iff.1 (by omega)
      simp [hnil, Clear]
  | succ k ih =>
      have hsplit := split alive p l
      have hnd : (l.take p ++ ((l.drop p).take (dead alive p l) ++ rest alive p l)).Nodup := by
        rw [hsplit]
        exact hl
      rw [List.nodup_append, List.nodup_append] at hnd
      obtain ⟨-, ⟨-, hrest, hskipped⟩, hpage⟩ := hnd
      have hlen : (rest alive p l).length ≤ p * k := by
        rw [rest, List.length_drop]
        rw [Nat.mul_succ] at hk
        omega
      rw [Clear, ← ih hrest hlen]
      constructor
      · intro hall
        constructor
        · intro a ha
          -- an entry that slips past the page is not on a later one
          by_contra halive
          have hmem : a ∈ l := List.mem_of_mem_drop (List.mem_of_mem_take ha)
          rcases List.mem_append.1 (hall a hmem (by simpa using halive)) with hshown | hshown
          · exact hpage a (List.mem_of_mem_filter hshown) a (List.mem_append_left _ ha) rfl
          · exact hskipped a ha a (mem_of_mem_browse hshown) rfl
        · intro a ha halive
          rcases List.mem_append.1 (hall a (List.mem_of_mem_drop ha) halive) with hshown | hshown
          · exact absurd rfl (hpage a (List.mem_of_mem_filter hshown) a
              (List.mem_append_right _ ha))
          · exact hshown
      · rintro ⟨hclear, hall⟩ a ha halive
        rw [← hsplit, List.mem_append, List.mem_append] at ha
        rw [browse, List.mem_append]
        rcases ha with ha | ha | ha
        · exact .inl (List.mem_filter.2 ⟨ha, halive⟩)
        · rw [hclear a ha] at halive
          cases halive
        · exact .inr (hall a ha halive)

theorem dead_le (alive : α → Bool) (p : Nat) (l : List α) : dead alive p l ≤ p :=
  Nat.le_trans List.countP_le_length (List.length_take_le ..)

/-- A page is its living and its dead entries. -/
theorem length_filter_add_dead (alive : α → Bool) (p : Nat) (l : List α) :
    ((l.take p).filter alive).length + dead alive p l = (l.take p).length := by
  rw [dead, ← List.countP_eq_length_filter]
  have hsum := List.length_eq_countP_add_countP alive (l := l.take p)
  simpa using hsum.symm

/-- The list without the dead entries of a page. -/
def without [DecidableEq α] (alive : α → Bool) (page l : List α) : List α :=
  l.filter fun a => !(decide (a ∈ page) && !alive a)

theorem without_split [DecidableEq α] {l : List α} (hl : l.Nodup) (i : Nat) :
    without alive ((l.drop (p * i)).take p) l
      = l.take (p * i) ++ (((l.drop (p * i)).take p).filter alive ++ l.drop (p * (i + 1))) := by
  have hparts : l.take (p * i) ++ ((l.drop (p * i)).take p ++ l.drop (p * (i + 1))) = l := by
    rw [Nat.mul_succ, ← List.drop_drop, List.take_append_drop, List.take_append_drop]
  have hnd : (l.take (p * i) ++ ((l.drop (p * i)).take p ++ l.drop (p * (i + 1)))).Nodup := by
    rw [hparts]
    exact hl
  rw [List.nodup_append, List.nodup_append] at hnd
  obtain ⟨-, ⟨-, -, hlater⟩, hearlier⟩ := hnd
  unfold without
  conv => lhs; arg 2; rw [← hparts]
  rw [List.filter_append, List.filter_append]
  congr 1
  · refine List.filter_eq_self.2 fun a ha => ?_
    have hout : a ∉ (l.drop (p * i)).take p := fun hin =>
      hearlier a ha a (List.mem_append_left _ hin) rfl
    simp [hout]
  congr 1
  · refine List.filter_congr fun a ha => ?_
    simp [ha]
  · refine List.filter_eq_self.2 fun a ha => ?_
    have hout : a ∉ (l.drop (p * i)).take p := fun hin => hlater a hin a ha rfl
    simp [hout]

/-- Taking the dead entries of a page out of the list: the next page begins that many entries late. -/
theorem drop_without [DecidableEq α] {l : List α} (hl : l.Nodup) (i : Nat) :
    (without alive ((l.drop (p * i)).take p) l).drop (p * (i + 1))
      = rest alive p (l.drop (p * i)) := by
  have hpage := length_filter_add_dead alive p (l.drop (p * i))
  have hdead := dead_le alive p (l.drop (p * i))
  rw [List.length_take, List.length_drop] at hpage
  rw [without_split hl, rest, List.drop_drop, Nat.mul_succ]
  by_cases hlen : p * i + p ≤ l.length
  · -- the page is full
    rw [List.drop_append, List.drop_append, List.length_take, List.drop_drop,
      List.drop_of_length_le (by rw [List.length_take]; omega),
      List.drop_of_length_le (by omega), List.nil_append, List.nil_append]
    congr 1
    omega
  · -- nothing is behind the page
    rw [List.drop_of_length_le, List.drop_of_length_le (by omega)]
    rw [List.length_append, List.length_append, List.length_take, List.length_drop]
    omega

end Paging
