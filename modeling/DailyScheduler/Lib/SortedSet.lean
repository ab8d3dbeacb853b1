import Mathlib.Data.List.Sort
import Mathlib.Order.Defs.LinearOrder

set_option autoImplicit false

/-! # Sorted sets

A sorted set is a finite set of members, each with a score, kept in the order of their
scores; members with equal scores are in the order of the members. The order and the
uniqueness of members are fields of the structure, so an operation that broke them could not
be written down.

Every operation comes with the lemma that says what it does to `SortedSet.score`, the score
a member has (`none` when it is not in the set). These lemmas determine the operation up to
the order, which the structure fixes; proofs about users of a sorted set need nothing else.
-/

namespace SortedSet

variable {κ α : Type} [LinearOrder κ] [LinearOrder α]

/-- The order of the entries: by score, ties by member. -/
def before (a b : κ × α) : Prop := a.1 < b.1 ∨ (a.1 = b.1 ∧ a.2 ≤ b.2)

instance : DecidableRel (before (κ := κ) (α := α)) :=
  fun a b => inferInstanceAs (Decidable (a.1 < b.1 ∨ (a.1 = b.1 ∧ a.2 ≤ b.2)))

instance : Std.Total (before (κ := κ) (α := α)) where
  total a b := by
    rcases lt_trichotomy a.1 b.1 with h | h | h
    · exact Or.inl (Or.inl h)
    · rcases le_total a.2 b.2 with h' | h'
      · exact Or.inl (Or.inr ⟨h, h'⟩)
      · exact Or.inr (Or.inr ⟨h.symm, h'⟩)
    · exact Or.inr (Or.inl h)

instance : IsTrans (κ × α) before where
  trans a b c hab hbc := by
    rcases hab with h | ⟨h, h'⟩
    · rcases hbc with g | ⟨g, _⟩
      · exact Or.inl (lt_trans h g)
      · exact Or.inl (g ▸ h)
    · rcases hbc with g | ⟨g, g'⟩
      · exact Or.inl (h ▸ g)
      · exact Or.inr ⟨h.trans g, le_trans h' g'⟩

end SortedSet

/-- A finite set of members ordered by score, then by member. -/
structure SortedSet (κ α : Type) [LinearOrder κ] [LinearOrder α] where
  entries : List (κ × α)
  sorted : entries.Pairwise SortedSet.before
  nodup : (entries.map Prod.snd).Nodup

namespace SortedSet

variable {κ α : Type} [LinearOrder κ] [LinearOrder α]

/-- The empty sorted set. -/
def empty : SortedSet κ α := ⟨[], List.Pairwise.nil, List.nodup_nil⟩

/-- A sorted set is determined by its entries. -/
theorem ext_entries {z z' : SortedSet κ α} (h : z.entries = z'.entries) : z = z' := by
  cases z
  cases z'
  cases h
  rfl

/-- The score of a member, `none` when it is not in the set. -/
def score (z : SortedSet κ α) (m : α) : Option κ :=
  (z.entries.find? (fun p => p.2 = m)).map Prod.fst

instance : Membership α (SortedSet κ α) where
  mem z m := (z.score m).isSome

instance (z : SortedSet κ α) (m : α) : Decidable (m ∈ z) :=
  inferInstanceAs (Decidable ((z.score m).isSome = true))

theorem mem_def (z : SortedSet κ α) (m : α) : m ∈ z ↔ (z.score m).isSome := Iff.rfl

theorem mem_iff_exists (z : SortedSet κ α) (m : α) : m ∈ z ↔ ∃ s, z.score m = some s := by
  rw [mem_def, Option.isSome_iff_exists]

theorem not_mem_iff (z : SortedSet κ α) (m : α) : m ∉ z ↔ z.score m = none := by
  rw [mem_def]; cases z.score m <;> simp

theorem score_eq_some_iff (z : SortedSet κ α) (m : α) (s : κ) :
    z.score m = some s ↔ (s, m) ∈ z.entries := by
  have key : ∀ l : List (κ × α), (l.map Prod.snd).Nodup →
      ((l.find? (fun p => p.2 = m)).map Prod.fst = some s ↔ (s, m) ∈ l) := by
    intro l
    induction l with
    | nil => intro _; simp
    | cons a t ih =>
        intro hnd
        rw [List.map_cons, List.nodup_cons] at hnd
        by_cases ha : a.2 = m
        · have hm : (s, m) ∉ t := by
            intro hmem
            exact hnd.1 (ha ▸ List.mem_map.2 ⟨(s, m), hmem, rfl⟩)
          rw [List.find?_cons_of_pos (by simpa using ha), List.mem_cons]
          simp only [Option.map_some, Option.some.injEq, hm, or_false]
          constructor
          · rintro rfl; rw [← ha]
          · intro h; rw [← h]
        · rw [List.find?_cons_of_neg (by simpa using ha), ih hnd.2, List.mem_cons]
          refine ⟨Or.inr, fun h => h.resolve_left ?_⟩
          rintro rfl; exact ha rfl
  exact key z.entries z.nodup

theorem mem_iff_entry (z : SortedSet κ α) (m : α) : m ∈ z ↔ ∃ s, (s, m) ∈ z.entries := by
  simp [mem_iff_exists, score_eq_some_iff]

/-- The members in order. -/
def members (z : SortedSet κ α) : List α := z.entries.map Prod.snd

@[simp] theorem mem_members (z : SortedSet κ α) (m : α) : m ∈ z.members ↔ m ∈ z := by
  simp [members, mem_iff_entry]

theorem members_nodup (z : SortedSet κ α) : z.members.Nodup := z.nodup

@[simp] theorem score_empty (m : α) : (empty : SortedSet κ α).score m = none := rfl

/-! ## Selecting entries -/

/-- The entries that satisfy `p`. -/
def filter (z : SortedSet κ α) (p : κ × α → Bool) : SortedSet κ α where
  entries := z.entries.filter p
  sorted := z.sorted.filter p
  nodup := z.nodup.sublist (List.filter_sublist.map Prod.snd)

theorem score_filter (z : SortedSet κ α) (p : κ × α → Bool) (m : α) :
    (z.filter p).score m = (z.score m).filter (fun s => p (s, m)) := by
  apply Option.ext
  intro s
  rw [score_eq_some_iff, Option.filter_eq_some_iff, score_eq_some_iff]
  simp [filter]

theorem mem_of_mem_filter {z : SortedSet κ α} {p : κ × α → Bool} {m : α} (h : m ∈ z.filter p) :
    m ∈ z := by
  rw [mem_iff_exists] at h ⊢
  obtain ⟨s, hs⟩ := h
  rw [score_filter, Option.filter_eq_some_iff] at hs
  exact ⟨s, hs.1⟩

/-! ## `ZREM`, `ZADD` -/

/-- Remove a member. -/
def remove (z : SortedSet κ α) (m : α) : SortedSet κ α := z.filter (fun p => p.2 ≠ m)

theorem score_remove (z : SortedSet κ α) (m m' : α) :
    (z.remove m).score m' = if m' = m then none else z.score m' := by
  rw [remove, score_filter]
  by_cases h : m' = m
  · simp [h]
  · cases z.score m' <;> simp [h]

@[simp] theorem score_remove_self (z : SortedSet κ α) (m : α) : (z.remove m).score m = none := by
  simp [score_remove]

/-- Add a member with a score, replacing the score it had. -/
def add (z : SortedSet κ α) (s : κ) (m : α) : SortedSet κ α where
  entries := (z.remove m).entries.orderedInsert before (s, m)
  sorted := List.Pairwise.orderedInsert (s, m) _ (z.remove m).sorted
  nodup := by
    have hperm := (List.perm_orderedInsert before (s, m) (z.remove m).entries).map Prod.snd
    rw [hperm.nodup_iff, List.map_cons, List.nodup_cons]
    refine ⟨?_, (z.remove m).nodup⟩
    intro h
    obtain ⟨p, hp, hpm⟩ := List.mem_map.1 h
    have := (List.mem_filter.1 hp).2
    simp [hpm] at this

theorem score_add (z : SortedSet κ α) (s : κ) (m m' : α) :
    (z.add s m).score m' = if m' = m then some s else z.score m' := by
  apply Option.ext
  intro s'
  rw [score_eq_some_iff]
  simp only [add, List.mem_orderedInsert, Prod.mk.injEq]
  rw [← score_eq_some_iff, score_remove]
  by_cases h : m' = m <;> simp [h, eq_comm]

@[simp] theorem score_add_self (z : SortedSet κ α) (s : κ) (m : α) :
    (z.add s m).score m = some s := by
  simp [score_add]

/-- Removing a member that is not there. -/
theorem entries_remove_of_not_mem {z : SortedSet κ α} {m : α} (h : m ∉ z) :
    (z.remove m).entries = z.entries := by
  refine List.filter_eq_self.2 fun p hp => ?_
  have hne : p.2 ≠ m := by
    rintro rfl
    exact h ((mem_iff_entry _ _).2 ⟨p.1, hp⟩)
  simpa using hne

/-- A new member that comes after all others is added at the end. -/
theorem entries_add_last {z : SortedSet κ α} {s : κ} {m : α} (hm : m ∉ z)
    (h : ∀ p ∈ z.entries, before p (s, m)) : (z.add s m).entries = z.entries ++ [(s, m)] := by
  have hinsert : ∀ l : List (κ × α), (∀ p ∈ l, before p (s, m)) → (∀ p ∈ l, p.2 ≠ m) →
      l.orderedInsert before (s, m) = l ++ [(s, m)] := by
    intro l
    induction l with
    | nil => intro _ _; rfl
    | cons p l ih =>
        intro hl hne
        have hnot : ¬ before (s, m) p := by
          intro hb
          -- both ways round the two entries would be the same
          rcases hl p List.mem_cons_self with h1 | h1
          · rcases hb with h2 | h2
            · exact absurd (h1.trans h2) (lt_irrefl _)
            · exact absurd (h2.1 ▸ h1) (lt_irrefl _)
          · rcases hb with h2 | h2
            · exact absurd (h1.1 ▸ h2) (lt_irrefl _)
            · exact hne p List.mem_cons_self (le_antisymm h1.2 h2.2)
        rw [List.orderedInsert_cons, if_neg hnot, List.cons_append,
          ih (fun p' hp' => hl p' (List.mem_cons_of_mem p hp'))
            fun p' hp' => hne p' (List.mem_cons_of_mem p hp')]
  show (z.remove m).entries.orderedInsert before (s, m) = _
  rw [entries_remove_of_not_mem hm]
  refine hinsert z.entries h fun p hp heq => hm ?_
  exact (mem_iff_entry _ _).2 ⟨p.1, heq ▸ hp⟩

/-! ## `ZREMRANGEBYSCORE`, `ZRANGEBYSCORE`, `ZRANGE`, `ZPOPMIN` -/

/-- Remove the members whose score is between `lo` and `hi`. -/
def removeRangeByScore (z : SortedSet κ α) (lo hi : κ) : SortedSet κ α :=
  z.filter (fun p => ¬ (lo ≤ p.1 ∧ p.1 ≤ hi))

theorem score_removeRangeByScore (z : SortedSet κ α) (lo hi : κ) (m : α) :
    (z.removeRangeByScore lo hi).score m
      = (z.score m).filter (fun s => ¬ (lo ≤ s ∧ s ≤ hi)) := by
  rw [removeRangeByScore, score_filter]

/-- The entries whose score is between `lo` and `hi`, in order. -/
def rangeByScore (z : SortedSet κ α) (lo hi : κ) : List (κ × α) :=
  z.entries.filter (fun p => lo ≤ p.1 ∧ p.1 ≤ hi)

theorem mem_rangeByScore (z : SortedSet κ α) (lo hi s : κ) (m : α) :
    (s, m) ∈ z.rangeByScore lo hi ↔ z.score m = some s ∧ lo ≤ s ∧ s ≤ hi := by
  simp [rangeByScore, score_eq_some_iff]

theorem rangeByScore_nodup (z : SortedSet κ α) (lo hi : κ) :
    ((z.rangeByScore lo hi).map Prod.snd).Nodup :=
  z.nodup.sublist (List.filter_sublist.map Prod.snd)

/-- The entries at the positions from `start` to `stop`, both included; a negative position
counts from the end, as in `ZRANGE`. -/
def range (z : SortedSet κ α) (start stop : Int) : List (κ × α) :=
  let n : Int := z.entries.length
  let i := max 0 (if start < 0 then start + n else start)
  let j := if stop < 0 then stop + n else stop
  (z.entries.drop i.toNat).take (j - i + 1).toNat

/-- Positions from the front: `stop` is the last position, not a number of entries. -/
theorem range_natCast (z : SortedSet κ α) (i j : Nat) :
    z.range i j = (z.entries.drop i).take (j + 1 - i) := by
  have hi : ¬ (i : Int) < 0 := by omega
  have hj : ¬ (j : Int) < 0 := by omega
  simp only [range, hi, hj, if_false]
  congr 1
  omega

theorem range_all (z : SortedSet κ α) : z.range 0 (-1) = z.entries := by
  simp only [range]
  rw [List.take_of_length_le]
  · simp
  · simp only [Int.reduceLT, if_false, if_true, List.length_drop]
    omega

/-- The entry at the last position. -/
theorem head?_range_last (z : SortedSet κ α) :
    (z.range (-1) (-1)).head? = z.entries.getLast? := by
  simp only [range, show (-1 : Int) < 0 by decide, if_true]
  rw [List.getLast?_eq_getElem?, List.head?_take, List.head?_drop]
  cases hl : z.entries.length with
  | zero => simp [List.length_eq_zero_iff.1 hl]
  | succ k =>
      have hi : (max 0 (-1 + ((k + 1 : Nat) : Int))).toNat = k := by omega
      have hj : (-1 + ((k + 1 : Nat) : Int) - max 0 (-1 + ((k + 1 : Nat) : Int)) + 1).toNat
          = 1 := by omega
      rw [hi, hj]
      rfl

/-- Take out the entry with the smallest score. -/
def popMin (z : SortedSet κ α) : Option ((κ × α) × SortedSet κ α) :=
  match z with
  | ⟨[], _, _⟩ => none
  | ⟨p :: l, hs, hn⟩ => some (p, ⟨l, (List.pairwise_cons.1 hs).2, by
      rw [List.map_cons] at hn; exact (List.nodup_cons.1 hn).2⟩)

theorem popMin_eq_some {z z' : SortedSet κ α} {p : κ × α} (h : z.popMin = some (p, z')) :
    z.score p.2 = some p.1 ∧ ∀ m, z'.score m = if m = p.2 then none else z.score m := by
  obtain ⟨l, hs, hn⟩ := z
  cases l with
  | nil => simp [popMin] at h
  | cons q l =>
      simp only [popMin, Option.some.injEq, Prod.mk.injEq] at h
      obtain ⟨rfl, rfl⟩ := h
      refine ⟨by simp [score], fun m => ?_⟩
      by_cases hm : m = q.2
      · subst hm
        have hnot : q.2 ∉ l.map Prod.snd := by
          rw [List.map_cons] at hn; exact (List.nodup_cons.1 hn).1
        rw [if_pos rfl, ← not_mem_iff, mem_iff_entry]
        rintro ⟨s, hmem⟩
        exact hnot (List.mem_map.2 ⟨(s, q.2), hmem, rfl⟩)
      · rw [if_neg hm, score, score]
        rw [List.find?_cons_of_neg (by simpa using fun h => hm h.symm)]

/-- Without its first entry. -/
theorem entries_of_popMin {z z' : SortedSet κ α} {p : κ × α} (h : z.popMin = some (p, z')) :
    z.entries = p :: z'.entries := by
  obtain ⟨l, hs, hn⟩ := z
  cases l with
  | nil => simp [popMin] at h
  | cons q l =>
      simp only [popMin, Option.some.injEq, Prod.mk.injEq] at h
      obtain ⟨rfl, rfl⟩ := h
      rfl

/-- The first entry comes before all others. -/
theorem before_of_popMin {z z' : SortedSet κ α} {p b : κ × α} (h : z.popMin = some (p, z'))
    (hb : b ∈ z.entries) : before p b := by
  have hsorted := z.sorted
  rw [entries_of_popMin h] at hsorted hb
  rcases List.mem_cons.1 hb with rfl | hb
  · exact Or.inr ⟨rfl, le_rfl⟩
  · exact (List.pairwise_cons.1 hsorted).1 b hb

theorem popMin_eq_none {z : SortedSet κ α} (h : z.popMin = none) (m : α) : m ∉ z := by
  obtain ⟨l, hs, hn⟩ := z
  cases l with
  | nil => simp [mem_iff_entry]
  | cons q l => simp [popMin] at h

/-! ## The least entry -/

end SortedSet
