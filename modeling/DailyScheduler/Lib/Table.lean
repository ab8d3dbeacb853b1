import Mathlib.Data.List.Nodup

set_option autoImplicit false

/-! # Tables with a primary key

A `Table α key` is a list of rows in the order of their insertion whose keys are pairwise
distinct. A new row gets the key `next`, which no row has had before.
-/

structure Table (α : Type) (key : α → Nat) where
  rows : List α
  next : Nat
  nodup : (rows.map key).Nodup
  fresh : ∀ r ∈ rows, key r < next

namespace Table

variable {α : Type} {key : α → Nat}

/-- The table without rows. -/
def empty : Table α key := ⟨[], 1, List.nodup_nil, by simp⟩

/-- The row of a key. -/
def find? (t : Table α key) (k : Nat) : Option α := t.rows.find? (fun r => key r = k)

/-- `INSERT`: the row is made from the key it gets. -/
def insert (t : Table α key) (row : Nat → α) (h : ∀ k, key (row k) = k) : Table α key where
  rows := t.rows ++ [row t.next]
  next := t.next + 1
  nodup := by
    have hnew : t.next ∉ t.rows.map key := by
      intro hmem
      obtain ⟨r, hr, hk⟩ := List.mem_map.1 hmem
      have hlt := t.fresh r hr
      omega
    rw [List.map_append, List.map_singleton, h]
    exact (List.nodup_append.2 ⟨t.nodup, List.nodup_singleton _, fun a ha b hb hab =>
      hnew (List.mem_singleton.1 hb ▸ hab ▸ ha)⟩)
  fresh := by
    intro r hr
    rcases List.mem_append.1 hr with hr | hr
    · have hlt := t.fresh r hr
      omega
    · rw [List.mem_singleton.1 hr, h]
      omega

/-- `UPDATE` of the row with the key of `r`. -/
def update (t : Table α key) (r : α) : Table α key where
  rows := t.rows.map fun r' => if key r' = key r then r else r'
  next := t.next
  nodup := by
    have hkeys : (t.rows.map fun r' => if key r' = key r then r else r').map key
        = t.rows.map key := by
      rw [List.map_map]
      refine List.map_congr_left fun r' _ => ?_
      show key (if key r' = key r then r else r') = key r'
      split
      · rename_i h
        exact h.symm
      · rfl
    rw [hkeys]
    exact t.nodup
  fresh := by
    intro r' hr'
    obtain ⟨r'', hmem, rfl⟩ := List.mem_map.1 hr'
    have hlt := t.fresh r'' hmem
    split
    · rename_i h
      exact h ▸ hlt
    · exact hlt

/-- `DELETE` of the rows that satisfy `p`. -/
def delete (t : Table α key) (p : α → Bool) : Table α key where
  rows := t.rows.filter fun r => !p r
  next := t.next
  nodup := (t.nodup.sublist (List.filter_sublist.map key))
  fresh := fun r hr => t.fresh r (List.mem_filter.1 hr).1

theorem mem_insert (t : Table α key) (row : Nat → α) (h : ∀ k, key (row k) = k) (r : α) :
    r ∈ (t.insert row h).rows ↔ r ∈ t.rows ∨ r = row t.next := by
  simp [insert]

theorem mem_update {t : Table α key} {r r' : α} (h : r' ∈ (t.update r).rows) :
    r' = r ∨ r' ∈ t.rows := by
  obtain ⟨r'', hmem, rfl⟩ := List.mem_map.1 h
  split
  · exact .inl rfl
  · exact .inr hmem

theorem find?_insert (t : Table α key) (row : Nat → α) (h : ∀ k, key (row k) = k) (k : Nat) :
    (t.insert row h).find? k
      = (t.find? k).or (if k = t.next then some (row t.next) else none) := by
  show (t.rows ++ [row t.next]).find? _ = _
  rw [List.find?_append]
  congr 1
  rw [List.find?_singleton, h]
  by_cases hk : k = t.next
  · simp [hk]
  · simp [hk, Ne.symm hk]

theorem find?_update (t : Table α key) (r : α) (k : Nat) :
    (t.update r).find? k = if k = key r then (t.find? k).map fun _ => r else t.find? k := by
  show (t.rows.map fun r' => if key r' = key r then r else r').find? _ = _
  unfold find?
  induction t.rows with
  | nil => simp
  | cons r' l ih =>
      rw [List.map_cons, List.find?_cons, List.find?_cons, ih]
      by_cases hk : k = key r
      · by_cases hr : key r' = key r
        · simp [hk, hr]
        · simp [hk, hr]
      · by_cases hr : key r' = key r
        · simp [hk, hr, Ne.symm hk]
        · simp [hk, hr]

/-- Writing back a row as it is changes nothing. -/
theorem rows_update_self (t : Table α key) {r : α} (h : r ∈ t.rows) :
    (t.update r).rows = t.rows := by
  show t.rows.map _ = t.rows
  conv => rhs; rw [← List.map_id t.rows]
  refine List.map_congr_left fun r' hr' => ?_
  split
  · rename_i hk
    exact List.inj_on_of_nodup_map t.nodup h hr' hk.symm
  · rfl

theorem find?_congr {t t' : Table α key} (h : t.rows = t'.rows) (k : Nat) :
    t.find? k = t'.find? k := by
  unfold find?
  rw [h]

theorem mem_of_mem_delete {t : Table α key} {p : α → Bool} {r : α} (h : r ∈ (t.delete p).rows) :
    r ∈ t.rows :=
  (List.mem_filter.1 h).1

/-- Rows with the same key are the same row. -/
theorem eq_of_key_eq (t : Table α key) {r r' : α} (h : r ∈ t.rows) (h' : r' ∈ t.rows)
    (hk : key r = key r') : r = r' :=
  List.inj_on_of_nodup_map t.nodup h h' hk

theorem find?_eq_some {t : Table α key} {k : Nat} {r : α} :
    t.find? k = some r ↔ r ∈ t.rows ∧ key r = k := by
  constructor
  · intro h
    have hkey := List.find?_some h
    exact ⟨List.mem_of_find?_eq_some h, by simpa using hkey⟩
  · rintro ⟨hr, rfl⟩
    cases hf : t.find? (key r) with
    | none =>
        have hnot := List.find?_eq_none.1 hf r hr
        simp at hnot
    | some r' =>
        have hkey := List.find?_some hf
        have hmem := List.mem_of_find?_eq_some hf
        rw [t.eq_of_key_eq hmem hr (by simpa using hkey)]

/-- A key is one of those of the rows in `p` when its row is in `p`. -/
theorem mem_map_key_filter (t : Table α key) (p : α → Bool) (k : Nat) :
    k ∈ (t.rows.filter p).map key ↔ (t.find? k).any p = true := by
  rw [List.mem_map, Option.any_eq_true]
  constructor
  · rintro ⟨r, hr, rfl⟩
    obtain ⟨hmem, hp⟩ := List.mem_filter.1 hr
    exact ⟨r, find?_eq_some.2 ⟨hmem, rfl⟩, hp⟩
  · rintro ⟨r, hr, hp⟩
    obtain ⟨hmem, hk⟩ := find?_eq_some.1 hr
    exact ⟨r, List.mem_filter.2 ⟨hmem, hp⟩, hk⟩

/-- Counting without one key leaves out its row, if it counts. -/
theorem countP_without (t : Table α key) (k : Nat) (p : α → Bool) :
    t.rows.countP p = t.rows.countP (fun r => p r && decide (key r ≠ k))
      + if (t.find? k).any p then 1 else 0 := by
  have hnd := t.nodup
  unfold find?
  generalize t.rows = rows at hnd ⊢
  induction rows with
  | nil => rfl
  | cons r l ih =>
      rw [List.map_cons, List.nodup_cons] at hnd
      rw [List.countP_cons, List.countP_cons, List.find?_cons]
      by_cases hk : key r = k
      · -- no later row has the key
        have hrest : l.countP (fun r => p r && decide (key r ≠ k)) = l.countP p := by
          refine List.countP_congr fun r' hr' => ?_
          have hne : key r' ≠ k := by
            intro hkey
            apply hnd.1
            rw [hk, ← hkey]
            exact List.mem_map_of_mem hr'
          simp [hne]
        rw [hrest]
        simp [hk]
      · rw [ih hnd.2]
        simp only [hk, decide_false, ne_eq, not_false_eq_true, decide_true, Bool.and_true]
        omega

end Table
