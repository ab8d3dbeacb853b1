import DailyScheduler.Lib.Table

set_option autoImplicit false

/-! # Tables without duplicates

Rows of a table may be told apart by more than their key. `t.UniqueBy f` says that no two rows have the
same `f`. A new row must bring a new `f`; a row may be replaced by one with the same `f`.
-/

namespace Table

variable {α γ : Type} {key : α → Nat} {f : α → γ} {t : Table α key}

/-- Rows with the same `f` are the same row. -/
def UniqueBy (f : α → γ) (t : Table α key) : Prop := ∀ r ∈ t.rows, ∀ r' ∈ t.rows, f r = f r' → r = r'

theorem UniqueBy.empty : (Table.empty : Table α key).UniqueBy f := by
  intro r hr
  cases hr

theorem UniqueBy.insert (h : t.UniqueBy f) {row : Nat → α} (hid : ∀ k, key (row k) = k)
    (hnew : ∀ r ∈ t.rows, f r ≠ f (row t.next)) : (t.insert row hid).UniqueBy f := by
  intro r hr r' hr' hsame
  rcases (mem_insert _ _ _ _).1 hr with hr | rfl
  · rcases (mem_insert _ _ _ _).1 hr' with hr' | rfl
    · exact h r hr r' hr' hsame
    · exact absurd hsame (hnew r hr)
  · rcases (mem_insert _ _ _ _).1 hr' with hr' | rfl
    · exact absurd hsame.symm (hnew r' hr')
    · rfl

theorem UniqueBy.update (h : t.UniqueBy f) {old row : α} (hold : old ∈ t.rows)
    (hid : key row = key old) (hf : f row = f old) : (t.update row).UniqueBy f := by
  have hfrom : ∀ r ∈ (t.update row).rows, ∃ u ∈ t.rows, f r = f u ∧
      r = if key u = key row then row else u := by
    intro r hr
    obtain ⟨u, hu, rfl⟩ := List.mem_map.1 hr
    refine ⟨u, hu, ?_, rfl⟩
    by_cases hsame : key u = key row
    · have heq : u = old := t.eq_of_key_eq hu hold (hsame.trans hid)
      rw [if_pos hsame, hf, heq]
    · rw [if_neg hsame]
  intro r hr r' hr' hsame
  obtain ⟨u, hu, hfu, heq⟩ := hfrom r hr
  obtain ⟨u', hu', hfu', heq'⟩ := hfrom r' hr'
  have huu : u = u' := by
    apply h u hu u' hu'
    calc f u = f r := hfu.symm
      _ = f r' := hsame
      _ = f u' := hfu'
  rw [heq, heq', huu]

theorem UniqueBy.delete (h : t.UniqueBy f) (p : α → Bool) : (t.delete p).UniqueBy f :=
  fun r hr r' hr' => h r (mem_of_mem_delete hr) r' (mem_of_mem_delete hr')

end Table
