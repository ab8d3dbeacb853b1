import Mathlib.Data.List.Basic

set_option autoImplicit false

/-! # Paths of names with a separator

A path is split at a separator into its parts; `parents` are all but the last of them, put together
again, and `last` is the last one.
-/

namespace Dotted

variable {α : Type} [DecidableEq α] (sep : α)

/-- `sep.join(path.split(sep)[:-1])`. -/
def parents (path : List α) : List α := [sep].intercalate (path.splitOn sep).dropLast

/-- `path.split(sep)[-1]`. -/
def last (path : List α) : List α := (path.splitOn sep).getLast (List.splitOn_ne_nil sep path)

variable {sep}

theorem parents_of_not_mem {path : List α} (h : sep ∉ path) : parents sep path = [] := by
  unfold parents
  rw [List.splitOn_eq_singleton h]
  rfl

omit [DecidableEq α] in
theorem intercalate_append {l l' : List (List α)} (h : l ≠ []) (h' : l' ≠ []) :
    [sep].intercalate (l ++ l') = [sep].intercalate l ++ sep :: [sep].intercalate l' := by
  induction l with
  | nil => exact absurd rfl h
  | cons x l ih =>
      cases l with
      | nil =>
          rw [List.singleton_append, List.intercalate_cons_of_ne_nil h']
          simp
      | cons y l =>
          have htail := ih (List.cons_ne_nil y l)
          calc [sep].intercalate (x :: y :: l ++ l')
              = x ++ [sep] ++ [sep].intercalate (y :: l ++ l') := List.intercalate_cons_cons
            _ = x ++ [sep] ++ ([sep].intercalate (y :: l) ++ sep :: [sep].intercalate l') := by rw [htail]
            _ = [sep].intercalate (x :: y :: l) ++ sep :: [sep].intercalate l' := by
              rw [List.intercalate_cons_cons, List.append_assoc, List.append_assoc, List.append_assoc]

/-- The parts of a path behind a prefix: they come last. -/
theorem last_append (m path : List α) : last sep (m ++ sep :: path) = last sep path := by
  unfold last
  simp only [List.splitOn_append_cons_self]
  exact List.getLast_append_of_ne_nil _ _

theorem parents_append_of_not_mem (m : List α) {path : List α} (h : sep ∉ path) :
    parents sep (m ++ sep :: path) = m := by
  unfold parents
  rw [List.splitOn_append_cons_self, List.splitOn_eq_singleton h, List.dropLast_concat]
  exact List.intercalate_splitOn sep

theorem parents_append_of_mem (m : List α) {path : List α} (h : sep ∈ path) :
    parents sep (m ++ sep :: path) = m ++ sep :: parents sep path := by
  have hparts : (path.splitOn sep).dropLast ≠ [] := by
    obtain ⟨p, q, rfl⟩ := List.append_of_mem h
    rw [List.splitOn_append_cons_self, List.dropLast_append_of_ne_nil (List.splitOn_ne_nil sep q)]
    exact List.append_ne_nil_of_left_ne_nil (List.splitOn_ne_nil sep p) _
  unfold parents
  rw [List.splitOn_append_cons_self, List.dropLast_append_of_ne_nil (List.splitOn_ne_nil sep path),
    intercalate_append (List.splitOn_ne_nil sep m) hparts, List.intercalate_splitOn]

end Dotted
