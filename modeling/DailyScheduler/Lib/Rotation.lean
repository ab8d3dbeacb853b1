import DailyScheduler.Lib.Run
import Mathlib.Data.List.Basic
import Mathlib.Data.List.Nodup

set_option autoImplicit false

/-! # Serving in turn

A list of customers is served in turn: whoever is served goes to the end of the list, and those who
stood before him go there too, in their order. `past a l` is the list after `a` was served. A
customer who wants to be served lets only those before him go first, and each of them is then behind
him; so he moves ahead until it is his turn.
-/

namespace Rotation

variable {α : Type} [DecidableEq α]

/-- The list that begins behind `a`. -/
def past (a : α) (l : List α) : List α := l.drop (l.idxOf a + 1) ++ l.take (l.idxOf a + 1)

theorem past_append {a : α} {u v : List α} (h : a ∉ u) : past a (u ++ a :: v) = v ++ (u ++ [a]) := by
  have hidx : (u ++ a :: v).idxOf a = u.length := by
    rw [List.idxOf_append_of_notMem h, List.idxOf_cons_self, Nat.add_zero]
  have hsplit : u ++ a :: v = (u ++ [a]) ++ v := by simp
  have hlen : (u ++ [a]).length = u.length + 1 := by simp
  unfold past
  rw [hidx, hsplit, ← hlen, List.drop_left, List.take_left]

theorem past_perm (a : α) (l : List α) : (past a l).Perm l := by
  have happend : l.take (l.idxOf a + 1) ++ l.drop (l.idxOf a + 1) = l := List.take_append_drop _ _
  have hswap : (past a l).Perm (l.take (l.idxOf a + 1) ++ l.drop (l.idxOf a + 1)) :=
    List.perm_append_comm
  rwa [happend] at hswap

theorem mem_past {a b : α} {l : List α} : b ∈ past a l ↔ b ∈ l := (past_perm a l).mem_iff

/-- Who stands behind the one who is served moves ahead by those who leave. -/
theorem idxOf_past {a b : α} {l : List α} (hb : b ∈ l) (h : l.idxOf a < l.idxOf b) :
    (past a l).idxOf b + (l.idxOf a + 1) = l.idxOf b := by
  have hlt : l.idxOf b < l.length := List.idxOf_lt_length_of_mem hb
  have ha : a ∈ l := List.idxOf_lt_length_iff.1 (Nat.lt_trans h hlt)
  obtain ⟨u, v, rfl, hu⟩ := List.eq_append_cons_of_mem ha
  have hidx : (u ++ a :: v).idxOf a = u.length := by
    rw [List.idxOf_append_of_notMem hu, List.idxOf_cons_self, Nat.add_zero]
  rw [hidx] at h ⊢
  have hbu : b ∉ u := by
    intro hmem
    rw [List.idxOf_append_of_mem hmem] at h
    have hbound := List.idxOf_lt_length_of_mem hmem
    omega
  have hba : a ≠ b := by
    rintro rfl
    omega
  have hbv : b ∈ v := by
    rcases List.mem_append.1 hb with hmem | hmem
    · exact absurd hmem hbu
    · exact (List.mem_cons.1 hmem).resolve_left fun heq => hba heq.symm
  rw [past_append hu, List.idxOf_append_of_mem hbv, List.idxOf_append_of_notMem hbu,
    List.idxOf_cons_ne v hba]
  omega

/-- Who was served stands behind all others. -/
theorem idxOf_lt_past_self {a b : α} {l : List α} (hnodup : l.Nodup) (ha : a ∈ l) (hb : b ∈ l)
    (hne : b ≠ a) : (past a l).idxOf b < (past a l).idxOf a := by
  obtain ⟨u, v, rfl, hu⟩ := List.eq_append_cons_of_mem ha
  rw [past_append hu]
  have hav : a ∉ v ++ u := by
    intro hmem
    have hperm : (u ++ a :: v).Perm (a :: (v ++ u)) :=
      List.perm_middle.trans (List.perm_append_comm.cons a)
    exact (List.nodup_cons.1 (hperm.nodup_iff.1 hnodup)).1 hmem
  have hbm : b ∈ v ++ u := by
    rcases List.mem_append.1 hb with hmem | hmem
    · exact List.mem_append_right _ hmem
    · exact List.mem_append_left _ ((List.mem_cons.1 hmem).resolve_left hne)
  rw [← List.append_assoc, List.idxOf_append_of_mem hbm, List.idxOf_append_of_notMem hav]
  have hbound := List.idxOf_lt_length_of_mem hbm
  omega

/-! ## A customer who wants to be served -/

/-- The customers `l` are served one after the other, and none of them stands behind `b`. -/
def Before (b : α) : List α → List α → Prop :=
  Run.Meets (fun l a => past a l) fun l a => l.idxOf a ≤ l.idxOf b

/-- **He waits for no more turns than there are customers before him.** -/
theorem length_le_idxOf {b : α} {l served : List α} (hb : b ∈ l) (h : Before b l served)
    (hnot : b ∉ served) : served.length ≤ l.idxOf b := by
  induction served generalizing l with
  | nil => exact Nat.zero_le _
  | cons a served ih =>
      obtain ⟨ha, hrest⟩ := h
      have hab : a ≠ b := fun heq => hnot (heq ▸ List.mem_cons_self)
      have hlt : l.idxOf a < l.idxOf b := by
        refine Nat.lt_of_le_of_ne ha fun heq => hab ?_
        exact ((List.idxOf_inj hb).1 heq.symm).symm
      have hmove := idxOf_past hb hlt
      have hlater := ih (mem_past.2 hb) hrest fun hmem => hnot (List.mem_cons_of_mem a hmem)
      rw [List.length_cons]
      omega

/-- Who stands behind him is not served before he is. -/
theorem notMem_of_behind {a b : α} {l served : List α} (hb : b ∈ l) (ha : a ∈ l)
    (hbehind : l.idxOf b < l.idxOf a) (h : Before b l served) (hnot : b ∉ served) :
    a ∉ served := by
  induction served generalizing l with
  | nil => exact List.not_mem_nil
  | cons c served ih =>
      obtain ⟨hc, hrest⟩ := h
      have hcb : c ≠ b := fun heq => hnot (heq ▸ List.mem_cons_self)
      have hlt : l.idxOf c < l.idxOf b := by
        refine Nat.lt_of_le_of_ne hc fun heq => hcb ?_
        exact ((List.idxOf_inj hb).1 heq.symm).symm
      have hmoveb := idxOf_past hb hlt
      have hmovea := idxOf_past ha (Nat.lt_trans hlt hbehind)
      have hbehind' : (past c l).idxOf b < (past c l).idxOf a := by omega
      intro hmem
      rcases List.mem_cons.1 hmem with rfl | hmem
      · omega
      · exact ih (mem_past.2 hb) (mem_past.2 ha) hbehind' hrest
          (fun hm => hnot (List.mem_cons_of_mem c hm)) hmem

end Rotation
