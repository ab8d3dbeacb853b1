set_option autoImplicit false

/-! # Runs of a step function

A system is a function `step` from a state and an operation to the next state; a run is a
list of operations. `Meets cond s l` says that every operation of the run meets a condition
on the state it starts from; `Along P s l` says that every state of the run satisfies `P`.
The one induction over runs is `along_of_step`: a property that every conditioned step keeps
holds along every run that meets the condition.
-/

namespace Run

variable {σ ο : Type} (step : σ → ο → σ)

/-- The last state of the run `l` from `s`. -/
def last (s : σ) (l : List ο) : σ := l.foldl step s

/-- Every operation of the run meets the condition in the state it starts from. -/
def Meets (cond : σ → ο → Prop) : σ → List ο → Prop
  | _, [] => True
  | s, o :: l => cond s o ∧ Meets cond (step s o) l

/-- Every state of the run, the first and the last included, satisfies `P`. -/
def Along (P : σ → Prop) : σ → List ο → Prop
  | s, [] => P s
  | s, o :: l => P s ∧ Along P (step s o) l

variable {step}

theorem last_cons (s : σ) (o : ο) (l : List ο) :
    last step s (o :: l) = last step (step s o) l := rfl

theorem along_of_step {P : σ → Prop} {cond : σ → ο → Prop}
    (h : ∀ s o, P s → cond s o → P (step s o)) {s : σ} {l : List ο}
    (hs : P s) (hl : Meets step cond s l) : Along step P s l := by
  induction l generalizing s with
  | nil => exact hs
  | cons o l ih => exact ⟨hs, ih (h s o hs hl.1) hl.2⟩

/-- What every step keeps. -/
theorem along_of_keeps {P : σ → Prop} (h : ∀ s o, P s → P (step s o)) {s : σ} (hs : P s)
    (l : List ο) : Along step P s l := by
  induction l generalizing s with
  | nil => exact hs
  | cons o l ih => exact ⟨hs, ih (h s o hs)⟩

theorem Along.mono {P P' : σ → Prop} (h : ∀ s, P s → P' s) {s : σ} {l : List ο}
    (hl : Along step P s l) : Along step P' s l := by
  induction l generalizing s with
  | nil => exact h s hl
  | cons o l ih => exact ⟨h s hl.1, ih hl.2⟩

theorem Along.last {P : σ → Prop} {s : σ} {l : List ο} (hl : Along step P s l) :
    P (Run.last step s l) := by
  induction l generalizing s with
  | nil => exact hl
  | cons o l ih => exact ih hl.2

theorem Meets.mono {c c' : σ → ο → Prop} (h : ∀ s o, c s o → c' s o) {s : σ} {l : List ο}
    (hl : Meets step c s l) : Meets step c' s l := by
  induction l generalizing s with
  | nil => trivial
  | cons o l ih => exact ⟨h s o hl.1, ih hl.2⟩

theorem meets_append {c : σ → ο → Prop} {s : σ} {l l' : List ο} :
    Meets step c s (l ++ l') ↔ Meets step c s l ∧ Meets step c (last step s l) l' := by
  induction l generalizing s with
  | nil => exact ⟨fun h => ⟨trivial, h⟩, And.right⟩
  | cons o l ih =>
      show (c s o ∧ Meets step c (step s o) (l ++ l')) ↔ _
      rw [ih, ← and_assoc]
      rfl

/-- What every conditioned step keeps, and what it does besides. -/
theorem along_and_meets_of_step {P : σ → Prop} {cond cond' : σ → ο → Prop}
    (h : ∀ s o, P s → cond s o → P (step s o) ∧ cond' s o) {s : σ} {l : List ο}
    (hs : P s) (hl : Meets step cond s l) : Along step P s l ∧ Meets step cond' s l := by
  induction l generalizing s with
  | nil => exact ⟨hs, trivial⟩
  | cons o l ih =>
      obtain ⟨hkeep, hdoes⟩ := h s o hs hl.1
      obtain ⟨halong, hmeets⟩ := ih hkeep hl.2
      exact ⟨⟨hs, halong⟩, hdoes, hmeets⟩

end Run
