import DailyScheduler.Lib.Steps

set_option autoImplicit false

/-! # The steps of a run

`p.Walks R s` says that every atomic step of the run of `p` alone from `s` is in `R`. It is proved
with Hoare triples `p.Steady R P Q X` over the state: started where `P` holds the program takes
only steps in `R` and ends where `Q`, or where it raises `X`, holds. `P` may say what the program
has found so far, so that a step need be in `R` only where it is taken.
-/

namespace AtomicProg

variable {σ ε ξ α β : Type}

/-- Every step of the run from the state is in `R`. -/
def Prog.Walks (R : σ → σ → Prop) : Prog σ ε ξ α → σ → Prop
  | .ret _, _ => True
  | .raise _, _ => True
  | .act f _ k, s => R s (f s) ∧ Prog.Walks R (k s) (f s)

theorem Prog.Walks.mono {R R' : σ → σ → Prop} {p : Prog σ ε ξ α} {s : σ} (h : p.Walks R s)
    (hR : ∀ s s', R s s' → R' s s') : p.Walks R' s := by
  induction p generalizing s with
  | ret a => trivial
  | raise x => trivial
  | act f e k ih => exact ⟨hR s (f s) h.1, ih s h.2⟩

theorem Prog.walks_read_bind {R : σ → σ → Prop} {g : σ → β} {k : β → Prog σ ε ξ α} {s : σ} :
    (Prog.read g >>= k).Walks R s ↔ R s s ∧ (k (g s)).Walks R s := Iff.rfl

/-- The contract of a program that runs alone and whose steps are in `R`. -/
def Side.steady (R : σ → σ → Prop) : Side σ ε ε :=
  { Side.alone σ ε with guar := fun c c' => R c.1 c'.1 }

theorem Side.steady_stable (R : σ → σ → Prop) (P : Config σ ε → Prop) :
    Stable (Side.steady R).rely P := by
  intro c c' h hc
  have he : c = c' := h
  exact he ▸ hc

/-- Started in `P`, the program takes steps in `R` and ends in `Q` or raises into `X`. -/
def Prog.Steady (R : σ → σ → Prop) (P : σ → Prop) (p : Prog σ ε ξ α) (Q : α → σ → Prop)
    (X : ξ → σ → Prop) : Prop :=
  (Side.steady R).Triple (fun c => P c.1) p (fun a c => Q a c.1) (fun x c => X x c.1)

namespace Prog.Steady

variable {R : σ → σ → Prop} {P P' : σ → Prop} {Q Q' : α → σ → Prop} {X X' : ξ → σ → Prop}
  {p : Prog σ ε ξ α}

theorem mono (h : p.Steady R P Q X) (hP : ∀ s, P' s → P s) (hQ : ∀ a s, Q a s → Q' a s)
    (hX : ∀ x s, X x s → X' x s) : p.Steady R P' Q' X' :=
  Side.Triple.mono h (fun c => hP c.1) (fun a c => hQ a c.1) (fun x c => hX x c.1)

theorem pre (h : p.Steady R P Q X) (hP : ∀ s, P' s → P s) : p.Steady R P' Q X :=
  h.mono hP (fun _ _ => id) fun _ _ => id

/-- A fact that does not depend on the state may be assumed. -/
theorem of_pure {b : Prop} (h : b → p.Steady R P Q X) :
    p.Steady R (fun s => b ∧ P s) Q X :=
  fun c hc => h hc.1 c hc.2

theorem ret {a : α} (h : ∀ s, P s → Q a s) : (Prog.ret a : Prog σ ε ξ α).Steady R P Q X :=
  Side.Triple.ret (Side.steady_stable R _) fun c => h c.1

theorem raise {x : ξ} (h : ∀ s, P s → X x s) : (Prog.raise x : Prog σ ε ξ α).Steady R P Q X :=
  Side.Triple.raise (Side.steady_stable R _) fun c => h c.1

theorem bind {Q' : β → σ → Prop} {q : α → Prog σ ε ξ β} (h : p.Steady R P Q X)
    (hq : ∀ a, (q a).Steady R (Q a) Q' X) : (p >>= q).Steady R P Q' X :=
  Side.Triple.bind h hq

theorem attempt (h : p.Steady R P Q X) : p.attempt.Steady R P
    (fun r s => match r with
      | .ok a => Q a s
      | .error x => X x s) X' :=
  Side.Triple.attempt h (fun _ => Side.steady_stable R _) fun _ => Side.steady_stable R _

theorem command {Q : β → σ → Prop} {f : σ → β × σ} {e : σ → List ε}
    (h : ∀ s, P s → R s (f s).2 ∧ Q (f s).1 (f s).2) :
    (Prog.command f e : Prog σ ε ξ β).Steady R P Q X :=
  Side.Triple.command (Side.steady_stable R _) (fun _ => Side.steady_stable R _)
    fun s _ hs => h s hs

theorem read {Q : β → σ → Prop} {g : σ → β} (hR : ∀ s, R s s) (h : ∀ s, P s → Q (g s) s) :
    (Prog.read g : Prog σ ε ξ β).Steady R P Q X :=
  Side.Triple.read (Side.steady_stable R _) (fun _ => Side.steady_stable R _)
    (fun c _ => hR c.1) fun s _ hs => h s hs

theorem write {Q : Unit → σ → Prop} {f : σ → σ} (h : ∀ s, P s → R s (f s) ∧ Q () (f s)) :
    (Prog.write f : Prog σ ε ξ Unit).Steady R P Q X :=
  Side.Triple.write (Side.steady_stable R _) (Side.steady_stable R _) fun s _ hs => h s hs

theorem emit {Q : Unit → σ → Prop} {e : ε} (hR : ∀ s, R s s) (h : ∀ s, P s → Q () s) :
    (Prog.emit e : Prog σ ε ξ Unit).Steady R P Q X :=
  Side.Triple.emit (Side.steady_stable R _) (Side.steady_stable R _)
    fun s _ hs => ⟨hR s, h s hs⟩

/-- A loop whose rounds keep the assertion. -/
theorem forEach {l : List β} {f : β → Prog σ ε ξ Unit}
    (h : ∀ b ∈ l, (f b).Steady R P (fun _ => P) X) :
    (Prog.forEach l f).Steady R P (fun _ => P) X :=
  Side.Triple.forEach (Side.steady_stable R _) l h

theorem ite {b : Prop} [Decidable b] {p q : Prog σ ε ξ α} (hp : b → p.Steady R P Q X)
    (hq : ¬ b → q.Steady R P Q X) : (if b then p else q).Steady R P Q X :=
  Side.Triple.ite hp hq

/-- A program all of whose steps, wherever they are taken, are in `R` and keep the assertion. -/
theorem of_steps {R' : σ → σ → List ε → Prop} {Q : α → Prop} (h : p.Steps R' Q)
    (hR : ∀ s s' es, R' s s' es → P s → R s s' ∧ P s') :
    p.Steady R P (fun a s => P s ∧ Q a) fun _ => P :=
  h.triple (Side.steady_stable R _) (fun _ _ hc => hc) fun s _ s' es hs hr => hR s s' es hr hs

/-- The steps of the run, and its end. -/
theorem walks (h : p.Steady R P Q X) {s : σ} (hs : P s) :
    p.Walks R s ∧ match (p.run s).val with
      | .ok a => Q a (p.exec s)
      | .error x => X x (p.exec s) := by
  have key : ∀ (p : Prog σ ε ξ α) (c : Config σ ε),
      (Side.steady R).Safe (fun a c => Q a c.1) (fun x c => X x c.1) p c →
      p.Walks R c.1 ∧ match (p.run c.1).val with
        | .ok a => Q a (p.exec c.1)
        | .error x => X x (p.exec c.1) := by
    intro p
    induction p with
    | ret a => exact fun c hc => ⟨trivial, hc c rfl⟩
    | raise x => exact fun c hc => ⟨trivial, hc c rfl⟩
    | act f e k ih =>
        intro c hc
        obtain ⟨hstep, hrest⟩ := hc c rfl
        have hk := ih c.1 _ hrest
        exact ⟨⟨hstep, hk.1⟩, hk.2⟩
  exact key p (s, []) (h (s, []) hs)

/-- An assertion that holds at the end in both cases. -/
theorem ends {Q : σ → Prop} (h : p.Steady R P (fun _ => Q) fun _ => Q) {s : σ} (hs : P s) :
    p.Walks R s ∧ Q (p.exec s) := by
  obtain ⟨hwalks, hend⟩ := h.walks hs
  refine ⟨hwalks, ?_⟩
  cases hv : (p.run s).val with
  | ok a =>
      rw [hv] at hend
      exact hend
  | error x =>
      rw [hv] at hend
      exact hend

end Prog.Steady

end AtomicProg
