import DailyScheduler.Lib.Steps

set_option autoImplicit false

/-! # Invariants of a program that runs alone

`p.Inv I Q` says that `p`, started where the invariant `I` of state and log holds, ends where `I`
holds, whether it returns or raises, and that the values it returns are in `Q`. Unlike a bound on
the single steps (`Prog.Steps`) it may use what the program has read: `Inv.read` hands on what the
invariant says about the answer.
-/

namespace AtomicProg

variable {σ ε ξ α β : Type}

/-- State and log after the program has run to its end. -/
def Prog.after (p : Prog σ ε ξ α) (c : Config σ ε) : Config σ ε :=
  (p.exec c.1, c.2 ++ (p.run c.1).trace)

theorem Prog.after_of_run {p : Prog σ ε ξ α} {c : Config σ ε} {v : Except ξ α} {s : σ}
    {t : List ε} (h : p.run c.1 = ⟨v, s, t⟩) : p.after c = (s, c.2 ++ t) := by
  rw [after, exec, h]

theorem Prog.after_bind {p : Prog σ ε ξ α} {q : α → Prog σ ε ξ β} {c : Config σ ε} {a : α}
    (h : (p.run c.1).val = .ok a) : (p >>= q).after c = (q a).after (p.after c) := by
  simp [after, exec, Prog.run_bind, Prog.Outcome.andThen, h]

theorem Prog.after_bind_error {p : Prog σ ε ξ α} {q : α → Prog σ ε ξ β} {c : Config σ ε} {x : ξ}
    (h : (p.run c.1).val = .error x) : (p >>= q).after c = p.after c := by
  simp [after, exec, Prog.run_bind, Prog.Outcome.andThen, h]

/-- The loop over two lists, one after the other. -/
theorem Prog.forEach_append (l l' : List β) (f : β → Prog σ ε ξ Unit) :
    Prog.forEach (l ++ l') f = Prog.forEach l f >>= fun _ => Prog.forEach l' f := by
  induction l with
  | nil => rfl
  | cons b l ih =>
      show (f b >>= fun _ => Prog.forEach (l ++ l') f) = _
      rw [ih]
      exact (Prog.bind_assoc _ _ _).symm

/-- A loop whose rounds all return, whatever state they find, returns. -/
theorem Prog.forEach_returns {l : List β} {f : β → Prog σ ε ξ Unit}
    (h : ∀ b ∈ l, ∀ s, ((f b).run s).val = .ok ()) (s : σ) :
    ((Prog.forEach l f).run s).val = .ok () := by
  induction l generalizing s with
  | nil => rfl
  | cons b l ih =>
      have hb := h b List.mem_cons_self s
      show ((f b >>= fun _ => Prog.forEach l f).run s).val = .ok ()
      rw [Prog.run_bind, Prog.Outcome.andThen, hb]
      exact ih (fun b' hb' => h b' (List.mem_cons_of_mem b hb')) _

/-- The invariant `I` holds at the end of the run, and a returned value is in `Q`. -/
def Prog.Inv (I : Config σ ε → Prop) (p : Prog σ ε ξ α) (Q : α → Prop) : Prop :=
  (Side.alone σ ε).Triple I p (fun a c => I c ∧ Q a) (fun _ => I)

namespace Prog.Inv

variable {I : Config σ ε → Prop} {Q Q' : α → Prop} {p : Prog σ ε ξ α}

theorem ret {a : α} (h : Q a) : (Prog.ret a : Prog σ ε ξ α).Inv I Q :=
  Side.Triple.ret (Side.alone_stable _) fun _ hc => ⟨hc, h⟩

theorem raise {x : ξ} : (Prog.raise x : Prog σ ε ξ α).Inv I Q :=
  Side.Triple.raise (Side.alone_stable _) fun _ hc => hc

theorem mono (h : p.Inv I Q) (hQ : ∀ a, Q a → Q' a) : p.Inv I Q' :=
  Side.Triple.mono h (fun _ hc => hc) (fun a _ hc => ⟨hc.1, hQ a hc.2⟩) (fun _ _ hc => hc)

theorem of_true (h : p.Inv I Q) : p.Inv I fun _ => True := h.mono fun _ _ => trivial

theorem bind {Q' : β → Prop} {q : α → Prog σ ε ξ β} (h : p.Inv I Q)
    (hq : ∀ a, Q a → (q a).Inv I Q') : (p >>= q).Inv I Q' :=
  Side.Triple.bind h fun a c hc => hq a hc.2 c hc.1

theorem tryCatch {hd : ξ → Prog σ ε ξ α} (h : p.Inv I Q) (hh : ∀ x, (hd x).Inv I Q) :
    (p.tryCatch hd).Inv I Q :=
  Side.Triple.tryCatch h hh

theorem attempt (h : p.Inv I Q) : p.attempt.Inv I fun r => ∀ a, r = .ok a → Q a := by
  refine tryCatch (bind h fun a ha => ret fun b hb => ?_) (fun x => ret fun b hb => ?_)
  · cases hb
    exact ha
  · cases hb

theorem command {f : σ → β × σ} {e : σ → List ε} {Q : β → Prop}
    (h : ∀ s t, I (s, t) → I ((f s).2, t ++ e s) ∧ Q (f s).1) :
    (Prog.command f e : Prog σ ε ξ β).Inv I Q := by
  refine Side.Triple.command (Side.alone_stable _) (fun _ => Side.alone_stable _) fun s t hs => ?_
  simpa [Side.alone] using h s t hs

theorem read {g : σ → β} {Q : β → Prop} (h : ∀ s t, I (s, t) → Q (g s)) :
    (Prog.read g : Prog σ ε ξ β).Inv I Q :=
  Side.Triple.read (Side.alone_stable _) (fun _ => Side.alone_stable _) (fun _ _ => trivial)
    fun s t hs => ⟨hs, h s t hs⟩

theorem write {f : σ → σ} (h : ∀ s t, I (s, t) → I (f s, t)) :
    (Prog.write f : Prog σ ε ξ Unit).Inv I fun _ => True :=
  Side.Triple.write (Side.alone_stable _) (Side.alone_stable _) fun s t hs =>
    ⟨trivial, h s t hs, trivial⟩

theorem emit {e : ε} (h : ∀ s t, I (s, t) → I (s, t ++ [e])) :
    (Prog.emit e : Prog σ ε ξ Unit).Inv I fun _ => True :=
  Side.Triple.emit (Side.alone_stable _) (Side.alone_stable _) fun s t hs =>
    ⟨trivial, h s t hs, trivial⟩

theorem forEach {l : List β} {f : β → Prog σ ε ξ Unit}
    (h : ∀ b ∈ l, (f b).Inv I fun _ => True) : (Prog.forEach l f).Inv I fun _ => True := by
  induction l with
  | nil => exact ret trivial
  | cons b l ih =>
      have hb : (f b).Inv I fun _ => True := h b List.mem_cons_self
      exact hb.bind fun _ _ => ih fun b' hb' => h b' (List.mem_cons_of_mem b hb')

theorem ite {b : Prop} [Decidable b] {p q : Prog σ ε ξ α} (hp : b → p.Inv I Q)
    (hq : ¬ b → q.Inv I Q) : (if b then p else q).Inv I Q :=
  Side.Triple.ite hp hq

/-- A program whose steps all keep the invariant. -/
theorem of_steps {R : σ → σ → List ε → Prop} (h : p.Steps R Q)
    (hR : ∀ s t s' es, R s s' es → I (s, t) → I (s', t ++ es)) : p.Inv I Q := by
  refine h.triple (Side.alone_stable _) (fun _ _ hc => hc) fun s t s' es hs hr => ⟨trivial, ?_⟩
  simpa [Side.alone] using hR s t s' es hr hs

/-- What the run of the program shows. -/
theorem of_run (h : ∀ c, I c → I (p.after c) ∧ ∀ a, (p.run c.1).val = .ok a → Q a) : p.Inv I Q := by
  intro c hc
  obtain ⟨hI, hQ⟩ := h c hc
  refine (Side.alone_safe_iff p c.1 c.2).2 ?_
  unfold Side.Ends
  unfold Prog.after Prog.exec at hI
  cases hv : (p.run c.1).val with
  | ok a => exact ⟨hI, hQ a hv⟩
  | error x => exact hI

/-- The invariant at the end of a run, and what is known of a returned value. -/
theorem ends (h : p.Inv I Q) {c : Config σ ε} (hc : I c) :
    I (p.after c) ∧ ∀ a, (p.run c.1).val = .ok a → Q a := by
  have hsafe := (Side.alone_safe_iff p c.1 c.2).1 (h c hc)
  unfold Side.Ends at hsafe
  unfold Prog.after Prog.exec
  cases hv : (p.run c.1).val with
  | ok a =>
      rw [hv] at hsafe
      refine ⟨hsafe.1, fun b hb => ?_⟩
      cases hb
      exact hsafe.2
  | error x =>
      rw [hv] at hsafe
      exact ⟨hsafe, fun b hb => by cases hb⟩

end Prog.Inv

end AtomicProg
