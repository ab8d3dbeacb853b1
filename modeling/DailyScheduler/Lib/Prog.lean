import Mathlib.Logic.Function.Basic

set_option autoImplicit false

/-! # Programs of atomic steps

A `Prog σ ε ξ α` is a program over a shared state `σ`. It is a finite tree of *atomic
steps*: a step replaces the state, emits a list of events and goes on in a way that may
depend on the state it found. A program ends by returning an `α` or by raising a `ξ`.

The same tree has two readings. `Prog.run` executes it alone, from its first step to its
last. `Pool` (`Lib/RelyGuarantee.lean`) interleaves the steps of many programs. A function
written once as a `Prog` therefore has a sequential and a concurrent meaning that agree by
construction.
-/

namespace AtomicProg

/-- A program of atomic steps over the state `σ`, emitting `ε` and raising `ξ`. -/
inductive Prog (σ ε ξ α : Type) : Type where
  | ret (a : α)
  | raise (x : ξ)
  | act (f : σ → σ) (e : σ → List ε) (k : σ → Prog σ ε ξ α)

namespace Prog

variable {σ ε ξ α β γ : Type}

/-- Sequential composition; a raised exception skips the rest. -/
def bind : Prog σ ε ξ α → (α → Prog σ ε ξ β) → Prog σ ε ξ β
  | .ret a, q => q a
  | .raise x, _ => .raise x
  | .act f e k, q => .act f e (fun s => (k s).bind q)

/-- `try p except x: h x`. -/
def tryCatch : Prog σ ε ξ α → (ξ → Prog σ ε ξ α) → Prog σ ε ξ α
  | .ret a, _ => .ret a
  | .raise x, h => h x
  | .act f e k, h => .act f e (fun s => (k s).tryCatch h)

instance : Monad (Prog σ ε ξ) where
  pure := .ret
  bind := bind

instance : MonadExceptOf ξ (Prog σ ε ξ) where
  throw := .raise
  tryCatch := tryCatch

@[simp] theorem pure_eq (a : α) : (pure a : Prog σ ε ξ α) = .ret a := rfl

@[simp] theorem throw_eq (x : ξ) : (throw x : Prog σ ε ξ α) = .raise x := rfl

@[simp] theorem tryCatch_eq (p : Prog σ ε ξ α) (h : ξ → Prog σ ε ξ α) :
    (MonadExcept.tryCatch p h : Prog σ ε ξ α) = p.tryCatch h := rfl

theorem bind_eq (p : Prog σ ε ξ α) (q : α → Prog σ ε ξ β) : (p >>= q) = p.bind q := rfl

@[simp] theorem ret_bind (a : α) (q : α → Prog σ ε ξ β) : (Prog.ret a >>= q) = q a := rfl

@[simp] theorem raise_bind (x : ξ) (q : α → Prog σ ε ξ β) :
    ((Prog.raise x : Prog σ ε ξ α) >>= q) = .raise x := rfl

theorem bind_ret (p : Prog σ ε ξ α) : (p >>= Prog.ret) = p := by
  induction p with
  | ret a => rfl
  | raise x => rfl
  | act f e k ih => exact congrArg (Prog.act f e) (funext ih)

theorem bind_assoc (p : Prog σ ε ξ α) (q : α → Prog σ ε ξ β) (r : β → Prog σ ε ξ γ) :
    ((p >>= q) >>= r) = (p >>= fun a => q a >>= r) := by
  induction p with
  | ret a => rfl
  | raise x => rfl
  | act f e k ih => exact congrArg (Prog.act f e) (funext ih)

/-! ## Single steps -/

/-- One atomic step: answer and new state are functions of the state. -/
def command (f : σ → β × σ) (e : σ → List ε) : Prog σ ε ξ β :=
  .act (fun s => (f s).2) e (fun s => .ret (f s).1)

/-- Read the state in one step. -/
def read (g : σ → β) : Prog σ ε ξ β := .act id (fun _ => []) (fun s => .ret (g s))

/-- Replace the state in one step. -/
def write (f : σ → σ) : Prog σ ε ξ Unit := .act f (fun _ => []) (fun _ => .ret ())

/-- `for a in l: f a`. -/
def forEach : List β → (β → Prog σ ε ξ Unit) → Prog σ ε ξ Unit
  | [], _ => .ret ()
  | b :: l, f => f b >>= fun _ => forEach l f

/-- Record an event. -/
def emit (e : ε) : Prog σ ε ξ Unit := .act id (fun _ => [e]) (fun _ => .ret ())

/-- Run a program and hand over what it returned or raised. -/
def attempt (p : Prog σ ε ξ α) : Prog σ ε ξ (Except ξ α) :=
  (p.bind (fun a => .ret (.ok a))).tryCatch (fun x => .ret (.error x))

/-! ## Running a program alone -/

/-- The end of a run: the value returned or raised, the last state, the events in order. -/
structure Outcome (σ ε ξ α : Type) where
  val : Except ξ α
  state : σ
  trace : List ε

/-- Run a program alone from the state `s`. -/
def run : Prog σ ε ξ α → σ → Outcome σ ε ξ α
  | .ret a, s => ⟨.ok a, s, []⟩
  | .raise x, s => ⟨.error x, s, []⟩
  | .act f e k, s =>
      let r := (k s).run (f s)
      ⟨r.val, r.state, e s ++ r.trace⟩

/-- The state a program leaves behind when it is run alone. -/
def exec (p : Prog σ ε ξ α) (s : σ) : σ := (p.run s).state

@[simp] theorem run_ret (a : α) (s : σ) :
    (Prog.ret a : Prog σ ε ξ α).run s = ⟨.ok a, s, []⟩ := rfl

@[simp] theorem run_raise (x : ξ) (s : σ) :
    (Prog.raise x : Prog σ ε ξ α).run s = ⟨.error x, s, []⟩ := rfl

@[simp] theorem run_command (f : σ → β × σ) (e : σ → List ε) (s : σ) :
    (command f e : Prog σ ε ξ β).run s = ⟨.ok (f s).1, (f s).2, e s⟩ := by
  simp [command, run]

@[simp] theorem run_read (g : σ → β) (s : σ) :
    (read g : Prog σ ε ξ β).run s = ⟨.ok (g s), s, []⟩ := rfl

@[simp] theorem run_write (f : σ → σ) (s : σ) :
    (write f : Prog σ ε ξ Unit).run s = ⟨.ok (), f s, []⟩ := rfl

@[simp] theorem run_emit (e : ε) (s : σ) :
    (emit e : Prog σ ε ξ Unit).run s = ⟨.ok (), s, [e]⟩ := rfl

/-- The rest of a run after its first part ended as `r`. -/
def Outcome.andThen (r : Outcome σ ε ξ α) (q : α → Prog σ ε ξ β) : Outcome σ ε ξ β :=
  match r.val with
  | .ok a => ⟨((q a).run r.state).val, ((q a).run r.state).state,
      r.trace ++ ((q a).run r.state).trace⟩
  | .error x => ⟨.error x, r.state, r.trace⟩

/-- The handler's part of a run whose body ended as `r`. -/
def Outcome.orElse (r : Outcome σ ε ξ α) (h : ξ → Prog σ ε ξ α) : Outcome σ ε ξ α :=
  match r.val with
  | .ok _ => r
  | .error x => ⟨((h x).run r.state).val, ((h x).run r.state).state,
      r.trace ++ ((h x).run r.state).trace⟩

theorem run_bind (p : Prog σ ε ξ α) (q : α → Prog σ ε ξ β) (s : σ) :
    (p >>= q).run s = (p.run s).andThen q := by
  induction p generalizing s with
  | ret a => simp [Outcome.andThen]
  | raise x => simp [Outcome.andThen]
  | act f e k ih =>
      have h := ih s (f s)
      change (⟨((k s >>= q).run (f s)).val, ((k s >>= q).run (f s)).state,
        e s ++ ((k s >>= q).run (f s)).trace⟩ : Outcome σ ε ξ β) = _
      rw [h]
      simp only [run, Outcome.andThen]
      cases ((k s).run (f s)).val <;> simp

theorem run_tryCatch (p : Prog σ ε ξ α) (h : ξ → Prog σ ε ξ α) (s : σ) :
    (p.tryCatch h).run s = (p.run s).orElse h := by
  induction p generalizing s with
  | ret a => rfl
  | raise x => simp [tryCatch, Outcome.orElse]
  | act f e k ih =>
      have hk := ih s (f s)
      simp only [tryCatch, run, hk, Outcome.orElse]
      cases hv : ((k s).run (f s)).val <;> simp [hv]

@[simp] theorem Outcome.andThen_ok (a : α) (s : σ) (t : List ε) (q : α → Prog σ ε ξ β) :
    (⟨.ok a, s, t⟩ : Outcome σ ε ξ α).andThen q
      = ⟨((q a).run s).val, ((q a).run s).state, t ++ ((q a).run s).trace⟩ := rfl

@[simp] theorem Outcome.andThen_error (x : ξ) (s : σ) (t : List ε) (q : α → Prog σ ε ξ β) :
    (⟨.error x, s, t⟩ : Outcome σ ε ξ α).andThen q = ⟨.error x, s, t⟩ := rfl

@[simp] theorem Outcome.orElse_ok (a : α) (s : σ) (t : List ε) (h : ξ → Prog σ ε ξ α) :
    (⟨.ok a, s, t⟩ : Outcome σ ε ξ α).orElse h = ⟨.ok a, s, t⟩ := rfl

@[simp] theorem Outcome.orElse_error (x : ξ) (s : σ) (t : List ε) (h : ξ → Prog σ ε ξ α) :
    (⟨.error x, s, t⟩ : Outcome σ ε ξ α).orElse h
      = ⟨((h x).run s).val, ((h x).run s).state, t ++ ((h x).run s).trace⟩ := rfl

@[simp] theorem run_attempt (p : Prog σ ε ξ α) (s : σ) :
    (attempt p).run s = ⟨.ok (p.run s).val, (p.run s).state, (p.run s).trace⟩ := by
  rw [attempt, run_tryCatch, ← bind_eq, run_bind]
  rcases p.run s with ⟨_ | _, _, _⟩ <;> simp

/-! ## The last state of a run -/

theorem exec_eq_of_run {p : Prog σ ε ξ α} {s s' : σ} {v : Except ξ α} {t : List ε}
    (h : p.run s = ⟨v, s', t⟩) : p.exec s = s' := by
  rw [exec, h]

theorem exec_attempt (p : Prog σ ε ξ α) (s : σ) : (attempt p).exec s = p.exec s := by
  rw [exec, run_attempt, exec]

theorem exec_bind (p : Prog σ ε ξ α) (q : α → Prog σ ε ξ β) (s : σ) :
    (p >>= q).exec s = match (p.run s).val with
      | .ok a => (q a).exec (p.exec s)
      | .error _ => p.exec s := by
  simp only [exec, run_bind, Outcome.andThen]
  cases (p.run s).val <;> rfl

/-- What is done with the value afterwards changes no state. -/
theorem exec_bind_of_silent {p : Prog σ ε ξ α} {q : α → Prog σ ε ξ β} {s : σ}
    (hq : ∀ a s, (q a).exec s = s) : (p >>= q).exec s = p.exec s := by
  rw [exec_bind]
  cases (p.run s).val with
  | ok a => exact hq a _
  | error x => rfl

/-- A property of the state that a program and its continuation keep. -/
theorem exec_bind_keeps {I : σ → Prop} {p : Prog σ ε ξ α} {q : α → Prog σ ε ξ β} {s : σ}
    (hp : I (p.exec s)) (hq : ∀ a, (p.run s).val = .ok a → I ((q a).exec (p.exec s))) :
    I ((p >>= q).exec s) := by
  rw [exec_bind]
  cases hv : (p.run s).val with
  | ok a => exact hq a hv
  | error x => exact hp

/-- A loop keeps what each of its rounds keeps. -/
theorem exec_forEach_keeps {I : σ → Prop} {l : List β} {f : β → Prog σ ε ξ Unit}
    (h : ∀ b ∈ l, ∀ s, I s → I ((f b).exec s)) {s : σ} (hs : I s) :
    I ((forEach l f).exec s) := by
  induction l generalizing s with
  | nil => exact hs
  | cons b l ih =>
      have hb : I ((f b).exec s) := h b List.mem_cons_self s hs
      exact exec_bind_keeps hb fun _ _ =>
        ih (fun b' hb' => h b' (List.mem_cons_of_mem b hb')) hb

/-! ## Programs that end in an exception -/

theorem error_bind_left {p : Prog σ ε ξ α} {q : α → Prog σ ε ξ β} {s : σ}
    (h : ∃ x, (p.run s).val = .error x) : ∃ x, ((p >>= q).run s).val = .error x := by
  obtain ⟨x, hx⟩ := h
  refine ⟨x, ?_⟩
  rw [run_bind, Outcome.andThen, hx]

theorem error_bind_right {p : Prog σ ε ξ α} {q : α → Prog σ ε ξ β} {s : σ}
    (h : ∀ a s, ∃ x, ((q a).run s).val = .error x) : ∃ x, ((p >>= q).run s).val = .error x := by
  rw [run_bind, Outcome.andThen]
  cases (p.run s).val with
  | error x => exact ⟨x, rfl⟩
  | ok a => exact h a _

/-- A loop with a round that raises in every state does not end well. -/
theorem error_forEach {l : List β} {f : β → Prog σ ε ξ Unit}
    (h : ∃ b ∈ l, ∀ s, ∃ x, ((f b).run s).val = .error x) (s : σ) :
    ∃ x, ((forEach l f).run s).val = .error x := by
  induction l generalizing s with
  | nil =>
      obtain ⟨b, hb, -⟩ := h
      cases hb
  | cons b l ih =>
      obtain ⟨b', hb', hraises⟩ := h
      rcases List.mem_cons.1 hb' with rfl | hb'
      · exact error_bind_left (hraises s)
      · exact error_bind_right fun _ s => ih ⟨b', hb', hraises⟩ s

end Prog

end AtomicProg
