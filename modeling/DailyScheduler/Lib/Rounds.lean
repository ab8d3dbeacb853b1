import DailyScheduler.Lib.Invariant

set_option autoImplicit false

/-! # Loops whose rounds leave each other alone

A loop `forEach l f` ends at the first round that raises. Where the round of one element does not
change whether that of another one raises (`Apart`), the loop returns exactly when no element fails in
the state it starts from. Where it does not change what another element waits for either (`Serves`),
an element gets that exactly when neither it nor an earlier one fails.
-/

namespace Rounds

open AtomicProg

variable {σ ε ξ β : Type}

/-- Whether the round of an element raises is told by `fails` in every state with `I`, and the rounds
of the other elements do not change it. -/
structure Apart (I : σ → Prop) (fails : β → σ → Prop) (f : β → Prog σ ε ξ Unit) (l : List β) :
    Prop where
  keeps : ∀ a ∈ l, ∀ s, I s → I ((f a).exec s)
  returns : ∀ a ∈ l, ∀ s, I s → ¬ fails a s → ((f a).run s).val = .ok ()
  raises : ∀ a ∈ l, ∀ s, I s → fails a s → ∃ x, ((f a).run s).val = .error x
  apart : ∀ a ∈ l, ∀ b ∈ l, a ≠ b → ∀ s, I s → (fails b ((f a).exec s) ↔ fails b s)

/-- The round of `b` turns `pend` into `got` where `b` wants it, unless it fails, and no other round
changes that `b` wants it, that it is pending or that it was got. -/
structure Serves (I : σ → Prop) (fails : β → σ → Prop) (f : β → Prog σ ε ξ Unit) (l : List β)
    (b : β) (wants : σ → Prop) (pend got : Config σ ε → Prop) : Prop where
  serve : ∀ c, I c.1 → wants c.1 → ¬ fails b c.1 → got ((f b).after c)
  failed : ∀ c, I c.1 → fails b c.1 → pend c → pend ((f b).after c)
  wants : ∀ a ∈ l, a ≠ b → ∀ s, I s → wants s → wants ((f a).exec s)
  pend : ∀ a ∈ l, a ≠ b → ∀ c, I c.1 → pend c → pend ((f a).after c)
  got : ∀ a ∈ l, a ≠ b → ∀ c, I c.1 → got c → got ((f a).after c)

variable {I : σ → Prop} {fails : β → σ → Prop} {f : β → Prog σ ε ξ Unit} {l l' : List β}

theorem Apart.sublist (h : Apart I fails f l) (hl : ∀ a ∈ l', a ∈ l) : Apart I fails f l' where
  keeps := fun a ha => h.keeps a (hl a ha)
  returns := fun a ha => h.returns a (hl a ha)
  raises := fun a ha => h.raises a (hl a ha)
  apart := fun a ha b hb => h.apart a (hl a ha) b (hl b hb)

theorem after_forEach_cons_ok {a : β} {c : Config σ ε} (h : ((f a).run c.1).val = .ok ()) :
    (Prog.forEach (a :: l) f).after c = (Prog.forEach l f).after ((f a).after c) :=
  Prog.after_bind h

theorem after_forEach_cons_error {a : β} {c : Config σ ε} {x : ξ}
    (h : ((f a).run c.1).val = .error x) : (Prog.forEach (a :: l) f).after c = (f a).after c :=
  Prog.after_bind_error h

/-- The loop returns when no element fails, and raises when one does. -/
theorem Apart.forEach_ok_iff (h : Apart I fails f l) (hnd : l.Nodup) {s : σ} (hs : I s) :
    ((Prog.forEach l f).run s).val = .ok () ↔ ∀ a ∈ l, ¬ fails a s := by
  induction l generalizing s with
  | nil => exact ⟨fun _ a ha => (List.not_mem_nil ha).elim, fun _ => rfl⟩
  | cons a l ih =>
      obtain ⟨hnot, hnd⟩ := List.nodup_cons.1 hnd
      have hmem : a ∈ a :: l := List.mem_cons_self
      have htail : ∀ b ∈ l, b ∈ a :: l := fun b hb => List.mem_cons_of_mem a hb
      rw [List.forall_mem_cons]
      show ((f a >>= fun _ => Prog.forEach l f).run s).val = .ok () ↔ _
      rw [Prog.run_bind]
      by_cases hf : fails a s
      · obtain ⟨x, hx⟩ := h.raises a hmem s hs hf
        have herror : (((f a).run s).andThen fun _ => Prog.forEach l f).val = .error x := by
          simp only [Prog.Outcome.andThen, hx]
        rw [herror]
        constructor
        · intro hv
          cases hv
        · intro hall
          exact absurd hf hall.1
      · have hv := h.returns a hmem s hs hf
        have hrest := ih (h.sublist htail) hnd (h.keeps a hmem s hs)
        have hok : (((f a).run s).andThen fun _ => Prog.forEach l f).val
            = ((Prog.forEach l f).run ((f a).exec s)).val := by
          simp only [Prog.Outcome.andThen, hv, Prog.exec]
        rw [hok]
        refine hrest.trans ?_
        have hsame : (∀ b ∈ l, ¬ fails b ((f a).exec s)) ↔ ∀ b ∈ l, ¬ fails b s := by
          refine forall₂_congr fun b hb => not_congr ?_
          refine h.apart a hmem b (htail b hb) ?_ s hs
          rintro rfl
          exact hnot hb
        exact hsame.trans ⟨fun hall => ⟨hf, hall⟩, fun hall => hall.2⟩

variable {b : β} {wants : σ → Prop} {pend got : Config σ ε → Prop}

theorem Serves.sublist (h : Serves I fails f l b wants pend got) (hl : ∀ a ∈ l', a ∈ l) :
    Serves I fails f l' b wants pend got where
  serve := h.serve
  failed := h.failed
  wants := fun a ha => h.wants a (hl a ha)
  pend := fun a ha => h.pend a (hl a ha)
  got := fun a ha => h.got a (hl a ha)

/-- Rounds of other elements do not take back what `b` got. -/
theorem Serves.got_forEach (h : Serves I fails f l b wants pend got) (hA : Apart I fails f l)
    (hb : b ∉ l) {c : Config σ ε} (hI : I c.1) (hgot : got c) :
    got ((Prog.forEach l f).after c) := by
  induction l generalizing c with
  | nil =>
      have hc : (Prog.forEach [] f).after c = c := by
        show (c.1, c.2 ++ []) = c
        rw [List.append_nil]
      rw [hc]
      exact hgot
  | cons a l ih =>
      have hmem : a ∈ a :: l := List.mem_cons_self
      have htail : ∀ x ∈ l, x ∈ a :: l := fun x hx => List.mem_cons_of_mem a hx
      have hne : a ≠ b := by
        rintro rfl
        exact hb hmem
      have hround := h.got a hmem hne c hI hgot
      cases hv : ((f a).run c.1).val with
      | error x =>
          rw [after_forEach_cons_error hv]
          exact hround
      | ok u =>
          rw [after_forEach_cons_ok hv]
          exact ih (h.sublist htail) (hA.sublist htail) (fun hin => hb (htail b hin))
            (hA.keeps a hmem c.1 hI) hround

variable {l₁ l₂ : List β}

/-- Where `b` or an earlier element fails, `b` still waits at the end. -/
theorem Serves.pend_of_fails (h : Serves I fails f (l₁ ++ b :: l₂) b wants pend got)
    (hA : Apart I fails f (l₁ ++ b :: l₂)) (hnd : (l₁ ++ b :: l₂).Nodup) {c : Config σ ε}
    (hI : I c.1) (hpend : pend c) {x : β} (hx : x ∈ l₁ ++ [b]) (hfails : fails x c.1) :
    pend ((Prog.forEach (l₁ ++ b :: l₂) f).after c) := by
  induction l₁ generalizing c with
  | nil =>
      have hxb : x = b := List.mem_singleton.1 hx
      subst hxb
      obtain ⟨e, he⟩ := hA.raises x (List.mem_append_right _ List.mem_cons_self) c.1 hI hfails
      rw [List.nil_append, after_forEach_cons_error he]
      exact h.failed c hI hfails hpend
  | cons a l₁ ih =>
      have hmem : a ∈ a :: l₁ ++ b :: l₂ := List.mem_cons_self
      have htail : ∀ x ∈ l₁ ++ b :: l₂, x ∈ a :: l₁ ++ b :: l₂ :=
        fun x hx => List.mem_cons_of_mem a hx
      obtain ⟨hnot, hnd⟩ := List.nodup_cons.1 hnd
      have hne : a ≠ b := by
        rintro rfl
        exact hnot (List.mem_append_right _ List.mem_cons_self)
      have hround := h.pend a hmem hne c hI hpend
      by_cases hf : fails a c.1
      · obtain ⟨e, he⟩ := hA.raises a hmem c.1 hI hf
        rw [List.cons_append, after_forEach_cons_error he]
        exact hround
      · have hxl : x ∈ l₁ ++ [b] := by
          refine (List.mem_cons.1 hx).resolve_left ?_
          rintro rfl
          exact hf hfails
        have hxin : x ∈ l₁ ++ b :: l₂ := by
          rw [List.mem_append, List.mem_singleton] at hxl
          rw [List.mem_append, List.mem_cons]
          exact hxl.imp id .inl
        have hxa : a ≠ x := by
          rintro rfl
          exact hf hfails
        rw [List.cons_append, after_forEach_cons_ok (hA.returns a hmem c.1 hI hf)]
        refine ih (h.sublist htail) (hA.sublist htail) hnd (hA.keeps a hmem c.1 hI) hround hxl ?_
        exact (hA.apart a hmem x (htail x hxin) hxa c.1 hI).2 hfails

/-- Where neither `b` nor an earlier element fails, `b` gets what it wants. -/
theorem Serves.got_of_fine (h : Serves I fails f (l₁ ++ b :: l₂) b wants pend got)
    (hA : Apart I fails f (l₁ ++ b :: l₂)) (hnd : (l₁ ++ b :: l₂).Nodup) {c : Config σ ε}
    (hI : I c.1) (hwants : wants c.1) (hfine : ∀ x ∈ l₁ ++ [b], ¬ fails x c.1) :
    got ((Prog.forEach (l₁ ++ b :: l₂) f).after c) := by
  induction l₁ generalizing c with
  | nil =>
      have hmem : b ∈ [] ++ b :: l₂ := List.mem_cons_self
      have htail : ∀ x ∈ l₂, x ∈ [] ++ b :: l₂ := fun x hx => List.mem_cons_of_mem b hx
      have hnot := (List.nodup_cons.1 hnd).1
      have hf := hfine b (List.mem_singleton.2 rfl)
      rw [List.nil_append, after_forEach_cons_ok (hA.returns b hmem c.1 hI hf)]
      exact (h.sublist htail).got_forEach (hA.sublist htail) hnot (hA.keeps b hmem c.1 hI)
        (h.serve c hI hwants hf)
  | cons a l₁ ih =>
      have hmem : a ∈ a :: l₁ ++ b :: l₂ := List.mem_cons_self
      have htail : ∀ x ∈ l₁ ++ b :: l₂, x ∈ a :: l₁ ++ b :: l₂ :=
        fun x hx => List.mem_cons_of_mem a hx
      obtain ⟨hnot, hnd⟩ := List.nodup_cons.1 hnd
      have hne : a ≠ b := by
        rintro rfl
        exact hnot (List.mem_append_right _ List.mem_cons_self)
      have hf := hfine a List.mem_cons_self
      rw [List.cons_append, after_forEach_cons_ok (hA.returns a hmem c.1 hI hf)]
      refine ih (h.sublist htail) (hA.sublist htail) hnd (hA.keeps a hmem c.1 hI)
        (h.wants a hmem hne c.1 hI hwants) fun x hx => ?_
      have hxin : x ∈ l₁ ++ b :: l₂ := by
        rw [List.mem_append, List.mem_singleton] at hx
        rw [List.mem_append, List.mem_cons]
        exact hx.imp id .inl
      have hxa : a ≠ x := by
        rintro rfl
        exact hnot hxin
      rw [Prog.after, hA.apart a hmem x (htail x hxin) hxa c.1 hI]
      exact hfine x (List.mem_cons_of_mem a hx)

end Rounds
