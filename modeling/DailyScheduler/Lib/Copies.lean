import DailyScheduler.Lib.Objects
import DailyScheduler.Lib.Snapshots

set_option autoImplicit false

/-! # Objects with copies of a shared record

Each object carries a copy of a shared record, loads it from time to time, and saves it with what it
carries. `Copies` keeps account of what a register of the record held when an object loaded it. An
object that changes the register in its copy by loading only (`Reader`) leaves the register alone as
long as it saves it only while it still holds what was loaded (`Fresh`).
-/

namespace AtomicProg

variable {ι ω μ σ ε ξ γ : Type}

/-- The objects, and for each of them what the register held when it loaded its copy. -/
structure Copies (ι γ ω μ σ ε ξ : Type) where
  objects : Objects ι ω μ σ ε ξ
  seen : ι → Option γ

/-- The program reads the register in its only step. -/
def Prog.Loads (get : σ → γ) (Q : γ → ω → Prop) (p : Prog σ ε ξ ω) : Prop :=
  ∃ f e q, p = .act f e q ∧ (∀ s, get (f s) = get s) ∧
    ∀ s, (∃ o, q s = .ret o ∧ Q (get s) o) ∨ ∃ x, q s = .raise x

theorem Prog.Loads.steps {get : σ → γ} {Q : γ → ω → Prop} {p : Prog σ ε ξ ω} (h : p.Loads get Q) :
    p.Steps (fun _ _ _ => True) fun o => ∃ c, Q c o := by
  obtain ⟨f, e, q, rfl, -, hq⟩ := h
  refine fun s => ⟨trivial, ?_⟩
  rcases hq s with ⟨o, ho, hQ⟩ | ⟨x, hx⟩
  · rw [ho]
    exact ⟨_, hQ⟩
  · rw [hx]
    trivial

namespace Copies

/-- The next step of the object writes the register: there is a state in which it changes it. -/
def Writes (get : σ → γ) (C : Copies ι γ ω μ σ ε ξ) (i : ι) : Prop :=
  ∃ m f e q, C.objects.doing i = some (m, .act f e q) ∧ ∃ s, get (f s) ≠ get s

/-- If the next step of the object writes the register, the register still holds what the object has
loaded. -/
def Fresh (get : σ → γ) (C : Copies ι γ ω μ σ ε ξ) (i : ι) : Prop :=
  C.Writes get i → C.seen i = some (get C.objects.state)

/-- The object is about to load its copy. -/
def loading (loads : μ → Bool) (C : Copies ι γ ω μ σ ε ξ) (i : ι) : Bool :=
  match C.objects.doing i with
  | some (m, .act _ _ _) => loads m
  | _ => false

/-- Something else changes the state. -/
def outside (C : Copies ι γ ω μ σ ε ξ) (f : σ → σ) : Copies ι γ ω μ σ ε ξ :=
  { C with objects := C.objects.outside f }

variable [DecidableEq ι]

def call (M : Methods ω μ σ ε ξ) (C : Copies ι γ ω μ σ ε ξ) (i : ι) (m : μ) :
    Copies ι γ ω μ σ ε ξ :=
  { C with objects := C.objects.call M i m }

/-- The next step of the object `i`. -/
def go (get : σ → γ) (loads : μ → Bool) (C : Copies ι γ ω μ σ ε ξ) (i : ι) :
    Copies ι γ ω μ σ ε ξ where
  objects := C.objects.go i
  seen := if C.loading loads i then Function.update C.seen i (some (get C.objects.state)) else C.seen

section Seeing

variable {get : σ → γ} {loads : μ → Bool} {C : Copies ι γ ω μ σ ε ξ} {i : ι}

omit [DecidableEq ι] in
theorem loading_of_act {m : μ} {f : σ → σ} {e : σ → List ε} {q : σ → Prog σ ε ξ ω}
    (h : C.objects.doing i = some (m, .act f e q)) : C.loading loads i = loads m := by
  unfold loading
  rw [h]

omit [DecidableEq ι] in
theorem loading_of_ret {m : μ} {o : ω} (h : C.objects.doing i = some (m, .ret o)) :
    C.loading loads i = false := by
  unfold loading
  rw [h]

omit [DecidableEq ι] in
theorem loading_of_idle
    (h : ∀ m p, C.objects.doing i = some (m, p) → ∃ x, p = .raise x) : C.loading loads i = false := by
  unfold loading
  split
  · rename_i hdoing
    obtain ⟨x, hx⟩ := h _ _ hdoing
    cases hx
  · rfl

theorem seen_go_self :
    (C.go get loads i).seen i = if C.loading loads i then some (get C.objects.state) else C.seen i := by
  unfold go
  dsimp only
  split
  · exact Function.update_self ..
  · rfl

theorem seen_go_of_ne {j : ι} (hj : j ≠ i) : (C.go get loads i).seen j = C.seen j := by
  unfold go
  dsimp only
  split
  · exact Function.update_of_ne hj ..
  · rfl

end Seeing

/-! ## Objects that change a register by loading only -/

/-- The methods of the objects with `own` leave the register as it is, or set it to what the copy
holds; and the copy keeps it, except for methods that load. -/
structure Reader (M : Methods ω μ σ ε ξ) (loads : μ → Bool) (get : σ → γ) (copy : ω → γ)
    (own : ω → Prop) : Prop where
  sets : ∀ o m, own o → M.allowed o m = true → loads m = false →
    (M.program m o).Sets get (copy o) fun o' => own o' ∧ copy o' = copy o
  load : ∀ o m, own o → M.allowed o m = true → loads m = true →
    (M.program m o).Loads get fun c o' => own o' ∧ copy o' = c

/-- The copy of the object `i` is what it has loaded, and a method in progress sets the register to
nothing else. -/
def Agrees (get : σ → γ) (loads : μ → Bool) (copy : ω → γ) (own : ω → Prop)
    (C : Copies ι γ ω μ σ ε ξ) (i : ι) : Prop :=
  match C.objects.doing i with
  | none => own (C.objects.object i) ∧ ∀ c ∈ C.seen i, copy (C.objects.object i) = c
  | some (m, p) =>
      (loads m = true ∧ p.Loads get fun c o => own o ∧ copy o = c) ∨
      ∃ c, (loads m = true → ∀ f e q, p ≠ .act f e q) ∧
        p.Sets get c (fun o => own o ∧ copy o = c) ∧ ∀ c' ∈ C.seen i, c = c'

section Agreeing

variable {get : σ → γ} {loads : μ → Bool} {copy : ω → γ} {own : ω → Prop}
  {C C' : Copies ι γ ω μ σ ε ξ} {i : ι} {M : Methods ω μ σ ε ξ} {m : μ}

omit [DecidableEq ι] in
theorem Agrees.of_none (h : C.Agrees get loads copy own i) (hi : C.objects.doing i = none) :
    own (C.objects.object i) ∧ ∀ c ∈ C.seen i, copy (C.objects.object i) = c := by
  unfold Agrees at h
  rw [hi] at h
  exact h

omit [DecidableEq ι] in
/-- Others may do what they like. -/
theorem Agrees.of_others (h : C.Agrees get loads copy own i)
    (hobject : C'.objects.object i = C.objects.object i)
    (hdoing : C'.objects.doing i = C.objects.doing i) (hseen : C'.seen i = C.seen i) :
    C'.Agrees get loads copy own i := by
  unfold Agrees
  rw [hobject, hdoing, hseen]
  exact h

theorem Agrees.go_other (h : C.Agrees get loads copy own i) {j : ι} (hj : i ≠ j) :
    (C.go get loads j).Agrees get loads copy own i := by
  obtain ⟨hobject, hdoing⟩ := @Objects.go_of_ne _ _ _ _ _ _ C.objects j _ i hj
  exact h.of_others hobject hdoing (seen_go_of_ne hj)

theorem Agrees.call_other (h : C.Agrees get loads copy own i) {j : ι} (hj : i ≠ j) :
    (C.call M j m).Agrees get loads copy own i := by
  obtain ⟨hobject, hdoing, -⟩ := @Objects.call_of_ne _ _ _ _ _ _ C.objects j m _ M i hj
  exact h.of_others hobject hdoing rfl

theorem Agrees.call (h : C.Agrees get loads copy own i) (hM : Reader M loads get copy own) :
    (C.call M i m).Agrees get loads copy own i := by
  unfold Copies.call Objects.call
  cases hi : C.objects.doing i with
  | some d => exact h
  | none =>
      obtain ⟨hown, hcopy⟩ := h.of_none hi
      dsimp only
      split
      · rename_i hallowed
        unfold Agrees
        dsimp only
        rw [Function.update_self]
        dsimp only
        cases hm : loads m with
        | true => exact .inl ⟨rfl, hM.load _ _ hown hallowed hm⟩
        | false =>
            refine .inr ⟨copy (C.objects.object i), fun h => ?_, hM.sets _ _ hown hallowed hm, hcopy⟩
            cases h
      · exact h

/-- A fresh step leaves the register alone. -/
theorem Agrees.go (h : C.Agrees get loads copy own i) (hfresh : C.Fresh get i) :
    (C.go get loads i).Agrees get loads copy own i ∧
      get (C.objects.go i).state = get C.objects.state := by
  have hobjects : (C.go get loads i).objects = C.objects.go i := rfl
  unfold Agrees at h ⊢
  rw [seen_go_self, hobjects]
  unfold Objects.go loading
  cases hi : C.objects.doing i with
  | none =>
      rw [hi] at h
      dsimp only
      rw [hi]
      exact ⟨h, rfl⟩
  | some d =>
      obtain ⟨m, p⟩ := d
      rw [hi] at h
      dsimp only at h
      cases p with
      | raise x =>
          dsimp only
          rw [hi]
          exact ⟨h, rfl⟩
      | ret o =>
          dsimp only
          rw [Function.update_self, Function.update_self]
          refine ⟨?_, rfl⟩
          rcases h with ⟨-, f, e, q, hd, -⟩ | ⟨c, -, ⟨hown, hcopy⟩, hc⟩
          · cases hd
          · exact ⟨hown, fun c' hc' => hcopy.trans (hc c' hc')⟩
      | act f e q =>
          dsimp only
          rw [Function.update_self]
          dsimp only
          rcases h with ⟨hm, f', e', q', hd, hget, hq⟩ | ⟨c, hload, hsets, hc⟩
          · cases hd
            rw [if_pos hm]
            refine ⟨.inr ?_, hget _⟩
            rcases hq C.objects.state with ⟨o, ho, hown, hcopy⟩ | ⟨x, hx⟩
            · rw [ho]
              refine ⟨copy o, fun _ f e q h => ?_, ⟨hown, rfl⟩, fun c' hc' => ?_⟩
              · cases h
              · rw [hcopy]
                exact Option.some_inj.1 hc'
            · rw [hx]
              refine ⟨get C.objects.state, fun _ f e q h => ?_, trivial, fun c' hc' => ?_⟩
              · cases h
              · exact Option.some_inj.1 hc'
          · rw [if_neg fun hm => hload hm f e q rfl]
            obtain ⟨hstep, hrest⟩ := hsets C.objects.state
            have hsame : get (f C.objects.state) = get C.objects.state := by
              by_contra hne
              have hseen := hfresh ⟨m, f, e, q, hi, _, hne⟩
              exact hne (hstep.elim id fun h => h.trans (hc _ hseen))
            exact ⟨.inr ⟨c, fun hm => (hload hm f e q rfl).elim, hrest, hc⟩, hsame⟩

end Agreeing

end Copies

end AtomicProg
