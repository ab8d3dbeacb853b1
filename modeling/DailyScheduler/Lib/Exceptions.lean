import Mathlib.Data.List.Basic

set_option autoImplicit false

/-! # Computations that raise

What is known of the parts of a computation in `Except` once the whole has returned.
-/

namespace Exceptions

variable {ε α β : Type}

/-- A computation that returns did so in each of its two parts. -/
theorem exists_of_bind {x : Except ε α} {f : α → Except ε β} {y : β} (h : x >>= f = .ok y) :
    ∃ a, x = .ok a ∧ f a = .ok y := by
  cases x with
  | error e => cases h
  | ok a => exact ⟨a, rfl, h⟩

/-- Every element was used, and every result comes from one. -/
theorem mapM_ok {f : α → Except ε β} {l : List α} {l' : List β} (h : l.mapM f = .ok l') :
    (∀ x ∈ l, ∃ y ∈ l', f x = .ok y) ∧ ∀ y ∈ l', ∃ x ∈ l, f x = .ok y := by
  induction l generalizing l' with
  | nil =>
      rw [List.mapM_nil] at h
      cases h
      simp
  | cons x l ih =>
      rw [List.mapM_cons] at h
      obtain ⟨y, hx, h⟩ := exists_of_bind h
      obtain ⟨ys, hl, h⟩ := exists_of_bind h
      cases h
      obtain ⟨hused, hfrom⟩ := ih hl
      constructor
      · intro z hz
        rcases List.mem_cons.1 hz with rfl | hz
        · exact ⟨y, List.mem_cons_self .., hx⟩
        · obtain ⟨w, hw, hfw⟩ := hused z hz
          exact ⟨w, List.mem_cons_of_mem _ hw, hfw⟩
      · intro w hw
        rcases List.mem_cons.1 hw with rfl | hw
        · exact ⟨x, List.mem_cons_self .., hx⟩
        · obtain ⟨z, hz, hfz⟩ := hfrom w hw
          exact ⟨z, List.mem_cons_of_mem _ hz, hfz⟩

/-- A loop whose rounds all return does so too. -/
theorem exists_of_forall {f : α → Except ε β} {l : List α} (h : ∀ x ∈ l, ∃ y, f x = .ok y) :
    ∃ l', l.mapM f = .ok l' := by
  induction l with
  | nil => exact ⟨[], rfl⟩
  | cons x l ih =>
      obtain ⟨y, hx⟩ := h x (List.mem_cons_self ..)
      obtain ⟨ys, hl⟩ := ih fun z hz => h z (List.mem_cons_of_mem x hz)
      refine ⟨y :: ys, ?_⟩
      rw [List.mapM_cons, hx, hl]
      rfl

/-- A loop whose rounds return the values of a function. -/
theorem mapM_map {γ : Type} {f : β → Except ε γ} {k : α → β} {g : α → γ} {l : List α}
    (h : ∀ x ∈ l, f (k x) = .ok (g x)) : (l.map k).mapM f = .ok (l.map g) := by
  induction l with
  | nil => rfl
  | cons x l ih =>
      rw [List.map_cons, List.mapM_cons, h x (List.mem_cons_self ..),
        ih fun z hz => h z (List.mem_cons_of_mem x hz)]
      rfl

/-- A loop with a round that raises does not return. -/
theorem toOption_eq_none {f : α → Except ε β} {l : List α} {x : α} (hx : x ∈ l)
    (h : ∀ y, f x ≠ .ok y) : (l.mapM f).toOption = none := by
  cases hl : l.mapM f with
  | error e => rfl
  | ok l' =>
      obtain ⟨y, -, hy⟩ := (mapM_ok hl).1 x hx
      exact absurd hy (h y)

/-- Rounds that agree make loops that agree. -/
theorem mapM_congr {f g : α → Except ε β} {l : List α} (h : ∀ x ∈ l, f x = g x) :
    l.mapM f = l.mapM g := by
  induction l with
  | nil => rfl
  | cons x l ih =>
      rw [List.mapM_cons, List.mapM_cons, h x (List.mem_cons_self ..),
        ih fun z hz => h z (List.mem_cons_of_mem x hz)]

end Exceptions
