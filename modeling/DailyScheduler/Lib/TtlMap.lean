import Mathlib.Logic.Function.Basic
import Mathlib.Order.Basic

set_option autoImplicit false

/-! # Maps whose keys expire

A `TtlMap` is a finite-or-infinite map in which every key may carry a deadline. Writing a
value (`put`) leaves the deadline of an existing key as it is; `purge now` drops the keys
whose deadline has been reached. A key that is missing has no deadline.
-/

/-- A map from keys to values, each with an optional deadline. -/
structure TtlMap (κ ν : Type) where
  entry : κ → Option (ν × Option Int)

namespace TtlMap

variable {κ ν : Type}

/-- The map with no keys. -/
def empty : TtlMap κ ν := ⟨fun _ => none⟩

/-- The value of a key. -/
def find? (m : TtlMap κ ν) (k : κ) : Option ν := (m.entry k).map Prod.fst

/-- The deadline of a key, `none` when it has none or is missing. -/
def deadline (m : TtlMap κ ν) (k : κ) : Option Int := (m.entry k).bind Prod.snd

/-- Whether a key exists. -/
def contains (m : TtlMap κ ν) (k : κ) : Bool := (m.entry k).isSome

theorem contains_iff (m : TtlMap κ ν) (k : κ) :
    m.contains k = true ↔ ∃ v, m.find? k = some v := by
  unfold contains find?
  cases m.entry k <;> simp

theorem contains_eq_false_iff (m : TtlMap κ ν) (k : κ) :
    m.contains k = false ↔ m.find? k = none := by
  unfold contains find?
  cases m.entry k <;> simp

theorem deadline_eq_none_of_find? {m : TtlMap κ ν} {k : κ} (h : m.find? k = none) :
    m.deadline k = none := by
  unfold find? at h
  unfold deadline
  rw [Option.map_eq_none_iff.1 h]
  rfl

@[simp] theorem find?_empty (k : κ) : (empty : TtlMap κ ν).find? k = none := rfl

@[simp] theorem deadline_empty (k : κ) : (empty : TtlMap κ ν).deadline k = none := rfl

variable [DecidableEq κ]

/-- Write a value; an existing key keeps its deadline. -/
def put (m : TtlMap κ ν) (k : κ) (v : ν) : TtlMap κ ν :=
  ⟨Function.update m.entry k (some (v, m.deadline k))⟩

/-- Write a value with a new deadline. -/
def set (m : TtlMap κ ν) (k : κ) (v : ν) (d : Option Int) : TtlMap κ ν :=
  ⟨Function.update m.entry k (some (v, d))⟩

/-- Remove a key. -/
def erase (m : TtlMap κ ν) (k : κ) : TtlMap κ ν := ⟨Function.update m.entry k none⟩

/-- Give an existing key the deadline `d`, or none. -/
def setDeadline (m : TtlMap κ ν) (k : κ) (d : Option Int) : TtlMap κ ν :=
  ⟨Function.update m.entry k ((m.entry k).map (fun p => (p.1, d)))⟩

/-- `EXPIREAT`. -/
def expireAt (m : TtlMap κ ν) (k : κ) (d : Int) : TtlMap κ ν := m.setDeadline k (some d)

/-- `PERSIST`. -/
def persist (m : TtlMap κ ν) (k : κ) : TtlMap κ ν := m.setDeadline k none

/-- Drop the keys whose deadline is not after `now`. -/
def purge (m : TtlMap κ ν) (now : Int) : TtlMap κ ν :=
  ⟨fun k => (m.entry k).filter (fun p => match p.2 with
    | none => true
    | some d => now < d)⟩

/-! ## What each operation does to values and deadlines -/

theorem entry_put_of_ne (m : TtlMap κ ν) {k k' : κ} (v : ν) (h : k' ≠ k) :
    (m.put k v).entry k' = m.entry k' := Function.update_of_ne h ..

theorem entry_erase_of_ne (m : TtlMap κ ν) {k k' : κ} (h : k' ≠ k) :
    (m.erase k).entry k' = m.entry k' := Function.update_of_ne h ..

theorem entry_setDeadline_of_ne (m : TtlMap κ ν) {k k' : κ} (d : Option Int) (h : k' ≠ k) :
    (m.setDeadline k d).entry k' = m.entry k' := Function.update_of_ne h ..

theorem find?_put (m : TtlMap κ ν) (k k' : κ) (v : ν) :
    (m.put k v).find? k' = if k' = k then some v else m.find? k' := by
  by_cases h : k' = k
  · subst h; simp [put, find?]
  · simp [put, find?, h]

@[simp] theorem find?_put_self (m : TtlMap κ ν) (k : κ) (v : ν) :
    (m.put k v).find? k = some v := by
  simp [find?_put]

theorem find?_put_of_ne (m : TtlMap κ ν) {k k' : κ} (v : ν) (h : k' ≠ k) :
    (m.put k v).find? k' = m.find? k' := by
  simp [find?_put, h]

@[simp] theorem deadline_put (m : TtlMap κ ν) (k k' : κ) (v : ν) :
    (m.put k v).deadline k' = m.deadline k' := by
  by_cases h : k' = k
  · subst h; simp [put, deadline]
  · simp [put, deadline, h]

theorem find?_set (m : TtlMap κ ν) (k k' : κ) (v : ν) (d : Option Int) :
    (m.set k v d).find? k' = if k' = k then some v else m.find? k' := by
  by_cases h : k' = k
  · subst h; simp [set, find?]
  · simp [set, find?, h]

theorem deadline_set (m : TtlMap κ ν) (k k' : κ) (v : ν) (d : Option Int) :
    (m.set k v d).deadline k' = if k' = k then d else m.deadline k' := by
  by_cases h : k' = k
  · subst h; simp [set, deadline]
  · simp [set, deadline, h]

theorem find?_erase (m : TtlMap κ ν) (k k' : κ) :
    (m.erase k).find? k' = if k' = k then none else m.find? k' := by
  by_cases h : k' = k
  · subst h; simp [erase, find?]
  · simp [erase, find?, h]

theorem deadline_erase (m : TtlMap κ ν) (k k' : κ) :
    (m.erase k).deadline k' = if k' = k then none else m.deadline k' := by
  by_cases h : k' = k
  · subst h; simp [erase, deadline]
  · simp [erase, deadline, h]

@[simp] theorem find?_setDeadline (m : TtlMap κ ν) (k k' : κ) (d : Option Int) :
    (m.setDeadline k d).find? k' = m.find? k' := by
  by_cases h : k' = k
  · subst h
    cases hk : m.entry k' <;> simp [setDeadline, find?, hk]
  · simp [setDeadline, find?, h]

theorem deadline_setDeadline (m : TtlMap κ ν) (k k' : κ) (d : Option Int) :
    (m.setDeadline k d).deadline k'
      = if k' = k ∧ m.contains k = true then d else m.deadline k' := by
  by_cases h : k' = k
  · subst h
    cases hk : m.entry k' <;> simp [setDeadline, deadline, contains, hk]
  · simp [setDeadline, deadline, h]

@[simp] theorem find?_expireAt (m : TtlMap κ ν) (k k' : κ) (d : Int) :
    (m.expireAt k d).find? k' = m.find? k' := find?_setDeadline m k k' _

theorem deadline_expireAt_of_ne (m : TtlMap κ ν) {k k' : κ} (d : Int) (h : k' ≠ k) :
    (m.expireAt k d).deadline k' = m.deadline k' := by
  simp [expireAt, deadline_setDeadline, h]

@[simp] theorem find?_persist (m : TtlMap κ ν) (k k' : κ) :
    (m.persist k).find? k' = m.find? k' := find?_setDeadline m k k' _

theorem deadline_persist (m : TtlMap κ ν) (k k' : κ) :
    (m.persist k).deadline k' = if k' = k then none else m.deadline k' := by
  rw [persist, deadline_setDeadline]
  by_cases h : k' = k
  · subst h
    cases hk : m.entry k' <;> simp [contains, deadline, hk]
  · simp [h]

omit [DecidableEq κ] in
theorem find?_purge_of_deadline_none (m : TtlMap κ ν) (now : Int) {k : κ}
    (h : m.deadline k = none) : (m.purge now).find? k = m.find? k := by
  unfold purge find?
  unfold deadline at h
  cases hk : m.entry k with
  | none => simp [hk]
  | some p =>
      obtain ⟨v, d⟩ := p
      have hd : d = none := by simpa [hk] using h
      subst hd
      simp [hk, Option.filter]

omit [DecidableEq κ] in
theorem find?_purge (m : TtlMap κ ν) (now : Int) (k : κ) :
    (m.purge now).find? k
      = if ∀ d, m.deadline k = some d → now < d then m.find? k else none := by
  unfold purge find? deadline
  rcases hk : m.entry k with _ | ⟨v, _ | d⟩
  · simp [hk]
  · simp [hk, Option.filter]
  · by_cases h : now < d <;> simp [hk, Option.filter, h]

omit [DecidableEq κ] in
theorem deadline_purge (m : TtlMap κ ν) (now : Int) (k : κ) :
    (m.purge now).deadline k = (m.deadline k).filter (fun d => now < d) := by
  unfold purge deadline
  rcases hk : m.entry k with _ | ⟨v, _ | d⟩
  · simp [hk]
  · simp [hk, Option.filter]
  · by_cases h : now < d <;> simp [hk, Option.filter, h]

/-! ## Other values for the same keys -/

section Map

variable {μ : Type} (f : ν → μ)

omit [DecidableEq κ] in
/-- The map with `f v` for each value `v`. -/
def map (m : TtlMap κ ν) : TtlMap κ μ := ⟨fun k => (m.entry k).map fun p => (f p.1, p.2)⟩

omit [DecidableEq κ] in
theorem find?_map (m : TtlMap κ ν) (k : κ) : (m.map f).find? k = (m.find? k).map f := by
  unfold map find?
  dsimp only
  cases m.entry k <;> rfl

theorem map_erase (m : TtlMap κ ν) (k : κ) : (m.erase k).map f = (m.map f).erase k := by
  refine congrArg mk (funext fun k' => ?_)
  by_cases h : k' = k
  · subst h
    simp [erase]
  · simp [map, erase, Function.update_of_ne h]

theorem map_put (m : TtlMap κ ν) (k : κ) (v : ν) : (m.put k v).map f = (m.map f).put k (f v) := by
  refine congrArg mk (funext fun k' => ?_)
  by_cases h : k' = k
  · subst h
    cases hentry : m.entry k' <;> simp [map, put, deadline, hentry]
  · simp [map, put, Function.update_of_ne h]

theorem map_setDeadline (m : TtlMap κ ν) (k : κ) (d : Option Int) :
    (m.setDeadline k d).map f = (m.map f).setDeadline k d := by
  refine congrArg mk (funext fun k' => ?_)
  by_cases h : k' = k
  · subst h
    cases hentry : m.entry k' <;> simp [map, setDeadline, hentry]
  · simp [map, setDeadline, Function.update_of_ne h]

end Map

end TtlMap
