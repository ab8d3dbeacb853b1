import Mathlib.Data.Set.Function

set_option autoImplicit false

/-! # Objects under the keys of one store

A store keeps typed values under keys, with a time of expiry for some. A command of a type fails on a key
that holds a value of another type; the commands that are not about the value (to expire, to delete, to
look whether it exists) take any key. Objects are put into the store by a layout, which gives each its
key and its type.

Ideally every object has a cell of its own. A layout behaves like this, for all sequences of requests,
exactly if no two objects have the same key.
-/

namespace Keyspace

variable {κ Ω τ : Type} {V : τ → Type}

/-- A value and its time of expiry. -/
abbrev Cell (V : τ → Type) (t : τ) := Option (V t × Option Int)

/-- A command on a key of the type `t`. -/
inductive Command (V : τ → Type) (t : τ) where
  /-- Read the value and write the next one. -/
  | modify (f : Option (V t) → Option (V t))
  | expire (deadline : Option Int)
  | delete
  | exists_

inductive Answer (V : τ → Type) (t : τ) where
  | wrongType
  | value (v : Option (V t))
  | found (b : Bool)

/-- A command on a cell of its type. -/
def Command.apply {t : τ} : Command V t → Cell V t → Answer V t × Cell V t
  | .modify f, c => (.value (c.map Prod.fst), (f (c.map Prod.fst)).map fun v => (v, c.bind Prod.snd))
  | .expire d, c => (.found c.isSome, c.map fun x => (x.1, d))
  | .delete, c => (.found c.isSome, none)
  | .exists_, c => (.found c.isSome, c)

/-- What is under one key: a value of one of the types. -/
abbrev Entry (V : τ → Type) := Option (Σ t, V t × Option Int)

/-- The cell as it is stored. -/
def Entry.of {t : τ} (c : Cell V t) : Entry V := c.map fun x => ⟨t, x⟩

/-- A command on whatever a key holds. -/
def Command.execute [DecidableEq τ] {t : τ} (c : Command V t) : Entry V → Answer V t × Entry V
  | none => ((c.apply none).1, .of (c.apply none).2)
  | some ⟨t', x⟩ =>
      if h : t' = t then ((c.apply (some (h ▸ x))).1, .of (c.apply (some (h ▸ x))).2)
      else match c with
        | .modify _ => (.wrongType, some ⟨t', x⟩)
        | .expire d => (.found true, some ⟨t', x.1, d⟩)
        | .delete => (.found true, none)
        | .exists_ => (.found true, some ⟨t', x⟩)

/-- On a value of its own type a command does what it does on a cell. -/
theorem Command.execute_of [DecidableEq τ] {t : τ} (c : Command V t) (x : Cell V t) :
    c.execute (.of x) = ((c.apply x).1, .of (c.apply x).2) := by
  cases x with
  | none => rfl
  | some x =>
      show (if h : t = t then _ else _) = _
      rw [dif_pos rfl]

theorem Command.execute_exists [DecidableEq τ] {t : τ} (e : Entry V) :
    (Command.exists_ : Command V t).execute e = (.found e.isSome, e) := by
  cases e with
  | none => rfl
  | some x =>
      obtain ⟨t', x⟩ := x
      by_cases h : t' = t
      · subst h
        exact Command.execute_of .exists_ (some x)
      · exact dif_neg h

/-- Where each object is kept, and as a value of which type. -/
structure Layout (κ Ω τ : Type) where
  key : Ω → κ
  type : Ω → τ

variable (L : Layout κ Ω τ)

/-- A command for an object. -/
abbrev Request (V : τ → Type) := Σ o : Ω, Command V (L.type o)

/-- What an object is answered. -/
abbrev Reply (V : τ → Type) := Σ o : Ω, Answer V (L.type o)

/-- The objects with a cell each. -/
abbrev Cells (V : τ → Type) := (o : Ω) → Cell V (L.type o)

/-- The store. -/
abbrev Space (κ : Type) (V : τ → Type) := κ → Entry V

namespace Layout

variable {L}

section Serve

variable [DecidableEq κ] [DecidableEq τ] [DecidableEq Ω]

/-- A request to the store. -/
def serve (s : Space κ V) (r : Request L V) : Reply L V × Space κ V :=
  let e := r.2.execute (s (L.key r.1))
  (⟨r.1, e.1⟩, Function.update s (L.key r.1) e.2)

/-- A request to the object's own cell. -/
def own (c : Cells L V) (r : Request L V) : Reply L V × Cells L V :=
  let e := r.2.apply (c r.1)
  (⟨r.1, e.1⟩, Function.update c r.1 e.2)

/-- The answers of the store to a sequence of requests. -/
def replies (s : Space κ V) : List (Request L V) → List (Reply L V)
  | [] => []
  | r :: l => (serve s r).1 :: replies (serve s r).2 l

/-- The answers if every object has its own cell. -/
def ownReplies (c : Cells L V) : List (Request L V) → List (Reply L V)
  | [] => []
  | r :: l => (own c r).1 :: ownReplies (own c r).2 l

/-- The store after a sequence of requests. -/
def after (s : Space κ V) (l : List (Request L V)) : Space κ V := l.foldl (fun s r => (serve s r).2) s

/-- The objects' own cells after it. -/
def ownAfter (c : Cells L V) (l : List (Request L V)) : Cells L V := l.foldl (fun c r => (own c r).2) c

omit [DecidableEq κ] [DecidableEq τ] in
theorem own_self (c : Cells L V) (r : Request L V) : (own c r).2 r.1 = (r.2.apply (c r.1)).2 :=
  Function.update_self ..

omit [DecidableEq κ] [DecidableEq τ] in
theorem own_of_ne (c : Cells L V) {r : Request L V} {o : Ω} (h : o ≠ r.1) : (own c r).2 o = c o :=
  Function.update_of_ne h ..

end Serve

/-- The store has the cells of the objects `S`. -/
def Holds (L : Layout κ Ω τ) (S : Set Ω) (s : Space κ V) (c : Cells L V) : Prop :=
  ∀ o ∈ S, s (L.key o) = .of (c o)

section Serve

variable [DecidableEq κ] [DecidableEq τ] [DecidableEq Ω] {S : Set Ω} {s : Space κ V} {c : Cells L V}

/-- One request: the answer is that of the object's own cell, and the other objects keep theirs. -/
theorem Holds.serve (hinj : Set.InjOn L.key S) (h : L.Holds S s c) {r : Request L V} (hr : r.1 ∈ S) :
    (Layout.serve s r).1 = (own c r).1 ∧ L.Holds S (Layout.serve s r).2 (own c r).2 := by
  have hexec := r.2.execute_of (c r.1)
  rw [← h r.1 hr] at hexec
  simp only [Layout.serve, own, hexec]
  refine ⟨trivial, fun o ho => ?_⟩
  by_cases hor : o = r.1
  · subst hor
    simp
  · have hkey : L.key o ≠ L.key r.1 := fun hk => hor (hinj ho hr hk)
    simp only [Function.update_of_ne hkey, Function.update_of_ne hor]
    exact h o ho

theorem Holds.replies (hinj : Set.InjOn L.key S) (h : L.Holds S s c) {l : List (Request L V)}
    (hl : ∀ r ∈ l, r.1 ∈ S) : Layout.replies s l = ownReplies c l := by
  induction l generalizing s c with
  | nil => rfl
  | cons r l ih =>
      obtain ⟨hr, hl⟩ := List.forall_mem_cons.1 hl
      obtain ⟨hanswer, hnext⟩ := h.serve hinj hr
      show _ :: _ = _ :: _
      rw [hanswer, ih hnext hl]

theorem Holds.after (hinj : Set.InjOn L.key S) (h : L.Holds S s c) {l : List (Request L V)}
    (hl : ∀ r ∈ l, r.1 ∈ S) : L.Holds S (Layout.after s l) (ownAfter c l) := by
  induction l generalizing s c with
  | nil => exact h
  | cons r l ih =>
      obtain ⟨hr, hl⟩ := List.forall_mem_cons.1 hl
      exact ih (h.serve hinj hr).2 hl

omit [DecidableEq Ω] in
/-- A value that was written for one object is there for every object with that key. -/
theorem replies_of_key_eq {a b : Ω} (hkey : L.key a = L.key b) (v : V (L.type a)) :
    (replies (fun _ => none) [⟨a, .modify fun _ => some v⟩, ⟨b, .exists_⟩] : List (Reply L V))
      = [⟨a, .value none⟩, ⟨b, .found true⟩] := by
  have hwrite : (Command.modify fun _ => some v : Command V (L.type a)).execute none
      = (.value none, some ⟨L.type a, v, none⟩) := rfl
  simp [replies, serve, hwrite, ← hkey, Command.execute_exists]

/-- The objects do not get into each other's way exactly if no two of them have the same key. -/
theorem injOn_iff [∀ t, Nonempty (V t)] (S : Set Ω) : Set.InjOn L.key S ↔
    ∀ l : List (Request L V), (∀ r ∈ l, r.1 ∈ S) →
      replies (fun _ => none) l = ownReplies (fun _ => none) l := by
  constructor
  · intro hinj l hl
    have hempty : L.Holds (V := V) S (fun _ => none) (fun _ => none) := fun _ _ => rfl
    exact hempty.replies hinj hl
  · intro h a ha b hb hkey
    by_contra hne
    obtain ⟨v⟩ := ‹∀ t, Nonempty (V t)› (L.type a)
    have hshared := h [⟨a, .modify fun _ => some v⟩, ⟨b, .exists_⟩] (by simp [ha, hb])
    rw [replies_of_key_eq hkey] at hshared
    -- In its own cell there is nothing for `b`.
    have hown : Function.update (fun _ => none : Cells L V) a (some (v, none)) b = none :=
      Function.update_of_ne (Ne.symm hne) _ _
    simp [ownReplies, own, Command.apply, hown] at hshared

end Serve

end Layout

end Keyspace
