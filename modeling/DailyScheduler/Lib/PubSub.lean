import Mathlib.Data.List.Basic
import Mathlib.Logic.Function.Iterate
import DailyScheduler.Lib.Run

set_option autoImplicit false

/-! # Publishing and subscribing

A broker hands a message on to every subscriber that is connected to its channel at that time. A
subscriber takes its messages one by one, in their order, until one of them fails; then it takes no
more, but the broker keeps messages for it as long as it is connected. What a subscriber has taken and
what is kept for it is what was published on its channel since it connected.
-/

namespace PubSub

variable {ι κ μ : Type} [DecidableEq ι] [DecidableEq κ]

structure Subscriber (μ : Type) where
  connected : Bool
  /-- No message has failed. -/
  alive : Bool
  taken : List μ
  pending : List μ

namespace Subscriber

/-- It has not connected yet. -/
def fresh : Subscriber μ := ⟨false, false, [], []⟩

/-- It has just connected. -/
def start : Subscriber μ := ⟨true, true, [], []⟩

def receive (s : Subscriber μ) (m : μ) : Subscriber μ :=
  if s.connected then { s with pending := s.pending ++ [m] } else s

/-- It takes a message, if there is one; `ok` tells those that do not fail. -/
def take (s : Subscriber μ) (ok : μ → Bool) : Subscriber μ :=
  if s.connected && s.alive then
    match s.pending with
    | [] => s
    | m :: rest => { s with alive := ok m, taken := s.taken ++ [m], pending := rest }
  else s

/-- What is kept for it is lost. -/
def stop (s : Subscriber μ) : Subscriber μ :=
  { s with connected := false, alive := false, pending := [] }

end Subscriber

inductive Op (ι κ μ : Type) where
  | publish (channel : κ) (message : μ)
  | subscribe (i : ι)
  | take (i : ι) (ok : μ → Bool)
  | unsubscribe (i : ι)

variable (channel : ι → κ)

/-- What an operation does to one of the subscribers. -/
def next (i : ι) (s : Subscriber μ) : Op ι κ μ → Subscriber μ
  | .publish c m => if c = channel i then s.receive m else s
  | .subscribe j => if j = i ∧ s.connected = false then .start else s
  | .take j ok => if j = i then s.take ok else s
  | .unsubscribe j => if j = i then s.stop else s

def step (s : ι → Subscriber μ) (o : Op ι κ μ) : ι → Subscriber μ := fun i => next channel i (s i) o

/-- What was published on the channel of `i` since it connected. -/
def hear (i : ι) : Option (List μ) → Op ι κ μ → Option (List μ)
  | some l, .publish c m => if c = channel i then some (l ++ [m]) else some l
  | some l, .unsubscribe j => if j = i then none else some l
  | none, .subscribe j => if j = i then some [] else none
  | h, _ => h

/-- The messages since it connected are those it has taken and those that are kept for it. -/
structure Hears (s : Subscriber μ) (h : Option (List μ)) : Prop where
  heard : h = if s.connected then some (s.taken ++ s.pending) else none
  alive : s.alive = true → s.connected = true

/-- No message was taken after one that failed: those before the last one are right, and so is the last
one of a subscriber that still takes messages. -/
structure Sound (P : μ → Prop) (s : Subscriber μ) : Prop where
  before : ∀ m ∈ s.taken.dropLast, P m
  last : s.alive = true → ∀ m ∈ s.taken, P m

variable {channel} {i : ι} {s : Subscriber μ} {h : Option (List μ)}

namespace Hears

theorem fresh : Hears (.fresh : Subscriber μ) none := ⟨rfl, nofun⟩

theorem start : Hears (.start : Subscriber μ) (some []) := ⟨rfl, fun _ => rfl⟩

theorem stop (s : Subscriber μ) : Hears s.stop none := ⟨rfl, nofun⟩

theorem receive (hs : Hears s h) (m : μ) : Hears (s.receive m) (h.map (· ++ [m])) := by
  obtain ⟨rfl, halive⟩ := hs
  unfold Subscriber.receive
  split
  · rename_i hc
    exact ⟨by simp [hc], halive⟩
  · rename_i hc
    exact ⟨by simp [hc], halive⟩

/-- A message that is taken goes from one list to the other. -/
theorem take (hs : Hears s h) (ok : μ → Bool) : Hears (s.take ok) h := by
  unfold Subscriber.take
  split
  · rename_i hlive
    have hc : s.connected = true := (Bool.and_eq_true_iff.1 hlive).1
    cases hpending : s.pending with
    | nil => exact hs
    | cons m rest =>
        have hheard := hs.heard
        rw [if_pos hc, hpending] at hheard
        exact ⟨by simp [hheard, hc], fun _ => hc⟩
  · exact hs

/-- A step on both sides. -/
theorem next (hs : Hears s h) (o : Op ι κ μ) : Hears (next channel i s o) (hear channel i h o) := by
  have hnone : h = none ↔ s.connected = false := by
    rw [hs.heard]
    cases s.connected <;> simp
  cases o with
  | publish c m =>
      by_cases hc : c = channel i
      · simp only [PubSub.next, hc, if_true]
        cases h <;> simpa [hear, hc] using hs.receive m
      · cases h <;> simpa [PubSub.next, hear, hc] using hs
  | subscribe j =>
      -- one that is connected stays so
      cases h with
      | none =>
          have hc := hnone.1 rfl
          by_cases hj : j = i
          · simpa [PubSub.next, hear, hj, hc] using start
          · simpa [PubSub.next, hear, hj] using hs
      | some l =>
          have hc : s.connected ≠ false := fun hc => Option.some_ne_none l (hnone.2 hc)
          simpa [PubSub.next, hear, hc] using hs
  | take j ok =>
      have hheard : hear channel i h (.take j ok) = h := by cases h <;> rfl
      rw [hheard]
      by_cases hj : j = i
      · simpa [PubSub.next, hj] using hs.take ok
      · simpa [PubSub.next, hj] using hs
  | unsubscribe j =>
      by_cases hj : j = i
      · cases h <;> simpa [PubSub.next, hear, hj] using stop s
      · cases h <;> simpa [PubSub.next, hear, hj] using hs

end Hears

namespace Sound

variable {P : μ → Prop}

theorem fresh : Sound P (.fresh : Subscriber μ) := ⟨nofun, nofun⟩

theorem take (hs : Sound P s) {ok : μ → Bool} (hok : ∀ m, ok m = true → P m) : Sound P (s.take ok) := by
  unfold Subscriber.take
  split
  · rename_i hlive
    have halive : s.alive = true := (Bool.and_eq_true_iff.1 hlive).2
    cases s.pending with
    | nil => exact hs
    | cons m rest =>
        constructor
        · simpa using hs.last halive
        · intro hm m' hm'
          rcases List.mem_append.1 hm' with hm' | hm'
          · exact hs.last halive m' hm'
          · rw [List.mem_singleton.1 hm']
            exact hok m hm
  · exact hs

/-- What an operation takes has to be right if it does not fail. -/
theorem next (hs : Sound P s) {o : Op ι κ μ}
    (ho : ∀ ok, o = .take i ok → ∀ m, ok m = true → P m) : Sound P (next channel i s o) := by
  cases o with
  | publish c m =>
      unfold PubSub.next Subscriber.receive
      dsimp only
      split
      · split
        · exact ⟨hs.before, hs.last⟩
        · exact hs
      · exact hs
  | subscribe j =>
      unfold PubSub.next
      dsimp only
      split
      · exact ⟨nofun, fun _ => nofun⟩
      · exact hs
  | take j ok =>
      unfold PubSub.next
      dsimp only
      split
      · rename_i hj
        subst hj
        exact hs.take (ho ok rfl)
      · exact hs
  | unsubscribe j =>
      unfold PubSub.next Subscriber.stop
      dsimp only
      split
      · exact ⟨hs.before, nofun⟩
      · exact hs

end Sound

/-- **Nothing is lost on a subscriber that takes its messages**: after one round for each message that is
kept it has taken them all. -/
theorem take_all (s : Subscriber μ) (hs : s.connected = true) (ha : s.alive = true) {ok : μ → Bool}
    (hok : ∀ m ∈ s.pending, ok m = true) :
    Nat.iterate (fun t : Subscriber μ => t.take ok) s.pending.length s
      = { s with taken := s.taken ++ s.pending, pending := [] } := by
  obtain ⟨connected, alive, taken, pending⟩ := s
  change connected = true at hs
  change alive = true at ha
  subst hs ha
  induction pending generalizing taken with
  | nil => simp
  | cons m rest ih =>
      have hm : ok m = true := hok m List.mem_cons_self
      have hstep : Subscriber.take ⟨true, true, taken, m :: rest⟩ ok
          = ⟨true, true, taken ++ [m], rest⟩ := by
        simp [Subscriber.take, hm]
      have hrest : ∀ m' ∈ rest, ok m' = true := fun m' hm' => hok m' (List.mem_cons_of_mem m hm')
      show Nat.iterate (fun t : Subscriber μ => t.take ok) rest.length
        (Subscriber.take ⟨true, true, taken, m :: rest⟩ ok) = _
      rw [hstep, ih _ hrest]
      simp

end PubSub
