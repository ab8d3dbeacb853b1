import DailyScheduler.Model.Sample
import DailyScheduler.Model.WaitLoop

set_option autoImplicit false

/-! # How long a worker waits for a job

A worker that waits narrows the timeout of its next attempt to what is left of its maximal idle time,
rounded up to seconds. What is left is at least one second whenever the loop goes on, and the loop is
left only when nothing is left; but before the first attempt all of the maximal idle time is left, and
if that is zero the first timeout is the zero that `pop` refuses.
-/

namespace DailyScheduler.Waiting

open AtomicProg Worker

/-! ## The timeouts -/

/-- What the loop narrows its timeouts to is positive. -/
structure Positive (s : Worker.Waiting) : Prop where
  timeout : ∀ t, s.timeout = some t → 0 < t
  idleTimeLeft : ∀ t, s.idleTimeLeft = some t → 0 < t

theorem Positive.narrowed {s : Worker.Waiting} (h : Positive s) : Positive s.narrowed := by
  unfold Waiting.narrowed
  split
  · rename_i t left ht hleft
    refine ⟨?_, h.idleTimeLeft⟩
    rintro _ ⟨⟩
    exact lt_min (h.timeout t ht) (h.idleTimeLeft left hleft)
  · exact h

theorem narrowed_of_none {s : Worker.Waiting} (h : s.timeout = none) : s.narrowed.timeout = none := by
  unfold Waiting.narrowed
  rw [h]
  exact h

theorem timeLeft_nonpos_iff (m since now : Int) :
    Waiting.timeLeft m since now ≤ 0 ↔ since + secs m ≤ now := by
  unfold Waiting.timeLeft secs
  omega

/-- What an attempt that failed leaves behind. -/
theorem handle_steps (m : Option Int) (since : Int) (s : Worker.Waiting) (x : PyError) :
    (s.handle m since x).Steps (fun _ _ _ => True) fun r =>
      r.1.timeout = s.timeout ∧ (r.2 = false → Positive s → Positive r.1) := by
  unfold Waiting.handle
  refine Prog.Steps.ite (fun _ => ?_) fun _ => Prog.Steps.ite (fun _ => ?_) fun _ => trivial
  · cases m with
    | none => exact ⟨rfl, fun _ h => h⟩
    | some m =>
        refine (Prog.Steps.any utcnow).bind fun now _ => ⟨rfl, fun hgo h => ⟨h.timeout, ?_⟩⟩
        rintro _ ⟨⟩
        have hleft := of_decide_eq_false hgo
        omega
  · exact ⟨rfl, fun _ h => ⟨h.timeout, h.idleTimeLeft⟩⟩

section Timeouts

variable {env : Env} {S S' : Surroundings}

/-- Surroundings that differ in what `dequeue_any` does with the timeout zero. -/
structure SameButZero (S S' : Surroundings) : Prop where
  maintain : S.maintain = S'.maintain
  orderedQueues : S.orderedQueues = S'.orderedQueues
  reorder : S.reorder = S'.reorder
  dequeueAny : ∀ t fuel, t ≠ some 0 → S.dequeueAny t fuel = S'.dequeueAny t fuel

theorem waitLoop_congr (h : SameButZero S S') (m : Option Int) (since : Int) (rounds : List Round)
    (s : Worker.Waiting) (hs : s.timeout = none ∨ Positive s) (w : Worker) :
    waitLoop env S m since rounds s w = waitLoop env S' m since rounds s w := by
  induction rounds generalizing s w with
  | nil => rfl
  | cons round rounds ih =>
      have hhandle : ∀ (s : Worker.Waiting) x w, s.timeout = none ∨ Positive s →
          (s.handle m since x >>= leaveOr ⟨w, S.orderedQueues, none⟩ fun s =>
            waitLoop env S m since rounds s w) =
          s.handle m since x >>= leaveOr ⟨w, S'.orderedQueues, none⟩ fun s =>
            waitLoop env S' m since rounds s w := by
        intro s x w hs
        refine (handle_steps m since s x).bind_congr fun r hr => ?_
        obtain ⟨s', leave⟩ := r
        cases leave with
        | true =>
            rw [h.orderedQueues]
            rfl
        | false => exact ih s' (hs.imp hr.1.trans fun hs => hr.2 rfl hs) w
      have hnarrowed : s.narrowed.timeout = none ∨ Positive s.narrowed :=
        hs.imp narrowed_of_none Positive.narrowed
      have hzero : s.narrowed.timeout ≠ some 0 := by
        intro hzero
        rcases hnarrowed with hnone | hpos
        · rw [hnone] at hzero
          cases hzero
        · exact lt_irrefl _ (hpos.timeout 0 hzero)
      unfold waitLoop
      rw [h.maintain]
      refine congrArg _ (funext fun r => ?_)
      cases r with
      | error x => exact hhandle s x w hs
      | ok w =>
          dsimp only
          rw [h.dequeueAny _ _ hzero]
          refine congrArg _ (funext fun r => ?_)
          cases r with
          | error x => exact hhandle _ x w hnarrowed
          | ok d =>
              rcases d with _ | _ | ⟨job, q⟩
              · rfl
              · dsimp only
                rw [h.orderedQueues]
              · dsimp only
                rw [h.reorder]

end Timeouts

/-! ## The clock -/

/-- A party among others; the clock is never set back. -/
def clock : Side World Event Event where
  tag := id
  rely c c' := c.1.now ≤ c'.1.now
  guar c c' := c.1.now ≤ c'.1.now
  rely_refl _ := le_refl _
  rely_trans h h' := h.trans h'

/-- A step that does not set the clock back. -/
def Forward (w w' : World) (_ : List Event) : Prop := w.now ≤ w'.now

theorem reached_stable (t : Int) : Stable clock.rely fun c => t ≤ c.1.now :=
  fun _ _ h hc => le_trans hc h

/-- Time goes on during a program that does not set the clock back. -/
theorem forward_triple {α : Type} {p : Py α} {Q : α → Prop} (h : p.Steps Forward Q) (t : Int) :
    clock.Triple (fun c => t ≤ c.1.now) p (fun a c => t ≤ c.1.now ∧ Q a) fun _ _ => True :=
  h.triple (reached_stable t) (fun _ _ _ => trivial) fun _ _ _ _ hc hstep => ⟨hstep, le_trans hc hstep⟩

section Forward

variable {env : Env} {w : Worker}

theorem forward_write {f : World → World} (h : ∀ w, (f w).now = w.now) :
    (Prog.write f : Py Unit).Steps Forward fun _ => True :=
  Prog.Steps.write fun w => (h w).ge

theorem forward_read {α : Type} (g : World → α) : (Prog.read g : Py α).Steps Forward fun _ => True :=
  fun _ => ⟨le_refl _, trivial⟩

theorem setState_forward (s : WorkerStatus) : (w.setState s).Steps Forward fun _ => True :=
  (forward_write fun _ => rfl).bind fun _ _ => trivial

theorem heartbeat_forward (timeout : Int) : (w.heartbeat env timeout).Steps Forward fun _ => True := by
  refine (forward_read World.now).bind fun now _ => ?_
  have hsave : ∀ w : Worker, (w.saveModel env true).Steps Forward fun _ => True := fun w =>
    (forward_write fun _ => rfl).bind fun _ _ => trivial
  exact (hsave _).bind fun w _ => (forward_write fun _ => rfl).bind fun _ _ => trivial

theorem compact_forward (r : Registry) : r.compact.Steps Forward fun _ => True := by
  have hcleanup : (r.cleanup none).Steps Forward fun _ => True :=
    Prog.Steps.ite (fun _ => (forward_read _).bind fun _ _ => forward_write fun _ => rfl)
      fun _ => trivial
  have hall : (r.allWithTimestamps 0 (-1)).Steps Forward fun _ => True :=
    hcleanup.bind fun _ _ => forward_read _
  refine hall.bind fun jobs _ => Prog.Steps.forEach fun p _ => ?_
  exact (forward_read _).bind fun found _ =>
    Prog.Steps.ite (fun _ => trivial) fun _ => forward_write fun _ => rfl

theorem now_zpopmin (w : World) (q : QueueName) (k : RegistryKind) :
    (w.zpopmin q k).2.now = w.now := by
  unfold World.zpopmin
  split <;> rfl

theorem now_bzpopmin (w : World) (qs : List QueueName) : (w.bzpopmin qs).2.now = w.now := by
  induction qs with
  | nil => rfl
  | cons q qs ih =>
      have hpop := now_zpopmin w q .queued
      unfold World.bzpopmin
      split
      · rename_i heq
        rw [heq] at hpop
        exact hpop
      · exact ih

/-- A pop with a timeout answers with one of its queues. -/
theorem pop_forward (qs : List QueueName) (timeout : Option Int) :
    (Registry.pop qs timeout).Steps Forward fun r =>
      timeout ≠ none → ∃ key n, r = some (key, n) ∧ key ∈ qs := by
  refine Prog.Steps.ite (fun _ => trivial) fun _ => Prog.Steps.ite (fun _ => ?_) fun hnone => ?_
  · refine fun w => ⟨(now_bzpopmin w qs).ge, ?_⟩
    dsimp only
    rcases hpop : w.bzpopmin qs with ⟨_ | ⟨key, n⟩, w'⟩
    · trivial
    · exact fun _ => ⟨key, n, rfl, (World.bzpopmin_some hpop).1⟩
  · have hpop : (Registry.popNonBlocking qs).Steps Forward fun _ => True := by
      clear hnone
      induction qs with
      | nil => trivial
      | cons q qs ih =>
          have hq : (Registry.zpopmin q).Steps Forward fun _ => True :=
            Prog.Steps.command fun w => (now_zpopmin w q .queued).ge
          refine hq.bind fun n _ => ?_
          cases n with
          | none => exact ih
          | some n => trivial
    refine hpop.mono (fun _ _ _ h => h) fun _ _ hsome => ?_
    cases timeout with
    | none => exact (hsome rfl).elim
    | some t => exact (hnone rfl).elim

/-- A blocking `dequeue_any` does not come back without a job. -/
theorem dequeueWithin_forward (queues : List Queue) (timeout : Option Int) (fuel : Nat) :
    (Queue.dequeueWithin env queues timeout fuel).Steps Forward fun r =>
      timeout ≠ none → r ≠ some none := by
  induction fuel with
  | zero => exact fun _ h => by cases h
  | succ fuel ih =>
      have hcompact : (Prog.forEach queues fun q => q.queuedJobRegistry.compact).Steps Forward
          fun _ => True := Prog.Steps.forEach fun q _ => compact_forward _
      refine hcompact.bind fun _ _ => (pop_forward _ timeout).bind fun r hr => ?_
      cases r with
      | none =>
          intro hsome
          obtain ⟨key, n, hnone, -⟩ := hr hsome
          cases hnone
      | some p =>
          obtain ⟨key, n⟩ := p
          dsimp only
          split
          · rename_i hfind
            intro hsome
            obtain ⟨key', n', heq, hmem⟩ := hr hsome
            cases heq
            obtain ⟨q, hq, hname⟩ := List.mem_map.1 hmem
            exact (List.find?_eq_none.1 hfind q hq (decide_eq_true hname)).elim
          · refine (forward_read _).bind fun job _ => ?_
            cases job with
            | some job => exact fun _ => ⟨le_refl _, fun _ h => by cases h⟩
            | none => exact fun _ => ⟨le_refl _, ih⟩

end Forward

/-! ## Giving up -/

section GivingUp

variable {env : Env} {S : Surroundings} {m since : Int}

/-- Surroundings that do not set the clock back, and answer to a timeout. -/
structure Blocking (S : Surroundings) : Prop where
  maintain : ∀ w, (S.maintain w).Steps Forward fun _ => True
  dequeueAny : ∀ t fuel, (S.dequeueAny t fuel).Steps Forward fun r => t ≠ none → r ≠ some none

/-- What holds when the loop is left without a job. -/
def IdleLongEnough (m since : Int) (r : Option Dequeued) (c : Config World Event) : Prop :=
  ∀ d, r = some d → d.found = none → since + secs m ≤ c.1.now

/-- An attempt that failed leaves the loop only when nothing of the idle time is left. -/
theorem handle_triple (s : Worker.Waiting) (x : PyError) :
    clock.Triple (fun c => since ≤ c.1.now) (s.handle (some m) since x)
      (fun r c => since ≤ c.1.now ∧ (r.2 = true → since + secs m ≤ c.1.now) ∧
        r.1.timeout = s.timeout) fun _ _ => True := by
  unfold Waiting.handle
  split
  · refine Side.Triple.bind (Q := fun now c => since ≤ c.1.now ∧ now ≤ c.1.now) ?_ fun now => ?_
    · exact Side.Triple.read (reached_stable since)
        (fun b => Side.Stable.and (reached_stable since) (reached_stable b)) (fun _ _ => le_refl _)
        fun _ _ hc => ⟨hc, le_refl _⟩
    · refine Side.Triple.ret (Side.Stable.and (reached_stable since) (reached_stable now)) fun c hc =>
        ⟨hc.1, fun hleave => ?_, rfl⟩
      exact le_trans ((timeLeft_nonpos_iff m since now).1 (of_decide_eq_true hleave)) hc.2
  · split
    · exact Side.Triple.ret (reached_stable since) fun _ hc =>
        ⟨hc, fun h => (Bool.false_ne_true h).elim, rfl⟩
    · exact Side.Triple.raise (reached_stable since) fun _ _ => trivial

/-- Without a timeout the loop may be left at once. -/
theorem waitLoop_triple (hS : Blocking S) (rounds : List Round) (s : Worker.Waiting)
    (hs : s.timeout ≠ none ∨ m = 0) (w : Worker) :
    clock.Triple (fun c => since ≤ c.1.now) (waitLoop env S (some m) since rounds s w)
      (IdleLongEnough m since) fun _ _ => True := by
  induction rounds generalizing s w with
  | nil => exact Side.Triple.ret (reached_stable since) fun _ _ d hd => by cases hd
  | cons round rounds ih =>
      have hhandle : ∀ (s : Worker.Waiting) x w, s.timeout ≠ none ∨ m = 0 →
          clock.Triple (fun c => since ≤ c.1.now)
            (s.handle (some m) since x >>= leaveOr ⟨w, S.orderedQueues, none⟩ fun s =>
              waitLoop env S (some m) since rounds s w)
            (IdleLongEnough m since) fun _ _ => True := by
        intro s x w hs
        refine (handle_triple s x).bind fun r c hc => ?_
        obtain ⟨s', leave⟩ := r
        obtain ⟨hsince, hleave, htimeout⟩ := hc
        cases leave with
        | true =>
            refine Side.Triple.ret (reached_stable (since + secs m)) ?_ c (hleave rfl)
            exact fun _ hc d _ _ => hc
        | false => exact ih s' (hs.imp_left fun h => htimeout ▸ h) w c hsince
      have hupkeep : (do
          let w ← w.heartbeat env 0
          S.maintain w : Py Worker).Steps Forward fun _ => True :=
        (heartbeat_forward 0).bind fun w _ => hS.maintain w
      unfold waitLoop
      refine (forward_triple (hupkeep.broken connectionError round.upkeepBreaks).attempt since).bind
        fun r c hc => ?_
      cases r with
      | error x => exact hhandle s x w hs c hc.1
      | ok w =>
          have hnarrowed : s.narrowed.timeout ≠ none ∨ m = 0 := by
            refine hs.imp_left fun h => ?_
            obtain ⟨t, ht⟩ := Option.ne_none_iff_exists'.1 h
            unfold Waiting.narrowed
            rw [ht]
            cases s.idleTimeLeft with
            | none => exact h
            | some left => exact Option.some_ne_none _
          have hdequeue := (hS.dequeueAny s.narrowed.timeout round.fuel).broken connectionError
            round.dequeueBreaks
          refine (forward_triple hdequeue.attempt since).bind (fun r c hc => ?_) c hc.1
          obtain ⟨hsince, hfound⟩ := hc
          cases r with
          | error x => exact hhandle _ x w hnarrowed c hsince
          | ok d =>
              rcases d with _ | _ | ⟨job, q⟩
              · exact Side.Triple.ret (reached_stable since) (fun _ _ d hd => by cases hd) c hsince
              · refine Side.Triple.ret (reached_stable since) (fun c hc d _ _ => ?_) c hsince
                rcases hnarrowed with hsome | rfl
                · exact (hfound _ rfl hsome rfl).elim
                · unfold secs
                  omega
              · dsimp only
                split
                · exact Side.Triple.raise (reached_stable since) (fun _ _ => trivial) c hsince
                · refine Side.Triple.ret (reached_stable since) (fun _ _ d hd hnone => ?_) c hsince
                  cases hd
                  cases hnone

/-- The whole function; `t` is a time before its start. -/
theorem dequeue_triple (hS : Blocking S) (timeout : Option Int) (hs : timeout ≠ none ∨ m = 0)
    (rounds : List Round) (w : Worker) (t : Int) :
    clock.Triple (fun c => t ≤ c.1.now)
      (dequeueJobAndMaintainTtl env S timeout (some m) rounds w) (IdleLongEnough m t)
      fun _ _ => True := by
  unfold dequeueJobAndMaintainTtl
  refine (forward_triple (setState_forward _) t).bind fun w => ?_
  refine Side.Triple.bind (Q := fun since c => t ≤ since ∧ since ≤ c.1.now) ?_ fun since => ?_
  · refine (Side.Triple.read (P := fun c => t ≤ c.1.now) (reached_stable t) (fun b =>
      Side.Stable.and (Side.Stable.const _) (reached_stable b)) (fun _ _ => le_refl _)
      fun _ _ hc => ⟨hc, le_refl _⟩).pre fun _ hc => hc.1
  · intro c hc
    obtain ⟨hstart, hsince⟩ := hc
    refine (waitLoop_triple hS rounds _ hs w c hsince).bind fun r c hidle => ?_
    cases r with
    | none =>
        exact Side.Triple.ret (Side.Stable.const _) (fun _ _ d hd => by cases hd) c trivial
    | some d =>
        cases hfound : d.found with
        | some found =>
            refine ((forward_triple (heartbeat_forward 0) c.1.now).bind fun w =>
              Side.Triple.ret (Side.Stable.and (reached_stable _) (Side.Stable.const _)) ?_) c (le_refl _)
            rintro c - d' ⟨⟩ hnone
            rw [hfound] at hnone
            cases hnone
        | none =>
            have hlong := hidle d rfl hfound
            refine ((forward_triple (heartbeat_forward 0) (since + secs m)).bind fun w =>
              Side.Triple.ret (Side.Stable.and (reached_stable _) (Side.Stable.const _)) ?_) c hlong
            intro c hc d' _ _
            have hnow := hc.1
            omega

end GivingUp

/-! ## A worker with a maximal idle time -/

/-- The surroundings of a worker with the queues `queues`. -/
def surroundings (env : Env) (queues : List Queue) (maintain : Worker → Py Worker)
    (reorder : Queue → Except PyError (List Queue)) : Surroundings where
  maintain := maintain
  dequeueAny := Queue.dequeueWithin env queues
  orderedQueues := queues
  reorder := reorder

/-- The call of `work`, with a maximal idle time. -/
def call (env : Env) (S : Surroundings) (burst : Bool) (m : Int) (rounds : List Round) (w : Worker) :
    Py (Option Dequeued) :=
  dequeueJobAndMaintainTtl env S (workTimeout env burst) (some m) rounds w

/-- What is promised of a maximal idle time: `dequeue_any` is never called with the timeout zero, so that
it does not matter what it does with it; and the worker that has started at `t` comes back without a job
only after that time, whatever others do meanwhile. -/
structure Waits (env : Env) (burst : Bool) (m : Int) : Prop where
  neverZero : ∀ S S' rounds w, SameButZero S S' → call env S burst m rounds w = call env S' burst m rounds w
  idleLongEnough : ∀ queues maintain reorder rounds w t,
    (∀ w, (maintain w).Steps Forward fun _ => True) →
    clock.Triple (fun c => t ≤ c.1.now)
      (call env (surroundings env queues maintain reorder) burst m rounds w) (IdleLongEnough m t)
      fun _ _ => True

section IdleTime

variable {env : Env}

theorem waits_of {burst : Bool} {m : Int} (hneverZero : workTimeout env burst = none ∨
    Positive ⟨workTimeout env burst, some m, 1⟩) (hlong : workTimeout env burst ≠ none ∨ m = 0) :
    Waits env burst m where
  neverZero S S' rounds w h := by
    unfold call dequeueJobAndMaintainTtl
    refine congrArg _ (funext fun w => congrArg _ (funext fun since => ?_))
    rw [waitLoop_congr h (some m) since rounds _ hneverZero w]
  idleLongEnough queues maintain reorder rounds w t hmaintain :=
    dequeue_triple ⟨hmaintain, dequeueWithin_forward queues⟩ _ hlong rounds w t

/-- With a maximal idle time of zero the first timeout is zero. -/
theorem not_waits_zero (hTTL : 15 < env.config.DEFAULT_WORKER_TTL) : ¬ Waits env false 0 := by
  intro h
  let S (x : String) : Surroundings := {
    maintain := pure
    dequeueAny := fun t _ => if t = some 0 then throw (.keyError x) else pure none
    orderedQueues := []
    reorder := fun _ => .ok [] }
  have hsame : SameButZero (S "a") (S "b") := ⟨rfl, rfl, rfl, fun t fuel ht => by
    show (if t = some 0 then _ else _) = if t = some 0 then _ else _
    rw [if_neg ht, if_neg ht]⟩
  have hmin : min (env.config.DEFAULT_WORKER_TTL - 15) 0 = 0 := min_eq_right (by omega)
  have hrun : ∀ x, ((call env (S x) false 0 [⟨1, none, none⟩] (Sample.worker "w")).run
      (World.init 0)).val = .error (.keyError x) := by
    intro x
    unfold call dequeueJobAndMaintainTtl workTimeout waitLoop Waiting.narrowed
    simp only [Bool.false_eq_true, if_false, hmin]
    rfl
  have hcall := h.neverZero (S "a") (S "b") [⟨1, none, none⟩] (Sample.worker "w") hsame
  have hval := (hrun "a").symm.trans ((congrArg (fun p => (p.run (World.init 0)).val) hcall).trans
    (hrun "b"))
  exact absurd (PyError.keyError.inj (Except.error.inj hval)) (by decide)

/-- In burst mode the worker does not wait at all. -/
theorem not_waits_burst {m : Int} (hm : 0 < m) : ¬ Waits env true m := by
  intro h
  have hsafe := h.idleLongEnough [] pure (fun _ => .ok []) [⟨1, none, none⟩] (Sample.worker "w") 0
    (fun _ => trivial) (World.init 0, []) (le_refl _)
  obtain ⟨t, hidle⟩ := hsafe.run rfl
  have hnow := hidle _ rfl rfl
  have hzero : (0 : Int) + secs m ≤ 0 := hnow
  unfold secs at hzero
  omega

theorem positive_call (hTTL : 15 < env.config.DEFAULT_WORKER_TTL) {m : Int} (hm : 0 < m) :
    Positive ⟨workTimeout env false, some m, 1⟩ where
  timeout := by
    rintro _ ⟨⟩
    omega
  idleTimeLeft := by
    rintro _ ⟨⟩
    exact hm

/-- A worker that blocks waits as promised exactly if its maximal idle time is positive; one in burst mode
does not wait, and so keeps the promise only where there is nothing to wait for. -/
theorem waits_iff (env : Env) (hTTL : 15 < env.config.DEFAULT_WORKER_TTL) (burst : Bool) (m : Int)
    (hm : 0 ≤ m) : Waits env burst m ↔ (burst = false ∧ 0 < m) ∨ (burst = true ∧ m = 0) := by
  rcases hm.eq_or_lt with rfl | hpos
  · cases burst with
    | true => exact iff_of_true (waits_of (.inl rfl) (.inr rfl)) (.inr ⟨rfl, rfl⟩)
    | false => exact iff_of_false (not_waits_zero hTTL) (by simp)
  · cases burst with
    | true => exact iff_of_false (not_waits_burst hpos) (by simp; omega)
    | false =>
        refine iff_of_true (waits_of (.inr (positive_call hTTL hpos)) (.inl ?_)) (.inl ⟨rfl, hpos⟩)
        exact Option.some_ne_none _

end IdleTime

/-- A worker that blocks, with a maximal idle time of half a minute. -/
theorem sample_waits_iff : Waits Sample.env false 30 ↔ (false = false ∧ (0 : Int) < 30) ∨
    (false = true ∧ (30 : Int) = 0) :=
  waits_iff Sample.env (by decide) false 30 (by decide)

/-- `--max-idle-time 0`. -/
theorem sample_not_waits : ¬ Waits Sample.env false 0 := not_waits_zero (by decide)

end DailyScheduler.Waiting
