import DailyScheduler.Lib.RelyGuarantee
import DailyScheduler.Lib.Run
import DailyScheduler.Model.Effects
import DailyScheduler.Model.Sample

set_option autoImplicit false

/-! # Calls of `create` at the same time

`JobModel.create` looks whether a given name is free, or makes a name from the clock, and writes the
record two steps later. Between these steps other calls take theirs, and the clocks of different machines
may show anything.
-/

namespace DailyScheduler.Creating

open AtomicProg

/-- A call of `create`. -/
structure Request where
  args : JobArgs
  queueName : QueueName
  status : JobStatus

/-- How far a call has come. -/
inductive Phase where
  | begin
  | named (n : JobName)
  | timed (n : JobName) (createdAt : Int)
  | saved (j : JobModel)
  | returned (j : JobModel)
  | raised (x : PyError)

namespace Request

variable (env : Env) (r : Request)

/-- The object that a call saves. -/
def model (n : JobName) (createdAt : Int) : JobModel :=
  JobModel.new env.config r.args r.queueName n r.status createdAt

/-- A call that checks its timeout first. -/
def start : Phase :=
  if JobModel.timeoutOrDefault env.config r.args.timeout = 0 then
    .raised (.valueError "0 timeout is not allowed. Use -1 for infinite timeout")
  else .begin

/-- The next atomic step of a call. -/
def next : Phase → World → Phase × World
  | .begin, w =>
      match r.args.name with
      | some n => (if w.jobExists n then .raised (.valueError n) else .named n, w)
      | none => (.named (JobModel.defaultName r.queueName r.args.scheduledTaskId w.now), w)
  | .named n, w => (.timed n w.now, w)
  | .timed n t, w =>
      if (r.model env n t).serializable then (.saved (r.model env n t).saved, w.saveJob (r.model env n t) false)
      else (.raised (.typeError "not JSON serializable"), w)
  | .saved j, w => (.returned j, w)
  | .returned j, w => (.returned j, w)
  | .raised x, w => (.raised x, w)

/-- What is left of the program of `create`. -/
def prog : Phase → Py JobModel
  | .begin => do
      let name ← JobModel.pickName r.args.name r.queueName r.args.scheduledTaskId
      let createdAt ← utcnow
      let (j, _) ← After.get ((r.model env name createdAt).save false)
      Prog.emit (.created name)
      pure j
  | .named name => do
      let createdAt ← utcnow
      let (j, _) ← After.get ((r.model env name createdAt).save false)
      Prog.emit (.created name)
      pure j
  | .timed name createdAt => do
      let (j, _) ← After.get ((r.model env name createdAt).save false)
      Prog.emit (.created name)
      pure j
  | .saved j => do
      Prog.emit (.created j.name)
      pure j
  | .returned j => pure j
  | .raised x => throw x

theorem prog_start : r.prog env (r.start env) = JobModel.create env r.args r.queueName r.status := by
  unfold start JobModel.create
  split <;> rfl

/-- Its arguments can be encoded: the call writes. -/
def encodes : Bool := r.args.args.encodes && r.args.kwargs.encodes && r.args.metadata.encodes

theorem serializable_model (n : JobName) (t : Int) :
    (r.model env n t).serializable = r.encodes := rfl

end Request

/-! ## The phases are those of the program -/

section Program

variable {ι : Type} [DecidableEq ι] {env : Env} {r : Request}

/-- A step of a thread is the step of its phase. -/
theorem step_prog {P : Pool ι World Event PyError JobModel} {i : ι} {phase : Phase}
    (h : P.threads i = r.prog env phase) :
    (P.step i).threads = Function.update P.threads i (r.prog env (r.next env phase P.state).1)
      ∧ (P.step i).state = (r.next env phase P.state).2 := by
  have hsame : Function.update P.threads i (r.prog env phase) = P.threads := by
    rw [← h]
    exact Function.update_eq_self i P.threads
  unfold Pool.step
  rw [h]
  cases phase with
  | begin =>
      cases hname : r.args.name with
      | none =>
          simp only [Request.prog, Request.next, hname]
          exact ⟨rfl, rfl⟩
      | some n =>
          simp only [Request.prog, Request.next, hname, JobModel.pickName, JobModel.exists_]
          refine ⟨congrArg (Function.update P.threads i) ?_, rfl⟩
          show Prog.bind (Prog.bind (Prog.ret (P.state.jobExists n)) _) _ = _
          cases P.state.jobExists n <;> rfl
  | named n => exact ⟨rfl, rfl⟩
  | timed n t =>
      by_cases hs : (r.model env n t).serializable = true
      · simp only [Request.prog, Request.next, JobModel.get_save, if_pos hs]
        exact ⟨rfl, rfl⟩
      · simp only [Request.prog, JobModel.get_save, if_neg hs] at hsame
        simp only [Request.prog, Request.next, JobModel.get_save, if_neg hs]
        exact ⟨hsame.symm, rfl⟩
  | saved j => exact ⟨rfl, rfl⟩
  | returned j => exact ⟨hsame.symm, rfl⟩
  | raised x => exact ⟨hsame.symm, rfl⟩

end Program

/-! ## Calls and clocks -/

/-- One broker, and the calls of `create` on it. The clock of the world is the one that the next step
reads. -/
structure System (ι : Type) where
  world : World
  calls : ι → Phase

/-- A call takes its next step, or the clocks go to another reading. -/
inductive Move (ι : Type) where
  | call (i : ι)
  | clock (t : Int)

section System

variable {ι : Type} [DecidableEq ι] (env : Env) (r : ι → Request)

def start (w : World) : System ι := ⟨w, fun i => (r i).start env⟩

def step (S : System ι) : Move ι → System ι
  | .call i =>
      { world := ((r i).next env (S.calls i) S.world).2
        calls := Function.update S.calls i ((r i).next env (S.calls i) S.world).1 }
  | .clock t => { S with world := { S.world with now := t } }

/-- The same for the programs themselves. -/
def poolStep (P : Pool ι World Event PyError JobModel) : Move ι → Pool ι World Event PyError JobModel
  | .call i => P.step i
  | .clock t => { P with state := { P.state with now := t } }

/-- The threads run what is left of the calls. -/
def Represents (P : Pool ι World Event PyError JobModel) (S : System ι) : Prop :=
  P.state = S.world ∧ ∀ i, P.threads i = (r i).prog env (S.calls i)

variable {env r}

theorem represents_step {P : Pool ι World Event PyError JobModel} {S : System ι}
    (h : Represents env r P S) (o : Move ι) : Represents env r (poolStep P o) (step env r S o) := by
  obtain ⟨hstate, hthreads⟩ := h
  cases o with
  | clock t => exact ⟨congrArg (fun w : World => { w with now := t }) hstate, hthreads⟩
  | call i =>
      obtain ⟨hi, hw⟩ := step_prog (hthreads i)
      rw [hstate] at hi hw
      refine ⟨hw, fun j => ?_⟩
      show (P.step i).threads j = _
      rw [hi]
      by_cases hj : j = i
      · subst hj
        simp [step]
      · simp [step, hj, hthreads j]

theorem Represents.run {P : Pool ι World Event PyError JobModel} {S : System ι}
    (h : Represents env r P S) (l : List (Move ι)) :
    Represents env r (Run.last poolStep P l) (Run.last (step env r) S l) := by
  induction l generalizing P S with
  | nil => exact h
  | cons o l ih => exact ih (represents_step h o)

/-- A run of calls of `create`, taken as a pool of programs, is the run of their phases. -/
theorem represents_run {P : Pool ι World Event PyError JobModel}
    (hP : ∀ i, P.threads i = JobModel.create env (r i).args (r i).queueName (r i).status)
    (l : List (Move ι)) :
    Represents env r (Run.last poolStep P l) (Run.last (step env r) (start env r P.state) l) :=
  Represents.run ⟨rfl, fun i => (hP i).trans ((r i).prog_start env).symm⟩ l

/-! ## Names that nobody else has chosen -/

/-- The name that a call has chosen and not yet written. -/
def Phase.pending : Phase → Option JobName
  | .named n => some n
  | .timed n _ => some n
  | _ => none

/-- The job that a call has written. -/
def Phase.written : Phase → Option JobModel
  | .saved j => some j
  | .returned j => some j
  | _ => none

/-- The name with which a call goes on from its first step: the given one unless it is taken, or one made
from the clock. -/
def Request.choice (r : Request) (w : World) : Option JobName :=
  match r.args.name with
  | some n => if w.jobExists n then none else some n
  | none => some (JobModel.defaultName r.queueName r.args.scheduledTaskId w.now)

variable (r)

/-- The call is going to write a record under the name. -/
def Holds (S : System ι) (i : ι) (n : JobName) : Prop :=
  (r i).encodes = true ∧ (S.calls i).pending = some n

/-- Nobody has the name, neither a record nor a call that is going to write one. -/
def Free (S : System ι) (i : ι) (n : JobName) : Prop :=
  S.world.jobExists n = false ∧ ∀ j, j ≠ i → ¬ Holds r S j n

/-- When a call chooses its name and is going to write, nobody has that name. -/
def Apart (S : System ι) : Move ι → Prop
  | .clock _ => True
  | .call i => S.calls i = .begin → (r i).encodes = true →
      ∀ n, (r i).choice S.world = some n → Free r S i n

variable (env)

/-- A step leaves every stored record as it is, and a call whose given name is taken raises and writes
nothing. -/
def Orderly (S : System ι) (o : Move ι) : Prop :=
  (∀ n h, S.world.jobs.find? n = some h → (step env r S o).world.jobs.find? n = some h)
    ∧ ∀ i n, o = .call i → S.calls i = .begin → (r i).args.name = some n → S.world.jobExists n = true →
      (step env r S o).calls i = .raised (.valueError n) ∧ (step env r S o).world = S.world

variable {env}

/-- No two jobs that were written, returned or not, have one name. -/
def Distinct (S : System ι) : Prop :=
  ∀ i j a b, (S.calls i).written = some a → (S.calls j).written = some b → a.name = b.name → i = j

structure Inv (S : System ι) : Prop where
  free : ∀ i n, Holds r S i n → Free r S i n
  written : ∀ i a, (S.calls i).written = some a → S.world.jobExists a.name = true
  distinct : Distinct S

variable {r}

omit [DecidableEq ι] in
theorem inv_start (w : World) : Inv r (start env r w) := by
  have hbegin : ∀ i, (start env r w).calls i = (r i).start env := fun _ => rfl
  have hpending : ∀ i, ((start env r w).calls i).pending = none := by
    intro i
    rw [hbegin, Request.start]
    split <;> rfl
  have hwritten : ∀ i, ((start env r w).calls i).written = none := by
    intro i
    rw [hbegin, Request.start]
    split <;> rfl
  refine ⟨fun i n h => ?_, fun i a h => ?_, fun i j a b h _ _ => ?_⟩
  · rw [Holds, hpending] at h
    cases h.2
  · rw [hwritten] at h
    cases h
  · rw [hwritten] at h
    cases h

/-- A call goes on without writing: what it has written stays, and a name that it holds is free. -/
theorem Inv.goOn {S : System ι} (h : Inv r S) {i : ι} {phase : Phase}
    (hpending : (r i).encodes = true → ∀ n, phase.pending = some n → Free r S i n)
    (hwritten : phase.written = (S.calls i).written) :
    Inv r { S with calls := Function.update S.calls i phase } := by
  have hsame : ∀ j, (Function.update S.calls i phase j).written = (S.calls j).written := by
    intro j
    by_cases hj : j = i
    · subst hj
      rw [Function.update_self]
      exact hwritten
    · rw [Function.update_of_ne hj]
  -- The calls that hold a name are those from before, and `i` with its new name.
  have hholds : ∀ j n, Holds r { S with calls := Function.update S.calls i phase } j n →
      (j ≠ i ∧ Holds r S j n) ∨ (j = i ∧ Free r S i n) := by
    rintro j n ⟨hencodes, hp⟩
    by_cases hj : j = i
    · subst hj
      simp only [Function.update_self] at hp
      exact .inr ⟨rfl, hpending hencodes n hp⟩
    · simp only [Function.update_of_ne hj] at hp
      exact .inl ⟨hj, hencodes, hp⟩
  refine ⟨fun j n hjn => ?_, fun j a ha => ?_, fun j k a b ha hb => ?_⟩
  · rcases hholds j n hjn with ⟨hj, hold⟩ | ⟨rfl, hfree⟩
    · refine ⟨(h.free j n hold).1, fun k hk hkn => ?_⟩
      rcases hholds k n hkn with ⟨-, hold'⟩ | ⟨rfl, hfree⟩
      · exact (h.free j n hold).2 k hk hold'
      · exact hfree.2 j hj hold
    · refine ⟨hfree.1, fun k hk hkn => ?_⟩
      rcases hholds k n hkn with ⟨-, hold'⟩ | ⟨hkj, -⟩
      · exact hfree.2 k hk hold'
      · exact hk hkj
  · rw [hsame] at ha
    exact h.written j a ha
  · rw [hsame] at ha hb
    exact h.distinct j k a b ha hb

/-- What a call does that writes. -/
theorem step_write {S : System ι} {i : ι} {n : JobName} {t : Int} (hi : S.calls i = .timed n t)
    (hencodes : (r i).encodes = true) :
    step env r S (.call i) =
      { world := S.world.saveJob ((r i).model env n t) false
        calls := Function.update S.calls i (.saved ((r i).model env n t).saved) } := by
  simp [step, hi, Request.next, Request.serializable_model, hencodes]

/-- A call that holds its name writes it. -/
theorem Inv.write {S : System ι} (h : Inv r S) {i : ι} {n : JobName} {t : Int}
    (hi : S.calls i = .timed n t) (hencodes : (r i).encodes = true) :
    Inv r (step env r S (.call i)) := by
  have hfree : Free r S i n := h.free i n ⟨hencodes, by rw [hi]; rfl⟩
  have hexists : ∀ m, (S.world.saveJob ((r i).model env n t) false).jobExists m = true
      ↔ m = n ∨ S.world.jobExists m = true :=
    fun m => World.jobExists_saveJob (.inr rfl)
  rw [step_write hi hencodes]
  -- The names that are held are those of the other calls, and none of them is `n`.
  have hholds : ∀ j m, Holds r ⟨S.world.saveJob ((r i).model env n t) false,
      Function.update S.calls i (.saved ((r i).model env n t).saved)⟩ j m → j ≠ i ∧ Holds r S j m := by
    rintro j m ⟨hencodes, hp⟩
    by_cases hj : j = i
    · subst hj
      simp [Phase.pending] at hp
    · exact ⟨hj, hencodes, by simpa [Function.update_of_ne hj] using hp⟩
  have hwritten : ∀ j a, (Function.update S.calls i (.saved ((r i).model env n t).saved) j).written = some a →
      (j = i ∧ a.name = n) ∨ (j ≠ i ∧ (S.calls j).written = some a) := by
    intro j a ha
    by_cases hj : j = i
    · subst hj
      rw [Function.update_self] at ha
      obtain rfl : ((r j).model env n t).saved = a := by simpa [Phase.written] using ha
      exact .inl ⟨rfl, rfl⟩
    · rw [Function.update_of_ne hj] at ha
      exact .inr ⟨hj, ha⟩
  have hapart : ∀ j a, (S.calls j).written = some a → a.name ≠ n := by
    rintro j a ha rfl
    have := h.written j a ha
    rw [hfree.1] at this
    cases this
  refine ⟨fun j m hjm => ?_, fun j a ha => ?_, fun j k a b ha hb hab => ?_⟩
  · obtain ⟨hj, hold⟩ := hholds j m hjm
    have hm : m ≠ n := by
      rintro rfl
      exact hfree.2 j hj hold
    refine ⟨?_, fun k hk hkm => (h.free j m hold).2 k hk (hholds k m hkm).2⟩
    rw [← Bool.not_eq_true, hexists]
    simp [hm, (h.free j m hold).1]
  · rw [hexists]
    exact (hwritten j a ha).imp And.right fun hj => h.written j a hj.2
  · rcases hwritten j a ha with ⟨hj, han⟩ | ⟨hj, haj⟩ <;> rcases hwritten k b hb with ⟨hk, hbn⟩ | ⟨hk, hbk⟩
    · rw [hj, hk]
    · exact absurd (hab.symm.trans han) (hapart k b hbk)
    · exact absurd (hab.trans hbn) (hapart j a haj)
    · exact h.distinct j k a b haj hbk hab

/-- A step that writes nothing leaves the world as it is, and what the call has written; a name that is
held after it was held before, or was chosen just now. -/
theorem next_quiet (env : Env) {q : Request} {phase : Phase} (w : World)
    (h : ∀ n t, phase = .timed n t → q.encodes = false) :
    (q.next env phase w).2 = w
      ∧ (q.next env phase w).1.written = phase.written
      ∧ ∀ n, (q.next env phase w).1.pending = some n →
          phase.pending = some n ∨ (phase = .begin ∧ q.choice w = some n) := by
  unfold Request.next Request.choice
  cases phase with
  | begin =>
      cases hname : q.args.name with
      | none => exact ⟨rfl, rfl, fun n hn => .inr ⟨rfl, hn⟩⟩
      | some m =>
          cases hm : w.jobExists m with
          | true =>
              simp only [hm, if_true]
              exact ⟨trivial, rfl, fun n hn => by cases hn⟩
          | false =>
              simp only [hm, Bool.false_eq_true, if_false]
              exact ⟨trivial, rfl, fun n hn => .inr ⟨trivial, hn⟩⟩
  | named n => exact ⟨rfl, rfl, fun m hm => .inl hm⟩
  | timed n t =>
      have hs : (q.model env n t).serializable = false := h n t rfl
      simp only [hs, Bool.false_eq_true, if_false]
      exact ⟨trivial, rfl, fun m hm => by cases hm⟩
  | saved j => exact ⟨rfl, rfl, fun n hn => by cases hn⟩
  | returned j => exact ⟨rfl, rfl, fun n hn => by cases hn⟩
  | raised x => exact ⟨rfl, rfl, fun n hn => by cases hn⟩

omit [DecidableEq ι] in
/-- A call is about to write, or its step writes nothing. -/
theorem writes_or_quiet (S : System ι) (i : ι) :
    (∃ n t, S.calls i = .timed n t ∧ (r i).encodes = true)
      ∨ ∀ n t, S.calls i = .timed n t → (r i).encodes = false := by
  by_cases h : ∃ n t, S.calls i = .timed n t ∧ (r i).encodes = true
  · exact .inl h
  · refine .inr fun n t hi => ?_
    rw [← Bool.not_eq_true]
    exact fun hencodes => h ⟨n, t, hi, hencodes⟩

theorem step_quiet {S : System ι} {i : ι} (h : ∀ n t, S.calls i = .timed n t → (r i).encodes = false) :
    step env r S (.call i) =
      { S with calls := Function.update S.calls i ((r i).next env (S.calls i) S.world).1 } := by
  have hworld := (next_quiet env S.world h).1
  simp only [step, hworld]

theorem inv_step {S : System ι} (h : Inv r S) (o : Move ι) (ho : Apart r S o) :
    Inv r (step env r S o) := by
  cases o with
  | clock t => exact ⟨h.free, h.written, h.distinct⟩
  | call i =>
      rcases writes_or_quiet S i with ⟨n, t, hi, hencodes⟩ | hquiet
      · exact h.write hi hencodes
      · obtain ⟨-, hwritten, hpending⟩ := next_quiet env S.world hquiet
        rw [step_quiet hquiet]
        refine h.goOn (fun hencodes n hn => ?_) hwritten
        rcases hpending n hn with hold | ⟨hbegin, hchoice⟩
        · exact h.free i n ⟨hencodes, hold⟩
        · exact ho hbegin hencodes n hchoice

theorem orderly_step {S : System ι} (h : Inv r S) (o : Move ι) : Orderly env r S o := by
  cases o with
  | clock t => exact ⟨fun n v hv => hv, fun i n ho => by cases ho⟩
  | call i =>
      refine ⟨fun n v hv => ?_, fun j n ho hbegin hname hex => ?_⟩
      · rcases writes_or_quiet S i with ⟨m, t, hi, hencodes⟩ | hquiet
        · have hm : S.world.jobExists m = false := (h.free i m ⟨hencodes, by rw [hi]; rfl⟩).1
          have hn : n ≠ m := by
            rintro rfl
            rw [World.jobExists, TtlMap.contains_eq_false_iff, hv] at hm
            cases hm
          rw [step_write hi hencodes]
          exact (World.find?_saveJob_of_ne _ _ _ hn).trans hv
        · rw [step_quiet hquiet]
          exact hv
      · cases ho
        simp [step, hbegin, Request.next, hname, hex]

/-- In every run in which each call that is going to write chooses a name that nobody has, neither a record
nor another call that is going to write it: no two calls write jobs with one name, no record is
overwritten, and a call whose given name is taken raises and writes nothing. -/
theorem creates_apart (env : Env) (r : ι → Request) (w : World) (l : List (Move ι))
    (h : Run.Meets (step env r) (Apart r) (start env r w) l) :
    Run.Along (step env r) Distinct (start env r w) l
      ∧ Run.Meets (step env r) (Orderly env r) (start env r w) l := by
  obtain ⟨halong, hmeets⟩ := Run.along_and_meets_of_step (P := Inv r)
    (fun S o hS ho => ⟨inv_step hS o ho, orderly_step hS o⟩) (inv_start w) h
  exact ⟨halong.mono fun S hS => hS.distinct, hmeets⟩

end System

/-! ## Two calls at the same time -/

/-- A call that wants the name `n`, or none, for a job that runs `func`. -/
def sampleRequest (n : Option JobName) (func : String) : Request where
  args := { Sample.args func with name := n }
  queueName := "q"
  status := .queued

/-- The two calls take their steps in turns. -/
def inTurns : List (Move Bool) :=
  [.call false, .call true, .call false, .call true, .call false, .call true, .call false, .call true]

/-- One with a given name, the other with one from the clock. -/
theorem sample_creates_apart :
    let r := fun second => if second then sampleRequest none "ok" else sampleRequest (some "a") "ok"
    Run.Along (step Sample.env r) Distinct (start Sample.env r (World.init 0)) inTurns
      ∧ Run.Meets (step Sample.env r) (Orderly Sample.env r) (start Sample.env r (World.init 0)) inTurns := by
  refine creates_apart Sample.env _ (World.init 0) inTurns ⟨?_, ?_, ?_, ?_, ?_, ?_, ?_, ?_, trivial⟩
  · rintro - - n hn
    obtain rfl : "a" = n := Option.some.inj hn
    refine ⟨rfl, fun j _ hj => ?_⟩
    cases j <;> exact absurd hj.2 (by decide)
  · rintro - - n hn
    obtain rfl := Option.some.inj hn
    refine ⟨by decide, fun j _ hj => ?_⟩
    cases j <;> exact absurd hj.2 (by decide +kernel)
  all_goals exact fun h => by cases h

/-- Two calls with one name, or with none, after their steps in turns. -/
def bothCreated (n : Option JobName) : System Bool :=
  let r := fun second => sampleRequest n (if second then "fail" else "ok")
  Run.last (step Sample.env r) (start Sample.env r (World.init 0)) inTurns

/-- The job that the first call returned is one of the same name as the second call's, and its record now
says what the second call wrote. -/
def Overwritten (S : System Bool) : Prop :=
  (S.calls false).written.map JobModel.name = (S.calls true).written.map JobModel.name
    ∧ (S.calls false).written.map JobModel.funcName = some "ok"
    ∧ (S.calls false).written.bind (fun j => S.world.storedField j.name .funcName) = some "fail"

/-- Both calls find that the name is free, and the second write replaces the first record. It is the same
with names from a clock that has not moved on. -/
theorem both_find_it_free : Overwritten (bothCreated (some "a")) ∧ Overwritten (bothCreated none) := by
  unfold Overwritten
  decide +kernel

end DailyScheduler.Creating
