import Mathlib.Algebra.Ring.Int.Defs
import Mathlib.Data.List.Basic

set_option autoImplicit false

/-! # Timeouts by signals

`helpers/timeouts.py`: the blocks of `UnixSignalDeathPenalty`. A process has one alarm and one handler
for it, whatever blocks are open. Code that runs under timeouts is a tree: pieces that take some time and
may raise, one after the other, in blocks, and under `try`; `exec` runs it and notes the process after
each block that was left inside another one.
-/

namespace DailyScheduler.Timeouts

/-! ## The process -/

/-- An open block: the object whose `handle_death_penalty` is its handler, and when its alarm was to
fire. -/
structure Block where
  id : Nat
  deadline : Option Int
  deriving DecidableEq

/-- What the signal module knows of a process: the handler of `SIGALRM`, `none` for `SIG_DFL`, and the
pending alarm. `blocks` counts the objects created so far. Times are in microseconds. -/
structure Process where
  now : Int
  handler : Option Nat
  alarm : Option Int
  blocks : Nat
  mainThread : Bool
  deriving DecidableEq

/-- When `signal.alarm(timeout)` will fire: the argument is an unsigned number of seconds, and zero
cancels. -/
def alarmTime (timeout now : Int) : Option Int :=
  if timeout % 2 ^ 32 = 0 then none else some (now + timeout % 2 ^ 32 * 1000000)

namespace Process

/-- The block that is entered next. -/
def block (p : Process) (timeout : Int) : Block := ⟨p.blocks, alarmTime timeout p.now⟩

/-- `setup_death_penalty`. -/
def setupDeathPenalty (p : Process) (timeout : Int) : Process :=
  let q := { p with blocks := p.blocks + 1 }
  if p.mainThread then { q with handler := some p.blocks, alarm := alarmTime timeout p.now } else q

/-- `cancel_death_penalty` within `__exit__`. When the alarm fires at its very beginning (`late`), the
handler raises before anything is canceled, and `__exit__` ignores the exception. -/
def cancelDeathPenalty (p : Process) (late : Bool) : Process :=
  if p.mainThread then
    if late ∧ p.alarm.isSome then { p with alarm := none }
    else { p with alarm := none, handler := none }
  else p

end Process

/-! ## Code under timeouts -/

/-- Code with blocks. `late` says of a block whether its alarm fires while it is being left. -/
inductive Code where
  | run (d : Nat) (raises : Bool)
  | seq (a b : Code)
  | within (timeout : Int) (late : Bool) (body : Code)
  | catching (body handler : Code)

/-- How code ends: an alarm without a handler ends the process. -/
inductive Ending where
  | returned | raised | killed
  deriving DecidableEq

/-- The end of a run, and for each block that was left inside another one: that other block and the
process then. -/
structure Outcome where
  ending : Ending
  process : Process
  left : List (Block × Process)
  deriving DecidableEq

/-- A piece of code without blocks: it is cut short when the alarm fires. -/
def runFor (d : Nat) (raises : Bool) (p : Process) : Ending × Process :=
  let after : Ending × Process :=
    (if raises then .raised else .returned, { p with now := p.now + d })
  match p.alarm with
  | none => after
  | some t =>
      if t ≤ p.now + d then
        let q := { p with alarm := none, now := max p.now t }
        (match p.handler with
          | none => .killed
          | some _ => .raised, q)
      else after

/-- Run code with the blocks `open'` around it, the innermost first. -/
def exec : Code → List Block → Process → Outcome
  | .run d raises, _, p => ⟨(runFor d raises p).1, (runFor d raises p).2, []⟩
  | .seq a b, open', p =>
      let r := exec a open' p
      match r.ending with
      | .returned =>
          let r' := exec b open' r.process
          { r' with left := r.left ++ r'.left }
      | _ => r
  | .within timeout late body, open', p =>
      let r := exec body (p.block timeout :: open') (p.setupDeathPenalty timeout)
      match r.ending with
      | .killed => r
      | _ =>
          let q := r.process.cancelDeathPenalty late
          { r with process := q, left := r.left ++ (open'.head?.map fun b => (b, q)).toList }
  | .catching body handler, open', p =>
      let r := exec body open' p
      match r.ending with
      | .raised =>
          let r' := exec handler open' r.process
          { r' with left := r.left ++ r'.left }
      | _ => r

/-! ## The blocks of the scheduler -/

/-- A callback with its timeout: `Callback.__call__`. -/
structure Callback where
  timeout : Int
  late : Bool
  func : Code

def Callback.call (c : Callback) : Code := .within c.timeout c.late c.func

/-- Nothing to do. -/
def nothing : Code := .run 0 false

/-- A callback that may not be there. -/
def callIfAny : Option Callback → Code
  | none => nothing
  | some c => c.call

/-- The parts of a job that run under timeouts. -/
structure Job where
  timeout : Int
  late : Bool
  func : Code
  onSuccess : Option Callback
  onFailure : Option Callback

/-- `queue_perform_job`: the function and the success callback; if either raises, the failure callback,
and the exception again. -/
def queuePerformJob (job : Job) : Code :=
  .catching (.seq job.func (callIfAny job.onSuccess))
    (.seq (callIfAny job.onFailure) (.run 0 true))

/-- `worker_perform_job`. `outcome` stands for the handlers of success and failure. -/
def workerPerformJob (defaultTimeout : Int) (job : Job) (outcome : Code) : Code :=
  let timeout := if job.timeout = 0 then defaultTimeout else job.timeout
  .catching (.seq (.within timeout job.late (queuePerformJob job)) outcome) outcome

end DailyScheduler.Timeouts
