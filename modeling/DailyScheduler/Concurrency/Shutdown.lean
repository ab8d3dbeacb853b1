import DailyScheduler.Lib.Run
import DailyScheduler.Model.Data

set_option autoImplicit false

/-! # Shutting a worker down

The first `SIGINT` or `SIGTERM` runs `request_stop` in the middle of whatever the worker does: if the worker
is not busy an exception ends its loop, otherwise the date of the request is kept in its record, and the loop
looks at it when it comes round. The record is saved and loaded all the time, so the date has to survive that.
The worker is one that performs jobs in its own process, has no scheduler and is not suspended:
`_check_for_suspension` returns at once, and the maintenance concerns neither the state nor the date. What it
stores about a job does not raise, which would end the loop as well. For signals at any moment: a job that was
begun is cut off by a second signal only, no job is taken after the request, and the worker ends, if the
request does not come while the job's record is being read or a save around the job is under way.
-/

namespace DailyScheduler.Shutdown

/-! ## The worker -/

/-- The fields of the record that the shutdown uses. -/
structure Fields where
  state : WorkerStatus
  shutdownRequestedDate : Option Int
  deriving DecidableEq

/-- The worker's object, and which of the fields were set since it was loaded or saved. -/
structure Model extends Fields where
  stateDirty : Bool
  shutdownDirty : Bool
  deriving DecidableEq

/-- What `save` is going to write: `none` for a field that it leaves, and `some none` for a date that it
removes. -/
structure Mapping where
  state : Option WorkerStatus
  shutdownRequestedDate : Option (Option Int)
  deriving DecidableEq

/-- `HashModel.save` serializes all fields first, and looks then which of them are dirty. -/
def Model.mapping (m : Model) (saveAll : Bool) (f : Fields) : Mapping where
  state := if saveAll || m.stateDirty then some f.state else none
  shutdownRequestedDate := if saveAll || m.shutdownDirty then some f.shutdownRequestedDate else none

/-- Its pipeline. -/
def Mapping.store (d : Mapping) (f : Fields) : Fields where
  state := d.state.getD f.state
  shutdownRequestedDate := d.shutdownRequestedDate.getD f.shutdownRequestedDate

/-- What the loop of `work` does, one after the other. A heartbeat is a save of all fields. -/
inductive Call where
  | refresh
  | check
  | setState (s : WorkerStatus)
  | save (saveAll : Bool)
  | dequeue
  | perform
  deriving DecidableEq

/-- Where the loop is: up to `dequeue_any`, and from there through `execute_job` to its end. -/
inductive Point where
  | top | check | setIdle | beforeDequeue | dequeue
  | found | setBusy | beat | afterBeat | perform | store | storeFailed | setIdleAgain
  | refreshAgain | finalBeat | finalSave
  deriving DecidableEq

def Point.call : Point → Call
  | .top => .refresh
  | .check => .check
  | .setIdle => .setState .idle
  | .beforeDequeue => .save true
  | .dequeue => .dequeue
  | .found => .save true
  | .setBusy => .setState .busy
  | .beat => .save true
  | .afterBeat => .save false
  | .perform => .perform
  | .store => .save false
  | .storeFailed => .save false
  | .setIdleAgain => .setState .idle
  | .refreshAgain => .refresh
  | .finalBeat => .save true
  | .finalSave => .save false

/-- The next call, if there is a job and its function returns. -/
def Point.next : Point → Point
  | .top => .check
  | .check => .setIdle
  | .setIdle => .beforeDequeue
  | .beforeDequeue => .dequeue
  | .dequeue => .found
  | .found => .setBusy
  | .setBusy => .beat
  | .beat => .afterBeat
  | .afterBeat => .perform
  | .perform => .store
  | .store => .setIdleAgain
  | .storeFailed => .setIdleAgain
  | .setIdleAgain => .refreshAgain
  | .refreshAgain => .finalBeat
  | .finalBeat => .finalSave
  | .finalSave => .top

/-- The `try` of `worker_perform_job`, whose `except` catches whatever is raised. -/
def Point.guarded : Point → Bool
  | .beat | .afterBeat | .perform | .store => true
  | _ => false

/-- How far a call has come: the record was read but is not yet the worker's object, the attribute was set
but not the field, the fields were serialized, those to write were collected, they were written but the
object still counts as dirty, a job's name was popped but its record is not yet read, the job's function
runs. -/
inductive Pending where
  | loaded (f : Fields)
  | assigned
  | serialized (f : Fields)
  | collected (d : Mapping)
  | written
  | popped
  | performing
  deriving DecidableEq

inductive Status where
  | running | stopped | killed
  deriving DecidableEq

/-- A job is `lost` if `dequeue_any` gets no record for its name, `dropped` if a second signal fails it before
its function is called, and `cut` if it does while the function runs; `requested` tells whether the worker was
busy. -/
inductive Event where
  | taken
  | lost
  | began
  | ended
  | dropped
  | cut
  | requested (busy : Bool)
  deriving DecidableEq

/-- `forced` tells whether the next signal runs `request_force_stop`. -/
structure Process where
  point : Point
  pending : Option Pending
  model : Model
  record : Fields
  forced : Bool
  status : Status
  log : List Event
  deriving DecidableEq

namespace Process

def advance (S : Process) (p : Point) : Process := { S with point := p, pending := none }

def emit (S : Process) (e : Event) : Process := { S with log := S.log ++ [e] }

/-- One step of the main thread; `ok` is whether there is a job in the queues, whether there is a record of it,
and whether its function returns. -/
def go (S : Process) (ok : Bool) : Process :=
  match S.point.call, S.pending with
  | .refresh, none => { S with pending := some (.loaded S.record) }
  | .refresh, some (.loaded f) => { S with model := ⟨f, false, false⟩ }.advance S.point.next
  | .check, _ =>
      if S.model.shutdownRequestedDate.isSome then { S with status := .stopped } else S.advance S.point.next
  | .setState s, none =>
      { S with
        model := { S.model with state := s, stateDirty := true }
        pending := some .assigned }
  | .setState s, some .assigned => { S with record := { S.record with state := s } }.advance S.point.next
  | .save _, none => { S with pending := some (.serialized S.model.toFields) }
  | .save saveAll, some (.serialized f) => { S with pending := some (.collected (S.model.mapping saveAll f)) }
  | .save _, some (.collected d) => { S with record := d.store S.record, pending := some .written }
  | .save _, some .written =>
      { S with model := { S.model with stateDirty := false, shutdownDirty := false } }.advance S.point.next
  | .dequeue, none =>
      -- `DequeueTimeout`: another heartbeat, without a look at the date
      if ok then { S.emit .taken with pending := some .popped } else S.advance .beforeDequeue
  | .dequeue, some .popped =>
      if ok then S.advance S.point.next else { S.emit .lost with pending := none }
  | .perform, none => { S.emit .began with pending := some .performing }
  | .perform, some .performing => (S.emit .ended).advance (if ok then .store else .storeFailed)
  | _, _ => S

/-- `self._model.set_field("shutdown_requested_date", now)`. -/
def requestShutdown (S : Process) (now : Int) : Process :=
  { S with
    model := { S.model with shutdownRequestedDate := some now, shutdownDirty := true }
    record := { S.record with shutdownRequestedDate := some now } }

/-- `request_stop`, which reads the clock twice if the worker is busy. -/
def requestStop (S : Process) (now later : Int) : Process :=
  let S := { S.requestShutdown now with forced := true }
  if S.model.state = .busy then
    (S.requestShutdown later).emit (.requested true)
  else if S.pending = some .popped then
    -- `HashModel.get` catches the exception, and the next job is popped
    { (S.emit (.requested false)).emit .lost with pending := none }
  else { S.emit (.requested false) with status := .stopped }

/-- What becomes of the job when `SystemExit` is caught. -/
def interrupted : Point → Option Pending → List Event
  | .perform, some _ => [.cut]
  | .store, _ => []
  | _, _ => [.dropped]

/-- `SystemExit` in the middle of a step: while the worker performs a job it fails the job and goes on. -/
def systemExit (S : Process) : Process :=
  if S.point.guarded then
    { S with log := S.log ++ interrupted S.point S.pending }.advance .storeFailed
  else { S with status := .killed }

/-- `request_force_stop`: a signal within a second of the request is ignored; times are microseconds. -/
def requestForceStop (S : Process) (now : Int) : Process :=
  match S.model.shutdownRequestedDate with
  | some date => if now - date < 1000000 then S else S.systemExit
  | none => S.systemExit

inductive Label where
  | go (ok : Bool)
  | signal (now later : Int)
  deriving DecidableEq

/-- A step of the worker, or a signal. -/
def step (S : Process) (a : Label) : Process :=
  if S.status = .running then
    match a with
    | .go ok => S.go ok
    | .signal now later => if S.forced then S.requestForceStop now else S.requestStop now later
  else S

/-- A worker that was just started. -/
def start : Process where
  point := .top
  pending := none
  model := ⟨⟨.started, none⟩, false, false⟩
  record := ⟨.started, none⟩
  forced := false
  status := .running
  log := []

end Process

open Process

/-- What a call is about to do to a date that is set now: a save that has serialized the fields and finds the
date dirty then, or has collected that there is none, removes it again. -/
def Pending.keeps : Pending → Prop
  | .serialized _ => False
  | .collected d => d.shutdownRequestedDate ≠ some none
  | _ => True

/-- The request does not come while the record of a job is read, nor, if the worker is busy, while a save would
remove it. -/
def Timely (S : Process) : Label → Prop
  | .go _ => True
  | .signal _ _ => S.forced = false →
      S.pending ≠ some .popped ∧ (S.model.state = .busy → ∀ x, S.pending = some x → x.keeps)

/-- Further signals come within a second of the request, as from a pool and the terminal. -/
def Duplicate (S : Process) : Label → Prop
  | .go _ => True
  | .signal now _ => S.forced = true → ∀ date, S.model.shutdownRequestedDate = some date → now - date < 1000000

/-! ## Where the worker is -/

namespace Point

/-- The worker's object says that it is busy. -/
def busyAt : Point → Option Pending → Bool
  | .setBusy, x => x.isSome
  | .beat, _ | .afterBeat, _ | .perform, _ | .store, _ | .storeFailed, _ => true
  | .setIdleAgain, x => x.isNone
  | _, _ => false

/-- Its record may say so. -/
def recordBusy : Point → Bool
  | .beat | .afterBeat | .perform | .store | .storeFailed | .setIdleAgain => true
  | _ => false

/-- The loop comes to its check before it takes another job. -/
def late : Point → Option Pending → Bool
  | .setBusy, x => x.isSome
  | .setIdle, _ | .beforeDequeue, _ | .dequeue, _ | .found, _ => false
  | _, _ => true

/-- A job was taken, it is not lost and its function was not called. -/
def unbegun : Point → Option Pending → Bool
  | .dequeue, x => x.isSome
  | .found, _ | .setBusy, _ | .beat, _ | .afterBeat, _ => true
  | .perform, x => x.isNone
  | _, _ => false

/-- How many calls are left up to the check. -/
def left : Point → Nat
  | .check => 1
  | .top => 2
  | .finalSave => 3
  | .finalBeat => 4
  | .refreshAgain => 5
  | .setIdleAgain => 6
  | .storeFailed => 7
  | .store => 8
  | .perform => 9
  | .afterBeat => 10
  | .beat => 11
  | _ => 12

variable {p : Point} {s : WorkerStatus} {b : Bool}

theorem busyAt_refresh (h : p.call = .refresh) (x : Option Pending) : p.busyAt x = false ∧
    p.recordBusy = false ∧ p.next.busyAt none = false ∧ p.next.recordBusy = false := by
  cases p <;> cases h <;> simp [busyAt, recordBusy, Point.next]

theorem busyAt_check (h : p.call = .check) (x : Option Pending) : p.busyAt x = false ∧
    p.recordBusy = false ∧ p.next.busyAt none = false := by
  cases p <;> cases h
  exact ⟨rfl, rfl, rfl⟩

theorem busyAt_setState (h : p.call = .setState s) (x : Pending) : p.busyAt (some x) = decide (s = .busy) ∧
    p.next.busyAt none = decide (s = .busy) ∧ p.next.recordBusy = decide (s = .busy) := by
  cases p <;> cases h <;> simp [busyAt, recordBusy, Point.next]

/-- A save finds the record as busy as the object, and leaves it so. -/
theorem busyAt_save (h : p.call = .save b) (x : Option Pending) : p.busyAt x = p.recordBusy ∧
    p.next.busyAt none = p.recordBusy ∧ p.next.recordBusy = p.recordBusy := by
  cases p <;> cases h <;> simp [busyAt, recordBusy, Point.next]

theorem eq_dequeue (h : p.call = .dequeue) : p = .dequeue := by
  cases p <;> cases h
  rfl

theorem eq_perform (h : p.call = .perform) : p = .perform := by
  cases p <;> cases h
  rfl

theorem busyAt_guarded (h : p.guarded = true) (x : Option Pending) : p.busyAt x = true := by
  cases p <;> first | rfl | contradiction

end Point

/-! ## What a step does -/

def Pending.fits : Pending → Call → Bool
  | .loaded _, .refresh | .assigned, .setState _ | .serialized _, .save _ | .collected _, .save _
  | .written, .save _ | .popped, .dequeue | .performing, .perform => true
  | _, _ => false

inductive Moved (S : Process) : Process → Prop
  | read (hcall : S.point.call = .refresh) (hpending : S.pending = none) :
      Moved S { S with pending := some (.loaded S.record) }
  | refreshed (f : Fields) (hcall : S.point.call = .refresh) (hpending : S.pending = some (.loaded f)) :
      Moved S ({ S with model := ⟨f, false, false⟩ }.advance S.point.next)
  | quit (hcall : S.point.call = .check) (hdate : S.model.shutdownRequestedDate.isSome) :
      Moved S { S with status := .stopped }
  | checked (hcall : S.point.call = .check) (hdate : S.model.shutdownRequestedDate = none) :
      Moved S (S.advance S.point.next)
  | assigned (s : WorkerStatus) (hcall : S.point.call = .setState s) (hpending : S.pending = none) :
      Moved S { S with
        model := { S.model with state := s, stateDirty := true }
        pending := some .assigned }
  | set (s : WorkerStatus) (hcall : S.point.call = .setState s) (hpending : S.pending = some .assigned) :
      Moved S ({ S with record := { S.record with state := s } }.advance S.point.next)
  | serialized (b : Bool) (hcall : S.point.call = .save b) (hpending : S.pending = none) :
      Moved S { S with pending := some (.serialized S.model.toFields) }
  | collected (b : Bool) (f : Fields) (hcall : S.point.call = .save b)
      (hpending : S.pending = some (.serialized f)) :
      Moved S { S with pending := some (.collected (S.model.mapping b f)) }
  | written (b : Bool) (d : Mapping) (hcall : S.point.call = .save b)
      (hpending : S.pending = some (.collected d)) :
      Moved S { S with record := d.store S.record, pending := some .written }
  | saved (b : Bool) (hcall : S.point.call = .save b) (hpending : S.pending = some .written) :
      Moved S ({ S with model := { S.model with stateDirty := false, shutdownDirty := false } }.advance
        S.point.next)
  | taken (hpoint : S.point = .dequeue) (hpending : S.pending = none) :
      Moved S { S.emit .taken with pending := some .popped }
  | missed (hpoint : S.point = .dequeue) (hpending : S.pending = none) : Moved S (S.advance .beforeDequeue)
  | got (hpoint : S.point = .dequeue) (hpending : S.pending = some .popped) : Moved S (S.advance S.point.next)
  | lost (hpoint : S.point = .dequeue) (hpending : S.pending = some .popped) :
      Moved S { S.emit .lost with pending := none }
  | began (hpoint : S.point = .perform) (hpending : S.pending = none) :
      Moved S { S.emit .began with pending := some .performing }
  | ended (p : Point) (hpoint : S.point = .perform) (hpending : S.pending = some .performing)
      (hp : p = .store ∨ p = .storeFailed) : Moved S ((S.emit .ended).advance p)

section Invariants

variable {S S' : Process}

theorem moved_of_fits (hfits : ∀ x, S.pending = some x → x.fits S.point.call = true) (ok : Bool) :
    Moved S (S.go ok) := by
  unfold Process.go
  split
  · exact .read ‹_› ‹_›
  · exact .refreshed _ ‹_› ‹_›
  · split
    · exact .quit ‹_› ‹_›
    · exact .checked ‹_› (Option.not_isSome_iff_eq_none.1 ‹_›)
  · exact .assigned _ ‹_› ‹_›
  · exact .set _ ‹_› ‹_›
  · exact .serialized _ ‹_› ‹_›
  · exact .collected _ _ ‹_› ‹_›
  · exact .written _ _ ‹_› ‹_›
  · exact .saved _ ‹_› ‹_›
  · split
    · exact .taken (Point.eq_dequeue ‹_›) ‹_›
    · exact .missed (Point.eq_dequeue ‹_›) ‹_›
  · split
    · exact .got (Point.eq_dequeue ‹_›) ‹_›
    · exact .lost (Point.eq_dequeue ‹_›) ‹_›
  · exact .began (Point.eq_perform ‹_›) ‹_›
  · refine .ended _ (Point.eq_perform ‹_›) ‹_› ?_
    cases ok with
    | true => exact .inl rfl
    | false => exact .inr rfl
  · -- nothing else can be pending
    exfalso
    cases hpending : S.pending with
    | none => cases hcall : S.point.call <;> simp_all
    | some x =>
        have hx := hfits x hpending
        cases x <;> cases hcall : S.point.call <;> simp_all [Pending.fits]

/-! ## The worker knows when it is busy -/

/-- What holds of the one that is pending. -/
theorem forall_some {P : Pending → Prop} {x : Pending} (h : P x) : ∀ y, some x = some y → P y := by
  intro y hy
  cases hy
  exact h

theorem fits_pending {x : Pending} {c : Call} (hcall : S.point.call = c) (hx : x.fits c = true) :
    ∀ y, some x = some y → y.fits S.point.call = true := by
  apply forall_some
  rw [hcall]
  exact hx

structure Sound (S : Process) : Prop where
  fits : ∀ x, S.pending = some x → x.fits S.point.call = true
  busy : S.model.state = .busy ↔ S.point.busyAt S.pending = true
  record : S.record.state = .busy → S.point.recordBusy = true
  loaded : ∀ f, S.pending = some (.loaded f) → f.state ≠ .busy
  serialized : ∀ f, S.pending = some (.serialized f) → f.state = S.model.state
  collected : ∀ d, S.pending = some (.collected d) → ∀ s, d.state = some s → s = S.model.state

theorem sound_advance {p : Point} (hbusy : S.model.state = .busy ↔ p.busyAt none = true)
    (hrecord : S.record.state = .busy → p.recordBusy = true) : Sound (S.advance p) :=
  ⟨nofun, hbusy, hrecord, nofun, nofun, nofun⟩

/-- The state that a save writes is the object's. -/
theorem state_store (h : Sound S) {d : Mapping} (hpending : S.pending = some (.collected d))
    (hbusy : (d.store S.record).state = .busy) : S.record.state = .busy ∨ S.model.state = .busy := by
  unfold Mapping.store at hbusy
  cases hd : d.state with
  | none =>
      rw [hd] at hbusy
      exact .inl hbusy
  | some s =>
      rw [hd] at hbusy
      rw [← h.collected d hpending s hd]
      exact .inr hbusy

theorem idle_dequeue (h : Sound S) (hpoint : S.point = .dequeue) :
    S.model.state ≠ .busy ∧ S.record.state ≠ .busy := by
  constructor
  · rw [Ne, h.busy, hpoint]
    exact Bool.false_ne_true
  · intro heq
    have hrecord := h.record heq
    rw [hpoint] at hrecord
    cases hrecord

theorem Sound.moved (h : Sound S) (hmoved : Moved S S') : Sound S' := by
  cases hmoved with
  | read hcall hpending =>
      -- the record is read where it says that the worker is not busy
      obtain ⟨-, hrecord, -, -⟩ := Point.busyAt_refresh hcall S.pending
      have hidle : S.record.state ≠ .busy := by
        intro heq
        rw [h.record heq] at hrecord
        cases hrecord
      refine ⟨?_, ?_, h.record, ?_, nofun, nofun⟩
      · exact fits_pending hcall rfl
      · show S.model.state = .busy ↔ S.point.busyAt _ = true
        rw [h.busy, (Point.busyAt_refresh hcall _).1, (Point.busyAt_refresh hcall _).1]
      · intro f hf
        cases hf
        exact hidle
  | refreshed f hcall hpending =>
      obtain ⟨-, hrecord, hbusy, -⟩ := Point.busyAt_refresh hcall none
      apply sound_advance
      · rw [hbusy]
        exact iff_of_false (h.loaded f hpending) Bool.false_ne_true
      · intro heq
        rw [h.record heq] at hrecord
        cases hrecord
  | quit hcall hdate => exact ⟨h.fits, h.busy, h.record, h.loaded, h.serialized, h.collected⟩
  | checked hcall hdate =>
      obtain ⟨hbusy, hrecord, hnext⟩ := Point.busyAt_check hcall S.pending
      apply sound_advance
      · rw [h.busy, hbusy, hnext]
      · intro heq
        rw [h.record heq] at hrecord
        cases hrecord
  | assigned s hcall hpending =>
      refine ⟨?_, ?_, h.record, nofun, nofun, nofun⟩
      · exact fits_pending hcall rfl
      · show s = .busy ↔ _
        rw [(Point.busyAt_setState hcall _).1, decide_eq_true_eq]
  | set s hcall hpending =>
      obtain ⟨hbusy, hnext, hrecord⟩ := Point.busyAt_setState hcall .assigned
      apply sound_advance
      · show S.model.state = .busy ↔ _
        rw [h.busy, hpending, hbusy, hnext]
      · intro heq
        rw [hrecord]
        exact decide_eq_true heq
  | serialized b hcall hpending =>
      refine ⟨?_, ?_, h.record, nofun, ?_, nofun⟩
      · exact fits_pending hcall rfl
      · show S.model.state = .busy ↔ S.point.busyAt _ = true
        rw [h.busy, (Point.busyAt_save hcall _).1, (Point.busyAt_save hcall _).1]
      · intro f hf
        cases hf
        rfl
  | collected b f hcall hpending =>
      refine ⟨?_, ?_, h.record, nofun, nofun, ?_⟩
      · exact fits_pending hcall rfl
      · show S.model.state = .busy ↔ S.point.busyAt _ = true
        rw [h.busy, (Point.busyAt_save hcall _).1, (Point.busyAt_save hcall _).1]
      · intro d hd s hs
        cases hd
        simp only [Model.mapping, Option.ite_none_right_eq_some, Option.some.injEq] at hs
        rw [← hs.2]
        exact h.serialized f hpending
  | written b d hcall hpending =>
      obtain ⟨hbusy, -, -⟩ := Point.busyAt_save hcall S.pending
      refine ⟨?_, ?_, ?_, nofun, nofun, nofun⟩
      · exact fits_pending hcall rfl
      · show S.model.state = .busy ↔ S.point.busyAt _ = true
        rw [h.busy, hbusy, (Point.busyAt_save hcall _).1]
      · intro heq
        rcases state_store h hpending heq with hrecord | hmodel
        · exact h.record hrecord
        · rw [← hbusy]
          exact h.busy.1 hmodel
  | saved b hcall hpending =>
      obtain ⟨hbusy, hnext, hrecord⟩ := Point.busyAt_save hcall S.pending
      apply sound_advance
      · show S.model.state = .busy ↔ _
        rw [h.busy, hbusy, hnext]
      · intro heq
        rw [hrecord]
        exact h.record heq
  | taken hpoint hpending =>
      refine ⟨?_, iff_of_false (idle_dequeue h hpoint).1 ?_, h.record, nofun, nofun, nofun⟩
      · exact fits_pending (congrArg Point.call hpoint) rfl
      · show S.point.busyAt _ ≠ true
        rw [hpoint]
        exact Bool.false_ne_true
  | missed hpoint hpending =>
      obtain ⟨hbusy, hrecord⟩ := idle_dequeue h hpoint
      exact sound_advance (iff_of_false hbusy Bool.false_ne_true) fun heq => absurd heq hrecord
  | got hpoint hpending =>
      obtain ⟨hbusy, hrecord⟩ := idle_dequeue h hpoint
      rw [hpoint]
      exact sound_advance (iff_of_false hbusy Bool.false_ne_true) fun heq => absurd heq hrecord
  | lost hpoint hpending =>
      refine ⟨nofun, iff_of_false (idle_dequeue h hpoint).1 ?_, h.record, nofun, nofun, nofun⟩
      show S.point.busyAt none ≠ true
      rw [hpoint]
      exact Bool.false_ne_true
  | began hpoint hpending =>
      refine ⟨?_, ?_, h.record, nofun, nofun, nofun⟩
      · exact fits_pending (congrArg Point.call hpoint) rfl
      · show S.model.state = .busy ↔ S.point.busyAt (some .performing) = true
        rw [h.busy, hpoint]
        rfl
  | ended p hpoint hpending hp =>
      have hbusy : S.model.state = .busy := by
        rw [h.busy, hpoint]
        rfl
      rcases hp with rfl | rfl
      · exact sound_advance (iff_of_true hbusy rfl) fun _ => rfl
      · exact sound_advance (iff_of_true hbusy rfl) fun _ => rfl

theorem requestStop_busy (hbusy : S.model.state = .busy) (now later : Int) : S.requestStop now later =
    { S.requestShutdown later with forced := true, log := S.log ++ [.requested true] } :=
  if_pos hbusy

theorem requestStop_idle (hbusy : S.model.state ≠ .busy) (hpending : S.pending ≠ some .popped)
    (now later : Int) : S.requestStop now later =
      { S.requestShutdown now with forced := true, status := .stopped, log := S.log ++ [.requested false] } :=
  (if_neg hbusy).trans (if_neg hpending)

theorem requestStop_popped (hbusy : S.model.state ≠ .busy) (hpending : S.pending = some .popped)
    (now later : Int) : S.requestStop now later =
      { S.requestShutdown now with
        forced := true
        pending := none
        log := S.log ++ [.requested false] ++ [.lost] } :=
  (if_neg hbusy).trans (if_pos hpending)

theorem point_popped (h : Sound S) (hpending : S.pending = some .popped) : S.point = .dequeue := by
  have hfits := h.fits _ hpending
  apply Point.eq_dequeue
  revert hfits
  cases S.point.call <;> first | exact fun _ => rfl | exact nofun

theorem Sound.requestStop (h : Sound S) (now later : Int) : Sound (S.requestStop now later) := by
  by_cases hbusy : S.model.state = .busy
  · rw [requestStop_busy hbusy]
    exact ⟨h.fits, h.busy, h.record, h.loaded, h.serialized, h.collected⟩
  · by_cases hpending : S.pending = some .popped
    · rw [requestStop_popped hbusy hpending]
      refine ⟨nofun, iff_of_false hbusy ?_, h.record, nofun, nofun, nofun⟩
      show S.point.busyAt none ≠ true
      rw [point_popped h hpending]
      exact Bool.false_ne_true
    · rw [requestStop_idle hbusy hpending]
      exact ⟨h.fits, h.busy, h.record, h.loaded, h.serialized, h.collected⟩

theorem Sound.systemExit (h : Sound S) : Sound S.systemExit := by
  unfold Process.systemExit
  split
  · rename_i hguarded
    have hbusy : S.model.state = .busy := by
      rw [h.busy]
      exact Point.busyAt_guarded hguarded _
    exact sound_advance (iff_of_true hbusy rfl) fun _ => rfl
  · exact ⟨h.fits, h.busy, h.record, h.loaded, h.serialized, h.collected⟩

/-- What a property has to survive to survive a step. -/
theorem step_of {P : Process → Prop} (hsound : Sound S) (a : Label) (hP : P S)
    (hmoved : S.status = .running → ∀ S', Moved S S' → P S')
    (hstop : S.status = .running → S.forced = false → ∀ now later, a = .signal now later →
      P (S.requestStop now later))
    (hexit : S.status = .running → S.forced = true → ∀ now later, a = .signal now later →
      (∀ date, S.model.shutdownRequestedDate = some date → ¬now - date < 1000000) → P S.systemExit) :
    P (S.step a) := by
  unfold Process.step
  split
  · rename_i hrunning
    cases a with
    | go ok => exact hmoved hrunning _ (moved_of_fits hsound.fits ok)
    | signal now later =>
        dsimp only
        split
        · rename_i hforced
          unfold requestForceStop
          cases hdate : S.model.shutdownRequestedDate with
          | none =>
              refine hexit hrunning hforced now later rfl ?_
              rw [hdate]
              exact nofun
          | some date =>
              dsimp only
              split
              · exact hP
              · rename_i hlate
                refine hexit hrunning hforced now later rfl ?_
                intro date' hdate'
                cases hdate.symm.trans hdate'
                exact hlate
        · rename_i hforced
          exact hstop hrunning (Bool.eq_false_iff.2 hforced) now later rfl
  · exact hP

theorem Sound.step (h : Sound S) (a : Label) : Sound (S.step a) :=
  step_of h a h (fun _ _ hmoved => h.moved hmoved) (fun _ _ now later _ => h.requestStop now later)
    fun _ _ _ _ _ _ => h.systemExit

/-- The job's function runs. -/
def performs : Option Pending → Bool
  | some .performing => true
  | _ => false

/-- The step says nothing of a job. -/
structure Silent (S S' : Process) : Prop where
  log : S'.log = S.log
  unbegun : S'.point.unbegun S'.pending = S.point.unbegun S.pending
  performing : performs S'.pending = performs S.pending
  halted : S'.status ≠ .running → performs S.pending = false

theorem unbegun_pending {p : Point} (h : p ≠ .perform) (h' : p ≠ .dequeue) (x y : Option Pending) :
    p.unbegun x = p.unbegun y := by
  cases p <;> first | rfl | contradiction

theorem unbegun_next {p : Point} (h : p ≠ .perform) (h' : p ≠ .dequeue) (x : Option Pending) :
    p.next.unbegun none = p.unbegun x := by
  cases p <;> first | rfl | contradiction

theorem performs_eq_false (h : Sound S) {c : Call} (hcall : S.point.call = c) (hperform : c ≠ .perform) :
    performs S.pending = false := by
  cases hpending : S.pending with
  | none => rfl
  | some x =>
      have hfits := h.fits x hpending
      rw [hcall] at hfits
      cases x with
      | performing => cases c <;> contradiction
      | _ => rfl

/-- A call that has nothing to do with a job is over. -/
theorem silent_next (h : Sound S) {c : Call} (hcall : S.point.call = c) (hperform : c ≠ .perform)
    (hdequeue : c ≠ .dequeue) (hlog : S'.log = S.log) (hstatus : S'.status = S.status)
    (hrunning : S.status = .running) (hpoint : S'.point = S.point.next) (hpending : S'.pending = none) :
    Silent S S' where
  log := hlog
  unbegun := by
    rw [hpoint, hpending]
    apply unbegun_next
    · intro heq
      rw [heq] at hcall
      exact hperform hcall.symm
    · intro heq
      rw [heq] at hcall
      exact hdequeue hcall.symm
  performing := by
    rw [hpending, performs_eq_false h hcall hperform]
    rfl
  halted := fun hhalted => absurd (hstatus.trans hrunning) hhalted

/-- It is not over yet. -/
theorem silent_pending (h : Sound S) {c : Call} (hcall : S.point.call = c) (hperform : c ≠ .perform)
    (hdequeue : c ≠ .dequeue) {x : Pending} (hx : performs (some x) = false) (hlog : S'.log = S.log)
    (hstatus : S'.status = S.status) (hrunning : S.status = .running) (hpoint : S'.point = S.point)
    (hpending : S'.pending = some x) : Silent S S' where
  log := hlog
  unbegun := by
    rw [hpoint]
    apply unbegun_pending
    · intro heq
      rw [heq] at hcall
      exact hperform hcall.symm
    · intro heq
      rw [heq] at hcall
      exact hdequeue hcall.symm
  performing := by
    rw [hpending, hx, performs_eq_false h hcall hperform]
  halted := fun hhalted => absurd (hstatus.trans hrunning) hhalted

/-- What a step writes into the log. -/
theorem log_moved (h : Sound S) (hrunning : S.status = .running) (hmoved : Moved S S') :
    Silent S S' ∨
    (S.point = .dequeue ∧ S.pending = none ∧ S' = { S.emit .taken with pending := some .popped }) ∨
    (S.point = .dequeue ∧ S.pending = some .popped ∧ S' = { S.emit .lost with pending := none }) ∨
    (S.point = .perform ∧ S.pending = none ∧ S' = { S.emit .began with pending := some .performing }) ∨
    S.point = .perform ∧ S.pending = some .performing ∧
      ∃ p, (p = .store ∨ p = .storeFailed) ∧ S' = (S.emit .ended).advance p := by
  cases hmoved with
  | read hcall hpending => exact .inl (silent_pending h hcall nofun nofun rfl rfl rfl hrunning rfl rfl)
  | refreshed f hcall hpending => exact .inl (silent_next h hcall nofun nofun rfl rfl hrunning rfl rfl)
  | quit hcall hdate => exact .inl ⟨rfl, rfl, rfl, fun _ => performs_eq_false h hcall nofun⟩
  | checked hcall hdate => exact .inl (silent_next h hcall nofun nofun rfl rfl hrunning rfl rfl)
  | assigned s hcall hpending => exact .inl (silent_pending h hcall nofun nofun rfl rfl rfl hrunning rfl rfl)
  | set s hcall hpending => exact .inl (silent_next h hcall nofun nofun rfl rfl hrunning rfl rfl)
  | serialized b hcall hpending => exact .inl (silent_pending h hcall nofun nofun rfl rfl rfl hrunning rfl rfl)
  | collected b f hcall hpending =>
      exact .inl (silent_pending h hcall nofun nofun rfl rfl rfl hrunning rfl rfl)
  | written b d hcall hpending => exact .inl (silent_pending h hcall nofun nofun rfl rfl rfl hrunning rfl rfl)
  | saved b hcall hpending => exact .inl (silent_next h hcall nofun nofun rfl rfl hrunning rfl rfl)
  | taken hpoint hpending => exact .inr (.inl ⟨hpoint, hpending, rfl⟩)
  | missed hpoint hpending | got hpoint hpending =>
      refine .inl ⟨rfl, ?_, ?_, fun hover => absurd hrunning hover⟩
      · rw [hpoint, hpending]
        rfl
      · rw [hpending]
        rfl
  | lost hpoint hpending => exact .inr (.inr (.inl ⟨hpoint, hpending, rfl⟩))
  | began hpoint hpending => exact .inr (.inr (.inr (.inl ⟨hpoint, hpending, rfl⟩)))
  | ended p hpoint hpending hp => exact .inr (.inr (.inr (.inr ⟨hpoint, hpending, p, hp, rfl⟩)))

/-- The jobs taken, and the calls of their functions. -/
structure Counted (S : Process) : Prop where
  jobs : S.log.count .taken =
    S.log.count .lost + S.log.count .began + S.log.count .dropped + (S.point.unbegun S.pending).toNat
  calls : S.log.count .began = S.log.count .ended + S.log.count .cut + (performs S.pending).toNat
  halted : S.status ≠ .running → performs S.pending = false

theorem Counted.moved (h : Counted S) (hsound : Sound S) (hrunning : S.status = .running)
    (hmoved : Moved S S') : Counted S' := by
  have hjobs := h.jobs
  have hcalls := h.calls
  obtain hsilent | ⟨hpoint, hpending, rfl⟩ | ⟨hpoint, hpending, rfl⟩ | ⟨hpoint, hpending, rfl⟩ |
    ⟨hpoint, hpending, p, hp, rfl⟩ := log_moved hsound hrunning hmoved
  · refine ⟨?_, ?_, ?_⟩
    · rw [hsilent.log, hsilent.unbegun]
      exact hjobs
    · rw [hsilent.log, hsilent.performing]
      exact hcalls
    · intro hover
      rw [hsilent.performing]
      exact hsilent.halted hover
  · -- one more job, whose function was not called
    rw [hpoint, hpending] at hjobs
    rw [hpending] at hcalls
    refine ⟨?_, ?_, fun hover => absurd hrunning hover⟩
    · simpa [Process.emit, Point.unbegun, hpoint] using hjobs
    · simpa [Process.emit, performs] using hcalls
  · -- there is no record of it
    rw [hpoint, hpending] at hjobs
    rw [hpending] at hcalls
    refine ⟨?_, ?_, fun hover => absurd hrunning hover⟩
    · simp [Process.emit, Point.unbegun, hpoint] at hjobs ⊢
      omega
    · simpa [Process.emit, performs] using hcalls
  · rw [hpoint, hpending] at hjobs
    rw [hpending] at hcalls
    refine ⟨?_, ?_, fun hover => absurd hrunning hover⟩
    · simp [Process.emit, Point.unbegun, hpoint] at hjobs ⊢
      omega
    · simpa [Process.emit, performs] using hcalls
  · rw [hpoint, hpending] at hjobs
    rw [hpending] at hcalls
    have hunbegun : p.unbegun none = false := by
      rcases hp with rfl | rfl
      · rfl
      · rfl
    refine ⟨?_, ?_, fun hover => absurd hrunning hover⟩
    · show List.count _ (S.log ++ _) = List.count _ (S.log ++ _) + List.count _ (S.log ++ _) +
        List.count _ (S.log ++ _) + (p.unbegun none).toNat
      rw [hunbegun]
      simpa [Point.unbegun] using hjobs
    · simp [Process.advance, Process.emit, performs] at hcalls ⊢
      omega

theorem not_busy (h : Sound S) (hbusy : S.model.state ≠ .busy) : performs S.pending = false := by
  apply performs_eq_false h rfl
  intro hcall
  apply hbusy
  rw [h.busy, Point.eq_perform hcall]
  rfl

theorem Counted.requestStop (h : Counted S) (hsound : Sound S) (now later : Int) :
    Counted (S.requestStop now later) := by
  by_cases hbusy : S.model.state = .busy
  · rw [requestStop_busy hbusy]
    refine ⟨?_, ?_, h.halted⟩
    · simpa [requestShutdown] using h.jobs
    · simpa [requestShutdown] using h.calls
  · by_cases hpending : S.pending = some .popped
    · have hjobs := h.jobs
      have hcalls := h.calls
      have hpoint := point_popped hsound hpending
      rw [hpoint, hpending] at hjobs
      rw [hpending] at hcalls
      rw [requestStop_popped hbusy hpending]
      refine ⟨?_, ?_, fun _ => rfl⟩
      · simp [requestShutdown, Point.unbegun, hpoint] at hjobs ⊢
        omega
      · simpa [requestShutdown, performs] using hcalls
    · have hperforms := not_busy hsound hbusy
      rw [requestStop_idle hbusy hpending]
      refine ⟨?_, ?_, fun _ => hperforms⟩
      · simpa [requestShutdown] using h.jobs
      · simpa [requestShutdown] using h.calls

theorem Counted.systemExit (h : Counted S) (hsound : Sound S) : Counted S.systemExit := by
  have hjobs := h.jobs
  have hcalls := h.calls
  unfold Process.systemExit
  split
  · rename_i hguarded
    refine ⟨?_, ?_, fun _ => rfl⟩
    · show List.count _ (S.log ++ _) = List.count _ (S.log ++ _) + List.count _ (S.log ++ _) +
        List.count _ (S.log ++ _) + 0
      cases hpoint : S.point <;> rw [hpoint] at hguarded hjobs
      case beat | afterBeat =>
        simp [interrupted, Point.unbegun] at hjobs ⊢
        omega
      case perform =>
        cases hpending : S.pending with
        | none =>
            rw [hpending] at hjobs
            simp [interrupted, Point.unbegun] at hjobs ⊢
            omega
        | some x =>
            rw [hpending] at hjobs
            simpa [interrupted, Point.unbegun] using hjobs
      case store => simpa [interrupted, Point.unbegun] using hjobs
      all_goals contradiction
    · show List.count _ (S.log ++ _) = List.count _ (S.log ++ _) + List.count _ (S.log ++ _) + 0
      by_cases hpoint : S.point = .perform
      · cases hpending : S.pending with
        | none =>
            rw [hpending] at hcalls
            simpa [interrupted, performs, hpoint] using hcalls
        | some x =>
            have hfits := hsound.fits x hpending
            rw [hpoint] at hfits
            cases x <;> try contradiction
            rw [hpending] at hcalls
            simp [interrupted, performs, hpoint] at hcalls ⊢
            omega
      · have hpending : performs S.pending = false := by
          apply performs_eq_false hsound rfl
          intro hcall
          exact hpoint (Point.eq_perform hcall)
        rw [hpending] at hcalls
        cases heq : S.point <;> simp [interrupted] <;> simp_all
  · rename_i hguarded
    refine ⟨hjobs, hcalls, fun _ => ?_⟩
    apply performs_eq_false hsound rfl
    intro hcall
    rw [Point.eq_perform hcall] at hguarded
    exact hguarded rfl

theorem Counted.step (h : Counted S) (hsound : Sound S) (a : Label) : Counted (S.step a) :=
  step_of hsound a h (fun hrunning _ hmoved => h.moved hsound hrunning hmoved)
    (fun _ _ now later _ => h.requestStop hsound now later) fun _ _ _ _ _ _ => h.systemExit hsound

def Event.isRequest : Event → Bool
  | .requested _ => true
  | _ => false

theorem moved_frame (hmoved : Moved S S') :
    S'.forced = S.forced ∧ (S'.status = S.status ∨ S'.status = .stopped ∧ S'.point = .check) ∧
      (S'.log = S.log ∨ S.point = .dequeue ∧ S'.log = S.log ++ [.taken] ∨ S'.log = S.log ++ [.began] ∨
        S'.log = S.log ++ [.lost] ∨ S'.log = S.log ++ [.ended]) := by
  cases hmoved with
  | quit hcall hdate =>
      refine ⟨rfl, .inr ⟨rfl, ?_⟩, .inl rfl⟩
      show S.point = .check
      cases hpoint : S.point <;> rw [hpoint] at hcall <;> first | rfl | cases hcall
  | taken hpoint => exact ⟨rfl, .inl rfl, .inr (.inl ⟨hpoint, rfl⟩)⟩
  | began => exact ⟨rfl, .inl rfl, .inr (.inr (.inl rfl))⟩
  | lost => exact ⟨rfl, .inl rfl, .inr (.inr (.inr (.inl rfl)))⟩
  | ended => exact ⟨rfl, .inl rfl, .inr (.inr (.inr (.inr rfl)))⟩
  | _ => exact ⟨rfl, .inl rfl, .inl rfl⟩

/-- The first signal writes the request, and after a request to a busy worker the loop ends at its check. -/
structure Noted (S : Process) : Prop where
  forced : ∀ e ∈ S.log, e.isRequest = true → S.forced = true
  halted : .requested true ∈ S.log → S.status = .stopped → S.point = .check

theorem request_moved (hmoved : Moved S S') {e : Event} (he : e ∈ S'.log) (hrequest : e.isRequest = true) :
    e ∈ S.log := by
  obtain ⟨-, -, hlog | ⟨-, hlog⟩ | hlog | hlog | hlog⟩ := moved_frame hmoved
  · rwa [hlog] at he
  all_goals
    rw [hlog, List.mem_append, List.mem_singleton] at he
    rcases he with he | rfl
    · exact he
    · cases hrequest

theorem Noted.moved (h : Noted S) (hrunning : S.status = .running) (hmoved : Moved S S') : Noted S' := by
  obtain ⟨hforced, hstatus, -⟩ := moved_frame hmoved
  constructor
  · intro e he hrequest
    rw [hforced]
    exact h.forced e (request_moved hmoved he hrequest) hrequest
  · intro _ hover
    rcases hstatus with hstatus | ⟨-, hpoint⟩
    · rw [hstatus, hrunning] at hover
      cases hover
    · exact hpoint

theorem Noted.requestStop (h : Noted S) (hrunning : S.status = .running) (hforced : S.forced = false)
    (now later : Int) : Noted (S.requestStop now later) := by
  by_cases hbusy : S.model.state = .busy
  · rw [requestStop_busy hbusy]
    refine ⟨fun _ _ _ => rfl, fun _ hover => ?_⟩
    cases hrunning.symm.trans hover
  · by_cases hpending : S.pending = some .popped
    · rw [requestStop_popped hbusy hpending]
      refine ⟨fun _ _ _ => rfl, fun _ hover => ?_⟩
      cases hrunning.symm.trans hover
    · rw [requestStop_idle hbusy hpending]
      refine ⟨fun _ _ _ => rfl, fun hmem _ => ?_⟩
      rcases List.mem_append.1 hmem with hmem | hmem
      · rw [h.forced _ hmem rfl] at hforced
        cases hforced
      · cases List.mem_singleton.1 hmem

theorem mem_interrupted {p : Point} {x : Option Pending} {e : Event} (he : e ∈ interrupted p x) :
    e = .cut ∨ e = .dropped := by
  unfold interrupted at he
  split at he
  · exact .inl (List.mem_singleton.1 he)
  · cases he
  · exact .inr (List.mem_singleton.1 he)

theorem Noted.systemExit (h : Noted S) (hrunning : S.status = .running) : Noted S.systemExit := by
  unfold Process.systemExit
  split
  · refine ⟨fun e he hrequest => ?_, fun _ hover => ?_⟩
    · rcases List.mem_append.1 he with he | he
      · exact h.forced e he hrequest
      · rcases mem_interrupted he with rfl | rfl
        · cases hrequest
        · cases hrequest
    · cases hrunning.symm.trans hover
  · exact ⟨h.forced, fun _ hover => by cases hover⟩

theorem Noted.step (h : Noted S) (hsound : Sound S) (a : Label) : Noted (S.step a) :=
  step_of hsound a h (fun hrunning _ hmoved => h.moved hrunning hmoved)
    (fun hrunning hforced now later _ => h.requestStop hrunning hforced now later)
    fun hrunning _ _ _ _ _ => h.systemExit hrunning

/-- The call does not lose the date. -/
def Pending.dated : Pending → Prop
  | .loaded f | .serialized f => f.shutdownRequestedDate.isSome
  | .collected d => d.shutdownRequestedDate ≠ some none
  | _ => True

structure Kept (S : Process) : Prop where
  object : S.model.shutdownRequestedDate.isSome
  record : S.record.shutdownRequestedDate.isSome
  pending : ∀ x, S.pending = some x → x.dated
  late : S.point.late S.pending = true

/-- The steps of the main thread that are left up to the check. -/
def Process.remaining (S : Process) : Nat :=
  4 * S.point.left - match S.pending with
    | none => 0
    | some (.collected _) => 2
    | some .written => 3
    | some _ => 1

theorem left_pos (p : Point) : 0 < p.left := by
  cases p <;> decide

theorem left_guarded {p : Point} (h : p.guarded = true) : 8 ≤ p.left := by
  cases p <;> first | decide | contradiction

theorem late_next {p : Point} {x : Option Pending} (h : p.late x = true) {c : Call} (hcall : p.call = c)
    (hcheck : c ≠ .check) : p.next.late none = true ∧ p.next.left < p.left := by
  cases p <;> first | exact ⟨rfl, by decide⟩ | contradiction | exact absurd hcall.symm hcheck

theorem late_some {p : Point} {x : Option Pending} (h : p.late x = true) (y : Pending) :
    p.late (some y) = true := by
  cases p <;> first | rfl | exact h

theorem remaining_advance {p : Point} (hnext : p.left < S.point.left) : (S.advance p).remaining < S.remaining := by
  have hadvance : (S.advance p).remaining = 4 * p.left := rfl
  have hlow : 4 * S.point.left ≤ S.remaining + 3 := by
    unfold Process.remaining
    split <;> omega
  omega

theorem store_dated {d : Mapping} {f : Fields} (hd : d.shutdownRequestedDate ≠ some none)
    (hf : f.shutdownRequestedDate.isSome) : (d.store f).shutdownRequestedDate.isSome := by
  unfold Mapping.store
  cases hdate : d.shutdownRequestedDate with
  | none => exact hf
  | some date =>
      cases date with
      | none => exact absurd hdate hd
      | some t => rfl

theorem Kept.moved (h : Kept S) (hmoved : Moved S S') : Kept S' := by
  cases hmoved with
  | read hcall hpending =>
      exact ⟨h.object, h.record, forall_some h.record, late_some h.late _⟩
  | refreshed f hcall hpending => exact ⟨h.pending _ hpending, h.record, nofun, (late_next h.late hcall nofun).1⟩
  | quit hcall hdate => exact ⟨h.object, h.record, h.pending, h.late⟩
  | checked hcall hdate =>
      have hobject := h.object
      rw [hdate] at hobject
      cases hobject
  | assigned s hcall hpending =>
      exact ⟨h.object, h.record, forall_some trivial, late_some h.late _⟩
  | set s hcall hpending => exact ⟨h.object, h.record, nofun, (late_next h.late hcall nofun).1⟩
  | serialized b hcall hpending =>
      exact ⟨h.object, h.record, forall_some h.object, late_some h.late _⟩
  | collected b f hcall hpending =>
      refine ⟨h.object, h.record, forall_some ?_, late_some h.late _⟩
      have hf : f.shutdownRequestedDate.isSome := h.pending _ hpending
      show (if _ then some f.shutdownRequestedDate else none) ≠ some none
      split
      · intro hnone
        rw [Option.some.inj hnone] at hf
        cases hf
      · exact nofun
  | written b d hcall hpending =>
      have hrecord := store_dated (h.pending _ hpending) h.record
      exact ⟨h.object, hrecord, forall_some trivial, late_some h.late _⟩
  | saved b hcall hpending => exact ⟨h.object, h.record, nofun, (late_next h.late hcall nofun).1⟩
  | taken hpoint | missed hpoint | got hpoint | lost hpoint =>
      have hlate := h.late
      rw [hpoint] at hlate
      cases hlate
  | began hpoint hpending =>
      exact ⟨h.object, h.record, forall_some trivial, late_some h.late _⟩
  | ended p hpoint hpending hp =>
      refine ⟨h.object, h.record, nofun, ?_⟩
      rcases hp with rfl | rfl
      · rfl
      · rfl

/-- Every step of the main thread is one step nearer to the end. -/
theorem Kept.remaining_moved (h : Kept S) (hmoved : Moved S S') :
    S'.status ≠ .running ∨ S'.remaining < S.remaining := by
  have hleft := left_pos S.point
  cases hmoved with
  | refreshed f hcall hpending => exact .inr (remaining_advance (late_next h.late hcall nofun).2)
  | quit hcall hdate => exact .inl nofun
  | checked hcall hdate =>
      have hobject := h.object
      rw [hdate] at hobject
      cases hobject
  | set s hcall hpending => exact .inr (remaining_advance (late_next h.late hcall nofun).2)
  | saved b hcall hpending => exact .inr (remaining_advance (late_next h.late hcall nofun).2)
  | taken hpoint | missed hpoint | got hpoint | lost hpoint =>
      have hlate := h.late
      rw [hpoint] at hlate
      cases hlate
  | ended p hpoint hpending hp =>
      refine .inr (remaining_advance ?_)
      show p.left < S.point.left
      rw [hpoint]
      rcases hp with rfl | rfl
      · decide
      · decide
  | read hcall hpending | assigned s hcall hpending | serialized b hcall hpending
  | collected b f hcall hpending | written b d hcall hpending | began hpoint hpending =>
      right
      simp only [Process.remaining, Process.emit, hpending]
      omega

theorem Kept.systemExit (h : Kept S) :
    Kept S.systemExit ∧ (S.systemExit.status ≠ .running ∨ S.systemExit.remaining < S.remaining) := by
  unfold Process.systemExit
  split
  · rename_i hguarded
    have hleft := left_guarded hguarded
    exact ⟨⟨h.object, h.record, nofun, rfl⟩, .inr (remaining_advance (p := .storeFailed) hleft)⟩
  · exact ⟨⟨h.object, h.record, h.pending, h.late⟩, .inl nofun⟩

/-- Nothing is taken after a request. -/
def Quiet (log : List Event) : Prop :=
  log.Pairwise fun e e' => e.isRequest = true → e' ≠ .taken

/-- No job was failed or cut off by a signal, nor was the worker. -/
structure Spared (S : Process) : Prop where
  status : S.status ≠ .killed
  dropped : .dropped ∉ S.log
  cut : .cut ∉ S.log

theorem spared_emit {S' : Process} (h : Spared S) {e : Event} (hstatus : S'.status ≠ .killed)
    (hlog : S'.log = S.log ++ [e]) (hdropped : e ≠ .dropped) (hcut : e ≠ .cut) : Spared S' := by
  refine ⟨hstatus, ?_, ?_⟩
  · rw [hlog, List.mem_append, List.mem_singleton]
    exact not_or.2 ⟨h.dropped, hdropped.symm⟩
  · rw [hlog, List.mem_append, List.mem_singleton]
    exact not_or.2 ⟨h.cut, hcut.symm⟩

theorem Spared.step (h : Spared S) (hkept : S.forced = true → S.status = .running → Kept S)
    (hsound : Sound S) {a : Label} (hduplicate : Duplicate S a) : Spared (S.step a) := by
  refine step_of hsound a h ?_ ?_ ?_
  · intro hrunning S' hmoved
    obtain ⟨-, hstatus, hlog⟩ := moved_frame hmoved
    have hover : S'.status ≠ .killed := by
      rcases hstatus with hstatus | ⟨hstatus, -⟩
      · rw [hstatus]
        exact h.status
      · rw [hstatus]
        exact nofun
    rcases hlog with hlog | ⟨-, hlog⟩ | hlog | hlog | hlog
    · exact ⟨hover, hlog ▸ h.dropped, hlog ▸ h.cut⟩
    · exact spared_emit h hover hlog nofun nofun
    · exact spared_emit h hover hlog nofun nofun
    · exact spared_emit h hover hlog nofun nofun
    · exact spared_emit h hover hlog nofun nofun
  · intro _ _ now later _
    by_cases hbusy : S.model.state = .busy
    · rw [requestStop_busy hbusy]
      exact spared_emit h h.status rfl nofun nofun
    · by_cases hpending : S.pending = some .popped
      · rw [requestStop_popped hbusy hpending]
        have hrequest : Spared (S.emit (.requested false)) := spared_emit h h.status rfl nofun nofun
        exact spared_emit hrequest hrequest.status rfl nofun nofun
      · rw [requestStop_idle hbusy hpending]
        exact spared_emit h nofun rfl nofun nofun
  · rintro hrunning hforced now later rfl hlate
    -- the date is there, and the signal is ignored
    obtain ⟨date, hdate⟩ := Option.isSome_iff_exists.1 (hkept hforced hrunning).object
    exact absurd (hduplicate hforced date hdate) (hlate date hdate)

/-! ## The worker ends -/

def Process.Label.isGo : Label → Bool
  | .go _ => true
  | .signal _ _ => false

theorem over_stays (hover : S.status ≠ .running) (l : List Label) : Run.last step S l = S := by
  induction l with
  | nil => rfl
  | cons a l ih =>
      rw [Run.last_cons]
      have hstep : S.step a = S := if_neg hover
      rw [hstep]
      exact ih

theorem remaining_step (hkept : Kept S) (hsound : Sound S) (hforced : S.forced = true) (a : Label) :
    (S.step a).forced = true ∧ Kept (S.step a) ∧
      ((S.step a).status = .running → (S.step a).remaining ≤ S.remaining) := by
  refine step_of (P := fun S' => S'.forced = true ∧ Kept S' ∧ (S'.status = .running → S'.remaining ≤ S.remaining))
    hsound a ⟨hforced, hkept, fun _ => Nat.le_refl _⟩ ?_ ?_ ?_
  · intro _ S' hmoved
    obtain ⟨hsame, -, -⟩ := moved_frame hmoved
    refine ⟨hsame.trans hforced, hkept.moved hmoved, fun hrunning => ?_⟩
    rcases hkept.remaining_moved hmoved with hover | hless
    · exact absurd hrunning hover
    · exact Nat.le_of_lt hless
  · intro _ hfirst
    rw [hforced] at hfirst
    cases hfirst
  · intro _ _ _ _ _ _
    obtain ⟨hexit, hless⟩ := hkept.systemExit
    refine ⟨?_, hexit, fun hrunning => ?_⟩
    · unfold Process.systemExit
      split
      · exact hforced
      · exact hforced
    · rcases hless with hover | hless
      · exact absurd hrunning hover
      · exact Nat.le_of_lt hless

theorem remaining_go (hkept : Kept S) (hsound : Sound S) (hrunning : S.status = .running) (ok : Bool) :
    (S.step (.go ok)).status ≠ .running ∨ (S.step (.go ok)).remaining < S.remaining := by
  have hstep : S.step (.go ok) = S.go ok := if_pos hrunning
  rw [hstep]
  exact hkept.remaining_moved (moved_of_fits hsound.fits ok)

theorem ends (hkept : Kept S) (hsound : Sound S) (hforced : S.forced = true) (l : List Label)
    (hl : S.remaining < l.countP Label.isGo) : (Run.last step S l).status ≠ .running := by
  induction l generalizing S with
  | nil => exact absurd hl (Nat.not_lt_zero _)
  | cons a l ih =>
      rw [Run.last_cons]
      by_cases hrunning : (S.step a).status = .running
      · obtain ⟨hforced', hkept', hless⟩ := remaining_step hkept hsound hforced a
        apply ih hkept' (hsound.step a) hforced'
        have hless := hless hrunning
        cases a with
        | signal now later =>
            rw [List.countP_cons_of_neg Bool.false_ne_true] at hl
            omega
        | go ok =>
            rw [List.countP_cons_of_pos rfl] at hl
            have hbefore : S.status = .running := by
              by_contra hover
              have hstep : S.step (.go ok) = S := if_neg hover
              rw [hstep] at hrunning
              exact hover hrunning
            rcases remaining_go hkept hsound hbefore ok with hover | hless
            · exact absurd hrunning hover
            · omega
      · rw [over_stays hrunning]
        exact hrunning

end Invariants

/-! ## Runs -/

/-- The signal comes while a job's function runs, and once more from elsewhere. -/
def stopSample : List Label :=
  List.replicate 26 (.go true) ++ [.signal 5 6, .signal 7 8]

/-- The heartbeat before the first job has serialized the fields when the signal comes: the request is lost,
and the worker takes another job. -/
theorem request_lost : ∃ l, ¬Quiet (Run.last step start l).log ∧ (Run.last step start l).status = .running := by
  refine ⟨List.replicate 18 (.go true) ++ .signal 5 6 :: List.replicate 50 (.go true), ?_, ?_⟩
  · unfold Quiet
    decide +kernel
  · decide +kernel

end DailyScheduler.Shutdown
