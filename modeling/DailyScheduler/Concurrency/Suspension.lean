import DailyScheduler.Lib.Copies
import DailyScheduler.Lib.Run
import DailyScheduler.Model.Sample
import DailyScheduler.Model.WorkerLoop

set_option autoImplicit false

/-! # Suspending a worker

The command listener of a worker writes `is_suspended` into the worker's record. The worker's loop looks
at its own copy of the record, which it loads at the top of each pass, and not again while it waits;
and its heartbeats save the whole copy. For every interleaving: as long as the record still has the flag
that the worker has loaded, whenever the worker saves it or goes into another round of waiting, the
record keeps what the last command has written, and the worker waits exactly as it says.
-/

namespace DailyScheduler.Suspension

open AtomicProg

/-! ## The worker and its listener -/

inductive Role where
  | worker | listener
  deriving DecidableEq

/-- Where the worker is in a pass of its loop: before the first pass, after the load at the top, in the
loop of `_check_for_suspension`, or behind it. -/
inductive Point where
  | top
  | loaded
  | waiting (before : WorkerStatus)
  | passed
  deriving DecidableEq

/-- A worker with its copy of the record, or the listener with the value of the last command that it has
processed. -/
inductive Party where
  | worker (w : Worker) (point : Point)
  | listener (last : Option Bool)

/-- The steps of the worker's loop, and the commands. -/
inductive Method where
  | nextPass
  | check
  | setState (s : WorkerStatus)
  | heartbeat (timeout : Int)
  | save
  | refresh
  | suspend
  | resume
  deriving DecidableEq

/-- The round of `_check_for_suspension`, of a worker that is not in burst mode. -/
def checkRound (w : Worker) (before : Option WorkerStatus) : Py Party := do
  let (w, before) ← w.suspensionRound false before
  pure (.worker w (match before with
    | some s => .waiting s
    | none => .passed))

/-- The command that says `b`. -/
def processCommand (n : WorkerName) (b : Bool) : Py Bool :=
  if b then SuspendWorkCommand.processCommand n else ResumeWorkCommand.processCommand n

/-- A command is processed by the listener of the worker `n`. -/
def command (n : WorkerName) (b : Bool) (last : Option Bool) : Py Party := do
  let found ← processCommand n b
  pure (.listener (if found then some b else last))

def Method.program (env : Env) (n : WorkerName) : Method → Party → Py Party
  | .nextPass, .worker w _ => do
      let w ← w.refresh
      pure (.worker w .loaded)
  | .check, .worker w (.waiting s) => checkRound w (some s)
  | .check, .worker w _ => checkRound w none
  | .setState s, .worker w point => do
      let w ← w.setState s
      pure (.worker w point)
  | .heartbeat timeout, .worker w point => do
      let w ← w.heartbeat env timeout
      pure (.worker w point)
  | .save, .worker w point => do
      let w ← w.saveModel env false
      pure (.worker w point)
  | .refresh, .worker w point => do
      let w ← w.refresh
      pure (.worker w point)
  | .suspend, .listener last => command n true last
  | .resume, .listener last => command n false last
  | _, o => pure o

/-- The order of a pass: the load, the rounds of `_check_for_suspension`, and then the rest, in any
order. -/
def allowed : Party → Method → Bool
  | .worker _ .top, .nextPass => true
  | .worker _ .loaded, .check => true
  | .worker _ (.waiting _), .check => true
  | .worker _ .passed, m => m ∉ [.check, .suspend, .resume]
  | .listener _, m => m ∈ [.suspend, .resume]
  | _, _ => false

def methods (env : Env) (n : WorkerName) : Methods Party Method World Event PyError where
  allowed := allowed
  program := Method.program env n

/-- The methods that load the record. -/
def loads : Method → Bool
  | .nextPass | .refresh => true
  | _ => false

/-- The flag of the record. -/
def storedFlag (n : WorkerName) (w : World) : Bool :=
  ((w.workers.find? n).bind fun h => h .isSuspended).getD false

/-- The parties, and the value that the flag had when the worker's iteration began: at the load, or, in
the loop of `_check_for_suspension`, when the condition is evaluated again. -/
structure System where
  copies : Copies Role Bool Party Method World Event PyError
  began : Bool

/-- What can happen: a party begins a method or takes its next step, time passes, or something else
happens that has nothing to do with the records of workers. -/
inductive Move where
  | call (r : Role) (m : Method)
  | go (r : Role)
  | pass (d : Nat)
  | elsewhere (f : World → World) (h : ∀ w, (f w).workers = w.workers)

namespace System

def state (S : System) : World := S.copies.objects.state

/-- The worker is about to begin another round of waiting. -/
def againWaiting (S : System) : Bool :=
  match S.copies.objects.doing .worker, S.copies.objects.object .worker with
  | none, .worker _ (.waiting _) => true
  | _, _ => false

/-- The worker is about to load the record at the top of its loop. -/
def atTop (S : System) : Bool := S.copies.loading (fun m => decide (m = .nextPass)) .worker

def step (env : Env) (n : WorkerName) (S : System) : Move → System
  | .call r m =>
      { copies := S.copies.call (methods env n) r m
        began := if r = .worker ∧ m = .check ∧ S.againWaiting then storedFlag n S.state else S.began }
  | .go r =>
      { copies := S.copies.go (storedFlag n) loads r
        began := if r = .worker ∧ S.atTop then storedFlag n S.state else S.began }
  | .pass d => { S with copies := S.copies.outside fun w => w.advance d }
  | .elsewhere f _ => { S with copies := S.copies.outside f }

/-- The worker before its first pass: it has loaded nothing. -/
def start (w : Worker) (s : World) : System where
  copies := {
    objects := {
      object := fun r => match r with
        | .worker => .worker w .top
        | .listener => .listener none
      doing := fun _ => none
      state := s
      log := [] }
    seen := fun _ => none }
  began := false

/-! ## The flag that the commands set, and the wait of the worker -/

/-- The record says what the last command has said. -/
def Obeyed (n : WorkerName) (S : System) : Prop :=
  ∀ b, S.copies.objects.doing .listener = none →
    S.copies.objects.object .listener = .listener (some b) → storedFlag n S.state = b

/-- The worker waits, or has gone on, as the flag said when its iteration began. -/
def Guarded (S : System) : Prop :=
  ∀ w point, S.copies.objects.doing .worker = none →
    S.copies.objects.object .worker = .worker w point →
    ((∃ s, point = .waiting s) → S.began = true) ∧ (point = .passed → S.began = false)

/-- No step of the worker changes the flag. -/
def KeepsFlag (n : WorkerName) (S : System) : Move → Prop
  | .go .worker => storedFlag n (S.copies.objects.go .worker).state = storedFlag n S.state
  | _ => True

/-! ## Copies that are current -/

/-- The worker saves the flag, and looks at it again while it waits, only while the record has the flag
that it had when the worker loaded it; and the record does not expire. -/
def Current (n : WorkerName) (S : System) : Move → Prop
  | .go .worker => S.copies.Fresh (storedFlag n) .worker
  | .call .worker .check => S.againWaiting → S.copies.seen .worker = some (storedFlag n S.state)
  | .pass d => ∀ t, S.state.workers.deadline n = some t → S.state.now + d < t
  | _ => True

end System

/-! ## The flag in the record -/

section Flag

variable {n : WorkerName} {w : World}

theorem storedFlag_eq : storedFlag n w = (w.workerField n .isSuspended).getD false := rfl

theorem storedFlag_of_workers {w' : World} (h : w'.workers = w.workers) :
    storedFlag n w' = storedFlag n w := by
  rw [storedFlag_eq, storedFlag_eq, World.workerField_of_workers h]

theorem storedFlag_hsetWorker_of_ne {f : WorkerField} (hf : f ≠ .isSuspended) (n' : WorkerName)
    (v : f.Ty) : storedFlag n (w.hsetWorker n' f v) = storedFlag n w := by
  rw [storedFlag_eq, storedFlag_eq, World.workerField_hsetWorker_of_ne hf]

theorem storedFlag_hsetWorker (b : Bool) : storedFlag n (w.hsetWorker n .isSuspended b) = b := by
  have hfield : (w.hsetWorker n .isSuspended b).workerField n .isSuspended = some b :=
    World.workerField_hsetWorker (f := .isSuspended) b
  rw [storedFlag_eq, hfield]
  rfl

theorem storedFlag_expireWorker (n' : WorkerName) (d : Int) :
    storedFlag n (w.expireWorker n' d) = storedFlag n w := by
  rw [storedFlag_eq, storedFlag_eq, World.workerField_expireWorker]

/-- A save writes the flag of the copy, or leaves it. -/
theorem storedFlag_saveWorker (cfg : SchedulerConfiguration) (m : WorkerModel) (saveAll : Bool) :
    storedFlag n (w.saveWorker cfg m saveAll)
      = if n = m.name ∧ m.written saveAll .isSuspended = true then m.isSuspended
        else storedFlag n w := by
  rw [storedFlag_eq, storedFlag_eq, World.workerField_saveWorker]
  split <;> rfl

theorem storedFlag_advance {d : Nat}
    (h : ∀ t, w.workers.deadline n = some t → w.now + d < t) :
    storedFlag n (w.advance d) = storedFlag n w := by
  rw [storedFlag_eq, storedFlag_eq, World.workerField_advance h]

end Flag

/-! ## The worker reads the flag, and never sets it -/

/-- The flag of the worker's copy. -/
def copy : Party → Bool
  | .worker w _ => w.model.isSuspended
  | .listener _ => false

/-- A plain save of the copy does not write the flag. -/
structure Clean (m : WorkerModel) : Prop where
  dirtyFields : .isSuspended ∉ m.dirtyFields
  saveAll : m.saveAll = false

/-- The worker of the record `n`, with a clean copy once it has loaded one. -/
def Own (n : WorkerName) : Party → Prop
  | .worker w point => w.name = n ∧ (point ≠ .top → Clean w.model)
  | .listener _ => False

section Reading

variable {env : Env} {n : WorkerName} {w : Worker} {point : Point}

theorem refresh_loads (point : Point) (hname : w.name = n) :
    (do let w ← w.refresh
        pure (Party.worker w point) : Py Party).Loads (storedFlag n) fun c o =>
      (Own n o ∧ copy o = c) ∧ ∃ w, o = .worker w point := by
  rw [Worker.refresh_bind_pure]
  refine ⟨_, _, _, rfl, fun _ => rfl, fun s => ?_⟩
  unfold storedFlag
  subst hname
  cases hfind : s.workers.find? w.name with
  | none => exact .inr ⟨_, rfl⟩
  | some h =>
      rw [Option.bind_some, Option.bind_some]
      cases hm : WorkerModel.deserialize h with
      | none => exact .inr ⟨_, rfl⟩
      | some m =>
          have hloaded := WorkerModel.loadedFrom hm
          refine .inl ⟨_, rfl, ⟨⟨rfl, fun _ => ⟨?_, hloaded.saveAll⟩⟩, hloaded.isSuspended⟩, _, rfl⟩
          dsimp only
          rw [hloaded.dirtyFields]
          exact Finset.notMem_empty _

/-- The worker with a copy that has the same flag. -/
structure SameFlag (w w' : Worker) : Prop where
  name : w'.name = w.name
  flag : w'.model.isSuspended = w.model.isSuspended
  clean : Clean w.model → Clean w'.model

theorem SameFlag.refl (w : Worker) : SameFlag w w := ⟨rfl, rfl, id⟩

theorem setState_sets (w : Worker) (s : WorkerStatus) :
    (w.setState s).Sets (storedFlag n) w.model.isSuspended (SameFlag w) := by
  have hwrite : (Prog.write (·.hsetWorker w.model.name .state s) : Py Unit).Sets (storedFlag n)
      w.model.isSuspended fun _ => True :=
    Prog.Steps.write fun v => .inl (storedFlag_hsetWorker_of_ne (by decide) _ _)
  refine hwrite.bind fun _ _ => ⟨rfl, rfl, fun h => ⟨fun hmem => ?_, h.saveAll⟩⟩
  rcases Finset.mem_insert.1 hmem with hmem | hmem
  · cases hmem
  · exact h.dirtyFields hmem

theorem saveModel_sets (w : Worker) (saveAll : Bool) :
    (w.saveModel env saveAll).Sets (storedFlag n) w.model.isSuspended (SameFlag w) := by
  have hwrite : (Prog.write (·.saveWorker env.config w.model saveAll) : Py Unit).Sets
      (storedFlag n) w.model.isSuspended fun _ => True := by
    refine Prog.Steps.write fun v => ?_
    rw [storedFlag_saveWorker]
    split
    · exact .inr rfl
    · exact .inl rfl
  exact hwrite.bind fun _ _ => ⟨rfl, rfl, fun _ => ⟨Finset.notMem_empty _, rfl⟩⟩

theorem heartbeat_sets (w : Worker) (timeout : Int) :
    (w.heartbeat env timeout).Sets (storedFlag n) w.model.isSuspended (SameFlag w) := by
  have hread : (utcnow : Py Int).Sets (storedFlag n) w.model.isSuspended fun _ => True :=
    fun v => ⟨.inl rfl, trivial⟩
  refine hread.bind fun now _ => ?_
  refine (saveModel_sets { w with model := w.model.setLastHeartbeat (some now) } true).bind
    fun w' hw' => ?_
  have hexpire : ∀ t : Int, (Prog.write fun s => s.expireWorker w'.name (s.now + secs t) :
      Py Unit).Sets (storedFlag n) w.model.isSuspended fun _ => True :=
    fun t => Prog.Steps.write fun v => .inl (storedFlag_expireWorker _ _)
  refine (hexpire _).bind fun _ _ => ⟨hw'.name, hw'.flag, fun h => hw'.clean ⟨fun hmem => ?_, h.saveAll⟩⟩
  rcases Finset.mem_insert.1 hmem with hmem | hmem
  · cases hmem
  · exact h.dirtyFields hmem

/-- The worker goes on waiting exactly if its copy has the flag. -/
theorem suspensionRound_sets (w : Worker) (before : Option WorkerStatus) :
    (w.suspensionRound false before).Sets (storedFlag n) w.model.isSuspended fun r =>
      SameFlag w r.1 ∧ (r.2.isSome = true ↔ w.model.isSuspended = true) := by
  refine Prog.Steps.ite (fun hflag => ?_) fun hflag => ?_
  · refine Prog.Steps.ite (fun h => ?_) fun _ => ?_
    · cases h
    · cases before with
      | none => exact (setState_sets w .suspended).bind fun w' hw' => ⟨hw', iff_of_true rfl hflag⟩
      | some s => exact ⟨.refl w, iff_of_true rfl hflag⟩
  · have hno : ∀ w' : Worker, ((w', (none : Option WorkerStatus)).2.isSome = true ↔
        w.model.isSuspended = true) := fun _ => iff_of_false Bool.false_ne_true hflag
    cases before with
    | none => exact ⟨.refl w, hno w⟩
    | some s => exact (setState_sets w s).bind fun w' hw' => ⟨hw', hno w'⟩

/-- How a round ends. -/
structure RoundOf (w : Worker) (o : Party) : Prop where
  worker : ∃ w' point, o = .worker w' point ∧ SameFlag w w' ∧
    (w.model.isSuspended = true → ∃ s, point = .waiting s) ∧
    (w.model.isSuspended = false → point = .passed)

theorem checkRound_sets (w : Worker) (before : Option WorkerStatus) :
    (checkRound w before).Sets (storedFlag n) w.model.isSuspended (RoundOf w) := by
  refine (suspensionRound_sets w before).bind fun r hr => ?_
  obtain ⟨w', before'⟩ := r
  obtain ⟨hsame, hiff⟩ := hr
  refine ⟨w', _, rfl, hsame, fun h => ?_, fun h => ?_⟩
  · cases before' with
    | none => cases hiff.2 h
    | some s => exact ⟨s, rfl⟩
  · cases before' with
    | none => rfl
    | some s =>
        have hflag := hiff.1 rfl
        rw [h] at hflag
        cases hflag

/-- The worker keeps its flag but for the loads. -/
theorem reader (env : Env) (n : WorkerName) :
    Copies.Reader (methods env n) loads (storedFlag n) copy (Own n) where
  sets o m ho hallowed hm := by
    obtain ⟨w, point⟩ | last := o
    · obtain ⟨hname, hclean⟩ := ho
      have hkeep : ∀ {p : Py Worker}, point ≠ .top →
          p.Sets (storedFlag n) w.model.isSuspended (SameFlag w) →
          (p >>= fun w => pure (Party.worker w point)).Sets (storedFlag n) w.model.isSuspended
            fun o => Own n o ∧ copy o = w.model.isSuspended := fun hpoint hp =>
        hp.bind fun w' hw' => ⟨⟨hw'.name.trans hname, fun _ => hw'.clean (hclean hpoint)⟩, hw'.flag⟩
      have hround : ∀ before, point ≠ .top → (checkRound w before).Sets (storedFlag n)
          w.model.isSuspended fun o => Own n o ∧ copy o = w.model.isSuspended := by
        intro before hpoint
        refine (checkRound_sets w before).mono (fun _ _ _ h => h) fun o ho => ?_
        obtain ⟨w', point', rfl, hsame, -, -⟩ := ho
        exact ⟨⟨hsame.name.trans hname, fun _ => hsame.clean (hclean hpoint)⟩, hsame.flag⟩
      cases m with
      | nextPass => cases hm
      | refresh => cases hm
      | check =>
          cases point with
          | top => cases hallowed
          | loaded => exact hround none (by decide)
          | passed => cases hallowed
          | waiting s => exact hround (some s) (by simp)
      | setState s =>
          cases point with
          | passed => exact hkeep (by decide) (setState_sets w s)
          | _ => cases hallowed
      | heartbeat t =>
          cases point with
          | passed => exact hkeep (by decide) (heartbeat_sets w t)
          | _ => cases hallowed
      | save =>
          cases point with
          | passed => exact hkeep (by decide) (saveModel_sets w false)
          | _ => cases hallowed
      | suspend => cases point <;> cases hallowed
      | resume => cases point <;> cases hallowed
    · exact ho.elim
  load o m ho hallowed hm := by
    obtain ⟨w, point⟩ | last := o
    · have hloads : ∀ point, (do
          let w ← w.refresh
          pure (Party.worker w point) : Py Party).Loads (storedFlag n) fun c o =>
            Own n o ∧ copy o = c := by
        intro point
        obtain ⟨f, e, q, hp, hf, hq⟩ := refresh_loads (n := n) point ho.1
        exact ⟨f, e, q, hp, hf, fun s => (hq s).imp_left fun ⟨o, ho, hown, _⟩ => ⟨o, ho, hown⟩⟩
      cases m with
      | nextPass => exact hloads .loaded
      | refresh => exact hloads point
      | _ => cases hm
    · exact ho.elim

end Reading

/-! ## The listener -/

/-- What the listener has processed last is in the record, as long as nobody else changes the flag. -/
def contract (n : WorkerName) : Contract Role Party Method World Event where
  rely r c c' := r = .listener → storedFlag n c'.1 = storedFlag n c.1
  guar r _ c c' := r = .worker → storedFlag n c'.1 = storedFlag n c.1
  idle r o c := r = .listener → ∃ last, o = .listener last ∧ ∀ b, last = some b → storedFlag n c.1 = b
  during _ _ _ _ := True
  refl _ _ _ := rfl
  trans _ _ _ _ h h' hr := (h' hr).trans (h hr)
  covers i j _ hij _ _ h hj := h (by
    subst hj
    cases i with
    | worker => rfl
    | listener => exact (hij rfl).elim)
  idle_stable _ _ _ _ h ho hr := by
    obtain ⟨last, ho, hlast⟩ := ho hr
    exact ⟨last, ho, fun b hb => (h hr).trans (hlast b hb)⟩
  during_stable _ _ _ _ _ _ _ := trivial
  during_kept _ _ _ _ _ _ _ := trivial

section Listening

variable {env : Env} {n : WorkerName} {m : Method}

abbrev side (n : WorkerName) (m : Method) : Side World Event (Role × Event) :=
  (contract n).side .listener m

theorem flag_stable (b : Bool) :
    Stable (side n m).rely fun c => storedFlag n c.1 = b :=
  fun _ _ h hc => (h rfl).trans hc

/-- The listener may do to the record what it likes. -/
theorem guar_listener (c c' : Config World (Role × Event)) : (side n m).guar c c' :=
  fun h => by cases h

/-- The flag that the listener loads. -/
theorem get_triple (b : Bool) : (side n m).Triple (fun c => storedFlag n c.1 = b)
    (WorkerModel.get n)
    (fun r c => storedFlag n c.1 = b ∧ ∀ x, r = some x → x.isSuspended = b)
    fun (_ : PyError) _ => True := by
  refine Side.Triple.read (flag_stable b) (fun r => ?_) (fun c _ => guar_listener c c)
    fun w t hw => ⟨hw, fun x hx => ?_⟩
  · exact Side.Stable.and (flag_stable b) (Side.Stable.const _)
  · obtain ⟨h, hfind, hm⟩ := Option.bind_eq_some_iff.1 hx
    rw [(WorkerModel.loadedFrom hm).isSuspended, ← hw]
    unfold storedFlag
    dsimp only
    rw [hfind, Option.bind_some]

/-- After a command that found the record the flag is as the command says. -/
theorem process_triple (b b₀ : Bool) : (side n m).Triple (fun c => storedFlag n c.1 = b₀)
    (processCommand n b)
    (fun found c => storedFlag n c.1 = if found then b else b₀) fun _ _ => True := by
  have hwrite : (side n m).Triple (fun c => storedFlag n c.1 = b₀) (do
        Prog.write (·.hsetWorker n .isSuspended b)
        pure true : Py Bool) (fun found c => storedFlag n c.1 = if found then b else b₀)
      fun _ _ => True := by
    refine Side.Triple.bind (Q := fun _ c => storedFlag n c.1 = b) ?_
      fun _ => Side.Triple.ret (flag_stable b) fun _ hc => hc
    exact Side.Triple.write (flag_stable b₀) (flag_stable b) fun w t _ =>
      ⟨guar_listener _ _, storedFlag_hsetWorker b⟩
  have hfound : b₀ = b → (side n m).Triple (fun c => storedFlag n c.1 = b₀) (pure true : Py Bool)
      (fun found c => storedFlag n c.1 = if found then b else b₀) fun _ _ => True := by
    rintro rfl
    exact Side.Triple.ret (flag_stable b₀) fun _ hc => hc
  have hnone : (side n m).Triple (fun c => storedFlag n c.1 = b₀) (pure false : Py Bool)
      (fun found c => storedFlag n c.1 = if found then b else b₀) fun _ _ => True :=
    Side.Triple.ret (flag_stable b₀) fun _ hc => hc
  cases b with
  | true =>
      refine (get_triple b₀).bind fun r c hc => ?_
      cases r with
      | none => exact hnone c hc.1
      | some x =>
          dsimp only
          split
          · rename_i hx
            exact hfound ((hc.2 x rfl).symm.trans hx) c hc.1
          · exact hwrite c hc.1
  | false =>
      refine (get_triple b₀).bind fun r c hc => ?_
      cases r with
      | none => exact hnone c hc.1
      | some x =>
          dsimp only
          split
          · exact hwrite c hc.1
          · rename_i hx
            exact hfound ((hc.2 x rfl).symm.trans (Bool.eq_false_iff.2 hx)) c hc.1

theorem command_keeps (b : Bool) {last : Option Bool} {c : Config World (Role × Event)}
    (hc : ∀ b', last = some b' → storedFlag n c.1 = b') :
    (contract n).Keeps .listener m (command n b last) c := by
  show (side n m).Safe _ _ (command n b last) c
  unfold command
  refine (process_triple b (storedFlag n c.1) c rfl).bind fun found c' hc' => ?_
  refine Side.Triple.ret (flag_stable _) (fun d hd _ => ⟨_, rfl, fun b' hb' => ?_⟩) c' hc'
  rw [hd]
  cases found with
  | true => exact Option.some_inj.1 hb'
  | false => exact hc b' hb'

theorem listener_keeps {o : Party} {c : Config World (Role × Event)} (hallowed : allowed o m = true)
    (hidle : (contract n).idle .listener o c) :
    (contract n).Keeps .listener m (Method.program env n m o) c := by
  obtain ⟨last, rfl, hlast⟩ := hidle rfl
  cases m with
  | suspend => exact command_keeps true hlast
  | resume => exact command_keeps false hlast
  | _ => exact (Bool.false_ne_true hallowed).elim

end Listening

/-! ## Runs -/

/-- How a round that began with the flag `began` ends. -/
def Ended (began : Bool) (o : Party) : Prop :=
  ∃ w point, o = .worker w point ∧ point ≠ .loaded ∧
    ((∃ s, point = .waiting s) → began = true) ∧ (point = .passed → began = false)

/-- Where the worker may be between its methods, with what it has loaded and the flag that its iteration
began with. -/
structure Between (seen : Option Bool) (began : Bool) (point : Point) : Prop where
  loaded : point = .loaded → seen = some began
  waiting : (∃ s, point = .waiting s) → began = true
  passed : point = .passed → began = false

/-- What is left of a method. -/
def During (seen : Option Bool) (began : Bool) : Method → Py Party → Prop
  | .nextPass, p => (p.Steps (fun _ _ _ => True) fun o => ∃ w, o = .worker w .loaded) ∧
      ((∃ f e q, p = .act f e q) ∨ seen = some began)
  | .check, p => p.Steps (fun _ _ _ => True) (Ended began)
  | _, p => began = false ∧ p.Steps (fun _ _ _ => True) fun o => ∃ w, o = .worker w .passed

/-- What the worker's iteration has come to. -/
def Round (S : System) : Prop :=
  match S.copies.objects.doing .worker with
  | none => ∀ w point, S.copies.objects.object .worker = .worker w point →
      Between (S.copies.seen .worker) S.began point
  | some (m, p) => During (S.copies.seen .worker) S.began m p

/-- A method that has ended. -/
theorem During.ret {seen : Option Bool} {began : Bool} {m : Method} {o : Party}
    (h : During seen began m (.ret o)) : ∃ w point, o = .worker w point ∧ Between seen began point := by
  have hpassed : began = false ∧ (∃ w, o = .worker w .passed) →
      ∃ w point, o = .worker w point ∧ Between seen began point := by
    rintro ⟨hbegan, w, rfl⟩
    exact ⟨w, .passed, rfl, by simp, by simp, fun _ => hbegan⟩
  cases m with
  | nextPass =>
      obtain ⟨⟨w, rfl⟩, ⟨f, e, q, hact⟩ | hseen⟩ := h
      · cases hact
      · exact ⟨w, .loaded, rfl, fun _ => hseen, by simp, by simp⟩
  | check =>
      obtain ⟨w, point, rfl, hloaded, hwaiting, hpassed⟩ := h
      exact ⟨w, point, rfl, fun h => (hloaded h).elim, hwaiting, hpassed⟩
  | _ => exact hpassed h

/-- A step of a method; the record has the flag `b`. -/
theorem During.act {seen : Option Bool} {began : Bool} {m : Method} {f : World → World}
    {e : World → List Event} {q : World → Py Party} (h : During seen began m (.act f e q)) (b : Bool)
    (s : World) : During (if loads m then some b else seen) (if m = .nextPass then b else began) m
      (q s) := by
  cases m with
  | nextPass => exact ⟨(h.1 s).2, .inr rfl⟩
  | check => exact (h s).2
  | _ => exact ⟨h.1, (h.2 s).2⟩

/-- The invariant. -/
structure Inv (n : WorkerName) (S : System) : Prop where
  agrees : S.copies.Agrees (storedFlag n) loads copy (Own n) .worker
  round : Round S
  heard : S.copies.objects.SoundAt (contract n) .listener

section Steps

variable {env : Env} {n : WorkerName} {S S' : System}

theorem Round.of_others (h : Round S)
    (hobject : S'.copies.objects.object .worker = S.copies.objects.object .worker)
    (hdoing : S'.copies.objects.doing .worker = S.copies.objects.doing .worker)
    (hseen : S'.copies.seen .worker = S.copies.seen .worker) (hbegan : S'.began = S.began) :
    Round S' := by
  unfold Round
  rw [hobject, hdoing, hseen, hbegan]
  exact h

/-- The listener hears what leaves the flag alone. -/
theorem heard_of_others (h : S.copies.objects.SoundAt (contract n) .listener)
    (hobject : S'.copies.objects.object .listener = S.copies.objects.object .listener)
    (hdoing : S'.copies.objects.doing .listener = S.copies.objects.doing .listener)
    (hflag : storedFlag n S'.state = storedFlag n S.state) :
    S'.copies.objects.SoundAt (contract n) .listener := by
  have hrely : (contract n).rely .listener S.copies.objects.config S'.copies.objects.config :=
    fun _ => hflag
  refine h.of_rely hobject hdoing (fun hnone => ?_) fun _ _ _ _ => hrely
  exact (contract n).idle_stable _ _ _ _ hrely (h.of_none hnone)

theorem checkRound_ended (w : Worker) (before : Option WorkerStatus) :
    (checkRound w before).Steps (fun _ _ _ => True) (Ended w.model.isSuspended) := by
  refine (checkRound_sets (n := w.name) w before).mono (fun _ _ _ _ => trivial) ?_
  rintro o ⟨w', point, rfl, -, hwaiting, hpassed⟩
  refine ⟨w', point, rfl, ?_, ?_, ?_⟩ <;> cases hflag : w.model.isSuspended with
  | true =>
      obtain ⟨s, rfl⟩ := hwaiting hflag
      simp
  | false =>
      obtain rfl := hpassed hflag
      simp

/-- The rest of a pass. -/
theorem passed_steps {w : Worker} {m : Method} (hname : w.name = n)
    (hm : m ∉ [.check, .suspend, .resume]) (hnext : m ≠ .nextPass) :
    (Method.program env n m (.worker w .passed)).Steps (fun _ _ _ => True)
      fun o => ∃ w, o = .worker w .passed := by
  have hkeep : ∀ {p : Py Worker}, p.Sets (storedFlag n) w.model.isSuspended (SameFlag w) →
      (p >>= fun w => pure (Party.worker w .passed)).Steps (fun _ _ _ => True)
        fun o => ∃ w, o = .worker w .passed := fun hp =>
    (hp.mono (fun _ _ _ _ => trivial) fun _ _ => trivial).bind (Q := fun _ => True) fun w' _ => ⟨w', rfl⟩
  cases m with
  | nextPass => exact (hnext rfl).elim
  | check => simp at hm
  | setState s => exact hkeep (setState_sets w s)
  | heartbeat t => exact hkeep (heartbeat_sets w t)
  | save => exact hkeep (saveModel_sets w false)
  | refresh =>
      refine (refresh_loads .passed hname).steps.mono (fun _ _ _ h => h) ?_
      rintro o ⟨c, -, ho⟩
      exact ho
  | suspend => simp at hm
  | resume => simp at hm

theorem next_steps (env : Env) {w : Worker} (point : Point) (hname : w.name = n) :
    (Method.program env n .nextPass (.worker w point)).Steps (fun _ _ _ => True)
      fun o => ∃ w, o = .worker w .loaded := by
  refine (refresh_loads .loaded hname).steps.mono (fun _ _ _ h => h) ?_
  rintro o ⟨c, -, ho⟩
  exact ho

theorem againWaiting_iff : S.againWaiting = true ↔ S.copies.objects.doing .worker = none ∧
    ∃ w s, S.copies.objects.object .worker = .worker w (.waiting s) := by
  unfold System.againWaiting
  cases hdoing : S.copies.objects.doing .worker with
  | some d => simp
  | none =>
      cases S.copies.objects.object .worker with
      | listener last => simp
      | worker w point => cases point <;> simp

/-- The worker begins a method. -/
theorem round_call {m : Method} (h : Inv n S)
    (hcurrent : m = .check → S.againWaiting = true →
      S.copies.seen .worker = some (storedFlag n S.state)) :
    Round (S.step env n (.call .worker m)) := by
  have hbegan : (S.step env n (.call .worker m)).began =
      if m = .check ∧ S.againWaiting = true then storedFlag n S.state else S.began := by
    show (if Role.worker = .worker ∧ _ then _ else _) = _
    simp only [true_and]
  have hobjects : (S.step env n (.call .worker m)).copies.objects
      = S.copies.objects.call (methods env n) .worker m := rfl
  have hseen : (S.step env n (.call .worker m)).copies.seen = S.copies.seen := rfl
  rcases S.copies.objects.call_cases (methods env n) .worker m with
    ⟨hsame, hnot⟩ | ⟨hdoing, hallowed, hcall⟩
  · have hagain : ¬ (m = .check ∧ S.againWaiting = true) := by
      rintro ⟨rfl, hagain⟩
      obtain ⟨hdoing, w, s, hobject⟩ := againWaiting_iff.1 hagain
      refine hnot ⟨hdoing, ?_⟩
      rw [hobject]
      rfl
    rw [hsame] at hobjects
    rw [if_neg hagain] at hbegan
    exact h.round.of_others (by rw [hobjects]) (by rw [hobjects]) (by rw [hseen]) hbegan
  · obtain ⟨hown, hcopy⟩ := h.agrees.of_none hdoing
    have hround := h.round
    unfold Round at hround ⊢
    rw [hdoing] at hround
    rw [hobjects, hcall, hseen]
    dsimp only
    rw [Function.update_self]
    cases hobject : S.copies.objects.object .worker with
    | listener last =>
        rw [hobject] at hown
        exact hown.elim
    | worker w point =>
        have hbetween := hround w point hobject
        rw [hobject] at hallowed hown hcopy
        cases point with
        | top =>
            cases m with
            | nextPass => exact ⟨next_steps env .top hown.1, .inl ⟨_, _, _, Worker.refresh_bind_pure w _⟩⟩
            | _ => cases hallowed
        | loaded =>
            cases m with
            | check =>
                have hagain : ¬ (Method.check = .check ∧ S.againWaiting = true) := by
                  rintro ⟨-, hagain⟩
                  obtain ⟨-, w', s, hother⟩ := againWaiting_iff.1 hagain
                  rw [hobject] at hother
                  cases hother
                rw [if_neg hagain] at hbegan
                rw [hbegan, ← hcopy _ (hbetween.loaded rfl)]
                exact checkRound_ended w none
            | _ => cases hallowed
        | waiting s =>
            cases m with
            | check =>
                have hagain := againWaiting_iff.2 ⟨hdoing, w, s, hobject⟩
                rw [if_pos ⟨rfl, hagain⟩] at hbegan
                rw [hbegan, ← hcopy _ (hcurrent rfl hagain)]
                exact checkRound_ended w (some s)
            | _ => cases hallowed
        | passed =>
            have hm : m ∉ [.check, .suspend, .resume] := of_decide_eq_true hallowed
            have hcheck : ¬ (m = .check ∧ S.againWaiting = true) := by
              rintro ⟨rfl, -⟩
              simp at hm
            rw [if_neg hcheck, hbetween.passed rfl] at hbegan
            cases m with
            | nextPass => exact ⟨next_steps env .passed hown.1, .inl ⟨_, _, _, Worker.refresh_bind_pure w _⟩⟩
            | check => simp at hm
            | _ => exact ⟨hbegan, @passed_steps env _ _ _ hown.1 hm (by simp)⟩

/-- The worker takes its next step. -/
theorem round_go (h : Round S) : Round (S.step env n (.go .worker)) := by
  have hobjects : (S.step env n (.go .worker)).copies.objects = S.copies.objects.go .worker := rfl
  have hseen : (S.step env n (.go .worker)).copies.seen .worker =
      if S.copies.loading loads .worker then some (storedFlag n S.state)
      else S.copies.seen .worker := Copies.seen_go_self
  have hbegan : (S.step env n (.go .worker)).began =
      if S.atTop then storedFlag n S.state else S.began := by
    show (if Role.worker = .worker ∧ _ then _ else _) = _
    simp only [true_and]
  unfold System.atTop at hbegan
  rcases S.copies.objects.go_cases .worker with ⟨hsame, hidle⟩ | ⟨m, o, hdoing, hgo⟩ |
    ⟨m, f, e, q, hdoing, hgo⟩
  · rw [Copies.loading_of_idle hidle, if_neg Bool.false_ne_true] at hseen hbegan
    rw [hsame] at hobjects
    exact h.of_others (by rw [hobjects]) (by rw [hobjects]) hseen hbegan
  · rw [Copies.loading_of_ret hdoing, if_neg Bool.false_ne_true] at hseen hbegan
    unfold Round at h ⊢
    rw [hdoing] at h
    obtain ⟨w', point', rfl, hbetween⟩ := During.ret h
    rw [hobjects, hgo, hseen, hbegan]
    dsimp only
    rw [Function.update_self, Function.update_self]
    rintro w point ⟨⟩
    exact hbetween
  · rw [Copies.loading_of_act hdoing] at hseen hbegan
    simp only [decide_eq_true_eq] at hbegan
    unfold Round at h ⊢
    rw [hdoing] at h
    rw [hobjects, hgo, hseen, hbegan]
    dsimp only
    rw [Function.update_self]
    exact During.act h _ _

/-- Every step that meets the condition keeps the invariant, and the worker's steps keep the flag. -/
theorem inv_step {m : Move} (h : Inv n S) (hm : S.Current n m) :
    Inv n (S.step env n m) ∧ S.KeepsFlag n m := by
  cases m with
  | call r m =>
      cases r with
      | worker =>
          have hcurrent : m = .check → S.againWaiting = true →
              S.copies.seen .worker = some (storedFlag n S.state) := by
            rintro rfl
            exact hm
          obtain ⟨hobject, hdoing, hconfig⟩ := @Objects.call_of_ne _ _ _ _ _ _ S.copies.objects
            .worker m _ (methods env n) .listener (by decide)
          have hstate : (S.step env n (.call .worker m)).state = S.state := congrArg Prod.fst hconfig
          exact ⟨⟨h.agrees.call (reader env n), round_call h hcurrent,
            heard_of_others h.heard hobject hdoing (by rw [hstate])⟩, trivial⟩
      | listener =>
          obtain ⟨hobject, hdoing, -⟩ := @Objects.call_of_ne _ _ _ _ _ _ S.copies.objects
            .listener m _ (methods env n) .worker (by decide)
          refine ⟨⟨h.agrees.call_other (by decide), ?_, ?_⟩, trivial⟩
          · exact h.round.of_others hobject hdoing rfl rfl
          · exact h.heard.call fun _ hallowed hidle => ⟨trivial, listener_keeps hallowed hidle⟩
  | go r =>
      cases r with
      | worker =>
          obtain ⟨hagrees, hflag⟩ := h.agrees.go hm
          obtain ⟨hobject, hdoing⟩ := @Objects.go_of_ne _ _ _ _ _ _ S.copies.objects .worker _
            .listener (by decide)
          exact ⟨⟨hagrees, round_go h.round, heard_of_others h.heard hobject hdoing hflag⟩, hflag⟩
      | listener =>
          obtain ⟨hobject, hdoing⟩ := @Objects.go_of_ne _ _ _ _ _ _ S.copies.objects .listener _
            .worker (by decide)
          refine ⟨⟨h.agrees.go_other (by decide), ?_, h.heard.go.1⟩, trivial⟩
          exact h.round.of_others hobject hdoing (Copies.seen_go_of_ne (by decide)) rfl
  | pass d =>
      have hflag : storedFlag n (S.step env n (.pass d)).state = storedFlag n S.state :=
        storedFlag_advance hm
      exact ⟨⟨h.agrees.of_others rfl rfl rfl, h.round.of_others rfl rfl rfl rfl,
        heard_of_others h.heard rfl rfl hflag⟩, trivial⟩
  | elsewhere f hf =>
      have hflag : storedFlag n (S.step env n (.elsewhere f hf)).state = storedFlag n S.state :=
        storedFlag_of_workers (hf S.state)
      exact ⟨⟨h.agrees.of_others rfl rfl rfl, h.round.of_others rfl rfl rfl rfl,
        heard_of_others h.heard rfl rfl hflag⟩, trivial⟩

/-- Between its methods the listener knows what the record says. -/
theorem Inv.obeyed (h : Inv n S) : S.Obeyed n := by
  intro b hdoing hobject
  obtain ⟨last, ho, hlast⟩ := h.heard.of_none hdoing rfl
  rw [hobject] at ho
  cases ho
  exact hlast b rfl

theorem Inv.guarded (h : Inv n S) : S.Guarded := by
  intro w point hdoing hobject
  have hround := h.round
  unfold Round at hround
  rw [hdoing] at hround
  have hbetween := hround w point hobject
  exact ⟨hbetween.waiting, hbetween.passed⟩

theorem inv_start {w : Worker} (hname : w.name = n) (s : World) : Inv n (System.start w s) where
  agrees := ⟨⟨hname, fun h => (h rfl).elim⟩, fun c hc => by cases hc⟩
  round := by
    rintro w point ⟨⟩
    exact ⟨by simp, by simp, by simp⟩
  heard := fun _ => ⟨none, rfl, fun b hb => by cases hb⟩

end Steps

/-- In every run of a worker and its listener in which the worker saves the flag, and looks at it again
while it waits, only while the record has the flag that the worker has loaded: the record says what the
last command has said, the worker waits exactly as the record said when its iteration began, and no step
of the worker changes the flag. -/
theorem commands_obeyed (env : Env) (n : WorkerName) (w : Worker) (s : World) (l : List Move)
    (hname : w.name = n)
    (hl : Run.Meets (System.step env n) (System.Current n) (System.start w s) l) :
    Run.Along (System.step env n) (fun S => S.Obeyed n ∧ S.Guarded) (System.start w s) l ∧
      Run.Meets (System.step env n) (System.KeepsFlag n) (System.start w s) l := by
  obtain ⟨halong, hkeeps⟩ := Run.along_and_meets_of_step
    (fun _ _ h hm => inv_step h hm) (inv_start hname s) hl
  exact ⟨halong.mono fun S h => ⟨h.obeyed, h.guarded⟩, hkeeps⟩

/-! ## A sample -/

/-- The record of the worker `w` at the broker. -/
def sampleWorld : World := (World.init 0).saveWorker {} (Sample.worker "w").model true

def sampleStart : System := System.start (Sample.worker "w") sampleWorld

/-- A party begins a method and takes `k` steps of it. -/
def runs (r : Role) (m : Method) (k : Nat) : List Move := .call r m :: List.replicate k (.go r)

/-- The worker loads its record, does not wait, and sends a heartbeat. -/
def samplePass : List Move :=
  runs .worker .nextPass 2 ++ runs .worker .check 1 ++ runs .worker (.heartbeat 60) 4

theorem sample_current :
    Run.Meets (System.step Sample.env "w") (System.Current "w") sampleStart samplePass := by
  refine Run.meets_append.2 ⟨Run.meets_append.2 ⟨⟨trivial, ?_, fun _ => rfl, trivial⟩,
    fun h => ?_, fun _ => rfl, trivial⟩, trivial, fun _ => rfl, fun _ => rfl, fun _ => rfl,
    fun _ => rfl, trivial⟩
  · -- the load itself changes nothing
    rintro ⟨m, f, e, q, hdoing, s, hne⟩
    cases hdoing
    exact (hne rfl).elim
  · cases h

theorem sample_obeyed :
    Run.Along (System.step Sample.env "w") (fun S => S.Obeyed "w" ∧ S.Guarded) sampleStart
        samplePass ∧
      Run.Meets (System.step Sample.env "w") (System.KeepsFlag "w") sampleStart samplePass :=
  commands_obeyed Sample.env "w" (Sample.worker "w") sampleWorld samplePass rfl sample_current

/-- The worker has been suspended and waits. -/
def sampleWaiting : List Move :=
  runs .listener .suspend 3 ++ runs .worker .nextPass 2 ++ runs .worker .check 2

/-- A heartbeat undoes a command that came after the load of the record, and a worker that waits does
not see that it may go on. -/
theorem not_obeyed :
    (¬ ∀ l, Run.Along (System.step Sample.env "w") (System.Obeyed "w") sampleStart l) ∧
      (¬ ∀ l, Run.Along (System.step Sample.env "w") System.Guarded sampleStart l) ∧
      ¬ ∀ l, Run.Meets (System.step Sample.env "w") (System.KeepsFlag "w") sampleStart l := by
  let before := runs .worker .nextPass 2 ++ runs .worker .check 1 ++ runs .listener .suspend 3 ++
    runs .worker (.heartbeat 60) 1
  refine ⟨fun h => ?_, fun h => ?_, fun h => ?_⟩
  · have hlast : (Run.last (System.step Sample.env "w") sampleStart
        (before ++ [.go .worker])).Obeyed "w" := (h _).last
    have hflag := hlast true rfl rfl
    exact Bool.false_ne_true hflag
  · have hlast : (Run.last (System.step Sample.env "w") sampleStart
        (sampleWaiting ++ runs .listener .resume 3 ++ runs .worker .check 1)).Guarded := (h _).last
    obtain ⟨hwaiting, -⟩ := hlast _ _ rfl rfl
    exact Bool.false_ne_true (hwaiting ⟨_, rfl⟩)
  · obtain ⟨hkeeps, -⟩ := (Run.meets_append.1 (h (before ++ [.go .worker]))).2
    exact Bool.false_ne_true hkeeps

end DailyScheduler.Suspension
