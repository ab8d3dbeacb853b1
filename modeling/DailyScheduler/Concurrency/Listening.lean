import DailyScheduler.Execution.WorkerCommands
import DailyScheduler.Lib.PubSub

set_option autoImplicit false

/-! # The command listeners of workers

Any number of programs send commands, and any number of workers listen: a worker subscribes to its channel
when it starts, a thread of it handles the documents one by one, and at its end it unsubscribes. The thread
has no handler for exceptions, so it ends with the first command that raises. For every interleaving: a
worker processes, in the order in which they were sent, the commands that are addressed to it and were sent
since it has listened, each of them once; and as long as its thread is there none of them is lost.
-/

namespace DailyScheduler.Listening

open JsonText WorkerCommands PubSub

/-- A worker, and whether its process has imported the module of the commands to suspend and resume. -/
structure Host where
  name : PyStr
  suspendWorker : Bool

/-- `fails` tells the commands whose `process_command` raises this time. -/
inductive Action (ι F : Type) where
  | send (c : SentCommand) (createdAt : Text)
  | start (w : ι)
  | handle (w : ι) (fails : ReadCommand F → Bool)
  | stop (w : ι)

section Model

variable {ι F : Type} [DecidableEq ι] [DecidableEq F] (fl : FloatFormat F) (hosts : ι → Host)

/-- The channel of a worker's listener. -/
def channel (w : ι) : PyStr := commandsChannel (some (hosts w).name)

def classes (w : ι) : List CommandClass := registry (hosts w).suspendWorker

/-- What a worker makes of a document. -/
def read (w : ι) (data : Text) : Except (PayloadError F) (ReadCommand F) :=
  readPayload fl (classes hosts w) data

/-- What an action does at the broker, unless it raises. -/
def Action.op : Action ι F → Option (PubSub.Op ι PyStr Text)
  | .send c createdAt => (sendCommand fl c createdAt).map fun p => .publish p.1 p.2
  | .start w => if (channel hosts w).encode.isSome then some (.subscribe w) else none
  | .handle w fails => some (.take w fun data => match read fl hosts w data with
      | .ok c => !fails c
      | .error _ => false)
  | .stop w => some (.unsubscribe w)

abbrev System (ι : Type) := ι → Subscriber Text

def act (s : System ι) (a : Action ι F) : System ι :=
  match a.op fl hosts with
  | some o => step (channel hosts) s o
  | none => s

/-- No worker has started. -/
def idle : System ι := fun _ => .fresh

/-- The commands whose `process_command` a worker has called since it listens. -/
def processed (s : System ι) (w : ι) : List (ReadCommand F) :=
  (s w).taken.filterMap fun data => (read fl hosts w data).toOption

/-- The commands for a worker that were sent since it listens, if it does. -/
def addressed (w : ι) : Option (List SentCommand) → Action ι F → Option (List SentCommand)
  | some l, .send c _ => if commandsChannel c.workerName = channel hosts w then some (l ++ [c]) else some l
  | some l, .stop v => if v = w then none else some l
  | none, .start v => if v = w ∧ (channel hosts w).encode.isSome then some [] else none
  | sent, _ => sent

/-- The documents that were published on its channel since then. -/
def heard (w : ι) (docs : Option (List Text)) (a : Action ι F) : Option (List Text) :=
  match a.op fl hosts with
  | some o => hear (channel hosts) w docs o
  | none => docs

/-- What a worker makes of the document of a command. -/
def arrives (w : ι) (c : SentCommand) : Except (PayloadError F) (ReadCommand F) :=
  if c.class_ ∈ classes hosts w then .ok c.read
  else .error (.invalidCommand (.str (str c.class_.commandName)))

/-- A worker that listens, and the commands that were sent to it since then. -/
structure Serves (s : System ι) (w : ι) (sent : List SentCommand) : Prop where
  connected : (s w).connected = true
  /-- They all name the worker. -/
  mine : ∀ c ∈ sent, c.workerName = some (hosts w).name ∨
    c.workerName = none ∧ (hosts w).name = str "None"
  /-- Each of them was handled or waits to be. -/
  count : (s w).taken.length + (s w).pending.length = sent.length
  /-- Those that were handled are the first ones, and were processed in their order. -/
  inOrder : processed fl hosts s w = ((sent.take (s w).taken.length).filter fun c =>
    decide (c.class_ ∈ classes hosts w)).map SentCommand.read
  /-- After one that is not known to the process no further one was handled. -/
  known : ∀ c ∈ (sent.take (s w).taken.length).dropLast, c.class_ ∈ classes hosts w
  /-- While the thread is there it has known all of them. -/
  alive : (s w).alive = true → ∀ c ∈ sent.take (s w).taken.length, c.class_ ∈ classes hosts w
  /-- If it knows all that were sent, and none of them fails, it processes all of them. -/
  progress : (s w).alive = true → (∀ c ∈ sent, c.class_ ∈ classes hosts w) →
    processed fl hosts (Run.last (act fl hosts) s
      (List.replicate (s w).pending.length (.handle w fun _ => false))) w = sent.map SentCommand.read

end Model

/-! ## The names of channels -/

theorem commandsChannel_eq_iff (w : Option PyStr) (n : PyStr) :
    commandsChannel w = commandsChannel (some n) ↔ w = some n ∨ w = none ∧ n = str "None" := by
  unfold commandsChannel
  rw [List.append_cancel_left_eq]
  cases w with
  | none => simp [eq_comm]
  | some m => simp

/-! ## One worker -/

section Worker

variable {ι F : Type} [DecidableEq ι] [DecidableEq F] {fl : FloatFormat F} {hosts : ι → Host} {w : ι}

omit [DecidableEq ι] in
theorem op_send (c : SentCommand) (createdAt : Text) : (.send c createdAt : Action ι F).op fl hosts
    = (sendCommand fl c createdAt).map fun p => .publish p.1 p.2 := rfl

omit [DecidableEq ι] in
theorem op_start (v : ι) : (.start v : Action ι F).op fl hosts
    = if (channel hosts v).encode.isSome then some (.subscribe v) else none := rfl

omit [DecidableEq ι] in
/-- A thread that goes on has read a command. -/
theorem readable_of_op {a : Action ι F} {ok : Text → Bool} (h : a.op fl hosts = some (.take w ok))
    {data : Text} (hok : ok data = true) : ∃ c, read fl hosts w data = .ok c := by
  cases a with
  | send c createdAt =>
      rw [op_send] at h
      obtain ⟨p, -, hp⟩ := Option.map_eq_some_iff.1 h
      cases hp
  | start v =>
      rw [op_start] at h
      split at h <;> cases h
  | stop v => cases h
  | handle v fails =>
      cases h
      dsimp only at hok
      cases hread : read fl hosts w data with
      | ok c => exact ⟨c, rfl⟩
      | error x =>
          rw [hread] at hok
          cases hok

/-- The documents on the channel of a worker are those of the commands for it. -/
structure Written (fl : FloatFormat F) (hosts : ι → Host) (w : ι) (docs : Option (List Text))
    (sent : Option (List SentCommand)) : Prop where
  documents : docs.map (List.map (read fl hosts w)) = sent.map (List.map (arrives hosts w))
  encodes : sent.isSome → (channel hosts w).encode.isSome
  addressed : ∀ l ∈ sent, ∀ c ∈ l, commandsChannel c.workerName = channel hosts w

namespace Written

variable {docs : Option (List Text)} {sent : Option (List SentCommand)}

omit [DecidableEq ι] [DecidableEq F] in
theorem idle : Written fl hosts w none none := ⟨rfl, nofun, nofun⟩

omit [DecidableEq ι] [DecidableEq F] in
theorem isSome_eq (h : Written fl hosts w docs sent) : docs.isSome = sent.isSome := by
  have hsome := congrArg Option.isSome h.documents
  simpa using hsome

/-- A command for the worker is one more document that it can read. -/
theorem send (hfl : fl.Lawful) (h : Written fl hosts w docs sent) (c : SentCommand) (createdAt : Text) :
    Written fl hosts w (heard fl hosts w docs (.send c createdAt))
      (Listening.addressed hosts w sent (.send c createdAt : Action ι F)) := by
  unfold heard
  rw [op_send]
  cases hsend : sendCommand fl c createdAt with
  | none =>
      -- a channel that cannot be encoded is none of a worker that listens
      cases sent with
      | none => exact h
      | some l =>
          have hne : commandsChannel c.workerName ≠ channel hosts w := by
            intro heq
            have hsome : (sendCommand fl c createdAt).isSome = _ := sendCommand_isSome c createdAt
            rw [hsend, heq, h.encodes rfl] at hsome
            cases hsome
          simpa [Listening.addressed, hne] using h
  | some p =>
      obtain ⟨ch, data⟩ := p
      obtain ⟨-, rfl, -⟩ := sendCommand_eq_some hsend
      have hread : read fl hosts w data = arrives hosts w c :=
        readPayload_of_send hfl (classes hosts w) hsend
      have hsome := h.isSome_eq
      cases sent with
      | none =>
          cases docs with
          | none => exact h
          | some d => cases hsome
      | some l =>
          cases docs with
          | none => cases hsome
          | some d =>
              have hdocs : d.map (read fl hosts w) = l.map (arrives hosts w) :=
                Option.some.inj h.documents
              simp only [Option.map_some, hear, Listening.addressed]
              by_cases hch : commandsChannel c.workerName = channel hosts w
              · simp only [hch, if_true]
                refine ⟨by simp [hdocs, hread], h.encodes, fun l' hl' c' hc' => ?_⟩
                cases hl'
                rcases List.mem_append.1 hc' with hc' | hc'
                · exact h.addressed l rfl c' hc'
                · rw [List.mem_singleton.1 hc']
                  exact hch
              · simpa only [hch, if_false] using h

/-- A worker starts with no commands. -/
theorem start (h : Written fl hosts w docs sent) (v : ι) :
    Written fl hosts w (heard fl hosts w docs (.start v))
      (Listening.addressed hosts w sent (.start v : Action ι F)) := by
  have hsome := h.isSome_eq
  unfold heard
  rw [op_start]
  cases sent with
  | some l =>
      cases docs with
      | none => cases hsome
      | some d =>
          by_cases henc : (channel hosts v).encode.isSome = true
          · simpa [henc, hear, Listening.addressed] using h
          · simpa [henc, Listening.addressed] using h
  | none =>
      cases docs with
      | some d => cases hsome
      | none =>
          by_cases hv : v = w
          · subst hv
            by_cases henc : (channel hosts v).encode.isSome = true
            · simp only [henc, hear, Listening.addressed, if_true, and_self]
              exact ⟨rfl, fun _ => henc, fun l hl c hc => by cases hl; cases hc⟩
            · simpa [henc, Listening.addressed] using h
          · by_cases henc : (channel hosts v).encode.isSome = true
            · simpa [henc, hv, hear, Listening.addressed] using h
            · simpa [henc, hv, Listening.addressed] using h

/-- After its end no command is for it. -/
theorem stop (h : Written fl hosts w docs sent) (v : ι) :
    Written fl hosts w (heard fl hosts w docs (.stop v))
      (Listening.addressed hosts w sent (.stop v : Action ι F)) := by
  have hsome := h.isSome_eq
  unfold heard Action.op
  cases sent with
  | none =>
      cases docs with
      | none => exact h
      | some d => cases hsome
  | some l =>
      cases docs with
      | none => cases hsome
      | some d =>
          by_cases hv : v = w
          · simpa [hear, Listening.addressed, hv] using idle
          · simpa [hear, Listening.addressed, hv] using h

theorem next (hfl : fl.Lawful) (h : Written fl hosts w docs sent) (a : Action ι F) :
    Written fl hosts w (heard fl hosts w docs a) (Listening.addressed hosts w sent a) := by
  cases a with
  | send c createdAt => exact h.send hfl c createdAt
  | start v => exact h.start v
  | stop v => exact h.stop v
  | handle v fails =>
      -- neither list changes
      have hdocs : heard fl hosts w docs (.handle v fails) = docs := by cases docs <;> rfl
      have hsent : Listening.addressed hosts w sent (.handle v fails) = sent := by cases sent <;> rfl
      rw [hdocs, hsent]
      exact h

end Written

/-- A worker has taken or keeps the documents on its channel, and each that it has taken without an error
is that of a command it knows. -/
structure Attends (fl : FloatFormat F) (hosts : ι → Host) (w : ι) (s : Subscriber Text)
    (docs : Option (List Text)) (sent : Option (List SentCommand)) : Prop where
  hears : Hears s docs
  written : Written fl hosts w docs sent
  sound : Sound (fun data => ∃ c, read fl hosts w data = .ok c) s

/-- One action of anyone. -/
theorem Attends.next (hfl : fl.Lawful) {s : System ι} {docs : Option (List Text)}
    {sent : Option (List SentCommand)} (h : Attends fl hosts w (s w) docs sent) (a : Action ι F) :
    Attends fl hosts w (act fl hosts s a w) (heard fl hosts w docs a) (addressed hosts w sent a) := by
  refine ⟨?_, h.written.next hfl a, ?_⟩
  · unfold act heard
    cases a.op fl hosts with
    | none => exact h.hears
    | some o => exact h.hears.next o
  · unfold act
    cases hop : a.op fl hosts with
    | none => exact h.sound
    | some o =>
        apply h.sound.next
        rintro ok rfl data hok
        exact readable_of_op hop hok

theorem Attends.run (hfl : fl.Lawful) (actions : List (Action ι F)) {s : System ι}
    {docs : Option (List Text)} {sent : Option (List SentCommand)}
    (h : Attends fl hosts w (s w) docs sent) :
    ∃ docs', Attends fl hosts w (Run.last (act fl hosts) s actions w) docs'
      (Run.last (addressed hosts w) sent actions) := by
  induction actions generalizing s docs sent with
  | nil => exact ⟨docs, h⟩
  | cons a actions ih => exact ih (h.next hfl a)

/-! ## What it has processed -/

omit [DecidableEq ι] [DecidableEq F] in
theorem arrives_eq_ok {c : SentCommand} {c' : ReadCommand F} (h : arrives hosts w c = .ok c') :
    c.class_ ∈ classes hosts w := by
  unfold arrives at h
  split at h
  · assumption
  · cases h

omit [DecidableEq ι] [DecidableEq F] in
theorem filterMap_arrives (l : List SentCommand) :
    (l.map (arrives (F := F) hosts w)).filterMap Except.toOption
      = (l.filter fun c => decide (c.class_ ∈ classes hosts w)).map SentCommand.read := by
  induction l with
  | nil => rfl
  | cons c l ih =>
      by_cases hc : c.class_ ∈ classes hosts w
      · have harrives : arrives (F := F) hosts w c = .ok c.read := if_pos hc
        simp [harrives, hc, Except.toOption, ih]
      · have hnone : (arrives (F := F) hosts w c).toOption = none := by
          rw [arrives, if_neg hc]
          rfl
        rw [List.map_cons, List.filterMap_cons_none hnone, ih]
        simp [hc]

omit [DecidableEq ι] [DecidableEq F] in
/-- The documents that a worker has taken, as the first commands. -/
theorem processed_eq {s : System ι} {l : List SentCommand}
    (h : (s w).taken.map (read fl hosts w) = l.map (arrives hosts w)) :
    processed fl hosts s w
      = (l.filter fun c => decide (c.class_ ∈ classes hosts w)).map SentCommand.read := by
  calc processed fl hosts s w
      = ((s w).taken.map (read fl hosts w)).filterMap Except.toOption := by
        rw [List.filterMap_map]
        rfl
    _ = _ := by rw [h, filterMap_arrives]

omit [DecidableEq ι] [DecidableEq F] in
/-- Documents that can be read are those of commands that are known. -/
theorem known_of_readable {d : List Text} {l : List SentCommand}
    (h : d.map (read fl hosts w) = l.map (arrives hosts w))
    (hread : ∀ data ∈ d, ∃ c, read fl hosts w data = .ok c) : ∀ c ∈ l, c.class_ ∈ classes hosts w := by
  intro c hc
  have hmem : arrives hosts w c ∈ d.map (read fl hosts w) := h ▸ List.mem_map_of_mem hc
  obtain ⟨data, hdata, heq⟩ := List.mem_map.1 hmem
  obtain ⟨c', hc'⟩ := hread data hdata
  exact arrives_eq_ok (heq ▸ hc')

/-- Rounds of one thread. -/
theorem rounds_taken (s : System ι) (fails : ReadCommand F → Bool) (n : Nat) :
    Run.last (act fl hosts) s (List.replicate n (.handle w fails)) w
      = Nat.iterate (fun t => t.take fun data => match read fl hosts w data with
          | .ok c => !fails c
          | .error _ => false) n (s w) := by
  induction n generalizing s with
  | zero => rfl
  | succ n ih =>
      have hround : act fl hosts s (.handle w fails) w = (s w).take fun data =>
          match read fl hosts w data with
          | .ok c => !fails c
          | .error _ => false := if_pos rfl
      show Run.last (act fl hosts) (act fl hosts s (.handle w fails)) (List.replicate n _) w = _
      rw [ih, hround]
      rfl

theorem Attends.serves {s : System ι} {docs : Option (List Text)} {sent : List SentCommand}
    (h : Attends fl hosts w (s w) docs (some sent)) : Serves fl hosts s w sent := by
  have hconnected : (s w).connected = true := by
    have hsome := h.written.isSome_eq
    rw [h.hears.heard] at hsome
    cases hc : (s w).connected with
    | true => rfl
    | false =>
        rw [hc] at hsome
        cases hsome
  have hdocs : ((s w).taken ++ (s w).pending).map (read fl hosts w) = sent.map (arrives hosts w) := by
    have hall := h.written.documents
    rw [h.hears.heard, if_pos hconnected] at hall
    exact Option.some.inj hall
  have hcount : (s w).taken.length + (s w).pending.length = sent.length := by
    have hlength := congrArg List.length hdocs
    simpa using hlength
  have htaken : (s w).taken.map (read fl hosts w)
      = (sent.take (s w).taken.length).map (arrives hosts w) := by
    calc (s w).taken.map (read fl hosts w)
        = (((s w).taken ++ (s w).pending).map (read fl hosts w)).take (s w).taken.length := by
          rw [← List.map_take, List.take_left]
      _ = _ := by rw [hdocs, List.map_take]
  refine ⟨hconnected, fun c hc => ?_, hcount, processed_eq htaken, ?_, ?_, ?_⟩
  · exact (commandsChannel_eq_iff _ _).1 (h.written.addressed sent rfl c hc)
  · refine known_of_readable (d := (s w).taken.dropLast) ?_ h.sound.before
    rw [List.map_dropLast, List.map_dropLast, htaken]
  · exact fun halive => known_of_readable htaken (h.sound.last halive)
  · intro halive hknown
    have hok : ∀ data ∈ (s w).pending, (match read fl hosts w data with
        | .ok c => !(fun _ : ReadCommand F => false) c
        | .error _ => false) = true := by
      intro data hdata
      have hmem : read fl hosts w data ∈ sent.map (arrives hosts w) := by
        rw [← hdocs]
        exact List.mem_map_of_mem (List.mem_append_right _ hdata)
      obtain ⟨c, hc, heq⟩ := List.mem_map.1 hmem
      have harrives : arrives (F := F) hosts w c = .ok c.read := if_pos (hknown c hc)
      rw [← heq, harrives]
      rfl
    have hrounds := @rounds_taken _ _ _ _ fl hosts w s (fun _ => false) (s w).pending.length
    rw [take_all (s w) hconnected halive hok] at hrounds
    have hall : sent.filter (fun c => decide (c.class_ ∈ classes hosts w)) = sent :=
      List.filter_eq_self.2 fun c hc => decide_eq_true (hknown c hc)
    rw [processed_eq (l := sent) (by rw [hrounds]; exact hdocs), hall]

/-- **Commands are processed in the order in which they were sent, each of them once**, by the worker that
they are addressed to and by no other, whatever programs send, start and stop meanwhile; and as long as
the worker's thread is there none of them is lost. -/
theorem commands_in_order (hfl : fl.Lawful) (actions : List (Action ι F)) (w : ι) :
    match Run.last (addressed hosts w) none actions with
    | none => (Run.last (act fl hosts) idle actions w).connected = false
    | some sent => Serves fl hosts (Run.last (act fl hosts) idle actions) w sent := by
  have hidle : Attends fl hosts w (idle w) none none := ⟨.fresh, .idle, .fresh⟩
  obtain ⟨docs, h⟩ := hidle.run hfl actions
  generalize hsent : Run.last (addressed hosts w) none actions = sent at h ⊢
  cases sent with
  | none =>
      have hsome := h.written.isSome_eq
      rw [h.hears.heard] at hsome
      cases hc : (Run.last (act fl hosts) idle actions w).connected with
      | false => rfl
      | true =>
          rw [hc] at hsome
          cases hsome
  | some l => exact h.serves

/-- The only worker. -/
def sampleHost : Unit → Host := fun _ => ⟨str "w", false⟩

/-- It starts, and a command to stop its job is sent. -/
def sampleActions : List (Action Unit ReturnValues.SampleFloat) :=
  [.start (), .send stopSample [], .handle () fun _ => false]

theorem sample_processed : processed ReturnValues.wholeFormat sampleHost
    (Run.last (act ReturnValues.wholeFormat sampleHost) idle sampleActions) () = [stopSample.read] := by
  have hsent : Run.last (addressed sampleHost ()) none sampleActions = some [stopSample] := rfl
  have hserves := @commands_in_order Unit _ _ _ _ sampleHost ReturnValues.wholeFormat_lawful
    sampleActions ()
  rw [hsent] at hserves
  have htaken : (Run.last (act ReturnValues.wholeFormat sampleHost) idle sampleActions
      ()).taken.length = 1 := by decide +kernel
  rw [hserves.inOrder, htaken]
  rfl

end Worker

end DailyScheduler.Listening
