import DailyScheduler.Lib.JsonRecord
import DailyScheduler.Records.ReturnValues

set_option autoImplicit false

/-! # Commands to workers

A command is an object of one of a few classes. `send_command` publishes its payload, a JSON document, on
the channel of its worker, whose listener makes an object of the same class from it. The class is looked up
by name among the classes that the process of the listener knows: a module of commands registers its
classes when it is imported.
-/

namespace DailyScheduler.WorkerCommands

open JsonText

/-! ## Classes and objects -/

inductive CommandClass where
  | killWorker
  | shutdown
  | stopJob
  | suspendWork
  | resumeWork
  deriving DecidableEq

def CommandClass.commandName : CommandClass → String
  | .killWorker => "kill-worker"
  | .shutdown => "shutdown"
  | .stopJob => "stop-job"
  | .suspendWork => "suspend"
  | .resumeWork => "resume"

/-- `_WORKER_COMMANDS_REGISTRY`. The package of the commands imports all of its modules but
`suspend_worker`. -/
def registry (suspendWorker : Bool) : List CommandClass :=
  [.killWorker, .shutdown, .stopJob] ++ if suspendWorker then [.suspendWork, .resumeWork] else []

/-- A command object, with the names it was given. -/
inductive WorkerCommand (W J : Type) where
  | killWorker (workerName : W)
  | shutdown (workerName : W)
  | stopJob (jobName : J) (workerName : W)
  | suspendWork (workerName : W)
  | resumeWork (workerName : W)

namespace WorkerCommand

variable {W J W' J' : Type}

/-- The class of an object. -/
def class_ : WorkerCommand W J → CommandClass
  | killWorker _ => .killWorker
  | shutdown _ => .shutdown
  | stopJob _ _ => .stopJob
  | suspendWork _ => .suspendWork
  | resumeWork _ => .resumeWork

def workerName : WorkerCommand W J → W
  | killWorker w => w
  | shutdown w => w
  | stopJob _ w => w
  | suspendWork w => w
  | resumeWork w => w

/-- The command with other names. -/
def map (f : W → W') (g : J → J') : WorkerCommand W J → WorkerCommand W' J'
  | killWorker w => .killWorker (f w)
  | shutdown w => .shutdown (f w)
  | stopJob j w => .stopJob (g j) (f w)
  | suspendWork w => .suspendWork (f w)
  | resumeWork w => .resumeWork (f w)

@[simp] theorem class_map (f : W → W') (g : J → J') (c : WorkerCommand W J) :
    (c.map f g).class_ = c.class_ := by cases c <;> rfl

@[simp] theorem workerName_map (f : W → W') (g : J → J') (c : WorkerCommand W J) :
    (c.map f g).workerName = f c.workerName := by cases c <;> rfl

end WorkerCommand

/-- A command as a program makes it: the record of a job may have no worker. -/
abbrev SentCommand := WorkerCommand (Option PyStr) PyStr

/-! ## Sending -/

/-- `WorkerCommandsChannelListener._commands_channel`. -/
def commandsChannel (workerName : Option PyStr) : PyStr :=
  str ":workers:pubsub:" ++ workerName.getD (str "None")

/-- What the class adds to the payload. -/
def SentCommand.kwargs : SentCommand → List (String × Option PyStr)
  | .stopJob jobName _ => [("job_name", some jobName)]
  | _ => []

/-- `WorkerCommand.command_payload`. -/
def SentCommand.commandPayload (c : SentCommand) (createdAt : Text) : List (String × Option PyStr) :=
  [("command", some (str c.class_.commandName)),
    ("worker_name", c.workerName),
    ("channel_name", some (commandsChannel c.workerName)),
    ("created_at", some (.ofText createdAt))] ++ SentCommand.kwargs c

section Model

variable {F : Type} [DecidableEq F] (fl : FloatFormat F)

/-- `send_command`: the channel and the document. A channel that cannot be encoded is an error. -/
def sendCommand (c : SentCommand) (createdAt : Text) : Option (PyStr × Text) := do
  let document ← dumps fl (record (c.commandPayload createdAt))
  let _ ← (commandsChannel c.workerName).encode
  pure (commandsChannel c.workerName, document)

/-! ## Receiving -/

/-- Any value but `None`. -/
def Value.isNull : Value F → Bool
  | .null => true
  | _ => false

/-- A job that a command may name. -/
abbrev Given (F : Type) := { v : Value F // Value.isNull v = false }

/-- A command as a listener makes it: its names are what the payload has. -/
abbrev ReadCommand (F : Type) := WorkerCommand (Value F) (Given F)

/-- What `handle_payload` raises before a command is processed. -/
inductive PayloadError (F : Type) where
  /-- `JSONDecodeError` -/
  | decode
  /-- `AttributeError`: the document is no dictionary. -/
  | attribute
  /-- `TypeError`: an argument is missing or given twice, or a name is not hashable. -/
  | type
  /-- `WorkerCommandError`: "Payload must contain 'command' key" -/
  | noCommand
  /-- `WorkerCommandError`: "Invalid command: " and the name -/
  | invalidCommand (name : Value F)
  /-- `WorkerCommandError`: "job_name for kill-job command is required" -/
  | noJobName

/-- `command_class(**payload)`. -/
def CommandClass.call (k : CommandClass) (payload : List (PyStr × Value F)) :
    Except (PayloadError F) (ReadCommand F) :=
  -- the object itself is an argument of this name
  if (lookup "self" payload).isSome then .error .type
  else match lookup "worker_name" payload with
  | none => .error .type
  | some w => match k with
    | .killWorker => .ok (.killWorker w)
    | .shutdown => .ok (.shutdown w)
    | .suspendWork => .ok (.suspendWork w)
    | .resumeWork => .ok (.resumeWork w)
    | .stopJob => match lookup "job_name" payload with
      | none => .error .type
      | some j => if hj : Value.isNull j = false then .ok (.stopJob ⟨j, hj⟩ w) else .error .noJobName

/-- `WorkerCommand.from_payload`, with the classes that are registered. -/
def fromPayload (classes : List CommandClass) (payload : List (PyStr × Value F)) :
    Except (PayloadError F) (ReadCommand F) :=
  match lookup "command" payload with
  | none => .error .noCommand
  | some .null => .error .noCommand
  | some (.arr _) => .error .type
  | some (.obj _) => .error .type
  | some (.str name) =>
      match classes.find? fun k => decide (str k.commandName = name) with
      | none => .error (.invalidCommand (.str name))
      | some k => k.call payload
  | some v => .error (.invalidCommand v)

/-- `WorkerCommandsChannelListener.handle_payload` up to the processing of the command. -/
def readPayload (classes : List CommandClass) (data : Text) :
    Except (PayloadError F) (ReadCommand F) :=
  match loads fl data with
  | none => .error .decode
  | some (.obj payload) => fromPayload classes payload
  | some _ => .error .attribute

/-- What a listener makes of a command. -/
def SentCommand.read (c : SentCommand) : ReadCommand F :=
  c.map ofOption fun j => ⟨.str j.join, rfl⟩

end Model

/-! ## The round trip -/

theorem commandName_inj : ∀ k k' : CommandClass, k.commandName = k'.commandName ↔ k = k' := by
  intro k k'
  cases k <;> cases k' <;> decide

/-- A class is found by its name if it is registered. -/
theorem find?_commandName (classes : List CommandClass) (k : CommandClass) :
    (classes.find? fun k' => decide (str k'.commandName = str k.commandName))
      = if k ∈ classes then some k else none := by
  have hname : (fun k' : CommandClass => decide (str k'.commandName = str k.commandName))
      = fun k' => decide (k' = k) := by
    funext k'
    simp [commandName_inj]
  rw [hname]
  induction classes with
  | nil => simp
  | cons k' classes ih =>
      by_cases hk : k' = k
      · simp [hk]
      · have hk' : k ≠ k' := fun h => hk h.symm
        simp [hk, hk', ih]

/-- The keys of a payload are distinct. -/
theorem nodup_commandPayload (c : SentCommand) (createdAt : Text) :
    ((c.commandPayload createdAt).map Prod.fst).Nodup := by
  cases c <;> simp [SentCommand.commandPayload, SentCommand.kwargs]

section RoundTrip

variable {F : Type} [DecidableEq F] {fl : FloatFormat F}

/-- A command is published unless its worker's name has a surrogate. -/
theorem sendCommand_isSome (c : SentCommand) (createdAt : Text) :
    (sendCommand fl c createdAt).isSome = (commandsChannel c.workerName).encode.isSome := by
  obtain ⟨t, ht⟩ : ∃ t, dumps fl (record (c.commandPayload createdAt)) = some t := dumps_record _
  unfold sendCommand
  rw [ht]
  cases (commandsChannel c.workerName).encode <;> rfl

theorem sendCommand_eq_some {c : SentCommand} {createdAt : Text} {ch : PyStr} {t : Text}
    (h : sendCommand fl c createdAt = some (ch, t)) :
    dumps fl (record (c.commandPayload createdAt)) = some t ∧ ch = commandsChannel c.workerName ∧
      ∃ u, (commandsChannel c.workerName).encode = some u := by
  unfold sendCommand at h
  obtain ⟨t', ht', h⟩ := Option.bind_eq_some_iff.1 h
  obtain ⟨u, hu, h⟩ := Option.bind_eq_some_iff.1 h
  cases h
  exact ⟨ht', rfl, u, hu⟩

/-- The name of the worker is no longer changed by joining. -/
theorem join_workerName {w : Option PyStr} {u : Text} (h : (commandsChannel w).encode = some u) :
    w.map PyStr.join = w := by
  cases w with
  | none => rfl
  | some n =>
      obtain ⟨v, hv⟩ : ∃ v, n.encode = some v := by
        have hall := PyStr.encode_eq_some.1 h
        unfold commandsChannel at hall
        obtain ⟨a, b, -, -, hb⟩ := List.append_eq_map_iff.1 hall
        exact ⟨b, PyStr.encode_eq_some.2 hb.symm⟩
      exact congrArg some (PyStr.join_of_encode hv)

omit [DecidableEq F] in
/-- What a lookup in the document finds. -/
theorem lookup_payload (c : SentCommand) (createdAt : Text) (key : String) :
    lookup key (recordItems (joined (c.commandPayload createdAt)) : List (PyStr × Value F))
      = ((c.commandPayload createdAt).find? fun p => decide (p.1 = key)).map
          fun p => ofOption (p.2.map PyStr.join) := by
  unfold joined
  rw [lookup_recordItems, List.find?_map, Option.map_map]
  rfl

/-- What a listener makes of the document. -/
theorem readPayload_of_send (hfl : fl.Lawful) (classes : List CommandClass) {c : SentCommand}
    {createdAt : Text} {ch : PyStr} {t : Text} (h : sendCommand fl c createdAt = some (ch, t)) :
    readPayload fl classes t = if c.class_ ∈ classes then .ok c.read
      else .error (.invalidCommand (.str (str c.class_.commandName))) := by
  obtain ⟨hdumps, -, u, hu⟩ := sendCommand_eq_some h
  have hloads := loads_dumps_record hfl (nodup_commandPayload c createdAt) hdumps
  have hcommand : lookup "command" (recordItems (joined (c.commandPayload createdAt)) :
      List (PyStr × Value F)) = some (.str (str c.class_.commandName)) := by
    rw [lookup_payload]
    simp [SentCommand.commandPayload, ofOption]
  have hworker : lookup "worker_name" (recordItems (joined (c.commandPayload createdAt)) :
      List (PyStr × Value F)) = some (ofOption c.workerName) := by
    rw [lookup_payload]
    simp [SentCommand.commandPayload, join_workerName hu]
  have hself : lookup "self" (recordItems (joined (c.commandPayload createdAt)) :
      List (PyStr × Value F)) = none := by
    rw [lookup_payload]
    cases c <;> simp [SentCommand.commandPayload, SentCommand.kwargs]
  unfold readPayload
  rw [hloads]
  show fromPayload classes (recordItems (joined (c.commandPayload createdAt))) = _
  unfold fromPayload
  rw [hcommand]
  simp only [find?_commandName]
  by_cases hmem : c.class_ ∈ classes
  · simp only [hmem, if_true]
    unfold CommandClass.call
    rw [hself, hworker]
    cases c with
    | stopJob j w =>
        have hjob : lookup "job_name" (recordItems (joined (SentCommand.commandPayload (.stopJob j w)
            createdAt)) : List (PyStr × Value F)) = some (.str j.join) := by
          rw [lookup_payload]
          simp [SentCommand.commandPayload, SentCommand.kwargs, ofOption]
        simp only [WorkerCommand.class_, hjob]
        rfl
    | killWorker w | shutdown w | suspendWork w | resumeWork w => rfl
  · simp only [hmem, if_false]

/-- **A command arrives as it was sent**: its document is published on the channel of its worker, and every
listener whose process has registered its class makes the same command from it, but for the surrogate pairs
in the name of a job, which are joined; all others raise. -/
theorem readPayload_sent (hfl : fl.Lawful) (classes : List CommandClass) {c : SentCommand}
    {createdAt : Text} {ch : PyStr} {t : Text} (h : sendCommand fl c createdAt = some (ch, t)) :
    ch = commandsChannel c.workerName ∧
      readPayload fl classes t = if c.class_ ∈ classes then .ok c.read
        else .error (.invalidCommand (.str (str c.class_.commandName))) := by
  obtain ⟨-, hch, -⟩ := sendCommand_eq_some h
  exact ⟨hch, readPayload_of_send hfl classes h⟩

/-- To stop the job `j` of the worker `w`. -/
def stopSample : SentCommand := .stopJob (str "j") (some (str "w"))

/-- It arrives at the worker. -/
theorem stopSample_arrives : ∃ t,
    sendCommand ReturnValues.wholeFormat stopSample [] = some (commandsChannel (some (str "w")), t) ∧
      readPayload ReturnValues.wholeFormat (registry false) t = .ok stopSample.read := by
  have hsent : (sendCommand ReturnValues.wholeFormat stopSample []).isSome = true := by
    rw [sendCommand_isSome]
    decide
  obtain ⟨⟨ch, t⟩, hsend⟩ := Option.isSome_iff_exists.1 hsent
  obtain ⟨rfl, hread⟩ := readPayload_sent ReturnValues.wholeFormat_lawful (registry false) hsend
  exact ⟨t, hsend, hread⟩

end RoundTrip

end DailyScheduler.WorkerCommands
