import DailyScheduler.Model.Data

set_option autoImplicit false

/-! # Records as text

`redis_models/base.py` at the level of the text that the broker stores. `BaseModel` works on the
declared fields of a dataclass, whichever dataclass it is, so a class is here a `Schema`: its
fields with their types and defaults. `jobSchema` and `workerSchema` are the two classes
`JobModel` and `WorkerModel`.

The texts of numbers, of strings and of members of an `Enum` are the real ones. How the standard
library writes datetimes, JSON and pickles is a parameter.
-/

namespace DailyScheduler.Records

/-- What the encoding uses of the standard library: `datetime.isoformat` and
`datetime.fromisoformat`, `json.dumps` and `json.loads`, `pickle` in `base64`, `float` of a text,
given by its `repr`, and `str` of the other objects. -/
structure Codec where
  isoformat : Int → String
  fromisoformat : String → Option Int
  dumps : PyValue → String
  loads : String → Option PyValue
  pickle : PyValue → String
  unpickle : String → Option PyValue
  float : String → Option String
  print : PyValue → String

/-- The value of a field: a Python value, or a member of an `Enum` by its own value. -/
inductive Attr where
  | value (v : PyValue)
  | member (s : String)

/-- The types of public fields. `enum` lists the values of the members. -/
inductive FieldType where
  | str | datetime | bool | int | float | strList | strDict | anyList
  | enum (values : List String)

/-- The declaration of a field: `optional` for `T | None`; no default for a required field. -/
structure FieldSpec where
  type : FieldType
  optional : Bool := false
  default : Option Attr := none

/-- The text of an encoded value, as the broker's client sends it. -/
def render (c : Codec) : Stored → String
  | .number (.int i) => i.repr
  | .number (.float r) => r
  | .number v => c.print v
  | .text (.str s) => s
  | .text (.int i) => i.repr
  | .text (.datetime t) => c.isoformat t
  | .text v => c.print v
  | .json v => c.dumps v

/-- `_serialize`. -/
def Attr.serialize (c : Codec) : Attr → Except PyError (Option String)
  | .member s => .ok (some s)
  | .value v => v.serialize.map fun stored => stored.map (render c)

/-- The copy that `dataclasses.asdict` makes. -/
def Attr.copy : Attr → Except PyError Unit
  | .member _ => .ok ()
  | .value v => if v.copies then .ok () else .error (.exception "__deepcopy__")

/-- Whether `BaseModel.serialize` accepts the value. -/
def Attr.encodes : Attr → Bool
  | .member _ => true
  | .value v => v.encodes

/-- `_deserialize`. A text that the declared type does not accept is kept as it is. -/
def FieldType.deserialize (c : Codec) (s : String) : FieldType → Attr
  | .str => .value (.str s)
  | .datetime => .value (((c.fromisoformat s).map .datetime).getD (.str s))
  | .bool => .value ((s.toInt?.map fun i => .bool (decide (i ≠ 0))).getD (.str s))
  | .int => .value ((s.toInt?.map .int).getD (.str s))
  | .float => .value (((c.float s).map .float).getD (.str s))
  | .strList => .value ((c.loads s).getD (.str s))
  | .strDict => .value ((c.loads s).getD (.str s))
  | .anyList => .value (.str s)
  | .enum values => if s ∈ values then .member s else .value (.str s)

/-- A dataclass derived from `HashModel`: its public fields `F`, and which of them are in
`_non_serializable_fields`. -/
structure Schema (F : Type) where
  fields : List F
  name : F
  spec : F → FieldSpec
  nonSerializable : F → Bool
  mem_fields : ∀ f, f ∈ fields
  nodefault_of_optional : ∀ f, (spec f).optional = true → (spec f).default = some (.value .none)
  anyList_only : ∀ f, (spec f).type = .anyList → nonSerializable f = true
  required : ∀ f, nonSerializable f = true → (spec f).optional = false
  name_spec : spec name = { type := .str }
  name_plain : nonSerializable name = false

abbrev TextHash (F : Type) := Hash F fun _ => String

/-- The hashes at the broker, by the names of their records; a key that does not exist has no
fields. -/
abbrev Store (F : Type) := String → TextHash F

/-- An object of the class. -/
structure HashModel (F : Type) where
  attr : F → Attr
  dirtyFields : Finset F
  saveAll : Bool

namespace HashModel

variable {F : Type} [DecidableEq F] (c : Codec) (S : Schema F)

/-- The object after `__init__` and `__post_init__`. -/
def init (attr : F → Attr) : HashModel F := { attr := attr, dirtyFields := ∅, saveAll := true }

/-- `self.name`. -/
def name (r : HashModel F) : String :=
  match r.attr S.name with
  | .value (.str s) => s
  | _ => ""

/-- `__setattr__`. -/
def setattr (r : HashModel F) (f : F) (a : Attr) : HashModel F :=
  { r with attr := Function.update r.attr f a, dirtyFields := insert f r.dirtyFields }

/-- The text of the pickled value of a field. -/
def pickled (a : Attr) : String :=
  match a with
  | .value v => c.pickle v
  | .member s => c.pickle (.str s)

/-- The text of each field, where every encoder accepts its value. -/
def text (attr : F → Attr) : TextHash F := fun f =>
  if S.nonSerializable f then some (pickled c (attr f))
  else ((attr f).serialize c).toOption.join

/-- `serialize` with `with_nones=True`. All fields are copied and encoded, also those in
`_non_serializable_fields`, whose texts the subclass replaces afterwards. -/
def serialize (r : HashModel F) : Except PyError (TextHash F) := do
  S.fields.forM fun f => (r.attr f).copy
  S.fields.forM fun f => do
    let _ ← (r.attr f).serialize c
    pure ()
  pure (text c S r.attr)

/-- The attribute that a field of a hash becomes. -/
def readField (f : F) : Option String → Attr
  | none => (S.spec f).default.getD (.value .none)
  | some s =>
      if S.nonSerializable f then .value ((c.unpickle s).getD .none)
      else (S.spec f).type.deserialize c s

/-- `deserialize`: `none` when it raises. The fields that the subclass assigns at the end count
as changed. -/
def deserialize (h : TextHash F) : Option (HashModel F) :=
  if S.fields.all (fun f => (h f).isSome || (S.spec f).default.isSome) &&
      S.fields.all (fun f => !S.nonSerializable f || ((h f).bind c.unpickle).isSome) then
    some {
      attr := fun f => readField c S f (h f)
      dirtyFields := (S.fields.filter fun f => S.nonSerializable f).toFinset
      saveAll := false }
  else none

/-- `get`. -/
def get (store : Store F) (n : String) : Option (HashModel F) :=
  if (store n).nonempty S.fields then deserialize c S (store n) else none

/-- `save`: the hash and the object afterwards. The sets of names, and the expiry that
`WorkerModel.save` adds, are left out. -/
def save (saveAll : Bool) (store : Store F) (r : HashModel F) :
    Except PyError (Store F × HashModel F) := do
  let mapping ← r.serialize c S
  let written : F → Bool := fun f => saveAll || r.saveAll || decide (f ∈ r.dirtyFields)
  pure (Function.update store (r.name S) (Hash.merge written mapping (store (r.name S))),
    { r with dirtyFields := ∅, saveAll := false })

end HashModel

/-! ## The two classes -/

/-- The public fields of `JobModel`, `parent` included. -/
inductive JobAttr where
  | name | createdAt | parent | args | kwargs | queueName | description | funcName | timeout
  | successTtl | jobInfoTtl | atFront | lastHeartbeat | workerName | startedAt | enqueuedAt
  | endedAt | successCallbackName | successCallbackTimeout | failureCallbackName
  | failureCallbackTimeout | stoppedCallbackName | stoppedCallbackTimeout | taskType
  | scheduledTaskId | status | metadata
  deriving DecidableEq

/-- The public fields of `WorkerModel`. -/
inductive WorkerAttr where
  | name | createdAt | parent | queueNames | pid | hostname | ipAddress | version | pythonVersion
  | state | jobExecutionProcessPid | successfulJobCount | failedJobCount | completedJobs | birth
  | lastHeartbeat | isSuspended | currentJobName | stoppedJobName | totalWorkingTimeMs
  | currentJobWorkingTime | lastCleanedAt | shutdownRequestedDate | hasScheduler | death
  deriving DecidableEq

/-- `T | None = None`. -/
def FieldSpec.orNone (t : FieldType) : FieldSpec :=
  { type := t, optional := true, default := some (.value .none) }

/-- `T = v`. -/
def FieldSpec.withDefault (t : FieldType) (v : PyValue) : FieldSpec :=
  { type := t, default := some (.value v) }

def jobStatusValues : List String :=
  ["scheduled", "queued", "canceled", "started", "finished", "failed", "stopped"]

def workerStatusValues : List String :=
  ["created", "starting", "started", "suspended", "busy", "idle", "stopped"]

def jobSpec (cfg : SchedulerConfiguration) : JobAttr → FieldSpec
  | .name | .queueName | .description | .funcName => { type := .str }
  | .createdAt => { type := .datetime }
  | .args => { type := .anyList }
  | .kwargs | .metadata => { type := .strDict }
  | .timeout => .withDefault .int (.int cfg.DEFAULT_JOB_TIMEOUT)
  | .successTtl => .withDefault .int (.int cfg.DEFAULT_SUCCESS_TTL)
  | .jobInfoTtl => .withDefault .int (.int cfg.DEFAULT_JOB_TTL)
  | .atFront => .withDefault .bool (.bool false)
  | .lastHeartbeat | .startedAt | .enqueuedAt | .endedAt => .orNone .datetime
  | .parent | .workerName | .successCallbackName | .failureCallbackName | .stoppedCallbackName
  | .taskType => .orNone .str
  | .successCallbackTimeout | .failureCallbackTimeout | .stoppedCallbackTimeout =>
      .withDefault .int (.int cfg.CALLBACK_TIMEOUT)
  | .scheduledTaskId => .orNone .int
  | .status => { type := .enum jobStatusValues }

def workerSpec : WorkerAttr → FieldSpec
  | .name | .hostname | .ipAddress | .version | .pythonVersion => { type := .str }
  | .queueNames => { type := .strList }
  | .pid => { type := .int }
  | .state => { type := .enum workerStatusValues }
  | .jobExecutionProcessPid | .successfulJobCount | .failedJobCount | .completedJobs =>
      .withDefault .int (.int 0)
  | .createdAt | .birth | .lastHeartbeat | .lastCleanedAt | .shutdownRequestedDate | .death =>
      .orNone .datetime
  | .isSuspended | .hasScheduler => .withDefault .bool (.bool false)
  | .parent | .currentJobName | .stoppedJobName => .orNone .str
  | .totalWorkingTimeMs => .withDefault .float (.float "0.0")
  | .currentJobWorkingTime => .withDefault .float (.int 0)

def jobSchema (cfg : SchedulerConfiguration) : Schema JobAttr where
  fields := [.name, .createdAt, .parent, .args, .kwargs, .queueName, .description, .funcName,
    .timeout, .successTtl, .jobInfoTtl, .atFront, .lastHeartbeat, .workerName, .startedAt,
    .enqueuedAt, .endedAt, .successCallbackName, .successCallbackTimeout, .failureCallbackName,
    .failureCallbackTimeout, .stoppedCallbackName, .stoppedCallbackTimeout, .taskType,
    .scheduledTaskId, .status, .metadata]
  name := .name
  spec := jobSpec cfg
  nonSerializable := fun f => f = .args || f = .kwargs
  mem_fields := fun f => by cases f <;> decide
  nodefault_of_optional := fun f h => by cases f <;> first | rfl | cases h
  anyList_only := fun f h => by cases f <;> first | rfl | cases h
  required := fun f h => by cases f <;> first | rfl | cases h
  name_spec := rfl
  name_plain := rfl

def workerSchema : Schema WorkerAttr where
  fields := [.name, .createdAt, .parent, .queueNames, .pid, .hostname, .ipAddress, .version,
    .pythonVersion, .state, .jobExecutionProcessPid, .successfulJobCount, .failedJobCount,
    .completedJobs, .birth, .lastHeartbeat, .isSuspended, .currentJobName, .stoppedJobName,
    .totalWorkingTimeMs, .currentJobWorkingTime, .lastCleanedAt, .shutdownRequestedDate,
    .hasScheduler, .death]
  name := .name
  spec := workerSpec
  nonSerializable := fun _ => false
  mem_fields := fun f => by cases f <;> decide
  nodefault_of_optional := fun f h => by cases f <;> first | rfl | cases h
  anyList_only := fun f h => by cases f <;> cases h
  required := fun f h => by cases h
  name_spec := rfl
  name_plain := rfl

end DailyScheduler.Records
