import DailyScheduler.Lib.Exceptions
import DailyScheduler.Records.HashModel

set_option autoImplicit false

/-! # Records with unknown fields

The decoder of `redis_models/base.py` on what the broker really answers: pairs of names and texts, of
which the class may know only some. `get`, `get_many` and `fetch_latest` read records in three ways, and
treat the exceptions of the decoder differently.
-/

namespace DailyScheduler.Records

/-- The answer to `HGETALL`, or the payload of a stream entry, as a dictionary. -/
structure Reply where
  pairs : List (String × String)
  nodup : (pairs.map Prod.fst).Nodup

/-- A keyword argument of `__init__`: how `_deserialize` reads its text, and its default. -/
structure Param where
  name : String
  decode : String → Attr
  default : Option Attr

/-- A dataclass as `deserialize` sees it. `hidden` are the fields that `__post_init__` sets again;
`pickled` is `_non_serializable_fields`. -/
structure DataClass where
  params : List Param
  hidden : List String
  pickled : List String

/-- The public attributes of an object. -/
abbrev Obj := List (String × Attr)

namespace DataClass

variable (cls : DataClass)

/-- The names that are fields of the class. -/
def knows (k : String) : Bool := k ∈ cls.params.map Param.name || k ∈ cls.hidden

/-- The loop of `BaseModel.deserialize` on one pair: an unknown field stays in the dictionary. -/
def convert (k v : String) : Attr :=
  if k ∈ cls.pickled then .value (.str v)
  else match cls.params.find? (fun p => p.name = k) with
    | some p => p.decode v
    | none => .value (.str v)

/-- The value of one argument of `__init__`. -/
def argument (data : List (String × Attr)) (p : Param) : Except PyError (String × Attr) :=
  match data.lookup p.name, p.default with
  | some a, _ => .ok (p.name, a)
  | none, some a => .ok (p.name, a)
  | none, none => .error (.typeError ("missing a required keyword-only argument: " ++ p.name))

/-- `cls(**data)`. -/
def construct (data : List (String × Attr)) : Except PyError Obj :=
  match data.find? fun kv => !cls.knows kv.1 with
  | some kv => .error (.typeError ("got an unexpected keyword argument " ++ kv.1))
  | none => cls.params.mapM (argument data)

/-- The assignments at the end of `JobModel.deserialize`. -/
def unpickle (c : Codec) (data : Reply) (kv : String × Attr) : Except PyError (String × Attr) :=
  if kv.1 ∈ cls.pickled then
    match data.pairs.lookup kv.1 with
    | some s =>
        match c.unpickle s with
        | some v => .ok (kv.1, .value v)
        | none => .error (.exception "UnpicklingError")
    | none => .error (.attributeError "encode")
  else .ok kv

/-- `deserialize`. -/
def deserialize (c : Codec) (data : Reply) : Except PyError Obj := do
  let obj ← cls.construct (data.pairs.map fun kv => (kv.1, cls.convert kv.1 kv.2))
  obj.mapM (cls.unpickle c data)

/-! ## The three readers -/

/-- `get`: whatever `deserialize` raises is logged. -/
def get (c : Codec) (store : String → Reply) (name : String) : Option Obj :=
  if (store name).pairs = [] then none else (cls.deserialize c (store name)).toOption

/-- One of the values of `get_many`. -/
def read (c : Codec) (data : Reply) : Except PyError (Option Obj) :=
  if data.pairs = [] then .ok none else (cls.deserialize c data).map some

/-- `get_many`. -/
def getMany (c : Codec) (store : String → Reply) (names : List String) :
    Except PyError (List (Option Obj)) :=
  names.mapM fun name => cls.read c (store name)

/-- `fetch_latest`: a stream keeps its entries in order. -/
def fetchLatest (c : Codec) (stream : List Reply) : Except PyError (Option Obj) :=
  match stream.getLast? with
  | none => .ok none
  | some payload => (cls.deserialize c payload).map some

end DataClass

/-! ## The three classes -/

/-- The name under which a field is stored. -/
def JobAttr.key : JobAttr → String
  | .name => "name"
  | .createdAt => "created_at"
  | .parent => "parent"
  | .args => "args"
  | .kwargs => "kwargs"
  | .queueName => "queue_name"
  | .description => "description"
  | .funcName => "func_name"
  | .timeout => "timeout"
  | .successTtl => "success_ttl"
  | .jobInfoTtl => "job_info_ttl"
  | .atFront => "at_front"
  | .lastHeartbeat => "last_heartbeat"
  | .workerName => "worker_name"
  | .startedAt => "started_at"
  | .enqueuedAt => "enqueued_at"
  | .endedAt => "ended_at"
  | .successCallbackName => "success_callback_name"
  | .successCallbackTimeout => "success_callback_timeout"
  | .failureCallbackName => "failure_callback_name"
  | .failureCallbackTimeout => "failure_callback_timeout"
  | .stoppedCallbackName => "stopped_callback_name"
  | .stoppedCallbackTimeout => "stopped_callback_timeout"
  | .taskType => "task_type"
  | .scheduledTaskId => "scheduled_task_id"
  | .status => "status"
  | .metadata => "meta"

def WorkerAttr.key : WorkerAttr → String
  | .name => "name"
  | .createdAt => "created_at"
  | .parent => "parent"
  | .queueNames => "queue_names"
  | .pid => "pid"
  | .hostname => "hostname"
  | .ipAddress => "ip_address"
  | .version => "version"
  | .pythonVersion => "python_version"
  | .state => "state"
  | .jobExecutionProcessPid => "job_execution_process_pid"
  | .successfulJobCount => "successful_job_count"
  | .failedJobCount => "failed_job_count"
  | .completedJobs => "completed_jobs"
  | .birth => "birth"
  | .lastHeartbeat => "last_heartbeat"
  | .isSuspended => "is_suspended"
  | .currentJobName => "current_job_name"
  | .stoppedJobName => "stopped_job_name"
  | .totalWorkingTimeMs => "total_working_time_ms"
  | .currentJobWorkingTime => "current_job_working_time"
  | .lastCleanedAt => "last_cleaned_at"
  | .shutdownRequestedDate => "shutdown_requested_date"
  | .hasScheduler => "has_scheduler"
  | .death => "death"

/-- A class derived from `HashModel`. -/
def hashClass {F : Type} (c : Codec) (S : Schema F) (key : F → String) : DataClass where
  params := S.fields.map fun f => ⟨key f, fun s => (S.spec f).type.deserialize c s, (S.spec f).default⟩
  hidden := ["_dirty_fields", "_save_all"]
  pickled := (S.fields.filter fun f => S.nonSerializable f).map key

def jobClass (c : Codec) (cfg : SchedulerConfiguration) : DataClass :=
  hashClass c (jobSchema cfg) JobAttr.key

def workerClass (c : Codec) : DataClass := hashClass c workerSchema WorkerAttr.key

def resultTypeValues : List String := ["successful", "failed", "stopped"]

/-- `Result`, read at the time `now`. -/
def resultClass (c : Codec) (now : Int) : DataClass where
  params := [
    ⟨"name", fun s => FieldType.str.deserialize c s, some (.value .none)⟩,
    ⟨"parent", fun s => FieldType.str.deserialize c s, none⟩,
    ⟨"type", fun s => (FieldType.enum resultTypeValues).deserialize c s, none⟩,
    ⟨"worker_name", fun s => FieldType.str.deserialize c s, none⟩,
    ⟨"ttl", fun s => FieldType.int.deserialize c s, some (.value .none)⟩,
    ⟨"created_at", fun s => FieldType.datetime.deserialize c s, some (.value (.datetime now))⟩,
    ⟨"return_value", fun s => .value ((c.loads s).getD (.str s)), some (.value .none)⟩,
    ⟨"exc_string", fun s => FieldType.str.deserialize c s, some (.value .none)⟩]
  hidden := []
  pickled := []

/-! ## The records of the classes derived from `HashModel`

On a record without unknown fields the decoder does what `HashModel.deserialize` does on the hash of its
fields. -/

/-- The record as a hash of the declared fields. -/
def Reply.hash {F : Type} (key : F → String) (d : Reply) : TextHash F := fun f => d.pairs.lookup (key f)

section HashClass

open Exceptions

variable {F : Type} {c : Codec} {S : Schema F} {key : F → String} {d : Reply}

theorem lookup_map_value {α β : Type} (g : String → α → β) (l : List (String × α)) (k : String) :
    (l.map fun kv => (kv.1, g kv.1 kv.2)).lookup k = (l.lookup k).map (g k) := by
  induction l with
  | nil => rfl
  | cons kv l ih =>
      rw [List.map_cons, List.lookup_cons, List.lookup_cons, ih]
      split
      · rename_i h
        rw [beq_iff_eq.1 h]
        rfl
      · rfl

theorem mem_pickled (hkey : Function.Injective key) (f : F) :
    key f ∈ (hashClass c S key).pickled ↔ S.nonSerializable f = true := by
  simp only [hashClass, List.mem_map, List.mem_filter]
  constructor
  · rintro ⟨g, ⟨-, hg⟩, heq⟩
    rw [← hkey heq]
    exact hg
  · intro hf
    exact ⟨f, ⟨S.mem_fields f, hf⟩, rfl⟩

/-- What the loop makes of a known field. -/
theorem convert_key (hkey : Function.Injective key) (f : F) (v : String) :
    (hashClass c S key).convert (key f) v
      = if S.nonSerializable f then .value (.str v) else (S.spec f).type.deserialize c v := by
  have hfind : (hashClass c S key).params.find? (fun p => p.name = key f)
      = some ⟨key f, fun s => (S.spec f).type.deserialize c s, (S.spec f).default⟩ := by
    have hsome : ((hashClass c S key).params.find? fun p => p.name = key f).isSome := by
      rw [List.find?_isSome]
      exact ⟨_, List.mem_map.2 ⟨f, S.mem_fields f, rfl⟩, by simp⟩
    obtain ⟨p, hp⟩ := Option.isSome_iff_exists.1 hsome
    obtain ⟨g, -, rfl⟩ := List.mem_map.1 (List.mem_of_find?_eq_some hp)
    have hname := List.find?_some hp
    obtain rfl : g = f := hkey (by simpa using hname)
    exact hp
  unfold DataClass.convert
  by_cases hf : S.nonSerializable f = true
  · rw [if_pos ((mem_pickled hkey f).2 hf), if_pos hf]
  · rw [if_neg fun h => hf ((mem_pickled hkey f).1 h), if_neg hf, hfind]

/-- The keyword argument of a field. -/
def param (c : Codec) (S : Schema F) (key : F → String) (f : F) : Param :=
  ⟨key f, fun s => (S.spec f).type.deserialize c s, (S.spec f).default⟩

/-- What is passed for it. -/
def passedValue (c : Codec) (S : Schema F) (key : F → String) (d : Reply) (f : F) : Attr :=
  match d.hash key f with
  | some s => (hashClass c S key).convert (key f) s
  | none => (S.spec f).default.getD (.value .none)

/-- The dictionary after the loop. -/
def Reply.converted (cls : DataClass) (d : Reply) : List (String × Attr) :=
  d.pairs.map fun kv => (kv.1, cls.convert kv.1 kv.2)

theorem lookup_converted (f : F) :
    (d.converted (hashClass c S key)).lookup (key f)
      = (d.hash key f).map ((hashClass c S key).convert (key f)) :=
  lookup_map_value _ _ _

theorem argument_ok {f : F} (h : (d.hash key f).isSome ∨ (S.spec f).default.isSome) :
    DataClass.argument (d.converted (hashClass c S key)) (param c S key f)
      = .ok (key f, passedValue c S key d f) := by
  unfold DataClass.argument passedValue
  dsimp only [param]
  rw [lookup_converted]
  cases hf : d.hash key f with
  | some s => rfl
  | none =>
      rw [hf] at h
      obtain ⟨a, ha⟩ := Option.isSome_iff_exists.1 (h.resolve_left (by simp))
      rw [ha]
      rfl

theorem argument_error {f : F} (h : d.hash key f = none) (h' : (S.spec f).default = none)
    (y : String × Attr) :
    DataClass.argument (d.converted (hashClass c S key)) (param c S key f) ≠ .ok y := by
  unfold DataClass.argument
  dsimp only [param]
  rw [lookup_converted, h, h']
  rintro ⟨⟩

theorem unpickle_plain (hkey : Function.Injective key) {f : F} (hf : S.nonSerializable f = false) :
    (hashClass c S key).unpickle c d (key f, passedValue c S key d f)
      = .ok (key f, HashModel.readField c S f (d.hash key f)) := by
  have hnot : key f ∉ (hashClass c S key).pickled := by
    rw [mem_pickled hkey, hf]
    decide
  rw [DataClass.unpickle, if_neg hnot, passedValue, HashModel.readField.eq_def]
  cases d.hash key f with
  | none => rfl
  | some s =>
      dsimp only
      rw [convert_key hkey, hf]
      rfl

theorem unpickle_pickled (hkey : Function.Injective key) {f : F} (hf : S.nonSerializable f = true)
    {s : String} {v : PyValue} (hs : d.hash key f = some s) (hv : c.unpickle s = some v) :
    (hashClass c S key).unpickle c d (key f, passedValue c S key d f)
      = .ok (key f, HashModel.readField c S f (d.hash key f)) := by
  have hlookup : d.pairs.lookup (key f) = some s := hs
  rw [DataClass.unpickle, if_pos ((mem_pickled hkey f).2 hf), hlookup, hs, HashModel.readField]
  dsimp only
  rw [hv, if_pos hf]
  rfl

theorem unpickle_error (hkey : Function.Injective key) {f : F} (hf : S.nonSerializable f = true)
    (h : ((d.hash key f).bind c.unpickle).isSome = false) (y : String × Attr) :
    (hashClass c S key).unpickle c d (key f, passedValue c S key d f) ≠ .ok y := by
  rw [DataClass.unpickle, if_pos ((mem_pickled hkey f).2 hf)]
  unfold Reply.hash at h
  cases hs : d.pairs.lookup (key f) with
  | none => rintro ⟨⟩
  | some s =>
      rw [hs, Option.bind_some] at h
      have hnone : c.unpickle s = none := by simpa using h
      dsimp only
      rw [hnone]
      rintro ⟨⟩

/-- On a record without unknown fields, the decoder is that of the declared fields. -/
theorem deserialize_hashClass [DecidableEq F] (hkey : Function.Injective key)
    (hplain : ∀ kv ∈ d.pairs, (hashClass c S key).knows kv.1 = true) :
    ((hashClass c S key).deserialize c d).toOption
      = (HashModel.deserialize c S (d.hash key)).map fun r => S.fields.map fun f => (key f, r.attr f) := by
  have hconstruct : (hashClass c S key).construct (d.converted (hashClass c S key))
      = (S.fields.map (param c S key)).mapM
          (DataClass.argument (d.converted (hashClass c S key))) := by
    have hnone : (d.converted (hashClass c S key)).find?
        (fun kv => !(hashClass c S key).knows kv.1) = none := by
      rw [List.find?_eq_none]
      intro kv hkv
      obtain ⟨kv', hmem, rfl⟩ := List.mem_map.1 hkv
      simp [hplain kv' hmem]
    rw [DataClass.construct, hnone]
    rfl
  show ((hashClass c S key).construct (d.converted (hashClass c S key)) >>= fun obj =>
    obj.mapM ((hashClass c S key).unpickle c d)).toOption = _
  rw [hconstruct, HashModel.deserialize]
  by_cases hgiven : ∀ f ∈ S.fields, ((d.hash key f).isSome || (S.spec f).default.isSome) = true
  · have hargs : ∀ f ∈ S.fields, DataClass.argument (d.converted (hashClass c S key)) (param c S key f)
        = .ok (key f, passedValue c S key d f) := by
      intro f hf
      have hone := hgiven f hf
      rw [Bool.or_eq_true] at hone
      exact argument_ok hone
    rw [mapM_map hargs]
    change ((S.fields.map fun f => (key f, passedValue c S key d f)).mapM
      ((hashClass c S key).unpickle c d)).toOption = _
    by_cases hpickled : ∀ f ∈ S.fields,
        (!S.nonSerializable f || ((d.hash key f).bind c.unpickle).isSome) = true
    · have hunpickle : ∀ f ∈ S.fields, (hashClass c S key).unpickle c d
            (key f, passedValue c S key d f)
          = .ok (key f, HashModel.readField c S f (d.hash key f)) := by
        intro f hf
        cases hser : S.nonSerializable f with
        | false => exact unpickle_plain hkey hser
        | true =>
            have hsome := hpickled f hf
            rw [hser, Bool.not_true, Bool.false_or] at hsome
            obtain ⟨v, hv⟩ := Option.isSome_iff_exists.1 hsome
            obtain ⟨s, hs, hv⟩ := Option.bind_eq_some_iff.1 hv
            exact unpickle_pickled hkey hser hs hv
      rw [mapM_map hunpickle, if_pos]
      · rfl
      · rw [Bool.and_eq_true, List.all_eq_true, List.all_eq_true]
        exact ⟨hgiven, hpickled⟩
    · rw [if_neg]
      · push Not at hpickled
        obtain ⟨f, hf, hbad⟩ := hpickled
        have hser : S.nonSerializable f = true := by
          by_contra hser
          simp [hser] at hbad
        rw [hser, Bool.not_true, Bool.false_or] at hbad
        exact toOption_eq_none (List.mem_map.2 ⟨f, hf, rfl⟩)
          (unpickle_error hkey hser (by simpa using hbad))
      · rw [Bool.and_eq_true, List.all_eq_true, List.all_eq_true]
        exact fun hboth => hpickled hboth.2
  · rw [if_neg]
    · push Not at hgiven
      obtain ⟨f, hf, hmissing⟩ := hgiven
      rw [ne_eq, Bool.or_eq_true, not_or] at hmissing
      have hnone : ((S.fields.map (param c S key)).mapM
          (DataClass.argument (d.converted (hashClass c S key)))).toOption = none :=
        toOption_eq_none (List.mem_map.2 ⟨f, hf, rfl⟩)
          (argument_error (by simpa using hmissing.1) (by simpa using hmissing.2))
      cases hall : (S.fields.map (param c S key)).mapM
          (DataClass.argument (d.converted (hashClass c S key))) with
      | error e => rfl
      | ok l =>
          rw [hall] at hnone
          cases hnone
    · rw [Bool.and_eq_true, List.all_eq_true, List.all_eq_true]
      exact fun hboth => hgiven hboth.1

end HashClass

theorem JobAttr.key_injective : Function.Injective JobAttr.key := by
  have hnodup : ((jobSchema {}).fields.map JobAttr.key).Nodup := by decide
  intro f g h
  exact List.inj_on_of_nodup_map hnodup ((jobSchema {}).mem_fields f) ((jobSchema {}).mem_fields g) h

theorem WorkerAttr.key_injective : Function.Injective WorkerAttr.key := by
  have hnodup : (workerSchema.fields.map WorkerAttr.key).Nodup := by decide
  intro f g h
  exact List.inj_on_of_nodup_map hnodup (workerSchema.mem_fields f) (workerSchema.mem_fields g) h

/-- `JobModel` and `WorkerModel`, as what is known of saving and loading them has them. -/
theorem deserialize_classes (c : Codec) (cfg : SchedulerConfiguration) (d : Reply) :
    ((∀ kv ∈ d.pairs, (jobClass c cfg).knows kv.1 = true) →
      ((jobClass c cfg).deserialize c d).toOption
        = (HashModel.deserialize c (jobSchema cfg) (d.hash JobAttr.key)).map fun r =>
            (jobSchema cfg).fields.map fun f => (f.key, r.attr f))
    ∧ ((∀ kv ∈ d.pairs, (workerClass c).knows kv.1 = true) →
      ((workerClass c).deserialize c d).toOption
        = (HashModel.deserialize c workerSchema (d.hash WorkerAttr.key)).map fun r =>
            workerSchema.fields.map fun f => (f.key, r.attr f)) :=
  ⟨deserialize_hashClass JobAttr.key_injective, deserialize_hashClass WorkerAttr.key_injective⟩

/-! ## With and without the unknown fields -/

/-- The record without the fields that the class does not know. -/
def Reply.known (cls : DataClass) (d : Reply) : Reply where
  pairs := d.pairs.filter fun kv => cls.knows kv.1
  nodup := d.nodup.sublist (List.filter_sublist.map Prod.fst)

/-- The class knows every field. -/
def Reply.Plain (cls : DataClass) (d : Reply) : Prop := ∀ kv ∈ d.pairs, cls.knows kv.1 = true

instance (cls : DataClass) (d : Reply) : Decidable (d.Plain cls) :=
  inferInstanceAs (Decidable (∀ kv ∈ d.pairs, cls.knows kv.1 = true))

/-- Apart from unknown fields it is the record of an object. -/
def Reply.WellFormed (c : Codec) (cls : DataClass) (d : Reply) : Prop :=
  (d.known cls).pairs ≠ [] ∧ ∃ obj, cls.deserialize c (d.known cls) = .ok obj

section Readers

open Exceptions

variable {c : Codec} {cls : DataClass} {d : Reply}

theorem Reply.known_of_plain (h : d.Plain cls) : d.known cls = d := by
  obtain ⟨pairs, nodup⟩ := d
  have hpairs : (pairs.filter fun kv => cls.knows kv.1) = pairs := List.filter_eq_self.2 h
  unfold Reply.known
  congr 1

/-- An unknown field makes `__init__` raise. -/
theorem DataClass.construct_unknown (h : ¬d.Plain cls) :
    ∃ x, cls.construct (d.pairs.map fun kv => (kv.1, cls.convert kv.1 kv.2)) = .error x := by
  have hsome : ((d.pairs.map fun kv => (kv.1, cls.convert kv.1 kv.2)).find?
      fun kv => !cls.knows kv.1).isSome := by
    rw [List.find?_isSome]
    unfold Reply.Plain at h
    push Not at h
    obtain ⟨kv, hmem, hknows⟩ := h
    exact ⟨_, List.mem_map.2 ⟨kv, hmem, rfl⟩, by simpa using hknows⟩
  obtain ⟨kv, hkv⟩ := Option.isSome_iff_exists.1 hsome
  refine ⟨.typeError ("got an unexpected keyword argument " ++ kv.1), ?_⟩
  rw [construct, hkv]

theorem DataClass.deserialize_unknown (h : ¬d.Plain cls) :
    ∃ x, cls.deserialize c d = .error x := by
  obtain ⟨x, hx⟩ := construct_unknown h
  refine ⟨x, ?_⟩
  rw [deserialize, hx]
  rfl

/-- The decoder returns exactly for the records without unknown fields. -/
theorem Reply.WellFormed.deserialize_ok_iff (h : d.WellFormed c cls) :
    (∃ obj, cls.deserialize c d = .ok obj) ↔ d.Plain cls := by
  constructor
  · rintro ⟨obj, hobj⟩
    by_contra hplain
    obtain ⟨x, hx⟩ := DataClass.deserialize_unknown (c := c) hplain
    rw [hx] at hobj
    cases hobj
  · intro hplain
    obtain ⟨-, obj, hobj⟩ := h
    rw [Reply.known_of_plain hplain] at hobj
    exact ⟨obj, hobj⟩

theorem Reply.WellFormed.pairs_ne_nil (h : d.WellFormed c cls) : d.pairs ≠ [] := by
  intro hnil
  refine h.1 ?_
  show d.pairs.filter _ = []
  rw [hnil, List.filter_nil]

/-- `get` loses the object of a record with an unknown field. -/
theorem DataClass.get_eq_iff {store : String → Reply} {n : String} (h : (store n).WellFormed c cls) :
    cls.get c store n = cls.get c (fun m => (store m).known cls) n ↔ (store n).Plain cls := by
  constructor
  · intro heq
    obtain ⟨hne, obj, hobj⟩ := h
    rw [get, get, if_neg hne, hobj] at heq
    by_contra hplain
    obtain ⟨x, hx⟩ := deserialize_unknown (c := c) hplain
    rw [hx] at heq
    split at heq <;> cases heq
  · intro hplain
    rw [get, get, Reply.known_of_plain hplain]

/-- `get_many` raises as soon as one of its records has an unknown field. -/
theorem DataClass.getMany_eq_iff {store : String → Reply} {names : List String}
    (h : ∀ n ∈ names, (store n).WellFormed c cls) :
    cls.getMany c store names = cls.getMany c (fun m => (store m).known cls) names
      ↔ ∀ n ∈ names, (store n).Plain cls := by
  constructor
  · intro heq n hn
    have hall : ∀ m ∈ names, ∃ o, cls.read c ((store m).known cls) = .ok o := by
      intro m hm
      obtain ⟨hne, obj, hobj⟩ := h m hm
      exact ⟨some obj, by rw [read, if_neg hne, hobj]; rfl⟩
    obtain ⟨l, hl⟩ := exists_of_forall hall
    rw [getMany, getMany, hl] at heq
    obtain ⟨o, -, ho⟩ := (mapM_ok heq).1 n hn
    rw [read, if_neg (h n hn).pairs_ne_nil] at ho
    refine (h n hn).deserialize_ok_iff.1 ?_
    cases hd : cls.deserialize c (store n) with
    | ok obj => exact ⟨obj, rfl⟩
    | error x =>
        rw [hd] at ho
        cases ho
  · intro hplain
    refine mapM_congr fun n hn => ?_
    dsimp only
    rw [Reply.known_of_plain (hplain n hn)]

theorem DataClass.fetchLatest_eq_iff {stream : List Reply} {payload : Reply}
    (hlast : stream.getLast? = some payload) (h : payload.WellFormed c cls) :
    cls.fetchLatest c stream = cls.fetchLatest c (stream.map (Reply.known cls))
      ↔ payload.Plain cls := by
  rw [fetchLatest, fetchLatest, List.getLast?_map, hlast]
  dsimp only [Option.map_some]
  constructor
  · intro heq
    obtain ⟨-, obj, hobj⟩ := id h
    rw [hobj] at heq
    refine h.deserialize_ok_iff.1 ?_
    cases hd : cls.deserialize c payload with
    | ok obj' => exact ⟨obj', rfl⟩
    | error x =>
        rw [hd] at heq
        cases heq
  · intro hplain
    rw [Reply.known_of_plain hplain]

end Readers

/-- With additional fields in their records, jobs and workers are read as without them, by `get` and by
`get_many`, and results by `fetch_latest`, exactly if there are no such fields. -/
theorem tolerates_iff (c : Codec) (cfg : SchedulerConfiguration) (now : Int) :
    (∀ cls ∈ [jobClass c cfg, workerClass c], ∀ (store : String → Reply) (names : List String),
      (∀ n ∈ names, (store n).WellFormed c cls) →
        ((∀ n ∈ names, cls.get c store n = cls.get c (fun m => (store m).known cls) n)
          ↔ ∀ n ∈ names, (store n).Plain cls)
        ∧ (cls.getMany c store names = cls.getMany c (fun m => (store m).known cls) names
          ↔ ∀ n ∈ names, (store n).Plain cls))
    ∧ ∀ (stream : List Reply) (payload : Reply), stream.getLast? = some payload →
      payload.WellFormed c (resultClass c now) →
        ((resultClass c now).fetchLatest c stream
            = (resultClass c now).fetchLatest c (stream.map (Reply.known (resultClass c now)))
          ↔ payload.Plain (resultClass c now)) := by
  constructor
  · intro cls _ store names h
    refine ⟨forall₂_congr fun n hn => ?_, DataClass.getMany_eq_iff h⟩
    exact DataClass.get_eq_iff (h n hn)
  · intro stream payload hlast h
    exact DataClass.fetchLatest_eq_iff hlast h

/-- Only the empty list is read as JSON. -/
def listCodec : Codec where
  isoformat := fun _ => ""
  fromisoformat := fun _ => none
  dumps := fun _ => "[]"
  loads := fun s => if s = "[]" then some (.list []) else none
  pickle := fun _ => ""
  unpickle := fun _ => none
  float := fun _ => none
  print := fun _ => ""

/-- A worker's record. -/
def workerPairs : List (String × String) :=
  [("name", "w"), ("queue_names", "[]"), ("pid", "1"), ("hostname", "h"), ("ip_address", "h"),
    ("version", "4"), ("python_version", "3"), ("state", "idle")]

/-- The entry of a result stream. -/
def resultPairs : List (String × String) :=
  [("parent", "a"), ("type", "successful"), ("worker_name", "w")]

/-- The record with a field that another version wrote. -/
def written (pairs : List (String × String)) (h : ((("region", "eu") :: pairs).map Prod.fst).Nodup) :
    Reply := ⟨("region", "eu") :: pairs, h⟩

theorem sample_tolerates_iff :
    (workerClass listCodec).get listCodec (fun _ => ⟨workerPairs, by decide⟩) "w"
      = (workerClass listCodec).get listCodec
          (fun _ => Reply.known (workerClass listCodec) ⟨workerPairs, by decide⟩) "w" := by
  have hwell : Reply.WellFormed listCodec (workerClass listCodec) ⟨workerPairs, by decide⟩ :=
    ⟨by decide, _, rfl⟩
  have hplain : Reply.Plain (workerClass listCodec) ⟨workerPairs, by decide⟩ := by decide
  have htolerates := ((tolerates_iff listCodec {} 0).1 (workerClass listCodec)
    (List.mem_cons_of_mem _ List.mem_cons_self) (fun _ => ⟨workerPairs, by decide⟩) ["w"]
    fun _ _ => hwell).1
  exact htolerates.2 (fun _ _ => hplain) "w" List.mem_cons_self

/-- With one more field, the worker is not found by `get`, and `get_many` and `fetch_latest` raise. -/
theorem extra_field_refused :
    let worker := written workerPairs (by decide)
    let result := written resultPairs (by decide)
    let known := worker.known (workerClass listCodec)
    (((workerClass listCodec).get listCodec (fun _ => worker) "w").isNone
        ∧ ((workerClass listCodec).get listCodec (fun _ => known) "w").isSome)
      ∧ (((workerClass listCodec).getMany listCodec (fun _ => worker) ["w"]).toBool = false
        ∧ ((workerClass listCodec).getMany listCodec (fun _ => known) ["w"]).toBool = true)
      ∧ (((resultClass listCodec 0).fetchLatest listCodec [result]).toBool = false
        ∧ ((resultClass listCodec 0).fetchLatest listCodec
          [result.known (resultClass listCodec 0)]).toBool = true) := by
  decide +kernel

end DailyScheduler.Records
