import Mathlib.Data.Finmap

set_option autoImplicit false

/-! # Queue configurations and connections

`QueueConfiguration` of `types/settings_types.py`, the choice of a connection in
`helpers/queues/getters.py`, and `get_queues` of the worker. A connection is the constructor that is
called with its arguments. Python compares the values of a dictionary with `==`; `V` is the type of the
values the settings may hold, up to that equality.
-/

namespace DailyScheduler.Connections

/-- A value that is passed to a constructor. -/
inductive Arg (V : Type) where
  | none
  | int (i : Int)
  | str (s : String)
  | other (v : V)
  deriving DecidableEq

variable {V : Type}

def Arg.ofInt : Option Int → Arg V
  | some i => .int i
  | Option.none => .none

def Arg.ofStr : Option String → Arg V
  | some s => .str s
  | Option.none => .none

/-- A dictionary of keyword arguments. -/
abbrev Kwargs (V : Type) : Type := Finmap fun _ : String => Arg V

/-! ## Configurations -/

/-- The fields of a queue configuration. -/
structure QueueSettings (V : Type) where
  db : Option Int
  unixSocketPath : Option String
  url : Option String
  host : Option String
  port : Option Int
  username : Option String
  password : Option String
  async : Bool
  sentinels : Option (List (String × Int))
  sentinelKwargs : Option (Kwargs V)
  masterName : Option String
  connectionKwargs : Option (Kwargs V)

/-- `value` where Python takes it for true. -/
def given (value : Option String) : Option String := value.filter (· ≠ "")

/-- A list of hosts where Python takes it for true. -/
def givenHosts (value : Option (List (String × Int))) : Option (List (String × Int)) :=
  value.filter (· ≠ [])

/-- `value or {}`. -/
def orEmpty (value : Option (Kwargs V)) : Kwargs V := value.getD ∅

/-- A configuration that `__post_init__` lets through. -/
structure QueueConfiguration (V : Type) extends QueueSettings V where
  provided : (given url).isSome ∨ (given unixSocketPath).isSome ∨ (given host).isSome
    ∨ (givenHosts sentinels).isSome
  single : url.isSome.toNat + unixSocketPath.isSome.toNat + host.isSome.toNat ≤ 1
  complete : host.isSome → port.isSome ∧ db.isSome

/-- The exceptions raised here. `typeError` is the one for an argument given twice; which one it names
depends on the order of a dictionary. The text of `valueError` goes on with the configuration. -/
inductive ConnectError where
  | valueError (msg : String)
  | typeError
  | keyError
  | indexError
  | queueNotFoundError (name : String)
  | queueConnectionDiscrepancyError (name first : String)
  deriving DecidableEq

/-- `__post_init__`. -/
def QueueSettings.postInit (s : QueueSettings V) : Except ConnectError (QueueConfiguration V) :=
  if hp : (given s.url).isSome ∨ (given s.unixSocketPath).isSome ∨ (given s.host).isSome
      ∨ (givenHosts s.sentinels).isSome then
    if hs : s.url.isSome.toNat + s.unixSocketPath.isSome.toNat + s.host.isSome.toNat ≤ 1 then
      if hc : s.host.isSome → s.port.isSome ∧ s.db.isSome then
        .ok { s with provided := hp, single := hs, complete := hc }
      else .error (.valueError "HOST requires PORT and DB: ")
    else .error (.valueError "Only one of URL, UNIX_SOCKET_PATH, HOST should be provided: ")
  else .error (.valueError "At least one of URL, UNIX_SOCKET_PATH, HOST must be provided: ")

/-- A configuration is what its check lets through, unchanged. -/
theorem QueueSettings.postInit_eq_ok_iff {s : QueueSettings V} {c : QueueConfiguration V} :
    s.postInit = .ok c ↔ c.toQueueSettings = s := by
  constructor
  · intro h
    unfold postInit at h
    split_ifs at h
    cases h
    rfl
  · rintro rfl
    unfold postInit
    rw [dif_pos c.provided, dif_pos c.single, dif_pos c.complete]

/-- `same_connection_params`: the fields of `__CONNECTION_FIELDS__`. -/
def QueueSettings.sameConnectionParams [DecidableEq V] (a b : QueueSettings V) : Bool :=
  decide (a.url = b.url) && decide (a.db = b.db) && decide (a.unixSocketPath = b.unixSocketPath)
    && decide (a.host = b.host) && decide (a.port = b.port) && decide (a.password = b.password)
    && decide (a.sentinels = b.sentinels) && decide (a.masterName = b.masterName)
    && decide (a.connectionKwargs = b.connectionKwargs)

/-! ## Connections -/

inductive Broker where
  | redis
  | fakeredis
  | valkey
  deriving DecidableEq

inductive BrokerClass where
  | redis
  | strictRedis
  | valkey
  | strictValkey
  | fakeRedis
  | fakeStrictRedis
  deriving DecidableEq

inductive SentinelClass where
  | redis
  | valkey
  deriving DecidableEq

/-- The part of `SchedulerConfiguration` that is read here. -/
structure SchedulerConfiguration (V : Type) where
  broker : Broker
  failFastQueueProbing : Bool
  queueProbeSocketConnectTimeout : Arg V

/-- `BrokerMetaData`, which has no entry for `FAKEREDIS`. -/
def brokerMetaData : Broker → Bool → Option (BrokerClass × SentinelClass)
  | .redis, false => some (.redis, .redis)
  | .valkey, false => some (.valkey, .valkey)
  | .redis, true => some (.strictRedis, .redis)
  | .valkey, true => some (.strictValkey, .valkey)
  | .fakeredis, _ => none

def brokerCls (broker : Broker) (useStrictBroker : Bool) : BrokerClass :=
  match brokerMetaData broker useStrictBroker with
  | some (cls, _) => cls
  | none => if useStrictBroker then .fakeStrictRedis else .fakeRedis

/-- A constructor with its arguments. -/
inductive Connection (V : Type) where
  | fromUrl (cls : BrokerClass) (url : String) (kwargs : Kwargs V)
  | client (cls : BrokerClass) (kwargs : Kwargs V)
  | masterFor (sentinel : SentinelClass) (hosts : List (String × Int)) (kwargs : Kwargs V)
      (sentinelKwargs : Kwargs V) (serviceName : Option String) (cls : BrokerClass)
  deriving DecidableEq

/-- `kwargs.setdefault(key, value)`. -/
def setdefault (kwargs : Kwargs V) (key : String) (value : Arg V) : Kwargs V :=
  if key ∈ kwargs then kwargs else kwargs.insert key value

/-- `_fail_fast_kwargs`. -/
def failFastKwargs (env : SchedulerConfiguration V) (kwargs : Kwargs V) : Kwargs V :=
  setdefault (setdefault kwargs "socket_connect_timeout" env.queueProbeSocketConnectTimeout)
    "retry" .none

/-- The arguments as they are when `fail_fast` is set or not. -/
def probing (env : SchedulerConfiguration V) (failFast : Bool) (kwargs : Kwargs V) : Kwargs V :=
  if failFast && env.failFastQueueProbing then failFastKwargs env kwargs else kwargs

/-- Keyword arguments that are written out. -/
def keywords (args : List (String × Arg V)) : Kwargs V :=
  (args.map fun arg => (⟨arg.1, arg.2⟩ : Sigma fun _ : String => Arg V)).toFinmap

/-- `f(name=value, ..., **kwargs)`: an argument that comes twice is a `TypeError`. -/
def passed (args : List (String × Arg V)) (kwargs : Kwargs V) : Except ConnectError (Kwargs V) :=
  if (keywords args).Disjoint kwargs then .ok (keywords args ∪ kwargs) else .error .typeError

/-- `_get_connection`. -/
def getConnection (env : SchedulerConfiguration V) (config : QueueSettings V)
    (useStrictBroker failFast : Bool) : Except ConnectError (Connection V) :=
  let cls := brokerCls env.broker useStrictBroker
  let connectionKwargs := probing env failFast (orEmpty config.connectionKwargs)
  match given config.url with
  | some url =>
    (passed [("db", .ofInt config.db)] connectionKwargs).map (.fromUrl cls url)
  | none =>
  match given config.unixSocketPath with
  | some path =>
    .ok (.client cls (keywords [("unix_socket_path", .str path), ("db", .ofInt config.db)]))
  | none =>
  match givenHosts config.sentinels with
  | some hosts =>
    let fullConnectionKwargs := connectionKwargs ∪ keywords [("db", .ofInt config.db),
      ("password", .ofStr config.password), ("username", .ofStr config.username)]
    let sentinelKwargs := probing env failFast (orEmpty config.sentinelKwargs)
    match brokerMetaData env.broker useStrictBroker with
    | none => .error .keyError
    | some (_, sentinel) =>
      if "sentinel_kwargs" ∈ fullConnectionKwargs then .error .typeError
      else .ok (.masterFor sentinel hosts fullConnectionKwargs sentinelKwargs config.masterName cls)
  | none =>
    (passed [("host", .ofStr config.host), ("port", .ofInt config.port), ("db", .ofInt config.db),
      ("username", .ofStr config.username), ("password", .ofStr config.password)]
      connectionKwargs).map (.client cls)

/-! ## Queues -/

/-- `Queue`, as far as it is built here. -/
structure QueueHandle (V : Type) where
  name : String
  connection : Connection V
  isAsync : Bool

/-- `SCHEDULER_QUEUES`, once read. -/
abbrev Queues (V : Type) : Type := String → Option (QueueConfiguration V)

/-- `get_queue_configuration`. -/
def getQueueConfiguration (queues : Queues V) (name : String) :
    Except ConnectError (QueueConfiguration V) :=
  match queues name with
  | some config => .ok config
  | none => .error (.queueNotFoundError name)

/-- `get_queue`. -/
def getQueue (env : SchedulerConfiguration V) (queues : Queues V) (name : String)
    (failFast : Bool) : Except ConnectError (QueueHandle V) := do
  let config ← getQueueConfiguration queues name
  let connection ← getConnection env config.toQueueSettings false failFast
  pure ⟨name, connection, config.async⟩

/-- The consistency check of one more name, and its queue. -/
def getCheckedQueue [DecidableEq V] (env : SchedulerConfiguration V) (queues : Queues V)
    (config : QueueConfiguration V) (first name : String) : Except ConnectError (QueueHandle V) := do
  let curr ← getQueueConfiguration queues name
  if config.sameConnectionParams curr.toQueueSettings then getQueue env queues name false
  else .error (.queueConnectionDiscrepancyError name first)

/-- `get_queues`. -/
def getQueues [DecidableEq V] (env : SchedulerConfiguration V) (queues : Queues V) :
    List String → Except ConnectError (List (QueueHandle V))
  | [] => .error .indexError
  | first :: names => do
    let config ← getQueueConfiguration queues first
    let queue ← getQueue env queues first false
    let others ← names.mapM (getCheckedQueue env queues config first)
    pure (queue :: others)

end DailyScheduler.Connections
