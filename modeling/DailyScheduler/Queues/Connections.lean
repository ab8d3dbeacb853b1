import DailyScheduler.Lib.Exceptions
import DailyScheduler.Model.Configuration

set_option autoImplicit false

/-! # One connection for several queues

A worker reaches all its queues through the connection of the first. `get_queues` compares the fields of
`__CONNECTION_FIELDS__`, which leave out the user name and the arguments of the sentinels; whether these
matter depends on the kind of connection.
-/

namespace DailyScheduler.Connections

open Exceptions

variable {V : Type}

/-! ## Dictionaries of keyword arguments -/

theorem mem_setdefault {kwargs : Kwargs V} {key k : String} {value : Arg V} :
    k ∈ setdefault kwargs key value ↔ k ∈ kwargs ∨ k = key := by
  unfold setdefault
  split
  · rename_i hkey
    constructor
    · exact Or.inl
    · rintro (h | rfl)
      · exact h
      · exact hkey
  · rw [Finmap.mem_insert, or_comm]

/-- Failing fast adds two arguments, and only where they are missing. -/
theorem mem_failFastKwargs {env : SchedulerConfiguration V} {kwargs : Kwargs V} {k : String}
    (h : k ≠ "socket_connect_timeout") (h' : k ≠ "retry") :
    k ∈ failFastKwargs env kwargs ↔ k ∈ kwargs := by
  unfold failFastKwargs
  rw [mem_setdefault, mem_setdefault]
  simp [h, h']

theorem mem_probing {env : SchedulerConfiguration V} {failFast : Bool} {kwargs : Kwargs V}
    {k : String} (h : k ≠ "socket_connect_timeout") (h' : k ≠ "retry") :
    k ∈ probing env failFast kwargs ↔ k ∈ kwargs := by
  unfold probing
  split
  · exact mem_failFastKwargs h h'
  · exact Iff.rfl

theorem lookup_keywords (args : List (String × Arg V)) (k : String) :
    (keywords args).lookup k
      = (args.map fun arg => (⟨arg.1, arg.2⟩ : Sigma fun _ : String => Arg V)).dlookup k :=
  Finmap.dlookup_list_toFinmap k _

@[simp] theorem lookup_keywords_nil (k : String) :
    (keywords ([] : List (String × Arg V))).lookup k = none := rfl

@[simp] theorem lookup_keywords_cons (key : String) (value : Arg V) (args : List (String × Arg V))
    (k : String) :
    (keywords ((key, value) :: args)).lookup k
      = if k = key then some value else (keywords args).lookup k := by
  rw [lookup_keywords, lookup_keywords]
  split
  · rename_i h
    rw [h]
    exact List.dlookup_cons_eq _ _ _
  · rename_i h
    exact List.dlookup_cons_ne _ _ h

@[simp] theorem mem_keywords {args : List (String × Arg V)} {k : String} :
    k ∈ keywords args ↔ k ∈ args.map Prod.fst := by
  induction args with
  | nil => simp [← Finmap.lookup_isSome]
  | cons arg args ih =>
      rw [← Finmap.lookup_isSome, lookup_keywords_cons]
      split
      · rename_i h
        simp [h]
      · rename_i h
        rw [Finmap.lookup_isSome, ih]
        simp [h]

@[simp] theorem ofStr_inj {s t : Option String} :
    (Arg.ofStr s : Arg V) = Arg.ofStr t ↔ s = t := by
  cases s <;> cases t <;> simp [Arg.ofStr]

/-- A call with other values for the same arguments is another call, unless it fails. -/
theorem passed_eq_iff {args args' : List (String × Arg V)} {kwargs : Kwargs V}
    (h : args.map Prod.fst = args'.map Prod.fst) :
    passed args kwargs = passed args' kwargs
      ↔ (∃ k ∈ args.map Prod.fst, k ∈ kwargs) ∨ keywords args = keywords args' := by
  have hdisjoint : ∀ l : List (String × Arg V), (keywords l).Disjoint kwargs
      ↔ ¬ ∃ k ∈ l.map Prod.fst, k ∈ kwargs := by
    intro l
    simp only [Finmap.Disjoint, mem_keywords, not_exists, not_and]
  unfold passed
  by_cases hdup : ∃ k ∈ args.map Prod.fst, k ∈ kwargs
  · have hargs : ¬(keywords args).Disjoint kwargs := fun hd => (hdisjoint args).1 hd hdup
    have hargs' : ¬(keywords args').Disjoint kwargs := fun hd => (hdisjoint args').1 hd (h ▸ hdup)
    rw [if_neg hargs, if_neg hargs']
    exact ⟨fun _ => .inl hdup, fun _ => rfl⟩
  · have hargs := (hdisjoint args).2 hdup
    have hargs' := (hdisjoint args').2 (h ▸ hdup)
    rw [if_pos hargs, if_pos hargs', Except.ok.injEq, Finmap.union_cancel hargs hargs']
    exact ⟨.inr, fun hor => hor.resolve_left hdup⟩

/-- The arguments of the sentinels' connections differ in the user name only, if they do. -/
theorem full_eq_iff {kwargs : Kwargs V} {db : Option Int} {password u u' : Option String} :
    kwargs ∪ keywords [("db", .ofInt db), ("password", .ofStr password), ("username", .ofStr u)]
        = kwargs ∪ keywords [("db", .ofInt db), ("password", .ofStr password),
          ("username", .ofStr u')]
      ↔ "username" ∈ kwargs ∨ u = u' := by
  constructor
  · intro heq
    by_cases hk : "username" ∈ kwargs
    · exact .inl hk
    · have hlookup := congrArg (Finmap.lookup "username") heq
      rw [Finmap.lookup_union_right hk, Finmap.lookup_union_right hk] at hlookup
      right
      simpa using hlookup
  · intro h
    refine Finmap.ext_lookup fun k => ?_
    by_cases hk : k ∈ kwargs
    · rw [Finmap.lookup_union_left hk, Finmap.lookup_union_left hk]
    · rw [Finmap.lookup_union_right hk, Finmap.lookup_union_right hk]
      rcases h with h | rfl
      · have hne : k ≠ "username" := by
          rintro rfl
          exact hk h
        simp [hne]
      · rfl

theorem map_client_iff {cls : BrokerClass} {x y : Except ConnectError (Kwargs V)} :
    x.map (Connection.client cls) = y.map (Connection.client cls) ↔ x = y := by
  cases x <;> cases y <;> simp [Except.map]

/-! ## The kinds of connections -/

theorem sameConnectionParams_iff [DecidableEq V] {a b : QueueSettings V} :
    a.sameConnectionParams b = true
      ↔ a.url = b.url ∧ a.db = b.db ∧ a.unixSocketPath = b.unixSocketPath ∧ a.host = b.host
        ∧ a.port = b.port ∧ a.password = b.password ∧ a.sentinels = b.sentinels
        ∧ a.masterName = b.masterName ∧ a.connectionKwargs = b.connectionKwargs := by
  simp [QueueSettings.sameConnectionParams, and_assoc]

section Kinds

variable [DecidableEq V] {a b : QueueSettings V} {env : SchedulerConfiguration V}
  {strict failFast : Bool}

/-- With a URL or a socket path, everything that is passed on has been compared. -/
theorem getConnection_eq_of_given (h : a.sameConnectionParams b = true)
    (hgiven : (given a.url).isSome ∨ (given a.unixSocketPath).isSome) :
    getConnection env a strict failFast = getConnection env b strict failFast := by
  obtain ⟨url, db, path, -, -, -, -, -, kwargs⟩ := sameConnectionParams_iff.1 h
  unfold getConnection
  rw [← url, ← db, ← path, ← kwargs]
  cases hurl : given a.url with
  | some u => rfl
  | none =>
      cases hpath : given a.unixSocketPath with
      | some p => rfl
      | none => simp [hurl, hpath] at hgiven

/-- A direct connection: the user name is one of its arguments. -/
theorem getConnection_direct_iff (h : a.sameConnectionParams b = true) (hurl : given a.url = none)
    (hpath : given a.unixSocketPath = none) (hhosts : givenHosts a.sentinels = none) :
    getConnection env a strict failFast = getConnection env b strict failFast
      ↔ (∃ k ∈ ["host", "port", "db", "username", "password"], k ∈ orEmpty a.connectionKwargs)
        ∨ a.username = b.username := by
  obtain ⟨url, db, path, host, port, password, hosts, -, kwargs⟩ := sameConnectionParams_iff.1 h
  have hmem : ∀ k ∈ ["host", "port", "db", "username", "password"],
      (k ∈ probing env failFast (orEmpty a.connectionKwargs) ↔ k ∈ orEmpty a.connectionKwargs) := by
    intro k hk
    refine mem_probing ?_ ?_ <;> rintro rfl <;> simp at hk
  have hname : keywords [("host", Arg.ofStr a.host), ("port", .ofInt a.port), ("db", .ofInt a.db),
        ("username", .ofStr a.username), ("password", .ofStr a.password)]
      = (keywords [("host", .ofStr a.host), ("port", .ofInt a.port), ("db", .ofInt a.db),
        ("username", .ofStr b.username), ("password", .ofStr a.password)] : Kwargs V)
      ↔ a.username = b.username := by
    constructor
    · intro heq
      have hlookup := congrArg (Finmap.lookup "username") heq
      simpa using hlookup
    · intro heq
      rw [heq]
  unfold getConnection
  rw [← url, ← db, ← path, ← host, ← port, ← password, ← hosts, ← kwargs, hurl, hpath, hhosts]
  refine map_client_iff.trans ((passed_eq_iff ?_).trans (or_congr ?_ hname))
  · rfl
  · exact exists_congr fun k => and_congr_right fun hk => hmem k hk

/-- A connection through sentinels. -/
theorem getConnection_sentinel_iff (h : a.sameConnectionParams b = true)
    (hurl : given a.url = none) (hpath : given a.unixSocketPath = none)
    {hosts : List (String × Int)} (hhosts : givenHosts a.sentinels = some hosts) :
    getConnection env a strict failFast = getConnection env b strict failFast
      ↔ brokerMetaData env.broker strict = none ∨ "sentinel_kwargs" ∈ orEmpty a.connectionKwargs
        ∨ ("username" ∈ orEmpty a.connectionKwargs ∨ a.username = b.username)
          ∧ probing env failFast (orEmpty a.sentinelKwargs)
            = probing env failFast (orEmpty b.sentinelKwargs) := by
  obtain ⟨url, db, path, -, -, password, hosts', master, kwargs⟩ := sameConnectionParams_iff.1 h
  unfold getConnection
  rw [← url, ← db, ← path, ← password, ← hosts', ← master, ← kwargs, hurl, hpath, hhosts]
  dsimp only
  cases hmeta : brokerMetaData env.broker strict with
  | none => simp
  | some entry =>
      dsimp only
      have husername : "username" ∈ probing env failFast (orEmpty a.connectionKwargs)
          ↔ "username" ∈ orEmpty a.connectionKwargs := mem_probing (by decide) (by decide)
      have hsentinel : "sentinel_kwargs" ∈ probing env failFast (orEmpty a.connectionKwargs)
          ↔ "sentinel_kwargs" ∈ orEmpty a.connectionKwargs := mem_probing (by decide) (by decide)
      by_cases hk : "sentinel_kwargs" ∈ orEmpty a.connectionKwargs
      · simp [hk, hsentinel]
      · simp [hk, hsentinel, full_eq_iff, husername]

/-- The user name and the arguments of the sentinels make no difference: they are not passed on, or the
call fails whatever they are, or they agree. -/
def QueueSettings.Unaffected (a b : QueueSettings V) : Prop :=
  (given a.url).isSome ∨ (given a.unixSocketPath).isSome
    ∨ (givenHosts a.sentinels).isSome ∧ ("sentinel_kwargs" ∈ orEmpty a.connectionKwargs
      ∨ ("username" ∈ orEmpty a.connectionKwargs ∨ a.username = b.username)
        ∧ orEmpty a.sentinelKwargs = orEmpty b.sentinelKwargs)
    ∨ givenHosts a.sentinels = none
      ∧ ((∃ k ∈ ["host", "port", "db", "username", "password"], k ∈ orEmpty a.connectionKwargs)
        ∨ a.username = b.username)

theorem getConnection_eq_of_unaffected (h : a.sameConnectionParams b = true)
    (hsame : a.Unaffected b) :
    getConnection env a strict failFast = getConnection env b strict failFast := by
  by_cases hgiven : (given a.url).isSome ∨ (given a.unixSocketPath).isSome
  · exact getConnection_eq_of_given h hgiven
  · have hurl : given a.url = none := by simpa using fun hu => hgiven (.inl hu)
    have hpath : given a.unixSocketPath = none := by simpa using fun hp => hgiven (.inr hp)
    rcases hsame with hs | hs | ⟨hs, hcond⟩ | ⟨hs, hcond⟩
    · exact absurd (.inl hs) hgiven
    · exact absurd (.inr hs) hgiven
    · obtain ⟨hosts, hhosts⟩ := Option.isSome_iff_exists.1 hs
      rw [getConnection_sentinel_iff h hurl hpath hhosts]
      rcases hcond with hk | ⟨hname, hargs⟩
      · exact .inr (.inl hk)
      · exact .inr (.inr ⟨hname, by rw [hargs]⟩)
    · exact (getConnection_direct_iff h hurl hpath hs).2 hcond

/-- Where a connection is made, and not for probing, the two agree only when they have to. -/
theorem unaffected_of_getConnection_eq (h : a.sameConnectionParams b = true)
    (hmeta : (brokerMetaData env.broker strict).isSome ∨ givenHosts a.sentinels = none)
    (heq : getConnection env a strict false = getConnection env b strict false) :
    a.Unaffected b := by
  cases hurl : given a.url with
  | some u => exact .inl (by rw [hurl]; rfl)
  | none =>
  cases hpath : given a.unixSocketPath with
  | some p => exact .inr (.inl (by rw [hpath]; rfl))
  | none =>
  cases hhosts : givenHosts a.sentinels with
  | none => exact .inr (.inr (.inr ⟨hhosts, (getConnection_direct_iff h hurl hpath hhosts).1 heq⟩))
  | some hosts =>
      refine .inr (.inr (.inl ⟨by rw [hhosts]; rfl, ?_⟩))
      rcases (getConnection_sentinel_iff h hurl hpath hhosts).1 heq with hnone | hk | hcond
      · rcases hmeta with hsome | hno
        · rw [hnone] at hsome
          cases hsome
        · rw [hno] at hhosts
          cases hhosts
      · exact .inl hk
      · exact .inr hcond

omit [DecidableEq V] in
/-- A connection through sentinels needs a broker that has them. -/
theorem meta_of_getConnection {c : Connection V} (hurl : given a.url = none)
    (hpath : given a.unixSocketPath = none)
    (h : getConnection env a strict failFast = .ok c) :
    (brokerMetaData env.broker strict).isSome ∨ givenHosts a.sentinels = none := by
  cases hhosts : givenHosts a.sentinels with
  | none => exact .inr rfl
  | some hosts =>
      cases hmeta : brokerMetaData env.broker strict with
      | some entry => exact .inl rfl
      | none => simp [getConnection, hurl, hpath, hhosts, hmeta] at h

/-- Once the first connection could be made, the second is the same exactly when it has to be. -/
theorem getConnection_eq_iff_of_ok {c : Connection V} (h : a.sameConnectionParams b = true)
    (hok : getConnection env a strict false = .ok c) :
    getConnection env b strict false = .ok c ↔ a.Unaffected b := by
  rw [← hok, eq_comm]
  constructor
  · intro heq
    cases hurl : given a.url with
    | some u => exact .inl (by rw [hurl]; rfl)
    | none =>
    cases hpath : given a.unixSocketPath with
    | some p => exact .inr (.inl (by rw [hpath]; rfl))
    | none => exact unaffected_of_getConnection_eq h (meta_of_getConnection hurl hpath hok) heq
  · exact getConnection_eq_of_unaffected h

end Kinds

/-! ## The queues of a worker -/

section Queues

variable {env : SchedulerConfiguration V} {queues : Queues V}

theorem getQueueConfiguration_ok {name : String} {config : QueueConfiguration V}
    (h : getQueueConfiguration queues name = .ok config) : queues name = some config := by
  unfold getQueueConfiguration at h
  split at h
  · rename_i hconfig
    cases h
    exact hconfig
  · cases h

theorem getQueue_ok {name : String} {q : QueueHandle V}
    (h : getQueue env queues name false = .ok q) :
    ∃ config, queues name = some config
      ∧ getConnection env config.toQueueSettings false false = .ok q.connection := by
  obtain ⟨config, hconfig, h⟩ := exists_of_bind h
  obtain ⟨c, hc, h⟩ := exists_of_bind h
  cases h
  exact ⟨config, getQueueConfiguration_ok hconfig, hc⟩

/-- A queue that passes the check has a configuration with the compared fields. -/
theorem getCheckedQueue_ok [DecidableEq V] {config : QueueConfiguration V} {first name : String}
    {q : QueueHandle V} (h : getCheckedQueue env queues config first name = .ok q) :
    ∃ curr, queues name = some curr ∧ config.sameConnectionParams curr.toQueueSettings = true
      ∧ getConnection env curr.toQueueSettings false false = .ok q.connection := by
  obtain ⟨curr, hcurr, h⟩ := exists_of_bind h
  have hname := getQueueConfiguration_ok hcurr
  split at h
  · rename_i hsame
    obtain ⟨config', hconfig', hconn⟩ := getQueue_ok h
    rw [hname] at hconfig'
    cases hconfig'
    exact ⟨curr, hname, hsame, hconn⟩
  · cases h

/-- The queues of a worker have the connection of the first exactly when no user name and no arguments
of sentinels tell them apart. -/
theorem getQueues_ok [DecidableEq V] {first : String} {names : List String}
    {config : QueueConfiguration V} (hconfig : queues first = some config)
    {qs : List (QueueHandle V)} (h : getQueues env queues (first :: names) = .ok qs) :
    (∃ c, ∀ q ∈ qs, q.connection = c)
      ↔ ∀ name ∈ names, ∀ curr, queues name = some curr
        → config.Unaffected curr.toQueueSettings := by
  obtain ⟨config', hconfig', h⟩ := exists_of_bind h
  obtain ⟨q, hq, h⟩ := exists_of_bind h
  obtain ⟨others, hqs, h⟩ := exists_of_bind h
  cases h
  obtain rfl : config = config' := Option.some.inj (hconfig ▸ getQueueConfiguration_ok hconfig')
  obtain ⟨config', hc', hfirst⟩ := getQueue_ok hq
  obtain rfl : config = config' := Option.some.inj (hconfig ▸ hc')
  obtain ⟨hused, hfrom⟩ := mapM_ok hqs
  constructor
  · rintro ⟨c, hc⟩ name hname curr hcurr
    obtain ⟨r, hr, hchecked⟩ := hused name hname
    obtain ⟨curr', hcurr', hsame, hconn⟩ := getCheckedQueue_ok hchecked
    rw [hcurr] at hcurr'
    cases hcurr'
    have hq' := hc q (List.mem_cons_self ..)
    have hr' := hc r (List.mem_cons_of_mem _ hr)
    rw [hr', ← hq'] at hconn
    exact (getConnection_eq_iff_of_ok hsame hfirst).1 hconn
  · intro hall
    refine ⟨q.connection, fun r hr => ?_⟩
    rcases List.mem_cons.1 hr with rfl | hr
    · rfl
    · obtain ⟨name, hname, hchecked⟩ := hfrom r hr
      obtain ⟨curr, hcurr, hsame, hconn⟩ := getCheckedQueue_ok hchecked
      have hagree := (getConnection_eq_iff_of_ok hsame hfirst).2 (hall name hname curr hcurr)
      rw [hconn] at hagree
      exact Except.ok.inj hagree

end Queues

/-- For every configuration `a`: another one with the compared fields is connected to in the same way,
whatever the settings, exactly when its user name and its sentinels' arguments make no difference; and
so for the queues that a worker gets together with a queue of `a`. -/
theorem connects_iff [DecidableEq V] (a : QueueConfiguration V) :
    (∀ b : QueueConfiguration V, a.sameConnectionParams b.toQueueSettings = true →
      ((∀ env strict failFast, getConnection env a.toQueueSettings strict failFast
          = getConnection env b.toQueueSettings strict failFast)
        ↔ a.Unaffected b.toQueueSettings))
    ∧ ∀ (env : SchedulerConfiguration V) (queues : Queues V) (first : String) (names : List String)
        (qs : List (QueueHandle V)), queues first = some a
        → getQueues env queues (first :: names) = .ok qs
        → ((∃ c, ∀ q ∈ qs, q.connection = c)
          ↔ ∀ name ∈ names, ∀ b, queues name = some b → a.Unaffected b.toQueueSettings) := by
  constructor
  · intro b h
    constructor
    · intro hall
      have hmeta : (brokerMetaData Broker.redis false).isSome := rfl
      exact unaffected_of_getConnection_eq h (.inl hmeta) (hall ⟨.redis, false, .none⟩ false false)
    · intro hsame env strict failFast
      exact getConnection_eq_of_unaffected h hsame
  · intro env queues first names qs hfirst hqs
    exact getQueues_ok hfirst hqs

/-- A local broker that knows several users. -/
def sampleUser (name : Option String) : QueueConfiguration Empty where
  db := some 0
  unixSocketPath := none
  url := none
  host := some "localhost"
  port := some 6379
  username := name
  password := none
  async := true
  sentinels := none
  sentinelKwargs := none
  masterName := none
  connectionKwargs := none
  provided := by decide
  single := by decide
  complete := by decide

def sampleQueues : Queues Empty
  | "default" => some (sampleUser (some "jobs"))
  | "mails" => some (sampleUser (some "mails"))
  | _ => none

def sampleEnv : SchedulerConfiguration Empty := ⟨.redis, true, .int 2⟩

/-- A broker behind a URL, and a user name that is not looked at then. -/
def sampleUrl (name : Option String) : QueueConfiguration Empty :=
  { sampleUser name with
    db := none
    url := some "redis://localhost:6379/0"
    host := none
    port := none
    provided := .inl rfl
    single := Nat.le_refl 1
    complete := fun h => by cases h }

theorem sample_connects_iff : ∀ env strict failFast,
    getConnection env (sampleUrl none).toQueueSettings strict failFast
      = getConnection env (sampleUrl (some "mails")).toQueueSettings strict failFast := by
  have h : (sampleUrl none).sameConnectionParams (sampleUrl (some "mails")).toQueueSettings = true := by
    decide
  exact ((connects_iff _).1 _ h).2 (.inl rfl)

/-- Two queues pass the check although the worker's only connection is another user's than the one the
second queue is configured with. -/
theorem users_not_compared :
    (sampleUser (some "jobs")).sameConnectionParams (sampleUser (some "mails")).toQueueSettings = true
      ∧ getConnection sampleEnv (sampleUser (some "jobs")).toQueueSettings false false
        ≠ getConnection sampleEnv (sampleUser (some "mails")).toQueueSettings false false
      ∧ ∃ q r, getQueues sampleEnv sampleQueues ["default", "mails"] = .ok [q, r]
        ∧ q.connection ≠ r.connection := by
  refine ⟨by decide, by decide, ⟨_, _, rfl, ?_⟩⟩
  decide

end DailyScheduler.Connections
