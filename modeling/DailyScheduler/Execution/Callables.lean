import DailyScheduler.Lib.Dotted
import DailyScheduler.Lib.Exceptions
import DailyScheduler.Model.Job

set_option autoImplicit false

/-! # Functions by name

A job and its callbacks store a name for their function, and the worker imports what the name says. The
name is made from attributes that depend on the kind of the callable; it leads back to the callable only if
that is a function which its own module has under the last part of its qualified name. A bound method is
stored by a name without a module, and a callable object as `__call__`.
-/

namespace DailyScheduler.Callables

/-- What `inspect` says of an object. -/
inductive Kind where
  | method | function | builtin | cls
  /-- Any other object with a `__call__`. -/
  | callable
  | other
  deriving DecidableEq

/-- The attributes by which objects are named; `none` for a `__module__` that is `None`, and for a missing
`__qualname__`. -/
structure Attributes (Obj : Type) where
  kind : Obj → Kind
  name : Obj → String
  module : Obj → Option String
  qualname : Obj → Option String

/-- A process with its modules: `importlib.import_module`, which refuses an empty name, and `getattr`. -/
structure Process (Obj : Type) where
  importModule : String → Except PyError Obj
  getattr : Obj → String → Except PyError Obj
  import_empty : importModule "" = .error (.valueError "Empty module name")

variable {Obj : Type} (A : Attributes Obj) (P : Process Obj)

/-- `callable(f)`. -/
def isCallable (f : Obj) : Bool := A.kind f ≠ .other

/-- `".".join(path[:-1])`. -/
def parents (path : String) : String := String.ofList (Dotted.parents '.' path.toList)

/-- `path[-1]`. -/
def last (path : String) : String := String.ofList (Dotted.last '.' path.toList)

/-- `callable_func`. -/
def callableFunc (path : String) : Except PyError Obj := do
  let m ← P.importModule (parents path)
  let f ← P.getattr m (last path)
  if isCallable A f then pure f else throw (.typeError path)

/-! ## The names that are stored -/

/-- `f"{func.__module__}.{func.__qualname__}"`. -/
def qualifiedName (f : Obj) : Except PyError String :=
  match A.qualname f with
  | some q => .ok ((A.module f).getD "None" ++ "." ++ q)
  | none => .error (.attributeError "__qualname__")

/-- What may be given for a function. -/
inductive Given (Obj : Type) where
  | object (f : Obj)
  | text (path : String)

/-- The `func_name` that `JobModel.create` stores. -/
def funcName : Given Obj → Except PyError String
  | .text path => .ok path
  | .object f =>
      match A.kind f with
      | .method => .ok (A.name f)
      | .function => qualifiedName A f
      | .builtin => qualifiedName A f
      | .callable => .ok "__call__"
      | .cls => .error (.typeError "Expected a callable or a string")
      | .other => .error (.typeError "Expected a callable or a string")

/-- Whether `Callback.__init__` turns what `callable_func` raised into a `CallbackSetupError`; a module that
does not exist is a `ModuleNotFoundError`. -/
def isSetupError (x : PyError) : Bool := x.isSetupError || x = .exception "ModuleNotFoundError"

/-- The function of a `Callback`. -/
def callbackFunc (cfg : SchedulerConfiguration) (timeout : Option Int) : Given Obj → Except PyError Obj
  | .object f =>
      if Callback.timeoutOrDefault cfg timeout < 0 then .error (.callbackSetupError "timeout")
      else if A.kind f = .function ∨ A.kind f = .builtin then .ok f
      else .error (.callbackSetupError "func")
  | .text path =>
      if Callback.timeoutOrDefault cfg timeout < 0 then .error (.callbackSetupError "timeout")
      else match callableFunc A P path with
        | .ok f => .ok f
        | .error x => .error (if isSetupError x then .callbackSetupError path else x)

/-! ## Where a name leads -/

/-- The process has the object `f` as an attribute of a module. -/
def Bound (m attr : String) (f : Obj) : Prop :=
  ∃ x, P.importModule m = .ok x ∧ P.getattr x attr = .ok f

/-- The process has `f` where its attributes say that it is defined: in its module or, if its qualified
name has several parts, in the module of that name with all these parts but the last. -/
def BoundWhereDefined (f : Obj) : Prop :=
  ∃ q, A.qualname f = some q ∧
    Bound P (if '.' ∈ q.toList then (A.module f).getD "None" ++ "." ++ parents q else (A.module f).getD "None")
      (last q) f

/-- The name that a job stores for `f` leads to it. -/
def Resolvable (f : Obj) : Prop :=
  match A.kind f with
  | .method => '.' ∈ (A.name f).toList ∧ Bound P (parents (A.name f)) (last (A.name f)) f
  | .function => BoundWhereDefined A P f
  | .builtin => BoundWhereDefined A P f
  | _ => False

theorem last_append (m path : String) : last (m ++ "." ++ path) = last path := by
  have hlist : (m ++ "." ++ path).toList = m.toList ++ '.' :: path.toList := by simp
  rw [last, hlist, Dotted.last_append, ← last]

theorem parents_append (m path : String) :
    parents (m ++ "." ++ path) = if '.' ∈ path.toList then m ++ "." ++ parents path else m := by
  have hlist : (m ++ "." ++ path).toList = m.toList ++ '.' :: path.toList := by simp
  rw [parents, hlist]
  split
  · rename_i hdot
    rw [Dotted.parents_append_of_mem _ hdot]
    apply String.toList_inj.1
    simp [parents]
  · rename_i hdot
    rw [Dotted.parents_append_of_not_mem _ hdot, String.ofList_toList]

theorem parents_of_not_mem {path : String} (h : '.' ∉ path.toList) : parents path = "" := by
  rw [parents, Dotted.parents_of_not_mem h]

variable {A P}

theorem callableFunc_eq_ok {path : String} {f : Obj} (h : callableFunc A P path = .ok f) :
    A.kind f ≠ .other ∧ Bound P (parents path) (last path) f := by
  unfold callableFunc at h
  obtain ⟨x, hx, h⟩ := Exceptions.exists_of_bind h
  obtain ⟨g, hg, h⟩ := Exceptions.exists_of_bind h
  by_cases hcallable : isCallable A g = true
  · rw [if_pos hcallable] at h
    obtain rfl : g = f := Except.ok.inj h
    exact ⟨by simpa [isCallable] using hcallable, x, hx, hg⟩
  · rw [if_neg hcallable] at h
    cases h

/-- A callable comes back from a path that leads to it. -/
theorem callableFunc_eq_ok_iff {path : String} {f : Obj} (hf : A.kind f ≠ .other) :
    callableFunc A P path = .ok f ↔ Bound P (parents path) (last path) f := by
  constructor
  · intro h
    exact (callableFunc_eq_ok h).2
  · rintro ⟨x, hx, hg⟩
    have hcallable : isCallable A f = true := by simp [isCallable, hf]
    simp [callableFunc, hx, hg, hcallable, bind, Except.bind, pure, Except.pure]

/-- A name without a module leads nowhere. -/
theorem not_bound_of_not_mem {path : String} (h : '.' ∉ path.toList) (f : Obj) :
    ¬ Bound P (parents path) (last path) f := by
  rintro ⟨x, hx, -⟩
  rw [parents_of_not_mem h, P.import_empty] at hx
  cases hx

theorem callableFunc_qualifiedName {f : Obj} {path : String} (hf : A.kind f ≠ .other)
    (h : qualifiedName A f = .ok path) : callableFunc A P path = .ok f ↔ BoundWhereDefined A P f := by
  rw [callableFunc_eq_ok_iff hf]
  unfold qualifiedName at h
  unfold BoundWhereDefined
  cases hq : A.qualname f with
  | none =>
      rw [hq] at h
      cases h
  | some q =>
      rw [hq] at h
      obtain rfl : (A.module f).getD "None" ++ "." ++ q = path := Except.ok.inj h
      rw [parents_append, last_append]
      simp

theorem callableFunc_funcName {f : Obj} {path : String} (h : funcName A (.object f) = .ok path) :
    callableFunc A P path = .ok f ↔ Resolvable A P f := by
  unfold funcName at h
  unfold Resolvable
  cases hkind : A.kind f with
  | method =>
      simp only [hkind] at h ⊢
      obtain rfl : A.name f = path := Except.ok.inj h
      rw [callableFunc_eq_ok_iff (by simp [hkind])]
      constructor
      · intro hbound
        refine ⟨?_, hbound⟩
        by_contra hdot
        exact not_bound_of_not_mem hdot f hbound
      · exact And.right
  | function =>
      simp only [hkind] at h ⊢
      exact callableFunc_qualifiedName (by simp [hkind]) h
  | builtin =>
      simp only [hkind] at h ⊢
      exact callableFunc_qualifiedName (by simp [hkind]) h
  | callable =>
      simp only [hkind] at h ⊢
      obtain rfl : "__call__" = path := Except.ok.inj h
      rw [callableFunc_eq_ok_iff (by simp [hkind]), iff_false]
      exact not_bound_of_not_mem (by decide) f
  | cls =>
      simp only [hkind] at h
      cases h
  | other =>
      simp only [hkind] at h
      cases h

/-- What a callback calls is callable. -/
theorem kind_of_callbackFunc {cfg : SchedulerConfiguration} {timeout : Option Int} {given : Given Obj} {f : Obj}
    (h : callbackFunc A P cfg timeout given = .ok f) : A.kind f ≠ .other := by
  cases given with
  | object g =>
      simp only [callbackFunc] at h
      split at h
      · cases h
      · split at h
        · rename_i hkind
          obtain rfl : g = f := Except.ok.inj h
          rcases hkind with hkind | hkind <;> simp [hkind]
        · cases h
  | text path =>
      simp only [callbackFunc] at h
      split at h
      · cases h
      · cases hfunc : callableFunc A P path with
        | ok g =>
            rw [hfunc] at h
            obtain rfl : g = f := Except.ok.inj h
            exact (callableFunc_eq_ok hfunc).1
        | error x =>
            rw [hfunc] at h
            cases h

/-! ## The worker's environment -/

section Environment

variable {env : Env} {code : Obj → JobModel → Py CallOutcome}

/-- A worker with these modules calls, for a callable of a job that is found again, the code of that
callable. -/
theorem callableFunc_of_resolvable (henv : ∀ path, env.callableFunc path = (callableFunc A P path).map code)
    {f : Obj} {path : String} (h : funcName A (.object f) = .ok path) (hf : Resolvable A P f) :
    env.callableFunc path = .ok (code f) := by
  rw [henv, (callableFunc_funcName h).2 hf]
  rfl

/-- The same for a callback. -/
theorem resolve_of_bound (henv : ∀ path, env.callableFunc path = (callableFunc A P path).map code)
    {f : Obj} {path : String} {timeout : Option Int} (hkind : A.kind f ≠ .other)
    (h : qualifiedName A f = .ok path) (hf : BoundWhereDefined A P f)
    (htimeout : 0 ≤ Callback.timeoutOrDefault env.config timeout) :
    Callback.resolve env path timeout = .ok (code f) := by
  unfold Callback.resolve
  rw [if_neg (by omega), henv, (callableFunc_qualifiedName hkind h).2 hf]
  rfl

end Environment

/-! ## Names that lead back -/

/-- The name that a job stores for a callable leads back to it exactly if the callable is a function or a
builtin that the worker has where it is defined, or a bound method whose own name is a path to it. The name
that is stored for a callback leads back to its function exactly if the worker has it where it is defined. -/
theorem resolves_iff (A : Attributes Obj) (P₀ P : Process Obj) (cfg : SchedulerConfiguration) :
    (∀ f path, funcName A (.object f) = .ok path → (callableFunc A P path = .ok f ↔ Resolvable A P f))
    ∧ ∀ timeout given f path, callbackFunc A P₀ cfg timeout given = .ok f → qualifiedName A f = .ok path →
        (callableFunc A P path = .ok f ↔ BoundWhereDefined A P f) := by
  refine ⟨fun f path h => ?_, fun timeout given f path hf h => ?_⟩
  · exact callableFunc_funcName h
  · exact callableFunc_qualifiedName (kind_of_callbackFunc hf) h

/-! ## A module -/

/-- The objects of a small module: a function with another one inside, a class with a static method, an
instance of it with its bound method and itself callable, and a builtin. -/
inductive Sample where
  | module | builtins | func | inner | cls | static | caller | run | len
  deriving DecidableEq

def sampleAttributes : Attributes Sample where
  kind
    | .module => .other
    | .builtins => .other
    | .func => .function
    | .inner => .function
    | .cls => .cls
    | .static => .function
    | .caller => .callable
    | .run => .method
    | .len => .builtin
  name
    | .inner => "inner"
    | .static => "static"
    | .run => "run"
    | .len => "len"
    | _ => "f"
  module
    | .len => some "builtins"
    | _ => some "m"
  qualname
    | .func => some "f"
    | .inner => some "f.<locals>.inner"
    | .cls => some "C"
    | .static => some "C.static"
    | .run => some "C.run"
    | .len => some "len"
    | _ => none

def sampleProcess : Process Sample where
  importModule name :=
    if name = "" then .error (.valueError "Empty module name")
    else if name = "m" then .ok .module
    else if name = "builtins" then .ok .builtins
    else .error (.exception "ModuleNotFoundError")
  getattr
    | .module, "f" => .ok .func
    | .module, "C" => .ok .cls
    | .module, "c" => .ok .caller
    | .cls, "static" => .ok .static
    | .caller, "run" => .ok .run
    | .builtins, "len" => .ok .len
    | _, name => .error (.attributeError name)
  import_empty := rfl

theorem sample_resolves_iff : callableFunc sampleAttributes sampleProcess "m.f" = .ok .func
    ∧ callableFunc sampleAttributes sampleProcess "builtins.len" = .ok .len := by
  have h := resolves_iff sampleAttributes sampleProcess sampleProcess {}
  refine ⟨(h.1 .func "m.f" rfl).2 ⟨"f", rfl, .module, ?_, ?_⟩,
    (h.2 none (.object .len) .len "builtins.len" rfl rfl).2 ⟨"len", rfl, .builtins, ?_, ?_⟩⟩
  all_goals decide

/-- A nested function, a static method, a bound method and a callable object are accepted and not found
again; and neither are the first two as callbacks. -/
theorem accepted_and_lost :
    (∀ g ∈ [Sample.inner, .static, .run, .caller],
      (funcName sampleAttributes (.object g)).toOption.isSome = true
        ∧ (funcName sampleAttributes (.object g) >>= callableFunc sampleAttributes sampleProcess) ≠ .ok g)
    ∧ ∀ g ∈ [Sample.inner, .static],
      callbackFunc sampleAttributes sampleProcess {} none (.object g) = .ok g
        ∧ (qualifiedName sampleAttributes g >>= callableFunc sampleAttributes sampleProcess) ≠ .ok g := by
  decide

end DailyScheduler.Callables
