import DailyScheduler.Lib.Prog
import DailyScheduler.Planner.Records
import Mathlib.Data.List.Infix

set_option autoImplicit false

/-! # Requests to the planner

The texts of a request become values here: the JSON of its body, the numbers and times in it.
How Python's library reads a text and how the ORM turns a value into a row's id is part of the
environment `PlannerEnv`; what the views do with the values is written out.
-/

namespace DailyScheduler

open AtomicProg Calendar

/-- A value that `json.loads` returns. A dictionary has each key once. -/
inductive Json where
  | null
  | bool (b : Bool)
  | int (n : Int)
  | float (x : Number)
  | str (s : String)
  | arr (l : List Json)
  | obj (d : List (String × Json))

/-- The functions outside the program that the views call. -/
structure PlannerEnv where
  /-- `json.loads`, `none` when it raises `JSONDecodeError`. -/
  jsonLoads : String → Option Json
  /-- `int` of a text. -/
  intOfText : String → Option Int
  /-- `float` of a text. -/
  floatOfText : String → Option Number
  /-- `float` of an integer, `none` when it is too large. -/
  floatOfInt : Int → Option Number
  /-- `datetime.strptime(text, "%H:%M").time()`. -/
  strptime : String → Option Time
  /-- `str`. -/
  text : Json → String
  /-- The ids an `id__in` lookup matches. -/
  idsIn : Json → Except ViewError (Nat → Bool)
  /-- The id an `id` lookup matches. -/
  idOf : Json → Except ViewError Nat
  /-- Whether the database accepts a new schedule: a row may violate `NOT NULL` or be out of a
  column's range. -/
  acceptsSchedule : ProjectSchedule → Bool
  /-- What the `INSERT` of a subtask raises because of its title: it may be too long for the column, or
  have a surrogate, which is not encoded. -/
  titleRefused : String → Option ViewError
  /-- What it raises because of its order, which may be out of the column's range. -/
  orderRefused : Nat → Option ViewError

/-- What the views do that a later reader of the tables cannot see: a session was created as the
row `id`, with a length in microseconds. -/
inductive PlannerEvent where
  | session (id : Nat) (length : Int)
  deriving DecidableEq

/-- A view: one step for each statement it sends to the database. -/
abbrev View (α : Type) := Prog Planner PlannerEvent ViewError α

/-- A computation that may raise, as part of a view. -/
def View.ofExcept {α : Type} : Except ViewError α → View α
  | .ok a => .ret a
  | .error x => .raise x

namespace Json

/-- `data.get(key)`: only dictionaries have `get`. -/
def get (key : String) : Json → Except ViewError (Option Json)
  | .obj d => .ok ((d.find? fun p => p.1 = key).map Prod.snd)
  | _ => .error .attributeError

/-- `data[key]` after a test `key in data`: `none` when the test fails. A list or a text that
contains the key cannot be indexed with it. -/
def item (key : String) : Json → Except ViewError (Option Json)
  | .obj d => .ok ((d.find? fun p => p.1 = key).map Prod.snd)
  | .arr l =>
      if l.any fun x => match x with
        | .str s => decide (s = key)
        | _ => false
      then .error .typeError else .ok none
  | .str s => if key.toList <:+: s.toList then .error .typeError else .ok none
  | _ => .error .typeError

/-- The elements a `for` loop over the value goes through. -/
def elements : Json → Except ViewError (List Json)
  | .arr l => .ok l
  | .obj d => .ok (d.map fun p => .str p.1)
  | .str s => .ok (s.toList.map fun c => .str c.toString)
  | _ => .error .typeError

/-- `int(x)`. -/
def toInt (env : PlannerEnv) : Json → Except ViewError Int
  | .int n => .ok n
  | .bool b => .ok (if b then 1 else 0)
  | .float (.finite q) => .ok (if q < 0 then -⌊-q⌋ else ⌊q⌋)
  | .float .nan => .error .valueError
  | .float (.infinite _) => .error .overflowError
  | .str s => match env.intOfText s with
      | some n => .ok n
      | none => .error .valueError
  | _ => .error .typeError

/-- `float(x)`. -/
def toFloat (env : PlannerEnv) : Json → Except ViewError Number
  | .float x => .ok x
  | .int n => match env.floatOfInt n with
      | some x => .ok x
      | none => .error .overflowError
  | .bool b => .ok (.finite (if b then 1 else 0))
  | .str s => match env.floatOfText s with
      | some x => .ok x
      | none => .error .valueError
  | _ => .error .typeError

/-- `datetime.strptime(x, "%H:%M").time()`. -/
def toTime (env : PlannerEnv) : Json → Except ViewError Time
  | .str s => match env.strptime s with
      | some t => .ok t
      | none => .error .valueError
  | _ => .error .typeError

end Json

/-- `json.loads`. -/
def PlannerEnv.loads (env : PlannerEnv) (body : String) : Except ViewError Json :=
  match env.jsonLoads body with
  | some data => .ok data
  | none => .error .jsonDecodeError

/-- `timedelta(hours=x)`. -/
def timedeltaHours (x : Number) : Except ViewError Int :=
  match x with
  | .nan => .error .valueError
  | x => match hours x with
      | some d => .ok d
      | none => .error .overflowError

/-- A sum of a date or an instant that may leave the calendar. -/
def orOverflow {α : Type} : Option α → Except ViewError α
  | some a => .ok a
  | none => .error .overflowError

end DailyScheduler
