import Mathlib.Data.Finset.Basic

set_option autoImplicit false

/-! # Values, exceptions and their encoding

The values a job's callable may return or put into its `meta` dictionary, the exceptions the
program raises, and the part of `redis_models/base.py` that turns a value into the text
stored at the broker. What matters about an encoding here is which encoder a value goes
through and whether that encoder raises; the text itself is kept symbolic (`Stored`).
-/

namespace DailyScheduler

/-- A Python value. `obj copies prints` is any other object: whether `copy.deepcopy` and
`str` accept it. An `int` has at most 4300 digits; a longer one, which `str` refuses, is such an
object. -/
inductive PyValue where
  | none
  | bool (b : Bool)
  | int (i : Int)
  | float (repr : String)
  | str (s : String)
  | datetime (t : Int)
  | list (l : List PyValue)
  | tuple (l : List PyValue)
  | set (l : List PyValue)
  | dict (d : List (PyValue × PyValue))
  | obj (copies prints : Bool)

/-- An exception. `exception` and `baseException` are the ones user code raises: the latter
stands for those that are not subclasses of `Exception`, such as `SystemExit`. -/
inductive PyError where
  | keyError (key : String)
  | valueError (msg : String)
  | typeError (msg : String)
  | attributeError (msg : String)
  | zeroDivisionError
  | overflowError
  | validationError (field : String)
  | noSuchJobError (name : String)
  | invalidJobOperation (name : String)
  | dequeueTimeout
  | queueNotFoundError (name : String)
  | callbackSetupError (name : String)
  | exception (what : String)
  | baseException (what : String)
  deriving DecidableEq

/-- Whether `except Exception` catches it. -/
def PyError.isException : PyError → Bool
  | .baseException _ => false
  | _ => true

/-- What is written for a value: a number as it is, `str(value)` or `json.dumps(value)`. -/
inductive Stored where
  | number (v : PyValue)
  | text (v : PyValue)
  | json (v : PyValue)

namespace PyValue

/-- Whether `json.dumps` accepts the value as a dictionary key. -/
def isJsonKey : PyValue → Bool
  | .none | .bool _ | .int _ | .float _ | .str _ => true
  | _ => false

mutual

/-- Whether `json.dumps(value)` returns; with `default`, whether `json.dumps(value,
default=str)` does. -/
def jsonDumps (default : Bool) : PyValue → Bool
  | .none => true
  | .bool _ => true
  | .int _ => true
  | .float _ => true
  | .str _ => true
  | .list l => jsonDumpsAll default l
  | .tuple l => jsonDumpsAll default l
  | .dict d => jsonDumpsItems default d
  | .datetime _ => default
  | .set _ => default
  | .obj _ p => default && p

/-- `jsonDumps` of every element. -/
def jsonDumpsAll (default : Bool) : List PyValue → Bool
  | [] => true
  | v :: l => jsonDumps default v && jsonDumpsAll default l

/-- `jsonDumps` of every item of a dictionary. -/
def jsonDumpsItems (default : Bool) : List (PyValue × PyValue) → Bool
  | [] => true
  | p :: d => jsonDumpsItem default p && jsonDumpsItems default d

/-- `jsonDumps` of a key and its value. -/
def jsonDumpsItem (default : Bool) : PyValue × PyValue → Bool
  | (k, v) => isJsonKey k && jsonDumps default v

end

mutual

/-- Whether `dataclasses.asdict` can copy the value. -/
def copies : PyValue → Bool
  | .none => true
  | .bool _ => true
  | .int _ => true
  | .float _ => true
  | .str _ => true
  | .datetime _ => true
  | .list l => copiesAll l
  | .tuple l => copiesAll l
  | .set l => copiesAll l
  | .dict d => copiesItems d
  | .obj c _ => c

/-- `copies` of every element. -/
def copiesAll : List PyValue → Bool
  | [] => true
  | v :: l => copies v && copiesAll l

/-- `copies` of every item of a dictionary. -/
def copiesItems : List (PyValue × PyValue) → Bool
  | [] => true
  | p :: d => copiesItem p && copiesItems d

/-- `copies` of a key and its value. -/
def copiesItem : PyValue × PyValue → Bool
  | (k, v) => copies k && copies v

end

/-- `_serialize`. -/
def serialize : PyValue → Except PyError (Option Stored)
  | .none => .ok Option.none
  | .bool b => .ok (some (.text (.int (if b then 1 else 0))))
  | .datetime t => .ok (some (.text (.datetime t)))
  | .dict d =>
      if jsonDumps false (.dict d) then .ok (some (.json (.dict d)))
      else .error (.typeError "not JSON serializable")
  | .int i => .ok (some (.number (.int i)))
  | .float r => .ok (some (.number (.float r)))
  | .list l =>
      if jsonDumps true (.list l) then .ok (some (.json (.list l)))
      else .error (.typeError "not JSON serializable")
  | .set l =>
      if jsonDumps true (.set l) then .ok (some (.json (.set l)))
      else .error (.typeError "not JSON serializable")
  | .tuple l =>
      if jsonDumps true (.tuple l) then .ok (some (.json (.tuple l)))
      else .error (.typeError "not JSON serializable")
  | .str s => .ok (some (.text (.str s)))
  | .obj c p => if p then .ok (some (.text (.obj c p))) else .error (.exception "__str__")

/-- What `_serialize` hands to the client of the broker, if anything. -/
def stored (v : PyValue) : Option Stored := v.serialize.toOption.join

/-- Whether `BaseModel.serialize` accepts the value as a field: it is copied by
`dataclasses.asdict` and then encoded by `_serialize`. -/
def encodes (v : PyValue) : Bool := v.copies && v.serialize.isOk

example : (PyValue.dict [(.str "a", .set [.int 1])]).encodes = false := by decide

example : (PyValue.list [.int 1, .set [.int 1]]).encodes = true := by decide

/-! ## Reading JSON -/

/-- A key of a dictionary as `json.dumps` writes it. -/
def keyText : PyValue → String
  | .none => "null"
  | .bool b => if b then "true" else "false"
  | .int i => i.repr
  | .float r =>
      if r = "nan" then "NaN" else if r = "inf" then "Infinity"
      else if r = "-inf" then "-Infinity" else r
  | .str s => s
  | _ => ""

/-- A member of a JSON object goes into the dictionary: a later one of the same key takes the place of
the earlier one. -/
def setItem (k : String) (v : PyValue) : List (String × PyValue) → List (String × PyValue)
  | [] => [(k, v)]
  | p :: d => if p.1 = k then (k, v) :: d else p :: setItem k v d

/-- The dictionary that `json.loads` makes of the members of an object. -/
def object (d : List (String × PyValue)) : PyValue :=
  .dict ((d.foldl (fun d p => setItem p.1 p.2 d) []).map fun p => (.str p.1, p.2))

mutual

/-- `json.loads(json.dumps(value))`: tuples become lists, keys become strings. -/
def loaded : PyValue → PyValue
  | .list l => .list (loadedAll l)
  | .tuple l => .list (loadedAll l)
  | .dict d => object (loadedItems d)
  | v => v

/-- `loaded` of every element. -/
def loadedAll : List PyValue → List PyValue
  | [] => []
  | v :: l => loaded v :: loadedAll l

/-- The members that are written for the items of a dictionary. -/
def loadedItems : List (PyValue × PyValue) → List (String × PyValue)
  | [] => []
  | p :: d => loadedItem p :: loadedItems d

/-- The member that is written for a key and its value. -/
def loadedItem : PyValue × PyValue → String × PyValue
  | (k, v) => (keyText k, loaded v)

end

example : (PyValue.dict [(.int 1, .tuple [.none]), (.str "1", .bool true)]).loaded
    = .dict [(.str "1", .bool true)] := by rfl

/-- What `_deserialize` reads of the text that is stored of a dictionary; no other value is stored in a
field of this type. -/
def readBack : PyValue → PyValue
  | .dict d => loaded (.dict d)
  | v => v

theorem jsonDumpsItems_of_forall {default : Bool} {d : List (PyValue × PyValue)}
    (h : ∀ p ∈ d, isJsonKey p.1 = true ∧ jsonDumps default p.2 = true) :
    jsonDumpsItems default d = true := by
  induction d with
  | nil => rfl
  | cons p d ih =>
      obtain ⟨hp, hd⟩ := List.forall_mem_cons.1 h
      rw [jsonDumpsItems, jsonDumpsItem, hp.1, hp.2, ih hd]
      rfl

theorem copiesItems_of_forall {d : List (PyValue × PyValue)}
    (h : ∀ p ∈ d, copies p.1 = true ∧ copies p.2 = true) : copiesItems d = true := by
  induction d with
  | nil => rfl
  | cons p d ih =>
      obtain ⟨hp, hd⟩ := List.forall_mem_cons.1 h
      rw [copiesItems, copiesItem, hp.1, hp.2, ih hd]
      rfl

theorem mem_setItem {k : String} {v : PyValue} {d : List (String × PyValue)} {p : String × PyValue}
    (h : p ∈ setItem k v d) : p = (k, v) ∨ p ∈ d := by
  induction d with
  | nil => exact .inl (List.mem_singleton.1 h)
  | cons q d ih =>
      unfold setItem at h
      split at h
      · exact (List.mem_cons.1 h).imp id (List.mem_cons_of_mem q)
      · rcases List.mem_cons.1 h with rfl | h
        · exact .inr List.mem_cons_self
        · exact (ih h).imp id (List.mem_cons_of_mem q)

theorem mem_foldl_setItem {l d : List (String × PyValue)} {p : String × PyValue}
    (h : p ∈ l.foldl (fun d p => setItem p.1 p.2 d) d) : p ∈ d ∨ p ∈ l := by
  induction l generalizing d with
  | nil => exact .inl h
  | cons q l ih =>
      rcases ih h with h | h
      · rcases mem_setItem h with rfl | h
        · exact .inr List.mem_cons_self
        · exact .inl h
      · exact .inr (List.mem_cons_of_mem q h)

/-- The value is written and copied again. -/
def Plain (v : PyValue) : Prop := jsonDumps false v = true ∧ copies v = true

theorem plain_object {l : List (String × PyValue)} (h : ∀ p ∈ l, Plain p.2) : Plain (object l) := by
  have hall : ∀ q ∈ (l.foldl (fun d p => setItem p.1 p.2 d) []).map
      (fun p : String × PyValue => (PyValue.str p.1, p.2)),
      (isJsonKey q.1 = true ∧ copies q.1 = true) ∧ Plain q.2 := by
    intro q hq
    obtain ⟨p, hp, rfl⟩ := List.mem_map.1 hq
    rcases mem_foldl_setItem hp with hp | hp
    · cases hp
    · exact ⟨⟨rfl, rfl⟩, h p hp⟩
  unfold object Plain
  rw [jsonDumps, copies]
  exact ⟨jsonDumpsItems_of_forall fun q hq => ⟨(hall q hq).1.1, (hall q hq).2.1⟩,
    copiesItems_of_forall fun q hq => ⟨(hall q hq).1.2, (hall q hq).2.2⟩⟩

mutual

/-- What is read of JSON can be written as JSON. -/
theorem plain_loaded : ∀ v, jsonDumps false v = true → Plain (loaded v)
  | .none, _ => ⟨rfl, rfl⟩
  | .bool _, _ => ⟨rfl, rfl⟩
  | .int _, _ => ⟨rfl, rfl⟩
  | .float _, _ => ⟨rfl, rfl⟩
  | .str _, _ => ⟨rfl, rfl⟩
  | .datetime _, h => by cases h
  | .set _, h => by cases h
  | .obj _ _, h => by cases h
  | .list l, h => by
      rw [jsonDumps] at h
      obtain ⟨hdumps, hcopies⟩ := plain_loadedAll l h
      rw [loaded]
      exact ⟨hdumps, hcopies⟩
  | .tuple l, h => by
      rw [jsonDumps] at h
      obtain ⟨hdumps, hcopies⟩ := plain_loadedAll l h
      rw [loaded]
      exact ⟨hdumps, hcopies⟩
  | .dict d, h => by
      rw [jsonDumps] at h
      rw [loaded]
      exact plain_object (plain_loadedItems d h)

theorem plain_loadedAll : ∀ l, jsonDumpsAll false l = true →
    jsonDumpsAll false (loadedAll l) = true ∧ copiesAll (loadedAll l) = true
  | [], _ => ⟨rfl, rfl⟩
  | v :: l, h => by
      rw [jsonDumpsAll, Bool.and_eq_true] at h
      obtain ⟨hv, hv'⟩ := plain_loaded v h.1
      obtain ⟨hl, hl'⟩ := plain_loadedAll l h.2
      rw [loadedAll, jsonDumpsAll, copiesAll, hv, hv', hl, hl']
      exact ⟨rfl, rfl⟩

theorem plain_loadedItems : ∀ d, jsonDumpsItems false d = true → ∀ p ∈ loadedItems d, Plain p.2
  | [], _ => fun p hp => by
      rw [loadedItems] at hp
      cases hp
  | q :: d, h => by
      rw [jsonDumpsItems, Bool.and_eq_true] at h
      rw [loadedItems]
      exact List.forall_mem_cons.2 ⟨plain_loadedItem q h.1, plain_loadedItems d h.2⟩

theorem plain_loadedItem : ∀ q, jsonDumpsItem false q = true → Plain (loadedItem q).2
  | (k, v), h => by
      rw [jsonDumpsItem, Bool.and_eq_true] at h
      rw [loadedItem]
      exact plain_loaded v h.2

end

theorem encodes_dict (d : List (PyValue × PyValue)) :
    (dict d).encodes = (copies (.dict d) && jsonDumps false (.dict d)) := by
  show (copies (.dict d) && (if jsonDumps false (.dict d) = true then _ else _ :
    Except PyError (Option Stored)).isOk) = _
  cases jsonDumps false (.dict d) <;> rfl

/-- What is stored of a value that can be encoded can be encoded. -/
theorem encodes_readBack {v : PyValue} (h : v.encodes = true) : v.readBack.encodes = true := by
  cases v with
  | dict d =>
      rw [encodes_dict, Bool.and_eq_true] at h
      have hplain := plain_loaded (.dict d) h.2
      show (loaded (.dict d)).encodes = true
      rw [loaded] at hplain ⊢
      unfold object at hplain ⊢
      rw [encodes_dict, hplain.1, hplain.2]
      rfl
  | _ => exact h

end PyValue

end DailyScheduler
