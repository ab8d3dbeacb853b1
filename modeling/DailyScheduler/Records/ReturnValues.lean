import DailyScheduler.Lib.JsonRoundTrip
import DailyScheduler.Model.Effects

set_option autoImplicit false

/-! # Return values as they are stored

`_serialize` hands strings to the broker as they are, numbers as their `repr`, and lists and dictionaries
as JSON; `_deserialize` tries to read whatever it gets as JSON. So a value comes back unless it is a
string that is a JSON document itself, or cannot be written, or has a surrogate pair that JSON joins.
-/

namespace DailyScheduler.ReturnValues

open AtomicProg JsonText

/-- What `_serialize` hands to the client of the broker. -/
inductive Raw (F : Type) where
  | str (s : PyStr)
  | int (i : Int)
  | float (x : F)

/-- An entry of a stream of results, with the text of the return value, if there is one. -/
abbrev Entry := Result (Option Text)

/-- The streams of results. -/
abbrev Streams := ResultStreams (Option Text)

section Model

variable {F : Type} [DecidableEq F] (fl : FloatFormat F)

/-- The text of a value, or the exception that `json.dumps` or `str` raises. -/
def textOr (t : Option Text) : Except PyError (Option (Raw F)) :=
  match t with
  | some t => .ok (some (.str (PyStr.ofText t)))
  | none => .error (.valueError "Exceeds the limit (4300 digits) for integer string conversion")

/-- `_serialize`. -/
def serialize : Value F → Except PyError (Option (Raw F))
  | .null => .ok none
  | .bool b => textOr (intText (if b then 1 else 0))
  | .int i => .ok (some (.int i))
  | .float x => .ok (some (.float x))
  | .str s => .ok (some (.str s))
  | .arr l => textOr (dumps fl (.arr l))
  | .obj d => textOr (dumps fl (.obj d))

/-- The encoder of the client of the broker. -/
def encode : Raw F → Except PyError Text
  | .str s =>
      match s.encode with
      | some t => .ok t
      | none => .error (.valueError "surrogates not allowed")
  | .int i =>
      match intText i with
      | some t => .ok t
      | none => .error (.valueError "Exceeds the limit (4300 digits) for integer string conversion")
  | .float x => .ok (fl.repr x)

/-- The text that is sent for a value. -/
def sent (v : Value F) : Except PyError (Option Text) := do
  match ← serialize fl v with
  | none => pure none
  | some r => do
      let t ← encode fl r
      pure (some t)

omit [DecidableEq F] in
/-- `_deserialize` as `Any | None`, where a missing field is `None`. -/
def deserialize : Option Text → Value F
  | none => .null
  | some t =>
      match loads fl t with
      | some v => v
      | none => .str (PyStr.ofText t)

/-- `Result.create`. -/
def create (now : Int) (jobName : JobName) (workerName : Option WorkerName) (type : ResultType)
    (ttl : Int) (returnValue : Value F) (excString : Option String) (m : Streams) :
    Except PyError Streams :=
  if ttl = 0 then .ok (m.erase jobName)
  else do
    let t ← sent fl returnValue
    pure (m.xadd now {
      parent := jobName
      type := type
      workerName := workerName.getD "unknown_worker"
      ttl := ttl
      createdAt := now
      returnValue := t
      excString := excString })

omit [DecidableEq F] in
/-- `Result.deserialize`. -/
def read (e : Entry) : Result (Value F) := e.map (deserialize fl)

omit [DecidableEq F] in
/-- `Result.fetch_latest`. -/
def fetchLatest (jobName : JobName) (m : Streams) : Option (Result (Value F)) :=
  ((m.find? jobName).bind List.getLast?).map (read fl)

/-- When a value comes back as it is: a string that can be encoded and is no JSON document; a list, a
dictionary or a number all of whose integers can be written and none of whose strings has a surrogate
pair; `None`. -/
def Survives : Value F → Prop
  | .str s => ∃ t, s.encode = some t ∧ ¬ ∃ v, IsText fl t v
  | .bool _ => False
  | .null => True
  | .int i => (Piece.int i : Piece F).Written
  | .float _ => True
  | .arr l => ∀ x ∈ (Value.arr l).pieces, x.Written ∧ x.Plain
  | .obj d => ∀ x ∈ (Value.obj d).pieces, x.Written ∧ x.Plain

end Model

/-! ## What is read back -/

section RoundTrip

variable {F : Type} [DecidableEq F] {fl : FloatFormat F}

omit [DecidableEq F] in
/-- The stream that an entry was appended to ends with it. -/
theorem find?_xadd {V : Type} (m : ResultStreams V) (now : Int) (r : Result V) :
    ((m.xadd now r).find? r.parent).bind List.getLast? = some r := by
  have hlast : ∀ l : List (Result V), ((l ++ [r]).drop ((l ++ [r]).length - 10)).getLast? = some r := by
    intro l
    have hdrop : (l ++ [r]).length - 10 ≤ l.length := by
      rw [List.length_append, List.length_singleton]
      omega
    rw [List.drop_append_of_le_length hdrop, List.getLast?_concat]
  unfold ResultStreams.xadd
  dsimp only
  split
  · rw [TtlMap.find?_expireAt, TtlMap.find?_put_self]
    exact hlast _
  · rw [TtlMap.find?_persist, TtlMap.find?_put_self]
    exact hlast _

omit [DecidableEq F] in
/-- The latest result of a job is the one that was created last. -/
theorem fetchLatest_xadd (now : Int) (e : Entry) (m : Streams) :
    fetchLatest fl e.parent (m.xadd now e) = some (read fl e) := by
  unfold fetchLatest
  rw [find?_xadd]
  rfl

/-- A value is stored and read back as another one, or as itself. -/
def ReadsBack (fl : FloatFormat F) (v w : Value F) : Prop :=
  ∃ t, sent fl v = .ok t ∧ deserialize fl t = w

omit [DecidableEq F] in
theorem deserialize_of_loads {t : Text} {v : Value F} (h : loads fl t = some v) :
    deserialize fl (some t) = v := by
  show (match loads fl t with | some v => v | none => _) = v
  rw [h]

omit [DecidableEq F] in
theorem deserialize_of_none {t : Text} (h : loads fl t = none) :
    deserialize fl (some t) = .str (PyStr.ofText t) := by
  show (match loads fl t with | some v => v | none => _) = _
  rw [h]

/-- The value is sent as the text `t`, if there is one; otherwise an exception is raised. -/
structure SentAs (fl : FloatFormat F) (v : Value F) (t : Option Text) : Prop where
  sends : ∀ u, t = some u → sent fl v = .ok (some u)
  raises : t = none → ∃ x, sent fl v = .error x

theorem SentAs.reads_iff {v w : Value F} {t : Option Text} (h : SentAs fl v t) :
    ReadsBack fl v w ↔ ∃ u, t = some u ∧ deserialize fl (some u) = w := by
  unfold ReadsBack
  cases t with
  | none =>
      obtain ⟨x, hx⟩ := h.raises rfl
      rw [hx]
      simp
  | some u =>
      rw [h.sends u rfl]
      simp

theorem sentAs_textOr {t : Option Text} {v : Value F} (h : serialize fl v = textOr t) :
    SentAs fl v t := by
  constructor
  · rintro u rfl
    have hencode : (PyStr.ofText u).encode = some u := PyStr.encode_eq_some.2 rfl
    unfold sent
    rw [h]
    simp only [textOr, encode, hencode, bind, Except.bind, pure, Except.pure]
  · rintro rfl
    unfold sent
    rw [h]
    exact ⟨_, rfl⟩

/-- What is written as JSON comes back without its surrogate pairs. -/
theorem readsBack_dumps (hfl : fl.Lawful) {v : Value F} (hv : ∀ x ∈ v.pieces, x.Proper fl)
    (h : SentAs fl v (dumps fl v)) :
    ReadsBack fl v v ↔ ∀ x ∈ v.pieces, x.Written ∧ x.Plain := by
  rw [h.reads_iff]
  constructor
  · rintro ⟨t, ht, hread⟩ x hx
    have hwritten := (@dumps_isSome F _ fl v).1 (by rw [ht]; rfl)
    rw [deserialize_of_loads (loads_dumps hfl hv ht)] at hread
    exact ⟨hwritten x hx, (norm_eq_iff v hv).1 hread x hx⟩
  · intro hall
    have hsome := (@dumps_isSome F _ fl v).2 fun x hx => (hall x hx).1
    obtain ⟨t, ht⟩ := Option.isSome_iff_exists.1 hsome
    refine ⟨t, ht, ?_⟩
    rw [deserialize_of_loads (loads_dumps hfl hv ht)]
    exact (norm_eq_iff v hv).2 fun x hx => (hall x hx).2

theorem sentAs_str (s : PyStr) : SentAs fl (.str s) s.encode := by
  constructor
  · intro u hu
    unfold sent
    simp only [serialize, encode, hu, bind, Except.bind, pure, Except.pure]
  · intro hnone
    unfold sent
    simp only [serialize, encode, hnone, bind, Except.bind]
    exact ⟨_, rfl⟩

theorem readsBack_str (s : PyStr) :
    ReadsBack fl (.str s) (.str s) ↔ ∃ t, s.encode = some t ∧ ¬ ∃ v, IsText fl t v := by
  rw [(sentAs_str s).reads_iff]
  refine exists_congr fun t => and_congr_right fun ht => ?_
  have hs := PyStr.encode_eq_some.1 ht
  cases hloads : loads fl t with
  | some v =>
      have hv := loads_eq_some.1 hloads
      rw [deserialize_of_loads hloads]
      refine iff_of_false (fun heq => ofText_ne_of_isText hv ?_) fun hnot => hnot ⟨v, hv⟩
      rw [heq, hs]
  | none =>
      rw [deserialize_of_none hloads]
      refine iff_of_true (by rw [hs]) ?_
      rintro ⟨v, hv⟩
      rw [loads_eq_some.2 hv] at hloads
      cases hloads

theorem sentAs_int (i : Int) : SentAs fl (.int i) (dumps fl (.int i)) := by
  have hdumps : dumps fl (.int i) = intText i := rfl
  rw [hdumps]
  constructor
  · intro u hu
    unfold sent
    simp only [serialize, encode, hu, bind, Except.bind, pure, Except.pure]
  · intro hnone
    unfold sent
    simp only [serialize, encode, hnone, bind, Except.bind]
    exact ⟨_, rfl⟩

theorem readsBack_int (hfl : fl.Lawful) (i : Int) :
    ReadsBack fl (.int i) (.int i) ↔ (Piece.int i : Piece F).Written := by
  rw [readsBack_dumps hfl (fun x hx => by rw [List.mem_singleton.1 hx]; trivial) (sentAs_int i)]
  constructor
  · intro hall
    exact (hall _ List.mem_cons_self).1
  · intro hi x hx
    rw [List.mem_singleton.1 hx]
    exact ⟨hi, trivial⟩

/-- `True` and `False` come back as numbers. -/
theorem readsBack_bool (b : Bool) : ¬ ReadsBack fl (.bool b) (.bool b) := by
  have hsent : SentAs fl (Value.bool b) (intText (if b then 1 else 0)) := sentAs_textOr rfl
  rw [hsent.reads_iff]
  rintro ⟨t, ht, hread⟩
  have hvalue : IsText fl t (.int (if b then 1 else 0)) :=
    ⟨[], t, [], ws_nil, isValue_intText ht, ws_nil, by simp⟩
  rw [deserialize_of_loads (loads_eq_some.2 hvalue)] at hread
  cases hread

theorem readsBack_float (hfl : fl.Lawful) {x : F} (hx : fl.IsFinite x) :
    ReadsBack fl (.float x) (.float x) := by
  have hvalue : IsText fl (fl.repr x) (.float x) :=
    ⟨[], fl.repr x, [], ws_nil, isValue_repr hfl hx, ws_nil, by simp⟩
  exact ⟨some (fl.repr x), rfl, deserialize_of_loads (loads_eq_some.2 hvalue)⟩

/-- Which values come back. -/
theorem readsBack_iff (hfl : fl.Lawful) {v : Value F} (hv : ∀ x ∈ v.pieces, x.Proper fl) :
    ReadsBack fl v v ↔ Survives fl v := by
  cases v with
  | null => exact iff_of_true ⟨none, rfl, rfl⟩ trivial
  | bool b => exact iff_of_false (readsBack_bool b) id
  | int i => exact readsBack_int hfl i
  | float x => exact iff_of_true (readsBack_float hfl (hv _ List.mem_cons_self)) trivial
  | str s => exact readsBack_str s
  | arr l => exact readsBack_dumps hfl hv (sentAs_textOr rfl)
  | obj d => exact readsBack_dumps hfl hv (sentAs_textOr rfl)

theorem returned_iff_readsBack {v : Value F} {ttl : Int} (httl : ttl ≠ 0) (now : Int)
    (jobName : JobName) (workerName : Option WorkerName) (type : ResultType)
    (excString : Option String) (m : Streams) :
    (∃ m', create fl now jobName workerName type ttl v excString m = .ok m' ∧
      ∃ r, fetchLatest fl jobName m' = some r ∧ r.returnValue = v) ↔ ReadsBack fl v v := by
  unfold create
  rw [if_neg httl]
  constructor
  · rintro ⟨m', hcreate, r, hfetch, hvalue⟩
    cases hsent : sent fl v with
    | error x =>
        rw [hsent] at hcreate
        cases hcreate
    | ok t =>
        rw [hsent] at hcreate
        cases hcreate
        have hlatest := @fetchLatest_xadd F fl now
          ⟨jobName, type, workerName.getD "unknown_worker", ttl, now, t, excString⟩ m
        cases hlatest.symm.trans hfetch
        exact ⟨t, hsent, hvalue⟩
  · rintro ⟨t, hsent, hread⟩
    rw [hsent]
    exact ⟨_, rfl, _, fetchLatest_xadd now ⟨jobName, type, _, ttl, now, t, excString⟩ m, hread⟩

/-- **Which return values come back.** A value that is stored is read back as itself if and only if it
survives. -/
theorem create_fetchLatest_iff (hfl : fl.Lawful) {v : Value F} (hv : ∀ x ∈ v.pieces, x.Proper fl)
    {ttl : Int} (httl : ttl ≠ 0) (now : Int) (jobName : JobName) (workerName : Option WorkerName)
    (type : ResultType) (excString : Option String) (m : Streams) :
    (∃ m', create fl now jobName workerName type ttl v excString m = .ok m' ∧
      ∃ r, fetchLatest fl jobName m' = some r ∧ r.returnValue = v) ↔ Survives fl v :=
  (returned_iff_readsBack httl now jobName workerName type excString m).trans
    (readsBack_iff hfl hv)

end RoundTrip

/-! ## The streams of the world -/

section World

variable {V V' : Type}

theorem map_xadd (f : V → V') (m : ResultStreams V) (now : Int) (r : Result V) :
    TtlMap.map (List.map (Result.map f)) (m.xadd now r)
      = ResultStreams.xadd (TtlMap.map (List.map (Result.map f)) m) now (r.map f) := by
  have hold : ((TtlMap.map (List.map (Result.map f)) m).find? r.parent).getD []
      = ((m.find? r.parent).getD []).map (Result.map f) := by
    rw [TtlMap.find?_map]
    cases m.find? r.parent <;> rfl
  have hput : ∀ l, TtlMap.map (List.map (Result.map f)) (m.put r.parent l)
      = (TtlMap.map (List.map (Result.map f)) m).put r.parent (l.map (Result.map f)) :=
    TtlMap.map_put _ m r.parent
  have hcap : ∀ l : List (Result V), ((l ++ [r]).drop ((l ++ [r]).length - 10)).map (Result.map f)
      = ((l.map (Result.map f)) ++ [r.map f]).drop
          (((l.map (Result.map f)) ++ [r.map f]).length - 10) := by
    intro l
    simp only [List.map_drop, List.map_append, List.map_cons, List.map_nil, List.length_append,
      List.length_map, List.length_cons, List.length_nil]
  unfold ResultStreams.xadd
  dsimp only
  show TtlMap.map _ (if r.ttl > 0 then _ else _) = if r.ttl > 0 then _ else _
  have hparent : (r.map f).parent = r.parent := rfl
  rw [hparent, hold, ← hcap, ← hput]
  split
  · exact TtlMap.map_setDeadline _ _ _ _
  · exact TtlMap.map_setDeadline _ _ _ _

/-- The streams of the world, with a text for each encoded value. -/
def texts (render : Stored → Text) (m : ResultStreams (Option Stored)) : Streams :=
  TtlMap.map (List.map (Result.map (Option.map render))) m

/-- What `Result.create` writes to the streams of the world is what it writes here, for a value that is
encoded alike. -/
theorem create_texts {F : Type} [DecidableEq F] {fl : FloatFormat F} {render : Stored → Text}
    {pv : PyValue} {v : Value F} (hpv : pv.encodes = true)
    (hsent : sent fl v = .ok (pv.stored.map render)) (jobName : JobName)
    (workerName : Option WorkerName) (type : ResultType) (ttl : Int) (excString : Option String)
    (w : World) :
    create fl w.now jobName workerName type ttl v excString (texts render w.results)
      = .ok (texts render
          ((Result.create jobName workerName type ttl pv excString).exec w).results) := by
  have hrun := run_resultCreate jobName workerName type ttl pv excString w
  rw [Prog.exec_eq_of_run hrun]
  unfold create resultWorld
  have hvalue : (resultOf jobName workerName type ttl pv excString w.now).returnValue = pv := rfl
  have hkept : (resultOf jobName workerName type ttl pv excString w.now).ttl = ttl := rfl
  rw [hvalue, hkept]
  by_cases httl : ttl = 0
  · rw [if_pos httl, if_pos httl]
    exact congrArg Except.ok (TtlMap.map_erase _ _ _).symm
  · rw [if_neg httl, if_neg httl, if_pos hpv, hsent]
    exact congrArg Except.ok (map_xadd (Option.map render) w.results w.now
      ((resultOf jobName workerName type ttl pv excString w.now).map PyValue.stored)).symm

end World

/-! ## Floats that are whole numbers -/

/-- A `float` without a fraction, or none that is a number. -/
inductive SampleFloat where
  | whole (i : Int)
  | nan
  | posInf
  | negInf
  deriving DecidableEq

/-- The parts of `repr` of a whole number. -/
def wholeNumber (i : Int) : Number :=
  ⟨if i < 0 then ['-'] else [], Nat.toDigits 10 i.natAbs, ['.', '0'], []⟩

/-- `float` and `repr` of whole numbers of at most sixteen digits. -/
def wholeFormat : FloatFormat SampleFloat where
  ofText t :=
    match scanNumber t with
    | some (n, _) =>
        let digits : Int := Nat.ofDigitChars 10 n.whole 0
        .whole (if n.sign = [] then digits else -digits)
    | none => .nan
  repr
    | .whole i => (wholeNumber i).text
    | .nan => ['n', 'a', 'n']
    | .posInf => ['i', 'n', 'f']
    | .negInf => ['-', 'i', 'n', 'f']
  nan := .nan
  posInf := .posInf
  negInf := .negInf

theorem wholeNumber_good (i : Int) : (wholeNumber i).Good := by
  refine ⟨?_, toDigits_whole _, .inr ⟨['0'], ?_, rfl⟩, .inl rfl⟩
  · unfold wholeNumber
    dsimp only
    split
    · exact .inr rfl
    · exact .inl rfl
  · exact ⟨List.cons_ne_nil _ _, fun c hc => by rw [List.mem_singleton.1 hc]; rfl⟩

theorem wholeFormat_lawful : wholeFormat.Lawful := by
  constructor
  · rintro x ⟨hnan, hpos, hneg⟩
    cases x with
    | whole i =>
        refine ⟨wholeNumber i, wholeNumber_good i, fun h => ?_, rfl⟩
        exact absurd h.1 (List.cons_ne_nil _ _)
    | nan => exact absurd rfl hnan
    | posInf => exact absurd rfl hpos
    | negInf => exact absurd rfl hneg
  · rintro x ⟨hnan, hpos, hneg⟩
    cases x with
    | whole i =>
        have hscan := @scanNumber_complete _ (wholeNumber_good i) [] fun c hc => by cases hc
        rw [List.append_nil] at hscan
        show wholeFormat.ofText (wholeNumber i).text = _
        unfold wholeFormat
        dsimp only
        rw [hscan]
        unfold wholeNumber
        dsimp only
        rw [Nat.ofDigitChars_ten_toDigits]
        by_cases hi : i < 0
        · rw [if_pos hi, if_neg (List.cons_ne_nil _ _)]
          congr 1
          omega
        · rw [if_neg hi, if_pos rfl]
          congr 1
          omega
    | nan => exact absurd rfl hnan
    | posInf => exact absurd rfl hpos
    | negInf => exact absurd rfl hneg

/-- The list `["1", 2.0, None]`. -/
def sampleValue : Value SampleFloat := .arr [.str [0x31], .float (.whole 2), .null]

theorem sample_survives : ∀ x ∈ sampleValue.pieces,
    x.Proper wholeFormat ∧ x.Written ∧ x.Plain := by
  intro x hx
  rcases List.mem_cons.1 hx with rfl | hx
  · exact ⟨trivial, trivial, .singleton _⟩
  · rw [List.mem_singleton.1 hx]
    refine ⟨⟨?_, ?_, ?_⟩, trivial, trivial⟩ <;> exact nofun

theorem sample_returned :
    ∃ m', create wholeFormat 0 "a" none .successful 500 sampleValue none .empty = .ok m' ∧
      ∃ r, fetchLatest wholeFormat "a" m' = some r ∧ r.returnValue = sampleValue :=
  (create_fetchLatest_iff wholeFormat_lawful (fun x hx => (sample_survives x hx).1) (by decide) 0 "a"
    none .successful none .empty).2 fun x hx => (sample_survives x hx).2

/-- The string `"1"` comes back as a number. -/
theorem not_all_returned : ¬ ∀ (s : PyStr) (ttl : Int), ttl ≠ 0 →
    ∃ m', create wholeFormat 0 "a" none .successful ttl (.str s) none .empty = .ok m' ∧
      ∃ r, fetchLatest wholeFormat "a" m' = some r ∧ r.returnValue = .str s := by
  intro hall
  have hback := hall [0x31] 500 (by decide)
  rw [returned_iff_readsBack (by decide), readsBack_str] at hback
  obtain ⟨t, ht, hnot⟩ := hback
  have htext : t = ['1'] := by
    cases ht
    rfl
  have hone : loads wholeFormat ['1'] = some (.int 1) := rfl
  rw [htext] at hnot
  exact hnot ⟨_, loads_eq_some.1 hone⟩

end DailyScheduler.ReturnValues
