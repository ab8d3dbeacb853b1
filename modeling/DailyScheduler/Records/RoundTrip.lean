import Mathlib
import DailyScheduler.Lib.Run
import DailyScheduler.Records.HashModel

set_option autoImplicit false

/-! # What is saved is read back

An object is changed attribute by attribute, saved in part or in full, and loaded again. A save
writes the changed fields only, so it leaves the stored record equal to the object if the other
fields were equal before: the object must be saved under the name under which it was last
saved or loaded, or in full.
-/

namespace DailyScheduler.Records

/-- The Python list of the strings. -/
def strings (l : List String) : PyValue := .list (l.map .str)

/-- The Python dictionary of the items. -/
def dictOf (d : List (String × String)) : PyValue := .dict (d.map fun p => (.str p.1, .str p.2))

/-- The values of a type. What the standard library writes of such a value it also reads: this
is assumed of ISO datetimes, of JSON and of `float` of a `repr`. -/
def FieldType.HasType (c : Codec) (a : Attr) : FieldType → Prop
  | .str => ∃ s, a = .value (.str s)
  | .datetime => ∃ t, c.fromisoformat (c.isoformat t) = some t ∧ a = .value (.datetime t)
  | .bool => ∃ b, a = .value (.bool b)
  | .int => ∃ i, a = .value (.int i)
  | .float => ∃ r, c.float r = some r ∧ a = .value (.float r)
  | .strList => ∃ l, c.loads (c.dumps (strings l)) = some (strings l) ∧ a = .value (strings l)
  | .strDict => ∃ d, c.loads (c.dumps (dictOf d)) = some (dictOf d) ∧ a = .value (dictOf d)
  | .anyList => ∃ l, a = .value (.list l)
  | .enum values => ∃ s ∈ values, a = .member s

/-- The values of a declared field. -/
def FieldSpec.Holds (c : Codec) (spec : FieldSpec) (a : Attr) : Prop :=
  spec.type.HasType c a ∨ (spec.optional = true ∧ a = .value .none)

/-- The value can be pickled. -/
def Attr.Picklable (c : Codec) (a : Attr) : Prop :=
  ∃ v, a = .value v ∧ c.unpickle (c.pickle v) = some v

section Values

variable {c : Codec} {a : Attr}

theorem jsonDumps_strings (l : List String) : PyValue.jsonDumps true (strings l) = true := by
  unfold strings PyValue.jsonDumps
  induction l with
  | nil => rfl
  | cons s l ih =>
      rw [List.map_cons, PyValue.jsonDumpsAll, ih]
      rfl

theorem copies_strings (l : List String) : (strings l).copies = true := by
  unfold strings PyValue.copies
  induction l with
  | nil => rfl
  | cons s l ih =>
      rw [List.map_cons, PyValue.copiesAll, ih]
      rfl

theorem jsonDumps_dictOf (d : List (String × String)) :
    PyValue.jsonDumps false (dictOf d) = true := by
  unfold dictOf PyValue.jsonDumps
  induction d with
  | nil => rfl
  | cons p d ih =>
      rw [List.map_cons, PyValue.jsonDumpsItems, ih]
      rfl

theorem copies_dictOf (d : List (String × String)) : (dictOf d).copies = true := by
  unfold dictOf PyValue.copies
  induction d with
  | nil => rfl
  | cons p d ih =>
      rw [List.map_cons, PyValue.copiesItems, ih]
      rfl

theorem serialize_strings (l : List String) :
    (strings l).serialize = .ok (some (.json (strings l))) := by
  have h := jsonDumps_strings l
  unfold strings at h ⊢
  simp [PyValue.serialize, h]

theorem serialize_dictOf (d : List (String × String)) :
    (dictOf d).serialize = .ok (some (.json (dictOf d))) := by
  have h := jsonDumps_dictOf d
  unfold dictOf at h ⊢
  simp [PyValue.serialize, h]

/-- Every value of a type other than `list[Any]` is encoded. -/
theorem encodes_of_hasType {t : FieldType} (ht : t ≠ .anyList) (h : t.HasType c a) :
    a.encodes = true := by
  cases t with
  | str =>
      obtain ⟨s, rfl⟩ := h
      rfl
  | datetime =>
      obtain ⟨t, -, rfl⟩ := h
      rfl
  | bool =>
      obtain ⟨s, rfl⟩ := h
      rfl
  | int =>
      obtain ⟨s, rfl⟩ := h
      rfl
  | float =>
      obtain ⟨s, -, rfl⟩ := h
      rfl
  | strList =>
      obtain ⟨l, -, rfl⟩ := h
      simp [Attr.encodes, PyValue.encodes, copies_strings, serialize_strings, Except.isOk,
        Except.toBool]
  | strDict =>
      obtain ⟨d, -, rfl⟩ := h
      simp [Attr.encodes, PyValue.encodes, copies_dictOf, serialize_dictOf, Except.isOk,
        Except.toBool]
  | anyList => exact absurd rfl ht
  | enum values =>
      obtain ⟨s, -, rfl⟩ := h
      rfl

/-- The text of a value of a type is read back as the value. -/
theorem deserialize_serialize {t : FieldType} (ht : t ≠ .anyList)
    (h : t.HasType c a) : ∃ s, a.serialize c = .ok (some s) ∧ t.deserialize c s = a := by
  cases t with
  | str =>
      obtain ⟨s, rfl⟩ := h
      exact ⟨s, rfl, rfl⟩
  | datetime =>
      obtain ⟨t, hback, rfl⟩ := h
      refine ⟨c.isoformat t, rfl, ?_⟩
      rw [FieldType.deserialize, hback]
      rfl
  | bool =>
      obtain ⟨b, rfl⟩ := h
      refine ⟨(if b then (1 : Int) else 0).repr, rfl, ?_⟩
      rw [FieldType.deserialize, Int.toInt?_repr]
      cases b <;> rfl
  | int =>
      obtain ⟨i, rfl⟩ := h
      refine ⟨i.repr, rfl, ?_⟩
      rw [FieldType.deserialize, Int.toInt?_repr]
      rfl
  | float =>
      obtain ⟨r, hr, rfl⟩ := h
      refine ⟨r, rfl, ?_⟩
      rw [FieldType.deserialize, hr]
      rfl
  | strList =>
      obtain ⟨l, hback, rfl⟩ := h
      refine ⟨c.dumps (strings l), ?_, ?_⟩
      · simp [Attr.serialize, serialize_strings, Except.map, render]
      · rw [FieldType.deserialize, hback]
        rfl
  | strDict =>
      obtain ⟨d, hback, rfl⟩ := h
      refine ⟨c.dumps (dictOf d), ?_, ?_⟩
      · simp [Attr.serialize, serialize_dictOf, Except.map, render]
      · rw [FieldType.deserialize, hback]
        rfl
  | anyList => exact absurd rfl ht
  | enum values =>
      obtain ⟨s, hs, rfl⟩ := h
      refine ⟨s, rfl, ?_⟩
      rw [FieldType.deserialize, if_pos hs]

end Values

variable {F : Type}

/-- Every field holds a value of its declared type, and those that are pickled can be. -/
def Typed (c : Codec) (S : Schema F) (attr : F → Attr) : Prop :=
  ∀ f, (S.spec f).Holds c (attr f) ∧ (S.nonSerializable f = true → (attr f).Picklable c)

section Texts

variable {c : Codec} {S : Schema F} {attr : F → Attr}

theorem text_of_plain {f : F} (hf : S.nonSerializable f = false) :
    HashModel.text c S attr f = ((attr f).serialize c).toOption.join := by
  simp [HashModel.text, hf]

theorem text_of_nonSerializable {f : F} (hf : S.nonSerializable f = true) :
    HashModel.text c S attr f = some (HashModel.pickled c (attr f)) := by
  simp [HashModel.text, hf]

/-- A field that holds a value of its type is read back, and none that is required is missing. -/
theorem readField_text (h : Typed c S attr) (f : F) :
    HashModel.readField c S f (HashModel.text c S attr f) = attr f ∧
      ((HashModel.text c S attr f).isSome = true ∨ (S.spec f).default.isSome = true) ∧
      (S.nonSerializable f = true →
        ((HashModel.text c S attr f).bind c.unpickle).isSome = true) := by
  obtain ⟨hholds, hpickle⟩ := h f
  cases hf : S.nonSerializable f with
  | true =>
      obtain ⟨v, hv, hun⟩ := hpickle hf
      have htext : HashModel.text c S attr f = some (c.pickle v) := by
        rw [text_of_nonSerializable hf, hv]
        rfl
      rw [htext]
      refine ⟨?_, Or.inl rfl, fun _ => by rw [Option.bind_some, hun]; rfl⟩
      simp [HashModel.readField, hf, hun, hv]
  | false =>
      rcases hholds with hty | ⟨hopt, hnone⟩
      · have hany : (S.spec f).type ≠ .anyList := by
          intro hany
          rw [S.anyList_only f hany] at hf
          cases hf
        obtain ⟨s, hs, hback⟩ := deserialize_serialize hany hty
        have htext : HashModel.text c S attr f = some s := by
          rw [text_of_plain hf, hs]
          rfl
        rw [htext]
        refine ⟨?_, Or.inl rfl, fun h => by cases h⟩
        simpa [HashModel.readField, hf] using hback
      · -- `None` is stored as an absent field, and `None` is also the default
        have htext : HashModel.text c S attr f = none := by
          rw [text_of_plain hf, hnone]
          rfl
        rw [htext, hnone]
        have hdefault := S.nodefault_of_optional f hopt
        refine ⟨?_, Or.inr (by rw [hdefault]; rfl), fun h => by cases h⟩
        rw [HashModel.readField, hdefault]
        rfl

/-- The name of an object is a string. -/
theorem name_of_typed (h : Typed c S attr) : ∃ n, attr S.name = .value (.str n) := by
  have hholds := (h S.name).1
  rw [S.name_spec] at hholds
  rcases hholds with hstr | ⟨hopt, -⟩
  · exact hstr
  · cases hopt

theorem nonempty_text (h : Typed c S attr) :
    Hash.nonempty S.fields (HashModel.text c S attr) = true := by
  obtain ⟨n, hn⟩ := name_of_typed h
  have htext : HashModel.text c S attr S.name = some n := by
    rw [text_of_plain S.name_plain, hn]
    rfl
  exact Hash.nonempty_of_field (S.mem_fields S.name) htext

variable [DecidableEq F]

/-- The object that is loaded from the texts of its fields. -/
def loaded (S : Schema F) (attr : F → Attr) : HashModel F where
  attr := attr
  dirtyFields := (S.fields.filter fun f => S.nonSerializable f).toFinset
  saveAll := false

theorem deserialize_text (h : Typed c S attr) :
    HashModel.deserialize c S (HashModel.text c S attr) = some (loaded S attr) := by
  have hread := readField_text h
  unfold HashModel.deserialize
  rw [if_pos]
  · have hattr : (fun f => HashModel.readField c S f (HashModel.text c S attr f)) = attr :=
      funext fun f => (hread f).1
    rw [hattr]
    rfl
  · rw [Bool.and_eq_true, List.all_eq_true, List.all_eq_true]
    refine ⟨fun f _ => ?_, fun f _ => ?_⟩
    · rw [Bool.or_eq_true]
      exact (hread f).2.1
    · cases hf : S.nonSerializable f with
      | false => rfl
      | true => simpa [hf] using (hread f).2.2 hf

theorem get_of_stored (h : Typed c S attr) {store : Store F} {n : String}
    (hs : store n = HashModel.text c S attr) : HashModel.get c S store n = some (loaded S attr) := by
  rw [HashModel.get, hs, if_pos (nonempty_text h), deserialize_text h]

end Texts

/-! ## Saving -/

section Saving

variable {c : Codec} {S : Schema F}

theorem forM_ok {α : Type} {g : α → Except PyError Unit} {l : List α}
    (h : ∀ x ∈ l, g x = .ok ()) : l.forM g = .ok () := by
  induction l with
  | nil => rfl
  | cons x l ih =>
      have hx : g x = .ok () := h x List.mem_cons_self
      have hl : l.forM g = .ok () := ih fun y hy => h y (List.mem_cons_of_mem x hy)
      show (g x >>= fun _ => l.forM g) = .ok ()
      rw [hx, hl]
      rfl

/-- Fields that are all encoded give a record of their texts. -/
theorem serialize_ok {r : HashModel F} (h : ∀ f, (r.attr f).encodes = true) :
    r.serialize c S = .ok (HashModel.text c S r.attr) := by
  have hcopy : S.fields.forM (fun f => (r.attr f).copy) = .ok () := by
    refine forM_ok fun f _ => ?_
    have hf := h f
    cases hv : r.attr f with
    | member s => rfl
    | value v =>
        rw [hv] at hf
        have hcopies : v.copies = true := (Bool.and_eq_true_iff.1 hf).1
        simp [Attr.copy, hcopies]
  have hencode : (S.fields.forM fun f => do
      let _ ← (r.attr f).serialize c
      pure ()) = (.ok () : Except PyError Unit) := by
    refine forM_ok fun f _ => ?_
    have hf := h f
    cases hv : r.attr f with
    | member s => rfl
    | value v =>
        rw [hv] at hf
        have hser : v.serialize.isOk = true := (Bool.and_eq_true_iff.1 hf).2
        cases hs : v.serialize with
        | error e =>
            rw [hs] at hser
            cases hser
        | ok stored => simp [Attr.serialize, hs, Except.map, bind, Except.bind, pure, Except.pure]
  rw [HashModel.serialize, hcopy, hencode]
  rfl

variable [DecidableEq F]

theorem save_ok {r : HashModel F} (h : ∀ f, (r.attr f).encodes = true) (saveAll : Bool)
    (store : Store F) : r.save c S saveAll store = .ok
      (Function.update store (r.name S)
        (Hash.merge (fun f => saveAll || r.saveAll || decide (f ∈ r.dirtyFields))
          (HashModel.text c S r.attr) (store (r.name S))),
        { r with dirtyFields := ∅, saveAll := false }) := by
  rw [HashModel.save, serialize_ok h]
  rfl

/-- A save in full, or of the changed fields over a record that has the others, leaves the
record of the object. -/
theorem merge_eq_text {r : HashModel F} {saveAll : Bool} {h : TextHash F}
    (hsync : saveAll = true ∨ r.saveAll = true ∨
      ∀ f, f ∉ r.dirtyFields → h f = HashModel.text c S r.attr f) :
    Hash.merge (fun f => saveAll || r.saveAll || decide (f ∈ r.dirtyFields))
      (HashModel.text c S r.attr) h = HashModel.text c S r.attr := by
  funext f
  unfold Hash.merge
  split
  · rfl
  · rename_i hnot
    simp only [Bool.or_eq_true, decide_eq_true_eq, not_or] at hnot
    obtain ⟨⟨hall, hself⟩, hdirty⟩ := hnot
    rcases hsync with h | h | h
    · exact absurd h hall
    · exact absurd h hself
    · exact h f hdirty

end Saving

/-! ## Runs -/

/-- What is done with one object. -/
inductive RecordOp (F : Type) where
  | assign (f : F) (a : Attr)
  | save (saveAll : Bool)
  | reload

/-- The hashes at the broker, the object, and the name under which it was last saved or
loaded. -/
structure Session (F : Type) where
  store : Store F
  object : HashModel F
  savedAs : Option String

def RecordOp.step [DecidableEq F] (c : Codec) (S : Schema F) (s : Session F) : RecordOp F → Session F
  | .assign f a => { s with object := s.object.setattr f a }
  | .save saveAll =>
      match s.object.save c S saveAll s.store with
      | .ok (store, object) => ⟨store, object, some (s.object.name S)⟩
      | .error _ => s
  | .reload =>
      match HashModel.get c S s.store (s.object.name S) with
      | some object => ⟨s.store, object, some (s.object.name S)⟩
      | none => s

/-- `get` of the object's name returns an object that equals it on every public field. -/
def ReadsBack [DecidableEq F] (c : Codec) (S : Schema F) (s : Session F) : Prop :=
  ∃ r, HashModel.get c S s.store (s.object.name S) = some r ∧ ∀ f, r.attr f = s.object.attr f

/-- Attributes are assigned values of their declared types. -/
def Declared (c : Codec) (S : Schema F) : RecordOp F → Prop
  | .assign f a => (S.spec f).Holds c a ∧ (S.nonSerializable f = true → a.Picklable c)
  | _ => True

/-- A save finds pickled fields that the other encoder accepts too, and is in full or under the
name of the last save or load. -/
def Kept (S : Schema F) (s : Session F) : RecordOp F → Prop
  | .save saveAll =>
      (∀ f, S.nonSerializable f = true → (s.object.attr f).encodes = true) ∧
        (saveAll = true ∨ s.object.saveAll = true ∨ s.savedAs = some (s.object.name S))
  | _ => True

/-- A new object whose fields hold values of their types, and an empty broker. -/
structure New (c : Codec) (S : Schema F) (s : Session F) : Prop where
  typed : Typed c S s.object.attr
  saveAll : s.object.saveAll = true
  empty : ∀ n f, s.store n f = none

/-- The object is typed, every record is that of some typed object of its name, and the record
that the object was last saved to or loaded from has its unchanged fields. -/
structure Inv (c : Codec) (S : Schema F) (s : Session F) : Prop where
  typed : Typed c S s.object.attr
  stored : ∀ n, (∀ f, s.store n f = none) ∨
    ∃ attr, Typed c S attr ∧ attr S.name = .value (.str n) ∧ s.store n = HashModel.text c S attr
  synced : s.object.saveAll = true ∨ ∃ n, s.savedAs = some n ∧
    ∀ f, f ∉ s.object.dirtyFields → s.store n f = HashModel.text c S s.object.attr f

section Runs

variable {c : Codec} {S : Schema F} {s : Session F}

theorem Inv.of_new (h : New c S s) : Inv c S s :=
  ⟨h.typed, fun n => Or.inl (h.empty n), Or.inl h.saveAll⟩

theorem Inv.encodes (h : Inv c S s)
    (hkept : ∀ f, S.nonSerializable f = true → (s.object.attr f).encodes = true) (f : F) :
    (s.object.attr f).encodes = true := by
  cases hf : S.nonSerializable f with
  | true => exact hkept f hf
  | false =>
      rcases (h.typed f).1 with hty | ⟨-, hnone⟩
      · refine encodes_of_hasType (fun hany => ?_) hty
        rw [S.anyList_only f hany] at hf
        cases hf
      · rw [hnone]
        rfl

variable [DecidableEq F]

/-- A save that meets the condition stores the record of the object. -/
theorem Inv.save_eq (h : Inv c S s) {saveAll : Bool} (hk : Kept S s (.save saveAll)) :
    RecordOp.step c S s (.save saveAll) =
      ⟨Function.update s.store (s.object.name S) (HashModel.text c S s.object.attr),
        { s.object with dirtyFields := ∅, saveAll := false }, some (s.object.name S)⟩ := by
  obtain ⟨hencodes, hname⟩ := hk
  have hsync : saveAll = true ∨ s.object.saveAll = true ∨ ∀ f, f ∉ s.object.dirtyFields →
      s.store (s.object.name S) f = HashModel.text c S s.object.attr f := by
    rcases hname with hall | hself | hsaved
    · exact Or.inl hall
    · exact Or.inr (Or.inl hself)
    · refine Or.inr (h.synced.imp id ?_)
      rintro ⟨n, hn, hsync⟩
      rw [hsaved] at hn
      cases hn
      exact hsync
  have hmerge := merge_eq_text hsync
  simp only [RecordOp.step]
  rw [save_ok (h.encodes hencodes), hmerge]

theorem Inv.step (h : Inv c S s) {op : RecordOp F} (hd : Declared c S op)
    (hk : Kept S s op) : Inv c S (RecordOp.step c S s op) := by
  cases op with
  | assign f a =>
      refine ⟨fun g => ?_, h.stored, ?_⟩
      · show (S.spec g).Holds c (Function.update s.object.attr f a g) ∧ _
        by_cases hg : g = f
        · subst hg
          rw [Function.update_self]
          refine ⟨hd.1, fun hns => ?_⟩
          show (Function.update s.object.attr g a g).Picklable c
          rw [Function.update_self]
          exact hd.2 hns
        · rw [Function.update_of_ne hg]
          refine ⟨(h.typed g).1, fun hns => ?_⟩
          show (Function.update s.object.attr f a g).Picklable c
          rw [Function.update_of_ne hg]
          exact (h.typed g).2 hns
      · rcases h.synced with hall | ⟨n, hn, hsync⟩
        · exact Or.inl hall
        · refine Or.inr ⟨n, hn, fun g hg => ?_⟩
          obtain ⟨hgf, hgd⟩ := not_or.1 fun h => hg (Finset.mem_insert.2 h)
          rw [show (RecordOp.step c S s (.assign f a)).store n g = s.store n g from rfl,
            hsync g hgd]
          have hattr : (s.object.setattr f a).attr g = s.object.attr g :=
            Function.update_of_ne hgf _ _
          show HashModel.text c S s.object.attr g
            = HashModel.text c S (s.object.setattr f a).attr g
          simp only [HashModel.text, hattr]
  | save saveAll =>
      rw [h.save_eq hk]
      refine ⟨h.typed, fun n => ?_, Or.inr ⟨s.object.name S, rfl, fun f _ => ?_⟩⟩
      · dsimp only
        by_cases hn : n = s.object.name S
        · subst hn
          obtain ⟨n, hn⟩ := name_of_typed h.typed
          refine Or.inr ⟨s.object.attr, h.typed, ?_, Function.update_self _ _ _⟩
          rw [HashModel.name, hn]
        · rw [Function.update_of_ne hn]
          exact h.stored n
      · dsimp only
        rw [Function.update_self]
  | reload =>
      rcases h.stored (s.object.name S) with hnone | ⟨attr, hty, hname, hs⟩
      · have hget : HashModel.get c S s.store (s.object.name S) = none := by
          have hempty : (s.store (s.object.name S)).nonempty S.fields = false := by
            simp [Hash.nonempty, hnone]
          simp [HashModel.get, hempty]
        rw [RecordOp.step, hget]
        exact h
      · rw [RecordOp.step, get_of_stored hty hs]
        exact ⟨hty, h.stored, Or.inr ⟨s.object.name S, rfl, fun f _ => congrFun hs f⟩⟩

/-- After a save that meets the condition the object is read back. -/
theorem Inv.readsBack (h : Inv c S s) {saveAll : Bool}
    (hk : Kept S s (.save saveAll)) : ReadsBack c S (RecordOp.step c S s (.save saveAll)) := by
  rw [h.save_eq hk]
  refine ⟨loaded S s.object.attr, ?_, fun f => rfl⟩
  exact get_of_stored h.typed (Function.update_self _ _ _)

/-- Every save of a run that meets the conditions is read back. -/
theorem readsBack_of_meets (h : Inv c S s) {l : List (RecordOp F)} {saveAll : Bool}
    (hl : Run.Meets (RecordOp.step c S) (fun s op => Declared c S op ∧ Kept S s op) s
      (l ++ [.save saveAll])) :
    ReadsBack c S (Run.last (RecordOp.step c S) s (l ++ [.save saveAll])) := by
  induction l generalizing s with
  | nil => exact h.readsBack hl.1.2
  | cons op l ih => exact ih (h.step hl.1.1 hl.1.2) hl.2

end Runs

/-- **Saved records are read back.** In every run of assignments, saves and loads of one job or
worker object, `get` returns an object with the same public fields after each save, if every
save finds `args` that `json.dumps` accepts, and is in full or under the name under which the
object was last saved or loaded. -/
theorem read_back_after_save (c : Codec) (cfg : SchedulerConfiguration) :
    (∀ s, New c (jobSchema cfg) s → ∀ l saveAll,
      Run.Meets (RecordOp.step c (jobSchema cfg))
        (fun s op => Declared c (jobSchema cfg) op ∧ Kept (jobSchema cfg) s op) s
        (l ++ [.save saveAll]) →
      ReadsBack c (jobSchema cfg)
        (Run.last (RecordOp.step c (jobSchema cfg)) s (l ++ [.save saveAll]))) ∧
    (∀ s, New c workerSchema s → ∀ l saveAll,
      Run.Meets (RecordOp.step c workerSchema)
        (fun s op => Declared c workerSchema op ∧ Kept workerSchema s op) s
        (l ++ [.save saveAll]) →
      ReadsBack c workerSchema
        (Run.last (RecordOp.step c workerSchema) s (l ++ [.save saveAll]))) := by
  constructor
  · intro s hnew l saveAll hl
    exact readsBack_of_meets (Inv.of_new hnew) hl
  · intro s hnew l saveAll hl
    exact readsBack_of_meets (Inv.of_new hnew) hl

/-! ## Concrete runs -/

/-- The texts of the values of the runs below. -/
def sampleCodec : Codec where
  isoformat := fun t => if t = 0 then "1970-01-01T00:00:00+00:00" else ""
  fromisoformat := fun s => if s = "1970-01-01T00:00:00+00:00" then some 0 else none
  dumps
    | .list [] => "[]"
    | .dict [] => "\x7b\x7d"
    | _ => ""
  loads := fun s =>
    if s = "[]" then some (.list []) else if s = "\x7b\x7d" then some (.dict []) else none
  pickle
    | .list [] => "gARdlC4=\n"
    | .dict [] => "gAR9lC4=\n"
    | _ => "gASVEQAAAAAAAABdlH2USwFLAoaUjAF4lHNhLg==\n"
  unpickle := fun s =>
    if s = "gARdlC4=\n" then some (.list [])
    else if s = "gAR9lC4=\n" then some (.dict [])
    else if s = "gASVEQAAAAAAAABdlH2USwFLAoaUjAF4lHNhLg==\n" then
      some (.list [.dict [(.tuple [.int 1, .int 2], .str "x")]])
    else none
  float := fun s => if s = "0.0" then some "0.0" else none
  print := fun _ => ""

/-- The fields of a job with the given `args`. -/
def sampleAttr (args : PyValue) : JobAttr → Attr
  | .name => .value (.str "a")
  | .queueName => .value (.str "q")
  | .description | .funcName => .value (.str "f")
  | .createdAt => .value (.datetime 0)
  | .args => .value args
  | .kwargs | .metadata => .value (.dict [])
  | .timeout => .value (.int 300)
  | .successTtl | .jobInfoTtl => .value (.int 600)
  | .atFront => .value (.bool false)
  | .successCallbackTimeout | .failureCallbackTimeout | .stoppedCallbackTimeout =>
      .value (.int 60)
  | .status => .member "queued"
  | _ => .value .none

def sampleSession (args : PyValue) : Session JobAttr :=
  ⟨fun _ _ => none, HashModel.init (sampleAttr args), none⟩

theorem sample_new {l : List PyValue}
    (h : sampleCodec.unpickle (sampleCodec.pickle (.list l)) = some (.list l)) :
    New sampleCodec (jobSchema {}) (sampleSession (.list l)) := by
  have hargs : (Attr.value (.list l)).Picklable sampleCodec := ⟨_, rfl, h⟩
  refine ⟨fun f => ?_, rfl, fun _ _ => rfl⟩
  cases f with
  | args => exact ⟨Or.inl ⟨l, rfl⟩, fun _ => hargs⟩
  | kwargs => exact ⟨Or.inl ⟨[], rfl, rfl⟩, fun _ => ⟨_, rfl, rfl⟩⟩
  | metadata => exact ⟨Or.inl ⟨[], rfl, rfl⟩, fun h => by cases h⟩
  | createdAt => exact ⟨Or.inl ⟨0, rfl, rfl⟩, fun h => by cases h⟩
  | status => exact ⟨Or.inl ⟨"queued", by decide, rfl⟩, fun h => by cases h⟩
  | _ => exact ⟨by first | exact Or.inl ⟨_, rfl⟩ | exact Or.inr ⟨rfl, rfl⟩, fun h => by cases h⟩

/-- A job is created and saved, started, and saved again. -/
theorem sample_read_back :
    ReadsBack sampleCodec (jobSchema {})
      (Run.last (RecordOp.step sampleCodec (jobSchema {})) (sampleSession (.list []))
        ([.save false, .assign .status (.member "started")] ++ [.save false])) := by
  refine (read_back_after_save sampleCodec {}).1 _ (sample_new rfl) _ _ ?_
  refine ⟨⟨trivial, ?_, Or.inr (Or.inl rfl)⟩, ⟨⟨Or.inl ?_, fun h => by cases h⟩, trivial⟩,
    ⟨trivial, ?_, Or.inr (Or.inr rfl)⟩, trivial⟩
  · intro f _
    cases f <;> rfl
  · exact ⟨"started", by decide, rfl⟩
  · intro f _
    cases f <;> rfl

/-- A job whose `args` hold a dictionary with a tuple as a key is not saved at all, and one that is
saved, renamed and saved again is not found under its new name. -/
theorem not_read_back :
    (New sampleCodec (jobSchema {}) (sampleSession
        (.list [.dict [(.tuple [.int 1, .int 2], .str "x")]])) ∧
      ¬ ReadsBack sampleCodec (jobSchema {})
        (Run.last (RecordOp.step sampleCodec (jobSchema {}))
          (sampleSession (.list [.dict [(.tuple [.int 1, .int 2], .str "x")]])) [.save false])) ∧
    ¬ ReadsBack sampleCodec (jobSchema {})
      (Run.last (RecordOp.step sampleCodec (jobSchema {})) (sampleSession (.list []))
        [.save false, .assign .name (.value (.str "b")), .save false]) := by
  refine ⟨⟨sample_new rfl, ?_⟩, ?_⟩
  · rintro ⟨r, hget, -⟩
    cases hget
  · rintro ⟨r, hget, -⟩
    cases hget

end DailyScheduler.Records
