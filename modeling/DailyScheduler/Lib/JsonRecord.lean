import Mathlib.Data.List.Nodup
import DailyScheduler.Lib.JsonRoundTrip

set_option autoImplicit false

/-! # Records

A record is a dictionary whose keys are texts and whose values are strings or `null`. It is written and
read back as it is, but for surrogate pairs in its strings, and its fields are found by their keys.
-/

namespace JsonText

/-- The string of a text. -/
def str (s : String) : PyStr := .ofText s.toList

namespace PyStr

theorem ofText_injective : Function.Injective ofText := by
  intro t t' h
  have henc : (ofText t).encode = some t' := encode_eq_some.2 h
  rw [encode_eq_some.2 rfl] at henc
  exact Option.some.inj henc

theorem ofChar_not_isHigh (c : Char) : ¬ (CodePoint.ofChar c).IsHigh := by
  rintro ⟨hlow, hhigh⟩
  have hvalid : (CodePoint.ofChar c).val.isValidChar := c.valid
  unfold Nat.isValidChar at hvalid
  omega

/-- A text has no surrogates to join. -/
@[simp] theorem join_ofText (t : Text) : join (ofText t) = ofText t := by
  induction t with
  | nil => rfl
  | cons c t ih =>
      calc join (ofText (c :: t)) = CodePoint.ofChar c :: join (ofText t) :=
            join_of_not_isHigh (ofChar_not_isHigh c) _
        _ = ofText (c :: t) := by rw [ih]; rfl

theorem join_of_encode {s : PyStr} {t : Text} (h : s.encode = some t) : s.join = s := by
  rw [encode_eq_some.1 h, join_ofText]

end PyStr

theorem str_injective : Function.Injective str :=
  fun _ _ h => String.toList_inj.1 (PyStr.ofText_injective h)

@[simp] theorem str_inj {s s' : String} : str s = str s' ↔ s = s' := str_injective.eq_iff

@[simp] theorem join_str (s : String) : (str s).join = str s := PyStr.join_ofText _

variable {F : Type}

/-- `d.get(key)`, if there is such a key. -/
def lookup (key : String) (d : List (PyStr × Value F)) : Option (Value F) :=
  (d.find? fun p => decide (p.1 = str key)).map Prod.snd

/-- A string or `None`. -/
def ofOption : Option PyStr → Value F
  | none => .null
  | some s => .str s

def recordItems (items : List (String × Option PyStr)) : List (PyStr × Value F) :=
  items.map fun p => (str p.1, ofOption p.2)

def record (items : List (String × Option PyStr)) : Value F := .obj (recordItems items)

/-- The record with surrogate pairs as one code point each. -/
def joined (items : List (String × Option PyStr)) : List (String × Option PyStr) :=
  items.map fun p => (p.1, p.2.map PyStr.join)

theorem lookup_recordItems (key : String) (items : List (String × Option PyStr)) :
    lookup key (recordItems items : List (PyStr × Value F))
      = (items.find? fun p => decide (p.1 = key)).map fun p => ofOption p.2 := by
  unfold lookup recordItems
  rw [List.find?_map, Option.map_map]
  congr 2
  funext p
  simp

/-! ## What a record consists of -/

theorem pieces_ofOption {s : Option PyStr} {x : Piece F} (hx : x ∈ (ofOption s : Value F).pieces) :
    ∃ s', x = .str s' := by
  cases s with
  | none => cases hx
  | some s' => exact ⟨s', List.mem_singleton.1 hx⟩

theorem pieces_recordItems {items : List (String × Option PyStr)} {x : Piece F}
    (hx : x ∈ piecesOfItems (recordItems items)) : ∃ s, x = .str s := by
  induction items with
  | nil => cases hx
  | cons p items ih =>
      rcases List.mem_append.1 hx with hx | hx
      · rcases List.mem_cons.1 hx with rfl | hx
        · exact ⟨_, rfl⟩
        · exact pieces_ofOption hx
      · exact ih hx

theorem keys_recordItems (items : List (String × Option PyStr)) :
    (recordItems items : List (PyStr × Value F)).map Prod.fst = items.map fun p => str p.1 := by
  unfold recordItems
  rw [List.map_map]
  rfl

theorem nodup_keys {items : List (String × Option PyStr)} (h : (items.map Prod.fst).Nodup) :
    ((recordItems items : List (PyStr × Value F)).map Prod.fst).Nodup := by
  have hmap := List.Nodup.map str_injective h
  rw [List.map_map] at hmap
  rw [keys_recordItems]
  exact hmap

/-! ## The round trip of a record -/

theorem normItems_recordItems (items : List (String × Option PyStr)) :
    normItems (recordItems items : List (PyStr × Value F)) = recordItems (joined items) := by
  induction items with
  | nil => rfl
  | cons p items ih =>
      have hvalue : norm (ofOption p.2 : Value F) = ofOption (p.2.map PyStr.join) := by
        cases p.2 <;> rfl
      calc normItems (recordItems (p :: items))
          = ((str p.1).join, norm (ofOption p.2 : Value F)) :: normItems (recordItems items) := rfl
        _ = recordItems (joined (p :: items)) := by
            rw [join_str, hvalue, ih]
            rfl

theorem norm_record {items : List (String × Option PyStr)} (h : (items.map Prod.fst).Nodup) :
    norm (record items : Value F) = record (joined items) := by
  have hkeys : ((joined items).map Prod.fst).Nodup := by
    unfold joined
    rwa [List.map_map]
  show Value.obj (dictOf (normItems (recordItems items))) = .obj (recordItems (joined items))
  rw [normItems_recordItems]
  exact congrArg Value.obj ((dictOf_eq_iff (nodup_keys hkeys) rfl).2 rfl)

variable [DecidableEq F] {fl : FloatFormat F}

/-- Every record can be written. -/
theorem dumps_record (items : List (String × Option PyStr)) :
    ∃ t, dumps fl (record items) = some t := by
  apply Option.isSome_iff_exists.1
  rw [dumps_isSome]
  intro x hx
  rcases List.mem_cons.1 hx with rfl | hx
  · trivial
  · obtain ⟨s, rfl⟩ := pieces_recordItems hx
    trivial

/-- **A record is read back as it is**, but for surrogate pairs. -/
theorem loads_dumps_record (hfl : fl.Lawful) {items : List (String × Option PyStr)}
    (hkeys : (items.map Prod.fst).Nodup) {t : Text} (h : dumps fl (record items) = some t) :
    loads fl t = some (record (joined items)) := by
  rw [← norm_record hkeys]
  refine loads_dumps hfl (fun x hx => ?_) h
  rcases List.mem_cons.1 hx with rfl | hx
  · exact nodup_keys hkeys
  · obtain ⟨s, rfl⟩ := pieces_recordItems hx
    trivial

end JsonText
