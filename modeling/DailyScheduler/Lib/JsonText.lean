import Mathlib.Data.List.Basic
import Mathlib.Data.List.Chain

set_option autoImplicit false

/-! # JSON texts

`json.dumps` and `json.loads` of Python's standard library, as functions between values and texts. A
string is a list of code points, surrogates included; a text is what a strict decoder returns, so it
has no surrogates. Texts are written in ASCII, with `\u` escapes for the rest. Texts are read with
`NaN` and the infinities as further constants; the last item of a key counts; an integer of too many
digits is refused.
-/

namespace JsonText

/-- A text: characters without surrogates. -/
abbrev Text := List Char

/-- A code point of a string. -/
abbrev CodePoint := Fin 0x110000

/-- A `str`. -/
abbrev PyStr := List CodePoint

namespace CodePoint

def ofChar (c : Char) : CodePoint := ⟨c.toNat, by
  have h := c.valid
  unfold UInt32.isValidChar Nat.isValidChar at h
  show c.val.toNat < _
  omega⟩

/-- The first half of a surrogate pair. -/
def IsHigh (p : CodePoint) : Prop := 0xd800 ≤ p.val ∧ p.val ≤ 0xdbff

/-- The second half of a surrogate pair. -/
def IsLow (p : CodePoint) : Prop := 0xdc00 ≤ p.val ∧ p.val ≤ 0xdfff

instance : DecidablePred IsHigh := fun _ => inferInstanceAs (Decidable (_ ∧ _))

instance : DecidablePred IsLow := fun _ => inferInstanceAs (Decidable (_ ∧ _))

/-- The character of a code point, if it is no surrogate. -/
def toChar? (p : CodePoint) : Option Char :=
  if h : p.val.isValidChar then some (Char.ofNatAux p.val h) else none

/-- The code point of a surrogate pair. -/
def pair (hi lo : CodePoint) : CodePoint :=
  ⟨(0x10000 + (hi.val - 0xd800) % 0x400 * 0x400 + (lo.val - 0xdc00) % 0x400), by omega⟩

end CodePoint

theorem mapM_eq_some {α β : Type} {f : α → Option β} {l : List α} {u : List β} :
    l.mapM f = some u ↔ List.Forall₂ (fun a b => f a = some b) l u := by
  induction l generalizing u with
  | nil =>
      rw [List.forall₂_nil_left_iff]
      exact ⟨fun h => (Option.some.inj h).symm, fun h => h ▸ rfl⟩
  | cons a l ih =>
      rw [List.mapM_cons]
      constructor
      · intro h
        obtain ⟨b, hb, h⟩ := Option.bind_eq_some_iff.1 h
        obtain ⟨u', hu', h⟩ := Option.bind_eq_some_iff.1 h
        cases h
        exact .cons hb (ih.1 hu')
      · rintro (_ | ⟨hb, hu⟩)
        rw [hb, ih.2 hu]
        rfl

theorem exists_of_mapM {α β : Type} {f : α → Option β} {l : List α} {u : List β}
    (h : l.mapM f = some u) {a : α} (ha : a ∈ l) : ∃ b, f a = some b := by
  have hall := mapM_eq_some.1 h
  induction hall with
  | nil => exact absurd ha List.not_mem_nil
  | cons hb hrest ih =>
      rcases List.mem_cons.1 ha with rfl | ha
      · exact ⟨_, hb⟩
      · exact ih (mapM_eq_some.2 hrest) ha

namespace PyStr

/-- `str.encode`: a surrogate is refused. -/
def encode (s : PyStr) : Option Text := s.mapM CodePoint.toChar?

/-- `bytes.decode`. -/
def ofText (t : Text) : PyStr := t.map CodePoint.ofChar

theorem toChar?_eq_some {p : CodePoint} {c : Char} :
    p.toChar? = some c ↔ p = CodePoint.ofChar c := by
  unfold CodePoint.toChar?
  constructor
  · intro h
    by_cases hvalid : p.val.isValidChar
    · rw [dif_pos hvalid] at h
      cases h
      exact Fin.ext rfl
    · rw [dif_neg hvalid] at h
      cases h
  · rintro rfl
    have hvalid : (CodePoint.ofChar c).val.isValidChar := c.valid
    rw [dif_pos hvalid]
    rfl

/-- A text is what its decoded string is encoded as. -/
theorem encode_eq_some {s : PyStr} {t : Text} : s.encode = some t ↔ s = ofText t := by
  unfold encode ofText
  rw [mapM_eq_some]
  induction s generalizing t with
  | nil =>
      rw [List.forall₂_nil_left_iff, eq_comm (a := [])]
      exact List.map_eq_nil_iff.symm
  | cons p s ih =>
      cases t with
      | nil => simp
      | cons c t => rw [List.forall₂_cons, toChar?_eq_some, ih, List.map_cons, List.cons.injEq]

/-- Surrogate pairs become one code point each. -/
def join : PyStr → PyStr
  | [] => []
  | [p] => [p]
  | p :: p' :: s =>
      if p.IsHigh ∧ p'.IsLow then CodePoint.pair p p' :: join s else p :: join (p' :: s)

end PyStr

/-! ## Strings -/

/-- What a string consists of between its quotes: a character, `\` and a letter, or `\u` and four
hexadecimal digits. -/
inductive Item where
  | raw (c : Char)
  | short (c : Char)
  | unicode (a b c d : Char)

/-- The character that `\` and a letter stand for. -/
def shortValue (c : Char) : Option Char :=
  if c = '"' ∨ c = '\\' ∨ c = '/' then some c
  else if c = 'b' then some '\x08'
  else if c = 'f' then some '\x0c'
  else if c = 'n' then some '\n'
  else if c = 'r' then some '\r'
  else if c = 't' then some '\t'
  else none

def hexValue (c : Char) : Option (Fin 16) :=
  if h : '0'.toNat ≤ c.toNat ∧ c.toNat ≤ '9'.toNat then some ⟨c.toNat - 48, by
    have h0 : '0'.toNat = 48 := rfl
    have h9 : '9'.toNat = 57 := rfl
    omega⟩
  else if h : 'a'.toNat ≤ c.toNat ∧ c.toNat ≤ 'f'.toNat then some ⟨c.toNat - 87, by
    have ha : 'a'.toNat = 97 := rfl
    have hf : 'f'.toNat = 102 := rfl
    omega⟩
  else if h : 'A'.toNat ≤ c.toNat ∧ c.toNat ≤ 'F'.toNat then some ⟨c.toNat - 55, by
    have ha : 'A'.toNat = 65 := rfl
    have hf : 'F'.toNat = 70 := rfl
    omega⟩
  else none

/-- The code point of four hexadecimal digits. -/
def hexCode (a b c d : Fin 16) : CodePoint :=
  ⟨((a.val * 16 + b.val) * 16 + c.val) * 16 + d.val, by omega⟩

/-- `hexValue` of four characters. -/
def hexCode? (a b c d : Char) : Option CodePoint := do
  let a ← hexValue a
  let b ← hexValue b
  let c ← hexValue c
  let d ← hexValue d
  pure (hexCode a b c d)

/-- A character that may stand for itself. -/
def IsPlain (c : Char) : Prop := 0x20 ≤ c.toNat ∧ c ≠ '"' ∧ c ≠ '\\'

instance : DecidablePred IsPlain := fun _ => inferInstanceAs (Decidable (_ ∧ _ ∧ _))

namespace Item

def text : Item → Text
  | .raw c => [c]
  | .short c => ['\\', c]
  | .unicode a b c d => ['\\', 'u', a, b, c, d]

/-- The code point of an item, if it is a good one. -/
def codePoint? : Item → Option CodePoint
  | .raw c => if IsPlain c then some (CodePoint.ofChar c) else none
  | .short c => (shortValue c).map CodePoint.ofChar
  | .unicode a b c d => hexCode? a b c d

end Item

/-- The string of some items. -/
def itemsValue (l : List Item) : Option PyStr := (l.mapM Item.codePoint?).map PyStr.join

/-- The digits of a number below 16. -/
def hexDigit (n : Fin 16) : Char := Nat.digitChar n.val

/-- `\u` and four digits. -/
def unicodeEscape (n : Nat) : Item :=
  .unicode (hexDigit (Fin.ofNat 16 (n / 4096))) (hexDigit (Fin.ofNat 16 (n / 256)))
    (hexDigit (Fin.ofNat 16 (n / 16))) (hexDigit (Fin.ofNat 16 n))

/-- How a code point is written. -/
def escape (p : CodePoint) : List Item :=
  if p.val = '"'.toNat then [.short '"']
  else if p.val = '\\'.toNat then [.short '\\']
  else if p.val = '\n'.toNat then [.short 'n']
  else if p.val = '\r'.toNat then [.short 'r']
  else if p.val = '\t'.toNat then [.short 't']
  else if p.val = 0x0c then [.short 'f']
  else if p.val = 0x08 then [.short 'b']
  else if 0x20 ≤ p.val ∧ p.val ≤ 0x7e then [.raw (Char.ofNat p.val)]
  else if p.val < 0x10000 then [unicodeEscape p.val]
  else [unicodeEscape (0xd800 + (p.val - 0x10000) / 0x400),
    unicodeEscape (0xdc00 + (p.val - 0x10000) % 0x400)]

/-- The text of a string with some items. -/
def itemsText (l : List Item) : Text := '"' :: (l.flatMap Item.text ++ ['"'])

/-- The items up to the closing quote, and what is left. -/
def scanItems : Text → Option (List Item × Text)
  | [] => none
  | c :: t =>
      if c = '"' then some ([], t)
      else if c = '\\' then
        match t with
        | 'u' :: a :: b :: c :: d :: t => (scanItems t).map fun r => (.unicode a b c d :: r.1, r.2)
        | c :: t => (scanItems t).map fun r => (.short c :: r.1, r.2)
        | [] => none
      else (scanItems t).map fun r => (.raw c :: r.1, r.2)

theorem scanItems_quote (t : Text) : scanItems ('"' :: t) = some ([], t) := by
  rw [scanItems.eq_def]
  exact if_pos rfl

theorem scanItems_raw {c : Char} (h : c ≠ '"') (h' : c ≠ '\\') (t : Text) :
    scanItems (c :: t) = (scanItems t).map fun r => (.raw c :: r.1, r.2) := by
  rw [scanItems.eq_def]
  dsimp only
  rw [if_neg h, if_neg h']

theorem scanItems_unicode (a b c d : Char) (t : Text) :
    scanItems ('\\' :: 'u' :: a :: b :: c :: d :: t)
      = (scanItems t).map fun r => (.unicode a b c d :: r.1, r.2) := by
  rw [scanItems.eq_def]
  dsimp only
  rw [if_neg (by decide), if_pos rfl]
  rfl

theorem scanItems_short {c : Char} (h : c ≠ 'u') (t : Text) :
    scanItems ('\\' :: c :: t) = (scanItems t).map fun r => (.short c :: r.1, r.2) := by
  rw [scanItems.eq_def]
  dsimp only
  rw [if_neg (by decide), if_pos rfl]
  split
  · rename_i heq
    exact absurd (List.cons.inj heq).1 h
  · rename_i heq
    cases heq
    rfl
  · rename_i heq
    cases heq

/-- The string after an opening quote, and what is left. -/
def scanString (t : Text) : Option (PyStr × Text) := do
  let (l, rest) ← scanItems t
  let s ← itemsValue l
  pure (s, rest)

/-! ## Numbers -/

/-- The digits an integer may have where it is read or written (`sys.int_info`). -/
def maxStrDigits : Nat := 4300

/-- The parts of a number: the sign, the digits before the point, the point and the digits after it,
the exponent. -/
structure Number where
  sign : Text
  whole : Text
  frac : Text
  exp : Text

def Number.text (n : Number) : Text := n.sign ++ (n.whole ++ (n.frac ++ n.exp))

/-- `int` of a sign and some digits. -/
def intValue (sign digits : Text) : Option Int :=
  if digits.length ≤ maxStrDigits then
    let n : Int := Nat.ofDigitChars 10 digits 0
    some (if sign = [] then n else -n)
  else none

/-- `int.__repr__`. -/
def intText (i : Int) : Option Text :=
  let digits := Nat.toDigits 10 i.natAbs
  if digits.length ≤ maxStrDigits then some (if i < 0 then '-' :: digits else digits) else none

/-- A minus sign, if there is one. -/
def scanSign (t : Text) : Text × Text :=
  match t with
  | '-' :: t => (['-'], t)
  | t => ([], t)

/-- One zero, or some digits. -/
def scanWhole (t : Text) : Option (Text × Text) :=
  match t with
  | [] => none
  | c :: t' =>
      if c = '0' then some (['0'], t')
      else if c.isDigit then some (t.takeWhile Char.isDigit, t.dropWhile Char.isDigit)
      else none

/-- A point and some digits, if they are there. -/
def scanFrac (t : Text) : Text × Text :=
  match t with
  | [] => ([], [])
  | c :: t' =>
      if c = '.' ∧ t'.takeWhile Char.isDigit ≠ [] then
        ('.' :: t'.takeWhile Char.isDigit, t'.dropWhile Char.isDigit)
      else ([], t)

/-- The sign of an exponent, if there is one. -/
def scanExpSign (t : Text) : Text × Text :=
  match t with
  | '+' :: t => (['+'], t)
  | '-' :: t => (['-'], t)
  | t => ([], t)

/-- An exponent, if it is there. -/
def scanExp (t : Text) : Text × Text :=
  match t with
  | [] => ([], [])
  | c :: t' =>
      let r := scanExpSign t'
      if (c = 'e' ∨ c = 'E') ∧ r.2.takeWhile Char.isDigit ≠ [] then
        (c :: (r.1 ++ r.2.takeWhile Char.isDigit), r.2.dropWhile Char.isDigit)
      else ([], t)

/-- The parts of a number, and what is left. -/
def scanNumber (t : Text) : Option (Number × Text) := do
  let sign := scanSign t
  let whole ← scanWhole sign.2
  let frac := scanFrac whole.2
  let exp := scanExp frac.2
  pure (⟨sign.1, whole.1, frac.1, exp.1⟩, exp.2)

/-- What is used of floating point numbers: `float` of a text, and `float.__repr__`. -/
structure FloatFormat (F : Type) where
  ofText : Text → F
  repr : F → Text
  nan : F
  posInf : F
  negInf : F

/-! ## Values -/

/-- What `json.loads` returns. A `dict` is the list of its items. -/
inductive Value (F : Type) where
  | null
  | bool (b : Bool)
  | int (i : Int)
  | float (x : F)
  | str (s : PyStr)
  | arr (l : List (Value F))
  | obj (d : List (PyStr × Value F))

section Writing

variable {F : Type} [DecidableEq F] (fl : FloatFormat F)

/-- How a `float` is written. -/
def floatText (x : F) : Text :=
  if x = fl.nan then "NaN".toList
  else if x = fl.posInf then "Infinity".toList
  else if x = fl.negInf then "-Infinity".toList
  else fl.repr x

/-- How a string is written. -/
def strText (s : PyStr) : Text := itemsText (s.flatMap escape)

mutual

/-- `json.dumps`. -/
def dumps : Value F → Option Text
  | .null => some "null".toList
  | .bool b => some (if b then "true".toList else "false".toList)
  | .int i => intText i
  | .float x => some (floatText fl x)
  | .str s => some (strText s)
  | .arr l => (dumpsElements l).map fun t => '[' :: t
  | .obj d => (dumpsMembers d).map fun t => '\x7b' :: t

/-- The elements of a list and the closing bracket. -/
def dumpsElements : List (Value F) → Option Text
  | [] => some [']']
  | [v] => (dumps v).map fun t => t ++ [']']
  | v :: v' :: l => do
      let t ← dumps v
      let t' ← dumpsElements (v' :: l)
      pure (t ++ ',' :: ' ' :: t')

/-- The items of a dictionary and the closing brace. -/
def dumpsMembers : List (PyStr × Value F) → Option Text
  | [] => some ['\x7d']
  | [p] => (dumpsItem p).map fun t => t ++ ['\x7d']
  | p :: p' :: d => do
      let t ← dumpsItem p
      let t' ← dumpsMembers (p' :: d)
      pure (t ++ ',' :: ' ' :: t')

/-- A key and its value. -/
def dumpsItem : PyStr × Value F → Option Text
  | (k, v) => (dumps v).map fun t => strText k ++ ':' :: ' ' :: t

end

end Writing

/-! ## Reading -/

def IsWs (c : Char) : Bool := c = ' ' || c = '\t' || c = '\n' || c = '\r'

def skipWs (t : Text) : Text := t.dropWhile IsWs

/-- The text after a character that must come first. -/
def stripChar (c : Char) : Text → Option Text
  | [] => none
  | c' :: t => if c' = c then some t else none

@[simp]
theorem stripChar_self (c : Char) (t : Text) : stripChar c (c :: t) = some t := if_pos rfl

theorem stripChar_of_ne {c c' : Char} (h : c' ≠ c) (t : Text) : stripChar c (c' :: t) = none :=
  if_neg h

theorem stripChar_eq_some {c : Char} {t rest : Text} :
    stripChar c t = some rest ↔ t = c :: rest := by
  constructor
  · intro h
    unfold stripChar at h
    split at h
    · cases h
    · split at h
      · rename_i heq
        cases h
        rw [heq]
      · cases h
  · rintro rfl
    exact stripChar_self c rest

/-- `d[k] = v`. -/
def setItem {V : Type} (d : List (PyStr × V)) (p : PyStr × V) : List (PyStr × V) :=
  if p.1 ∈ d.map Prod.fst then d.map fun q => if q.1 = p.1 then p else q else d ++ [p]

/-- The dictionary of some items. -/
def dictOf {V : Type} (items : List (PyStr × V)) : List (PyStr × V) := items.foldl setItem []

section Reading

variable {F : Type} (fl : FloatFormat F)

/-- The values that are words. -/
def constants : List (Text × Value F) :=
  [(['n', 'u', 'l', 'l'], .null), (['t', 'r', 'u', 'e'], .bool true),
    (['f', 'a', 'l', 's', 'e'], .bool false), (['N', 'a', 'N'], .float fl.nan),
    (['I', 'n', 'f', 'i', 'n', 'i', 't', 'y'], .float fl.posInf),
    (['-', 'I', 'n', 'f', 'i', 'n', 'i', 't', 'y'], .float fl.negInf)]

/-- The word at the beginning of a text, and what is left. -/
def scanConstant (t : Text) : List (Text × Value F) → Option (Value F × Text)
  | [] => none
  | (word, v) :: l => if word <+: t then some (v, t.drop word.length) else scanConstant t l

/-- The value of a number. -/
def Number.value (n : Number) : Option (Value F) :=
  if n.frac = [] ∧ n.exp = [] then (intValue n.sign n.whole).map .int
  else some (.float (fl.ofText n.text))

/-- A number or a word at the beginning of a text. -/
def scanWord (t : Text) : Option (Value F × Text) :=
  match scanConstant t (constants fl) with
  | some r => some r
  | none => do
      let (n, rest) ← scanNumber t
      let v ← n.value fl
      pure (v, rest)

/-- The key of an item, up to the value. -/
def scanKey (t : Text) : Option (PyStr × Text) := do
  let t ← stripChar '"' t
  let (k, rest) ← scanString t
  let rest ← stripChar ':' (skipWs rest)
  pure (k, skipWs rest)

mutual

/-- The value at the beginning of a text, and what is left. -/
def scanValue : Nat → Text → Option (Value F × Text)
  | 0, _ => none
  | _, [] => none
  | fuel + 1, c :: t =>
      if c = '"' then (scanString t).map fun r => (.str r.1, r.2)
      else if c = '[' then
        match stripChar ']' (skipWs t) with
        | some rest => some (.arr [], rest)
        | none => (scanElements fuel (skipWs t)).map fun r => (.arr r.1, r.2)
      else if c = '\x7b' then
        match stripChar '\x7d' (skipWs t) with
        | some rest => some (.obj [], rest)
        | none => (scanMembers fuel (skipWs t)).map fun r => (.obj (dictOf r.1), r.2)
      else scanWord fl (c :: t)

/-- The elements of a list up to the closing bracket. -/
def scanElements : Nat → Text → Option (List (Value F) × Text)
  | 0, _ => none
  | fuel + 1, t => do
      let (v, rest) ← scanValue fuel t
      match stripChar ']' (skipWs rest) with
      | some rest => pure ([v], rest)
      | none => do
          let rest ← stripChar ',' (skipWs rest)
          let (l, rest) ← scanElements fuel (skipWs rest)
          pure (v :: l, rest)

/-- The items of a dictionary up to the closing brace. -/
def scanMembers : Nat → Text → Option (List (PyStr × Value F) × Text)
  | 0, _ => none
  | fuel + 1, t => do
      let (k, rest) ← scanKey t
      let (v, rest) ← scanValue fuel rest
      match stripChar '\x7d' (skipWs rest) with
      | some rest => pure ([(k, v)], rest)
      | none => do
          let rest ← stripChar ',' (skipWs rest)
          let (d, rest) ← scanMembers fuel (skipWs rest)
          pure ((k, v) :: d, rest)

end

/-- `json.loads`. -/
def loads (t : Text) : Option (Value F) :=
  match scanValue fl (t.length + 1) (skipWs t) with
  | some (v, rest) => if skipWs rest = [] then some v else none
  | none => none

end Reading

end JsonText
