import DailyScheduler.Lib.JsonGrammar

set_option autoImplicit false

/-! # What `json.loads` makes of what `json.dumps` writes

The text that is written for a value stands for the value in which each surrogate pair is one code
point (`loads_dumps`). That is the value itself unless one of its strings has such a pair
(`norm_eq_iff`). Nothing is written for a value with an integer of too many digits.
-/

namespace JsonText

/-! ## Surrogate pairs -/

namespace PyStr

/-- No first half of a surrogate pair is followed by a second half. -/
def NoPair (s : PyStr) : Prop := s.IsChain fun p p' => ¬ (p.IsHigh ∧ p'.IsLow)

/-- A code point before a string without pairs. -/
def glue (p : CodePoint) : PyStr → PyStr
  | [] => [p]
  | p' :: s => if p.IsHigh ∧ p'.IsLow then CodePoint.pair p p' :: s else p :: p' :: s

theorem pair_ge (hi lo : CodePoint) : 0x10000 ≤ (CodePoint.pair hi lo).val := by
  unfold CodePoint.pair
  dsimp only
  omega

theorem join_of_not_isHigh {p : CodePoint} (h : ¬ p.IsHigh) (s : PyStr) :
    join (p :: s) = p :: join s := by
  cases s with
  | nil => rfl
  | cons p' s => exact if_neg fun h' => h h'.1

/-- A joined string begins with its first code point or with one that is no surrogate. -/
theorem head_join (p : CodePoint) (s : PyStr) :
    ∃ q r, join (p :: s) = q :: r ∧ (q = p ∨ 0x10000 ≤ q.val) := by
  cases s with
  | nil => exact ⟨p, [], rfl, .inl rfl⟩
  | cons p' s =>
      by_cases h : p.IsHigh ∧ p'.IsLow
      · exact ⟨_, _, if_pos h, .inr (pair_ge p p')⟩
      · exact ⟨_, _, if_neg h, .inl rfl⟩

theorem join_cons (p : CodePoint) (s : PyStr) : join (p :: s) = glue p (join s) := by
  cases s with
  | nil => rfl
  | cons p' s =>
      by_cases h : p.IsHigh ∧ p'.IsLow
      · have hlow : ¬ p'.IsHigh := by
          intro hhigh
          have h1 := h.2.1
          have h2 := hhigh.2
          omega
        rw [join_of_not_isHigh hlow]
        exact (if_pos h).trans (if_pos h).symm
      · obtain ⟨q, r, hjoin, hq⟩ := head_join p' s
        have hnot : ¬ (p.IsHigh ∧ q.IsLow) := by
          rintro ⟨hhigh, hlow⟩
          rcases hq with rfl | hq
          · exact h ⟨hhigh, hlow⟩
          · have h2 := hlow.2
            omega
        calc join (p :: p' :: s) = p :: join (p' :: s) := if_neg h
          _ = p :: q :: r := by rw [hjoin]
          _ = glue p (q :: r) := (if_neg hnot).symm
          _ = glue p (join (p' :: s)) := by rw [hjoin]

theorem length_glue_le (p : CodePoint) (s : PyStr) : (glue p s).length ≤ s.length + 1 := by
  cases s with
  | nil => exact le_rfl
  | cons p' s =>
      show (if p.IsHigh ∧ p'.IsLow then CodePoint.pair p p' :: s else p :: p' :: s).length ≤ _
      split <;> simp only [List.length_cons] <;> omega

theorem length_join_le (s : PyStr) : (join s).length ≤ s.length := by
  induction s with
  | nil => exact le_rfl
  | cons p s ih =>
      rw [join_cons]
      exact (length_glue_le p _).trans (Nat.succ_le_succ ih)

/-- A string is its own joined string if and only if it has no pair. -/
theorem join_eq_iff (s : PyStr) : join s = s ↔ NoPair s := by
  induction s with
  | nil => exact iff_of_true rfl .nil
  | cons p s ih =>
      cases s with
      | nil => exact iff_of_true rfl (.singleton _)
      | cons p' s =>
          unfold NoPair at ih ⊢
          rw [List.isChain_cons_cons]
          by_cases h : p.IsHigh ∧ p'.IsLow
          · refine iff_of_false (fun heq => ?_) fun hnot => hnot.1 h
            have hlength : (CodePoint.pair p p' :: join s).length = (p :: p' :: s).length := by
              rw [← heq]
              exact congrArg List.length (if_pos h).symm
            have hle := length_join_le s
            simp only [List.length_cons] at hlength
            omega
          · have hjoin : join (p :: p' :: s) = p :: join (p' :: s) := if_neg h
            rw [hjoin, List.cons.injEq, ih]
            exact ⟨fun heq => ⟨h, heq.2⟩, fun hchain => ⟨rfl, hchain.2⟩⟩

end PyStr

/-! ## Written strings -/

/-- A code point as one or two halves of a pair. -/
def units (p : CodePoint) : PyStr :=
  if p.val < 0x10000 then [p]
  else [⟨0xd800 + (p.val - 0x10000) / 0x400, by omega⟩,
    ⟨0xdc00 + (p.val - 0x10000) % 0x400, by omega⟩]

theorem join_units (s : PyStr) : PyStr.join (s.flatMap units) = PyStr.join s := by
  induction s with
  | nil => rfl
  | cons p s ih =>
      rw [List.flatMap_cons]
      by_cases h : p.val < 0x10000
      · have hunits : units p = [p] := if_pos h
        rw [hunits, List.singleton_append, PyStr.join_cons, ih, ← PyStr.join_cons]
      · have hunits : units p = [⟨0xd800 + (p.val - 0x10000) / 0x400, by omega⟩,
            ⟨0xdc00 + (p.val - 0x10000) % 0x400, by omega⟩] := if_neg h
        have hnot : ¬ p.IsHigh := by
          intro hhigh
          have h2 := hhigh.2
          omega
        have hpair : CodePoint.pair ⟨0xd800 + (p.val - 0x10000) / 0x400, by omega⟩
            ⟨0xdc00 + (p.val - 0x10000) % 0x400, by omega⟩ = p := by
          apply Fin.ext
          unfold CodePoint.pair
          dsimp only
          omega
        rw [hunits, PyStr.join_of_not_isHigh hnot, ← ih]
        refine (if_pos ?_).trans (congrArg (· :: _) hpair)
        constructor <;> constructor <;> dsimp only <;> omega

theorem hexValue_hexDigit : ∀ n : Fin 16, hexValue (hexDigit n) = some n := by decide

theorem codePoint?_unicodeEscape {n : Nat} (h : n < 0x10000) :
    (unicodeEscape n).codePoint? = some ⟨n, by omega⟩ := by
  unfold unicodeEscape Item.codePoint? hexCode?
  simp only [hexValue_hexDigit, Option.bind_eq_bind, Option.bind_some]
  show some _ = some _
  congr 1
  apply Fin.ext
  unfold hexCode Fin.ofNat
  dsimp only
  omega

theorem toNat_ofNat {n : Nat} (h : n < 0xd800) : (Char.ofNat n).toNat = n := by
  have hvalid : n.isValidChar := .inl h
  unfold Char.ofNat
  rw [dif_pos hvalid]
  rfl

theorem ofChar_eq {c : Char} {p : CodePoint} (h : p.val = c.toNat) : CodePoint.ofChar c = p :=
  Fin.ext h.symm

theorem mapM_item {i : Item} {p : CodePoint} (h : i.codePoint? = some p) (hp : p.val < 0x10000) :
    [i].mapM Item.codePoint? = some (units p) := by
  have hunits : units p = [p] := if_pos hp
  rw [hunits, mapM_eq_some]
  exact .cons h .nil

theorem mapM_short (c c' : Char) {p : CodePoint} (hc : shortValue c = some c')
    (h : p.val = c'.toNat) (hp : p.val < 0x10000) :
    [Item.short c].mapM Item.codePoint? = some (units p) := by
  refine mapM_item ?_ hp
  show (shortValue c).map CodePoint.ofChar = some p
  rw [hc, Option.map_some, ofChar_eq h]

/-- What is written of a code point stands for it. -/
theorem mapM_escape (p : CodePoint) : (escape p).mapM Item.codePoint? = some (units p) := by
  unfold escape
  split_ifs with h1 h2 h3 h4 h5 h6 h7 hplain hbmp
  · exact mapM_short _ '"' rfl h1 (by rw [h1]; decide)
  · exact mapM_short _ '\\' rfl h2 (by rw [h2]; decide)
  · exact mapM_short _ '\n' rfl h3 (by rw [h3]; decide)
  · exact mapM_short _ '\r' rfl h4 (by rw [h4]; decide)
  · exact mapM_short _ '\t' rfl h5 (by rw [h5]; decide)
  · exact mapM_short _ '\x0c' rfl h6 (by omega)
  · exact mapM_short _ '\x08' rfl h7 (by omega)
  · refine mapM_item ?_ (by omega)
    have htoNat := toNat_ofNat (n := p.val) (by omega)
    have hgood : IsPlain (Char.ofNat p.val) := by
      refine ⟨by rw [htoNat]; exact hplain.1, fun heq => h1 ?_, fun heq => h2 ?_⟩
      · rw [← heq, htoNat]
      · rw [← heq, htoNat]
    show (if IsPlain (Char.ofNat p.val) then some (CodePoint.ofChar (Char.ofNat p.val)) else none) = _
    rw [if_pos hgood, ofChar_eq htoNat.symm]
  · exact mapM_item (codePoint?_unicodeEscape hbmp) hbmp
  · have hunits : units p = [⟨0xd800 + (p.val - 0x10000) / 0x400, by omega⟩,
        ⟨0xdc00 + (p.val - 0x10000) % 0x400, by omega⟩] := if_neg hbmp
    rw [hunits, mapM_eq_some]
    exact .cons (codePoint?_unicodeEscape (by omega))
      (.cons (codePoint?_unicodeEscape (by omega)) .nil)

theorem itemsValue_escape (s : PyStr) : itemsValue (s.flatMap escape) = some (PyStr.join s) := by
  have hmap : (s.flatMap escape).mapM Item.codePoint? = some (s.flatMap units) := by
    induction s with
    | nil => rfl
    | cons p s ih =>
        rw [List.flatMap_cons, List.mapM_append, mapM_escape, ih]
        rfl
  unfold itemsValue
  rw [hmap, Option.map_some, join_units]

/-! ## Written numbers -/

/-- Decimal digits without a leading zero. -/
theorem toDigits_whole (n : Nat) : Nat.toDigits 10 n = ['0'] ∨
    Digits (Nat.toDigits 10 n) ∧ (Nat.toDigits 10 n).head? ≠ some '0' := by
  by_cases hn : n = 0
  · rw [hn]
    exact .inl rfl
  · refine .inr ⟨⟨Nat.toDigits_ne_nil, fun c hc => ?_⟩, ?_⟩
    · exact Nat.isDigit_of_mem_toDigits (by decide) (by decide) hc
    · -- the first digit is that of the number without its last digit
      induction n using Nat.strongRecOn with
      | ind n ih =>
          by_cases hsmall : n < 10
          · rw [Nat.toDigits_of_lt_base hsmall]
            intro heq
            exact hn (Nat.digitChar_eq_zero.1 (Option.some.inj heq))
          · have hdiv : n / 10 ≠ 0 := by omega
            obtain ⟨c, t, ht⟩ := List.exists_cons_of_ne_nil (Nat.toDigits_ne_nil (n := n / 10) (b := 10))
            have hhead := ih (n / 10) (by omega) hdiv
            rw [Nat.toDigits_of_base_le (by decide) (by omega), ht]
            rw [ht] at hhead
            exact hhead

section Numbers

variable {F : Type} {fl : FloatFormat F}

/-- The text of an integer is a number that stands for it. -/
theorem isValue_intText {i : Int} {t : Text} (h : intText i = some t) : IsValue fl t (.int i) := by
  unfold intText at h
  dsimp only at h
  by_cases hlength : (Nat.toDigits 10 i.natAbs).length ≤ maxStrDigits
  · rw [if_pos hlength] at h
    have hval : ∀ sign : Text, intValue sign (Nat.toDigits 10 i.natAbs)
        = some (if sign = [] then (i.natAbs : Int) else -i.natAbs) := by
      intro sign
      unfold intValue
      rw [if_pos hlength, Nat.ofDigitChars_ten_toDigits]
    by_cases hneg : i < 0
    · rw [if_pos hneg] at h
      have htext : Number.text ⟨['-'], Nat.toDigits 10 i.natAbs, [], []⟩ = t := by
        rw [← Option.some.inj h]
        simp [Number.text]
      rw [← htext]
      refine .number ⟨.inr rfl, toDigits_whole _, .inl rfl, .inl rfl⟩ ?_
      have hi : -(i.natAbs : Int) = i := by omega
      show (intValue ['-'] _).map Value.int = _
      rw [hval, if_neg (by simp), hi]
      rfl
    · rw [if_neg hneg] at h
      have htext : Number.text ⟨[], Nat.toDigits 10 i.natAbs, [], []⟩ = t := by
        rw [← Option.some.inj h]
        simp [Number.text]
      rw [← htext]
      refine .number ⟨.inl rfl, toDigits_whole _, .inl rfl, .inl rfl⟩ ?_
      have hi : (i.natAbs : Int) = i := by omega
      show (intValue [] _).map Value.int = _
      rw [hval, if_pos rfl, hi]
      rfl
  · rw [if_neg hlength] at h
    cases h

/-- Neither `nan` nor infinite. -/
def FloatFormat.IsFinite (fl : FloatFormat F) (x : F) : Prop :=
  x ≠ fl.nan ∧ x ≠ fl.posInf ∧ x ≠ fl.negInf

/-- What `float.__repr__` writes of a finite number is a number with a point or an exponent, and
`float` reads it back. -/
structure FloatFormat.Lawful (fl : FloatFormat F) : Prop where
  repr : ∀ x, fl.IsFinite x →
    ∃ n : Number, n.Good ∧ ¬ (n.frac = [] ∧ n.exp = []) ∧ n.text = fl.repr x
  ofText_repr : ∀ x, fl.IsFinite x → fl.ofText (fl.repr x) = x

theorem isValue_repr (hfl : fl.Lawful) {x : F} (hx : fl.IsFinite x) :
    IsValue fl (fl.repr x) (.float x) := by
  obtain ⟨n, hgood, hfloat, htext⟩ := hfl.repr x hx
  rw [← htext]
  refine .number hgood ?_
  unfold Number.value
  rw [if_neg hfloat, htext, hfl.ofText_repr x hx]

end Numbers

/-! ## What a value consists of -/

/-- An integer, a float, a string, or the keys of a dictionary. -/
inductive Piece (F : Type) where
  | int (i : Int)
  | float (x : F)
  | str (s : PyStr)
  | keys (l : List PyStr)

section Pieces

variable {F : Type}

mutual

/-- Everything in a value, at every depth. -/
def Value.pieces : Value F → List (Piece F)
  | .null => []
  | .bool _ => []
  | .int i => [.int i]
  | .float x => [.float x]
  | .str s => [.str s]
  | .arr l => piecesOfList l
  | .obj d => .keys (d.map Prod.fst) :: piecesOfItems d

def piecesOfList : List (Value F) → List (Piece F)
  | [] => []
  | v :: l => v.pieces ++ piecesOfList l

def piecesOfItems : List (PyStr × Value F) → List (Piece F)
  | [] => []
  | p :: d => piecesOfItem p ++ piecesOfItems d

def piecesOfItem : PyStr × Value F → List (Piece F)
  | (k, v) => .str k :: v.pieces

end

mutual

/-- The value with each surrogate pair as one code point. -/
def norm : Value F → Value F
  | .null => .null
  | .bool b => .bool b
  | .int i => .int i
  | .float x => .float x
  | .str s => .str s.join
  | .arr l => .arr (normList l)
  | .obj d => .obj (dictOf (normItems d))

def normList : List (Value F) → List (Value F)
  | [] => []
  | v :: l => norm v :: normList l

def normItems : List (PyStr × Value F) → List (PyStr × Value F)
  | [] => []
  | p :: d => normItem p :: normItems d

def normItem : PyStr × Value F → PyStr × Value F
  | (k, v) => (k.join, norm v)

end

end Pieces

/-! ## The round trip -/

/-- A float is finite, and no key occurs twice in a dictionary. -/
def Piece.Proper {F : Type} (fl : FloatFormat F) : Piece F → Prop
  | .int _ => True
  | .float x => fl.IsFinite x
  | .str _ => True
  | .keys l => l.Nodup

section RoundTrip

variable {F : Type} {fl : FloatFormat F}

theorem isKey_strText (k : PyStr) : IsKey (strText k ++ [':', ' ']) k.join :=
  @IsKey.intro _ _ [] _ (itemsValue_escape k) ws_nil fun c hc => by
    rw [List.mem_singleton.1 hc]
    rfl

theorem ws_blank : Ws [' '] := by
  intro c hc
  rw [List.mem_singleton.1 hc]
  rfl

variable [DecidableEq F]

theorem isValue_floatText (hfl : fl.Lawful) {x : F} (hx : fl.IsFinite x) :
    IsValue fl (floatText fl x) (.float x) := by
  unfold floatText
  rw [if_neg hx.1, if_neg hx.2.1, if_neg hx.2.2]
  exact isValue_repr hfl hx

mutual

/-- What is written for a value stands for the value without surrogate pairs. -/
theorem isValue_dumps (hfl : fl.Lawful) : ∀ (v : Value F) (t : Text),
    (∀ x ∈ v.pieces, x.Proper fl) → dumps fl v = some t → IsValue fl t (norm v)
  | .null, _, _, h => by
      cases h
      exact .constant (by simp [constants, norm])
  | .bool true, _, _, h => by
      cases h
      exact .constant (by simp [constants, norm])
  | .bool false, _, _, h => by
      cases h
      exact .constant (by simp [constants, norm])
  | .int i, t, _, h => isValue_intText h
  | .float x, _, hv, h => by
      cases h
      exact isValue_floatText hfl (hv (.float x) List.mem_cons_self)
  | .str s, _, _, h => by
      cases h
      exact .str (itemsValue_escape s)
  | .arr [], _, _, h => by
      cases h
      exact @IsValue.emptyArr _ _ [] ws_nil
  | .arr (v :: l), t, hv, h => by
      obtain ⟨t', ht', rfl⟩ := Option.map_eq_some_iff.1 h
      exact @IsValue.arr _ _ [] _ _ ws_nil (isElements_dumps hfl (v :: l) t' (List.cons_ne_nil _ _) hv ht')
  | .obj [], _, _, h => by
      cases h
      exact @IsValue.emptyObj _ _ [] ws_nil
  | .obj (p :: d), t, hv, h => by
      obtain ⟨t', ht', rfl⟩ := Option.map_eq_some_iff.1 h
      exact @IsValue.obj _ _ [] _ _ ws_nil (isMembers_dumps hfl (p :: d) t' (List.cons_ne_nil _ _)
        (fun x hx => hv x (List.mem_cons_of_mem _ hx)) ht')

theorem isElements_dumps (hfl : fl.Lawful) : ∀ (l : List (Value F)) (t : Text), l ≠ [] →
    (∀ x ∈ piecesOfList l, x.Proper fl) → dumpsElements fl l = some t →
    IsElements fl t (normList l)
  | [], _, hne, _, _ => absurd rfl hne
  | [v], t, _, hv, h => by
      obtain ⟨t', ht', rfl⟩ := Option.map_eq_some_iff.1 h
      have hvalue := isValue_dumps hfl v t' (fun x hx => hv x (List.mem_append_left _ hx)) ht'
      exact @IsElements.last _ _ _ [] _ hvalue ws_nil
  | v :: v' :: l, t, _, hv, h => by
      obtain ⟨t', ht', h⟩ := Option.bind_eq_some_iff.1 h
      obtain ⟨t'', ht'', h⟩ := Option.bind_eq_some_iff.1 h
      cases h
      have hvalue := isValue_dumps hfl v t' (fun x hx => hv x (List.mem_append_left _ hx)) ht'
      have hrest := isElements_dumps hfl (v' :: l) t'' (List.cons_ne_nil _ _)
        (fun x hx => hv x (List.mem_append_right _ hx)) ht''
      exact @IsElements.cons _ _ t' [] [' '] t'' _ _ hvalue ws_nil ws_blank hrest

theorem isMembers_dumps (hfl : fl.Lawful) : ∀ (d : List (PyStr × Value F)) (t : Text), d ≠ [] →
    (∀ x ∈ piecesOfItems d, x.Proper fl) → dumpsMembers fl d = some t →
    IsMembers fl t (normItems d)
  | [], _, hne, _, _ => absurd rfl hne
  | [p], t, _, hp, h => by
      obtain ⟨t', ht', rfl⟩ := Option.map_eq_some_iff.1 h
      obtain ⟨u, u', rfl, hkey, hvalue⟩ :=
        isItem_dumps hfl p t' (fun x hx => hp x (List.mem_append_left _ hx)) ht'
      rw [List.append_assoc]
      exact @IsMembers.last _ _ u u' [] _ hkey hvalue ws_nil
  | p :: p' :: d, t, _, hp, h => by
      obtain ⟨t', ht', h⟩ := Option.bind_eq_some_iff.1 h
      obtain ⟨t'', ht'', h⟩ := Option.bind_eq_some_iff.1 h
      cases h
      obtain ⟨u, u', rfl, hkey, hvalue⟩ :=
        isItem_dumps hfl p t' (fun x hx => hp x (List.mem_append_left _ hx)) ht'
      have hrest := isMembers_dumps hfl (p' :: d) t'' (List.cons_ne_nil _ _)
        (fun x hx => hp x (List.mem_append_right _ hx)) ht''
      rw [List.append_assoc]
      exact @IsMembers.cons _ _ u u' [] [' '] t'' _ _ hkey hvalue ws_nil ws_blank hrest

theorem isItem_dumps (hfl : fl.Lawful) : ∀ (p : PyStr × Value F) (t : Text),
    (∀ x ∈ piecesOfItem p, x.Proper fl) → dumpsItem fl p = some t →
    ∃ u u', t = u ++ u' ∧ IsKey u (normItem p).1 ∧ IsValue fl u' (normItem p).2
  | (k, v), t, hp, h => by
      obtain ⟨t', ht', rfl⟩ := Option.map_eq_some_iff.1 h
      have hvalue := isValue_dumps hfl v t' (fun x hx => hp x (List.mem_cons_of_mem _ hx)) ht'
      refine ⟨_, t', ?_, isKey_strText k, hvalue⟩
      simp

end

/-- **The round trip.** -/
theorem loads_dumps (hfl : fl.Lawful) {v : Value F} (hv : ∀ x ∈ v.pieces, x.Proper fl) {t : Text}
    (h : dumps fl v = some t) : loads fl t = some (norm v) :=
  loads_eq_some.2 ⟨[], t, [], ws_nil, isValue_dumps hfl v t hv h, ws_nil, by simp⟩

end RoundTrip

/-! ## Integers of too many digits -/

/-- An integer has no more digits than may be written. -/
def Piece.Written {F : Type} : Piece F → Prop
  | .int i => (Nat.toDigits 10 i.natAbs).length ≤ maxStrDigits
  | .float _ => True
  | .str _ => True
  | .keys _ => True

section Written

variable {F : Type} [DecidableEq F] {fl : FloatFormat F}

theorem intText_isSome (i : Int) :
    (intText i).isSome = true ↔ (Nat.toDigits 10 i.natAbs).length ≤ maxStrDigits := by
  unfold intText
  dsimp only
  split
  · rename_i h
    exact iff_of_true rfl h
  · rename_i h
    exact iff_of_false (by simp) h

theorem bind_isSome {α β γ : Type} {a : Option α} {b : Option β} {f : α → β → γ} :
    (a.bind fun x => b.bind fun y => some (f x y)).isSome = true
      ↔ a.isSome = true ∧ b.isSome = true := by
  cases a with
  | none => simp
  | some x => cases b <;> simp

mutual

theorem dumps_isSome : ∀ v : Value F,
    (dumps fl v).isSome = true ↔ ∀ x ∈ v.pieces, x.Written
  | .null => iff_of_true rfl fun _ hx => absurd hx List.not_mem_nil
  | .bool _ => iff_of_true rfl fun _ hx => absurd hx List.not_mem_nil
  | .int i => by
      refine (intText_isSome i).trans ?_
      exact (List.forall_mem_singleton (p := Piece.Written) (a := Piece.int i)).symm
  | .float x => iff_of_true rfl (List.forall_mem_singleton.2 trivial)
  | .str s => iff_of_true rfl (List.forall_mem_singleton.2 trivial)
  | .arr l => by
      show ((dumpsElements fl l).map _).isSome = true ↔ _
      rw [Option.isSome_map]
      exact dumpsElements_isSome l
  | .obj d => by
      show ((dumpsMembers fl d).map _).isSome = true ↔ _
      rw [Option.isSome_map, dumpsMembers_isSome d]
      exact (List.forall_mem_cons.trans (and_iff_right trivial)).symm

theorem dumpsElements_isSome : ∀ l : List (Value F),
    (dumpsElements fl l).isSome = true ↔ ∀ x ∈ piecesOfList l, x.Written
  | [] => iff_of_true rfl fun _ hx => absurd hx List.not_mem_nil
  | [v] => by
      show ((dumps fl v).map _).isSome = true ↔ ∀ x ∈ v.pieces ++ [], _
      rw [Option.isSome_map, List.append_nil]
      exact dumps_isSome v
  | v :: v' :: l => by
      have hv := dumps_isSome v
      have hl := dumpsElements_isSome (v' :: l)
      refine bind_isSome.trans ?_
      rw [hv, hl]
      exact List.forall_mem_append.symm

theorem dumpsMembers_isSome : ∀ d : List (PyStr × Value F),
    (dumpsMembers fl d).isSome = true ↔ ∀ x ∈ piecesOfItems d, x.Written
  | [] => iff_of_true rfl fun _ hx => absurd hx List.not_mem_nil
  | [p] => by
      show ((dumpsItem fl p).map _).isSome = true ↔ ∀ x ∈ piecesOfItem p ++ [], _
      rw [Option.isSome_map, List.append_nil]
      exact dumpsItem_isSome p
  | p :: p' :: d => by
      have hp := dumpsItem_isSome p
      have hd := dumpsMembers_isSome (p' :: d)
      refine bind_isSome.trans ?_
      rw [hp, hd]
      exact List.forall_mem_append.symm

theorem dumpsItem_isSome : ∀ p : PyStr × Value F,
    (dumpsItem fl p).isSome = true ↔ ∀ x ∈ piecesOfItem p, x.Written
  | (k, v) => by
      show ((dumps fl v).map _).isSome = true ↔ _
      rw [Option.isSome_map, dumps_isSome v]
      exact (List.forall_mem_cons.trans (and_iff_right trivial)).symm

end

end Written

/-! ## Values that come back as they are -/

section Dict

variable {V : Type}

theorem length_setItem_le (d : List (PyStr × V)) (p : PyStr × V) :
    (setItem d p).length ≤ d.length + 1 := by
  unfold setItem
  split
  · rw [List.length_map]
    exact Nat.le_succ _
  · rw [List.length_append, List.length_singleton]

theorem length_foldl_setItem_le (items d : List (PyStr × V)) :
    (items.foldl setItem d).length ≤ d.length + items.length := by
  induction items generalizing d with
  | nil => exact le_rfl
  | cons p items ih =>
      have hstep := length_setItem_le d p
      have hrest := ih (setItem d p)
      rw [List.foldl_cons, List.length_cons]
      omega

/-- A dictionary with as many items as were put into it holds them in their order. -/
theorem foldl_setItem_of_length {items d : List (PyStr × V)}
    (h : (items.foldl setItem d).length = d.length + items.length) :
    items.foldl setItem d = d ++ items := by
  induction items generalizing d with
  | nil => exact (List.append_nil d).symm
  | cons p items ih =>
      rw [List.foldl_cons, List.length_cons] at h
      have hrest := length_foldl_setItem_le items (setItem d p)
      have hnew : setItem d p = d ++ [p] := by
        unfold setItem at h hrest ⊢
        split
        · rename_i hmem
          rw [if_pos hmem] at h hrest
          rw [List.length_map] at hrest
          omega
        · rfl
      rw [hnew] at h
      have hlength : (items.foldl setItem (d ++ [p])).length = (d ++ [p]).length + items.length := by
        rw [h, List.length_append, List.length_singleton]
        omega
      rw [List.foldl_cons, hnew, ih hlength, List.append_assoc]
      rfl

theorem foldl_setItem_of_nodup {items d : List (PyStr × V)}
    (h : ((d ++ items).map Prod.fst).Nodup) : items.foldl setItem d = d ++ items := by
  induction items generalizing d with
  | nil => exact (List.append_nil d).symm
  | cons p items ih =>
      have hnot : p.1 ∉ d.map Prod.fst := by
        rw [List.map_append, List.map_cons] at h
        intro hmem
        exact (List.nodup_append.1 h).2.2 p.1 hmem p.1 List.mem_cons_self rfl
      have hnew : setItem d p = d ++ [p] := if_neg hnot
      have hassoc : d ++ p :: items = (d ++ [p]) ++ items := by simp
      rw [List.foldl_cons, hnew, ih (hassoc ▸ h), ← hassoc]

/-- A changed dictionary is the old one if and only if no item was changed. -/
theorem dictOf_eq_iff {d d' : List (PyStr × V)} (h : (d.map Prod.fst).Nodup)
    (hlength : d'.length = d.length) : dictOf d' = d ↔ d' = d := by
  unfold dictOf
  constructor
  · intro heq
    have hall : (d'.foldl setItem []).length = ([] : List (PyStr × V)).length + d'.length := by
      rw [heq, hlength]
      simp
    rw [foldl_setItem_of_length hall] at heq
    exact heq
  · rintro rfl
    exact foldl_setItem_of_nodup h

end Dict

/-- A string has no surrogate pair. -/
def Piece.Plain {F : Type} : Piece F → Prop
  | .int _ => True
  | .float _ => True
  | .str s => s.NoPair
  | .keys _ => True

section Plain

variable {F : Type} {fl : FloatFormat F}

theorem length_normItems (d : List (PyStr × Value F)) : (normItems d).length = d.length := by
  induction d with
  | nil => rfl
  | cons p d ih => exact congrArg (· + 1) ih

mutual

theorem norm_eq_iff : ∀ v : Value F, (∀ x ∈ v.pieces, x.Proper fl) →
    (norm v = v ↔ ∀ x ∈ v.pieces, x.Plain)
  | .null, _ => iff_of_true rfl fun _ hx => absurd hx List.not_mem_nil
  | .bool _, _ => iff_of_true rfl fun _ hx => absurd hx List.not_mem_nil
  | .int i, _ => iff_of_true rfl (List.forall_mem_singleton.2 trivial)
  | .float x, _ => iff_of_true rfl (List.forall_mem_singleton.2 trivial)
  | .str s, _ => by
      show Value.str s.join = Value.str s ↔ _
      rw [Value.str.injEq, PyStr.join_eq_iff]
      exact (List.forall_mem_singleton (p := Piece.Plain) (a := Piece.str s)).symm
  | .arr l, hv => by
      show Value.arr (normList l) = Value.arr l ↔ _
      rw [Value.arr.injEq]
      exact normList_eq_iff l hv
  | .obj d, hv => by
      show Value.obj (dictOf (normItems d)) = Value.obj d ↔ _
      rw [Value.obj.injEq, dictOf_eq_iff (hv _ List.mem_cons_self) (length_normItems d),
        normItems_eq_iff d fun x hx => hv x (List.mem_cons_of_mem _ hx)]
      exact (List.forall_mem_cons.trans (and_iff_right trivial)).symm

theorem normList_eq_iff : ∀ l : List (Value F), (∀ x ∈ piecesOfList l, x.Proper fl) →
    (normList l = l ↔ ∀ x ∈ piecesOfList l, x.Plain)
  | [], _ => iff_of_true rfl fun _ hx => absurd hx List.not_mem_nil
  | v :: l, hl => by
      show norm v :: normList l = v :: l ↔ _
      rw [List.cons.injEq, norm_eq_iff v fun x hx => hl x (List.mem_append_left _ hx),
        normList_eq_iff l fun x hx => hl x (List.mem_append_right _ hx)]
      exact List.forall_mem_append.symm

theorem normItems_eq_iff : ∀ d : List (PyStr × Value F), (∀ x ∈ piecesOfItems d, x.Proper fl) →
    (normItems d = d ↔ ∀ x ∈ piecesOfItems d, x.Plain)
  | [], _ => iff_of_true rfl fun _ hx => absurd hx List.not_mem_nil
  | p :: d, hd => by
      show normItem p :: normItems d = p :: d ↔ _
      rw [List.cons.injEq, normItem_eq_iff p fun x hx => hd x (List.mem_append_left _ hx),
        normItems_eq_iff d fun x hx => hd x (List.mem_append_right _ hx)]
      exact List.forall_mem_append.symm

theorem normItem_eq_iff : ∀ p : PyStr × Value F, (∀ x ∈ piecesOfItem p, x.Proper fl) →
    (normItem p = p ↔ ∀ x ∈ piecesOfItem p, x.Plain)
  | (k, v), hp => by
      show (k.join, norm v) = (k, v) ↔ _
      rw [Prod.mk.injEq, PyStr.join_eq_iff, norm_eq_iff v fun x hx => hp x (List.mem_cons_of_mem _ hx)]
      exact (List.forall_mem_cons (p := Piece.Plain) (a := Piece.str k)).symm

end

end Plain

/-! ## Strings that are documents -/

section Documents

variable {F : Type} {fl : FloatFormat F}

theorem length_text_pos (i : Item) : 1 ≤ i.text.length := by
  cases i <;> simp [Item.text]

theorem length_le_text (l : List Item) : l.length ≤ (l.flatMap Item.text).length := by
  induction l with
  | nil => exact le_rfl
  | cons i l ih =>
      have hpos := length_text_pos i
      rw [List.flatMap_cons, List.length_append, List.length_cons]
      omega

/-- A string is shorter than its text. -/
theorem length_lt_of_isValue {t : Text} {s : PyStr} (h : IsValue fl t (.str s)) :
    s.length < t.length := by
  cases h with
  | constant hmem => simp [constants] at hmem
  | @number n _ _ hn =>
      unfold Number.value at hn
      split at hn
      · obtain ⟨i, -, hi⟩ := Option.map_eq_some_iff.1 hn
        cases hi
      · cases hn
  | @str l s hl =>
      obtain ⟨u, hu, rfl⟩ := itemsValue_eq_some hl
      have hjoin := PyStr.length_join_le u
      have hunits := (mapM_eq_some.1 hu).length_eq
      have hitems := length_le_text l
      unfold itemsText
      rw [List.length_cons, List.length_append]
      omega

/-- No document is a string and stands for itself. -/
theorem ofText_ne_of_isText {t : Text} {v : Value F} (h : IsText fl t v) :
    v ≠ .str (PyStr.ofText t) := by
  rintro rfl
  obtain ⟨ws, u, ws', -, hvalue, -, ht⟩ := h
  have hlt := length_lt_of_isValue hvalue
  have hlength : t.length = ws.length + (u.length + ws'.length) := by
    rw [ht, List.length_append, List.length_append]
  unfold PyStr.ofText at hlt
  rw [List.length_map] at hlt
  omega

end Documents

end JsonText
