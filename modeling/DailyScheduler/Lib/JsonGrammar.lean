import DailyScheduler.Lib.JsonText
import Mathlib.Data.List.TakeWhile

set_option autoImplicit false

/-! # What `json.loads` accepts

The grammar of JSON texts, each with the value it stands for (`IsValue`), and the proof that
`json.loads` accepts the texts of the grammar and no others (`loads_eq_some`). Each scanner has two
lemmas: what it takes is of the grammar, and it takes what is of the grammar, up to a text that
cannot continue it.
-/

namespace JsonText

/-! ## Blanks -/

/-- Some blanks. -/
def Ws (t : Text) : Prop := ∀ c ∈ t, IsWs c = true

theorem ws_nil : Ws [] := fun _ h => absurd h List.not_mem_nil

/-- The text does not begin with a blank. -/
def NoWs (t : Text) : Prop := ∀ c, t.head? = some c → IsWs c = false

theorem skipWs_append {ws t : Text} (h : Ws ws) (ht : NoWs t) : skipWs (ws ++ t) = t := by
  unfold skipWs
  induction ws with
  | nil =>
      cases t with
      | nil => rfl
      | cons c t => exact List.dropWhile_cons_of_neg (by simp [ht c rfl])
  | cons c ws ih =>
      have hc : IsWs c = true := h c List.mem_cons_self
      rw [List.cons_append, List.dropWhile_cons_of_pos hc]
      exact ih fun c' hc' => h c' (List.mem_cons_of_mem c hc')

theorem noWs_cons {c : Char} {t : Text} (h : IsWs c = false) : NoWs (c :: t) := by
  intro c' hc'
  cases hc'
  exact h

/-- What is skipped are blanks. -/
theorem exists_skipWs (t : Text) : ∃ ws, Ws ws ∧ t = ws ++ skipWs t := by
  refine ⟨t.takeWhile IsWs, fun c hc => List.mem_takeWhile_imp hc, ?_⟩
  exact List.takeWhile_append_dropWhile.symm

/-! ## Strings -/

theorem scanItems_sound {t rest : Text} {l : List Item} (h : scanItems t = some (l, rest)) :
    t = l.flatMap Item.text ++ '"' :: rest := by
  fun_induction scanItems t generalizing l with
  | case1 => cases h
  | case2 t =>
      cases h
      rfl
  | case3 _ a b c d t ih =>
      obtain ⟨r, hr, heq⟩ := Option.map_eq_some_iff.1 h
      cases heq
      rw [ih hr]
      rfl
  | case4 _ c t _ ih =>
      obtain ⟨r, hr, heq⟩ := Option.map_eq_some_iff.1 h
      cases heq
      rw [ih hr]
      rfl
  | case5 => cases h
  | case6 c t _ _ ih =>
      obtain ⟨r, hr, heq⟩ := Option.map_eq_some_iff.1 h
      cases heq
      rw [ih hr]
      rfl

theorem scanItems_complete {l : List Item} (h : ∀ i ∈ l, ∃ p, i.codePoint? = some p) (rest : Text) :
    scanItems (l.flatMap Item.text ++ '"' :: rest) = some (l, rest) := by
  induction l with
  | nil => exact scanItems_quote rest
  | cons i l ih =>
      obtain ⟨p, hp⟩ := h i List.mem_cons_self
      have hrest := ih fun i' hi' => h i' (List.mem_cons_of_mem i hi')
      rw [List.flatMap_cons, List.append_assoc]
      cases i with
      | raw c =>
          have hplain : IsPlain c := by
            by_contra hc
            rw [Item.codePoint?, if_neg hc] at hp
            cases hp
          exact (scanItems_raw hplain.2.1 hplain.2.2 _).trans (congrArg (Option.map _) hrest)
      | short c =>
          have hu : c ≠ 'u' := by
            rintro rfl
            cases hp
          exact (scanItems_short hu _).trans (congrArg (Option.map _) hrest)
      | unicode a b c d =>
          exact (scanItems_unicode a b c d _).trans (congrArg (Option.map _) hrest)

theorem itemsValue_eq_some {l : List Item} {s : PyStr} (h : itemsValue l = some s) :
    ∃ u, l.mapM Item.codePoint? = some u ∧ s = PyStr.join u := by
  obtain ⟨u, hu, hs⟩ := Option.map_eq_some_iff.1 h
  exact ⟨u, hu, hs.symm⟩

theorem scanString_sound {t rest : Text} {s : PyStr} (h : scanString t = some (s, rest)) :
    ∃ l, itemsValue l = some s ∧ '"' :: t = itemsText l ++ rest := by
  unfold scanString at h
  obtain ⟨⟨l, rest'⟩, hscan, h⟩ := Option.bind_eq_some_iff.1 h
  obtain ⟨s', hs, h⟩ := Option.bind_eq_some_iff.1 h
  cases h
  refine ⟨l, hs, ?_⟩
  rw [scanItems_sound hscan]
  unfold itemsText
  simp

theorem scanString_complete {l : List Item} {s : PyStr} (h : itemsValue l = some s) (rest : Text) :
    ∃ t, itemsText l ++ rest = '"' :: t ∧ scanString t = some (s, rest) := by
  refine ⟨l.flatMap Item.text ++ '"' :: rest, by simp [itemsText], ?_⟩
  obtain ⟨u, hu, -⟩ := itemsValue_eq_some h
  have hgood : ∀ i ∈ l, ∃ p, i.codePoint? = some p := fun i hi => exists_of_mapM hu hi
  unfold scanString
  rw [scanItems_complete hgood]
  simp [h]

/-! ## Numbers -/

/-- One or more digits. -/
def Digits (t : Text) : Prop := t ≠ [] ∧ ∀ c ∈ t, c.isDigit = true

/-- The parts are those of a number. -/
structure Number.Good (n : Number) : Prop where
  sign : n.sign = [] ∨ n.sign = ['-']
  whole : n.whole = ['0'] ∨ Digits n.whole ∧ n.whole.head? ≠ some '0'
  frac : n.frac = [] ∨ ∃ digits, Digits digits ∧ n.frac = '.' :: digits
  exp : n.exp = [] ∨ ∃ e sign digits, (e = 'e' ∨ e = 'E') ∧
    (sign = [] ∨ sign = ['+'] ∨ sign = ['-']) ∧ Digits digits ∧ n.exp = e :: (sign ++ digits)

/-- A number ends before the text. -/
def Delimits (t : Text) : Prop :=
  ∀ c, t.head? = some c → c.isDigit = false ∧ c ≠ '.' ∧ c ≠ 'e' ∧ c ≠ 'E'

/-- The text does not begin with a digit. -/
def NoDigit (t : Text) : Prop := ∀ c, t.head? = some c → c.isDigit = false

theorem span_digits {digits t : Text} (h : ∀ c ∈ digits, c.isDigit = true) (ht : NoDigit t) :
    (digits ++ t).takeWhile Char.isDigit = digits ∧ (digits ++ t).dropWhile Char.isDigit = t := by
  induction digits with
  | nil =>
      cases t with
      | nil => exact ⟨rfl, rfl⟩
      | cons c t =>
          have hc : ¬ c.isDigit = true := by simp [ht c rfl]
          exact ⟨List.takeWhile_cons_of_neg hc, List.dropWhile_cons_of_neg hc⟩
  | cons c digits ih =>
      have hc := h c List.mem_cons_self
      have hrest := ih fun c' hc' => h c' (List.mem_cons_of_mem c hc')
      constructor
      · rw [List.cons_append, List.takeWhile_cons_of_pos hc, hrest.1]
      · rw [List.cons_append, List.dropWhile_cons_of_pos hc, hrest.2]

theorem noDigit_of_head {c : Char} {t : Text} (h : c.isDigit = false) : NoDigit (c :: t) := by
  intro c' hc'
  cases hc'
  exact h

theorem Digits.head {t : Text} (h : Digits t) : ∃ c t', t = c :: t' ∧ c.isDigit = true := by
  obtain ⟨hne, hall⟩ := h
  obtain ⟨c, t', rfl⟩ := List.exists_cons_of_ne_nil hne
  exact ⟨c, t', rfl, hall c List.mem_cons_self⟩

theorem digits_takeWhile {t : Text} (h : t.takeWhile Char.isDigit ≠ []) :
    Digits (t.takeWhile Char.isDigit) :=
  ⟨h, fun _ hc => List.mem_takeWhile_imp hc⟩

/-! The minus sign. -/

theorem scanSign_sound (t : Text) :
    ((scanSign t).1 = [] ∨ (scanSign t).1 = ['-']) ∧ t = (scanSign t).1 ++ (scanSign t).2 := by
  unfold scanSign
  split
  · exact ⟨.inr rfl, rfl⟩
  · exact ⟨.inl rfl, rfl⟩

theorem scanSign_complete {sign t : Text} (h : sign = [] ∨ sign = ['-'])
    (ht : t.head? ≠ some '-') : scanSign (sign ++ t) = (sign, t) := by
  rcases h with rfl | rfl
  · unfold scanSign
    split
    · rename_i heq
      rw [List.nil_append] at heq
      rw [heq] at ht
      exact absurd rfl ht
    · rfl
  · rfl

/-! The digits before the point. -/

theorem scanWhole_sound {t rest digits : Text} (h : scanWhole t = some (digits, rest)) :
    (digits = ['0'] ∨ Digits digits ∧ digits.head? ≠ some '0') ∧ t = digits ++ rest := by
  unfold scanWhole at h
  split at h
  · cases h
  · rename_i c t'
    split at h
    · rename_i hzero
      cases h
      exact ⟨.inl rfl, by rw [hzero]; rfl⟩
    · rename_i hzero
      split at h
      · rename_i hdigit
        cases h
        rw [List.takeWhile_cons_of_pos hdigit]
        refine ⟨.inr ⟨⟨List.cons_ne_nil _ _, fun c' hc' => ?_⟩, ?_⟩, ?_⟩
        · rcases List.mem_cons.1 hc' with rfl | hc'
          · exact hdigit
          · exact List.mem_takeWhile_imp hc'
        · intro heq
          exact hzero (Option.some.inj heq)
        · rw [List.dropWhile_cons_of_pos hdigit, List.cons_append,
            List.takeWhile_append_dropWhile]
      · cases h

theorem scanWhole_complete {digits t : Text}
    (h : digits = ['0'] ∨ Digits digits ∧ digits.head? ≠ some '0') (ht : NoDigit t) :
    scanWhole (digits ++ t) = some (digits, t) := by
  rcases h with rfl | ⟨hdigits, hzero⟩
  · rfl
  · obtain ⟨c, digits', rfl, hc⟩ := hdigits.head
    have hne : c ≠ '0' := fun heq => hzero (congrArg some heq)
    obtain ⟨htake, hdrop⟩ := span_digits hdigits.2 ht
    show (if c = '0' then _ else if c.isDigit then some ((c :: digits' ++ t).takeWhile _,
      (c :: digits' ++ t).dropWhile _) else none) = _
    rw [if_neg hne, if_pos hc, htake, hdrop]

/-! The digits after the point. -/

theorem scanFrac_sound (t : Text) :
    ((scanFrac t).1 = [] ∨ ∃ digits, Digits digits ∧ (scanFrac t).1 = '.' :: digits) ∧
      t = (scanFrac t).1 ++ (scanFrac t).2 := by
  unfold scanFrac
  split
  · exact ⟨.inl rfl, rfl⟩
  · split
    · rename_i c t' h
      refine ⟨.inr ⟨_, digits_takeWhile h.2, rfl⟩, ?_⟩
      show c :: t' = '.' :: (t'.takeWhile Char.isDigit ++ t'.dropWhile Char.isDigit)
      rw [h.1, List.takeWhile_append_dropWhile]
    · exact ⟨.inl rfl, rfl⟩

theorem scanFrac_complete {frac t : Text}
    (h : frac = [] ∨ ∃ digits, Digits digits ∧ frac = '.' :: digits)
    (ht : NoDigit t) (hpoint : t.head? ≠ some '.') : scanFrac (frac ++ t) = (frac, t) := by
  rcases h with rfl | ⟨digits, hdigits, rfl⟩
  · unfold scanFrac
    cases t with
    | nil => rfl
    | cons c t => exact if_neg fun h => hpoint (congrArg some h.1)
  · obtain ⟨htake, hdrop⟩ := span_digits hdigits.2 ht
    show (if '.' = '.' ∧ (digits ++ t).takeWhile _ ≠ [] then
      ('.' :: (digits ++ t).takeWhile _, (digits ++ t).dropWhile _) else _) = _
    rw [htake, hdrop, if_pos ⟨rfl, hdigits.1⟩]

/-! The exponent. -/

theorem scanExpSign_sound (t : Text) :
    ((scanExpSign t).1 = [] ∨ (scanExpSign t).1 = ['+'] ∨ (scanExpSign t).1 = ['-']) ∧
      t = (scanExpSign t).1 ++ (scanExpSign t).2 := by
  unfold scanExpSign
  split
  · exact ⟨.inr (.inl rfl), rfl⟩
  · exact ⟨.inr (.inr rfl), rfl⟩
  · exact ⟨.inl rfl, rfl⟩

theorem scanExpSign_complete {sign digits : Text}
    (h : sign = [] ∨ sign = ['+'] ∨ sign = ['-']) (hd : Digits digits) (t : Text) :
    scanExpSign (sign ++ (digits ++ t)) = (sign, digits ++ t) := by
  obtain ⟨c, digits', rfl, hc⟩ := hd.head
  rcases h with rfl | rfl | rfl
  · unfold scanExpSign
    split
    · rename_i heq
      cases heq
      cases hc
    · rename_i heq
      cases heq
      cases hc
    · rfl
  · rfl
  · rfl

theorem scanExp_sound (t : Text) :
    ((scanExp t).1 = [] ∨ ∃ e sign digits, (e = 'e' ∨ e = 'E') ∧
      (sign = [] ∨ sign = ['+'] ∨ sign = ['-']) ∧ Digits digits ∧
      (scanExp t).1 = e :: (sign ++ digits)) ∧ t = (scanExp t).1 ++ (scanExp t).2 := by
  unfold scanExp
  split
  · exact ⟨.inl rfl, rfl⟩
  · rename_i c t'
    dsimp only
    split
    · rename_i h
      obtain ⟨hsign, heq⟩ := scanExpSign_sound t'
      refine ⟨.inr ⟨c, _, _, h.1, hsign, digits_takeWhile h.2, rfl⟩, ?_⟩
      show c :: t' = c :: ((scanExpSign t').1 ++ (scanExpSign t').2.takeWhile Char.isDigit
        ++ (scanExpSign t').2.dropWhile Char.isDigit)
      rw [List.append_assoc, List.takeWhile_append_dropWhile, ← heq]
    · exact ⟨.inl rfl, rfl⟩

theorem scanExp_complete {exp t : Text}
    (h : exp = [] ∨ ∃ e sign digits, (e = 'e' ∨ e = 'E') ∧
      (sign = [] ∨ sign = ['+'] ∨ sign = ['-']) ∧ Digits digits ∧ exp = e :: (sign ++ digits))
    (ht : NoDigit t) (he : t.head? ≠ some 'e') (hE : t.head? ≠ some 'E') :
    scanExp (exp ++ t) = (exp, t) := by
  rcases h with rfl | ⟨e, sign, digits, hletter, hsign, hdigits, rfl⟩
  · unfold scanExp
    cases t with
    | nil => rfl
    | cons c t =>
        refine if_neg fun h => ?_
        rcases h.1 with rfl | rfl
        · exact he rfl
        · exact hE rfl
  · obtain ⟨htake, hdrop⟩ := span_digits hdigits.2 ht
    have hscan := scanExpSign_complete hsign hdigits t
    rw [List.cons_append, List.append_assoc]
    unfold scanExp
    dsimp only
    rw [hscan, htake, hdrop, if_pos ⟨hletter, hdigits.1⟩]

/-! All parts. -/

theorem scanNumber_sound {t rest : Text} {n : Number} (h : scanNumber t = some (n, rest)) :
    n.Good ∧ t = n.text ++ rest := by
  unfold scanNumber at h
  obtain ⟨⟨whole, t'⟩, hwhole, h⟩ := Option.bind_eq_some_iff.1 h
  cases h
  obtain ⟨hgood, hsplit⟩ := scanWhole_sound hwhole
  obtain ⟨hsign, hsign'⟩ := scanSign_sound t
  obtain ⟨hfrac, hfrac'⟩ := scanFrac_sound t'
  obtain ⟨hexp, hexp'⟩ := scanExp_sound (scanFrac t').2
  refine ⟨⟨hsign, hgood, hfrac, hexp⟩, ?_⟩
  calc t = (scanSign t).1 ++ (whole ++ t') := by rw [← hsplit]; exact hsign'
    _ = (scanSign t).1 ++ (whole ++ ((scanFrac t').1 ++ ((scanExp (scanFrac t').2).1
          ++ (scanExp (scanFrac t').2).2))) := by rw [← hexp', ← hfrac']
    _ = _ := by simp [Number.text]

theorem scanNumber_complete {n : Number} (h : n.Good) {rest : Text} (hrest : Delimits rest) :
    scanNumber (n.text ++ rest) = some (n, rest) := by
  obtain ⟨sign, whole, frac, exp⟩ := n
  obtain ⟨hsign, hwhole, hfrac, hexp⟩ := h
  dsimp only at hsign hwhole hfrac hexp
  have hafter : NoDigit rest := fun c hc => (hrest c hc).1
  have hexpScan : scanExp (exp ++ rest) = (exp, rest) :=
    scanExp_complete hexp hafter (fun hc => (hrest 'e' hc).2.2.1 rfl)
      fun hc => (hrest 'E' hc).2.2.2 rfl
  -- after the digits before the point comes a point, an exponent or the end
  have hafterFrac : NoDigit (exp ++ rest) ∧ (exp ++ rest).head? ≠ some '.' := by
    rcases hexp with rfl | ⟨e, s, digits, he, -, -, rfl⟩
    · exact ⟨hafter, fun hc => (hrest '.' hc).2.1 rfl⟩
    · rcases he with rfl | rfl
      · exact ⟨noDigit_of_head rfl, by simp⟩
      · exact ⟨noDigit_of_head rfl, by simp⟩
  have hfracScan : scanFrac (frac ++ (exp ++ rest)) = (frac, exp ++ rest) :=
    scanFrac_complete hfrac hafterFrac.1 hafterFrac.2
  have hafterWhole : NoDigit (frac ++ (exp ++ rest)) := by
    rcases hfrac with rfl | ⟨digits, -, rfl⟩
    · exact hafterFrac.1
    · exact noDigit_of_head rfl
  have hwholeScan : scanWhole (whole ++ (frac ++ (exp ++ rest)))
      = some (whole, frac ++ (exp ++ rest)) := scanWhole_complete hwhole hafterWhole
  have hfirst : (whole ++ (frac ++ (exp ++ rest))).head? ≠ some '-' := by
    rcases hwhole with rfl | ⟨hdigits, -⟩
    · simp
    · obtain ⟨c, t', rfl, hc⟩ := hdigits.head
      intro heq
      cases Option.some.inj heq
      cases hc
  have htext : Number.text ⟨sign, whole, frac, exp⟩ ++ rest
      = sign ++ (whole ++ (frac ++ (exp ++ rest))) := by simp [Number.text]
  unfold scanNumber
  rw [htext, scanSign_complete hsign hfirst]
  dsimp only
  rw [hwholeScan]
  simp only [Option.bind_eq_bind, Option.bind_some, hfracScan, hexpScan]
  rfl

/-- A number begins with a digit, or with a minus sign and a digit. -/
theorem Number.Good.head {n : Number} (h : n.Good) (rest : Text) :
    ∃ c t, n.text ++ rest = c :: t ∧
      (c.isDigit = true ∨ c = '-' ∧ ∃ d t', t = d :: t' ∧ d.isDigit = true) := by
  have hwhole : ∃ d t', n.whole = d :: t' ∧ d.isDigit = true := by
    rcases h.whole with hzero | ⟨hdigits, -⟩
    · exact ⟨'0', [], hzero, rfl⟩
    · exact hdigits.head
  obtain ⟨d, t', hd, hdigit⟩ := hwhole
  unfold Number.text
  rcases h.sign with hs | hs
  · rw [hs, hd]
    exact ⟨d, _, rfl, .inl hdigit⟩
  · rw [hs, hd]
    exact ⟨'-', _, rfl, .inr ⟨rfl, d, _, rfl, hdigit⟩⟩

/-! ## The grammar -/

/-- The text stands for a key, up to the value. -/
inductive IsKey : Text → PyStr → Prop where
  | intro {l : List Item} {k : PyStr} {ws ws' : Text} : itemsValue l = some k → Ws ws → Ws ws' →
      IsKey (itemsText l ++ (ws ++ ':' :: ws')) k

section Grammar

variable {F : Type} (fl : FloatFormat F)

mutual

/-- The text stands for the value. -/
inductive IsValue : Text → Value F → Prop where
  | constant {word : Text} {v : Value F} : (word, v) ∈ constants fl → IsValue word v
  | number {n : Number} {v : Value F} : n.Good → n.value fl = some v → IsValue n.text v
  | str {l : List Item} {s : PyStr} : itemsValue l = some s → IsValue (itemsText l) (.str s)
  | emptyArr {ws : Text} : Ws ws → IsValue ('[' :: (ws ++ [']'])) (.arr [])
  | arr {ws t : Text} {l : List (Value F)} : Ws ws → IsElements t l →
      IsValue ('[' :: (ws ++ t)) (.arr l)
  | emptyObj {ws : Text} : Ws ws → IsValue ('\x7b' :: (ws ++ ['\x7d'])) (.obj [])
  | obj {ws t : Text} {d : List (PyStr × Value F)} : Ws ws → IsMembers t d →
      IsValue ('\x7b' :: (ws ++ t)) (.obj (dictOf d))

/-- The text stands for the elements of a list, up to the closing bracket. -/
inductive IsElements : Text → List (Value F) → Prop where
  | last {t ws : Text} {v : Value F} : IsValue t v → Ws ws → IsElements (t ++ (ws ++ [']'])) [v]
  | cons {t ws ws' t' : Text} {v : Value F} {l : List (Value F)} : IsValue t v → Ws ws → Ws ws' →
      IsElements t' l → IsElements (t ++ (ws ++ ',' :: (ws' ++ t'))) (v :: l)

/-- The text stands for the items of a dictionary, up to the closing brace. -/
inductive IsMembers : Text → List (PyStr × Value F) → Prop where
  | last {t t' ws : Text} {p : PyStr × Value F} : IsKey t p.1 → IsValue t' p.2 → Ws ws →
      IsMembers (t ++ (t' ++ (ws ++ ['\x7d']))) [p]
  | cons {t t' ws ws' t'' : Text} {p : PyStr × Value F} {d : List (PyStr × Value F)} :
      IsKey t p.1 → IsValue t' p.2 → Ws ws → Ws ws' → IsMembers t'' d →
      IsMembers (t ++ (t' ++ (ws ++ ',' :: (ws' ++ t'')))) (p :: d)

end

/-- A document: a value between blanks. -/
def IsText (t : Text) (v : Value F) : Prop :=
  ∃ ws u ws', Ws ws ∧ IsValue fl u v ∧ Ws ws' ∧ t = ws ++ (u ++ ws')

end Grammar

/-! ## What is scanned is of the grammar -/

section Sound

variable {F : Type} {fl : FloatFormat F}

theorem scanConstant_sound {t rest : Text} {v : Value F} {l : List (Text × Value F)}
    (h : scanConstant t l = some (v, rest)) : ∃ word, (word, v) ∈ l ∧ t = word ++ rest := by
  induction l with
  | nil => cases h
  | cons p l ih =>
      obtain ⟨word, v'⟩ := p
      unfold scanConstant at h
      split at h
      · rename_i hprefix
        obtain ⟨t', rfl⟩ := hprefix
        cases h
        refine ⟨word, List.mem_cons_self, ?_⟩
        rw [List.drop_left]
      · obtain ⟨word', hmem, ht⟩ := ih h
        exact ⟨word', List.mem_cons_of_mem _ hmem, ht⟩

theorem scanWord_sound {t rest : Text} {v : Value F} (h : scanWord fl t = some (v, rest)) :
    ∃ u, t = u ++ rest ∧ IsValue fl u v := by
  unfold scanWord at h
  split at h
  · rename_i r hconstant
    cases h
    obtain ⟨word, hmem, ht⟩ := scanConstant_sound hconstant
    exact ⟨word, ht, .constant hmem⟩
  · obtain ⟨⟨n, rest'⟩, hnumber, h⟩ := Option.bind_eq_some_iff.1 h
    obtain ⟨v', hv, h⟩ := Option.bind_eq_some_iff.1 h
    cases h
    obtain ⟨hgood, ht⟩ := scanNumber_sound hnumber
    exact ⟨n.text, ht, .number hgood hv⟩

theorem scanKey_sound {t rest : Text} {k : PyStr} (h : scanKey t = some (k, rest)) :
    ∃ u, t = u ++ rest ∧ IsKey u k := by
  unfold scanKey at h
  obtain ⟨t', hquote, h⟩ := Option.bind_eq_some_iff.1 h
  obtain ⟨⟨k', rest'⟩, hstring, h⟩ := Option.bind_eq_some_iff.1 h
  obtain ⟨rest'', hcolon, h⟩ := Option.bind_eq_some_iff.1 h
  cases h
  obtain ⟨l, hl, heq⟩ := scanString_sound hstring
  obtain ⟨ws, hws, hskip⟩ := exists_skipWs rest'
  obtain ⟨ws', hws', hskip'⟩ := exists_skipWs rest''
  refine ⟨_, ?_, .intro hl hws hws'⟩
  calc t = '"' :: t' := stripChar_eq_some.1 hquote
    _ = itemsText l ++ (ws ++ ':' :: (ws' ++ skipWs rest'')) := by
        rw [heq, ← hskip', ← stripChar_eq_some.1 hcolon, ← hskip]
    _ = _ := by simp

/-- The scanners with some fuel take texts of the grammar only. -/
structure Sound (fl : FloatFormat F) (fuel : Nat) : Prop where
  value : ∀ t v rest, scanValue fl fuel t = some (v, rest) → ∃ u, t = u ++ rest ∧ IsValue fl u v
  elements : ∀ t l rest, scanElements fl fuel t = some (l, rest) →
    ∃ u, t = u ++ rest ∧ IsElements fl u l
  members : ∀ t d rest, scanMembers fl fuel t = some (d, rest) →
    ∃ u, t = u ++ rest ∧ IsMembers fl u d

theorem Sound.scanValue {fuel : Nat} (h : Sound fl fuel) {t rest : Text} {v : Value F}
    (hv : scanValue fl (fuel + 1) t = some (v, rest)) : ∃ u, t = u ++ rest ∧ IsValue fl u v := by
  cases t with
  | nil => cases hv
  | cons c t =>
      obtain ⟨ws, hws, hskip⟩ := exists_skipWs t
      unfold JsonText.scanValue at hv
      split at hv
      · rename_i hc
        obtain ⟨⟨s, rest'⟩, hstring, heq⟩ := Option.map_eq_some_iff.1 hv
        cases heq
        obtain ⟨l, hl, ht⟩ := scanString_sound hstring
        exact ⟨itemsText l, hc ▸ ht, .str hl⟩
      · split at hv
        · rename_i hc
          split at hv
          · rename_i rest' hclose
            cases hv
            rw [stripChar_eq_some.1 hclose] at hskip
            exact ⟨_, by rw [hc, hskip]; simp, .emptyArr hws⟩
          · obtain ⟨⟨l, rest'⟩, hl, heq⟩ := Option.map_eq_some_iff.1 hv
            cases heq
            obtain ⟨u, hu, hvalue⟩ := h.elements _ _ _ hl
            rw [hu] at hskip
            exact ⟨_, by rw [hc, hskip]; simp, .arr hws hvalue⟩
        · split at hv
          · rename_i hc
            split at hv
            · rename_i rest' hclose
              cases hv
              rw [stripChar_eq_some.1 hclose] at hskip
              exact ⟨_, by rw [hc, hskip]; simp, .emptyObj hws⟩
            · obtain ⟨⟨d, rest'⟩, hd, heq⟩ := Option.map_eq_some_iff.1 hv
              cases heq
              obtain ⟨u, hu, hvalue⟩ := h.members _ _ _ hd
              rw [hu] at hskip
              exact ⟨_, by rw [hc, hskip]; simp, .obj hws hvalue⟩
          · exact scanWord_sound hv

theorem Sound.scanElements {fuel : Nat} (h : Sound fl fuel) {t rest : Text} {l : List (Value F)}
    (hl : scanElements fl (fuel + 1) t = some (l, rest)) :
    ∃ u, t = u ++ rest ∧ IsElements fl u l := by
  unfold JsonText.scanElements at hl
  obtain ⟨⟨v, rest'⟩, hv, hl⟩ := Option.bind_eq_some_iff.1 hl
  obtain ⟨u, hu, hvalue⟩ := h.value _ _ _ hv
  obtain ⟨ws, hws, hskip⟩ := exists_skipWs rest'
  dsimp only at hl
  split at hl
  · rename_i rest'' hclose
    cases hl
    rw [stripChar_eq_some.1 hclose] at hskip
    exact ⟨_, by rw [hu, hskip]; simp, .last hvalue hws⟩
  · obtain ⟨rest'', hcomma, hl⟩ := Option.bind_eq_some_iff.1 hl
    obtain ⟨⟨l', rest₃⟩, hl', hl⟩ := Option.bind_eq_some_iff.1 hl
    cases hl
    obtain ⟨u', hu', hrest⟩ := h.elements _ _ _ hl'
    obtain ⟨ws', hws', hskip'⟩ := exists_skipWs rest''
    rw [stripChar_eq_some.1 hcomma, hskip', hu'] at hskip
    exact ⟨_, by rw [hu, hskip]; simp, .cons hvalue hws hws' hrest⟩

theorem Sound.scanMembers {fuel : Nat} (h : Sound fl fuel) {t rest : Text}
    {d : List (PyStr × Value F)} (hd : scanMembers fl (fuel + 1) t = some (d, rest)) :
    ∃ u, t = u ++ rest ∧ IsMembers fl u d := by
  unfold JsonText.scanMembers at hd
  obtain ⟨⟨k, rest₀⟩, hk, hd⟩ := Option.bind_eq_some_iff.1 hd
  obtain ⟨⟨v, rest'⟩, hv, hd⟩ := Option.bind_eq_some_iff.1 hd
  obtain ⟨u₀, hu₀, hkey⟩ := scanKey_sound hk
  obtain ⟨u, hu, hvalue⟩ := h.value _ _ _ hv
  obtain ⟨ws, hws, hskip⟩ := exists_skipWs rest'
  dsimp only at hd
  split at hd
  · rename_i rest'' hclose
    cases hd
    rw [stripChar_eq_some.1 hclose] at hskip
    refine ⟨_, ?_, .last (p := (k, v)) hkey hvalue hws⟩
    rw [hu₀, hu, hskip]
    simp
  · obtain ⟨rest'', hcomma, hd⟩ := Option.bind_eq_some_iff.1 hd
    obtain ⟨⟨d', rest₃⟩, hd', hd⟩ := Option.bind_eq_some_iff.1 hd
    cases hd
    obtain ⟨u', hu', hrest⟩ := h.members _ _ _ hd'
    obtain ⟨ws', hws', hskip'⟩ := exists_skipWs rest''
    rw [stripChar_eq_some.1 hcomma, hskip', hu'] at hskip
    refine ⟨_, ?_, .cons (p := (k, v)) hkey hvalue hws hws' hrest⟩
    rw [hu₀, hu, hskip]
    simp

theorem sound (fuel : Nat) : Sound fl fuel := by
  induction fuel with
  | zero =>
      constructor
      · intro t v rest h
        cases h
      · intro t l rest h
        cases h
      · intro t d rest h
        cases h
  | succ fuel ih =>
      constructor
      · intro t v rest h
        exact ih.scanValue h
      · intro t l rest h
        exact ih.scanElements h
      · intro t d rest h
        exact ih.scanMembers h

end Sound

/-! ## What is of the grammar is scanned -/

section Complete

variable {F : Type} {fl : FloatFormat F}

/-- The text begins with a character that is neither a blank nor a closing bracket. -/
def Opens (t : Text) : Prop := ∃ c t', t = c :: t' ∧ IsWs c = false ∧ c ≠ ']'

theorem Opens.append {t : Text} (h : Opens t) (rest : Text) : Opens (t ++ rest) := by
  obtain ⟨c, t', rfl, hws, hne⟩ := h
  exact ⟨c, t' ++ rest, rfl, hws, hne⟩

theorem Opens.noWs {t : Text} (h : Opens t) : NoWs t := by
  obtain ⟨c, t', rfl, hws, -⟩ := h
  exact noWs_cons hws

theorem Opens.stripChar {t : Text} (h : Opens t) : stripChar ']' t = none := by
  obtain ⟨c, t', rfl, -, hne⟩ := h
  exact stripChar_of_ne hne t'

theorem isWs_of_isDigit {c : Char} (h : c.isDigit = true) : IsWs c = false ∧ c ≠ ']' := by
  constructor
  · unfold IsWs
    simp only [Bool.or_eq_false_iff, decide_eq_false_iff_not]
    refine ⟨⟨⟨?_, ?_⟩, ?_⟩, ?_⟩ <;> rintro rfl <;> cases h
  · rintro rfl
    cases h

theorem IsValue.opens {t : Text} {v : Value F} (h : IsValue fl t v) : Opens t := by
  cases h with
  | constant hmem =>
      simp only [constants, List.mem_cons, List.not_mem_nil, or_false, Prod.mk.injEq] at hmem
      rcases hmem with ⟨rfl, -⟩ | ⟨rfl, -⟩ | ⟨rfl, -⟩ | ⟨rfl, -⟩ | ⟨rfl, -⟩ | ⟨rfl, -⟩ <;>
        exact ⟨_, _, rfl, rfl, by decide⟩
  | number hgood hv =>
      obtain ⟨c, t', ht, hc⟩ := hgood.head []
      rw [List.append_nil] at ht
      rw [ht]
      rcases hc with hdigit | ⟨rfl, -⟩
      · exact ⟨c, t', rfl, (isWs_of_isDigit hdigit).1, (isWs_of_isDigit hdigit).2⟩
      · exact ⟨'-', t', rfl, rfl, by decide⟩
  | str hl => exact ⟨'"', _, rfl, rfl, by decide⟩
  | emptyArr hws => exact ⟨'[', _, rfl, rfl, by decide⟩
  | arr hws hl => exact ⟨'[', _, rfl, rfl, by decide⟩
  | emptyObj hws => exact ⟨'\x7b', _, rfl, rfl, by decide⟩
  | obj hws hd => exact ⟨'\x7b', _, rfl, rfl, by decide⟩

theorem IsElements.opens {t : Text} {l : List (Value F)} (h : IsElements fl t l) : Opens t := by
  cases h with
  | last hv _ => exact hv.opens.append _
  | cons hv _ _ _ => exact hv.opens.append _

theorem IsKey.head {t : Text} {k : PyStr} (h : IsKey t k) : ∃ t', t = '"' :: t' := by
  cases h with
  | intro hl _ _ => exact ⟨_, rfl⟩

theorem IsMembers.head {t : Text} {d : List (PyStr × Value F)} (h : IsMembers fl t d) :
    ∃ t', t = '"' :: t' := by
  cases h with
  | last hk _ _ =>
      obtain ⟨t', rfl⟩ := hk.head
      exact ⟨_, rfl⟩
  | cons hk _ _ _ _ =>
      obtain ⟨t', rfl⟩ := hk.head
      exact ⟨_, rfl⟩

theorem delim_of_isWs {c : Char} (h : IsWs c = true) :
    c.isDigit = false ∧ c ≠ '.' ∧ c ≠ 'e' ∧ c ≠ 'E' := by
  unfold IsWs at h
  simp only [Bool.or_eq_true, decide_eq_true_eq] at h
  rcases h with ((rfl | rfl) | rfl) | rfl <;> decide

theorem delimits_ws {ws : Text} (h : Ws ws) : Delimits ws :=
  fun c hc => delim_of_isWs (h c (List.mem_of_mem_head? hc))

/-- After blanks and a closing bracket or a comma no number goes on. -/
theorem delimits_append {ws : Text} (h : Ws ws) {c : Char} (hc : c.isDigit = false ∧ c ≠ '.' ∧
    c ≠ 'e' ∧ c ≠ 'E') (t : Text) : Delimits (ws ++ c :: t) := by
  intro c' hc'
  cases ws with
  | nil =>
      cases hc'
      exact hc
  | cons w ws =>
      cases hc'
      exact delim_of_isWs (h _ List.mem_cons_self)

theorem scanConstant_complete {word : Text} {v : Value F} (h : (word, v) ∈ constants fl)
    (rest : Text) : scanConstant (word ++ rest) (constants fl) = some (v, rest) := by
  simp only [constants, List.mem_cons, List.not_mem_nil, or_false, Prod.mk.injEq] at h
  rcases h with ⟨rfl, rfl⟩ | ⟨rfl, rfl⟩ | ⟨rfl, rfl⟩ | ⟨rfl, rfl⟩ | ⟨rfl, rfl⟩ | ⟨rfl, rfl⟩ <;>
    simp [scanConstant, constants]

/-- No word is at the beginning of a number. -/
theorem scanConstant_number {n : Number} (h : n.Good) (rest : Text) :
    scanConstant (n.text ++ rest) (constants fl) = none := by
  obtain ⟨c, t, ht, hc⟩ := h.head rest
  rw [ht]
  rcases hc with hdigit | ⟨rfl, d, t', rfl, hdigit⟩
  · have hne : ∀ w : Char, w.isDigit = false → w ≠ c := by
      intro w hw heq
      rw [← heq, hw] at hdigit
      cases hdigit
    simp [scanConstant, constants, hne]
  · have hne : 'I' ≠ d := by
      rintro rfl
      cases hdigit
    simp [scanConstant, constants, hne]

theorem scanWord_complete {n : Number} {v : Value F} (h : n.Good) (hv : n.value fl = some v)
    {rest : Text} (hrest : Delimits rest) : scanWord fl (n.text ++ rest) = some (v, rest) := by
  unfold scanWord
  rw [scanConstant_number h, scanNumber_complete h hrest]
  simp [hv]

theorem scanKey_complete {t rest : Text} {k : PyStr} (h : IsKey t k) (hrest : NoWs rest) :
    scanKey (t ++ rest) = some (k, rest) := by
  cases h with
  | @intro l k ws ws' hl hws hws' =>
      obtain ⟨t', ht', hscan⟩ := scanString_complete hl (ws ++ ':' :: (ws' ++ rest))
      have htext : itemsText l ++ (ws ++ ':' :: ws') ++ rest = '"' :: t' := by
        rw [← ht']
        simp
      have hcolon : skipWs (ws ++ ':' :: (ws' ++ rest)) = ':' :: (ws' ++ rest) :=
        skipWs_append hws (noWs_cons rfl)
      unfold scanKey
      rw [htext]
      simp [hscan, hcolon, skipWs_append hws' hrest]

/-- The scanners take all texts of the grammar for which there is enough fuel. -/
structure Complete (fl : FloatFormat F) (fuel : Nat) : Prop where
  value : ∀ t v rest, IsValue fl t v → Delimits rest → t.length ≤ fuel →
    scanValue fl fuel (t ++ rest) = some (v, rest)
  elements : ∀ t l rest, IsElements fl t l → t.length ≤ fuel →
    scanElements fl fuel (t ++ rest) = some (l, rest)
  members : ∀ t d rest, IsMembers fl t d → t.length ≤ fuel →
    scanMembers fl fuel (t ++ rest) = some (d, rest)

theorem scanValue_word {c : Char} (h : c ≠ '"' ∧ c ≠ '[' ∧ c ≠ '\x7b') (fuel : Nat) (t : Text) :
    scanValue fl (fuel + 1) (c :: t) = scanWord fl (c :: t) := by
  unfold JsonText.scanValue
  rw [if_neg h.1, if_neg h.2.1, if_neg h.2.2]

theorem scanValue_constant {word : Text} {v : Value F} (h : (word, v) ∈ constants fl) (fuel : Nat)
    (rest : Text) : scanValue fl (fuel + 1) (word ++ rest) = some (v, rest) := by
  have hword : scanWord fl (word ++ rest) = some (v, rest) := by
    unfold scanWord
    rw [scanConstant_complete h]
  rw [← hword]
  simp only [constants, List.mem_cons, List.not_mem_nil, or_false, Prod.mk.injEq] at h
  rcases h with ⟨rfl, -⟩ | ⟨rfl, -⟩ | ⟨rfl, -⟩ | ⟨rfl, -⟩ | ⟨rfl, -⟩ | ⟨rfl, -⟩ <;>
    exact scanValue_word (by decide) fuel _

theorem scanValue_number {n : Number} {v : Value F} (h : n.Good) (hv : n.value fl = some v)
    {rest : Text} (hrest : Delimits rest) (fuel : Nat) :
    scanValue fl (fuel + 1) (n.text ++ rest) = some (v, rest) := by
  rw [← scanWord_complete h hv hrest]
  obtain ⟨c, t, ht, hc⟩ := h.head rest
  rw [ht]
  refine scanValue_word ?_ fuel t
  rcases hc with hdigit | ⟨rfl, -⟩
  · refine ⟨?_, ?_, ?_⟩ <;> rintro rfl <;> cases hdigit
  · decide

theorem Complete.scanValue {fuel : Nat} (h : Complete fl fuel) {t rest : Text} {v : Value F}
    (hv : IsValue fl t v) (hrest : Delimits rest) (hfuel : t.length ≤ fuel + 1) :
    scanValue fl (fuel + 1) (t ++ rest) = some (v, rest) := by
  cases hv with
  | constant hmem => exact scanValue_constant hmem fuel rest
  | number hgood hn => exact scanValue_number hgood hn hrest fuel
  | @str l s hl =>
      obtain ⟨t', ht', hscan⟩ := scanString_complete hl rest
      rw [ht']
      unfold JsonText.scanValue
      rw [if_pos rfl, hscan]
      rfl
  | @emptyArr ws hws =>
      have hskip : skipWs (ws ++ ']' :: rest) = ']' :: rest := skipWs_append hws (noWs_cons rfl)
      have htext : '[' :: (ws ++ [']']) ++ rest = '[' :: (ws ++ ']' :: rest) := by simp
      rw [htext]
      unfold JsonText.scanValue
      rw [if_neg (by decide), if_pos rfl, hskip, stripChar_self]
  | @arr ws t l hws hl =>
      have hskip : skipWs (ws ++ (t ++ rest)) = t ++ rest :=
        skipWs_append hws (hl.opens.append rest).noWs
      have htext : '[' :: (ws ++ t) ++ rest = '[' :: (ws ++ (t ++ rest)) := by simp
      have hlength : t.length ≤ fuel := by
        simp only [List.length_cons, List.length_append] at hfuel
        omega
      rw [htext]
      unfold JsonText.scanValue
      rw [if_neg (by decide), if_pos rfl, hskip, (hl.opens.append rest).stripChar,
        h.elements t l rest hl hlength]
      rfl
  | @emptyObj ws hws =>
      have hskip : skipWs (ws ++ '\x7d' :: rest) = '\x7d' :: rest :=
        skipWs_append hws (noWs_cons rfl)
      have htext : '\x7b' :: (ws ++ ['\x7d']) ++ rest = '\x7b' :: (ws ++ '\x7d' :: rest) := by simp
      rw [htext]
      unfold JsonText.scanValue
      rw [if_neg (by decide), if_neg (by decide), if_pos rfl, hskip, stripChar_self]
  | @obj ws t d hws hd =>
      obtain ⟨t', ht'⟩ := hd.head
      have hskip : skipWs (ws ++ (t ++ rest)) = t ++ rest :=
        skipWs_append hws (ht' ▸ noWs_cons rfl)
      have hstrip : stripChar '\x7d' (t ++ rest) = none := by
        rw [ht']
        exact stripChar_of_ne (by decide) _
      have htext : '\x7b' :: (ws ++ t) ++ rest = '\x7b' :: (ws ++ (t ++ rest)) := by simp
      have hlength : t.length ≤ fuel := by
        simp only [List.length_cons, List.length_append] at hfuel
        omega
      rw [htext]
      unfold JsonText.scanValue
      rw [if_neg (by decide), if_neg (by decide), if_pos rfl, hskip, hstrip,
        h.members t d rest hd hlength]
      rfl

theorem Complete.scanElements {fuel : Nat} (h : Complete fl fuel) {t rest : Text}
    {l : List (Value F)} (hl : IsElements fl t l) (hfuel : t.length ≤ fuel + 1) :
    scanElements fl (fuel + 1) (t ++ rest) = some (l, rest) := by
  cases hl with
  | @last t ws v hv hws =>
      have hlength : t.length ≤ fuel := by
        simp only [List.length_append, List.length_singleton] at hfuel
        omega
      have htext : t ++ (ws ++ [']']) ++ rest = t ++ (ws ++ ']' :: rest) := by simp
      have hskip : skipWs (ws ++ ']' :: rest) = ']' :: rest := skipWs_append hws (noWs_cons rfl)
      rw [htext]
      unfold JsonText.scanElements
      rw [h.value t v _ hv (delimits_append hws (by decide) rest) hlength]
      simp [hskip]
  | @cons t ws ws' t' v l hv hws hws' hl =>
      have hlengths : t.length ≤ fuel ∧ t'.length ≤ fuel := by
        simp only [List.length_append, List.length_cons] at hfuel
        omega
      have htext : t ++ (ws ++ ',' :: (ws' ++ t')) ++ rest
          = t ++ (ws ++ ',' :: (ws' ++ (t' ++ rest))) := by simp
      have hskip : skipWs (ws ++ ',' :: (ws' ++ (t' ++ rest))) = ',' :: (ws' ++ (t' ++ rest)) :=
        skipWs_append hws (noWs_cons rfl)
      have hskip' : skipWs (ws' ++ (t' ++ rest)) = t' ++ rest :=
        skipWs_append hws' (hl.opens.append rest).noWs
      have hstrip : stripChar ']' (',' :: (ws' ++ (t' ++ rest))) = none :=
        stripChar_of_ne (by decide) _
      rw [htext]
      unfold JsonText.scanElements
      rw [h.value t v _ hv (delimits_append hws (by decide) _) hlengths.1]
      simp [hskip, hstrip, hskip', h.elements t' l rest hl hlengths.2]

theorem Complete.scanMembers {fuel : Nat} (h : Complete fl fuel) {t rest : Text}
    {d : List (PyStr × Value F)} (hd : IsMembers fl t d) (hfuel : t.length ≤ fuel + 1) :
    scanMembers fl (fuel + 1) (t ++ rest) = some (d, rest) := by
  cases hd with
  | @last t t' ws p hk hv hws =>
      have hlength : t'.length ≤ fuel := by
        simp only [List.length_append, List.length_singleton] at hfuel
        omega
      have htext : t ++ (t' ++ (ws ++ ['\x7d'])) ++ rest
          = t ++ (t' ++ (ws ++ '\x7d' :: rest)) := by simp
      have hskip : skipWs (ws ++ '\x7d' :: rest) = '\x7d' :: rest :=
        skipWs_append hws (noWs_cons rfl)
      have hdelim : Delimits (ws ++ '\x7d' :: rest) := delimits_append hws (by decide) rest
      rw [htext]
      unfold JsonText.scanMembers
      rw [scanKey_complete hk (hv.opens.append _).noWs]
      simp [h.value t' p.2 _ hv hdelim hlength, hskip]
  | @cons t t' ws ws' t'' p d hk hv hws hws' hd =>
      have hlengths : t'.length ≤ fuel ∧ t''.length ≤ fuel := by
        simp only [List.length_append, List.length_cons] at hfuel
        omega
      obtain ⟨u, hu⟩ := hd.head
      have htext : t ++ (t' ++ (ws ++ ',' :: (ws' ++ t''))) ++ rest
          = t ++ (t' ++ (ws ++ ',' :: (ws' ++ (t'' ++ rest)))) := by simp
      have hskip : skipWs (ws ++ ',' :: (ws' ++ (t'' ++ rest))) = ',' :: (ws' ++ (t'' ++ rest)) :=
        skipWs_append hws (noWs_cons rfl)
      have hskip' : skipWs (ws' ++ (t'' ++ rest)) = t'' ++ rest :=
        skipWs_append hws' (hu ▸ noWs_cons rfl)
      have hstrip : stripChar '\x7d' (',' :: (ws' ++ (t'' ++ rest))) = none :=
        stripChar_of_ne (by decide) _
      have hdelim : Delimits (ws ++ ',' :: (ws' ++ (t'' ++ rest))) :=
        delimits_append hws (by decide) _
      rw [htext]
      unfold JsonText.scanMembers
      rw [scanKey_complete hk (hv.opens.append _).noWs]
      simp [h.value t' p.2 _ hv hdelim hlengths.1, hskip, hstrip, hskip',
        h.members t'' d rest hd hlengths.2]

theorem complete (fuel : Nat) : Complete fl fuel := by
  induction fuel with
  | zero =>
      constructor
      · intro t v rest h _ hfuel
        obtain ⟨c, t', rfl, -⟩ := h.opens
        cases hfuel
      · intro t l rest h hfuel
        obtain ⟨c, t', rfl, -⟩ := h.opens
        cases hfuel
      · intro t d rest h hfuel
        obtain ⟨t', rfl⟩ := h.head
        cases hfuel
  | succ fuel ih =>
      constructor
      · intro t v rest h hrest hfuel
        exact ih.scanValue h hrest hfuel
      · intro t l rest h hfuel
        exact ih.scanElements h hfuel
      · intro t d rest h hfuel
        exact ih.scanMembers h hfuel

/-- **`json.loads` reads the documents of the grammar.** -/
theorem loads_eq_some {t : Text} {v : Value F} : loads fl t = some v ↔ IsText fl t v := by
  constructor
  · intro h
    unfold loads at h
    split at h
    · rename_i v' rest hscan
      split at h
      · rename_i hend
        cases h
        obtain ⟨u, hu, hvalue⟩ := (sound _).value _ _ _ hscan
        obtain ⟨ws, hws, ht⟩ := exists_skipWs t
        obtain ⟨ws', hws', hrest⟩ := exists_skipWs rest
        rw [hend, List.append_nil] at hrest
        refine ⟨ws, u, ws', hws, hvalue, hws', ?_⟩
        rw [← hrest, ← hu]
        exact ht
      · cases h
    · cases h
  · rintro ⟨ws, u, ws', hws, hvalue, hws', rfl⟩
    have hskip : skipWs (ws ++ (u ++ ws')) = u ++ ws' :=
      skipWs_append hws (hvalue.opens.append ws').noWs
    have hend : skipWs ws' = [] := by
      have h := skipWs_append hws' (show NoWs [] from fun c hc => by cases hc)
      rwa [List.append_nil] at h
    have hlength : u.length ≤ (ws ++ (u ++ ws')).length + 1 := by
      simp only [List.length_append]
      omega
    unfold loads
    rw [hskip, (complete _).value u v ws' hvalue (delimits_ws hws') hlength]
    exact if_pos hend

end Complete

end JsonText
