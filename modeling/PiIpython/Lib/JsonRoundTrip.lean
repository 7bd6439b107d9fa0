import PiIpython.Lib.JsonPrint

/-!
# Reading back printed JSON

`Printer.Reads` says that a printer and a dialect agree on strings and on
single numbers. Then they agree on all values (`parseValue_value`): the text of
a value is read as `Json.convert` of it, or as nothing when it has a number
that the dialect refuses. Reading goes on as before when more text follows
(`parseValue_extend`), so no proper prefix of the text of a value is read.
-/

namespace PiIpython.Json

open Text

variable {S N M : Type}

/-! ## Values of another dialect -/

mutual

/-- The value with its strings and numbers replaced, when every number has a replacement. -/
def convert {S' : Type} (f : S → S') (g : N → Option M) : Json S N → Option (Json S' M)
  | .null => some .null
  | .bool b => some (.bool b)
  | .num n => (g n).map .num
  | .str s => some (.str (f s))
  | .arr vs => (convertElems f g vs).map .arr
  | .obj fs => (convertFields f g fs).map .obj

def convertElems {S' : Type} (f : S → S') (g : N → Option M) :
    List (Json S N) → Option (List (Json S' M))
  | [] => some []
  | v :: vs => (convert f g v).bind fun w => (convertElems f g vs).map (w :: ·)

def convertFields {S' : Type} (f : S → S') (g : N → Option M) :
    List (S × Json S N) → Option (List (S' × Json S' M))
  | [] => some []
  | (k, v) :: fs => (convert f g v).bind fun w => (convertFields f g fs).map ((f k, w) :: ·)

end

mutual

/-- The value with its strings and numbers replaced. -/
def map {S' : Type} (f : S → S') (g : N → M) : Json S N → Json S' M
  | .null => .null
  | .bool b => .bool b
  | .num n => .num (g n)
  | .str s => .str (f s)
  | .arr vs => .arr (mapElems f g vs)
  | .obj fs => .obj (mapFields f g fs)

def mapElems {S' : Type} (f : S → S') (g : N → M) : List (Json S N) → List (Json S' M)
  | [] => []
  | v :: vs => map f g v :: mapElems f g vs

def mapFields {S' : Type} (f : S → S') (g : N → M) : List (S × Json S N) → List (S' × Json S' M)
  | [] => []
  | (k, v) :: fs => (f k, map f g v) :: mapFields f g fs

end

mutual

/-- Where every number has a replacement the conversion exists, also in two stages. -/
theorem convert_map {S' S'' : Type} (f : S → S') (f' : S' → S'') (g : N → M) : ∀ v : Json S N,
    (convert f (fun n => some (g n)) v).map (map f' id) = some (map (f' ∘ f) g v)
  | .null => rfl
  | .bool _ => rfl
  | .num _ => rfl
  | .str _ => rfl
  | .arr vs => by
    obtain ⟨ws, hw, h⟩ := Option.map_eq_some_iff.mp (convertElems_map f f' g vs)
    rw [convert, hw, map, ← h]
    rfl
  | .obj fs => by
    obtain ⟨ws, hw, h⟩ :=
      Option.map_eq_some_iff.mp (convertFields_map f f' g fs)
    rw [convert, hw, map, ← h]
    rfl

theorem convertElems_map {S' S'' : Type} (f : S → S') (f' : S' → S'') (g : N → M) :
    ∀ vs : List (Json S N), (convertElems f (fun n => some (g n)) vs).map (mapElems f' id) =
      some (mapElems (f' ∘ f) g vs)
  | [] => rfl
  | v :: vs => by
    obtain ⟨w, hw, h⟩ := Option.map_eq_some_iff.mp (convert_map f f' g v)
    obtain ⟨ws, hws, hs⟩ :=
      Option.map_eq_some_iff.mp (convertElems_map f f' g vs)
    rw [convertElems, hw, Option.bind_some, hws, mapElems, ← h, ← hs]
    rfl

theorem convertFields_map {S' S'' : Type} (f : S → S') (f' : S' → S'') (g : N → M) :
    ∀ fs : List (S × Json S N), (convertFields f (fun n => some (g n)) fs).map (mapFields f' id) =
      some (mapFields (f' ∘ f) g fs)
  | [] => rfl
  | (k, v) :: fs => by
    obtain ⟨w, hw, h⟩ := Option.map_eq_some_iff.mp (convert_map f f' g v)
    obtain ⟨ws, hws, hs⟩ :=
      Option.map_eq_some_iff.mp (convertFields_map f f' g fs)
    rw [convertFields, hw, Option.bind_some, hws, mapFields, ← h, ← hs]
    rfl

end

theorem mapElems_eq {S' : Type} (f : S → S') (g : N → M) (vs : List (Json S N)) :
    mapElems f g vs = vs.map (map f g) := by
  induction vs with
  | nil => rfl
  | cons v vs ih => rw [mapElems, ih, List.map_cons]

section Rel

variable {S' : Type} {f : S → S'} {g : N → Option M} {R : S → S' → Prop} {Q : N → M → Prop}

mutual

/-- The conversion exists and is related to the value exactly when every string and every number
is to its own. -/
theorem exists_convert_rel : ∀ v : Json S N,
    (∃ j, convert f g v = some j ∧ v.Rel R Q j) ↔
      v.All (fun s => R s (f s)) fun n => ∃ m, g n = some m ∧ Q n m
  | .null => ⟨fun _ => trivial, fun _ => ⟨.null, rfl, trivial⟩⟩
  | .bool b => ⟨fun _ => trivial, fun _ => ⟨.bool b, rfl, rfl⟩⟩
  | .num n => by
    constructor
    · rintro ⟨j, hj, hr⟩
      obtain ⟨m, hm, rfl⟩ := Option.map_eq_some_iff.mp hj
      exact ⟨m, hm, hr⟩
    · rintro ⟨m, hm, hq⟩
      exact ⟨.num m, Option.map_eq_some_iff.mpr ⟨m, hm, rfl⟩, hq⟩
  | .str s => ⟨by rintro ⟨j, ⟨⟩, hr⟩; exact hr, fun h => ⟨.str (f s), rfl, h⟩⟩
  | .arr vs => by
    rw [All, ← exists_convertElems_rel vs]
    constructor
    · rintro ⟨j, hj, hr⟩
      obtain ⟨ws, hw, rfl⟩ := Option.map_eq_some_iff.mp hj
      exact ⟨ws, hw, hr⟩
    · rintro ⟨ws, hw, hr⟩
      exact ⟨.arr ws, Option.map_eq_some_iff.mpr ⟨ws, hw, rfl⟩, hr⟩
  | .obj fs => by
    rw [All, ← exists_convertFields_rel fs]
    constructor
    · rintro ⟨j, hj, hr⟩
      obtain ⟨ws, hw, rfl⟩ := Option.map_eq_some_iff.mp hj
      exact ⟨ws, hw, hr⟩
    · rintro ⟨ws, hw, hr⟩
      exact ⟨.obj ws, Option.map_eq_some_iff.mpr ⟨ws, hw, rfl⟩, hr⟩

theorem exists_convertElems_rel : ∀ vs : List (Json S N),
    (∃ ws, convertElems f g vs = some ws ∧ RelElems R Q vs ws) ↔
      AllElems (fun s => R s (f s)) (fun n => ∃ m, g n = some m ∧ Q n m) vs
  | [] => ⟨fun _ => trivial, fun _ => ⟨[], rfl, trivial⟩⟩
  | v :: vs => by
    rw [AllElems, ← exists_convert_rel v, ← exists_convertElems_rel vs]
    constructor
    · rintro ⟨ws, hw, hr⟩
      obtain ⟨w, h1, hw⟩ := Option.bind_eq_some_iff.mp hw
      obtain ⟨ws, h2, rfl⟩ := Option.map_eq_some_iff.mp hw
      exact ⟨⟨w, h1, hr.1⟩, ws, h2, hr.2⟩
    · rintro ⟨⟨w, h1, hr⟩, ws, h2, hrs⟩
      exact ⟨w :: ws, by rw [convertElems, h1, Option.bind_some, h2]; rfl, hr, hrs⟩

theorem exists_convertFields_rel : ∀ fs : List (S × Json S N),
    (∃ ws, convertFields f g fs = some ws ∧ RelFields R Q fs ws) ↔
      AllFields (fun s => R s (f s)) (fun n => ∃ m, g n = some m ∧ Q n m) fs
  | [] => ⟨fun _ => trivial, fun _ => ⟨[], rfl, trivial⟩⟩
  | (k, v) :: fs => by
    rw [AllFields, ← exists_convert_rel v, ← exists_convertFields_rel fs]
    constructor
    · rintro ⟨ws, hw, hr⟩
      obtain ⟨w, h1, hw⟩ := Option.bind_eq_some_iff.mp hw
      obtain ⟨ws, h2, rfl⟩ := Option.map_eq_some_iff.mp hw
      exact ⟨hr.1, ⟨w, h1, hr.2.1⟩, ws, h2, hr.2.2⟩
    · rintro ⟨hk, ⟨w, h1, hr⟩, ws, h2, hrs⟩
      exact ⟨(f k, w) :: ws, by rw [convertFields, h1, Option.bind_some, h2]; rfl, hk, hr, hrs⟩

end

end Rel

/-! ## Numbers -/

/-- A literal is spelled character by character. -/
theorem renderLit_map {α : Type} (char : Char → α) (l : NumLit) :
    renderLit char l = (renderLit id l).map char := by
  rcases l with ⟨_ | _, i, _ | f, _ | ⟨_ | _, _ | _ | _, ds⟩⟩ <;> simp [renderLit]

theorem isSyntax_digitChar (d : Digit) : Printer.IsSyntax (digitChar d) := by
  revert d; decide

theorem isSyntax_renderLit (l : NumLit) : ∀ c ∈ renderLit id l, Printer.IsSyntax c := by
  have hd : ∀ ds : List Digit, ∀ c ∈ ds.map (id ∘ digitChar), Printer.IsSyntax c := by
    rintro ds c hc
    obtain ⟨d, -, rfl⟩ := List.mem_map.mp hc
    exact isSyntax_digitChar d
  have hs : ∀ {c : Char} {l : List Char}, Printer.IsSyntax c → (∀ d ∈ l, Printer.IsSyntax d) →
      ∀ d ∈ c :: l, Printer.IsSyntax d := fun hc hl => List.forall_mem_cons.mpr ⟨hc, hl⟩
  have hn : ∀ d ∈ ([] : List Char), Printer.IsSyntax d := fun d h => by cases h
  rw [renderLit]
  simp only [List.forall_mem_append]
  refine ⟨⟨⟨?_, hd _⟩, ?_⟩, ?_⟩
  · split
    · exact hs (by decide) hn
    · exact hn
  · split
    · exact hn
    · exact hs (by decide) (hd _)
  · split
    · exact hn
    · refine hs (by split <;> decide) (List.forall_mem_append.mpr ⟨?_, hd _⟩)
      split
      · exact hn
      · exact hs (by decide) hn
      · exact hs (by decide) hn

/-- No number goes on in front of the text. -/
def NumEnd : JsStr → Prop
  | [] => True
  | c :: _ => digit? c = none ∧ c ≠ unit '.' ∧ c ≠ unit 'e' ∧ c ≠ unit 'E'

/-- No digit in front of the text. -/
def NoDigit : JsStr → Prop
  | [] => True
  | c :: _ => digit? c = none

theorem NumEnd.noDigit {r : JsStr} (h : NumEnd r) : NoDigit r := by
  cases r with
  | nil => trivial
  | cons c cs => exact h.1

theorem numEnd_unit (c : Char) (r : JsStr)
    (h : digit? (unit c) = none ∧ unit c ≠ unit '.' ∧ unit c ≠ unit 'e' ∧ unit c ≠ unit 'E') :
    NumEnd (unit c :: r) := h

@[simp] theorem digit?_digitChar (d : Digit) : digit? (unit (digitChar d)) = some d := by
  revert d; decide

theorem digitChar_ne (d : Digit) :
    unit (digitChar d) ≠ unit '+' ∧ unit (digitChar d) ≠ unit '-' := by
  revert d; decide

theorem takeDigits_noDigit {r : JsStr} (h : NoDigit r) : takeDigits r = ([], r) := by
  cases r with
  | nil => rfl
  | cons c cs => rw [takeDigits, show digit? c = none from h]

theorem takeDigits_map (ds : List Digit) {r : JsStr} (h : NoDigit r) :
    takeDigits (ds.map (unit ∘ digitChar) ++ r) = (ds, r) := by
  induction ds with
  | nil => exact takeDigits_noDigit h
  | cons d ds ih =>
    rw [List.map_cons, List.cons_append, takeDigits]
    simp only [Function.comp_apply, digit?_digitChar, ih]

theorem digits1_map {ds : List Digit} {r : JsStr} (hd : ds ≠ []) (h : NoDigit r) :
    digits1 (ds.map (unit ∘ digitChar) ++ r) = some (ds, r) := by
  rw [digits1, takeDigits_map ds h, if_neg hd]

theorem intPart_map {ds : List Digit} {r : JsStr} (hd : ds ≠ [])
    (h0 : ∀ es, ds = 0 :: es → es = []) (h : NoDigit r) :
    intPart (ds.map (unit ∘ digitChar) ++ r) = some (ds, r) := by
  rcases ds with _ | ⟨d, ds⟩
  · exact absurd rfl hd
  rw [List.map_cons, List.cons_append, intPart]
  simp only [Function.comp_apply, digit?_digitChar]
  split
  · next h' =>
    subst h'
    rw [h0 ds rfl]; rfl
  · rw [takeDigits_map ds h]

/-- The text of a fraction. -/
def fracText : Option (List Digit) → JsStr
  | none => []
  | some ds => unit '.' :: ds.map (unit ∘ digitChar)

def expSignText : ExpSign → JsStr
  | .none => []
  | .plus => [unit '+']
  | .minus => [unit '-']

/-- The text of an exponent. -/
def expText : Option ExpLit → JsStr
  | none => []
  | some x => unit (if x.upper then 'E' else 'e') ::
      (expSignText x.sign ++ x.digits.map (unit ∘ digitChar))

theorem renderLit_eq (l : NumLit) : renderLit unit l =
    (if l.neg then [unit '-'] else []) ++ l.int.map (unit ∘ digitChar) ++ fracText l.frac ++
      expText l.exp := by
  rcases l with ⟨n, i, _ | f, _ | ⟨u, _ | _ | _, ds⟩⟩ <;> rfl

theorem noDigit_expText {x : Option ExpLit} {r : JsStr} (h : NumEnd r) :
    NoDigit (expText x ++ r) := by
  rcases x with _ | ⟨_ | _, sign, ds⟩
  · exact h.noDigit
  · exact (by decide : digit? (unit 'e') = none)
  · exact (by decide : digit? (unit 'E') = none)

theorem noDigit_fracText {f : Option (List Digit)} {x : Option ExpLit} {r : JsStr} (h : NumEnd r) :
    NoDigit (fracText f ++ (expText x ++ r)) := by
  rcases f with _ | ds
  · exact noDigit_expText h
  · exact (by decide : digit? (unit '.') = none)

theorem fracPart_text {f : Option (List Digit)} {x : Option ExpLit} {r : JsStr}
    (hf : f ≠ some []) (h : NumEnd r) :
    fracPart (fracText f ++ (expText x ++ r)) = some (f, expText x ++ r) := by
  rcases f with _ | ds
  · have : ∀ s, (∀ c cs, s = c :: cs → c ≠ unit '.') → fracPart s = some (none, s) := by
      rintro (_ | ⟨c, cs⟩) hs
      · rfl
      · rw [fracPart, if_neg (hs c cs rfl)]
    refine this _ fun c cs hc => ?_
    rcases x with _ | ⟨_ | _, sign, ds⟩
    · rcases r with _ | ⟨d, r⟩
      · cases hc
      · obtain ⟨rfl, -⟩ := List.cons.inj hc
        exact h.2.1
    · obtain ⟨rfl, -⟩ := List.cons.inj hc
      exact (by decide : unit 'e' ≠ unit '.')
    · obtain ⟨rfl, -⟩ := List.cons.inj hc
      exact (by decide : unit 'E' ≠ unit '.')
  · rw [fracText, List.cons_append, fracPart, if_pos rfl,
      digits1_map (by rintro rfl; exact hf rfl) (noDigit_expText h)]
    rfl

theorem expSign_text {sign : ExpSign} {ds : List Digit} {r : JsStr} (hd : ds ≠ []) :
    expSign (expSignText sign ++ (ds.map (unit ∘ digitChar) ++ r)) =
      (sign, ds.map (unit ∘ digitChar) ++ r) := by
  rcases ds with _ | ⟨d, ds⟩
  · exact absurd rfl hd
  have hp := digitChar_ne d
  cases sign with
  | none =>
    rw [expSignText, List.nil_append, List.map_cons, List.cons_append, expSign,
      Function.comp_apply, if_neg hp.1, if_neg hp.2]
  | plus => rfl
  | minus => rfl

theorem expPart_text {x : Option ExpLit} {r : JsStr} (hx : ∀ y, x = some y → y.digits ≠ [])
    (h : NumEnd r) : expPart (expText x ++ r) = some (x, r) := by
  rcases x with _ | ⟨upper, sign, ds⟩
  · rcases r with _ | ⟨c, r⟩
    · rfl
    · rw [expText, List.nil_append, expPart, if_neg (by rintro (h' | h'); exacts [h.2.2.1 h', h.2.2.2 h'])]
  · have hd : ds ≠ [] := hx _ rfl
    rw [expText, List.cons_append, expPart, List.append_assoc, expSign_text hd,
      digits1_map hd h.noDigit]
    cases upper <;> rfl

theorem minus_text {neg : Bool} {ds : List Digit} {r : JsStr} (hd : ds ≠ []) :
    minus ((if neg then [unit '-'] else []) ++ (ds.map (unit ∘ digitChar) ++ r)) =
      (neg, ds.map (unit ∘ digitChar) ++ r) := by
  rcases ds with _ | ⟨d, ds⟩
  · exact absurd rfl hd
  cases neg with
  | true => rfl
  | false =>
    rw [if_neg Bool.false_ne_true, List.nil_append, List.map_cons, List.cons_append, minus,
      Function.comp_apply, if_neg (digitChar_ne d).2]

/-- **A literal of the grammar is read back.** -/
theorem parseNumber_renderLit {l : NumLit} (hl : l.WF) {r : JsStr} (h : NumEnd r) :
    parseNumber (renderLit unit l ++ r) = some (l, r) := by
  rw [renderLit_eq]
  simp only [List.append_assoc]
  rw [parseNumber, minus_text hl.int_ne, intPart_map hl.int_ne hl.int_zero (noDigit_fracText h)]
  simp only [Option.bind_some]
  rw [fracPart_text hl.frac_ne h]
  simp only [Option.bind_some]
  rw [expPart_text hl.exp_ne h]
  rfl

/-! ## Strings -/

theorem parseChars_quote (cs : JsStr) : parseChars (unit '"' :: cs) = some ([], cs) := by
  rw [parseChars.eq_def]
  exact if_pos rfl

theorem parseChars_backslash : parseChars [unit '\\'] = none := rfl

theorem parseChars_u (a b c d : CodeUnit) (cs : JsStr) :
    parseChars (unit '\\' :: unit 'u' :: a :: b :: c :: d :: cs) =
      (hex4 a b c d).bind fun u => (parseChars cs).map fun p => (u :: p.1, p.2) := by
  rw [parseChars, if_neg (by decide), if_pos rfl]
  rfl

theorem parseChars_escape {e : CodeUnit} {cs : JsStr} (he : e ≠ unit 'u') :
    parseChars (unit '\\' :: e :: cs) =
      (unescape e).bind fun u => (parseChars cs).map fun p => (u :: p.1, p.2) := by
  rw [parseChars.eq_def]
  exact (if_neg (by decide)).trans ((if_pos rfl).trans (if_neg he))

theorem parseChars_plain {c : CodeUnit} {cs : JsStr} (h1 : c ≠ unit '"') (h2 : c ≠ unit '\\')
    (h3 : ¬ c.toNat < 32) :
    parseChars (c :: cs) = (parseChars cs).map fun p => (c :: p.1, p.2) := by
  rw [parseChars.eq_def]
  exact (if_neg h1).trans ((if_neg h2).trans (if_neg h3))

/-! ## Words -/

theorem scalar_true (D : Dialect M) (r : JsStr) :
    scalar D (js "true" ++ r) = some (.bool true, r) := rfl

theorem scalar_false (D : Dialect M) (r : JsStr) :
    scalar D (js "false" ++ r) = some (.bool false, r) := rfl

theorem scalar_null (D : Dialect M) (r : JsStr) :
    scalar D (js "null" ++ r) = some (.null, r) := rfl

/-- Only one word starts with the first code unit. -/
theorem word_none {t s : JsStr} (ht : t ≠ []) (h : s.head? ≠ t.head?) : word t s = none := by
  rw [word, if_neg]
  rintro ⟨r, rfl⟩
  cases t with
  | nil => exact ht rfl
  | cons c cs => exact h rfl

theorem word_head {t s r : JsStr} (ht : t ≠ []) (h : word t s = some r) : s.head? = t.head? := by
  by_contra hne
  rw [word_none ht hne] at h
  cases h

/-- A number starts with a digit or a minus sign. -/
theorem parseNumber_head {s : JsStr} {p : NumLit × JsStr} (h : parseNumber s = some p) :
    ∃ c cs, s = c :: cs ∧ (c = unit '-' ∨ (digit? c).isSome) := by
  cases s with
  | nil => cases h
  | cons c cs =>
    refine ⟨c, cs, rfl, ?_⟩
    by_cases hm : c = unit '-'
    · exact .inl hm
    · rw [parseNumber, minus, if_neg hm] at h
      cases hd : digit? c with
      | some d => exact .inr rfl
      | none => simp only [intPart, hd, Option.bind_none] at h; cases h

theorem word_none_of_number {t s : JsStr} {p : NumLit × JsStr} (h : parseNumber s = some p)
    {c : CodeUnit} {cs : JsStr} (ht : t = c :: cs) (hc : c ≠ unit '-' ∧ digit? c = none) :
    word t s = none := by
  obtain ⟨d, ds, rfl, hd⟩ := parseNumber_head h
  subst ht
  refine word_none (by simp) fun he => ?_
  obtain rfl : d = c := Option.some.inj he
  rcases hd with hd | hd
  · exact hc.1 hd
  · rw [hc.2] at hd; cases hd

/-- A literal is read as its number. -/
theorem scalar_renderLit (D : Dialect M) {l : NumLit} (hl : l.WF) {r : JsStr} (h : NumEnd r) :
    scalar D (renderLit unit l ++ r) = (D.number l).map fun m => (.num m, r) := by
  have hx := parseNumber_renderLit hl h
  rw [scalar, word_none_of_number hx (t := js "true") rfl (by decide),
    word_none_of_number hx (t := js "false") rfl (by decide),
    word_none_of_number hx (t := js "null") rfl (by decide), hx]

/-! ## Printers that are read -/

/-- The printer and the dialect agree on the inside of a string and on a single number, which
starts with neither white space nor a bracket nor a quote. -/
structure Printer.Reads (P : Printer CodeUnit S N) (D : Dialect M) (f : S → JsStr)
    (g : N → Option M) : Prop where
  char : P.char = unit
  str : ∀ s r, parseChars (P.str s ++ unit '"' :: r) = some (f s, r)
  num : ∀ n r, NumEnd r → scalar D (P.num n ++ r) = (g n).map fun m => (.num m, r)
  head : ∀ n, ∃ c cs, P.num n = c :: cs ∧ c ≠ unit '"' ∧ c ≠ unit '[' ∧ c ≠ unit '{' ∧
    c ≠ unit ']' ∧ isWs c = false

section Reads

variable {P : Printer CodeUnit S N} {D : Dialect M} {f : S → JsStr} {g : N → Option M}

theorem skipWs_of {c : CodeUnit} {cs : JsStr} (h : isWs c = false) : skipWs (c :: cs) = c :: cs := by
  rw [skipWs, List.dropWhile_cons, if_neg (by rw [h]; exact Bool.false_ne_true)]

theorem Printer.Reads.value_head (h : P.Reads D f g) (v : Json S N) :
    ∃ c cs, P.value v = c :: cs ∧ c ≠ unit ']' ∧ isWs c = false := by
  have hu : ∀ {c : Char} {cs : JsStr} {t : JsStr}, t = P.char c :: cs →
      unit c ≠ unit ']' → isWs (unit c) = false → ∃ c cs, t = c :: cs ∧ c ≠ unit ']' ∧ isWs c = false :=
    fun ht h1 h2 => ⟨_, _, ht, by rw [h.char]; exact h1, by rw [h.char]; exact h2⟩
  cases v with
  | null => exact hu rfl (by decide) (by decide)
  | bool b => cases b <;> exact hu rfl (by decide) (by decide)
  | num n =>
    obtain ⟨c, cs, hn, -, -, -, hb, hw⟩ := h.head n
    exact ⟨c, cs, hn, hb, hw⟩
  | str s => exact hu rfl (by decide) (by decide)
  | arr vs => cases vs <;> exact hu rfl (by decide) (by decide)
  | obj fs => rcases fs with _ | ⟨⟨k, v⟩, fs⟩ <;> exact hu rfl (by decide) (by decide)

/-- The tail of an array or object ends a number. -/
theorem Printer.Reads.numEnd_elems (h : P.Reads D f g) (vs : List (Json S N)) (r : JsStr) :
    NumEnd (P.elems vs ++ r) := by
  cases vs with
  | nil => rw [Printer.elems, h.char]; exact numEnd_unit ']' _ (by decide)
  | cons v vs => rw [Printer.elems, h.char]; exact numEnd_unit ',' _ (by decide)

theorem Printer.Reads.numEnd_fields (h : P.Reads D f g) (fs : List (S × Json S N)) (r : JsStr) :
    NumEnd (P.fields fs ++ r) := by
  rcases fs with _ | ⟨⟨k, v⟩, fs⟩
  · rw [Printer.fields, h.char]; exact numEnd_unit '}' _ (by decide)
  · rw [Printer.fields, h.char]; exact numEnd_unit ',' _ (by decide)

theorem Printer.Reads.skipWs_value (h : P.Reads D f g) (v : Json S N) (r : JsStr) :
    skipWs (P.value v ++ r) = P.value v ++ r := by
  obtain ⟨c, cs, hv, -, hw⟩ := h.value_head v
  rw [hv, List.cons_append, skipWs_of hw]

theorem Printer.Reads.expect_value (h : P.Reads D f g) (v : Json S N) (r : JsStr) :
    expect ']' (P.value v ++ r) = none := by
  obtain ⟨c, cs, hv, hb, -⟩ := h.value_head v
  rw [hv, List.cons_append, expect, if_neg hb]

theorem skipWs_unit {c : Char} {cs : JsStr} (h : isWs (unit c) = false) :
    skipWs (unit c :: cs) = unit c :: cs := skipWs_of h

theorem expect_self (c : Char) (cs : JsStr) : expect c (unit c :: cs) = some cs := by
  rw [expect, if_pos rfl]

theorem expect_ne {c d : Char} (cs : JsStr) (h : unit d ≠ unit c) :
    expect c (unit d :: cs) = none := by
  rw [expect, if_neg h]

/-- What `parseValue` does on the first code unit of each kind of text. -/
theorem parseValue_str (n : Nat) (cs : JsStr) :
    parseValue D (n + 1) (unit '"' :: cs) = (parseChars cs).map fun p => (.str p.1, p.2) := by
  rw [parseValue, if_pos rfl]

theorem parseValue_arr (n : Nat) (cs : JsStr) :
    parseValue D (n + 1) (unit '[' :: cs) =
      ((expect ']' (skipWs cs)).map fun r => (.arr [], r)).or
        ((parseElems D n (skipWs cs)).map fun p => (.arr p.1, p.2)) := by
  rw [parseValue, if_neg (by decide), if_pos rfl]

theorem parseValue_obj (n : Nat) (cs : JsStr) :
    parseValue D (n + 1) (unit '{' :: cs) =
      ((expect '}' (skipWs cs)).map fun r => (.obj [], r)).or
        ((parseFields D n (skipWs cs)).map fun p => (.obj p.1, p.2)) := by
  rw [parseValue, if_neg (by decide), if_neg (by decide), if_pos rfl]

theorem parseValue_scalar (n : Nat) {c : CodeUnit} (cs : JsStr) (h1 : c ≠ unit '"')
    (h2 : c ≠ unit '[') (h3 : c ≠ unit '{') :
    parseValue D (n + 1) (c :: cs) = scalar D (c :: cs) := by
  rw [parseValue, if_neg h1, if_neg h2, if_neg h3]

mutual

/-- **The text of a value is read as its conversion**, or refused with it. -/
theorem Printer.Reads.parseValue_value (h : P.Reads D f g) :
    ∀ (v : Json S N) (n : Nat) (r : JsStr), (P.value v).length ≤ n → NumEnd r →
      parseValue D n (P.value v ++ r) = (convert f g v).map (·, r)
  | v, 0, r, hn, _ => by
    obtain ⟨c, cs, hv, -⟩ := h.value_head v
    rw [hv] at hn
    exact absurd hn (by simp)
  | .null, n + 1, r, _, _ => by
    rw [Printer.value, Printer.lit, h.char]
    exact (parseValue_scalar n _ (by decide) (by decide) (by decide)).trans (scalar_null D r)
  | .bool true, n + 1, r, _, _ => by
    rw [Printer.value, Printer.lit, h.char]
    exact (parseValue_scalar n _ (by decide) (by decide) (by decide)).trans (scalar_true D r)
  | .bool false, n + 1, r, _, _ => by
    rw [Printer.value, Printer.lit, h.char]
    exact (parseValue_scalar n _ (by decide) (by decide) (by decide)).trans (scalar_false D r)
  | .num m, n + 1, r, _, hr => by
    obtain ⟨c, cs, hv, h1, h2, h3, -⟩ := h.head m
    have hnum := h.num m r hr
    rw [Printer.value, hv, List.cons_append] at *
    rw [parseValue_scalar n _ h1 h2 h3, hnum, convert]
    cases g m <;> rfl
  | .str s, n + 1, r, _, _ => by
    rw [Printer.value, Printer.quoted, h.char, List.cons_append, parseValue_str, List.append_assoc,
      List.singleton_append, h.str]
    rfl
  | .arr [], n + 1, r, _, _ => by
    rw [Printer.value, Printer.lit, h.char]
    exact (parseValue_arr n _).trans rfl
  | .arr (v :: vs), n + 1, r, hn, hr => by
    rw [Printer.value, List.length_cons, List.length_append] at hn
    rw [Printer.value, h.char, List.cons_append, parseValue_arr, List.append_assoc,
      h.skipWs_value, h.expect_value,
      h.parseElems_elems vs v (fun m r' => h.parseValue_value v m r') n r (by omega), convert,
      convertElems]
    cases convert f g v with
    | none => rfl
    | some w => cases convertElems f g vs <;> rfl
  | .obj [], n + 1, r, _, _ => by
    rw [Printer.value, Printer.lit, h.char]
    exact (parseValue_obj n _).trans rfl
  | .obj ((k, v) :: fs), n + 1, r, hn, hr => by
    rw [Printer.value, List.length_cons, List.length_append, List.length_cons,
      List.length_append] at hn
    have hq : P.quoted k ++ P.char ':' :: (P.value v ++ P.fields fs) ++ r =
        unit '"' :: (P.str k ++ unit '"' :: unit ':' :: (P.value v ++ (P.fields fs ++ r))) := by
      simp [Printer.quoted, h.char]
    rw [Printer.value, h.char, List.cons_append, parseValue_obj, ← h.char, hq,
      skipWs_unit (by decide), expect_ne _ (by decide),
      h.parseFields_fields fs k v (fun m r' => h.parseValue_value v m r') n r (by omega), convert,
      convertFields]
    cases convert f g v with
    | none => rfl
    | some w => cases convertFields f g fs <;> rfl

theorem Printer.Reads.parseElems_elems (h : P.Reads D f g) :
    ∀ (vs : List (Json S N)) (v : Json S N)
      (_ : ∀ (n : Nat) (r : JsStr), (P.value v).length ≤ n → NumEnd r →
        parseValue D n (P.value v ++ r) = (convert f g v).map (·, r)) (n : Nat) (r : JsStr),
      (P.value v).length + (P.elems vs).length ≤ n →
      parseElems D n (P.value v ++ (P.elems vs ++ r)) =
        ((convert f g v).bind fun w => (convertElems f g vs).map (w :: ·)).map (·, r)
  | vs, v, hv, 0, r, hn => by
    obtain ⟨c, cs, he, -⟩ := h.value_head v
    rw [he] at hn
    exact absurd hn (by simp)
  | [], v, hv, n + 1, r, hn => by
    have hl : (P.elems []).length = 1 := rfl
    rw [parseElems, hv n _ (by omega) (h.numEnd_elems [] r)]
    cases convert f g v with
    | none => rfl
    | some w =>
      rw [Option.map_some, Option.bind_some, Printer.elems, h.char, List.singleton_append,
        skipWs_unit (by decide), expect_self]
      rfl
  | w :: vs, v, hv, n + 1, r, hn => by
    rw [Printer.elems, List.length_cons, List.length_append] at hn
    rw [parseElems, hv n _ (by omega) (h.numEnd_elems (w :: vs) r), convertElems]
    cases convert f g v with
    | none => rfl
    | some v' =>
      rw [Option.map_some, Option.bind_some, Printer.elems, h.char, List.cons_append,
        skipWs_unit (by decide), expect_ne _ (by decide), expect_self, Option.map_none,
        Option.none_or, Option.bind_some, List.append_assoc, h.skipWs_value,
        h.parseElems_elems vs w (fun m r' => h.parseValue_value w m r') n r (by omega)]
      cases convert f g w with
      | none => rfl
      | some w' => cases convertElems f g vs <;> rfl

theorem Printer.Reads.parseFields_fields (h : P.Reads D f g) :
    ∀ (fs : List (S × Json S N)) (k : S) (v : Json S N)
      (_ : ∀ (n : Nat) (r : JsStr), (P.value v).length ≤ n → NumEnd r →
        parseValue D n (P.value v ++ r) = (convert f g v).map (·, r)) (n : Nat) (r : JsStr),
      (P.value v).length + (P.fields fs).length ≤ n →
      parseFields D n (unit '"' :: (P.str k ++ unit '"' :: unit ':' ::
          (P.value v ++ (P.fields fs ++ r)))) =
        ((convert f g v).bind fun w => (convertFields f g fs).map ((f k, w) :: ·)).map (·, r)
  | fs, k, v, hv, 0, r, hn => by
    obtain ⟨c, cs, he, -⟩ := h.value_head v
    rw [he] at hn
    exact absurd hn (by simp)
  | [], k, v, hv, n + 1, r, hn => by
    have hl : (P.fields []).length = 1 := rfl
    rw [parseFields, expect_self, Option.bind_some, h.str, Option.bind_some,
      skipWs_unit (by decide), expect_self, Option.bind_some, h.skipWs_value,
      hv n _ (by omega) (h.numEnd_fields [] r)]
    cases convert f g v with
    | none => rfl
    | some w =>
      rw [Option.map_some, Option.bind_some, Printer.fields, h.char, List.singleton_append,
        skipWs_unit (by decide), expect_self]
      rfl
  | (l, w) :: fs, k, v, hv, n + 1, r, hn => by
    rw [Printer.fields, List.length_cons, List.length_append, List.length_cons,
      List.length_append] at hn
    have hq : P.quoted l ++ P.char ':' :: (P.value w ++ P.fields fs) ++ r =
        unit '"' :: (P.str l ++ unit '"' :: unit ':' :: (P.value w ++ (P.fields fs ++ r))) := by
      simp [Printer.quoted, h.char]
    rw [parseFields, expect_self, Option.bind_some, h.str, Option.bind_some,
      skipWs_unit (by decide), expect_self, Option.bind_some, h.skipWs_value,
      hv n _ (by omega) (h.numEnd_fields ((l, w) :: fs) r), convertFields]
    cases convert f g v with
    | none => rfl
    | some v' =>
      rw [Option.map_some, Option.bind_some, Printer.fields, h.char, List.cons_append,
        skipWs_unit (by decide), expect_ne _ (by decide), expect_self, Option.map_none,
        Option.none_or, Option.bind_some, ← h.char, hq, skipWs_unit (by decide),
        h.parseFields_fields fs l w (fun m r' => h.parseValue_value w m r') n r (by omega)]
      cases convert f g w with
      | none => rfl
      | some w' => cases convertFields f g fs <;> rfl

end

/-- **A printed value is parsed** as its conversion. -/
theorem Printer.Reads.parse_value (h : P.Reads D f g) (v : Json S N) :
    parse D (P.value v) = convert f g v := by
  have hs := h.skipWs_value v []
  have hp := h.parseValue_value v ((P.value v).length + 1) [] (by omega) trivial
  rw [List.append_nil] at hs hp
  rw [parse, hs, hp]
  cases convert f g v with
  | none => rfl
  | some w => rfl

end Reads

/-! ## More text behind -/

section Extend

theorem word_extend {t s r : JsStr} (q : JsStr) (h : word t s = some r) :
    word t (s ++ q) = some (r ++ q) := by
  rw [word] at h ⊢
  split at h
  · next hp =>
    rw [if_pos (hp.trans (List.prefix_append s q)), List.drop_append_of_le_length hp.length_le]
    cases h
    rfl
  · cases h

theorem expect_extend {c : Char} {s r : JsStr} (q : JsStr) (h : expect c s = some r) :
    expect c (s ++ q) = some (r ++ q) := by
  cases s with
  | nil => cases h
  | cons d cs =>
    rw [expect] at h
    rw [List.cons_append, expect]
    split at h
    · next hd => cases h; rw [if_pos hd]
    · cases h

theorem skipWs_extend {s : JsStr} (q : JsStr) (h : skipWs s ≠ []) :
    skipWs (s ++ q) = skipWs s ++ q := by
  induction s with
  | nil => exact absurd rfl h
  | cons c cs ih =>
    by_cases hw : isWs c = true
    · have hc : ∀ t, skipWs (c :: t) = skipWs t := fun t => by
        rw [skipWs, List.dropWhile_cons, if_pos hw]; rfl
      rw [hc] at h ⊢
      rw [List.cons_append, hc, ih h]
    · have hc : ∀ t, skipWs (c :: t) = c :: t := fun t => skipWs_of (by simpa using hw)
      rw [hc, List.cons_append, hc]

theorem skipWs_ne_of_expect {c : Char} {s r : JsStr} (h : expect c (skipWs s) = some r) :
    skipWs s ≠ [] := by
  rintro h'
  rw [h'] at h
  cases h

theorem expect_skipWs_extend {c : Char} {s r : JsStr} (q : JsStr)
    (h : expect c (skipWs s) = some r) : expect c (skipWs (s ++ q)) = some (r ++ q) := by
  rw [skipWs_extend q (skipWs_ne_of_expect h)]
  exact expect_extend q h

/-- A character that is not there is not there with more text behind, unless there was no text. -/
theorem expect_skipWs_none {c : Char} {s : JsStr} (q : JsStr) (hs : skipWs s ≠ [])
    (h : expect c (skipWs s) = none) : expect c (skipWs (s ++ q)) = none := by
  rw [skipWs_extend q hs]
  cases hc : skipWs s with
  | nil => exact absurd hc hs
  | cons d cs =>
    rw [hc, expect] at h
    rw [List.cons_append, expect]
    split at h
    · cases h
    · next hd => rw [if_neg hd]

theorem takeDigits_extend {s : JsStr} (q : JsStr) (h : (takeDigits s).2 ≠ []) :
    takeDigits (s ++ q) = ((takeDigits s).1, (takeDigits s).2 ++ q) := by
  induction s with
  | nil => exact absurd rfl h
  | cons c cs ih =>
    rw [List.cons_append, takeDigits, takeDigits]
    cases hd : digit? c with
    | none => rfl
    | some d =>
      rw [takeDigits, hd] at h
      simp only [ih h]

theorem intPart_extend {s r : JsStr} {ds : List Digit} (q : JsStr) (h : intPart s = some (ds, r))
    (hr : r ≠ []) : intPart (s ++ q) = some (ds, r ++ q) := by
  cases s with
  | nil => cases h
  | cons c cs =>
    rw [intPart] at h
    rw [List.cons_append, intPart]
    cases hd : digit? c with
    | none => rw [hd] at h; cases h
    | some d =>
      rw [hd] at h
      simp only [Option.some.injEq] at h ⊢
      split at h
      · next h0 => cases h; rw [if_pos h0]
      · next h0 =>
        cases h
        rw [if_neg h0, takeDigits_extend q hr]

theorem digits1_extend {s r : JsStr} {ds : List Digit} (q : JsStr) (h : digits1 s = some (ds, r))
    (hr : r ≠ []) : digits1 (s ++ q) = some (ds, r ++ q) := by
  rw [digits1] at h
  split at h
  · cases h
  · next hd =>
    have hp := Option.some.inj h
    rw [digits1, takeDigits_extend q (by rw [hp]; exact hr), if_neg hd, hp]

theorem fracPart_extend {s r : JsStr} {x : Option (List Digit)} (q : JsStr)
    (h : fracPart s = some (x, r)) (hr : r ≠ []) : fracPart (s ++ q) = some (x, r ++ q) := by
  cases s with
  | nil => cases h; exact absurd rfl hr
  | cons c cs =>
    rw [fracPart] at h
    rw [List.cons_append, fracPart]
    split at h
    · next hc =>
      obtain ⟨⟨ds, r'⟩, hd, hp⟩ := Option.map_eq_some_iff.mp h
      cases hp
      rw [if_pos hc, digits1_extend q hd hr]; rfl
    · next hc => cases h; rw [if_neg hc]; rfl

theorem expSign_extend {s : JsStr} (q : JsStr) (hs : s ≠ []) :
    expSign (s ++ q) = ((expSign s).1, (expSign s).2 ++ q) := by
  cases s with
  | nil => exact absurd rfl hs
  | cons c cs =>
    rw [List.cons_append, expSign, expSign]
    split
    · rfl
    · split <;> rfl

theorem expPart_extend {s r : JsStr} {x : Option ExpLit} (q : JsStr)
    (h : expPart s = some (x, r)) (hr : r ≠ []) : expPart (s ++ q) = some (x, r ++ q) := by
  cases s with
  | nil => cases h; exact absurd rfl hr
  | cons c cs =>
    rw [expPart] at h
    rw [List.cons_append, expPart]
    split at h
    · next hc =>
      obtain ⟨⟨ds, r'⟩, hd, hp⟩ := Option.map_eq_some_iff.mp h
      cases hp
      have hcs : cs ≠ [] := by rintro rfl; cases hd
      rw [if_pos hc, expSign_extend q hcs, digits1_extend q hd hr]; rfl
    · next hc => cases h; rw [if_neg hc]; rfl

theorem minus_extend {s : JsStr} (q : JsStr) (hs : s ≠ []) :
    minus (s ++ q) = ((minus s).1, (minus s).2 ++ q) := by
  cases s with
  | nil => exact absurd rfl hs
  | cons c cs =>
    rw [List.cons_append, minus, minus]
    split <;> rfl

theorem parseNumber_extend {s r : JsStr} {l : NumLit} (q : JsStr)
    (h : parseNumber s = some (l, r)) (hr : r ≠ []) : parseNumber (s ++ q) = some (l, r ++ q) := by
  rw [parseNumber] at h
  obtain ⟨⟨i, r1⟩, hi, h⟩ := Option.bind_eq_some_iff.mp h
  obtain ⟨⟨fr, r2⟩, hf, h⟩ := Option.bind_eq_some_iff.mp h
  obtain ⟨⟨x, r3⟩, hx, h⟩ := Option.map_eq_some_iff.mp h
  cases h
  have h2 : r2 ≠ [] := by rintro rfl; cases hx; exact hr rfl
  have h1 : r1 ≠ [] := by rintro rfl; cases hf; exact h2 rfl
  have h0 : s ≠ [] := by rintro rfl; cases hi
  rw [parseNumber, minus_extend q h0, intPart_extend q hi h1, Option.bind_some,
    fracPart_extend q hf h2, Option.bind_some, expPart_extend q hx hr]
  rfl

theorem scalar_extend {D : Dialect M} (hD : D.constants = []) {s r : JsStr} {v : Json JsStr M}
    (q : JsStr) (h : scalar D s = some (v, r)) (hr : r ≠ []) :
    scalar D (s ++ q) = some (v, r ++ q) := by
  -- a word found in front rules out the words before it, with more text behind too
  have hw : ∀ {t t' r' : JsStr}, t ≠ [] → t' ≠ [] → t'.head? ≠ t.head? → word t s = some r' →
      word t' (s ++ q) = none := fun ht ht' hne hs =>
    word_none ht' (by rw [word_head ht (word_extend q hs)]; exact hne.symm)
  rw [scalar] at h ⊢
  cases h1 : word (js "true") s with
  | some r1 =>
    rw [h1] at h; cases h
    rw [word_extend q h1]
  | none =>
  cases h2 : word (js "false") s with
  | some r2 =>
    rw [h1, h2] at h; cases h
    rw [word_extend q h2, hw (by decide) (by decide) (by decide) h2]
  | none =>
  cases h3 : word (js "null") s with
  | some r3 =>
    rw [h1, h2, h3] at h; cases h
    rw [word_extend q h3, hw (by decide) (by decide) (by decide) h3,
      hw (by decide) (by decide) (by decide) h3]
  | none =>
  cases h4 : parseNumber s with
  | none =>
    rw [h1, h2, h3, h4] at h
    simp only [hD] at h
    cases h
  | some p =>
    obtain ⟨l, r4⟩ := p
    rw [h1, h2, h3, h4] at h
    obtain ⟨m, hm, hp⟩ := Option.map_eq_some_iff.mp h
    cases hp
    have hx := parseNumber_extend q h4 hr
    rw [word_none_of_number hx (t := js "true") rfl (by decide),
      word_none_of_number hx (t := js "false") rfl (by decide),
      word_none_of_number hx (t := js "null") rfl (by decide), hx]
    simp only [hm, Option.map_some]

theorem parseChars_extend {s : JsStr} (q : JsStr) :
    ∀ {t r : JsStr}, parseChars s = some (t, r) → parseChars (s ++ q) = some (t, r ++ q) := by
  induction s using parseChars.induct with
  | case1 => intro t r h; cases h
  | case2 cs =>
    intro t r h
    rw [parseChars_quote] at h
    cases h
    exact parseChars_quote _
  | case3 => intro t r h; rw [parseChars_backslash] at h; cases h
  | case4 a b c d cs _ ih =>
    intro t r h
    rw [parseChars_u] at h
    obtain ⟨u, hu, h⟩ := Option.bind_eq_some_iff.mp h
    obtain ⟨⟨t', r'⟩, hp, h⟩ := Option.map_eq_some_iff.mp h
    cases h
    simp only [List.cons_append]
    rw [parseChars_u, hu, Option.bind_some, ih hp]
    rfl
  | case5 cs hcs _ =>
    intro t r h
    rw [parseChars, if_neg (by decide), if_pos rfl] at h
    · cases h
    · exact hcs
  | case6 e cs he _ ih =>
    intro t r h
    rw [parseChars_escape he] at h
    obtain ⟨u, hu, h⟩ := Option.bind_eq_some_iff.mp h
    obtain ⟨⟨t', r'⟩, hp, h⟩ := Option.map_eq_some_iff.mp h
    cases h
    simp only [List.cons_append]
    rw [parseChars_escape he, hu, Option.bind_some, ih hp]
    rfl
  | case7 c cs h1 h2 h3 =>
    intro t r h
    rw [parseChars.eq_def] at h
    simp only [if_neg h1, if_neg h2, if_pos h3] at h
    cases h
  | case8 c cs h1 h2 h3 ih =>
    intro t r h
    rw [parseChars_plain h1 h2 h3] at h
    obtain ⟨⟨t', r'⟩, hp, h⟩ := Option.map_eq_some_iff.mp h
    cases h
    rw [List.cons_append, parseChars_plain h1 h2 h3, ih hp]
    rfl

variable (D : Dialect M) (q : JsStr)

/-- Reading a value goes on as before when `q` follows, and with more fuel. Only a number at the
end of the text can take some of it in. -/
def ExtendsValue (n : Nat) : Prop :=
  ∀ {m : Nat} {s r : JsStr} {v : Json JsStr M}, n ≤ m → parseValue D n s = some (v, r) →
    r ≠ [] ∨ s.head? = some (unit '{') → parseValue D m (s ++ q) = some (v, r ++ q)

def ExtendsElems (n : Nat) : Prop :=
  ∀ {m : Nat} {s r : JsStr} {vs : List (Json JsStr M)}, n ≤ m →
    parseElems D n s = some (vs, r) → parseElems D m (s ++ q) = some (vs, r ++ q)

def ExtendsFields (n : Nat) : Prop :=
  ∀ {m : Nat} {s r : JsStr} {fs : List (JsStr × Json JsStr M)}, n ≤ m →
    parseFields D n s = some (fs, r) → parseFields D m (s ++ q) = some (fs, r ++ q)

variable {D q}

theorem parseValue_nil (n : Nat) : parseValue D n [] = none := by
  cases n <;> rfl

theorem parseElems_nil (n : Nat) : parseElems D n [] = none := by
  cases n with
  | zero => rfl
  | succ n => rw [parseElems, parseValue_nil]; rfl

theorem parseFields_nil (n : Nat) : parseFields D n [] = none := by
  cases n <;> rfl

theorem extendsElems_succ {n : Nat} (hv : ExtendsValue D q n) (he : ExtendsElems D q n) :
    ExtendsElems D q (n + 1) := by
  intro m s r vs hnm h
  obtain ⟨m, rfl⟩ : ∃ k, m = k + 1 := ⟨m - 1, by omega⟩
  rw [parseElems] at h
  obtain ⟨⟨v, r1⟩, h1, h⟩ := Option.bind_eq_some_iff.mp h
  have hr1 : r1 ≠ [] := by
    rintro rfl
    cases h
  rw [parseElems, hv (by omega) h1 (.inl hr1), Option.bind_some]
  simp only at h ⊢
  cases hb : expect ']' (skipWs r1) with
  | some r2 =>
    rw [hb] at h
    cases h
    rw [expect_skipWs_extend q hb]
    rfl
  | none =>
    rw [hb, Option.map_none, Option.none_or] at h
    obtain ⟨r2, h2, h⟩ := Option.bind_eq_some_iff.mp h
    obtain ⟨⟨ws, r3⟩, h3, h⟩ := Option.map_eq_some_iff.mp h
    cases h
    have hr2 : skipWs r2 ≠ [] := by
      intro h0
      rw [h0, parseElems_nil] at h3
      cases h3
    rw [expect_skipWs_none q (skipWs_ne_of_expect h2) hb, Option.map_none, Option.none_or,
      expect_skipWs_extend q h2, Option.bind_some, skipWs_extend q hr2, he (by omega) h3]
    rfl

theorem extendsFields_succ {n : Nat} (hv : ExtendsValue D q n) (hf : ExtendsFields D q n) :
    ExtendsFields D q (n + 1) := by
  intro m s r fs hnm h
  obtain ⟨m, rfl⟩ : ∃ k, m = k + 1 := ⟨m - 1, by omega⟩
  rw [parseFields] at h
  obtain ⟨r0, h0, h⟩ := Option.bind_eq_some_iff.mp h
  obtain ⟨⟨k, r1⟩, h1, h⟩ := Option.bind_eq_some_iff.mp h
  obtain ⟨r2, h2, h⟩ := Option.bind_eq_some_iff.mp h
  obtain ⟨⟨v, r3⟩, h3, h⟩ := Option.bind_eq_some_iff.mp h
  have hr2 : skipWs r2 ≠ [] := by
    intro he
    rw [he, parseValue_nil] at h3
    cases h3
  have hr3 : r3 ≠ [] := by
    rintro rfl
    cases h
  rw [parseFields, expect_extend q h0, Option.bind_some, parseChars_extend q h1, Option.bind_some,
    expect_skipWs_extend q h2, Option.bind_some, skipWs_extend q hr2,
    hv (by omega) h3 (.inl hr3), Option.bind_some]
  simp only at h ⊢
  cases hb : expect '}' (skipWs r3) with
  | some r4 =>
    rw [hb] at h
    cases h
    rw [expect_skipWs_extend q hb]
    rfl
  | none =>
    rw [hb, Option.map_none, Option.none_or] at h
    obtain ⟨r4, h4, h⟩ := Option.bind_eq_some_iff.mp h
    obtain ⟨⟨ws, r5⟩, h5, h⟩ := Option.map_eq_some_iff.mp h
    cases h
    have hr4 : skipWs r4 ≠ [] := by
      intro he
      rw [he, parseFields_nil] at h5
      cases h5
    rw [expect_skipWs_none q (skipWs_ne_of_expect h4) hb, Option.map_none, Option.none_or,
      expect_skipWs_extend q h4, Option.bind_some, skipWs_extend q hr4, hf (by omega) h5]
    rfl

/-- The bracketed forms of a value. -/
theorem bracket_extend {A B : Type} {c : Char} {cs r : JsStr} {a b : B} {f : A → B}
    {p p' : JsStr → Option (A × JsStr)}
    (hp : ∀ {s x r}, p s = some (x, r) → s ≠ [] ∧ p' (s ++ q) = some (x, r ++ q))
    (h : ((expect c (skipWs cs)).map fun r => (a, r)).or
      ((p (skipWs cs)).map fun x => (f x.1, x.2)) = some (b, r)) :
    ((expect c (skipWs (cs ++ q))).map fun r => (a, r)).or
      ((p' (skipWs (cs ++ q))).map fun x => (f x.1, x.2)) = some (b, r ++ q) := by
  cases hb : expect c (skipWs cs) with
  | some r1 =>
    rw [hb] at h
    cases h
    rw [expect_skipWs_extend q hb]
    rfl
  | none =>
    rw [hb, Option.map_none, Option.none_or] at h
    obtain ⟨⟨x, r1⟩, h1, h⟩ := Option.map_eq_some_iff.mp h
    cases h
    obtain ⟨hne, h2⟩ := hp h1
    rw [expect_skipWs_none q hne hb, Option.map_none, Option.none_or, skipWs_extend q hne, h2]
    rfl

theorem extendsValue_succ (hD : D.constants = []) {n : Nat} (he : ExtendsElems D q n)
    (hf : ExtendsFields D q n) : ExtendsValue D q (n + 1) := by
  intro m s r v hnm h hr
  obtain ⟨m, rfl⟩ : ∃ k, m = k + 1 := ⟨m - 1, by omega⟩
  cases s with
  | nil => cases h
  | cons c cs =>
  rw [List.cons_append]
  by_cases h1 : c = unit '"'
  · subst h1
    rw [parseValue_str] at h ⊢
    obtain ⟨⟨t, r'⟩, hp, h⟩ := Option.map_eq_some_iff.mp h
    cases h
    rw [parseChars_extend q hp]
    rfl
  by_cases h2 : c = unit '['
  · subst h2
    rw [parseValue_arr] at h ⊢
    refine bracket_extend (fun {s x r} hp => ⟨?_, he (by omega) hp⟩) h
    rintro rfl
    rw [parseElems_nil] at hp
    cases hp
  by_cases h3 : c = unit '{'
  · subst h3
    rw [parseValue_obj] at h ⊢
    refine bracket_extend (fun {s x r} hp => ⟨?_, hf (by omega) hp⟩) h
    rintro rfl
    rw [parseFields_nil] at hp
    cases hp
  rw [parseValue_scalar n _ h1 h2 h3] at h
  rw [parseValue_scalar m _ h1 h2 h3]
  refine scalar_extend hD q h (hr.resolve_right fun h' => h3 ?_)
  exact Option.some.inj h'

theorem extends_all (hD : D.constants = []) :
    ∀ n, ExtendsValue D q n ∧ ExtendsElems D q n ∧ ExtendsFields D q n
  | 0 => by
    refine ⟨?_, ?_, ?_⟩
    · intro m s r v _ h; cases h
    · intro m s r vs _ h; cases h
    · intro m s r fs _ h; cases h
  | n + 1 => by
    obtain ⟨hv, he, hf⟩ := extends_all hD n
    exact ⟨extendsValue_succ hD he hf, extendsElems_succ hv he, extendsFields_succ hv hf⟩

/-- **No proper prefix of the text of an object is JSON.** -/
theorem Printer.Reads.object_uncut {P : Printer CodeUnit S N} {f : S → JsStr} {g : N → Option M}
    (h : P.Reads D f g) (hD : D.constants = []) {fs : List (S × Json S N)} {p : JsStr}
    {j : Json JsStr M} (hp : P.value (.obj fs) = p ++ q) (hj : parse D p = some j) : q = [] := by
  rw [parse] at hj
  obtain ⟨⟨v, r⟩, h1, -⟩ := Option.bind_eq_some_iff.mp hj
  rcases p with _ | ⟨c, p⟩
  · rw [show skipWs [] = [] from rfl, parseValue_nil] at h1
    cases h1
  have hc : c = unit '{' := by
    rcases fs with _ | ⟨⟨k, w⟩, fs⟩ <;> rw [← h.char] <;> exact (List.cons.inj hp).1.symm
  rw [skipWs_of (by rw [hc]; decide)] at h1
  have h2 := (extends_all (q := q) hD _).1 (m := (c :: p ++ q).length + 1)
    (by rw [List.length_append]; omega) h1 (.inr (by rw [hc]; rfl))
  have h3 := h.parseValue_value (.obj fs) ((P.value (.obj fs)).length + 1) [] (by omega) trivial
  rw [List.append_nil, hp] at h3
  rw [h2] at h3
  obtain ⟨w, -, hw⟩ := Option.map_eq_some_iff.mp h3.symm
  exact (List.append_eq_nil_iff.mp (Prod.mk.inj hw).2.symm).2

end Extend

end PiIpython.Json
