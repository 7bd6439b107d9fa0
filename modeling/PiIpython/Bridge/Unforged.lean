import PiIpython.Bridge.Wire
import PiIpython.Lib.JsonStrings

/-!
# No line of the bridge is forged

U+2028 and U+2029 end a line of the runtime and stand unescaped in the strings
of the bridge's messages, so a cell can have the runtime read lines that begin
within a string. No such line is a message: between the strings of a message
there is no `p`, so the line has no key `type`. Every line that the runtime
takes for a message, whatever the cells print, is one that the bridge sent.
-/

namespace PiIpython.Bridge

open Text Json PiIpython.Runtime

variable {repr : Binary64 → PyStr}

/-- What `dumps` writes between strings. -/
def Between (u : CodeUnit) : Prop := u.toNat < 128 ∧ Unquoted u ∧ u ≠ unit 'p'

instance between_decidable (u : CodeUnit) : Decidable (Between u) :=
  inferInstanceAs (Decidable (_ ∧ _ ∧ _))

/-! ## The text of a message -/

theorem forall_mem_renderLit {q : Char → Prop} (hdigit : ∀ d, q (digitChar d))
    (hsign : q '-' ∧ q '+') (hpoint : q '.') (hexp : q 'e' ∧ q 'E') (l : NumLit) :
    ∀ c ∈ renderLit id l, q c := by
  have hd : ∀ ds : List Digit, ∀ c ∈ ds.map (id ∘ digitChar), q c := fun ds =>
    List.forall_mem_map.mpr fun d _ => hdigit d
  rw [renderLit]
  simp only [List.forall_mem_append]
  refine ⟨⟨⟨?_, hd _⟩, ?_⟩, ?_⟩
  · split
    · exact List.forall_mem_singleton.mpr hsign.1
    · exact List.forall_mem_nil _
  · split
    · exact List.forall_mem_nil _
    · exact List.forall_mem_cons.mpr ⟨hpoint, hd _⟩
  · split
    · exact List.forall_mem_nil _
    · refine List.forall_mem_cons.mpr ⟨?_, List.forall_mem_append.mpr ⟨?_, hd _⟩⟩
      · split
        · exact hexp.2
        · exact hexp.1
      · split
        · exact List.forall_mem_nil _
        · exact List.forall_mem_singleton.mpr hsign.2
        · exact List.forall_mem_singleton.mpr hsign.1

theorem between_of_all {l : JsStr} (h : l.all (fun u => decide (Between u)) = true) :
    ∀ u ∈ l, Between u := fun u hu => of_decide_eq_true (List.all_eq_true.mp h u hu)

theorem between_numText (hr : ReadsBack repr) (n : PyNum) :
    ∀ u ∈ utf16 (numText repr n), Between u := by
  rcases numText_cases hr n with ⟨l, -, ht, -⟩ | ⟨-, ht⟩
  · rw [ht, utf16_renderLit, renderLit_map, List.forall_mem_map]
    exact forall_mem_renderLit (q := fun c => Between (unit c)) (by decide) (by decide) (by decide)
      (by decide) l
  · simp only [List.mem_cons, List.not_mem_nil, or_false] at ht
    rcases ht with ht | ht | ht <;> rw [ht] <;> exact between_of_all rfl

/-- An escape is read as a whole, and any other character does not end the string. -/
theorem bare_escapeChar {p : CodeUnit → Prop} (c : CodePoint) (t : JsStr) :
    Bare p .inside (utf16 (escapeChar c) ++ t) ↔ Bare p .inside t := by
  unfold escapeChar
  split
  · exact bare_escapes (unit '"') t
  split
  · exact bare_escapes (unit '\\') t
  split
  · exact bare_escapes (unit 'n') t
  split
  · exact bare_escapes (unit 'r') t
  split
  · exact bare_escapes (unit 't') t
  split
  · exact bare_escapes (unit 'b') t
  split
  · exact bare_escapes (unit 'f') t
  split
  · next h =>
    rw [utf16_unicodeEscape _ h]
    refine (bare_escapes (unit 'u') _).trans (bare_append_inside ?_ t)
    have hhex : ∀ n < 16, Unquoted (unit (hexDigit n)) := by decide
    simp only [List.forall_mem_cons]
    exact ⟨hhex _ (Nat.mod_lt _ (by decide)), hhex _ (Nat.mod_lt _ (by decide)),
      hhex _ (Nat.mod_lt _ (by decide)), hhex _ (Nat.mod_lt _ (by decide)), nofun⟩
  · next hq hb _ _ _ _ _ _ =>
    rw [utf16_cons, utf16_nil, List.append_nil]
    refine bare_append_inside (fun u hu => ?_) t
    have hne : ∀ d : Char, d.toNat < 0xD800 → c ≠ chr d → u ≠ unit d := by
      rintro d hd hcd rfl
      have htn : (unit d).toNat = d.toNat := toNat_ofNat (by omega)
      rcases mem_encode16 hu with h | h
      · exact hcd (Fin.ext (by rw [val_chr (by omega), ← h, htn]))
      · omega
    exact ⟨hne '"' (by decide) hq, hne '\\' (by decide) hb⟩

theorem encloses (hr : ReadsBack repr) : (wirePrinter repr).Encloses Between where
  char := rfl
  mark := fun c hc => of_decide_eq_true (List.all_eq_true.mp
    (rfl : marks.all (fun c => decide (Between (unit c))) = true) c hc)
  str s r h := by
    change Bare Between .inside (utf16 (s.flatMap escapeChar) ++ r)
    induction s with
    | nil => exact h
    | cons c s ih =>
      rw [List.flatMap_cons, utf16_append, List.append_assoc, bare_escapeChar]
      exact ih
  num n u hu := ⟨(between_numText hr n u hu).2.1.1, between_numText hr n u hu⟩

theorem bare_dumps (hr : ReadsBack repr) (v : PyValue) :
    Bare Between .outside (utf16 (dumps repr v)) := by
  rw [utf16_dumps, ← List.append_nil ((wirePrinter repr).value v)]
  exact (encloses hr).value (r := []) trivial v

/-! ## Its pieces -/

theorem not_between_separator {u : CodeUnit} (hu : IsSeparator u) : ¬ Between u ∧ Unquoted u := by
  rcases hu with rfl | rfl <;> decide

/-- The pieces of a text that is cut, but for the first, begin within a string. -/
theorem pieces_bare {t : JsStr} : ∀ {buf : JsStr}, Bare Between .outside (buf ++ t) →
    ∀ l ∈ (pieces buf t).tail, Bare Between .inside l := by
  have hinside : ∀ (t : JsStr) {buf : JsStr}, Bare Between .inside (buf ++ t) →
      ∀ l ∈ pieces buf t, Bare Between .inside l := by
    intro t
    induction t with
    | nil =>
      intro buf h l hl
      rw [List.mem_singleton.mp hl, ← List.append_nil buf]
      exact h
    | cons c t ih =>
      intro buf h l hl
      rw [pieces] at hl
      split at hl
      · next hc =>
        obtain ⟨hx, hu⟩ := not_between_separator hc
        rcases List.mem_cons.mp hl with rfl | hl
        · exact h.left
        · exact @ih [] (h.cut hx hu) l hl
      · exact ih (by rwa [List.append_assoc]) l hl
  induction t with
  | nil => exact fun _ => List.forall_mem_nil _
  | cons c t ih =>
    intro buf h l hl
    rw [pieces] at hl
    split at hl
    · next hc =>
      obtain ⟨hx, hu⟩ := not_between_separator hc
      exact @hinside t [] (h.cut hx hu) l hl
    · exact ih (by rwa [List.append_assoc]) l hl

theorem key_of_allFields {p : JsStr → Prop} : ∀ {fs : List (JsStr × JsonValue)},
    AllFields p (fun _ => True) fs → ∀ f ∈ fs, p f.1
  | [], _ => nofun
  | (_, _) :: _, h => List.forall_mem_cons.mpr ⟨h.1, key_of_allFields h.2.2⟩

/-- A value without a `p` in its strings has no `type`. -/
theorem messageType?_of_between {j : JsonValue}
    (h : j.All (fun k => ∀ u ∈ k, Between u) fun _ => True) : messageType? j = none := by
  cases j with
  | obj fs =>
    have hget : (Json.obj fs).get? (js "type") = none := by
      refine Option.map_eq_none_iff.mpr (List.find?_eq_none.mpr fun f hf hk => ?_)
      have hbetween := key_of_allFields h f (List.mem_reverse.mp hf)
      rw [of_decide_eq_true hk] at hbetween
      exact (hbetween (unit 'p') (by decide)).2.2 rfl
    rw [messageType?, hget]
    rfl
  | _ => rfl

/-! ## The lines -/

/-- A line with a message type is the text of the message that was sent. -/
theorem eq_of_messageType (hr : ReadsBack repr) {m : Message} {l : JsStr}
    (hl : l ∈ linesOfMessage repr m) {j : JsonValue} (hj : jsonParse l = some j)
    (ht : messageType? j ≠ none) : l = utf16 (dumps repr m.dict) := by
  rw [linesOfMessage] at hl
  split at hl
  · by_cases hs : ∃ u ∈ utf16 (dumps repr m.dict), IsSeparator u
    · obtain ⟨u, hu, hsep⟩ := hs
      obtain ⟨p, q, ps, hp, hq, hne⟩ := pieces_of_some hu hsep []
      have htail : ∀ l ∈ (pieces [] (utf16 (dumps repr m.dict))).tail, Bare Between .inside l :=
        pieces_bare (bare_dumps hr m.dict)
      rw [hp, List.mem_cons] at hl
      rcases hl with rfl | hl
      · -- the first piece is the start of an object
        rw [List.nil_append, utf16_dumps] at hq
        exact absurd ((wirePrinter_reads hr).object_uncut rfl hq hj) hne
      · -- any other piece begins within a string
        rw [hp] at htail
        have hnot : ¬ Between (unit '\\') := by decide
        exact absurd (messageType?_of_between (parse_bare rfl hnot hj (htail l hl))) ht
    · rw [pieces_of_none fun u hu hsep => hs ⟨u, hu, hsep⟩, List.nil_append] at hl
      exact List.mem_singleton.mp hl
  · cases hl

theorem isBridgeMessage_of_none {j : JsonValue} (h : messageType? j = none) :
    isBridgeMessage j = none ∧ invalidMessageReason j = none := by
  unfold isBridgeMessage invalidMessageReason
  rw [h]
  exact ⟨rfl, rfl⟩

/-- A line is the text of a message that was sent, or no message. -/
theorem line_cases (hr : ReadsBack repr) {ms : List Message} {l : JsStr}
    (hl : l ∈ linesOf (stdout repr ms)) :
    (∃ m ∈ ms, HasUtf8 (dumps repr m.dict) ∧ l = utf16 (dumps repr m.dict)) ∨
      ((jsonParse l).bind isBridgeMessage = none ∧
        (jsonParse l).bind invalidMessageReason = none) := by
  rw [linesOf_stdout hr, List.mem_flatMap] at hl
  obtain ⟨m, hm, hl⟩ := hl
  by_cases ht : ∃ j, jsonParse l = some j ∧ messageType? j ≠ none
  · obtain ⟨j, hj, ht⟩ := ht
    refine .inl ⟨m, hm, ?_, eq_of_messageType hr hl hj ht⟩
    by_contra hu
    rw [linesOfMessage, if_neg fun h => hu fun c hc => h c (List.mem_append_left _ hc)] at hl
    cases hl
  · right
    cases hj : jsonParse l with
    | none => exact ⟨rfl, rfl⟩
    | some j => exact isBridgeMessage_of_none (not_not.mp fun h => ht ⟨j, hj, h⟩)

/-- The strings of a value are chosen so that the piece in the middle is an object. -/
def crafted : List Message :=
  [.evaluated (py "1") (.arr [.str (0x2028 :: py "\x7b"), .str (py ":"),
    .str (py "\x7d" ++ [0x2028])])]

end PiIpython.Bridge
