import PiIpython.Bridge.Readline
import PiIpython.Runtime.Frame

/-!
# The wire between the bridge and the runtime

`Faithful` says that the runtime reads exactly the messages that were sent, and
that a message which ends a request settles it. It holds of a sequence of
messages exactly when all of them are `Clean`: no string has U+2028, U+2029 or
a surrogate, no float is NaN or infinite, and every integer is a double.
-/

namespace PiIpython.Bridge

open Text Json PiIpython.Runtime

variable {repr : Binary64 → PyStr}

/-! ## What the runtime should read -/

/-- The double that stands for a Python number exactly. -/
def DenotesNum : PyNum → Binary64 → Prop
  | .int z, y => y.toRat? = some (z : ℚ)
  | .float x, y => y = x

/-- The JavaScript value is the Python value. -/
def Denotes (v : PyValue) (j : JsonValue) : Prop := v.Rel (fun s t => t = utf16 s) DenotesNum j

/-- The request is no longer active, and its promise is settled. -/
def Settles (s t : State) (a : Active) : Prop :=
  t.active = none ∧ (s.requests[a.request]? = some none →
    ∃ x, t.requests[a.request]? = some (some x))

/-- The runtime reads what the bridge sent. -/
structure Faithful (repr : Binary64 → PyStr) (ms : List Message) : Prop where
  /-- The lines are the messages, one for one and in order. -/
  lines : List.Forall₂ (fun m l => ∃ j, jsonParse l = some j ∧ Denotes m.dict j) ms
    (linesOf (stdout repr ms))
  /-- The last message of a request settles it. -/
  settles : ∀ m ∈ ms, ∀ id, m.endsRequest = some id → ∃ l ∈ linesOf (stdout repr ms),
    ∀ (s : State) (c : BridgeId) (a : Active) (disk : Disk), s.child = some c →
      s.active = some a → a.requestId = utf16 id → Settles s (s.handleLine c l disk) a

/-! ## Clean messages -/

/-- The text survives the write and the cut into lines. -/
def CleanStr (s : PyStr) : Prop := ∀ c ∈ s, ¬ IsSurrogate c ∧ c.val ≠ 0x2028 ∧ c.val ≠ 0x2029

/-- The number survives `JSON.parse`. -/
def ExactNum : PyNum → Prop
  | .int z => Binary64.ExactInt z
  | .float x => x.IsFinite

def Clean (m : Message) : Prop := m.dict.All CleanStr ExactNum

/-- No separator in the text. -/
def OneLine (s : PyStr) : Prop := ∀ c ∈ s, c.val ≠ 0x2028 ∧ c.val ≠ 0x2029

theorem clean_iff (m : Message) : Clean m ↔
    m.dict.All HasUtf8 (fun _ => True) ∧ m.dict.All OneLine (fun _ => True) ∧
      m.dict.All (fun _ => True) ExactNum := by
  rw [← all_and, ← all_and]
  refine all_congr (fun s => ?_) (fun n => by simp) _
  rw [and_true]
  exact forall₂_and

/-! ## Characters of the texts -/

theorem val_chr {c : Char} (h : c.toNat < 0x10000) : (chr c).val = c.toNat := by
  simp only [chr, Fin.ofNat]; omega

/-- Printable ASCII. -/
def IsAscii (c : CodePoint) : Prop := 32 ≤ c.val ∧ c.val < 128

theorem isAscii_chr {c : Char} (h : Printer.IsSyntax c) : IsAscii (chr c) := by
  have hv := val_chr (c := c) (by have := h.2; omega)
  exact ⟨by rw [hv]; exact h.1, by rw [hv]; exact h.2⟩

theorem isAscii_map {l : List Char} (h : ∀ c ∈ l, Printer.IsSyntax c) :
    ∀ d ∈ l.map chr, IsAscii d := by
  rw [List.forall_mem_map]
  exact fun c hc => isAscii_chr (h c hc)

theorem isSyntax_hexDigit : ∀ n < 16, Printer.IsSyntax (hexDigit n) := by
  decide

theorem isAscii_unicodeEscape (n : Nat) : ∀ d ∈ unicodeEscape n, IsAscii d := by
  have hx : ∀ k, IsAscii (chr (hexDigit (k % 16))) := fun k =>
    isAscii_chr (isSyntax_hexDigit _ (Nat.mod_lt _ (by decide)))
  rw [unicodeEscape, List.forall_mem_append]
  refine ⟨isAscii_map (by simp [Printer.IsSyntax]), ?_⟩
  simp only [List.forall_mem_cons, hx, true_and, List.not_mem_nil, false_implies, implies_true]

/-- An escape is spelled in printable ASCII, and any other character is its own. -/
theorem escapeChar_cases (c : CodePoint) :
    escapeChar c = [c] ∧ 32 ≤ c.val ∨ c.val < 128 ∧ ∀ d ∈ escapeChar c, IsAscii d := by
  have hl : ∀ (d : Char), Printer.IsSyntax d ∨ d.toNat < 128 → (chr d).val < 128 := by
    intro d hd
    rw [val_chr (by rcases hd with hd | hd; exacts [by have := hd.2; omega, by omega])]
    exact hd.elim (·.2) id
  unfold escapeChar
  split
  · next h => exact .inr ⟨h ▸ hl _ (by simp), isAscii_map (by simp [Printer.IsSyntax])⟩
  split
  · next h => exact .inr ⟨h ▸ hl _ (by simp), isAscii_map (by simp [Printer.IsSyntax])⟩
  split
  · next h => exact .inr ⟨h ▸ hl _ (by simp), isAscii_map (by simp [Printer.IsSyntax])⟩
  split
  · next h => exact .inr ⟨h ▸ hl _ (by simp), isAscii_map (by simp [Printer.IsSyntax])⟩
  split
  · next h => exact .inr ⟨h ▸ hl _ (by simp), isAscii_map (by simp [Printer.IsSyntax])⟩
  split
  · next h => exact .inr ⟨by omega, isAscii_map (by simp [Printer.IsSyntax])⟩
  split
  · next h => exact .inr ⟨by omega, isAscii_map (by simp [Printer.IsSyntax])⟩
  split
  · next h => exact .inr ⟨by omega, isAscii_unicodeEscape _⟩
  · next h => exact .inl ⟨rfl, by omega⟩

theorem numText_ascii (hr : ReadsBack repr) (n : PyNum) :
    ∀ d ∈ numText repr n, IsAscii d := by
  rcases numText_cases hr n with ⟨l, -, ht, -⟩ | ⟨-, ht⟩
  · rw [ht, renderLit_map]
    exact isAscii_map (isSyntax_renderLit l)
  · simp only [List.mem_cons, List.not_mem_nil, or_false] at ht
    rcases ht with ht | ht | ht <;> rw [ht] <;> exact isAscii_map (by simp [Printer.IsSyntax])

/-- **What holds of ASCII holds of the text exactly when it holds of the strings in it.** -/
theorem forall_mem_dumps (hr : ReadsBack repr) {p : CodePoint → Prop}
    (hp : ∀ c : CodePoint, c.val < 128 → p c) (v : PyValue) :
    (∀ c ∈ dumps repr v, p c) ↔ v.All (fun s => ∀ c ∈ s, p c) fun _ => True := by
  rw [dumps, Printer.forall_mem_value (P := printer repr)
    fun c hc => hp _ (isAscii_chr hc).2]
  refine all_congr (fun s => ?_) (fun n => ?_) v
  · change (∀ c ∈ s.flatMap escapeChar, p c) ↔ _
    rw [List.forall_mem_flatMap]
    refine forall₂_congr fun c _ => ?_
    rcases escapeChar_cases c with ⟨h, -⟩ | ⟨h, ha⟩
    · rw [h, List.forall_mem_singleton]
    · exact iff_of_true (fun d hd => hp d (ha d hd).2) (hp c h)
  · exact iff_of_true (fun d hd => hp d (numText_ascii hr n d hd).2) trivial

/-- The text has no control character. -/
theorem dumps_printable (hr : ReadsBack repr) (v : PyValue) : ∀ c ∈ dumps repr v, 32 ≤ c.val := by
  rw [dumps, Printer.forall_mem_value (P := printer repr)
    fun c hc => (isAscii_chr hc).1]
  refine all_of (fun s => ?_) (fun n d hd => (numText_ascii hr n d hd).1) v
  change ∀ c ∈ s.flatMap escapeChar, 32 ≤ c.val
  rw [List.forall_mem_flatMap]
  rintro c - d hd
  rcases escapeChar_cases c with ⟨h, hc⟩ | ⟨-, ha⟩
  · rw [h, List.mem_singleton] at hd
    rw [hd]; exact hc
  · exact (ha d hd).1

theorem encodable_dumps (hr : ReadsBack repr) (v : PyValue) :
    HasUtf8 (dumps repr v ++ py "\n") ↔ v.All HasUtf8 fun _ => True := by
  have hn : ∀ c ∈ py "\n", ¬ IsSurrogate c := by
    rintro c hc h
    obtain rfl := List.mem_singleton.mp hc
    exact absurd h.1 (by decide)
  rw [HasUtf8, List.forall_mem_append, and_iff_left hn]
  exact forall_mem_dumps hr (fun c hc h => by have := h.1; omega) v

theorem oneLine_dumps (hr : ReadsBack repr) (v : PyValue) :
    (∀ u ∈ utf16 (dumps repr v), ¬ IsSeparator u) ↔ v.All OneLine fun _ => True := by
  have h : ∀ n : CodeUnit, (n.toNat < 0xD800 ∨ 0xDFFF < n.toNat) → n ∈ utf16 (dumps repr v) →
      ∃ c ∈ dumps repr v, c.val = n.toNat := fun n hn hu => (mem_utf16_iff hn).mp hu
  refine Iff.trans ?_ (forall_mem_dumps hr (p := fun c => c.val ≠ 0x2028 ∧ c.val ≠ 0x2029)
    (fun c hc => by omega) v)
  constructor
  · intro hu c hc
    constructor
    · intro h
      exact hu 0x2028 ((mem_utf16_iff (by decide)).mpr ⟨c, hc, h⟩) (.inl rfl)
    · intro h
      exact hu 0x2029 ((mem_utf16_iff (by decide)).mpr ⟨c, hc, h⟩) (.inr rfl)
  · rintro hc u hu (rfl | rfl)
    · obtain ⟨c, hm, hv⟩ := h 0x2028 (by decide) hu
      exact (hc c hm).1 hv
    · obtain ⟨c, hm, hv⟩ := h 0x2029 (by decide) hu
      exact (hc c hm).2 hv

/-- The numbers of a value survive exactly when its text is read as the value. -/
theorem denotes_dumps (hr : ReadsBack repr) (v : PyValue) :
    (∃ j, jsonParse (utf16 (dumps repr v)) = some j ∧ Denotes v j) ↔
      v.All (fun _ => True) ExactNum := by
  rw [jsonParse_dumps hr]
  refine (exists_convert_rel v).trans (all_congr (fun s => by simp) (fun n => ?_) v)
  rcases n with z | x
  · simp only [jsNumber, DenotesNum, ExactNum, Option.some.injEq, exists_eq_left']
    exact Binary64.round_int_iff z
  · simp only [jsNumber, DenotesNum, ExactNum]
    by_cases hx : x.IsFinite
    · rw [if_pos hx]; simp [hx]
    · rw [if_neg hx]; simp [hx]

/-! ## Lines of the messages -/

/-- The lines that one `send` makes. -/
def linesOfMessage (repr : Binary64 → PyStr) (m : Message) : List JsStr :=
  if HasUtf8 (dumps repr m.dict ++ py "\n") then pieces [] (utf16 (dumps repr m.dict)) else []

theorem linesOf_stdout (hr : ReadsBack repr) (ms : List Message) :
    linesOf (stdout repr ms) = ms.flatMap (linesOfMessage repr) := by
  induction ms with
  | nil => rfl
  | cons m ms ih =>
    rw [stdout, List.flatMap_cons, utf16_append, List.flatMap_cons, ← ih, send, linesOfMessage]
    split
    · have ht : ∀ u ∈ utf16 (dumps repr m.dict), u ≠ lineFeed ∧ u ≠ carriageReturn := by
        intro u hu
        have hp := dumps_printable hr m.dict
        constructor
        · rintro rfl
          obtain ⟨c, hc, hv⟩ := (mem_utf16_iff (by decide)).mp hu
          exact absurd (hp c hc) (by rw [hv]; decide)
        · rintro rfl
          obtain ⟨c, hc, hv⟩ := (mem_utf16_iff (by decide)).mp hu
          exact absurd (hp c hc) (by rw [hv]; decide)
      have hn : utf16 (py "\n") = [lineFeed] := rfl
      rw [linesOf, utf16_append, hn, List.append_assoc, List.singleton_append,
        readLines_text ht]
      rfl
    · rfl

/-- An encodable text without a separator is one line. -/
theorem linesOfMessage_of_oneLine {m : Message} (hu : HasUtf8 (dumps repr m.dict ++ py "\n"))
    (ho : ∀ u ∈ utf16 (dumps repr m.dict), ¬ IsSeparator u) :
    linesOfMessage repr m = [utf16 (dumps repr m.dict)] := by
  rw [linesOfMessage, if_pos hu, pieces_of_none ho, List.nil_append]

/-- **A message cut in pieces is not read**: when every line of a message is JSON, the message was
dropped or is one line. -/
theorem linesOfMessage_cases (hr : ReadsBack repr) (m : Message)
    (hl : ∀ l ∈ linesOfMessage repr m, ∃ j, jsonParse l = some j) :
    linesOfMessage repr m = [] ∨ (HasUtf8 (dumps repr m.dict ++ py "\n") ∧
      (∀ u ∈ utf16 (dumps repr m.dict), ¬ IsSeparator u) ∧
      linesOfMessage repr m = [utf16 (dumps repr m.dict)]) := by
  by_cases hu : HasUtf8 (dumps repr m.dict ++ py "\n")
  · refine .inr ⟨hu, ?_, ?_⟩
    · intro u hm hs
      obtain ⟨p, q, ps, hp, hq, hne⟩ := pieces_of_some hm hs []
      obtain ⟨j, hj⟩ := hl p (by rw [linesOfMessage, if_pos hu, hp]; exact List.mem_cons_self)
      rw [List.nil_append, utf16_dumps] at hq
      exact hne ((wirePrinter_reads hr).object_uncut rfl hq hj)
    · refine linesOfMessage_of_oneLine hu fun u hm hs => ?_
      obtain ⟨p, q, ps, hp, hq, hne⟩ := pieces_of_some hm hs []
      obtain ⟨j, hj⟩ := hl p (by rw [linesOfMessage, if_pos hu, hp]; exact List.mem_cons_self)
      rw [List.nil_append, utf16_dumps] at hq
      exact hne ((wirePrinter_reads hr).object_uncut rfl hq hj)
  · exact .inl (by rw [linesOfMessage, if_neg hu])

/-! ## Messages that end a request -/

/-- A result or a bridge error with the id of the active request settles it. -/
theorem handleLine_settles {s : State} {c : BridgeId} {a : Active} {l : JsStr} {disk : Disk}
    {m : BridgeMessage} (hc : s.child = some c) (ha : s.active = some a)
    (hm : (jsonParse l).bind isBridgeMessage = some m) (hid : m.requestId? = some a.requestId)
    (hk : (∃ id e t, m = .bridgeError id e t) ∨ ∃ id st n v e, m = .result id st n v e) :
    Settles s (s.handleLine c l disk) a := by
  have hset : ∀ x : Settled, s.requests[a.request]? = some none →
      ∃ y, (State.settle { s with active := none } a.request x).requests[a.request]? =
        some (some y) := fun x hp =>
    State.settle_self (s := { s with active := none }) (List.getElem?_eq_some_iff.mp hp).1
  rw [State.handleLine, if_neg (not_not_intro hc), hm]
  rcases hk with ⟨id, e, t, rfl⟩ | ⟨id, st, n, v, e, rfl⟩
  · simp only [State.handleMessage, ha, if_neg (not_not_intro hid), State.handleBridgeError]
    refine ⟨State.kill_active _, fun hp => ?_⟩
    rw [State.kill_requests]
    exact State.settle_self (s := { s with active := none, pendingResetNotice := true })
      (List.getElem?_eq_some_iff.mp hp).1
  · simp only [State.handleMessage, ha, if_neg (not_not_intro hid), State.handleResult]
    exact ⟨rfl, hset _⟩

/-- The runtime takes such a message for what it is. -/
theorem endsRequest_message {m : Message} {id : PyStr} (hm : m.endsRequest = some id)
    {j : JsonValue} (hj : convert utf16 jsNumber m.dict = some j) :
    ∃ b, isBridgeMessage j = some b ∧ b.requestId? = some (utf16 id) ∧
      ((∃ id e t, b = .bridgeError id e t) ∨ ∃ id st n v e, b = .result id st n v e) := by
  cases m with
  | executed id' status count error =>
    cases hm
    rcases count with _ | n <;> rcases error with _ | ⟨ename, evalue⟩ <;> cases hj
    · exact ⟨.result _ _ none none none, rfl, rfl, .inr ⟨_, _, _, _, _, rfl⟩⟩
    · exact ⟨.result _ _ none none (some ⟨utf16 ename, utf16 evalue⟩), rfl, rfl,
        .inr ⟨_, _, _, _, _, rfl⟩⟩
    · exact ⟨.result _ _ (some _) none none, rfl, rfl, .inr ⟨_, _, _, _, _, rfl⟩⟩
    · exact ⟨.result _ _ (some _) none (some ⟨utf16 ename, utf16 evalue⟩), rfl, rfl,
        .inr ⟨_, _, _, _, _, rfl⟩⟩
  | evaluated id' value =>
    cases hm
    have hd : convert utf16 jsNumber (Message.evaluated id value).dict =
        (convert utf16 jsNumber value).map fun w => .obj [(js "type", .str (js "result")),
          (js "request_id", .str (utf16 id)), (js "status", .str (js "ok")), (js "value", w)] := by
      rw [Message.dict, Message.fields, convert]
      simp only [entry, convertFields, convert, Option.bind_some]
      cases convert utf16 jsNumber value <;> rfl
    rw [hd] at hj
    obtain ⟨w, -, rfl⟩ := Option.map_eq_some_iff.mp hj
    exact ⟨.result _ _ none (some w) none, rfl, rfl, .inr ⟨_, _, _, _, _, rfl⟩⟩
  | evaluateFailed id' ename evalue =>
    cases hm
    cases hj
    exact ⟨.result _ _ none none (some ⟨utf16 ename, utf16 evalue⟩), rfl, rfl,
      .inr ⟨_, _, _, _, _, rfl⟩⟩
  | bridgeError id' error traceback =>
    cases id' with
    | str id' =>
      cases hm
      cases hj
      exact ⟨.bridgeError (some (utf16 id)) (utf16 error) (utf16 traceback), rfl, rfl,
        .inl ⟨_, _, _, rfl⟩⟩
    | _ => cases hm
  | _ => cases hm

/-! ## The wire -/

theorem clean_lines (hr : ReadsBack repr) {m : Message} (hm : Clean m) :
    linesOfMessage repr m = [utf16 (dumps repr m.dict)] ∧
      ∃ j, jsonParse (utf16 (dumps repr m.dict)) = some j ∧ Denotes m.dict j := by
  obtain ⟨hu, ho, hn⟩ := (clean_iff m).mp hm
  exact ⟨linesOfMessage_of_oneLine ((encodable_dumps hr _).mpr hu) ((oneLine_dumps hr _).mpr ho),
    (denotes_dumps hr _).mpr hn⟩

/-- Clean messages are read one for one. -/
theorem faithful_of_clean (hr : ReadsBack repr) {ms : List Message} (h : ∀ m ∈ ms, Clean m) :
    Faithful repr ms := by
  have hl : linesOf (stdout repr ms) = ms.map fun m => utf16 (dumps repr m.dict) := by
    rw [linesOf_stdout hr, List.map_eq_flatMap]
    exact List.flatMap_congr fun m hm => (clean_lines hr (h m hm)).1
  refine ⟨?_, fun m hm id hid => ?_⟩
  · rw [hl, List.forall₂_map_right_iff, List.forall₂_same]
    exact fun m hm => (clean_lines hr (h m hm)).2
  · refine ⟨utf16 (dumps repr m.dict), by rw [hl]; exact List.mem_map_of_mem hm, ?_⟩
    intro s c a disk hc ha hra
    obtain ⟨j, hj, -⟩ := (clean_lines hr (h m hm)).2
    obtain ⟨b, hb, hbid, hk⟩ := endsRequest_message hid ((jsonParse_dumps hr _).symm.trans hj)
    exact handleLine_settles hc ha (by rw [hj]; exact hb) (by rw [hbid, hra]) hk

/-- When no list is longer than one and they add up to one each, each has one element. -/
theorem length_eq_one_of_flatMap {A B : Type} {f : A → List B} :
    ∀ {l : List A}, (∀ a ∈ l, (f a).length ≤ 1) → (l.flatMap f).length = l.length →
      ∀ a ∈ l, (f a).length = 1
  | [], _, _ => fun _ h => by cases h
  | b :: l, h, hl => by
    have hle : ∀ l : List A, (∀ a ∈ l, (f a).length ≤ 1) → (l.flatMap f).length ≤ l.length := by
      intro l h
      induction l with
      | nil => exact Nat.le_refl _
      | cons c l ih =>
        have h1 := h c List.mem_cons_self
        have h2 := ih fun a ha => h a (List.mem_cons_of_mem _ ha)
        rw [List.flatMap_cons, List.length_append, List.length_cons]
        omega
    have h1 := h b List.mem_cons_self
    have h2 := hle l fun a ha => h a (List.mem_cons_of_mem _ ha)
    rw [List.flatMap_cons, List.length_append, List.length_cons] at hl
    intro a ha
    rcases List.mem_cons.mp ha with rfl | ha
    · omega
    · exact length_eq_one_of_flatMap (fun a ha => h a (List.mem_cons_of_mem _ ha)) (by omega) a ha

theorem exists_rel_of_mem {A B : Type} {R : A → B → Prop} {l : List A} {l' : List B}
    (h : List.Forall₂ R l l') {b : B} (hb : b ∈ l') : ∃ a, R a b := by
  induction h with
  | nil => cases hb
  | cons hr _ ih =>
    rcases List.mem_cons.mp hb with rfl | hb
    · exact ⟨_, hr⟩
    · exact ih hb

/-- **The wire is faithful to exactly the clean messages.** -/
theorem faithful_iff_clean (hr : ReadsBack repr) (ms : List Message) :
    Faithful repr ms ↔ ∀ m ∈ ms, Clean m := by
  refine ⟨fun h => ?_, faithful_of_clean hr⟩
  have hlines := h.lines
  rw [linesOf_stdout hr] at hlines
  -- every line is JSON, so no message was cut; the lines are as many as the messages, so none was
  -- dropped
  have hparse : ∀ l ∈ ms.flatMap (linesOfMessage repr), ∃ j, jsonParse l = some j := by
    intro l hl
    obtain ⟨m, j, hj, -⟩ := exists_rel_of_mem hlines hl
    exact ⟨j, hj⟩
  have hcases : ∀ m ∈ ms, _ := fun m hm => linesOfMessage_cases hr m fun l hl =>
    hparse l (List.mem_flatMap.mpr ⟨m, hm, hl⟩)
  have hone : ∀ m ∈ ms, (linesOfMessage repr m).length = 1 := by
    refine length_eq_one_of_flatMap (fun m hm => ?_) hlines.length_eq.symm
    rcases hcases m hm with h | ⟨-, -, h⟩ <;> rw [h] <;> simp
  have htext : ms.flatMap (linesOfMessage repr) = ms.map fun m => utf16 (dumps repr m.dict) := by
    rw [List.map_eq_flatMap]
    refine List.flatMap_congr fun m hm => ?_
    rcases hcases m hm with h | ⟨-, -, h⟩
    · have := hone m hm
      rw [h] at this
      cases this
    · exact h
  rw [htext, List.forall₂_map_right_iff, List.forall₂_same] at hlines
  intro m hm
  rcases hcases m hm with h | ⟨hu, ho, -⟩
  · have := hone m hm
    rw [h] at this
    cases this
  · exact (clean_iff m).mpr ⟨(encodable_dumps hr _).mp hu, (oneLine_dumps hr _).mp ho,
      (denotes_dumps hr _).mp (hlines m hm)⟩

/-- A `repr` that writes exact expansions. Below `10^16` a float without a fraction is written as
Python writes it. -/
def exactRepr : Binary64 → PyStr
  | .finite neg m e _ => renderLit chr (exactLit neg m e)
  | _ => []

theorem exactRepr_readsBack : ReadsBack exactRepr := by
  rintro (_ | _ | ⟨neg, m, e, h⟩) hx
  · cases hx
  · cases hx
  · exact ⟨exactLit neg m e, exactLit_wf neg m e, rfl, exactLit_toNumber h⟩

/-- A cell that prints `é`, and an evaluation that answers the float `4503599627370496.0`. -/
theorem faithful_cell_and_float :
    Faithful exactRepr [.output (py "1") (py "stdout") [0xe9] false true,
      .executed (py "1") (py "ok") (some 1) none,
      .evaluated (py "2") (.num (.float (.finite false (2 ^ 52) 0 (by decide))))] := by
  refine (faithful_iff_clean exactRepr_readsBack _).mpr ?_
  have hone : Binary64.ExactInt 1 := ⟨1, 0, by decide, by decide, by decide⟩
  simp [Clean, Message.dict, Message.fields, entry, All, AllFields, ExactNum, hone, CleanStr,
    py, chr, IsSurrogate, Fin.ofNat, Binary64.IsFinite]

set_option maxRecDepth 8000 in
/-- **U+2028 in an error text breaks the wire**: the result is cut in two lines, neither of them
JSON, and the evaluation it ends is not told. -/
theorem not_faithful_separator :
    ¬ Faithful exactRepr [.evaluateFailed (py "1") (py "E") [0x2028]] := by
  intro h
  have hl := h.lines.length_eq
  revert hl
  decide +kernel

end PiIpython.Bridge
