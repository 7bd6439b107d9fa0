import PiIpython.Bridge.Execute
import PiIpython.Bridge.Wire

/-!
# The output of a cell

What a cell shows is said twice. `Item` is what a notebook makes of an iopub
message: `shown` are the items after the last clear that took effect, and
`plainOutput` and `plainImages` read them one after the other. The other way is
that of the code: `feed`, the chunks of `emitOutput`, and `handleLine`.
`execute_output` says that the result of the request is the plain reading.
-/

namespace PiIpython.Bridge

open Text Json PiIpython.Runtime

/-! ## The plain reading -/

/-- What a message says about the output of its cell. -/
inductive Item where
  | stream (text : PyStr)
  /-- A result, a display or an error. -/
  | text (text : PyStr)
  | image (data : PyStr)
  | clear (wait : Bool)

variable (other : PyValue → PyStr)

def read (m : Received) : Option Item :=
  if m.msgType = some (py "clear_output") then some (.clear ((m.content.wait).any truthy))
  else if m.msgType = some (py "stream") then some (.stream (strOr other m.content.text ""))
  else if isDisplay m.msgType then
    match mime other (m.content.data.getD []) (py "image/png") with
    | some png => some (.image png)
    | none => (mime other (m.content.data.getD []) (py "text/plain")).map .text
  else if m.msgType = some (py "error") then some (.text (errorText other m.content))
  else none

/-- Going back from the end to the last clear that took effect. A clear that waits did when an item
came after it. `later` are the items that came after. -/
def sinceClear : List Item → List Item → List Item
  | [], later => later
  | .clear false :: _, later => later
  | .clear true :: items, later => if later.isEmpty then sinceClear items later else later
  | item :: items, later => sinceClear items (item :: later)

/-- The items after the last clear that took effect. -/
def shown (items : List Item) : List Item := sinceClear items.reverse []

/-- The output up to the start of a line. -/
def lineStart (output : JsStr) : JsStr :=
  if output = [] ∨ endsWith output (js "\n") then output else output ++ js "\n"

/-- The text on lines of its own. -/
def ownLines (output text : JsStr) : JsStr :=
  lineStart output ++ text ++ if endsWith text (js "\n") then [] else js "\n"

/-- The output with one item more. -/
def Item.append (output : JsStr) : Item → JsStr
  | .stream t => output ++ utf16 t
  | .text t => if t = [] then output else ownLines output (utf16 t)
  | _ => output

def plainOutput (items : List Item) : JsStr := (shown items).foldl Item.append []

def Item.image? : Item → Option JsStr
  | .image data => some (utf16 data)
  | _ => none

/-- The images shown. -/
def shownImages (items : List Item) : List JsStr := (shown items).filterMap Item.image?

/-- The image is taken when it fits in the limits with the images before it. -/
def takeImage (taken : List JsStr) (data : JsStr) : List JsStr :=
  if taken.length < imageLimit ∧ ((taken ++ [data]).map List.length).sum ≤ imageLimitBytes then
    taken ++ [data]
  else taken

def plainImages (items : List Item) : List JsStr := (shownImages items).foldl takeImage []

/-! ## The clears -/

def Item.isClear : Item → Bool
  | .clear _ => true
  | _ => false

/-- The last item is a clear that waits. -/
def endsInClear (items : List Item) : Bool :=
  match items.getLast? with
  | some (.clear true) => true
  | _ => false

theorem endsInClear_item (items : List Item) {x : Item} (hx : x.isClear = false) :
    endsInClear (items ++ [x]) = false := by
  cases x with
  | clear wait => cases hx
  | _ => simp [endsInClear]

theorem sinceClear_later {items later : List Item} (h : later ≠ []) :
    sinceClear items later = (items.takeWhile (! ·.isClear)).reverse ++ later := by
  induction items generalizing later with
  | nil => rfl
  | cons x items ih =>
    cases x with
    | clear wait =>
      have hl : later.isEmpty = false := by simpa using h
      cases wait <;> simp [sinceClear, Item.isClear, hl]
    | _ => simp [sinceClear, ih, Item.isClear]

theorem shown_clear (items : List Item) : shown (items ++ [.clear false]) = [] := by
  rw [shown, List.reverse_append]
  rfl

theorem shown_wait (items : List Item) : shown (items ++ [.clear true]) = shown items := by
  rw [shown, List.reverse_append]
  rfl

/-- An item is shown after those since the last clear. -/
theorem shown_item (items : List Item) {x : Item} (hx : x.isClear = false) :
    shown (items ++ [x]) = (items.reverse.takeWhile (! ·.isClear)).reverse ++ [x] := by
  rw [shown, List.reverse_append, List.reverse_singleton, List.singleton_append]
  cases x with
  | clear wait => cases hx
  | _ => exact sinceClear_later (List.cons_ne_nil _ _)

/-- Without a pending clear, what is shown are the items since the last clear. -/
theorem shown_eq_of_not_pending {items : List Item} (h : endsInClear items = false) :
    shown items = (items.reverse.takeWhile (! ·.isClear)).reverse := by
  rcases List.eq_nil_or_concat' items with rfl | ⟨items, x, rfl⟩
  · rfl
  · cases x with
    | clear wait =>
      cases wait with
      | false => rw [shown_clear]; simp [Item.isClear]
      | true => simp [endsInClear] at h
    | _ => rw [shown_item _ rfl]; simp [Item.isClear]

theorem shown_append_of_not_pending {items : List Item} (h : endsInClear items = false) {x : Item}
    (hx : x.isClear = false) : shown (items ++ [x]) = shown items ++ [x] := by
  rw [shown_item items hx, shown_eq_of_not_pending h]

/-- A pending clear takes effect at the next item. -/
theorem shown_append_of_pending {items : List Item} (h : endsInClear items = true) {x : Item}
    (hx : x.isClear = false) : shown (items ++ [x]) = [x] := by
  rw [shown_item items hx]
  rcases List.eq_nil_or_concat' items with rfl | ⟨items, y, rfl⟩
  · rfl
  · cases y with
    | clear wait => simp [Item.isClear]
    | _ => simp [endsInClear] at h

/-! ## What the runtime keeps -/

/-- The output of the request in progress. -/
structure Capture where
  output : JsStr
  images : List JsStr
  imagesDropped : Nat

/-- What `handleLine` makes of a message. -/
def Capture.add (k : Capture) : Message → Capture
  | .clear _ => ⟨[], [], 0⟩
  | .image _ data =>
    let bytes := k.images.foldl (fun sum image => sum + image.length) (utf16 data).length
    if k.images.length < imageLimit ∧ bytes ≤ imageLimitBytes then
      { k with images := k.images ++ [utf16 data] }
    else { k with imagesDropped := k.imagesDropped + 1 }
  | .output _ kind text continuation final =>
    { k with output := State.appendOutput k.output (utf16 kind) (utf16 text) continuation final }
  | _ => k

def Capture.addAll (k : Capture) (ms : List Message) : Capture := ms.foldl Capture.add k

/-- The output stays within the capture limit after each message. -/
def Capture.Within (k : Capture) (ms : List Message) : Prop :=
  ∀ n, byteLength (k.addAll (ms.take n)).output ≤ outputCaptureLimitBytes

theorem Capture.addAll_append (k : Capture) (ms ns : List Message) :
    k.addAll (ms ++ ns) = (k.addAll ms).addAll ns := List.foldl_append

theorem Capture.Within.append {k : Capture} {ms ns : List Message} (h : k.Within ms)
    (h' : (k.addAll ms).Within ns) : k.Within (ms ++ ns) := by
  intro n
  rw [List.take_append, Capture.addAll_append]
  by_cases hn : n ≤ ms.length
  · rw [Nat.sub_eq_zero_of_le hn, List.take_zero]
    exact h n
  · rw [List.take_of_length_le (by omega)]
    exact h' _

/-- What an item adds to what is shown. -/
def Capture.put (k : Capture) : Item → Capture
  | .image data =>
    let images := takeImage k.images (utf16 data)
    ⟨k.output, images, if images.length = k.images.length then k.imagesDropped + 1 else k.imagesDropped⟩
  | x => { k with output := x.append k.output }

def Capture.empty : Capture := ⟨[], [], 0⟩

def rendered (items : List Item) : Capture := (shown items).foldl Capture.put Capture.empty

theorem foldl_put (items : List Item) (k : Capture) :
    (items.foldl Capture.put k).output = items.foldl Item.append k.output ∧
    (items.foldl Capture.put k).images = (items.filterMap Item.image?).foldl takeImage k.images ∧
    (items.foldl Capture.put k).images.length + (items.foldl Capture.put k).imagesDropped =
      k.images.length + k.imagesDropped + (items.filterMap Item.image?).length := by
  induction items generalizing k with
  | nil => exact ⟨rfl, rfl, rfl⟩
  | cons x items ih =>
    obtain ⟨h1, h2, h3⟩ := ih (k.put x)
    rw [List.foldl_cons, List.foldl_cons]
    refine ⟨?_, ?_, ?_⟩
    · rw [h1]
      cases x <;> rfl
    · rw [h2]
      cases x <;> rfl
    · rw [h3]
      cases x with
      | image data =>
        have hlen : (takeImage k.images (utf16 data)).length = k.images.length ∨
            (takeImage k.images (utf16 data)).length = k.images.length + 1 := by
          unfold takeImage
          split
          · exact .inr (by rw [List.length_append, List.length_singleton])
          · exact .inl rfl
        simp only [Capture.put, List.filterMap_cons, Item.image?, List.length_cons]
        split <;> omega
      | _ => rfl

/-- **The runtime's fold over what is shown is the plain reading**. -/
theorem rendered_eq (items : List Item) : (rendered items).output = plainOutput items ∧
    (rendered items).images = plainImages items ∧
    (rendered items).images.length + (rendered items).imagesDropped =
      (shownImages items).length := by
  obtain ⟨h1, h2, h3⟩ := foldl_put (shown items) Capture.empty
  exact ⟨h1, h2, by rw [rendered, h3]; simp [Capture.empty, shownImages]⟩

/-! ## The chunks of a text -/

theorem chunks_spec (text : PyStr) (k : Nat) :
    k < chunks text ↔ k * outputMessageChars < text.length := by
  unfold chunks outputMessageChars
  omega

theorem chunk_text (text : PyStr) (k : Nat) :
    text.take (k * outputMessageChars) ++ (text.take (min (k * outputMessageChars +
      outputMessageChars) text.length)).drop (k * outputMessageChars) =
      text.take ((k + 1) * outputMessageChars) := by
  have hmin : text.take (min (k * outputMessageChars + outputMessageChars) text.length) =
      text.take ((k + 1) * outputMessageChars) := by
    rw [Nat.add_mul, Nat.one_mul]
    by_cases h : k * outputMessageChars + outputMessageChars ≤ text.length
    · rw [min_eq_left h]
    · rw [min_eq_right (by omega), List.take_length, List.take_of_length_le (by omega)]
  have htake : text.take (k * outputMessageChars) =
      (text.take ((k + 1) * outputMessageChars)).take (k * outputMessageChars) := by
    rw [List.take_take, min_eq_left (Nat.mul_le_mul_right _ (Nat.le_succ k))]
  rw [hmin, htake, List.take_append_drop]

/-- The kinds that are appended as they are. -/
def isStream (kind : PyStr) : Bool := utf16 kind = js "stdout" || utf16 kind = js "stderr"

/-- The output after `k` chunks of a text. -/
def stage (output : JsStr) (kind text : PyStr) (k : Nat) : JsStr :=
  if isStream kind ∨ k = 0 then output ++ utf16 (text.take (k * outputMessageChars))
  else
    lineStart output ++ utf16 (text.take (k * outputMessageChars)) ++
      if k = chunks text ∧ ¬ endsWith (utf16 text) (js "\n") then js "\n" else []

theorem stage_zero (output : JsStr) (kind text : PyStr) : stage output kind text 0 = output := by
  simp [stage]

/-- All chunks are as good as the whole text. -/
theorem stage_all (output : JsStr) (kind : PyStr) {text : PyStr} (h : text ≠ []) :
    stage output kind text (chunks text) =
      if isStream kind then output ++ utf16 text else ownLines output (utf16 text) := by
  have hlen : 0 < text.length := List.length_pos_iff.mpr h
  have h0 : 0 < chunks text := (chunks_spec text 0).mpr (by omega)
  have htake : text.take (chunks text * outputMessageChars) = text := by
    refine List.take_of_length_le ?_
    have := (chunks_spec text (chunks text)).not.mp (lt_irrefl _)
    omega
  unfold stage ownLines
  rw [htake]
  by_cases hk : isStream kind = true
  · rw [if_pos (.inl hk), if_pos hk]
  · rw [if_neg (not_or.mpr ⟨hk, by omega⟩), if_neg hk]
    cases endsWith (utf16 text) (js "\n") <;> simp

/-- The start of a chunk of a text that is not appended as it is. -/
theorem chunk_start (output : JsStr) {kind text : PyStr} (hs : ¬ isStream kind = true) {k : Nat}
    (hk : k < chunks text) :
    (if ¬ (decide (0 < k * outputMessageChars) = true) ∧ stage output kind text k ≠ [] ∧
        ¬ (endsWith (stage output kind text k) (js "\n") = true)
      then stage output kind text k ++ js "\n" else stage output kind text k) =
      lineStart output ++ utf16 (text.take (k * outputMessageChars)) := by
  cases k with
  | zero =>
    rw [stage_zero, lineStart]
    simp only [Nat.zero_mul, List.take_zero, utf16_nil, List.append_nil]
    by_cases h1 : output = []
    · simp [h1]
    · cases h2 : endsWith output (js "\n") <;> simp [h1]
  | succ k =>
    have h0 : 0 < (k + 1) * outputMessageChars := Nat.mul_pos (Nat.succ_pos k) (by decide)
    have hne : ¬ (k + 1 = chunks text ∧ ¬ endsWith (utf16 text) (js "\n") = true) := fun h => by
      omega
    rw [if_neg (by simp [h0]), stage, if_neg (not_or.mpr ⟨hs, Nat.succ_ne_zero k⟩), if_neg hne,
      List.append_nil]

/-- One chunk more. -/
theorem stage_succ (output : JsStr) (requestId kind text : PyStr) (images : List JsStr) (d : Nat)
    {k : Nat} (hk : k < chunks text) :
    Capture.add ⟨stage output kind text k, images, d⟩ (chunk requestId kind text k) =
      ⟨stage output kind text (k + 1), images, d⟩ := by
  have hlt := (chunks_spec text k).mp hk
  have hcat := congrArg utf16 (chunk_text text k)
  rw [utf16_append] at hcat
  have hfinal : min (k * outputMessageChars + outputMessageChars) text.length = text.length ↔
      k + 1 = chunks text := by
    have h1 := chunks_spec text (k + 1)
    rw [Nat.add_mul, Nat.one_mul] at h1
    omega
  simp only [Capture.add, chunk, State.appendOutput, Capture.mk.injEq, and_true]
  by_cases hs : isStream kind = true
  · have hs' : utf16 kind = js "stdout" ∨ utf16 kind = js "stderr" := by
      simpa [isStream] using hs
    rw [if_pos hs', stage, stage, if_pos (.inl hs), if_pos (.inl hs), List.append_assoc, hcat]
  · have hs' : ¬ (utf16 kind = js "stdout" ∨ utf16 kind = js "stderr") := by
      simpa [isStream] using hs
    have hne : utf16 (text.take ((k + 1) * outputMessageChars)) ≠ [] := by
      rw [Ne, utf16_eq_nil, ← List.length_eq_zero_iff, List.length_take]
      have : 0 < (k + 1) * outputMessageChars := Nat.mul_pos (Nat.succ_pos k) (by decide)
      omega
    rw [if_neg hs', chunk_start output hs hk, List.append_assoc, hcat, stage,
      if_neg (not_or.mpr ⟨hs, Nat.succ_ne_zero k⟩), show js "\n" = [unit '\n'] from rfl,
      endsWith_append hne]
    by_cases hf : k + 1 = chunks text
    · have htake : text.take ((k + 1) * outputMessageChars) = text := by
        refine List.take_of_length_le ?_
        have := (chunks_spec text (k + 1)).not.mp (by omega)
        omega
      rw [htake]
      cases he : endsWith (utf16 text) [unit '\n'] <;> simp [hfinal, hf]
    · simp [hfinal, hf]

theorem addAll_chunks (output : JsStr) (requestId kind text : PyStr) (images : List JsStr) (d : Nat)
    {k : Nat} (hk : k ≤ chunks text) :
    Capture.addAll ⟨output, images, d⟩ ((List.range k).map (chunk requestId kind text)) =
      ⟨stage output kind text k, images, d⟩ := by
  induction k with
  | zero => rw [stage_zero]; rfl
  | succ k ih =>
    rw [List.range_succ, List.map_append, Capture.addAll_append, ih (by omega)]
    exact stage_succ output requestId kind text images d hk

theorem appendOutput_append (output kind text : JsStr) (continuation final : Bool) :
    ∃ r, State.appendOutput output kind text continuation final = output ++ r := by
  unfold State.appendOutput
  split
  · exact ⟨text, rfl⟩
  · dsimp only
    split
    · split
      · exact ⟨js "\n" ++ text ++ js "\n", by simp only [List.append_assoc]⟩
      · exact ⟨js "\n" ++ text, by rw [List.append_assoc]⟩
    · split
      · exact ⟨text ++ js "\n", by rw [List.append_assoc]⟩
      · exact ⟨text, rfl⟩

/-- The output after some chunks is a start of the output after all of them. -/
theorem stage_prefix (output : JsStr) (kind text : PyStr) {k n : Nat} (hk : k ≤ n)
    (hn : n ≤ chunks text) : ∃ r, stage output kind text n = stage output kind text k ++ r := by
  induction n with
  | zero =>
    obtain rfl : k = 0 := by omega
    exact ⟨[], (List.append_nil _).symm⟩
  | succ n ih =>
    rcases Nat.le_succ_iff.mp hk with hk | rfl
    · obtain ⟨r, hr⟩ := ih hk (by omega)
      have hs : (Capture.add ⟨stage output kind text n, [], 0⟩ (chunk [] kind text n)).output =
          stage output kind text (n + 1) :=
        congrArg Capture.output (stage_succ output [] kind text [] 0 (by omega))
      obtain ⟨q, hq⟩ : ∃ q, (Capture.add ⟨stage output kind text n, [], 0⟩
          (chunk [] kind text n)).output = stage output kind text n ++ q :=
        appendOutput_append _ _ _ _ _
      exact ⟨r ++ q, by rw [← hs, hq, hr, List.append_assoc]⟩
    · exact ⟨[], (List.append_nil _).symm⟩

/-- **A text in chunks is the text**, and the output is within the limit all along. -/
theorem addAll_text (k : Capture) (requestId kind : PyStr) {text : PyStr} (ht : text ≠ [])
    (hb : byteLength (if isStream kind then k.output ++ utf16 text
      else ownLines k.output (utf16 text)) ≤ outputCaptureLimitBytes) :
    k.addAll (emitOutput requestId (.text kind text)) =
      { k with output := if isStream kind then k.output ++ utf16 text
        else ownLines k.output (utf16 text) } ∧
    k.Within (emitOutput requestId (.text kind text)) := by
  have hall := stage_all k.output kind ht
  refine ⟨?_, fun n => ?_⟩
  · rw [← hall]
    exact addAll_chunks k.output requestId kind text k.images k.imagesDropped (le_refl _)
  · rw [emitOutput, ← List.map_take, List.take_range,
      addAll_chunks k.output requestId kind text k.images k.imagesDropped (min_le_right _ _)]
    obtain ⟨r, hr⟩ := stage_prefix k.output kind text (min_le_right n (chunks text)) (le_refl _)
    rw [← hall, hr] at hb
    exact (byteLength_le_append _ r).trans hb

/-! ## The events of a message -/

/-- The events show the item, within the limit. -/
def Renders (requestId : PyStr) (events : List OutputEvent) (x : Item) : Prop :=
  ∀ k : Capture, byteLength (k.put x).output ≤ outputCaptureLimitBytes →
    k.addAll (events.flatMap (emitOutput requestId)) = k.put x ∧
      k.Within (events.flatMap (emitOutput requestId))

theorem renders_text (requestId kind text : PyStr) : Renders requestId
    (if (OutputEvent.text kind text).isCalled then [.text kind text] else [])
    (if isStream kind then .stream text else .text text) := by
  intro k hb
  by_cases ht : text = []
  · subst ht
    have hp : k.put (if isStream kind then .stream [] else .text []) = k := by
      split <;> simp [Capture.put, Item.append]
    rw [hp] at hb ⊢
    exact ⟨rfl, fun n => by simpa [OutputEvent.isCalled, Capture.addAll] using hb⟩
  · have hc : (OutputEvent.text kind text).isCalled = true := by simp [OutputEvent.isCalled, ht]
    have hp : k.put (if isStream kind then .stream text else .text text) =
        { k with output := if isStream kind then k.output ++ utf16 text
          else ownLines k.output (utf16 text) } := by
      split <;> simp [Capture.put, Item.append, ht]
    rw [hp] at hb ⊢
    rw [if_pos hc, List.flatMap_singleton]
    exact addAll_text k requestId kind ht hb

theorem renders_image (requestId data : PyStr) :
    Renders requestId [.image data] (.image data) := by
  intro k hb
  have hsum : ∀ (l : List JsStr) (n : Nat),
      l.foldl (fun sum image => sum + image.length) n = (l.map List.length).sum + n := by
    intro l
    induction l with
    | nil => simp
    | cons x l ih => intro n; rw [List.foldl_cons, ih, List.map_cons, List.sum_cons]; omega
  have hadd : k.add (.image requestId data) = k.put (.image data) := by
    simp only [Capture.add, Capture.put, takeImage, hsum, List.map_append, List.map_singleton,
      List.sum_append, List.sum_singleton]
    split <;> simp
  have hk : (k.add (.image requestId data)).output = k.output := by rw [hadd]; rfl
  refine ⟨hadd, fun n => ?_⟩
  rw [List.flatMap_singleton, emitOutput]
  rcases n with _ | n
  · exact hb
  · rw [List.take_succ_cons, List.take_nil]
    exact (congrArg byteLength hk).trans_le hb

/-- Jupyter names the stream of a stream message. -/
def NamesStream (m : Received) : Prop :=
  m.msgType = some (py "stream") →
    strOr other m.content.name "stdout" = py "stdout" ∨
      strOr other m.content.name "stdout" = py "stderr"

instance (m : Received) : Decidable (NamesStream other m) := inferInstanceAs (Decidable (_ → _ ∨ _))

/-- **What `feed` makes of a message**. -/
theorem feed_read {m : Received} (hm : NamesStream other m) (requestId : PyStr) (pending : Bool) :
    match read other m with
    | none => feed other pending m.msgType m.content = (pending, [])
    | some (.clear wait) => feed other pending m.msgType m.content =
        if wait then (true, []) else (false, [.clear])
    | some x => ∃ events, feed other pending m.msgType m.content =
        (false, (if pending then [.clear] else []) ++ events) ∧ Renders requestId events x := by
  unfold read feed outputEvent
  by_cases h1 : m.msgType = some (py "clear_output")
  · rw [if_pos h1, if_pos h1]
  rw [if_neg h1, if_neg h1]
  by_cases h2 : m.msgType = some (py "stream")
  · rw [if_pos h2, if_pos h2]
    have hs : isStream (strOr other m.content.name "stdout") = true := by
      rcases hm h2 with h | h <;> rw [h] <;> decide
    have hr := renders_text requestId (strOr other m.content.name "stdout")
      (strOr other m.content.text "")
    rw [if_pos hs] at hr
    exact ⟨_, rfl, hr⟩
  rw [if_neg h2, if_neg h2]
  by_cases h3 : isDisplay m.msgType = true
  · rw [if_pos h3, if_pos h3]
    dsimp only
    cases mime other (m.content.data.getD []) (py "image/png") with
    | some png => exact ⟨_, rfl, renders_image requestId png⟩
    | none =>
      cases mime other (m.content.data.getD []) (py "text/plain") with
      | none => rfl
      | some value =>
        have hr := renders_text requestId
          (py (if m.msgType = some (py "execute_result") then "result" else "display")) value
        have hs : ¬ isStream
            (py (if m.msgType = some (py "execute_result") then "result" else "display")) = true := by
          split <;> decide
        rw [if_neg hs] at hr
        exact ⟨_, rfl, hr⟩
  rw [if_neg h3, if_neg h3]
  by_cases h4 : m.msgType = some (py "error")
  · rw [if_pos h4, if_pos h4]
    have hr := renders_text requestId (py "error") (errorText other m.content)
    have hs : ¬ isStream (py "error") = true := by decide
    rw [if_neg hs] at hr
    exact ⟨_, rfl, hr⟩
  · rw [if_neg h4, if_neg h4]

/-! ## The stream of a request -/

/-- The message is about the output of the request. -/
def About (requestId : PyStr) : Message → Prop
  | .clear id => id = requestId
  | .image id _ => id = requestId
  | .output id _ _ _ _ => id = requestId
  | _ => False

/-- **The messages sent so far show what was read so far**. -/
structure Reads (requestId : PyStr) (st : OutputStream) (items : List Item) : Prop where
  pending : st.pendingClear = endsInClear items
  sent : Capture.empty.addAll st.sent = rendered items
  within : Capture.empty.Within st.sent
  about : ∀ m ∈ st.sent, About requestId m

theorem about_emitOutput (requestId : PyStr) (e : OutputEvent) :
    ∀ m ∈ emitOutput requestId e, About requestId m := by
  cases e with
  | text kind text =>
    intro m hm
    obtain ⟨i, -, rfl⟩ := List.mem_map.mp hm
    rfl
  | _ =>
    intro m hm
    rw [List.mem_singleton.mp hm]
    rfl

theorem byteLength_nil : byteLength [] ≤ outputCaptureLimitBytes := by decide

theorem reads_init (requestId : PyStr) : Reads requestId ⟨false, []⟩ [] :=
  ⟨rfl, rfl, fun n => by rw [List.take_nil]; exact byteLength_nil, by simp⟩

/-- More messages are sent that show more. -/
theorem Reads.send {requestId : PyStr} {st : OutputStream} {items later : List Item}
    (h : Reads requestId st items) {pending : Bool} {events : List OutputEvent}
    (hp : pending = endsInClear later)
    (hs : (rendered items).addAll (events.flatMap (emitOutput requestId)) = rendered later)
    (hw : (rendered items).Within (events.flatMap (emitOutput requestId))) :
    Reads requestId ⟨pending, st.sent ++ events.flatMap (emitOutput requestId)⟩ later := by
  refine ⟨hp, ?_, h.within.append (by rwa [h.sent]), ?_⟩
  · rw [Capture.addAll_append, h.sent, hs]
  · intro m hm
    rcases List.mem_append.mp hm with hm | hm
    · exact h.about m hm
    · obtain ⟨e, -, he⟩ := List.mem_flatMap.mp hm
      exact about_emitOutput requestId e m he

theorem Reads.bounded {requestId : PyStr} {st : OutputStream} {items : List Item}
    (h : Reads requestId st items) : byteLength (rendered items).output ≤ outputCaptureLimitBytes := by
  have hw := h.within st.sent.length
  rwa [List.take_length, h.sent] at hw

/-- A message is fed to the stream. -/
theorem Reads.received {requestId : PyStr} {st : OutputStream} {items : List Item} {m : Received}
    (h : Reads requestId st items) (hm : NamesStream other m)
    (hb : byteLength (plainOutput (items ++ (read other m).toList)) ≤ outputCaptureLimitBytes) :
    Reads requestId (st.feed other requestId m.msgType m.content)
      (items ++ (read other m).toList) := by
  have hf := feed_read other hm requestId st.pendingClear
  rw [← (rendered_eq _).1] at hb
  unfold OutputStream.feed
  have hcl : ∀ k : Capture, k.Within [.clear requestId] ↔
      byteLength k.output ≤ outputCaptureLimitBytes := by
    intro k
    refine ⟨fun hk => hk 0, fun hk n => ?_⟩
    rcases n with _ | n
    · exact hk
    · rw [List.take_succ_cons, List.take_nil]
      exact byteLength_nil
  cases hx : read other m with
  | none =>
    rw [hx] at hf
    simp only at hf
    rw [hf]
    simp only [Option.toList_none, List.append_nil, List.flatMap_nil]
    exact ⟨h.pending, h.sent, h.within, h.about⟩
  | some x =>
    rw [hx] at hf hb
    rw [Option.toList_some] at hb ⊢
    have hitem : x.isClear = false → (∃ events, feed other st.pendingClear m.msgType m.content =
        (false, (if st.pendingClear then [.clear] else []) ++ events) ∧
          Renders requestId events x) → Reads requestId
        ⟨(Bridge.feed other st.pendingClear m.msgType m.content).1, st.sent ++
          (Bridge.feed other st.pendingClear m.msgType m.content).2.flatMap (emitOutput requestId)⟩
        (items ++ [x]) := by
      rintro hc ⟨events, hf, hr⟩
      have hend : false = endsInClear (items ++ [x]) := (endsInClear_item items hc).symm
      rw [hf]
      cases hp : st.pendingClear with
      | true =>
        have hr' : rendered (items ++ [x]) = Capture.empty.put x := by
          rw [rendered, shown_append_of_pending (h.pending.symm.trans hp) hc]; rfl
        rw [hr'] at hb
        obtain ⟨h1, h2⟩ := hr Capture.empty hb
        refine h.send hend ?_ ?_
        · rw [if_pos rfl, List.singleton_append, List.flatMap_cons, Capture.addAll_append, hr', ← h1]
          rfl
        · rw [if_pos rfl, List.singleton_append, List.flatMap_cons]
          exact ((hcl _).mpr h.bounded).append h2
      | false =>
        have hr' : rendered (items ++ [x]) = (rendered items).put x := by
          rw [rendered, shown_append_of_not_pending (h.pending.symm.trans hp) hc, List.foldl_append]
          rfl
        rw [hr'] at hb
        obtain ⟨h1, h2⟩ := hr _ hb
        refine h.send hend ?_ ?_
        · rw [if_neg (by simp), List.nil_append, hr', h1]
        · rwa [if_neg (by simp), List.nil_append]
    cases x with
    | clear wait =>
      simp only at hf
      rw [hf]
      cases wait with
      | true =>
        refine h.send (by simp [endsInClear]) ?_ ?_
        · rw [rendered, rendered, shown_wait]; rfl
        · exact fun n => by rw [List.flatMap_nil, List.take_nil]; exact h.bounded
      | false =>
        refine h.send (by simp [endsInClear]) ?_ ?_
        · rw [rendered, rendered, shown_clear]; rfl
        · exact (hcl _).mpr h.bounded
    | _ => exact hitem rfl hf

/-- All messages of the request. -/
theorem Reads.receivedAll {requestId : PyStr} {messages : List Received} :
    ∀ {st : OutputStream} {items : List Item}, Reads requestId st items →
      (∀ m ∈ messages, NamesStream other m) →
      (∀ p, p <+: items ++ messages.filterMap (read other) →
        byteLength (plainOutput p) ≤ outputCaptureLimitBytes) →
      Reads requestId
        (messages.foldl (fun st m => st.feed other requestId m.msgType m.content) st)
        (items ++ messages.filterMap (read other)) := by
  induction messages with
  | nil =>
    intro st items h _ _
    rwa [List.filterMap_nil, List.append_nil]
  | cons m messages ih =>
    intro st items h hm hb
    have hcat : items ++ (m :: messages).filterMap (read other) =
        items ++ (read other m).toList ++ messages.filterMap (read other) := by
      rw [List.filterMap_cons]
      cases read other m <;> simp
    rw [hcat] at hb ⊢
    rw [List.foldl_cons]
    refine ih (h.received other (hm m List.mem_cons_self) (hb _ (List.prefix_append _ _)))
      (fun m' hm' => hm m' (List.mem_cons_of_mem _ hm')) hb

/-! ## The loop over the channels -/

section Wait

variable {σ : Type} {msgId : PyStr} {capture : σ → Option PyStr → Content → σ}

/-- The iopub messages of the request. -/
def own (msgId : PyStr) (polls : List Poll) : List Received :=
  (polls.filterMap Poll.iopub).filter fun m => parentId m = some msgId

/-- What is left of the request's iopub messages: `messages` and then idle, or nothing once idle was
seen. -/
inductive Ends (msgId : PyStr) (polls : List Poll) : Bool → List Received → Prop where
  | seen (h : own msgId polls = []) : Ends msgId polls true []
  | busy {messages : List Received} {last : Received} (h : ∀ m ∈ messages, isIdle m = false)
      (hl : isIdle last = true) (ho : own msgId polls = messages ++ [last]) :
      Ends msgId polls false messages

theorem own_cons (p : Poll) (polls : List Poll) : own msgId (p :: polls) =
    (p.iopub.toList.filter fun m => parentId m = some msgId) ++ own msgId polls := by
  rw [own, own, List.filterMap_cons]
  cases p.iopub with
  | none => rfl
  | some m => rw [Option.toList_some, ← List.filter_append, List.singleton_append]

theorem Ends.congr {polls later : List Poll} {idle : Bool} {messages : List Received}
    (h : Ends msgId polls idle messages) (ho : own msgId later = own msgId polls) :
    Ends msgId later idle messages := by
  cases h with
  | seen h => exact .seen (ho.trans h)
  | busy h hl h' => exact .busy h hl (ho.trans h')

variable (capture) in
/-- One round: the messages left are one fewer when it has one of them. -/
theorem Ends.poll {p : Poll} {polls : List Poll} {w : Waiting σ} {messages : List Received}
    (h : Ends msgId (p :: polls) w.idle messages) :
    ∃ later, Ends msgId polls (w.poll msgId capture p).idle later ∧
      later.foldl (fun st m => capture st m.msgType m.content) (w.poll msgId capture p).captured =
        messages.foldl (fun st m => capture st m.msgType m.content) w.captured := by
  have hshell : ∀ v : Waiting σ, (p.shell.elim v (v.onShell msgId)).idle = v.idle ∧
      (p.shell.elim v (v.onShell msgId)).captured = v.captured := by
    intro v
    cases p.shell with
    | none => exact ⟨rfl, rfl⟩
    | some m =>
      simp only [Option.elim_some, Waiting.onShell]
      split <;> exact ⟨rfl, rfl⟩
  rw [Waiting.poll, (hshell _).1, (hshell _).2]
  have ho : own msgId (p :: polls) = _ := own_cons p polls
  cases hp : p.iopub with
  | none =>
    rw [hp] at ho
    exact ⟨messages, h.congr ho.symm, rfl⟩
  | some m =>
    rw [hp, Option.toList_some] at ho
    change ∃ later, Ends msgId polls (w.onIopub msgId capture m).idle later ∧
      later.foldl _ (w.onIopub msgId capture m).captured = _
    by_cases hid : parentId m = some msgId
    · rw [List.filter_cons_of_pos (by simpa using hid), List.filter_nil, List.singleton_append] at ho
      generalize hw : w.idle = idle at h
      cases h with
      | seen h => cases ho.symm.trans h
      | @busy _ last hno hl heq =>
        rw [ho] at heq
        cases messages with
        | nil =>
          obtain ⟨rfl, hrest⟩ := List.cons.inj heq
          have hon : w.onIopub msgId capture m = { w with idle := true } := by
            rw [Waiting.onIopub, if_pos hid, if_pos hl]
          rw [hon]
          exact ⟨[], .seen hrest, rfl⟩
        | cons m' messages =>
          obtain ⟨rfl, hrest⟩ := List.cons.inj heq
          have hm := hno m List.mem_cons_self
          have hon : w.onIopub msgId capture m =
              { w with captured := capture w.captured m.msgType m.content } := by
            rw [Waiting.onIopub, if_pos hid, if_neg (by simp [hm])]
          rw [hon]
          refine ⟨messages, ?_, rfl⟩
          change Ends msgId polls w.idle messages
          rw [hw]
          exact .busy (fun x hx => hno x (List.mem_cons_of_mem _ hx)) hl hrest
    · rw [List.filter_cons_of_neg (by simpa using hid), List.filter_nil, List.nil_append] at ho
      rw [Waiting.onIopub, if_neg hid]
      exact ⟨messages, h.congr ho.symm, rfl⟩

variable (capture) in
/-- **The loop returns**, and has captured the messages of the request in their order. -/
theorem waitLoop_returned {polls : List Poll} : ∀ {w : Waiting σ} {messages : List Received},
    Ends msgId polls w.idle messages →
    (w.shellReply.isSome = true ∨ ∃ p ∈ polls, p.shell.any (isReply msgId) = true) →
    (∀ p ∈ polls, p.iopub = none → p.shell = none → p.alive = true) →
    ∃ reply, waitLoop msgId capture polls w =
      (messages.foldl (fun st m => capture st m.msgType m.content) w.captured,
        .returned reply) := by
  induction polls with
  | nil =>
    intro w messages h hr _
    obtain ⟨reply, hs⟩ := Option.isSome_iff_exists.mp (hr.resolve_right (by simp))
    generalize hw : w.idle = idle at h
    cases h with
    | seen h => exact ⟨reply, by simp [waitLoop, hs, hw]⟩
    | busy _ _ heq => simp [own] at heq
  | cons p polls ih =>
    intro w messages h hr ha
    unfold waitLoop
    split
    · next reply hs hw =>
      rw [hw] at h
      cases h
      exact ⟨reply, rfl⟩
    · have halive : ¬ (p.iopub.isNone && p.shell.isNone && ! p.alive) = true := by
        simp only [Bool.and_eq_true, Option.isNone_iff_eq_none, Bool.not_eq_true', not_and,
          Bool.not_eq_false]
        exact fun h => ha p List.mem_cons_self h.1 h.2
      obtain ⟨later, hl, heq⟩ := h.poll capture
      have hreply : (w.poll msgId capture p).shellReply.isSome = true ∨
          ∃ q ∈ polls, q.shell.any (isReply msgId) = true := by
        have hio : ∀ o : Option Received,
            (o.elim w (w.onIopub msgId capture)).shellReply = w.shellReply := by
          intro o
          cases o with
          | none => rfl
          | some m =>
            simp only [Option.elim_some, Waiting.onIopub]
            split
            · split <;> rfl
            · rfl
        rw [Waiting.poll]
        cases hs : p.shell with
        | none =>
          rw [Option.elim_none, hio]
          refine hr.imp (fun h => h) ?_
          rintro ⟨q, hq, hqr⟩
          rcases List.mem_cons.mp hq with rfl | hq
          · simp [hs] at hqr
          · exact ⟨q, hq, hqr⟩
        | some m =>
          rw [Option.elim_some, Waiting.onShell]
          split
          · exact .inl rfl
          · next hm =>
            rw [hio]
            refine hr.imp (fun h => h) ?_
            rintro ⟨q, hq, hqr⟩
            rcases List.mem_cons.mp hq with rfl | hq
            · simp [hs, hm] at hqr
            · exact ⟨q, hq, hqr⟩
      dsimp only
      rw [if_neg halive, ← heq]
      exact ih hl hreply fun q hq => ha q (List.mem_cons_of_mem _ hq)

end Wait

/-! ## The lines of the request -/

variable {repr : Binary64 → PyStr}

/-- The line of a message. -/
def line (repr : Binary64 → PyStr) (m : Message) : JsStr := utf16 (dumps repr m.dict)

/-- The request in progress with what it captured. -/
def capturing (a : Active) (k : Capture) : Active :=
  { a with output := k.output, images := k.images, imagesDropped := k.imagesDropped }

theorem handleLine_message {s : State} {c : BridgeId} {l : JsStr} {m : BridgeMessage}
    (hc : s.child = some c) (hm : (jsonParse l).bind isBridgeMessage = some m) (disk : Disk) :
    s.handleLine c l disk = s.handleMessage m disk := by
  rw [State.handleLine, if_neg (not_not_intro hc), hm]

/-- A line about the output adds to what the request captured. -/
theorem handleLine_add (hr : ReadsBack repr) {s : State} {c : BridgeId} {a : Active} {k : Capture}
    {requestId : PyStr} {m : Message} (hc : s.child = some c)
    (ha : s.active = some (capturing a k)) (hi : a.interrupt = none)
    (hid : a.requestId = utf16 requestId) (hm : About requestId m)
    (hb : byteLength (k.add m).output ≤ outputCaptureLimitBytes) (disk : Disk) :
    ∃ l, s.handleLine c (line repr m) disk =
      { s with active := some (capturing a (k.add m)), log := l } := by
  have hid' : some (utf16 requestId) = some (capturing a k).requestId := congrArg some hid.symm
  have hp : jsonParse (line repr m) = convert utf16 jsNumber m.dict := jsonParse_dumps hr _
  cases m with
  | clear id =>
    obtain rfl : id = requestId := hm
    rw [handleLine_message (m := .clear (utf16 id)) hc (by rw [hp]; rfl)]
    have hq : BridgeMessage.requestId? (.clear (utf16 id)) =
      some (capturing a k).requestId := hid'
    simp only [State.handleMessage, ha, if_neg (not_not_intro hq)]
    exact ⟨_, rfl⟩
  | image id data =>
    obtain rfl : id = requestId := hm
    rw [handleLine_message (m := .image (utf16 id) (utf16 data)) hc (by rw [hp]; rfl)]
    have hq : BridgeMessage.requestId? (.image (utf16 id) (utf16 data)) =
      some (capturing a k).requestId := hid'
    simp only [State.handleMessage, ha, if_neg (not_not_intro hq)]
    refine ⟨s.log, ?_⟩
    dsimp only [Capture.add]
    split
    · next h => exact if_pos h
    · next h => exact if_neg h
  | output id kind text continuation final =>
    obtain rfl : id = requestId := hm
    rw [handleLine_message (m := .output (utf16 id) (utf16 kind) (utf16 text) continuation final) hc
      (by rw [hp]; rfl)]
    have hq : BridgeMessage.requestId? (.output (utf16 id) (utf16 kind) (utf16 text) continuation final) =
      some (capturing a k).requestId := hid'
    simp only [State.handleMessage, ha, if_neg (not_not_intro hq)]
    have hno : ¬ ((capturing a k).interrupt.any (·.overflow)) = true := by
      rw [show (capturing a k).interrupt = none from hi]
      simp
    dsimp only [State.handleOutput]
    rw [if_neg hno]
    exact ⟨_, if_neg (not_lt.mpr hb)⟩
  | _ => cases hm

/-- All lines about the output. -/
theorem handleLines_addAll (hr : ReadsBack repr) {c : BridgeId} {a : Active} {requestId : PyStr}
    (hi : a.interrupt = none) (hid : a.requestId = utf16 requestId) (disk : Disk)
    {ms : List Message} : ∀ {s : State} {k : Capture}, s.child = some c →
      s.active = some (capturing a k) → (∀ m ∈ ms, About requestId m) → k.Within ms →
      ∃ l, (ms.map (line repr)).foldl (fun s l => s.handleLine c l disk) s =
        { s with active := some (capturing a (k.addAll ms)), log := l } := by
  induction ms with
  | nil =>
    intro s k _ ha _ _
    refine ⟨s.log, ?_⟩
    cases s
    cases ha
    rfl
  | cons m ms ih =>
    intro s k hc ha hm hw
    obtain ⟨l, hl⟩ := handleLine_add hr hc ha hi hid (hm m List.mem_cons_self) (hw 1) disk
    rw [List.map_cons, List.foldl_cons, hl]
    exact ih (s := { s with active := some (capturing a (k.add m)), log := l }) hc rfl
      (fun m' hm' => hm m' (List.mem_cons_of_mem _ hm')) fun n => hw (n + 1)

/-- The line of the result resolves the request with what it captured. -/
theorem handleLine_executed (hr : ReadsBack repr) {s : State} {c : BridgeId} {a : Active}
    {requestId : PyStr} (hc : s.child = some c) (ha : s.active = some a) (hi : a.interrupt = none)
    (hid : a.requestId = utf16 requestId) (hp : s.requests[a.request]? = some none)
    (reply : Received) (disk : Disk) :
    ∃ x : ProtocolResult,
      (s.handleLine c (line repr (executed other requestId reply)) disk).requests[a.request]? =
        some (some (.resolved x)) ∧
      x.output = a.output ∧ x.images = a.images ∧ x.imagesDropped = a.imagesDropped := by
  have hmsg : ∃ st n e, (jsonParse (line repr (executed other requestId reply))).bind isBridgeMessage =
      some (.result (utf16 requestId) st n none e) := by
    rw [line, jsonParse_dumps hr, executed]
    cases reply.content.executionCount <;> split <;> exact ⟨_, _, _, rfl⟩
  obtain ⟨st, n, e, hm⟩ := hmsg
  refine ⟨State.protocolResult a st n none e, ?_, ?_, ?_, ?_⟩
  · rw [handleLine_message hc hm]
    have hq : BridgeMessage.requestId? (.result (utf16 requestId) st n none e) =
      some a.requestId := congrArg some hid.symm
    simp only [State.handleMessage, ha, if_neg (not_not_intro hq)]
    change (s.requests.modify a.request _)[a.request]? = _
    rw [List.getElem?_modify_eq, hp]
    rfl
  all_goals simp [State.protocolResult, hi]

/-! ## The pipeline -/

/-- The runtime just accepted an `execute`, and the bridge's child is the one that runs it. -/
def begunOn (s : State) (c : BridgeId) (requestId code cwd : PyStr) (g : Signal) : State :=
  s.accept (s.newActive (.execute (utf16 requestId) (utf16 code) (utf16 cwd)) c g
    (js "IPython execution cancelled") none)

/-- What the runtime makes of the lines of an `execute`. -/
def handleLines (repr : Binary64 → PyStr) (s : State) (c : BridgeId) (disk : Disk)
    (ms : List Message) : State :=
  (ms.map (line repr)).foldl (fun s l => s.handleLine c l disk) s

/-- What was sent resolves the request with what was read. -/
theorem handleLines_result (hr : ReadsBack repr) {s : State} {c : BridgeId} {a : Active}
    {requestId : PyStr} (hc : s.child = some c) (ha : s.active = some (capturing a Capture.empty))
    (hi : a.interrupt = none) (hid : a.requestId = utf16 requestId)
    (hp : s.requests[a.request]? = some none) {st : OutputStream} {items : List Item}
    (h : Reads requestId st items) (reply : Received) (disk : Disk) :
    ∃ x : ProtocolResult,
      (handleLines repr s c disk (st.sent ++ [executed other requestId reply])).requests[a.request]? =
        some (some (.resolved x)) ∧
      x.output = plainOutput items ∧ x.images = plainImages items ∧
      x.images.length + x.imagesDropped = (shownImages items).length := by
  obtain ⟨l, hl⟩ := handleLines_addAll hr hi hid disk hc ha h.about h.within
  rw [h.sent] at hl
  obtain ⟨x, hx, h1, h2, h3⟩ := handleLine_executed other hr (a := capturing a (rendered items))
    (s := { s with active := some (capturing a (rendered items)), log := l }) hc rfl hi hid hp reply
    disk
  obtain ⟨r1, r2, r3⟩ := rendered_eq items
  refine ⟨x, ?_, h1.trans r1, h2.trans r2, ?_⟩
  · rw [handleLines, List.map_append, List.foldl_append, hl]
    exact hx
  · rw [h2, h3]
    exact r3

/-- **The output pipeline equals the plain reading**. The iopub messages of the cell are `messages`
and then idle, between any messages of other requests, and a reply comes at any time. Then `execute`
returns, and the lines it sent resolve the request with the plain reading of the messages. -/
theorem execute_output (hr : ReadsBack repr) {s : State} {c : BridgeId} (hc : s.child = some c)
    (g : Signal) (disk : Disk) (requestId code cwd : PyStr) {hidden : PyStr × List Poll}
    {msgId : PyStr} {polls : List Poll} {messages : List Received} {last : Received}
    (hhidden : executeHidden other hidden.1 hidden.2 = .returned ())
    (hown : own msgId polls = messages ++ [last]) (hlast : isIdle last = true)
    (hbusy : ∀ m ∈ messages, isIdle m = false)
    (hreply : ∃ p ∈ polls, p.shell.any (isReply msgId) = true)
    (halive : ∀ p ∈ polls, p.iopub = none → p.shell = none → p.alive = true)
    (hnames : ∀ m ∈ messages, NamesStream other m)
    (hlimit : ∀ p, p <+: messages.filterMap (read other) →
      byteLength (plainOutput p) ≤ outputCaptureLimitBytes) :
    ∃ sent, execute other requestId hidden (msgId, polls) = (sent, .returned ()) ∧
      ∃ x : ProtocolResult,
        (handleLines repr (begunOn s c requestId code cwd g) c disk sent).requests[
          s.requests.length]? = some (some (.resolved x)) ∧
        x.output = plainOutput (messages.filterMap (read other)) ∧
        x.images = plainImages (messages.filterMap (read other)) ∧
        x.images.length + x.imagesDropped =
          (shownImages (messages.filterMap (read other))).length := by
  obtain ⟨reply, hwait⟩ := waitLoop_returned (OutputStream.feed other requestId)
    (w := ⟨⟨false, []⟩, none, false⟩) (.busy hbusy hlast hown) (.inr hreply) halive
  have hreads := (reads_init requestId).receivedAll other hnames hlimit
  rw [List.nil_append] at hreads
  generalize messages.foldl (fun st m => OutputStream.feed other requestId st m.msgType m.content)
    ⟨false, []⟩ = st at hwait hreads
  refine ⟨st.sent ++ [executed other requestId reply], ?_, ?_⟩
  · rw [execute, hhidden]
    simp only [waitForExecution, hwait]
  · exact handleLines_result other hr (s := begunOn s c requestId code cwd g)
      (a := s.newActive (.execute (utf16 requestId) (utf16 code) (utf16 cwd)) c g
        (js "IPython execution cancelled") none)
      hc rfl rfl rfl List.getElem?_concat_length hreads reply disk

/-- A content without keys. -/
def blank : Content := ⟨none, none, none, none, none, none, none, none, none, none⟩

/-- A round with one iopub message. -/
def iopubPoll (id msgType : String) (c : Content) : Poll :=
  ⟨some ⟨some (.str (py id)), some (py msgType), c⟩, none, false⟩

def idleMessage (id : String) : Received :=
  ⟨some (.str (py id)), some (py "status"), { blank with executionState := some (.str (py "idle")) }⟩

/-- A round with a good reply. -/
def replyPoll (id : String) : Poll :=
  ⟨none, some ⟨some (.str (py id)), some (py "execute_reply"),
    { blank with status := some (.str (py "ok")) }⟩, false⟩

def hiddenChdir : PyStr × List Poll :=
  (py "1", [replyPoll "1", ⟨some (idleMessage "1"), none, false⟩])

/-- A cell prints `old`, replaces it by `a` and shows `b`; the reply comes before its output. -/
def clearingCell : List Poll := [
  iopubPoll "2" "stream" { blank with text := some (.str (py "old")) }, replyPoll "2",
  iopubPoll "2" "clear_output" { blank with wait := some (.bool true) },
  iopubPoll "1" "stream" { blank with text := some (.str (py "late")) },
  iopubPoll "2" "stream" { blank with text := some (.str (py "a")) },
  iopubPoll "2" "display_data" { blank with data := some [entry "text/plain" (.str (py "b"))] },
  ⟨some (idleMessage "2"), none, false⟩]

set_option maxRecDepth 8000 in
theorem execute_output_clearingCell :
    ∃ sent, execute (fun _ => []) (py "1") hiddenChdir (py "2", clearingCell) =
      (sent, .returned ()) ∧
    ∃ x : ProtocolResult,
      (handleLines exactRepr (begunOn { State.init with child := some 0, ready := true } 0 (py "1")
        (py "x") (py "/") ⟨none, true⟩) 0 ⟨.error [], none⟩ sent).requests[0]? =
          some (some (.resolved x)) ∧ x.output = js "a\nb\n" := by
  have hown : own (py "2") clearingCell =
      (own (py "2") clearingCell).dropLast ++ [idleMessage "2"] := rfl
  have hlimit : ∀ p ∈ ((own (py "2") clearingCell).dropLast.filterMap (read fun _ => [])).inits,
      byteLength (plainOutput p) ≤ outputCaptureLimitBytes := by decide +kernel
  obtain ⟨sent, hsent, x, hx, ho, -⟩ := execute_output (fun _ => []) exactRepr_readsBack
    (s := { State.init with child := some 0, ready := true }) (c := 0) rfl ⟨none, true⟩
    ⟨.error [], none⟩ (py "1") (py "x") (py "/")
    (show executeHidden (fun _ => []) hiddenChdir.1 hiddenChdir.2 = .returned () from rfl)
    hown rfl (by decide +kernel) (by decide +kernel) (by decide +kernel) (by decide +kernel)
    fun p hp => hlimit p ((List.mem_inits p _).mpr hp)
  exact ⟨sent, hsent, x, hx, ho.trans (by decide +kernel)⟩

end PiIpython.Bridge
