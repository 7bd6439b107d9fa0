import PiIpython.Console.Transcript

/-!
# The transcript of a session

Cells call the view many times, and the file system can begin or cease to fail
between two calls. `CellsView.entries` says what a run of calls has to record,
whatever becomes of it. `kept` are the entries that the file holds and `rest`
those that come after the transcript is full or has failed.
-/

namespace PiIpython.Console

open Text

namespace CellsView

variable (T : Sequences CodeUnit shows)

/-- The transcript of a new view. -/
def opened : CellsView := ⟨false, none, 0, false, 0, [], none, none⟩

/-- `seconds` is how long the cell took. -/
def finish (view : CellsView) (status seconds : JsStr) : CellsView :=
  { view.note T (js "Cell " ++ decimal view.count ++ js " | " ++ status ++ js " | " ++ seconds ++
      js "s") with latestOutput := [] }

inductive Call
  | begin (code : JsStr)
  | output (text : JsStr)
  | note (message : JsStr)
  | finish (status seconds : JsStr)
  /-- What the file system throws from now on. -/
  | faulted (fault : Option JsStr)
  deriving DecidableEq

def call (view : CellsView) : Call → CellsView
  | .begin code => view.begin T code
  | .output text => view.output T text
  | .note message => view.note T message
  | .finish status seconds => view.finish T status seconds
  | .faulted fault => { view with fault := fault }

def record (view : CellsView) (calls : List Call) : CellsView := calls.foldl (call T) view

/-! ## What there is to record -/

def bracketed (message : JsStr) : JsStr := js "\n[" ++ message ++ js "]\n"

def heading (count : Nat) (code : JsStr) : JsStr :=
  js "\n=== Cell " ++ decimal count ++ js " | running ===\n>>> " ++
    join (js "\n... ") (split (unit '\n') code) ++ js "\n\n"

/-- The text of a call, after `count` cells and the output `latest`. -/
def Call.entries (count : Nat) (latest : JsStr) : Call → List JsStr
  | .begin code => [heading (count + 1) code]
  | .output text =>
    if latest.isPrefixOf text then [text.drop latest.length]
    else [bracketed (js "output cleared/replaced"), text]
  | .note message => [bracketed message]
  | .finish status seconds =>
    [bracketed (js "Cell " ++ decimal count ++ js " | " ++ status ++ js " | " ++ seconds ++ js "s")]
  | .faulted _ => []

def Call.count (count : Nat) : Call → Nat
  | .begin _ => count + 1
  | _ => count

def Call.latest (latest : JsStr) : Call → JsStr
  | .output text => text
  | .begin _ | .finish .. => []
  | _ => latest

def entries (count : Nat) (latest : JsStr) : List Call → List JsStr
  | [] => []
  | c :: cs => c.entries count latest ++ entries (c.count count) (c.latest latest) cs

/-- How much of the limit texts take. -/
def size (texts : List JsStr) : Nat := (texts.map fun t => byteLength (T.shown t)).sum

/-- The file holds the header and the entries `kept`, then says when the limit was reached. -/
structure Records (view : CellsView) (kept rest : List JsStr) : Prop where
  file : view.file =
    if kept = [] ∧ view.full = false then none
    else some (utf8 fileHeader ++ (kept.flatMap fun t => utf8 (T.shown t)) ++
      if view.full then utf8 historyLimit else [])
  within : size T kept ≤ maxTranscriptBytes
  /-- Entries are left out once the file is full or could not be written. -/
  missing : rest ≠ [] → view.full = true ∨ view.failure.isSome
  /-- It is full when the next entry does not fit. -/
  reached : view.full = true →
    ∃ t ts, rest = t :: ts ∧ maxTranscriptBytes < size T kept + byteLength (T.shown t)
  counted : view.full = false → view.failure = none → view.bytes = size T kept
  active : view.disposed = false

variable {T : Sequences CodeUnit shows}

/-! ## An append -/

theorem size_append (xs ys : List JsStr) : size T (xs ++ ys) = size T xs + size T ys := by
  rw [size, List.map_append, List.sum_append]
  rfl

/-- An append changes only what is written. -/
theorem append_frame (view : CellsView) (value : JsStr) :
    (view.append T value).count = view.count ∧
      (view.append T value).latestOutput = view.latestOutput := by
  unfold append
  split
  · exact ⟨rfl, rfl⟩
  · simp only
    split
    · exact ⟨rfl, rfl⟩
    · split <;> exact ⟨rfl, rfl⟩

theorem append_stopped {view : CellsView} (h : view.full = true ∨ view.failure.isSome)
    (value : JsStr) : view.append T value = view := by
  unfold append
  rw [if_pos]
  rcases h with h | h
  · rw [h, Bool.or_true]
  · rw [h, Bool.or_true, Bool.true_or]

theorem append_throws {view : CellsView} (ha : view.disposed = false) (hfull : view.full = false)
    (hfail : view.failure = none) {e : JsStr} (he : view.fault = some e) (value : JsStr) :
    view.append T value = { view with
      bytes := view.bytes + byteLength (T.shown value), failure := some e } := by
  unfold append
  rw [if_neg (by rw [ha, hfail, hfull]; exact Bool.false_ne_true)]
  simp only [he, sanitized_eq]

theorem append_over {view : CellsView} (h : view.Recording) {value : JsStr}
    (hover : maxTranscriptBytes < view.bytes + byteLength (T.shown value)) :
    view.append T value = { view with
      bytes := view.bytes + byteLength (T.shown value), full := true
      file := some (view.file.getD (utf8 fileHeader) ++ utf8 historyLimit) } := by
  unfold append
  rw [if_neg (by rw [h.disposed, h.failure, h.full]; exact Bool.false_ne_true)]
  simp only [h.fault, sanitized_eq]
  rw [if_pos hover]
  rfl

theorem append_within {view : CellsView} (h : view.Recording) {value : JsStr}
    (hle : view.bytes + byteLength (T.shown value) ≤ maxTranscriptBytes) :
    view.append T value = { view with
      bytes := view.bytes + byteLength (T.shown value)
      file := some (view.file.getD (utf8 fileHeader) ++ utf8 (T.shown value)) } := by
  unfold append
  rw [if_neg (by rw [h.disposed, h.failure, h.full]; exact Bool.false_ne_true)]
  simp only [h.fault, sanitized_eq]
  rw [if_neg (Nat.not_lt.mpr hle)]
  rfl

theorem Records.rest_eq_nil {view : CellsView} {kept rest : List JsStr}
    (h : view.Records T kept rest) (hfull : view.full = false) (hfail : view.failure = none) :
    rest = [] := by
  by_contra hne
  rcases h.missing hne with hf | hf
  · rw [hfull] at hf
    cases hf
  · rw [hfail] at hf
    cases hf

theorem Records.getD_file {view : CellsView} {kept rest : List JsStr}
    (h : view.Records T kept rest) (hfull : view.full = false) :
    view.file.getD (utf8 fileHeader) =
      utf8 fileHeader ++ kept.flatMap fun t => utf8 (T.shown t) := by
  rw [h.file, hfull]
  split
  · next hk => rw [hk.1, List.flatMap_nil, List.append_nil]; rfl
  · rw [if_neg Bool.false_ne_true, List.append_nil]
    rfl

/-- **An append records one more entry**, or the file is full, or has failed. -/
theorem Records.append {view : CellsView} {kept rest : List JsStr} (h : view.Records T kept rest)
    (value : JsStr) : ∃ kept' rest', (view.append T value).Records T kept' rest' ∧
      kept' ++ rest' = kept ++ rest ++ [value] := by
  by_cases hstop : view.full = true ∨ view.failure.isSome
  · refine ⟨kept, rest ++ [value], ?_, (List.append_assoc ..).symm⟩
    rw [append_stopped hstop]
    refine ⟨h.file, h.within, fun _ => hstop, fun hf => ?_, h.counted, h.active⟩
    obtain ⟨t, ts, rfl, hlt⟩ := h.reached hf
    exact ⟨t, ts ++ [value], rfl, hlt⟩
  rw [not_or, Bool.not_eq_true, Bool.not_eq_true, Option.isSome_eq_false_iff,
    Option.isNone_iff_eq_none] at hstop
  obtain ⟨hfull, hfail⟩ := hstop
  have hbytes := h.counted hfull hfail
  obtain rfl := h.rest_eq_nil hfull hfail
  rw [List.append_nil]
  cases hfault : view.fault with
  | some e =>
    refine ⟨kept, [value], ?_, rfl⟩
    rw [append_throws h.active hfull hfail hfault]
    exact ⟨h.file, h.within, fun _ => .inr rfl, fun hf => absurd (hfull.symm.trans hf) nofun,
      nofun, h.active⟩
  | none =>
    have hrec : view.Recording := ⟨h.active, hfail, hfull, hfault⟩
    by_cases hover : maxTranscriptBytes < view.bytes + byteLength (T.shown value)
    · refine ⟨kept, [value], ?_, rfl⟩
      rw [append_over hrec hover, h.getD_file hfull]
      refine ⟨?_, h.within, fun _ => .inl rfl, fun _ => ⟨value, [], rfl, by rwa [← hbytes]⟩,
        nofun, h.active⟩
      rw [if_neg (fun hk => absurd hk.2 nofun), if_pos rfl]
    · rw [Nat.not_lt] at hover
      refine ⟨kept ++ [value], [], ?_, List.append_nil _⟩
      rw [append_within hrec hover, h.getD_file hfull]
      refine ⟨?_, ?_, fun hne => absurd rfl hne, fun hf => absurd (hfull.symm.trans hf) nofun,
        fun _ _ => ?_, h.active⟩
      · rw [if_neg (fun hk => List.append_ne_nil_of_right_ne_nil kept (List.cons_ne_nil value []) hk.1), hfull,
          if_neg Bool.false_ne_true, List.append_nil, List.flatMap_append, List.append_assoc,
          List.flatMap_singleton]
      · rw [size_append, ← hbytes]
        exact hover
      · rw [size_append, ← hbytes]
        rfl

/-! ## A run of calls -/

/-- Counters and what the file system throws have no part in what is recorded. -/
theorem Records.congr {view view' : CellsView} {kept rest : List JsStr}
    (h : view.Records T kept rest) (hfile : view'.file = view.file) (hfull : view'.full = view.full)
    (hfail : view'.failure = view.failure) (hbytes : view'.bytes = view.bytes)
    (hactive : view'.disposed = view.disposed) : view'.Records T kept rest := by
  refine ⟨?_, h.within, ?_, ?_, ?_, hactive.trans h.active⟩
  · rw [hfile, hfull]
    exact h.file
  · rw [hfull, hfail]
    exact h.missing
  · rw [hfull]
    exact h.reached
  · rw [hfull, hfail, hbytes]
    exact h.counted

theorem call_frame (view : CellsView) (c : Call) :
    (view.call T c).count = c.count view.count ∧
      (view.call T c).latestOutput = c.latest view.latestOutput := by
  cases c with
  | begin code => exact append_frame (T := T) { view with count := _, latestOutput := [] } _
  | output text =>
    refine ⟨((append_frame _ _).1).trans ?_, rfl⟩
    split
    · exact (append_frame view _).1
    · rfl
  | note message => exact append_frame view _
  | finish status seconds => exact ⟨(append_frame view _).1, rfl⟩
  | faulted fault => exact ⟨rfl, rfl⟩

theorem Records.call {view : CellsView} {kept rest : List JsStr} (h : view.Records T kept rest)
    (c : Call) : ∃ kept' rest', (view.call T c).Records T kept' rest' ∧
      kept' ++ rest' = kept ++ rest ++ c.entries view.count view.latestOutput := by
  cases c with
  | begin code =>
    have hnext : Records T { view with count := view.count + 1, latestOutput := [] } kept rest :=
      h.congr rfl rfl rfl rfl rfl
    exact hnext.append _
  | note message => exact h.append _
  | finish status seconds =>
    obtain ⟨kept', rest', hr, he⟩ := h.append (bracketed (js "Cell " ++ decimal view.count ++
      js " | " ++ status ++ js " | " ++ seconds ++ js "s"))
    exact ⟨kept', rest', hr.congr rfl rfl rfl rfl rfl, he⟩
  | faulted fault =>
    exact ⟨kept, rest, h.congr rfl rfl rfl rfl rfl, (List.append_nil _).symm⟩
  | output text =>
    by_cases hp : view.latestOutput.isPrefixOf text = true
    · obtain ⟨kept', rest', hr, he⟩ := h.append (text.drop view.latestOutput.length)
      refine ⟨kept', rest', ?_, ?_⟩
      · refine hr.congr ?_ ?_ ?_ ?_ ?_ <;>
          simp only [CellsView.call, output, hp, not_true_eq_false, if_false, if_true]
      · rw [he, Call.entries, if_pos hp]
    · obtain ⟨kept₁, rest₁, h₁, e₁⟩ := h.append (bracketed (js "output cleared/replaced"))
      obtain ⟨kept', rest', hr, he⟩ := h₁.append text
      refine ⟨kept', rest', ?_, ?_⟩
      · refine hr.congr ?_ ?_ ?_ ?_ ?_ <;>
          · simp only [CellsView.call, output, hp]
            rfl
      · rw [he, e₁, Call.entries, if_neg hp, List.append_assoc]
        rfl

theorem Records.record {view : CellsView} {kept rest : List JsStr} (h : view.Records T kept rest)
    (calls : List Call) : ∃ kept' rest', (view.record T calls).Records T kept' rest' ∧
      kept' ++ rest' = kept ++ rest ++ entries view.count view.latestOutput calls := by
  induction calls generalizing view kept rest with
  | nil => exact ⟨kept, rest, h, (List.append_nil _).symm⟩
  | cons c cs ih =>
    obtain ⟨kept₁, rest₁, h₁, e₁⟩ := h.call c
    obtain ⟨kept', rest', hr, he⟩ := ih h₁
    refine ⟨kept', rest', hr, ?_⟩
    rw [he, e₁, (call_frame view c).1, (call_frame view c).2, entries, List.append_assoc]

theorem records_opened : opened.Records T [] [] :=
  ⟨(if_pos ⟨rfl, rfl⟩).symm, Nat.zero_le _, fun h => absurd rfl h, nofun, fun _ _ => rfl, rfl⟩

/-! ## The file only grows -/

/-- What is written stays. -/
theorem append_grows (view : CellsView) (value : JsStr) :
    view.file.getD [] <+: (view.append T value).file.getD [] := by
  have hgrow : ∀ text : List UInt8, view.file.getD [] <+:
      view.file.getD (utf8 fileHeader) ++ text := by
    intro text
    cases view.file with
    | none => exact List.nil_prefix
    | some bytes => exact List.prefix_append _ _
  unfold append
  split
  · exact List.prefix_rfl
  · simp only
    split
    · exact List.prefix_rfl
    · split
      · exact hgrow _
      · exact hgrow _

theorem call_grows (view : CellsView) (c : Call) :
    view.file.getD [] <+: (view.call T c).file.getD [] := by
  cases c with
  | begin code => exact append_grows (T := T) { view with count := _, latestOutput := [] } _
  | note message => exact append_grows view _
  | finish status seconds => exact append_grows view _
  | faulted fault => exact List.prefix_rfl
  | output text =>
    refine List.IsPrefix.trans ?_ (append_grows (T := T) _ _)
    split
    · exact append_grows view _
    · exact List.prefix_rfl

theorem record_grows (view : CellsView) (calls : List Call) :
    view.file.getD [] <+: (view.record T calls).file.getD [] := by
  induction calls generalizing view with
  | nil => exact List.prefix_rfl
  | cons c cs ih => exact (call_grows view c).trans (ih (view.call T c))

end CellsView

end PiIpython.Console
