import PiIpython.Lib.Chunks
import PiIpython.Lib.Pairs

/-!
# The transcript of the cells

The part of `CellsView` that records cells in `cells.txt`. `T` are the escape
sequences of the terminal, which `stripVTControlCharacters` removes. Output
comes as texts that grow; each one adds what is new in it to the file, with
its own sequences and control characters removed.

What a chain of texts adds is what the last one adds at once exactly when none
of them ends within an escape sequence, or between the halves of a surrogate
pair that the transcript shows (`deliver_eq_iff`).
-/

namespace PiIpython.Console

open Text

def maxTranscriptBytes : Nat := 16 * 1024 * 1024

/-- Not one of the C0 controls except tab and newline, DEL and the C1 controls. -/
def shows (u : CodeUnit) : Bool :=
  u.toNat > 0x9f || (u.toNat ≥ 0x20 && u.toNat < 0x7f) || u.toNat = 0x09 || u.toNat = 0x0a

/-- A character is kept or removed by its first code unit. -/
def withoutControlCharacters (value : JsStr) : JsStr :=
  (decode16 value).flatMap fun c => if (encode16 c).head?.any shows then encode16 c else []

structure CellsView where
  disposed : Bool
  failure : Option JsStr
  bytes : Nat
  full : Bool
  count : Nat
  latestOutput : JsStr
  /-- The bytes of `cells.txt`, once there is one. -/
  file : Option (List UInt8)
  /-- What the file system throws at a write. -/
  fault : Option JsStr
  deriving DecidableEq

/-- The text that `file()` writes when it creates the transcript. -/
def fileHeader : JsStr :=
  js "IPython cells recorded before this console opened. New cells appear live below the prompt.\n"

def historyLimit : JsStr :=
  js "\n[History limit reached (16 MiB). Recording stopped until /reload.]\n"

namespace CellsView

variable (T : Sequences CodeUnit shows)

def stripVTControlCharacters (value : JsStr) : JsStr := eraseAll T.next value

/-- `appendFileSync(this.file(), text)`. -/
def appendFile (view : CellsView) (text : JsStr) : CellsView :=
  { view with file := some (view.file.getD (utf8 fileHeader) ++ utf8 text) }

def append (view : CellsView) (value : JsStr) : CellsView :=
  if view.disposed || view.failure.isSome || view.full then view
  else
    let text := withoutControlCharacters (stripVTControlCharacters T value)
    let view := { view with bytes := view.bytes + byteLength text }
    match view.fault with
    | some e => { view with failure := some e }
    | none =>
      if view.bytes > maxTranscriptBytes then { view.appendFile historyLimit with full := true }
      else view.appendFile text

def note (view : CellsView) (message : JsStr) : CellsView :=
  view.append T (js "\n[" ++ message ++ js "]\n")

def begin (view : CellsView) (code : JsStr) : CellsView :=
  { view with count := view.count + 1, latestOutput := [] }.append T
    (js "\n=== Cell " ++ decimal (view.count + 1) ++ js " | running ===\n>>> " ++
      join (js "\n... ") (split (unit '\n') code) ++ js "\n\n")

def output (view : CellsView) (text : JsStr) : CellsView :=
  let noted :=
    if ¬ view.latestOutput.isPrefixOf text then view.note T (js "output cleared/replaced") else view
  let appended := noted.append T
    (if view.latestOutput.isPrefixOf text then text.drop view.latestOutput.length else text)
  { appended with latestOutput := text }

/-- The texts of a cell's output, one after the other. -/
def deliver (view : CellsView) (texts : List JsStr) : CellsView := texts.foldl (output T) view

end CellsView

/-! ## Control characters -/

theorem shows_of_le {u : CodeUnit} (h : 0xD800 ≤ u.toNat) : shows u = true := by
  simp only [shows, Bool.or_eq_true, decide_eq_true_eq]
  omega

theorem withoutControlCharacters_eq (value : JsStr) :
    withoutControlCharacters value = value.filter shows := by
  conv_rhs => rw [← utf16_decode16 value]
  rw [withoutControlCharacters]
  induction decode16 value with
  | nil => rfl
  | cons c cs ih =>
    rw [List.flatMap_cons, utf16_cons, List.filter_append, ih]
    congr 1
    have hc := c.isLt
    unfold encode16
    split
    · rw [List.filter_cons]
      rfl
    · have h1 : shows (UInt16.ofNat (0xD800 + (c.val - 0x10000) / 0x400)) = true :=
        shows_of_le (by rw [toNat_ofNat (by omega)]; omega)
      have h2 : shows (UInt16.ofNat (0xDC00 + (c.val - 0x10000) % 0x400)) = true :=
        shows_of_le (by rw [toNat_ofNat (by omega)]; omega)
      rw [List.filter_cons_of_pos h1, List.filter_cons_of_pos h2, List.filter_nil,
        if_pos (by rw [List.head?_cons, Option.any_some]; exact h1)]

/-- A character of the transcript. -/
def Plain (c : CodePoint) : Prop :=
  0x9f < c.val ∨ 0x20 ≤ c.val ∧ c.val < 0x7f ∨ c.val = 0x09 ∨ c.val = 0x0a

/-- **No control character passes**, tab and newline apart. -/
theorem plain_of_mem_scalars {x : JsStr} (hx : ∀ u ∈ x, shows u = true) {c : CodePoint}
    (hc : c ∈ scalars x) : Plain c := by
  obtain ⟨d, hd, rfl⟩ := List.mem_map.mp hc
  split
  · exact .inl (by decide)
  · rcases Nat.lt_or_ge d.val 0xD800 with hlt | hge
    · have hval := toNat_ofNat (show d.val < 0x10000 by omega)
      have hmem : UInt16.ofNat d.val ∈ utf16 (decode16 x) :=
        (mem_utf16_iff (.inl (by omega))).mpr ⟨d, hd, hval.symm⟩
      rw [utf16_decode16] at hmem
      have := hx _ hmem
      simp only [shows, hval, Bool.or_eq_true, Bool.and_eq_true, decide_eq_true_eq] at this
      simp only [Plain]
      omega
    · exact .inl (by omega)

namespace CellsView

variable {T : Sequences CodeUnit shows}

theorem sanitized_eq (value : JsStr) :
    withoutControlCharacters (stripVTControlCharacters T value) = T.shown value :=
  withoutControlCharacters_eq _

/-! ## What is written -/

/-- Recording goes on. -/
structure Recording (view : CellsView) : Prop where
  disposed : view.disposed = false
  failure : view.failure = none
  full : view.full = false
  fault : view.fault = none

/-- An append below the limit writes the text and goes on. -/
theorem append_recording {view : CellsView} (h : view.Recording) {value : JsStr}
    (hfull : (view.append T value).full = false) :
    view.append T value = { view with
      bytes := view.bytes + byteLength (T.shown value)
      file := some (view.file.getD (utf8 fileHeader) ++ utf8 (T.shown value)) } := by
  unfold append at hfull ⊢
  rw [if_neg (by rw [h.disposed, h.failure, h.full]; exact Bool.false_ne_true)] at hfull ⊢
  simp only [h.fault, sanitized_eq] at hfull ⊢
  split at hfull
  · cases hfull
  · next hle => rw [if_neg hle]; rfl

theorem append_full {view : CellsView} (h : view.full = true) (value : JsStr) :
    (view.append T value).full = true := by
  unfold append
  rw [if_pos (by rw [h, Bool.or_true])]
  exact h

theorem output_full {view : CellsView} (h : view.full = true) (text : JsStr) :
    (view.output T text).full = true := by
  unfold output
  refine append_full ?_ _
  split
  · exact append_full h _
  · exact h

theorem deliver_full {view : CellsView} (h : view.full = true) (texts : List JsStr) :
    (view.deliver T texts).full = true := by
  induction texts generalizing view with
  | nil => exact h
  | cons t ts ih => exact ih (output_full h t)

/-- A text that extends the last one adds what is new. -/
theorem output_of_prefix {view : CellsView} {text : JsStr} (h : view.latestOutput <+: text) :
    view.output T text =
      { view.append T (text.drop view.latestOutput.length) with latestOutput := text } := by
  have hp : view.latestOutput.isPrefixOf text = true := List.isPrefixOf_iff_prefix.mpr h
  unfold output
  rw [if_neg (not_not_intro hp), if_pos hp]

/-! ## The chunks of a chain -/

/-- What each text adds to the one before it. -/
def deltas (latest : JsStr) : List JsStr → List JsStr
  | [] => []
  | t :: ts => t.drop latest.length :: deltas t ts

theorem flatten_deltas {latest : JsStr} {texts : List JsStr}
    (h : List.IsChain (· <+: ·) (latest :: texts)) :
    latest ++ (deltas latest texts).flatten = texts.getLastD latest := by
  induction texts generalizing latest with
  | nil => exact List.append_nil latest
  | cons t ts ih =>
    rw [List.isChain_cons_cons] at h
    obtain ⟨d, rfl⟩ := h.1
    rw [deltas, List.drop_left, List.flatten_cons, ← List.append_assoc, ih h.2,
      List.getLastD_cons]

/-- The texts of a chain are the starts of the last one at the boundaries of the chunks. -/
theorem mem_iff_split {latest p : JsStr} {texts : List JsStr}
    (h : List.IsChain (· <+: ·) (latest :: texts)) :
    p ∈ texts ↔ ∃ ys zs, deltas latest texts = ys ++ zs ∧ ys ≠ [] ∧ p = latest ++ ys.flatten := by
  induction texts generalizing latest with
  | nil =>
    refine iff_of_false List.not_mem_nil ?_
    rintro ⟨ys, zs, he, hne, -⟩
    exact hne (List.append_eq_nil_iff.mp he.symm).1
  | cons t ts ih =>
    rw [List.isChain_cons_cons] at h
    obtain ⟨d, rfl⟩ := h.1
    rw [List.mem_cons, ih h.2, deltas, List.drop_left]
    constructor
    · rintro (rfl | ⟨ys, zs, he, -, rfl⟩)
      · exact ⟨[d], _, rfl, List.cons_ne_nil _ _, by rw [List.flatten_singleton]⟩
      · refine ⟨d :: ys, zs, by rw [he]; rfl, List.cons_ne_nil _ _, ?_⟩
        rw [List.flatten_cons, List.append_assoc]
    · rintro ⟨ys, zs, he, hne, rfl⟩
      cases ys with
      | nil => exact absurd rfl hne
      | cons y ys =>
        rw [List.cons_append, List.cons_eq_cons] at he
        obtain ⟨rfl, he⟩ := he
        rw [List.flatten_cons, ← List.append_assoc]
        cases ys with
        | nil => exact .inl (List.append_nil _)
        | cons y ys => exact .inr ⟨y :: ys, zs, he, List.cons_ne_nil _ _, rfl⟩

/-- **A chain of texts writes its chunks**, each sanitised on its own. -/
theorem deliver_file {view : CellsView} (hv : view.Recording) {texts : List JsStr}
    (h : List.IsChain (· <+: ·) (view.latestOutput :: texts))
    (hfull : (view.deliver T texts).full = false) :
    (view.deliver T texts).file = if texts = [] then view.file else
      some (view.file.getD (utf8 fileHeader) ++
        (deltas view.latestOutput texts).flatMap fun d => utf8 (T.shown d)) := by
  induction texts generalizing view with
  | nil => rfl
  | cons t ts ih =>
    rw [List.isChain_cons_cons] at h
    have hout := output_of_prefix (T := T) h.1
    have hstep : (view.append T (t.drop view.latestOutput.length)).full = false := by
      by_contra hne
      rw [Bool.not_eq_false] at hne
      have : (view.output T t).full = true := by rw [hout]; exact hne
      rw [deliver, List.foldl_cons] at hfull
      rw [show List.foldl (output T) (view.output T t) ts = (view.output T t).deliver T ts from rfl,
        deliver_full this] at hfull
      cases hfull
    rw [append_recording hv hstep] at hout
    have hrec : (view.output T t).Recording := by
      rw [hout]
      exact ⟨hv.disposed, hv.failure, hv.full, hv.fault⟩
    have hlatest : (view.output T t).latestOutput = t := by rw [hout]
    have hfile : (view.output T t).file = some (view.file.getD (utf8 fileHeader) ++
        utf8 (T.shown (t.drop view.latestOutput.length))) := by rw [hout]
    rw [if_neg (List.cons_ne_nil _ _)]
    show ((view.output T t).deliver T ts).file = _
    rw [ih hrec (by rw [hlatest]; exact h.2) hfull, hlatest, hfile, deltas, List.flatMap_cons]
    split
    · next hts => rw [hts, deltas, List.flatMap_nil, List.append_nil]
    · rw [Option.getD_some, List.append_assoc]

/-! ## One text or many -/

theorem not_straddles_length (t : JsStr) : ¬ T.Straddles t t.length := by
  rintro ⟨w, s, s', hs, -, -, h⟩
  obtain ⟨p, hp⟩ := Sequences.across_suffix hs
  have := congrArg List.length hp
  rw [List.length_append] at this
  omega

/-- **Chunks read as the whole** when no boundary cuts a sequence or a pair that is shown. -/
theorem scalars_chunks_iff {ds : List JsStr} :
    ds.flatMap (fun d => scalars (T.shown d)) = scalars (T.shown ds.flatten) ↔
      ∀ ys zs, ds = ys ++ zs → ¬ T.Straddles ds.flatten zs.flatten.length ∧
        ¬ Junction (T.shown ys.flatten) (T.shown zs.flatten) := by
  have hmap : ds.flatMap (fun d => scalars (T.shown d)) = (ds.map T.shown).flatMap scalars := by
    rw [List.flatMap_map]
  have hdef : ∀ l : List JsStr, l.flatMap T.shown = (l.map T.shown).flatten :=
    fun _ => List.flatMap_def
  have hunits : ∀ l : List JsStr, (utf16 (l.flatMap scalars)).length = l.flatten.length := by
    intro l
    induction l with
    | nil => rfl
    | cons x l ih =>
      rw [List.flatMap_cons, utf16_append, List.flatten_cons, List.length_append,
        List.length_append, length_utf16_scalars, ih]
  rw [hmap]
  constructor
  · intro h
    have hstr : ∀ ys zs, ds = ys ++ zs → ¬ T.Straddles ds.flatten zs.flatten.length := by
      intro ys zs hds hs
      have hlt := Sequences.shown_flatten_lt hds hs
      have hlen := congrArg (fun x => (utf16 x).length) h
      simp only [hunits, length_utf16_scalars] at hlen
      rw [hdef] at hlt
      omega
    rw [← Sequences.shown_flatten hstr, hdef, flatMap_scalars_iff] at h
    intro ys zs hds
    obtain ⟨hys, hzs⟩ := Sequences.shown_flatten_of_append hstr hds
    refine ⟨hstr ys zs hds, ?_⟩
    rw [← hys, ← hzs, hdef, hdef]
    exact h (ys.map T.shown) (zs.map T.shown) (by rw [hds, List.map_append])
  · intro h
    have hstr : ∀ ys zs, ds = ys ++ zs → ¬ T.Straddles ds.flatten zs.flatten.length :=
      fun ys zs hds => (h ys zs hds).1
    rw [← Sequences.shown_flatten hstr, hdef, flatMap_scalars_iff]
    intro xs xs' hxs
    obtain ⟨ys, zs, hds, rfl, rfl⟩ := List.map_eq_append_iff.mp hxs
    obtain ⟨hys, hzs⟩ := Sequences.shown_flatten_of_append hstr hds
    rw [← hdef, ← hdef, hys, hzs]
    exact (h ys zs hds).2

/-- The text that is written, as characters. -/
theorem flatMap_utf8 (ds : List JsStr) : (ds.flatMap fun d => utf8 (T.shown d)) =
    Text.bytes (ds.flatMap fun d => scalars (T.shown d)) := by
  rw [Text.bytes, List.flatMap_assoc]
  rfl

/-- **The transcript is that of the whole output**, without control characters, exactly when no
text of the chain ends within an escape sequence or within a surrogate pair that is shown. -/
theorem deliver_eq_iff {view : CellsView} (hv : view.Recording) (hlatest : view.latestOutput = [])
    {text : JsStr} {texts : List JsStr} (hchain : List.IsChain (· <+: ·) texts)
    (hlast : texts.getLast? = some text) (hbelow : (view.deliver T texts).full = false)
    (hbelow' : (view.output T text).full = false) :
    ((view.deliver T texts).file = (view.output T text).file ∧
      ∃ added, (view.deliver T texts).file =
        some (view.file.getD (utf8 fileHeader) ++ Text.bytes added) ∧ ∀ c ∈ added, Plain c) ↔
    ∀ p ∈ texts, ¬ T.Straddles text (text.length - p.length) ∧
      ¬ Junction (T.shown p) (T.shown (text.drop p.length)) := by
  have hne : texts ≠ [] := by
    rintro rfl
    cases hlast
  have hstart : ∀ ts : List JsStr, List.IsChain (· <+: ·) ts →
      List.IsChain (· <+: ·) (view.latestOutput :: ts) := by
    intro ts hts
    rw [hlatest]
    cases ts with
    | nil => exact .singleton _
    | cons t ts => exact .cons_cons List.nil_prefix hts
  have hc := hstart texts hchain
  have hflat : (deltas view.latestOutput texts).flatten = text := by
    have := flatten_deltas hc
    rw [hlatest, List.nil_append, List.getLastD_eq_getLast?, hlast] at this
    rw [hlatest]
    exact this
  have hmany := deliver_file hv hc hbelow
  have hone : (view.output T text).file =
      some (view.file.getD (utf8 fileHeader) ++ Text.bytes (scalars (T.shown text))) := by
    have := deliver_file (T := T) hv (hstart [text] (.singleton text)) hbelow'
    rw [if_neg (List.cons_ne_nil _ _), hlatest] at this
    exact this.trans (by rw [deltas, deltas, List.flatMap_singleton]; rfl)
  rw [if_neg hne, flatMap_utf8] at hmany
  have hplain : ∃ added, (view.deliver T texts).file =
      some (view.file.getD (utf8 fileHeader) ++ Text.bytes added) ∧ ∀ c ∈ added, Plain c := by
    refine ⟨_, hmany, fun c hcm => ?_⟩
    obtain ⟨d, -, hd⟩ := List.mem_flatMap.mp hcm
    exact plain_of_mem_scalars (fun u hu => (List.mem_filter.mp hu).2) hd
  have hsame : (view.deliver T texts).file = (view.output T text).file ↔
      ((deltas view.latestOutput texts).flatMap fun d => scalars (T.shown d)) =
        scalars (T.shown (deltas view.latestOutput texts).flatten) := by
    rw [hmany, hone, Option.some_inj, List.append_right_inj, bytes_inj, hflat]
  rw [and_iff_left hplain, hsame, scalars_chunks_iff, hflat]
  have hcut : ∀ {ys zs : List JsStr}, deltas view.latestOutput texts = ys ++ zs →
      text.length - ys.flatten.length = zs.flatten.length ∧
        text.drop ys.flatten.length = zs.flatten := by
    intro ys zs h
    rw [← hflat, h, List.flatten_append]
    exact ⟨by rw [List.length_append]; omega, List.drop_left⟩
  constructor
  · intro h p hp
    obtain ⟨ys, zs, hds, -, rfl⟩ := (mem_iff_split hc).mp hp
    rw [hlatest, List.nil_append, (hcut hds).1, (hcut hds).2]
    exact h ys zs hds
  · intro h ys zs hds
    by_cases hys : ys = []
    · subst hys
      have hz : zs.flatten = text := by rw [← (hcut hds).2]; rfl
      have hnil : T.shown ([] : List JsStr).flatten = [] := by
        rw [List.flatten_nil, Sequences.shown, eraseAll_nil]
        rfl
      rw [hz, hnil]
      exact ⟨not_straddles_length text, not_junction_nil _⟩
    · have := h ys.flatten ((mem_iff_split hc).mpr ⟨ys, zs, hds, hys, by rw [hlatest]; rfl⟩)
      rwa [(hcut hds).1, (hcut hds).2] at this

end CellsView

/-! ## Control sequences -/

def parameter (u : CodeUnit) : Bool := 0x30 ≤ u.toNat && u.toNat ≤ 0x3f

def intermediate (u : CodeUnit) : Bool := 0x20 ≤ u.toNat && u.toNat ≤ 0x2f

def final (u : CodeUnit) : Bool := 0x40 ≤ u.toNat && u.toNat ≤ 0x7e

/-- What follows a control sequence: ESC [, parameter and intermediate bytes, a final byte. -/
def controlNext : JsStr → Option JsStr
  | c :: d :: us =>
    if c = 0x1b ∧ d = unit '[' then
      match (us.dropWhile parameter).dropWhile intermediate with
      | f :: rest => if final f then some rest else none
      | [] => none
    else none
  | _ => none

theorem controlNext_eq_some {s rest : JsStr} : controlNext s = some rest ↔
    ∃ ps is f, s = 0x1b :: unit '[' :: (ps ++ (is ++ f :: rest)) ∧
      (∀ u ∈ ps, parameter u = true) ∧ (∀ u ∈ is, intermediate u = true) ∧ final f = true := by
  constructor
  · intro h
    match s with
    | [] => cases h
    | [_] => cases h
    | c :: d :: us =>
      rw [controlNext] at h
      split at h
      · next hcd =>
        split at h
        · next f rest' hf =>
          split at h
          · next hfin =>
            cases h
            refine ⟨us.takeWhile parameter, (us.dropWhile parameter).takeWhile intermediate, f, ?_,
              fun _ => List.mem_takeWhile_imp, fun _ => List.mem_takeWhile_imp, hfin⟩
            rw [hcd.1, hcd.2, ← hf, List.takeWhile_append_dropWhile,
              List.takeWhile_append_dropWhile]
          · cases h
        · cases h
      · cases h
  · rintro ⟨ps, is, f, rfl, hps, his, hf⟩
    have hnot : intermediate f = false ∧ parameter f = false := by
      simp only [final, intermediate, parameter, Bool.and_eq_true, Bool.and_eq_false_iff,
        decide_eq_true_eq, decide_eq_false_iff_not] at hf ⊢
      omega
    have hi : ∀ u us, intermediate u = true → List.dropWhile parameter (u :: us) = u :: us := by
      intro u us hu
      refine List.dropWhile_cons_of_neg ?_
      simp only [intermediate, parameter, Bool.and_eq_true, decide_eq_true_eq] at hu ⊢
      omega
    have hp : List.dropWhile parameter (is ++ f :: rest) = is ++ f :: rest := by
      cases is with
      | nil => exact List.dropWhile_cons_of_neg (by rw [hnot.2]; exact Bool.false_ne_true)
      | cons u is => exact hi u _ (his u List.mem_cons_self)
    rw [controlNext, if_pos ⟨rfl, rfl⟩, List.dropWhile_append_of_pos hps, hp,
      List.dropWhile_append_of_pos his,
      List.dropWhile_cons_of_neg (by rw [hnot.1]; exact Bool.false_ne_true)]
    exact if_pos hf

theorem word_eq {w rest ps is : JsStr} {f : CodeUnit}
    (h : w ++ rest = 0x1b :: unit '[' :: (ps ++ (is ++ f :: rest))) :
    w = 0x1b :: unit '[' :: (ps ++ (is ++ [f])) := by
  have hs : w ++ rest = (0x1b :: unit '[' :: (ps ++ (is ++ [f]))) ++ rest := by
    rw [h]
    simp only [List.cons_append, List.append_assoc, List.nil_append]
  exact List.append_cancel_right hs

/-- Beyond its ESC a control sequence has none. -/
theorem controlNext_esc {u v rest x r : JsStr} (hu : u ≠ []) (hv : v ≠ [])
    (h : controlNext (u ++ (v ++ rest)) = some rest) : controlNext (v ++ x) ≠ some r := by
  intro h'
  obtain ⟨ps, is, f, hs, hps, his, hf⟩ := controlNext_eq_some.mp h
  obtain ⟨ps', is', f', hs', -⟩ := controlNext_eq_some.mp h'
  have hin : (0x1b : CodeUnit) ∈ v := by
    cases v with
    | nil => exact absurd rfl hv
    | cons y v => rw [List.cons_append, List.cons_eq_cons] at hs'; rw [hs'.1]; exact List.mem_cons_self
  have hword : u ++ v = 0x1b :: unit '[' :: (ps ++ (is ++ [f])) := by
    rw [← List.append_assoc] at hs
    exact word_eq hs
  obtain ⟨c, u, rfl⟩ := List.exists_cons_of_ne_nil hu
  rw [List.cons_append, List.cons_eq_cons] at hword
  have hmem : (0x1b : CodeUnit) ∈ unit '[' :: (ps ++ (is ++ [f])) := by
    rw [← hword.2]
    exact List.mem_append_right _ hin
  rw [List.mem_cons, List.mem_append, List.mem_append, List.mem_singleton] at hmem
  rcases hmem with h | h | h | h
  · exact absurd h (by decide)
  · exact absurd (hps _ h) (by decide)
  · exact absurd (his _ h) (by decide)
  · rw [← h] at hf
    exact absurd hf (by decide)

/-- The control sequences, each of which tells where it ends. -/
def controlSequences : Sequences CodeUnit shows where
  next := controlNext
  begins := by
    intro s rest h
    obtain ⟨ps, is, f, rfl, -⟩ := controlNext_eq_some.mp h
    refine ⟨0x1b, unit '[', ps ++ (is ++ [f]), ?_, by decide, by decide⟩
    simp only [List.append_assoc, List.cons_append, List.nil_append]
  delimited := by
    intro w rest rest' h
    obtain ⟨ps, is, f, hs, hps, his, hf⟩ := controlNext_eq_some.mp h
    refine controlNext_eq_some.mpr ⟨ps, is, f, ?_, hps, his, hf⟩
    rw [word_eq hs]
    simp only [List.cons_append, List.append_assoc, List.nil_append]
  nested := fun hu hv h h' => absurd h' (controlNext_esc hu hv h)

namespace CellsView

/-- A cell has begun, and nothing is written yet. -/
def begun : CellsView := ⟨false, none, 0, false, 1, [], none, none⟩

def redText : JsStr := js "\x1b[31mred"

theorem deliver_eq_red :
    ¬ controlSequences.Straddles redText (redText.length - (js "\x1b[31m").length) ∧
      ¬ Junction (controlSequences.shown (js "\x1b[31m"))
        (controlSequences.shown (redText.drop (js "\x1b[31m").length)) := by
  have hbegun : begun.Recording := ⟨rfl, rfl, rfl, rfl⟩
  have hchain : List.IsChain (· <+: ·) [js "\x1b[31m", redText] := by decide
  have hfile : (begun.deliver controlSequences [js "\x1b[31m", redText]).file =
      some (utf8 fileHeader ++ Text.bytes (scalars (js "red"))) := by decide +kernel
  have hred : ∀ u ∈ js "red", shows u = true := List.all_eq_true.mp rfl
  refine (deliver_eq_iff hbegun rfl hchain rfl (by decide +kernel) (by decide +kernel)).mp
    ⟨?_, scalars (js "red"), hfile, fun c hc => plain_of_mem_scalars hred hc⟩ _ List.mem_cons_self
  decide +kernel

/-- **A sequence that comes in two parts** is shown in part. -/
theorem deliver_cut :
    (begun.deliver controlSequences [js "\x1b[3", redText]).file =
        some (utf8 fileHeader ++ utf8 (js "[31mred")) ∧
      (begun.output controlSequences redText).file =
        some (utf8 fileHeader ++ utf8 (js "red")) := by
  decide +kernel

end CellsView

end PiIpython.Console
