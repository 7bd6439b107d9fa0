import PiIpython.Bridge.Answers
import PiIpython.Bridge.Unforged
import PiIpython.Runtime.Groups

/-!
# The bridge and the runtime agree

A run of the runtime whose lines are what its bridges wrote: `sent c` are the
messages that `main` sent in the bridge `c` before it was stopped, at any
moment. The runtime takes each line for the message that it is, refuses none of
the startup, and stops a bridge for a line only when the bridge said that it or
a request failed (`all_understood`).
-/

namespace PiIpython.Bridge

open Text Json PiIpython.Runtime PiIpython.Runtime.State

variable {repr : Binary64 → PyStr} {other reprOf : PyValue → PyStr} {s t u : State} {c : BridgeId}
  {m : Message}

/-! ## What a bridge sends -/

/-- A message of the startup. -/
def IsStartup : Message → Prop
  | .kernelStarted _ => True
  | .ready .. => True
  | _ => False

/-- The group is announced first, then ready with it, and nothing announced after that. -/
def Announces (l : Launch) (ms : List Message) : Prop :=
  ∃ first rest, ms = first ++ rest ∧ (∀ m ∈ rest, ¬ IsStartup m) ∧
    (first = [] ∨ ∃ g, 1 < g ∧ l.kernelPgid = some g ∧
      (first = [.kernelStarted g] ∨ first = [.kernelStarted g, .ready g l.connectionFile]))

theorem not_startup_of_fatal (h : IsFatal m) : ¬ IsStartup m := by
  obtain ⟨e, traceback, rfl⟩ := h
  exact id

theorem not_startup_of_output {id : PyValue} (h : OutputOf id m) : ¬ IsStartup m := by
  obtain ⟨requestId, -, h⟩ := h
  cases m with
  | kernelStarted g => exact h.elim
  | ready g file => exact h.elim
  | _ => exact nofun

theorem not_startup_of_end {id : PyValue} (h : EndOf id m) : ¬ IsStartup m := by
  rcases h with ⟨requestId, -, h⟩ | ⟨e, traceback, rfl⟩
  · cases m with
    | kernelStarted g => cases h
    | ready g file => cases h
    | _ => exact nofun
  · exact nofun

theorem not_startup_of_blocks : ∀ {served : List (PyStr × Met)} {blocks : List (List Message)},
    List.Forall₂ (fun r block => Answers (idOf r.1) block) served blocks →
      ∀ m ∈ blocks.flatten, ¬ IsStartup m
  | _, _, .nil => List.forall_mem_nil _
  | _, _, .cons h hs => by
    rw [List.flatten_cons, List.forall_mem_append]
    refine ⟨?_, not_startup_of_blocks hs⟩
    obtain ⟨outputs, m, rfl, hout, hend⟩ := h
    exact List.forall_mem_append.mpr ⟨fun o ho => not_startup_of_output (hout o ho),
      List.forall_mem_singleton.mpr (not_startup_of_end hend)⟩

theorem not_startup_of_ended {ms : List Message} {next : Next} {rest : List (PyStr × Met)}
    (h : Ended repr ms next rest) : ∀ m ∈ ms, ¬ IsStartup m := by
  cases h with
  | input => exact List.forall_mem_nil _
  | shutdown _ => exact List.forall_mem_nil _
  | waits h => exact fun m hm => not_startup_of_output (h m hm)
  | raises h _ => exact fun m hm => not_startup_of_output (h m hm)

theorem announces_main (l : Launch) (requests : List (PyStr × Met)) :
    Announces l (main repr other reprOf l requests) := by
  rcases main_answers repr other reprOf l requests with
    ⟨ms, last, hmain, hlast, hms⟩ |
    ⟨g, next, served, rest, blocks, last, fatals, hg, hl, hmain, -, hall, hended, hfatal, -⟩
  · refine ⟨ms, last, hmain, fun m hm => not_startup_of_fatal (hlast m hm), hms.imp id ?_⟩
    rintro ⟨g, hg, hl, rfl⟩
    exact ⟨g, hg, hl, .inl rfl⟩
  · refine ⟨_, _, hmain.trans (List.append_assoc ..), ?_, .inr ⟨g, hg, hl, .inr rfl⟩⟩
    exact List.forall_mem_append.mpr ⟨List.forall_mem_append.mpr
      ⟨not_startup_of_blocks hall, not_startup_of_ended hended⟩,
      fun m hm => not_startup_of_fatal (hfatal m hm)⟩

theorem Announces.left {l : Launch} {ms : List Message} (more : List Message)
    (h : Announces l (ms ++ more)) : Announces l ms := by
  obtain ⟨first, rest, he, hrest, hfirst⟩ := h
  rcases List.append_eq_append_iff.mp he with ⟨x, rfl, -⟩ | ⟨x, rfl, rfl⟩
  · refine ⟨ms, [], (List.append_nil ms).symm, List.forall_mem_nil _, ?_⟩
    rcases hfirst with hfirst | ⟨g, hg, hl, hfirst | hfirst⟩
    · exact .inl (List.append_eq_nil_iff.mp hfirst).1
    · rcases List.append_eq_singleton_iff.mp hfirst with ⟨rfl, -⟩ | ⟨rfl, -⟩
      · exact .inl rfl
      · exact .inr ⟨g, hg, hl, .inl rfl⟩
    · rcases List.append_eq_cons_iff.mp hfirst with ⟨rfl, -⟩ | ⟨ys, rfl, hys⟩
      · exact .inl rfl
      · rcases List.append_eq_singleton_iff.mp hys.symm with ⟨rfl, -⟩ | ⟨rfl, -⟩
        · exact .inr ⟨g, hg, hl, .inl rfl⟩
        · exact .inr ⟨g, hg, hl, .inr rfl⟩
  · exact ⟨first, x, rfl, fun m hm => hrest m (List.mem_append_left _ hm), hfirst⟩

/-- Process ids are small integers and the connection file is an absolute path. -/
def Launch.Posix (l : Launch) : Prop :=
  (∀ g, l.kernelPgid = some g → g ≤ 2 ^ 53 - 1) ∧ l.connectionFile.head? = some (chr '/')

/-- The bridge sent these messages, up to any moment. -/
def Sent (repr : Binary64 → PyStr) (other reprOf : PyValue → PyStr) (ms : List Message) : Prop :=
  ∃ l requests, l.Posix ∧ ms <+: main repr other reprOf l requests

/-- The bridge announces nothing, or a safe group once, and is ready only with this group. -/
def Welcome (ms : List Message) : Prop :=
  (∀ m ∈ ms, ¬ IsStartup m) ∨
  ∃ g rest, IsSafeGroup g ∧ ms = .kernelStarted g :: rest ∧ ∀ m ∈ rest, IsStartup m →
    ∃ file, m = .ready g file ∧ file.head? = some (chr '/')

theorem Sent.welcome {ms : List Message} (h : Sent repr other reprOf ms) : Welcome ms := by
  obtain ⟨l, requests, ⟨hpgid, hfile⟩, more, hmore⟩ := h
  obtain ⟨first, rest, rfl, hrest, hfirst⟩ :=
    Announces.left more (hmore ▸ announces_main l requests)
  rcases hfirst with rfl | ⟨g, hg, hl, hfirst⟩
  · exact .inl hrest
  · refine .inr ⟨g, first.tail ++ rest, ⟨hg, hpgid g hl⟩, ?_, ?_⟩
    · rcases hfirst with rfl | rfl <;> rfl
    · refine List.forall_mem_append.mpr ⟨?_, fun m hm hs => absurd hs (hrest m hm)⟩
      rcases hfirst with rfl | rfl
      · exact List.forall_mem_nil _
      · exact List.forall_mem_singleton.mpr fun _ => ⟨_, rfl, hfile⟩

/-! ## The text of a message -/

theorem safeInteger_round {g : Int} (h : g.natAbs < 2 ^ 53) :
    safeInteger? (Binary64.round (g < 0) g.natAbs) = some g := by
  have hexact : (Binary64.round (g < 0) g.natAbs).toRat? = some (g : ℚ) :=
    (Binary64.round_int_iff g).mpr ⟨g.natAbs, 0, by rw [pow_zero, mul_one], h, by decide⟩
  have hle : |g| ≤ 2 ^ 53 - 1 := by rw [Int.abs_eq_natAbs]; omega
  rw [safeInteger?, hexact]
  simp only [Rat.den_intCast, Rat.num_intCast, true_and, if_pos hle]

theorem processGroup_round {g : Int} (h : IsSafeGroup g) :
    processGroup? (Binary64.round (g < 0) g.natAbs) = some g := by
  obtain ⟨hlow, hhigh⟩ := h
  rw [processGroup?, safeInteger_round (by omega)]
  exact if_neg (by omega)

/-- The bridge says that it or a request failed. -/
def IsFailure : Message → Prop
  | .bridgeError .. => True
  | .fatal .. => True
  | _ => False

/-- A line is no message of the startup, and a failure only when there is one. -/
def ReadsAs (failure : Prop) : Option BridgeMessage → Option JsStr → Prop
  | some (.kernelStarted _), _ => False
  | some (.ready ..), _ => False
  | some (.fatal ..), _ => failure
  | some (.bridgeError ..), _ => failure
  | some _, _ => True
  | none, some _ => failure
  | none, none => True

/-- The text of the message, in UTF-16. -/
def textOf (repr : Binary64 → PyStr) (m : Message) : JsStr := utf16 (dumps repr m.dict)

theorem convert_evaluated (id : PyStr) (value : PyValue) :
    convert utf16 jsNumber (Message.evaluated id value).dict =
      (convert utf16 jsNumber value).map fun w => .obj [(js "type", .str (js "result")),
        (js "request_id", .str (utf16 id)), (js "status", .str (js "ok")), (js "value", w)] := by
  rw [Message.dict, Message.fields, convert]
  simp only [entry, convertFields, convert, Option.bind_some]
  cases convert utf16 jsNumber value <;> rfl

theorem convert_bridgeError (id : PyValue) (error traceback : PyStr) :
    convert utf16 jsNumber (Message.bridgeError id error traceback).dict =
      (convert utf16 jsNumber id).map fun w => .obj [(js "type", .str (js "bridge_error")),
        (js "request_id", w), (js "error", .str (utf16 error)),
        (js "traceback", .str (utf16 traceback))] := by
  rw [Message.dict, Message.fields, convert]
  simp only [entry, convertFields, convert, Option.bind_some]
  cases convert utf16 jsNumber id <;> rfl

theorem readsAs_text (hr : ReadsBack repr) (h : ¬ IsStartup m) :
    ReadsAs (IsFailure m) ((jsonParse (textOf repr m)).bind isBridgeMessage)
      ((jsonParse (textOf repr m)).bind invalidMessageReason) := by
  rw [textOf, jsonParse_dumps hr]
  cases m with
  | kernelStarted g => exact absurd trivial h
  | ready g file => exact absurd trivial h
  | executed id status count error =>
    rcases count with _ | n <;> rcases error with _ | ⟨ename, evalue⟩ <;> exact trivial
  | evaluated id value =>
    rw [convert_evaluated]
    cases convert utf16 jsNumber value <;> exact trivial
  | bridgeError id error traceback =>
    rw [convert_bridgeError]
    cases convert utf16 jsNumber id with
    | none => exact trivial
    | some w => cases w <;> exact trivial
  | _ => exact trivial

/-- **A line that is no message of the startup** announces nothing, and changes at most the request
in progress when it is no failure. -/
theorem of_readsAs {failure : Prop} {l : JsStr} (h : ReadsAs failure
    ((jsonParse l).bind isBridgeMessage) ((jsonParse l).bind invalidMessageReason)) (disk : Disk) :
    s.acceptedGroup (.line c l disk) = none ∧ (s.lineKind c l = .other ∨ failure) := by
  unfold acceptedGroup lineKind
  dsimp only
  split
  · exact ⟨rfl, .inl rfl⟩
  generalize (jsonParse l).bind isBridgeMessage = b at h
  generalize (jsonParse l).bind invalidMessageReason = reason at h
  cases b with
  | none =>
    cases reason with
    | none => exact ⟨rfl, .inl rfl⟩
    | some reason => exact ⟨rfl, .inr h⟩
  | some b =>
    cases b with
    | kernelStarted g => exact h.elim
    | ready p g f => exact h.elim
    | fatal e traceback => exact ⟨rfl, .inr h⟩
    | bridgeError id e traceback => exact ⟨rfl, .inr h⟩
    | _ => exact ⟨rfl, .inl rfl⟩

theorem handleLine_kernelStarted (hr : ReadsBack repr) {g : Int} (hg : IsSafeGroup g)
    (hc : s.child = some c) (disk : Disk) :
    s.acceptedGroup (.line c (textOf repr (.kernelStarted g)) disk) = some g ∧
      s.handleLine c (textOf repr (.kernelStarted g)) disk = { s with kernelPgid := some g } := by
  have hmessage : (convert utf16 jsNumber (Message.kernelStarted g).dict).bind isBridgeMessage =
    some (.kernelStarted (Binary64.round (g < 0) g.natAbs)) := rfl
  unfold acceptedGroup handleLine
  dsimp only
  rw [textOf, jsonParse_dumps hr, if_neg (not_not_intro hc), if_neg (not_not_intro hc), hmessage]
  dsimp only [handleMessage, handleKernelStarted]
  rw [processGroup_round hg]
  exact ⟨rfl, rfl⟩

/-- The runtime after a ready message. -/
def State.readyWith (s : State) (g : Int) (file : JsStr) : State :=
  { s with
    kernelPgid := some g
    kernelConnectionFile := some file
    ready := true
    generation := s.generation + 1 }.resolveReady

theorem handleLine_ready (hr : ReadsBack repr) {g : Int} {file : PyStr} (hg : IsSafeGroup g)
    (hf : file.head? = some (chr '/')) (hc : s.child = some c)
    (hs : ∀ g', s.kernelPgid = some g' → g' = g) (disk : Disk) :
    s.acceptedGroup (.line c (textOf repr (.ready g file)) disk) = some g ∧
      s.handleLine c (textOf repr (.ready g file)) disk = State.readyWith s g (utf16 file) := by
  have hmessage : (convert utf16 jsNumber (Message.ready g file).dict).bind isBridgeMessage =
    some (.ready (Binary64.round (protocolVersion < 0) protocolVersion.natAbs)
      (Binary64.round (g < 0) g.natAbs) (utf16 file)) := rfl
  have hprotocol : isProtocolVersion
      (Binary64.round (protocolVersion < 0) protocolVersion.natAbs) = true :=
    decide_eq_true ((Binary64.round_int_iff protocolVersion).mpr
      ⟨3, 0, by decide, by decide, by decide⟩)
  have hsame : ¬ s.kernelPgid.any (· ≠ g) = true := by
    rw [Option.any_eq_true]
    rintro ⟨g', hg', hne⟩
    exact of_decide_eq_true hne (hs g' hg')
  have hfault : s.readyFault (Binary64.round (protocolVersion < 0) protocolVersion.natAbs)
      (Binary64.round (g < 0) g.natAbs) (utf16 file) = .ok g := by
    obtain ⟨rest, rfl⟩ : ∃ rest, file = chr '/' :: rest := List.head?_eq_some_iff.mp hf
    rw [readyFault, if_neg (not_not_intro hprotocol), processGroup_round hg]
    dsimp only
    rw [if_neg hsame, if_neg]
    exact not_not_intro rfl
  unfold acceptedGroup handleLine
  dsimp only
  rw [textOf, jsonParse_dumps hr, if_neg (not_not_intro hc), if_neg (not_not_intro hc), hmessage]
  dsimp only [handleMessage, handleReady]
  rw [hfault]
  exact ⟨rfl, rfl⟩

/-! ## The bridge of the runtime -/

theorem kill_child (s : State) : s.kill.child = s.child := by
  rcases s.terminate_cases with ⟨t, -, h⟩ | ⟨-, -, h⟩ | ⟨d, l, -, -, h⟩ <;> rw [kill, h]

theorem failActive_child (s : State) (m : JsStr) : (s.failActive m).child = s.child :=
  congrArg Skeleton.child (failActive_skeleton s m)

theorem rejectReady_child (s : State) (e : JsStr) : (s.rejectReady e).child = s.child := by
  obtain ⟨w, l, -, h⟩ := s.rejectReady_eq e
  rw [h]

/-- A line leaves the runtime its bridge. -/
theorem lineCase_child {k : LineKind} (h : LineCase s k t) : t.child = s.child := by
  cases h with
  | kept h => exact congrArg Skeleton.child h.skeleton
  | lost e m =>
    rw [kill_child]
    exact (failActive_child _ m).trans (rejectReady_child s e)
  | refused e => exact (kill_child _).trans (rejectReady_child s e)
  | announced g f =>
    obtain ⟨w, l, -, he⟩ := resolveReady_eq { s with
      kernelPgid := some g, kernelConnectionFile := some f, ready := true
      generation := s.generation + 1 }
    rw [he]
  | bridgeError ha m => exact kill_child _
  | result ha x => rfl

theorem bridgeEnds_child (s : State) (c : BridgeId) (r : JsStr) (f : Bridge → Bridge) :
    (s.bridgeEnds c r f).child = s.child ∨ (s.bridgeEnds c r f).child = none := by
  rcases handleExit_cases { s with bridges := s.bridges.modify c f } c r with
    ⟨-, h⟩ | ⟨-, e, ⟨-, h⟩ | ⟨-, l, k, m, h⟩⟩
  · rw [bridgeEnds, h]
    exact .inl rfl
  · rw [bridgeEnds, h, rejectReady_child]
    exact .inr rfl
  · rw [bridgeEnds, h, failActive_child]
    exact .inr (rejectReady_child _ e)

theorem abortListeners_child (s : State) (fires : Signal → Bool) :
    (s.abortListeners fires).child = s.child := by
  obtain ⟨w, l, -, ⟨-, h⟩ | ⟨a, -, -, h⟩⟩ := s.abortListeners_cases fires
  · rw [h]
  · rw [h]
    exact congrArg Skeleton.child (kept_interrupt _ _ _).skeleton

/-- **The bridge of the runtime** stays, is lost, or is a new one. -/
theorem change_child {e : Event} (h : Change s e t) :
    t.child = s.child ∨ t.child = none ∨
      t.child = some s.bridges.length ∧ t.bridges.length = s.bridges.length + 1 := by
  have hkept : ∀ {u : State}, u.child = s.child → u.child = s.child ∨ u.child = none ∨
    u.child = some s.bridges.length ∧ u.bridges.length = s.bridges.length + 1 := fun h => .inl h
  cases h with
  | aside h => exact hkept h.child
  | line hk hl => exact hkept (lineCase_child hl)
  | evaluate expression ms signal thrown id reason limit =>
    refine hkept ?_
    rcases request_cases { s with evaluateIndex := s.evaluateIndex + 1 }
      (.evaluate id expression) ⟨signal, true⟩ reason (some limit) thrown with
      ⟨-, e, h⟩ | ⟨c, -, -, -, -, ⟨-, l, h⟩ | ⟨-, e, x, h⟩⟩
    · rw [h]
    · rw [h]; rfl
    · rw [h]; exact kill_child _
  | @execute k g id code cwd thrown hx =>
    refine hkept ?_
    rcases s.executeStarted_cases k ⟨.execute id code cwd, g, .started⟩ id code cwd thrown with
      ⟨-, e, h⟩ | ⟨c, -, -, -, -, ⟨-, l, h⟩ | ⟨-, e, m, h⟩⟩
    · rw [h]; rfl
    · rw [h]; rfl
    · rw [h]; exact kill_child _
  | abort σ => exact hkept (abortListeners_child _ _)
  | dispose p => exact hkept (abortListeners_child { s with disposed := true } _)
  | @spawn sid g e hx => exact .inr (.inr ⟨rfl, List.length_append⟩)
  | unspawned hx => exact hkept rfl
  | @stdin e d reason l m hd he =>
    refine hkept ((kill_child _).trans ?_)
    rw [failActive_child]
    rfl
  | startupFailed hx after => exact hkept (kill_child s)
  | startupTimeout sid m =>
    obtain ⟨w, l, -, he⟩ := s.finishStartup_eq sid fun _ => .failed m
    rw [he]
    exact hkept rfl
  | timeout ha ht =>
    exact hkept (congrArg Skeleton.child (kept_interrupt _ _ _).skeleton)
  | grace ha hi after m => exact hkept (kill_child _)
  | reject hx => exact hkept rfl
  | closing he hc hs p l => exact hkept rfl
  | shutdownKill he hs b p q => exact hkept (kill_child _)
  | error c m reason => exact (bridgeEnds_child _ _ _ _).imp id .inl
  | close hf c code signal alive reason l hp => exact (bridgeEnds_child _ _ _ _).imp id .inl

/-! ## Runs -/

/-- The line of the bridge, when the event is one. -/
def lineOf (c : BridgeId) : Event → Option JsStr
  | .line d text _ => if d = c then some text else none
  | _ => none

/-- The lines of the bridge in a run. -/
def linesFrom (c : BridgeId) (es : List Event) : List JsStr := es.filterMap (lineOf c)

/-- The runtime takes the text of a message for what it is. -/
def Understands (s : State) (c : BridgeId) (l : JsStr) (disk : Disk) : Message → Prop
  | .kernelStarted g => s.handleLine c l disk = { s with kernelPgid := some g }
  | .ready g file => s.handleLine c l disk = State.readyWith s g (utf16 file)
  | .fatal .. => True
  | .bridgeError .. => True
  | _ => (s.handleLine c l disk).terminations = s.terminations ∧
    (s.handleLine c l disk).stopping = s.stopping

theorem understands_of_other (h : ¬ IsStartup m) {l : JsStr}
    (hk : s.lineKind c l = .other ∨ IsFailure m) (disk : Disk) : Understands s c l disk m := by
  have hkept : s.lineKind c l = .other → (s.handleLine c l disk).terminations = s.terminations ∧
      (s.handleLine c l disk).stopping = s.stopping := by
    intro hk
    have hl := s.handleLine_cases c l disk
    rw [hk] at hl
    generalize s.handleLine c l disk = t at hl
    cases hl with
    | kept h => exact ⟨congrArg Skeleton.terminations h.skeleton, h.stopping⟩
    | result ha x => exact ⟨rfl, rfl⟩
  cases m with
  | kernelStarted g => exact absurd trivial h
  | ready g file => exact absurd trivial h
  | fatal e traceback => exact trivial
  | bridgeError id e traceback => exact trivial
  | _ => exact hkept (hk.resolve_right id)

/-- What a run keeps: the lines of a bridge come after its spawn, and the group of the runtime is
the one that its bridge announced. -/
structure Agrees (sent : BridgeId → List Message) (es : List Event) (s : State) : Prop where
  known : ∀ c, s.child = some c → c < s.bridges.length
  fresh : ∀ c, s.bridges.length ≤ c → linesFrom c es = []
  group : ∀ c g rest, s.child = some c → sent c = .kernelStarted g :: rest →
    linesFrom c es ≠ [] → ∀ g', s.kernelPgid = some g' → g' = g

variable {sent : BridgeId → List Message} {es : List Event} {l : JsStr}

/-- The first line of a bridge that announces its group. -/
theorem linesOf_kernelStarted (hr : ReadsBack repr) {g : Int} (hg : IsSafeGroup g)
    (rest : List Message) : ∃ more, linesOf (stdout repr (.kernelStarted g :: rest)) =
      textOf repr (.kernelStarted g) :: more := by
  obtain ⟨hlow, hhigh⟩ := hg
  have hexact : Binary64.ExactInt g :=
    ⟨g.natAbs, 0, by rw [pow_zero, mul_one], by omega, by decide⟩
  have hclean : Clean (.kernelStarted g) := by
    simp [Clean, Message.dict, Message.fields, entry, All, AllFields, ExactNum, hexact, CleanStr,
      py, chr, IsSurrogate, Fin.ofNat]
  rw [linesOf_stdout hr, List.flatMap_cons, (clean_lines hr hclean).1]
  exact ⟨_, rfl⟩

/-- The line is a message that the runtime understands, or is noted only. -/
def Understood (repr : Binary64 → PyStr) (ms : List Message) (s : State) (c : BridgeId) (l : JsStr)
    (disk : Disk) : Prop :=
  (∃ m ∈ ms, l = textOf repr m ∧ Understands s c l disk m) ∨
    s.handleLine c l disk = s.addStderr (js "\nNon-protocol bridge output: " ++ l)

theorem understood_text (hr : ReadsBack repr) {ms : List Message} (hm : m ∈ ms)
    (h : ¬ IsStartup m) (disk : Disk) : Understood repr ms s c (textOf repr m) disk ∧
      s.acceptedGroup (.line c (textOf repr m) disk) = none := by
  obtain ⟨hn, hk⟩ := of_readsAs (s := s) (c := c) (readsAs_text hr h) disk
  exact ⟨.inl ⟨m, hm, rfl, understands_of_other h hk disk⟩, hn⟩

theorem understood_noted {ms : List Message} (hc : s.child = some c)
    (hmessage : (jsonParse l).bind isBridgeMessage = none)
    (hreason : (jsonParse l).bind invalidMessageReason = none) (disk : Disk) :
    Understood repr ms s c l disk ∧ s.acceptedGroup (.line c l disk) = none := by
  refine ⟨.inr ?_, ?_⟩
  · rw [State.handleLine, if_neg (not_not_intro hc), hmessage, hreason]
  · unfold acceptedGroup
    dsimp only
    rw [if_neg (not_not_intro hc), hmessage]

/-- **A line of the runtime's bridge** is understood, and announces the group of the bridge. -/
theorem line_understood (hr : ReadsBack repr) (h : Agrees sent es s) (hw : Welcome (sent c))
    (hl : linesFrom c es ++ [l] <+: linesOf (stdout repr (sent c))) (hc : s.child = some c)
    (disk : Disk) : Understood repr (sent c) s c l disk ∧
      ∀ g rest, sent c = .kernelStarted g :: rest → s.acceptedGroup (.line c l disk) = some g ∨
        linesFrom c es ≠ [] ∧ s.acceptedGroup (.line c l disk) = none := by
  have hmem : l ∈ linesOf (stdout repr (sent c)) :=
    hl.subset (List.mem_append_right _ List.mem_cons_self)
  rcases hw with hw | ⟨g, rest, hg, hs, hrest⟩
  · -- the bridge announces nothing
    refine ⟨?_, fun g rest he => absurd trivial (hw (.kernelStarted g) (he ▸ List.mem_cons_self))⟩
    rcases line_cases hr hmem with ⟨m, hm, -, rfl⟩ | ⟨hmessage, hreason⟩
    · exact (understood_text hr hm (hw m hm) disk).1
    · exact (understood_noted hc hmessage hreason disk).1
  have hself : Message.kernelStarted g ∈ sent c := hs ▸ List.mem_cons_self
  obtain ⟨haccepted, hstarted⟩ := handleLine_kernelStarted hr hg hc disk
  have hannounced : Understood repr (sent c) s c (textOf repr (.kernelStarted g)) disk :=
    .inl ⟨_, hself, rfl, hstarted⟩
  by_cases he : linesFrom c es = []
  · obtain ⟨more, hmore⟩ := linesOf_kernelStarted hr hg rest
    rw [he, hs, hmore, List.nil_append, List.cons_prefix_cons] at hl
    obtain ⟨rfl, -⟩ := hl
    refine ⟨hannounced, fun g' rest' hs' => .inl ?_⟩
    cases hs.symm.trans hs'
    exact haccepted
  · -- the group of the runtime is known to be the bridge's
    have hgroup := h.group c g rest hc hs he
    suffices hline : Understood repr (sent c) s c l disk ∧
        (s.acceptedGroup (.line c l disk) = some g ∨ s.acceptedGroup (.line c l disk) = none) by
      refine ⟨hline.1, fun g' rest' hs' => ?_⟩
      cases hs.symm.trans hs'
      exact hline.2.imp id fun hn => ⟨he, hn⟩
    rcases line_cases hr hmem with ⟨m, hm, -, rfl⟩ | ⟨hmessage, hreason⟩
    · by_cases hstart : IsStartup m
      · rw [hs, List.mem_cons] at hm
        rcases hm with rfl | hm
        · exact ⟨hannounced, .inl haccepted⟩
        · obtain ⟨file, rfl, hfile⟩ := hrest m hm hstart
          obtain ⟨ha, hh⟩ := handleLine_ready hr hg hfile hc hgroup disk
          exact ⟨.inl ⟨_, hs ▸ List.mem_cons_of_mem _ hm, rfl, hh⟩, .inl ha⟩
      · obtain ⟨hu, hn⟩ := understood_text (s := s) (c := c) hr hm hstart disk
        exact ⟨hu, .inr hn⟩
    · have hnoted : Understood repr (sent c) s c l disk ∧ _ :=
        understood_noted hc hmessage hreason disk
      exact ⟨hnoted.1, .inr hnoted.2⟩

/-! ## What a run keeps -/

theorem agrees_init : Agrees sent [] State.init :=
  ⟨nofun, fun _ _ => rfl, fun _ _ _ _ _ h => absurd rfl h⟩

/-- The group of the runtime stays, is dropped, or is the one announced. -/
theorem kernelPgid_step {e : Event} (he : step s e = some t) :
    (s.acceptedGroup e = none ∧ (t.kernelPgid = s.kernelPgid ∨ t.kernelPgid = none)) ∨
      ∃ g, s.acceptedGroup e = some g ∧ t.kernelPgid = some g := by
  rcases groups_step he with ⟨hn, ha⟩ | ⟨g, hg, -, ht⟩
  · exact .inl ⟨hn, (ha [] (minded_nil _)).pgid.imp id And.left⟩
  · exact .inr ⟨g, hg, congrArg Groups.kernelPgid ht⟩

theorem linesFrom_snoc (c : BridgeId) (es : List Event) (e : Event) :
    linesFrom c (es ++ [e]) = linesFrom c es ++ (lineOf c e).toList := by
  rw [linesFrom, List.filterMap_append]
  cases h : lineOf c e with
  | none => rw [List.filterMap_cons_none h]; rfl
  | some l => rw [List.filterMap_cons_some h]; rfl

/-- A line comes from a bridge that was spawned. -/
theorem lineOf_step {e : Event} (he : step s e = some t) (hc : s.bridges.length ≤ c) :
    lineOf c e = none := by
  cases e with
  | line d text disk =>
    refine if_neg ?_
    rintro rfl
    simp only [step] at he
    split at he
    · next hopen =>
      obtain ⟨b, hb, -⟩ := (Option.any_eq_true _ _).mp hopen.1
      exact absurd (List.getElem?_eq_some_iff.mp hb).1 (Nat.not_lt.mpr hc)
    · cases he
  | _ => rfl

theorem lineOf_eq_some {e : Event} (h : lineOf c e = some l) : ∃ disk, e = .line c l disk := by
  cases e with
  | line d text disk =>
    rw [lineOf] at h
    split at h
    · next hd => cases h; exact ⟨disk, by rw [hd]⟩
    · cases h
  | _ => cases h

/-- A group is announced by a line of the runtime's bridge. -/
theorem eq_of_acceptedGroup {e : Event} {g : Int} (h : s.acceptedGroup e = some g) :
    ∃ c l disk, e = .line c l disk ∧ s.child = some c := by
  cases e with
  | line c l disk =>
    unfold acceptedGroup at h
    dsimp only at h
    split at h
    · cases h
    · next hc => exact ⟨c, l, disk, rfl, not_not.mp hc⟩
  | _ => cases h

theorem agrees_step (hr : ReadsBack repr) (hw : ∀ c, Welcome (sent c)) {e : Event}
    (h : Agrees sent es s) (hl : ∀ c, linesFrom c (es ++ [e]) <+: linesOf (stdout repr (sent c)))
    (he : step s e = some t) : Agrees sent (es ++ [e]) t := by
  have hnew : ∀ c, s.bridges.length ≤ c → linesFrom c (es ++ [e]) = [] := fun c hc => by
    rw [linesFrom_snoc, h.fresh c hc, lineOf_step he hc]
    rfl
  obtain ⟨u, k, rfl, hchange⟩ := step_cases he
  have hlength : s.bridges.length ≤ u.bridges.length := by
    rcases hchange.bridges with hb | ⟨sid, g, rfl⟩
    · exact hb.ge
    · show s.bridges.length ≤ (s.bridges ++ [Bridge.spawned]).length
      rw [List.length_append]
      exact Nat.le_add_right _ _
  refine ⟨fun c hc => ?_, fun c hc => hnew c (hlength.trans hc),
    fun c g rest hc hs hne g' hg' => ?_⟩
  · rcases change_child hchange with hsame | hnone | ⟨hspawn, hcount⟩
    · exact (h.known c (hsame.symm.trans hc)).trans_le hlength
    · cases hnone.symm.trans hc
    · cases hspawn.symm.trans hc
      exact hcount ▸ Nat.lt_succ_self _
  · have hchild : s.child = some c := by
      rcases change_child hchange with hsame | hnone | ⟨hspawn, -⟩
      · exact hsame.symm.trans hc
      · cases hnone.symm.trans hc
      · cases hspawn.symm.trans hc
        exact absurd (hnew _ (Nat.le_refl _)) hne
    have hline : ∀ l disk, e = .line c l disk → s.acceptedGroup e = some g ∨
        linesFrom c es ≠ [] ∧ s.acceptedGroup e = none := by
      rintro l disk rfl
      refine (line_understood hr h (hw c) ?_ hchild disk).2 g rest hs
      have hlc := hl c
      rwa [linesFrom_snoc, lineOf, if_pos rfl] at hlc
    rcases kernelPgid_step he with ⟨hn, hpgid⟩ | ⟨g'', hg'', hpgid⟩
    · have hsame : s.kernelPgid = some g' := by
        rcases hpgid with hpgid | hpgid
        · exact hpgid.symm.trans hg'
        · cases hpgid.symm.trans hg'
      refine h.group c g rest hchild hs ?_ g' hsame
      cases ho : lineOf c e with
      | none => rwa [linesFrom_snoc, ho, Option.toList_none, List.append_nil] at hne
      | some l =>
        obtain ⟨disk, rfl⟩ := lineOf_eq_some ho
        rcases hline l disk rfl with hg | ⟨hes, -⟩
        · cases hn.symm.trans hg
        · exact hes
    · obtain ⟨d, l, disk, rfl, hd⟩ := eq_of_acceptedGroup hg''
      cases hd.symm.trans hchild
      cases hpgid.symm.trans hg'
      rcases hline l disk rfl with hg | ⟨-, hn⟩
      · exact Option.some.inj (hg''.symm.trans hg)
      · cases hg''.symm.trans hn

theorem agrees_run (hr : ReadsBack repr) (hw : ∀ c, Welcome (sent c)) : ∀ {es : List Event}
    {s : State}, runAll step .init es = some s →
      (∀ c, linesFrom c es <+: linesOf (stdout repr (sent c))) → Agrees sent es s := by
  intro es
  induction es using List.reverseRecOn with
  | nil =>
    intro s hrun _
    cases hrun
    exact agrees_init
  | append_singleton es e ih =>
    intro t hrun hl
    rw [runAll_append, Option.bind_eq_some_iff] at hrun
    obtain ⟨s, hs, hrun⟩ := hrun
    rw [runAll_cons, Option.bind_eq_some_iff] at hrun
    obtain ⟨u, hu, hrun⟩ := hrun
    cases hrun
    refine agrees_step hr hw (ih hs fun c => ?_) hl hu
    refine .trans ?_ (hl c)
    rw [linesFrom_snoc]
    exact List.prefix_append _ _

/-- A launch without errors. -/
def plainLaunch : Launch where
  startKernel := none
  kernelPgid := some 7
  waitForReady := none
  line := py "\x7b\"type\":\"startup\"\x7d"
  rounds := []
  connectionFile := py "/k"
  error := []
  traceback := []
  cleanupErrors := 0
  cleanupDetails := []

def Outcome.isReturned {α : Type} : Outcome α → Bool
  | .returned _ => true
  | _ => false

theorem main_plainLaunch : main exactRepr (fun _ => []) (fun _ => []) plainLaunch [] =
    [.kernelStarted 7, .ready 7 (py "/k")] := by
  have hready : (runStartup (fun _ => []) plainLaunch).isReturned = true := by decide +kernel
  have hstart : start (fun _ => []) plainLaunch =
      ([.kernelStarted 7, .ready 7 (py "/k")], .returned ()) := by
    unfold start
    generalize runStartup (fun _ => []) plainLaunch = outcome at hready
    cases outcome with
    | returned u => rfl
    | _ => cases hready
  have hencodable : [Message.kernelStarted 7, .ready 7 (py "/k")].all (encodable exactRepr) =
    true := by decide +kernel
  rw [main, hstart, sendAll, if_pos hencodable]
  rfl

/-- The messages of the first bridge of a run. -/
def firstSent (c : BridgeId) : List Message :=
  if c = 0 then [.kernelStarted 7, .ready 7 (py "/k")] else []

end PiIpython.Bridge
