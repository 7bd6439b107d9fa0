import PiIpython.Runtime.Step

/-!
# What the methods leave alone

The fields that each method of `Handlers` does not touch, and what it does to
the ones it does. `terminate_cases` says all that `terminate` can do.
-/

namespace PiIpython.Runtime.State

open Text

variable (s : State)

/-! ## Effects and stderr -/

@[simp] theorem emit_active (e : Effect) : (s.emit e).active = s.active := rfl
@[simp] theorem emit_requests (e : Effect) : (s.emit e).requests = s.requests := rfl
@[simp] theorem emit_rejections (e : Effect) : (s.emit e).rejections = s.rejections := rfl
@[simp] theorem emit_bridges (e : Effect) : (s.emit e).bridges = s.bridges := rfl
@[simp] theorem emit_child (e : Effect) : (s.emit e).child = s.child := rfl

/-- Sending a signal is an effect only. -/
theorem signalProcessGroup_eq (g : Option Int) (sig : Sig) :
    ∃ l, s.signalProcessGroup g sig = { s with log := l } := by
  cases g with
  | none => exact ⟨s.log, rfl⟩
  | some g => exact ⟨_, rfl⟩

@[simp] theorem signalProcessGroup_terminations (g : Option Int) (sig : Sig) :
    (s.signalProcessGroup g sig).terminations = s.terminations := by
  obtain ⟨l, h⟩ := s.signalProcessGroup_eq g sig
  rw [h]

@[simp] theorem signalProcessGroup_shutdown (g : Option Int) (sig : Sig) :
    (s.signalProcessGroup g sig).shutdown = s.shutdown := by
  obtain ⟨l, h⟩ := s.signalProcessGroup_eq g sig
  rw [h]

/-- Ending a group schedules a timer and is an effect otherwise. -/
theorem terminateProcessGroup_eq (g : Int) :
    ∃ l k, s.terminateProcessGroup g = { s with log := l, killTimers := k } := ⟨_, _, rfl⟩

/-! ## Promises -/

theorem settle_eq (r : Nat) (x : Settled) : s.settle r x =
    { s with requests := s.requests.modify r fun y => y.or (some x) } := rfl

/-- A settled request stays settled. -/
theorem settle_settled {s : State} {r q : Nat} {x y : Settled} (h : s.requests[q]? = some (some y)) :
    (s.settle r x).requests[q]? = some (some y) := by
  rw [settle_eq]
  by_cases hq : r = q
  · subst hq; simp [h]
  · rw [List.getElem?_modify_ne _ _ hq, h]

/-- Settling settles. -/
theorem settle_self {s : State} {r : Nat} {x : Settled} (h : r < s.requests.length) :
    ∃ y, (s.settle r x).requests[r]? = some (some y) := by
  rw [settle_eq, List.getElem?_modify_eq, List.getElem?_eq_getElem h]
  cases hy : s.requests[r] with
  | none => exact ⟨x, rfl⟩
  | some y => exact ⟨y, rfl⟩

/-- Some startups of `l` no longer wait for the bridge, but are in a phase of `f`. Then no ready
waiter is left. -/
structure Ended (f : BridgeId → StartupPhase) (w : Option Nat) (l : List Startup) : Prop where
  startup : ∀ {i : Nat} {y : Startup}, l[i]? = some y → s.startups[i]? = some y ∨
    ∃ c, s.startups[i]? = some ⟨y.signal, .waiting c⟩ ∧ y.phase = f c
  waiter : w = none ∨ w = s.readyWaiter ∧ l = s.startups

theorem ended_refl (f : BridgeId → StartupPhase) : s.Ended f s.readyWaiter s.startups :=
  ⟨fun hy => .inl hy, .inr ⟨rfl, rfl⟩⟩

/-- Ending the wait of a startup touches the waiter and the startup. -/
theorem finishStartup_eq (sid : Nat) (f : BridgeId → StartupPhase) :
    ∃ w l, s.Ended f w l ∧ s.finishStartup sid f = { s with readyWaiter := w, startups := l } := by
  unfold finishStartup
  split
  · next g c hx =>
    refine ⟨_, _, ⟨fun {i y} hy => ?_, .inl rfl⟩, rfl⟩
    by_cases hi : sid = i
    · subst hi
      rw [List.getElem?_set_self (List.getElem?_eq_some_iff.mp hx).1] at hy
      cases hy
      exact .inr ⟨c, hx, rfl⟩
    · rw [List.getElem?_set_ne hi] at hy
      exact .inl hy
  · exact ⟨_, _, s.ended_refl f, rfl⟩

theorem rejectReady_eq (e : JsStr) : ∃ w l, s.Ended (fun _ => .failed e) w l ∧
    s.rejectReady e = { s with readyWaiter := w, startups := l } := by
  unfold rejectReady
  split
  · exact ⟨_, _, s.ended_refl _, rfl⟩
  · exact s.finishStartup_eq _ _

theorem resolveReady_eq : ∃ w l, s.Ended .ready w l ∧
    s.resolveReady = { s with readyWaiter := w, startups := l } := by
  unfold resolveReady
  split
  · exact ⟨_, _, s.ended_refl _, rfl⟩
  · exact s.finishStartup_eq _ _

/-- Failing the active request leaves none. -/
theorem failActive_cases (m : JsStr) :
    s.active = none ∧ s.failActive m = s ∨
      ∃ a, s.active = some a ∧
        s.failActive m = { s with active := none }.settle a.request (.rejected m) := by
  unfold failActive
  cases h : s.active with
  | none => exact .inl ⟨rfl, rfl⟩
  | some a => exact .inr ⟨a, rfl, rfl⟩

@[simp] theorem failActive_active (m : JsStr) : (s.failActive m).active = none := by
  rcases s.failActive_cases m with ⟨ha, h⟩ | ⟨a, -, h⟩
  · rw [h, ha]
  · rw [h]; rfl

/-! ## Requests -/

/-- A request is accepted. -/
def accept (a : Active) : State := { s with active := some a, requests := s.requests ++ [none] }

/-- The entry of `active` for a request just accepted on the bridge `c`. -/
def newActive (m : BridgeRequest) (c : BridgeId) (g : Signal) (cancelReason : JsStr)
    (timeout : Option JsStr) : Active :=
  { request := s.requests.length, requestId := m.requestId, bridge := c, output := [], images := [],
    imagesDropped := 0, signal := g, cancelReason, timeout, interrupt := none }

theorem modify_concat {α : Type*} (l : List α) (x : α) (f : α → α) :
    (l ++ [x]).modify l.length f = l ++ [f x] := by
  induction l with
  | nil => rfl
  | cons y l ih => simp [ih]

/-- The request fails at once when its write throws. -/
theorem accept_stdinError {s : State} (hn : s.active = none) (hr : s.ready = true) {c : BridgeId}
    (hc : s.child = some c) {a : Active} (ha : a.request = s.requests.length) (reason : JsStr) :
    ∃ e m, (s.accept a).handleStdinError (some c) reason = State.kill { s with
      requests := s.requests ++ [some (.rejected m)]
      stderr := e
      pendingResetNotice := true } := by
  let e := sliceEnd (s.stderr ++ (js "\nBridge stdin failed: " ++ reason)) stderrLimit
  let m := js "Failed to communicate with IPython. The kernel state was lost: " ++ reason
  refine ⟨e, m, ?_⟩
  have hs : s = { s with active := none } := by cases s; simp_all
  have hf : ((s.accept a).addStderr (js "\nBridge stdin failed: " ++ reason)).noteReset.failActive m =
      { s with
        requests := s.requests ++ [some (.rejected m)]
        stderr := e
        pendingResetNotice := true } := by
    rw [hs]
    simp only [accept, addStderr, noteReset, failActive, settle, ha, modify_concat, hr,
      Bool.or_true, Option.none_or, e]
  have hc : (s.accept a).child = some c := hc
  simp only [handleStdinError, hc, ne_eq, not_true_eq_false, if_false]
  exact congrArg State.kill hf

/-- A request with the signal is accepted. -/
def accepts (g : Signal) : Bool :=
  s.child.isSome && s.ready && s.active.isNone && ! s.isAborted g

/-- **What `request` does**: it refuses and changes nothing, or it accepts on a ready bridge; when
the write throws, the request fails and the bridge is stopped. -/
theorem request_cases (m : BridgeRequest) (g : Signal) (r : JsStr) (t thrown : Option JsStr) :
    (s.accepts g = false ∧ ∃ e, s.request m g r t thrown = (s, .error e)) ∨
    ∃ c, s.child = some c ∧ s.ready = true ∧ s.active = none ∧ s.isAborted g = false ∧
      ((thrown = none ∧ ∃ l, s.request m g r t thrown =
        ({ s.accept (s.newActive m c g r t) with log := l }, .ok s.requests.length)) ∨
      (thrown.isSome = true ∧ ∃ e x, s.request m g r t thrown = (State.kill { s with
        requests := s.requests ++ [some (.rejected x)]
        stderr := e
        pendingResetNotice := true }, .ok s.requests.length))) := by
  unfold request accepts
  split
  · next hc => exact .inl ⟨by simp [hc], _, rfl⟩
  next c hc =>
  split
  · next hr => exact .inl ⟨by simp [hr], _, rfl⟩
  next hr =>
  split
  · next ha =>
    obtain ⟨a, ha⟩ := Option.isSome_iff_exists.mp ha
    exact .inl ⟨by simp [ha], _, rfl⟩
  next ha =>
  split
  · next hg => exact .inl ⟨by simp [hg], _, rfl⟩
  next hg =>
  have hr : s.ready = true := by simpa using hr
  have ha : s.active = none := by simpa using ha
  refine .inr ⟨c, hc, hr, ha, by simpa using hg, ?_⟩
  cases thrown with
  | none => exact .inl ⟨rfl, _, rfl⟩
  | some reason =>
    obtain ⟨e, x, h⟩ := accept_stdinError ha hr hc (a := s.newActive m c g r t) rfl reason
    refine .inr ⟨rfl, e, x, ?_⟩
    rw [← h, ← hc]
    rfl

/-! ## Terminations -/

/-- **What `terminate` does**: it answers a termination in progress, or there is no bridge, or it
starts one on the bridge. -/
theorem terminate_cases :
    (∃ t, s.stoppingPromise = some t ∧ s.terminate = (s, some t)) ∨
    (s.stoppingPromise = none ∧ s.child = none ∧ s.terminate = (s, none)) ∨
    ∃ c l, s.stoppingPromise = none ∧ s.child = some c ∧
      s.terminate = ({ s with
        stopping := true
        ready := false
        stoppingPromise := some s.terminations.length
        terminations := s.terminations ++
          [(⟨c, s.kernelPgid, s.hasExitCode c, true, .waiting⟩ : Termination)]
        bridges := s.bridges.modify c fun b => { b with terminated := true }
        log := l }, some s.terminations.length) := by
  unfold terminate
  split
  · next t hs => exact .inl ⟨t, hs, rfl⟩
  · next hs hc => exact .inr (.inl ⟨hs, hc, rfl⟩)
  · next c hs hc =>
    have hl := signalProcessGroup_eq { s with
      stopping := true
      ready := false
      stoppingPromise := some s.terminations.length
      terminations := s.terminations ++
        [(⟨c, s.kernelPgid, s.hasExitCode c, true, .waiting⟩ : Termination)]
      bridges := s.bridges.modify c fun b => { b with terminated := true } } s.kernelPgid .sigterm
    obtain ⟨l, hl⟩ := hl
    refine .inr (.inr ⟨c, l ++ [.signalBridge c .sigterm], hs, hc, ?_⟩)
    simp only [hl]
    rfl

@[simp] theorem kill_active : s.kill.active = s.active := by
  rcases s.terminate_cases with ⟨t, -, h⟩ | ⟨-, -, h⟩ | ⟨c, l, -, -, h⟩ <;> rw [kill, h]

@[simp] theorem kill_rejections : s.kill.rejections = s.rejections := by
  rcases s.terminate_cases with ⟨t, -, h⟩ | ⟨-, -, h⟩ | ⟨c, l, -, -, h⟩ <;> rw [kill, h]

@[simp] theorem kill_disposed : s.kill.disposed = s.disposed := by
  rcases s.terminate_cases with ⟨t, -, h⟩ | ⟨-, -, h⟩ | ⟨c, l, -, -, h⟩ <;> rw [kill, h]

@[simp] theorem kill_requests : s.kill.requests = s.requests := by
  rcases s.terminate_cases with ⟨t, -, h⟩ | ⟨-, -, h⟩ | ⟨c, l, -, -, h⟩ <;> rw [kill, h]

/-! ## Steps that keep everything in place -/

/-- The fields that say what runs. -/
structure Skeleton where
  child : Option BridgeId
  ready : Bool
  readyWaiter : Option Nat
  starting : Option Nat
  stoppingPromise : Option TerminationId
  bridges : List Bridge
  startups : List Startup
  terminations : List Termination

def skeleton (s : State) : Skeleton :=
  ⟨s.child, s.ready, s.readyWaiter, s.starting, s.stoppingPromise, s.bridges, s.startups,
    s.terminations⟩

/-- The request in progress is the same one, and an interrupt of it stays. -/
structure Keeps (a b : Active) : Prop where
  request : b.request = a.request
  bridge : b.bridge = a.bridge
  signal : b.signal = a.signal
  timeout : b.timeout = a.timeout
  interrupt : a.interrupt.isSome = true → b.interrupt.isSome = true

/-- Nothing changes but the request in progress, within `Keeps`, and fields that decide nothing. -/
structure Kept (s t : State) : Prop where
  skeleton : t.skeleton = s.skeleton
  requests : t.requests = s.requests
  rejections : t.rejections = s.rejections
  calls : t.calls = s.calls
  stopping : t.stopping = s.stopping
  disposed : t.disposed = s.disposed
  aborted : t.aborted = s.aborted
  shutdown : t.shutdown = s.shutdown
  notice : t.pendingResetNotice = s.pendingResetNotice
  active : Option.Rel Keeps s.active t.active

theorem Keeps.refl (a : Active) : Keeps a a := ⟨rfl, rfl, rfl, rfl, id⟩

theorem Keeps.trans {a b c : Active} (h : Keeps a b) (k : Keeps b c) : Keeps a c :=
  ⟨k.request.trans h.request, k.bridge.trans h.bridge, k.signal.trans h.signal,
    k.timeout.trans h.timeout, fun hi => k.interrupt (h.interrupt hi)⟩

theorem Keeps.timed {a b : Active} (h : Keeps a b) (ht : a.timed = true) : b.timed = true := by
  rw [Active.timed, h.timeout, Bool.or_eq_true_iff]
  rw [Active.timed, Bool.or_eq_true_iff] at ht
  exact ht.imp id h.interrupt

theorem keeps_rel_refl (o : Option Active) : Option.Rel Keeps o o := by
  cases o with
  | none => exact .none
  | some a => exact .some (Keeps.refl a)

theorem Kept.refl : Kept s s := ⟨rfl, rfl, rfl, rfl, rfl, rfl, rfl, rfl, rfl, keeps_rel_refl _⟩

theorem Kept.trans {s t u : State} (h : Kept s t) (k : Kept t u) : Kept s u := by
  refine ⟨k.skeleton.trans h.skeleton, k.requests.trans h.requests,
    k.rejections.trans h.rejections, k.calls.trans h.calls, k.stopping.trans h.stopping,
    k.disposed.trans h.disposed, k.aborted.trans h.aborted, k.shutdown.trans h.shutdown,
    k.notice.trans h.notice, ?_⟩
  have h1 := h.active
  have h2 := k.active
  generalize s.active = x at h1
  generalize t.active = y at h1 h2
  generalize u.active = z at h2
  cases h1 with
  | none => exact h2
  | some h1 =>
    cases h2 with
    | some h2 => exact .some (h1.trans h2)

/-- Replacing the request in progress within `Keeps`. -/
theorem Kept.setActive {s : State} {a b : Active} (ha : s.active = some a) (h : Keeps a b) :
    Kept s { s with active := some b } :=
  ⟨rfl, rfl, rfl, rfl, rfl, rfl, rfl, rfl, rfl, by rw [ha]; exact .some h⟩

theorem kept_emit (e : Effect) : Kept s (s.emit e) :=
  ⟨rfl, rfl, rfl, rfl, rfl, rfl, rfl, rfl, rfl, keeps_rel_refl _⟩

theorem kept_signalProcessGroup (g : Option Int) (sig : Sig) :
    Kept s (s.signalProcessGroup g sig) := by
  cases g with
  | none => exact Kept.refl s
  | some g => exact s.kept_emit _

theorem addStderr_eq (t : JsStr) : ∃ e, s.addStderr t = { s with stderr := e } := ⟨_, rfl⟩

theorem kept_addStderr (t : JsStr) : Kept s (s.addStderr t) := by
  obtain ⟨e, he⟩ := s.addStderr_eq t
  rw [he]
  exact ⟨rfl, rfl, rfl, rfl, rfl, rfl, rfl, rfl, rfl, keeps_rel_refl _⟩

/-- An interrupt changes the request in progress only. -/
theorem kept_interrupt (reason : JsStr) (overflow : Bool) :
    Kept s (s.interrupt reason overflow) := by
  unfold interrupt
  split
  · exact Kept.refl s
  next a ha =>
  split
  · exact Kept.refl s
  · have hk : Keeps a { a with interrupt := some ⟨reason, overflow⟩ } :=
      ⟨rfl, rfl, rfl, rfl, fun _ => rfl⟩
    exact (Kept.setActive ha hk).trans (kept_signalProcessGroup _ _ _)

/-- An interrupted request has a timer. -/
theorem interrupt_interrupted {s : State} {a : Active} (ha : s.active = some a) (reason : JsStr)
    (overflow : Bool) :
    ∃ b, (s.interrupt reason overflow).active = some b ∧ Keeps a b ∧ b.interrupt.isSome = true := by
  unfold interrupt
  rw [ha]
  dsimp only
  split
  · next hi => exact ⟨a, ha, Keeps.refl a, hi⟩
  · refine ⟨{ a with interrupt := some ⟨reason, overflow⟩ }, ?_, ⟨rfl, rfl, rfl, rfl, fun _ => rfl⟩,
      rfl⟩
    cases s.kernelPgid <;> rfl

theorem kept_saveOutput (disk : Disk) (text : JsStr) : Kept s (s.saveOutput disk text).1 := by
  have hk : ∀ (p : Option JsStr) (n : Nat) (l : List Effect),
      Kept s { s with outputDirectory := p, outputIndex := n, log := l } := fun _ _ _ =>
    ⟨rfl, rfl, rfl, rfl, rfl, rfl, rfl, rfl, rfl, keeps_rel_refl _⟩
  unfold saveOutput
  split
  · exact Kept.refl s
  · dsimp only
    split
    · split <;> exact hk _ _ _
    · split
      · exact Kept.refl s
      · split <;> exact hk _ _ _

theorem kept_handleOutput {s : State} {a : Active} (ha : s.active = some a) (kind text : JsStr)
    (continuation final : Bool) (disk : Disk) :
    Kept s (s.handleOutput a kind text continuation final disk) := by
  have hk : Kept s { s with
      active := some { a with output := appendOutput a.output kind text continuation final } } :=
    Kept.setActive ha ⟨rfl, rfl, rfl, rfl, id⟩
  unfold handleOutput
  split
  · exact Kept.refl s
  · dsimp only
    split
    · exact (hk.trans (kept_saveOutput _ _ _)).trans (kept_interrupt _ _ _)
    · exact hk.trans (kept_emit _ _)

/-! ## Lines of the bridge -/

/-- What a line means for the bridge. -/
inductive LineKind where
  /-- A `kernel_started` or `ready` line with a bad value. -/
  | refused
  /-- A good `ready` line. -/
  | announced
  /-- The bridge failed, or its line is malformed. -/
  | failed
  | other
  deriving DecidableEq

def lineKind (c : BridgeId) (text : JsStr) : LineKind :=
  if s.child ≠ some c then .other
  else
    match (jsonParse text).bind isBridgeMessage with
    | some (.kernelStarted g) => if (processGroup? g).isNone then .refused else .other
    | some (.ready p g f) =>
      match s.readyFault p g f with
      | .error _ => .refused
      | .ok _ => .announced
    | some (.fatal _ _) => .failed
    | some (.bridgeError r _ _) => if s.active.any fun a => r = some a.requestId then .failed else .other
    | some _ => .other
    | none => if ((jsonParse text).bind invalidMessageReason).isSome then .failed else .other

/-- **What a line of a kind does**. -/
inductive LineCase (s : State) : LineKind → State → Prop where
  /-- It changes at most the request in progress. -/
  | kept {t : State} (h : Kept s t) : LineCase s .other t
  /-- The request fails and the bridge is stopped. -/
  | lost (e m : JsStr) : LineCase s .failed (((s.rejectReady e).failActive m).noteReset).kill
  /-- The bridge is stopped. -/
  | refused (e : JsStr) : LineCase s .refused (s.rejectReady e).kill
  /-- The bridge is ready. -/
  | announced (g : Int) (f : JsStr) : LineCase s .announced { s with
      kernelPgid := some g
      kernelConnectionFile := some f
      ready := true
      generation := s.generation + 1 }.resolveReady
  /-- A bridge error about the request in progress. -/
  | bridgeError {a : Active} (ha : s.active = some a) (m : JsStr) :
      LineCase s .failed ({ s with active := none, pendingResetNotice := true }.settle a.request
        (.rejected m)).kill
  /-- The result of the request in progress. -/
  | result {a : Active} (ha : s.active = some a) (x : ProtocolResult) :
      LineCase s .other ({ s with active := none }.settle a.request (.resolved x))

theorem handleLine_cases (c : BridgeId) (text : JsStr) (disk : Disk) :
    LineCase s (s.lineKind c text) (s.handleLine c text disk) := by
  unfold handleLine lineKind
  split
  · exact .kept (Kept.refl s)
  generalize (jsonParse text).bind isBridgeMessage = m
  cases m with
  | none =>
    generalize (jsonParse text).bind invalidMessageReason = reason
    cases reason with
    | none => exact .kept (kept_addStderr _ _)
    | some reason => exact .lost reason _
  | some m =>
    cases m with
    | kernelStarted g =>
      simp only [handleMessage, handleKernelStarted]
      cases processGroup? g with
      | none => exact .refused _
      | some g => exact .kept ⟨rfl, rfl, rfl, rfl, rfl, rfl, rfl, rfl, rfl, keeps_rel_refl _⟩
    | ready p g f =>
      simp only [handleMessage, handleReady]
      cases s.readyFault p g f with
      | error e => exact .refused e
      | ok g => exact .announced g f
    | fatal e t => exact .lost _ _
    | bridgeError r e t =>
      simp only [handleMessage]
      cases ha : s.active with
      | none => exact .kept (Kept.refl s)
      | some a =>
        by_cases hr : r = some a.requestId
        · simp only [BridgeMessage.requestId?, hr, ne_eq, not_true_eq_false, if_false, Option.any_some,
            decide_true, if_true]
          exact .bridgeError ha _
        · simp only [BridgeMessage.requestId?, hr, ne_eq, not_false_eq_true, if_true, Option.any_some,
            decide_false, Bool.false_eq_true, if_false]
          exact .kept (Kept.refl s)
    | _ =>
      simp only [handleMessage]
      split
      · exact .kept (Kept.refl s)
      next a ha =>
      split
      · exact .kept (Kept.refl s)
      first
        | exact .kept ((Kept.setActive (b := { a with output := [], images := [], imagesDropped := 0 })
            ha ⟨rfl, rfl, rfl, rfl, id⟩).trans (kept_emit _ _))
        | exact .kept (kept_handleOutput ha _ _ _ _ _)
        | exact .result ha _
        | (unfold handleImage; dsimp only
           split <;> exact .kept (Kept.setActive ha ⟨rfl, rfl, rfl, rfl, id⟩))

/-- Only a line of the runtime's bridge counts. -/
theorem child_of_lineKind {s : State} {c : BridgeId} {text : JsStr} (h : s.lineKind c text ≠ .other) :
    s.child = some c := by
  by_contra hc
  exact h (by rw [lineKind, if_pos hc])

/-! ## Errors and exits of the bridge -/

/-- A stdin error of the bridge: the request fails and the bridge is stopped. -/
theorem handleStdinError_cases (c : Option BridgeId) (r : JsStr) :
    s.handleStdinError c r = s ∨
    ∃ d e m, s.child = some d ∧ c = some d ∧
      s.handleStdinError c r = (({ s with stderr := e }.noteReset).failActive m).kill := by
  unfold handleStdinError
  split
  · exact .inl rfl
  next d =>
  split
  · exact .inl rfl
  next h => exact .inr ⟨d, _, _, not_not.mp h, rfl, rfl⟩

/-- The runtime without its bridge. -/
def lose : State := { s with
  child := none
  kernelPgid := none
  kernelConnectionFile := none
  ready := false
  stopping := false }

/-- **What the exit of a bridge does**: nothing when it is not the runtime's, else the runtime is
left without a bridge, and the request fails if the exit was not expected. -/
theorem handleExit_cases (c : BridgeId) (r : JsStr) :
    (s.child ≠ some c ∧ s.handleExit c r = s) ∨
    s.child = some c ∧ ∃ e, (s.stopping = true ∧ s.handleExit c r = s.lose.rejectReady e) ∨
      (s.stopping = false ∧ ∃ l k m, s.handleExit c r = ({ s.lose.rejectReady e with
        log := l
        killTimers := k
        pendingResetNotice := s.pendingResetNotice || s.ready }).failActive m) := by
  unfold handleExit
  split
  · next h => exact .inl ⟨h, rfl⟩
  next h =>
  let e := js "IPython " ++ r ++ (if trim s.stderr = [] then [] else js "\n" ++ trim s.stderr)
  obtain ⟨w, l, -, he⟩ := s.lose.rejectReady_eq e
  refine .inr ⟨not_not.mp h, e, ?_⟩
  rw [he]
  dsimp only [lose] at he ⊢
  split
  · next hs => exact .inl ⟨hs, he⟩
  · next hs =>
    refine .inr ⟨by simpa using hs, ?_⟩
    rw [he]
    cases s.kernelPgid with
    | none => exact ⟨s.log, s.killTimers, _, rfl⟩
    | some g => exact ⟨_, _, _, rfl⟩

/-- An exit is aside from the shutdown. -/
theorem handleExit_shutdown (c : BridgeId) (r : JsStr) :
    (s.handleExit c r).shutdown = s.shutdown ∧ (s.handleExit c r).disposed = s.disposed := by
  rcases s.handleExit_cases c r with ⟨-, h⟩ | ⟨-, e, ⟨-, h⟩ | ⟨-, l, k, m, h⟩⟩
  · rw [h]; exact ⟨rfl, rfl⟩
  · obtain ⟨w, l, -, hr⟩ := s.lose.rejectReady_eq e
    rw [h, hr]; exact ⟨rfl, rfl⟩
  · obtain ⟨w, l', -, hr⟩ := s.lose.rejectReady_eq e
    rw [h, hr]
    rcases failActive_cases _ m with ⟨-, hf⟩ | ⟨a, -, hf⟩ <;> rw [hf] <;> exact ⟨rfl, rfl⟩

end PiIpython.Runtime.State
