import PiIpython.Runtime.Cases

/-!
# The log of effects

Effects are only added. Every signal goes to a process group that the runtime
knows: the one of its bridge, one that a termination or the shutdown captured,
or one with a scheduled SIGKILL. The shutdown line goes to the runtime's bridge.
-/

namespace PiIpython.Runtime

open Text

/-- The group that `shutdown` captured. -/
def ShutdownPhase.group : ShutdownPhase → Option Int
  | .closing _ g _ _ => g
  | .closed g => g
  | .reaping g => g
  | _ => none

namespace State

/-- The runtime knows the process group. -/
def Knows (s : State) (g : Int) : Prop :=
  s.kernelPgid = some g ∨ (∃ x ∈ s.terminations, x.kernelPgid = some g) ∨
    s.shutdown.group = some g ∨ g ∈ s.killTimers

/-- Effects are added, signals only to groups of `K` and the shutdown line only to bridges of
`L`. -/
def Logs (K : Int → Prop) (L : BridgeId → Prop) (s t : State) : Prop :=
  ∃ l, t.log = s.log ++ l ∧ (∀ g sig, Effect.signalGroup g sig ∈ l → K g) ∧
    ∀ c, Effect.shutdownLine c ∈ l → L c

/-- The output message about the request in progress that a line of the bridge is: its kind, its
text and its two flags. -/
def outputLine (s : State) (c : BridgeId) (text : JsStr) :
    Option (Active × JsStr × JsStr × Bool × Bool) :=
  if s.child ≠ some c then none
  else
    match (jsonParse text).bind isBridgeMessage, s.active with
    | some (.output id kind x continuation final), some a =>
      if id = a.requestId then some (a, kind, x, continuation, final) else none
    | _, _ => none

/-- Effects are added, signals only to groups of `K`, the shutdown line only to bridges of `L` and
captures only when `C` holds. -/
def Adds (K : Int → Prop) (L : BridgeId → Prop) (C : Prop) (s t : State) : Prop :=
  ∃ l, t.log = s.log ++ l ∧ (∀ g sig, Effect.signalGroup g sig ∈ l → K g) ∧
    (∀ c, Effect.shutdownLine c ∈ l → L c) ∧ ∀ path text, Effect.capture path text ∈ l → C

variable {K : Int → Prop} {L : BridgeId → Prop} {C : Prop} {s t u : State}

theorem adds_of_eq (h : t.log = s.log) : Adds K L C s t :=
  ⟨[], by rw [h, List.append_nil], by simp, by simp, by simp⟩

theorem Adds.refl (s : State) : Adds K L C s s := adds_of_eq rfl

theorem Adds.trans (h : Adds K L C s t) (k : Adds K L C t u) : Adds K L C s u := by
  obtain ⟨l, hl, hg, hc, hp⟩ := h
  obtain ⟨m, hm, hk, hd, hq⟩ := k
  refine ⟨l ++ m, by rw [hm, hl, List.append_assoc], fun g sig hx => ?_, fun c hx => ?_,
    fun path text hx => ?_⟩
  · exact (List.mem_append.mp hx).elim (hg g sig) (hk g sig)
  · exact (List.mem_append.mp hx).elim (hc c) (hd c)
  · exact (List.mem_append.mp hx).elim (hp path text) (hq path text)

/-- A change aside from the log. -/
theorem Adds.next (h : Adds K L C s t) (hu : u.log = t.log) : Adds K L C s u := h.trans (adds_of_eq hu)

theorem Adds.emit (h : Adds K L C s t) {e : Effect} (he : ∀ g sig, e ≠ .signalGroup g sig)
    (hc : ∀ c, e = .shutdownLine c → L c) (hp : ∀ path text, e = .capture path text → C) :
    Adds K L C s (t.emit e) :=
  h.trans ⟨[e], rfl, fun g sig hx => absurd (List.mem_singleton.mp hx).symm (he g sig),
    fun c hx => hc c (List.mem_singleton.mp hx).symm,
    fun path text hx => hp path text (List.mem_singleton.mp hx).symm⟩

theorem Adds.signal (h : Adds K L C s t) {g : Option Int} (hg : ∀ x, g = some x → K x) (sig : Sig) :
    Adds K L C s (t.signalProcessGroup g sig) := by
  cases g with
  | none => exact h
  | some g =>
    refine h.trans ⟨[.signalGroup g sig], rfl, fun x sig' hx => ?_, by simp, by simp⟩
    cases List.mem_singleton.mp hx
    exact hg g rfl

/-! ## The methods -/

theorem rejectReady_log (s : State) (e : JsStr) : (s.rejectReady e).log = s.log := by
  obtain ⟨w, l, -, h⟩ := s.rejectReady_eq e
  rw [h]

theorem rejectReady_pgid (s : State) (e : JsStr) : (s.rejectReady e).kernelPgid = s.kernelPgid := by
  obtain ⟨w, l, -, h⟩ := s.rejectReady_eq e
  rw [h]

theorem failActive_log (s : State) (m : JsStr) : (s.failActive m).log = s.log := by
  rcases s.failActive_cases m with ⟨-, h⟩ | ⟨a, -, h⟩ <;> rw [h]; rfl

theorem failActive_pgid (s : State) (m : JsStr) : (s.failActive m).kernelPgid = s.kernelPgid := by
  rcases s.failActive_cases m with ⟨-, h⟩ | ⟨a, -, h⟩ <;> rw [h]; rfl

theorem saveOutput_pgid (s : State) (disk : Disk) (text : JsStr) :
    (s.saveOutput disk text).1.kernelPgid = s.kernelPgid := by
  unfold State.saveOutput
  split
  · rfl
  dsimp only
  split
  · split <;> rfl
  · split
    · rfl
    · split <;> rfl

theorem Adds.kill (h : Adds K L C s t) (hp : ∀ x, t.kernelPgid = some x → K x) : Adds K L C s t.kill := by
  refine h.trans ?_
  unfold State.kill State.terminate
  split
  · exact .refl t
  · exact .refl t
  · dsimp only
    exact ((adds_of_eq rfl).signal hp .sigterm).emit (by simp) (by simp) (by simp)

theorem Adds.interrupt (h : Adds K L C s t) (hp : ∀ x, t.kernelPgid = some x → K x)
    {reason : JsStr} {overflow : Bool} : Adds K L C s (t.interrupt reason overflow) := by
  refine h.trans ?_
  unfold State.interrupt
  split
  · exact .refl t
  split
  · exact .refl t
  · exact (adds_of_eq rfl).signal hp .sigint

theorem Adds.abortListeners (h : Adds K L C s t) (hp : ∀ x, t.kernelPgid = some x → K x)
    {fires : Signal → Bool} : Adds K L C s (t.abortListeners fires) := by
  refine h.trans ?_
  obtain ⟨w, l, -, ⟨-, he⟩ | ⟨a, -, -, he⟩⟩ := t.abortListeners_cases fires
  · rw [he]; exact adds_of_eq rfl
  · rw [he]
    refine Adds.interrupt ?_ ?_
    · exact adds_of_eq rfl
    · exact hp

/-- What fails the request before the bridge is stopped. -/
theorem Adds.fail (h : Adds K L C s t) (hp : ∀ x, t.kernelPgid = some x → K x) (e m : JsStr) :
    Adds K L C s (((t.rejectReady e).failActive m).noteReset).kill := by
  have hl : ((t.rejectReady e).failActive m).noteReset.log = t.log :=
    (failActive_log _ _).trans (rejectReady_log _ _)
  refine (h.next hl).kill fun x hx => hp x ?_
  change ((t.rejectReady e).failActive m).kernelPgid = some x at hx
  rwa [failActive_pgid, rejectReady_pgid] at hx

theorem Adds.handleStdinError (h : Adds K L C s t) (hp : ∀ x, t.kernelPgid = some x → K x)
    {c : Option BridgeId} {r : JsStr} : Adds K L C s (t.handleStdinError c r) := by
  rcases t.handleStdinError_cases c r with he | ⟨d, e, m, -, -, he⟩
  · rw [he]; exact h
  · rw [he]
    refine Adds.kill (h.next (failActive_log _ _)) fun x hx => hp x ?_
    rw [failActive_pgid] at hx
    exact hx

theorem Adds.request (h : Adds K L C s t) (hp : ∀ x, t.kernelPgid = some x → K x) {m : BridgeRequest}
    {g : Signal} {r : JsStr} {o thrown : Option JsStr} :
    Adds K L C s (t.request m g r o thrown).1 := by
  unfold State.request
  split
  · exact h
  split
  · exact h
  split
  · exact h
  split
  · exact h
  dsimp only
  split
  · exact Adds.emit (h.next rfl) (by simp) (by simp) (by simp)
  · refine Adds.handleStdinError ?_ ?_
    · exact h.next rfl
    · exact hp

theorem Adds.executeStarted (h : Adds K L C s t) (hp : ∀ x, t.kernelPgid = some x → K x) (k : Nat)
    (x : Call) (id code cwd : JsStr) (thrown : Option JsStr) :
    Adds K L C s (t.executeStarted k x id code cwd thrown) := by
  have hr : Adds K L C s ({ t with pendingResetNotice := false }.request (.execute id code cwd) x.signal
      (js "IPython execution cancelled") none thrown).1 := by
    refine Adds.request ?_ ?_
    · exact h.next rfl
    · exact hp
  unfold State.executeStarted
  dsimp only
  split
  · next he => rw [he] at hr; exact hr.next rfl
  · next he => rw [he] at hr; exact hr.next rfl

theorem Adds.saveOutput (h : Adds K L C s t) (hC : C) {disk : Disk} {text : JsStr} :
    Adds K L C s (t.saveOutput disk text).1 := by
  unfold State.saveOutput
  split
  · exact h
  dsimp only
  split
  · split
    · exact Adds.emit (h.next rfl) (by simp) (by simp) fun _ _ _ => hC
    · exact h.next rfl
  · split
    · exact h
    · split
      · exact Adds.emit (h.next rfl) (by simp) (by simp) fun _ _ _ => hC
      · exact h.next rfl

theorem Adds.handleOutput (h : Adds K L C s t) (hp : ∀ x, t.kernelPgid = some x → K x) {a : Active}
    {kind text : JsStr} {continuation final : Bool} {disk : Disk} (hC : C) :
    Adds K L C s (t.handleOutput a kind text continuation final disk) := by
  unfold State.handleOutput
  split
  · exact h
  dsimp only
  split
  · refine Adds.interrupt (Adds.saveOutput ?_ hC) (fun x hx => ?_)
    · exact h.next rfl
    · rw [saveOutput_pgid] at hx
      exact hp x hx
  · exact Adds.emit (h.next rfl) (by simp) (by simp) (by simp)

theorem Adds.handleLine (h : Adds K L C s t) (hp : ∀ x, t.kernelPgid = some x → K x) (c : BridgeId)
    (text : JsStr) (disk : Disk) (hC : (t.outputLine c text).isSome = true → C) :
    Adds K L C s (t.handleLine c text disk) := by
  unfold State.outputLine at hC
  unfold State.handleLine
  split
  · exact h
  next hc =>
  rw [if_neg hc] at hC
  generalize (jsonParse text).bind isBridgeMessage = m at hC ⊢
  have hrefuse : ∀ e, Adds K L C s (t.refuseStartup e) := fun e =>
    (h.next (rejectReady_log t e)).kill fun x hx => hp x (by rwa [rejectReady_pgid] at hx)
  cases m with
  | none =>
    dsimp only
    split
    · exact h.fail hp _ _
    · obtain ⟨e, he⟩ := t.addStderr_eq (js "\nNon-protocol bridge output: " ++ text)
      rw [he]; exact h.next rfl
  | some m =>
    cases m with
    | kernelStarted g =>
      simp only [handleMessage, handleKernelStarted]
      split
      · exact hrefuse _
      · exact h.next rfl
    | ready p g f =>
      simp only [handleMessage, handleReady]
      split
      · exact hrefuse _
      · next g _ =>
        obtain ⟨w, l, -, he⟩ := resolveReady_eq { t with
          kernelPgid := some g, kernelConnectionFile := some f, ready := true
          generation := t.generation + 1 }
        rw [he]
        exact h.next rfl
    | fatal e m => exact h.fail hp _ _
    | _ =>
      simp only [handleMessage]
      split
      · exact h
      next a ha =>
      split
      · exact h
      first
        | exact Adds.emit (h.next rfl) (by simp) (by simp) (by simp)
        | (unfold State.handleImage; dsimp only; split <;> exact h.next rfl)
        | (next hr => exact h.handleOutput hp (hC (by simp_all [BridgeMessage.requestId?])))
        | exact Adds.kill (h.next rfl) (fun x hx => hp x hx)
        | exact h.next rfl

theorem Adds.handleExit (h : Adds K L C s t) (hp : ∀ x, t.kernelPgid = some x → K x) (c : BridgeId)
    (r : JsStr) : Adds K L C s (t.handleExit c r) := by
  unfold State.handleExit
  split
  · exact h
  dsimp only
  split
  · exact h.next (rejectReady_log _ _)
  · refine Adds.next ?_ (failActive_log _ _)
    cases hg : t.kernelPgid with
    | none => exact h.next (rejectReady_log _ _)
    | some g =>
      have hs : ∀ x, some g = some x → K x := fun x hx => hp x (hg.trans hx)
      refine Adds.trans ?_ (adds_of_eq rfl)
      refine Adds.signal ?_ hs .sigterm
      exact h.next (rejectReady_log _ _)

theorem Adds.continueStart (h : Adds K L C s t) (g : Signal) : Adds K L C s (t.continueStart g).1 := by
  unfold State.continueStart
  split
  · exact h
  split
  · exact h
  · unfold startKernel
    dsimp only
    split <;> exact h.next rfl

theorem Adds.beginStart (h : Adds K L C s t) (g : Signal) : Adds K L C s (t.beginStart g).1 := by
  unfold State.beginStart
  split
  · exact h
  split
  · exact h
  · exact h.continueStart g

/-! ## Every step -/

theorem Adds.resumeCall (h : Adds K L C s t) (hp : ∀ x, t.kernelPgid = some x → K x) (k : Nat)
    (x : Call) (thrown : Option JsStr) : Adds K L C s (t.resumeCall k x thrown) := by
  unfold State.resumeCall
  split
  · exact (h.continueStart x.signal).next rfl
  · split <;> exact h.next rfl
  · split
    · exact h.next rfl
    · exact h.executeStarted hp _ _ _ _ _ _
    · exact h.next rfl
  · exact h

theorem Adds.listenersDone (h : Adds K L C s t) (sid : Nat) (g : Signal)
    (result spawned : Except JsStr Unit) : Adds K L C s (t.listenersDone sid g result spawned) := by
  unfold State.listenersDone
  split
  · exact h.next rfl
  split
  · exact h.next rfl
  dsimp only
  split
  · exact h.next rfl
  · exact Adds.emit (h.next rfl) (by simp) (by simp) (by simp)

theorem adds_job {e : Event} (he : s.stepJob e = some t) : Adds s.Knows (fun c => s.child = some c) False s t := by
  have hp : ∀ x, s.kernelPgid = some x → s.Knows x := fun x hx => .inl hx
  have hr : Adds s.Knows (fun c => s.child = some c) False s s := .refl s
  cases e <;> simp only [stepJob, Option.some.injEq, reduceCtorEq] at he
  case start => subst he; exact (hr.beginStart _).next rfl
  case execute =>
    subst he
    unfold callExecute
    dsimp only
    split
    · exact hr.next rfl
    · exact (hr.beginStart _).next rfl
  case evaluate =>
    subst he
    refine Adds.request ?_ ?_
    · exact hr.next rfl
    · exact hp
  case getConnectionFile => subst he; exact (hr.beginStart _).next rfl
  case shutdown =>
    split at he
    · cases he
      refine Adds.next (t := s.dispose) ?_ rfl
      refine Adds.abortListeners ?_ ?_
      · exact hr.next rfl
      · exact hp
    · cases he; exact hr
  case abort =>
    subst he
    refine Adds.abortListeners ?_ ?_
    · exact hr.next rfl
    · exact hp
  case listened =>
    split at he
    · cases he; exact hr.listenersDone _ _ _ _
    · cases he
  case stdinError =>
    split at he
    · cases he; exact hr.handleStdinError hp
    · cases he
  case writeError =>
    split at he
    · cases he
    · cases he; exact hr.handleStdinError hp
  case runtimeReady =>
    split at he
    · obtain ⟨r, -, rfl⟩ := Option.map_eq_some_iff.mp he
      cases r <;> exact hr.next rfl
    · cases he
  case startupFailed =>
    split at he
    · cases he; exact (hr.kill hp).next rfl
    · cases he
  case startupStopped =>
    split at he
    · split at he
      · cases he; exact hr.next rfl
      · cases he
    · cases he
  case startupReady =>
    split at he
    · cases he; exact hr.next rfl
    · cases he
  case startupDone =>
    split at he
    · cases he; exact hr.next rfl
    · cases he
  case reap =>
    split at he
    · next x hx =>
      have hk : ∀ g, x.kernelPgid = some g → s.Knows g := fun g hg =>
        .inr (.inl ⟨x, List.mem_of_getElem? hx, hg⟩)
      split at he
      · cases he
        unfold reapGroup
        split
        · exact (hr.signal hk .sigterm).next rfl
        · exact hr.next rfl
      · cases he
    · cases he
  case terminated =>
    split at he
    · split at he
      · cases he; exact hr.next rfl
      · cases he
    · cases he
  case reject =>
    split at he
    · split at he
      · cases he; exact hr.next rfl
      · cases he
    · cases he
  case resume =>
    split at he
    · split at he
      · cases he; exact hr.resumeCall hp _ _ _
      · cases he
    · cases he
  case shutdownStarted =>
    split at he
    · split at he
      · cases he; exact hr.next rfl
      · cases he
    · cases he
  case shutdownStopped =>
    split at he
    · split at he
      · cases he
        unfold shutdownBridge
        split
        · exact hr.next rfl
        next c hc =>
        dsimp only
        split
        · refine Adds.kill ?_ ?_
          · exact hr.next rfl
          · exact hp
        · exact Adds.emit (hr.next rfl) (by simp) (by simp [hc]) (by simp)
      · cases he
    · cases he
  case shutdownTerminated =>
    split at he
    · split at he
      · cases he; exact hr.next rfl
      · cases he
    · cases he
  case shutdownReap =>
    split at he
    · next g hs =>
      have hk : ∀ x, g = some x → s.Knows x := fun x hx => .inr (.inr (.inl (by rw [hs]; exact hx)))
      cases he
      unfold shutdownReaps
      split
      · exact (hr.signal hk .sigterm).next rfl
      · exact hr.next rfl
    · cases he
  case shutdownWriteError =>
    split at he
    · cases he
    · cases he
    · cases he
    · cases he; exact hr.kill hp

theorem adds_task {e : Event} (he : s.stepTask e = some t) : Adds s.Knows (fun c => s.child = some c) False s t := by
  have hp : ∀ x, s.kernelPgid = some x → s.Knows x := fun x hx => .inl hx
  have hr : Adds s.Knows (fun c => s.child = some c) False s s := .refl s
  cases e <;> simp only [stepTask, reduceCtorEq] at he
  case uv =>
    obtain ⟨x, -, rfl⟩ := Option.map_eq_some_iff.mp he
    unfold uvEnds
    dsimp only
    split
    · exact hr.next rfl
    · split <;> exact hr.next rfl
    · exact hr.next rfl
    · split <;> exact hr.next rfl
    · exact hr
  case stderr =>
    split at he
    · cases he
      rw [(s.addStderr_eq _).choose_spec]
      exact adds_of_eq rfl
    · cases he
  case exit =>
    split at he
    · cases he; exact hr.next rfl
    · cases he
  case error =>
    split at he
    · cases he
      refine Adds.handleExit ?_ ?_ _ _
      · exact hr.next rfl
      · exact hp
    · cases he
  case close =>
    split at he
    · split at he
      · cases he
      · cases he
        unfold bridgeCloses
        refine Adds.trans ?_ (adds_of_eq rfl)
        refine Adds.handleExit ?_ ?_ _ _
        · exact hr.next rfl
        · exact hp
    · cases he
  case startupTimeout =>
    split at he
    · cases he
      obtain ⟨w, l, -, h⟩ := s.finishStartup_eq _ _
      rw [h]
      exact hr.next rfl
    · cases he
  case timeout =>
    split at he
    · cases he
    split at he
    · cases he
    split at he
    · cases he
      refine Adds.interrupt ?_ ?_
      · exact hr.next rfl
      · exact hp
    · cases he
  case grace =>
    split at he
    · cases he
    split at he
    · cases he
      unfold graceExpired
      split
      · exact hr
      split
      · exact hr
      split
      · exact hr
      · refine Adds.trans (t := State.kill _) (Adds.kill ?_ ?_) (adds_of_eq rfl)
        · exact hr.next rfl
        · exact hp
    · cases he
  case force =>
    split at he
    · next x hx =>
      have hk : ∀ g, x.kernelPgid = some g → s.Knows g := fun g hg =>
        .inr (.inl ⟨x, List.mem_of_getElem? hx, hg⟩)
      split at he
      · cases he
        have hu := (hr.signal hk .sigkill).emit (e := .signalBridge x.child .sigkill) (by simp) (by simp) (by simp)
        unfold forceExpired
        dsimp only
        split <;> exact hu.next rfl
      · cases he
    · cases he
  case giveUp =>
    split at he
    · split at he
      · cases he; exact hr.next rfl
      · cases he
    · cases he
  case reapTimer =>
    split at he
    · next x hx =>
      have hk : ∀ g, x.kernelPgid = some g → s.Knows g := fun g hg =>
        .inr (.inl ⟨x, List.mem_of_getElem? hx, hg⟩)
      split at he
      · cases he
        unfold reapExpired
        split
        · exact (hr.signal hk .sigkill).next rfl
        · exact hr.next rfl
      · cases he
    · cases he
  case killTimer g =>
    split at he
    · next hm =>
      cases he
      have hk : ∀ x, some g = some x → s.Knows x := by
        rintro x ⟨⟩
        exact .inr (.inr (.inr hm))
      refine Adds.signal ?_ hk .sigkill
      exact hr.next rfl
    · cases he
  case shutdownTimeout =>
    split at he
    · cases he; exact (hr.kill hp).next rfl
    · cases he
  case shutdownReapTimer =>
    split at he
    · next g hs =>
      have hk : ∀ x, g = some x → s.Knows x := fun x hx => .inr (.inr (.inl (by rw [hs]; exact hx)))
      cases he
      unfold shutdownReapExpired
      split
      · exact (hr.signal hk .sigkill).next rfl
      · exact hr.next rfl
    · cases he; exact hr.next rfl
    · cases he

/-- **A step adds effects**, signals only to groups that the runtime knows, and captures only for an
output message. -/
theorem adds_step {e : Event} (he : step s e = some t) :
    Adds s.Knows (fun c => s.child = some c)
      (∃ c text disk, e = .line c text disk ∧ (s.outputLine c text).isSome = true) s t := by
  have hmono : ∀ {u : State}, Adds s.Knows (fun c => s.child = some c) False s u →
      Adds s.Knows (fun c => s.child = some c)
        (∃ c text disk, e = .line c text disk ∧ (s.outputLine c text).isSome = true) s u := by
    rintro u ⟨l, hl, hg, hc, hp⟩
    exact ⟨l, hl, hg, hc, fun path text hx => (hp path text hx).elim⟩
  unfold step at he
  split at he
  · next c text disk =>
    split at he
    · cases he
      refine (Adds.handleLine (.refl s) (fun x hx => .inl hx) c text disk fun ho => ?_).next rfl
      exact ⟨c, text, disk, rfl, ho⟩
    · cases he
  · split at he
    · next hj => cases he; exact hmono ((adds_job hj).next rfl)
    · split at he
      · obtain ⟨u, hu, rfl⟩ := Option.map_eq_some_iff.mp he
        exact hmono ((adds_task hu).next rfl)
      · cases he

/-- The signals of a step go to groups that the runtime knows. -/
theorem logs_step {e : Event} (he : step s e = some t) :
    Logs s.Knows (fun c => s.child = some c) s t := by
  obtain ⟨l, hl, hg, hc, -⟩ := adds_step he
  exact ⟨l, hl, hg, hc⟩

theorem Logs.mem (h : Logs K L s t) {e : Effect} (he : e ∈ s.log) : e ∈ t.log := by
  obtain ⟨l, hl, -⟩ := h
  rw [hl]
  exact List.mem_append_left _ he

end State

end PiIpython.Runtime
