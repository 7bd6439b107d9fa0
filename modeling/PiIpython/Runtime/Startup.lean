import PiIpython.Runtime.Cases

/-!
# The callers of one startup

Callers that come while the kernel starts await one startup, which listens to
the signal of the caller that began it. `Apart` is what a run keeps in which no
cancellation crosses over: a startup is cancelled only when every call that
awaits it is cancelled too, and no other call comes to it afterwards.
-/

namespace PiIpython.Runtime

open Text

/-- The error of a startup or of a provisioning that was cancelled. -/
def IsCancellation (e : JsStr) : Prop :=
  e = js "IPython startup cancelled" ∨ e = js "Python environment provisioning cancelled"

instance (e : JsStr) : Decidable (IsCancellation e) := inferInstanceAs (Decidable (_ ∨ _))

/-- A text that does not begin like one of the two. -/
theorem not_isCancellation {a b : JsStr} (hs : ¬ a <+: js "IPython startup cancelled")
    (hp : ¬ a <+: js "Python environment provisioning cancelled") : ¬ IsCancellation (a ++ b) := by
  rintro (h | h)
  · exact hs ⟨b, h⟩
  · exact hp ⟨b, h⟩

/-- The event aborts the signal. -/
def Event.aborts (e : Event) (g : Option SignalId) : Bool :=
  match e with
  | .abort σ => decide (g = some σ)
  | _ => false

namespace State

/-- The caller of the call aborted its own signal, or `shutdown` was called. -/
def excused (s : State) (x : Call) : Bool := x.signal.caller.any (· ∈ s.aborted) || s.disposed

/-- A call is rejected with a cancellation only when its own caller cancelled it, or after
`shutdown`. -/
def OwnCancellations (s : State) : Prop :=
  ∀ x ∈ s.calls, ∀ e, x.phase = .over (some e) → IsCancellation e → s.excused x = true

/-- The error that a startup is bound to end with. -/
def fate (s : State) (x : Startup) : Option JsStr :=
  match x.phase with
  | .provisioning p =>
    match s.provisionResult p with
    | some (.error e) => some e
    | _ => none
  | .failed e => some e
  | .stopping _ e => some e
  | .settled (.error e) => some e
  | .done (.error e) => some e
  | _ => none

/-- The startup is bound to end with a cancellation. -/
def cancelled (s : State) (sid : Nat) : Bool :=
  (s.startups[sid]?).any fun x => (s.fate x).any (IsCancellation ·)

/-- The event cancels the startup: its signal is aborted while it waits for the bridge, or was
aborted when uv fails or the listeners are through. A listener or a spawn may fail with the same
words. -/
def cancels (s : State) (sid : Nat) (e : Event) : Bool :=
  (s.startups[sid]?).any fun x =>
    match x.phase, e with
    | .provisioning p, .uv q (.error _) =>
      decide (p = q) && (s.provisions[p]?).any fun y =>
        match y.phase with
        | .settled _ => false
        | _ => s.isAborted y.signal
    | .listeners, .listened i (.error e) _ => decide (i = sid) && decide (IsCancellation e)
    | .listeners, .listened i (.ok _) spawned =>
      decide (i = sid) && (s.isAborted x.signal ||
        match spawned with
        | .error e => decide (IsCancellation e)
        | .ok _ => false)
    | .waiting _, .abort σ => decide (x.signal.caller = some σ) && ! s.isAborted x.signal
    | _, _ => false

/-- The call awaits no startup that the event cancels, or its own caller cancels it. -/
def spares (s : State) (e : Event) (x : Call) : Bool :=
  match x.phase with
  | .starting sid => ! s.cancels sid e || s.excused x || e.aborts x.signal.caller
  | _ => true

/-- The caller's signal of the call that the event brings to `starting`. -/
def comes (s : State) : Event → Option (Option SignalId)
  | .start σ => if s.stoppingPromise.isSome then none else some σ
  | .execute _ _ _ σ => if s.stoppingPromise.isSome then none else some σ
  | .getConnectionFile σ => if s.stoppingPromise.isSome then none else some σ
  | .resume k _ => (s.calls[k]?).bind fun x =>
    match x.phase with
    | .stopping _ => some x.signal.caller
    | _ => none
  | _ => none

/-- A call that comes now awaits a startup that is bound to end with a cancellation. -/
def lingers (s : State) : Bool := ! (s.child.isSome && s.ready) && s.starting.any s.cancelled

/-- The steps that cancel no other caller's call: each call that awaits the startup they cancel is
cancelled itself, and no other call comes to a startup that was cancelled. -/
def Separate (s : State) (e : Event) : Prop :=
  (∀ x ∈ s.calls, s.spares e x = true) ∧
    ∀ σ ∈ s.comes e, s.lingers = true → s.disposed = true ∨ σ.any (· ∈ s.aborted) = true

instance (s : State) (e : Event) : Decidable (s.Separate e) :=
  inferInstanceAs (Decidable (_ ∧ ∀ σ ∈ s.comes e, _ → _))

/-! ## Steps that share nothing -/

/-- The fields that decide how the calls that await a startup end. -/
structure Shared where
  calls : List Call
  provisions : List Provision
  provisioning : Option Nat
  aborted : List SignalId
  disposed : Bool

def shared (s : State) : Shared := ⟨s.calls, s.provisions, s.provisioning, s.aborted, s.disposed⟩

/-- The step leaves the shared fields alone and cancels no startup. -/
structure Calm (s t : State) : Prop where
  shared : t.shared = s.shared
  cancelled : ∀ sid, t.cancelled sid = true → s.cancelled sid = true

variable {s t u : State}

theorem cancelled_iff {sid : Nat} : s.cancelled sid = true ↔
    ∃ x e, s.startups[sid]? = some x ∧ s.fate x = some e ∧ IsCancellation e := by
  simp only [cancelled, Option.any_eq_true, decide_eq_true_eq]
  constructor
  · rintro ⟨x, hx, e, he, hc⟩
    exact ⟨x, e, hx, he, hc⟩
  · rintro ⟨x, e, hx, he, hc⟩
    exact ⟨x, hx, e, he, hc⟩

theorem provisions_of_shared (h : t.shared = s.shared) : t.provisions = s.provisions :=
  congrArg Shared.provisions h

theorem fate_congr (hp : t.provisions = s.provisions) : t.fate = s.fate := by
  funext x
  unfold fate provisionResult
  rw [hp]

theorem fate_provisioning {g : Signal} {p : Nat} {e : JsStr} :
    s.fate ⟨g, .provisioning p⟩ = some e ↔ s.provisionResult p = some (.error e) := by
  unfold fate
  dsimp only
  split
  · next d hd => rw [hd]; simp
  · next hn =>
    refine iff_of_false (fun h => nomatch h) fun h => hn e h

/-- A startup's end depends on the provisionings that failed. -/
theorem fate_mono (h : ∀ q e, t.provisionResult q = some (.error e) →
    s.provisionResult q = some (.error e)) {x : Startup} {e : JsStr} (he : t.fate x = some e) :
    s.fate x = some e := by
  obtain ⟨g, p⟩ := x
  cases p with
  | provisioning q => exact fate_provisioning.mpr (h q e (fate_provisioning.mp he))
  | settled r => cases r <;> exact he
  | done r => cases r <;> exact he
  | _ => exact he

theorem calm_of_eq (h : t.shared = s.shared) (hx : t.startups = s.startups) : Calm s t := by
  refine ⟨h, fun sid hc => ?_⟩
  unfold cancelled at hc ⊢
  rwa [fate_congr (provisions_of_shared h), hx] at hc

theorem Calm.refl (s : State) : Calm s s := calm_of_eq rfl rfl

theorem Calm.trans (h : Calm s t) (k : Calm t u) : Calm s u :=
  ⟨k.shared.trans h.shared, fun sid hc => h.cancelled sid (k.cancelled sid hc)⟩

/-- Startups that stop waiting for another reason. -/
theorem Ended.calm {f : BridgeId → StartupPhase} {w : Option Nat} {l : List Startup}
    (h : s.Ended f w l) (hf : ∀ c g e, s.fate ⟨g, f c⟩ = some e → ¬ IsCancellation e) :
    Calm s { s with readyWaiter := w, startups := l } := by
  refine ⟨rfl, fun sid hc => ?_⟩
  obtain ⟨⟨g, p⟩, e, hy, he, hc⟩ := cancelled_iff.mp hc
  have he : s.fate ⟨g, p⟩ = some e := he
  rcases h.startup hy with hx | ⟨c, -, hp⟩
  · exact cancelled_iff.mpr ⟨_, e, hx, he, hc⟩
  · cases hp
    exact absurd hc (hf c g e he)

theorem calm_finishStartup (s : State) (sid : Nat) {f : BridgeId → StartupPhase}
    (hf : ∀ c g e, s.fate ⟨g, f c⟩ = some e → ¬ IsCancellation e) :
    Calm s (s.finishStartup sid f) := by
  obtain ⟨w, l, h, he⟩ := s.finishStartup_eq sid f
  rw [he]
  exact h.calm hf

theorem calm_rejectReady (s : State) {e : JsStr} (he : ¬ IsCancellation e) :
    Calm s (s.rejectReady e) := by
  obtain ⟨w, l, h, hr⟩ := s.rejectReady_eq e
  rw [hr]
  refine h.calm fun _ _ d hd => ?_
  cases hd
  exact he

theorem calm_resolveReady (s : State) : Calm s s.resolveReady := by
  obtain ⟨w, l, h, hr⟩ := s.resolveReady_eq
  rw [hr]
  refine h.calm fun _ _ d hd => ?_
  cases hd

theorem calm_kill (s : State) : Calm s s.kill := by
  rcases s.terminate_cases with ⟨t, -, h⟩ | ⟨-, -, h⟩ | ⟨c, l, -, -, h⟩ <;>
    rw [kill, h] <;> exact calm_of_eq rfl rfl

theorem calm_failActive (s : State) (m : JsStr) : Calm s (s.failActive m) := by
  rcases s.failActive_cases m with ⟨-, h⟩ | ⟨a, -, h⟩ <;> rw [h] <;> exact calm_of_eq rfl rfl

theorem calm_signalProcessGroup (s : State) (g : Option Int) (sig : Sig) :
    Calm s (s.signalProcessGroup g sig) := by
  obtain ⟨l, h⟩ := s.signalProcessGroup_eq g sig
  rw [h]
  exact calm_of_eq rfl rfl

theorem calm_interrupt (s : State) (reason : JsStr) (overflow : Bool) :
    Calm s (s.interrupt reason overflow) := by
  unfold interrupt
  split
  · exact .refl s
  split
  · exact .refl s
  · refine Calm.trans ?_ (calm_signalProcessGroup _ _ _)
    exact calm_of_eq rfl rfl

theorem calm_saveOutput (s : State) (disk : Disk) (text : JsStr) :
    Calm s (s.saveOutput disk text).1 := by
  unfold saveOutput
  split
  · exact .refl s
  dsimp only
  split
  · split <;> exact calm_of_eq rfl rfl
  · split
    · exact .refl s
    · split <;> exact calm_of_eq rfl rfl

theorem calm_handleOutput (s : State) (a : Active) (kind text : JsStr) (continuation final : Bool)
    (disk : Disk) : Calm s (s.handleOutput a kind text continuation final disk) := by
  unfold handleOutput
  split
  · exact .refl s
  dsimp only
  split
  · refine Calm.trans ?_ (calm_interrupt _ _ _)
    refine Calm.trans ?_ (calm_saveOutput _ _ _)
    exact calm_of_eq rfl rfl
  · exact calm_of_eq rfl rfl

/-- A failure of the bridge: the startup and the request fail and the bridge is stopped. -/
theorem calm_fail (s : State) {e : JsStr} (he : ¬ IsCancellation e) (m : JsStr) :
    Calm s (((s.rejectReady e).failActive m).noteReset).kill := by
  refine ((calm_rejectReady s he).trans (calm_failActive _ m)).trans ?_
  refine Calm.trans ?_ (calm_kill _)
  exact calm_of_eq rfl rfl

theorem calm_refuseStartup (s : State) {e : JsStr} (he : ¬ IsCancellation e) :
    Calm s (s.refuseStartup e) := (calm_rejectReady s he).trans (calm_kill _)

/-- No reason to refuse a line reads like a cancellation. -/
theorem invalidMessageReason_ne {v : JsonValue} {e : JsStr} (h : invalidMessageReason v = some e) :
    ¬ IsCancellation e := by
  unfold invalidMessageReason at h
  split at h
  · cases h
  · cases h; decide
  · cases h
    split
    · decide
    split <;> decide
  · cases h
    rw [List.append_assoc]
    exact not_isCancellation (by decide) (by decide)

theorem readyFault_ne {p g : Binary64} {f e : JsStr} (h : s.readyFault p g f = .error e) :
    ¬ IsCancellation e := by
  unfold readyFault at h
  split at h
  · cases h; decide
  split at h
  · cases h; decide
  split at h
  · cases h; decide
  split at h
  · cases h; decide
  · cases h

theorem calm_handleLine (s : State) (c : BridgeId) (text : JsStr) (disk : Disk) :
    Calm s (s.handleLine c text disk) := by
  unfold handleLine
  split
  · exact .refl s
  generalize (jsonParse text).bind isBridgeMessage = m
  cases m with
  | none =>
    dsimp only
    split
    · next reason h =>
      obtain ⟨v, -, h⟩ := Option.bind_eq_some_iff.mp h
      exact calm_fail s (invalidMessageReason_ne h) _
    · obtain ⟨e, he⟩ := s.addStderr_eq (js "\nNon-protocol bridge output: " ++ text)
      rw [he]
      exact calm_of_eq rfl rfl
  | some m =>
    cases m with
    | kernelStarted g =>
      simp only [handleMessage, handleKernelStarted]
      split
      · exact calm_refuseStartup s (by decide)
      · exact calm_of_eq rfl rfl
    | ready p g f =>
      simp only [handleMessage, handleReady]
      split
      · next h => exact calm_refuseStartup s (readyFault_ne h)
      · refine Calm.trans ?_ (calm_resolveReady _)
        exact calm_of_eq rfl rfl
    | fatal e m => exact calm_fail s (not_isCancellation (by decide) (by decide)) _
    | _ =>
      simp only [handleMessage]
      split
      · exact .refl s
      next a ha =>
      split
      · exact .refl s
      first
        | exact calm_handleOutput s a _ _ _ _ _
        | (unfold handleImage; dsimp only; split <;> exact calm_of_eq rfl rfl)
        | exact calm_of_eq rfl rfl
        | (refine Calm.trans ?_ (calm_kill _); exact calm_of_eq rfl rfl)

theorem calm_stdinError (s : State) (c : Option BridgeId) (r : JsStr) :
    Calm s (s.handleStdinError c r) := by
  rcases s.handleStdinError_cases c r with h | ⟨d, e, m, -, -, h⟩
  · rw [h]; exact .refl s
  · rw [h]
    refine Calm.trans ?_ (calm_kill _)
    refine Calm.trans ?_ (calm_failActive _ m)
    exact calm_of_eq rfl rfl

theorem calm_request (s : State) (m : BridgeRequest) (g : Signal) (r : JsStr)
    (o thrown : Option JsStr) : Calm s (s.request m g r o thrown).1 := by
  rcases s.request_cases m g r o thrown with ⟨-, e, h⟩ | ⟨c, -, -, -, -, ⟨-, l, h⟩ | ⟨-, e, x, h⟩⟩
  · rw [h]; exact .refl s
  · rw [h]; exact calm_of_eq rfl rfl
  · rw [h]
    refine Calm.trans ?_ (calm_kill _)
    exact calm_of_eq rfl rfl

/-- What `request` is refused with. -/
theorem request_error {m : BridgeRequest} {g : Signal} {r e : JsStr} {o thrown : Option JsStr}
    (h : (s.request m g r o thrown).2 = .error e) (hr : ¬ IsCancellation r) :
    ¬ IsCancellation e := by
  unfold request at h
  split at h
  · cases h; decide
  split at h
  · cases h; decide
  split at h
  · cases h; decide
  split at h
  · cases h; exact hr
  dsimp only at h
  split at h <;> cases h

theorem calm_handleExit (s : State) (c : BridgeId) {a b : JsStr}
    (hs : ¬ js "IPython " ++ a <+: js "IPython startup cancelled")
    (hp : ¬ js "IPython " ++ a <+: js "Python environment provisioning cancelled") :
    Calm s (s.handleExit c (a ++ b)) := by
  unfold handleExit
  split
  · exact .refl s
  dsimp only
  refine Calm.trans (t := s.lose) (calm_of_eq rfl rfl) ?_
  have hr : Calm s.lose (s.lose.rejectReady (js "IPython " ++ (a ++ b) ++
      if trim s.stderr = [] then [] else js "\n" ++ trim s.stderr)) := by
    refine calm_rejectReady _ ?_
    rw [← List.append_assoc, List.append_assoc]
    exact not_isCancellation hs hp
  split
  · exact hr
  · refine hr.trans (Calm.trans ?_ (calm_failActive _ _))
    cases s.kernelPgid <;> exact calm_of_eq rfl rfl

theorem calm_setTermination (s : State) (t : TerminationId) (x : Termination) :
    Calm s (s.setTermination t x) := calm_of_eq rfl rfl

/-- A startup goes on to no new end. -/
theorem calm_setStartup {sid : Nat} {x y : Startup} (hx : s.startups[sid]? = some x)
    (hy : ∀ e, s.fate y = some e → IsCancellation e → s.fate x = some e) :
    Calm s (s.setStartup sid y) := by
  refine ⟨rfl, fun i hc => ?_⟩
  obtain ⟨z, e, hz, he, hce⟩ := cancelled_iff.mp hc
  have he : s.fate z = some e := he
  change (s.startups.set sid y)[i]? = some z at hz
  by_cases hi : sid = i
  · subst hi
    rw [List.getElem?_set_self (List.getElem?_eq_some_iff.mp hx).1] at hz
    cases hz
    exact cancelled_iff.mpr ⟨x, e, hx, hy e he hce, hce⟩
  · rw [List.getElem?_set_ne hi] at hz
    exact cancelled_iff.mpr ⟨z, e, hz, he, hce⟩

end State

open State

/-! ## The invariant -/

variable {s t : State}

/-- No cancellation crosses over to another caller. -/
structure Apart (s : State) : Prop where
  own : s.OwnCancellations
  /-- The calls that await a cancelled startup are cancelled too. -/
  spared : ∀ x ∈ s.calls, ∀ sid, x.phase = .starting sid → s.cancelled sid = true →
    s.excused x = true
  /-- The next startup awaits no provisioning that failed. -/
  fresh : ∀ p, s.provisioning = some p → ∀ e, s.provisionResult p ≠ some (.error e)

theorem apart_init : Apart State.init :=
  ⟨fun _ hx => absurd hx List.not_mem_nil, fun _ hx => absurd hx List.not_mem_nil, fun _ hp => by cases hp⟩

theorem excused_congr (h : t.shared = s.shared) : t.excused = s.excused := by
  have ha : t.aborted = s.aborted := congrArg Shared.aborted h
  have hd : t.disposed = s.disposed := congrArg Shared.disposed h
  funext x
  rw [State.excused, State.excused, ha, hd]

/-- **A step is apart** when each call that awaits a startup it cancels is excused. -/
theorem Apart.next (h : Apart s) (hcalls : t.calls = s.calls)
    (hx : ∀ x, s.excused x = true → t.excused x = true)
    (hc : ∀ sid, t.cancelled sid = true → s.cancelled sid = true ∨
      ∀ x ∈ s.calls, x.phase = .starting sid → t.excused x = true)
    (hf : ∀ p, t.provisioning = some p → ∀ e, t.provisionResult p ≠ some (.error e)) :
    Apart t := by
  refine ⟨fun x hm e he hce => ?_, fun x hm sid hs hcs => ?_, hf⟩
  · exact hx x (h.own x (hcalls ▸ hm) e he hce)
  · rw [hcalls] at hm
    rcases hc sid hcs with hcs | hcs
    · exact hx x (h.spared x hm sid hs hcs)
    · exact hcs x hm hs

theorem Apart.fresh_congr (h : Apart s) (ho : t.provisioning = s.provisioning)
    (hl : t.provisions = s.provisions) (p : Nat) (hp : t.provisioning = some p) (e : JsStr) :
    t.provisionResult p ≠ some (.error e) := by
  rw [State.provisionResult, hl]
  exact h.fresh p (ho ▸ hp) e

theorem Apart.calm (h : Apart s) (hc : Calm s t) : Apart t :=
  h.next (congrArg Shared.calls hc.shared)
    (fun _ hx => excused_congr hc.shared ▸ hx) (fun sid hs => .inl (hc.cancelled sid hs))
    (h.fresh_congr (congrArg Shared.provisioning hc.shared) (provisions_of_shared hc.shared))

/-- What a call's phase must meet. -/
def State.Spares (s : State) (x : Call) : Prop :=
  (∀ e, x.phase = .over (some e) → IsCancellation e → s.excused x = true) ∧
    ∀ sid, x.phase = .starting sid → s.cancelled sid = true → s.excused x = true

theorem Apart.addCall (h : Apart s) {kind : CallKind} {g : Signal} {p : CallPhase}
    (hp : s.Spares ⟨kind, g, p⟩) : Apart (s.addCall kind g p) := by
  refine ⟨fun x hx => ?_, fun x hx => ?_, h.fresh⟩
  · rcases List.mem_append.mp hx with hx | hx
    · exact h.own x hx
    · rw [List.mem_singleton.mp hx]; exact hp.1
  · rcases List.mem_append.mp hx with hx | hx
    · exact h.spared x hx
    · rw [List.mem_singleton.mp hx]; exact hp.2

theorem Apart.setCall (h : Apart s) (k : Nat) {x : Call} (hp : s.Spares x) :
    Apart (s.setCall k x) := by
  refine ⟨fun y hy => ?_, fun y hy => ?_, h.fresh⟩
  · rcases List.mem_or_eq_of_mem_set hy with hy | rfl
    · exact h.own y hy
    · exact hp.1
  · rcases List.mem_or_eq_of_mem_set hy with hy | rfl
    · exact h.spared y hy
    · exact hp.2

/-- **A new startup** is not cancelled, and cancels no other. -/
theorem Apart.begins (h : Apart s) {g : Signal} {p : Nat} {o : Option Nat} {l : List Provision}
    (ho : o = some p) (hl : ∀ q e, ({ s with provisions := l } : State).provisionResult q =
      some (.error e) → s.provisionResult q = some (.error e))
    (hp : ∀ e, ({ s with provisions := l } : State).provisionResult p ≠ some (.error e)) :
    Apart { s with
      provisioning := o
      provisions := l
      startups := s.startups ++ [⟨g, .provisioning p⟩]
      starting := some s.startups.length } ∧
    State.cancelled { s with
      provisioning := o
      provisions := l
      startups := s.startups ++ [⟨g, .provisioning p⟩]
      starting := some s.startups.length } s.startups.length = false := by
  generalize ht : ({ s with
      provisioning := o
      provisions := l
      startups := s.startups ++ [⟨g, .provisioning p⟩]
      starting := some s.startups.length } : State) = t
  have hr : t.provisionResult = ({ s with provisions := l } : State).provisionResult := by
    subst ht; rfl
  have hx : t.startups = s.startups ++ [⟨g, .provisioning p⟩] := by subst ht; rfl
  -- the startups that end with a cancellation did so before
  have hold : ∀ sid, t.cancelled sid = true → sid < s.startups.length ∧ s.cancelled sid = true := by
    intro sid hc
    obtain ⟨z, e, hz, he, hce⟩ := cancelled_iff.mp hc
    rw [hx, List.getElem?_append] at hz
    split at hz
    · next hlt =>
      exact ⟨hlt, cancelled_iff.mpr ⟨z, e, hz, fate_mono (hr ▸ hl) he, hce⟩⟩
    · obtain ⟨-, rfl⟩ : _ ∧ _ = z := by simpa [List.getElem?_singleton] using hz
      exact absurd (hr ▸ fate_provisioning.mp he) (hp e)
  have hcalls : t.calls = s.calls := by subst ht; rfl
  have hexc : t.excused = s.excused := by subst ht; rfl
  refine ⟨⟨fun x hxs e => ?_, fun x hxs sid hs hc => ?_, fun q hq e => ?_⟩, ?_⟩
  · rw [hexc]
    exact h.own x (hcalls ▸ hxs) e
  · rw [hexc]
    exact h.spared x (hcalls ▸ hxs) sid hs (hold sid hc).2
  · have hq : o = some q := by subst ht; exact hq
    rw [hr]
    cases ho.symm.trans hq
    exact hp e
  · by_contra hc
    exact absurd (hold _ (by simpa using hc)).1 (lt_irrefl _)

theorem Apart.continueStart (h : Apart s) {g : Signal}
    (hg : s.lingers = true → s.disposed = true ∨ g.caller.any (· ∈ s.aborted) = true) :
    Apart (s.continueStart g).1 ∧ ∀ kind, (s.continueStart g).1.Spares
      ⟨kind, g, (s.continueStart g).2⟩ := by
  unfold State.continueStart
  split
  · exact ⟨h, fun _ => ⟨fun _ he => (nomatch he), fun _ he => (nomatch he)⟩⟩
  next hn =>
  split
  · next sid hs =>
    refine ⟨h, fun kind => ⟨fun _ he => (nomatch he), fun i hi hc => ?_⟩⟩
    cases hi
    have hl : s.lingers = true := by
      simp only [lingers, hs, Option.any_some, hc, Bool.and_true, Bool.not_eq_true']
      simpa using hn
    rw [excused, Bool.or_eq_true]
    exact (hg hl).symm
  · have hspare : ∀ (t : State) (kind : CallKind), t.cancelled s.startups.length = false →
        t.Spares ⟨kind, g, .starting s.startups.length⟩ := by
      refine fun t kind hf => ⟨fun _ he => (nomatch he), fun i hi hc => ?_⟩
      cases hi
      cases hf.symm.trans hc
    unfold startKernel
    dsimp only
    split
    · next p hp =>
      have ht := h.begins (g := g) (l := s.provisions) hp (fun _ _ hr => hr) (h.fresh p hp)
      exact ⟨ht.1, fun kind => hspare _ kind ht.2⟩
    · have hnew : ∀ q, ({ s with provisions := s.provisions ++ [⟨g, .checking⟩] } :
          State).provisionResult q = s.provisionResult q := by
        intro q
        simp only [provisionResult]
        rw [List.getElem?_append]
        by_cases hq : q < s.provisions.length
        · rw [if_pos hq]
        · rw [if_neg hq, List.getElem?_eq_none (l := s.provisions) (not_lt.mp hq)]
          rcases q - s.provisions.length with _ | n <;> rfl
      have ht := h.begins (g := g) (l := s.provisions ++ [⟨g, .checking⟩]) rfl
        (fun q e hr => (hnew q).symm.trans hr) (p := s.provisions.length) (fun e he => by
          rw [hnew, provisionResult, List.getElem?_eq_none (le_refl _)] at he
          cases he)
      exact ⟨ht.1, fun kind => hspare _ kind ht.2⟩

theorem Apart.beginStart (h : Apart s) {g : Signal}
    (hg : s.stoppingPromise = none → s.lingers = true →
      s.disposed = true ∨ g.caller.any (· ∈ s.aborted) = true) (kind : CallKind) :
    Apart ((s.beginStart g).1.addCall kind g (s.beginStart g).2) := by
  unfold State.beginStart
  split
  · refine h.addCall ⟨fun e he hc => ?_, fun _ he => (nomatch he)⟩
    cases he
    exact absurd hc (by decide)
  split
  · exact h.addCall ⟨fun _ he => (nomatch he), fun _ he => (nomatch he)⟩
  · next hn =>
    obtain ⟨ha, hs⟩ := h.continueStart (hg hn)
    exact ha.addCall (hs kind)

/-! ## Steps that cancel -/

theorem State.Separate.excused {e : Event} (ho : s.Separate e) {sid : Nat}
    (hc : s.cancels sid e = true) {x : Call} (hx : x ∈ s.calls) (hp : x.phase = .starting sid) :
    s.excused x = true ∨ e.aborts x.signal.caller = true := by
  have hs := ho.1 x hx
  simpa only [spares, hp, hc, Bool.not_true, Bool.false_or, Bool.or_eq_true] using hs

/-- A startup goes on, to a cancellation only when the calls that await it are excused. -/
theorem Apart.setStartup (h : Apart s) {sid : Nat} {x y : Startup} (hx : s.startups[sid]? = some x)
    (hy : ∀ e, s.fate y = some e → IsCancellation e → s.fate x = some e ∨
      ∀ z ∈ s.calls, z.phase = .starting sid → s.excused z = true) :
    Apart (s.setStartup sid y) := by
  refine h.next rfl (fun _ hz => hz) (fun i hc => ?_) h.fresh
  obtain ⟨z, e, hz, he, hce⟩ := cancelled_iff.mp hc
  have he : s.fate z = some e := he
  change (s.startups.set sid y)[i]? = some z at hz
  by_cases hi : sid = i
  · subst hi
    rw [List.getElem?_set_self (List.getElem?_eq_some_iff.mp hx).1] at hz
    cases hz
    exact (hy e he hce).imp_left fun hf => cancelled_iff.mpr ⟨x, e, hx, hf, hce⟩
  · rw [List.getElem?_set_ne hi] at hz
    exact .inl (cancelled_iff.mpr ⟨z, e, hz, he, hce⟩)

/-- The startups that an abort cancels wait for the bridge with a signal that fires. -/
theorem cancelled_abortListeners {fires : Signal → Bool} {sid : Nat}
    (hc : (s.abortListeners fires).cancelled sid = true) :
    s.cancelled sid = true ∨ ∃ g c, s.startups[sid]? = some ⟨g, .waiting c⟩ ∧ fires g = true := by
  have hm : State.cancelled { s with
      readyWaiter := if s.startups.any (·.waits fires) then none else s.readyWaiter
      startups := s.startups.map fun x =>
        if x.waits fires then { x with phase := .failed (js "IPython startup cancelled") } else x } sid =
      true := by
    unfold abortListeners at hc
    dsimp only at hc
    split at hc
    · exact hc
    split at hc
    · exact (calm_interrupt _ _ _).cancelled sid hc
    · exact hc
  obtain ⟨z, e, hz, he, hce⟩ := cancelled_iff.mp hm
  rw [List.getElem?_map] at hz
  obtain ⟨⟨g, p⟩, hx, hz⟩ := Option.map_eq_some_iff.mp hz
  by_cases hw : Startup.waits fires ⟨g, p⟩ = true
  · right
    cases p with
    | waiting c => exact ⟨g, c, hx, hw⟩
    | _ => cases hw
  · rw [if_neg hw] at hz
    subst hz
    exact .inl (cancelled_iff.mpr ⟨_, e, hx, he, hce⟩)

theorem abortListeners_shared (s : State) (fires : Signal → Bool) :
    (s.abortListeners fires).shared = s.shared := by
  obtain ⟨w, l, -, ⟨-, h⟩ | ⟨a, -, -, h⟩⟩ := s.abortListeners_cases fires
  · rw [h]; rfl
  · rw [h]; exact (calm_interrupt _ _ _).shared

theorem Apart.abort (h : Apart s) {σ : SignalId} (ho : s.Separate (.abort σ)) :
    Apart (s.abort σ) := by
  have hs := abortListeners_shared { s with aborted := σ :: s.aborted } fun g =>
    decide (g.caller = some σ) && ! s.isAborted g
  have hexc : ∀ x, s.excused x = true ∨ Event.aborts (.abort σ) x.signal.caller = true →
      (s.abort σ).excused x = true := by
    intro x hx
    rw [State.abort, excused_congr hs]
    simp only [State.excused, Event.aborts, Bool.or_eq_true, Option.any_eq_true,
      decide_eq_true_eq] at hx ⊢
    rcases hx with (⟨τ, hτ, hm⟩ | hd) | hx
    · exact .inl ⟨τ, hτ, List.mem_cons_of_mem _ hm⟩
    · exact .inr hd
    · exact .inl ⟨σ, hx, List.mem_cons_self⟩
  refine h.next (congrArg Shared.calls hs) (fun x hx => hexc x (.inl hx)) (fun sid hc => ?_)
    (h.fresh_congr (congrArg Shared.provisioning hs) (congrArg Shared.provisions hs))
  refine (cancelled_abortListeners hc).imp id fun ⟨g, c, hx, hf⟩ z hz hp => ?_
  have hcancel : s.cancels sid (.abort σ) = true := by
    simpa only [cancels, hx, Option.any_some] using hf
  exact hexc z (ho.excused hcancel hz hp)

/-- After `shutdown` every call is excused. -/
theorem Apart.dispose (h : Apart s) : Apart s.dispose := by
  have hs := abortListeners_shared { s with disposed := true } fun g =>
    g.lifecycle && ! s.isAborted g
  have hexc : ∀ x, s.dispose.excused x = true := by
    intro x
    rw [State.dispose, excused_congr hs, State.excused, Bool.or_true]
  exact h.next (congrArg Shared.calls hs) (fun x _ => hexc x) (fun _ _ => .inr fun x _ _ => hexc x)
    (h.fresh_congr (congrArg Shared.provisioning hs) (congrArg Shared.provisions hs))

/-- A provisioning goes on. -/
theorem Apart.setProvision (h : Apart s) {p : Nat} {x y : Provision} {o : Option Nat}
    (hx : s.provisions[p]? = some x) (ho : ∀ q, o = some q → s.provisioning = some q)
    (hy : ∀ e, y.phase = .settled (.error e) → o ≠ some p ∧ (IsCancellation e →
      ∀ sid g, s.startups[sid]? = some ⟨g, .provisioning p⟩ →
        ∀ z ∈ s.calls, z.phase = .starting sid → s.excused z = true)) :
    Apart { s with provisions := s.provisions.set p y, provisioning := o } := by
  have hset : ∀ q e, State.provisionResult { s with
      provisions := s.provisions.set p y, provisioning := o } q = some (.error e) →
      q = p ∧ y.phase = .settled (.error e) ∨ s.provisionResult q = some (.error e) := by
    intro q e hr
    unfold provisionResult at hr ⊢
    dsimp only at hr
    by_cases hq : p = q
    · subst hq
      rw [List.getElem?_set_self (List.getElem?_eq_some_iff.mp hx).1] at hr
      obtain ⟨g, ph⟩ := y
      cases ph with
      | settled r => exact .inl ⟨rfl, congrArg ProvisionPhase.settled (Option.some.inj hr)⟩
      | _ => cases hr
    · rw [List.getElem?_set_ne hq] at hr
      exact .inr hr
  refine h.next rfl (fun _ hz => hz) (fun sid hc => ?_) (fun q hq e hr => ?_)
  · obtain ⟨⟨g, ph⟩, e, hz, he, hce⟩ := cancelled_iff.mp hc
    cases ph with
    | provisioning q =>
      rcases hset q e (fate_provisioning.mp he) with ⟨rfl, hr⟩ | hr
      · exact .inr fun z => (hy e hr).2 hce sid g hz z
      · exact .inl (cancelled_iff.mpr ⟨_, e, hz, fate_provisioning.mpr hr, hce⟩)
    | settled r => cases r <;> exact .inl (cancelled_iff.mpr ⟨_, e, hz, he, hce⟩)
    | done r => cases r <;> exact .inl (cancelled_iff.mpr ⟨_, e, hz, he, hce⟩)
    | _ => exact .inl (cancelled_iff.mpr ⟨_, e, hz, he, hce⟩)
  · rcases hset q e hr with ⟨rfl, hf⟩ | hf
    · exact (hy e hf).1 hq
    · exact h.fresh q (ho q hq) e hf

theorem Apart.uvEnds (h : Apart s) {p : Nat} {x : Provision} (hx : s.provisions[p]? = some x)
    {result : Except JsStr Unit} (ho : s.Separate (.uv p result)) :
    Apart (s.uvEnds p x result) := by
  -- the calls that await a startup that uv fails are excused when its signal is aborted
  have hcancel : ∀ e, result = .error e → (∀ r, x.phase ≠ .settled r) →
      s.isAborted x.signal = true → ∀ sid g, s.startups[sid]? = some ⟨g, .provisioning p⟩ →
      ∀ z ∈ s.calls, z.phase = .starting sid → s.excused z = true := by
    intro e he hp ha sid g hs z hz hzp
    have hc : s.cancels sid (.uv p result) = true := by
      obtain ⟨gx, ph⟩ := x
      simp only [cancels, hs, he, Option.any_some, hx, decide_true, Bool.true_and]
      cases ph with
      | settled r => exact absurd rfl (hp r)
      | _ => exact ha
    exact (ho.excused hc hz hzp).resolve_right (by simp [Event.aborts])
  have hgone : ∀ q, (if s.provisioning = some p then none else s.provisioning) = some q →
      q ≠ p ∧ s.provisioning = some q := by
    intro q hq
    split at hq
    · cases hq
    · next hn => exact ⟨fun he => hn (he ▸ hq), hq⟩
  have hfail : ∀ e, (IsCancellation e → ∀ sid g, s.startups[sid]? = some ⟨g, .provisioning p⟩ →
      ∀ z ∈ s.calls, z.phase = .starting sid → s.excused z = true) → Apart { s with
        provisions := s.provisions.set p { x with phase := .settled (.error e) }
        provisioning := if s.provisioning = some p then none else s.provisioning } := by
    refine fun e hc => h.setProvision hx (fun q hq => (hgone q hq).2) fun d hd => ?_
    cases hd
    exact ⟨fun hp => (hgone p hp).1 rfl, hc⟩
  have hset : ∀ ph, (∀ e, ph ≠ .settled (.error e)) →
      Apart { s with provisions := s.provisions.set p { x with phase := ph } } :=
    fun ph hph => h.setProvision hx (fun _ hq => hq) fun e he => absurd he (hph e)
  unfold State.uvEnds
  dsimp only
  split
  · exact hset _ (by simp)
  · next hp =>
    split
    · next ha => exact hfail _ fun _ => hcancel _ rfl (by simp [hp]) ha
    · exact hset _ (by simp)
  · exact hset _ (by simp)
  · next hp =>
    split
    · next ha => exact hfail _ fun _ => hcancel _ rfl (by simp [hp]) ha
    · exact hfail _ fun hc => absurd hc (not_isCancellation (by decide) (by decide))
  · exact h

theorem Apart.listenersDone (h : Apart s) {sid : Nat} {g : Signal}
    (hx : s.startups[sid]? = some ⟨g, .listeners⟩) {result spawned : Except JsStr Unit}
    (ho : s.Separate (.listened sid result spawned)) :
    Apart (s.listenersDone sid g result spawned) := by
  have hexc : s.cancels sid (.listened sid result spawned) = true →
      ∀ z ∈ s.calls, z.phase = .starting sid → s.excused z = true := fun hc z hz hp =>
    (ho.excused hc hz hp).resolve_right (by simp [Event.aborts])
  simp only [cancels, hx, Option.any_some] at hexc
  unfold State.listenersDone
  split
  · refine h.setStartup hx fun e he hc => .inr (hexc ?_)
    cases he
    simpa using hc
  split
  · next ha =>
    refine h.setStartup hx fun e he hc => .inr (hexc ?_)
    simp [ha]
  next ha =>
  dsimp only
  have hq : Apart { s with stderr := [], stopping := false, ready := false } :=
    h.calm (calm_of_eq rfl rfl)
  split
  · refine hq.setStartup hx fun e he hc => .inr (hexc ?_)
    cases he
    simpa using .inr hc
  · have hw : Apart (s.setStartup sid ⟨g, .waiting s.bridges.length⟩) :=
      h.setStartup hx fun e he => by cases he
    exact hw.calm (calm_of_eq rfl rfl)

/-! ## Steps -/

/-- A call in a phase that is neither over nor waits for a startup. -/
theorem State.spares_of {x : Call} (ho : ∀ e, x.phase = .over (some e) → ¬ IsCancellation e)
    (hs : ∀ sid, x.phase ≠ .starting sid) : s.Spares x :=
  ⟨fun e he hc => absurd hc (ho e he), fun sid he => absurd he (hs sid)⟩

theorem Apart.executeStarted (h : Apart s) (k : Nat) (x : Call) (id code cwd : JsStr)
    (thrown : Option JsStr) : Apart (s.executeStarted k x id code cwd thrown) := by
  unfold State.executeStarted
  have hq : Apart { s with pendingResetNotice := false } := h.calm (calm_of_eq rfl rfl)
  have hr := hq.calm (calm_request _ (.execute id code cwd) x.signal
    (js "IPython execution cancelled") none thrown)
  dsimp only
  split
  · next he =>
    rw [he] at hr
    exact hr.setCall k (spares_of (by simp) (by simp))
  · next e he =>
    rw [he] at hr
    refine hr.setCall k (spares_of (fun d hd => ?_) (by simp))
    cases hd
    exact request_error (congrArg Prod.snd he) (by decide)

theorem Apart.resumeCall (h : Apart s) {k : Nat} {x : Call} (hx : s.calls[k]? = some x)
    (thrown : Option JsStr) (ho : s.Separate (.resume k thrown)) :
    Apart (s.resumeCall k x thrown) := by
  unfold State.resumeCall
  split
  · next hp =>
    have hg : s.lingers = true → s.disposed = true ∨ x.signal.caller.any (· ∈ s.aborted) = true :=
      ho.2 x.signal.caller (by simp [comes, hx, hp])
    obtain ⟨ha, hs⟩ := h.continueStart hg
    exact ha.setCall k (hs x.kind)
  · next sid hp =>
    split
    · next g e hs =>
      refine h.setCall k ⟨fun d hd hc => ?_, by simp⟩
      cases hd
      exact h.spared x (List.mem_of_getElem? hx) sid hp
        (cancelled_iff.mpr ⟨_, e, hs, rfl, hc⟩)
    · exact h.setCall k (spares_of (by simp) (by simp))
  · split
    · exact h.setCall k (spares_of (by simp) (by simp))
    · exact h.executeStarted k x _ _ _ thrown
    · refine h.setCall k (spares_of (fun d hd => ?_) (by simp))
      dsimp only at hd
      split at hd
      · cases hd; decide
      · cases hd
  · exact h

theorem apart_job {e : Event} (h : Apart s) (ho : s.Separate e) (he : s.stepJob e = some t) :
    Apart t := by
  cases e <;> simp only [stepJob, Option.some.injEq, reduceCtorEq] at he
  case start σ =>
    subst he
    refine h.beginStart (fun hn => ho.2 σ ?_) _
    simp [comes, hn]
  case execute id code cwd σ =>
    subst he
    unfold callExecute
    dsimp only
    split
    · exact h.addCall (spares_of (fun d hd => by cases hd; decide) (by simp))
    · refine h.beginStart (fun hn => ho.2 σ ?_) _
      simp [comes, hn]
  case evaluate =>
    subst he
    refine h.calm (Calm.trans ?_ (calm_request _ _ _ _ _ _))
    exact calm_of_eq rfl rfl
  case getConnectionFile σ =>
    subst he
    refine h.beginStart (fun hn => ho.2 σ ?_) _
    simp [comes, hn]
  case shutdown =>
    split at he
    · cases he
      exact h.dispose.calm (calm_of_eq rfl rfl)
    · cases he; exact h
  case abort σ =>
    subst he
    exact h.abort ho
  case listened =>
    split at he
    · next hx => cases he; exact h.listenersDone hx ho
    · cases he
  case stdinError =>
    split at he
    · cases he; exact h.calm (calm_stdinError _ _ _)
    · cases he
  case writeError =>
    split at he
    · cases he
    · cases he; exact h.calm (calm_stdinError _ _ _)
  case runtimeReady =>
    split at he
    · next g p hx =>
      obtain ⟨r, hr, rfl⟩ := Option.map_eq_some_iff.mp he
      cases r with
      | ok => exact h.setStartup hx fun e hf => by cases hf
      | error =>
        refine h.setStartup hx fun e hf _ => .inl ?_
        cases hf
        exact fate_provisioning.mpr hr
    · cases he
  case startupFailed =>
    split at he
    · next g e hx =>
      cases he
      have hk : s.kill.startups = s.startups := by
        rcases s.terminate_cases with ⟨t, -, ht⟩ | ⟨-, -, ht⟩ | ⟨d, l, -, -, ht⟩ <;> rw [kill, ht]
      rw [← hk] at hx
      exact (h.calm (calm_kill s)).setStartup hx fun d hd _ => .inl hd
    · cases he
  case startupStopped =>
    split at he
    · next hx =>
      split at he
      · cases he; exact h.setStartup hx fun d hd _ => .inl hd
      · cases he
    · cases he
  case startupReady =>
    split at he
    · next hx => cases he; exact h.setStartup hx fun d hd => by cases hd
    · cases he
  case startupDone =>
    split at he
    · next g r hx =>
      cases he
      have hd := h.setStartup hx (y := ⟨g, .done r⟩) fun d hd _ => .inl (by cases r <;> exact hd)
      exact hd.calm (calm_of_eq rfl rfl)
    · cases he
  case reap =>
    split at he
    · next x hx =>
      split at he
      · cases he
        refine h.calm ?_
        unfold reapGroup
        split
        · exact (calm_signalProcessGroup s x.kernelPgid .sigterm).trans (calm_setTermination _ _ _)
        · exact calm_setTermination _ _ _
      · cases he
    · cases he
  case terminated =>
    split at he
    · split at he
      · cases he; exact h.calm (calm_of_eq rfl rfl)
      · cases he
    · cases he
  case reject =>
    split at he
    · split at he
      · cases he; exact h.calm (calm_of_eq rfl rfl)
      · cases he
    · cases he
  case resume =>
    split at he
    · next hx =>
      split at he
      · cases he; exact h.resumeCall hx _ ho
      · cases he
    · cases he
  case shutdownStarted =>
    split at he
    · split at he
      · cases he; exact h.calm (calm_of_eq rfl rfl)
      · cases he
    · cases he
  case shutdownStopped thrown =>
    split at he
    · split at he
      · cases he
        unfold shutdownBridge
        split
        · exact h.calm (calm_of_eq rfl rfl)
        dsimp only
        split
        · refine h.calm (Calm.trans ?_ (calm_kill _))
          exact calm_of_eq rfl rfl
        · exact h.calm (calm_of_eq rfl rfl)
      · cases he
    · cases he
  case shutdownTerminated =>
    split at he
    · split at he
      · cases he; exact h.calm (calm_of_eq rfl rfl)
      · cases he
    · cases he
  case shutdownReap =>
    split at he
    · next g _ =>
      cases he
      unfold shutdownReaps
      split
      · refine h.calm ((calm_signalProcessGroup s g .sigterm).trans ?_)
        exact calm_of_eq rfl rfl
      · exact h.calm (calm_of_eq rfl rfl)
    · cases he
  case shutdownWriteError =>
    split at he
    · cases he
    · cases he
    · cases he
    · cases he; exact h.calm (calm_kill s)

/-- The exit of a bridge, whatever its events say of it. -/
theorem calm_bridgeEnds (s : State) (c : BridgeId) (f : Bridge → Bridge) {a b : JsStr}
    (hs : ¬ js "IPython " ++ a <+: js "IPython startup cancelled")
    (hp : ¬ js "IPython " ++ a <+: js "Python environment provisioning cancelled") :
    Calm s (s.bridgeEnds c (a ++ b) f) := by
  refine Calm.trans ?_ (calm_handleExit _ c hs hp)
  exact calm_of_eq rfl rfl

theorem calm_bridgeCloses (s : State) (c : BridgeId) (code : Option Nat) (signal : Option JsStr)
    (alive : Int → Bool) : Calm s (s.bridgeCloses c code signal alive) := by
  have hr : ∃ b, exitReason code signal = js "bridge exited" ++ b :=
    ⟨_, List.append_assoc _ _ _⟩
  obtain ⟨b, hb⟩ := hr
  unfold bridgeCloses
  dsimp only
  rw [hb]
  have h := calm_bridgeEnds s c (fun b => { b with closed := true }) (a := js "bridge exited")
    (b := b) (by decide) (by decide)
  exact h.trans (calm_of_eq rfl rfl)

theorem calm_graceExpired (s : State) (r : Nat) : Calm s (s.graceExpired r) := by
  unfold graceExpired
  split
  · exact .refl s
  split
  · exact .refl s
  split
  · exact .refl s
  · refine Calm.trans (t := State.kill { s with active := none, pendingResetNotice := true }) ?_ ?_
    · refine Calm.trans ?_ (calm_kill _)
      exact calm_of_eq rfl rfl
    · exact calm_of_eq rfl rfl

theorem apart_task {e : Event} (h : Apart s) (ho : s.Separate e) (he : s.stepTask e = some t) :
    Apart t := by
  cases e <;> simp only [stepTask, reduceCtorEq] at he
  case uv =>
    obtain ⟨x, hx, rfl⟩ := Option.map_eq_some_iff.mp he
    exact h.uvEnds hx ho
  case stderr c text =>
    split at he
    · cases he
      obtain ⟨e, he⟩ := s.addStderr_eq text
      rw [he]
      exact h.calm (calm_of_eq rfl rfl)
    · cases he
  case exit =>
    split at he
    · cases he; exact h.calm (calm_of_eq rfl rfl)
    · cases he
  case error =>
    split at he
    · cases he
      exact h.calm (calm_bridgeEnds s _ (fun b => { b with failed := true }) (by decide) (by decide))
    · cases he
  case close =>
    split at he
    · split at he
      · cases he
      · cases he; exact h.calm (calm_bridgeCloses _ _ _ _ _)
    · cases he
  case startupTimeout =>
    split at he
    · cases he
      refine h.calm (calm_finishStartup s _ fun _ _ e he => ?_)
      cases he
      rw [List.append_assoc]
      exact not_isCancellation (by decide) (by decide)
    · cases he
  case timeout =>
    split at he
    · cases he
    split at he
    · cases he
    split at he
    · cases he
      refine h.calm (Calm.trans ?_ (calm_interrupt _ _ _))
      exact calm_of_eq rfl rfl
    · cases he
  case grace =>
    split at he
    · cases he
    split at he
    · cases he; exact h.calm (calm_graceExpired _ _)
    · cases he
  case force =>
    split at he
    · next x hx =>
      split at he
      · cases he
        refine h.calm ((calm_signalProcessGroup s x.kernelPgid .sigkill).trans ?_)
        unfold forceExpired
        dsimp only
        split <;> exact calm_of_eq rfl rfl
      · cases he
    · cases he
  case giveUp =>
    split at he
    · split at he
      · cases he; exact h.calm (calm_of_eq rfl rfl)
      · cases he
    · cases he
  case reapTimer =>
    split at he
    · next x hx =>
      split at he
      · cases he
        refine h.calm ?_
        unfold reapExpired
        split
        · exact (calm_signalProcessGroup s x.kernelPgid .sigkill).trans (calm_setTermination _ _ _)
        · exact calm_setTermination _ _ _
      · cases he
    · cases he
  case killTimer =>
    split at he
    · cases he
      refine h.calm (Calm.trans ?_ (calm_signalProcessGroup _ _ _))
      exact calm_of_eq rfl rfl
    · cases he
  case shutdownTimeout =>
    split at he
    · cases he
      refine h.calm ((calm_kill s).trans ?_)
      exact calm_of_eq rfl rfl
    · cases he
  case shutdownReapTimer =>
    split at he
    · next g _ =>
      cases he
      unfold shutdownReapExpired
      split
      · refine h.calm ((calm_signalProcessGroup s g .sigkill).trans ?_)
        exact calm_of_eq rfl rfl
      · exact h.calm (calm_of_eq rfl rfl)
    · cases he; exact h.calm (calm_of_eq rfl rfl)
    · cases he

theorem Apart.chunk (h : Apart s) (k : Option BridgeId) : Apart { s with chunk := k } :=
  h.calm (calm_of_eq rfl rfl)

theorem apart_step {e : Event} (h : Apart s) (ho : s.Separate e) (he : step s e = some t) :
    Apart t := by
  unfold step at he
  split at he
  · split at he
    · cases he
      exact (h.calm (calm_handleLine s _ _ _)).chunk _
    · cases he
  · split at he
    · next u hj =>
      cases he
      exact (apart_job (t := u) h ho hj).chunk none
    · split at he
      · obtain ⟨u, hu, rfl⟩ := Option.map_eq_some_iff.mp he
        exact (apart_task (t := u) h ho hu).chunk none
      · cases he

/-- **A cancellation stays with its caller** in every run whose steps are separate. -/
theorem ownCancellations_of_separate {es : List Event}
    (h : AllSteps step State.Separate State.init es) :
    Throughout step State.OwnCancellations State.init es :=
  (invariant_throughout (fun _ _ _ => apart_step) apart_init h).mono fun _ hs => hs.own

/-- Two callers of one startup who both cancel while uv checks the environment. -/
def cancelledStarts : List Event := [
  .start (some 0), .execute (js "1") (js "x") (js "/") (some 1), .abort 0, .abort 1,
  .uv 0 (.error (js "aborted")), .runtimeReady 0, .startupDone 0, .resume 0 none, .resume 1 none]

theorem ownCancellations_cancelledStarts :
    (runAll step State.init cancelledStarts).isSome = true ∧
      Throughout step State.OwnCancellations State.init cancelledStarts :=
  ⟨by decide +kernel, ownCancellations_of_separate (by decide +kernel)⟩

/-- Only the first of them cancels. -/
def crossedStarts : List Event := [
  .start (some 0), .execute (js "1") (js "x") (js "/") (some 1), .abort 0,
  .uv 0 (.error (js "aborted")), .runtimeReady 0, .startupDone 0, .resume 0 none, .resume 1 none]

/-- **One caller's abort rejects another**: the second caller is told that the provisioning was
cancelled. -/
theorem crossed_cancellation : ¬ ∀ es, (runAll step State.init es).isSome →
    Throughout step State.OwnCancellations State.init es := by
  intro h
  have hrun : (runAll step State.init crossedStarts).any (fun t => t.calls.any fun x =>
      decide (x.phase = .over (some (js "Python environment provisioning cancelled"))) &&
        ! t.excused x) = true := by decide +kernel
  cases ht : runAll step State.init crossedStarts with
  | none => simp [ht] at hrun
  | some t =>
    simp only [ht, Option.any_some, List.any_eq_true, Bool.and_eq_true, decide_eq_true_eq] at hrun
    obtain ⟨x, hx, hp, hn⟩ := hrun
    have ho := (h _ (by rw [ht]; rfl)).last ht x hx _ hp (.inr rfl)
    simp [ho] at hn

-- A caller that came while the cancelled startup's bridge was being stopped finds that startup.
example : (runAll step State.init [
    .start (some 0), .uv 0 (.ok ()), .runtimeReady 0, .listened 0 (.ok ()) (.ok ()), .abort 0,
    .startupFailed 0, .start (some 1), .close 0 none none (fun _ => false),
    .reap 0 (fun _ => false), .terminated 0, .resume 1 none, .startupStopped 0, .startupDone 0,
    .resume 0 none, .resume 1 none]).any (fun t => t.calls.any fun x =>
      decide (x.phase = .over (some (js "IPython startup cancelled"))) && ! t.excused x) = true := by
  decide +kernel

end PiIpython.Runtime
