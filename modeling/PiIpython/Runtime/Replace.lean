import PiIpython.Runtime.Groups

/-!
# Events of an earlier bridge

`deliver` says of which bridge an event is: the write callbacks do not carry it
in `Event`, since the source answers them with the runtime's bridge of the
moment. `untouched_iff_harmless` says when the events of a bridge that another
one replaced leave the new one alone.
-/

namespace PiIpython.Runtime

open Text

/-- An event of a bridge, or another one. -/
inductive Delivery where
  | bridge (source : BridgeId) (e : Event)
  | other (e : Event)

/-- The events of a bridge: its streams, its process, and the callbacks of the writes to it. -/
def Event.ofBridge : Event → Bool
  | .line .. => true
  | .stderr .. => true
  | .stdinError .. => true
  | .writeError _ => true
  | .exit _ => true
  | .error .. => true
  | .close .. => true
  | .shutdownWriteError => true
  | _ => false

namespace State

/-- The event is one of the bridge `d`. -/
def comesFrom (s : State) (d : BridgeId) : Event → Bool
  | .line c _ _ => c = d
  | .stderr c _ => c = d
  | .stdinError c _ => c = d
  | .writeError _ => s.log.any fun x => match x with
    | .write c _ => c = d
    | _ => false
  | .exit c => c = d
  | .error c _ => c = d
  | .close c _ _ _ => c = d
  | .shutdownWriteError => decide (Effect.shutdownLine d ∈ s.log)
  | _ => false

end State

def deliver (s : State) : Delivery → Option State
  | .bridge d e => if s.comesFrom d e then step s e else none
  | .other e => if e.ofBridge then none else step s e

/-- What the runtime has of its bridge, and what it has done so far. -/
structure View where
  child : Option BridgeId
  process : Option Bridge
  ready : Bool
  kernelPgid : Option Int
  kernelConnectionFile : Option JsStr
  generation : Nat
  readyWaiter : Option Nat
  startups : List Startup
  active : Option Active
  requests : List (Option Settled)
  log : List Effect

namespace State

variable (s : State)

def view (c : BridgeId) : View :=
  ⟨s.child, s.bridges[c]?, s.ready, s.kernelPgid, s.kernelConnectionFile, s.generation,
    s.readyWaiter, s.startups, s.active, s.requests, s.log⟩

/-- An event of another bridge leaves the runtime's own alone. -/
def Untouched : Delivery → Prop
  | .bridge d e => ∀ c, s.child = some c → c ≠ d → ∀ t, step s e = some t → t.view c = s.view c
  | .other _ => True

/-- The deliveries that leave the runtime's bridge alone: a write to another bridge fails only while
a termination is in progress and no request is active. -/
def Harmless : Delivery → Prop
  | .bridge d (.writeError _) =>
    s.child.all (· = d) = true ∨ (s.active.isNone = true ∧ s.stoppingPromise.isSome = true)
  | .bridge d .shutdownWriteError => s.child.all (· = d) = true ∨ s.stoppingPromise.isSome = true
  | _ => True

end State

instance (s : State) (x : Delivery) : Decidable (s.Harmless x) := by
  unfold State.Harmless
  split <;> infer_instance

open State

/-! ## One delivery -/

variable {s t : State}

theorem view_modify {c d : BridgeId} {f : Bridge → Bridge} (hd : c ≠ d)
    (hb : t.bridges = s.bridges.modify d f)
    (ht : State.view { t with bridges := s.bridges } c = s.view c) : t.view c = s.view c := by
  rw [← ht]
  unfold State.view
  rw [hb, List.getElem?_modify_ne _ _ (Ne.symm hd)]

/-- The exit of another bridge is ignored. -/
theorem bridgeEnds_other {c d : BridgeId} (hc : s.child = some c) (hd : c ≠ d) (r : JsStr)
    (f : Bridge → Bridge) : s.bridgeEnds d r f = { s with bridges := s.bridges.modify d f } := by
  unfold State.bridgeEnds State.handleExit
  exact if_pos fun h => hd (Option.some.inj (hc.symm.trans h))

/-- **An event that the source checks against its bridge** leaves another one alone. -/
theorem untouched_of_checked {c d : BridgeId} {e : Event} (hs : s.comesFrom d e = true)
    (hw : ∀ r, e ≠ .writeError r) (hws : e ≠ .shutdownWriteError) (hc : s.child = some c)
    (hd : c ≠ d) (he : step s e = some t) : t.view c = s.view c := by
  have hne : s.child ≠ some d := fun h => hd (Option.some.inj (hc.symm.trans h))
  cases e with
  | line a text disk =>
    obtain rfl : a = d := by simpa [State.comesFrom] using hs
    simp only [step] at he
    split at he
    · cases he
      unfold State.handleLine
      rw [if_pos hne]
      rfl
    · cases he
  | stdinError a reason =>
    obtain rfl : a = d := by simpa [State.comesFrom] using hs
    simp only [step, stepJob] at he
    split at he
    · next hj =>
      split at hj
      · cases hj
        cases he
        unfold State.handleStdinError
        dsimp only
        rw [if_pos hne]
        rfl
      · cases hj
    · split at he
      · simp [stepTask] at he
      · cases he
  | writeError r => exact absurd rfl (hw r)
  | shutdownWriteError => exact absurd rfl hws
  | stderr a text =>
    simp only [step, stepJob] at he
    split at he
    · obtain ⟨u, hu, rfl⟩ := Option.map_eq_some_iff.mp he
      simp only [stepTask] at hu
      split at hu
      · cases hu
        rw [(s.addStderr_eq _).choose_spec]
        rfl
      · cases hu
    · cases he
  | exit a =>
    obtain rfl : a = d := by simpa [State.comesFrom] using hs
    simp only [step, stepJob] at he
    split at he
    · obtain ⟨u, hu, rfl⟩ := Option.map_eq_some_iff.mp he
      simp only [stepTask] at hu
      split at hu
      · cases hu
        exact view_modify hd rfl rfl
      · cases hu
    · cases he
  | error a m =>
    obtain rfl : a = d := by simpa [State.comesFrom] using hs
    simp only [step, stepJob] at he
    split at he
    · obtain ⟨u, hu, rfl⟩ := Option.map_eq_some_iff.mp he
      simp only [stepTask] at hu
      split at hu
      · have hends := bridgeEnds_other hc hd (js "bridge spawn failed: " ++ m) fun b =>
          { b with failed := true }
        unfold State.bridgeEnds at hends
        rw [hends] at hu
        cases hu
        exact view_modify hd rfl rfl
      · cases hu
    · cases he
  | close a code signal alive =>
    obtain rfl : a = d := by simpa [State.comesFrom] using hs
    simp only [step, stepJob] at he
    split at he
    · obtain ⟨u, hu, rfl⟩ := Option.map_eq_some_iff.mp he
      simp only [stepTask] at hu
      split at hu
      · split at hu
        · cases hu
        · rw [bridgeCloses_eq, bridgeEnds_other hc hd] at hu
          cases hu
          exact view_modify hd rfl rfl
      · cases hu
    · cases he
  | _ => cases hs

/-- Stopping the bridge signals it, unless a termination is in progress. -/
theorem kill_log_iff {c : BridgeId} (hc : s.child = some c) :
    s.kill.log = s.log ↔ s.stoppingPromise.isSome = true := by
  unfold State.kill State.terminate
  cases hp : s.stoppingPromise with
  | some x => exact iff_of_true rfl rfl
  | none =>
    refine iff_of_false ?_ (by simp)
    rw [hc]
    cases s.kernelPgid <;> simp [State.emit, State.signalProcessGroup]

theorem kill_eq (hp : s.stoppingPromise.isSome = true) : s.kill = s := by
  unfold State.kill State.terminate
  obtain ⟨x, hx⟩ := Option.isSome_iff_exists.mp hp
  rw [hx]

/-- A failing write fails the request in progress and stops the runtime's bridge, whichever bridge
was written to. -/
theorem stdinError_view {c : BridgeId} (hc : s.child = some c) (reason : JsStr)
    (k : Option BridgeId) :
    State.view { s.handleStdinError s.child reason with chunk := k } c = s.view c ↔
      s.active.isNone = true ∧ s.stoppingPromise.isSome = true := by
  obtain ⟨e, m, he⟩ : ∃ e m, s.handleStdinError s.child reason =
      (({ s with stderr := e }.noteReset).failActive m).kill := by
    obtain ⟨e, he⟩ := s.addStderr_eq (js "\nBridge stdin failed: " ++ reason)
    refine ⟨e, js "Failed to communicate with IPython. The kernel state was lost: " ++ reason, ?_⟩
    simp only [State.handleStdinError, hc, ne_eq, not_true_eq_false, if_false, he]
  rw [he]
  let u := ({ s with stderr := e }.noteReset).failActive m
  have hskel : u.skeleton = s.skeleton := failActive_skeleton _ m
  have hchild : u.child = some c := (congrArg Skeleton.child hskel).trans hc
  have hpromise : u.stoppingPromise = s.stoppingPromise := congrArg Skeleton.stoppingPromise hskel
  constructor
  · intro h
    have hactive : u.kill.active = s.active := congrArg View.active h
    have hlog : u.kill.log = s.log := congrArg View.log h
    have hnone : u.kill.active = none := (kill_active u).trans (failActive_active _ m)
    refine ⟨by rw [← hactive, hnone]; rfl, ?_⟩
    rw [← hpromise, ← kill_log_iff hchild]
    refine hlog.trans (Eq.symm ?_)
    exact failActive_log { s with stderr := e }.noteReset m
  · rintro ⟨ha, hp⟩
    have hu : u = { s with stderr := e }.noteReset := by
      have ha : s.active = none := by simpa using ha
      show State.failActive _ m = _
      unfold State.failActive
      rw [show ({ s with stderr := e } : State).noteReset.active = none from ha]
    have hk : u.kill = u := kill_eq (hpromise ▸ hp)
    show State.view { u.kill with chunk := k } c = _
    rw [hk, hu]
    rfl

theorem step_writeError {r : JsStr} (h : step s (.writeError r) = some t) :
    t = { s.handleStdinError s.child r with chunk := none } := by
  simp only [step, stepJob] at h
  split at h
  · next hj =>
    split at hj
    · cases hj
    · cases hj
      exact (Option.some.inj h).symm
  · split at h
    · simp [stepTask] at h
    · cases h

theorem step_shutdownWriteError (h : step s .shutdownWriteError = some t) :
    t = { s.kill with chunk := none } := by
  simp only [step, stepJob] at h
  split at h
  · next hj =>
    split at hj
    · cases hj
    · cases hj
    · cases hj
    · cases hj
      exact (Option.some.inj h).symm
  · split at h
    · simp [stepTask] at h
    · cases h

/-- **What leaves the runtime's bridge alone**. -/
theorem untouched_iff {x : Delivery} (h : deliver s x = some t) : s.Untouched x ↔ s.Harmless x := by
  cases x with
  | other e => exact iff_of_true trivial trivial
  | bridge d e =>
    simp only [deliver] at h
    split at h
    next hs =>
      have huntouched : s.Untouched (.bridge d e) ↔
          ∀ c, s.child = some c → c ≠ d → t.view c = s.view c := by
        refine ⟨fun hu c hc hd => hu c hc hd t h, fun hu c hc hd v hv => ?_⟩
        obtain rfl : t = v := Option.some.inj (h.symm.trans hv)
        exact hu c hc hd
      -- `Harmless` speaks of the bridge `c` that the runtime has
      have hcases : ∀ {P : Prop}, (∀ c, s.child = some c → (t.view c = s.view c ↔ P)) →
          ((∀ c, s.child = some c → c ≠ d → t.view c = s.view c) ↔
            (s.child.all (· = d) = true ∨ P)) := by
        intro P hP
        cases hc : s.child with
        | none => simp
        | some c =>
          simp only [Option.some.injEq, forall_eq', Option.all_some, decide_eq_true_eq, hP c hc]
          exact or_iff_not_imp_left.symm
      rw [huntouched]
      by_cases hw : ∃ r, e = .writeError r
      · obtain ⟨r, rfl⟩ := hw
        refine hcases fun c hc => ?_
        rw [step_writeError h]
        exact stdinError_view hc r none
      by_cases hws : e = .shutdownWriteError
      · subst hws
        refine hcases fun c hc => ?_
        rw [step_shutdownWriteError h]
        constructor
        · exact fun hv => (kill_log_iff hc).mp (congrArg View.log hv)
        · intro hp
          rw [kill_eq hp]
          rfl
      · refine iff_of_true (fun c hc hd => untouched_of_checked hs (fun r hr => hw ⟨r, hr⟩) hws hc hd h) ?_
        cases e with
        | writeError r => exact absurd ⟨r, rfl⟩ hw
        | shutdownWriteError => exact absurd rfl hws
        | _ => trivial
    · cases h

/-! ## Runs -/

/-- **Events of an earlier bridge leave a later one alone** in a run exactly when its deliveries are
harmless. -/
theorem untouched_iff_harmless {xs : List Delivery}
    (hrun : (runAll deliver State.init xs).isSome) :
    AllSteps deliver State.Untouched State.init xs ↔
      AllSteps deliver State.Harmless State.init xs :=
  allSteps_iff (fun _ _ _ => untouched_iff) hrun

/-- A bridge that does not stop in time is given up, and another one is spawned. -/
def replacedRun (disk : Disk) : List Delivery :=
  (startRun disk).map (fun e => if e.ofBridge then .bridge 0 e else .other e) ++ [
    .other (.execute (js "1") (js "x") (js "/") (some 0)), .other (.resume 1 none),
    .other (.abort 0), .other (.grace 0), .other (.force 0), .other (.giveUp 0),
    .other (.reap 0 (fun _ => false)), .other (.terminated 0), .other (.reject 0),
    .other (.start none), .other (.runtimeReady 1), .other (.listened 1 (.ok ()) (.ok ()))] ++
  [Event.line 1 (js "\x7b\"type\":\"kernel_started\",\"kernel_pgid\":8\x7d") disk,
    .line 1 (js
      "\x7b\"type\":\"ready\",\"protocol\":3,\"kernel_pgid\":8,\"connection_file\":\"/k\"\x7d") disk
    ].map (.bridge 1) ++
  [.other (.startupReady 1), .other (.startupDone 1), .other (.resume 2 none),
    .other (.resume 2 none)]

set_option maxRecDepth 8000 in
theorem untouched_replacedRun :
    AllSteps deliver State.Untouched State.init
      (replacedRun ⟨.error [], none⟩ ++ [.bridge 0 (.close 0 none none (fun _ => false))]) :=
  (untouched_iff_harmless (by decide +kernel)).mpr (by decide +kernel)

set_option maxRecDepth 8000 in
/-- **A failed write to the old bridge stops the new one**. -/
theorem not_untouched_replacedRun :
    ¬ ∀ xs, (runAll deliver State.init xs).isSome → AllSteps deliver State.Untouched State.init xs := by
  intro h
  let last : Delivery := .bridge 0 (.writeError (js "write EPIPE"))
  have hrun : (runAll deliver State.init (replacedRun ⟨.error [], none⟩)).any (fun s =>
      s.child = some 1 && (deliver s last).isSome && (step s (.writeError (js "write EPIPE"))).any
        fun t => t.ready != s.ready) = true := by decide +kernel
  cases hs : runAll deliver State.init (replacedRun ⟨.error [], none⟩) with
  | none => simp [hs] at hrun
  | some s =>
    simp only [hs, Option.any_some, Bool.and_eq_true, decide_eq_true_eq] at hrun
    obtain ⟨⟨hc, hsome⟩, hready⟩ := hrun
    have hall := h (replacedRun ⟨.error [], none⟩ ++ [last]) (by
      rw [runAll_append, hs]
      simpa [runAll] using hsome)
    have hlast : s.Untouched last := hall.last hs
    cases ht : step s (.writeError (js "write EPIPE")) with
    | none => simp [ht] at hready
    | some t =>
      have hv := congrArg View.ready (hlast 1 hc (by decide) t ht)
      simp [ht] at hready
      exact hready hv

end PiIpython.Runtime
