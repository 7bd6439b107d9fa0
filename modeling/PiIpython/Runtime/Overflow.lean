import PiIpython.Runtime.Log
import PiIpython.Runtime.Hanging
import PiIpython.Bridge.Execute
import PiIpython.Bridge.Wire

/-!
# Output over the limit

`meter` watches one request after another: the capture files written for it,
whether its output was over the limit, and its largest output message. The
first message over the limit sets the flag of its own interrupt, and output is
ignored from then on; behind an abort or a timeout that flag is never set, and
every further message is captured again.
-/

namespace PiIpython.Runtime

open Text Output

def Effect.isCapture : Effect → Bool
  | .capture .. => true
  | _ => false

namespace State

/-- The output message about the request in progress that the event is. -/
def outputOf (s : State) : Event → Option (Active × JsStr × JsStr × Bool × Bool)
  | .line c text _ => s.outputLine c text
  | _ => none

/-- The size of that message's text. -/
def outputBytes (s : State) (e : Event) : Nat :=
  (s.outputOf e).elim 0 fun m => byteLength m.2.2.1

/-- That message is not ignored, and the output is over the limit with it. -/
def passes (s : State) (e : Event) : Bool :=
  (s.outputOf e).any fun (a, kind, text, continuation, final) =>
    ! a.interrupt.any (·.overflow) &&
      decide (byteLength (appendOutput a.output kind text continuation final) >
        outputCaptureLimitBytes)

end State

/-- What is seen of the request in progress. -/
structure Meter where
  captures : Nat
  /-- Its output was over the limit. -/
  passed : Bool
  /-- The size of its largest output message. -/
  largest : Nat
  deriving DecidableEq

def Meter.zero : Meter := ⟨0, false, 0⟩

/-- The meter starts again with each request. -/
def Meter.note (m : Meter) (s : State) (e : Event) (t : State) : Meter :=
  if s.active.isNone then .zero
  else
    ⟨m.captures + (t.log.drop s.log.length).countP (·.isCapture), m.passed || s.passes e,
      max m.largest (s.outputBytes e)⟩

/-- The runtime beside its meter. -/
def meter (w : State × Meter) (e : Event) : Option (State × Meter) :=
  (step w.1 e).map fun t => (t, w.2.note w.1 e t)

/-- One capture file at most, and an output within the limit, one message and its two newlines. -/
def Bounded (w : State × Meter) : Prop :=
  w.2.captures ≤ 1 ∧ ∀ a, w.1.active = some a →
    byteLength a.output ≤ outputCaptureLimitBytes + w.2.largest + 2

/-- At most one message is handled with the output over the limit. -/
def Single (w : State × Meter) (e : Event) : Prop := w.2.passed = true → w.1.passes e = false

instance (w : State × Meter) (e : Event) : Decidable (Single w e) := inferInstanceAs (Decidable (_ → _))

namespace State

variable {s t u : State}

/-! ## Steps without output -/

/-- The output of the request in progress stays or is cleared; that of a new one is empty. -/
def Tame (s t : State) : Prop :=
  ∀ b, t.active = some b → b.output = [] ∨ ∃ a, s.active = some a ∧ b.output = a.output

theorem tame_of_eq (h : t.active = s.active) : Tame s t := fun b hb => .inr ⟨b, h ▸ hb, rfl⟩

theorem tame_of_none (h : t.active = none) : Tame s t := fun b hb => by cases h.symm.trans hb

theorem Tame.trans (h : Tame s t) (k : Tame t u) : Tame s u := by
  intro b hb
  rcases k b hb with hk | ⟨a, ha, hk⟩
  · exact .inl hk
  · rw [hk]
    exact h a ha

theorem rejectReady_active (s : State) (e : JsStr) : (s.rejectReady e).active = s.active := by
  obtain ⟨w, l, -, h⟩ := s.rejectReady_eq e
  rw [h]

theorem tame_failActive (s : State) (m : JsStr) : Tame s (s.failActive m) :=
  tame_of_none (failActive_active s m)

theorem interrupt_output {reason : JsStr} {overflow : Bool} {b : Active}
    (hb : (s.interrupt reason overflow).active = some b) :
    ∃ a, s.active = some a ∧ b.output = a.output := by
  unfold interrupt at hb
  split at hb
  · exact ⟨b, hb, rfl⟩
  next a ha =>
  split at hb
  · exact ⟨b, hb, rfl⟩
  · obtain ⟨l, hl⟩ := signalProcessGroup_eq
      { s with active := some { a with interrupt := some ⟨reason, overflow⟩ } } s.kernelPgid .sigint
    rw [hl] at hb
    cases hb
    exact ⟨a, ha, rfl⟩

theorem tame_interrupt (s : State) (reason : JsStr) (overflow : Bool) :
    Tame s (s.interrupt reason overflow) := fun _ hb => .inr (interrupt_output hb)

theorem tame_abortListeners (s : State) (fires : Signal → Bool) :
    Tame s (s.abortListeners fires) := by
  obtain ⟨w, l, -, ⟨-, h⟩ | ⟨a, -, -, h⟩⟩ := s.abortListeners_cases fires
  · rw [h]; exact tame_of_eq rfl
  · rw [h]
    refine Tame.trans ?_ (tame_interrupt _ _ _)
    exact tame_of_eq rfl

theorem tame_request (s : State) (m : BridgeRequest) (g : Signal) (r : JsStr)
    (o thrown : Option JsStr) : Tame s (s.request m g r o thrown).1 := by
  rcases s.request_cases m g r o thrown with ⟨-, e, h⟩ | ⟨c, -, -, ha, -, ⟨-, l, h⟩ | ⟨-, e, x, h⟩⟩
  · rw [h]; exact tame_of_eq rfl
  · rw [h]
    intro b hb
    cases hb
    exact .inl rfl
  · rw [h]
    exact tame_of_none ((kill_active _).trans ha)

theorem tame_bridgeEnds (s : State) (c : BridgeId) (r : JsStr) (f : Bridge → Bridge) :
    Tame s (s.bridgeEnds c r f) := by
  rcases handleExit_cases { s with bridges := s.bridges.modify c f } c r with
    ⟨-, h⟩ | ⟨-, e, ⟨-, h⟩ | ⟨-, l, k, m, h⟩⟩
  · rw [bridgeEnds, h]; exact tame_of_eq rfl
  · rw [bridgeEnds, h]; exact tame_of_eq (rejectReady_active _ e)
  · rw [bridgeEnds, h]; exact tame_of_none (failActive_active _ m)

/-- A line that is no output message. -/
theorem tame_handleLine {c : BridgeId} {text : JsStr} (h : s.outputLine c text = none)
    (disk : Disk) : Tame s (s.handleLine c text disk) := by
  unfold outputLine at h
  unfold handleLine
  split
  · exact tame_of_eq rfl
  next hc =>
  rw [if_neg hc] at h
  generalize (jsonParse text).bind isBridgeMessage = m at h ⊢
  have hkill : ∀ e, Tame s (s.refuseStartup e) := fun e =>
    tame_of_eq ((kill_active _).trans (rejectReady_active s e))
  cases m with
  | none =>
    dsimp only
    split
    · exact tame_of_none ((kill_active _).trans (failActive_active _ _))
    · obtain ⟨e, he⟩ := s.addStderr_eq (js "\nNon-protocol bridge output: " ++ text)
      rw [he]
      exact tame_of_eq rfl
  | some m =>
    cases m with
    | kernelStarted g =>
      simp only [handleMessage, handleKernelStarted]
      split
      · exact hkill _
      · exact tame_of_eq rfl
    | ready p g f =>
      simp only [handleMessage, handleReady]
      split
      · exact hkill _
      · next g _ =>
        obtain ⟨w, l, -, he⟩ := resolveReady_eq { s with
          kernelPgid := some g, kernelConnectionFile := some f, ready := true
          generation := s.generation + 1 }
        rw [he]
        exact tame_of_eq rfl
    | fatal e m => exact tame_of_none ((kill_active _).trans (failActive_active _ _))
    | output id kind x continuation final =>
      simp only [handleMessage]
      split
      · exact tame_of_eq rfl
      next a ha =>
      split
      · exact tame_of_eq rfl
      · next hr => simp_all [BridgeMessage.requestId?]
    | clear id =>
      simp only [handleMessage]
      split
      · exact tame_of_eq rfl
      split
      · exact tame_of_eq rfl
      · intro b hb
        cases hb
        exact .inl rfl
    | image id data =>
      simp only [handleMessage]
      split
      · exact tame_of_eq rfl
      next a ha =>
      split
      · exact tame_of_eq rfl
      · unfold handleImage
        dsimp only
        split <;> exact fun b hb => .inr ⟨a, ha, by cases hb; rfl⟩
    | bridgeError id e m =>
      simp only [handleMessage]
      split
      · exact tame_of_eq rfl
      split
      · exact tame_of_eq rfl
      · exact tame_of_none (kill_active _)
    | result id status count value error =>
      simp only [handleMessage]
      split
      · exact tame_of_eq rfl
      split
      · exact tame_of_eq rfl
      · exact tame_of_none rfl

theorem tame_change {e : Event} (hl : ∀ c text disk, e ≠ .line c text disk) (h : Change s e t) :
    Tame s t := by
  cases h with
  | aside h => exact tame_of_eq h.active
  | line hk h => exact absurd rfl (hl _ _ _)
  | evaluate expression ms signal thrown id reason limit =>
    exact Tame.trans (tame_of_eq rfl) (tame_request _ _ _ _ _ _)
  | execute thrown hx =>
    rcases executeStarted_cases s _ _ _ _ _ thrown with ⟨-, e, h⟩ |
      ⟨c, -, -, ha, -, ⟨-, l, h⟩ | ⟨-, e, m, h⟩⟩
    · rw [h]; exact tame_of_eq rfl
    · rw [h]
      intro b hb
      cases hb
      exact .inl rfl
    · rw [h]
      exact tame_of_none ((kill_active _).trans ha)
  | abort σ => exact Tame.trans (tame_of_eq rfl) (tame_abortListeners _ _)
  | dispose p =>
    have hd : Tame s s.dispose := Tame.trans (tame_of_eq rfl) (tame_abortListeners _ _)
    exact hd.trans (tame_of_eq rfl)
  | spawn hx => exact tame_of_eq rfl
  | unspawned hx => exact tame_of_eq rfl
  | stdin hd he => exact tame_of_none ((kill_active _).trans (failActive_active _ _))
  | startupFailed hx after => exact tame_of_eq (kill_active s)
  | startupTimeout sid m =>
    obtain ⟨w, l, -, h⟩ := s.finishStartup_eq sid fun _ => .failed m
    rw [h]
    exact tame_of_eq rfl
  | @timeout a reason ha ht =>
    refine Tame.trans (t := { s with active := some { a with timeout := none } }) ?_
      (tame_interrupt _ _ _)
    intro b hb
    cases hb
    exact .inr ⟨a, ha, rfl⟩
  | grace ha hi after m => exact tame_of_none (kill_active _)
  | reject hx => exact tame_of_eq rfl
  | closing he hc hs p l => exact tame_of_eq rfl
  | shutdownKill he hs b p q => exact tame_of_eq (kill_active _)
  | error c m reason => exact tame_bridgeEnds s c reason _
  | close hf c code signal alive reason l hp =>
    exact (tame_bridgeEnds s c reason _).trans (tame_of_eq rfl)

/-- **Only output messages add to an output**. -/
theorem tame_step {e : Event} (h : s.outputOf e = none) (he : step s e = some t) : Tame s t := by
  by_cases hl : ∃ c text disk, e = .line c text disk
  · obtain ⟨c, text, disk, rfl⟩ := hl
    unfold step at he
    dsimp only at he
    split at he
    · cases he
      exact (tame_handleLine h disk).trans (tame_of_eq rfl)
    · cases he
  · obtain ⟨u, k, rfl, hu⟩ := step_cases he
    refine (tame_change (fun c text disk hc => hl ⟨c, text, disk, hc⟩) hu).trans ?_
    exact tame_of_eq rfl

/-- A step without an output message writes no capture file. -/
theorem noCapture_step {e : Event} (h : s.outputOf e = none) (he : step s e = some t) :
    (t.log.drop s.log.length).countP (·.isCapture) = 0 := by
  obtain ⟨l, hl, -, -, hc⟩ := adds_step he
  rw [hl, List.drop_left, List.countP_eq_zero]
  intro x hx hcap
  cases x with
  | capture path text =>
    obtain ⟨c, line, disk, rfl, ho⟩ := hc path text hx
    rw [show s.outputLine c line = none from h] at ho
    cases ho
  | _ => cases hcap

/-! ## Output messages -/

theorem outputLine_active {c : BridgeId} {text : JsStr} {m : Active × JsStr × JsStr × Bool × Bool}
    (h : s.outputLine c text = some m) : s.active = some m.1 := by
  unfold outputLine at h
  split at h
  · cases h
  split at h
  · next a ha =>
    split at h
    · cases h; exact ha
    · cases h
  · cases h

/-- An output message is handled by `handleOutput`. -/
theorem handleLine_output {c : BridgeId} {line : JsStr} {a : Active} {kind text : JsStr}
    {continuation final : Bool} (h : s.outputLine c line = some (a, kind, text, continuation, final))
    (disk : Disk) :
    s.handleLine c line disk = s.handleOutput a kind text continuation final disk := by
  unfold outputLine at h
  unfold handleLine
  split at h
  · cases h
  next hc =>
  rw [if_neg hc]
  split at h
  · next hm ha =>
    split at h
    · next hid =>
      cases h
      rw [hm]
      simp [handleMessage, ha, hid, BridgeMessage.requestId?]
    · cases h
  · cases h

/-- An output message adds its text and two newlines at most. -/
theorem byteLength_appendOutput_le (output kind text : JsStr) (continuation final : Bool) :
    byteLength (appendOutput output kind text continuation final) ≤
      byteLength output + byteLength text + 2 := by
  have hn : ∀ x : JsStr, byteLength (x ++ js "\n") ≤ byteLength x + 1 := fun x =>
    byteLength_append_le x (js "\n")
  unfold appendOutput
  split
  · exact (byteLength_append_le output text).trans (Nat.le_add_right _ _)
  dsimp only
  have hf : ∀ x : JsStr, byteLength x ≤ byteLength output + 1 →
      byteLength (if final = true ∧ ¬ endsWith (x ++ text) (js "\n") = true then
        x ++ text ++ js "\n" else x ++ text) ≤ byteLength output + byteLength text + 2 := by
    intro x hx
    have h1 := byteLength_append_le x text
    have h2 := hn (x ++ text)
    split <;> omega
  split
  · exact hf _ (hn output)
  · exact hf _ (Nat.le_succ _)

/-- Saving writes one file at most and leaves the request alone. -/
theorem saveOutput_log (s : State) (disk : Disk) (text : JsStr) :
    (s.saveOutput disk text).1.active = s.active ∧
      ∃ l, (s.saveOutput disk text).1.log = s.log ++ l ∧ l.countP (·.isCapture) ≤ 1 := by
  have hsame : ∃ l, s.log = s.log ++ l ∧ l.countP (·.isCapture) ≤ 1 :=
    ⟨[], (List.append_nil _).symm, Nat.zero_le _⟩
  have hone : ∀ path, ∃ l, s.log ++ [.capture path text] = s.log ++ l ∧
      l.countP (·.isCapture) ≤ 1 := fun path => ⟨_, rfl, le_refl _⟩
  unfold saveOutput
  split
  · exact ⟨rfl, hsame⟩
  dsimp only
  split
  · split
    · exact ⟨rfl, hone _⟩
    · exact ⟨rfl, hsame⟩
  · split
    · exact ⟨rfl, hsame⟩
    · split
      · exact ⟨rfl, hone _⟩
      · exact ⟨rfl, hsame⟩

/-- Interrupting writes no file. -/
theorem interrupt_log (s : State) (reason : JsStr) (overflow : Bool) :
    ∃ l, (s.interrupt reason overflow).log = s.log ++ l ∧ l.countP (·.isCapture) = 0 := by
  unfold interrupt
  split
  · exact ⟨[], (List.append_nil _).symm, rfl⟩
  split
  · exact ⟨[], (List.append_nil _).symm, rfl⟩
  · unfold signalProcessGroup
    split
    · exact ⟨[], (List.append_nil _).symm, rfl⟩
    · exact ⟨_, rfl, rfl⟩

/-- **What an output message does**: it is ignored, or added within the limit, or added, captured
and interrupted. -/
theorem handleOutput_cases (s : State) (a : Active) (kind text : JsStr) (continuation final : Bool)
    (disk : Disk) {output : JsStr} (ho : appendOutput a.output kind text continuation final = output)
    {t : State} (ht : s.handleOutput a kind text continuation final disk = t) :
    (a.interrupt.any (·.overflow) = true ∧ t = s) ∨
    (a.interrupt.any (·.overflow) = false ∧ byteLength output ≤ outputCaptureLimitBytes ∧
      t = { s with active := some { a with output } }.emit (.onOutput a.request output)) ∨
    (a.interrupt.any (·.overflow) = false ∧ outputCaptureLimitBytes < byteLength output ∧
      (∃ l, t.log = s.log ++ l ∧ l.countP (·.isCapture) ≤ 1) ∧
      ∀ b, t.active = some b → b.output = output) := by
  unfold handleOutput at ht
  split at ht
  · next hi => exact .inl ⟨hi, ht.symm⟩
  next hi =>
  have hi : a.interrupt.any (·.overflow) = false := by simpa using hi
  dsimp only at ht
  rw [ho] at ht
  split at ht
  · next hl =>
    refine .inr (.inr ⟨hi, hl, ?_, fun b hb => ?_⟩)
    · obtain ⟨-, l, hs, hn⟩ := saveOutput_log { s with active := some { a with output } } disk
        (stripAnsi output)
      obtain ⟨m, hm, hz⟩ := interrupt_log ({ s with active := some { a with output } }.saveOutput disk
        (stripAnsi output)).1 _ true
      refine ⟨l ++ m, ?_, ?_⟩
      · rw [← ht, hm, hs, List.append_assoc]
      · rw [List.countP_append, hz]
        exact hn
    · rw [← ht] at hb
      obtain ⟨c, hc, h⟩ := interrupt_output hb
      rw [(saveOutput_log _ disk _).1] at hc
      cases hc
      exact h
  · next hl => exact .inr (.inl ⟨hi, not_lt.mp hl, ht.symm⟩)

end State

open State

/-! ## Runs -/

/-- What the meter says of the request in progress. -/
structure Metered (w : State × Meter) : Prop where
  captures : w.2.captures ≤ if w.2.passed then 1 else 0
  within : ∀ a, w.1.active = some a → byteLength a.output ≤ outputCaptureLimitBytes ∨
    w.2.passed = true ∧ byteLength a.output ≤ outputCaptureLimitBytes + w.2.largest + 2

theorem metered_init : Metered (State.init, .zero) := ⟨le_refl _, fun _ ha => by cases ha⟩

theorem Metered.bounded {w : State × Meter} (h : Metered w) : Bounded w := by
  refine ⟨h.captures.trans ?_, fun a ha => ?_⟩
  · split <;> omega
  · rcases h.within a ha with hw | ⟨-, hw⟩ <;> omega

/-- A step that writes no file and keeps to the output. -/
theorem Metered.tame {s t : State} {m : Meter} {e : Event} (h : Metered (s, m))
    (ht : Tame s t) (hc : (t.log.drop s.log.length).countP (·.isCapture) = 0) :
    Metered (t, m.note s e t) := by
  have hnil : byteLength [] ≤ outputCaptureLimitBytes := by decide
  unfold Meter.note
  split
  · next hn =>
    refine ⟨le_refl _, fun b hb => .inl ?_⟩
    rcases ht b hb with hb | ⟨a, ha, -⟩
    · rw [hb]; exact hnil
    · rw [ha] at hn; cases hn
  · refine ⟨?_, fun b hb => ?_⟩
    · have := h.captures
      rw [hc]
      dsimp only at this ⊢
      cases hp : m.passed <;> simp_all
    · rcases ht b hb with hb | ⟨a, ha, hb⟩
      · rw [hb]; exact .inl hnil
      · rw [hb]
        refine (h.within a ha).imp id fun ⟨hp, hw⟩ => ⟨?_, ?_⟩
        · simp only [show m.passed = true from hp, Bool.true_or]
        · dsimp only at hw ⊢
          omega

/-- An output message that is not the second over the limit. -/
theorem Metered.output {s t : State} {m : Meter} {c : BridgeId} {line : JsStr} {disk : Disk}
    {a : Active} {kind text : JsStr} {continuation final : Bool} (h : Metered (s, m))
    (ho : s.outputLine c line = some (a, kind, text, continuation, final))
    (hs : Single (s, m) (.line c line disk))
    (ht : s.handleOutput a kind text continuation final disk = t) :
    Metered (t, m.note s (.line c line disk) t) := by
  have ha : s.active = some a := outputLine_active ho
  have hbytes : s.outputBytes (.line c line disk) = byteLength text := by
    simp only [outputBytes, outputOf, ho, Option.elim_some]
  have hpass : s.passes (.line c line disk) = (! a.interrupt.any (·.overflow) &&
      decide (byteLength (appendOutput a.output kind text continuation final) >
        outputCaptureLimitBytes)) := by
    simp only [passes, outputOf, ho, Option.any_some]
  have hw := h.within a ha
  have hc := h.captures
  rcases handleOutput_cases s a kind text continuation final disk rfl ht with
    ⟨hi, rfl⟩ | ⟨hi, hl, rfl⟩ | ⟨hi, hl, ⟨l, hlog, hn⟩, hb⟩
  · -- ignored: the request has its own overflow
    exact h.tame (tame_of_eq rfl) (by rw [List.drop_length]; rfl)
  · -- within the limit
    unfold Meter.note
    rw [ha, if_neg (by simp)]
    refine ⟨?_, fun b hb => .inl ?_⟩
    · have hz : (State.emit { s with active := some { a with
          output := appendOutput a.output kind text continuation final } } (.onOutput a.request
          (appendOutput a.output kind text continuation final))).log.drop s.log.length =
          [.onOutput a.request (appendOutput a.output kind text continuation final)] :=
        List.drop_left
      rw [hz, hpass, hi]
      simpa [Effect.isCapture, not_lt.mpr hl] using hc
    · cases hb
      exact hl
  · -- over the limit, for the first time
    have hp : s.passes (.line c line disk) = true := by simp [hpass, hi, hl]
    have hm : m.passed = false := by
      by_contra hm
      cases hp.symm.trans (hs (by simpa using hm))
    have hout := byteLength_appendOutput_le a.output kind text continuation final
    unfold Meter.note
    rw [ha, if_neg (by simp)]
    refine ⟨?_, fun b hbt => .inr ⟨?_, ?_⟩⟩
    · rw [hlog, List.drop_left, hp]
      rw [hm] at hc
      simp only [Bool.or_true, if_true]
      simp at hc
      omega
    · simp only [hp, Bool.or_true]
    · rw [hb b hbt, hbytes]
      rw [hm] at hw
      simp only [Bool.false_eq_true, false_and, or_false] at hw
      dsimp only
      omega

theorem metered_step {w v : State × Meter} {e : Event} (h : Metered w) (hs : Single w e)
    (he : meter w e = some v) : Metered v := by
  obtain ⟨s, m⟩ := w
  obtain ⟨t, ht, rfl⟩ := Option.map_eq_some_iff.mp he
  by_cases ho : s.outputOf e = none
  · exact h.tame (tame_step ho ht) (noCapture_step ho ht)
  · obtain ⟨⟨a, kind, text, continuation, final⟩, ho⟩ := Option.ne_none_iff_exists'.mp ho
    cases e with
    | line c line disk =>
      unfold step at ht
      dsimp only at ht
      split at ht
      · cases ht
        have hm := h.output ho hs (handleLine_output ho disk).symm
        exact ⟨hm.captures, hm.within⟩
      · cases ht
    | _ => cases ho

/-- A cell that prints, is aborted and prints on until it stops. -/
def abortedCell (disk : Disk) : List Event := startRun disk ++ [
  .execute (js "1") (js "x") (js "/") (some 0), .resume 1 none,
  .line 0 (js "\x7b\"type\":\"output\",\"request_id\":\"1\",\"kind\":\"stdout\",\"text\":\"a\",\"continuation\":false,\"final\":true\x7d")
    disk, .abort 0,
  .line 0 (js "\x7b\"type\":\"output\",\"request_id\":\"1\",\"kind\":\"stdout\",\"text\":\"b\",\"continuation\":false,\"final\":true\x7d")
    disk,
  .line 0 (js
    "\x7b\"type\":\"result\",\"request_id\":\"1\",\"status\":\"error\",\"execution_count\":1,\"error\":null\x7d") disk]

open PiIpython.Bridge

/-- A message of the bridge's size that a cell printed. -/
def flood (disk : Disk) : Event :=
  .line 0 (utf16 (dumps exactRepr (Message.dict (.output (py "1") (py "stdout")
    (List.replicate outputMessageChars (chr 'x')) false true)))) disk

/-- The cell is aborted and still runs, with `n` messages in its output. -/
structure Flooded (n : Nat) (w : State × Meter) : Prop where
  child : w.1.child = some 0
  bridge : w.1.open? 0 = true
  quiet : w.1.quiet = true ∨ w.1.chunk = some 0
  disposed : w.1.disposed = false
  active : ∃ a i, w.1.active = some a ∧ a.requestId = js "1" ∧
    a.output = List.replicate (n * outputMessageChars) (unit 'x') ∧
    a.interrupt = some i ∧ i.overflow = false
  captures : w.2.captures = n - 64

theorem utf16_replicate (n : Nat) :
    utf16 (List.replicate n (chr 'x')) = List.replicate n (unit 'x') := by
  induction n with
  | zero => rfl
  | succ n ih => rw [List.replicate_succ, List.replicate_succ, utf16_cons, ih]; rfl

theorem byteLength_replicate (n : Nat) : byteLength (List.replicate n (unit 'x')) = n := by
  induction n with
  | zero => rfl
  | succ n ih =>
    rw [byteLength_eq] at ih ⊢
    rw [List.replicate_succ, decode16_cons (by decide), List.map_cons, List.sum_cons, ih,
      show scalarLength (ofUnit (unit 'x')) = 1 by decide]
    omega

theorem outputLine_flood {s : State} {a : Active} (hc : s.child = some 0) (ha : s.active = some a)
    (hid : a.requestId = js "1") (kind text : PyStr) (continuation final : Bool) :
    s.outputLine 0 (utf16 (dumps exactRepr
      (Message.dict (.output (py "1") kind text continuation final)))) =
      some (a, utf16 kind, utf16 text, continuation, final) := by
  have hm : (jsonParse (utf16 (dumps exactRepr
      (Message.dict (.output (py "1") kind text continuation final))))).bind isBridgeMessage =
      some (.output (utf16 (py "1")) (utf16 kind) (utf16 text) continuation final) := by
    rw [jsonParse_dumps exactRepr_readsBack]
    rfl
  unfold State.outputLine
  rw [if_neg (not_not_intro hc), hm, ha]
  exact if_pos hid.symm

/-- Behind another interrupt a message over the limit is captured, and nothing remembers it. -/
theorem handleOutput_behind {s : State} {a : Active} {i : Interrupt} (hi : a.interrupt = some i)
    (ho : i.overflow = false) {kind text output : JsStr} {continuation final : Bool}
    (hout : appendOutput a.output kind text continuation final = output)
    (hl : outputCaptureLimitBytes < byteLength output) (disk : Disk) :
    s.handleOutput a kind text continuation final disk =
      ({ s with active := some { a with output } }.saveOutput disk (stripAnsi output)).1 := by
  unfold handleOutput
  rw [if_neg (by simp [hi, ho])]
  dsimp only
  rw [hout, if_pos hl]
  have hs := (saveOutput_log { s with active := some { a with output } } disk
    (stripAnsi output)).1
  unfold interrupt
  rw [hs]
  simp [hi]

theorem saveOutput_ok {s : State} (hd : s.disposed = false) (directory text : JsStr) :
    ∃ d n path, (s.saveOutput ⟨.ok directory, none⟩ text).1 =
      { s with outputDirectory := d, outputIndex := n, log := s.log ++ [.capture path text] } := by
  unfold saveOutput
  rw [if_neg (by simp [hd])]
  dsimp only
  split
  · exact ⟨s.outputDirectory, _, _, rfl⟩
  · exact ⟨_, _, _, rfl⟩

/-- A message is taken while the cell runs on. -/
theorem Flooded.adds {n : Nat} {s t : State} {m : Meter} (h : Flooded n (s, m)) {e : Event}
    (he : step s e = some { t with chunk := some 0 }) {a : Active} (ha : s.active = some a)
    {output : JsStr} {i : Interrupt} (hi : a.interrupt = some i) (ho : i.overflow = false)
    (hid : a.requestId = js "1")
    (hout : output = List.replicate ((n + 1) * outputMessageChars) (unit 'x')) {d : Option JsStr}
    {k : Nat} {l : List Effect} (ht : t = { s with
      active := some { a with output }, outputDirectory := d, outputIndex := k, log := s.log ++ l })
    (hl : l.countP (·.isCapture) = (n + 1 - 64) - (n - 64)) :
    ∃ v, meter (s, m) e = some v ∧ Flooded (n + 1) v := by
  subst ht
  refine ⟨_, congrArg (Option.map fun t => (t, m.note s e t)) he, h.child, h.bridge, .inr rfl,
    h.disposed, ⟨_, i, rfl, hid, hout, hi, ho⟩, ?_⟩
  have hm : m.captures = n - 64 := h.captures
  dsimp only [Meter.note]
  rw [if_neg (by simp [ha]), List.drop_left, hl, hm]
  exact Nat.add_sub_cancel' (by omega)

theorem Flooded.next {n : Nat} {w : State × Meter} (h : Flooded n w) (directory : JsStr) :
    ∃ v, meter w (flood ⟨.ok directory, none⟩) = some v ∧ Flooded (n + 1) v := by
  obtain ⟨s, m⟩ := w
  obtain ⟨a, i, ha, hid, hout, hi, hov⟩ := h.active
  have hline := outputLine_flood h.child ha hid (py "stdout")
    (List.replicate outputMessageChars (chr 'x')) false true
  have hnext : appendOutput a.output (utf16 (py "stdout"))
      (utf16 (List.replicate outputMessageChars (chr 'x'))) false true =
      List.replicate ((n + 1) * outputMessageChars) (unit 'x') := by
    rw [appendOutput, if_pos (.inl rfl), hout, utf16_replicate, Nat.succ_mul,
      List.replicate_append_replicate]
  have hstep : ∀ t, s.handleOutput a (utf16 (py "stdout"))
      (utf16 (List.replicate outputMessageChars (chr 'x'))) false true ⟨.ok directory, none⟩ = t →
      step s (flood ⟨.ok directory, none⟩) = some { t with chunk := some 0 } := by
    intro t ht
    change (if s.open? 0 = true ∧ (s.quiet = true ∨ s.chunk = some 0) then _ else none) = _
    rw [if_pos ⟨h.bridge, h.quiet⟩, handleLine_output hline, ht]
  have hlen : byteLength (List.replicate ((n + 1) * outputMessageChars) (unit 'x')) =
      (n + 1) * outputMessageChars := byteLength_replicate _
  have hlimit : outputCaptureLimitBytes = 64 * outputMessageChars := by decide
  generalize hx : List.replicate ((n + 1) * outputMessageChars) (unit 'x') = output at hnext hlen
  generalize flood ⟨.ok directory, none⟩ = e at hstep
  generalize utf16 (List.replicate outputMessageChars (chr 'x')) = text at hstep hnext
  rcases Nat.lt_or_ge n 64 with hn | hn
  · -- within the limit
    rcases handleOutput_cases s a (utf16 (py "stdout")) text false true ⟨.ok directory, none⟩ hnext
      rfl with ⟨ht, -⟩ | ⟨-, -, ht⟩ | ⟨-, hl, -⟩
    · simp [hi, hov] at ht
    · exact h.adds (hstep _ ht) ha hi hov hid hx.symm (k := s.outputIndex) rfl
        (show 0 = _ by omega)
    · rw [hlen, hlimit] at hl
      exact absurd (Nat.lt_of_mul_lt_mul_right hl) (by omega)
  · -- the output is captured again
    have hl : outputCaptureLimitBytes < byteLength output := by
      rw [hlen, hlimit]
      exact Nat.mul_lt_mul_of_pos_right (by omega) (by decide)
    have ht := handleOutput_behind (s := s) hi hov hnext hl ⟨.ok directory, none⟩
    obtain ⟨d, k, path, hs⟩ := saveOutput_ok (s := { s with active := some { a with output } })
      h.disposed directory (stripAnsi output)
    exact h.adds (hstep _ (ht.trans hs)) ha hi hov hid hx.symm rfl (show 1 = _ by omega)

theorem Flooded.run {n : Nat} {w : State × Meter} (h : Flooded n w) (directory : JsStr) :
    ∀ k, ∃ v, runAll meter w (List.replicate k (flood ⟨.ok directory, none⟩)) = some v ∧
      Flooded (n + k) v
  | 0 => ⟨w, rfl, h⟩
  | k + 1 => by
    obtain ⟨u, hu, hf⟩ := h.next directory
    obtain ⟨v, hv, hg⟩ := hf.run directory k
    refine ⟨v, ?_, by rwa [show n + (k + 1) = n + 1 + k by omega]⟩
    rw [List.replicate_succ, runAll_cons, hu]
    exact hv

/-- A cell that is aborted before its first output. -/
def floodedCell (disk : Disk) : List Event := startRun disk ++ [
  .execute (js "1") (js "x") (js "/") (some 0), .resume 1 none, .abort 0]

end PiIpython.Runtime
