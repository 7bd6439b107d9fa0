import PiIpython.Runtime.Overflow

/-!
# What a result is made of

A request collects the messages that carry its id (`Collected.add`); once its
own overflow has interrupted it, further output is ignored. `resolved_own`: the
result of a request is what it collected between the step that accepted it and
the result line with its id, whatever else happens in the run.
-/

namespace PiIpython.Runtime

open Text Output

/-! ## Collecting -/

/-- What a request has collected. -/
structure Collected where
  output : JsStr
  images : List JsStr
  imagesDropped : Nat

def Collected.empty : Collected := ⟨[], [], 0⟩

/-- A message of the request; `ignoring` says that its output is over the limit. -/
def Collected.add (ignoring : Bool) (x : Collected) : BridgeMessage → Collected
  | .clear _ => .empty
  | .image _ data =>
    let bytes := x.images.foldl (fun sum image => sum + image.length) data.length
    if x.images.length < imageLimit ∧ bytes ≤ imageLimitBytes then
      { x with images := x.images ++ [data] }
    else { x with imagesDropped := x.imagesDropped + 1 }
  | .output _ kind text continuation final =>
    if ignoring then x
    else { x with output := State.appendOutput x.output kind text continuation final }
  | _ => x

def collect (ignoring : Bool) (x : Collected) (ms : List BridgeMessage) : Collected :=
  ms.foldl (Collected.add ignoring) x

theorem collect_append (ignoring : Bool) (x : Collected) (ms ns : List BridgeMessage) :
    collect ignoring x (ms ++ ns) = collect ignoring (collect ignoring x ms) ns := List.foldl_append

theorem collect_toList (ignoring : Bool) (x : Collected) (m : Option BridgeMessage) :
    collect ignoring x m.toList = m.elim x (x.add ignoring) := by
  cases m <;> rfl

def Active.collected (a : Active) : Collected := ⟨a.output, a.images, a.imagesDropped⟩

/-- The request's output was interrupted by its own size. -/
def Active.overflowed (a : Active) : Bool := a.interrupt.any (·.overflow)

/-- The request has collected the messages: all of them, or no output after the one that took it
over the limit. -/
def Active.Has (a : Active) (ms : List BridgeMessage) : Prop :=
  if a.overflowed then
    ∃ pre post, ms = pre ++ post ∧
      outputCaptureLimitBytes < byteLength (collect false .empty pre).output ∧
      a.collected = collect true (collect false .empty pre) post
  else a.collected = collect false .empty ms

namespace State

/-- The message with the id that the event is, a line of the runtime's bridge. -/
def messageFor (s : State) (id : JsStr) : Event → Option BridgeMessage
  | .line c text _ =>
    if s.child = some c then ((jsonParse text).bind isBridgeMessage).filter (·.requestId? = some id)
    else none
  | _ => none

/-- The messages with the id in a run from the state. -/
def messagesFor (id : JsStr) : State → List Event → List BridgeMessage
  | _, [] => []
  | s, e :: es => (s.messageFor id e).toList ++ (step s e).elim [] fun t => messagesFor id t es

theorem messagesFor_snoc {id : JsStr} {e : Event} : ∀ {es : List Event} {s t : State},
    runAll step s es = some t →
      messagesFor id s (es ++ [e]) = messagesFor id s es ++ (t.messageFor id e).toList
  | [], s, t, h => by
    cases h
    change (s.messageFor id e).toList ++ (step s e).elim [] (fun t => messagesFor id t []) = _
    cases step s e <;> simp [messagesFor]
  | d :: es, s, t, h => by
    rw [runAll_cons, Option.bind_eq_some_iff] at h
    obtain ⟨u, hu, h⟩ := h
    simp only [List.cons_append, messagesFor, hu, Option.elim_some, messagesFor_snoc h,
      List.append_assoc]

end State

/-- The request after a step of the run: `m` is its own message, when the step is one. -/
structure Alters (m : Option BridgeMessage) (a b : Active) : Prop where
  request : b.request = a.request
  requestId : b.requestId = a.requestId
  collected : b.collected = m.elim a.collected (a.collected.add a.overflowed)
  overflowed : b.overflowed = a.overflowed ∨
    a.overflowed = false ∧ b.overflowed = true ∧ outputCaptureLimitBytes < byteLength b.output

theorem Alters.refl (a : Active) : Alters none a a := ⟨rfl, rfl, rfl, .inl rfl⟩

theorem Alters.has {m : Option BridgeMessage} {a b : Active} {ms : List BridgeMessage}
    (h : Alters m a b) (ha : a.Has ms) : b.Has (ms ++ m.toList) := by
  have hc := h.collected
  rw [← collect_toList] at hc
  unfold Active.Has at ha ⊢
  rcases h.overflowed with ho | ⟨ho, ho', hlimit⟩
  · rw [ho]
    cases hov : a.overflowed with
    | false =>
      rw [hov] at ha hc
      rw [if_neg nofun] at ha ⊢
      rw [hc, ha, collect_append]
    | true =>
      rw [hov] at ha hc
      rw [if_pos rfl] at ha ⊢
      obtain ⟨pre, post, rfl, hlimit, hcol⟩ := ha
      exact ⟨pre, post ++ m.toList, List.append_assoc .., hlimit, by rw [hc, hcol, collect_append]⟩
  · -- the message took the output over the limit
    rw [ho] at ha hc
    rw [if_neg nofun] at ha
    rw [ho', if_pos rfl]
    have hall : b.collected = collect false .empty (ms ++ m.toList) := by
      rw [hc, ha, collect_append]
    refine ⟨ms ++ m.toList, [], (List.append_nil _).symm, ?_, hall⟩
    rw [← hall]
    exact hlimit

/-! ## Steps -/

namespace State

variable {s t u : State}

/-- A request just accepted. -/
structure Fresh (s : State) (b : Active) : Prop where
  free : s.active = none
  request : b.request = s.requests.length
  collected : b.collected = .empty
  overflowed : b.overflowed = false

/-- What becomes of the request in progress, with the message that `m` says is its own. -/
def Collects (m : JsStr → Option BridgeMessage) (s t : State) : Prop :=
  ∀ b, t.active = some b → s.Fresh b ∨ ∃ a, s.active = some a ∧ Alters (m a.requestId) a b

/-- No request is resolved. -/
def Unresolving (s t : State) : Prop :=
  ∀ (r : Nat) (x : ProtocolResult), t.requests[r]? = some (some (.resolved x)) →
    s.requests[r]? = some (some (.resolved x))

theorem collects_of_eq (h : t.active = s.active) : Collects (fun _ => none) s t :=
  fun b hb => .inr ⟨b, h ▸ hb, .refl b⟩

theorem collects_of_none {m : JsStr → Option BridgeMessage} (h : t.active = none) : Collects m s t :=
  fun b hb => by cases h.symm.trans hb

/-- The state before may differ aside from the requests. -/
theorem Collects.before {m : JsStr → Option BridgeMessage} (h : Collects m u t)
    (ha : u.active = s.active) (hr : u.requests = s.requests) : Collects m s t := fun b hb =>
  (h b hb).imp (fun f => ⟨ha ▸ f.free, hr ▸ f.request, f.collected, f.overflowed⟩)
    fun ⟨a, hs, h⟩ => ⟨a, ha ▸ hs, h⟩

theorem unresolving_of_eq (h : t.requests = s.requests) : Unresolving s t := fun _ _ hx => by
  rwa [h] at hx

theorem Unresolving.trans (h : Unresolving s t) (k : Unresolving t u) : Unresolving s u :=
  fun r x hx => h r x (k r x hx)

/-- Rejecting a request resolves none. -/
theorem unresolving_settle (s : State) (r : Nat) (e : JsStr) :
    Unresolving s (s.settle r (.rejected e)) := by
  intro q x hx
  rw [settle_eq, List.getElem?_modify] at hx
  cases hq : s.requests[q]? with
  | none =>
    rw [hq] at hx
    split at hx <;> cases hx
  | some y =>
    rw [hq] at hx
    split at hx
    · cases y <;> cases hx
      rfl
    · exact hx

/-- Nor does accepting one that is not resolved. -/
theorem unresolving_append {y : Option Settled} (hy : ∀ x, y ≠ some (.resolved x))
    (h : t.requests = s.requests ++ [y]) : Unresolving s t := by
  intro r x hx
  rw [h, List.getElem?_append] at hx
  split at hx
  · exact hx
  · rw [List.getElem?_singleton] at hx
    split at hx
    · exact absurd (Option.some.inj hx) (hy x)
    · cases hx

theorem unresolving_failActive (s : State) (e : JsStr) : Unresolving s (s.failActive e) := by
  rcases s.failActive_cases e with ⟨-, h⟩ | ⟨a, -, h⟩
  · rw [h]
    exact unresolving_of_eq rfl
  · rw [h]
    exact unresolving_settle { s with active := none } a.request e

/-- An interrupt that is not of the output's own. -/
theorem collects_interrupt (s : State) (reason : JsStr) :
    Collects (fun _ => none) s (s.interrupt reason false) := by
  unfold interrupt
  split
  · exact collects_of_eq rfl
  next a ha =>
  split
  · exact collects_of_eq rfl
  next hi =>
  have hnone : a.overflowed = false := by
    rw [Active.overflowed, Option.not_isSome_iff_eq_none.mp hi]
    rfl
  obtain ⟨l, hl⟩ := signalProcessGroup_eq
    { s with active := some { a with interrupt := some ⟨reason, false⟩ } } s.kernelPgid .sigint
  rw [hl]
  intro b hb
  cases hb
  exact .inr ⟨a, ha, rfl, rfl, rfl, .inl hnone.symm⟩

theorem collects_abortListeners (s : State) (fires : Signal → Bool) :
    Collects (fun _ => none) s (s.abortListeners fires) := by
  obtain ⟨w, l, -, ⟨-, h⟩ | ⟨a, -, -, h⟩⟩ := s.abortListeners_cases fires
  · rw [h]
    exact collects_of_eq rfl
  · rw [h]
    exact (collects_interrupt { s with readyWaiter := w, startups := l } a.cancelReason).before rfl
      rfl

theorem abortListeners_requests (s : State) (fires : Signal → Bool) :
    (s.abortListeners fires).requests = s.requests := by
  obtain ⟨w, l, -, ⟨-, h⟩ | ⟨a, -, -, h⟩⟩ := s.abortListeners_cases fires
  · rw [h]
  · rw [h]
    exact (kept_interrupt _ _ _).requests

theorem fresh_newActive (hn : s.active = none) (m : BridgeRequest) (c : BridgeId) (g : Signal)
    (r : JsStr) (limit : Option JsStr) : s.Fresh (s.newActive m c g r limit) :=
  ⟨hn, rfl, rfl, rfl⟩

theorem collects_request (s : State) (m : BridgeRequest) (g : Signal) (r : JsStr)
    (limit thrown : Option JsStr) :
    Collects (fun _ => none) s (s.request m g r limit thrown).1 ∧
      Unresolving s (s.request m g r limit thrown).1 := by
  rcases s.request_cases m g r limit thrown with
    ⟨-, e, h⟩ | ⟨c, -, -, ha, -, ⟨-, l, h⟩ | ⟨-, e, x, h⟩⟩
  · rw [h]
    exact ⟨collects_of_eq rfl, unresolving_of_eq rfl⟩
  · rw [h]
    refine ⟨fun b hb => ?_, unresolving_append (y := none) (fun _ => nofun) rfl⟩
    cases hb
    exact .inl (fresh_newActive ha ..)
  · rw [h]
    exact ⟨collects_of_none ((kill_active _).trans ha),
      unresolving_append (y := some (.rejected x)) (fun _ => nofun) (kill_requests _)⟩

theorem rejectReady_requests (s : State) (e : JsStr) : (s.rejectReady e).requests = s.requests := by
  obtain ⟨w, l, -, h⟩ := s.rejectReady_eq e
  rw [h]

theorem collects_bridgeEnds (s : State) (c : BridgeId) (reason : JsStr) (f : Bridge → Bridge) :
    Collects (fun _ => none) s (s.bridgeEnds c reason f) ∧
      Unresolving s (s.bridgeEnds c reason f) := by
  rcases handleExit_cases { s with bridges := s.bridges.modify c f } c reason with
    ⟨-, h⟩ | ⟨-, e, ⟨-, h⟩ | ⟨-, l, k, m, h⟩⟩
  · rw [bridgeEnds, h]
    exact ⟨collects_of_eq rfl, unresolving_of_eq rfl⟩
  · rw [bridgeEnds, h]
    exact ⟨collects_of_eq (rejectReady_active _ e), unresolving_of_eq (rejectReady_requests _ e)⟩
  · rw [bridgeEnds, h]
    exact ⟨collects_of_none (failActive_active _ m), fun r x hx => by
      have := unresolving_failActive _ m r x hx
      rwa [rejectReady_requests] at this⟩

/-- A step that is no line of the bridge. -/
theorem collects_change {e : Event} (hl : ∀ c text disk, e ≠ .line c text disk) (h : Change s e t) :
    Collects (fun _ => none) s t ∧ Unresolving s t := by
  cases h with
  | aside h => exact ⟨collects_of_eq h.active, unresolving_of_eq h.requests⟩
  | line hk h => exact absurd rfl (hl _ _ _)
  | evaluate expression ms signal thrown id reason limit =>
    obtain ⟨hc, hu⟩ := collects_request { s with evaluateIndex := s.evaluateIndex + 1 }
      (.evaluate id expression) ⟨signal, true⟩ reason (some limit) thrown
    exact ⟨hc.before rfl rfl, hu⟩
  | execute thrown hx =>
    rcases executeStarted_cases s _ _ _ _ _ thrown with ⟨-, e, h⟩ |
      ⟨c, -, -, ha, -, ⟨-, l, h⟩ | ⟨-, e, m, h⟩⟩
    · rw [h]
      exact ⟨collects_of_eq rfl, unresolving_of_eq rfl⟩
    · rw [h]
      refine ⟨fun b hb => ?_, unresolving_append (y := none) (fun _ => nofun) rfl⟩
      cases hb
      exact .inl (fresh_newActive ha ..)
    · rw [h]
      exact ⟨collects_of_none ((kill_active _).trans ha),
        unresolving_append (y := some (.rejected m)) (fun _ => nofun) (kill_requests _)⟩
  | abort σ =>
    exact ⟨(collects_abortListeners { s with aborted := σ :: s.aborted } _).before rfl rfl,
      unresolving_of_eq (abortListeners_requests { s with aborted := σ :: s.aborted } _)⟩
  | dispose p =>
    exact ⟨(collects_abortListeners { s with disposed := true } _).before rfl rfl,
      unresolving_of_eq (abortListeners_requests { s with disposed := true } _)⟩
  | spawn hx => exact ⟨collects_of_eq rfl, unresolving_of_eq rfl⟩
  | unspawned hx => exact ⟨collects_of_eq rfl, unresolving_of_eq rfl⟩
  | @stdin _ _ _ l m hd he =>
    refine ⟨collects_of_none ((kill_active _).trans (failActive_active _ _)), ?_⟩
    have h := unresolving_failActive ({ s with stderr := l }.noteReset) m
    exact fun r x hx => h r x (by rwa [kill_requests] at hx)
  | startupFailed hx after =>
    exact ⟨collects_of_eq (kill_active s), unresolving_of_eq (kill_requests s)⟩
  | startupTimeout sid m =>
    obtain ⟨w, l, -, h⟩ := s.finishStartup_eq sid fun _ => .failed m
    rw [h]
    exact ⟨collects_of_eq rfl, unresolving_of_eq rfl⟩
  | @timeout a reason ha ht =>
    refine ⟨fun b hb => .inr ?_, unresolving_of_eq (kept_interrupt _ _ _).requests⟩
    rcases collects_interrupt { s with active := some { a with timeout := none } } reason b hb with
      h | ⟨d, hd, h⟩
    · cases h.free
    · cases hd
      exact ⟨a, ha, h.request, h.requestId, h.collected, h.overflowed⟩
  | grace ha hi after m =>
    exact ⟨collects_of_none (kill_active _), unresolving_of_eq (kill_requests _)⟩
  | @reject x hx =>
    exact ⟨collects_of_eq rfl, unresolving_settle { s with
      rejections := s.rejections.filter (·.request ≠ x.request) } x.request x.message⟩
  | closing he hc hs p l => exact ⟨collects_of_eq rfl, unresolving_of_eq rfl⟩
  | shutdownKill he hs b p q =>
    exact ⟨collects_of_eq (kill_active _), unresolving_of_eq (kill_requests _)⟩
  | error c m reason => exact collects_bridgeEnds s c reason _
  | close hf c code signal alive reason l hp =>
    obtain ⟨hc, hu⟩ := collects_bridgeEnds s c reason fun b => { b with closed := true }
    exact ⟨hc, hu⟩

/-- The line is the result of the request `r`. -/
def Resolves (s : State) (c : BridgeId) (text : JsStr) (r : Nat) (x : ProtocolResult) : Prop :=
  ∃ a status count value error, s.active = some a ∧ a.request = r ∧ s.child = some c ∧
    (jsonParse text).bind isBridgeMessage = some (.result a.requestId status count value error) ∧
    x = protocolResult a status count value error

theorem signalProcessGroup_active (s : State) (g : Option Int) (sig : Sig) :
    (s.signalProcessGroup g sig).active = s.active := by
  cases g <;> rfl

theorem handleOutput_alters {a : Active} (ha : s.active = some a) (id kind text : JsStr)
    (continuation final : Bool) (disk : Disk) :
    Collects (fun _ => some (.output id kind text continuation final)) s
      (s.handleOutput a kind text continuation final disk) := by
  intro b hb
  refine .inr ⟨a, ha, ?_⟩
  unfold handleOutput at hb
  split at hb
  · next hi =>
    cases ha.symm.trans hb
    refine ⟨rfl, rfl, ?_, .inl rfl⟩
    exact (if_pos hi).symm
  next hi =>
  have hov : a.overflowed = false := Bool.eq_false_iff.mpr hi
  dsimp only at hb
  split at hb
  · next hlimit =>
    -- saved and interrupted: the flag is set unless another interrupt came first
    have hactive := (saveOutput_log { s with active := some { a with
      output := appendOutput a.output kind text continuation final } } disk
        (stripAnsi (appendOutput a.output kind text continuation final))).1
    have hcol : ∀ d : Active, d.output = appendOutput a.output kind text continuation final →
        d.images = a.images → d.imagesDropped = a.imagesDropped →
        d.collected = a.collected.add a.overflowed (.output id kind text continuation final) := by
      intro d h1 h2 h3
      rw [hov, Active.collected, h1, h2, h3]
      rfl
    unfold interrupt at hb
    rw [hactive] at hb
    dsimp only at hb
    split at hb
    · cases hactive.symm.trans hb
      exact ⟨rfl, rfl, hcol _ rfl rfl rfl, .inl rfl⟩
    · rw [signalProcessGroup_active] at hb
      cases hb
      exact ⟨rfl, rfl, hcol _ rfl rfl rfl, .inr ⟨hov, rfl, hlimit⟩⟩
  · cases hb
    refine ⟨rfl, rfl, ?_, .inl rfl⟩
    rw [hov]
    rfl

/-- **What a line of a bridge does**: the request in progress collects it when it collects its id,
and only a result resolves it. -/
structure Lined (s : State) (c : BridgeId) (text : JsStr) (disk : Disk) (t : State) : Prop where
  collects : Collects (fun id => s.messageFor id (.line c text disk)) s t
  resolves : ∀ (r : Nat) (x : ProtocolResult), t.requests[r]? = some (some (.resolved x)) →
    s.requests[r]? = some (some (.resolved x)) ∨ s.Resolves c text r x

section Line

variable {c : BridgeId} {text : JsStr} {disk : Disk} {m : BridgeMessage}

/-- A line that is not about the request in progress. -/
theorem lined_of_eq (h : t.active = s.active) (hr : t.requests = s.requests)
    (hm : ∀ a, s.active = some a → s.messageFor a.requestId (.line c text disk) = none) :
    s.Lined c text disk t where
  collects := by
    intro b hb
    rw [h] at hb
    refine .inr ⟨b, hb, ?_⟩
    dsimp only
    rw [hm b hb]
    exact .refl b
  resolves := fun r x hx => .inl (hr ▸ hx)

/-- A line that leaves no request in progress. -/
theorem lined_of_none (h : t.active = none) (hu : Unresolving s t) : s.Lined c text disk t :=
  ⟨collects_of_none h, fun r x hx => .inl (hu r x hx)⟩

theorem messageFor_line (hc : s.child = some c)
    (hm : (jsonParse text).bind isBridgeMessage = some m) (id : JsStr) :
    s.messageFor id (.line c text disk) = if m.requestId? = some id then some m else none := by
  refine (if_pos hc).trans ?_
  rw [hm, Option.filter_some]
  simp only [decide_eq_true_eq]

/-- A line about no request. -/
theorem lined_startup (hc : s.child = some c)
    (hm : (jsonParse text).bind isBridgeMessage = some m) (hid : m.requestId? = none)
    (h : t.active = s.active) (hr : t.requests = s.requests) : s.Lined c text disk t := by
  refine lined_of_eq h hr fun a _ => ?_
  rw [messageFor_line hc hm, hid]
  rfl

/-- A line about the request in progress. -/
theorem lined_own {a : Active} (hc : s.child = some c)
    (hm : (jsonParse text).bind isBridgeMessage = some m) (ha : s.active = some a)
    (hid : m.requestId? = some a.requestId) (h : Collects (fun _ => some m) s t)
    (hr : ∀ (r : Nat) (x : ProtocolResult), t.requests[r]? = some (some (.resolved x)) →
      s.requests[r]? = some (some (.resolved x)) ∨ s.Resolves c text r x) :
    s.Lined c text disk t := by
  refine ⟨fun b hb => (h b hb).imp (fun h => h) fun ⟨d, hd, h⟩ => ⟨d, hd, ?_⟩, hr⟩
  cases ha.symm.trans hd
  dsimp only
  rw [messageFor_line hc hm, if_pos hid]
  exact h

/-- A message about the request in progress, or about another one. -/
theorem lined_message (hc : s.child = some c)
    (hm : (jsonParse text).bind isBridgeMessage = some m)
    (hown : ∀ a, s.active = some a → m.requestId? = some a.requestId → s.Lined c text disk t)
    (hother : (∀ a, s.active = some a → m.requestId? ≠ some a.requestId) → t = s) :
    s.Lined c text disk t := by
  by_cases h : ∃ a, s.active = some a ∧ m.requestId? = some a.requestId
  · obtain ⟨a, ha, hid⟩ := h
    exact hown a ha hid
  · have h : ∀ a, s.active = some a → m.requestId? ≠ some a.requestId :=
      fun a ha hid => h ⟨a, ha, hid⟩
    rw [hother h]
    refine lined_of_eq rfl rfl fun a ha => ?_
    rw [messageFor_line hc hm, if_neg (h a ha)]

/-- A message about another request is ignored. -/
theorem handleMessage_other (h : ∀ a, s.active = some a → m.requestId? ≠ some a.requestId)
    (hid : m.requestId?.isSome = true ∨ ∃ e x, m = .bridgeError none e x) :
    s.handleMessage m disk = s := by
  cases hs : s.active with
  | none =>
    cases m with
    | kernelStarted g => simp [BridgeMessage.requestId?] at hid
    | ready p g f => simp [BridgeMessage.requestId?] at hid
    | fatal e x => simp [BridgeMessage.requestId?] at hid
    | _ => simp only [handleMessage, hs]
  | some a =>
    have ha := h a hs
    cases m with
    | kernelStarted g => simp [BridgeMessage.requestId?] at hid
    | ready p g f => simp [BridgeMessage.requestId?] at hid
    | fatal e x => simp [BridgeMessage.requestId?] at hid
    | _ => simp only [handleMessage, hs, if_pos ha]

theorem lined_handleMessage (hc : s.child = some c)
    (hm : (jsonParse text).bind isBridgeMessage = some m) :
    s.Lined c text disk (s.handleMessage m disk) := by
  cases m with
  | kernelStarted g =>
    simp only [handleMessage, handleKernelStarted]
    split
    · exact lined_startup hc hm rfl ((kill_active _).trans (rejectReady_active s _))
        ((kill_requests _).trans (rejectReady_requests s _))
    · exact lined_startup hc hm rfl rfl rfl
  | ready p g f =>
    simp only [handleMessage, handleReady]
    split
    · exact lined_startup hc hm rfl ((kill_active _).trans (rejectReady_active s _))
        ((kill_requests _).trans (rejectReady_requests s _))
    · next g _ =>
      obtain ⟨w, l, -, he⟩ := resolveReady_eq { s with
        kernelPgid := some g, kernelConnectionFile := some f, ready := true
        generation := s.generation + 1 }
      rw [he]
      exact lined_startup hc hm rfl rfl rfl
  | fatal e x =>
    refine lined_of_none ((kill_active _).trans (failActive_active _ _)) fun r y hy => ?_
    have hy : (((s.rejectReady (js "IPython bridge failed:\n" ++
        joinNonEmpty (js "\n") [e, x, s.stderr])).failActive _).noteReset.kill).requests[r]? =
        some (some (.resolved y)) := hy
    rw [kill_requests] at hy
    have := unresolving_failActive _ _ r y hy
    rwa [rejectReady_requests] at this
  | clear id =>
    refine lined_message hc hm (fun a ha hid => ?_) fun h => handleMessage_other h (.inl rfl)
    have hs : s.handleMessage (.clear id) disk = s.handleClear a := by
      simp only [handleMessage, ha, if_neg (not_not.mpr hid)]
    rw [hs]
    refine lined_own hc hm ha hid (fun b hb => .inr ⟨a, ha, ?_⟩) fun r x hx => .inl hx
    cases hb
    exact ⟨rfl, rfl, rfl, .inl rfl⟩
  | image id data =>
    refine lined_message hc hm (fun a ha hid => ?_) fun h => handleMessage_other h (.inl rfl)
    have hs : s.handleMessage (.image id data) disk = s.handleImage a data := by
      simp only [handleMessage, ha, if_neg (not_not.mpr hid)]
    rw [hs]
    have hcase : ∀ b : Active, b.request = a.request → b.requestId = a.requestId →
        b.interrupt = a.interrupt → b.collected = a.collected.add a.overflowed (.image id data) →
        Alters (some (.image id data)) a b := fun b h1 h2 h3 h4 =>
      ⟨h1, h2, h4, .inl (by rw [Active.overflowed, h3, Active.overflowed])⟩
    unfold handleImage
    dsimp only
    split
    · next hl =>
      refine lined_own hc hm ha hid (fun b hb => .inr ⟨a, ha, ?_⟩) fun r x hx => .inl hx
      cases hb
      exact hcase _ rfl rfl rfl (if_pos hl).symm
    · next hl =>
      refine lined_own hc hm ha hid (fun b hb => .inr ⟨a, ha, ?_⟩) fun r x hx => .inl hx
      cases hb
      exact hcase _ rfl rfl rfl (if_neg hl).symm
  | output id kind x continuation final =>
    refine lined_message hc hm (fun a ha hid => ?_) fun h => handleMessage_other h (.inl rfl)
    have hs : s.handleMessage (.output id kind x continuation final) disk =
        s.handleOutput a kind x continuation final disk := by
      simp only [handleMessage, ha, if_neg (not_not.mpr hid)]
    rw [hs]
    exact lined_own hc hm ha hid (handleOutput_alters ha id kind x continuation final disk)
      fun r y hy => .inl (by rwa [(kept_handleOutput ha ..).requests] at hy)
  | bridgeError id e x =>
    refine lined_message hc hm (fun a ha hid => ?_) fun h => handleMessage_other h ?_
    · have hs : s.handleMessage (.bridgeError id e x) disk = s.handleBridgeError a e x := by
        simp only [handleMessage, ha, if_neg (not_not.mpr hid)]
      rw [hs]
      refine lined_of_none (kill_active _) fun r y hy => ?_
      unfold handleBridgeError at hy
      rw [kill_requests] at hy
      exact unresolving_settle { s with active := none, pendingResetNotice := true } a.request _ r y
        hy
    · cases id with
      | none => exact .inr ⟨e, x, rfl⟩
      | some id => exact .inl rfl
  | result id status count value error =>
    refine lined_message hc hm (fun a ha hid => ?_) fun h => handleMessage_other h (.inl rfl)
    have hs : s.handleMessage (.result id status count value error) disk =
        s.handleResult a status count value error := by
      simp only [handleMessage, ha, if_neg (not_not.mpr hid)]
    rw [hs]
    refine ⟨collects_of_none rfl, fun r y hy => ?_⟩
    unfold handleResult at hy
    rw [settle_eq, List.getElem?_modify] at hy
    dsimp only at hy
    cases hq : s.requests[r]? with
    | none =>
      rw [hq] at hy
      cases hy
    | some z =>
      rw [hq] at hy
      simp only [Option.map_eq_map, Option.map_some] at hy
      by_cases hr : a.request = r
      · rw [if_pos hr] at hy
        cases z with
        | none =>
          cases hy
          cases hid
          exact .inr ⟨a, status, count, value, error, ha, hr, hc, hm, rfl⟩
        | some z =>
          cases hy
          exact .inl rfl
      · rw [if_neg hr] at hy
        exact .inl hy

/-- **Every line**. -/
theorem lined_handleLine (s : State) (c : BridgeId) (text : JsStr) (disk : Disk) :
    s.Lined c text disk (s.handleLine c text disk) := by
  unfold handleLine
  split
  · next hc => exact lined_of_eq rfl rfl fun a _ => if_neg hc
  next hc =>
  have hc : s.child = some c := not_not.mp hc
  cases hm : (jsonParse text).bind isBridgeMessage with
  | some m => exact lined_handleMessage hc hm
  | none =>
    dsimp only
    split
    · refine lined_of_none ((kill_active _).trans (failActive_active _ _)) fun r y hy => ?_
      rw [rejectLine, kill_requests] at hy
      have := unresolving_failActive _ _ r y hy
      rwa [rejectReady_requests] at this
    · obtain ⟨e, he⟩ := s.addStderr_eq (js "\nNon-protocol bridge output: " ++ text)
      rw [he]
      refine lined_of_eq rfl rfl fun a _ => (if_pos hc).trans ?_
      rw [hm]
      rfl

end Line

/-- **Every step**: what becomes of the request in progress, and which step resolves one. -/
theorem step_own {e : Event} (he : step s e = some t) :
    Collects (fun id => s.messageFor id e) s t ∧
      ∀ (r : Nat) (x : ProtocolResult), t.requests[r]? = some (some (.resolved x)) →
        s.requests[r]? = some (some (.resolved x)) ∨
          ∃ c text disk, e = .line c text disk ∧ s.Resolves c text r x := by
  by_cases hl : ∃ c text disk, e = .line c text disk
  · obtain ⟨c, text, disk, rfl⟩ := hl
    have h := s.lined_handleLine c text disk
    unfold step at he
    dsimp only at he
    split at he
    · cases he
      exact ⟨h.collects, fun r x hx => (h.resolves r x hx).imp_right fun hr =>
        ⟨c, text, disk, rfl, hr⟩⟩
    · cases he
  · have hl : ∀ c text disk, e ≠ .line c text disk := fun c text disk h => hl ⟨c, text, disk, h⟩
    obtain ⟨u, k, rfl, hu⟩ := step_cases he
    obtain ⟨hc, hr⟩ := collects_change hl hu
    have hnone : ∀ id, s.messageFor id e = none := by
      intro id
      cases e with
      | line c text disk => exact absurd rfl (hl c text disk)
      | _ => rfl
    refine ⟨fun b hb => (hc b hb).imp_right fun ⟨a, ha, h⟩ => ⟨a, ha, ?_⟩,
      fun r x hx => .inl (hr r x hx)⟩
    dsimp only
    rw [hnone]
    exact h

end State

open State

/-! ## Runs -/

/-- The request `r` was accepted by the event `e` after the run `pre` and is in progress as `a` in
the state `t` after `mid`, with the messages it has collected. -/
structure InProgress (r : Nat) (pre : List Event) (e : Event) (mid : List Event) (t : State)
    (a : Active) : Prop where
  active : t.active = some a
  request : a.request = r
  accepted : ∃ s u b, runAll step .init pre = some s ∧ s.active = none ∧ s.requests.length = r ∧
    step s e = some u ∧ u.active = some b ∧ b.request = r ∧ b.requestId = a.requestId ∧
    runAll step u mid = some t ∧ a.Has (messagesFor a.requestId u mid)

theorem InProgress.step {r : Nat} {pre mid : List Event} {e d : Event} {s t : State} {a b : Active}
    (h : InProgress r pre e mid s a) (hd : Runtime.step s d = some t) (hb : t.active = some b)
    (hab : Alters (s.messageFor a.requestId d) a b) : InProgress r pre e (mid ++ [d]) t b := by
  obtain ⟨v, u, b₀, hv, hn, hlen, hu, hb₀, hr₀, hid, hrun, hhas⟩ := h.accepted
  refine ⟨hb, hab.request.trans h.request, v, u, b₀, hv, hn, hlen, hu, hb₀, hr₀,
    hid.trans hab.requestId.symm, ?_, ?_⟩
  · rw [runAll_append, hrun]
    exact (Option.bind_some ..).trans (by rw [runAll_cons, hd]; rfl)
  · rw [hab.requestId, messagesFor_snoc hrun]
    exact hab.has hhas

/-- The request in progress at the end of a run was accepted in it. -/
theorem inProgress_run : ∀ {es : List Event} {t : State} {a : Active},
    runAll step .init es = some t → t.active = some a →
      ∃ pre e mid, es = pre ++ e :: mid ∧ InProgress a.request pre e mid t a := by
  intro es
  induction es using List.reverseRecOn with
  | nil =>
    intro t a h ha
    cases h
    cases ha
  | append_singleton es d ih =>
    intro t b h hb
    rw [runAll_append, Option.bind_eq_some_iff] at h
    obtain ⟨s, hs, h⟩ := h
    rw [runAll_cons, Option.bind_eq_some_iff] at h
    obtain ⟨u, hu, h⟩ := h
    cases h
    rcases (step_own hu).1 b hb with hf | ⟨a, ha, hab⟩
    · refine ⟨es, d, [], rfl, hb, rfl, s, t, b, hs, hf.free, hf.request.symm, hu, hb, rfl, rfl, rfl,
        ?_⟩
      unfold Active.Has
      rw [if_neg (by rw [hf.overflowed]; exact nofun), hf.collected]
      rfl
    · obtain ⟨pre, e, mid, rfl, hp⟩ := ih hs ha
      refine ⟨pre, e, mid ++ [d], by rw [List.append_assoc]; rfl, ?_⟩
      rw [hab.request]
      exact hp.step hu hb hab

/-- In the run `es` the result `x` of the request `r` is what the request had collected of the
messages with its id when the line came that is its result. -/
def OwnResult (es : List Event) (r : Nat) (x : ProtocolResult) : Prop :=
  ∃ pre e mid c text disk post s a status count value error,
    es = pre ++ e :: mid ++ .line c text disk :: post ∧ InProgress r pre e mid s a ∧
    s.child = some c ∧
    (jsonParse text).bind isBridgeMessage = some (.result a.requestId status count value error) ∧
    x = protocolResult a status count value error

/-- **Requests do not mix**: in every run, the result of a resolved request is made of its own
messages. -/
theorem resolved_own {es : List Event} {t : State} {r : Nat} {x : ProtocolResult}
    (hrun : runAll step .init es = some t) (hx : t.requests[r]? = some (some (.resolved x))) :
    OwnResult es r x := by
  induction es using List.reverseRecOn generalizing t with
  | nil =>
    cases hrun
    cases hx
  | append_singleton es d ih =>
    rw [runAll_append, Option.bind_eq_some_iff] at hrun
    obtain ⟨s, hs, h⟩ := hrun
    rw [runAll_cons, Option.bind_eq_some_iff] at h
    obtain ⟨u, hu, h⟩ := h
    cases h
    rcases (step_own hu).2 r x hx with hx | ⟨c, text, disk, rfl, a, status, count, value, error, ha,
      hr, hc, hm, rfl⟩
    · obtain ⟨pre, e, mid, c, text, disk, post, v, a, status, count, value, error, rfl, h⟩ :=
        ih hs hx
      exact ⟨pre, e, mid, c, text, disk, post ++ [d], v, a, status, count, value, error,
        by simp only [List.append_assoc, List.cons_append], h⟩
    · obtain ⟨pre, e, mid, rfl, hp⟩ := inProgress_run hs ha
      exact ⟨pre, e, mid, c, text, disk, [], s, a, status, count, value, error, rfl, hr ▸ hp, hc,
        hm, rfl⟩

/-- A cell that prints, with a late line of another request in between. -/
def printedRun (disk : Disk) : List Event := startRun disk ++ [
  .execute (js "1") (js "x") (js "/") none, .resume 1 none,
  .line 0 (js ("\x7b\"type\":\"output\",\"request_id\":\"1\",\"kind\":\"stdout\"," ++
    "\"text\":\"hi\",\"continuation\":false,\"final\":true\x7d")) disk,
  .line 0 (js "\x7b\"type\":\"clear\",\"request_id\":\"0\"\x7d") disk,
  .line 0 (js "\x7b\"type\":\"result\",\"request_id\":\"1\",\"status\":\"ok\"\x7d") disk]

/-- The output of a resolved request. -/
def State.outputOfResult (s : State) (r : Nat) : Option JsStr :=
  (s.requests[r]?).join.bind fun x => match x with
    | .resolved x => some x.output
    | .rejected _ => none

theorem State.resolved_of_output {s : State} {r : Nat} {output : JsStr}
    (h : s.outputOfResult r = some output) :
    ∃ x, s.requests[r]? = some (some (.resolved x)) ∧ x.output = output := by
  unfold outputOfResult at h
  rcases hr : s.requests[r]? with _ | _ | x
  · rw [hr] at h
    cases h
  · rw [hr] at h
    cases h
  · rw [hr] at h
    cases x with
    | resolved x => exact ⟨x, rfl, Option.some.inj h⟩
    | rejected m => cases h

set_option maxRecDepth 8000 in
theorem resolved_own_printed :
    ∃ x, x.output = js "hi" ∧ OwnResult (printedRun ⟨.error [], none⟩) 0 x := by
  have hrun : (runAll step State.init (printedRun ⟨.error [], none⟩)).any (fun t =>
      t.outputOfResult 0 = some (js "hi")) = true := by decide +kernel
  obtain ⟨t, ht, h⟩ := (Option.any_eq_true _ _).mp hrun
  obtain ⟨x, hx, ho⟩ := State.resolved_of_output (of_decide_eq_true h)
  exact ⟨x, ho, resolved_own ht hx⟩

end PiIpython.Runtime
