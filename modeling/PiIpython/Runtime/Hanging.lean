import PiIpython.Runtime.Cases

/-!
# No request is left hanging

An accepted request is settled, in progress, or rejected once a termination is
over (`Ledger`, in every run). Being in progress is enough as long as something
can still settle it: its timer, or the bridge it was written to, which must not
have exited or be terminated (`accounted`). `noneHanging_iff_orderly` says in
which runs that is so for all requests.
-/

namespace PiIpython.Runtime

open Text

namespace State

variable (s : State)

def isSettled (r : Nat) : Bool := (s.requests[r]?).any (·.isSome)

/-- Something is left to settle the request, or it is settled. -/
def accounted (r : Nat) : Bool :=
  s.isSettled r ||
  s.active.any (fun a =>
    a.request = r && (a.timed || (! s.gone a.bridge && ! s.terminated a.bridge))) ||
  s.rejections.any (·.request = r)

/-- No accepted request is left hanging. -/
def NoneHanging : Prop := ∀ r < s.requests.length, s.accounted r = true

/-- A request without a timer is in progress on the bridge. -/
def untimed (c : BridgeId) : Bool := s.active.any fun a => ! a.timed && a.bridge = c

/-- The call is an `execute` whose request the next step accepts. -/
def sends (k : Nat) : Bool :=
  (s.calls[k]?).any fun x =>
    match x.kind, x.phase with
    | .execute .., .started => s.accepts x.signal
    | _, _ => false

/-- The steps that leave no request hanging: no bad `kernel_started` or `ready` line stops the
bridge of a request, no request is sent to a bridge that is being stopped, and no bridge that the
runtime has replaced ends under a request. -/
def Orderly (s : State) : Event → Prop
  | .line c text _ =>
    ¬ (s.lineKind c text = .refused ∧ s.stoppingPromise = none ∧ s.untimed c = true)
  | .resume k thrown =>
    ¬ (s.sends k = true ∧ thrown = none ∧ s.child.any s.terminated = true)
  | .error c _ => s.child = some c ∨ s.untimed c = false
  | .close c _ _ _ => s.child = some c ∨ s.untimed c = false
  | _ => True

instance (s : State) : ∀ e, Decidable (s.Orderly e)
  | .line .. => inferInstanceAs (Decidable (¬ _))
  | .resume .. => inferInstanceAs (Decidable (¬ _))
  | .error .. => inferInstanceAs (Decidable (_ ∨ _))
  | .close .. => inferInstanceAs (Decidable (_ ∨ _))
  | .start .. | .execute .. | .evaluate .. | .getConnectionFile .. | .shutdown | .abort .. | .uv ..
  | .listened .. | .stderr .. | .stdinError .. | .writeError .. | .exit .. | .startupTimeout ..
  | .timeout .. | .grace .. | .force .. | .giveUp .. | .reapTimer .. | .killTimer ..
  | .shutdownTimeout | .shutdownWriteError | .shutdownReapTimer .. | .runtimeReady ..
  | .startupFailed .. | .startupStopped .. | .startupReady .. | .startupDone .. | .reap ..
  | .terminated .. | .reject .. | .shutdownStarted | .shutdownStopped .. | .shutdownTerminated
  | .shutdownReap .. => isTrue trivial

end State

open State

/-! ## The requests -/

/-- **Every accepted request is settled, in progress, or waits for a termination**, and the one in
progress is neither settled nor waiting. -/
structure Ledger (s : State) : Prop where
  kept : ∀ {r : Nat}, r < s.requests.length → s.isSettled r = true ∨
    (∃ a, s.active = some a ∧ a.request = r) ∨ ∃ x ∈ s.rejections, x.request = r
  pending : ∀ {a : Active}, s.active = some a →
    s.requests[a.request]? = some none ∧ ∀ x ∈ s.rejections, x.request ≠ a.request
  queued : ∀ x ∈ s.rejections, x.request < s.requests.length

theorem ledger_init : Ledger State.init := ⟨by simp [State.init], by simp [State.init],
  by simp [State.init]⟩

theorem Ledger.congr {s t : State} (h : Ledger s) (hr : t.requests = s.requests)
    (hj : t.rejections = s.rejections)
    (ha : t.active.map (·.request) = s.active.map (·.request)) : Ledger t := by
  have hact : ∀ {a : Active}, t.active = some a → ∃ b, s.active = some b ∧ b.request = a.request := by
    intro a hta
    rw [hta] at ha
    exact Option.map_eq_some_iff.mp ha.symm
  refine ⟨fun {r} hlt => ?_, fun {a} hta => ?_, fun x hx => ?_⟩
  · rw [hr] at hlt
    rcases h.kept hlt with hs | ⟨a, hsa, rfl⟩ | hx
    · exact .inl (by rwa [State.isSettled, hr])
    · rw [hsa] at ha
      exact .inr (.inl (Option.map_eq_some_iff.mp ha))
    · exact .inr (.inr (by rwa [hj]))
  · obtain ⟨b, hb, he⟩ := hact hta
    rw [hr, hj, ← he]
    exact h.pending hb
  · rw [hr]
    exact h.queued x (by rwa [← hj])

theorem isSettled_iff {s : State} {r : Nat} :
    s.isSettled r = true ↔ ∃ x, s.requests[r]? = some (some x) := by
  rw [State.isSettled]
  rcases s.requests[r]? with _ | _ | x <;> simp

theorem isSettled_settle {s : State} {r q : Nat} {x : Settled} (hq : q < s.requests.length)
    (h : s.isSettled q = true ∨ q = r) : (s.settle r x).isSettled q = true := by
  rcases h with h | rfl
  · obtain ⟨y, hy⟩ := isSettled_iff.mp h
    exact isSettled_iff.mpr ⟨y, settle_settled hy⟩
  · exact isSettled_iff.mpr (settle_self hq)

/-- The request in progress is settled. -/
theorem Ledger.settleActive {s t : State} (h : Ledger s) {a : Active} {x : Settled}
    (ha : s.active = some a) (hr : t.requests = s.requests) (hj : t.rejections = s.rejections)
    (hn : t.active = none) : Ledger (t.settle a.request x) := by
  have hlen : (t.settle a.request x).requests.length = s.requests.length := by
    rw [settle_eq, List.length_modify, hr]
  refine ⟨fun {r} hlt => ?_, fun hta => ?_, fun y hy => ?_⟩
  · rw [hlen] at hlt
    have hset : ∀ {q : Nat}, s.isSettled q = true ∨ q = a.request → q < s.requests.length →
        (t.settle a.request x).isSettled q = true := fun hq hl =>
      isSettled_settle (by rwa [hr]) (hq.imp (by rw [State.isSettled, State.isSettled, hr]; exact id) id)
    rcases h.kept hlt with hs | ⟨b, hb, rfl⟩ | hx
    · exact .inl (hset (.inl hs) hlt)
    · cases ha.symm.trans hb
      exact .inl (hset (.inr rfl) hlt)
    · exact .inr (.inr (by rw [settle_eq]; rwa [← hj] at hx))
  · cases hn.symm.trans hta
  · rw [hlen]
    exact h.queued y (by rw [settle_eq] at hy; rwa [← hj])

theorem Ledger.failActive {s : State} (h : Ledger s) (m : JsStr) : Ledger (s.failActive m) := by
  rcases s.failActive_cases m with ⟨-, he⟩ | ⟨a, ha, he⟩
  · rw [he]; exact h
  · rw [he]; exact h.settleActive ha rfl rfl rfl

theorem Ledger.kill {s : State} (h : Ledger s) : Ledger s.kill :=
  h.congr (by simp) (by simp) (by simp)

theorem Ledger.rejectReady {s : State} (h : Ledger s) (e : JsStr) : Ledger (s.rejectReady e) := by
  obtain ⟨w, l, -, he⟩ := s.rejectReady_eq e
  rw [he]; exact h.congr rfl rfl rfl

/-- A request is accepted. -/
theorem Ledger.accept {s : State} (h : Ledger s) (hn : s.active = none) {a : Active}
    (ha : a.request = s.requests.length) : Ledger (s.accept a) := by
  refine ⟨fun {r} hlt => ?_, fun {b} hb => ?_, fun x hx => ?_⟩
  · have hlt : r < s.requests.length + 1 := by simpa [State.accept] using hlt
    rcases Nat.lt_succ_iff_lt_or_eq.mp hlt with hlt | rfl
    · rcases h.kept hlt with hs | ⟨b, hb, -⟩ | hx
      · refine .inl ?_
        change ((s.requests ++ [none])[r]?).any _ = true
        rwa [List.getElem?_append_left hlt]
      · cases hn.symm.trans hb
      · exact .inr (.inr hx)
    · exact .inr (.inl ⟨a, rfl, ha⟩)
  · obtain rfl : a = b := Option.some.inj hb
    refine ⟨?_, fun x hx he => ?_⟩
    · change (s.requests ++ [none])[a.request]? = _
      rw [ha, List.getElem?_concat_length]
    · have := h.queued x hx
      omega
  · have := h.queued x hx
    change _ < (s.requests ++ [none]).length
    rw [List.length_append]
    exact Nat.lt_add_right _ this

/-- A request is accepted and fails at once. -/
theorem Ledger.acceptFailed {s t : State} (h : Ledger s) {x : Settled}
    (hr : t.requests = s.requests ++ [some x]) (hj : t.rejections = s.rejections)
    (ha : t.active = s.active) : Ledger t := by
  have hget : ∀ {r : Nat}, r < s.requests.length → t.requests[r]? = s.requests[r]? := fun hlt => by
    rw [hr, List.getElem?_append_left hlt]
  refine ⟨fun {r} hlt => ?_, fun {a} hta => ?_, fun y hy => ?_⟩
  · rw [hr, List.length_append, List.length_singleton] at hlt
    rcases Nat.lt_succ_iff_lt_or_eq.mp hlt with hlt | rfl
    · rw [State.isSettled, hget hlt, ha, hj]
      exact h.kept hlt
    · exact .inl (isSettled_iff.mpr ⟨x, by rw [hr, List.getElem?_concat_length]⟩)
  · rw [ha] at hta
    obtain ⟨h1, h2⟩ := h.pending hta
    rw [hget (List.getElem?_eq_some_iff.mp h1).1, hj]
    exact ⟨h1, h2⟩
  · rw [hr, List.length_append]
    exact Nat.lt_add_right _ (h.queued y (by rwa [← hj]))

theorem Ledger.request {s : State} (h : Ledger s) (m : BridgeRequest) (g : Signal) (r : JsStr)
    (t thrown : Option JsStr) : Ledger (s.request m g r t thrown).1 := by
  rcases s.request_cases m g r t thrown with ⟨-, e, he⟩ | ⟨c, -, -, hn, -, ⟨-, l, he⟩ | ⟨-, e, x, he⟩⟩
  · rw [he]; exact h
  · have ha := h.accept hn (a := s.newActive m c g r t) rfl
    rw [he]; exact ha.congr rfl rfl rfl
  · rw [he]; exact Ledger.kill (h.acceptFailed rfl rfl rfl)

/-- The request in progress goes to the rejections. -/
theorem Ledger.postpone {s t : State} (h : Ledger s) {a : Active} (ha : s.active = some a)
    {x : Rejection} (hx : x.request = a.request) (hr : t.requests = s.requests)
    (hj : t.rejections = s.rejections ++ [x]) (hn : t.active = none) : Ledger t := by
  refine ⟨fun {r} hlt => ?_, fun hta => ?_, fun y hy => ?_⟩
  · rw [hr] at hlt
    rcases h.kept hlt with hs | ⟨b, hb, rfl⟩ | ⟨y, hy, hyr⟩
    · exact .inl (by rwa [State.isSettled, hr])
    · cases ha.symm.trans hb
      exact .inr (.inr ⟨x, by simp [hj], hx⟩)
    · exact .inr (.inr ⟨y, by simp [hj, hy], hyr⟩)
  · cases hn.symm.trans hta
  · rw [hr]
    rw [hj, List.mem_append, List.mem_singleton] at hy
    rcases hy with hy | rfl
    · exact h.queued y hy
    · rw [hx]
      exact (List.getElem?_eq_some_iff.mp (h.pending ha).1).1

/-- The termination that a rejection waits for is over. -/
theorem Ledger.reject {s : State} (h : Ledger s) {x : Rejection} (hx : x ∈ s.rejections) :
    Ledger ({ s with rejections := s.rejections.filter (·.request ≠ x.request) }.settle x.request
      (.rejected x.message)) := by
  have hmem : ∀ {y : Rejection}, y ∈ s.rejections.filter (·.request ≠ x.request) ↔
      y ∈ s.rejections ∧ y.request ≠ x.request := by simp
  refine ⟨fun {r} hlt => ?_, fun {a} ha => ?_, fun y hy => ?_⟩
  · have hlt : r < s.requests.length := by simpa [settle_eq] using hlt
    by_cases hr : r = x.request
    · exact .inl (isSettled_settle hlt (.inr hr))
    · rcases h.kept hlt with hs | ha | ⟨y, hy, rfl⟩
      · exact .inl (isSettled_settle hlt (.inl hs))
      · exact .inr (.inl ha)
      · exact .inr (.inr ⟨y, hmem.mpr ⟨hy, hr⟩, rfl⟩)
  · obtain ⟨h1, h2⟩ := h.pending ha
    refine ⟨?_, fun y hy => h2 y (hmem.mp hy).1⟩
    change (s.requests.modify x.request _)[a.request]? = _
    rw [List.getElem?_modify_ne _ _ (h2 x hx), h1]
  · have := h.queued y (hmem.mp hy).1
    simpa [settle_eq] using this

theorem Ledger.kept' {s t : State} (h : Ledger s) (hk : Kept s t) : Ledger t := by
  refine h.congr hk.requests hk.rejections ?_
  have := hk.active
  generalize s.active = x at this
  generalize t.active = y at this
  cases this with
  | none => rfl
  | some hk => exact congrArg some hk.request

theorem Ledger.handleExit {s : State} (h : Ledger s) (c : BridgeId) (r : JsStr) :
    Ledger (s.handleExit c r) := by
  have hl : Ledger s.lose := h.congr rfl rfl rfl
  rcases s.handleExit_cases c r with ⟨-, he⟩ | ⟨-, e, ⟨-, he⟩ | ⟨-, l, k, m, he⟩⟩
  · rw [he]; exact h
  · rw [he]; exact hl.rejectReady e
  · have hu : Ledger { s.lose.rejectReady e with
        log := l
        killTimers := k
        pendingResetNotice := s.pendingResetNotice || s.ready } :=
      (hl.rejectReady e).congr rfl rfl rfl
    rw [he]; exact hu.failActive m

theorem Ledger.abortListeners {s : State} (h : Ledger s) (fires : Signal → Bool) :
    Ledger (s.abortListeners fires) := by
  obtain ⟨w, l, -, ⟨-, he⟩ | ⟨a, -, -, he⟩⟩ := s.abortListeners_cases fires
  · rw [he]; exact h.congr rfl rfl rfl
  · have hu : Ledger { s with readyWaiter := w, startups := l } := h.congr rfl rfl rfl
    rw [he]; exact hu.kept' (kept_interrupt _ _ _)

/-- **Every step keeps the requests accounted for**. -/
theorem Ledger.change {s t : State} {e : Event} (h : Ledger s) (hc : Change s e t) : Ledger t := by
  cases hc with
  | aside ha => exact h.congr ha.requests ha.rejections (by rw [ha.active])
  | line _ hl =>
    cases hl with
    | kept hk => exact h.kept' hk
    | lost e m => exact Ledger.kill (((h.rejectReady e).failActive m).congr rfl rfl rfl)
    | refused e => exact (h.rejectReady e).kill
    | announced g f =>
      obtain ⟨w, l, -, he⟩ := resolveReady_eq { s with
        kernelPgid := some g, kernelConnectionFile := some f, ready := true
        generation := s.generation + 1 }
      rw [he]; exact h.congr rfl rfl rfl
    | bridgeError ha m =>
      exact Ledger.kill (h.settleActive (t := { s with active := none, pendingResetNotice := true })
        ha rfl rfl rfl)
    | result ha x => exact h.settleActive (t := { s with active := none }) ha rfl rfl rfl
  | evaluate expression ms signal thrown id reason limit =>
    exact Ledger.request (s := { s with evaluateIndex := s.evaluateIndex + 1 })
      (h.congr rfl rfl rfl) _ _ _ _ _
  | @execute k g id code cwd thrown hx =>
    rcases s.executeStarted_cases k ⟨.execute id code cwd, g, .started⟩ id code cwd thrown with
      ⟨-, e, he⟩ | ⟨c, -, -, hn, -, ⟨-, l, he⟩ | ⟨-, e, m, he⟩⟩
    · rw [he]; exact h.congr rfl rfl rfl
    · have ha := h.accept hn (a := s.newActive (.execute id code cwd) c g
        (js "IPython execution cancelled") none) rfl
      rw [he]; exact ha.congr rfl rfl rfl
    · have ha := h.acceptFailed (t := { s with
        requests := s.requests ++ [some (.rejected m)]
        stderr := e
        pendingResetNotice := true }) rfl rfl rfl
      rw [he]; exact ha.kill.congr rfl rfl rfl
  | abort σ =>
    exact Ledger.abortListeners (s := { s with aborted := σ :: s.aborted }) (h.congr rfl rfl rfl) _
  | dispose p =>
    have hd := Ledger.abortListeners (s := { s with disposed := true }) (h.congr rfl rfl rfl)
      fun g => g.lifecycle && ! s.isAborted g
    exact hd.congr rfl rfl rfl
  | spawn hx => exact h.congr rfl rfl rfl
  | unspawned hx => exact h.congr rfl rfl rfl
  | @stdin e d reason l m hd he =>
    have hn : Ledger ({ s with stderr := l }.noteReset) := h.congr rfl rfl rfl
    exact (hn.failActive m).kill
  | startupFailed hx after => exact h.kill.congr rfl rfl rfl
  | startupTimeout sid m =>
    obtain ⟨w, l, -, he⟩ := s.finishStartup_eq sid fun _ => .failed m
    rw [he]; exact h.congr rfl rfl rfl
  | @timeout a reason ha ht =>
    have hu : Ledger { s with active := some { a with timeout := none } } :=
      h.congr rfl rfl (by rw [ha]; rfl)
    exact hu.kept' (kept_interrupt _ _ _)
  | @grace a ha hi after m =>
    exact h.postpone ha (x := ⟨after, a.request, m⟩) rfl (by simp) (by simp) (by simp)
  | reject hx => exact h.reject hx
  | closing he hc hs p l => exact h.congr rfl rfl rfl
  | shutdownKill he hs b p q =>
    have hu : Ledger { s with stopping := b, shutdown := p } := h.congr rfl rfl rfl
    exact hu.kill.congr rfl rfl rfl
  | error c m reason =>
    have hu : Ledger { s with bridges := s.bridges.modify c fun b => { b with failed := true } } :=
      h.congr rfl rfl rfl
    exact hu.handleExit c reason
  | close hf c code signal alive reason l hp =>
    have hu : Ledger { s with bridges := s.bridges.modify c fun b => { b with closed := true } } :=
      h.congr rfl rfl rfl
    exact (hu.handleExit c reason).congr rfl rfl rfl

/-! ## The bridge of the request in progress -/

theorem untimed_iff {s : State} {c : BridgeId} : s.untimed c = true ↔
    ∃ a, s.active = some a ∧ a.timed = false ∧ a.bridge = c := by
  rw [State.untimed]
  cases s.active <;> simp

/-- **What keeps the request in progress alive**: it is interrupted when its signal is aborted, and
without a timer it is on a bridge that has not ended and is not being stopped. A startup that waits
or just failed is about another bridge, unless a termination is in the way. -/
structure Guarded (s : State) : Prop where
  joined : ∀ x ∈ s.calls, x.joined = true
  lifecycle : ∀ {a : Active}, s.active = some a → a.signal.lifecycle = true
  interrupted : ∀ {a : Active}, s.active = some a → s.isAborted a.signal = true →
    a.interrupt.isSome = true
  known : ∀ {c : BridgeId}, s.untimed c = true →
    c < s.bridges.length ∧ s.gone c = false ∧ s.terminated c = false
  expected : ∀ {c : BridgeId}, s.stopping = true → s.child = some c →
    s.terminated c = true ∨ s.disposed = true
  idle : s.shutdown ≠ .idle → s.disposed = true
  waiting : ∀ {i : Nat} {g : Signal} {d c : BridgeId}, s.startups[i]? = some ⟨g, .waiting d⟩ →
    s.untimed c = true → s.child ≠ some c
  failed : ∀ {i : Nat} {g : Signal} {m : JsStr} {c : BridgeId},
    s.startups[i]? = some ⟨g, .failed m⟩ → s.untimed c = true → s.child = some c → s.Held

theorem guarded_init : Guarded State.init :=
  ⟨by simp [State.init], by simp [State.init], by simp [State.init],
    by simp [State.untimed, State.init], by simp [State.init], by simp [State.init],
    by simp [State.init], by simp [State.init]⟩

/-- After `shutdown` every request in progress has a timer. -/
theorem Guarded.untimed_of_disposed {s : State} (h : Guarded s) (hd : s.disposed = true)
    (c : BridgeId) : s.untimed c = false := by
  rw [Bool.eq_false_iff]
  intro hu
  obtain ⟨a, ha, ht, -⟩ := untimed_iff.mp hu
  have hi := h.interrupted ha (by simp [State.isAborted, h.lifecycle ha, hd])
  rw [Active.timed, hi, Bool.or_true] at ht
  cases ht

/-- Nothing to guard while the request in progress, if any, has an interrupt. -/
theorem Guarded.of_interrupted {s : State}
    (ha : ∀ {a : Active}, s.active = some a → a.signal.lifecycle = true ∧ a.interrupt.isSome = true)
    (hj : ∀ x ∈ s.calls, x.joined = true)
    (he : ∀ {c : BridgeId}, s.stopping = true → s.child = some c →
      s.terminated c = true ∨ s.disposed = true)
    (hi : s.shutdown ≠ .idle → s.disposed = true) : Guarded s := by
  have hu : ∀ {c : BridgeId}, s.untimed c ≠ true := by
    intro c hc
    obtain ⟨a, hs, ht, -⟩ := untimed_iff.mp hc
    rw [Active.timed, (ha hs).2, Bool.or_true] at ht
    cases ht
  exact ⟨hj, fun hs => (ha hs).1, fun hs _ => (ha hs).2, fun hc => absurd hc hu, he, hi,
    fun _ hc => absurd hc hu, fun _ hc => absurd hc hu⟩

theorem Guarded.of_none {s : State} (hn : s.active = none) (hj : ∀ x ∈ s.calls, x.joined = true)
    (he : ∀ {c : BridgeId}, s.stopping = true → s.child = some c →
      s.terminated c = true ∨ s.disposed = true)
    (hi : s.shutdown ≠ .idle → s.disposed = true) : Guarded s :=
  Guarded.of_interrupted (by simp [hn]) hj he hi

theorem State.Kept.untimed {s t : State} (h : Kept s t) {c : BridgeId} (hu : t.untimed c = true) :
    s.untimed c = true := by
  obtain ⟨b, hb, ht, hc⟩ := untimed_iff.mp hu
  have hrel := h.active
  rw [hb] at hrel
  generalize hx : s.active = x at hrel
  cases hrel with
  | @some a _ hk =>
    refine untimed_iff.mpr ⟨a, hx, ?_, hk.bridge ▸ hc⟩
    rw [Bool.eq_false_iff]
    intro ha
    rw [hk.timed ha] at ht
    cases ht

theorem Guarded.kept {s t : State} (h : Guarded s) (hk : Kept s t) : Guarded t := by
  have he := hk.skeleton
  simp only [skeleton, Skeleton.mk.injEq] at he
  obtain ⟨h1, -, -, -, h5, h6, h7, h8⟩ := he
  have hact : ∀ {b : Active}, t.active = some b → ∃ a, s.active = some a ∧ Keeps a b := by
    intro b hb
    have hrel := hk.active
    rw [hb] at hrel
    generalize s.active = x at hrel
    cases hrel with
    | @some a _ hab => exact ⟨a, rfl, hab⟩
  have hgone : ∀ c, t.gone c = s.gone c := fun c => by rw [State.gone, h6]; rfl
  have hterm : ∀ c, t.terminated c = s.terminated c := fun c => by rw [State.terminated, h6]; rfl
  refine ⟨by rw [hk.calls]; exact h.joined, fun hb => ?_, fun hb hg => ?_, fun hu => ?_,
    fun hs hc => ?_, fun hs => ?_, fun hx hu => ?_, fun hx hu hc => ?_⟩
  · obtain ⟨a, ha, hab⟩ := hact hb
    rw [hab.signal]
    exact h.lifecycle ha
  · obtain ⟨a, ha, hab⟩ := hact hb
    refine hab.interrupt (h.interrupted ha ?_)
    rwa [hab.signal, State.isAborted, hk.aborted, hk.disposed] at hg
  · rw [h6, hgone, hterm]
    exact h.known (hk.untimed hu)
  · rw [hterm, hk.disposed]
    exact h.expected (by rwa [← hk.stopping]) (by rwa [← h1])
  · rw [hk.disposed]
    exact h.idle (by rwa [← hk.shutdown])
  · rw [h1]
    exact h.waiting (by rwa [← h7]) (hk.untimed hu)
  · have hh := h.failed (by rwa [← h7]) (hk.untimed hu) (by rwa [← h1])
    simpa only [Held, h5, h8] using hh

theorem Guarded.aside {s t : State} (h : Guarded s) (ha : Aside s t) : Guarded t := by
  have hu : ∀ {c : BridgeId}, t.untimed c = true → s.untimed c = true := fun {c} hu => by
    rwa [State.untimed, ha.active] at hu
  refine ⟨ha.joined h.joined, fun hb => h.lifecycle (by rwa [← ha.active]), fun hb hg => ?_,
    fun hc => ?_, fun hs hc => ?_, fun hs => ?_, fun hx hc => ?_, fun hx hc hd => ?_⟩
  · refine h.interrupted (by rwa [← ha.active]) ?_
    rwa [State.isAborted, ha.aborted, ha.disposed] at hg
  · rw [ha.bridges, ha.gone, ha.terminated]
    exact h.known (hu hc)
  · rw [ha.terminated, ha.disposed]
    exact h.expected (by rwa [← ha.stopping]) (by rwa [← ha.child])
  · rw [ha.disposed]
    exact h.idle (ha.idle hs)
  · rw [ha.child]
    rcases ha.startup hx with hx | hx | ⟨hx, -⟩
    · exact h.waiting hx (hu hc)
    · cases hx
    · cases hx
  · rcases ha.startup hx with hs | hs | ⟨hs, -⟩
    · exact (ha.held (h.failed hs (hu hc) (by rwa [← ha.child]))).resolve_left
        fun hf => hf _ _ _ hx
    · cases hs
    · cases hs

/-- Startups stop waiting for the bridge. -/
theorem Guarded.ended {s : State} (h : Guarded s) {f : BridgeId → StartupPhase} {l : List Startup}
    {w : Option Nat} (hl : s.Ended f w l) (hf : ∀ c d, f c ≠ .waiting d) :
    Guarded { s with readyWaiter := w, startups := l } := by
  refine ⟨h.joined, h.lifecycle, h.interrupted, h.known, h.expected, h.idle, fun {i g d c} hx hu => ?_,
    fun {i g m c} hx hu hc => ?_⟩
  · rcases hl.startup hx with hx | ⟨c', -, hp⟩
    · exact h.waiting hx hu
    · exact absurd hp.symm (hf c' d)
  · rcases hl.startup hx with hx | ⟨c', hx, -⟩
    · exact h.failed hx hu hc
    · exact absurd hc (h.waiting hx hu)

/-- The bridge is stopped, unless a request without a timer is in progress on it. -/
theorem Guarded.kill {s : State} (h : Guarded s)
    (hl : ∀ {c : BridgeId}, s.child = some c → c < s.bridges.length)
    (hu : ∀ {c : BridgeId}, s.untimed c = true → s.child = some c → s.stoppingPromise ≠ none) :
    Guarded s.kill := by
  rcases s.terminate_cases with ⟨t, -, ht⟩ | ⟨-, -, ht⟩ | ⟨d, l, hs, hd, ht⟩
  · rw [State.kill, ht]; exact h
  · rw [State.kill, ht]; exact h
  · rw [State.kill, ht]
    have hne : ∀ {c : BridgeId}, s.untimed c = true → d ≠ c := fun hc he =>
      hu hc (he ▸ hd) hs
    refine ⟨h.joined, h.lifecycle, h.interrupted, fun {c} hc => ?_, fun {c} _ hc => .inl ?_, h.idle,
      h.waiting, fun hx hc he => absurd (Option.some.inj (hd.symm.trans he)) (hne hc)⟩
    · obtain ⟨h1, h2, h3⟩ := h.known hc
      refine ⟨by rwa [List.length_modify], ?_, ?_⟩
      · exact (gone_modify (f := fun b => { b with terminated := true }) fun b => rfl).trans h2
      · change ((s.bridges.modify d _)[c]?).any _ = false
        rw [terminated_modify]
        exact Bool.or_eq_false_iff.mpr ⟨h3, by simp [hne hc]⟩
    · obtain rfl : d = c := Option.some.inj (hd.symm.trans hc)
      change ((s.bridges.modify d _)[d]?).any _ = true
      rw [terminated_modify]
      simp [hl hd]

/-- A request is accepted on the ready bridge; one without a timer only when it is not being
stopped. -/
theorem Guarded.accept {s : State} (h : Guarded s) (hs : Shape s) {a : Active}
    (hc : s.child = some a.bridge) (hr : s.ready = true) (hg : s.isAborted a.signal = false)
    (hj : a.signal.lifecycle = true) (ht : a.timed = true ∨ s.terminated a.bridge = false) :
    Guarded (s.accept a) := by
  have hu : ∀ {c : BridgeId}, (s.accept a).untimed c = true → a.bridge = c ∧ a.timed = false := by
    intro c hc
    obtain ⟨b, hb, hbt, hbc⟩ := untimed_iff.mp hc
    cases hb
    exact ⟨hbc, hbt⟩
  have hterm : a.timed = false → s.terminated a.bridge = false := fun hf =>
    ht.resolve_left (by simp [hf])
  refine ⟨h.joined, fun hb => ?_, fun hb hab => ?_, fun hc => ?_, h.expected, h.idle,
    fun hx hc => ?_, fun hx hc _ => ?_⟩
  · cases hb; exact hj
  · cases hb
    cases hg.symm.trans hab
  · obtain ⟨rfl, hf⟩ := hu hc
    obtain ⟨h1, h2⟩ := hs.child ‹s.child = some a.bridge›
    exact ⟨h1, h2, hterm hf⟩
  · cases hr.symm.trans (hs.waiting hx).2
  · obtain ⟨rfl, hf⟩ := hu hc
    refine (hs.failed hx).resolve_right fun hn => ?_
    rcases hn _ ‹s.child = some a.bridge› with hn | hn
    · cases (hterm hf).symm.trans hn
    · cases hr.symm.trans hn

/-- The end of a bridge, which is the runtime's own or has no request without a timer. -/
theorem Guarded.bridgeEnds {s : State} (h : Guarded s) {c : BridgeId}
    (hc : s.child = some c ∨ s.untimed c = false) (reason : JsStr) {f : Bridge → Bridge}
    (hf : ∀ b, (f b).terminated = b.terminated) : Guarded (s.bridgeEnds c reason f) := by
  have hterm : ∀ {d : BridgeId}, ({ s with bridges := s.bridges.modify c f } : State).terminated d =
      s.terminated d := fun {d} => by
    change ((s.bridges.modify c f)[d]?).any _ = ((s.bridges)[d]?).any _
    rw [List.getElem?_modify]
    split <;> cases s.bridges[d]? <;> simp [hf]
  -- a request without a timer survives the end of another bridge only
  have hother : ∀ {d : BridgeId}, s.untimed d = true → d ≠ c → d < (s.bridges.modify c f).length ∧
      ({ s with bridges := s.bridges.modify c f } : State).gone d = false ∧
      ({ s with bridges := s.bridges.modify c f } : State).terminated d = false := by
    intro d hd hne
    obtain ⟨h1, h2, h3⟩ := h.known hd
    refine ⟨by rwa [List.length_modify], ?_, hterm.trans h3⟩
    change ((s.bridges.modify c f)[d]?).any _ = false
    rw [List.getElem?_modify_ne _ _ hne.symm]
    exact h2
  have hne : s.untimed c = false → ∀ {d : BridgeId}, s.untimed d = true → d ≠ c := by
    rintro hn d hd rfl
    cases hn.symm.trans hd
  unfold State.bridgeEnds
  rcases handleExit_cases { s with bridges := s.bridges.modify c f } c reason with
    ⟨hn, he⟩ | ⟨hn, e, ⟨hs, he⟩ | ⟨-, l, k, m, he⟩⟩
  · rw [he]
    have hnot : s.untimed c = false := hc.resolve_left hn
    exact ⟨h.joined, h.lifecycle, h.interrupted, fun hd => hother hd (hne hnot hd),
      fun hs hd => hterm.symm ▸ h.expected hs hd, h.idle, h.waiting, h.failed⟩
  · rw [he]
    have hd : s.untimed c = false := by
      rw [Bool.eq_false_iff]
      intro hu
      rcases h.expected hs hn with ht | hd
      · rw [(h.known hu).2.2] at ht
        cases ht
      · rw [h.untimed_of_disposed hd c] at hu
        cases hu
    have hl : Guarded ({ s with bridges := s.bridges.modify c f } : State).lose :=
      ⟨h.joined, h.lifecycle, h.interrupted, fun hu => hother hu (hne hd hu),
        by simp [State.lose], h.idle, by simp [State.lose], by simp [State.lose]⟩
    obtain ⟨w, l, hl', hr⟩ := rejectReady_eq ({ s with bridges := s.bridges.modify c f } : State).lose e
    rw [hr]
    exact hl.ended hl' (by simp)
  · rw [he]
    refine Guarded.of_none (failActive_active _ _) ?_ ?_ ?_
    all_goals
      obtain ⟨w, l', -, hr⟩ := rejectReady_eq ({ s with bridges := s.bridges.modify c f } : State).lose e
      rw [hr]
      rcases failActive_cases _ m with ⟨-, hm⟩ | ⟨a, -, hm⟩ <;> rw [hm]
    · exact h.joined
    · exact h.joined
    · exact fun hs => by cases hs
    · exact fun hs => by cases hs
    · exact h.idle
    · exact h.idle

/-- The request in progress is interrupted. -/
theorem Guarded.interrupt {s : State} {a : Active} (ha : s.active = some a)
    (hl : a.signal.lifecycle = true) (hj : ∀ x ∈ s.calls, x.joined = true)
    (he : ∀ {c : BridgeId}, s.stopping = true → s.child = some c →
      s.terminated c = true ∨ s.disposed = true)
    (hi : s.shutdown ≠ .idle → s.disposed = true) (reason : JsStr) (overflow : Bool) :
    Guarded (s.interrupt reason overflow) := by
  have hk := s.kept_interrupt reason overflow
  have hs := hk.skeleton
  simp only [skeleton, Skeleton.mk.injEq] at hs
  obtain ⟨b, hb, hab, hbi⟩ := interrupt_interrupted ha reason overflow
  refine Guarded.of_interrupted (fun {b'} hb' => ?_) (by rwa [hk.calls]) (fun {c} h1 h2 => ?_)
    fun h1 => ?_
  · cases hb.symm.trans hb'
    exact ⟨by rw [hab.signal]; exact hl, hbi⟩
  · rw [State.terminated, hs.2.2.2.2.2.1, hk.disposed]
    exact he (by rwa [← hk.stopping]) (by rwa [← hs.1])
  · rw [hk.disposed]
    exact hi (by rwa [← hk.shutdown])

/-- An abort interrupts the request in progress when the signal is its own. -/
theorem Guarded.abortListeners {s : State} (h : Guarded s) {l : List SignalId} {d : Bool}
    {f : Signal → Bool} (hd : s.disposed = true → d = true)
    (hf : ∀ g, State.isAborted { s with aborted := l, disposed := d } g = true →
      s.isAborted g = true ∨ f g = true) :
    Guarded (State.abortListeners { s with aborted := l, disposed := d } f) := by
  have hexp : ∀ {c : BridgeId}, s.stopping = true → s.child = some c →
      s.terminated c = true ∨ d = true := fun h1 h2 => (h.expected h1 h2).imp id hd
  obtain ⟨w, k, hk, ⟨hn, he⟩ | ⟨a, ha, -, he⟩⟩ :=
    State.abortListeners_cases { s with aborted := l, disposed := d } f
  · have hu : Guarded { s with aborted := l, disposed := d } := by
      refine ⟨h.joined, h.lifecycle, fun {a} ha hg => h.interrupted ha ?_, h.known, hexp,
        fun hi => hd (h.idle hi), h.waiting, h.failed⟩
      have hna : (! f a.signal) = true := by
        have ha : s.active = some a := ha
        simpa [ha] using hn
      exact (hf _ hg).resolve_right (by simpa using hna)
    rw [he]
    exact hu.ended hk (by simp)
  · rw [he]
    exact Guarded.interrupt (s := { s with
      aborted := l, disposed := d, readyWaiter := w, startups := k }) ha (h.lifecycle ha) h.joined
      hexp (fun hi => hd (h.idle hi)) _ _

/-- What holds after the request in progress failed and the bridge is stopped. -/
theorem Guarded.failKill {s u : State} (h : Guarded s) (hs : Shape s) (hn : u.active = none)
    (hc : u.child = s.child) (hb : u.bridges = s.bridges) (hj : u.calls = s.calls)
    (ht : u.stopping = s.stopping) (hd : u.disposed = s.disposed) (hi : u.shutdown = s.shutdown) :
    Guarded u.kill := by
  have hu : Guarded u := by
    refine Guarded.of_none hn (by rw [hj]; exact h.joined) (fun {c} h1 h2 => ?_) fun h1 => ?_
    · rw [State.terminated, hb, hd]
      exact h.expected (by rwa [← ht]) (by rwa [← hc])
    · rw [hd]
      exact h.idle (by rwa [← hi])
  refine hu.kill (fun hd => ?_) fun hc => ?_
  · rw [hb]
    exact (hs.child (by rwa [← hc])).1
  · rw [State.untimed, hn] at hc
    cases hc

/-- A startup goes on to a phase that says nothing about the bridge. -/
theorem Guarded.setStartup {s : State} (h : Guarded s) (sid : Nat) {y : Startup}
    (hw : ∀ c, y.phase ≠ .waiting c) (hf : ∀ m, y.phase ≠ .failed m) :
    Guarded (s.setStartup sid y) := by
  have hget : ∀ {i : Nat} {z : Startup}, (s.startups.set sid y)[i]? = some z →
      z = y ∨ s.startups[i]? = some z := by
    intro i z hz
    rw [List.getElem?_set] at hz
    split at hz
    · split at hz
      · exact .inl (Option.some.inj hz).symm
      · cases hz
    · exact .inr hz
  refine ⟨h.joined, h.lifecycle, h.interrupted, h.known, h.expected, h.idle, fun hx hu => ?_,
    fun hx hu hc => ?_⟩
  · rcases hget hx with he | hx
    · exact absurd (congrArg Startup.phase he).symm (hw _)
    · exact h.waiting hx hu
  · rcases hget hx with he | hx
    · exact absurd (congrArg Startup.phase he).symm (hf _)
    · exact h.failed hx hu hc

theorem Guarded.setCall {s : State} (h : Guarded s) {k : Nat} {x : Call} (hx : x.joined = true)
    (p : CallPhase) : Guarded (s.setCall k { x with phase := p }) := by
  refine ⟨fun y hy => ?_, h.lifecycle, h.interrupted, h.known, h.expected, h.idle, h.waiting,
    h.failed⟩
  rcases List.mem_or_eq_of_mem_set hy with hy | rfl
  · exact h.joined y hy
  · exact hx

/-- The bridge of a startup is spawned. -/
theorem Guarded.spawn {s : State} (h : Guarded s) (sid : Nat) (g : Signal) :
    Guarded (s.spawn sid g) := by
  have hget : ∀ {c : BridgeId}, c < s.bridges.length →
      (s.bridges ++ [Bridge.spawned])[c]? = s.bridges[c]? := fun hc =>
    List.getElem?_append_left hc
  have hne : ∀ {c : BridgeId}, s.untimed c = true → some s.bridges.length ≠ some c := by
    intro c hu he
    have hlt := (h.known hu).1
    cases he
    exact absurd hlt (lt_irrefl _)
  refine ⟨h.joined, h.lifecycle, h.interrupted, fun {c} hu => ?_, by simp [State.spawn, State.setStartup, State.emit],
    h.idle, fun _ hu => hne hu, fun _ hu hc => absurd hc (hne hu)⟩
  obtain ⟨h1, h2, h3⟩ := h.known hu
  refine ⟨(List.length_append ▸ Nat.lt_add_right 1 h1 : c < (s.bridges ++ [_]).length), ?_, ?_⟩
  · change ((s.bridges ++ [Bridge.spawned])[c]?).any _ = false
    rw [hget h1]; exact h2
  · change ((s.bridges ++ [Bridge.spawned])[c]?).any _ = false
    rw [hget h1]; exact h3

/-- Once disposed, the bridge may be stopped whatever is in progress. -/
theorem Guarded.stopping {s : State} (h : Guarded s) (hs : s.shutdown ≠ .idle) (b : Bool)
    (p : ShutdownPhase) (l : List Effect) :
    Guarded { s with stopping := b, shutdown := p, log := l } :=
  ⟨h.joined, h.lifecycle, h.interrupted, h.known, fun _ _ => .inr (h.idle hs), fun _ => h.idle hs,
    h.waiting, h.failed⟩

/-- **The step lemma**: an orderly step keeps the request in progress alive. -/
theorem Guarded.change {s t : State} {e : Event} (h : Guarded s) (hs : Shape s)
    (ho : s.Orderly e) (hc : Change s e t) : Guarded t := by
  have hlen : ∀ {c : BridgeId}, s.child = some c → c < s.bridges.length := fun hc => (hs.child hc).1
  cases hc with
  | aside ha => exact h.aside ha
  | @line c text disk k _ hk hl =>
    cases hl with
    | kept hk => exact h.kept hk
    | lost e m =>
      obtain ⟨w, l, -, he⟩ := s.rejectReady_eq e
      rw [he]
      rcases failActive_cases { s with readyWaiter := w, startups := l } m with
        ⟨hn, hm⟩ | ⟨a, -, hm⟩
      · rw [hm]; exact h.failKill hs hn rfl rfl rfl rfl rfl rfl
      · rw [hm]; exact h.failKill hs rfl rfl rfl rfl rfl rfl rfl
    | refused e =>
      obtain ⟨w, l, hl, he⟩ := s.rejectReady_eq e
      rw [he]
      refine (h.ended hl (by simp)).kill hlen fun {d} hu hd hn => ?_
      have hne : s.lineKind c text ≠ .other := by rw [hk]; simp
      have hc := child_of_lineKind hne
      obtain rfl : c = d := Option.some.inj (hc.symm.trans hd)
      exact ho ⟨hk, hn, hu⟩
    | announced g f =>
      have hu : Guarded { s with
          kernelPgid := some g, kernelConnectionFile := some f, ready := true
          generation := s.generation + 1 } :=
        ⟨h.joined, h.lifecycle, h.interrupted, h.known, h.expected, h.idle, h.waiting, h.failed⟩
      obtain ⟨w, l, hl, he⟩ := resolveReady_eq { s with
        kernelPgid := some g, kernelConnectionFile := some f, ready := true
        generation := s.generation + 1 }
      rw [he]
      exact hu.ended hl (by simp)
    | bridgeError ha m => exact h.failKill hs rfl rfl rfl rfl rfl rfl rfl
    | result ha x => exact Guarded.of_none rfl h.joined h.expected h.idle
  | evaluate expression ms signal thrown id reason limit =>
    have hu : Guarded { s with evaluateIndex := s.evaluateIndex + 1 } :=
      ⟨h.joined, h.lifecycle, h.interrupted, h.known, h.expected, h.idle, h.waiting, h.failed⟩
    rcases request_cases { s with evaluateIndex := s.evaluateIndex + 1 } (.evaluate id expression)
      ⟨signal, true⟩ reason (some limit) thrown with
      ⟨-, e, he⟩ | ⟨c, hc, hr, hn, hg, ⟨-, l, he⟩ | ⟨-, e, x, he⟩⟩
    · rw [he]; exact hu
    · have ha := hu.accept (hs.congr rfl) (a := State.newActive
        { s with evaluateIndex := s.evaluateIndex + 1 } (.evaluate id expression) c ⟨signal, true⟩
          reason (some limit)) hc hr hg rfl (.inl rfl)
      rw [he]
      exact ⟨ha.joined, ha.lifecycle, ha.interrupted, ha.known, ha.expected, ha.idle, ha.waiting,
        ha.failed⟩
    · rw [he]; exact h.failKill hs hn rfl rfl rfl rfl rfl rfl
  | @execute k g id code cwd thrown hx =>
    have hj := h.joined _ (List.mem_of_getElem? hx)
    rcases s.executeStarted_cases k ⟨.execute id code cwd, g, .started⟩ id code cwd thrown with
      ⟨-, e, he⟩ | ⟨c, hc, hr, hn, hg, ⟨ht, l, he⟩ | ⟨-, e, m, he⟩⟩
    · have hu : Guarded { s with pendingResetNotice := false } :=
        ⟨h.joined, h.lifecycle, h.interrupted, h.known, h.expected, h.idle, h.waiting, h.failed⟩
      rw [he]; exact hu.setCall hj _
    · have hterm : s.terminated c = false := by
        rw [Bool.eq_false_iff]
        refine fun hc' => ho ⟨?_, ht, by simpa [hc] using hc'⟩
        rw [State.sends, hx]
        simp [State.accepts, hc, hr, hn, hg]
      have ha := h.accept hs (a := s.newActive (.execute id code cwd) c g
        (js "IPython execution cancelled") none) hc hr hg hj (.inr hterm)
      rw [he]
      refine Guarded.setCall (s := { s.accept (s.newActive (.execute id code cwd) c g
        (js "IPython execution cancelled") none) with pendingResetNotice := false, log := l }) ?_ hj _
      exact ⟨ha.joined, ha.lifecycle, ha.interrupted, ha.known, ha.expected, ha.idle, ha.waiting,
        ha.failed⟩
    · have hk : Guarded (State.kill { s with
          requests := s.requests ++ [some (.rejected m)]
          stderr := e
          pendingResetNotice := true }) := h.failKill hs hn rfl rfl rfl rfl rfl rfl
      rw [he]; exact hk.setCall hj _
  | abort σ =>
    refine h.abortListeners (d := s.disposed) id fun g hg => ?_
    by_cases hs : s.isAborted g = true
    · exact .inl hs
    · rcases g with ⟨_ | τ, b⟩
      · exact absurd hg (by simpa [State.isAborted] using hs)
      · simp [State.isAborted] at hg hs ⊢
        grind
  | dispose p =>
    have hd := h.abortListeners (l := s.aborted) (d := true)
      (f := fun g => g.lifecycle && ! s.isAborted g) (fun _ => rfl) fun g hg => by
        by_cases hs : s.isAborted g = true
        · exact .inl hs
        · simp only [State.isAborted, Bool.or_eq_true, Bool.and_eq_true] at hg hs ⊢
          simp only [not_or] at hs
          simp_all
    refine ⟨hd.joined, hd.lifecycle, hd.interrupted, hd.known, hd.expected, fun _ => ?_, hd.waiting,
      hd.failed⟩
    obtain ⟨w, l, -, ⟨-, he⟩ | ⟨a, -, -, he⟩⟩ :=
      State.abortListeners_cases { s with disposed := true } fun g => g.lifecycle && ! s.isAborted g
    · exact congrArg State.disposed he
    · exact (congrArg State.disposed he).trans (kept_interrupt _ _ _).disposed
  | @spawn sid g e hx => exact h.spawn sid g
  | @unspawned sid g e m hx =>
    have hu : Guarded { s with stderr := [], stopping := false, ready := false } :=
      ⟨h.joined, h.lifecycle, h.interrupted, h.known, by simp, h.idle, h.waiting, h.failed⟩
    exact hu.setStartup sid (by simp) (by simp)
  | @stdin e d reason l m hd he =>
    rcases failActive_cases ({ s with stderr := l }.noteReset) m with ⟨hn, hm⟩ | ⟨a, -, hm⟩
    · rw [hm]; exact h.failKill hs hn rfl rfl rfl rfl rfl rfl
    · rw [hm]; exact h.failKill hs rfl rfl rfl rfl rfl rfl rfl
  | @startupFailed sid g m hx after =>
    have hk : Guarded s.kill := h.kill hlen fun hu hc hn => by
      obtain ⟨t, x, ht, -⟩ := h.failed hx hu hc
      cases hn.symm.trans ht
    exact hk.setStartup sid (by simp) (by simp)
  | startupTimeout sid m =>
    obtain ⟨w, l, hl, he⟩ := s.finishStartup_eq sid fun _ => .failed m
    rw [he]; exact h.ended hl (by simp)
  | @timeout a reason ha ht =>
    have hl : a.signal.lifecycle = true := h.lifecycle ha
    exact Guarded.interrupt (s := { s with active := some { a with timeout := none } }) rfl hl h.joined h.expected h.idle _ _
  | @grace a ha hi after m =>
    have hk : Guarded (State.kill { s with active := none, pendingResetNotice := true }) :=
      h.failKill hs rfl rfl rfl rfl rfl rfl rfl
    exact ⟨hk.joined, hk.lifecycle, hk.interrupted, hk.known, hk.expected, hk.idle, hk.waiting,
      hk.failed⟩
  | reject hx =>
    exact ⟨h.joined, h.lifecycle, h.interrupted, h.known, h.expected, h.idle, h.waiting, h.failed⟩
  | closing he hc hs p l => exact h.stopping hs true p l
  | shutdownKill he hi b p q =>
    have hu : Guarded { s with stopping := b, shutdown := p } := h.stopping hi b p s.log
    have hk := hu.kill hlen fun {c} hc => by
      cases (h.untimed_of_disposed (h.idle hi) c).symm.trans hc
    exact ⟨hk.joined, hk.lifecycle, hk.interrupted, hk.known, hk.expected,
      fun _ => (kill_disposed _).trans (h.idle hi), hk.waiting, hk.failed⟩
  | error c m reason => exact h.bridgeEnds ho _ fun _ => rfl
  | close hf c code signal alive reason l hp =>
    have hb := h.bridgeEnds ho reason (f := fun b => { b with closed := true }) fun _ => rfl
    refine ⟨hb.joined, hb.lifecycle, hb.interrupted, hb.known, hb.expected, fun hi => ?_, hb.waiting,
      fun hx hu hc => ?_⟩
    · exact (handleExit_shutdown _ _ _).2.trans (h.idle (hp hi))
    · rcases handleExit_noneFailed
        (s := { s with bridges := s.bridges.modify c fun b => { b with closed := true } }) hf c
          reason with hn | hn
      · exact absurd hx (hn _ _ _)
      · cases hn.symm.trans hc

/-! ## Runs -/

/-- What holds along an orderly run. -/
structure Alive (s : State) : Prop where
  sound : Sound s
  ledger : Ledger s
  guarded : Guarded s

theorem alive_init : Alive State.init := ⟨sound_init, ledger_init, guarded_init⟩

theorem alive_step {s t : State} {e : Event} (h : Alive s) (ho : s.Orderly e)
    (he : step s e = some t) : Alive t := by
  refine ⟨sound_step h.sound he, ?_, ?_⟩
  all_goals obtain ⟨u, k, rfl, hc⟩ := step_cases he
  · exact (h.ledger.change hc).congr rfl rfl rfl
  · have hu := h.guarded.change h.sound.shape ho hc
    exact ⟨hu.joined, hu.lifecycle, hu.interrupted, hu.known, hu.expected, hu.idle, hu.waiting,
      hu.failed⟩

theorem Alive.noneHanging {s : State} (h : Alive s) : s.NoneHanging := by
  intro r hr
  simp only [State.accounted, Bool.or_eq_true, or_assoc]
  rcases h.ledger.kept hr with hs | ⟨a, ha, rfl⟩ | ⟨x, hx, rfl⟩
  · exact .inl hs
  · refine .inr (.inl ?_)
    by_cases ht : a.timed = true
    · simp [ha, ht]
    · have hu : s.untimed a.bridge = true := untimed_iff.mpr ⟨a, ha, by simpa using ht, rfl⟩
      obtain ⟨-, h1, h2⟩ := h.guarded.known hu
      simp [ha, h1, h2]
  · exact .inr (.inr (List.any_eq_true.mpr ⟨x, hx, by simp⟩))

/-- A request without a timer on a bridge that ended or is being stopped hangs. -/
theorem Ledger.not_noneHanging {s : State} (h : Ledger s) {c : BridgeId} (hu : s.untimed c = true)
    (hc : s.gone c = true ∨ s.terminated c = true) : ¬ s.NoneHanging := by
  obtain ⟨a, ha, ht, rfl⟩ := untimed_iff.mp hu
  obtain ⟨h1, h2⟩ := h.pending ha
  intro hn
  have hacc := hn a.request (List.getElem?_eq_some_iff.mp h1).1
  have hq : s.rejections.any (·.request = a.request) = false := by
    rw [List.any_eq_false]
    exact fun x hx => by simpa using h2 x hx
  simp only [State.accounted, State.isSettled, h1, hq, ha] at hacc
  rcases hc with hc | hc <;> simp [hc, ht] at hacc

theorem gone_of_end {s : State} {c : BridgeId} (hl : c < s.bridges.length) {f : Bridge → Bridge}
    (hf : ∀ b, (f b).gone = true) (hc : s.child ≠ some c) (r : JsStr) :
    (s.bridgeEnds c r f).gone c = true ∧ ∀ d, (s.bridgeEnds c r f).untimed d = s.untimed d := by
  rcases handleExit_cases { s with bridges := s.bridges.modify c f } c r with
    ⟨-, he⟩ | ⟨hn, -⟩
  · unfold State.bridgeEnds
    rw [he]
    refine ⟨?_, fun _ => rfl⟩
    change ((s.bridges.modify c f)[c]?).any _ = true
    rw [List.getElem?_modify_eq, List.getElem?_eq_getElem hl]
    exact hf _
  · exact absurd hn hc

theorem sends_iff {s : State} {k : Nat} : s.sends k = true ↔ ∃ x, s.calls[k]? = some x ∧
    match x.kind, x.phase with
    | .execute .., .started => s.accepts x.signal = true
    | _, _ => False := by
  rw [State.sends]
  rcases s.calls[k]? with _ | ⟨kind, g, p⟩
  · simp
  · cases kind <;> cases p <;> simp

/-- **A step that is not orderly leaves a request hanging**. -/
theorem Alive.hanging {s t : State} {e : Event} (h : Alive s) (ho : ¬ s.Orderly e)
    (he : step s e = some t) : ¬ t.NoneHanging := by
  have hledger : Ledger t := by
    obtain ⟨u, k, rfl, hc⟩ := step_cases he
    exact (h.ledger.change hc).congr rfl rfl rfl
  cases e with
  | line c text disk =>
    obtain ⟨hk, hs, hu⟩ := not_not.mp ho
    have hne : s.lineKind c text ≠ .other := by rw [hk]; simp
    have hc := child_of_lineKind hne
    simp only [step] at he
    split at he
    · cases he
      have hl := s.handleLine_cases c text disk
      rw [hk] at hl
      generalize s.handleLine c text disk = u at hl hledger
      cases hl with
      | refused m =>
        refine hledger.not_noneHanging (c := c) ?_ (.inr ?_)
        all_goals obtain ⟨w, l, -, hr⟩ := s.rejectReady_eq m
        · change (s.rejectReady m).kill.untimed c = true
          rw [State.untimed, kill_active, hr]
          exact hu
        · change (s.rejectReady m).kill.terminated c = true
          rw [hr]
          exact kill_terminated_child (by exact hs) (by exact hc) (h.sound.shape.child hc).1
    · cases he
  | resume k thrown =>
    obtain ⟨hk, rfl, ht⟩ := not_not.mp ho
    obtain ⟨c, hc, ht⟩ : ∃ c, s.child = some c ∧ s.terminated c = true := by
      cases hc : s.child <;> simp_all
    obtain ⟨⟨kind, g, p⟩, hx, hxs⟩ := sends_iff.mp hk
    cases kind with
    | execute id code cwd =>
      cases p with
      | started =>
        simp only [step, stepJob, hx, callRunnable, if_true, resumeCall, Option.some.injEq] at he
        subst he
        rcases s.executeStarted_cases k ⟨.execute id code cwd, g, .started⟩ id code cwd none with
          ⟨hn, -⟩ | ⟨d, hd, -, -, -, ⟨-, l, hu⟩ | ⟨hn, -⟩⟩
        · cases hn.symm.trans hxs
        · obtain rfl : d = c := Option.some.inj (hd.symm.trans hc)
          rw [hu] at hledger ⊢
          refine hledger.not_noneHanging (c := d) ?_ (.inr ht)
          exact untimed_iff.mpr ⟨_, rfl, rfl, rfl⟩
        · cases hn
      | _ => cases hxs
    | _ => cases hxs
  | error c m =>
    obtain ⟨hc, hu⟩ := not_or.mp ho
    simp only [step, stepJob] at he
    split at he
    · obtain ⟨u, hut, rfl⟩ := Option.map_eq_some_iff.mp he
      simp only [stepTask] at hut
      split at hut
      · cases hut
        have hu : s.untimed c = true := by simpa using hu
        obtain ⟨h1, h2⟩ := gone_of_end (h.guarded.known hu).1
          (f := fun b => { b with failed := true }) (fun _ => rfl) hc (js "bridge spawn failed: " ++ m)
        exact hledger.not_noneHanging ((h2 c).trans hu) (.inl h1)
      · cases hut
    · cases he
  | close c code signal alive =>
    obtain ⟨hc, hu⟩ := not_or.mp ho
    simp only [step, stepJob] at he
    split at he
    · obtain ⟨u, hut, rfl⟩ := Option.map_eq_some_iff.mp he
      simp only [stepTask] at hut
      split at hut
      · split at hut
        · cases hut
        · cases hut
          have hu : s.untimed c = true := by simpa using hu
          obtain ⟨h1, h2⟩ := gone_of_end (h.guarded.known hu).1
            (f := fun b => { b with closed := true }) (fun b => Bool.or_true _) hc
              (exitReason code signal)
          exact hledger.not_noneHanging ((h2 c).trans hu) (.inl h1)
      · cases hut
    · cases he
  | _ => exact absurd trivial ho

/-! ## What settles a request -/

/-- A timeout interrupts its request. -/
theorem timeout_interrupts {s : State} {a : Active} {reason : JsStr} (hq : s.quiet = true)
    (ha : s.active = some a) (ht : a.timeout = some reason) :
    ∃ t b, step s (.timeout a.request) = some t ∧ t.active = some b ∧ b.request = a.request ∧
      b.interrupt.isSome = true := by
  obtain ⟨b, hb, hk, hi⟩ := interrupt_interrupted
    (s := { s with active := some { a with timeout := none } }) rfl reason false
  exact ⟨_, b, step_of_task rfl hq (by simp only [stepTask, ha, ht, if_true]), hb, hk.request, hi⟩

/-- The timer of an interrupt ends the request: it is rejected once the termination is over. -/
theorem grace_rejects {s : State} {a : Active} (hq : s.quiet = true) (ha : s.active = some a)
    (hi : a.interrupt.isSome = true) :
    ∃ t, step s (.grace a.request) = some t ∧ t.active = none ∧
      ∃ x ∈ t.rejections, x.request = a.request := by
  obtain ⟨i, hi'⟩ := Option.isSome_iff_exists.mp hi
  refine ⟨_, step_of_task rfl hq (by simp only [stepTask, ha, hi, and_self, if_true]; rfl), ?_⟩
  simp only [graceExpired, ha, hi', ne_eq, not_true_eq_false, if_false]
  refine ⟨kill_active { s with active := none, pendingResetNotice := true }, _,
    List.mem_append_right _ (List.mem_singleton.mpr rfl), rfl⟩

/-- A rejection settles its request when the termination it waits for is over. -/
theorem reject_settles {s : State} (h : Ledger s) {r : Nat} {x : Rejection}
    (hx : s.rejections.find? (·.request = r) = some x) (hs : s.stopped x.after = true) :
    ∃ t, step s (.reject r) = some t ∧ t.isSettled r = true := by
  refine ⟨_, step_of_job (by simp only [stepJob, hx, hs, if_true]; rfl), ?_⟩
  have hr : x.request = r := by simpa using List.find?_some hx
  exact isSettled_settle (hr ▸ h.queued x (List.mem_of_find?_eq_some hx)) (.inr rfl)

/-- A termination that is not over goes on: some timer or job of it can run. -/
theorem termination_goes_on {s : State} (hq : s.quiet = true) {t : TerminationId} {x : Termination}
    (hx : s.terminations[t]? = some x) (hd : x.phase ≠ .done) :
    (step s (.giveUp t)).isSome = true ∨ ∀ alive, (step s (.reapTimer t alive)).isSome = true := by
  have hn := List.all_eq_true.mp (by simp only [quiet, Bool.and_eq_true] at hq; exact hq.1.1.1.2) x
    (List.mem_of_getElem? hx)
  cases hp : x.phase with
  | waiting => exact .inl (by simp [step, stepJob, stepTask, hq, hx, hp])
  | reaping => exact .inr fun _ => by simp [step, stepJob, stepTask, hq, hx, hp]
  | killing => exact .inr fun _ => by simp [step, stepJob, stepTask, hq, hx, hp]
  | done => exact absurd hp hd
  | _ => simp [terminationRunnable, hp] at hn

/-- **No request is left hanging** in a run of a new runtime exactly when all its steps are
orderly. -/
theorem noneHanging_iff_orderly {es : List Event} (hrun : (runAll step State.init es).isSome) :
    Throughout step State.NoneHanging State.init es ↔ AllSteps step State.Orderly State.init es :=
  throughout_iff (fun _ => Alive.noneHanging) (fun _ _ _ => alive_step) (fun _ _ _ => Alive.hanging)
    alive_init hrun

/-- A first start, up to the settled `start` of the caller. -/
def startRun (disk : Disk) : List Event := [
  .start none, .uv 0 (.ok ()), .runtimeReady 0, .listened 0 (.ok ()) (.ok ()),
  .line 0 (js "\x7b\"type\":\"kernel_started\",\"kernel_pgid\":7\x7d") disk,
  .line 0 (js
    "\x7b\"type\":\"ready\",\"protocol\":3,\"kernel_pgid\":7,\"connection_file\":\"/k\"\x7d") disk,
  .startupReady 0, .startupDone 0, .resume 0 none, .resume 0 none]

/-- A cell that is cancelled and does not stop in time is rejected when the bridge is stopped. -/
def cancelledRun (disk : Disk) : List Event := startRun disk ++ [
  .execute (js "1") (js "x") (js "/") (some 0), .resume 1 none, .abort 0, .grace 0,
  .close 0 none none (fun _ => false), .reap 0 (fun _ => false), .terminated 0, .reject 0]

set_option maxRecDepth 8000 in
theorem noneHanging_cancelledRun :
    Throughout step State.NoneHanging State.init (cancelledRun ⟨.error [], none⟩) :=
  (noneHanging_iff_orderly (by decide +kernel)).mpr (by decide +kernel)

/-- A second `kernel_started` line with a bad process group, while a cell runs. -/
def refusedRun (disk : Disk) : List Event := startRun disk ++ [
  .execute (js "1") (js "x") (js "/") none, .resume 1 none,
  .line 0 (js "\x7b\"type\":\"kernel_started\",\"kernel_pgid\":1\x7d") disk,
  .close 0 none none (fun _ => false), .reap 0 (fun _ => false), .terminated 0]

set_option maxRecDepth 8000 in
/-- **A bad `kernel_started` line leaves a cell hanging**: the bridge is stopped, its exit was
expected, and nothing rejects the request. -/
theorem hanging_refusedRun : ¬ ∀ es, (runAll step State.init es).isSome →
    Throughout step State.NoneHanging State.init es := by
  intro h
  have hrun : (runAll step State.init (refusedRun ⟨.error [], none⟩)).any (fun t =>
      0 < t.requests.length && ! t.accounted 0) = true := by decide +kernel
  cases ht : runAll step State.init (refusedRun ⟨.error [], none⟩) with
  | none => simp [ht] at hrun
  | some t =>
    simp only [ht, Option.any_some, Bool.and_eq_true, decide_eq_true_eq] at hrun
    have hn := (h _ (by rw [ht]; rfl)).last ht 0 hrun.1
    simp [hn] at hrun

end PiIpython.Runtime
