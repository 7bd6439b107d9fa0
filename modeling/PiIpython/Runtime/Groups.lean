import PiIpython.Runtime.Shutdown

/-!
# No kernel process group is forgotten

An observer keeps the groups that a bridge line announced and that were neither
seen gone since, nor sent SIGKILL, nor have one scheduled. `Minded` is what a
run keeps in which the runtime forgets none of them: a group is the runtime's
own, or a termination or the shutdown captured it and is not over, and before
an expected exit drops the runtime's own group one of the others has it.
-/

namespace PiIpython.Runtime

open Text

/-- A safe integer above 1. -/
def IsSafeGroup (g : Int) : Prop := 1 < g ∧ g ≤ 2 ^ 53 - 1

theorem isSafeGroup_of_processGroup {n : Binary64} {g : Int} (h : processGroup? n = some g) :
    IsSafeGroup g := by
  unfold processGroup? at h
  split at h
  · cases h
  next z hz =>
  split at h
  · cases h
  next hn =>
  cases h
  unfold safeInteger? at hz
  split at hz
  · cases hz
  split at hz
  · next hq =>
    cases hz
    exact ⟨by omega, (le_abs_self _).trans hq.2⟩
  · cases hz

/-! ## The groups of a runtime -/

/-- Where a runtime keeps process groups. -/
structure Groups where
  kernelPgid : Option Int
  stopping : Bool
  terminations : List Termination
  shutdown : Option Int
  killTimers : List Int

def State.groups (s : State) : Groups :=
  ⟨s.kernelPgid, s.stopping, s.terminations, s.shutdown.group, s.killTimers⟩

namespace Groups

variable (a : Groups)

def Knows (g : Int) : Prop :=
  a.kernelPgid = some g ∨ (∃ x ∈ a.terminations, x.kernelPgid = some g) ∨ a.shutdown = some g ∨
    g ∈ a.killTimers

/-- A termination or the shutdown captured the group and is not over. -/
def covers (g : Int) : Bool :=
  a.terminations.any (fun x => decide (x.phase ≠ .done) && decide (x.kernelPgid = some g)) ||
    decide (a.shutdown = some g)

def holds (g : Int) : Bool := decide (a.kernelPgid = some g) || a.covers g

end Groups

namespace State

/-- The group of a `kernel_started` or `ready` line that `handleLine` accepts. -/
def acceptedGroup (s : State) : Event → Option Int
  | .line c text _ =>
    if s.child ≠ some c then none
    else
      match (jsonParse text).bind isBridgeMessage with
      | some (.kernelStarted g) => processGroup? g
      | some (.ready p g f) =>
        match s.readyFault p g f with
        | .error _ => none
        | .ok g => some g
      | _ => none
  | _ => none

/-- The runtime checks the group and it does not exist. -/
def seesGone (s : State) (e : Event) (g : Int) : Bool :=
  match e with
  | .close c _ _ alive =>
    s.terminations.any (fun x => decide (x.child = c) && decide (x.phase = .waiting) &&
      decide (x.kernelPgid = some g)) && ! alive g
  | .reap t alive => (s.terminations[t]?).any (fun x => x.kernelPgid = some g) && ! alive g
  | .reapTimer t alive =>
    (s.terminations[t]?).any (fun x => decide (x.phase = .reaping) &&
      decide (x.kernelPgid = some g)) && ! alive g
  | .shutdownReap alive => decide (s.shutdown.group = some g) && ! alive g
  | .shutdownReapTimer alive => decide (s.shutdown.group = some g) && ! alive g
  | _ => false

/-- The step sends the group SIGKILL. -/
def killed (s t : State) (g : Int) : Bool :=
  decide (Effect.signalGroup g .sigkill ∈ t.log.drop s.log.length)

/-- The group is new to the runtime. -/
def newGroup (s : State) (e : Event) : List Int :=
  match s.acceptedGroup e with
  | some g => if s.kernelPgid = some g then [] else [g]
  | none => []

/-- The steps that let the runtime forget no group: a group is announced while no exit is expected
and the one before it is covered. -/
def Admissible (s : State) (e : Event) : Prop :=
  (s.acceptedGroup e).all fun g => decide (s.kernelPgid = some g) ||
    (! s.stopping && s.kernelPgid.all s.groups.covers && ! s.groups.covers g)

instance (s : State) (e : Event) : Decidable (s.Admissible e) := inferInstanceAs (Decidable (_ = _))

end State

open State

/-- The groups announced and not accounted for, after a step. -/
def note (live : List Int) (s : State) (e : Event) (t : State) : List Int :=
  (s.newGroup e ++ live).filter fun g =>
    ! (s.seesGone e g || s.killed t g || decide (g ∈ t.killTimers))

/-- A step of the runtime and of the observer. -/
def tend (w : State × List Int) (e : Event) : Option (State × List Int) :=
  (step w.1 e).map fun t => (t, note w.2 w.1 e t)

/-- The runtime still has every group that is not accounted for. -/
def NoneForgotten (w : State × List Int) : Prop := ∀ g ∈ w.2, w.1.groups.holds g = true

/-- Every signal was sent to a safe group. -/
def SignalsSafe (s : State) : Prop :=
  ∀ g sig, Effect.signalGroup g sig ∈ s.log → IsSafeGroup g

/-! ## The invariant -/

variable {s t u : State} {a b c : Groups} {live later : List Int}

/-- What the runtime has of the groups in `live`. -/
structure Minded (a : Groups) (live : List Int) : Prop where
  held : ∀ g ∈ live, a.holds g = true
  /-- The group of a bridge whose exit is expected is covered. -/
  expected : a.stopping = true → ∀ g ∈ live, a.kernelPgid = some g → a.covers g = true
  /-- A termination near its end has seen its group gone or killed it. -/
  ended : ∀ x ∈ a.terminations, x.phase = .killing ∨ x.phase = .reaped → ∀ g ∈ live,
    x.kernelPgid ≠ some g

theorem minded_nil (a : Groups) : Minded a [] := ⟨by simp, by simp, by simp⟩

/-- No group gets lost but the ones in `dead`. -/
structure Holding (dead : Int → Prop) (a b : Groups) : Prop where
  known : ∀ g, b.Knows g → a.Knows g
  pgid : b.kernelPgid = a.kernelPgid ∨ b.kernelPgid = none ∧
    ∀ g, a.kernelPgid = some g → a.stopping = true ∨ b.covers g = true ∨ dead g
  stopping : b.stopping = true → a.stopping = true ∨
    ∀ g, b.kernelPgid = some g → b.covers g = true ∨ dead g
  covers : ∀ g, a.covers g = true → b.covers g = true ∨ dead g
  ended : ∀ x ∈ b.terminations, x.phase = .killing ∨ x.phase = .reaped →
    x ∈ a.terminations ∨ ∀ g, x.kernelPgid = some g → dead g

theorem Holding.refl (dead : Int → Prop) (a : Groups) : Holding dead a a :=
  ⟨fun _ h => h, .inl rfl, fun h => .inl h, fun _ h => .inl h, fun _ h _ => .inl h⟩

theorem Holding.trans {dead : Int → Prop} (h : Holding dead a b) (k : Holding dead b c) :
    Holding dead a c := by
  have hcov : ∀ g, b.covers g = true ∨ dead g → c.covers g = true ∨ dead g := fun g hg =>
    hg.elim (k.covers g) .inr
  refine ⟨fun g hg => h.known g (k.known g hg), ?_, fun hs => ?_, fun g hg => hcov g (h.covers g hg),
    fun x hx hp => ?_⟩
  · rcases h.pgid with hb | ⟨hb, hd⟩
    · refine k.pgid.imp (fun hc => hc.trans hb) fun ⟨hc, hd⟩ => ⟨hc, fun g hg => ?_⟩
      rcases hd g (hb.trans hg) with hs | hd
      · exact (h.stopping hs).imp id fun hq => hcov g (hq g (hb.trans hg))
      · exact .inr hd
    · refine .inr ⟨?_, fun g hg => (hd g hg).imp id (hcov g)⟩
      rcases k.pgid with hc | ⟨hc, -⟩
      · rw [hc, hb]
      · exact hc
  · rcases k.stopping hs with hs | hq
    · refine (h.stopping hs).imp id fun hq g hg => hcov g (hq g ?_)
      rcases k.pgid with hc | ⟨hc, -⟩
      · rw [← hc, hg]
      · cases hc.symm.trans hg
    · exact .inr hq
  · rcases k.ended x hx hp with hx | hd
    · exact h.ended x hx hp
    · exact .inr hd

theorem Groups.holds_iff {g : Int} :
    a.holds g = true ↔ a.kernelPgid = some g ∨ a.covers g = true := by
  unfold Groups.holds
  rw [Bool.or_eq_true, decide_eq_true_eq]

theorem Groups.covers_iff {g : Int} : a.covers g = true ↔
    (∃ x ∈ a.terminations, x.phase ≠ .done ∧ x.kernelPgid = some g) ∨ a.shutdown = some g := by
  unfold Groups.covers
  simp only [Bool.or_eq_true, List.any_eq_true, Bool.and_eq_true, decide_eq_true_eq]

/-- **The invariant is kept** when only the groups no longer in the list get lost. -/
theorem Minded.next (h : Minded a live) (hsub : ∀ g ∈ later, g ∈ live)
    (hh : Holding (fun g => g ∉ later) a b) : Minded b later := by
  refine ⟨fun g hg => ?_, fun hs g hg hp => ?_, fun x hx hp g hg hxg => ?_⟩
  · have hcover : a.covers g = true → b.covers g = true := fun hc =>
      (hh.covers g hc).resolve_right (not_not_intro hg)
    rcases Groups.holds_iff.mp (h.held g (hsub g hg)) with hk | hk
    · rcases hh.pgid with hb | ⟨-, hb⟩
      · exact Groups.holds_iff.mpr (.inl (hb.trans hk))
      · rcases hb g hk with hs | hc | hd
        · exact Groups.holds_iff.mpr (.inr (hcover (h.expected hs g (hsub g hg) hk)))
        · exact Groups.holds_iff.mpr (.inr hc)
        · exact absurd hg hd
    · exact Groups.holds_iff.mpr (.inr (hcover hk))
  · rcases hh.stopping hs with hs | hb
    · rcases hh.pgid with hb | ⟨hb, -⟩
      · exact (hh.covers g (h.expected hs g (hsub g hg) (hb.symm.trans hp))).resolve_right
          (not_not_intro hg)
      · cases hb.symm.trans hp
    · exact (hb g hp).resolve_right (not_not_intro hg)
  · rcases hh.ended x hx hp with hx | hd
    · exact h.ended x hx hp g (hsub g hg) hxg
    · exact hd g hxg hg

theorem mem_note {e : Event} {g : Int} : g ∈ note live s e t ↔
    (g ∈ s.newGroup e ∨ g ∈ live) ∧ s.seesGone e g = false ∧ s.killed t g = false ∧
      g ∉ t.killTimers := by
  unfold note
  rw [List.mem_filter, List.mem_append]
  simp only [Bool.not_eq_true', Bool.or_eq_false_iff, decide_eq_false_iff_not, and_assoc]

/-- What a step does with the groups, when no line announces one. -/
def Accounted (s : State) (e : Event) (t : State) : Prop :=
  ∀ live, Minded s.groups live → Holding (fun g => g ∉ note live s e t) s.groups t.groups

theorem accounted_of_groups {e : Event} (h : t.groups = s.groups) : Accounted s e t := by
  intro live _
  rw [h]
  exact .refl _ _

/-! ## Methods that leave the groups alone -/

namespace State

variable (s : State)

theorem rejectReady_groups (e : JsStr) : (s.rejectReady e).groups = s.groups := by
  obtain ⟨w, l, -, h⟩ := s.rejectReady_eq e
  rw [h]; rfl

theorem failActive_groups (m : JsStr) : (s.failActive m).groups = s.groups := by
  rcases s.failActive_cases m with ⟨-, h⟩ | ⟨a, -, h⟩ <;> rw [h]; rfl

theorem signalProcessGroup_groups (g : Option Int) (sig : Sig) :
    (s.signalProcessGroup g sig).groups = s.groups := by
  obtain ⟨l, h⟩ := s.signalProcessGroup_eq g sig
  rw [h]; rfl

theorem interrupt_groups (reason : JsStr) (overflow : Bool) :
    (s.interrupt reason overflow).groups = s.groups := by
  unfold interrupt
  split
  · rfl
  split
  · rfl
  · rw [signalProcessGroup_groups]; rfl

theorem saveOutput_groups (disk : Disk) (text : JsStr) :
    (s.saveOutput disk text).1.groups = s.groups := by
  unfold saveOutput
  split
  · rfl
  dsimp only
  split
  · split <;> rfl
  · split
    · rfl
    · split <;> rfl

theorem abortListeners_groups (fires : Signal → Bool) :
    (s.abortListeners fires).groups = s.groups := by
  obtain ⟨w, l, -, ⟨-, h⟩ | ⟨a, -, -, h⟩⟩ := s.abortListeners_cases fires
  · rw [h]; rfl
  · rw [h, interrupt_groups]; rfl

theorem finishStartup_groups (sid : Nat) (f : BridgeId → StartupPhase) :
    (s.finishStartup sid f).groups = s.groups := by
  obtain ⟨w, l, -, h⟩ := s.finishStartup_eq sid f
  rw [h]; rfl

theorem continueStart_groups (g : Signal) : (s.continueStart g).1.groups = s.groups := by
  unfold continueStart
  split
  · rfl
  split
  · rfl
  · unfold startKernel
    dsimp only
    split <;> rfl

theorem beginStart_groups (g : Signal) : (s.beginStart g).1.groups = s.groups := by
  unfold beginStart
  split
  · rfl
  split
  · rfl
  · exact s.continueStart_groups g

end State

/-! ## Terminating -/

theorem holding_kill (dead : Int → Prop) (s : State) : Holding dead s.groups s.kill.groups := by
  rcases s.terminate_cases with ⟨x, -, h⟩ | ⟨-, -, h⟩ | ⟨d, l, -, -, h⟩
  · rw [State.kill, h]; exact .refl _ _
  · rw [State.kill, h]; exact .refl _ _
  rw [State.kill, h]
  -- the new termination captures the group
  have hnew : ∀ g, s.kernelPgid = some g → Groups.covers ⟨s.kernelPgid, true, s.terminations ++
      [(⟨d, s.kernelPgid, s.hasExitCode d, true, .waiting⟩ : Termination)], s.shutdown.group,
      s.killTimers⟩ g = true := fun g hg =>
    Groups.covers_iff.mpr (.inl ⟨_, List.mem_append_right _ (List.mem_singleton.mpr rfl), by simp, hg⟩)
  refine ⟨fun g hg => ?_, .inl rfl, fun _ => .inr fun g hg => .inl (hnew g hg), fun g hg => .inl ?_,
    fun x hx hp => .inl ?_⟩
  · rcases hg with hg | ⟨x, hx, hg⟩ | hg | hg
    · exact .inl hg
    · rcases List.mem_append.mp hx with hx | hx
      · exact .inr (.inl ⟨x, hx, hg⟩)
      · rw [List.mem_singleton.mp hx] at hg
        exact .inl hg
    · exact .inr (.inr (.inl hg))
    · exact .inr (.inr (.inr hg))
  · refine Groups.covers_iff.mpr ((Groups.covers_iff.mp hg).imp ?_ id)
    rintro ⟨x, hx, hp, hg⟩
    exact ⟨x, List.mem_append_left _ hx, hp, hg⟩
  · rcases List.mem_append.mp hx with hx | hx
    · exact hx
    · rw [List.mem_singleton.mp hx] at hp
      simp at hp

/-- The bridge is stopped after something that leaves the groups alone. -/
theorem accounted_kill {e : Event} (h : t.groups = s.groups) (hu : u.groups = t.kill.groups) :
    Accounted s e u := by
  intro live _
  rw [hu, ← h]
  exact holding_kill _ t

/-! ## Lines -/

/-- **What a line does with the groups**: it announces one, or it leaves them alone, up to a
termination of the bridge. -/
theorem line_groups (s : State) (c : BridgeId) (text : JsStr) (disk : Disk) :
    (s.acceptedGroup (.line c text disk) = none ∧ ∃ v : State, v.groups = s.groups ∧
      ((s.handleLine c text disk).groups = v.groups ∨
        (s.handleLine c text disk).groups = v.kill.groups)) ∨
    ∃ g, s.acceptedGroup (.line c text disk) = some g ∧ IsSafeGroup g ∧
      (s.handleLine c text disk).groups = { s.groups with kernelPgid := some g } := by
  unfold State.acceptedGroup State.handleLine
  dsimp only
  split
  · exact .inl ⟨rfl, s, rfl, .inl rfl⟩
  generalize (jsonParse text).bind isBridgeMessage = m
  have hfail : ∀ e m, ((s.rejectReady e).failActive m).noteReset.groups = s.groups := fun e m =>
    (failActive_groups _ m).trans (s.rejectReady_groups e)
  cases m with
  | none =>
    refine .inl ⟨rfl, ?_⟩
    dsimp only
    split
    · next reason _ =>
      exact ⟨((s.rejectReady reason).failActive (reason ++ js
        ". The kernel was stopped and all in-memory state was lost.")).noteReset, hfail _ _, .inr rfl⟩
    · obtain ⟨e, he⟩ := s.addStderr_eq (js "\nNon-protocol bridge output: " ++ text)
      exact ⟨s, rfl, .inl (by rw [he]; rfl)⟩
  | some m =>
    cases m with
    | kernelStarted g =>
      simp only [handleMessage, handleKernelStarted]
      cases hg : processGroup? g with
      | none => exact .inl ⟨rfl, s.rejectReady invalidGroup, s.rejectReady_groups _, .inr rfl⟩
      | some g => exact .inr ⟨g, rfl, isSafeGroup_of_processGroup hg, rfl⟩
    | ready p g f =>
      simp only [handleMessage, handleReady]
      cases hg : s.readyFault p g f with
      | error e => exact .inl ⟨rfl, s.rejectReady e, s.rejectReady_groups e, .inr rfl⟩
      | ok z =>
        refine .inr ⟨z, rfl, ?_, ?_⟩
        · unfold State.readyFault at hg
          split at hg
          · cases hg
          split at hg
          · cases hg
          next hz =>
          split at hg
          · cases hg
          split at hg
          · cases hg
          · cases hg
            exact isSafeGroup_of_processGroup hz
        · obtain ⟨w, l, -, he⟩ := resolveReady_eq { s with
            kernelPgid := some z, kernelConnectionFile := some f, ready := true
            generation := s.generation + 1 }
          dsimp only
          rw [he]
          rfl
    | fatal e m => exact .inl ⟨rfl, _, hfail _ _, .inr rfl⟩
    | _ =>
      refine .inl ⟨rfl, ?_⟩
      simp only [handleMessage]
      split
      · exact ⟨s, rfl, .inl rfl⟩
      next a ha =>
      split
      · exact ⟨s, rfl, .inl rfl⟩
      first
        | exact ⟨s, rfl, .inl rfl⟩
        | (unfold State.handleImage; dsimp only; split <;> exact ⟨s, rfl, .inl rfl⟩)
        | (refine ⟨s, rfl, .inl ?_⟩
           unfold State.handleOutput
           split
           · rfl
           dsimp only
           split
           · rw [interrupt_groups, saveOutput_groups]; rfl
           · rfl)
        | exact ⟨_, by rfl, .inr rfl⟩

/-- An announced group is the runtime's own: the observer starts to watch it. -/
theorem minded_announced {e : Event} {g : Int} (h : Minded s.groups live)
    (hg : s.acceptedGroup e = some g) (ho : s.Admissible e)
    (ht : t.groups = { s.groups with kernelPgid := some g }) : Minded t.groups (note live s e t) := by
  unfold State.Admissible at ho
  rw [hg, Option.all_some, Bool.or_eq_true, decide_eq_true_eq] at ho
  have hlive : ∀ x ∈ note live s e t, x = g ∨ x ∈ live := by
    intro x hx
    refine (mem_note.mp hx).1.imp (fun hn => ?_) id
    unfold State.newGroup at hn
    rw [hg] at hn
    dsimp only at hn
    split at hn
    · cases hn
    · exact List.mem_singleton.mp hn
  rcases ho with hk | hk
  · -- the runtime has the group already
    have hsame : t.groups = s.groups := by
      rw [ht, ← hk]; rfl
    have hsub : ∀ x ∈ note live s e t, x ∈ live := by
      intro x hx
      refine (mem_note.mp hx).1.resolve_left fun hn => ?_
      simp [State.newGroup, hg, hk] at hn
    rw [hsame]
    exact h.next hsub (.refl _ _)
  · simp only [Bool.and_eq_true, Bool.not_eq_true'] at hk
    obtain ⟨⟨hstop, hcov⟩, hnew⟩ := hk
    have hcovers : ∀ x, t.groups.covers x = s.groups.covers x := fun x => by rw [ht]; rfl
    refine ⟨fun x hx => ?_, fun hs => ?_, fun x hx hp y hy hxy => ?_⟩
    · rw [Groups.holds_iff]
      rcases hlive x hx with rfl | hx
      · exact .inl (by rw [ht])
      · right
        rw [hcovers]
        rcases Groups.holds_iff.mp (h.held x hx) with hp | hp
        · have hp : s.kernelPgid = some x := hp
          rwa [hp] at hcov
        · exact hp
    · rw [ht] at hs
      cases hstop.symm.trans hs
    · rw [ht] at hx
      rcases hlive y hy with rfl | hy
      · have hc : s.groups.covers y = true := by
          refine Groups.covers_iff.mpr (.inl ⟨x, hx, ?_, hxy⟩)
          rcases hp with hp | hp <;> simp [hp]
        cases hnew.symm.trans hc
      · exact h.ended x hx hp y hy hxy

/-! ## Exits and terminations -/

/-- The exit of a bridge drops its group, which is covered when the exit was expected and is killed
later otherwise. -/
theorem handleExit_groups (s : State) (c : BridgeId) (r : JsStr) :
    (s.handleExit c r).groups = s.groups ∨ (s.handleExit c r).groups =
      ⟨none, false, s.terminations, s.shutdown.group,
        if s.stopping then s.killTimers else s.killTimers ++ s.kernelPgid.toList⟩ := by
  unfold State.handleExit
  split
  · exact .inl rfl
  right
  obtain ⟨w, l, -, he⟩ := s.lose.rejectReady_eq
    (js "IPython " ++ r ++ (if trim s.stderr = [] then [] else js "\n" ++ trim s.stderr))
  dsimp only [lose] at he ⊢
  rw [he]
  split
  · rfl
  · rw [failActive_groups]
    cases s.kernelPgid with
    | none => simp [State.groups]
    | some g => rfl

theorem holding_exit {dead : Int → Prop} (hk : b = a ∨ b = ⟨none, false, a.terminations, a.shutdown,
      if a.stopping then a.killTimers else a.killTimers ++ a.kernelPgid.toList⟩)
    (hd : ∀ g ∈ b.killTimers, dead g) : Holding dead a b := by
  rcases hk with rfl | rfl
  · exact .refl _ _
  refine ⟨fun g hg => ?_, .inr ⟨rfl, fun g hg => ?_⟩, by simp, fun g hg => .inl hg,
    fun x hx _ => .inl hx⟩
  · rcases hg with hg | hg | hg | hg
    · cases hg
    · exact .inr (.inl hg)
    · exact .inr (.inr (.inl hg))
    · dsimp only at hg
      split at hg
      · exact .inr (.inr (.inr hg))
      · rcases List.mem_append.mp hg with hg | hg
        · exact .inr (.inr (.inr hg))
        · exact .inl (by simpa using hg)
  · by_cases hs : a.stopping = true
    · exact .inl hs
    · refine .inr (.inr (hd g ?_))
      simp only [if_neg hs]
      exact List.mem_append_right _ (by simp [hg])

/-- A termination goes on: near its end its group is gone or killed. -/
theorem holding_set {dead : Int → Prop} {i : TerminationId} {x y : Termination}
    (hx : a.terminations[i]? = some x) (hg : y.kernelPgid = x.kernelPgid)
    (hy : y.phase = .killing ∨ y.phase = .reaped ∨ y.phase = .done →
      ∀ g, x.kernelPgid = some g → dead g) :
    Holding dead a { a with terminations := a.terminations.set i y } := by
  have hmem : x ∈ a.terminations := List.mem_of_getElem? hx
  have hlt : i < a.terminations.length := (List.getElem?_eq_some_iff.mp hx).1
  refine ⟨fun g hk => ?_, .inl rfl, fun hs => .inl hs, fun g hc => ?_, fun z hz hp => ?_⟩
  · rcases hk with hk | ⟨z, hz, hk⟩ | hk | hk
    · exact .inl hk
    · rcases List.mem_or_eq_of_mem_set hz with hz | rfl
      · exact .inr (.inl ⟨z, hz, hk⟩)
      · exact .inr (.inl ⟨x, hmem, hg ▸ hk⟩)
    · exact .inr (.inr (.inl hk))
    · exact .inr (.inr (.inr hk))
  · rcases Groups.covers_iff.mp hc with ⟨z, hz, hp, hk⟩ | hk
    · obtain ⟨j, hj⟩ := List.mem_iff_getElem?.mp hz
      by_cases hij : i = j
      · subst hij
        obtain rfl : x = z := Option.some.inj (hx.symm.trans hj)
        by_cases hd : y.phase = .done
        · exact .inr (hy (.inr (.inr hd)) g hk)
        · refine .inl (Groups.covers_iff.mpr (.inl ⟨y, ?_, hd, hg.trans hk⟩))
          exact List.mem_of_getElem? (List.getElem?_set_self hlt)
      · refine .inl (Groups.covers_iff.mpr (.inl ⟨z, ?_, hp, hk⟩))
        exact List.mem_of_getElem? ((List.getElem?_set_ne hij).trans hj)
    · exact .inl (Groups.covers_iff.mpr (.inr hk))
  · rcases List.mem_or_eq_of_mem_set hz with hz | rfl
    · exact .inl hz
    · refine .inr fun g hk => hy ?_ g (hg ▸ hk)
      exact hp.imp id .inl

/-- The close listeners of the terminations. -/
theorem holding_closed (dead : Int → Prop) (a : Groups) (alive : Int → Bool) (c : BridgeId) :
    Holding dead a { a with terminations := a.terminations.map (bridgeClosed alive c) } := by
  have hf : ∀ x, (bridgeClosed alive c x).kernelPgid = x.kernelPgid ∧
      (x.phase ≠ .done → (bridgeClosed alive c x).phase ≠ .done) ∧
      ((bridgeClosed alive c x).phase = .killing ∨ (bridgeClosed alive c x).phase = .reaped →
        bridgeClosed alive c x = x) := by
    intro x
    unfold bridgeClosed
    split
    · next h => split <;> simp [h.2]
    · simp
  refine ⟨fun g hk => ?_, .inl rfl, fun hs => .inl hs, fun g hc => .inl ?_, fun z hz hp => .inl ?_⟩
  · rcases hk with hk | ⟨z, hz, hk⟩ | hk | hk
    · exact .inl hk
    · obtain ⟨x, hx, rfl⟩ := List.mem_map.mp hz
      exact .inr (.inl ⟨x, hx, (hf x).1 ▸ hk⟩)
    · exact .inr (.inr (.inl hk))
    · exact .inr (.inr (.inr hk))
  · refine Groups.covers_iff.mpr ((Groups.covers_iff.mp hc).imp ?_ id)
    rintro ⟨x, hx, hp, hk⟩
    exact ⟨_, List.mem_map_of_mem hx, (hf x).2.1 hp, (hf x).1.trans hk⟩
  · obtain ⟨x, hx, rfl⟩ := List.mem_map.mp hz
    rwa [(hf x).2.2 hp]

/-- `shutdown` goes on: the group it captured stays captured, or is gone or killed, and a new one
is the runtime's own. -/
theorem holding_shutdown {dead : Int → Prop} {o : Option Int}
    (hk : ∀ g, o = some g → a.shutdown = some g ∨ a.kernelPgid = some g)
    (hd : ∀ g, a.shutdown = some g → o = some g ∨ dead g) :
    Holding dead a { a with shutdown := o } := by
  refine ⟨fun g hg => ?_, .inl rfl, fun hs => .inl hs, fun g hc => ?_, fun z hz _ => .inl hz⟩
  · rcases hg with hg | hg | hg | hg
    · exact .inl hg
    · exact .inr (.inl hg)
    · exact (hk g hg).elim (fun h => .inr (.inr (.inl h))) .inl
    · exact .inr (.inr (.inr hg))
  · rcases Groups.covers_iff.mp hc with hc | hc
    · exact .inl (Groups.covers_iff.mpr (.inl hc))
    · exact (hd g hc).imp (fun h => Groups.covers_iff.mpr (.inr h)) id

/-! ## Every step -/

/-- A group that the step sent SIGKILL. -/
theorem killed_of_log {g : Int} {l : List Effect} (h : t.log = s.log ++ l)
    (hg : Effect.signalGroup g .sigkill ∈ l) : s.killed t g = true := by
  unfold State.killed
  rw [h, List.drop_left]
  exact decide_eq_true hg

theorem signal_log (s : State) (g : Int) (sig : Sig) :
    (s.signalProcessGroup (some g) sig).log = s.log ++ [.signalGroup g sig] := rfl

theorem kill_phase (s : State) : s.kill.shutdown = s.shutdown := by
  rcases s.terminate_cases with ⟨x, -, h⟩ | ⟨-, -, h⟩ | ⟨d, l, -, -, h⟩ <;> rw [State.kill, h]

theorem afterClose_group (c : BridgeId) (p : ShutdownPhase) :
    (p.afterClose c).group = p.group := by
  rcases p.afterClose_cases c with h | ⟨d, g, timer, after, rfl, h⟩
  · rw [h]
  · rw [h]; rfl

theorem accounted_request {e : Event} (h : t.groups = s.groups) (m : BridgeRequest) (g : Signal)
    (r : JsStr) (o thrown : Option JsStr) : Accounted s e (t.request m g r o thrown).1 := by
  rcases t.request_cases m g r o thrown with ⟨-, x, he⟩ | ⟨c, -, -, -, -, ⟨-, l, he⟩ | ⟨-, x, y, he⟩⟩
  · rw [he]; exact accounted_of_groups h
  · rw [he]; exact accounted_of_groups h
  · rw [he]
    exact accounted_kill (t := { t with
      requests := t.requests ++ [some (.rejected y)], stderr := x, pendingResetNotice := true }) h rfl

theorem accounted_stdinError {e : Event} (s : State) (c : Option BridgeId) (r : JsStr) :
    Accounted s e (s.handleStdinError c r) := by
  rcases s.handleStdinError_cases c r with h | ⟨d, x, m, -, -, h⟩
  · rw [h]; exact accounted_of_groups rfl
  · rw [h]
    refine accounted_kill ?_ rfl
    rw [failActive_groups]
    rfl

theorem accounted_resumeCall {e : Event} (s : State) (k : Nat) (x : Call) (thrown : Option JsStr) :
    Accounted s e (s.resumeCall k x thrown) := by
  unfold State.resumeCall
  split
  · exact accounted_of_groups (s.continueStart_groups x.signal)
  · split <;> exact accounted_of_groups rfl
  · split
    · exact accounted_of_groups rfl
    · next id code cwd _ =>
      rcases s.executeStarted_cases k x id code cwd thrown with
        ⟨-, y, h⟩ | ⟨c, -, -, -, -, ⟨-, l, h⟩ | ⟨-, y, m, h⟩⟩
      · rw [h]; exact accounted_of_groups rfl
      · rw [h]; exact accounted_of_groups rfl
      · rw [h]
        refine accounted_kill (t := { s with
          requests := s.requests ++ [some (.rejected m)], stderr := y, pendingResetNotice := true })
          rfl rfl
    · exact accounted_of_groups rfl
  · exact accounted_of_groups rfl

/-- A termination goes on after a signal. -/
theorem signalled_groups (s : State) (g : Option Int) (sig : Sig) (i : TerminationId)
    (y : Termination) : ((s.signalProcessGroup g sig).setTermination i y).groups =
      { s.groups with terminations := s.terminations.set i y } := by
  obtain ⟨l, h⟩ := s.signalProcessGroup_eq g sig
  rw [h]
  rfl

/-- A startup expects no exit. -/
theorem holding_start (dead : Int → Prop) (a : Groups) :
    Holding dead a { a with stopping := false } :=
  ⟨fun _ h => h, .inl rfl, by simp, fun _ h => .inl h, fun _ h _ => .inl h⟩

theorem accounted_listened {e : Event} (s : State) (sid : Nat) (g : Signal)
    (result spawned : Except JsStr Unit) : Accounted s e (s.listenersDone sid g result spawned) := by
  unfold State.listenersDone
  split
  · exact accounted_of_groups rfl
  split
  · exact accounted_of_groups rfl
  dsimp only
  split <;> exact fun live _ => holding_start _ s.groups

theorem accounted_shutdownBridge {e : Event} (h : s.shutdown.group = none) (thrown : Bool) :
    Accounted s e (s.shutdownBridge thrown) := by
  intro live _
  have hown : ∀ dead : Int → Prop, Holding dead s.groups { s.groups with shutdown := s.kernelPgid } :=
    fun dead => holding_shutdown (fun g hg => .inr hg) fun g hg => by cases h.symm.trans hg
  unfold State.shutdownBridge
  split
  · exact hown _
  next c hc =>
  have hclosing : ∀ dead : Int → Prop, Holding dead s.groups (State.groups { s with
      stopping := true, shutdown := .closing c s.kernelPgid true none }) := by
    intro dead
    refine (hown dead).trans ⟨fun _ h => h, .inl rfl, fun _ => .inr fun g hg => .inl ?_,
      fun _ h => .inl h, fun _ h _ => .inl h⟩
    exact Groups.covers_iff.mpr (.inr hg)
  dsimp only
  split
  · exact (hclosing _).trans (holding_kill _ _)
  · exact hclosing _

theorem accounted_job {e : Event} (he : s.stepJob e = some t) : Accounted s e t := by
  have hsame := accounted_of_groups (s := s) (e := e) rfl
  cases e <;> simp only [stepJob, Option.some.injEq, reduceCtorEq] at he
  case start => subst he; exact accounted_of_groups (s.beginStart_groups _)
  case execute =>
    subst he
    unfold callExecute
    dsimp only
    split
    · exact accounted_of_groups rfl
    · exact accounted_of_groups (s.beginStart_groups _)
  case evaluate =>
    subst he
    refine accounted_request (t := { s with evaluateIndex := s.evaluateIndex + 1 }) ?_ _ _ _ _ _
    rfl
  case getConnectionFile => subst he; exact accounted_of_groups (s.beginStart_groups _)
  case shutdown =>
    split at he
    · next hp =>
      cases he
      refine accounted_of_groups ?_
      have hd := abortListeners_groups { s with disposed := true }
        fun g => g.lifecycle && ! s.isAborted g
      change { s.dispose.groups with shutdown := none } = s.groups
      have hg : s.dispose.groups = s.groups := hd
      rw [hg]
      unfold State.groups
      rw [hp]
      rfl
    · cases he; exact hsame
  case abort σ =>
    subst he
    exact accounted_of_groups (abortListeners_groups { s with aborted := σ :: s.aborted } _)
  case listened =>
    split at he
    · cases he; exact accounted_listened _ _ _ _ _
    · cases he
  case stdinError =>
    split at he
    · cases he; exact accounted_stdinError _ _ _
    · cases he
  case writeError =>
    split at he
    · cases he
    · cases he; exact accounted_stdinError _ _ _
  case runtimeReady =>
    split at he
    · obtain ⟨r, -, rfl⟩ := Option.map_eq_some_iff.mp he
      cases r <;> exact accounted_of_groups rfl
    · cases he
  case startupFailed =>
    split at he
    · cases he; exact accounted_kill (t := s) rfl rfl
    · cases he
  case startupStopped =>
    split at he
    · split at he
      · cases he; exact accounted_of_groups rfl
      · cases he
    · cases he
  case startupReady =>
    split at he
    · cases he; exact accounted_of_groups rfl
    · cases he
  case startupDone =>
    split at he
    · cases he; exact accounted_of_groups rfl
    · cases he
  case reap i alive =>
    split at he
    · next x hx =>
      split at he
      · cases he
        intro live _
        unfold reapGroup
        split
        · rw [signalled_groups]
          exact holding_set hx rfl (by simp)
        · next ha =>
          refine holding_set hx rfl fun _ g hg hn => ?_
          -- the group is seen gone
          have hgone := (mem_note.mp hn).2.1
          simp only [isProcessGroupAlive, hg, Option.any_some] at ha
          simp [seesGone, hx, hg, ha] at hgone
      · cases he
    · cases he
  case terminated i =>
    split at he
    · next x hx =>
      split at he
      · next hp =>
        cases he
        intro live hm
        have hdead : ∀ g, x.kernelPgid = some g → g ∉ note live s (.terminated i)
            (s.terminationEnds i x) := by
          intro g hg hn
          have hl := (mem_note.mp hn).1.resolve_left (by simp [newGroup, acceptedGroup])
          exact hm.ended x (List.mem_of_getElem? hx) (.inr hp) g hl hg
        refine (holding_set (x := x) (y := { x with phase := .done }) hx rfl fun _ => hdead).trans ?_
        refine ⟨fun g hg => ?_, ?_, fun hs => .inl hs, fun g hg => .inl hg, fun z hz _ => .inl hz⟩
        · refine hg.imp (fun hg => ?_) id
          change (if s.kernelPgid = x.kernelPgid then none else s.kernelPgid) = some g at hg
          split at hg
          · cases hg
          · exact hg
        · change (if s.kernelPgid = x.kernelPgid then none else s.kernelPgid) = s.kernelPgid ∨
            (if s.kernelPgid = x.kernelPgid then none else s.kernelPgid) = none ∧ _
          split
          · next hk =>
            exact .inr ⟨rfl, fun g hg => .inr (.inr (hdead g (hk.symm.trans hg)))⟩
          · exact .inl rfl
      · cases he
    · cases he
  case reject =>
    split at he
    · split at he
      · cases he; exact accounted_of_groups rfl
      · cases he
    · cases he
  case resume =>
    split at he
    · split at he
      · cases he; exact accounted_resumeCall _ _ _ _
      · cases he
    · cases he
  case shutdownStarted =>
    split at he
    · next hp =>
      split at he
      · cases he
        refine accounted_of_groups ?_
        unfold State.groups
        rw [hp]
        rfl
      · cases he
    · cases he
  case shutdownStopped =>
    split at he
    · next hp =>
      split at he
      · cases he; exact accounted_shutdownBridge (by rw [hp]; rfl) _
      · cases he
    · cases he
  case shutdownTerminated =>
    split at he
    · next hp =>
      split at he
      · cases he
        refine accounted_of_groups ?_
        unfold State.groups
        rw [hp]
        rfl
      · cases he
    · cases he
  case shutdownReap alive =>
    split at he
    · next g hp =>
      cases he
      intro live _
      have hgroup : s.shutdown.group = g := by rw [hp]; rfl
      unfold shutdownReaps
      split
      · refine accounted_of_groups (e := .shutdownReap alive) ?_ live ‹_›
        have hs := s.signalProcessGroup_groups g .sigterm
        change { (s.signalProcessGroup g .sigterm).groups with shutdown := g } = s.groups
        rw [hs, ← hgroup]
        rfl
      · next ha =>
        refine holding_shutdown (o := none) (by simp) fun x hx => .inr fun hn => ?_
        have hx : s.shutdown.group = some x := hx
        have hgone := (mem_note.mp hn).2.1
        rw [hgroup] at hx
        simp only [isProcessGroupAlive, hx, Option.any_some] at ha
        simp [seesGone, hgroup, hx, ha] at hgone
    · cases he
  case shutdownWriteError =>
    split at he
    · cases he
    · cases he
    · cases he
    · cases he; exact accounted_kill (t := s) rfl rfl

/-- The end of a bridge. -/
theorem holding_ends {e : Event} (c : BridgeId) (r : JsStr) (f : Bridge → Bridge)
    (ht : t.killTimers = (s.bridgeEnds c r f).killTimers) :
    Holding (fun g => g ∉ note live s e t) s.groups (s.bridgeEnds c r f).groups := by
  refine holding_exit (handleExit_groups { s with bridges := s.bridges.modify c f } c r) ?_
  intro g hg hn
  refine (mem_note.mp hn).2.2.2 ?_
  rw [ht]
  exact hg

theorem accounted_reapTimer {i : TerminationId} {x : Termination} {alive : Int → Bool}
    (hx : s.terminations[i]? = some x) (hp : x.phase = .reaping ∨ x.phase = .killing) :
    Accounted s (.reapTimer i alive) (s.reapExpired i x alive) := by
  intro live hm
  unfold reapExpired
  split
  · -- the group is sent SIGKILL
    rw [signalled_groups]
    refine holding_set hx rfl fun _ g hg hn => ?_
    have hkill := (mem_note.mp hn).2.2.1
    rw [hg] at hkill
    cases hkill.symm.trans (killed_of_log (signal_log s g .sigkill) (List.mem_singleton.mpr rfl))
  · next ha =>
    refine holding_set hx rfl fun _ g hg hn => ?_
    rcases hp with hp | hp
    · -- the group is seen gone
      have hgone := (mem_note.mp hn).2.1
      simp only [hp, true_and, isProcessGroupAlive, hg, Option.any_some] at ha
      simp [seesGone, hx, hg, hp, ha] at hgone
    · have hl := (mem_note.mp hn).1.resolve_left (by simp [newGroup, acceptedGroup])
      exact hm.ended x (List.mem_of_getElem? hx) (.inl hp) g hl hg

theorem accounted_task {e : Event} (he : s.stepTask e = some t) : Accounted s e t := by
  cases e <;> simp only [stepTask, reduceCtorEq] at he
  case uv =>
    obtain ⟨x, -, rfl⟩ := Option.map_eq_some_iff.mp he
    refine accounted_of_groups ?_
    unfold uvEnds
    dsimp only
    split
    · rfl
    · split <;> rfl
    · rfl
    · split <;> rfl
    · rfl
  case stderr =>
    split at he
    · cases he
      rw [(s.addStderr_eq _).choose_spec]
      exact accounted_of_groups rfl
    · cases he
  case exit =>
    split at he
    · cases he; exact accounted_of_groups rfl
    · cases he
  case error =>
    split at he
    · cases he; exact fun live _ => holding_ends _ _ (fun b => { b with failed := true }) rfl
    · cases he
  case close c code signal alive =>
    split at he
    · split at he
      · cases he
      · cases he
        intro live _
        rw [bridgeCloses_eq]
        have hends : Holding (fun g => g ∉ note live s (.close c code signal alive)
            (s.bridgeCloses c code signal alive)) s.groups
            (s.bridgeEnds c (exitReason code signal) fun b => { b with closed := true }).groups :=
          holding_ends c _ _ rfl
        have hshut : (s.bridgeEnds c (exitReason code signal) fun b =>
            { b with closed := true }).shutdown.group = (s.shutdown.afterClose c).group :=
          (congrArg ShutdownPhase.group (handleExit_shutdown { s with
            bridges := s.bridges.modify c fun b => { b with closed := true } } c
              (exitReason code signal)).1).trans (afterClose_group c s.shutdown).symm
        have hclosed := hends.trans (holding_closed _ _ alive c)
        unfold State.groups at hclosed ⊢
        rw [bridgeCloses_eq, hshut] at hclosed
        exact hclosed
    · cases he
  case startupTimeout =>
    split at he
    · cases he; exact accounted_of_groups (s.finishStartup_groups _ _)
    · cases he
  case timeout =>
    split at he
    · cases he
    next a ha =>
    split at he
    · cases he
    split at he
    · cases he
      exact accounted_of_groups (interrupt_groups { s with active := some { a with timeout := none } }
        _ _)
    · cases he
  case grace =>
    split at he
    · cases he
    split at he
    · cases he
      unfold graceExpired
      split
      · exact accounted_of_groups rfl
      split
      · exact accounted_of_groups rfl
      split
      · exact accounted_of_groups rfl
      · exact accounted_kill (t := { s with active := none, pendingResetNotice := true }) rfl rfl
    · cases he
  case force i =>
    split at he
    · next x hx =>
      split at he
      · next hp =>
        cases he
        intro live _
        obtain ⟨l, hl⟩ := s.signalProcessGroup_eq x.kernelPgid .sigkill
        unfold forceExpired
        rw [hl]
        dsimp only
        split
        · exact holding_set (x := x) (y := { x with phase := .stopped, forceTimer := false }) hx rfl
            (by simp)
        · exact holding_set (x := x) (y := { x with forceTimer := false }) hx rfl (by simp [hp.1])
      · cases he
    · cases he
  case giveUp =>
    split at he
    · next x hx =>
      split at he
      · cases he
        exact fun live _ => holding_set (x := x)
          (y := { x with phase := .stopped, forceTimer := false }) hx rfl (by simp)
      · cases he
    · cases he
  case reapTimer =>
    split at he
    · next hx =>
      split at he
      · next hp => cases he; exact accounted_reapTimer hx hp
      · cases he
    · cases he
  case killTimer g =>
    split at he
    · cases he
      intro live _
      rw [signalProcessGroup_groups]
      refine ⟨fun x hx => ?_, .inl rfl, fun h => .inl h, fun _ h => .inl h, fun _ h _ => .inl h⟩
      exact hx.imp id (Or.imp id (Or.imp id List.mem_of_mem_erase))
    · cases he
  case shutdownTimeout =>
    split at he
    · next c g hp =>
      cases he
      refine accounted_kill (t := s) rfl ?_
      have hk : s.kill.shutdown.group = g := by rw [kill_phase, hp]; rfl
      change { s.kill.groups with shutdown := g } = s.kill.groups
      rw [← hk]
      rfl
    · cases he
  case shutdownReapTimer alive =>
    split at he
    · next g hp =>
      cases he
      intro live _
      have hgroup : s.shutdown.group = g := by rw [hp]; rfl
      unfold shutdownReapExpired
      split
      · -- the group is sent SIGKILL
        have hs := s.signalProcessGroup_groups g .sigkill
        change Holding _ _ { (s.signalProcessGroup g .sigkill).groups with shutdown := none }
        rw [hs]
        refine holding_shutdown (by simp) fun x hx => .inr fun hn => ?_
        have hx : s.shutdown.group = some x := hx
        obtain rfl : g = some x := hgroup.symm.trans hx
        have hkill := (mem_note.mp hn).2.2.1
        cases hkill.symm.trans (killed_of_log (t := { s.signalProcessGroup (some x) .sigkill with
          shutdown := .killing }) (signal_log s x .sigkill) (List.mem_singleton.mpr rfl))
      · next ha =>
        refine holding_shutdown (o := none) (by simp) fun x hx => .inr fun hn => ?_
        have hx : s.shutdown.group = some x := hx
        have hgone := (mem_note.mp hn).2.1
        rw [hgroup] at hx
        simp only [isProcessGroupAlive, hx, Option.any_some] at ha
        simp [seesGone, hgroup, hx, ha] at hgone
    · next hp =>
      cases he
      refine accounted_of_groups ?_
      unfold State.groups
      rw [hp]
      rfl
    · cases he

theorem acceptedGroup_other {e : Event} (h : ∀ c text disk, e ≠ .line c text disk) :
    s.acceptedGroup e = none := by
  cases e with
  | line c text disk => exact absurd rfl (h c text disk)
  | _ => rfl

/-- **What a step does with the groups**. -/
theorem groups_step {e : Event} (he : step s e = some t) :
    (s.acceptedGroup e = none ∧ Accounted s e t) ∨
    ∃ g, s.acceptedGroup e = some g ∧ IsSafeGroup g ∧
      t.groups = { s.groups with kernelPgid := some g } := by
  unfold step at he
  split at he
  · next c text disk =>
    split at he
    · cases he
      rcases line_groups s c text disk with ⟨hn, v, hv, hu | hu⟩ | hg
      · exact .inl ⟨hn, accounted_of_groups (hu.trans hv)⟩
      · exact .inl ⟨hn, accounted_kill hv hu⟩
      · exact .inr hg
    · cases he
  · next hline =>
    left
    refine ⟨acceptedGroup_other hline, ?_⟩
    split at he
    · next u hj => cases he; exact accounted_job (t := u) hj
    · split at he
      · obtain ⟨u, hu, rfl⟩ := Option.map_eq_some_iff.mp he
        exact accounted_task (t := u) hu
      · cases he

/-! ## Runs -/

/-- The runtime knows safe groups only, and sent signals to no other. -/
def KnowsSafe (s : State) : Prop := (∀ g, s.groups.Knows g → IsSafeGroup g) ∧ SignalsSafe s

theorem knowsSafe_init : KnowsSafe State.init :=
  ⟨by simp [Groups.Knows, State.groups, State.init, ShutdownPhase.group],
    by simp [SignalsSafe, State.init]⟩

theorem knowsSafe_step {e : Event} (h : KnowsSafe s) (he : step s e = some t) : KnowsSafe t := by
  refine ⟨fun g hg => ?_, fun g sig hx => ?_⟩
  · rcases groups_step he with ⟨-, ha⟩ | ⟨x, -, hx, ht⟩
    · exact h.1 g ((ha [] (minded_nil _)).known g hg)
    · rw [ht] at hg
      rcases hg with hg | hg
      · cases hg
        exact hx
      · exact h.1 g (.inr hg)
  · obtain ⟨l, hl, hk, -⟩ := logs_step he
    rw [hl] at hx
    rcases List.mem_append.mp hx with hx | hx
    · exact h.2 g sig hx
    · exact h.1 g (hk g sig hx)

/-- The runtime and its observer. -/
def Tended (w : State × List Int) : Prop := Minded w.1.groups w.2

theorem tended_step {w v : State × List Int} {e : Event} (h : Tended w) (ho : w.1.Admissible e)
    (he : tend w e = some v) : Tended v := by
  obtain ⟨t, ht, rfl⟩ := Option.map_eq_some_iff.mp he
  rcases groups_step ht with ⟨hn, ha⟩ | ⟨g, hg, -, hgroups⟩
  · refine Minded.next h (fun g hg => ?_) (ha w.2 h)
    exact (mem_note.mp hg).1.resolve_left (by simp [newGroup, hn])
  · exact minded_announced h hg ho hgroups

/-- **No kernel process group is forgotten** in an admissible run of a new runtime: a group that
a bridge announced stays with the runtime until it was seen gone, sent SIGKILL, or has one
scheduled. In every run, signals go to safe groups only. -/
theorem noneForgotten_of_admissible (es : List Event) :
    Throughout step SignalsSafe State.init es ∧
      (AllSteps step State.Admissible State.init es →
        Throughout tend NoneForgotten (State.init, []) es) := by
  refine ⟨?_, fun h => ?_⟩
  · exact (invariant_throughout (fun _ _ _ h _ => knowsSafe_step h) knowsSafe_init
      (AllSteps.of_all fun _ _ => trivial)).mono fun _ h => h.2
  · have ht : AllSteps tend (fun w => w.1.Admissible) (State.init, []) es := by
      refine AllSteps.beside (f := Prod.fst) (fun w e v hv => ?_) h
      obtain ⟨t, ht, rfl⟩ := Option.map_eq_some_iff.mp hv
      exact ht
    have hinit : Tended (State.init, []) := minded_nil _
    exact (invariant_throughout (fun _ _ _ => tended_step) hinit ht).mono fun _ h => h.held

/-- A kernel whose bridge exits on its own. -/
def exitRun (disk : Disk) : List Event := startRun disk ++ [
  .close 0 (some 1) none (fun _ => true), .killTimer 7]

set_option maxRecDepth 8000 in
theorem noneForgotten_exitRun :
    Throughout tend NoneForgotten (State.init, []) (exitRun ⟨.error [], none⟩) :=
  (noneForgotten_of_admissible (exitRun ⟨.error [], none⟩)).2 (by decide +kernel)

/-- A startup is cancelled, and then its kernel is announced. -/
def cancelledStartup (disk : Disk) : List Event := [
  .start (some 0), .uv 0 (.ok ()), .runtimeReady 0, .listened 0 (.ok ()) (.ok ()), .abort 0,
  .startupFailed 0, .line 0 (js "\x7b\"type\":\"kernel_started\",\"kernel_pgid\":7\x7d") disk,
  .close 0 none none (fun _ => true)]

set_option maxRecDepth 8000 in
/-- **A kernel announced after its startup was cancelled is forgotten**: the termination captured no
group, and the exit of the bridge was expected. -/
theorem forgotten_cancelledStartup :
    ¬ ∀ es, (runAll tend (State.init, []) es).isSome →
      Throughout tend NoneForgotten (State.init, []) es := by
  intro h
  have hrun : (runAll tend (State.init, []) (cancelledStartup ⟨.error [], none⟩)).any (fun w =>
      w.2.any fun g => ! w.1.groups.holds g) = true := by decide +kernel
  cases ht : runAll tend (State.init, []) (cancelledStartup ⟨.error [], none⟩) with
  | none => simp [ht] at hrun
  | some w =>
    simp only [ht, Option.any_some, List.any_eq_true, Bool.not_eq_true'] at hrun
    obtain ⟨g, hg, hn⟩ := hrun
    have hw := (h _ (by rw [ht]; rfl)).last ht g hg
    simp [hn] at hw

end PiIpython.Runtime
