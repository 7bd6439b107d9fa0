import PiIpython.Bridge.Threads

/-!
# The kernel does not outlive its owner

In an orderly run the bridge leaves no kernel behind (`kernel_reaped`), and
once the owner is dead the monitor ends the bridge in a bounded number of its
own statements, whatever the main thread does (`owner_death_reaps`).
-/

namespace PiIpython.Bridge.Threads

section Runs

variable {s t : State}

/-- No SIGTERM is handled at the entry of the `finally`, `shutdown_kernel` does not fail while the
owner lives, and nobody kills the bridge, once the kernel is let go. -/
def Orderly (s : State) : Event → Prop
  | .sigterm => s.main = .cleanup → s.authorized = false
  | .shutdownKernel raised => raised = true → s.ownerAlive = false
  | .killed => s.authorized = false
  | _ => True

instance Orderly.decidable (s : State) : ∀ e, Decidable (Orderly s e)
  | .sigterm => inferInstanceAs (Decidable (_ → _))
  | .shutdownKernel _ => inferInstanceAs (Decidable (_ → _))
  | .killed => inferInstanceAs (Decidable (_ = _))
  | .main | .launched _ | .started _ | .raised | .monitor | .exit | .ownerExits | .kernel
  | .kernelExits => .isTrue trivial

theorem State.Inv.init : State.init.Inv where
  running := nofun
  recorded := nofun
  mainLock := iff_of_false nofun nofun
  monitorLock := iff_of_false nofun nofun
  main := ⟨rfl, rfl⟩
  monitor := trivial
  gone := nofun

/-- The bridge process ends. -/
theorem State.Inv.ends (h : s.Inv) (hdead : s.authorized = true → s.kernel = .dead) :
    { s with alive := false }.Inv :=
  h.frame ⟨rfl, id, rfl, rfl, rfl, rfl, id, id, .inl, id, fun _ => id⟩ Iff.rfl h.monitorLock
    (h.monitor.keep ⟨id, fun _ ha => ⟨ha, rfl⟩, id⟩) fun _ => hdead

/-- The kernel ends. -/
theorem State.Inv.killed (h : s.Inv) : { s with kernel := .dead }.Inv :=
  h.frame ⟨rfl, id, rfl, rfl, rfl, rfl, fun _ => nofun, fun _ => rfl, nofun, id, fun _ => id⟩
    Iff.rfl h.monitorLock (h.monitor.keep ⟨id, fun _ ha => ⟨ha, rfl⟩, fun _ => rfl⟩) fun _ _ => rfl

theorem State.Inv.stepKernel (h : s.Inv) (hs : s.stepKernel = some t) : t.Inv := by
  unfold State.stepKernel at hs
  split at hs
  · next hk =>
    have hgated : s.kernel = .dead → Kernel.running = .dead := fun hd => by
      rw [hk] at hd
      cases hd
    split at hs
    · next ha =>
      cases hs
      exact h.frame ⟨rfl, id, rfl, rfl, rfl, rfl, fun _ => nofun, hgated, fun _ => .inr ha, id,
        fun _ => id⟩ Iff.rfl h.monitorLock (h.monitor.keep ⟨id, fun _ ha => ⟨ha, rfl⟩, hgated⟩)
        fun hg ha => hgated (h.gone hg ha)
    · split at hs
      · cases hs
      · cases hs
        exact h.killed
  · cases hs

theorem State.Inv.stepBridge {e : Event} (h : s.Inv) (halive : s.alive = true) (ho : Orderly s e)
    (hs : s.stepBridge e = some t) : t.Inv := by
  have hat := h.main
  cases e with
  | main => exact h.stepMain halive hs
  | monitor => exact h.stepMonitor hs
  | launched group =>
    dsimp only [State.stepBridge] at hs
    split at hs
    · next hm =>
      cases hs
      rw [hm.1] at hat
      have hna : ¬ s.authorized = true := by rw [show s.authorized = false from hat]; exact nofun
      refine h.moved ⟨id, fun _ ha => absurd ha hna, fun hd => ?_⟩ rfl halive rfl nofun
        (fun ha => absurd ha hna) h.mainLock Iff.rfl ?_
      · rw [hm.2] at hd
        cases hd
      · rw [hm.1]
        exact hat
    · cases hs
  | started pgid =>
    dsimp only [State.stepBridge] at hs
    split at hs
    · next hm =>
      cases hs
      have hlock := h.mainLock
      rw [hm.1] at hat hlock
      exact h.moved ⟨id, fun _ ha => ⟨ha, rfl⟩, id⟩ rfl halive rfl h.running
        (fun ha => ⟨(h.recorded ha).1, rfl, (h.recorded ha).2.2⟩) hlock Iff.rfl
        ⟨hat, hm.2.1, rfl, hm.2.2⟩
    · cases hs
  | raised =>
    dsimp only [State.stepBridge] at hs
    split at hs
    · next hm =>
      cases hs
      rw [hm] at hat
      refine h.goto (hm ▸ rfl) fun ha => ?_
      rw [hat.1] at ha
      cases ha
    · split at hs
      · cases hs
        exact h.unwind halive
      · cases hs
  | shutdownKernel raised =>
    dsimp only [State.stepBridge] at hs
    split at hs
    · next hm =>
      cases hs
      have hlock := h.mainLock
      rw [hm] at hlock
      have hkernel : ∀ k, s.kernel = k → (if s.hasKernel = true ∧ (!raised) = true then Kernel.dead
          else s.kernel) = .dead ∨ (if s.hasKernel = true ∧ (!raised) = true then Kernel.dead
          else s.kernel) = k := by
        rintro k rfl
        split
        · exact .inl rfl
        · exact .inr rfl
      refine h.moved ⟨id, fun _ ha => ⟨ha, rfl⟩, fun hd => (hkernel _ hd).elim id id⟩ rfl halive rfl
        (fun hr => ?_) (fun ha => ⟨?_, (h.recorded ha).2⟩) hlock Iff.rfl fun ha => ?_
      · dsimp only at hr
        split at hr
        · cases hr
        · exact h.running hr
      · dsimp only
        split
        · exact nofun
        · exact (h.recorded ha).1
      · cases raised with
        | false => exact .inl (if_pos ⟨(h.recorded ha).2.1, rfl⟩)
        | true => exact .inr (ho rfl)
    · cases hs
  | sigterm =>
    dsimp only [State.stepBridge] at hs
    split at hs
    · next hm =>
      cases hs
      rcases hm with hm | hm
      · rw [hm] at hat
        refine h.goto (hm ▸ rfl) fun ha => ?_
        rw [hat.1] at ha
        cases ha
      · refine h.goto (hm ▸ rfl) fun ha => ?_
        rw [ho hm] at ha
        cases ha
    · split at hs
      · cases hs
        exact h.unwind halive
      · cases hs
        exact h
  | exit =>
    dsimp only [State.stepBridge] at hs
    split at hs
    · next hm =>
      cases hs
      rw [hm] at hat
      exact h.ends hat
    · cases hs
  | killed =>
    cases hs
    refine h.ends fun ha => ?_
    have : s.authorized = false := ho
    rw [this] at ha
    cases ha
  | ownerExits => cases hs
  | kernel => cases hs
  | kernelExits => cases hs

theorem State.Inv.step {e : Event} (h : s.Inv) (ho : Orderly s e) (hs : s.step e = some t) :
    t.Inv := by
  unfold State.step at hs
  split at hs
  · cases hs
    exact h.frame ⟨rfl, id, rfl, rfl, rfl, rfl, id, id, .inl, fun _ => rfl, fun _ => id⟩ Iff.rfl
      h.monitorLock (h.monitor.keep ⟨id, fun _ ha => ⟨ha, rfl⟩, id⟩) h.gone
  · exact h.stepKernel hs
  · split at hs
    · cases hs
    · cases hs
      exact h.killed
  · split at hs
    · next halive => exact h.stepBridge halive ho hs
    · cases hs

/-- No code of the kernel runs any more: what is left of it ends at its next step. -/
def State.Reaped (s : State) : Prop :=
  s.kernel ≠ .running ∧ (s.kernel = .gated → s.step .kernel = some { s with kernel := .dead })

theorem State.Inv.reaped (h : s.Inv) (hgone : s.alive = false) : s.Reaped := by
  have hna : ∀ k, s.kernel = k → k ≠ .dead → s.authorized = false := by
    rintro k rfl hk
    cases ha : s.authorized with
    | false => rfl
    | true => exact absurd (h.gone hgone ha) hk
  refine ⟨fun hk => ?_, fun hk => ?_⟩
  · have ha := hna _ hk nofun
    rw [h.running hk] at ha
    cases ha
  · have ha := hna _ hk nofun
    change s.stepKernel = _
    unfold State.stepKernel
    rw [if_pos hk, if_neg (by rw [ha]; exact nofun), if_neg fun hw => ?_]
    rw [hgone] at hw
    cases hw.2

/-- **The bridge leaves no kernel behind**: in an orderly run, once the bridge process is gone no
code of its kernel runs, now or later. -/
theorem kernel_reaped {es : List Event} (hok : AllSteps State.step Orderly .init es) :
    Throughout State.step (fun s => s.alive = false → s.Reaped) .init es :=
  (invariant_throughout (fun _ _ _ hs ho ht => hs.step ho ht) State.Inv.init hok).mono
    fun _ hs hgone => hs.reaped hgone

/-- The kernel is launched, recorded and let go. -/
def letGo : List Event :=
  [.main, .main, .main, .launched 7, .started (some 7), .main, .main, .main, .main, .main, .main,
    .kernel]

/-- The owner dies and the main thread hangs; the monitor ends the kernel and the bridge. -/
def abandoned : List Event := letGo ++ [.ownerExits] ++ List.replicate 12 .monitor

theorem kernel_reaped_abandoned :
    ((runAll State.step .init abandoned).any fun s => ! s.alive && s.kernel = .dead) = true ∧
      Throughout State.step (fun s => s.alive = false → s.Reaped) .init abandoned :=
  ⟨by decide, kernel_reaped (by decide)⟩

/-- A SIGTERM at the entry of the `finally` leaves the kernel behind. -/
example : ((runAll State.step .init (letGo ++ [.ownerExits, .main, .sigterm, .exit])).any fun s =>
    ! s.alive && ! s.ownerAlive && s.kernel = .running) = true := by decide

/-! ## The monitor gets there -/

/-- The statements of `kill_kernel_group` that are left. -/
def Killing.left : Killing → Nat
  | .lock => 5
  | .read => 4
  | .unlock _ => 3
  | .killpg _ => 2
  | .wait => 1

/-- The statements of the monitor that are left, once the owner is dead. -/
def MonitorAt.left : MonitorAt → Nat
  | .idle => 0
  | .poll => 12
  | .lock => 11
  | .mark => 10
  | .unlock => 9
  | .terminate => 8
  | .sleep => 7
  | .killing k => k.left + 1
  | .exiting => 1

theorem State.kill_left {th : Thread} {k : Killing} {next : Option Killing}
    (h : s.kill th k = some (next, t)) :
    t.ownerAlive = s.ownerAlive ∧ (State.monitorKilling next).left = k.left := by
  unfold State.kill at h
  cases k with
  | lock =>
    dsimp only at h
    split at h
    · cases h
      exact ⟨rfl, rfl⟩
    · cases h
  | _ =>
    cases h
    exact ⟨rfl, rfl⟩

/-- One statement of the monitor. -/
theorem State.stepMonitor_left (ho : s.ownerAlive = false) (h : s.stepMonitor = some t)
    (halive : t.alive = true) :
    t.monitor ≠ .idle ∧ t.ownerAlive = false ∧ t.monitor.left + 1 = s.monitor.left := by
  unfold State.stepMonitor at h
  cases hm : s.monitor with
  | idle =>
    rw [hm] at h
    cases h
  | poll =>
    rw [hm, ho] at h
    cases h
    exact ⟨nofun, rfl, rfl⟩
  | lock =>
    rw [hm] at h
    dsimp only at h
    split at h
    · cases h
      exact ⟨nofun, ho, rfl⟩
    · cases h
  | killing k =>
    rw [hm] at h
    obtain ⟨⟨next, u⟩, hu, rfl⟩ := Option.map_eq_some_iff.mp h
    obtain ⟨hown, hleft⟩ := State.kill_left hu
    exact ⟨by cases next <;> exact nofun, hown.trans ho, congrArg (· + 1) hleft⟩
  | exiting =>
    rw [hm] at h
    cases h
    cases halive
  | _ =>
    rw [hm] at h
    cases h
    exact ⟨nofun, ho, rfl⟩

theorem State.stepMain_monitor (hs : s.main ≠ .startMonitor) (h : s.stepMain = some t) :
    t.monitor = s.monitor ∧ t.ownerAlive = s.ownerAlive := by
  unfold State.stepMain at h
  cases hm : s.main with
  | startMonitor => exact absurd hm hs
  | launch => rw [hm] at h; cases h
  | shutdownKernel => rw [hm] at h; cases h
  | exiting => rw [hm] at h; cases h
  | checkGroup pgid =>
    rw [hm] at h
    cases pgid with
    | none => cases h; exact ⟨rfl, rfl⟩
    | some p =>
      dsimp only at h
      split at h <;> cases h <;> exact ⟨rfl, rfl⟩
  | lock p =>
    rw [hm] at h
    dsimp only at h
    split at h
    · cases h
      exact ⟨rfl, rfl⟩
    · cases h
  | recheck =>
    rw [hm] at h
    dsimp only at h
    split at h <;> cases h <;> exact ⟨rfl, rfl⟩
  | killing last k =>
    rw [hm] at h
    obtain ⟨⟨next, u⟩, hu, rfl⟩ := Option.map_eq_some_iff.mp h
    unfold State.kill at hu
    cases k with
    | lock =>
      dsimp only at hu
      split at hu
      · cases hu
        exact ⟨rfl, rfl⟩
      · cases hu
    | _ =>
      cases hu
      exact ⟨rfl, rfl⟩
  | _ =>
    rw [hm] at h
    cases h
    exact ⟨rfl, rfl⟩

theorem State.step_left {e : Event} (hi : s.Inv) (hm : s.monitor ≠ .idle)
    (ho : s.ownerAlive = false) (h : s.step e = some t) (halive : t.alive = true) :
    t.monitor ≠ .idle ∧ t.ownerAlive = false ∧
      t.monitor.left + [e].count .monitor = s.monitor.left := by
  have hsame : e ≠ .monitor → t.monitor = s.monitor ∧ t.ownerAlive = s.ownerAlive →
      t.monitor ≠ .idle ∧ t.ownerAlive = false ∧
        t.monitor.left + [e].count .monitor = s.monitor.left := by
    rintro he ⟨h1, h2⟩
    rw [h1, h2, List.count_singleton, if_neg (by simpa using he)]
    exact ⟨hm, ho, rfl⟩
  unfold State.step at h
  split at h
  · cases h
    exact hsame nofun ⟨rfl, ho.symm⟩
  · refine hsame nofun ?_
    unfold State.stepKernel at h
    split at h
    · split at h
      · cases h
        exact ⟨rfl, rfl⟩
      · split at h
        · cases h
        · cases h
          exact ⟨rfl, rfl⟩
    · cases h
  · split at h
    · cases h
    · cases h
      exact hsame nofun ⟨rfl, rfl⟩
  · split at h
    · cases e with
      | monitor => exact State.stepMonitor_left ho h halive
      | main =>
        refine hsame nofun (State.stepMain_monitor (fun he => hm ?_) h)
        have := hi.main
        rw [he] at this
        exact this.2
      | exit =>
        refine hsame nofun ?_
        dsimp only [State.stepBridge] at h
        split at h
        · cases h
          cases halive
        · cases h
      | killed =>
        cases h
        cases halive
      | ownerExits => cases h
      | kernel => cases h
      | kernelExits => cases h
      | sigterm =>
        refine hsame nofun ?_
        dsimp only [State.stepBridge] at h
        split at h
        · cases h
          exact ⟨rfl, rfl⟩
        · split at h <;> cases h <;> exact ⟨rfl, rfl⟩
      | raised =>
        refine hsame nofun ?_
        dsimp only [State.stepBridge] at h
        split at h
        · cases h
          exact ⟨rfl, rfl⟩
        · split at h <;> cases h
          exact ⟨rfl, rfl⟩
      | _ =>
        refine hsame nofun ?_
        dsimp only [State.stepBridge] at h
        split at h <;> cases h
        exact ⟨rfl, rfl⟩
    · cases h

/-- A dead bridge stays dead. -/
theorem State.step_gone {e : Event} (h : s.step e = some t) (halive : t.alive = true) :
    s.alive = true := by
  unfold State.step at h
  split at h
  · cases h
    exact halive
  · unfold State.stepKernel at h
    split at h
    · split at h
      · cases h
        exact halive
      · split at h
        · cases h
        · cases h
          exact halive
    · cases h
  · split at h
    · cases h
    · cases h
      exact halive
  · split at h
    · next hs => exact hs
    · cases h

theorem State.run_gone : ∀ {es : List Event} {s t : State}, runAll State.step s es = some t →
    t.alive = true → s.alive = true
  | [], s, t, h, ha => by
    cases h
    exact ha
  | e :: es, s, t, h, ha => by
    rw [runAll_cons, Option.bind_eq_some_iff] at h
    obtain ⟨u, hu, h⟩ := h
    exact State.step_gone hu (run_gone h ha)

theorem State.run_left : ∀ {es : List Event} {s t : State}, s.Inv → s.monitor ≠ .idle →
    s.ownerAlive = false → AllSteps State.step Orderly s es → runAll State.step s es = some t →
    t.alive = true →
      t.Inv ∧ t.monitor ≠ .idle ∧ t.monitor.left + es.count .monitor = s.monitor.left
  | [], s, t, hi, hm, _, _, h, _ => by
    cases h
    exact ⟨hi, hm, rfl⟩
  | e :: es, s, t, hi, hm, ho, hok, h, halive => by
    rw [runAll_cons, Option.bind_eq_some_iff] at h
    obtain ⟨u, hu, h⟩ := h
    have hua : u.alive = true := State.run_gone h halive
    obtain ⟨hum, huo, hul⟩ := State.step_left hi hm ho hu hua
    obtain ⟨hti, htm, htl⟩ := run_left (hi.step hok.1 hu) hum huo (hok.2 u hu) h halive
    refine ⟨hti, htm, ?_⟩
    rw [← hul, ← htl, List.count_cons, List.count_singleton, Nat.add_assoc]

/-- The main thread never keeps the lock: four of its statements at most give it up. -/
theorem State.Inv.unlocks (hi : s.Inv) (halive : s.alive = true) (hl : s.lock = some .main) :
    ∃ n ≤ 4, ∃ t, runAll State.step s (List.replicate n .main) = some t ∧ t.lock = none := by
  have hm := hi.mainLock.mp hl
  obtain ⟨main, _, alive, ownerAlive, ownerDead, _, lock, _⟩ := s
  obtain rfl : alive = true := halive
  obtain rfl : lock = some .main := hl
  cases main with
  | record p =>
    cases ownerDead with
    | true => exact ⟨2, by decide, _, rfl, rfl⟩
    | false =>
      cases ownerAlive with
      | false => exact ⟨2, by decide, _, rfl, rfl⟩
      | true => exact ⟨4, le_refl 4, _, rfl, rfl⟩
  | recheck =>
    cases ownerDead with
    | true => exact ⟨1, by decide, _, rfl, rfl⟩
    | false =>
      cases ownerAlive with
      | false => exact ⟨1, by decide, _, rfl, rfl⟩
      | true => exact ⟨3, by decide, _, rfl, rfl⟩
  | authorize => exact ⟨2, by decide, _, rfl, rfl⟩
  | unlock => exact ⟨1, by decide, _, rfl, rfl⟩
  | killing last k =>
    cases k with
    | read => exact ⟨2, by decide, _, rfl, rfl⟩
    | unlock pgid => exact ⟨1, by decide, _, rfl, rfl⟩
    | _ => cases hm
  | _ => cases hm

/-- The monitor can go on, but for a lock that the main thread holds. -/
theorem State.Inv.monitor_goes_on (hi : s.Inv) (halive : s.alive = true) (hm : s.monitor ≠ .idle) :
    (s.step .monitor).isSome ∨ s.lock = some .main := by
  have hstep : s.step .monitor = s.stepMonitor := if_pos halive
  have hheld : s.monitor.locked = false → s.lock ≠ none → s.lock = some .main := by
    intro hf hl
    rcases h : s.lock with _ | _ | _
    · exact absurd h hl
    · rfl
    · rw [hi.monitorLock.mp h] at hf
      cases hf
  rw [hstep]
  unfold State.stepMonitor
  cases hat : s.monitor with
  | idle => exact absurd hat hm
  | lock =>
    dsimp only
    split
    · exact .inl rfl
    · next hl => exact .inr (hheld (hat ▸ rfl) hl)
  | killing k =>
    cases k with
    | lock =>
      dsimp only [State.kill]
      split
      · exact .inl rfl
      · next hl => exact .inr (hheld (hat ▸ rfl) hl)
    | _ => exact .inl rfl
  | _ => exact .inl rfl

theorem MonitorAt.left_pos {m : MonitorAt} (hm : m ≠ .idle) : 0 < m.left ∧ m.left ≤ 12 := by
  cases m with
  | idle => exact absurd rfl hm
  | killing k => cases k <;> simp [left, Killing.left]
  | _ => exact ⟨by decide, by decide⟩

/-- **The kernel does not outlive its owner**: in an orderly run, after the owner's death, the
monitor has at most twelve statements left, whatever the main thread does. Until the bridge is gone
the monitor can go on, or the main thread gives up the lock by at most four of its statements; and
once it is gone no code of the kernel runs. -/
theorem owner_death_reaps {es ds : List Event} (hes : AllSteps State.step Orderly .init es)
    (hs : runAll State.step .init es = some s) (hm : s.monitor ≠ .idle) (ho : s.ownerAlive = false)
    (hds : AllSteps State.step Orderly s ds) (ht : runAll State.step s ds = some t) :
    if t.alive then
      ds.count .monitor < 12 ∧ ((t.step .monitor).isSome ∨
        ∃ n ≤ 4, ∃ u, runAll State.step t (List.replicate n .main) = some u ∧ u.lock = none)
    else t.Reaped := by
  have hi : s.Inv := invariant_runAll (fun _ _ _ hs ho ht => hs.step ho ht) State.Inv.init hes hs
  split
  · next halive =>
    obtain ⟨hti, htm, hleft⟩ := State.run_left hi hm ho hds ht halive
    have hpos := (MonitorAt.left_pos htm).1
    have hle := (MonitorAt.left_pos hm).2
    exact ⟨by omega, (hti.monitor_goes_on halive htm).imp_right (hti.unlocks halive)⟩
  · next hgone =>
    have hti : t.Inv := invariant_runAll (fun _ _ _ hs ho ht => hs.step ho ht) hi hds ht
    exact hti.reaped (Bool.eq_false_iff.mpr hgone)

theorem owner_death_reaps_abandoned : ∃ t, runAll State.step .init abandoned = some t ∧
    t.Reaped := by
  refine ⟨_, rfl, ?_⟩
  have h := @owner_death_reaps _ _ (letGo ++ [.ownerExits]) (List.replicate 12 .monitor) (by decide)
    rfl nofun rfl (by decide) rfl
  exact h

end Runs

end PiIpython.Bridge.Threads
