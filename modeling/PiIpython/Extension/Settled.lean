import PiIpython.Extension.Calls

/-!
# What a call leaves behind

After a cell whose execution resolved, a call that settles has queued one save
(`Checkpointed`): always in the durable tool, and in the Pi tool unless the
cell's full output was to be saved and could not be (`checkpointed_iff`).

The notices that `sync` resolves with are delivered (`Delivered`) if the
results that reach the caller carry them all, those of one `sync` in one
result. This is so after each result of a run in which no call fails once its
`sync` has notices (`delivered_of_kept`).
-/

namespace PiIpython.Extension

open Text

variable {met : Met} {s : Session}

theorem run_map {α β : Type} (f : α → β) (x : Call α) :
    (f <$> x).run.run s = ((x.run.run s).1.map f, (x.run.run s).2) := by
  rw [← bind_pure_comp, run_bind]
  rcases x.run.run s with ⟨_ | a, t⟩ <;> rfl

theorem thrown_frame (s : Session) (toolCallId : CallId) (e : Thrown) :
    (s.thrown toolCallId e).ran = s.ran ∧ (s.thrown toolCallId e).synced = s.synced ∧
      (s.thrown toolCallId e).undelivered = s.undelivered ∧
      (s.thrown toolCallId e).results = s.results := by
  unfold Session.thrown
  split <;> exact ⟨rfl, rfl, rfl, rfl⟩

theorem written_frame (s : Session) (met : Met) (execution : Execution) :
    (s.written met execution).enabled = s.enabled ∧ (s.written met execution).queue = s.queue ∧
      (s.written met execution).held = s.held ∧ (s.written met execution).synced = s.synced ∧
      (s.written met execution).undelivered = s.undelivered ∧
      (s.written met execution).results = s.results := by
  unfold Session.written
  split <;> exact ⟨rfl, rfl, rfl, rfl, rfl, rfl⟩

theorem committed_frame (s : Session) (met : Met) :
    (s.committed met).2.queue = s.queue ∧ (s.committed met).2.held = s.held ∧
      (s.committed met).2.outputs = s.outputs ∧ (s.committed met).2.synced = s.synced ∧
      (s.committed met).2.undelivered = s.undelivered ∧
      (s.committed met).2.results = s.results := by
  unfold Session.committed
  split
  · cases met.commit <;> exact ⟨rfl, rfl, rfl, rfl, rfl, rfl⟩
  · exact ⟨rfl, rfl, rfl, rfl, rfl, rfl⟩

theorem committed_error {e : Thrown} (h : (s.committed met).1 = .error e) :
    s.enabled = true ∧ met.commit = .error e := by
  unfold Session.committed at h
  split at h
  · next henabled => exact ⟨henabled, h⟩
  · cases h

theorem reported_error_iff {execution : Execution} {notices : List JsStr} :
    (∃ e, s.reported met execution notices = .error e) ↔ Unsaved met.files s.outputs execution :=
  ⟨fun ⟨e, he⟩ => ⟨(cellResult_error_iff.mp he).1, e, (cellResult_error_iff.mp he).2⟩,
    fun ⟨ho, e, he⟩ => ⟨e, cellResult_error_iff.mpr ⟨ho, he⟩⟩⟩

/-! ## How a call ends -/

/-- The IDs that the call gives to `sync`. -/
def Adapter.candidates (met : Met) : Adapter → List CheckpointId
  | .pi => checkpointIds met.branch
  | .durable => Durable.checkpointIds (met.scanEntries.toOption.getD [])

/-- The call gets to its `sync`. -/
def Adapter.Syncs (s : Session) (met : Met) : Adapter → Prop
  | .pi => True
  | .durable => (∃ u, met.agent = .ok u) ∧ s.closing = false ∧ ∃ pages, met.scanEntries = .ok pages

/-- What the result of the call reports: the Pi tool adds what `undelivered` holds. -/
def Adapter.received (s : Session) (notices : List JsStr) : Adapter → List JsStr
  | .pi => s.undelivered ++ notices
  | .durable => notices

/-- What `undelivered` holds after a result. -/
def Adapter.left (s : Session) : Adapter → List JsStr
  | .pi => []
  | .durable => s.undelivered

/-- The state of a call whose execution has resolved, once its save is queued. -/
def Session.queued (s : Session) (met : Met) (notices : List JsStr) : List CheckpointId :=
  ((s.noted met notices).counted.saved met).queue

/-- The ends of a call: what it leaves of the queue and of the notices. -/
inductive Ends (s : Session) (met : Met) (a : Adapter) : Except Thrown CellResult → Session → Prop
  /-- Its `sync` did not resolve. -/
  | unsynced {e t} (ran : t.ran = s.ran) (synced : t.synced = s.synced)
      (undelivered : t.undelivered = s.undelivered) (results : t.results = s.results) :
      Ends s met a (.error e) t
  /-- Its execution did not. -/
  | lost {e e' t notices} (syncs : a.Syncs s met)
      (restored : s.restored met (a.candidates met) = .ok notices)
      (execute : met.execute = .error e') (ran : t.ran = s.ran)
      (synced : t.synced = s.synced ++ [notices]) (undelivered : t.undelivered = s.undelivered)
      (results : t.results = s.results) : Ends s met a (.error e) t
  /-- The Pi tool could not save the output. -/
  | unsaved {e t notices execution} (pi : a = .pi)
      (restored : s.restored met (a.candidates met) = .ok notices)
      (execute : met.execute = .ok execution) (fails : Unsaved met.files s.outputs execution)
      (queue : t.queue = (s.noted met notices).queue)
      (synced : t.synced = s.synced ++ [notices]) (undelivered : t.undelivered = s.undelivered)
      (results : t.results = s.results) : Ends s met a (.error e) t
  /-- The durable tool could not, or could not append the checkpoint. -/
  | uncommitted {e t notices execution} (durable : a = .durable) (syncs : a.Syncs s met)
      (restored : s.restored met (a.candidates met) = .ok notices)
      (execute : met.execute = .ok execution)
      (fails : Unsaved met.files s.outputs execution ∨
        s.enabled = true ∧ ∃ e', met.commit = .error e')
      (queue : t.queue = s.queued met notices) (synced : t.synced = s.synced ++ [notices])
      (undelivered : t.undelivered = s.undelivered) (results : t.results = s.results) :
      Ends s met a (.error e) t
  | done {data t notices execution} (restored : s.restored met (a.candidates met) = .ok notices)
      (execute : met.execute = .ok execution)
      (saved : ¬ Unsaved met.files s.outputs execution)
      (carried : data.notices =
        if execution.kernelReset then resetNotice :: a.received s notices
        else a.received s notices)
      (queue : t.queue = s.queued met notices) (synced : t.synced = s.synced ++ [notices])
      (undelivered : t.undelivered = a.left s) (results : t.results = s.results) :
      Ends s met a (.ok data) t

theorem saved_queue_congr {t u : Session} (he : t.enabled = u.enabled) (hq : t.queue = u.queue) :
    (t.saved met).queue = (u.saved met).queue := by
  unfold Session.saved
  rw [he]
  split
  · exact congrArg (· ++ [met.randomUUID]) hq
  · exact hq

theorem saved_of_reported {execution : Execution} {notices : List JsStr} {report : CellReport}
    (h : s.reported met execution notices = .ok report) :
    ¬ Unsaved met.files s.outputs execution := by
  intro hf
  obtain ⟨e, he⟩ := reported_error_iff.mpr hf
  rw [h] at he
  cases he

theorem ends_pi (toolCallId : CallId) : Ends s met .pi
    ((Adapter.pi.call toolCallId met).run.run s).1
    ((Adapter.pi.call toolCallId met).run.run s).2 := by
  obtain ⟨-, houtputs, hundelivered, hran, hsynced, hresults⟩ := waited_frame s met
  change Ends s met .pi ((PiReply.structuredContent <$> Pi.execute toolCallId met).run.run s).1
    ((PiReply.structuredContent <$> Pi.execute toolCallId met).run.run s).2
  rw [run_map, run_piExecute]
  cases hr : s.restored met (checkpointIds met.branch) with
  | error e =>
    obtain ⟨h1, h2, h3, h4⟩ := thrown_frame (s.waited met) toolCallId e
    exact .unsynced (h1.trans hran) (h2.trans hsynced) (h3.trans hundelivered) (h4.trans hresults)
  | ok notices =>
    cases hx : met.execute with
    | error e =>
      obtain ⟨h1, h2, h3, h4⟩ := thrown_frame (s.noted met notices) toolCallId e
      exact .lost trivial hr hx (h1.trans hran) h2 (h3.trans hundelivered) (h4.trans hresults)
    | ok execution =>
      obtain ⟨he, hq, -, hy, hu, hre⟩ := written_frame (s.noted met notices).counted met execution
      dsimp only
      cases hp : (s.noted met notices).counted.reported met execution
          ((s.noted met notices).counted.undelivered ++ notices) with
      | error e =>
        have hf : Unsaved met.files (s.waited met).outputs execution :=
          reported_error_iff.mp ⟨e, hp⟩
        rw [houtputs] at hf
        exact .unsaved rfl hr hx hf hq hy (hu.trans hundelivered) (hre.trans hresults)
      | ok report =>
        have hs := saved_of_reported hp
        have hc := notices_of_cellResult hp
        change ¬ Unsaved met.files (s.waited met).outputs execution at hs
        change report.data.notices = if _ then resetNotice :: ((s.waited met).undelivered ++ notices)
          else (s.waited met).undelivered ++ notices at hc
        rw [houtputs] at hs
        rw [hundelivered] at hc
        obtain ⟨-, h1, h3, h4⟩ :=
          saved_frame { (s.noted met notices).counted.written met execution with undelivered := [] }
            met
        exact .done hr hx hs hc (saved_queue_congr he hq) (h3.trans hy) h1
          (h4.trans (hre.trans hresults))

/-- The durable tool builds its result when the checkpoint is appended. -/
theorem ends_replied {t : Session} {notices : List JsStr} {execution : Execution}
    (hsyncs : Adapter.durable.Syncs s met)
    (hr : s.restored met (Adapter.durable.candidates met) = .ok notices)
    (hx : met.execute = .ok execution) (ho : t.outputs = s.outputs)
    (hq : t.queue = s.queued met notices) (hy : t.synced = s.synced ++ [notices])
    (hu : t.undelivered = s.undelivered) (hre : t.results = s.results) :
    Ends s met .durable
      ((match t.reported met execution notices with
        | .error e => .error (failed e)
        | .ok report => .ok (Durable.reply report execution) : Except Thrown DurableReply).map
        DurableReply.structuredOutput)
      (t.written met execution) := by
  obtain ⟨-, hq', -, hy', hu', hre'⟩ := written_frame t met execution
  cases hp : t.reported met execution notices with
  | error e =>
    have hf := reported_error_iff.mp ⟨e, hp⟩
    rw [ho] at hf
    exact .uncommitted rfl hsyncs hr hx (.inl hf) (hq'.trans hq) (hy'.trans hy) (hu'.trans hu)
      (hre'.trans hre)
  | ok report =>
    have hs := saved_of_reported hp
    rw [ho] at hs
    exact .done hr hx hs (notices_of_cellResult hp) (hq'.trans hq) (hy'.trans hy) (hu'.trans hu)
      (hre'.trans hre)

theorem ends_durable (toolCallId : CallId) : Ends s met .durable
    ((Adapter.durable.call toolCallId met).run.run s).1
    ((Adapter.durable.call toolCallId met).run.run s).2 := by
  obtain ⟨hwenabled, houtputs, hundelivered, hran, hsynced, hresults⟩ := waited_frame s met
  change Ends s met .durable ((DurableReply.structuredOutput <$> Durable.execute met).run.run s).1
    ((DurableReply.structuredOutput <$> Durable.execute met).run.run s).2
  rw [run_map, run_durableExecute]
  cases hagent : met.agent with
  | error e => exact .unsynced rfl rfl rfl rfl
  | ok _ =>
    cases hclosing : s.closing with
    | true => exact .unsynced rfl rfl rfl rfl
    | false =>
      cases hp : met.scanEntries with
      | error e => exact .unsynced rfl rfl rfl rfl
      | ok pages =>
        have hsyncs : Adapter.durable.Syncs s met := ⟨⟨_, hagent⟩, hclosing, pages, hp⟩
        have hids : Adapter.durable.candidates met = Durable.checkpointIds pages := by
          unfold Adapter.candidates
          rw [hp]
          rfl
        dsimp only
        rw [← hids]
        cases hr : s.restored met (Adapter.durable.candidates met) with
        | error e => exact .unsynced hran hsynced hundelivered hresults
        | ok notices =>
          cases hx : met.execute with
          | error e => exact .lost hsyncs hr hx hran rfl hundelivered hresults
          | ok execution =>
            obtain ⟨ho, hu, hy, hre⟩ := saved_frame (s.noted met notices).counted met
            have hframe := committed_frame ((s.noted met notices).counted.saved met) met
            dsimp only
            rcases hc : ((s.noted met notices).counted.saved met).committed met with ⟨e | _, t⟩
            all_goals
              rw [hc] at hframe
              obtain ⟨hq, -, ho', hy', hu', hre'⟩ := hframe
              have hu := hu'.trans (hu.trans hundelivered)
              have hre := hre'.trans (hre.trans hresults)
            · obtain ⟨he, herror⟩ := committed_error (congrArg Prod.fst hc)
              have henabled : s.enabled = true := by
                rw [saved_enabled] at he
                exact hwenabled.symm.trans he
              exact .uncommitted rfl hsyncs hr hx (.inr ⟨henabled, e, herror⟩) hq (hy'.trans hy) hu
                hre
            · exact ends_replied hsyncs hr hx (ho'.trans (ho.trans houtputs)) hq (hy'.trans hy) hu hre

/-! ## The save of a cell -/

/-- The call has queued one save, and once the queue has drained `_held` names it. -/
def Checkpointed (met : Met) (t : Session) : Prop :=
  t.queue = [met.randomUUID] ∧ t.drained.held = some met.randomUUID

theorem checkpointed_of_queue {t : Session} (h : t.queue = [met.randomUUID]) :
    Checkpointed met t := by
  refine ⟨h, ?_⟩
  unfold Session.drained
  rw [h]
  rfl

/-- After `sync` no save waits. -/
theorem noted_queue (henabled : s.enabled = true) (notices : List JsStr) :
    (s.noted met notices).queue = [] := by
  unfold Session.noted Session.waited
  rw [if_pos henabled]

theorem saved_queue (henabled : s.enabled = true) :
    (s.saved met).queue = s.queue ++ [met.randomUUID] := by
  unfold Session.saved
  rw [if_pos henabled]

theorem ends_call (a : Adapter) (toolCallId : CallId) :
    Ends s met a ((a.call toolCallId met).run.run s).1 ((a.call toolCallId met).run.run s).2 := by
  cases a with
  | pi => exact ends_pi toolCallId
  | durable => exact ends_durable toolCallId

theorem queued_eq (henabled : s.enabled = true) (notices : List JsStr) :
    s.queued met notices = [met.randomUUID] := by
  have h : (s.noted met notices).counted.enabled = true := (waited_frame s met).1.trans henabled
  exact (saved_queue h).trans (congrArg (· ++ [met.randomUUID]) (noted_queue henabled notices))

/-- **The save of an executed cell**: the durable tool always queues it, the Pi tool where the full
output of the cell is saved if need be. -/
theorem checkpointed_iff (a : Adapter) (toolCallId : CallId) (henabled : s.enabled = true)
    (hran : ((a.call toolCallId met).run.run s).2.ran = s.ran + 1) :
    Checkpointed met ((a.call toolCallId met).run.run s).2 ↔
      a = .durable ∨
        ∀ execution, met.execute = .ok execution → ¬ Unsaved met.files s.outputs execution := by
  have hends : Ends s met a ((a.call toolCallId met).run.run s).1
    ((a.call toolCallId met).run.run s).2 := ends_call a toolCallId
  generalize ((a.call toolCallId met).run.run s).1 = r at hends
  generalize ((a.call toolCallId met).run.run s).2 = t at hends hran
  cases hends with
  | unsynced ran => omega
  | lost _ _ _ ran => omega
  | @unsaved _ _ notices execution pi _ execute fails queue =>
    subst pi
    refine iff_of_false (fun h => ?_) ?_
    · rw [Checkpointed, queue, noted_queue henabled] at h
      cases h.1
    · rintro (h | h)
      · cases h
      · exact h execution execute fails
  | uncommitted durable _ _ _ _ queue =>
    exact iff_of_true (checkpointed_of_queue (queue.trans (queued_eq henabled _))) (.inl durable)
  | @done _ _ notices execution _ execute saved _ queue =>
    refine iff_of_true (checkpointed_of_queue (queue.trans (queued_eq henabled _))) (.inr ?_)
    intro other hother
    rw [execute] at hother
    cases hother
    exact saved

/-- A session with checkpoints. -/
def Session.fresh : Session where
  enabled := true
  closing := false
  queue := []
  held := none
  outputs := ⟨false, some (js "/tmp/o"), 0⟩
  undelivered := []
  forwarded := ⟨.empty, []⟩
  entries := []
  ran := 0
  synced := []
  results := []

/-- A call that meets no trouble, but for the disk that may be full. -/
def Met.plain (notices : List JsStr) (execute : Except Thrown Execution) (full : Bool) : Met where
  branch := []
  agent := .ok ()
  scanEntries := .ok []
  restoreBranch := fun _ => .ok notices
  held := none
  execute := execute
  randomUUID := js "c1"
  commit := .ok ()
  files :=
    { mkdtempSync := .ok (js "/tmp/o")
      writeFileSync := fun _ _ => if full then .error (js "ENOSPC") else .ok () }
  getConnectionFile := .ok (js "kernel.json")
  toggle := .ok ()

/-- A cell that prints so many newlines. -/
def printed (n : Nat) : Execution :=
  ⟨⟨js "ok", none, none, List.replicate n (unit '\n'), [], 0⟩, false⟩

/-- A short output is not saved, so that a full disk does no harm. -/
theorem checkpointed_short : Checkpointed (.plain [] (.ok (printed 1)) true)
    ((Adapter.pi.call (js "t") (.plain [] (.ok (printed 1)) true)).run.run .fresh).2 := by
  have hsaved : ¬ Unsaved (Met.plain [] (.ok (printed 1)) true).files Session.fresh.outputs
      (printed 1) := fun h => absurd h.1 (by decide +kernel)
  refine (checkpointed_iff .pi (js "t") rfl (by decide +kernel)).mpr (.inr ?_)
  rintro execution h
  cases h
  exact hsaved

/-- The disk is full and the output is long: the cell ran, and no save waits. -/
theorem unsaved_not_checkpointed :
    ((Adapter.pi.call (js "t") (.plain [] (.ok (printed 2001)) true)).run.run .fresh).2.ran = 1 ∧
      ((Adapter.pi.call (js "t") (.plain [] (.ok (printed 2001)) true)).run.run .fresh).2.queue =
        [] ∧
      ¬ Checkpointed (.plain [] (.ok (printed 2001)) true)
        ((Adapter.pi.call (js "t") (.plain [] (.ok (printed 2001)) true)).run.run .fresh).2 := by
  have h : ((Adapter.pi.call (js "t") (.plain [] (.ok (printed 2001)) true)).run.run .fresh).2.ran =
      1 ∧ ((Adapter.pi.call (js "t") (.plain [] (.ok (printed 2001)) true)).run.run
        .fresh).2.queue = [] := by
    decide +kernel
  refine ⟨h.1, h.2, fun hc => ?_⟩
  rw [Checkpointed, h.2] at hc
  cases hc.1

/-! ## The notices of a run -/

inductive Act where
  | call (toolCallId : CallId) (met : Met)
  /-- The console is toggled, between calls. -/
  | cells (met : Met)

/-- Only the Pi extension has a console. -/
def Adapter.Has : Adapter → Act → Prop
  | .durable, .cells _ => False
  | _, _ => True

def Adapter.act (a : Adapter) (s : Session) : Act → Session
  | .call toolCallId met =>
    match (a.call toolCallId met).run.run s with
    | (.ok data, t) => { t with results := t.results ++ [data] }
    | (.error _, t) => t
  | .cells met => ((Pi.toggleCells met).run.run s).2

def Adapter.acts (a : Adapter) (s : Session) (acts : List Act) : Session := acts.foldl a.act s

/-- The result carries these notices, behind that of a reset or alone. -/
def Carries (block : List (List JsStr)) (data : CellResult) : Prop :=
  data.notices = block.flatten ∨ data.notices = resetNotice :: block.flatten

/-- **Every notice is in one result**: the results part the calls of `sync`, in their order. -/
def Delivered (s : Session) : Prop :=
  ∃ blocks, s.synced = blocks.flatten ∧ List.Forall₂ Carries blocks s.results

/-- If the `sync` of the call resolves with a notice, the call ends with a result. -/
def Act.Kept (a : Adapter) (s : Session) : Act → Prop
  | .call _ met => ∀ notices, notices ≠ [] → a.Syncs s met →
      s.restored met (a.candidates met) = .ok notices →
      ∃ execution, met.execute = .ok execution ∧ ¬ Unsaved met.files s.outputs execution ∧
        (a = .durable → s.enabled = true → met.commit = .ok ())
  | .cells _ => True

def Adapter.KeptRun (a : Adapter) (s : Session) : List Act → Prop
  | [] => True
  | act :: acts => a.Has act ∧ act.Kept a s ∧ a.KeptRun (a.act s act) acts

/-- The notices of the latest calls of `sync` are in `undelivered`, those before in the results. -/
structure Waiting (a : Adapter) (s : Session) : Prop where
  none : a = .durable → s.undelivered = []
  blocks : ∃ blocks rest, s.synced = blocks.flatten ++ rest ∧ rest.flatten = s.undelivered ∧
    List.Forall₂ Carries blocks s.results

theorem Waiting.silent {a : Adapter} {t : Session} (h : Waiting a s)
    (hsynced : t.synced = s.synced ++ [[]]) (hundelivered : t.undelivered = s.undelivered)
    (hresults : t.results = s.results) : Waiting a t := by
  obtain ⟨blocks, rest, hs, hrest, hb⟩ := h.blocks
  refine ⟨fun ha => hundelivered.trans (h.none ha), blocks, rest ++ [[]], ?_, ?_, ?_⟩
  · rw [hsynced, hs, List.append_assoc]
  · rw [List.flatten_concat, List.append_nil, hrest, hundelivered]
  · rw [hresults]
    exact hb

theorem Waiting.same {a : Adapter} {t : Session} (h : Waiting a s)
    (hsynced : t.synced = s.synced) (hundelivered : t.undelivered = s.undelivered)
    (hresults : t.results = s.results) : Waiting a t := by
  obtain ⟨blocks, rest, hs, hrest, hb⟩ := h.blocks
  exact ⟨fun ha => hundelivered.trans (h.none ha), blocks, rest, hsynced.trans hs,
    hrest.trans hundelivered.symm, hresults.symm ▸ hb⟩

/-- A result takes all that is pending. -/
theorem Waiting.done {a : Adapter} {t : Session} {notices : List JsStr} {data : CellResult}
    (h : Waiting a s) (hsynced : t.synced = s.synced ++ [notices])
    (hundelivered : t.undelivered = a.left s) (hresults : t.results = s.results)
    {reset : Bool} (hcarried : data.notices =
      if reset then resetNotice :: a.received s notices else a.received s notices) :
    Delivered { t with results := t.results ++ [data] } ∧
      Waiting a { t with results := t.results ++ [data] } := by
  obtain ⟨blocks, rest, hs, hrest, hb⟩ := h.blocks
  have hreceived : a.received s notices = (rest ++ [notices]).flatten := by
    rw [List.flatten_concat, hrest]
    cases a with
    | pi => rfl
    | durable =>
      rw [h.none rfl]
      rfl
  have hall : t.synced = (blocks ++ [rest ++ [notices]]).flatten := by
    rw [hsynced, hs, List.flatten_concat, List.append_assoc]
  have hlast : List.Forall₂ Carries (blocks ++ [rest ++ [notices]]) (t.results ++ [data]) := by
    rw [hresults]
    refine List.rel_append hb (.cons ?_ .nil)
    unfold Carries
    rw [hcarried, hreceived]
    cases reset with
    | false => exact .inl rfl
    | true => exact .inr rfl
  have hleft : a.left s = [] := by
    cases a with
    | pi => rfl
    | durable => exact h.none rfl
  exact ⟨⟨_, hall, hlast⟩, fun _ => hundelivered.trans hleft, _, [],
    hall.trans (List.append_nil _).symm, (hundelivered.trans hleft).symm, hlast⟩

/-- **A toggle of the console** keeps what its `sync` resolves with. -/
theorem Waiting.toggleCells (h : Waiting .pi s) :
    Waiting .pi ((Pi.toggleCells met).run.run s).2 ∧
      ((Pi.toggleCells met).run.run s).2.results = s.results := by
  obtain ⟨-, -, hundelivered, -, hsynced, hresults⟩ := waited_frame s met
  unfold Pi.toggleCells
  rw [run_tryCatch, run_bind, run_sync]
  cases s.restored met (checkpointIds met.branch) with
  | error e => exact ⟨h.same hsynced hundelivered hresults, hresults⟩
  | ok notices =>
    dsimp only
    rw [run_bind, run_modify]
    have hpushed : Waiting .pi { s.noted met notices with
        undelivered := (s.noted met notices).undelivered ++ notices } := by
      obtain ⟨blocks, rest, hs, hrest, hb⟩ := h.blocks
      refine ⟨nofun, blocks, rest ++ [notices], ?_, ?_, ?_⟩
      · exact (congrArg (· ++ [notices]) hs).trans (List.append_assoc ..)
      · rw [List.flatten_concat, hrest]
        exact congrArg (· ++ notices) hundelivered.symm
      · exact hresults.symm ▸ hb
    dsimp only
    rw [run_bind, run_answer]
    cases met.getConnectionFile with
    | error e => exact ⟨hpushed, hresults⟩
    | ok file =>
      dsimp only
      rw [run_answer]
      cases met.toggle <;> exact ⟨hpushed, hresults⟩

/-- **One act** keeps what waits, and a result leaves nothing waiting. -/
theorem Waiting.act {a : Adapter} {act : Act} (h : Waiting a s) (hhas : a.Has act)
    (hkept : act.Kept a s) : Waiting a (a.act s act) ∧
      ((a.act s act).results ≠ s.results → Delivered (a.act s act)) := by
  cases act with
  | cells met =>
    cases a with
    | durable => exact hhas.elim
    | pi => exact ⟨h.toggleCells.1, fun hne => (hne h.toggleCells.2).elim⟩
  | call toolCallId met =>
    have hends : Ends s met a ((a.call toolCallId met).run.run s).1
      ((a.call toolCallId met).run.run s).2 := ends_call a toolCallId
    unfold Adapter.act
    dsimp only
    rcases hrun : (a.call toolCallId met).run.run s with ⟨r, t⟩
    rw [hrun] at hends
    dsimp only at hends ⊢
    cases hends with
    | unsynced _ synced undelivered results =>
      exact ⟨h.same synced undelivered results, fun hne => (hne results).elim⟩
    | @lost _ _ _ notices syncs restored execute _ synced undelivered results =>
      have hnil : notices = [] := by
        by_contra hne
        obtain ⟨execution, hx, -⟩ := hkept notices hne syncs restored
        rw [execute] at hx
        cases hx
      subst hnil
      exact ⟨h.silent synced undelivered results, fun hne => (hne results).elim⟩
    | @unsaved _ _ notices execution pi restored execute fails _ synced undelivered results =>
      have hnil : notices = [] := by
        by_contra hne
        obtain ⟨other, hx, hs, -⟩ := hkept notices hne (pi ▸ trivial) restored
        rw [execute] at hx
        cases hx
        exact hs fails
      subst hnil
      exact ⟨h.silent synced undelivered results, fun hne => (hne results).elim⟩
    | @uncommitted _ _ notices execution durable syncs restored execute fails _ synced undelivered
        results =>
      have hnil : notices = [] := by
        by_contra hne
        obtain ⟨other, hx, hs, hc⟩ := hkept notices hne syncs restored
        rw [execute] at hx
        cases hx
        rcases fails with hf | ⟨henabled, e, he⟩
        · exact hs hf
        · rw [hc durable henabled] at he
          cases he
      subst hnil
      exact ⟨h.silent synced undelivered results, fun hne => (hne results).elim⟩
    | done _ _ _ carried _ synced undelivered results =>
      obtain ⟨hd, hw⟩ := h.done synced undelivered results carried
      exact ⟨hw, fun _ => hd⟩

theorem Waiting.acts {a : Adapter} {acts : List Act} (h : Waiting a s)
    (hkept : a.KeptRun s acts) : Waiting a (a.acts s acts) := by
  induction acts generalizing s with
  | nil => exact h
  | cons act acts ih =>
    obtain ⟨hhas, hk, hrest⟩ := hkept
    exact ih (h.act hhas hk).1 hrest

theorem keptRun_append {a : Adapter} {acts : List Act} {last : Act}
    (h : a.KeptRun s (acts ++ [last])) :
    a.KeptRun s acts ∧ a.Has last ∧ last.Kept a (a.acts s acts) := by
  induction acts generalizing s with
  | nil => exact ⟨trivial, h.1, h.2.1⟩
  | cons act acts ih =>
    obtain ⟨hhas, hk, hrest⟩ := h
    obtain ⟨h1, h2⟩ := ih hrest
    exact ⟨⟨hhas, hk, h1⟩, h2⟩

/-- No notice was resolved with or delivered yet. -/
def Session.Silent (s : Session) : Prop :=
  s.synced = [] ∧ s.undelivered = [] ∧ s.results = []

/-- **No notice is lost** in a run whose calls end with a result once they have notices: whenever a
result reaches the caller, the results carry every notice, each once. -/
theorem delivered_of_kept {a : Adapter} {acts : List Act} {last : Act} (hs : s.Silent)
    (hkept : a.KeptRun s (acts ++ [last]))
    (hdone : (a.acts s (acts ++ [last])).results ≠ (a.acts s acts).results) :
    Delivered (a.acts s (acts ++ [last])) := by
  have hwaiting : Waiting a s :=
    ⟨fun _ => hs.2.1, [], [], hs.1, hs.2.1.symm, by rw [hs.2.2]; exact .nil⟩
  obtain ⟨hacts, hhas, hlast⟩ := keptRun_append hkept
  have heq : a.acts s (acts ++ [last]) = a.act (a.acts s acts) last := List.foldl_concat ..
  rw [heq] at hdone ⊢
  exact ((hwaiting.acts hacts).act hhas hlast).2 hdone

/-- What is delivered is in the results. -/
theorem Delivered.length_le (h : Delivered s) :
    s.synced.flatten.length ≤ (s.results.flatMap (·.notices)).length := by
  obtain ⟨blocks, hs, hb⟩ := h
  rw [hs]
  clear hs
  generalize s.results = results at hb
  induction hb with
  | nil => exact Nat.le_refl _
  | @cons block data blocks results hc _ ih =>
    have hblock : block.flatten.length ≤ data.notices.length := by
      rcases hc with hc | hc <;> rw [hc]
      exact Nat.le_succ _
    rw [List.flatten_cons, List.flatten_append, List.flatMap_cons, List.length_append,
      List.length_append]
    exact Nat.add_le_add hblock ih

/-- The notices of a toggle and of the call after it. -/
theorem delivered_behind_toggle :
    Delivered (Adapter.pi.acts .fresh ([.cells (.plain [js "restored"] (.ok (printed 1)) false)] ++
      [.call (js "t") (.plain [js "not saved"] (.ok (printed 1)) false)])) := by
  refine delivered_of_kept ⟨rfl, rfl, rfl⟩ ⟨trivial, trivial, trivial, ?_, trivial⟩
    (by decide +kernel)
  intro notices _ _ _
  exact ⟨_, rfl, fun h => absurd h.1 (by decide +kernel), nofun⟩

/-- The kernel is lost after a `sync` that had a notice, and the next call has none. -/
def lostActs : List Act :=
  [.call (js "t1") (.plain [js "not saved"] (.error ⟨true, js "lost"⟩) false),
    .call (js "t2") (.plain [] (.ok (printed 1)) false)]

theorem lost_notice :
    ((Adapter.pi.acts .fresh lostActs).results.length = 1 ∧
      ¬ Delivered (Adapter.pi.acts .fresh lostActs)) ∧
    (Adapter.durable.acts .fresh lostActs).results.length = 1 ∧
      ¬ Delivered (Adapter.durable.acts .fresh lostActs) := by
  have h : ∀ a : Adapter, (a.acts .fresh lostActs).results.length = 1 ∧
      (a.acts .fresh lostActs).synced.flatten.length = 1 ∧
        ((a.acts .fresh lostActs).results.flatMap (·.notices)).length = 0 := by
    intro a
    cases a <;> decide +kernel
  have hlost : ∀ a : Adapter, ¬ Delivered (a.acts .fresh lostActs) := by
    intro a hd
    have hlength := hd.length_le
    obtain ⟨-, h1, h0⟩ := h a
    omega
  exact ⟨⟨(h .pi).1, hlost .pi⟩, (h .durable).1, hlost .durable⟩

end PiIpython.Extension
