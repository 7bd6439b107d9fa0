import PiIpython.Bridge.Main

/-!
# Every request is answered once

What the bridge sends for a request is about this request and ends with the one
message that ends it; the next request comes after it. The loop ends with the
input, with a shutdown, at a request that the kernel does not answer, or at one
whose bridge error cannot be sent (`loop_answers`, `main_answers`).
-/

namespace PiIpython.Bridge

open Text Json

variable {repr : Binary64 → PyStr} {other reprOf : PyValue → PyStr}

/-- The `request_id` of a line, `null` when it has none. -/
def idOf (line : PyStr) : PyValue := errorId (Embed.loads line)

/-- The message is output of the request with the id. -/
def OutputOf (id : PyValue) (m : Message) : Prop := ∃ requestId, id = .str requestId ∧ About requestId m

/-- The message is a result or the bridge error of the request. -/
def EndOf (id : PyValue) (m : Message) : Prop :=
  (∃ requestId, id = .str requestId ∧ m.endsRequest = some requestId) ∨
    ∃ e traceback, m = .bridgeError id e traceback

/-- **The answer to a request**: its output, and then the message that ends it. -/
def Answers (id : PyValue) (ms : List Message) : Prop :=
  ∃ outputs m, ms = outputs ++ [m] ∧ (∀ o ∈ outputs, OutputOf id o) ∧ EndOf id m

def IsShutdown (line : PyStr) : Prop :=
  ∃ fs, Embed.loads line = some (.obj fs) ∧
    isStr (py "shutdown") ((Json.obj fs).get? (py "type")) = true

/-- What a request has sent when it goes on, ends the loop, waits or raises. -/
def Speaks (id : PyValue) (shutdown : Prop) : List Message × Outcome Bool → Prop
  | (ms, .returned true) => Answers id ms
  | (ms, .returned false) => ms = [] ∧ shutdown
  | (ms, _) => ∀ m ∈ ms, OutputOf id m

/-! ## `execute` and `evaluate` -/

section Waiting

variable {σ : Type} {capture : σ → Option PyStr → Content → σ} {P : σ → Prop} (msgId : PyStr)

theorem poll_captured (h : ∀ x t c, P x → P (capture x t c)) {w : Waiting σ} (hw : P w.captured)
    (p : Poll) : P (w.poll msgId capture p).captured := by
  have hio : P (p.iopub.elim w (w.onIopub msgId capture)).captured := by
    cases p.iopub with
    | none => exact hw
    | some m =>
      rw [Option.elim_some, Waiting.onIopub]
      split
      · split
        · exact hw
        · exact h _ _ _ hw
      · exact hw
  unfold Waiting.poll
  cases p.shell with
  | none => exact hio
  | some m =>
    simp only [Option.elim_some, Waiting.onShell]
    split <;> exact hio

/-- What every capture keeps, the loop keeps. -/
theorem waitLoop_captured (h : ∀ x t c, P x → P (capture x t c)) : ∀ (polls : List Poll)
    (w : Waiting σ), P w.captured → P (waitLoop msgId capture polls w).1 := by
  intro polls
  induction polls with
  | nil =>
    intro w hw
    unfold waitLoop
    split <;> exact hw
  | cons p polls ih =>
    intro w hw
    unfold waitLoop
    split
    · exact hw
    · have hp := poll_captured msgId h hw p
      simp only
      split
      · exact hp
      · exact ih _ hp

end Waiting

variable (other) in
theorem about_feed {requestId : PyStr} {st : OutputStream} (h : ∀ m ∈ st.sent, About requestId m)
    (t : Option PyStr) (c : Content) :
    ∀ m ∈ (OutputStream.feed other requestId st t c).sent, About requestId m := by
  refine List.forall_mem_append.mpr ⟨h, fun m hm => ?_⟩
  obtain ⟨e, -, he⟩ := List.mem_flatMap.mp hm
  exact about_emitOutput requestId e m he

theorem speaks_execute (met : Met) (requestId : PyStr) (shutdown : Prop) :
    Speaks (.str requestId) shutdown ((execute other requestId met.hidden met.rounds).1,
      (execute other requestId met.hidden met.rounds).2.goesOn) := by
  unfold execute
  cases executeHidden other met.hidden.1 met.hidden.2 with
  | raised e => exact nofun
  | waiting => exact nofun
  | returned _ =>
    have habout := waitLoop_captured (P := fun st : OutputStream => ∀ m ∈ st.sent, About requestId m)
      met.rounds.1 (fun _ t c h => about_feed other h t c) met.rounds.2 ⟨⟨false, []⟩, none, false⟩
      nofun
    unfold waitForExecution
    generalize waitLoop met.rounds.1 (OutputStream.feed other requestId) met.rounds.2
      ⟨⟨false, []⟩, none, false⟩ = r at habout
    obtain ⟨st, outcome⟩ := r
    have hout : ∀ m ∈ st.sent, OutputOf (.str requestId) m :=
      fun m hm => ⟨requestId, rfl, habout m hm⟩
    cases outcome with
    | returned reply => exact ⟨st.sent, _, rfl, hout, .inl ⟨requestId, rfl, rfl⟩⟩
    | raised e => exact hout
    | waiting => exact hout

theorem speaks_evaluate (met : Met) (requestId : PyStr) (shutdown : Prop) :
    Speaks (.str requestId) shutdown
      ((evaluate other met requestId).1, (evaluate other met requestId).2.goesOn) := by
  have hone : ∀ m : Message, m.endsRequest = some requestId →
      Answers (.str requestId) [m] := fun m hm => ⟨[], m, rfl, nofun, .inl ⟨requestId, rfl, hm⟩⟩
  generalize hr : evaluate other met requestId = r
  unfold evaluate at hr
  split at hr
  · cases hr; exact nofun
  · cases hr; exact nofun
  split at hr
  · simp only at hr
    split at hr
    · split at hr
      · cases hr; exact hone _ rfl
      · cases hr; exact nofun
    · cases hr; exact hone _ rfl
  · cases hr; exact nofun

/-! ## A line -/

variable (repr) in
theorem speaks_sendAll {id : PyValue} {shutdown : Prop} {r : List Message × Outcome Bool}
    (h : Speaks id shutdown r) (error : PyStr) : Speaks id shutdown (sendAll repr error r) := by
  unfold sendAll
  split
  · exact h
  · next hall =>
    obtain ⟨ms, outcome⟩ := r
    have hraised : (∀ m ∈ ms.takeWhile (encodable repr), OutputOf id m) →
      Speaks id shutdown (ms.takeWhile (encodable repr), .raised error) := fun h => h
    refine hraised ?_
    have htake : (∀ m ∈ ms, OutputOf id m) → ∀ m ∈ ms.takeWhile (encodable repr), OutputOf id m :=
      fun h m hm => h m ((List.takeWhile_subset _) hm)
    cases outcome with
    | raised e => exact htake h
    | waiting => exact htake h
    | returned b =>
      cases b with
      | false =>
        rw [h.1]
        exact nofun
      | true =>
        -- the message that ends the request is sent after all of its output or not at all
        obtain ⟨outputs, m, rfl, hout, -⟩ := h
        intro o ho
        rw [List.takeWhile_append] at ho
        split at ho
        · next hlen =>
          rw [List.takeWhile_cons] at ho
          split at ho
          · next hm =>
            refine absurd (List.all_eq_true.mpr ?_) hall
            refine List.forall_mem_append.mpr ⟨?_, List.forall_mem_singleton.mpr hm⟩
            rw [← (List.takeWhile_prefix _).eq_of_length hlen]
            exact fun x hx => List.mem_takeWhile_imp hx
          · rw [List.append_nil] at ho
            exact hout o ho
        · exact hout o ((List.takeWhile_subset _) ho)

variable (other reprOf) in
theorem speaks_handle (met : Met) (fs : List (PyStr × PyValue)) :
    Speaks (errorId (some (.obj fs)))
      (isStr (py "shutdown") ((Json.obj fs).get? (py "type")) = true)
      (handle other reprOf met (.obj fs)) := by
  have hid : ∀ {requestId : PyStr}, (Json.obj fs).get? (py "request_id") = some (.str requestId) →
      errorId (some (.obj fs)) = .str requestId := fun h => by rw [errorId, h]; rfl
  generalize hr : handle other reprOf met (.obj fs) = r
  unfold handle at hr
  simp only at hr
  split at hr
  · split at hr
    · next requestId _ _ h _ _ =>
      split at hr
      · cases hr
        rw [hid h]
        exact speaks_execute met requestId _
      · cases hr; exact nofun
    · cases hr; exact nofun
  split at hr
  · split at hr
    · next requestId _ h _ =>
      cases hr
      rw [hid h]
      exact speaks_evaluate met requestId _
    · cases hr; exact nofun
  split at hr
  · next hs => cases hr; exact ⟨rfl, hs⟩
  · cases hr; exact nofun

variable (repr other reprOf) in
theorem speaks_answer (met : Met) (line : PyStr) :
    Speaks (idOf line) (IsShutdown line) (answer repr other reprOf met (Embed.loads line)) := by
  rw [idOf, IsShutdown]
  generalize Embed.loads line = v
  have hraised : ∀ (id : PyValue) (shutdown : Prop) (e : PyStr),
    Speaks id shutdown ([], .raised e) := fun _ _ _ => nofun
  cases v with
  | none => exact hraised _ _ _
  | some v =>
    cases v with
    | obj fs =>
      have h := speaks_sendAll repr (speaks_handle other reprOf met fs) met.error
      rw [answer]
      generalize sendAll repr met.error (handle other reprOf met (.obj fs)) = r at h
      obtain ⟨ms, outcome⟩ := r
      cases outcome with
      | returned b =>
        cases b with
        | true => exact h
        | false => exact ⟨h.1, fs, rfl, h.2⟩
      | raised e => exact h
      | waiting => exact h
    | _ => exact hraised _ _ _

/-- What a line has sent, and where the loop goes. -/
def Serves (repr : Binary64 → PyStr) (line : PyStr) (met : Met) : List Message × Next → Prop
  | (ms, .goOn) => Answers (idOf line) ms
  | (ms, .stop) => ms = [] ∧ IsShutdown line
  | (ms, .waits) => ∀ m ∈ ms, OutputOf (idOf line) m
  | (ms, .raises) => (∀ m ∈ ms, OutputOf (idOf line) m) ∧
    ∃ e, encodable repr (.bridgeError (idOf line) e met.traceback) = false

variable (repr other reprOf) in
theorem serves (line : PyStr) (met : Met) :
    Serves repr line met (serve repr other reprOf line met) := by
  have h := speaks_answer repr other reprOf met line
  unfold serve
  simp only
  generalize answer repr other reprOf met (Embed.loads line) = r at h
  obtain ⟨ms, outcome⟩ := r
  cases outcome with
  | returned b =>
    cases b with
    | true => exact h
    | false => exact h
  | waiting => exact h
  | raised e =>
    simp only
    split
    · exact ⟨ms, _, rfl, h, .inr ⟨e, met.traceback, rfl⟩⟩
    · next hm => exact ⟨h, e, Bool.not_eq_true _ ▸ hm⟩

/-! ## The loop -/

/-- How the loop ends, with what was sent for the request that has no answer. -/
inductive Ended (repr : Binary64 → PyStr) : List Message → Next → List (PyStr × Met) → Prop
  | input : Ended repr [] .stop []
  | shutdown {line : PyStr} {met : Met} {rest : List (PyStr × Met)} (h : IsShutdown line) :
      Ended repr [] .stop ((line, met) :: rest)
  | waits {line : PyStr} {met : Met} {rest : List (PyStr × Met)} {ms : List Message}
      (h : ∀ m ∈ ms, OutputOf (idOf line) m) : Ended repr ms .waits ((line, met) :: rest)
  | raises {line : PyStr} {met : Met} {rest : List (PyStr × Met)} {ms : List Message}
      (h : ∀ m ∈ ms, OutputOf (idOf line) m) {e : PyStr}
      (he : encodable repr (.bridgeError (idOf line) e met.traceback) = false) :
      Ended repr ms .raises ((line, met) :: rest)

variable (repr other reprOf) in
/-- **One answer for each request, in their order.** -/
theorem loop_answers (requests : List (PyStr × Met)) : ∃ served rest blocks last,
    requests = served ++ rest ∧
      (loop repr other reprOf requests).1 = blocks.flatten ++ last ∧
      List.Forall₂ (fun r block => Answers (idOf r.1) block) served blocks ∧
      Ended repr last (loop repr other reprOf requests).2 rest := by
  induction requests with
  | nil => exact ⟨[], [], [], [], rfl, rfl, .nil, .input⟩
  | cons r requests ih =>
    obtain ⟨line, met⟩ := r
    have h := serves repr other reprOf line met
    rw [loop]
    generalize serve repr other reprOf line met = out at h
    obtain ⟨ms, next⟩ := out
    cases next with
    | goOn =>
      obtain ⟨served, rest, blocks, last, hreq, hsent, hall, hended⟩ := ih
      refine ⟨(line, met) :: served, rest, ms :: blocks, last, by rw [hreq]; rfl, ?_,
        .cons h hall, hended⟩
      rw [hsent, List.flatten_cons, List.append_assoc]
    | stop =>
      obtain ⟨rfl, hs⟩ := h
      exact ⟨[], _, [], [], rfl, rfl, .nil, .shutdown hs⟩
    | waits => exact ⟨[], _, [], ms, rfl, rfl, .nil, .waits h⟩
    | raises =>
      obtain ⟨h, e, he⟩ := h
      exact ⟨[], _, [], ms, rfl, rfl, .nil, .raises h he⟩

/-! ## `main` -/

def IsFatal (m : Message) : Prop := ∃ e traceback, m = .fatal e traceback

theorem fatal_finish (l : Launch) (error : Option PyStr) : ∀ m ∈ finish repr l error, IsFatal m := by
  have hcleanup : ∀ m ∈ cleanup repr l, IsFatal m := by
    intro m hm
    unfold cleanup at hm
    split at hm
    · cases hm
    · exact ⟨_, _, List.mem_singleton.mp (List.mem_filter.mp hm).1⟩
  cases error with
  | none => exact hcleanup
  | some e =>
    rw [finish]
    split
    · exact List.forall_mem_cons.mpr ⟨⟨e, l.traceback, rfl⟩, hcleanup⟩
    · exact nofun

variable (other) in
/-- The startup announces the kernel's process group, and is ready with the same one. -/
theorem start_cases (l : Launch) :
    (∃ ms outcome, start other l = (ms, outcome) ∧ (∀ u, outcome ≠ .returned u) ∧
      (ms = [] ∨ ∃ g, 1 < g ∧ l.kernelPgid = some g ∧ ms = [.kernelStarted g])) ∨
    ∃ g, 1 < g ∧ l.kernelPgid = some g ∧
      start other l = ([.kernelStarted g, .ready g l.connectionFile], .returned ()) := by
  generalize hr : start other l = r
  unfold start at hr
  split at hr
  · cases hr; exact .inl ⟨_, _, rfl, nofun, .inl rfl⟩
  · cases hr; exact .inl ⟨_, _, rfl, nofun, .inl rfl⟩
  · next g _ hg =>
    split at hr
    · cases hr; exact .inl ⟨_, _, rfl, nofun, .inl rfl⟩
    · next hlt =>
      have hg1 : 1 < g := Int.not_le.mp hlt
      split at hr
      · cases hr; exact .inl ⟨_, _, rfl, nofun, .inr ⟨g, hg1, hg, rfl⟩⟩
      · split at hr
        · cases hr; exact .inr ⟨g, hg1, hg, rfl⟩
        · next hne => cases hr; exact .inl ⟨_, _, rfl, hne, .inr ⟨g, hg1, hg, rfl⟩⟩

variable (repr other) in
/-- What is sent of it. -/
theorem sendAll_start_cases (l : Launch) :
    (∃ ms outcome, sendAll repr l.error (start other l) = (ms, outcome) ∧
      (∀ u, outcome ≠ .returned u) ∧
      (ms = [] ∨ ∃ g, 1 < g ∧ l.kernelPgid = some g ∧ ms = [.kernelStarted g])) ∨
    ∃ g, 1 < g ∧ l.kernelPgid = some g ∧ sendAll repr l.error (start other l) =
      ([.kernelStarted g, .ready g l.connectionFile], .returned ()) := by
  rcases start_cases other l with ⟨ms, outcome, hstart, hne, hms⟩ | ⟨g, hg, hl, hstart⟩
  · left
    rw [hstart, sendAll]
    split
    · exact ⟨ms, outcome, rfl, hne, hms⟩
    · refine ⟨_, _, rfl, nofun, ?_⟩
      rcases hms with rfl | ⟨g, hg, hl, rfl⟩
      · exact .inl rfl
      · rw [List.takeWhile_cons]
        split
        · exact .inr ⟨g, hg, hl, rfl⟩
        · exact .inl rfl
  · rw [hstart, sendAll]
    split
    · exact .inr ⟨g, hg, hl, rfl⟩
    · next hall =>
      refine .inl ⟨_, _, rfl, nofun, ?_⟩
      rw [List.takeWhile_cons]
      split
      · next hk =>
        rw [List.takeWhile_cons]
        split
        · next hr =>
          refine absurd (List.all_eq_true.mpr ?_) hall
          exact List.forall_mem_cons.mpr ⟨hk, List.forall_mem_singleton.mpr hr⟩
        · exact .inr ⟨g, hg, hl, rfl⟩
      · exact .inl rfl

variable (repr other reprOf) in
/-- **What `main` sends**: without a ready kernel only its group and a fatal error, and else the
group twice and one answer for each request up to the end of the loop. -/
theorem main_answers (l : Launch) (requests : List (PyStr × Met)) :
    (∃ ms last, main repr other reprOf l requests = ms ++ last ∧ (∀ m ∈ last, IsFatal m) ∧
      (ms = [] ∨ ∃ g, 1 < g ∧ l.kernelPgid = some g ∧ ms = [.kernelStarted g])) ∨
    ∃ g next served rest blocks last fatals, 1 < g ∧ l.kernelPgid = some g ∧
      main repr other reprOf l requests = [.kernelStarted g, .ready g l.connectionFile] ++
        (blocks.flatten ++ last) ++ fatals ∧
      requests = served ++ rest ∧
      List.Forall₂ (fun r block => Answers (idOf r.1) block) served blocks ∧
      Ended repr last next rest ∧ (∀ m ∈ fatals, IsFatal m) ∧ (next = .waits → fatals = []) := by
  rw [main]
  rcases sendAll_start_cases repr other l with
    ⟨ms, outcome, hstart, hne, hms⟩ | ⟨g, hg, hl, hstart⟩
  · left
    rw [hstart]
    cases outcome with
    | returned u => exact absurd rfl (hne u)
    | raised e => exact ⟨ms, _, rfl, fatal_finish l _, hms⟩
    | waiting => exact ⟨ms, [], (List.append_nil ms).symm, nofun, hms⟩
  · right
    rw [hstart]
    obtain ⟨served, rest, blocks, last, hreq, hsent, hall, hended⟩ :=
      loop_answers repr other reprOf requests
    generalize loop repr other reprOf requests = r at hsent hended
    obtain ⟨more, next⟩ := r
    obtain rfl : more = blocks.flatten ++ last := hsent
    cases next with
    | waits =>
      exact ⟨g, .waits, served, rest, blocks, last, [], hg, hl, (List.append_nil _).symm, hreq, hall,
        hended, nofun, fun _ => rfl⟩
    | raises =>
      exact ⟨g, .raises, served, rest, blocks, last, _, hg, hl, rfl, hreq, hall, hended,
        fatal_finish l _, nofun⟩
    | stop =>
      exact ⟨g, .stop, served, rest, blocks, last, _, hg, hl, rfl, hreq, hall, hended,
        fatal_finish l _, nofun⟩
    | goOn => cases hended

end PiIpython.Bridge
