import PiIpython.Lib.Dict
import PiIpython.Lib.JsString

/-!
# Notices of nested cells

The `tool_result` handler of `ipython.ts`, and the entry that `execute` leaves
in `forwarded` when a call lost the kernel. A history is the list of these
events, the latest first.

`below h id` are the notices that the events of a history owe to a call: those
of the calls that it made, each with what it was owed itself, in the order in
which their results came. The map holds just that until the call's own result
arrives (`forwarded_run`), so the result of a root carries the notices of its
tree, each once, and leaves no entry of it behind (`root_notices`). Within a
tree the order is that of the results of a call's children; across its
subtrees it is not that of the events (`crossed_notices`).
-/

namespace PiIpython.Extension

open Text

abbrev CallId := JsStr

inductive Part where
  | text (text : JsStr)
  | image (data mimeType : JsStr)
  deriving DecidableEq

structure ToolResult where
  toolCallId : CallId
  parentToolCallId : Option CallId
  toolName : JsStr
  content : List Part
  /-- The checkpoint of the details, where they have one. -/
  checkpoint : Option JsStr
  /-- The notices of the structured content, where it has a list of them. -/
  notices : Option (List JsStr)
  deriving DecidableEq

inductive Event where
  /-- The call lost the kernel, and its execution throws. -/
  | lost (id : CallId)
  | result (event : ToolResult)
  deriving DecidableEq

structure State where
  forwarded : Dict CallId (List JsStr)
  /-- Checkpoint entries appended to the branch. -/
  entries : List JsStr

def resetNotice : JsStr :=
  join (js "\n") [js "<ipython_kernel_reset>",
    js "The IPython kernel stopped. All in-memory variables, imports, tasks, and open resources " ++
      js "from the previous kernel were lost; recreate them before continuing.",
    js "</ipython_kernel_reset>"]

/-- A cell that another tool ran. -/
def ToolResult.nestedCell (event : ToolResult) : Bool :=
  event.toolName = js "ipython" && event.parentToolCallId.isSome

/-- The notices that the result itself brings. -/
def ToolResult.own (event : ToolResult) : List JsStr :=
  if event.nestedCell then event.notices.getD [] else []

/-- `forwarded.set(toolCallId, [RESET_NOTICE])`. -/
def onLost (s : State) (id : CallId) : State :=
  { s with forwarded := s.forwarded.set id [resetNotice] }

/-- The handler answers the content of a result that it changes. -/
def onToolResult (s : State) (event : ToolResult) : State × Option (List Part) :=
  let notices := (s.forwarded.get? event.toolCallId).getD [] ++ event.own
  let forwarded := s.forwarded.erase event.toolCallId
  let entries := if event.nestedCell then s.entries ++ event.checkpoint.toList else s.entries
  if notices = [] then (⟨forwarded, entries⟩, none)
  else
    match event.parentToolCallId with
    | some parent =>
      (⟨forwarded.set parent ((forwarded.get? parent).getD [] ++ notices), entries⟩, none)
    | none =>
      (⟨forwarded, entries⟩, some (event.content ++ [.text (join (js "\n\n") notices)]))

def step (s : State) : Event → State
  | .lost id => onLost s id
  | .result event => (onToolResult s event).1

/-- The state after a history. -/
def run : List Event → State
  | [] => ⟨.empty, []⟩
  | e :: h => step (run h) e

/-! ## Histories -/

/-- The calls whose results have come. -/
def reported : List Event → List CallId
  | [] => []
  | .lost _ :: h => reported h
  | .result event :: h => event.toolCallId :: reported h

/-- No call has two results, and each result comes before that of the call above it. A call that
loses the kernel does so once, before its result and before any result of a call it made. -/
def WellOrdered : List Event → Prop
  | [] => True
  | .lost id :: h => WellOrdered h ∧ id ∉ reported h ∧ Event.lost id ∉ h ∧
      ∀ event, Event.result event ∈ h → event.parentToolCallId ≠ some id
  | .result event :: h => WellOrdered h ∧ event.toolCallId ∉ reported h ∧
      ∀ parent, event.parentToolCallId = some parent →
        parent ≠ event.toolCallId ∧ parent ∉ reported h

/-- The notices that are owed to a call, by the results of the calls it made. -/
def below : List Event → CallId → List JsStr
  | [], _ => []
  | .lost id' :: h, id => below h id ++ if id' = id then [resetNotice] else []
  | .result event :: h, id =>
    below h id ++
      if event.parentToolCallId = some id then below h event.toolCallId ++ event.own else []

/-- The calls of the trees below the given ones. A result comes before its parent's, so going
back from the latest event each call is met after the one that made it. -/
def tree : List Event → List CallId → List CallId
  | [], ids => ids
  | .lost _ :: h, ids => tree h ids
  | .result event :: h, ids =>
    tree h (if event.parentToolCallId.any (ids.contains ·) then event.toolCallId :: ids else ids)

/-- The notices that the events of these trees contribute, in the order of the events. -/
def gathered : List Event → List CallId → List JsStr
  | [], _ => []
  | .lost id :: h, ids => gathered h ids ++ if id ∈ ids then [resetNotice] else []
  | .result event :: h, ids =>
    if event.parentToolCallId.any (ids.contains ·) then
      gathered h (event.toolCallId :: ids) ++ event.own
    else gathered h ids

variable {h : List Event} {ids ids' : List CallId} {id : CallId} {event : ToolResult}

theorem mem_reported : id ∈ reported h ↔ ∃ event, Event.result event ∈ h ∧ event.toolCallId = id := by
  induction h with
  | nil => simp [reported]
  | cons e h ih =>
    cases e with
    | lost i => simp [reported, ih]
    | result c => simp [reported, ih, eq_comm]

/-! ## The map -/

theorem below_eq_nil (hlost : Event.lost id ∉ h)
    (hparent : ∀ event, Event.result event ∈ h → event.parentToolCallId ≠ some id) :
    below h id = [] := by
  induction h with
  | nil => rfl
  | cons e h ih =>
    rw [List.mem_cons, not_or] at hlost
    have hrest := ih hlost.2 fun event he => hparent event (List.mem_cons_of_mem _ he)
    cases e with
    | lost i =>
      rw [below, hrest, if_neg]
      · rfl
      · rintro rfl
        exact hlost.1 rfl
    | result c => rw [below, hrest, if_neg (hparent c List.mem_cons_self)]; rfl

/-- **The map holds what is owed** to the calls whose results have not come. -/
theorem forwarded_run (hw : WellOrdered h) (id : CallId) :
    (run h).forwarded.get? id =
      if id ∈ reported h ∨ below h id = [] then none else some (below h id) := by
  induction h generalizing id with
  | nil => rfl
  | cons e h ih =>
    cases e with
    | lost i =>
      obtain ⟨hw, hi, hlost, hparent⟩ := hw
      have hnil := below_eq_nil hlost hparent
      show ((run h).forwarded.set i [resetNotice]).get? id = _
      rw [Dict.get?_set, reported, below, ih hw]
      by_cases hid : id = i
      · subst hid
        rw [if_pos rfl, hnil, if_pos rfl, if_neg]
        · rfl
        · rintro (h' | h')
          · exact hi h'
          · cases h'
      · rw [if_neg hid, if_neg (Ne.symm hid), List.append_nil]
    | result c =>
      obtain ⟨hw, hc, hparent⟩ := hw
      have hcur : ((run h).forwarded.get? c.toolCallId).getD [] = below h c.toolCallId := by
        rw [ih hw]
        split
        · next h' => exact (h'.resolve_left hc).symm
        · rfl
      have hold : ∀ id, ((run h).forwarded.erase c.toolCallId).get? id =
          if id = c.toolCallId ∨ id ∈ reported h ∨ below h id = [] then none
          else some (below h id) := by
        intro id
        rw [Dict.get?_erase, ih hw]
        by_cases hid : id = c.toolCallId
        · rw [if_pos hid, if_pos (.inl hid)]
        · rw [if_neg hid]
          simp only [hid, false_or]
      show (onToolResult (run h) c).1.forwarded.get? id = _
      rw [onToolResult, hcur, reported, below]
      simp only [List.mem_cons, or_assoc]
      by_cases hnil : below h c.toolCallId ++ c.own = []
      · rw [if_pos hnil, hnil, ite_self, List.append_nil]
        exact hold id
      · rw [if_neg hnil]
        cases hp : c.parentToolCallId with
        | none =>
          simp only [reduceCtorEq, if_false, List.append_nil]
          exact hold id
        | some p =>
          obtain ⟨hpc, hpr⟩ := hparent p hp
          have hpold : ((run h).forwarded.erase c.toolCallId |>.get? p).getD [] = below h p := by
            rw [hold]
            split
            · next h' => exact (h'.resolve_left hpc |>.resolve_left hpr).symm
            · rfl
          dsimp only
          rw [Dict.get?_set, hpold, hold]
          by_cases hid : id = p
          · subst hid
            rw [if_pos rfl, if_pos rfl, if_neg]
            rintro (h' | h' | h')
            · exact hpc h'
            · exact hpr h'
            · exact hnil (List.append_eq_nil_iff.mp h').2
          · rw [if_neg hid, if_neg (fun h' => hid (Option.some.inj h').symm), List.append_nil]

theorem forwarded_of_mem (hw : WellOrdered h) (hid : id ∈ reported h) :
    (run h).forwarded.get? id = none := by
  rw [forwarded_run hw, if_pos (.inl hid)]

/-- What a call is owed is what its result finds in the map. -/
theorem getD_forwarded (hw : WellOrdered h) (hid : id ∉ reported h) :
    ((run h).forwarded.get? id).getD [] = below h id := by
  rw [forwarded_run hw]
  split
  · next h' => exact (h'.resolve_left hid).symm
  · rfl

/-! ## Trees -/

/-- Calls whose results are still to come, or that have none above them. -/
def Pending (h : List Event) (ids : List CallId) : Prop :=
  ∀ event, Event.result event ∈ h → event.parentToolCallId.isSome → event.toolCallId ∉ ids

theorem Pending.tail {e : Event} (hp : Pending (e :: h) ids) : Pending h ids :=
  fun event he => hp event (List.mem_cons_of_mem _ he)

/-- A call whose parent has been met joins it. -/
theorem Pending.cons (hw : WellOrdered (.result event :: h)) (hp : Pending (.result event :: h) ids) :
    Pending h (event.toolCallId :: ids) := by
  intro c hc hsome hmem
  rcases List.mem_cons.mp hmem with heq | hmem
  · exact hw.2.1 (heq ▸ mem_reported.mpr ⟨c, hc, rfl⟩)
  · exact hp.tail c hc hsome hmem

theorem any_contains {o : Option CallId} :
    o.any (ids.contains ·) = true ↔ ∃ p, o = some p ∧ p ∈ ids := by
  rw [Option.any_eq_true]
  simp only [List.contains_iff_mem]

/-- **What a set of calls is owed** is what the events of their trees contribute, each once. -/
theorem below_perm (hw : WellOrdered h) (hnd : ids.Nodup) (hp : Pending h ids) :
    (ids.flatMap (below h)).Perm (gathered h ids) := by
  -- one term of the sum grows by what the latest event adds to its call
  have hadd : ∀ {l : List CallId} {f : CallId → List JsStr} {i : CallId} {x : List JsStr},
      l.Nodup → (l.flatMap fun id => f id ++ if id = i then x else []).Perm
        (l.flatMap f ++ if i ∈ l then x else []) := by
    intro l f i x hl
    induction l with
    | nil => simp
    | cons a l ihl =>
      rw [List.nodup_cons] at hl
      rw [List.flatMap_cons, List.flatMap_cons]
      by_cases ha : a = i
      · subst ha
        have := ihl hl.2
        rw [if_neg hl.1, List.append_nil] at this
        rw [if_pos rfl, if_pos List.mem_cons_self, List.append_assoc, List.append_assoc]
        exact ((this.append_left x).trans List.perm_append_comm).append_left _
      · have hmem : i ∈ a :: l ↔ i ∈ l := by simp [Ne.symm ha]
        rw [if_neg ha, List.append_nil, List.append_assoc]
        simp only [hmem]
        exact (ihl hl.2).append_left _
  induction h generalizing ids with
  | nil =>
    have : ids.flatMap (below []) = [] := List.flatMap_eq_nil_iff.mpr fun _ _ => rfl
    rw [this]
    exact .refl _
  | cons e h ih =>
    cases e with
    | lost i =>
      have heq : below (.lost i :: h) = fun id => below h id ++ if id = i then [resetNotice] else [] := by
        funext id
        rw [below]
        simp only [eq_comm]
      rw [heq, gathered]
      exact (hadd hnd).trans ((ih hw.1 hnd hp.tail).append_right _)
    | result c =>
      have heq : ∀ id, below (.result c :: h) id = below h id ++
          if c.parentToolCallId = some id then below h c.toolCallId ++ c.own else [] := fun _ => rfl
      rw [gathered]
      split
      · next hany =>
        obtain ⟨p, hpar, hpi⟩ := any_contains.mp hany
        have hfresh : c.toolCallId ∉ ids := hp c List.mem_cons_self (by rw [hpar]; rfl)
        have hsum : (ids.flatMap (below (.result c :: h))).Perm
            (ids.flatMap (below h) ++ (below h c.toolCallId ++ c.own)) := by
          have := hadd (f := below h) (i := p) (x := below h c.toolCallId ++ c.own) hnd
          rw [if_pos hpi] at this
          refine List.Perm.trans (.of_eq ?_) this
          refine congrArg (fun f => ids.flatMap f) (funext fun id => ?_)
          rw [heq, hpar]
          simp only [Option.some_inj, eq_comm]
        have hrest := ih hw.1 (List.nodup_cons.mpr ⟨hfresh, hnd⟩) (hp.cons hw)
        rw [List.flatMap_cons] at hrest
        refine hsum.trans ?_
        rw [← List.append_assoc]
        exact ((List.perm_append_comm).trans hrest).append_right _
      · next hany =>
        refine List.Perm.trans (.of_eq ?_) (ih hw.1 hnd hp.tail)
        refine List.flatMap_congr fun id hid => ?_
        rw [heq, if_neg, List.append_nil]
        exact fun hpar => hany (any_contains.mpr ⟨id, hpar, hid⟩)

theorem mem_tree (hid : id ∈ tree h ids) : id ∈ ids ∨ id ∈ reported h := by
  induction h generalizing ids with
  | nil => exact .inl hid
  | cons e h ih =>
    cases e with
    | lost i => exact ih hid
    | result c =>
      rw [tree] at hid
      rw [reported, List.mem_cons]
      rcases ih hid with h' | h'
      · split at h'
        · rcases List.mem_cons.mp h' with rfl | h'
          · exact .inr (.inl rfl)
          · exact .inl h'
        · exact .inl h'
      · exact .inr (.inr h')

/-- **Different roots have different calls.** -/
theorem tree_disjoint (hw : WellOrdered h) (hp : Pending h ids) (hp' : Pending h ids')
    (hd : ids.Disjoint ids') : (tree h ids).Disjoint (tree h ids') := by
  induction h generalizing ids ids' with
  | nil => exact hd
  | cons e h ih =>
    cases e with
    | lost i => exact ih hw.1 hp.tail hp'.tail hd
    | result c =>
      have hone : ∀ {l l' : List CallId}, Pending (.result c :: h) l' → l.Disjoint l' →
          c.parentToolCallId.any (l.contains ·) = true → (c.toolCallId :: l).Disjoint l' := by
        intro l l' hl' hll hany
        obtain ⟨p, hpar, -⟩ := any_contains.mp hany
        rw [List.disjoint_cons_left]
        exact ⟨hl' c List.mem_cons_self (by rw [hpar]; rfl), hll⟩
      rw [tree, tree]
      by_cases h1 : c.parentToolCallId.any (ids.contains ·) = true
      · have h2 : ¬ c.parentToolCallId.any (ids'.contains ·) = true := by
          intro h2
          obtain ⟨p, hpar, hpi⟩ := any_contains.mp h1
          obtain ⟨p', hpar', hpi'⟩ := any_contains.mp h2
          rw [hpar] at hpar'
          obtain rfl := Option.some.inj hpar'
          exact hd hpi hpi'
        rw [if_pos h1, if_neg h2]
        exact ih hw.1 (hp.cons hw) hp'.tail (hone hp' hd h1)
      · rw [if_neg h1]
        by_cases h2 : c.parentToolCallId.any (ids'.contains ·) = true
        · rw [if_pos h2]
          exact ih hw.1 hp.tail (hp'.cons hw) (hone hp hd.symm h2).symm
        · rw [if_neg h2]
          exact ih hw.1 hp.tail hp'.tail hd

theorem result_unique (hw : WellOrdered h) {c d : ToolResult} (hc : Event.result c ∈ h)
    (hd : Event.result d ∈ h) (hcd : c.toolCallId = d.toolCallId) : c = d := by
  induction h with
  | nil => cases hc
  | cons e h ih =>
    cases e with
    | lost i =>
      simp only [List.mem_cons, reduceCtorEq, false_or] at hc hd
      exact ih hw.1 hc hd
    | result x =>
      simp only [List.mem_cons, Event.result.injEq] at hc hd
      rcases hc with rfl | hc
      · rcases hd with rfl | hd
        · rfl
        · exact absurd (mem_reported.mpr ⟨d, hd, hcd.symm⟩) hw.2.1
      · rcases hd with rfl | hd
        · exact absurd (mem_reported.mpr ⟨c, hc, hcd⟩) hw.2.1
        · exact ih hw.1 hc hd

/-! ## The results -/

theorem own_of_root (hroot : event.parentToolCallId = none) : event.own = [] := by
  rw [ToolResult.own, ToolResult.nestedCell, hroot, Option.isSome_none, Bool.and_false,
    if_neg Bool.false_ne_true]

/-- A nested result is left as it is. -/
theorem nested_unchanged (s : State) (hnested : event.parentToolCallId.isSome) :
    (onToolResult s event).2 = none := by
  obtain ⟨p, hp⟩ := Option.isSome_iff_exists.mp hnested
  unfold onToolResult
  dsimp only
  split
  · rfl
  · rw [hp]

/-- **The result of a root** carries the notices of its tree, each once and no others, and leaves
none of them in the map. -/
theorem root_notices (hw : WellOrdered (.result event :: h)) :
    (event.parentToolCallId.isSome → (onToolResult (run h) event).2 = none) ∧
    (event.parentToolCallId = none →
      (onToolResult (run h) event).2 = (if below h event.toolCallId = [] then none else
        some (event.content ++ [.text (join (js "\n\n") (below h event.toolCallId))])) ∧
      (below h event.toolCallId).Perm (gathered h [event.toolCallId]) ∧
      (∀ id ∈ tree h [event.toolCallId],
        (onToolResult (run h) event).1.forwarded.get? id = none) ∧
      ∀ root, Event.result root ∈ h → root.parentToolCallId = none →
        (tree h [event.toolCallId]).Disjoint (tree h [root.toolCallId])) := by
  refine ⟨nested_unchanged _, fun hroot => ⟨?_, ?_, fun id hid => ?_, fun root hmem hparent => ?_⟩⟩
  · unfold onToolResult
    rw [getD_forwarded hw.1 hw.2.1, own_of_root hroot, List.append_nil, hroot]
    dsimp only
    split
    · rfl
    · rfl
  · have hp : Pending h [event.toolCallId] := by
      intro c hc _ hi
      rw [List.mem_singleton] at hi
      exact hw.2.1 (hi ▸ mem_reported.mpr ⟨c, hc, rfl⟩)
    have := below_perm hw.1 (List.nodup_singleton _) hp
    rwa [List.flatMap_singleton] at this
  · refine forwarded_of_mem (h := .result event :: h) hw ?_
    rw [reported, List.mem_cons]
    rcases mem_tree hid with h' | h'
    · exact .inl (List.mem_singleton.mp h')
    · exact .inr h'
  · refine tree_disjoint hw.1 (fun c hc _ hi => ?_) (fun c hc hsome hi => ?_) ?_
    · rw [List.mem_singleton] at hi
      exact hw.2.1 (hi ▸ mem_reported.mpr ⟨c, hc, rfl⟩)
    · rw [List.mem_singleton] at hi
      rw [result_unique hw.1 hc hmem hi, hparent] at hsome
      cases hsome
    · rw [List.disjoint_singleton]
      intro hi
      exact hw.2.1 (List.mem_singleton.mp hi ▸ mem_reported.mpr ⟨root, hmem, rfl⟩)

/-- A result with no content of its own. -/
def sampleResult (id : String) (parent : Option String) (name : String)
    (notices : Option (List JsStr)) : ToolResult :=
  ⟨js id, parent.map js, js name, [], none, notices⟩

/-- Two tools of a root run a cell each; the second one to have run it ends first. -/
def crossed : List Event :=
  [.result (sampleResult "a" (some "r") "script" none),
    .result (sampleResult "b" (some "r") "script" none),
    .result (sampleResult "b1" (some "b") "ipython" (some [js "second"])),
    .result (sampleResult "a1" (some "a") "ipython" (some [js "first"]))]

def crossedRoot : ToolResult := sampleResult "r" none "script" none

theorem wellOrdered_crossed : WellOrdered (.result crossedRoot :: crossed) := by
  simp only [crossed, WellOrdered]
  decide +kernel

theorem root_notices_crossed :
    (below crossed (js "r")).Perm (gathered crossed [js "r"]) :=
  ((root_notices wellOrdered_crossed).2 rfl).2.1

/-- **Subtrees that cross** deliver their notices in another order than that of the events. -/
theorem crossed_notices : WellOrdered (.result crossedRoot :: crossed) ∧
    gathered crossed [js "r"] = [js "first", js "second"] ∧
    (onToolResult (run crossed) crossedRoot).2 = some [.text (js "second\n\nfirst")] :=
  ⟨wellOrdered_crossed, by decide +kernel, by decide +kernel⟩

end PiIpython.Extension
