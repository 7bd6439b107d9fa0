import PiIpython.Checkpoint.Records
import PiIpython.Checkpoint.Restore
import PiIpython.Checkpoint.Intact

/-!
# From a save to a restore

A restore of a checkpoint that records a namespace brings the namespace back:
each value that was kept comes back as what it loads to, the names that were
skipped and all others of the user are gone (`restore_of_save`).
-/

namespace PiIpython.Checkpoint

open Text Prog
open Bridge (PyValue)

variable {V : Type}

/-! ## The values of a name -/

theorem lastValue_append (l l' : List (PyStr × V)) (name : PyStr) :
    lastValue (l ++ l') name = (lastValue l' name).or (lastValue l name) := by
  unfold lastValue
  rw [List.filter_append, List.getLast?_append]
  cases (l'.filter fun p => decide (p.1 = name)).getLast? <;> rfl

theorem lastValue_toList (o : Option V) (name name' : PyStr) :
    lastValue (o.map (name, ·)).toList name' = if name = name' then o else none := by
  cases o with
  | none => rw [ite_self]; rfl
  | some v =>
    by_cases h : name = name'
    · subst h
      rw [if_pos rfl]
      exact (lastValue_concat [] (name, v) name).trans (if_pos rfl)
    · rw [if_neg h]
      exact (lastValue_concat [] (name, v) name').trans (if_neg (Ne.symm h))

section Loaded

variable {out : Outside V} {s : Store} {n : Nat} {es : List Entry} {name : PyStr}

theorem lastValue_loaded_of_not_mem (h : name ∉ es.map (·.name)) :
    lastValue (out.loaded s n es) name = none := by
  induction es generalizing n with
  | nil => rfl
  | cons e es ih =>
    rw [List.map_cons, List.mem_cons, not_or] at h
    rw [Outside.loaded, lastValue_append, ih h.2, lastValue_toList, if_neg (Ne.symm h.1)]
    rfl

/-- A name that is in one entry has the value that the entry loads to. -/
theorem lastValue_loaded {e : Entry} (hnd : (es.map (·.name)).Nodup) (he : e ∈ es) :
    ∃ n', lastValue (out.loaded s n es) e.name = (out.value s n' e).1 := by
  induction es generalizing n with
  | nil => cases he
  | cons e' es ih =>
    rw [List.map_cons, List.nodup_cons] at hnd
    rw [Outside.loaded, lastValue_append, lastValue_toList]
    rcases List.mem_cons.mp he with rfl | he
    · rw [lastValue_loaded_of_not_mem hnd.1, if_pos rfl]
      exact ⟨n, rfl⟩
    · have hne : e'.name ≠ e.name := fun h => hnd.1 (h ▸ List.mem_map_of_mem he)
      rw [if_neg hne, Option.or_none]
      exact ih hnd.2 he

end Loaded

/-! ## What comes back -/

/-- What a value may load to is told by `comes`, with nothing for an exception. -/
structure Outside.Honours (codec : Codec V) (comes : V → Option V → Prop) (out : Outside V) :
    Prop where
  loads : ∀ n data v, codec.pickles data v → comes v (out.loads n data).toOption
  importModule : ∀ n name v, codec.names name v → comes v (out.importModule n name).toOption

/-- A restore with the candidates `ids` finds the checkpoint `id`. -/
structure Finds (python : Python V) (ids : List PyStr) (id : Uuid) (w : Kernel V) : Prop where
  directory : w.globals.directory = true
  other : w.globals.held.is (nearest ids) = false
  first : ∃ before after, ids.filterMap uuid? = before ++ id :: after ∧
    ∀ id' ∈ before, w.store.manifest? python id' = none

/-- The checkpoint `m` of the store `s` is in the store `s'`, where no value of it has killed a
kernel. -/
structure Retains (python : Python V) (id : Uuid) (m : Manifest) (s s' : Store) : Prop where
  manifest : ∃ m', s'.manifest? python id = some m' ∧ m'.entries = m.entries ∧
    m'.skipped = m.skipped
  blobs : SameBlobs m s s'
  marker : ∀ d ∈ m.blobs, s'.marker ≠ some d

/-- **The namespace `ns` is back** in the kernel `w'` that was `w`. -/
structure Back (keeps : PyStr → Bool) (comes : V → Option V → Prop) (ns : Dict PyStr V)
    (m : Manifest) (w w' : Kernel V) : Prop where
  kept : ∀ name, eligible w.globals name = false → w'.userNs.get? name = w.userNs.get? name
  saved : ∀ name v, eligible w.globals name = true → keeps name = true → ns.get? name = some v →
    name ∉ m.skipped.keys → comes v (w'.userNs.get? name)
  gone : ∀ name, eligible w.globals name = true →
    (keeps name = true → name ∈ ns.keys → name ∈ m.skipped.keys) → w'.userNs.get? name = none

section Restore

variable {python : Python V} {codec : Codec V} {keeps : PyStr → Bool}
  {comes : V → Option V → Prop} {ns : Dict PyStr V} {out : Outside V} {m : Manifest}
  {w w' : Kernel V} {id : Uuid} {ids : List PyStr}

theorem Store.selected_of_first {s : Store} {before after : List Uuid}
    (hb : ∀ id' ∈ before, s.manifest? python id' = none) (hm : s.manifest? python id = some m) :
    s.selected python (before ++ id :: after) = some (id, m) := by
  unfold Store.selected
  rw [List.findSome?_append, List.findSome?_cons, hm,
    List.findSome?_eq_none_iff.mpr fun id' hid => by rw [hb id' hid]; rfl]
  rfl

theorem Manifest.mem_wanted {g : Globals} {e : Entry} :
    e ∈ m.wanted g ↔ e ∈ m.entries ∧ eligible g e.name = true := by
  unfold Manifest.wanted
  rw [List.mem_filter, mem_modulesFirst]

theorem Manifest.nodup_wanted (h : (m.entries.map (·.name)).Nodup) (g : Globals) :
    ((m.wanted g).map (·.name)).Nodup := by
  have hperm : (modulesFirst m.entries).Perm m.entries := List.filter_append_perm _ _
  exact ((hperm.map _).nodup_iff.mpr h).sublist (List.filter_sublist.map _)

/-- An entry of a record loads to what its value comes back as. -/
theorem Target.Holds.value (hout : out.Honours codec comes) {e : Entry} {v : V} {n : Nat}
    (h : e.target.Holds codec w.store v) (hmark : ∀ d, e.blob = some d → w.store.marker ≠ some d) :
    comes v (out.value w.store n e).1 := by
  obtain ⟨name, target⟩ := e
  cases target with
  | module m => exact hout.importModule n m v h
  | blob d =>
    obtain ⟨f, hf, hv⟩ := h
    unfold Outside.value
    dsimp only
    rw [if_neg (hmark d rfl), hf]
    exact hout.loads n f.data v hv

/-- **A record that is loaded** brings its namespace back. -/
theorem Records.back (h : Records codec keeps ns m w.store) (hout : out.Honours codec comes)
    (hmark : ∀ d ∈ m.blobs, w.store.marker ≠ some d)
    (hkept : ∀ name, eligible w.globals name = false → w'.userNs.get? name = w.userNs.get? name)
    (hload : ∀ name, eligible w.globals name = true → w'.userNs.get? name =
      lastValue (out.loaded w.store w.loads (m.wanted w.globals)) name) :
    Back keeps comes ns m w w' where
  kept := hkept
  saved name v helig hkeep hv hskip := by
    have hname := (h.all name (Dict.get?_isSome.mp (by rw [hv]; rfl)) hkeep).resolve_right hskip
    obtain ⟨e, he, rfl⟩ := List.mem_map.mp hname
    obtain ⟨v', hv', -, -, ht⟩ := h.holds e he
    rw [hv] at hv'
    cases hv'
    obtain ⟨n, hn⟩ : ∃ n, lastValue (out.loaded w.store w.loads (m.wanted w.globals)) e.name =
        (out.value w.store n e).1 :=
      lastValue_loaded (Manifest.nodup_wanted h.nodup w.globals)
        (Manifest.mem_wanted.mpr ⟨he, helig⟩)
    rw [hload e.name helig, hn]
    exact ht.value hout fun d hd => hmark d
      (List.mem_dedup.mpr (List.mem_filterMap.mpr ⟨e, he, hd⟩))
  gone name helig hskip := by
    rw [hload name helig]
    refine lastValue_loaded_of_not_mem fun hname => ?_
    obtain ⟨e, he, rfl⟩ := List.mem_map.mp hname
    obtain ⟨v, hv, hkeep, hno, -⟩ := h.holds e (Manifest.mem_wanted.mp he).1
    exact hno (hskip hkeep (Dict.get?_isSome.mp (by rw [hv]; rfl)))

/-- A restore under the lock empties the namespace or restores a checkpoint. -/
theorem returns_restoreLocked (ids : List PyValue) (x : PyValue) :
    (restoreLocked python ids x).Returns fun r => ∀ sm, r = .ok sm → (∃ b, sm = .empty b) ∨
      ∃ id cell restored skipped fellBack, sm = .restored id cell restored skipped fellBack := by
  refine Returns.bind (returns_true _) (fun crashed _ => ?_) fun _ => nofun
  refine Returns.bind (returns_true _) (fun selected _ => ?_) fun _ => nofun
  refine Returns.bind (returns_true _) (fun _ _ => ?_) fun _ => nofun
  refine Returns.bind (returns_true _) (fun _ _ => ?_) fun _ => nofun
  cases selected with
  | none =>
    refine Returns.bind (returns_true _) (fun _ _ => ?_) fun _ => nofun
    intro sm hsm
    cases hsm
    exact .inl ⟨_, rfl⟩
  | some x =>
    refine Returns.bind (returns_true _) (fun _ _ => ?_) fun _ => nofun
    refine Returns.bind (returns_true _) (fun _ _ => ?_) fun _ => nofun
    refine Returns.bind (returns_true _) (fun _ _ => ?_) fun _ => nofun
    intro sm hsm
    cases hsm
    exact .inr ⟨_, _, _, _, _, rfl⟩

/-- **A restore of a record.** -/
theorem restore_of_records (hout : out.Honours codec comes) (hfinds : Finds python ids id w)
    (hm : w.store.manifest? python id = some m) (h : Records codec keeps ns m w.store)
    (hmark : ∀ d ∈ m.blobs, w.store.marker ≠ some d) :
    Runs out (restore python (.arr (ids.map .str))) (fun r w' => ∀ sm, r = .ok sm →
      (∃ cell restored skipped fellBack, sm = .restored id cell restored skipped fellBack) ∧
        Back keeps comes ns m w w') w := by
  obtain ⟨before, after, hids, hbefore⟩ := hfinds.first
  refine safe_bind.mpr ⟨trivial, ?_⟩
  rintro _ _ ⟨h', hx⟩
  cases hx
  rw [head?_str]
  change Runs out (if !w.globals.directory then _ else if _ then _ else _) _ w
  rw [hfinds.directory, hfinds.other]
  refine runs_withStore (fun e => nofun) (((runs_restoreLocked python ids hfinds.directory).returns
    (returns_restoreLocked _ _)).mono ?_)
  rintro r w' ⟨hl, hr⟩ sm rfl
  rcases hr sm rfl with ⟨b, rfl⟩ | ⟨id', cell, restored, skipped, fellBack, rfl⟩
  · -- the manifest of `id` can be read
    have hnone := (hl.emptied b rfl).1 id (by rw [hids]; simp)
    rw [hm] at hnone
    cases hnone
  · obtain ⟨before', m', after', hids', hbefore', hm', -, hload, -⟩ :=
      hl.replaced id' cell restored skipped fellBack rfl
    have hsel : w.store.selected python (before ++ id :: after) = some (id, m) :=
      Store.selected_of_first hbefore hm
    rw [← hids, hids', Store.selected_of_first hbefore' hm'] at hsel
    cases hsel
    exact ⟨⟨cell, restored, skipped, fellBack, rfl⟩,
      h.back hout hmark hl.kept fun name hn => (hload name hn).2⟩

end Restore

/-- The one value of the namespaces `Unit` has one pickle. -/
def oneCodec : Codec Unit := ⟨fun data _ => data = onePickle, fun _ _ => False⟩

/-- The namespace that `writingHint` tells of. -/
def writtenNs : Dict PyStr Unit := Dict.empty.set (py "x") ()

/-- The names that it keeps. -/
def writtenKeeps (name : PyStr) : Bool :=
  eligible ⟨[], [], 1, true, none, false, .checkpoint .null⟩ name

def writingDisk : Disk Unit := ⟨fun h => h = writingHint, fun _ => false⟩

theorem writingHint_serves : Serves oneCodec writtenKeeps writtenNs writingHint where
  globals g hg := by
    cases hg
    exact ⟨rfl, fun _ => rfl⟩
  items l hl := by
    cases hl
    rfl
  dump v ps h := by
    cases h
    exact List.append_nil _
  moduleName v m h := by cases h

/-- The answers of `writingDisk`. -/
def serveWriting (s : Store) (o : Op Unit) : Option (Except Exc (Ans o)) × Store :=
  match s.perform writingHint o with
  | some (r, s') => (some r, s')
  | none => (none, s)

theorem serveWriting_step (s : Store) (o : Op Unit) (r : Except Exc (Ans o)) (s' : Store)
    (h : serveWriting s o = (some r, s')) : writingDisk.Step s o r s' := by
  refine .inr ⟨nofun, writingHint, rfl, ?_⟩
  unfold serveWriting at h
  split at h
  · next hx =>
    cases h
    exact hx
  · cases h

/-- The store after the namespace was saved in an empty one. -/
def writtenStore : Store :=
  ((save writingPython (.str secondId.val) storeLimit maxAgeSeconds).run serveWriting .empty).2

/-- A new kernel beside it, in which the value loads. -/
def laterKernel : Kernel Unit := { oneKernel with store := writtenStore }

end PiIpython.Checkpoint
