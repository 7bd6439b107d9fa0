import PiIpython.Checkpoint.Kernel

/-!
# What a restore leaves

The loop of `restore` binds the entries that load, modules first, and the
names that are not eligible stay as they are. The namespace afterwards is told
from the store and what is outside alone.
-/

namespace PiIpython.Checkpoint

open Text Prog
open Bridge (PyValue PyNum)

variable {V : Type} {out : Outside V} {w w' : Kernel V}

/-! ## What entries load to -/

/-- What an entry loads to, when `n` values were loaded, and how many are loaded after it. -/
def Outside.value (out : Outside V) (s : Store) (n : Nat) (e : Entry) : Option V × Nat :=
  match e.target with
  | .module name => ((out.importModule n name).toOption, n + 1)
  | .blob d =>
    if s.marker = some d then (none, n)
    else
      match s.readable .blobs d.val valueLimit with
      | some f => ((out.loads n f.data).toOption, n + 1)
      | none => (none, n)

/-- The names and values of the entries that load, in the order in which they load. -/
def Outside.loaded (out : Outside V) (s : Store) : Nat → List Entry → List (PyStr × V)
  | _, [] => []
  | n, e :: es =>
    ((out.value s n e).1.map (e.name, ·)).toList ++ out.loaded s (out.value s n e).2 es

/-- The entries that a restore loads. -/
def Manifest.wanted (m : Manifest) (g : Globals) : List Entry :=
  (modulesFirst m.entries).filter fun e => eligible g e.name

/-- The last value of a name. -/
def lastValue (l : List (PyStr × V)) (name : PyStr) : Option V :=
  (l.filter (·.1 = name)).getLast?.map (·.2)

theorem lastValue_concat (l : List (PyStr × V)) (p : PyStr × V) (name : PyStr) :
    lastValue (l ++ [p]) name = if name = p.1 then some p.2 else lastValue l name := by
  unfold lastValue
  rw [List.filter_append]
  by_cases h : p.1 = name
  · subst h
    rw [List.filter_cons_of_pos (by simp), List.filter_nil, List.getLast?_concat, if_pos rfl]
    rfl
  · rw [List.filter_cons_of_neg (by simpa using h), List.filter_nil, List.append_nil,
      if_neg (Ne.symm h)]

theorem lastValue_isSome {l : List (PyStr × V)} {name : PyStr} :
    (lastValue l name).isSome ↔ name ∈ l.map (·.1) := by
  unfold lastValue
  rw [Option.isSome_map, List.getLast?_isSome, List.mem_map, ne_eq, List.filter_eq_nil_iff]
  simp

theorem mem_modulesFirst {es : List Entry} {e : Entry} : e ∈ modulesFirst es ↔ e ∈ es := by
  unfold modulesFirst
  rw [List.mem_append, List.mem_filter, List.mem_filter, ← and_or_left]
  refine and_iff_left ?_
  cases e.isModule
  · exact .inr rfl
  · exact .inl rfl

/-! ## One value -/

/-- The store while the values load: no marker, and the blobs as they were. -/
structure Ready (s s' : Store) : Prop where
  absent : s'.node? .root loading = none
  blobs : ∀ d : Digest, s.marker ≠ some d → s'.node? .blobs d.val = s.node? .blobs d.val

theorem Store.readable_congr {s s' : Store} {d : Dir} {name : PyStr} {limit : Nat}
    (h : s'.node? d name = s.node? d name) :
    s'.readable d name limit = s.readable d name limit := by
  unfold Store.readable
  rw [h]

/-- **The value of a blob**: its marker is written before it loads and removed after that. -/
theorem runs_load {s : Store} {d : Digest} (hr : Ready s w.store) (hd : s.marker ≠ some d) :
    Runs out (load d) (fun r w' =>
      ∃ s', w' = { w with store := s', loads := (out.value s w.loads ⟨[], .blob d⟩).2 } ∧
        Ready s s' ∧ r.toOption = (out.value s w.loads ⟨[], .blob d⟩).1) w := by
  have hread : w.store.readable .blobs d.val valueLimit = s.readable .blobs d.val valueLimit :=
    Store.readable_congr (hr.blobs d hd)
  unfold Outside.value
  dsimp only
  rw [if_neg hd, ← hread]
  refine safe_bind.mpr (runs_readFile ?_ ?_)
  · intro f hf
    rw [hf]
    dsimp only
    -- the marker is new
    refine safe_bind.mpr (runs_op rfl ?_)
    rintro h r s₁ hx
    have hopen : w.store.openFile h.now .root loading .truncate =
        (.ok ⟨.root, loading, .truncate⟩, w.store.put .root loading (.file ⟨[], h.now, true⟩)) := by
      unfold Store.openFile
      dsimp only
      rw [hr.absent]
    change some (w.store.openFile h.now .root loading .truncate) = _ at hx
    rw [hopen] at hx
    cases hx
    have hput : ∀ (s₁ : Store) (n : Node), (s₁.put .root loading n).node? .root loading = some n :=
      fun s₁ n => (Store.node?_put ..).trans (if_pos ⟨rfl, rfl⟩)
    -- its content does not matter, as it can be unlinked
    have hend : ∀ (s₁ : Store) (n : Node), (∀ d' : Digest,
        s₁.node? .blobs d'.val = w.store.node? .blobs d'.val) → (∃ g, n = .file g) →
        Runs out ((loads f.data).ensure (unlink .root loading .loaded)) (fun r w' =>
          ∃ s', w' = { w with store := s', loads := w.loads + 1 } ∧ Ready s s' ∧
            r.toOption = (out.loads w.loads f.data).toOption)
          { w with store := s₁.put .root loading n } := by
      rintro s₁ _ hb ⟨g, rfl⟩
      refine safe_ensure.mpr ⟨trivial, ?_⟩
      rintro _ _ ⟨h, hx⟩
      cases hx
      refine runs_op rfl ?_
      rintro h' r s₂ hx
      change some ((s₁.put .root loading (.file g)).unlink .root loading) = _ at hx
      rw [Store.unlink_file (hput _ _)] at hx
      cases hx
      refine ⟨_, rfl, ⟨(Store.node?_remove ..).trans (if_pos ⟨rfl, rfl⟩), fun d' hd' => ?_⟩, rfl⟩
      refine ((Store.node?_remove ..).trans (if_neg nofun)).trans ?_
      exact ((Store.node?_put ..).trans (if_neg nofun)).trans ((hb d').trans (hr.blobs d' hd'))
    refine safe_bind.mpr (safe_ensure.mpr (runs_op rfl ?_))
    rintro h' r s₁ hx
    cases hx
    refine runs_op rfl ?_
    rintro h'' r s₁ hx
    cases hx
    unfold Store.write Store.file?
    dsimp only
    rw [hput]
    refine hend _ _ (fun d' => ?_) ⟨_, rfl⟩
    exact (Store.node?_put ..).trans (if_neg nofun)
  · intro e hn he
    rw [hn]
    exact ⟨w.store, rfl, hr, rfl⟩

/-- What an entry loads to is what is outside says. -/
theorem runs_loadEntry {s : Store} (hr : Ready s w.store) (e : Entry) :
    Runs out (loadEntry s.marker e) (fun r w' =>
      ∃ s', w' = { w with store := s', loads := (out.value s w.loads e).2 } ∧ Ready s s' ∧
        r.toOption = (out.value s w.loads e).1) w := by
  obtain ⟨name, target⟩ := e
  cases target with
  | module m =>
    refine ⟨trivial, ?_⟩
    rintro _ _ ⟨h, hx⟩
    cases hx
    exact ⟨w.store, rfl, hr, rfl⟩
  | blob d =>
    unfold loadEntry
    dsimp only
    by_cases hd : s.marker = some d
    · rw [if_pos hd]
      unfold Outside.value
      dsimp only
      rw [if_pos hd]
      exact ⟨w.store, rfl, hr, rfl⟩
    · rw [if_neg hd]
      exact runs_load hr hd

/-! ## The loop -/

/-- **The invariant of the loop** of a restore with the store `s` and the names `ns` that it keeps,
before the rounds of `rest`. -/
structure Looping (out : Outside V) (s : Store) (n : Nat) (m : Manifest) (g : Globals)
    (ns : Dict PyStr V) (rest : List Entry) (acc : Restoring) (w : Kernel V) : Prop where
  globals : w.globals = g
  ready : Ready s w.store
  kept : ∀ name, eligible g name = false → w.userNs.get? name = ns.get? name
  bound : ∃ l, l ++ out.loaded s w.loads (rest.filter fun e => eligible g e.name) =
      out.loaded s n (m.wanted g) ∧ acc.1 = l.map (·.1) ∧
    ∀ name, eligible g name = true → w.userNs.get? name = lastValue l name
  told : ∀ e ∈ m.entries, eligible g e.name = true →
    e ∈ rest ∨ e.name ∈ acc.1 ∨ e.name ∈ acc.2.keys

theorem Looping.round {s : Store} {n : Nat} {m : Manifest} {g : Globals} {ns : Dict PyStr V}
    {rest : List Entry} {e : Entry} {acc : Restoring}
    (h : Looping out s n m g ns (e :: rest) acc w) :
    Runs out (restoreEntry s.marker acc e) (fun r w' =>
      (∀ name, eligible g name = false → w'.userNs.get? name = ns.get? name) ∧
        ∀ acc', r = .ok acc' → Looping out s n m g ns rest acc' w') w := by
  obtain ⟨l, hl, hacc, hns⟩ := h.bound
  have hrest : ∀ (acc' : Restoring), (eligible g e.name = true →
        e.name ∈ acc'.1 ∨ e.name ∈ acc'.2.keys) →
      (∀ name, name ∈ acc.1 ∨ name ∈ acc.2.keys → name ∈ acc'.1 ∨ name ∈ acc'.2.keys) →
      ∀ e' ∈ m.entries, eligible g e'.name = true →
        e' ∈ rest ∨ e'.name ∈ acc'.1 ∨ e'.name ∈ acc'.2.keys := by
    intro acc' he hmono e' hm he'
    rcases h.told e' hm he' with h' | h'
    · rcases List.mem_cons.mp h' with rfl | h'
      · exact .inr (he he')
      · exact .inl h'
    · exact .inr (hmono _ h')
  refine safe_bind.mpr ⟨trivial, ?_⟩
  rintro _ _ ⟨h', hx⟩
  cases hx
  rw [h.globals]
  change Runs out (if _ then _ else _) _ w
  cases hel : eligible g e.name with
  | false =>
    refine ⟨h.kept, fun acc' ha => ?_⟩
    cases ha
    rw [List.filter_cons_of_neg (by rw [hel]; exact Bool.false_ne_true)] at hl
    exact ⟨h.globals, h.ready, h.kept, ⟨l, hl, hacc, hns⟩,
      hrest acc (fun he => by rw [hel] at he; cases he) fun _ => id⟩
  | true =>
    rw [List.filter_cons_of_pos (by exact hel), Outside.loaded] at hl
    refine safe_attempt.mpr (safe_bind.mpr ((runs_loadEntry h.ready e).mono ?_))
    rintro (x | v) w' ⟨s', rfl, hready, hv⟩
    · -- the entry does not load
      change Runs out (if x.isException then _ else _) _ _
      split
      · refine ⟨h.kept, fun acc' ha => ?_⟩
        cases ha
        rw [← hv] at hl
        refine ⟨h.globals, hready, h.kept, ⟨l, hl, hacc, hns⟩, hrest _ ?_ ?_⟩
        · exact fun _ => .inr (Dict.mem_keys_set.mpr (.inl rfl))
        · exact fun name hn => hn.imp_right fun hn => Dict.mem_keys_set.mpr (.inr hn)
      · exact ⟨h.kept, fun acc' ha => by cases ha⟩
    · refine safe_bind.mpr ⟨trivial, ?_⟩
      rintro _ _ ⟨h', hx⟩
      cases hx
      have hkept : ∀ name, eligible g name = false →
          (w.userNs.set e.name v).get? name = ns.get? name := by
        intro name hn
        refine (Dict.get?_set_of_ne _ _ ?_).trans (h.kept name hn)
        rintro rfl
        rw [hel] at hn
        cases hn
      refine ⟨hkept, fun acc' ha => ?_⟩
      cases ha
      rw [← hv] at hl
      refine ⟨h.globals, hready, hkept, ⟨l ++ [(e.name, v)], ?_, ?_, fun name hn => ?_⟩,
        hrest _ ?_ ?_⟩
      · rw [← hl, List.append_assoc]
        rfl
      · dsimp only
        rw [hacc, List.map_append]
        rfl
      · rw [lastValue_concat]
        refine (Dict.get?_set _ _ _ _).trans ?_
        split
        · rfl
        · exact hns name hn
      · exact fun _ => .inl (List.mem_append_right _ (List.mem_singleton_self _))
      · exact fun name hn => hn.imp_left (List.mem_append_left _)

/-! ## The restore -/

/-- **What a restore leaves** of the kernel `w`, with the candidates `ids`. -/
structure Leaves (python : Python V) (out : Outside V) (ids : List PyStr) (w : Kernel V)
    (r : Except Exc Summary) (w' : Kernel V) : Prop where
  kept : ∀ name, eligible w.globals name = false → w'.userNs.get? name = w.userNs.get? name
  unchanged : r = .ok .none ∨ (∃ text, r = .ok (.unavailable text)) → w'.userNs = w.userNs
  emptied : ∀ fellBack, r = .ok (.empty fellBack) →
    (∀ id ∈ ids.filterMap uuid?, w.store.manifest? python id = none) ∧
      ∀ name, eligible w.globals name = true → w'.userNs.get? name = none
  replaced : ∀ id cell restored skipped fellBack,
    r = .ok (.restored id cell restored skipped fellBack) →
      ∃ before m after, ids.filterMap uuid? = before ++ id :: after ∧
        (∀ id' ∈ before, w.store.manifest? python id' = none) ∧
        w.store.manifest? python id = some m ∧
        (fellBack = true ↔ ids.head? ≠ some id.val) ∧
        (∀ name, eligible w.globals name = true →
          ((w'.userNs.get? name).isSome ↔ name ∈ restored) ∧
          w'.userNs.get? name =
            lastValue (out.loaded w.store w.loads (m.wanted w.globals)) name) ∧
        ∀ e ∈ m.entries, eligible w.globals e.name = true →
          e.name ∈ restored ∨ e.name ∈ skipped.keys
  again : ∀ s, r = .ok s → ∀ ids' : List PyStr, ids'.head? = ids.head? →
    Runs out (restore python (.arr (ids'.map .str))) (fun r' w'' => r' = .ok .none ∧ w'' = w') w'

/-- A restore that raises keeps what is not eligible. -/
theorem Leaves.error {python : Python V} {ids : List PyStr} (e : Exc)
    (hk : ∀ name, eligible w.globals name = false → w'.userNs.get? name = w.userNs.get? name) :
    Leaves python out ids w (.error e) w' where
  kept := hk
  unchanged := by rintro (h | ⟨_, h⟩) <;> cases h
  emptied := nofun
  replaced := nofun
  again := nofun

/-- The value that `nearest` has. -/
def nearest (ids : List PyStr) : PyValue := (ids.head?.map .str).getD .null

theorem head?_str (ids : List PyStr) : (ids.map Json.str).head?.getD .null = nearest ids := by
  unfold nearest
  rw [List.head?_map]

theorem filterMap_asUuid (ids : List PyStr) :
    (ids.map Json.str).filterMap asUuid = ids.filterMap uuid? := by
  rw [List.filterMap_map]
  rfl

theorem pyEq_nearest (ids : List PyStr) : pyEq (nearest ids) (nearest ids) = true := by
  unfold nearest
  cases ids.head? with
  | none => rfl
  | some s => simp [pyEq]

theorem pyEq_str_nearest {ids : List PyStr} {id : PyStr} :
    (!pyEq (.str id) (nearest ids)) = true ↔ ids.head? ≠ some id := by
  unfold nearest
  cases ids.head? with
  | none => simp [pyEq, numeric]
  | some s => simp [pyEq, @eq_comm _ id s]

/-- **A namespace that holds the first candidate** is not restored. -/
theorem runs_held {python : Python V} {ids : List PyStr}
    (hdir : w.globals.directory = true) (hheld : w.globals.held.is (nearest ids) = true) :
    Runs out (restore python (.arr (ids.map .str))) (fun r w' => r = .ok .none ∧ w' = w) w := by
  refine safe_bind.mpr ⟨trivial, ?_⟩
  rintro _ _ ⟨h, hx⟩
  cases hx
  rw [head?_str]
  change Runs out (if !w.globals.directory then _ else if _ then _ else _) _ w
  rw [hdir, hheld]
  exact ⟨rfl, rfl⟩

/-- So is one whose storage was reported as unavailable. -/
theorem runs_reported {python : Python V} {ids : List PyStr}
    (hdir : w.globals.directory = false) (hrep : w.globals.storageErrorReported = true) :
    Runs out (restore python (.arr (ids.map .str))) (fun r w' => r = .ok .none ∧ w' = w) w := by
  refine safe_bind.mpr ⟨trivial, ?_⟩
  rintro _ _ ⟨h, hx⟩
  cases hx
  change Runs out (if !w.globals.directory then if w.globals.storageErrorReported then _ else _
    else _) _ w
  rw [hdir, hrep]
  exact ⟨rfl, rfl⟩

/-- The candidate that is selected is the first with a readable manifest. -/
theorem Store.selected_some {python : Python V} {s : Store} {ids : List Uuid} {id : Uuid}
    {m : Manifest} (h : s.selected python ids = some (id, m)) :
    s.manifest? python id = some m ∧ ∃ before after, ids = before ++ id :: after ∧
      ∀ id' ∈ before, s.manifest? python id' = none := by
  obtain ⟨before, id', after, rfl, hm, hbefore⟩ := List.findSome?_eq_some_iff.mp h
  obtain ⟨m', hm', heq⟩ := Option.map_eq_some_iff.mp hm
  cases heq
  exact ⟨hm', before, after, rfl, fun i hi => Option.map_eq_none_iff.mp (hbefore i hi)⟩

/-- **A restore under the lock.** -/
theorem runs_restoreLocked (python : Python V) (ids : List PyStr)
    (hdir : w.globals.directory = true) :
    Runs out (restoreLocked python (ids.map .str) (nearest ids)) (Leaves python out ids w) w := by
  have hagain : ∀ (r : Except Exc Summary) (w' : Kernel V), w'.globals.directory = true →
      w'.globals.held = .checkpoint (nearest ids) → ∀ s, r = .ok s → ∀ ids' : List PyStr,
      ids'.head? = ids.head? → Runs out (restore python (.arr (ids'.map .str)))
        (fun r' w'' => r' = .ok .none ∧ w'' = w') w' := by
    intro r w' hd hh s _ ids' hids
    refine runs_held hd ?_
    rw [hh, show nearest ids' = nearest ids by unfold nearest; rw [hids]]
    exact pyEq_nearest ids
  unfold restoreLocked
  rw [filterMap_asUuid]
  refine safe_bind.mpr (runs_takeCrashed.mono ?_)
  rintro (e | crashed) _ ⟨s₁, rfl, htaken⟩
  · exact .error e fun _ _ => rfl
  obtain ⟨rfl, ht⟩ := htaken crashed rfl
  have hman : ∀ id, s₁.manifest? python id = w.store.manifest? python id :=
    fun id => Store.manifest?_congr (ht.manifests _)
  refine safe_bind.mpr ((runs_select python _).mono ?_)
  rintro (e | x) _ ⟨rfl, hsel⟩
  · exact .error e fun _ _ => rfl
  obtain rfl := hsel x rfl
  refine safe_bind.mpr ⟨trivial, ?_⟩
  rintro _ _ ⟨h, hx⟩
  cases hx
  refine safe_bind.mpr (runs_clear.mono ?_)
  rintro _ _ ⟨rfl, ns, rfl, hns⟩
  have hkept : ∀ name, eligible w.globals name = false →
      ns.get? name = w.userNs.get? name := by
    intro name hn
    refine (hns name).trans (if_neg ?_)
    change eligible w.globals name ≠ true
    rw [hn]
    exact Bool.false_ne_true
  have hclear : ∀ name, eligible w.globals name = true → ns.get? name = none :=
    fun name hn => (hns name).trans (if_pos hn)
  dsimp only
  split
  · next hnone =>
    -- nothing to restore
    refine safe_bind.mpr ⟨trivial, ?_⟩
    rintro _ _ ⟨h', hx⟩
    cases hx
    refine ⟨hkept, ?_, fun b hb => ⟨fun id hid => ?_, hclear⟩, nofun, hagain _ _ hdir rfl⟩
    · rintro (h | ⟨_, h⟩) <;> cases h
    · rw [← hman]
      exact Option.map_eq_none_iff.mp (List.findSome?_eq_none_iff.mp hnone id hid)
  · next id m hsome =>
    obtain ⟨hm, before, after, hids, hbefore⟩ := Store.selected_some hsome
    refine safe_bind.mpr (runs_op rfl ?_)
    rintro h' r s₂ hx
    change some (s₁.utime h'.now .manifests (manifestName id)) = _ at hx
    obtain ⟨f, hf⟩ := Store.manifest?_node hm
    unfold Store.utime at hx
    rw [hf] at hx
    cases hx
    have hready : Ready w.store (s₁.put .manifests (manifestName id)
        (.file { f with mtime := h'.now })) :=
      ⟨((Store.node?_put ..).trans (if_neg nofun)).trans ht.absent,
        fun d hd => ((Store.node?_put ..).trans (if_neg nofun)).trans (ht.blobs d hd)⟩
    refine safe_bind.mpr (safe_foldlM (fun rest acc w₁ => Looping out w.store w.loads m
      { w.globals with held := .partialRestore } ns rest acc w₁) ?_ ?_ ?_)
    · rintro e rest acc w₁ hloop
      refine hloop.round.mono ?_
      rintro (x | acc') w₂ ⟨hk, hl⟩
      · exact .error x fun name hn => (hk name hn).trans (hkept name hn)
      · exact hl acc' rfl
    · rintro ⟨restored, skipped⟩ w₁ hloop
      refine safe_bind.mpr ⟨trivial, ?_⟩
      rintro _ _ ⟨h₂, hx⟩
      cases hx
      obtain ⟨l, hl, hr, hv⟩ := hloop.bound
      rw [List.filter_nil, Outside.loaded, List.append_nil] at hl
      subst hl
      dsimp only at hr
      subst hr
      refine ⟨fun name hn => (hloop.kept name hn).trans (hkept name hn), ?_, nofun, ?_, ?_⟩
      · rintro (h | ⟨_, h⟩) <;> cases h
      · rintro _ _ _ _ _ hret
        cases hret
        refine ⟨before, m, after, hids, fun i hi => ?_, ?_, pyEq_str_nearest,
          fun name hn => ⟨?_, hv name hn⟩, fun e he hel => ?_⟩
        · rw [← hman]
          exact hbefore i hi
        · rw [← hman]
          exact hm
        · rw [← lastValue_isSome]
          exact iff_of_eq (congrArg (fun x : Option V => x.isSome = true) (hv name hn))
        · exact (hloop.told e he hel).resolve_left List.not_mem_nil
      · refine hagain _ _ ?_ rfl
        change w₁.globals.directory = true
        rw [hloop.globals]
        exact hdir
    · refine ⟨rfl, hready, fun _ _ => rfl, ⟨[], rfl, rfl, hclear⟩, fun e he _ => .inl ?_⟩
      exact mem_modulesFirst.mpr he

/-- **What a restore leaves**, of any namespace, store and candidates. -/
theorem restore_leaves (python : Python V) (out : Outside V) (ids : List PyStr) (w : Kernel V) :
    Runs out (restore python (.arr (ids.map .str))) (Leaves python out ids w) w := by
  have hnone : (∀ ids' : List PyStr, ids'.head? = ids.head? →
      Runs out (restore python (.arr (ids'.map .str))) (fun r' w'' => r' = .ok .none ∧ w'' = w) w) →
      Leaves python out ids w (.ok .none) w :=
    fun h => ⟨fun _ _ => rfl, fun _ => rfl, nofun, nofun, fun _ _ => h⟩
  refine safe_bind.mpr ⟨trivial, ?_⟩
  rintro _ _ ⟨h, hx⟩
  cases hx
  rw [head?_str]
  change Runs out (if _ then if _ then _ else _ else if _ then _ else _) _ w
  cases hdir : w.globals.directory with
  | false =>
    cases hrep : w.globals.storageErrorReported with
    | true => exact hnone fun ids' _ => runs_reported hdir hrep
    | false =>
      refine safe_bind.mpr ⟨trivial, ?_⟩
      rintro _ _ ⟨h', hx⟩
      cases hx
      exact ⟨fun _ _ => rfl, fun _ => rfl, nofun, nofun, fun _ _ ids' _ => runs_reported hdir rfl⟩
  | true =>
    cases hheld : w.globals.held.is (nearest ids) with
    | true =>
      refine hnone fun ids' hids => runs_held hdir ?_
      rw [show nearest ids' = nearest ids by unfold nearest; rw [hids]]
      exact hheld
    | false =>
      exact runs_withStore (fun e => .error e fun _ _ => rfl) (runs_restoreLocked python ids hdir)

/-- A kernel beside the store of one checkpoint, with a name of its own and one of the user. -/
def oneKernel : Kernel Unit where
  globals := ⟨[py "In"], [], 1, true, none, false, .checkpoint .null⟩
  userNs := ((Dict.empty.set (py "In") ()).set (py "y") ()).set (py "_") ()
  store := oneStore
  loads := 0

/-- The answers of the kernel when every value loads. -/
def serveOne (w : Kernel Unit) (o : Op Unit) : Option (Except Exc (Ans o)) × Kernel Unit :=
  match w.perform ⟨fun _ _ => .ok (), fun _ _ => .ok ()⟩ oneHint o with
  | some (r, w') => (some r, w')
  | none => (none, w)

example : ((restore onePython (.arr [.str (py "no id"), .str firstId.val])).run serveOne
    oneKernel).2.userNs.keys = [py "In", py "_", py "x"] := by
  decide +kernel

end PiIpython.Checkpoint
