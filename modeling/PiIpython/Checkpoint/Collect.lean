import PiIpython.Checkpoint.Scan
import PiIpython.Lib.Evict

/-!
# Collection

`_cleanup` evicts manifests with a running total and a count of references to
each blob, and then unlinks the blobs without references. The tally is the
weight of what is left (`Tallied`), so that the eviction is that of `Lib.Evict`,
and the store that is left has a closed form (`safe_cleanup`).
-/

namespace PiIpython.Checkpoint

open Text Prog

variable {V α : Type}

/-! ## The tally -/

/-- The references to blobs that `B` lists, one entry for each. -/
def Counts (c : Dict Digest Nat) (B : List Digest) : Prop :=
  ∀ d, c.get? d = if d ∈ B then some (B.count d) else none

theorem Counts.perm {c : Dict Digest Nat} {B B' : List Digest} (h : Counts c B) (hp : B.Perm B') :
    Counts c B' := by
  intro d
  rw [h d, hp.count_eq]
  exact if_congr hp.mem_iff rfl rfl

theorem Counts.getD {c : Dict Digest Nat} {B : List Digest} (h : Counts c B) (d : Digest) :
    (c.get? d).getD 0 = B.count d := by
  rw [h d]
  split
  · rfl
  · next hd => exact (List.count_eq_zero_of_not_mem hd).symm

theorem Counts.mem_keys {c : Dict Digest Nat} {B : List Digest} (h : Counts c B) {d : Digest} :
    d ∈ c.keys ↔ d ∈ B := by
  rw [← Dict.get?_isSome, h d]
  split
  · next hd => simp [hd]
  · next hd => simp [hd]

theorem Counts.more {c : Dict Digest Nat} {B : List Digest} (h : Counts c B) (d : Digest) :
    Counts (c.set d ((c.get? d).getD 0 + 1)) (d :: B) := by
  intro d'
  rw [Dict.get?_set, h.getD]
  by_cases hd : d' = d
  · subst hd
    rw [if_pos rfl, if_pos List.mem_cons_self, List.count_cons_self]
  · rw [if_neg hd, h d', List.count_cons_of_ne (Ne.symm hd)]
    exact if_congr (by simp [hd]) rfl rfl

theorem counts_countReferences (ms : List Manifest) :
    Counts (countReferences ms) (ms.flatMap Manifest.blobs) := by
  have hfold : ∀ (L : List Digest) (c : Dict Digest Nat) (B : List Digest), Counts c B →
      Counts (L.foldl (fun c d => c.set d ((c.get? d).getD 0 + 1)) c) (L ++ B) := by
    intro L
    induction L with
    | nil => exact fun c B h => h
    | cons d L ih => exact fun c B h => (ih _ _ (h.more d)).perm List.perm_middle
  have h := hfold (ms.flatMap Manifest.blobs) .empty [] fun d => by simp
  rwa [List.append_nil] at h

/-- The tally counts the references that `B` lists, and weighs what they name. -/
structure Tally.Of (cost : Digest → Nat) (base : ℤ) (B : List Digest) (t : Tally) : Prop where
  references : Counts t.references B
  total : t.total = base + (∑ d ∈ B.toFinset, cost d : ℕ)

section Drop

variable {cost : Digest → Nat} {base : ℤ} {B B' : List Digest} {t : Tally}
  {sizes : Dict Digest Nat}

theorem Tally.Of.perm (h : t.Of cost base B) (hp : B.Perm B') : t.Of cost base B' :=
  ⟨h.references.perm hp, by rw [h.total, List.toFinset_eq_of_perm _ _ hp]⟩

/-- One reference less. -/
theorem Tally.Of.drop {d : Digest} (h : t.Of cost base (d :: B))
    (hs : ∀ d, (sizes.get? d).getD 0 = cost d) : (t.drop sizes d).Of cost base B := by
  have hn : (t.references.get? d).getD 0 - 1 = B.count d := by
    rw [h.references.getD, List.count_cons_self]
    omega
  have hother : ∀ d', d' ≠ d → t.references.get? d' = if d' ∈ B then some (B.count d') else none := by
    intro d' hd
    rw [h.references d', List.count_cons_of_ne (Ne.symm hd)]
    exact if_congr (by simp [hd]) rfl rfl
  unfold Tally.drop
  dsimp only
  rw [hn]
  split
  · next hz =>
    have hd : d ∉ B := List.count_eq_zero.mp hz
    refine ⟨fun d' => ?_, ?_⟩
    · rw [Dict.get?_erase]
      split
      · next he => rw [he, if_neg hd]
      · next he => exact hother d' he
    · change t.total - _ = _
      rw [h.total, hs, List.toFinset_cons,
        Finset.sum_insert (fun hm => hd (List.mem_toFinset.mp hm))]
      push_cast
      ring
  · next hz =>
    have hd : d ∈ B := List.count_pos_iff.mp (Nat.pos_of_ne_zero hz)
    refine ⟨fun d' => ?_, ?_⟩
    · change (t.references.set d _).get? d' = _
      rw [Dict.get?_set]
      split
      · next he => rw [he, if_pos hd]
      · next he => exact hother d' he
    · change t.total = _
      rw [h.total, List.toFinset_cons, Finset.insert_eq_of_mem (List.mem_toFinset.mpr hd)]

theorem Tally.Of.drops (hs : ∀ d, (sizes.get? d).getD 0 = cost d) {ds : List Digest}
    (h : t.Of cost base (ds ++ B)) : (ds.foldl (Tally.drop sizes) t).Of cost base B := by
  induction ds generalizing t with
  | nil => exact h
  | cons d ds ih => exact ih (Tally.Of.drop h hs)

end Drop

/-! ## What is left -/

/-- The size of a blob, or zero. -/
def Store.blobSize (s : Store) (d : Digest) : Nat := (s.blobSize? d).getD 0

/-- The weight of manifests and of the blobs they refer to, each counted once. -/
def Store.weight (s : Store) (l : List (Uuid × Manifest)) : Nat :=
  sharedWeight (fun x => x.2.size) (fun x => x.2.blobs) s.blobSize l

/-- The tally of the manifests. -/
def Tallied (s : Store) (l : List (Uuid × Manifest)) (t : Tally) : Prop :=
  t.Of s.blobSize ((l.map fun x => x.2.size).sum : ℕ) (l.flatMap fun x => x.2.blobs)

theorem Tallied.total {s : Store} {l : List (Uuid × Manifest)} {t : Tally} (h : Tallied s l t) :
    t.total = s.weight l := by
  rw [Tally.Of.total h, Store.weight, sharedWeight]
  push_cast
  rfl

theorem Tallied.perm {s : Store} {l l' : List (Uuid × Manifest)} {t : Tally} (h : Tallied s l t)
    (hp : l.Perm l') : Tallied s l' t := by
  unfold Tallied at *
  rw [← (hp.map fun x => x.2.size).sum_eq]
  exact Tally.Of.perm h (hp.flatMap_right _)

/-- **The tally at the start** is that of all manifests. -/
theorem tallied_start {s : Store} {l : List (Uuid × Manifest)} {sizes : Dict Digest Nat}
    (hs : ∀ d, sizes.get? d = s.blobSize? d) :
    Tallied s l ⟨countReferences (l.map (·.2)),
      startTotal (l.map (·.2)) (countReferences (l.map (·.2))) sizes⟩ := by
  have hc := counts_countReferences (l.map (·.2))
  rw [List.flatMap_map] at hc
  refine ⟨hc, ?_⟩
  have hkeys : (countReferences (l.map (·.2))).keys.toFinset =
      (l.flatMap fun x => x.2.blobs).toFinset := by
    ext d
    rw [List.mem_toFinset, List.mem_toFinset, hc.mem_keys]
  have hcost : (fun d => (sizes.get? d).getD 0) = s.blobSize := funext fun d => by rw [hs]; rfl
  unfold startTotal
  dsimp only
  have hnodup : (countReferences (l.map (·.2))).keys.Nodup := Dict.nodup _
  rw [← hkeys, List.sum_toFinset _ hnodup, hcost, List.map_map]
  push_cast
  rfl

/-- A manifest is dropped from the tally. -/
theorem Tallied.drop {s : Store} {kept rest : List (Uuid × Manifest)} {x : Uuid × Manifest}
    {t : Tally} {sizes : Dict Digest Nat} (hs : ∀ d, sizes.get? d = s.blobSize? d)
    (h : Tallied s (kept ++ x :: rest) t) :
    Tallied s (kept ++ rest)
      (x.2.blobs.foldl (Tally.drop sizes) { t with total := t.total - x.2.size }) := by
  have h := h.perm List.perm_middle
  refine Tally.Of.drops (fun d => by rw [hs]; rfl) ⟨h.references, ?_⟩
  change t.total - _ = _
  rw [Tally.Of.total h, List.map_cons, List.sum_cons, List.flatMap_cons]
  push_cast
  ring

/-! ## The store that is left -/

/-- The store without the names. -/
def Store.removeAll (s : Store) (d : Dir) (names : List PyStr) : Store :=
  names.foldl (fun s name => s.remove d name) s

theorem Store.removeAll_concat (s : Store) (d : Dir) (names : List PyStr) (name : PyStr) :
    s.removeAll d (names ++ [name]) = (s.removeAll d names).remove d name :=
  List.foldl_concat ..

theorem Store.node?_removeAll (s : Store) (d d' : Dir) (names : List PyStr) (name : PyStr) :
    (s.removeAll d names).node? d' name =
      if d' = d ∧ name ∈ names then none else s.node? d' name := by
  induction names generalizing s with
  | nil => exact (if_neg fun h => List.not_mem_nil h.2).symm
  | cons n names ih =>
    change ((s.remove d n).removeAll d names).node? d' name = _
    rw [ih, Store.node?_remove]
    by_cases hd : d' = d <;> by_cases hm : name ∈ names <;> by_cases hn : name = n <;>
      simp [hd, hm, hn]

theorem Store.root_removeAll (s : Store) {d : Dir} (h : d ≠ .root) (names : List PyStr) :
    (s.removeAll d names).root = s.root := by
  induction names generalizing s with
  | nil => rfl
  | cons n names ih =>
    refine (ih _).trans ?_
    cases d
    · exact absurd rfl h
    all_goals rfl

/-- The file names of the manifests of `l` that were not kept. -/
def gone (l kept : List (Uuid × Manifest)) : List PyStr :=
  (l.filter fun x => x.1 ∉ kept.map (·.1)).map fun x => manifestName x.1

theorem mem_gone {l kept : List (Uuid × Manifest)} {id : Uuid} :
    manifestName id ∈ gone l kept ↔ id ∈ l.map (·.1) ∧ id ∉ kept.map (·.1) := by
  unfold gone
  rw [List.mem_map]
  constructor
  · rintro ⟨x, hx, hn⟩
    obtain rfl := manifestName_injective hn
    rw [List.mem_filter] at hx
    exact ⟨List.mem_map_of_mem (f := (·.1)) hx.1, of_decide_eq_true hx.2⟩
  · rintro ⟨hl, hk⟩
    obtain ⟨x, hx, rfl⟩ := List.mem_map.mp hl
    exact ⟨x, List.mem_filter.mpr ⟨hx, decide_eq_true hk⟩, rfl⟩

theorem exists_of_mem_gone {l kept : List (Uuid × Manifest)} {name : PyStr}
    (h : name ∈ gone l kept) : ∃ x ∈ l, x.1 ∉ kept.map (·.1) ∧ name = manifestName x.1 := by
  unfold gone at h
  obtain ⟨x, hx, rfl⟩ := List.mem_map.mp h
  rw [List.mem_filter] at hx
  exact ⟨x, hx.1, of_decide_eq_true hx.2, rfl⟩

theorem gone_concat_kept {done kept : List (Uuid × Manifest)} {x : Uuid × Manifest}
    (hx : x.1 ∉ done.map (·.1)) : gone (done ++ [x]) (kept ++ [x]) = gone done kept := by
  unfold gone
  rw [List.filter_append, List.filter_singleton]
  have hself : decide (x.1 ∉ (kept ++ [x]).map (·.1)) = false := by simp
  rw [hself]
  have hsame : ∀ y ∈ done, decide (y.1 ∉ (kept ++ [x]).map (·.1)) =
      decide (y.1 ∉ kept.map (·.1)) := by
    intro y hy
    have hne : y.1 ≠ x.1 := fun h => hx (h ▸ List.mem_map_of_mem (f := (·.1)) hy)
    simp [hne]
  rw [List.filter_congr hsame]
  simp

theorem gone_concat {done kept : List (Uuid × Manifest)} {x : Uuid × Manifest}
    (hx : x.1 ∉ kept.map (·.1)) :
    gone (done ++ [x]) kept = gone done kept ++ [manifestName x.1] := by
  unfold gone
  rw [List.filter_append, List.filter_singleton, decide_eq_true hx, List.map_append]
  rfl

/-- The store `s` on the way of a collection that began with `s₀`: only manifests that were read
are gone, and blobs that none of those that are left refers to. -/
structure Collecting (python : Python V) (fails : Uuid → Bool) (currentId : Uuid) (s₀ s : Store) :
    Prop where
  root : s.root = s₀.root
  manifest : ∀ name, s.node? .manifests name = s₀.node? .manifests name ∨
    s.node? .manifests name = none ∧ ∃ id, name = manifestName id ∧ id ≠ currentId ∧
      fails id = false ∧ (s₀.manifest? python id).isSome
  blob : ∀ name, s.node? .blobs name = s₀.node? .blobs name ∨
    s.node? .blobs name = none ∧ ∃ d : Digest, name = d.val ∧ ∀ id m, fails id = false →
      s₀.manifest? python id = some m → s.node? .manifests (manifestName id) ≠ none → d ∉ m.blobs

/-- The store `s` after the collection that kept `kept` of the manifests `l`. -/
structure Collected (l kept : List (Uuid × Manifest)) (s₀ s : Store) : Prop where
  root : s.root = s₀.root
  evicted : ∀ x ∈ l, x.1 ∉ kept.map (·.1) → s.node? .manifests (manifestName x.1) = none
  manifest : ∀ name, (∀ x ∈ l, name = manifestName x.1 → x.1 ∈ kept.map (·.1)) →
    s.node? .manifests name = s₀.node? .manifests name
  swept : ∀ d : Digest, (s₀.blobSize? d).isSome → (∀ x ∈ kept, d ∉ x.2.blobs) →
    s.node? .blobs d.val = none
  blob : ∀ name, (∀ d : Digest, name = d.val → (s₀.blobSize? d).isSome →
    ∃ x ∈ kept, d ∈ x.2.blobs) → s.node? .blobs name = s₀.node? .blobs name

/-! ## The eviction -/

/-- The manifests that were read, the least recently used first. -/
structure Listed (python : Python V) (fails : Uuid → Bool) (s : Store)
    (l : List (Uuid × Manifest)) : Prop where
  nodup : (l.map (·.1)).Nodup
  sorted : l.Pairwise fun x y => x.2.mtime ≤ y.2.mtime
  mem : ∀ id m, (id, m) ∈ l ↔ fails id = false ∧ s.manifest? python id = some m

theorem listed_byMtime {python : Python V} {c : Disk V} {s : Store} {names : List PyStr}
    (h : c.Lists s .manifests names) :
    Listed python c.fails s (byMtime (s.scan python c.fails names)) where
  nodup := ((List.perm_insertionSort _ _).map _).nodup_iff.mpr (Dict.nodup _)
  sorted := by
    have : Std.Total fun a b : Uuid × Manifest => a.2.mtime ≤ b.2.mtime :=
      ⟨fun a b => le_total a.2.mtime b.2.mtime⟩
    have : IsTrans (Uuid × Manifest) fun a b => a.2.mtime ≤ b.2.mtime :=
      ⟨fun a b c => le_trans⟩
    exact List.pairwise_insertionSort ..
  mem id m := by
    rw [byMtime, List.mem_insertionSort, ← Dict.get?_eq_some, Store.get?_scan,
      and_iff_right_of_imp]
    rintro ⟨-, hm⟩
    obtain ⟨f, hf⟩ := Store.manifest?_node hm
    refine h.1.mem_iff.mpr (Dict.get?_isSome.mp ?_)
    change (s.node? .manifests (manifestName id)).isSome
    rw [hf]
    rfl

/-- The manifest is older than the code keeps them. -/
def Old (maxAge now : ℚ) (x : Uuid × Manifest) : Prop := maxAge < now - x.2.mtime

instance (maxAge now : ℚ) (x : Uuid × Manifest) : Decidable (Old maxAge now x) :=
  inferInstanceAs (Decidable (_ < _))

/-- The manifests that the collection keeps. -/
def Store.kept (s : Store) (currentId : Uuid) (limit : Int) (maxAge now : ℚ)
    (l : List (Uuid × Manifest)) : List (Uuid × Manifest) :=
  PiIpython.evict (fun x => x.1 = currentId) (Old maxAge now) (fun l => (s.weight l : ℤ)) limit [] l

section Loop

variable {python : Python V} {c : Disk V} {s₀ : Store} {currentId : Uuid} {limit : Int}
  {maxAge now : ℚ} {l : List (Uuid × Manifest)} {sizes : Dict Digest Nat}

theorem Listed.old (hl : Listed python c.fails s₀ l) :
    l.Pairwise fun x y => Old maxAge now y → Old maxAge now x :=
  hl.sorted.imp fun {x y} hxy (ho : maxAge < now - y.2.mtime) =>
    show maxAge < now - x.2.mtime by linarith

/-- Before each round of the eviction. -/
def Round (s₀ : Store) (currentId : Uuid) (limit : Int) (maxAge now : ℚ)
    (l rest : List (Uuid × Manifest)) (t : Tally) (s : Store) : Prop :=
  ∃ done kept, l = done ++ rest ∧
    Evicting (fun x => x.1 = currentId) (Old maxAge now) (fun l => (s₀.weight l : ℤ)) limit
      done kept rest ∧
    Tallied s₀ (kept ++ rest) t ∧ s = s₀.removeAll .manifests (gone done kept) ∧
    s₀.kept currentId limit maxAge now l = PiIpython.evict (fun x => x.1 = currentId)
      (Old maxAge now) (fun l => (s₀.weight l : ℤ)) limit kept rest

theorem collecting_gone (hl : Listed python c.fails s₀ l) {done kept : List (Uuid × Manifest)}
    (hdone : ∀ x ∈ done, x ∈ l) (hpinned : ∀ x ∈ done, x.1 = currentId → x ∈ kept) :
    Collecting python c.fails currentId s₀ (s₀.removeAll .manifests (gone done kept)) where
  root := Store.root_removeAll (d := .manifests) _ nofun _
  manifest name := by
    rw [Store.node?_removeAll]
    split
    · next h =>
      refine .inr ⟨rfl, ?_⟩
      obtain ⟨⟨id, m⟩, hx, hk, rfl⟩ := exists_of_mem_gone h.2
      obtain ⟨hf, hm⟩ := (hl.mem id m).mp (hdone _ hx)
      refine ⟨id, rfl, ?_, hf, by rw [hm]; rfl⟩
      rintro rfl
      exact hk (List.mem_map_of_mem (f := (·.1)) (hpinned _ hx rfl))
    · exact .inl rfl
  blob name := by
    rw [Store.node?_removeAll, if_neg (fun h => nomatch h.1)]
    exact .inl rfl

theorem Round.collecting (hl : Listed python c.fails s₀ l) {rest : List (Uuid × Manifest)}
    {t : Tally} {s : Store} (h : Round s₀ currentId limit maxAge now l rest t s) :
    Collecting python c.fails currentId s₀ s := by
  obtain ⟨done, kept, rfl, he, -, rfl, -⟩ := h
  refine collecting_gone hl (fun x hx => List.mem_append_left _ hx) fun x hx hp => ?_
  exact he.above.subset (List.mem_filter.mpr ⟨hx, decide_eq_true hp⟩)

/-- **A round of the eviction.** -/
theorem safe_evict (hl : Listed python c.fails s₀ l)
    (hs : ∀ d, sizes.get? d = s₀.blobSize? d) {x : Uuid × Manifest}
    {rest : List (Uuid × Manifest)} {t : Tally} {s : Store}
    (h : Round s₀ currentId limit maxAge now l (x :: rest) t s) :
    (evict currentId limit maxAge now sizes t x : Py V Tally).Safe
      (fun _ s => Collecting python c.fails currentId s₀ s) c.Step (fun r s => ∃ t, r = .ok t ∧
        Round s₀ currentId limit maxAge now l rest t s) s := by
  have hcol := h.collecting hl
  obtain ⟨done, kept, rfl, he, ht, rfl, hk⟩ := h
  have hnodup := hl.nodup
  rw [List.map_append, List.map_cons, List.nodup_append] at hnodup
  have hx : x.1 ∉ done.map (·.1) := fun hm => hnodup.2.2 _ hm _ List.mem_cons_self rfl
  have hxk : x.1 ∉ kept.map (·.1) := fun hm => hx ((he.among.map _).subset hm)
  have hold : ∀ y ∈ rest, Old maxAge now y → Old maxAge now x :=
    (List.pairwise_cons.mp (List.pairwise_append.mp hl.old).2.1).1
  have hstep := he.step hold
  have hrest : done ++ x :: rest = done ++ [x] ++ rest := by simp
  -- the manifest stays
  have hkeep : Stays (fun x => x.1 = currentId) (Old maxAge now) (fun l => (s₀.weight l : ℤ)) limit
      kept x rest → Round s₀ currentId limit maxAge now (done ++ x :: rest) rest t
        (s₀.removeAll .manifests (gone done kept)) := by
    intro hst
    rw [if_pos hst] at hstep
    refine ⟨done ++ [x], kept ++ [x], hrest, hstep, ?_, ?_, ?_⟩
    · rwa [List.append_assoc, List.singleton_append]
    · rw [gone_concat_kept hx]
    · rw [hk, PiIpython.evict, if_pos hst]
  unfold Checkpoint.evict
  split
  · next hp => exact ⟨t, rfl, hkeep (.inl hp)⟩
  next hp =>
  split
  · next hc =>
    refine ⟨t, rfl, hkeep (.inr ⟨not_lt.mpr hc.1, ?_⟩)⟩
    change (s₀.weight (kept ++ x :: rest) : ℤ) ≤ limit
    rw [← ht.total]
    exact hc.2
  · next hc =>
    have hst : ¬ Stays (fun x => x.1 = currentId) (Old maxAge now) (fun l => (s₀.weight l : ℤ))
        limit kept x rest := by
      rintro (h | ⟨ho, hw⟩)
      · exact hp h
      · refine hc ⟨not_lt.mp ho, ?_⟩
        rw [ht.total]
        exact hw
    rw [if_neg hst] at hstep
    obtain ⟨f, hf⟩ := Store.manifest?_node
      ((hl.mem x.1 x.2).mp (List.mem_append_right _ List.mem_cons_self)).2
    have hnode : (s₀.removeAll .manifests (gone done kept)).node? .manifests (manifestName x.1) =
        some (.file f) := by
      rw [Store.node?_removeAll, if_neg, hf]
      exact fun h => hx (mem_gone.mp h.2).1
    refine safe_bind.mpr ⟨hcol, ?_⟩
    rintro r s' hs'
    obtain ⟨hh, -, hx'⟩ := hs'.done fun _ h => h
    change some ((s₀.removeAll .manifests (gone done kept)).unlink _ _) = _ at hx'
    rw [Store.unlink, hnode] at hx'
    cases hx'
    refine ⟨_, rfl, done ++ [x], kept, hrest, hstep, ht.drop hs, ?_, ?_⟩
    · rw [gone_concat hxk, Store.removeAll_concat]
    · rw [hk, PiIpython.evict, if_neg hst]

/-! ## The sweep -/

/-- The blobs that the sweep unlinks. -/
def unreferenced (sizes : Dict Digest Nat) (t : Tally) : List Digest :=
  sizes.keys.filter (· ∉ t.references.keys)

theorem mem_unreferenced (hs : ∀ d, sizes.get? d = s₀.blobSize? d)
    {kept : List (Uuid × Manifest)} {t : Tally} (ht : Tallied s₀ kept t) {d : Digest} :
    d ∈ unreferenced sizes t ↔ (s₀.blobSize? d).isSome ∧ ∀ x ∈ kept, d ∉ x.2.blobs := by
  unfold unreferenced
  rw [List.mem_filter, ← Dict.get?_isSome, hs, decide_eq_true_eq,
    Counts.mem_keys (Tally.Of.references ht), List.mem_flatMap]
  simp

/-- The store after the eviction, with some of the blobs swept. -/
def Store.swept (s : Store) (l kept : List (Uuid × Manifest)) (ds : List Digest) : Store :=
  (s.removeAll .manifests (gone l kept)).removeAll .blobs (ds.map (·.val))

theorem Store.node?_swept_manifests (s : Store) (l kept : List (Uuid × Manifest))
    (ds : List Digest) (name : PyStr) : (s.swept l kept ds).node? .manifests name =
      if name ∈ gone l kept then none else s.node? .manifests name := by
  rw [Store.swept, Store.node?_removeAll, if_neg (fun h => nomatch h.1), Store.node?_removeAll]
  simp

theorem Store.node?_swept_blobs (s : Store) (l kept : List (Uuid × Manifest))
    (ds : List Digest) (name : PyStr) : (s.swept l kept ds).node? .blobs name =
      if name ∈ ds.map (·.val) then none else s.node? .blobs name := by
  rw [Store.swept, Store.node?_removeAll, Store.node?_removeAll]
  simp

theorem Store.root_swept (s : Store) (l kept : List (Uuid × Manifest)) (ds : List Digest) :
    (s.swept l kept ds).root = s.root :=
  (Store.root_removeAll (d := .blobs) _ nofun _).trans
    (Store.root_removeAll (d := .manifests) _ nofun _)

theorem collecting_swept (hl : Listed python c.fails s₀ l) {kept : List (Uuid × Manifest)}
    (hkept : ∀ x ∈ kept, x ∈ l) (hpinned : ∀ x ∈ l, x.1 = currentId → x ∈ kept) {ds : List Digest}
    (hds : ∀ d ∈ ds, ∀ x ∈ kept, d ∉ x.2.blobs) :
    Collecting python c.fails currentId s₀ (s₀.swept l kept ds) where
  root := s₀.root_swept l kept ds
  manifest name := by
    have h := (collecting_gone hl (fun _ => id) hpinned).manifest name
    rw [Store.node?_removeAll] at h
    rw [Store.node?_swept_manifests]
    simpa using h
  blob name := by
    rw [Store.node?_swept_blobs]
    split
    · next h =>
      obtain ⟨d, hd, rfl⟩ := List.mem_map.mp h
      refine .inr ⟨rfl, d, rfl, fun id m hf hm hn => ?_⟩
      rw [Store.node?_swept_manifests] at hn
      have hmem := (hl.mem id m).mpr ⟨hf, hm⟩
      by_cases hk : id ∈ kept.map (·.1)
      · obtain ⟨⟨id', m'⟩, hx, rfl⟩ := List.mem_map.mp hk
        have hm' := ((hl.mem id' m').mp (hkept _ hx)).2
        rw [hm] at hm'
        cases hm'
        exact hds d hd _ hx
      · rw [if_pos (mem_gone.mpr ⟨List.mem_map_of_mem (f := (·.1)) hmem, hk⟩)] at hn
        exact absurd rfl hn
    · exact .inl rfl

/-- **The sweep** unlinks the blobs that nothing refers to. -/
theorem safe_sweep (hl : Listed python c.fails s₀ l) {kept : List (Uuid × Manifest)}
    (hkept : ∀ x ∈ kept, x ∈ l) (hpinned : ∀ x ∈ l, x.1 = currentId → x ∈ kept)
    (hs : ∀ d, sizes.get? d = s₀.blobSize? d) {t : Tally} (ht : Tallied s₀ kept t) :
    ((unreferenced sizes t).forM fun d => (unlink .blobs d.val .unreferenced : Py V Unit)).Safe
      (fun _ s => Collecting python c.fails currentId s₀ s) c.Step
      (fun r s => r = .ok () ∧ s = s₀.swept l kept (unreferenced sizes t))
      (s₀.removeAll .manifests (gone l kept)) := by
  have hnodup : (unreferenced sizes t).Nodup := List.Nodup.filter _ (Dict.nodup _)
  refine safe_forM (fun rest s => ∃ ds, unreferenced sizes t = ds ++ rest ∧
    s = s₀.swept l kept ds) ?_ ?_ ⟨[], rfl, rfl⟩
  · rintro d rest s ⟨ds, hsplit, rfl⟩
    have hmem : ∀ d' ∈ ds ++ d :: rest, (s₀.blobSize? d').isSome ∧ ∀ x ∈ kept, d' ∉ x.2.blobs :=
      fun d' h => (mem_unreferenced hs ht).mp (hsplit ▸ h)
    refine ⟨collecting_swept hl hkept hpinned fun d' h => (hmem d' (List.mem_append_left _ h)).2, ?_⟩
    rintro r s' hs'
    obtain ⟨hh, -, hx⟩ := hs'.done fun _ h => h
    change some ((s₀.swept l kept ds).unlink _ _) = _ at hx
    have hnd : d ∉ ds := by
      rw [hsplit] at hnodup
      exact fun h => (List.nodup_append.mp hnodup).2.2 d h d List.mem_cons_self rfl
    have hnode : (s₀.swept l kept ds).node? .blobs d.val = s₀.node? .blobs d.val := by
      rw [Store.node?_swept_blobs, if_neg]
      intro h
      obtain ⟨d', hd', he⟩ := List.mem_map.mp h
      exact hnd (Subtype.ext he ▸ hd')
    obtain ⟨f, hf⟩ := Store.blobSize?_isSome.mp (hmem d (by simp)).1
    rw [Store.unlink, hnode, hf] at hx
    cases hx
    refine ⟨ds ++ [d], by rw [hsplit]; simp, ?_⟩
    rw [Store.swept, Store.swept, List.map_append, List.map_singleton, Store.removeAll_concat]
  · rintro s ⟨ds, hsplit, rfl⟩
    rw [List.append_nil] at hsplit
    exact ⟨rfl, by rw [hsplit]⟩

theorem collected_swept {kept : List (Uuid × Manifest)}
    (hs : ∀ d, sizes.get? d = s₀.blobSize? d) {t : Tally} (ht : Tallied s₀ kept t) :
    Collected l kept s₀ (s₀.swept l kept (unreferenced sizes t)) where
  root := s₀.root_swept _ _ _
  evicted x hx hk := by
    rw [Store.node?_swept_manifests, if_pos]
    exact mem_gone.mpr ⟨List.mem_map_of_mem (f := (·.1)) hx, hk⟩
  manifest name h := by
    rw [Store.node?_swept_manifests, if_neg]
    intro hg
    obtain ⟨x, hx, hk, rfl⟩ := exists_of_mem_gone hg
    exact hk (h x hx rfl)
  swept d hd hr := by
    rw [Store.node?_swept_blobs, if_pos]
    exact List.mem_map_of_mem (f := (·.val)) ((mem_unreferenced hs ht).mpr ⟨hd, hr⟩)
  blob name h := by
    rw [Store.node?_swept_blobs, if_neg]
    intro hm
    obtain ⟨d, hd, rfl⟩ := List.mem_map.mp hm
    obtain ⟨hsome, hr⟩ := (mem_unreferenced hs ht).mp hd
    obtain ⟨x, hx, hb⟩ := h d rfl hsome
    exact hr x hx hb

end Loop

/-! ## The collection -/

/-- What ends a collection before it deletes anything. -/
def Disk.Halts (c : Disk V) (python : Python V) (e : Exc) : Prop :=
  Unparsed python e ∨ ∃ h, c.hint h ∧ h.answer .time = .error e

/-- **The collection**, at any limit and age: it keeps the manifests that the eviction keeps and
the blobs they refer to, and deletes the other manifests and blobs that it has read. -/
theorem safe_cleanup (python : Python V) (c : Disk V) (currentId : Uuid) (limit : Int) (maxAge : ℚ)
    (s₀ : Store) :
    (cleanup python currentId limit maxAge).Safe
      (fun _ s => Collecting python c.fails currentId s₀ s) c.Step (fun r s => match r with
        | .ok _ => ∃ names now, c.Lists s₀ .manifests names ∧
            (∃ h, c.hint h ∧ h.answer .time = .ok now) ∧
            Collected (byMtime (s₀.scan python c.fails names))
              (s₀.kept currentId limit maxAge now (byMtime (s₀.scan python c.fails names))) s₀ s
        | .error e => s = s₀ ∧ c.Halts python e) s₀ := by
  have hpre : ∀ _ : Op V, Collecting python c.fails currentId s₀ s₀ :=
    fun _ => ⟨rfl, fun _ => .inl rfl, fun _ => .inl rfl⟩
  refine safe_bind.mpr ((safe_manifests python hpre).mono ?_)
  rintro (e | found) s ⟨rfl, hr⟩
  · exact ⟨rfl, .inl hr⟩
  obtain ⟨names, hnames, rfl⟩ := hr
  refine safe_bind.mpr ((safe_blobSizes hpre).mono ?_)
  rintro (e | sizes) s' ⟨rfl, hs⟩
  · exact hs.elim
  dsimp only
  refine safe_bind.mpr ⟨hpre .time, ?_⟩
  rintro r s hstep
  obtain ⟨h, hc, hx⟩ := hstep.done fun _ h => h
  change some (h.answer .time, s') = _ at hx
  obtain ⟨rfl, rfl⟩ := Prod.mk.inj (Option.some.inj hx)
  cases hnow : h.answer .time with
  | error e => exact ⟨rfl, .inr ⟨h, hc, hnow⟩⟩
  | ok now =>
  refine safe_done.mpr ?_
  dsimp only
  have hl : Listed python c.fails s' (byMtime (s'.scan python c.fails names)) :=
    listed_byMtime hnames
  generalize hlist : byMtime (s'.scan python c.fails names) = l at hl
  have hstart : Round s' currentId limit maxAge now l l
      ⟨countReferences (s'.scan python c.fails names).values,
        startTotal (s'.scan python c.fails names).values
          (countReferences (s'.scan python c.fails names).values) sizes⟩ s' := by
    refine ⟨[], [], rfl, .nil, ?_, rfl, rfl⟩
    rw [← hlist]
    exact (tallied_start hs).perm (List.perm_insertionSort _ _).symm
  refine safe_bind.mpr ((safe_foldlM (Round s' currentId limit maxAge now l) ?_
    (Q := fun r s => ∃ t, r = .ok t ∧ Round s' currentId limit maxAge now l [] t s) ?_
    hstart).mono ?_)
  · intro x rest t s h
    refine (safe_evict hl hs h).mono ?_
    rintro r s ⟨t, rfl, h⟩
    exact h
  · exact fun t s h => ⟨t, rfl, h⟩
  rintro r s ⟨t, rfl, done, kept, hdone, he, ht, rfl, hk⟩
  rw [List.append_nil] at hdone ht
  subst hdone
  have hkept : s'.kept currentId limit maxAge now l = kept := hk
  have hin : ∀ x ∈ kept, x ∈ l := fun x hx => he.among.subset hx
  have hpinned : ∀ x ∈ l, x.1 = currentId → x ∈ kept := fun x hx hp =>
    he.above.subset (List.mem_filter.mpr ⟨hx, decide_eq_true hp⟩)
  refine safe_bind.mpr ((safe_sweep hl hin hpinned hs ht).mono ?_)
  rintro r s ⟨rfl, rfl⟩
  have hcol : Collecting python c.fails currentId s' (s'.swept l kept (unreferenced sizes t)) :=
    collecting_swept hl hin hpinned fun d hd => ((mem_unreferenced hs ht).mp hd).2
  -- the directories are synced
  have hsync : ∀ {d : Dir} {r : Except Exc Unit} {s s' : Store},
      c.Step s (.fsyncDir d : Op V) r s' → r = .ok () ∧ s' = s := by
    intro d r s s' hs
    obtain ⟨h, -, hx⟩ := hs.done fun _ h => h
    cases hx
    exact ⟨rfl, rfl⟩
  refine safe_bind.mpr ⟨hcol, ?_⟩
  rintro r s hs₁
  obtain ⟨rfl, rfl⟩ := hsync hs₁
  refine ⟨hcol, ?_⟩
  rintro r s hs₂
  obtain ⟨rfl, rfl⟩ := hsync hs₂
  refine ⟨names, now, hnames, ⟨h, hc, hnow⟩, ?_⟩
  rw [hlist, hkept]
  exact collected_swept hs ht

/-! ## What the eviction keeps -/

section Kept

variable {python : Python V} {fails : Uuid → Bool} {s₀ s : Store} {currentId : Uuid} {limit : Int}
  {maxAge now : ℚ} {l : List (Uuid × Manifest)}

theorem Listed.nodup_list (hl : Listed python fails s₀ l) : l.Nodup :=
  List.Nodup.of_map _ hl.nodup

theorem Listed.kept_sublist (hl : Listed python fails s₀ l) :
    (s₀.kept currentId limit maxAge now l).Sublist l :=
  evict_sublist (hl.sorted.imp fun {x y} hxy (ho : maxAge < now - y.2.mtime) =>
    show maxAge < now - x.2.mtime by linarith)

/-- A manifest is kept when its id is. -/
theorem Listed.mem_kept (hl : Listed python fails s₀ l) {x : Uuid × Manifest} (hx : x ∈ l) :
    x.1 ∈ (s₀.kept currentId limit maxAge now l).map (·.1) ↔
      x ∈ s₀.kept currentId limit maxAge now l := by
  refine ⟨fun h => ?_, fun h => List.mem_map_of_mem (f := (·.1)) h⟩
  obtain ⟨y, hy, he⟩ := List.mem_map.mp h
  rwa [← List.inj_on_of_nodup_map hl.nodup (hl.kept_sublist.subset hy) hx he]

/-- **The closed form of the eviction.** -/
theorem Listed.kept_iff {pre post : List (Uuid × Manifest)} {x : Uuid × Manifest}
    (hl : Listed python fails s₀ (pre ++ x :: post)) :
    x ∈ s₀.kept currentId limit maxAge now (pre ++ x :: post) ↔ x.1 = currentId ∨
      now - x.2.mtime ≤ maxAge ∧
        (s₀.weight (pre.filter (·.1 = currentId) ++ x :: post) : ℤ) ≤ limit := by
  unfold Store.kept
  rw [mem_evict_iff_stays hl.nodup_list]
  · exact or_congr_right (and_congr_left' not_lt)
  · exact fun h => Nat.cast_le.mpr (sharedWeight_mono _ _ _ h)
  · exact hl.sorted.imp fun {x y} hxy (ho : maxAge < now - y.2.mtime) =>
      show maxAge < now - x.2.mtime by linarith

/-- What is kept can be read as before. -/
theorem Collected.manifest?_kept (hl : Listed python fails s₀ l)
    (h : Collected l (s₀.kept currentId limit maxAge now l) s₀ s) {id : Uuid} {m : Manifest}
    (hm : (id, m) ∈ s₀.kept currentId limit maxAge now l) : s.manifest? python id = some m := by
  rw [Store.manifest?_congr (h.manifest _ fun x hx he => ?_)]
  · exact ((hl.mem id m).mp (hl.kept_sublist.subset hm)).2
  · rw [← manifestName_injective he]
    exact List.mem_map_of_mem (f := (·.1)) hm

/-- A manifest that is left was kept, or not read. -/
theorem Collected.mem_kept (hl : Listed python fails s₀ l)
    (h : Collected l (s₀.kept currentId limit maxAge now l) s₀ s) {id : Uuid} {m : Manifest}
    (hf : fails id = false) (hm : s.manifest? python id = some m) :
    (id, m) ∈ s₀.kept currentId limit maxAge now l := by
  obtain ⟨f, hnode⟩ := Store.manifest?_node hm
  have hkept : ∀ x ∈ l, manifestName id = manifestName x.1 →
      x.1 ∈ (s₀.kept currentId limit maxAge now l).map (·.1) := by
    intro x hx he
    by_contra hk
    have hnone := h.evicted x hx hk
    rw [← he, hnode] at hnone
    cases hnone
  have hmem : (id, m) ∈ l := by
    rw [hl.mem]
    exact ⟨hf, (Store.manifest?_congr (h.manifest _ hkept)).symm.trans hm⟩
  exact (hl.mem_kept hmem).mp (hkept _ hmem rfl)

/-- What a collection leaves is a store on its way. -/
theorem Collected.collecting (hl : Listed python fails s₀ l)
    (h : Collected l (s₀.kept currentId limit maxAge now l) s₀ s) :
    Collecting python fails currentId s₀ s where
  root := h.root
  manifest name := by
    by_cases hn : ∃ x ∈ l, name = manifestName x.1 ∧
        x.1 ∉ (s₀.kept currentId limit maxAge now l).map (·.1)
    · obtain ⟨⟨id, m⟩, hx, rfl, hk⟩ := hn
      obtain ⟨hf, hm⟩ := (hl.mem id m).mp hx
      refine .inr ⟨h.evicted _ hx hk, id, rfl, ?_, hf, by rw [hm]; rfl⟩
      rintro rfl
      obtain ⟨pre, post, rfl⟩ := List.append_of_mem hx
      exact hk ((hl.mem_kept hx).mpr (hl.kept_iff.mpr (.inl rfl)))
    · refine .inl (h.manifest name fun x hx he => ?_)
      by_contra hk
      exact hn ⟨x, hx, he, hk⟩
  blob name := by
    by_cases hn : ∃ d : Digest, name = d.val ∧ (s₀.blobSize? d).isSome ∧
        ∀ x ∈ s₀.kept currentId limit maxAge now l, d ∉ x.2.blobs
    · obtain ⟨d, rfl, hs, hk⟩ := hn
      refine .inr ⟨h.swept d hs hk, d, rfl, fun id m hf hm hleft hd => ?_⟩
      have hx := (hl.mem id m).mpr ⟨hf, hm⟩
      -- a manifest that is left was kept
      refine hk (id, m) ((hl.mem_kept hx).mp ?_) hd
      by_contra hid
      exact hleft (h.evicted _ hx hid)
    · refine .inl (h.blob name fun d he hs => ?_)
      by_contra hk
      exact hn ⟨d, he, hs, fun x hx hd => hk ⟨x, hx, hd⟩⟩

/-- A blob is left when a manifest that was kept refers to it. -/
theorem Collected.blobSize?_isSome {kept : List (Uuid × Manifest)} (h : Collected l kept s₀ s)
    (d : Digest) : (s.blobSize? d).isSome ↔
      (s₀.blobSize? d).isSome ∧ ∃ x ∈ kept, d ∈ x.2.blobs := by
  constructor
  · intro hs
    have hs₀ : (s₀.blobSize? d).isSome := by
      by_contra hn
      rw [Store.blobSize?_congr (h.blob d.val fun d' he hd' => ?_)] at hs
      · exact hn hs
      · rw [← Subtype.ext he] at hd'
        exact absurd hd' hn
    refine ⟨hs₀, ?_⟩
    by_contra hk
    obtain ⟨f, hf⟩ := Store.blobSize?_isSome.mp hs
    rw [h.swept d hs₀ fun x hx hd => hk ⟨x, hx, hd⟩] at hf
    cases hf
  · rintro ⟨hs₀, hk⟩
    rwa [Store.blobSize?_congr (h.blob d.val fun d' he _ => Subtype.ext he ▸ hk)]

end Kept

/-- **Collection is exact**: of the readable manifests in the order of their last use, those are
deleted that are too old, or too much together with all later ones and the current one; and the
blobs left are those that a manifest left refers to. -/
theorem collection_is_exact (python : Python V) (currentId : Uuid) (limit : Int) (maxAge now : ℚ)
    (s : Store) :
    (cleanup python currentId limit maxAge).Safe (fun _ _ => True)
      (Disk.Step ⟨fun h => h.answer .time = .ok now, fun _ => false⟩) (fun r s' => match r with
        | .error e => s' = s ∧ Unparsed python e
        | .ok _ => ∃ l : List (Uuid × Manifest), (l.map (·.1)).Nodup ∧
            (l.Pairwise fun x y => x.2.mtime ≤ y.2.mtime) ∧
            (∀ id m, (id, m) ∈ l ↔ s.manifest? python id = some m) ∧
            (∀ pre x post, l = pre ++ x :: post → x.1 ≠ currentId →
              (s'.node? .manifests (manifestName x.1) = none ↔ maxAge < now - x.2.mtime ∨
                limit < s.weight (pre.filter (·.1 = currentId) ++ x :: post))) ∧
            s'.node? .manifests (manifestName currentId) =
              s.node? .manifests (manifestName currentId) ∧
            ∀ d, (s'.blobSize? d).isSome ↔ (s.blobSize? d).isSome ∧
              ∃ id m, s'.manifest? python id = some m ∧ d ∈ m.blobs) s := by
  refine ((safe_cleanup python _ currentId limit maxAge s).weaken fun _ _ _ => trivial).mono ?_
  rintro (e | _) s' h
  · obtain ⟨hs, h | ⟨h, hc, hx⟩⟩ := h
    · exact ⟨hs, h⟩
    · rw [show h.answer .time = .ok now from hc] at hx
      cases hx
  obtain ⟨names, now', hnames, ⟨h, hc, hx⟩, hcol⟩ := h
  obtain rfl : now = now' := by
    rw [show h.answer .time = .ok now from hc] at hx
    exact Except.ok.inj hx
  have hl : Listed python _ s _ := listed_byMtime hnames
  dsimp only at hcol
  generalize byMtime (s.scan python (fun _ => false) names) = l at hl hcol
  have hcurrent : ∀ x ∈ l, x.1 = currentId → x.1 ∈ (s.kept currentId limit maxAge now l).map (·.1) := by
    rintro x hx hp
    obtain ⟨pre, post, rfl⟩ := List.append_of_mem hx
    exact (hl.mem_kept hx).mpr (hl.kept_iff.mpr (.inl hp))
  refine ⟨l, hl.nodup, hl.sorted, fun id m => by rw [hl.mem]; simp, ?_, ?_, ?_⟩
  · rintro pre x post rfl hne
    have hx : x ∈ pre ++ x :: post := List.mem_append_right _ List.mem_cons_self
    obtain ⟨f, hf⟩ := Store.manifest?_node ((hl.mem x.1 x.2).mp hx).2
    have hgone : s'.node? .manifests (manifestName x.1) = none ↔
        x ∉ s.kept currentId limit maxAge now (pre ++ x :: post) := by
      constructor
      · intro hn hk
        rw [hcol.manifest _ fun y _ he => ?_, hf] at hn
        · cases hn
        · rw [← manifestName_injective he]
          exact (hl.mem_kept hx).mpr hk
      · exact fun hk => hcol.evicted x hx fun h => hk ((hl.mem_kept hx).mp h)
    rw [hgone, hl.kept_iff, or_iff_right hne, not_and_or, not_le, not_le]
  · refine hcol.manifest _ fun x hx he => ?_
    exact hcurrent x hx (manifestName_injective he).symm
  · intro d
    rw [hcol.blobSize?_isSome]
    refine and_congr_right fun _ => ⟨?_, ?_⟩
    · rintro ⟨⟨id, m⟩, hx, hd⟩
      exact ⟨id, m, hcol.manifest?_kept hl hx, hd⟩
    · rintro ⟨id, m, hm, hd⟩
      exact ⟨(id, m), hcol.mem_kept hl rfl hm, hd⟩

end PiIpython.Checkpoint
