import PiIpython.Checkpoint.Touch

/-!
# The store within its bound

Where no kernel is killed in the middle of an atomic write and every manifest
that is written is one that is accepted, a store has no files but manifests
that are accepted and blobs. Then a save that returns leaves the manifests that
it kept and the blobs they refer to, and these are within the limit or those of
the checkpoint just saved alone (`store_bounded`).
-/

namespace PiIpython.Checkpoint

open Text Prog
open Bridge (PyValue)

variable {V α : Type}

/-! ## Files that are accounted for -/

/-- Besides temporary files there are only manifests that are accepted, and blobs. -/
structure Store.Proper (python : Python V) (s : Store) : Prop where
  manifest : ∀ name, s.node? .manifests name ≠ none →
    IsTemporary name ∨ ∃ id, name = manifestName id ∧ (s.manifest? python id).isSome
  blob : ∀ name, s.node? .blobs name ≠ none →
    IsTemporary name ∨ ∃ d : Digest, name = d.val ∧ (s.blobSize? d).isSome

/-- There are no temporary files. -/
def Store.Settled (s : Store) : Prop :=
  ∀ d, d ≠ .root → ∀ name, IsTemporary name → s.node? d name = none

/-- The text of a manifest that is accepted. -/
def Accepted (python : Python V) (text : Bytes) : Bool :=
  text.length ≤ manifestLimit &&
    match python.jsonLoads text with
    | .ok v => (parseManifest ⟨text.length, 0⟩ v).isOk
    | .error _ => false

/-- The operation writes no manifest but one that is accepted. -/
def Op.publishes (python : Python V) : Op V → Bool
  | .write fd data => fd.dir ≠ .manifests || Accepted python data
  | _ => true

section Proper

variable {python : Python V} {s s' : Store}

theorem manifest?_of_accepted {id : Uuid} {text : Bytes} (h : Accepted python text = true)
    (hs : Holds (s.node? .manifests (manifestName id)) text) : (s.manifest? python id).isSome := by
  obtain ⟨t, ht⟩ := hs
  unfold Accepted at h
  obtain ⟨hlen, hp⟩ := (Bool.and_eq_true _ _).mp h
  have hread : s.readable .manifests (manifestName id) manifestLimit = some ⟨text, t, true⟩ :=
    Store.readable_eq_some.mpr ⟨ht, rfl, of_decide_eq_true hlen⟩
  unfold Store.manifest?
  rw [hread, Option.bind_some]
  cases hv : python.jsonLoads text with
  | error e =>
    rw [hv] at hp
    cases hp
  | ok v =>
    rw [hv] at hp
    dsimp only at hp ⊢
    rw [parseManifest_info ⟨text.length, 0⟩]
    cases hm : parseManifest ⟨text.length, 0⟩ v with
    | error e =>
      rw [hm] at hp
      cases hp
    | ok m => rfl

theorem Store.Proper.congr (h : s.Proper python)
    (hs : ∀ d, d ≠ .root → ∀ name, s'.node? d name = s.node? d name) : s'.Proper python where
  manifest name hn := by
    rw [hs .manifests nofun] at hn
    refine (h.manifest name hn).imp_right fun ⟨id, he, hm⟩ => ⟨id, he, ?_⟩
    rwa [Store.manifest?_congr (hs .manifests nofun _)]
  blob name hn := by
    rw [hs .blobs nofun] at hn
    refine (h.blob name hn).imp_right fun ⟨d, he, hd⟩ => ⟨d, he, ?_⟩
    rwa [Store.blobSize?_congr (hs .blobs nofun _)]

theorem Store.Proper.growing (h : s.Proper python) (hg : Growing python s s') :
    s'.Proper python where
  manifest name hn := by
    rw [hg.other .manifests name nofun] at hn
    refine (h.manifest name hn).imp_right fun ⟨id, he, hm⟩ => ⟨id, he, ?_⟩
    rwa [Store.manifest?_congr (hg.other .manifests _ nofun)]
  blob name hn := by
    rcases hg.blob name with hb | hb | ⟨d, rfl, -, data, ⟨t, ht⟩, -⟩
    · rw [hb] at hn
      refine (h.blob name hn).imp_right fun ⟨d, he, hd⟩ => ⟨d, he, ?_⟩
      subst he
      rwa [Store.blobSize?_congr hb]
    · exact .inl hb
    · exact .inr ⟨d, rfl, Store.blobSize?_isSome.mpr ⟨_, ht⟩⟩

theorem Store.Proper.writing {id : Uuid} {text : Bytes} (h : s.Proper python)
    (ha : Accepted python text = true)
    (hw : Writing .manifests (manifestName id) text s s') : s'.Proper python where
  manifest name hn := by
    rcases hw .manifests name with hs | ⟨-, ht | ⟨rfl, hs⟩⟩
    · rw [hs] at hn
      refine (h.manifest name hn).imp_right fun ⟨id', he, hm⟩ => ⟨id', he, ?_⟩
      subst he
      rwa [Store.manifest?_congr hs]
    · exact .inl ht
    · exact .inr ⟨id, rfl, manifest?_of_accepted ha hs⟩
  blob name hn := by
    have hs : ∀ name, s'.node? .blobs name = s.node? .blobs name := fun name =>
      (hw .blobs name).resolve_right fun hd => by cases hd.1
    rw [hs] at hn
    refine (h.blob name hn).imp_right fun ⟨d, he, hd⟩ => ⟨d, he, ?_⟩
    rwa [Store.blobSize?_congr (hs _)]

theorem Store.Proper.collecting {fails : Uuid → Bool} {currentId : Uuid} (h : s.Proper python)
    (hc : Collecting python fails currentId s s') : s'.Proper python where
  manifest name hn := by
    have hs := (hc.manifest name).resolve_right fun hd => hn hd.1
    rw [hs] at hn
    refine (h.manifest name hn).imp_right fun ⟨id, he, hm⟩ => ⟨id, he, ?_⟩
    subst he
    rwa [Store.manifest?_congr hs]
  blob name hn := by
    have hs := (hc.blob name).resolve_right fun hd => hn hd.1
    rw [hs] at hn
    refine (h.blob name hn).imp_right fun ⟨d, he, hd⟩ => ⟨d, he, ?_⟩
    subst he
    rwa [Store.blobSize?_congr hs]

theorem Store.Settled.collecting {fails : Uuid → Bool} {currentId : Uuid} (h : s.Settled)
    (hc : Collecting python fails currentId s s') : s'.Settled := by
  intro d hd name ht
  cases d with
  | root => exact absurd rfl hd
  | blobs =>
    rcases hc.blob name with hs | ⟨hs, -⟩
    · exact hs.trans (h .blobs hd name ht)
    · exact hs
  | manifests =>
    rcases hc.manifest name with hs | ⟨hs, -⟩
    · exact hs.trans (h .manifests hd name ht)
    · exact hs

theorem Fewer.settled {d : Dir} (hf : Fewer d s s') (h : s.Settled)
    (hs : ∀ d', d' ≠ d → ∀ name, s'.node? d' name = s.node? d' name) : s'.Settled := by
  intro d' hd name ht
  by_cases he : d' = d
  · subst he
    rcases hf name ht with hn | hn
    · exact hn.trans (h d' hd name ht)
    · exact hn
  · exact (hs d' he name).trans (h d' hd name ht)

end Proper

/-! ## What is left -/

/-- The bytes of a file. -/
def Node.size : Node → Nat
  | .file f => f.data.length
  | _ => 0

/-- The bytes of the files in the two directories. -/
def Store.usage (s : Store) : Nat :=
  (s.manifests.entries.map fun p => p.2.size).sum + (s.blobs.entries.map fun p => p.2.size).sum

/-- The bytes of a checkpoint: of its manifest and of its blobs. -/
def Store.checkpointSize (python : Python V) (s : Store) (id : Uuid) : Nat :=
  (s.manifest? python id).elim 0 fun m => m.size + (m.blobs.map s.blobSize).sum

/-- The files are manifests that are accepted and blobs that they refer to, and within the limit
unless they are those of the checkpoint `id` alone. -/
structure Store.Within (python : Python V) (id : Uuid) (limit : Int) (s : Store) : Prop where
  manifest : ∀ name, s.node? .manifests name ≠ none →
    ∃ id, name = manifestName id ∧ (s.manifest? python id).isSome
  blob : ∀ name, s.node? .blobs name ≠ none →
    ∃ id m, ∃ d ∈ m.blobs, s.manifest? python id = some m ∧ name = d.val
  usage : (s.usage : ℤ) ≤ max limit (s.checkpointSize python id)

section Within

variable {python : Python V} {fails : Uuid → Bool} {s₀ s : Store} {id : Uuid} {limit : Int}
  {maxAge now : ℚ} {l kept : List (Uuid × Manifest)}

theorem Store.manifest?_size {m : Manifest} (h : s.manifest? python id = some m) :
    ((s.manifests.get? (manifestName id)).elim 0 Node.size) = m.size := by
  obtain ⟨f, hf, hm⟩ := Option.bind_eq_some_iff.mp h
  have hnode : s.manifests.get? (manifestName id) = some (.file f) :=
    (Store.readable_eq_some.mp hf).1
  rw [hnode]
  split at hm
  · next v _ =>
    have hself := parseManifest_info ⟨f.data.length, f.mtime⟩ ⟨f.data.length, f.mtime⟩ v
    cases hp : parseManifest ⟨f.data.length, f.mtime⟩ v with
    | error e =>
      rw [hp] at hm
      cases hm
    | ok m' =>
      rw [hp] at hm hself
      cases hm
      rw [Except.ok.inj hself]
      rfl
  · cases hm

theorem Store.blobSize_eq (s : Store) (d : Digest) :
    (s.blobs.get? d.val).elim 0 Node.size = s.blobSize d := by
  unfold Store.blobSize Store.blobSize?
  have hnode : s.node? .blobs d.val = s.blobs.get? d.val := rfl
  rw [hnode]
  rcases s.blobs.get? d.val with _ | (f | _ | _ | _) <;> rfl

theorem Store.weight_singleton (s : Store) (x : Uuid × Manifest) :
    s.weight [x] = x.2.size + (x.2.blobs.map s.blobSize).sum := by
  unfold Store.weight sharedWeight
  rw [List.flatMap_singleton, List.sum_toFinset _ (show x.2.blobs.Nodup from List.nodup_dedup _)]
  simp

/-- **The bytes that are used** are no more than the weight of the manifests. -/
theorem Store.usage_le (hids : (kept.map (·.1)).Nodup)
    (hkept : ∀ x ∈ kept, s.manifest? python x.1 = some x.2)
    (hmanifest : ∀ name, s.node? .manifests name ≠ none → ∃ x ∈ kept, name = manifestName x.1)
    (hblob : ∀ name, s.node? .blobs name ≠ none → ∃ x ∈ kept, ∃ d ∈ x.2.blobs, name = d.val) :
    s.usage ≤ s.weight kept := by
  refine Nat.add_le_add ?_ ?_
  · refine (Dict.sum_entries_le (S := (kept.map fun x => manifestName x.1).toFinset)
      fun name n hn _ => ?_).trans (le_of_eq ?_)
    · obtain ⟨x, hx, rfl⟩ := hmanifest name (by
        rw [show s.node? .manifests name = some n from hn]
        exact nofun)
      exact List.mem_toFinset.mpr (List.mem_map_of_mem (f := fun x => manifestName x.1) hx)
    · have hnodup : (kept.map fun x => manifestName x.1).Nodup := by
        have := hids.map (f := manifestName) fun _ _ => manifestName_injective
        rwa [List.map_map] at this
      rw [List.sum_toFinset _ hnodup, List.map_map]
      exact congrArg List.sum (List.map_congr_left fun x hx => Store.manifest?_size (hkept x hx))
  · refine (Dict.sum_entries_le (S := (kept.flatMap fun x => x.2.blobs).toFinset.image (·.val))
      fun name n hn _ => ?_).trans (le_of_eq ?_)
    · obtain ⟨x, hx, d, hd, rfl⟩ := hblob name (by
        rw [show s.node? .blobs name = some n from hn]
        exact nofun)
      exact Finset.mem_image_of_mem _ (List.mem_toFinset.mpr (List.mem_flatMap.mpr ⟨x, hx, hd⟩))
    · rw [Finset.sum_image fun _ _ _ _ h => Subtype.ext h]
      exact Finset.sum_congr rfl fun d _ => s.blobSize_eq d

theorem Listed.weight_kept (hl : Listed python fails s₀ l) {m : Manifest} (hm : (id, m) ∈ l) :
    (s₀.weight (s₀.kept id limit maxAge now l) : ℤ) ≤ max limit (s₀.weight [(id, m)]) := by
  have h : s₀.kept id limit maxAge now l = l.filter (fun x => x.1 = id) ∨
      (s₀.weight (s₀.kept id limit maxAge now l) : ℤ) ≤ limit :=
    weight_evict (Listed.old (c := ⟨fun _ => True, fails⟩) hl)
  rcases h with h | h
  · refine le_max_of_le_right ?_
    rw [h]
    -- the current manifest is the only one with its id
    obtain ⟨pre, post, rfl⟩ := List.append_of_mem hm
    have hnodup := hl.nodup
    rw [List.map_append, List.map_cons, List.nodup_append, List.nodup_cons] at hnodup
    have hpre : pre.filter (fun x => x.1 = id) = [] := List.filter_eq_nil_iff.mpr fun x hx he =>
      hnodup.2.2 x.1 (List.mem_map_of_mem (f := (·.1)) hx) id List.mem_cons_self
        (of_decide_eq_true he)
    have hpost : post.filter (fun x => x.1 = id) = [] := List.filter_eq_nil_iff.mpr fun x hx he =>
      hnodup.2.1.1 (of_decide_eq_true he ▸ List.mem_map_of_mem (f := (·.1)) hx)
    rw [List.filter_append, List.filter_cons_of_pos (by simp), hpre, hpost]
    exact le_refl _
  · exact le_max_of_le_left h

/-- **What a collection leaves** of files that are accounted for. -/
theorem Collected.within (hfails : ∀ id, fails id = false) (hl : Listed python fails s₀ l)
    (h : Collected l (s₀.kept id limit maxAge now l) s₀ s) (hp : s₀.Proper python)
    (hs : s₀.Settled) (hm : (s₀.manifest? python id).isSome) : s.Within python id limit := by
  have hc := h.collecting hl
  have hp' := hp.collecting hc
  have hs' := hs.collecting hc
  have hread : ∀ x ∈ s₀.kept id limit maxAge now l, s.manifest? python x.1 = some x.2 :=
    fun x hx => h.manifest?_kept hl hx
  have hmanifest : ∀ name, s.node? .manifests name ≠ none →
      ∃ x ∈ s₀.kept id limit maxAge now l, name = manifestName x.1 := by
    intro name hn
    rcases hp'.manifest name hn with ht | ⟨id', rfl, hm'⟩
    · exact absurd (hs' .manifests nofun name ht) hn
    · obtain ⟨m', hm'⟩ := Option.isSome_iff_exists.mp hm'
      exact ⟨_, h.mem_kept hl (hfails id') hm', rfl⟩
  have hblob : ∀ name, s.node? .blobs name ≠ none →
      ∃ x ∈ s₀.kept id limit maxAge now l, ∃ d ∈ x.2.blobs, name = d.val := by
    intro name hn
    rcases hp'.blob name hn with ht | ⟨d, rfl, hd⟩
    · exact absurd (hs' .blobs nofun name ht) hn
    · obtain ⟨-, x, hx, hdx⟩ := (h.blobSize?_isSome d).mp hd
      exact ⟨x, hx, d, hdx, rfl⟩
  refine ⟨fun name hn => ?_, fun name hn => ?_, ?_⟩
  · obtain ⟨x, hx, rfl⟩ := hmanifest name hn
    exact ⟨x.1, rfl, by rw [hread x hx]; rfl⟩
  · obtain ⟨x, hx, d, hd, rfl⟩ := hblob name hn
    exact ⟨x.1, x.2, d, hd, hread x hx, rfl⟩
  · -- the blobs that are left have their sizes
    have hsize : ∀ x ∈ s₀.kept id limit maxAge now l, ∀ d ∈ x.2.blobs,
        s.blobSize d = s₀.blobSize d := by
      intro x hx d hd
      unfold Store.blobSize
      rw [Store.blobSize?_congr (h.blob d.val fun d' he _ => ⟨x, hx, Subtype.ext he ▸ hd⟩)]
    have hweight : ∀ k, (∀ x ∈ k, x ∈ s₀.kept id limit maxAge now l) → s.weight k = s₀.weight k := by
      intro k hk
      unfold Store.weight sharedWeight
      refine congrArg _ (Finset.sum_congr rfl fun d hd => ?_)
      obtain ⟨x, hx, hd⟩ := List.mem_flatMap.mp (List.mem_toFinset.mp hd)
      exact hsize x (hk x hx) d hd
    obtain ⟨m, hm⟩ := Option.isSome_iff_exists.mp hm
    have hmem : (id, m) ∈ l := (hl.mem id m).mpr ⟨hfails id, hm⟩
    have hkept : (id, m) ∈ s₀.kept id limit maxAge now l := by
      obtain ⟨pre, post, rfl⟩ := List.append_of_mem hmem
      exact hl.kept_iff.mpr (.inl rfl)
    have hone : s.checkpointSize python id = s₀.weight [(id, m)] := by
      unfold Store.checkpointSize
      rw [hread _ hkept, ← hweight [(id, m)] (by simpa using hkept), Store.weight_singleton]
      rfl
    have husage := Store.usage_le ((hl.kept_sublist.map _).nodup hl.nodup) hread hmanifest hblob
    rw [hweight _ fun _ h => h] at husage
    rw [hone]
    exact (Nat.cast_le.mpr husage).trans (hl.weight_kept hmem)

end Within

/-! ## With the lock -/

/-- What the call that gave the lock back last has left. -/
def Call.Leaves (python : Python V) (s : Store) : Call × Bool → Prop
  | (.save checkpointId limit _, false) =>
    ∃ id, asUuid checkpointId = some id ∧ s.Within python id limit
  | _ => True

/-- **The invariant of the store** while no session has the lock. -/
structure Tidy (python : Python V) (w : History) : Prop where
  proper : w.store.Proper python
  settled : w.store.Settled
  left : ∀ x, w.last = some x → Call.Leaves python w.store x

/-- `p` is safe from `w` with the lock, as far as the manifests that it writes are accepted. -/
abbrev Tidying (python : Python V) (c : Call) (p : Py V α) (Q : Except Exc α → History → Prop)
    (w : History) : Prop :=
  Holding (fun o : Op V => o.publishes python) (fun s _ => s.Settled)
    (fun w => w.store.Proper python) (Tidy python) c p Q w

section Save

variable {python : Python V} {c : Call} {w : History}

theorem Store.Proper.restorable (h : w.store.Proper python) (o : Op V) :
    Restorable (fun s _ => s.Settled) (fun w => w.store.Proper python) (Tidy python) w o :=
  ⟨h, fun hs => ⟨h, hs, fun x hx => by cases hx⟩⟩

/-- A program on the store. -/
theorem tidying_lift {p : Py V α} {q : Except Exc α → Store → Prop} (hp : p.AllOps Op.Plain)
    (h : p.Safe (fun _ s => s.Proper python) (Store.Does (·.publishes python))
      (fun r s => s.Proper python ∧ q r s) w.store) :
    Tidying python c p (fun r w' => w'.store.Proper python ∧ q r w'.store) w :=
  held_lift (P := Op.Plain) (F := fun _ => True) (G := fun s => s.Proper python) (fun _ h => h)
    (fun _ o _ hg => Store.Proper.restorable hg o) (fun _ _ _ _ _ _ _ _ _ => trivial)
    (fun _ _ _ hg hq => ⟨hg, hq⟩) hp trivial h

/-- The blobs of the namespace. -/
theorem tidy_saveNames (hw : w.store.Proper python) (hs : w.store.Settled)
    (items : List (PyStr × V)) :
    Tidying python c (items.foldlM (saveName python) ⟨[], .empty, 0⟩)
      (fun _ w' => w'.store.Proper python ∧ w'.store.Settled) w := by
  refine tidying_lift (q := fun _ s => s.Settled) ((allOps_saveNames items _).mono fun _ h => h.1)
    (safe_does (((safe_saveNames items).weaken fun _ _ hg => hw.growing hg).mono ?_))
  rintro r s ⟨acc, hg, -⟩
  refine ⟨hw.growing hg.growing, hg.fewer.settled hs fun d hd name => ?_⟩
  exact hg.growing.other d name hd

/-- A temporary file is new. -/
theorem Store.Proper.put_temporary {s : Store} {hex : Hex} (hp : s.Proper python) (n : Node) :
    (s.put .manifests (temporaryName hex) n).Proper python := by
  have hsame : ∀ d name, ¬ (d = .manifests ∧ name = temporaryName hex) →
      (s.put .manifests (temporaryName hex) n).node? d name = s.node? d name :=
    fun d name hne => (Store.node?_put ..).trans (if_neg hne)
  have hblobs : ∀ name, (s.put .manifests (temporaryName hex) n).node? .blobs name =
      s.node? .blobs name := fun name => hsame .blobs name fun h => by cases h.1
  refine ⟨fun name hn => ?_, fun name hn => ?_⟩
  · by_cases he : name = temporaryName hex
    · exact .inl ⟨hex, he⟩
    · rw [hsame _ _ fun h => he h.2] at hn
      refine (hp.manifest name hn).imp_right fun ⟨id, hid, hm⟩ => ⟨id, hid, ?_⟩
      subst hid
      rwa [Store.manifest?_congr (hsame _ _ fun h => he h.2)]
  · rw [hblobs] at hn
    refine (hp.blob name hn).imp_right fun ⟨d, hd, hb⟩ => ⟨d, hd, ?_⟩
    rwa [Store.blobSize?_congr (hblobs _)]

/-- A manifest that would not be accepted is not written. -/
theorem safe_atomicWrite_refused {text : Bytes} {s : Store} (hs : s.Settled)
    (hp : s.Proper python) (ha : Accepted python text = false) (name : PyStr) :
    (atomicWrite .manifests name text : Py V Unit).Safe (fun _ s => s.Proper python)
      (Store.Does (·.publishes python)) (fun r s' => s' = s ∧ r ≠ .ok ()) s := by
  refine safe_bind.mpr ⟨hp, ?_⟩
  rintro r s₁ ⟨-, hs₁⟩
  obtain ⟨h, -, hx⟩ := hs₁.done fun _ h => h
  change some (h.answer .uuid4, s) = _ at hx
  obtain ⟨rfl, rfl⟩ := Prod.mk.inj (Option.some.inj hx)
  rcases h.answer .uuid4 with e | hex
  · exact ⟨rfl, nofun⟩
  refine safe_ensure.mpr (safe_bind.mpr ⟨hp, ?_⟩)
  rintro r s₁ ⟨-, hs₁⟩
  obtain ⟨h, -, hx⟩ := hs₁.done fun _ h => nomatch h.2.2
  obtain ⟨rfl, rfl⟩ := Prod.ext_iff.mp (Option.some.inj hx)
  have ho : s.openFile h.now .manifests (temporaryName hex) .create =
      (.ok ⟨.manifests, temporaryName hex, .create⟩,
        s.put .manifests (temporaryName hex) (.file ⟨[], h.now, true⟩)) := by
    unfold Store.openFile
    rw [hs .manifests nofun _ ⟨hex, rfl⟩]
  rw [ho]
  have hput : (s.put .manifests (temporaryName hex) (.file ⟨[], h.now, true⟩)).Proper python :=
    hp.put_temporary _
  refine safe_bind.mpr (safe_ensure.mpr (safe_bind.mpr ⟨hput, ?_⟩))
  -- the text may not be written
  rintro r s₂ ⟨hwrite, -⟩
  have hwrite : (decide (Dir.manifests ≠ .manifests) || Accepted python text) = true := hwrite
  rw [ha] at hwrite
  cases hwrite

/-- **The manifest**, as far as it is one that is accepted. -/
theorem tidy_publish (hw : w.store.Proper python) (hs : w.store.Settled) (id : Uuid)
    (text : Bytes) :
    Tidying python c (atomicWrite .manifests (manifestName id) text) (fun r w' =>
      w'.store.Proper python ∧ w'.store.Settled ∧
        (r = .ok () → (w'.store.manifest? python id).isSome)) w := by
  refine tidying_lift (q := fun r s => s.Settled ∧ (r = .ok () → (s.manifest? python id).isSome))
    ((allOps_atomicWrite _ _ _).mono fun _ h => h.1) ?_
  cases ha : Accepted python text with
  | false =>
    refine (safe_atomicWrite_refused hs hw ha _).mono ?_
    rintro r s ⟨rfl, hr⟩
    exact ⟨hw, hs, fun h => absurd h hr⟩
  | true =>
    refine safe_does (((safe_atomicWrite fun ht => ht.ne_manifestName id rfl).weaken
      fun _ _ hg => hw.writing ha hg).mono fun r s h => ⟨hw.writing ha h.writing, ?_, fun hr =>
        manifest?_of_accepted ha (h.holds hr)⟩)
    refine Fewer.settled h.fewer hs fun d hd name => ?_
    exact (h.writing d name).resolve_right fun he => hd he.1

theorem tidy_cleanup (hw : w.store.Proper python) (hs : w.store.Settled) {id : Uuid}
    (hm : (w.store.manifest? python id).isSome) (limit : Int) (maxAge : ℚ) :
    Tidying python c (cleanup python id limit maxAge) (fun r w' =>
      w'.store.Proper python ∧ w'.store.Settled ∧
        (r = .ok () → w'.store.Within python id limit)) w := by
  refine tidying_lift (q := fun r s => s.Settled ∧ (r = .ok () → s.Within python id limit))
    (allOps_cleanup id limit maxAge) (safe_does (((safe_cleanup python (Disk.sound V) id limit maxAge
      w.store).weaken fun _ _ hc => hw.collecting hc).mono ?_))
  rintro (e | _) s h
  · obtain ⟨rfl, -⟩ := h
    exact ⟨hw, hs, nofun⟩
  · obtain ⟨names, now, hnames, -, hc⟩ := h
    have hl : Listed python (fun _ => false) w.store _ := listed_byMtime hnames
    have hcol := hc.collecting hl
    exact ⟨hw.collecting hcol, hs.collecting hcol, fun _ => hc.within (fun _ => rfl) hl hw hs hm⟩

/-- **A save**, as far as its manifest is one that is accepted. -/
theorem tidy_saveLocked (hw : w.store.Proper python) (hs : w.store.Settled) (id : Uuid) (began : ℚ)
    (limit : Int) (maxAge : ℚ) :
    Tidying python c (saveLocked python id began limit maxAge) (fun r w' =>
      w'.store.Proper python ∧ w'.store.Settled ∧
        (r = .ok () → w'.store.Within python id (max 0 limit))) w := by
  have hfail : ∀ {w : History}, w.store.Proper python → w.store.Settled → ∀ e : Exc,
      w.store.Proper python ∧ w.store.Settled ∧
        ((.error e : Except Exc Unit) = .ok () → w.store.Within python id (max 0 limit)) :=
    fun hw hs e => ⟨hw, hs, nofun⟩
  refine held_kernel (allOps_perform rfl) hw.restorable (fun items => ?_) fun e => hfail hw hs e
  refine safe_bind.mpr ((tidy_saveNames hw hs items).mono ?_)
  rintro (e | acc) w₁ ⟨hw₁, hs₁⟩
  · exact hfail hw₁ hs₁ e
  refine held_kernel (allOps_perform rfl) hw₁.restorable (fun g => ?_) fun e => hfail hw₁ hs₁ e
  refine held_kernel (allOps_perform rfl) hw₁.restorable (fun ended => ?_) fun e => hfail hw₁ hs₁ e
  refine safe_bind.mpr (safe_done.mpr ?_)
  cases acc.manifest (max 0 (g.executionCount - 1)) (ended - began) with
  | error e => exact hfail hw₁ hs₁ e
  | ok v =>
  refine safe_bind.mpr ((tidy_publish hw₁ hs₁ id _).mono ?_)
  rintro (e | _) w₂ ⟨hw₂, hs₂, hm⟩
  · exact hfail hw₂ hs₂ e
  · exact tidy_cleanup hw₂ hs₂ (hm rfl) _ _

end Save

/-! ## A restore -/

section Restore

variable {python : Python V} {c : Call} {w w' : History} {s : Store}

/-- A manifest that is used is accepted as before. -/
theorem manifest?_used {id : Uuid} {f : File}
    (hf : s.node? .manifests (manifestName id) = some (.file f))
    (hm : (s.manifest? python id).isSome) (now : ℚ) :
    ((s.put .manifests (manifestName id) (.file { f with mtime := now })).manifest? python id).isSome := by
  obtain ⟨m, hm⟩ := Option.isSome_iff_exists.mp hm
  obtain ⟨f', hf', hm⟩ := Option.bind_eq_some_iff.mp hm
  obtain ⟨hnode, ho, hl⟩ := Store.readable_eq_some.mp hf'
  rw [hf] at hnode
  cases hnode
  have hread : (s.put .manifests (manifestName id) (.file { f with mtime := now })).readable
      .manifests (manifestName id) manifestLimit = some { f with mtime := now } :=
    Store.readable_eq_some.mpr ⟨(Store.node?_put ..).trans (if_pos ⟨rfl, rfl⟩), ho, hl⟩
  unfold Store.manifest?
  rw [hread, Option.bind_some]
  dsimp only at hm ⊢
  split at hm
  · next v _ =>
    rw [parseManifest_info ⟨f.data.length, f.mtime⟩]
    cases hp : parseManifest ⟨f.data.length, f.mtime⟩ v with
    | error e =>
      rw [hp] at hm
      cases hm
    | ok m => rfl
  · cases hm

theorem Store.Proper.touches (h : w.store.Proper python) (ht : Touches w w') :
    w'.store.Proper python := by
  cases ht with
  | root hstore _ => exact h.congr hstore
  | used id f now hf hstore _ =>
    rw [hstore]
    have hother : ∀ d name, ¬ (d = .manifests ∧ name = manifestName id) →
        (w.store.put .manifests (manifestName id) (.file { f with mtime := now })).node? d name =
          w.store.node? d name := fun d name hne => (Store.node?_put ..).trans (if_neg hne)
    refine ⟨fun name hn => ?_, fun name hn => ?_⟩
    · by_cases he : name = manifestName id
      · subst he
        have hn : w.store.node? .manifests (manifestName id) ≠ none := by
          rw [hf]
          exact nofun
        refine (h.manifest _ hn).imp_right fun ⟨id', he, hm⟩ => ⟨id, rfl, ?_⟩
        rw [← manifestName_injective he] at hm
        exact manifest?_used hf hm now
      · rw [hother _ _ fun hc => he hc.2] at hn
        refine (h.manifest name hn).imp_right fun ⟨id', he', hm⟩ => ⟨id', he', ?_⟩
        subst he'
        rwa [Store.manifest?_congr (hother _ _ fun hc => he hc.2)]
    · have hblobs : ∀ name, _ := fun name => hother .blobs name fun hc => by cases hc.1
      rw [hblobs] at hn
      refine (h.blob name hn).imp_right fun ⟨d, he, hd⟩ => ⟨d, he, ?_⟩
      rwa [Store.blobSize?_congr (hblobs _)]
  | crashed d _ hstore _ =>
    rw [hstore]
    have hother : ∀ d' name, ¬ (d' = .blobs ∧ name = d.val) →
        (w.store.remove .blobs d.val).node? d' name = w.store.node? d' name :=
      fun d' name hne => (Store.node?_remove ..).trans (if_neg hne)
    refine ⟨fun name hn => ?_, fun name hn => ?_⟩
    · have hmanifests : ∀ name, _ := fun name => hother .manifests name fun hc => by cases hc.1
      rw [hmanifests] at hn
      refine (h.manifest name hn).imp_right fun ⟨id, he, hm⟩ => ⟨id, he, ?_⟩
      rwa [Store.manifest?_congr (hmanifests _)]
    · by_cases he : name = d.val
      · rw [Store.node?_remove, if_pos ⟨rfl, he⟩] at hn
        exact absurd rfl hn
      · rw [hother _ _ fun hc => he hc.2] at hn
        refine (h.blob name hn).imp_right fun ⟨d', he', hd⟩ => ⟨d', he', ?_⟩
        subst he'
        rwa [Store.blobSize?_congr (hother _ _ fun hc => he hc.2)]

theorem Store.Settled.touches (h : w.store.Settled) (ht : Touches w w') : w'.store.Settled := by
  intro d hd name htemp
  have hn := h d hd name htemp
  cases ht with
  | root hstore _ => rwa [hstore d hd]
  | used id f now hf hstore _ =>
    rw [hstore, Store.node?_put, if_neg fun hc => htemp.ne_manifestName id hc.2]
    exact hn
  | crashed d' _ hstore _ =>
    rw [hstore, Store.node?_remove]
    split
    · rfl
    · exact hn

theorem tidy_restoreLocked (hw : w.store.Proper python) (hs : w.store.Settled)
    (ids : List PyValue) (nearest : PyValue) :
    Tidying python c (restoreLocked python ids nearest)
      (fun _ w' => w'.store.Proper python ∧ w'.store.Settled) w :=
  held_using (I := fun w => w.store.Proper python ∧ w.store.Settled)
    (using_restoreLocked python ids nearest) (fun _ o h => h.1.restorable o)
    (fun _ _ h ht => ⟨h.1.touches ht, h.2.touches ht⟩) ⟨hw, hs⟩

end Restore

/-! ## Sessions -/

section Sessions

variable {python : Python V} {c : Call} {w : History}

theorem Store.Within.weaken {id : Uuid} {limit : Int} {s : Store}
    (h : s.Within python id (max 0 limit)) : s.Within python id limit :=
  ⟨h.manifest, h.blob, by have := h.usage; omega⟩

/-- Where the lock may be given back. -/
theorem tidy_returns {r : Except Exc α} (hw : w.store.Proper python) (hs : w.store.Settled)
    (hl : Call.Leaves python w.store (c, raised r)) :
    Returns (V := V) (fun s _ => s.Settled) (fun w => w.store.Proper python) (Tidy python) c r w :=
  ⟨hw.restorable _, hw, hs, fun x hx => by cases hx; exact hl⟩

theorem tidy_keeping (c : Call) :
    Keeping (fun o : Op V => o.publishes python) (fun s _ => s.Settled)
      (fun w => w.store.Proper python) (Tidy python) c (start python c) := by
  cases c with
  | save checkpointId limit maxAge =>
    refine keeping_saveLocked (fun w o hw => hw.proper.restorable o) fun id began w hid hw => ?_
    refine (tidy_saveLocked hw.proper hw.settled id began limit maxAge).mono ?_
    rintro (e | _) w' ⟨hw', hs', hr⟩
    · exact tidy_returns hw' hs' trivial
    · exact tidy_returns hw' hs' ⟨id, hid, (hr rfl).weaken⟩
  | restore candidateIds =>
    refine keeping_restoreLocked candidateIds (fun w o hw => hw.proper.restorable o)
      fun ids nearest w hw => ?_
    refine (tidy_restoreLocked hw.proper hw.settled ids nearest).mono ?_
    rintro r w' ⟨hw', hs'⟩
    exact tidy_returns hw' hs' trivial

/-- **The store stays within its bound**: where no kernel is killed while there is a temporary file
and no manifest is written that would not be accepted, a save that returns leaves manifests that
are accepted and the blobs they refer to, within the limit or those of its checkpoint alone. -/
theorem store_bounded (python : Python V) {s : Store} (hp : s.Proper python) (hs : s.Settled)
    {es : List (SessionEvent Call (Hint V))}
    (ha : AllSteps (Sessions.step (histories V) (begin python)) (fun t e =>
      Sessions.Allowed (histories V) (killing fun s _ => s.Settled) t e ∧
        Sessions.Permitted (fun o => o.2.publishes python) t e) (untouched V s) es) :
    Throughout (Sessions.step (histories V) (begin python)) (fun t => t.holder = none →
      ∀ checkpointId limit maxAge, t.world.last = some (.save checkpointId limit maxAge, false) →
        ∃ id, asUuid checkpointId = some id ∧ t.world.store.Within python id limit)
      (untouched V s) es := by
  have hJ : Tidy python (untouched V s).world := ⟨hp, hs, fun x hx => by cases hx⟩
  have hg : Sessions.Guarded (allowing fun o : Op V => o.publishes python)
      (killing fun s _ => s.Settled) (fun w => w.store.Proper python) (Tidy python)
      (untouched V s) := ⟨hp, fun _ => hJ, fun i _ => trivial, fun i hi => by cases hi⟩
  refine (hg.throughout_only (fun w hw => hw.proper) tidy_keeping ha).mono fun t ht hfree => ?_
  exact fun checkpointId limit maxAge hl => (ht.free hfree).left _ hl

end Sessions

/-! ## A save within a limit -/

/-- What the run of a kill between two files meets, for a computation. -/
def calm (t : Sessions History (Call × Op Unit) (fun o => Ans o.2) Exc) :
    SessionEvent Call (Hint Unit) → Bool
  | .call _ _ => true
  | .act i _ =>
    match t.program i with
    | .op o _ => o.2.publishes writingPython
    | .done _ => true
  | .interrupt _ _ => false
  | .kill _ => (t.world.store.blobs.keys ++ t.world.store.manifests.keys).all
      fun name => name.head? ≠ some (chr '.')

theorem settled_of_names {s : Store}
    (h : ∀ name ∈ s.blobs.keys ++ s.manifests.keys, name.head? ≠ some (chr '.')) : s.Settled := by
  rintro d hd name ⟨hex, rfl⟩
  refine Dict.get?_eq_none.mpr fun hm => ?_
  have hmem : temporaryName hex ∈ s.blobs.keys ++ s.manifests.keys := by
    cases d with
    | root => exact absurd rfl hd
    | blobs => exact List.mem_append_left _ hm
    | manifests => exact List.mem_append_right _ hm
  obtain ⟨cs, hcs⟩ := temporaryName_head hex
  exact h _ hmem (by rw [hcs]; rfl)

theorem allowed_of_calm {t : Sessions History (Call × Op Unit) (fun o => Ans o.2) Exc}
    {e : SessionEvent Call (Hint Unit)} (h : calm t e = true) :
    Sessions.Allowed (histories Unit) (killing fun s _ => s.Settled) t e ∧
      Sessions.Permitted (fun o => o.2.publishes writingPython) t e := by
  cases e with
  | call i c => exact ⟨trivial, trivial⟩
  | act i hint =>
    refine ⟨trivial, fun o k hp => ?_⟩
    have h : (match t.program i with
      | .op o _ => o.2.publishes writingPython
      | .done _ => true) = true := h
    rw [hp] at h
    exact h
  | interrupt i done => cases h
  | kill i =>
    refine ⟨fun o k _ _ => settled_of_names fun name hm => ?_, trivial⟩
    exact of_decide_eq_true (List.all_eq_true.mp h name hm)

theorem store_bounded_killed :
    ((runAll (Sessions.step (histories Unit) (begin writingPython)) (untouched Unit .empty)
      killedRun).map fun t => (t.holder, t.world.last.map fun x => x.2, t.world.store.usage)) =
        some (none, some false, 187) ∧
    Throughout (Sessions.step (histories Unit) (begin writingPython)) (fun t => t.holder = none →
      ∀ checkpointId limit maxAge, t.world.last = some (.save checkpointId limit maxAge, false) →
        ∃ id, asUuid checkpointId = some id ∧ t.world.store.Within writingPython id limit)
      (untouched Unit .empty) killedRun :=
  ⟨by decide +kernel, store_bounded writingPython ⟨fun _ h => absurd rfl h, fun _ h => absurd rfl h⟩
    (fun _ _ _ _ => by cases ‹Dir› <;> rfl)
    (AllSteps.mono (fun _ _ => allowed_of_calm) (show AllSteps _ (fun t e => calm t e = true) _ _ by
      decide +kernel))⟩

end PiIpython.Checkpoint
