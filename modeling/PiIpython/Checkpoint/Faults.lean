import PiIpython.Checkpoint.Saving
import PiIpython.Checkpoint.Sessions

/-!
# Reads that fail

`_manifests` passes over a manifest that it cannot read, and the sweep then
takes the blobs of that manifest for unreferenced. A save loses nothing exactly
when every blob of such a manifest is shared with one that was read and stays.
-/

namespace PiIpython.Checkpoint

open Text Prog
open Bridge (PyValue PyNum entry)

variable {V α : Type}

/-- The manifests that are left have the blobs that they had. -/
def NothingLost (python : Python V) (s s' : Store) : Prop :=
  ∀ id m, s'.manifest? python id = some m → ∀ d ∈ m.blobs, (s.blobSize? d).isSome →
    (s'.blobSize? d).isSome

/-- Each blob of a manifest whose reading fails is also that of a manifest that is read and stays:
the current one, or one that is neither too old nor too much. -/
def Covered (python : Python V) (fails : Uuid → Bool) (currentId : Uuid) (limit : Int)
    (maxAge now : ℚ) (s s₂ : Store) (l : List (Uuid × Manifest)) : Prop :=
  ∀ id m, fails id = true → s₂.manifest? python id = some m → ∀ d ∈ m.blobs,
    (s.blobSize? d).isSome → ∃ pre x post, l = pre ++ x :: post ∧ d ∈ x.2.blobs ∧
      (x.1 = currentId ∨ now - x.2.mtime ≤ maxAge ∧
        (s₂.weight (pre.filter (·.1 = currentId) ++ x :: post) : ℤ) ≤ limit)

section Lost

variable {python : Python V} {c : Disk V} {s₀ s : Store}

theorem Growing.blobSize? {s' : Store} (h : Growing python s s') {d : Digest}
    (hd : (s.blobSize? d).isSome) : (s'.blobSize? d).isSome := by
  rcases h.blob d.val with h | h | ⟨d', -, h, -⟩
  · rwa [Store.blobSize?_congr h]
  · exact absurd rfl (h.ne_digest d)
  · obtain ⟨f, hf⟩ := Store.blobSize?_isSome.mp hd
    rw [hf] at h
    cases h

theorem Wrote.blobSize? {id : Uuid} {text : Bytes} {r : Except Exc Unit} {s' : Store}
    (h : Wrote .manifests (manifestName id) text s r s') (d : Digest) :
    s'.blobSize? d = s.blobSize? d := by
  refine Store.blobSize?_congr ?_
  rcases h.writing .blobs d.val with h | ⟨h, -⟩
  · exact h
  · cases h

theorem Publishing.growing {id : Uuid} {s₁ : Store} {text : Bytes}
    (h : Publishing python id s₀ s₁ text) : Growing python s₀ s₁ := by
  obtain ⟨acc, -, -, -, hg, -, -⟩ := h.text
  exact hg.growing

/-- **What a collection loses** it loses of manifests whose reading failed. -/
theorem nothingLost_iff {currentId : Uuid} {limit : Int} {maxAge now : ℚ} {names : List PyStr}
    {s₂ : Store} (hgrow : ∀ d, (s₀.blobSize? d).isSome → (s₂.blobSize? d).isSome)
    (hnames : c.Lists s₂ .manifests names)
    (hc : Collected (byMtime (s₂.scan python c.fails names))
      (s₂.kept currentId limit maxAge now (byMtime (s₂.scan python c.fails names))) s₂ s) :
    NothingLost python s₀ s ↔ Covered python c.fails currentId limit maxAge now s₀ s₂
      (byMtime (s₂.scan python c.fails names)) := by
  have hl : Listed python c.fails s₂ _ := listed_byMtime hnames
  generalize byMtime (s₂.scan python c.fails names) = l at hl hc
  have hblob : ∀ d, (s₀.blobSize? d).isSome → ((s.blobSize? d).isSome ↔ ∃ pre x post,
      l = pre ++ x :: post ∧ d ∈ x.2.blobs ∧ (x.1 = currentId ∨ now - x.2.mtime ≤ maxAge ∧
        (s₂.weight (pre.filter (·.1 = currentId) ++ x :: post) : ℤ) ≤ limit)) := by
    intro d hd
    rw [hc.blobSize?_isSome, and_iff_right (hgrow d hd)]
    constructor
    · rintro ⟨x, hx, hdx⟩
      obtain ⟨pre, post, rfl⟩ := List.append_of_mem (hl.kept_sublist.subset hx)
      exact ⟨pre, x, post, rfl, hdx, hl.kept_iff.mp hx⟩
    · rintro ⟨pre, x, post, rfl, hdx, hx⟩
      exact ⟨x, hl.kept_iff.mpr hx, hdx⟩
  constructor
  · intro h id m hf hm d hd hd₀
    refine (hblob d hd₀).mp (h id m ?_ d hd hd₀)
    rw [Store.manifest?_congr (hc.manifest _ fun x hx he => ?_)]
    · exact hm
    · -- the manifest was not read
      have hx := ((hl.mem x.1 x.2).mp hx).1
      rw [← manifestName_injective he, hf] at hx
      cases hx
  · intro h id m hm d hd hd₀
    cases hf : c.fails id with
    | false =>
      rw [hc.blobSize?_isSome]
      exact ⟨hgrow d hd₀, (id, m), hc.mem_kept hl hf hm, hd⟩
    | true =>
      refine (hblob d hd₀).mpr (h id m hf ?_ d hd hd₀)
      rwa [Store.manifest?_congr (hc.manifest _ fun x hx he => ?_)] at hm
      have hx := ((hl.mem x.1 x.2).mp hx).1
      rw [← manifestName_injective he, hf] at hx
      cases hx

end Lost

/-- **A save with reads that fail** loses nothing if and only if the manifests that it cannot read
are covered by those that it keeps. -/
theorem save_loses_nothing_iff (python : Python V) (c : Disk V) (checkpointId : PyValue)
    (limit : Int) (maxAge : ℚ) (s : Store) :
    (save python checkpointId limit maxAge).Safe (fun _ _ => True) c.Step (fun r s' => match r with
      | .error _ => NothingLost python s s'
      | .ok _ => c.NoStore ∧ s' = s ∨ ∃ id s₁ s₂ text names now,
          asUuid checkpointId = some id ∧
          -- the store when the collection begins
          Publishing python id s s₁ text ∧ Wrote .manifests (manifestName id) text s₁ (.ok ()) s₂ ∧
          c.Lists s₂ .manifests names ∧ (∃ h, c.hint h ∧ h.answer .time = .ok now) ∧
          (NothingLost python s s' ↔ Covered python c.fails id (max 0 limit) (max 0 maxAge) now
            s s₂ (byMtime (s₂.scan python c.fails names)))) s := by
  refine (safe_save checkpointId limit maxAge).mono ?_
  rintro r s' (⟨rfl, hr⟩ | ⟨id, hid, he⟩)
  · rcases r with e | _
    · exact fun _ _ _ _ _ h => h
    · exact .inl ⟨hr rfl, rfl⟩
  cases he with
  | blobs e acc h => exact fun _ _ _ d _ hd => h.growing.blobSize? hd
  | manifest e s₁ text h r hw =>
    refine fun _ _ _ d _ hd => ?_
    rw [hw.blobSize?]
    exact h.growing.blobSize? hd
  | collect s₁ s₂ text h hw names now hnames hnow hc =>
    refine .inr ⟨id, s₁, s₂, text, names, now, hid, h, hw, hnames, hnow, ?_⟩
    refine nothingLost_iff (fun d hd => ?_) hnames hc
    rw [hw.blobSize?]
    exact h.growing.blobSize? hd

/-! ## A manifest that cannot be read -/

/-- The disk fails to read the manifest of the checkpoint that is there. -/
def faultyDisk : Disk Unit := ⟨fun _ => True, fun id => id = firstId⟩

/-- What it answers. -/
def faultyServe (s : Store) (o : Op Unit) : Option (Except Exc (Ans o)) × Store :=
  if o.openedManifest? = some (manifestName firstId) then
    (some (.error (.osError (py "[Errno 24] Too many open files"))), s)
  else
    match s.perform saveHint o with
    | some (r, s') => (some r, s')
    | none => (none, s)

theorem faultyServe_step (s : Store) (o : Op Unit) (r : Except Exc (Ans o)) (s' : Store)
    (h : faultyServe s o = (some r, s')) : faultyDisk.Step s o r s' := by
  unfold faultyServe at h
  split at h
  · next ho =>
    obtain ⟨hr, rfl⟩ := Prod.mk.inj h
    exact .inl ⟨firstId, by decide +kernel, Op.opens_iff.mpr ho, rfl, _, rfl,
      (Option.some.inj hr).symm⟩
  · next ho =>
    refine .inr ⟨fun id hid hop => ?_, saveHint, trivial, ?_⟩
    · rw [Op.opens_iff] at hop
      rw [hop, of_decide_eq_true hid] at ho
      exact ho rfl
    · split at h
      · next hx =>
        rw [hx]
        cases h
        rfl
      · cases h

/-- **A read error loses data**: the save goes well, and the checkpoint that could not be read has
lost its value. -/
theorem save_loses_blob :
    ¬ ∀ (c : Disk Unit) (id : PyValue) (s : Store),
      (save onePython id storeLimit maxAgeSeconds).Safe (fun _ _ => True) c.Step
        (fun r s' => r = .ok () → NothingLost onePython s s') s := by
  intro h
  have hrun : ((save onePython (.str secondId.val) storeLimit maxAgeSeconds).run faultyServe
      oneStore).1 = some (.ok ()) := by
    decide +kernel
  have hmanifest : (((save onePython (.str secondId.val) storeLimit maxAgeSeconds).run faultyServe
      oneStore).2.manifest? onePython firstId).map Manifest.blobs = some [oneDigest] := by
    decide +kernel
  have hblob : ((save onePython (.str secondId.val) storeLimit maxAgeSeconds).run faultyServe
      oneStore).2.blobSize? oneDigest = none := by
    decide +kernel
  generalize hx : (save onePython (.str secondId.val) storeLimit maxAgeSeconds).run faultyServe
    oneStore = x at hrun hmanifest hblob
  have hlost := (h faultyDisk (.str secondId.val) oneStore).run faultyServe_step
    (hx.trans (Prod.ext hrun rfl)) rfl
  obtain ⟨m, hm, hb⟩ := Option.map_eq_some_iff.mp hmanifest
  have hleft := hlost firstId m hm oneDigest (by rw [hb]; exact .head _) (by decide +kernel)
  rw [hblob] at hleft
  cases hleft

end PiIpython.Checkpoint
