import PiIpython.Checkpoint.Access

/-!
# Scanning the store

What `_read_manifest`, `_manifests` and `_blob_sizes` return on a disk whose
operations answer as the store says, but for the manifests whose reading fails.
Nothing changes.
-/

namespace PiIpython.Checkpoint

open Text Prog
open Bridge (PyValue PyNum)

variable {V α : Type}

/-! ## Ids -/

theorem manifestName_injective {a b : Uuid} (h : manifestName a = manifestName b) : a = b :=
  Subtype.ext (List.append_cancel_right h)

theorem manifestId?_manifestName (id : Uuid) : manifestId? (manifestName id) = some id := by
  unfold manifestId? manifestName
  rw [if_pos (List.suffix_append _ _)]
  have hlen : (id.val ++ py ".json").length - 5 = id.val.length := by
    rw [List.length_append, show (py ".json").length = 5 by decide +kernel]
    omega
  rw [hlen, List.take_left]
  exact dif_pos id.2

theorem eq_manifestName {name : PyStr} {id : Uuid} (h : manifestId? name = some id) :
    name = manifestName id := by
  unfold manifestId? at h
  split at h
  · next hs =>
    obtain ⟨s, rfl⟩ := hs
    have hlen : (s ++ py ".json").length - 5 = s.length := by
      rw [List.length_append, show (py ".json").length = 5 by decide +kernel]
      omega
    rw [hlen, List.take_left] at h
    unfold uuid? at h
    split at h
    · cases h
      rfl
    · cases h
  · cases h

theorem digest?_val (d : Digest) : digest? d.val = some d := dif_pos d.2

theorem eq_of_digest? {name : PyStr} {d : Digest} (h : digest? name = some d) : name = d.val := by
  unfold digest? at h
  split at h
  · cases h
    rfl
  · cases h

/-! ## What the store says -/

/-- The manifest that `_read_manifest` accepts. -/
def Store.manifest? (python : Python V) (s : Store) (id : Uuid) : Option Manifest :=
  (s.readable .manifests (manifestName id) manifestLimit).bind fun f =>
    match python.jsonLoads f.data with
    | .ok v => (parseManifest ⟨f.data.length, f.mtime⟩ v).toOption
    | .error _ => none

/-- The size of the blob, when it is a regular file. -/
def Store.blobSize? (s : Store) (d : Digest) : Option Nat :=
  match s.node? .blobs d.val with
  | some (.file f) => some f.data.length
  | _ => none

theorem Store.manifest?_node {python : Python V} {s : Store} {id : Uuid} {m : Manifest}
    (h : s.manifest? python id = some m) :
    ∃ f, s.node? .manifests (manifestName id) = some (.file f) := by
  obtain ⟨f, hf, -⟩ := Option.bind_eq_some_iff.mp h
  exact ⟨f, (Store.readable_eq_some.mp hf).1⟩

/-- A manifest is what its file says. -/
theorem Store.manifest?_congr {python : Python V} {s s' : Store} {id : Uuid}
    (h : s'.node? .manifests (manifestName id) = s.node? .manifests (manifestName id)) :
    s'.manifest? python id = s.manifest? python id := by
  unfold Store.manifest? Store.readable
  rw [h]

theorem Store.blobSize?_congr {s s' : Store} {d : Digest}
    (h : s'.node? .blobs d.val = s.node? .blobs d.val) : s'.blobSize? d = s.blobSize? d := by
  unfold Store.blobSize?
  rw [h]

theorem Store.blobSize?_isSome {s : Store} {d : Digest} :
    (s.blobSize? d).isSome ↔ ∃ f, s.node? .blobs d.val = some (.file f) := by
  unfold Store.blobSize?
  split
  · next f hf => exact ⟨fun _ => ⟨f, hf⟩, fun _ => rfl⟩
  · next hn => exact ⟨nofun, fun ⟨f, hf⟩ => absurd hf (hn f)⟩

theorem parseEntry_error {x : PyValue} {e : Exc} (h : parseEntry x = .error e) :
    e = invalidEntry := by
  unfold parseEntry at h
  repeat' split at h
  all_goals cases h
  all_goals rfl

theorem parseEntries_error {l : List PyValue} {e : Exc} (h : l.mapM parseEntry = .error e) :
    e = invalidEntry := by
  induction l with
  | nil => cases h
  | cons x l ih =>
    rw [List.mapM_cons] at h
    cases hx : parseEntry x with
    | error e' =>
      rw [hx] at h
      cases h
      exact parseEntry_error hx
    | ok y =>
      rw [hx] at h
      cases hl : l.mapM parseEntry with
      | error e' =>
        rw [hl] at h
        cases h
        exact ih hl
      | ok ys =>
        rw [hl] at h
        cases h

/-- A manifest is refused with a `ValueError`. -/
theorem parseManifest_error {info : Info} {v : PyValue} {e : Exc}
    (h : parseManifest info v = .error e) : e.isOsOrValue = true := by
  have hmap : ∀ {x : Except Exc (List Entry)} {f : List Entry → Manifest},
      x.map f = .error e → x = .error e := by
    rintro (e' | es) f h
    · cases h
      rfl
    · cases h
  unfold parseManifest at h
  split at h
  · split at h
    · split at h
      · split at h
        · split at h
          · rw [parseEntries_error (hmap h)]
            rfl
          · cases h; rfl
        · cases h; rfl
      · cases h; rfl
    · cases h; rfl
  · cases h; rfl

/-! ## A disk -/

/-- What a disk answers: as the store says when the environment decides as one of the hints, but
that the reading of some manifests fails. -/
structure Disk (V : Type) where
  hint : Hint V → Prop
  fails : Uuid → Bool

/-- The disk whose operations do not fail. -/
def Disk.sound (V : Type) : Disk V := ⟨fun _ => True, fun _ => false⟩

/-- The operation opens the manifest for reading. -/
def Op.Opens (o : Op V) (id : Uuid) : Prop :=
  match o with
  | .openFile d name mode => d = .manifests ∧ name = manifestName id ∧ mode = .read
  | _ => False

/-- The manifest that the operation opens for reading. -/
def Op.openedManifest? : Op V → Option PyStr
  | .openFile .manifests name .read => some name
  | _ => none

theorem Op.opens_iff {o : Op V} {id : Uuid} :
    o.Opens id ↔ o.openedManifest? = some (manifestName id) := by
  cases o with
  | openFile d name mode => cases d <;> cases mode <;> simp [Op.Opens, Op.openedManifest?]
  | _ => exact ⟨fun h => h.elim, nofun⟩

/-- What an operation does. The reading of a manifest fails with an `OSError`. -/
def Disk.Step (c : Disk V) (s : Store) (o : Op V) (r : Except Exc (Ans o)) (s' : Store) : Prop :=
  (∃ id, c.fails id = true ∧ o.Opens id ∧ s' = s ∧ ∃ e : Exc, e.isOs = true ∧ r = .error e) ∨
    (∀ id, c.fails id = true → ¬ o.Opens id) ∧ ∃ h, c.hint h ∧ s.perform h o = some (r, s')

variable {c : Disk V} {pre : Op V → Store → Prop} {s : Store}

/-- An operation that opens no manifest. -/
theorem Disk.Step.done {o : Op V} {r : Except Exc (Ans o)} {s' : Store} (h : c.Step s o r s')
    (ho : ∀ id, ¬ o.Opens id) : ∃ h, c.hint h ∧ s.perform h o = some (r, s') := by
  rcases h with ⟨id, -, h, -⟩ | ⟨-, h⟩
  · exact absurd h (ho id)
  · exact h

/-- What `_read_manifest` returns. -/
def ManifestRead (python : Python V) (c : Disk V) (id : Uuid) (s : Store) :
    Except Exc Manifest → Prop
  | .ok m => c.fails id = false ∧ s.manifest? python id = some m
  | .error e => (c.fails id = true ∧ e.isOsOrValue = true) ∨
      c.fails id = false ∧ s.manifest? python id = none ∧
        (e.isOsOrValue = true ∨ ∃ data, python.jsonLoads data = .error e)

theorem safe_readManifest (python : Python V) (id : Uuid) (hpre : ∀ o, pre o s) :
    (readManifest python id).Safe pre c.Step (fun r s' => s' = s ∧ ManifestRead python c id s r)
      s := by
  cases hf : c.fails id with
  | true =>
    refine safe_bind.mpr (safe_bind.mpr ⟨hpre _, ?_⟩)
    rintro r s' (⟨id', -, -, rfl, e, he, rfl⟩ | ⟨hno, -⟩)
    · refine ⟨rfl, .inl ⟨hf, ?_⟩⟩
      unfold Exc.isOs at he
      unfold Exc.isOsOrValue
      rw [he]
      rfl
    · exact absurd ⟨rfl, rfl, rfl⟩ (hno id hf)
  | false =>
    have hread : (readFile .manifests (manifestName id) manifestLimit : Py V (Bytes × Info)).Safe
        pre (Store.Step fun _ _ => False) (fun r s' => s' = s ∧ match r with
          | .ok x => ∃ f, s.readable .manifests (manifestName id) manifestLimit = some f ∧
              x = (f.data, ⟨f.data.length, f.mtime⟩)
          | .error e => s.readable .manifests (manifestName id) manifestLimit = none ∧
              e.isOsOrValue = true) s :=
      safe_readFile hpre (fun f hf => ⟨rfl, f, hf, rfl⟩)
        (fun e hn he => ⟨rfl, hn, he.osOrValue⟩) (fun ⟨_, _, h⟩ => h.elim)
    have hops : (readFile .manifests (manifestName id) manifestLimit : Py V (Bytes × Info)).AllOps
        fun o => ∀ id', c.fails id' = true → ¬ o.Opens id' := by
      refine allOps_readFile (P := fun o => ∀ id', c.fails id' = true → ¬ o.Opens id') ?_
        (fun _ _ _ h => h) (fun _ _ _ _ h => h) (fun _ _ _ h => h) _
      rintro id' hf' ⟨-, h, -⟩
      rw [manifestName_injective h, hf'] at hf
      cases hf
    refine safe_bind.mpr ((Safe.of_steps ?_ hops hread).mono ?_)
    · rintro w o r w' ho (⟨id', hf', ho', -⟩ | ⟨-, h, -, hx⟩)
      · exact absurd ho' (ho id' hf')
      · exact .inl ⟨h, hx⟩
    · rintro (e | x) w ⟨rfl, h⟩
      · refine ⟨rfl, .inr ⟨hf, ?_, .inl h.2⟩⟩
        unfold Store.manifest?
        rw [h.1]
        rfl
      · obtain ⟨f, hr, rfl⟩ := h
        have hm : w.manifest? python id = match python.jsonLoads f.data with
            | .ok v => (parseManifest ⟨f.data.length, f.mtime⟩ v).toOption
            | .error _ => none := by
          unfold Store.manifest?
          rw [hr]
          rfl
        refine safe_bind.mpr ?_
        unfold give
        cases hj : python.jsonLoads f.data with
        | error e =>
          rw [hj] at hm
          exact ⟨rfl, .inr ⟨hf, hm, .inr ⟨_, hj⟩⟩⟩
        | ok v =>
          rw [hj] at hm
          change _ = (parseManifest ⟨f.data.length, f.mtime⟩ v).toOption at hm
          cases hp : parseManifest ⟨f.data.length, f.mtime⟩ v with
          | error e =>
            rw [hp] at hm
            refine ⟨rfl, ?_⟩
            rw [hp]
            exact .inr ⟨hf, hm, .inl (parseManifest_error hp)⟩
          | ok m =>
            rw [hp] at hm
            refine ⟨rfl, ?_⟩
            rw [hp]
            exact ⟨hf, hm⟩

/-! ## Operations on the kernel -/

/-- The operation has nothing to do with the store. -/
def Op.kernel : Op V → Bool
  | .globals | .items | .pop _ | .bind _ _ | .setHeld _ | .setReported | .moduleName _ | .sizeof _
  | .nbytes _ | .memoryUsage _ | .dump _ | .loads _ | .importModule _ | .uuid4 | .time | .monotonic
  | .openRoot | .openLock => true
  | _ => false

theorem Store.perform_kernel (s : Store) (h : Hint V) {o : Op V} (ho : o.kernel = true) :
    s.perform h o = some (h.answer o, s) := by
  cases o <;> first | rfl | cases ho

theorem Disk.Step.kernel {o : Op V} {r : Except Exc (Ans o)} {s' : Store} (h : c.Step s o r s')
    (ho : o.kernel = true) : s' = s ∧ ∃ h, c.hint h ∧ h.answer o = r := by
  obtain ⟨x, hc, hx⟩ := h.done fun id hid => by
    cases o <;> first | exact hid | cases ho
  rw [Store.perform_kernel s x ho] at hx
  obtain ⟨hr, hs⟩ := Prod.mk.inj (Option.some.inj hx)
  exact ⟨hs.symm, x, hc, hr⟩

/-- A program on the kernel leaves the store alone. -/
theorem safe_kernel {p : Py V α} (hp : p.AllOps fun o => o.kernel = true) (hpre : ∀ o, pre o s) :
    p.Safe pre c.Step (fun _ s' => s' = s) s := by
  induction p with
  | done r => rfl
  | op o k ih =>
    refine ⟨hpre o, ?_⟩
    rintro r s' hs
    obtain ⟨rfl, -⟩ := hs.kernel hp.1
    exact ih r (hp.2 r)

/-! ## The manifests -/

/-- A round of `_manifests`. -/
def Store.scanName (python : Python V) (fails : Uuid → Bool) (s : Store)
    (found : Dict Uuid Manifest) (name : PyStr) : Dict Uuid Manifest :=
  match manifestId? name with
  | none => found
  | some id =>
    if fails id then found else (s.manifest? python id).elim found (found.set id)

/-- What `_manifests` finds, when the directory lists `names`. -/
def Store.scan (python : Python V) (fails : Uuid → Bool) (s : Store) (names : List PyStr) :
    Dict Uuid Manifest :=
  names.foldl (s.scanName python fails) .empty

theorem Store.get?_scanName (python : Python V) (fails : Uuid → Bool) (s : Store)
    (found : Dict Uuid Manifest) (name : PyStr) (id : Uuid) :
    (s.scanName python fails found name).get? id =
      if name = manifestName id ∧ fails id = false ∧ (s.manifest? python id).isSome then
        s.manifest? python id
      else found.get? id := by
  unfold Store.scanName
  split
  · next hn =>
    rw [if_neg]
    rintro ⟨rfl, -⟩
    rw [manifestId?_manifestName] at hn
    cases hn
  · next id' hn =>
    obtain rfl := eq_manifestName hn
    by_cases hid : id' = id
    · subst hid
      cases hf : fails id' with
      | true => simp
      | false => cases hm : s.manifest? python id' <;> simp
    · rw [if_neg (show ¬ (manifestName id' = manifestName id ∧ _) from
        fun h => hid (manifestName_injective h.1))]
      split
      · rfl
      · cases s.manifest? python id' with
        | none => rfl
        | some m => exact Dict.get?_set_of_ne _ _ (Ne.symm hid)

/-- **What a scan finds** are the manifests of the names that can be read. -/
theorem Store.get?_scan {python : Python V} {fails : Uuid → Bool} {s : Store} {names : List PyStr}
    {id : Uuid} {m : Manifest} : (s.scan python fails names).get? id = some m ↔
      manifestName id ∈ names ∧ fails id = false ∧ s.manifest? python id = some m := by
  -- of a dictionary that has found what it should
  have hfold : ∀ (names : List PyStr) (found : Dict Uuid Manifest),
      (∀ m, found.get? id = some m → fails id = false ∧ s.manifest? python id = some m) →
      ((names.foldl (s.scanName python fails) found).get? id = some m ↔
        (found.get? id = some m ∨ manifestName id ∈ names) ∧ fails id = false ∧
          s.manifest? python id = some m) := by
    intro names
    induction names with
    | nil =>
      intro found hfound
      simpa using hfound m
    | cons name names ih =>
      intro found hfound
      have hround := s.get?_scanName python fails found name id
      rw [List.foldl_cons, ih, hround, List.mem_cons]
      · split
        · next hc =>
          obtain ⟨rfl, hf, -⟩ := hc
          rw [eq_self, true_or, or_true, true_and]
          exact ⟨fun h => h.2, fun h => ⟨.inl h.2, h⟩⟩
        · next hc =>
          constructor
          · rintro ⟨h | h, hf, hm⟩
            · exact ⟨.inl h, hf, hm⟩
            · exact ⟨.inr (.inr h), hf, hm⟩
          · rintro ⟨h | h | h, hf, hm⟩
            · exact ⟨.inl h, hf, hm⟩
            · exact absurd ⟨h.symm, hf, by rw [hm]; rfl⟩ hc
            · exact ⟨.inr h, hf, hm⟩
      · rw [hround]
        split
        · next hc => exact fun m hm => ⟨hc.2.1, hm⟩
        · exact hfound
  rw [Store.scan, hfold names _ fun m h => by rw [Dict.get?_empty] at h; cases h]
  simp

/-- The answer of a listing. -/
def Disk.Lists (c : Disk V) (s : Store) (d : Dir) (names : List PyStr) : Prop :=
  names.Perm (s.dir d).keys ∧ ∃ h, c.hint h ∧ h.answer (.listdir d) = .ok names

theorem Disk.Step.listdir {d : Dir} {r : Except Exc (List PyStr)} {s' : Store}
    (h : c.Step s (.listdir d : Op V) r s') : s' = s ∧ ∃ names, r = .ok names ∧ c.Lists s d names := by
  obtain ⟨x, hc, hx⟩ := h.done fun _ h => h
  change s.listdir d (x.answer (.listdir d)) = _ at hx
  unfold Store.listdir at hx
  split at hx
  · next names hn =>
    split at hx
    · next hp =>
      cases hx
      exact ⟨rfl, names, rfl, hp, x, hc, hn⟩
    · cases hx
  · cases hx

/-- What ends a scan early: `json.loads` raised something that is no `ValueError`. -/
def Unparsed (python : Python V) (e : Exc) : Prop :=
  e.isOsOrValue = false ∧ ∃ data, python.jsonLoads data = .error e

theorem safe_manifests (python : Python V) (hpre : ∀ o, pre o s) :
    (manifests python).Safe pre c.Step (fun r s' => s' = s ∧ match r with
      | .ok found => ∃ names, c.Lists s .manifests names ∧ found = s.scan python c.fails names
      | .error e => Unparsed python e) s := by
  refine safe_bind.mpr ⟨hpre _, ?_⟩
  rintro r s' hs
  obtain ⟨rfl, names, rfl, hl⟩ := hs.listdir
  refine safe_foldlM (fun rest found w => w = s' ∧ rest.foldl (s'.scanName python c.fails) found =
    s'.scan python c.fails names) ?_ ?_ ⟨rfl, rfl⟩
  · rintro name rest found w ⟨rfl, hfold⟩
    rw [List.foldl_cons] at hfold
    split
    · next hn =>
      refine ⟨rfl, ?_⟩
      rwa [Store.scanName, hn] at hfold
    · next id hn =>
      refine safe_bind.mpr (safe_attempt.mpr (safe_map.mpr
        ((safe_readManifest python id hpre).mono ?_)))
      rintro (e | m) w' ⟨rfl, hr⟩
      · have hskip : w'.scanName python c.fails found name = found := by
          rw [Store.scanName, hn]
          dsimp only
          rcases hr with ⟨hf, -⟩ | ⟨hf, hm, -⟩
          · rw [if_pos hf]
          · rw [hf, hm]
            rfl
        rw [hskip] at hfold
        change Prog.Safe _ _ (if e.isOsOrValue then pure none else .raise e) _ w'
        split
        · exact ⟨rfl, hfold⟩
        · next he =>
          refine ⟨rfl, Bool.eq_false_of_not_eq_true he, ?_⟩
          rcases hr with ⟨-, h⟩ | ⟨-, -, h | h⟩
          · exact absurd h he
          · exact absurd h he
          · exact h
      · rw [Store.scanName, hn] at hfold
        dsimp only at hfold
        rw [hr.1, hr.2] at hfold
        exact ⟨rfl, hfold⟩
  · rintro found w ⟨rfl, hfold⟩
    exact ⟨rfl, names, hl, hfold⟩

/-! ## The blobs -/

theorem safe_blobSizes (hpre : ∀ o, pre o s) :
    (blobSizes : Py V (Dict Digest Nat)).Safe pre c.Step (fun r s' => s' = s ∧ match r with
      | .ok sizes => ∀ d, sizes.get? d = s.blobSize? d
      | .error _ => False) s := by
  refine safe_bind.mpr ⟨hpre _, ?_⟩
  rintro r s' hs
  obtain ⟨rfl, names, rfl, hl⟩ := hs.listdir
  -- the sizes found, and those of the names that are left
  refine safe_foldlM (fun rest sizes w => w = s' ∧ (∀ name ∈ rest, name ∈ names) ∧
    (∀ d n, sizes.get? d = some n → s'.blobSize? d = some n) ∧
    ∀ d n, s'.blobSize? d = some n → sizes.get? d = some n ∨ d.val ∈ rest) ?_ ?_
    ⟨rfl, fun _ => id, ?_, ?_⟩
  · rintro name rest sizes w ⟨rfl, hsub, hfound, hleft⟩
    have hsub' := fun n hn => hsub n (List.mem_cons_of_mem _ hn)
    split
    · next hn =>
      refine ⟨rfl, hsub', hfound, fun d n hd => ?_⟩
      rcases hleft d n hd with h | h
      · exact .inl h
      · rcases List.mem_cons.mp h with rfl | h
        · rw [digest?_val] at hn
          cases hn
        · exact .inr h
    · next d hn =>
      obtain rfl := eq_of_digest? hn
      refine safe_bind.mpr (safe_attempt.mpr ⟨hpre _, ?_⟩)
      rintro r w' hs
      obtain ⟨x, -, hx⟩ := hs.done fun _ h => h
      obtain ⟨rfl, rfl⟩ := Prod.mk.inj (Option.some.inj hx)
      have hmem : (w.node? .blobs d.val).isSome :=
        Dict.get?_isSome.mpr (hl.1.mem_iff.mp (hsub d.val List.mem_cons_self))
      have hstat : w.stat .blobs d.val = .ok (w.blobSize? d) := by
        unfold Store.stat Store.blobSize?
        cases hnode : w.node? .blobs d.val with
        | none => rw [hnode] at hmem; cases hmem
        | some n => cases n <;> rfl
      rw [hstat]
      refine ⟨rfl, hsub', ?_, ?_⟩
      · intro d' n hd
        cases hb : w.blobSize? d with
        | none => rw [hb] at hd; exact hfound d' n hd
        | some m =>
          rw [hb] at hd
          change (sizes.set d m).get? d' = some n at hd
          rw [Dict.get?_set] at hd
          split at hd
          · next h => rw [h, hb, hd]
          · exact hfound d' n hd
      · intro d' n hd
        by_cases h : d' = d
        · subst h
          left
          rw [hd]
          exact Dict.get?_set_self _ _ _
        · have hset : ((w.blobSize? d).elim sizes (sizes.set d)).get? d' = sizes.get? d' := by
            cases w.blobSize? d with
            | none => rfl
            | some m => exact Dict.get?_set_of_ne _ _ h
          rcases hleft d' n hd with h' | h'
          · exact .inl (hset.trans h')
          · rcases List.mem_cons.mp h' with h' | h'
            · exact absurd (Subtype.ext h') h
            · exact .inr h'
  · rintro sizes w ⟨rfl, -, hfound, hleft⟩
    refine ⟨rfl, fun d => Option.ext fun n => ⟨hfound d n, fun h => ?_⟩⟩
    exact (hleft d n h).resolve_right List.not_mem_nil
  · intro d n h
    rw [Dict.get?_empty] at h
    cases h
  · intro d n h
    refine .inr (hl.1.mem_iff.mpr (Dict.get?_isSome.mp ?_))
    change (s'.node? .blobs d.val).isSome
    unfold Store.blobSize? at h
    split at h
    · next hnode => rw [hnode]; rfl
    · cases h

end PiIpython.Checkpoint
