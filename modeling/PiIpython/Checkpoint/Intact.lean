import PiIpython.Checkpoint.History
import PiIpython.Checkpoint.Reread

/-!
# The store after a kill

Wherever a kernel is killed, each manifest that `_read_manifest` accepts has
its blobs in the store, with the content that their names are digests of, but
for those that `_take_crashed` deleted. `Intact` is that invariant: a save and a
restore keep it at each of their operations.
-/

namespace PiIpython.Checkpoint

open Text Prog
open Bridge (PyValue PyNum entry)

variable {V α β : Type}

/-- The blob of `d` is a private file with the content that was hashed. -/
def Store.Hashed (python : Python V) (s : Store) (d : Digest) : Prop :=
  ∃ f, s.node? .blobs d.val = some (.file f) ∧ f.owned = true ∧ python.sha256 f.data = d

/-- **The invariant of the store.** -/
structure Intact (python : Python V) (w : History) : Prop where
  hashed : ∀ d : Digest, w.store.node? .blobs d.val ≠ none → w.store.Hashed python d
  named : ∀ id m, w.store.manifest? python id = some m → ∀ d ∈ m.blobs,
    d ∈ w.lost ∨ w.store.node? .blobs d.val ≠ none

/-! ## What keeps the store intact -/

section Intact

variable {python : Python V} {w : History} {s : Store}

/-- The blobs that were lost are lost or there. -/
def Recovered (w w' : History) : Prop :=
  ∀ d ∈ w.lost, d ∈ w'.lost ∨ w'.store.node? .blobs d.val ≠ none

/-- More blobs, each with its content. -/
theorem Intact.growing {w' : History} (h : Intact python w) (hr : Recovered w w')
    (hg : Growing python w.store w'.store) : Intact python w' where
  hashed d hd := by
    rcases hg.blob d.val with hb | hb | ⟨d', he, -, data, ⟨t, ht⟩, hsha⟩
    · rw [hb] at hd
      obtain ⟨f, hf, h⟩ := h.hashed d hd
      exact ⟨f, hb.trans hf, h⟩
    · exact absurd rfl (hb.ne_digest d)
    · exact ⟨_, ht, rfl, hsha.trans (Subtype.ext he).symm⟩
  named id m hm d hd := by
    rw [Store.manifest?_congr (hg.other .manifests _ nofun)] at hm
    rcases h.named id m hm d hd with h' | h'
    · exact hr d h'
    · right
      rcases hg.blob d.val with hb | hb | ⟨d', -, hb, -⟩
      · rwa [hb]
      · exact absurd rfl (hb.ne_digest d)
      · exact absurd hb h'

/-- The same blobs, and manifests that name blobs which are there. -/
theorem Intact.republished {w' : History} (h : Intact python w) (hl : w'.lost = w.lost)
    (hb : ∀ name, w'.store.node? .blobs name = w.store.node? .blobs name)
    (hm : ∀ id m, w'.store.manifest? python id = some m →
      (∃ m', w.store.manifest? python id = some m' ∧ m'.blobs = m.blobs) ∨
        ∀ d ∈ m.blobs, w.store.node? .blobs d.val ≠ none) : Intact python w' where
  hashed d hd := by
    rw [hb] at hd
    obtain ⟨f, hf, h⟩ := h.hashed d hd
    exact ⟨f, (hb _).trans hf, h⟩
  named id m hm' d hd := by
    rw [hb, hl]
    rcases hm id m hm' with ⟨m', hm', he⟩ | hn
    · exact h.named id m' hm' d (he ▸ hd)
    · exact .inr (hn d hd)

/-- Fewer manifests, and fewer blobs that none of those left refers to. -/
theorem Intact.collecting {fails : Uuid → Bool} (hfails : ∀ id, fails id = false)
    {currentId : Uuid} {w' : History} (h : Intact python w) (hl : w'.lost = w.lost)
    (hc : Collecting python fails currentId w.store w'.store) : Intact python w' where
  hashed d hd := by
    rcases hc.blob d.val with hb | ⟨hb, -⟩
    · rw [hb] at hd
      obtain ⟨f, hf, h⟩ := h.hashed d hd
      exact ⟨f, hb.trans hf, h⟩
    · exact absurd hb hd
  named id m hm d hd := by
    obtain ⟨f, hf⟩ := Store.manifest?_node hm
    have hsame : w'.store.node? .manifests (manifestName id) =
        w.store.node? .manifests (manifestName id) := by
      rcases hc.manifest (manifestName id) with h | ⟨h, -⟩
      · exact h
      · rw [hf] at h
        cases h
    rw [Store.manifest?_congr hsame] at hm
    rw [hl]
    refine (h.named id m hm d hd).imp_right fun hn => ?_
    rcases hc.blob d.val with hb | ⟨-, d', he, hnot⟩
    · rwa [hb]
    · obtain rfl := Subtype.ext he
      exact absurd hd (hnot id m (hfails id) hm (by rw [hf]; exact nofun))

end Intact

/-! ## A save -/

/-- `p` is safe from `w` with the lock, wherever its kernel is killed. -/
abbrev Preserving (python : Python V) (c : Call) (p : Py V α) (Q : Except Exc α → History → Prop)
    (w : History) : Prop :=
  Holding (fun _ : Op V => True) (fun _ _ => True) (Intact python) (Intact python) c p Q w

section Save

variable {python : Python V} {c : Call} {w w' : History}

theorem Intact.restorable (h : Intact python w) (o : Op V) :
    Restorable (fun _ _ => True) (Intact python) (Intact python) w o :=
  ⟨h, fun _ => ⟨h.hashed, h.named⟩⟩

theorem Intact.returns (h : Intact python w) (r : Except Exc α) :
    Returns (V := V) (fun _ _ => True) (Intact python) (Intact python) c r w :=
  ⟨h.restorable _, h.hashed, h.named⟩

/-- The blobs of the namespace. -/
theorem intact_saveNames (hw : Intact python w) (items : List (PyStr × V)) :
    Preserving python c (items.foldlM (saveName python) ⟨[], .empty, 0⟩) (fun r w' =>
      Intact python w' ∧ ∀ acc, r = .ok acc → Grown python acc w.store w'.store) w := by
  refine held_lift (P := Op.Writes) (G := Growing python w.store) (F := Recovered w)
    (q := fun r s => ∀ acc, r = .ok acc → Grown python acc w.store s) (fun _ h => h.1)
    (fun w₁ o hr hg => (hw.growing hr hg).restorable o) ?_
    (fun r w₁ hr hg hq => ⟨hw.growing hr hg, hq⟩) (allOps_saveNames items _) (fun _ => .inl)
    (safe_does ((safe_saveNames items).mono ?_))
  · rintro w₁ o r s' hr - - ho ⟨-, hs⟩ d hd
    obtain ⟨h, hx⟩ := sound_step hs
    by_cases hnone : s'.node? .blobs d.val = none
    · left
      rw [History.mem_lost_after]
      refine ⟨.inr ((hr d hd).resolve_right fun hn => ?_), hnone⟩
      exact Store.perform_spares ho.2 hx hn hnone
    · exact .inr hnone
  · rintro r s ⟨acc, hg, he⟩
    refine ⟨hg.growing, fun acc' hr => ?_⟩
    rw [he acc' hr]
    exact hg

/-- **The manifest**, of a text that names blobs which are there. -/
theorem intact_publish (hw : Intact python w) (id : Uuid) (text : Bytes)
    (hblobs : ∀ v info m, python.jsonLoads text = .ok v →
      (parseManifest info v).toOption = some m → ∀ d ∈ m.blobs,
        w.store.node? .blobs d.val ≠ none) :
    Preserving python c (atomicWrite .manifests (manifestName id) text) (fun r w' =>
      Intact python w' ∧ Wrote .manifests (manifestName id) text w.store r w'.store) w := by
  have hintact : ∀ w₁ : History, w₁.lost = w.lost →
      Writing .manifests (manifestName id) text w.store w₁.store → Intact python w₁ := by
    intro w₁ hl hg
    refine hw.republished hl (fun name => (hg .blobs name).resolve_right fun h => ?_)
      fun id' m hm => ?_
    · cases h.1
    · rcases hg .manifests (manifestName id') with h | ⟨-, h | ⟨h, t, ht⟩⟩
      · rw [Store.manifest?_congr h] at hm
        exact .inl ⟨m, hm, rfl⟩
      · exact absurd rfl (h.ne_manifestName id')
      · right
        obtain ⟨f, hf, hm⟩ := Option.bind_eq_some_iff.mp hm
        have hf := (Store.readable_eq_some.mp hf).1
        rw [ht] at hf
        cases hf
        split at hm
        · next v hv => exact hblobs v _ m hv hm
        · cases hm
  refine held_lift (P := Op.Writes) (F := fun w₁ => w₁.lost = w.lost)
    (G := Writing .manifests (manifestName id) text w.store)
    (q := fun r s => Wrote .manifests (manifestName id) text w.store r s) (fun _ h => h.1)
    (fun w₁ o hl hg => (hintact w₁ hl hg).restorable o) ?_
    (fun r w₁ hl hg hq => ⟨hintact w₁ hl hg, hq⟩) (allOps_atomicWrite _ _ _) rfl
    (safe_does ((safe_atomicWrite fun ht => ht.ne_manifestName id rfl).mono
      fun r s h => ⟨h.writing, h⟩))
  rintro w₁ o r s' hl - hg - -
  rw [History.lost_after, hl]
  intro d hd
  rw [hl] at hd
  refine ((hg .blobs d.val).resolve_right fun h => ?_).trans (w.lost_absent d hd)
  cases h.1

theorem intact_cleanup (hw : Intact python w) (id : Uuid) (limit : Int) (maxAge : ℚ) :
    Preserving python c (cleanup python id limit maxAge) (fun _ w' => Intact python w') w := by
  have hintact : ∀ w₁ : History, w₁.lost = w.lost →
      Collecting python (fun _ => false) id w.store w₁.store → Intact python w₁ :=
    fun w₁ hl hg => hw.collecting (fun _ => rfl) hl hg
  have hrefl : Collecting python (fun _ => false) id w.store w.store :=
    ⟨rfl, fun _ => .inl rfl, fun _ => .inl rfl⟩
  refine held_lift (P := Op.Plain) (F := fun w₁ => w₁.lost = w.lost)
    (G := Collecting python (fun _ => false) id w.store) (q := fun _ _ => True) (fun _ h => h)
    (fun w₁ o hl hg => (hintact w₁ hl hg).restorable o) ?_
    (fun r w₁ hl hg _ => hintact w₁ hl hg) (allOps_cleanup _ _ _) rfl
    (safe_does ((safe_cleanup python (Disk.sound V) id limit maxAge w.store).mono ?_))
  · rintro w₁ o r s' hl - hg - -
    rw [History.lost_after, hl]
    intro d hd
    rw [hl] at hd
    rcases hg.blob d.val with h | ⟨h, -⟩
    · exact h.trans (w.lost_absent d hd)
    · exact h
  · rintro (e | _) s h
    · obtain ⟨rfl, -⟩ := h
      exact ⟨hrefl, trivial⟩
    · obtain ⟨names, now, hnames, -, hc⟩ := h
      exact ⟨hc.collecting (listed_byMtime hnames), trivial⟩

/-- **A save keeps the store intact**, wherever its kernel is killed. -/
theorem intact_saveLocked (hread : Rereads python) (hw : Intact python w) (id : Uuid) (began : ℚ)
    (limit : Int) (maxAge : ℚ) :
    Preserving python c (saveLocked python id began limit maxAge) (fun _ w' => Intact python w') w := by
  refine held_kernel (allOps_perform rfl) hw.restorable (fun items => ?_) fun _ => hw
  refine safe_bind.mpr ((intact_saveNames hw items).mono ?_)
  rintro (e | acc) w₁ ⟨hw₁, hg⟩
  · exact hw₁
  have hg := hg acc rfl
  refine held_kernel (allOps_perform rfl) hw₁.restorable (fun g => ?_) fun _ => hw₁
  refine held_kernel (allOps_perform rfl) hw₁.restorable (fun ended => ?_) fun _ => hw₁
  refine safe_bind.mpr (safe_done.mpr ?_)
  cases hv : acc.manifest (max 0 (g.executionCount - 1)) (ended - began) with
  | error e => exact hw₁
  | ok v =>
  refine safe_bind.mpr ((intact_publish hw₁ id _ fun v' info m hv' hm d hd => ?_).mono ?_)
  · -- the blobs were written before
    obtain rfl := hread v v' hv'
    obtain ⟨name, bytes, hs⟩ := mem_blobs_reread hv hm hd
    obtain ⟨f, hf, -⟩ := hg.blobs name d bytes hs
    rw [hf]
    exact nofun
  · rintro (e | _) w₂ ⟨hw₂, -⟩
    · exact hw₂
    · exact intact_cleanup hw₂ id _ _

end Save

/-! ## A restore -/

/-- The operation changes the root directory at most. -/
def Op.Roots : Op V → Prop
  | .openFile d _ mode => d = .root ∨ mode = .read
  | .write fd _ => fd.dir = .root
  | .replace .. => False
  | .unlink d _ _ => d = .root
  | .utime .. => False
  | _ => True

theorem Store.node?_put_root (s : Store) {d : Dir} (hd : d ≠ .root) (name name' : PyStr) (n : Node) :
    (s.put .root name n).node? d name' = s.node? d name' := by
  rw [Store.node?_put, if_neg fun h => hd h.1]

theorem Store.perform_roots {s s' : Store} {h : Hint V} {o : Op V} {r : Except Exc (Ans o)}
    (ho : o.Roots) (hx : s.perform h o = some (r, s')) {d : Dir} (hd : d ≠ .root) (name : PyStr) :
    s'.node? d name = s.node? d name := by
  cases o with
  | openFile dir name' mode =>
    obtain rfl : (s.openFile h.now dir name' mode).2 = s' := (Prod.mk.inj (Option.some.inj hx)).2
    rcases ho with rfl | rfl
    · unfold Store.openFile
      cases mode <;> dsimp only <;> split <;> first | rfl | exact s.node?_put_root hd _ _ _
    · rw [(openFile_read s h.now dir name').1]
  | write fd data =>
    cases hx
    obtain ⟨dir, name', mode⟩ := fd
    obtain rfl : dir = .root := ho
    unfold Store.write
    split
    · exact s.node?_put_root hd _ _ _
    · rfl
  | unlink dir name' why =>
    obtain rfl : dir = .root := ho
    obtain rfl : (s.unlink .root name').2 = s' := (Prod.mk.inj (Option.some.inj hx)).2
    unfold Store.unlink
    split
    · rfl
    · rfl
    · exact (Store.node?_remove ..).trans (if_neg fun h => hd h.1)
  | replace => exact ho.elim
  | utime => exact ho.elim
  | listdir dir =>
    change s.listdir dir _ = _ at hx
    unfold Store.listdir at hx
    split at hx
    · split at hx
      · cases hx
        rfl
      · cases hx
    · cases hx
  | _ => cases hx; rfl

/-- Of a manifest only its size and its time depend on the file. -/
theorem parseManifest_info (info info' : Info) (v : PyValue) : parseManifest info' v =
    (parseManifest info v).map fun m => { m with size := info'.size, mtime := info'.mtime } := by
  unfold parseManifest
  split
  · split
    · split
      · next saved _ _ _ _ =>
        split
        · split
          · cases saved.mapM parseEntry <;> rfl
          · rfl
        · rfl
      · rfl
    · rfl
  · rfl

/-- A manifest that is used says what it said. -/
theorem Store.manifest?_utime {python : Python V} {s : Store} {id id' : Uuid} {f : File} {now : ℚ}
    {m : Manifest} (hf : s.node? .manifests (manifestName id) = some (.file f))
    (hm : (s.put .manifests (manifestName id) (.file { f with mtime := now })).manifest? python id' =
      some m) : ∃ m', s.manifest? python id' = some m' ∧ m'.blobs = m.blobs := by
  by_cases he : id' = id
  · subst he
    obtain ⟨f', hf', hm⟩ := Option.bind_eq_some_iff.mp hm
    obtain ⟨hnode, ho, hl⟩ := Store.readable_eq_some.mp hf'
    rw [Store.node?_put, if_pos ⟨rfl, rfl⟩] at hnode
    cases hnode
    have hread : s.readable .manifests (manifestName id') manifestLimit = some f :=
      Store.readable_eq_some.mpr ⟨hf, ho, hl⟩
    unfold Store.manifest?
    rw [hread]
    dsimp only [Option.bind_some] at hm ⊢
    split at hm
    · next v hv =>
      rw [parseManifest_info ⟨f.data.length, f.mtime⟩] at hm
      cases hp : parseManifest ⟨f.data.length, f.mtime⟩ v with
      | error e =>
        rw [hp] at hm
        cases hm
      | ok m' =>
        rw [hp] at hm
        cases hm
        exact ⟨m', rfl, rfl⟩
    · cases hm
  · refine ⟨m, ?_, rfl⟩
    rw [← hm]
    refine (Store.manifest?_congr ((Store.node?_put ..).trans (if_neg fun h => he ?_))).symm
    exact manifestName_injective h.2

section Restore

variable {python : Python V} {c : Call} {w w' : History}

/-- A step of a session that has the lock. -/
abbrev Steps (c : Call) (w : History) (o : Op V) (r : Except Exc (Ans o)) (w' : History) : Prop :=
  Sessions.Step (allowing fun _ : Op V => True) (killing fun _ _ => True) w (c, o) r w'

/-- An operation on the root directory. -/
theorem Intact.roots {o : Op V} {r : Except Exc (Ans o)} (hw : Intact python w)
    (ho : o.Plain ∧ o.Roots) (hs : Steps c w o r w') : Intact python w' := by
  obtain ⟨⟨-, hd⟩, he⟩ := does_plain ho.1 hs
  obtain ⟨h, hx⟩ := sound_step hd
  have hsame := fun d hd name => Store.perform_roots ho.2 hx (d := d) hd name
  refine hw.republished ?_ (hsame .blobs nofun) fun id m hm => .inl ⟨m, ?_, rfl⟩
  · rw [he, History.lost_after]
    exact fun d hd => (hsame .blobs nofun d.val).trans (w.lost_absent d hd)
  · rw [← hm]
    exact (Store.manifest?_congr (hsame .manifests nofun _)).symm

theorem preserving_roots {p : Py V α} {Q : Except Exc α → History → Prop}
    (hp : p.AllOps fun o => o.Plain ∧ o.Roots) (hw : Intact python w)
    (hQ : ∀ r w', Intact python w' → Q r w') : Preserving python c p Q w := by
  induction p generalizing w with
  | done r => exact hQ r w hw
  | op o k ih =>
    exact held_op hp.1.1.1 (hw.restorable o) fun r w' hs => ih r (hp.2 r) (hw.roots hp.1 hs)

/-- **The blob that a marker names** is lost. -/
theorem Intact.crashed {d : Digest} {r : Except Exc Unit} (hw : Intact python w)
    (hs : Steps c w (.unlink .blobs d.val .crashed : Op V) r w') : Intact python w' := by
  obtain ⟨⟨-, hd⟩, he⟩ := does_store (o := .unlink .blobs d.val .crashed) nofun hs
  obtain ⟨h, hx⟩ := sound_step hd
  have hx : w.store.unlink .blobs d.val = (r, w'.store) := Option.some.inj hx
  change w' = w.after (if raised r then none else digest? d.val) w'.store at he
  by_cases hn : w.store.node? .blobs d.val = none
  · -- it was missing before
    unfold Store.unlink at hx
    rw [hn] at hx
    obtain ⟨rfl, hs'⟩ := Prod.mk.inj hx
    rw [he, ← hs', show raised (.error (.fileNotFound d.val) : Except Exc Unit) = true from rfl,
      if_pos rfl, w.after_self]
    exact hw
  obtain ⟨f, hf, -⟩ := hw.hashed d hn
  rw [Store.unlink_file hf] at hx
  obtain ⟨rfl, hs'⟩ := Prod.mk.inj hx
  have hnode : ∀ d' name, w'.store.node? d' name =
      if d' = .blobs ∧ name = d.val then none else w.store.node? d' name := by
    intro d' name
    rw [← hs', Store.node?_remove]
  have hlost : ∀ d', d' ∈ w'.lost ↔
      (d = d' ∨ d' ∈ w.lost) ∧ w'.store.node? .blobs d'.val = none := by
    intro d'
    rw [he, History.mem_lost_after, digest?_val, show raised (.ok () : Except Exc Unit) = false from
      rfl, if_neg Bool.false_ne_true, Option.some_inj]
    rfl
  refine ⟨fun d' hn' => ?_, fun id m hm d' hd' => ?_⟩
  · rw [hnode] at hn'
    split at hn'
    · exact absurd rfl hn'
    · next hne =>
      obtain ⟨f', hf', h'⟩ := hw.hashed d' hn'
      exact ⟨f', (hnode ..).trans ((if_neg hne).trans hf'), h'⟩
  · rw [Store.manifest?_congr ((hnode ..).trans (if_neg nofun))] at hm
    by_cases hnone : w'.store.node? .blobs d'.val = none
    · refine .inl ((hlost d').mpr ⟨?_, hnone⟩)
      rcases hw.named id m hm d' hd' with h' | h'
      · exact .inr h'
      · -- what was there before and is missing now is the blob that was deleted
        rw [hnode] at hnone
        split at hnone
        · next he => exact .inl (Subtype.ext he.2.symm)
        · exact absurd hnone h'
    · exact .inr hnone

theorem Op.roots_kernel {o : Op V} (h : o.kernel = true) : o.Plain ∧ o.Roots := by
  cases o <;> first | exact ⟨⟨.inl rfl, rfl⟩, trivial⟩ | cases h

theorem allOps_roots_readFile (d : Dir) (name : PyStr) (limit : Nat) :
    (readFile d name limit : Py V (Bytes × Info)).AllOps fun o => o.Plain ∧ o.Roots :=
  allOps_readFile ⟨⟨.inr rfl, rfl⟩, .inr rfl⟩ (fun _ => ⟨⟨.inr rfl, rfl⟩, trivial⟩)
    (fun _ _ => ⟨⟨.inr rfl, rfl⟩, trivial⟩) (fun _ => ⟨⟨.inr rfl, rfl⟩, trivial⟩) limit

theorem intact_takeCrashed (hw : Intact python w) :
    Preserving python c (takeCrashed : Py V (Option Digest)) (fun _ w' => Intact python w') w := by
  refine safe_bind.mpr (Safe.mono (Q := fun _ w' => Intact python w')
    (preserving_roots ?_ hw fun _ _ h => h) ?_)
  · refine allOps_attempt (allOps_map (allOps_roots_readFile .root loading 64)) fun e => ?_
    split <;> trivial
  rintro (e | _ | ⟨data, info⟩) w₁ hw₁
  · exact hw₁
  · exact hw₁
  refine safe_bind.mpr (held_op (.inr rfl) (hw₁.restorable _) fun r w₂ hs => ?_)
  have hw₂ := hw₁.roots (o := .unlink .root loading .found) ⟨⟨.inr rfl, rfl⟩, rfl⟩ hs
  rcases r with e | _
  · exact hw₂
  refine safe_done.mpr ?_
  dsimp only
  cases digest? (decodeAscii data) with
  | none => exact hw₂
  | some d =>
    refine safe_bind.mpr (safe_suppress.mpr (held_op (.inr rfl) (hw₂.restorable _)
      fun r w₃ hs => ?_))
    have hw₃ := hw₂.crashed hs
    rcases r with e | _
    · change if decide (e.kind = .fileNotFound) = true then Intact python w₃ else Intact python w₃
      rw [ite_self]
      exact hw₃
    · exact hw₃

theorem allOps_roots_select : ∀ ids : List Uuid,
    (select python ids).AllOps fun o => o.Plain ∧ o.Roots
  | [] => trivial
  | id :: ids => by
    refine allOps_bind (allOps_attempt (allOps_map (allOps_bind (allOps_roots_readFile ..)
      fun _ => allOps_bind trivial fun _ => trivial)) fun e => by split <;> trivial) ?_
    rintro (_ | m)
    · exact allOps_roots_select ids
    · trivial

theorem allOps_roots_clear : (clear : Py V Unit).AllOps fun o => o.Plain ∧ o.Roots := by
  refine allOps_bind (allOps_perform (Op.roots_kernel rfl)) fun items => allOps_forM fun x _ => ?_
  refine allOps_bind (allOps_perform (Op.roots_kernel rfl)) fun g => ?_
  split
  · exact allOps_perform (Op.roots_kernel rfl)
  · trivial

/-- The descriptor of an open file. -/
theorem openFile_fd {s : Store} {now : ℚ} {d : Dir} {name : PyStr} {mode : Mode} {fd : Fd}
    (h : (s.openFile now d name mode).1 = .ok fd) : fd = ⟨d, name, mode⟩ := by
  unfold Store.openFile at h
  cases mode <;> dsimp only at h <;> repeat' split at h
  all_goals cases h
  all_goals rfl

theorem intact_load (hw : Intact python w) (d : Digest) :
    Preserving python c (load d : Py V V) (fun _ w' => Intact python w') w := by
  refine safe_bind.mpr (Safe.mono (Q := fun _ w' => Intact python w')
    (preserving_roots (allOps_roots_readFile ..) hw fun _ _ h => h) ?_)
  rintro (e | ⟨data, info⟩) w₁ hw₁
  · exact hw₁
  refine safe_bind.mpr (held_op (.inr rfl) (hw₁.restorable _) fun r w₂ hs => ?_)
  have hw₂ := hw₁.roots (o := .openFile .root loading .truncate) ⟨⟨.inr rfl, rfl⟩, .inl rfl⟩ hs
  rcases r with e | fd
  · exact hw₂
  -- the marker is in the root directory
  obtain rfl : fd = ⟨.root, loading, .truncate⟩ := by
    obtain ⟨⟨-, hd⟩, -⟩ := does_plain (o := .openFile .root loading .truncate) ⟨.inr rfl, rfl⟩ hs
    obtain ⟨h, hx⟩ := sound_step hd
    exact openFile_fd (Prod.mk.inj (Option.some.inj hx)).1
  refine safe_done.mpr (preserving_roots (p := closing _ (write _ d.encode) >>= fun _ =>
      (loads data).ensure (unlink .root loading .loaded))
    (allOps_bind (allOps_ensure (allOps_perform ?_) (allOps_perform ?_))
      fun _ => allOps_ensure (allOps_perform ?_) (allOps_perform ?_)) hw₂ fun _ _ h => h)
  · exact ⟨⟨.inr rfl, rfl⟩, rfl⟩
  · exact ⟨⟨.inr rfl, rfl⟩, trivial⟩
  · exact ⟨⟨.inl rfl, rfl⟩, trivial⟩
  · exact ⟨⟨.inr rfl, rfl⟩, rfl⟩

theorem intact_restoreEntry (hw : Intact python w) (crashed : Option Digest) (acc : Restoring)
    (e : Entry) : Preserving python c (restoreEntry crashed acc e : Py V Restoring)
      (fun _ w' => Intact python w') w := by
  refine held_kernel (allOps_perform rfl) hw.restorable (fun g => ?_) fun _ => hw
  split
  · exact hw
  have hhandler : ∀ x w', Intact python w' → Preserving python c (if Exc.isException x then
      pure (acc.1, acc.2.set e.name (py "restore failed: " ++ x.describe)) else .raise x :
        Py V Restoring) (fun _ w' => Intact python w') w' := by
    intro x w' h
    split
    · exact h
    · exact h
  refine safe_attempt.mpr (safe_bind.mpr (Safe.mono (Q := fun _ w' => Intact python w') ?_ ?_))
  · unfold loadEntry
    split
    · exact preserving_roots (allOps_perform (Op.roots_kernel rfl)) hw fun _ _ h => h
    · split
      · exact hw
      · exact intact_load hw _
  rintro (x | value) w₁ hw₁
  · exact hhandler x w₁ hw₁
  · exact held_kernel (allOps_perform rfl) hw₁.restorable (fun _ => hw₁)
      fun x => hhandler x w₁ hw₁

/-- **A restore keeps the store intact**, wherever its kernel is killed. -/
theorem intact_restoreLocked (hw : Intact python w) (ids : List PyValue) (nearest : PyValue) :
    Preserving python c (restoreLocked python ids nearest) (fun _ w' => Intact python w') w := by
  -- an exception ends the restore
  have hgo : ∀ {β : Type} {p : Py V β} {f : β → Py V Summary} {w : History},
      Preserving python c p (fun _ w' => Intact python w') w →
      (∀ a w', Intact python w' → Preserving python c (f a) (fun _ w' => Intact python w') w') →
      Preserving python c (p >>= f) (fun _ w' => Intact python w') w := by
    intro β p f w hp hf
    refine safe_bind.mpr (hp.mono ?_)
    rintro (e | a) w h
    · exact h
    · exact hf a w h
  have hroots : ∀ {β : Type} {p : Py V β} {w : History},
      (p.AllOps fun o => o.Plain ∧ o.Roots) → Intact python w →
      Preserving python c p (fun _ w' => Intact python w') w :=
    fun hp hw => preserving_roots hp hw fun _ _ h => h
  have hheld : ∀ {held : Held} {w : History}, Intact python w →
      Preserving python c (setHeld held : Py V Unit) (fun _ w' => Intact python w') w :=
    fun hw => hroots (allOps_perform (Op.roots_kernel rfl)) hw
  unfold restoreLocked
  refine hgo (intact_takeCrashed hw) fun crashed w hw => ?_
  refine hgo (hroots (allOps_roots_select _) hw) fun selected w hw => ?_
  refine hgo (hheld hw) fun _ w hw => hgo (hroots allOps_roots_clear hw) fun _ w hw => ?_
  rcases selected with _ | ⟨id, m⟩
  · exact hgo (hheld hw) fun _ w hw => hw
  refine hgo (held_op (.inr rfl) (hw.restorable _) fun r w' hs => ?_) fun _ w hw => ?_
  · obtain ⟨⟨-, hd⟩, he⟩ := does_plain (o := .utime .manifests (manifestName id))
      ⟨.inr rfl, rfl⟩ hs
    obtain ⟨h, hx⟩ := sound_step hd
    have hx : w.store.utime h.now .manifests (manifestName id) = (r, w'.store) := Option.some.inj hx
    unfold Store.utime at hx
    split at hx
    · rw [← (Prod.mk.inj hx).2, w.after_self] at he
      rw [he]
      exact hw
    · next f hf =>
      have hs' := (Prod.mk.inj hx).2
      have hblobs : ∀ name, w'.store.node? .blobs name = w.store.node? .blobs name := fun name => by
        rw [← hs']
        exact (Store.node?_put ..).trans (if_neg nofun)
      refine hw.republished ?_ hblobs fun id' m' hm => .inl ?_
      · rw [he, History.lost_after]
        exact fun d hd => (hblobs d.val).trans (w.lost_absent d hd)
      · rw [← hs'] at hm
        exact Store.manifest?_utime hf hm
    · rw [← (Prod.mk.inj hx).2, w.after_self] at he
      rw [he]
      exact hw
  refine hgo ?_ fun acc w hw => hgo (hheld hw) fun _ w hw => hw
  refine safe_foldlM (fun _ _ w => Intact python w) ?_ (fun _ _ h => h) hw
  rintro e l acc w hw
  refine (intact_restoreEntry hw crashed acc e).mono ?_
  rintro (x | acc') w h
  · exact h
  · exact h

end Restore

/-! ## Sessions -/

section Sessions

variable {python : Python V} {c : Call}

theorem keeping_save (hread : Rereads python) (checkpointId : PyValue) (limit : Int) (maxAge : ℚ) :
    Keeping (fun _ : Op V => True) (fun _ _ => True) (Intact python) (Intact python) c
      (save python checkpointId limit maxAge) := by
  unfold save
  split
  · trivial
  next id _ =>
  refine Sessions.keeps_free (.inl rfl) ?_
  rintro (e | _)
  · trivial
  refine Sessions.keeps_free (.inl rfl) ?_
  rintro (e | g)
  · trivial
  change Keeping _ _ _ _ _ (if _ then _ else _)
  split
  · trivial
  refine Sessions.keeps_free (.inl rfl) ?_
  rintro (e | began)
  · trivial
  change Keeping _ _ _ _ _ (withStore (saveLocked python id began limit maxAge))
  rw [← andThen_done (withStore _)]
  exact keeping_withStore (fun w o hw => hw.restorable o)
    (fun w hw => (intact_saveLocked hread hw id began limit maxAge).mono fun r w hw => hw.returns r)
    fun _ => trivial

theorem keeping_restore (candidateIds : PyValue) :
    Keeping (fun _ : Op V => True) (fun _ _ => True) (Intact python) (Intact python) c
      (restoring python candidateIds) := by
  unfold restoring
  rw [map_eq]
  unfold restore
  split
  · next ids =>
    rw [bind_eq, andThen_assoc]
    refine Sessions.keeps_free (.inl rfl) ?_
    rintro (e | g)
    · trivial
    change Keeping _ _ _ _ _ (andThen (if _ then (if _ then _ else _) else if _ then _ else _) _)
    split
    · split
      · trivial
      · exact Sessions.keeps_free (.inl rfl) fun r => by cases r <;> trivial
    split
    · trivial
    exact keeping_withStore (fun w o hw => hw.restorable o)
      (fun w hw => (intact_restoreLocked hw ids _).mono fun r w hw => hw.returns r)
      fun r => by cases r <;> trivial
  · trivial

/-- The store stays intact, whatever sessions do and wherever kernels are killed. -/
theorem intact_throughout (hread : Rereads python) {s : Store}
    (hs : Intact python (untouched V s).world) {es : List (SessionEvent Call (Hint V))}
    (ha : AllSteps (Sessions.step (histories V) (begin python))
      (Sessions.Allowed (histories V) (killing fun _ _ => True)) (untouched V s) es) :
    Throughout (Sessions.step (histories V) (begin python)) (fun t => Intact python t.world)
      (untouched V s) es := by
  have hg : Sessions.Guarded (allowing fun _ : Op V => True) (killing fun _ _ => True)
      (Intact python) (Intact python) (untouched V s) :=
    ⟨hs, fun _ => hs, fun i _ => trivial, fun i hi => by cases hi⟩
  refine (hg.throughout_only (fun w h => h) (fun c => ?_) (ha.mono fun t e h => ⟨h, ?_⟩)).mono
    fun t ht => ht.always
  · cases c with
    | save id limit maxAge => exact keeping_save hread id limit maxAge
    | restore ids => exact keeping_restore ids
  · cases e with
    | interrupt i done => cases done <;> first | trivial | exact fun _ _ _ => trivial
    | act i h => exact fun _ _ _ => trivial
    | _ => trivial

theorem intact_empty : Intact python (untouched V .empty).world where
  hashed d h := absurd rfl h
  named id m hm := by cases hm

/-- **Kills lose no blob**: wherever kernels are killed, the manifests that are accepted have all
their blobs, with the content that was hashed, but for those that `_take_crashed` deleted. -/
theorem manifests_have_blobs (python : Python V) (hread : Rereads python)
    {es : List (SessionEvent Call (Hint V))}
    (ha : AllSteps (Sessions.step (histories V) (begin python))
      (Sessions.Allowed (histories V) (killing fun _ _ => True)) (untouched V .empty) es) :
    Throughout (Sessions.step (histories V) (begin python)) (fun t =>
      ∀ id m, t.world.store.manifest? python id = some m → ∀ d ∈ m.blobs,
        d ∈ t.world.lost ∨ t.world.store.Hashed python d) (untouched V .empty) es :=
  (intact_throughout hread intact_empty ha).mono fun _ ht id m hm d hd =>
    (ht.named id m hm d hd).imp_right (ht.hashed d)

end Sessions

/-! ## A save after a kill -/

/-- The manifest of a namespace in which `x` is one, as `save` makes it. -/
def writtenManifest : PyValue :=
  .obj [entry "version" (.num (.int 2)), entry "cell" (.num (.int 0)),
    entry "saved" (.arr [.obj [entry "name" (.str (py "x")), entry "kind" (.str (py "value")),
      entry "blob" (.str oneDigest.val), entry "bytes" (.num (.int 5))]]),
    entry "skipped" (.obj []), entry "bytes" (.num (.int 5)),
    entry "duration" (.num (.float (.round false 0)))]

/-- Its text. -/
def writtenText : Bytes :=
  (py "\x7b\"version\":2,\"cell\":0,\"saved\":[\x7b\"name\":\"x\",\"kind\":\"value\",\"blob\":\"" ++
    oneDigest.val ++ py "\",\"bytes\":5\x7d],\"skipped\":\x7b\x7d,\"bytes\":5,\"duration\":0.0\x7d").map
      fun c => UInt8.ofNat c.val

/-- The value is that manifest. -/
def isWritten : PyValue → Bool
  | .obj [(k₁, .num (.int 2)), (k₂, .num (.int 0)),
      (k₃, .arr [.obj [(l₁, .str name), (l₂, .str kind), (l₃, .str blob), (l₄, .num (.int 5))]]),
      (k₄, .obj []), (k₅, .num (.int 5)), (k₆, .num (.float x))] =>
    [k₁, k₂, k₃, k₄, k₅, k₆, l₁, l₂, l₃, l₄, name, kind, blob] = [py "version", py "cell",
      py "saved", py "skipped", py "bytes", py "duration", py "name", py "kind", py "blob",
      py "bytes", py "x", py "value", oneDigest.val] ∧ x = .round false 0
  | _ => false

theorem eq_writtenManifest {v : PyValue} (h : isWritten v = true) : v = writtenManifest := by
  unfold isWritten at h
  split at h
  · simp only [List.cons.injEq, and_true, decide_eq_true_eq] at h
    obtain ⟨⟨rfl, rfl, rfl, rfl, rfl, rfl, rfl, rfl, rfl, rfl, rfl, rfl, rfl⟩, rfl⟩ := h
    rfl
  · cases h

theorem writtenText_ne : writtenText ≠ [] := by decide +kernel

/-- Python on this namespace. -/
def writingPython : Python Unit where
  isModule _ := false
  sha256 _ := oneDigest
  jsonLoads data :=
    if data = writtenText then .ok (writtenManifest.map joined id) else .error invalidManifest
  jsonDumps v := if isWritten v then writtenText else []

theorem writingPython_rereads : Rereads writingPython := by
  intro v v' h
  change (if (if isWritten v then writtenText else []) = writtenText
    then Except.ok (writtenManifest.map joined id) else .error invalidManifest) = .ok v' at h
  by_cases hv : isWritten v = true
  · rw [if_pos hv, if_pos rfl, ← eq_writtenManifest hv] at h
    exact (Except.ok.inj h).symm
  · rw [if_neg hv, if_neg writtenText_ne.symm] at h
    cases h

/-- Answers while it is saved in an empty store. -/
def writingHint : Hint Unit where
  answer
    | .items => .ok [(py "x", ())]
    | .sizeof _ => .ok (28 : ℚ)
    | .nbytes _ => .ok none
    | .memoryUsage _ => .ok none
    | .dump _ => .ok ([onePickle], none)
    | .listdir .manifests => .ok [manifestName secondId]
    | o => saveHint.answer o
  now := 2

/-- A kernel is killed when its blob is written and its manifest is not, then another one saves. -/
def killedRun : List (SessionEvent Call (Hint Unit)) :=
  .call 0 (.save (.str firstId.val) storeLimit maxAgeSeconds) ::
    List.replicate 25 (.act 0 writingHint) ++
    [.kill 0, .call 1 (.save (.str secondId.val) storeLimit maxAgeSeconds)] ++
    List.replicate 38 (.act 1 writingHint)

/-- The checkpoint that is saved after the kill has the blob that was written before. -/
theorem manifests_have_blobs_killed :
    ((runAll (Sessions.step (histories Unit) (begin writingPython)) (untouched Unit .empty)
      killedRun).bind fun t => t.world.store.manifest? writingPython secondId).map Manifest.blobs =
        some [oneDigest] ∧
    Throughout (Sessions.step (histories Unit) (begin writingPython)) (fun t =>
      ∀ id m, t.world.store.manifest? writingPython id = some m → ∀ d ∈ m.blobs,
        d ∈ t.world.lost ∨ t.world.store.Hashed writingPython d) (untouched Unit .empty)
      killedRun :=
  ⟨by decide +kernel, manifests_have_blobs writingPython writingPython_rereads
    (AllSteps.of_mem fun s e he => by
      rcases List.mem_append.mp he with he | he
      · rcases List.mem_append.mp he with he | he
        · rcases List.mem_cons.mp he with rfl | he
          · trivial
          · rw [List.eq_of_mem_replicate he]
            trivial
        · rcases List.mem_cons.mp he with rfl | he
          · exact fun _ _ _ _ => trivial
          · rw [List.mem_singleton.mp he]
            trivial
      · rw [List.eq_of_mem_replicate he]
        trivial)⟩

end PiIpython.Checkpoint
