import PiIpython.Checkpoint.Access

/-!
# The loading marker

Before a value is unpickled, its digest is written into the marker, so that the
next session deletes the value if the kernel dies over it. With a condition on
the strikes at the holder of the lock, the marker condemns killers only; a
signal that strikes while the marker stands, other than within the unpickling,
leaves it to condemn a value that did no harm.
-/

namespace PiIpython.Checkpoint

open Text Prog
open Bridge (PyValue PyNum)

variable {V α : Type}

/-! ## The marker -/

theorem digest?_eq_none {s : PyStr} (h : s.length ≠ 64) : digest? s = none := by
  unfold digest?
  rw [dif_neg]
  intro hs
  unfold IsBlob fullmatch at hs
  simp at hs
  omega

theorem Store.marker_eq_none {s : Store} (h : s.readable .root loading 64 = none) :
    s.marker = none := by
  unfold Store.marker
  split
  · next f hf =>
    split
    · next ho =>
      refine digest?_eq_none ?_
      intro hl
      rw [decodeAscii, List.length_map] at hl
      have hr := Store.readable_eq_some.mpr ⟨hf, ho, hl.le⟩
      rw [h] at hr
      cases hr
    · rfl
  · rfl

theorem Store.marker_eq {s : Store} {f : File} (h : s.readable .root loading 64 = some f) :
    s.marker = digest? (decodeAscii f.data) := by
  obtain ⟨h1, h2, -⟩ := Store.readable_eq_some.mp h
  unfold Store.marker
  rw [h1]
  dsimp only
  rw [if_pos h2]

theorem Store.marker_of_root {s s' : Store} (h : s'.root = s.root) : s'.marker = s.marker := by
  unfold Store.marker Store.node? Store.dir
  rw [h]

/-- A file that is just opened for writing names nothing. -/
theorem marker_openFile (s : Store) (now : ℚ) :
    s.marker = none → (s.openFile now .root loading .truncate).2.marker = none := by
  intro hm
  unfold Store.openFile
  have hput : ∀ f : File, f.data = [] → (s.put .root loading (.file f)).marker = none := by
    intro f hf
    unfold Store.marker
    rw [Store.node?_put, if_pos ⟨rfl, rfl⟩]
    dsimp only
    split
    · rw [hf]
      exact digest?_eq_none (by decide)
    · rfl
  dsimp only
  split
  · exact hput _ rfl
  · exact hput _ rfl
  all_goals exact hm

theorem marker_unlink (s : Store) : (s.unlink .root loading).2.marker = none := by
  unfold Store.unlink
  split
  · next h =>
    unfold Store.marker
    dsimp only
    rw [h]
  · next h =>
    unfold Store.marker
    dsimp only
    rw [h]
  · unfold Store.marker
    dsimp only
    rw [Store.node?_remove, if_pos ⟨rfl, rfl⟩]

/-! ## Strikes that leave no marker behind -/

/-- A signal strikes while no marker stands, or within the unpickling. -/
def Unmarked (s : Store) (o : Op V) : Prop := s.marker = none ∨ o.isLoads = true

/-- The marker is unlinked after the unpickling. -/
def Op.unmarks : Op V → Bool
  | .unlink .root _ .loaded => true
  | _ => false

/-- No kernel is killed between the return of an unpickling and the removal of its marker. -/
def NotReturned (_ : Store) (o : Op V) : Prop := o.unmarks = false

/-- Every blob that was deleted had killed a kernel. -/
def Condemning (w : World) : Prop := ∀ d ∈ w.condemned, d ∈ w.killers

/-- A marker names a killer. -/
def Naming (w : World) : Prop := Condemning w ∧ ∀ d, w.store.marker = some d → d ∈ w.killers

/-- **The invariant of the free lock**: a marker is that of a kernel that was killed. -/
def Posted (w : World) : Prop :=
  Condemning w ∧ ∀ d, w.store.marker = some d → d ∈ w.killers ∧ w.survived = false

/-- No marker stands. -/
def Clean (w : World) : Prop := Condemning w ∧ w.store.marker = none

theorem Posted.naming {w : World} (h : Posted w) : Naming w := ⟨h.1, fun d hd => (h.2 d hd).1⟩

theorem Clean.naming {w : World} (h : Clean w) : Naming w :=
  ⟨h.1, fun d hd => by rw [h.2] at hd; cases hd⟩

theorem Clean.posted {w : World} (h : Clean w) : Posted w :=
  ⟨h.1, fun d hd => by rw [h.2] at hd; cases hd⟩

/-- A kill adds killers. -/
theorem Condemning.died {w : World} (h : Condemning w) (o : Op V) : Condemning (w.died o) := by
  intro d hd
  change d ∈ if o.unpickling then _ else _
  split
  · exact List.mem_append_right _ (h d hd)
  · exact h d hd

theorem Naming.died {w : World} (h : Naming w) (o : Op V) : Posted (w.died o) := by
  refine ⟨h.1.died o, fun d hd => ⟨?_, rfl⟩⟩
  change d ∈ if o.unpickling then _ else _
  split
  · exact List.mem_append_right _ (h.2 d hd)
  · exact h.2 d hd

/-- A kernel that dies over the marker leaves the name of a killer. -/
theorem Condemning.died_unpickling {w : World} (h : Condemning w) {o : Op V}
    (ho : o.unpickling = true) : Posted (w.died o) := by
  refine ⟨h.died o, fun d hd => ⟨?_, rfl⟩⟩
  change d ∈ if o.unpickling then _ else _
  rw [if_pos ho]
  exact List.mem_append_left _ (by rw [show w.store.marker = some d from hd]; exact .head _)

section Steps

/-- `p` is safe from `w`, with the strikes allowed. -/
abbrev Sound (p : Py V α) (Q : Except Exc α → World → Prop) (w : World) : Prop :=
  SafeLocked (Unmarked (V := V)) NotReturned Condemning Posted p Q w

/-- What an operation may do. -/
abbrev Does (w : World) (o : Op V) (r : Except Exc (Ans o)) (w' : World) : Prop :=
  Sessions.Step (shared V) (allow Unmarked NotReturned) w o r w'

theorem pre_naming {w : World} {o : Op V} (hu : use o = .free ∨ use o = .locked) (h : Naming w) :
    Sessions.PreLocked (shared V) (allow Unmarked NotReturned) Condemning Posted o w :=
  ⟨hu, h.1, fun _ => h.died o⟩

theorem Clean.ended {w : World} (h : Clean w) :
    Ended (Unmarked (V := V)) NotReturned Condemning Posted w :=
  ⟨fun _ => ⟨h.1, fun _ => h.naming.died _⟩,
    Clean.posted (w := { w with survived := true }) h⟩

/-! ## Operations that have nothing to do with the marker -/

/-- The operation leaves the root directory and the observer alone. -/
def Op.quiet : Op V → Bool
  | .flock => false
  | .release _ => false
  | .openFile d _ _ => d ≠ .root
  | .write fd _ => fd.dir ≠ .root
  | .replace d _ _ => d ≠ .root
  | .unlink d _ why => d ≠ .root ∧ why ≠ .crashed
  | .utime d _ => d ≠ .root
  | _ => true

theorem Op.quiet_use {o : Op V} (h : o.quiet = true) : use o = .free ∨ use o = .locked := by
  cases o <;> first | exact .inl rfl | exact .inr rfl | cases h

theorem Op.quiet_unobserved {o : Op V} (h : o.quiet = true) : o.unobserved = true := by
  cases o with
  | unlink d name why =>
    cases why <;> first | rfl | exact absurd rfl (of_decide_eq_true h).2
  | release b => cases h
  | _ => rfl

theorem Store.root_put {s : Store} {d : Dir} (h : d ≠ .root) (name : PyStr) (n : Node) :
    (s.put d name n).root = s.root := by
  cases d
  · exact absurd rfl h
  all_goals rfl

theorem Store.root_remove {s : Store} {d : Dir} (h : d ≠ .root) (name : PyStr) :
    (s.remove d name).root = s.root := by
  cases d
  · exact absurd rfl h
  all_goals rfl

theorem Store.perform_quiet {s s' : Store} {h : Hint V} {o : Op V} {r : Except Exc (Ans o)}
    (ho : o.quiet = true) (hx : s.perform h o = some (r, s')) : s'.root = s.root := by
  cases o with
  | openFile d name mode =>
    have hd : d ≠ .root := of_decide_eq_true ho
    obtain rfl : (s.openFile h.now d name mode).2 = s' :=
      (Prod.mk.inj (Option.some.inj hx)).2
    unfold Store.openFile
    cases mode <;> dsimp only <;> split <;> first | rfl | exact Store.root_put hd _ _
  | write fd data =>
    have hd : fd.dir ≠ .root := of_decide_eq_true ho
    cases hx
    unfold Store.write
    split
    · exact Store.root_put hd _ _
    · rfl
  | replace d source target =>
    have hd : d ≠ .root := of_decide_eq_true ho
    obtain rfl : (s.replace d source target).2 = s' := (Prod.mk.inj (Option.some.inj hx)).2
    unfold Store.replace
    split
    · rfl
    · rfl
    · exact (Store.root_put hd _ _).trans (Store.root_remove hd _)
  | unlink d name why =>
    have hd : d ≠ .root := (of_decide_eq_true ho).1
    obtain rfl : (s.unlink d name).2 = s' := (Prod.mk.inj (Option.some.inj hx)).2
    unfold Store.unlink
    split
    · rfl
    · rfl
    · exact Store.root_remove hd _
  | utime d name =>
    have hd : d ≠ .root := of_decide_eq_true ho
    obtain rfl : (s.utime h.now d name).2 = s' := (Prod.mk.inj (Option.some.inj hx)).2
    unfold Store.utime
    split
    · rfl
    · exact Store.root_put hd _ _
    · rfl
  | listdir d =>
    change s.listdir d _ = _ at hx
    unfold Store.listdir at hx
    split at hx
    · split at hx
      · cases hx
        rfl
      · cases hx
    · cases hx
  | _ => cases hx; rfl

/-- A quiet operation keeps the marker, and the observer. -/
theorem does_quiet {w w' : World} {o : Op V} {r : Except Exc (Ans o)} (ho : o.quiet = true)
    (hs : Does w o r w') : w'.store.marker = w.store.marker ∧ w' = { w with store := w'.store } := by
  obtain ⟨hst, heq⟩ := step_unobserved (Op.quiet_unobserved ho) hs
  refine ⟨Store.marker_of_root ?_, heq⟩
  rcases hst with ⟨h, hx⟩ | ⟨-, ⟨-, hx⟩ | ⟨-, h, r₀, hx⟩⟩
  · exact Store.perform_quiet ho hx
  · rw [hx]
  · exact Store.perform_quiet ho hx

theorem Clean.step {w w' : World} {o : Op V} {r : Except Exc (Ans o)} (h : Clean w)
    (ho : o.quiet = true) (hs : Does w o r w') : Clean w' := by
  obtain ⟨hm, heq⟩ := does_quiet ho hs
  rw [heq]
  exact ⟨h.1, hm.trans h.2⟩

theorem Naming.step {w w' : World} {o : Op V} {r : Except Exc (Ans o)} (h : Naming w)
    (ho : o.quiet = true) (hs : Does w o r w') : Naming w' := by
  obtain ⟨hm, heq⟩ := does_quiet ho hs
  rw [heq]
  exact ⟨h.1, fun d hd => h.2 d (hm.symm.trans hd)⟩

/-- **A quiet program keeps the store clean.** -/
theorem sound_quiet {p : Py V α} {Q : Except Exc α → World → Prop} {w : World}
    (hp : p.AllOps fun o => o.quiet = true) (hw : Clean w) (hQ : ∀ r w', Clean w' → Q r w') :
    Sound p Q w := by
  induction p generalizing w with
  | done r => exact hQ r w hw
  | op o k ih =>
    exact ⟨pre_naming (Op.quiet_use hp.1) hw.naming,
      fun r w' hs => ih r (hp.2 r) (hw.step hp.1 hs)⟩

/-! ## The operations on the marker -/

/-- An operation at which a strike finds the marker named by a killer, or none. -/
theorem sound_op {o : Op V} {k : Except Exc (Ans o) → Py V α} {Q : Except Exc α → World → Prop}
    {w : World} (hu : use o = .free ∨ use o = .locked) (hw : Naming w)
    (hk : ∀ r w', Does w o r w' → Sound (k r) Q w') : Sound (.op o k) Q w :=
  ⟨pre_naming hu hw, hk⟩

/-- Reading leaves the world as it is. -/
theorem sound_readFile {w : World} (hw : Naming w) {d : Dir} {name : PyStr} {limit : Nat}
    {Q : Except Exc (Bytes × Info) → World → Prop}
    (hok : ∀ f, w.store.readable d name limit = some f →
      Q (.ok (f.data, ⟨f.data.length, f.mtime⟩)) w)
    (hno : ∀ e, w.store.readable d name limit = none → Refused w.store d name e → Q (.error e) w)
    (hint : w.store.marker = none → Q (.error .keyboardInterrupt) w) :
    Sound (readFile d name limit : Py V (Bytes × Info)) Q w := by
  let atRest : Op V → Store → Prop := fun _ s => s = w.store
  refine @safe_store _ _ _ _ _ _ _ _ (fun o => o.reading = true) atRest _
    (fun o => Op.reading_unobserved) ?_ (allOps_readFile (P := fun o => o.reading = true) rfl
      (fun _ => rfl) (fun _ _ => rfl) (fun _ => rfl) limit) ?_
  · rintro s o ho rfl
    exact pre_naming (Op.reading_use ho) hw
  · exact safe_readFile (fun _ => rfl) hok hno fun ⟨o, ho, hs⟩ =>
      hint (hs.resolve_right (by rw [ho]; exact Bool.false_ne_true))

variable {w w' : World}

/-- Without its marker the store is clean. -/
theorem clean_unlink {why : Reason} {r : Except Exc Unit} (hwhy : why ≠ .crashed)
    (hw : Condemning w) (hs : Does w (.unlink .root loading why : Op V) r w') :
    Clean w' ∧ w'.killers = w.killers := by
  have ho : (Op.unlink .root loading why : Op V).unobserved = true := by
    cases why <;> first | rfl | exact absurd rfl hwhy
  obtain ⟨hst, heq⟩ := step_unobserved ho hs
  have hm : w'.store.marker = none := by
    rcases hst with ⟨h, hx⟩ | ⟨-, ⟨hi, hx⟩ | ⟨-, h, r₀, hx⟩⟩
    · rw [← (Prod.mk.inj (Option.some.inj hx)).2]
      exact marker_unlink _
    · rw [hx]
      exact hi.resolve_right Bool.false_ne_true
    · rw [← (Prod.mk.inj (Option.some.inj hx)).2]
      exact marker_unlink _
  rw [heq]
  exact ⟨⟨hw, hm⟩, rfl⟩

/-- The blob of a killer is deleted. -/
theorem clean_crashed {d : Digest} {r : Except Exc Unit} (hw : Clean w) (hd : d ∈ w.killers)
    (hs : Does w (.unlink .blobs d.val .crashed : Op V) r w') : Clean w' := by
  have hdone : ∀ (h : Hint V) r w', w.perform h (.unlink .blobs d.val .crashed) = some (r, w') →
      Clean w' := by
    rintro h r w' hx
    obtain ⟨⟨r', s⟩, hs, hx⟩ := Option.map_eq_some_iff.mp
      ((World.perform_crashed w h .blobs d.val).symm.trans hx)
    have hroot : s.root = w.store.root := Store.perform_quiet (h := h)
      (o := Op.unlink .blobs d.val .evicted) rfl hs
    cases hx
    refine ⟨?_, (Store.marker_of_root hroot).trans hw.2⟩
    intro x hx
    have hx : x ∈ if raised r' then w.condemned else (digest? d.val).toList ++ w.condemned := hx
    split at hx
    · exact hw.1 x hx
    · rcases List.mem_append.mp hx with hx | hx
      · rw [Option.mem_toList, digest?, dif_pos d.2] at hx
        obtain rfl := Option.some.inj hx
        exact hd
      · exact hw.1 x hx
  rcases hs with ⟨h, hx⟩ | ⟨-, ⟨-, rfl⟩ | ⟨-, h, r₀, hx⟩⟩
  · exact hdone h r w' hx
  · exact hw
  · exact hdone h r₀ w' hx

/-- **`_take_crashed` deletes the blob of a killer only**, and takes the marker away. -/
theorem sound_takeCrashed (hw : Naming w) :
    Sound (takeCrashed : Py V (Option Digest)) (fun _ w' => Clean w') w := by
  refine safe_bind.mpr (safe_attempt.mpr (safe_map.mpr (sound_readFile hw ?_ ?_ ?_)))
  · intro f hf
    refine safe_bind.mpr (sound_op (.inr rfl) hw ?_)
    rintro r w₁ hs
    obtain ⟨hc, hk⟩ := clean_unlink (by decide) hw.1 hs
    rcases r with e | _
    · exact hc
    refine safe_done.mpr ?_
    dsimp only
    split
    · exact hc
    · next d hd =>
      have hd : d ∈ w₁.killers := by
        rw [hk]
        exact hw.2 d ((Store.marker_eq hf).trans hd)
      refine safe_bind.mpr (safe_suppress.mpr (sound_op (.inr rfl) hc.naming ?_))
      rintro r w₂ hs
      have hc₂ := clean_crashed hc hd hs
      rcases r with e | _
      · change if decide (e.kind = .fileNotFound) = true then Clean w₂ else Clean w₂
        rw [ite_self]
        exact hc₂
      · exact hc₂
  · intro e hn _
    have hc : Clean w := ⟨hw.1, Store.marker_eq_none hn⟩
    change Sound (if e.kind = .fileNotFound then pure none else .raise e) _ w
    split
    · exact hc
    · exact hc
  · intro hn
    have hc : Clean w := ⟨hw.1, hn⟩
    exact hc

theorem clean_openFile {r : Except Exc Fd} (hw : Clean w)
    (hs : Does w (.openFile .root loading .truncate : Op V) r w') :
    Clean w' ∧ ∀ fd, r = .ok fd → fd = ⟨.root, loading, .truncate⟩ := by
  obtain ⟨hst, heq⟩ := step_unobserved rfl hs
  have hdone : ∀ (h : Hint V) r s,
      w.store.perform h (.openFile .root loading .truncate) = some (r, s) → s.marker = none := by
    rintro h r s hx
    rw [← (Prod.mk.inj (Option.some.inj hx)).2]
    exact marker_openFile _ _ hw.2
  rw [heq]
  rcases hst with ⟨h, hx⟩ | ⟨rfl, ⟨-, hx⟩ | ⟨-, h, r₀, hx⟩⟩
  · refine ⟨⟨hw.1, hdone h r _ hx⟩, ?_⟩
    rintro fd rfl
    have hx := (Prod.mk.inj (Option.some.inj hx)).1
    split at hx
    · cases hx; rfl
    · split at hx
      · cases hx; rfl
      · cases hx
    all_goals cases hx
  · rw [hx]
    exact ⟨hw, nofun⟩
  · exact ⟨⟨hw.1, hdone h r₀ _ hx⟩, nofun⟩

/-- After an operation on the marker that a signal struck, no marker stands. -/
theorem does_marker {o : Op V} {r : Except Exc (Ans o)} (ho : o.unobserved = true)
    (hl : o.isLoads = false) (hok : ∀ (h : Hint V) e s, w.store.perform h o ≠ some (.error e, s))
    (hw : Condemning w) (hs : Does w o r w') : Condemning w' ∧ ∀ e, r = .error e → Clean w' := by
  obtain ⟨hst, heq⟩ := step_unobserved ho hs
  have hc : Condemning w' := by
    rw [heq]
    exact hw
  refine ⟨hc, ?_⟩
  rintro e rfl
  rcases hst with ⟨h, hx⟩ | ⟨-, ⟨hi, hx⟩ | ⟨hi, h, r₀, hx⟩⟩
  · exact absurd hx (hok h e _)
  · refine ⟨hc, ?_⟩
    rw [hx]
    exact hi.resolve_right (by rw [hl]; exact Bool.false_ne_true)
  · exact ⟨hc, hi.resolve_right (by rw [hl]; exact Bool.false_ne_true)⟩

/-- **A load leaves no marker.** -/
theorem sound_load (hw : Clean w) (d : Digest) : Sound (load d : Py V V) (fun _ w' => Clean w') w := by
  refine safe_bind.mpr (sound_readFile hw.naming ?_ (fun _ _ _ => hw) fun _ => hw)
  intro f hf
  refine safe_bind.mpr (sound_op (.inr rfl) hw.naming ?_)
  rintro r w₁ hs
  obtain ⟨hc₁, hfd⟩ := clean_openFile hw hs
  rcases r with e | fd
  · exact hc₁
  obtain rfl := hfd fd rfl
  -- the marker is written and closed
  refine safe_bind.mpr (safe_ensure.mpr (sound_op (.inr rfl) hc₁.naming ?_))
  rintro r w₂ hs
  obtain ⟨hc₂, he₂⟩ := does_marker rfl rfl (fun h e s hx => by cases hx) hc₁.1 hs
  refine ⟨⟨.inr rfl, hc₂, fun _ => hc₂.died_unpickling rfl⟩, ?_⟩
  rintro r' w₃ hs₃
  rcases r with e | _
  · have hc₃ := (he₂ e rfl).step rfl hs₃
    rcases r' with e | _
    · exact hc₃
    · exact hc₃
  obtain ⟨hc₃, he₃⟩ := does_marker rfl rfl (fun h e s hx => by cases hx) hc₂ hs₃
  rcases r' with e | _
  · exact he₃ e rfl
  -- the unpickling, and the marker is unlinked whatever it ended with
  refine safe_ensure.mpr ⟨⟨.inl rfl, hc₃, fun _ => hc₃.died_unpickling rfl⟩, ?_⟩
  rintro r w₄ hs
  have hc₄ : Condemning w₄ := by
    rw [(step_unobserved rfl hs).2]
    exact hc₃
  refine ⟨⟨.inr rfl, hc₄, fun hk => absurd hk Bool.true_eq_false.mp⟩, ?_⟩
  rintro r' w₅ hs
  have hc₅ := (clean_unlink (by decide) hc₄ hs).1
  rcases r' with e | _
  · exact hc₅
  · exact hc₅

/-! ## A restore -/

theorem allOps_manifest (python : Python V) (id : Uuid) :
    (readManifest python id).AllOps fun o => o.quiet = true := by
  refine allOps_bind ?_ fun x => allOps_bind trivial fun m => trivial
  exact allOps_readFile (P := fun o => o.quiet = true) rfl (fun _ => rfl) (fun _ _ => rfl)
    (fun _ => rfl) _

theorem allOps_select (python : Python V) : ∀ ids : List Uuid,
    (select python ids).AllOps fun o => o.quiet = true
  | [] => trivial
  | id :: ids => by
    refine allOps_bind (allOps_attempt (allOps_map (allOps_manifest python id)) fun e => ?_) ?_
    · split
      · trivial
      · trivial
    · rintro (_ | m)
      · exact allOps_select python ids
      · trivial

theorem allOps_clear : (clear : Py V Unit).AllOps fun o => o.quiet = true := by
  refine allOps_bind (allOps_perform rfl) fun items => allOps_forM ?_
  intro x _
  refine allOps_bind (allOps_perform rfl) fun g => ?_
  split
  · exact allOps_perform rfl
  · trivial

theorem sound_restoreEntry (hw : Clean w) (crashed : Option Digest) (acc : Restoring) (e : Entry) :
    Sound (restoreEntry crashed acc e : Py V Restoring) (fun _ w' => Clean w') w := by
  refine safe_bind.mpr (sound_op (.inl rfl) hw.naming ?_)
  rintro r w₁ hs
  have hc := hw.step rfl hs
  rcases r with x | g
  · exact hc
  change Sound (if _ then _ else _) _ w₁
  split
  · exact hc
  refine safe_attempt.mpr (safe_bind.mpr (Safe.mono (Q := fun _ w' => Clean w') ?_ ?_))
  · unfold loadEntry
    split
    · exact sound_quiet (allOps_perform rfl) hc fun _ _ h => h
    · split
      · exact hc
      · exact sound_load hc _
  -- what follows the value, or its exception, has nothing to do with the marker
  have hh : ∀ x w', Clean w' → Sound (if Exc.isException x then pure (acc.1, acc.2.set e.name
      (py "restore failed: " ++ x.describe)) else .raise x : Py V Restoring)
      (fun _ w' => Clean w') w' := by
    intro x w' h
    split
    · exact h
    · exact h
  rintro (x | value) w₂ hc₂
  · exact hh x w₂ hc₂
  · refine safe_bind.mpr (sound_op (.inl rfl) hc₂.naming ?_)
    rintro r w₃ hs
    have hc₃ := hc₂.step rfl hs
    rcases r with x | _
    · exact hh x w₃ hc₃
    · exact hc₃

/-- **A restore that begins with a killer's marker, or none, ends without a marker.** -/
theorem sound_restoreLocked (python : Python V) (hw : Naming w) (ids : List PyValue)
    (nearest : PyValue) :
    Sound (restoreLocked python ids nearest) (fun _ w' => Clean w') w := by
  -- an exception ends the restore
  have hgo : ∀ {β : Type} {p : Py V β} {f : β → Py V Summary} {w : World},
      Sound p (fun _ w' => Clean w') w → (∀ a w', Clean w' → Sound (f a) (fun _ w' => Clean w') w') →
      Sound (p >>= f) (fun _ w' => Clean w') w := by
    intro β p f w hp hf
    refine safe_bind.mpr (hp.mono ?_)
    rintro (e | a) w h
    · exact h
    · exact hf a w h
  have hquiet : ∀ {β : Type} {p : Py V β} {w : World}, (p.AllOps fun o => o.quiet = true) →
      Clean w → Sound p (fun _ w' => Clean w') w := fun hp hw => sound_quiet hp hw fun _ _ h => h
  unfold restoreLocked
  refine hgo (sound_takeCrashed hw) fun crashed w hw => ?_
  refine hgo (hquiet (allOps_select python _) hw) fun selected w hw => ?_
  refine hgo (hquiet (allOps_perform rfl) hw) fun _ w hw => ?_
  refine hgo (hquiet allOps_clear hw) fun _ w hw => ?_
  rcases selected with _ | ⟨id, m⟩
  · exact hgo (hquiet (allOps_perform rfl) hw) fun _ w hw => hw
  refine hgo (hquiet (allOps_perform rfl) hw) fun _ w hw => ?_
  refine hgo ?_ fun acc w hw => hgo (hquiet (allOps_perform rfl) hw) fun _ w hw => hw
  refine safe_foldlM (fun _ _ w => Clean w) ?_ (fun _ _ h => h) hw
  rintro e l acc w hw
  refine (sound_restoreEntry hw crashed acc e).mono ?_
  rintro (x | acc') w h
  · exact h
  · exact h

/-- The directories are opened before the marker is looked for. -/
theorem sound_opened {body : Py V α}
    (hbody : ∀ w, Naming w → Sound body (fun _ w' => Clean w') w) (hw : Naming w) :
    Sound (opened body) (fun _ w' => Clean w') w := by
  have hopen : ∀ {name : PyStr} {k : Py V α} {w : World}, Naming w →
      (∀ w', Naming w' → Sound k (fun _ w' => Clean w') w') →
      Sound (openDir name >>= fun _ => k) (fun _ w' => Clean w') w := by
    intro name k w hw hk
    refine safe_bind.mpr (sound_op (.inl rfl) hw ?_)
    rintro r w' hs
    rcases r with e | _
    · exact (does_marker rfl rfl (fun h e s hx => by cases hx) hw.1 hs).2 e rfl
    · exact hk w' (hw.step rfl hs)
  exact hopen hw fun w hw => hopen hw fun w hw => hbody w hw

theorem keeps_restore (python : Python V) (candidateIds : PyValue) :
    Sessions.Keeps (shared V) (allow Unmarked NotReturned) Condemning Posted
      ((fun _ => ()) <$> restore python candidateIds) .outside := by
  rw [map_eq]
  unfold restore
  split
  · next ids =>
    rw [bind_eq, andThen_assoc]
    refine Sessions.keeps_free (.inl rfl) ?_
    rintro (e | g)
    · trivial
    change Sessions.Keeps _ _ _ _
      (andThen (if _ then (if _ then _ else _) else if _ then _ else _) _) .outside
    split
    · split
      · trivial
      · exact Sessions.keeps_free (.inl rfl) fun
          | .ok _ => trivial
          | .error _ => trivial
    split
    · trivial
    refine keeps_withStore ?_ ?_ fun
      | .ok _ => trivial
      | .error _ => trivial
    · intro w hw hs
      have hc : Clean w := ⟨hw.1, hs.resolve_right Bool.false_ne_true⟩
      exact hc.ended
    · intro w hw
      refine (sound_opened (fun w hw => ?_) hw.naming).mono fun r w h => h.ended
      exact sound_restoreLocked python hw ids _
  · trivial

/-- **The marker condemns killers only, and is gone when a kernel survives.** -/
theorem marker_condemns_killers (python : Python V) {s : Store} (hs : s.marker = none)
    {es : List (SessionEvent PyValue (Hint V))}
    (ha : AllSteps (Sessions.step (shared V) (restoring python))
      (Sessions.Allowed (shared V) (allow Unmarked NotReturned)) (idle V s) es) :
    Throughout (Sessions.step (shared V) (restoring python)) (fun t =>
      (∀ d ∈ t.world.condemned, d ∈ t.world.killers) ∧
        (t.holder = none → t.world.survived = true → t.world.store.marker = none)) (idle V s) es := by
  have hclean : Clean (idle V s).world := ⟨fun d hd => absurd hd List.not_mem_nil, hs⟩
  have hg : Sessions.Guarded (shared V) (allow Unmarked NotReturned) Condemning Posted (idle V s) :=
    ⟨hclean.1, fun _ => hclean.posted, fun i _ => trivial, fun i hi => by cases hi⟩
  refine (Sessions.Guarded.throughout (fun w h => h.1) (keeps_restore python) hg ha).mono ?_
  rintro t ht
  refine ⟨ht.always, fun hn hsv => ?_⟩
  rw [Option.eq_none_iff_forall_not_mem]
  intro d hd
  have h := ((ht.free hn).2 d hd).2
  rw [hsv] at h
  cases h

end Steps

/-- A value that loads, in a kernel that goes on. -/
theorem marker_condemns_killers_loaded :
    Throughout (Sessions.step (shared Unit) (restoring onePython)) (fun t =>
      (∀ d ∈ t.world.condemned, d ∈ t.world.killers) ∧
        (t.holder = none → t.world.survived = true → t.world.store.marker = none))
      (idle Unit oneStore)
      (.call 0 (.arr [.str firstId.val]) :: List.replicate 26 (.act 0 oneHint)) :=
  marker_condemns_killers onePython (by decide +kernel)
    ⟨trivial, fun _ _ => AllSteps.of_mem fun s e he => by
      rw [List.eq_of_mem_replicate he]
      trivial⟩

/-- A signal after the unpickling returned, and the restore of another session. -/
def strayRun : List (SessionEvent PyValue (Hint Unit)) :=
  .call 0 (.arr [.str firstId.val]) :: List.replicate 24 (.act 0 oneHint) ++
    [.interrupt 0 none, .act 0 oneHint, .call 1 (.arr [.str firstId.val])] ++
    List.replicate 13 (.act 1 oneHint)

/-- **A signal can leave the marker behind**, and the next session deletes the innocent value. -/
theorem marker_condemns_innocent :
    ¬ ∀ (s : Store) (es : List (SessionEvent PyValue (Hint Unit))), s.marker = none →
      Throughout (Sessions.step (shared Unit) (restoring onePython)) (fun t =>
        (∀ d ∈ t.world.condemned, d ∈ t.world.killers) ∧
          (t.holder = none → t.world.survived = true → t.world.store.marker = none))
        (idle Unit s) es := by
  intro h
  have hlast : (runAll (Sessions.step (shared Unit) (restoring onePython)) (idle Unit oneStore)
      strayRun).map (fun t => (t.world.condemned, t.world.killers)) = some ([oneDigest], []) := by
    decide +kernel
  obtain ⟨t, ht, hw⟩ := Option.map_eq_some_iff.mp hlast
  obtain ⟨hc, hk⟩ := Prod.mk.inj hw
  have hmem := ((h oneStore strayRun (by decide +kernel)).last ht).1 oneDigest
    (by rw [hc]; exact .head _)
  rw [hk] at hmem
  cases hmem

end PiIpython.Checkpoint
