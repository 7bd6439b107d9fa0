import PiIpython.Checkpoint.Intact

/-!
# What a restore touches

A restore changes the time of a manifest, deletes the blob that a marker names
and otherwise writes in the root directory alone. So it keeps whatever these
three kinds of step keep (`held_restoreLocked`).
-/

namespace PiIpython.Checkpoint

open Text Prog
open Bridge (PyValue)

variable {V α : Type}

/-! ## Kinds of step -/

/-- What one operation of a restore does to the store. -/
inductive Touches (w w' : History) : Prop
  | root (hstore : ∀ d, d ≠ .root → ∀ name, w'.store.node? d name = w.store.node? d name)
      (hlost : w'.lost = w.lost)
  /-- The manifest is marked as used. -/
  | used (id : Uuid) (f : File) (now : ℚ)
      (hf : w.store.node? .manifests (manifestName id) = some (.file f))
      (hstore : w'.store = w.store.put .manifests (manifestName id) (.file { f with mtime := now }))
      (hlost : w'.lost = w.lost)
  /-- The blob that the marker names is deleted. -/
  | crashed (d : Digest) (hd : w.store.node? .blobs d.val ≠ none)
      (hstore : w'.store = w.store.remove .blobs d.val)
      (hlost : ∀ d', d' ∈ w'.lost ↔
        (d = d' ∨ d' ∈ w.lost) ∧ w'.store.node? .blobs d'.val = none)

theorem touches_self (w : History) : Touches w w := .root (fun _ _ _ => rfl) rfl

section Steps

variable {permits : Op V → Prop} [DecidablePred permits] {kills : Store → Op V → Prop}
  {K J I : History → Prop} {c : Call} {w w' : History}

theorem touches_roots {o : Op V} {r : Except Exc (Ans o)} (ho : o.Plain ∧ o.Roots)
    (hs : Sessions.Step (allowing permits) (killing kills) w (c, o) r w') : Touches w w' := by
  obtain ⟨⟨-, hd⟩, he⟩ := does_plain ho.1 hs
  obtain ⟨h, hx⟩ := sound_step hd
  have hsame := fun d hd name => Store.perform_roots ho.2 hx (d := d) hd name
  refine .root hsame ?_
  rw [he, History.lost_after]
  exact fun d hd => (hsame .blobs nofun d.val).trans (w.lost_absent d hd)

theorem touches_utime {id : Uuid} {r : Except Exc Unit}
    (hs : Sessions.Step (allowing permits) (killing kills) w
      (c, (.utime .manifests (manifestName id) : Op V)) r w') : Touches w w' := by
  obtain ⟨⟨-, hd⟩, he⟩ := does_plain (o := .utime .manifests (manifestName id)) ⟨.inr rfl, rfl⟩ hs
  obtain ⟨h, hx⟩ := sound_step hd
  have hx : w.store.utime h.now .manifests (manifestName id) = (r, w'.store) := Option.some.inj hx
  unfold Store.utime at hx
  split at hx
  · rw [← (Prod.mk.inj hx).2, w.after_self] at he
    rw [he]
    exact touches_self w
  · next f hf =>
    have hs' := (Prod.mk.inj hx).2
    refine .used id f h.now hf hs'.symm ?_
    rw [he, History.lost_after]
    intro d hd
    rw [← hs']
    exact ((Store.node?_put ..).trans (if_neg nofun)).trans (w.lost_absent d hd)
  · rw [← (Prod.mk.inj hx).2, w.after_self] at he
    rw [he]
    exact touches_self w

theorem touches_crashed {d : Digest} {r : Except Exc Unit}
    (hs : Sessions.Step (allowing permits) (killing kills) w
      (c, (.unlink .blobs d.val .crashed : Op V)) r w') : Touches w w' := by
  obtain ⟨⟨-, hd⟩, he⟩ := does_store (o := .unlink .blobs d.val .crashed) nofun hs
  obtain ⟨h, hx⟩ := sound_step hd
  have hx : w.store.unlink .blobs d.val = (r, w'.store) := Option.some.inj hx
  change w' = w.after (if raised r then none else digest? d.val) w'.store at he
  -- where it raises, nothing has changed
  have hsame : ∀ e, r = .error e → w'.store = w.store → Touches w w' := by
    rintro e rfl hs'
    rw [hs', show raised (.error e : Except Exc Unit) = true from rfl, if_pos rfl, w.after_self] at he
    rw [he]
    exact touches_self w
  unfold Store.unlink at hx
  split at hx
  · exact hsame _ (Prod.mk.inj hx).1.symm (Prod.mk.inj hx).2.symm
  · exact hsame _ (Prod.mk.inj hx).1.symm (Prod.mk.inj hx).2.symm
  · next n _ hn =>
    obtain ⟨rfl, hs'⟩ := Prod.mk.inj hx
    refine .crashed d (by rw [hn]; exact nofun) hs'.symm fun d' => ?_
    rw [he, History.mem_lost_after, digest?_val, show raised (.ok () : Except Exc Unit) = false from
      rfl, if_neg Bool.false_ne_true, Option.some_inj]
    rfl

/-! ## Programs -/

/-- The operation is one of those of a restore. -/
def Op.Uses (o : Op V) : Prop :=
  o.Plain ∧ o.Roots ∨ (∃ id, o = .utime .manifests (manifestName id)) ∨
    ∃ d : Digest, o = .unlink .blobs d.val .crashed

/-- A descriptor is for the file that was opened. -/
def Op.Opened : (o : Op V) → Except Exc (Ans o) → Prop
  | .openFile d name mode, .ok fd => fd = ⟨d, name, mode⟩
  | _, _ => True

theorem Op.Uses.use {o : Op V} (h : o.Uses) : use o = .free ∨ use o = .locked := by
  obtain h | ⟨id, rfl⟩ | ⟨d, rfl⟩ := h
  · exact h.1.1
  · exact .inr rfl
  · exact .inr rfl

theorem Op.Uses.touches {o : Op V} {r : Except Exc (Ans o)} (ho : o.Uses)
    (hs : Sessions.Step (allowing permits) (killing kills) w (c, o) r w') : Touches w w' := by
  obtain h | ⟨id, rfl⟩ | ⟨d, rfl⟩ := ho
  · exact touches_roots h hs
  · exact touches_utime hs
  · exact touches_crashed hs

theorem Op.Uses.opened {o : Op V} {r : Except Exc (Ans o)} (ho : o.Uses)
    (hs : Sessions.Step (allowing permits) (killing kills) w (c, o) r w') : o.Opened r := by
  cases o with
  | openFile d name mode =>
    obtain h | ⟨id, h⟩ | ⟨d', h⟩ := ho
    · cases r with
      | error e => trivial
      | ok fd =>
        obtain ⟨⟨-, hd⟩, -⟩ := does_plain h.1 hs
        obtain ⟨x, hx⟩ := sound_step hd
        exact openFile_fd (Prod.mk.inj (Option.some.inj hx)).1
    · cases h
    · cases h
  | _ => trivial

/-- The operations of the program are those of a restore. -/
abbrev Using (p : Py V α) : Prop := p.Follows Op.Opened Op.Uses

theorem using_roots {p : Py V α} (h : p.AllOps fun o => o.Plain ∧ o.Roots) : Using p :=
  (h.mono fun _ => .inl).follows

theorem using_takeCrashed : Using (takeCrashed : Py V (Option Digest)) := by
  refine follows_bind (using_roots (allOps_attempt (allOps_map (allOps_roots_readFile ..))
    fun e => by split <;> trivial)) ?_
  rintro (_ | ⟨data, info⟩)
  · trivial
  refine follows_bind (using_roots (allOps_perform ⟨⟨.inr rfl, rfl⟩, rfl⟩)) fun _ => ?_
  split
  · trivial
  · exact follows_bind (AllOps.follows (allOps_suppress
      (allOps_perform (.inr (.inr ⟨_, rfl⟩))))) fun _ => trivial

theorem using_load (d : Digest) : Using (load d : Py V V) := by
  refine follows_bind (using_roots (allOps_roots_readFile ..)) fun x => ?_
  refine ⟨.inl ⟨⟨.inr rfl, rfl⟩, .inl rfl⟩, ?_⟩
  rintro (e | fd) hfd
  · trivial
  -- the marker is in the root directory
  obtain rfl : fd = ⟨.root, loading, .truncate⟩ := hfd
  refine using_roots (p := closing _ (write _ d.encode) >>= fun _ =>
      (loads x.1).ensure (unlink .root loading .loaded))
    (allOps_bind (allOps_ensure (allOps_perform ?_) (allOps_perform ?_))
      fun _ => allOps_ensure (allOps_perform ?_) (allOps_perform ?_))
  · exact ⟨⟨.inr rfl, rfl⟩, rfl⟩
  · exact ⟨⟨.inr rfl, rfl⟩, trivial⟩
  · exact ⟨⟨.inl rfl, rfl⟩, trivial⟩
  · exact ⟨⟨.inr rfl, rfl⟩, rfl⟩

theorem using_restoreEntry (crashed : Option Digest) (acc : Restoring) (e : Entry) :
    Using (restoreEntry crashed acc e : Py V Restoring) := by
  refine follows_bind (using_roots (allOps_perform (Op.roots_kernel rfl))) fun g => ?_
  split
  · trivial
  refine follows_attempt (follows_bind ?_ fun value => follows_bind
    (using_roots (allOps_perform (Op.roots_kernel rfl))) fun _ => trivial) fun x => by
      split <;> trivial
  unfold loadEntry
  split
  · exact using_roots (allOps_perform (Op.roots_kernel rfl))
  · split
    · trivial
    · exact using_load _

/-- **The operations of a restore.** -/
theorem using_restoreLocked (python : Python V) (ids : List PyValue) (nearest : PyValue) :
    Using (restoreLocked python ids nearest) := by
  have hheld : ∀ held, Using (setHeld held : Py V Unit) :=
    fun held => using_roots (allOps_perform (Op.roots_kernel rfl))
  refine follows_bind using_takeCrashed fun crashed => ?_
  refine follows_bind (using_roots (allOps_roots_select _)) fun selected => ?_
  refine follows_bind (hheld _) fun _ => follows_bind (using_roots allOps_roots_clear) fun _ => ?_
  rcases selected with _ | ⟨id, m⟩
  · exact follows_bind (hheld _) fun _ => trivial
  refine follows_bind (AllOps.follows (allOps_perform (.inr (.inl ⟨id, rfl⟩)))) fun _ => ?_
  exact follows_bind (follows_foldlM fun acc e => using_restoreEntry crashed acc e) fun acc =>
    follows_bind (hheld _) fun _ => trivial

/-- **What a restore keeps**: whatever each kind of step keeps. -/
theorem held_using {p : Py V α} (hp : Using p)
    (hI : ∀ w (o : Op V), I w → Restorable kills K J w o)
    (htouch : ∀ w w', I w → Touches w w' → I w') (hw : I w) :
    Holding permits kills K J c p (fun _ w' => I w') w := by
  induction p generalizing w with
  | done r => exact hw
  | op o k ih =>
    exact held_op hp.1.use (hI w o hw) fun r w' hs =>
      ih r (hp.2 r (hp.1.opened hs)) (htouch w w' hw (hp.1.touches hs))

/-! ## Calls -/

/-- A save keeps the invariant when what it does with the lock does. -/
theorem keeping_saveLocked {python : Python V} {checkpointId : PyValue} {limit : Int} {maxAge : ℚ}
    (hJ : ∀ w (o : Op V), J w → Restorable kills K J w o)
    (hbody : ∀ id began w, asUuid checkpointId = some id → J w →
      Holding permits kills K J c (saveLocked python id began limit maxAge)
        (Returns kills K J c) w) :
    Keeping permits kills K J c (save python checkpointId limit maxAge) := by
  unfold save
  split
  · trivial
  next id hid =>
  refine Sessions.keeps_free (.inl rfl) ?_
  rintro (e | _)
  · trivial
  refine Sessions.keeps_free (.inl rfl) ?_
  rintro (e | g)
  · trivial
  change Keeping _ _ _ _ _ (if _ then _ else _)
  split
  · trivial
  refine Sessions.keeps_free (.inl rfl) ?_
  rintro (e | began)
  · trivial
  change Keeping _ _ _ _ _ (withStore (saveLocked python id began limit maxAge))
  rw [← andThen_done (withStore _)]
  exact keeping_withStore hJ (fun w hw => hbody id began w hid hw) fun _ => trivial

/-- A restore keeps the invariant when what it does with the lock does. -/
theorem keeping_restoreLocked {python : Python V} (candidateIds : PyValue)
    (hJ : ∀ w (o : Op V), J w → Restorable kills K J w o)
    (hbody : ∀ ids nearest w, J w → Holding permits kills K J c (restoreLocked python ids nearest)
      (Returns kills K J c) w) :
    Keeping permits kills K J c (restoring python candidateIds) := by
  unfold restoring
  rw [map_eq]
  unfold restore
  split
  · next ids =>
    rw [bind_eq, andThen_assoc]
    refine Sessions.keeps_free (.inl rfl) ?_
    rintro (e | g)
    · trivial
    change Keeping _ _ _ _ _ (andThen (if _ then (if _ then _ else _) else if _ then _ else _) _)
    split
    · split
      · trivial
      · exact Sessions.keeps_free (.inl rfl) fun r => by cases r <;> trivial
    split
    · trivial
    exact keeping_withStore hJ (fun w hw => hbody ids _ w hw) fun r => by cases r <;> trivial
  · trivial

end Steps

end PiIpython.Checkpoint
