import PiIpython.Checkpoint.Saving
import PiIpython.Checkpoint.Sessions

/-!
# The history of a store

Sessions save and restore on one store and their kernels may be killed between
any two operations. Beside the store, a `History` keeps which blobs are missing
because `_take_crashed` deleted them, and which call gave the lock back last.
What a program does to the store alone is lifted to sessions by `held_lift`.
-/

namespace PiIpython.Checkpoint

open Text Prog
open Bridge (PyValue)

variable {V α β : Type}

/-- What is known of the past of a store. -/
@[ext] structure History where
  store : Store
  /-- The blobs that `_take_crashed` deleted and that were not there again since. -/
  lost : List Digest
  lost_absent : ∀ d ∈ lost, store.node? .blobs d.val = none
  /-- The call that gave the lock back last, and whether it raised. -/
  last : Option (Call × Bool)

/-- The blob that the operation deletes because the marker names it. -/
def Op.condemned : Op V → Option Digest
  | .unlink .blobs name .crashed => digest? name
  | _ => none

namespace History

/-- The history of the store `s`, when `d` was deleted because of the marker. -/
def after (w : History) (d : Option Digest) (s : Store) : History where
  store := s
  lost := (d.toList ++ w.lost).filter fun d => (s.node? .blobs d.val).isNone
  lost_absent _ h := Option.isNone_iff_eq_none.mp (List.mem_filter.mp h).2
  last := w.last

theorem mem_lost_after {w : History} {x : Option Digest} {s : Store} {d : Digest} :
    d ∈ (w.after x s).lost ↔ (x = some d ∨ d ∈ w.lost) ∧ s.node? .blobs d.val = none := by
  unfold after
  rw [List.mem_filter, List.mem_append, Option.mem_toList, Option.isNone_iff_eq_none]

/-- Where no blob is new, those that are lost stay lost. -/
theorem lost_after {w : History} {s : Store}
    (h : ∀ d ∈ w.lost, s.node? .blobs d.val = none) : (w.after none s).lost = w.lost := by
  refine List.filter_eq_self.mpr fun d hd => ?_
  rw [h d hd]
  rfl

/-- An operation of a call. -/
def perform (w : History) (h : Hint V) :
    (o : Call × Op V) → Option (Except Exc (Ans o.2) × History)
  | (c, .release b) => some (.ok (), { w with last := some (c, b) })
  | (_, o) => (w.store.perform h o).map fun x =>
      (x.1, w.after (if raised x.1 then none else o.condemned) x.2)

theorem perform_eq (w : History) (h : Hint V) (c : Call) {o : Op V} (ho : use o ≠ .release) :
    w.perform h (c, o) = (w.store.perform h o).map fun x =>
      (x.1, w.after (if raised x.1 then none else o.condemned) x.2) := by
  cases o with
  | release b => exact absurd rfl ho
  | _ => rfl

theorem after_self (w : History) : w.after none w.store = w :=
  History.ext rfl (lost_after w.lost_absent) rfl

theorem perform_free {w : History} {h : Hint V} {o : Call × Op V}
    {x : Except Exc (Ans o.2) × History} (hu : use o.2 = .free) (hx : w.perform h o = some x) :
    x.2 = w := by
  obtain ⟨c, o⟩ := o
  have hu : use o = .free := hu
  rw [perform_eq w h c (by rw [hu]; decide)] at hx
  obtain ⟨⟨r, s⟩, hs, rfl⟩ := Option.map_eq_some_iff.mp hx
  have ho : o.condemned = none := by cases o <;> first | rfl | cases hu
  obtain rfl : s = w.store := by cases o <;> first | (cases hs; rfl) | cases hu
  change w.after (if raised r then none else o.condemned) w.store = w
  rw [ho, ite_self, after_self]

end History

/-- The store of the sessions, with its history. -/
def histories (V : Type) : Shared History (Call × Op V) (fun o => Ans o.2) Exc (Hint V) where
  use o := use o.2
  perform := History.perform
  interrupt := .keyboardInterrupt
  died w _ := { w with last := none }
  perform_free := History.perform_free

/-- The program of a call, with each of its operations under its name. -/
def begin (python : Python V) (c : Call) :
    Prog (Call × Op V) (fun o => Ans o.2) Exc Unit := (start python c).label c

/-- Before the first call. -/
def untouched (V : Type) (s : Store) :
    Sessions History (Call × Op V) (fun o => Ans o.2) Exc where
  world := ⟨s, [], nofun, none⟩
  holder := none
  program := fun _ => .done (.ok ())

/-! ## With the lock -/

/-- No signal strikes the holder of the lock, and a kill strikes it where `kills` says. -/
def killing (kills : Store → Op V → Prop) (w : History) (o : Call × Op V) : Strike → Prop
  | .kill => kills w.store o.2
  | _ => False

/-- The operation does not concern the lock, and deletes no blob because of the marker. -/
def Op.Plain (o : Op V) : Prop := (use o = .free ∨ use o = .locked) ∧ o.condemned = none

/-- What an operation that is permitted does to the store. -/
def Store.Does (permits : Op V → Prop) (s : Store) (o : Op V) (r : Except Exc (Ans o))
    (s' : Store) : Prop := permits o ∧ (Disk.sound V).Step s o r s'

/-- The store of the sessions, where only some operations are done. -/
abbrev allowing (permits : Op V → Prop) [DecidablePred permits] :
    Shared History (Call × Op V) (fun o => Ans o.2) Exc (Hint V) :=
  (histories V).only fun o => permits o.2

/-- A store that does as it is told does what is permitted. -/
theorem safe_does {permits : Op V → Prop} {p : Py V α} {pre : Op V → Store → Prop}
    {q : Except Exc α → Store → Prop} {s : Store} (h : p.Safe pre (Disk.sound V).Step q s) :
    p.Safe pre (Store.Does permits) q s := by
  induction p generalizing s with
  | done r => exact h
  | op o k ih => exact ⟨h.1, fun r s' hs => ih r (h.2 r s' hs.2)⟩

/-- A store that does as it is told. -/
theorem sound_step {s s' : Store} {o : Op V} {r : Except Exc (Ans o)}
    (h : (Disk.sound V).Step s o r s') : ∃ h, s.perform h o = some (r, s') := by
  rcases h with ⟨_, hf, -⟩ | ⟨-, h, -, hx⟩
  · exact Bool.noConfusion hf
  · exact ⟨h, hx⟩

section Lock

variable {permits : Op V → Prop} [DecidablePred permits] {kills : Store → Op V → Prop}
  {K J : History → Prop} {c : Call} {w w' : History}

/-- `p` is safe from `w`, for a call that has the lock. -/
abbrev Holding (permits : Op V → Prop) [DecidablePred permits] (kills : Store → Op V → Prop)
    (K J : History → Prop) (c : Call) (p : Py V α) (Q : Except Exc α → History → Prop)
    (w : History) : Prop :=
  p.Safe (fun o => Sessions.PreLocked (allowing permits) (killing kills) K J (c, o))
    (fun w o => Sessions.Step (allowing permits) (killing kills) w (c, o)) Q w

/-- The rest of a program of the call `c` keeps the invariant. -/
abbrev Keeping (permits : Op V → Prop) [DecidablePred permits] (kills : Store → Op V → Prop)
    (K J : History → Prop) (c : Call) (p : Py V Unit) : Prop :=
  Sessions.Keeps (allowing permits) (killing kills) K J (p.label c) .outside

/-- Where a kill may strike. -/
def Restorable (kills : Store → Op V → Prop) (K J : History → Prop) (w : History) (o : Op V) :
    Prop := K w ∧ (kills w.store o → J { w with last := none })

/-- Where a call that ends with `r` may give the lock back. -/
def Returns (kills : Store → Op V → Prop) (K J : History → Prop) (c : Call) (r : Except Exc α)
    (w : History) : Prop :=
  Restorable kills K J w (.release (raised r)) ∧ J { w with last := some (c, raised r) }

/-- What an operation of the holder does. -/
theorem does_store {o : Op V} {r : Except Exc (Ans o)} (ho : use o ≠ .release)
    (hs : Sessions.Step (allowing permits) (killing kills) w (c, o) r w') :
    w.store.Does permits o r w'.store ∧
      w' = w.after (if raised r then none else o.condemned) w'.store := by
  rcases hs with ⟨h, hx⟩ | ⟨-, ⟨ha, -⟩ | ⟨ha, -⟩⟩
  · change (if permits o then w.perform h (c, o) else none) = _ at hx
    split at hx
    · next hp =>
      rw [History.perform_eq w h c ho] at hx
      obtain ⟨⟨r', s⟩, hs, hx⟩ := Option.map_eq_some_iff.mp hx
      cases hx
      exact ⟨⟨hp, .inr ⟨nofun, h, trivial, hs⟩⟩, rfl⟩
    · cases hx
  · exact ha.elim
  · exact ha.elim

theorem Op.Plain.use_ne {o : Op V} (h : o.Plain) : use o ≠ .release := by
  rcases h.1 with h | h <;> rw [h] <;> decide

theorem does_plain {o : Op V} {r : Except Exc (Ans o)} (ho : o.Plain)
    (hs : Sessions.Step (allowing permits) (killing kills) w (c, o) r w') :
    w.store.Does permits o r w'.store ∧ w' = w.after none w'.store := by
  have h := does_store ho.use_ne hs
  rwa [ho.2, ite_self] at h

/-- An operation of the holder. -/
theorem held_op {o : Op V} {k : Except Exc (Ans o) → Py V α} {Q : Except Exc α → History → Prop}
    (hu : use o = .free ∨ use o = .locked) (hw : Restorable kills K J w o)
    (hk : ∀ r w', Sessions.Step (allowing permits) (killing kills) w (c, o)
      r w' → Holding permits kills K J c (k r) Q w') : Holding permits kills K J c (.op o k) Q w :=
  ⟨⟨hu, hw⟩, hk⟩

/-- **What a program does to the store, it does beside the history**: `G` holds of the store all
along, and each operation keeps what `F` says of the history. -/
theorem held_lift {p : Py V α} {P : Op V → Prop} {G : Store → Prop} {F : History → Prop}
    {q : Except Exc α → Store → Prop} {Q : Except Exc α → History → Prop}
    (hplain : ∀ o, P o → o.Plain)
    (hpre : ∀ w o, F w → G w.store → Restorable kills K J w o)
    (hstep : ∀ (w : History) (o : Op V) r s', F w → G w.store → G s' → P o →
      w.store.Does permits o r s' → F (w.after none s'))
    (hQ : ∀ r w', F w' → G w'.store → q r w'.store → Q r w') (hp : p.AllOps P) (hF : F w)
    (h : p.Safe (fun _ s => G s) (Store.Does permits) (fun r s => G s ∧ q r s) w.store) :
    Holding permits kills K J c p Q w := by
  induction p generalizing w with
  | done r => exact hQ r w hF h.1 h.2
  | op o k ih =>
    refine held_op (hplain o hp.1).1 (hpre w o hF h.1) fun r w' hs => ?_
    obtain ⟨hd, he⟩ := does_plain (hplain o hp.1) hs
    have hk := h.2 r w'.store hd
    -- where the rest starts, or ends, `G` holds
    have hG : G w'.store := by
      cases hkr : k r with
      | done r' =>
        rw [hkr] at hk
        exact hk.1
      | op o' k' =>
        rw [hkr] at hk
        exact hk.1
    refine ih r (hp.2 r) ?_ hk
    rw [he]
    exact hstep w o r w'.store hF h.1 hG hp.1 hd

/-- **A program on the kernel** leaves the history alone. -/
theorem held_kernel {p : Py V β} {f : β → Py V α} {Q : Except Exc α → History → Prop}
    (hp : p.AllOps fun o => o.kernel = true) (hw : ∀ o : Op V, Restorable kills K J w o)
    (hf : ∀ b, Holding permits kills K J c (f b) Q w) (he : ∀ e, Q (.error e) w) :
    Holding permits kills K J c (p >>= f) Q w := by
  refine safe_bind.mpr ?_
  induction p with
  | done r =>
    rcases r with e | b
    · exact he e
    · exact hf b
  | op o k ih =>
    have ho : o.Plain := by
      have hk := hp.1
      cases o <;> first | exact ⟨.inl rfl, rfl⟩ | cases hk
    refine held_op ho.1 (hw o) fun r w' hs => ?_
    obtain ⟨⟨-, hd⟩, he'⟩ := does_plain ho hs
    rw [(hd.kernel hp.1).1, w.after_self] at he'
    subst he'
    exact ih r (hp.2 r)

/-! ## The lock -/

/-- The lock is given back, whatever the body ended with. -/
theorem keeps_giveBack {f : Except Exc α → Py V Unit} {r : Except Exc α}
    (hw : Returns kills K J c r w) (hf : ∀ r, Keeping permits kills K J c (f r)) :
    Sessions.Keeps (allowing permits) (killing kills) K J
      (((closeStore r).andThen f).label c) (.inside w) := by
  refine Sessions.keeps_release rfl hw.1 ?_ ?_
  · rintro h e w' hx
    change (if permits _ then _ else _) = _ at hx
    split at hx
    · cases hx
      exact hw.2
    · cases hx
  · rintro (e | a)
    · exact hf _
    · exact hf _

theorem keeps_giveBack_outside {f : Except Exc α → Py V Unit}
    (hf : ∀ r, Keeping permits kills K J c (f r)) (r : Except Exc α) :
    Keeping permits kills K J c ((closeStore r).andThen f) := by
  refine Sessions.keeps_free (.inr rfl) ?_
  rintro (e | a)
  · exact hf _
  · exact hf _

/-- **A body that is safe under the lock keeps the invariant.** -/
theorem keeping_withStore {body : Py V α} {f : Except Exc α → Py V Unit}
    (hJ : ∀ w (o : Op V), J w → Restorable kills K J w o)
    (hbody : ∀ w, J w → Holding permits kills K J c body (Returns kills K J c) w)
    (hf : ∀ r, Keeping permits kills K J c (f r)) :
    Keeping permits kills K J c ((withStore body).andThen f) := by
  have hout := fun r => keeps_giveBack_outside (r := r) hf
  rw [withStore, Prog.bind_eq, Prog.andThen_assoc]
  refine Sessions.keeps_free (.inl rfl) ?_
  rintro (e | g)
  · exact hf _
  change Keeping _ _ _ _ _ (Prog.andThen (if _ then _ else _) f)
  split
  · exact hf _
  rw [Prog.andThen_assoc]
  -- up to the lock
  refine Sessions.keeps_free (.inl rfl) ?_
  rintro (e | _)
  · exact hout _
  refine Sessions.keeps_free (.inl rfl) ?_
  rintro (e | _)
  · exact hout _
  refine Sessions.keeps_acquire rfl (fun e => hout _) ?_
  rintro w h _ w' hw hx
  refine ⟨?_, fun ha => ha.elim⟩
  obtain rfl : w' = w := by
    change (if permits .flock then w.perform h (c, .flock) else none) = _ at hx
    split at hx
    · rw [History.perform_eq w h c fun h => by cases h] at hx
      cases hx
      exact w.after_self
    · cases hx
  -- the directories are opened
  have hopen : ∀ {name : PyStr} {k : Py V α} {Q : Except Exc α → History → Prop},
      Holding permits kills K J c k Q w' →
      Holding permits kills K J c (openDir name >>= fun _ => k) Q w' := by
    intro name k Q hk
    refine safe_bind.mpr (held_op (.inl rfl) (hJ w' _ hw) ?_)
    rintro r w₁ hs
    obtain ⟨⟨-, hd⟩, he⟩ := does_plain (o := .openDir name) ⟨.inl rfl, rfl⟩ hs
    obtain ⟨rfl, hst⟩ := hd.unchanged (a := ()) (fun _ h => h) fun _ => rfl
    rw [he, hst, w'.after_self]
    exact hk
  change Sessions.Keeps _ _ _ _ (Prog.label c (Prog.andThen (opened body) _)) _
  rw [label_andThen]
  exact Sessions.keeps_andThen_safe (safe_label.mpr ((hopen (hopen (hbody w' hw))).mono
    fun r w hr => keeps_giveBack hr hf))

end Lock

/-! ## Operations that spare the blobs -/

/-- The operation removes no blob: it moves and unlinks temporary files alone. -/
def Op.Spares : Op V → Prop
  | .unlink .blobs name _ => IsTemporary name
  | .replace .blobs source _ => IsTemporary source
  | _ => True

theorem Store.node?_put_ne_none {s : Store} {d d' : Dir} {name name' : PyStr} {n : Node}
    (h : s.node? d' name' ≠ none) : (s.put d name n).node? d' name' ≠ none := by
  rw [Store.node?_put]
  split
  · exact nofun
  · exact h

theorem Store.node?_remove_ne_none {s : Store} {d d' : Dir} {name name' : PyStr}
    (h : s.node? d' name' ≠ none) (hne : ¬ (d' = d ∧ name' = name)) :
    (s.remove d name).node? d' name' ≠ none := by
  rwa [Store.node?_remove, if_neg hne]

/-- **A blob stays** where the operation spares the blobs. -/
theorem Store.perform_spares {s s' : Store} {h : Hint V} {o : Op V} {r : Except Exc (Ans o)}
    (ho : o.Spares) (hx : s.perform h o = some (r, s')) {d : Digest}
    (hd : s.node? .blobs d.val ≠ none) : s'.node? .blobs d.val ≠ none := by
  cases o with
  | openFile dir name mode =>
    obtain rfl : (s.openFile h.now dir name mode).2 = s' := (Prod.mk.inj (Option.some.inj hx)).2
    unfold Store.openFile
    cases mode <;> dsimp only <;> split <;> first | exact hd | exact Store.node?_put_ne_none hd
  | write fd data =>
    cases hx
    unfold Store.write
    split
    · exact Store.node?_put_ne_none hd
    · exact hd
  | replace dir source target =>
    obtain rfl : (s.replace dir source target).2 = s' := (Prod.mk.inj (Option.some.inj hx)).2
    unfold Store.replace
    split
    · exact hd
    · exact hd
    · refine Store.node?_put_ne_none (Store.node?_remove_ne_none hd ?_)
      rintro ⟨rfl, he⟩
      exact IsTemporary.ne_digest ho d he.symm
  | unlink dir name why =>
    obtain rfl : (s.unlink dir name).2 = s' := (Prod.mk.inj (Option.some.inj hx)).2
    unfold Store.unlink
    split
    · exact hd
    · exact hd
    · refine Store.node?_remove_ne_none hd ?_
      rintro ⟨rfl, he⟩
      exact IsTemporary.ne_digest ho d he.symm
  | utime dir name =>
    obtain rfl : (s.utime h.now dir name).2 = s' := (Prod.mk.inj (Option.some.inj hx)).2
    unfold Store.utime
    split
    · exact hd
    · exact Store.node?_put_ne_none hd
    · exact hd
  | listdir dir =>
    change s.listdir dir _ = _ at hx
    unfold Store.listdir at hx
    split at hx
    · split at hx
      · cases hx
        exact hd
      · cases hx
    · cases hx
  | _ => cases hx; exact hd

/-! ## The operations of a save -/

section Save

variable {python : Python V}

/-- The operation is one of those that write the store. -/
def Op.Writes (o : Op V) : Prop := o.Plain ∧ o.Spares

theorem Op.writes_kernel {o : Op V} (h : o.kernel = true) : o.Writes := by
  cases o <;> first | exact ⟨⟨.inl rfl, rfl⟩, trivial⟩ | cases h

theorem Op.writes_reading {o : Op V} (h : o.reading = true) : o.Writes := by
  cases o <;> first | exact ⟨⟨.inr rfl, rfl⟩, trivial⟩ | cases h

theorem allOps_suppress {P : Op V → Prop} {f : Exc → Bool} {body : Py V Unit}
    (h : body.AllOps P) : (suppress f body).AllOps P :=
  allOps_attempt h fun e => by split <;> trivial

theorem allOps_atomicWrite (d : Dir) (name : PyStr) (data : Bytes) :
    (atomicWrite d name data : Py V Unit).AllOps Op.Writes := by
  refine allOps_bind (allOps_perform (Op.writes_kernel rfl)) fun hex => ?_
  have ht : IsTemporary (temporaryName hex) := ⟨hex, rfl⟩
  refine allOps_ensure ?_ (allOps_suppress (allOps_perform ?_))
  · refine allOps_bind (allOps_perform ⟨⟨.inr rfl, rfl⟩, trivial⟩) fun fd => ?_
    refine allOps_bind (allOps_ensure ?_ (allOps_perform ⟨⟨.inr rfl, rfl⟩, trivial⟩)) fun _ => ?_
    · exact allOps_bind (allOps_perform ⟨⟨.inr rfl, rfl⟩, trivial⟩) fun _ =>
        allOps_perform ⟨⟨.inr rfl, rfl⟩, trivial⟩
    · refine allOps_bind (allOps_perform ⟨⟨.inr rfl, rfl⟩, ?_⟩) fun _ =>
        allOps_perform ⟨⟨.inr rfl, rfl⟩, trivial⟩
      cases d <;> first | exact ht | trivial
  · cases d <;> first | exact ⟨⟨.inr rfl, rfl⟩, ht⟩ | exact ⟨⟨.inr rfl, rfl⟩, trivial⟩

theorem allOps_keepBlob (d : Digest) (data : Bytes) :
    (keepBlob d data : Py V Unit).AllOps Op.Writes := by
  refine allOps_attempt (allOps_bind (allOps_perform (Op.writes_reading rfl)) fun fd =>
    allOps_perform (Op.writes_reading rfl)) fun e => ?_
  split
  · exact allOps_atomicWrite _ _ _
  · trivial

theorem allOps_saveNames (items : List (PyStr × V)) (acc : Saving) :
    (items.foldlM (saveName python) acc).AllOps Op.Writes := by
  refine allOps_foldlM (fun acc item _ => ?_) acc
  refine allOps_bind (allOps_perform (Op.writes_kernel rfl)) fun g => ?_
  split
  · trivial
  refine allOps_attempt ?_ fun e => by split <;> trivial
  unfold saveValue
  split
  · exact allOps_bind (allOps_perform (Op.writes_kernel rfl)) fun _ => trivial
  refine allOps_bind ((allOps_estimate item.2).mono fun _ => Op.writes_kernel) fun size => ?_
  split
  · trivial
  refine allOps_bind (allOps_perform (Op.writes_kernel rfl)) fun x =>
    allOps_bind trivial fun data => ?_
  split
  · trivial
  · exact allOps_bind (allOps_keepBlob _ data) fun _ => trivial

theorem allOps_cleanup (currentId : Uuid) (limit : Int) (maxAge : ℚ) :
    (cleanup python currentId limit maxAge).AllOps Op.Plain := by
  refine allOps_bind ?_ fun ms => allOps_bind ?_ fun sizes =>
    allOps_bind (allOps_perform ⟨.inl rfl, rfl⟩) fun now =>
    allOps_bind (allOps_foldlM (fun t m _ => ?_) _) fun t =>
    allOps_bind (allOps_forM fun d _ => allOps_perform ⟨.inr rfl, rfl⟩) fun _ =>
    allOps_bind (allOps_perform ⟨.inr rfl, rfl⟩) fun _ => allOps_perform ⟨.inr rfl, rfl⟩
  · refine allOps_bind (allOps_perform ⟨.inr rfl, rfl⟩) fun names =>
      allOps_foldlM (fun found name _ => ?_) _
    split
    · trivial
    · next id _ =>
      refine allOps_bind (allOps_attempt (allOps_map ?_) fun e => by split <;> trivial)
        fun _ => trivial
      exact allOps_bind ((allOps_readFile (P := fun o => o.reading = true) rfl (fun _ => rfl)
        (fun _ _ => rfl) (fun _ => rfl) _).mono fun _ h => (Op.writes_reading h).1)
        fun _ => allOps_bind trivial fun _ => trivial
  · refine allOps_bind (allOps_perform ⟨.inr rfl, rfl⟩) fun names =>
      allOps_foldlM (fun sizes name _ => ?_) _
    split
    · trivial
    · exact allOps_bind (allOps_attempt (allOps_perform ⟨.inr rfl, rfl⟩)
        fun e => by split <;> trivial) fun _ => trivial
  · unfold evict
    split
    · trivial
    split
    · trivial
    · exact allOps_bind (allOps_perform ⟨.inr rfl, rfl⟩) fun _ => trivial

end Save

end PiIpython.Checkpoint
