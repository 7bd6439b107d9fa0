import PiIpython.Checkpoint.Marker
import PiIpython.Checkpoint.Scan

/-!
# A kernel and the store

The kernel in which `pi_ipython_state` runs: the globals that it reads, the
namespace, and the store. What the values of a checkpoint load to is left to
the outside, which may answer each load in its own way and leaves the
namespace alone; files answer as the store says, and no signal strikes.
-/

namespace PiIpython.Checkpoint

open Text Prog
open Bridge (PyValue PyNum)

variable {V α : Type}

structure Kernel (V : Type) where
  globals : Globals
  userNs : Dict PyStr V
  store : Store
  /-- How many values were loaded. -/
  loads : Nat

/-- What the values load to, counted from the start of the kernel. -/
structure Outside (V : Type) where
  loads : Nat → Bytes → Except Exc V
  importModule : Nat → PyStr → Except Exc V

namespace Kernel

def perform (w : Kernel V) (out : Outside V) (h : Hint V) :
    (o : Op V) → Option (Except Exc (Ans o) × Kernel V)
  | .globals => some (.ok w.globals, w)
  | .items => some (.ok w.userNs.entries, w)
  | .pop name => some (.ok (), { w with userNs := w.userNs.erase name })
  | .bind name value => some (.ok (), { w with userNs := w.userNs.set name value })
  | .setHeld held => some (.ok (), { w with globals := { w.globals with held := held } })
  | .setReported =>
    some (.ok (), { w with globals := { w.globals with storageErrorReported := true } })
  | .loads data => some (out.loads w.loads data, { w with loads := w.loads + 1 })
  | .importModule name => some (out.importModule w.loads name, { w with loads := w.loads + 1 })
  | o => (w.store.perform h o).map fun x => (x.1, { w with store := x.2 })

/-- What an operation may do. -/
def Does (out : Outside V) (w : Kernel V) (o : Op V) (r : Except Exc (Ans o)) (w' : Kernel V) :
    Prop :=
  ∃ h, w.perform out h o = some (r, w')

end Kernel

/-- Every run of `p` from `w` ends as `Q` says. -/
abbrev Runs (out : Outside V) (p : Py V α) (Q : Except Exc α → Kernel V → Prop) (w : Kernel V) :
    Prop :=
  p.Safe (fun _ _ => True) (Kernel.Does out) Q w

/-- The operation is one on the store, or one that the kernel leaves to the world. -/
def Op.filed : Op V → Bool
  | .globals | .items | .pop _ | .bind _ _ | .setHeld _ | .setReported | .loads _
  | .importModule _ => false
  | _ => true

variable {out : Outside V} {w w' : Kernel V}

theorem Kernel.Does.filed {o : Op V} {r : Except Exc (Ans o)} (hs : w.Does out o r w')
    (ho : o.filed = true) :
    ∃ h s, w.store.perform h o = some (r, s) ∧ w' = { w with store := s } := by
  obtain ⟨h, hx⟩ := hs
  have hx : (w.store.perform h o).map (fun x => (x.1, { w with store := x.2 })) = some (r, w') := by
    cases o <;> first | exact hx | cases ho
  obtain ⟨⟨r', s⟩, hs, hx⟩ := Option.map_eq_some_iff.mp hx
  cases hx
  exact ⟨h, s, hs, rfl⟩

/-- **A program on the store runs in the kernel**, which it leaves alone. -/
theorem runs_filed {p : Py V α} {Q : Except Exc α → Kernel V → Prop}
    (hp : p.AllOps fun o => o.filed = true)
    (h : p.Safe (fun _ _ => True) (Disk.sound V).Step (fun r s => Q r { w with store := s })
      w.store) : Runs out p Q w := by
  have hstep : ∀ (w₁ : Kernel V) (o : Op V) r (w₂ : Kernel V), w₁ = { w with store := w₁.store } →
      o.filed = true → w₁.Does out o r w₂ →
      (Disk.sound V).Step w₁.store o r w₂.store ∧ w₂ = { w with store := w₂.store } := by
    rintro w₁ o r w₂ h₁ ho hs
    obtain ⟨h, s, hx, rfl⟩ := hs.filed ho
    refine ⟨.inr ⟨fun _ hf => Bool.noConfusion hf, h, trivial, hx⟩, ?_⟩
    rw [h₁]
  refine Safe.lift hstep (fun _ _ _ _ _ => trivial) hp rfl (h.mono ?_)
  rintro r s hq w₁ rfl h₁
  rw [h₁]
  exact hq

/-- An operation on the store that has one answer. -/
theorem runs_op {o : Op V} {k : Except Exc (Ans o) → Py V α} {Q : Except Exc α → Kernel V → Prop}
    (ho : o.filed = true)
    (hk : ∀ h r s, w.store.perform h o = some (r, s) → Runs out (k r) Q { w with store := s }) :
    Runs out (.op o k) Q w := by
  refine ⟨trivial, ?_⟩
  rintro r w' hs
  obtain ⟨h, s, hx, rfl⟩ := hs.filed ho
  exact hk h r s hx

theorem Op.reading_filed {o : Op V} (h : o.reading = true) : o.filed = true := by
  cases o <;> first | rfl | cases h

/-- Reading leaves the kernel as it is. -/
theorem runs_readFile {d : Dir} {name : PyStr} {limit : Nat}
    {Q : Except Exc (Bytes × Info) → Kernel V → Prop}
    (hok : ∀ f, w.store.readable d name limit = some f →
      Q (.ok (f.data, ⟨f.data.length, f.mtime⟩)) w)
    (hno : ∀ e, w.store.readable d name limit = none → Refused w.store d name e → Q (.error e) w) :
    Runs out (readFile d name limit : Py V (Bytes × Info)) Q w := by
  have hops : (readFile d name limit : Py V (Bytes × Info)).AllOps fun o => o.reading = true :=
    allOps_readFile (P := fun o => o.reading = true) rfl (fun _ => rfl) (fun _ _ => rfl)
      (fun _ => rfl) limit
  have hstep : ∀ (s : Store) (o : Op V) r (s' : Store), True → (Disk.sound V).Step s o r s' →
      s.Step (fun _ _ => False) o r s' := by
    rintro s o r s' - (⟨_, hf, -⟩ | ⟨-, h, -, hx⟩)
    · exact Bool.noConfusion hf
    · exact .inl ⟨h, hx⟩
  exact runs_filed (hops.mono fun _ => Op.reading_filed) (Safe.of_steps hstep
    (hops.mono fun _ _ => trivial)
    (safe_readFile (fun _ => trivial) hok hno fun ⟨_, _, h⟩ => h.elim))

/-! ## The lock -/

/-- **A body under the lock**: the kernel may fail to open the store, and what the body ends with
stands. -/
theorem runs_withStore {body : Py V α} {Q : Except Exc α → Kernel V → Prop}
    (hno : ∀ e, Q (.error e) w) (h : Runs out body Q w) : Runs out (withStore body) Q w := by
  have hclose : ∀ r (w₁ : Kernel V), Q r w₁ → Runs out (closeStore r) Q w₁ := by
    rintro r w₁ hq
    refine runs_op rfl ?_
    rintro _ _ s hx
    cases hx
    exact hq
  unfold withStore
  refine safe_bind.mpr ⟨trivial, ?_⟩
  rintro _ _ ⟨h', hx⟩
  cases hx
  change Runs out (if _ then _ else _) Q w
  split
  · exact hno _
  refine safe_andThen.mpr ?_
  unfold locked
  refine safe_bind.mpr (runs_op rfl ?_)
  rintro x r s hx
  obtain rfl : s = w.store := (Prod.mk.inj (Option.some.inj hx)).2.symm
  cases r with
  | error e => exact hclose _ _ (hno e)
  | ok _ =>
    refine safe_bind.mpr (runs_op rfl ?_)
    rintro x r s hx
    obtain rfl : s = w.store := (Prod.mk.inj (Option.some.inj hx)).2.symm
    cases r with
    | error e => exact hclose _ _ (hno e)
    | ok _ =>
      -- the rest up to the body cannot fail
      refine safe_bind.mpr (runs_op rfl ?_)
      rintro _ _ s hx
      cases hx
      unfold opened
      refine safe_bind.mpr (runs_op rfl ?_)
      rintro _ _ s hx
      cases hx
      refine safe_bind.mpr (runs_op rfl ?_)
      rintro _ _ s hx
      cases hx
      exact h.mono hclose

/-! ## The parts of a restore -/

/-- The first of the ids with a readable manifest. -/
def Store.selected (python : Python V) (s : Store) (ids : List Uuid) : Option (Uuid × Manifest) :=
  ids.findSome? fun id => (s.manifest? python id).map (id, ·)

theorem allOps_readManifest {P : Op V → Prop} (python : Python V) (id : Uuid)
    (h : ∀ o : Op V, o.reading = true → P o) : (readManifest python id).AllOps P :=
  allOps_bind ((allOps_readFile (P := fun o => o.reading = true) rfl (fun _ => rfl)
    (fun _ _ => rfl) (fun _ => rfl) manifestLimit).mono h)
    fun _ => allOps_bind trivial fun _ => trivial

theorem runs_select (python : Python V) (ids : List Uuid) :
    Runs out (select python ids) (fun r w' => w' = w ∧
      ∀ x, r = .ok x → x = w.store.selected python ids) w := by
  induction ids with
  | nil => exact ⟨rfl, fun x h => by cases h; rfl⟩
  | cons id ids ih =>
    have hread : Runs out (readManifest python id)
        (fun r w' => w' = w ∧ ManifestRead python (Disk.sound V) id w.store r) w :=
      runs_filed (allOps_readManifest python id fun _ => Op.reading_filed)
        ((safe_readManifest python id fun _ => trivial).mono fun r s h =>
          ⟨by rw [h.1], h.2⟩)
    refine safe_bind.mpr (safe_attempt.mpr (safe_map.mpr (hread.mono ?_)))
    rintro (e | m) w' ⟨rfl, hr⟩
    · change Runs out (if e.isOsOrValue then pure none else .raise e) _ w'
      split
      · refine ih.mono ?_
        rintro r w'' ⟨rfl, h⟩
        refine ⟨rfl, fun x hx => (h x hx).trans ?_⟩
        rcases hr with ⟨hf, -⟩ | ⟨-, hn, -⟩
        · cases hf
        · unfold Store.selected
          rw [List.findSome?_cons, hn]
          rfl
      · exact ⟨rfl, nofun⟩
    · refine ⟨rfl, fun x hx => ?_⟩
      cases hx
      unfold Store.selected
      rw [List.findSome?_cons, hr.2]
      rfl

/-- What `_take_crashed` leaves of a store. -/
structure Taken (s s' : Store) : Prop where
  absent : s'.node? .root loading = none
  manifests : ∀ name, s'.node? .manifests name = s.node? .manifests name
  blobs : ∀ d : Digest, s.marker ≠ some d → s'.node? .blobs d.val = s.node? .blobs d.val

theorem runs_takeCrashed :
    Runs out (takeCrashed : Py V (Option Digest)) (fun r w' => ∃ s, w' = { w with store := s } ∧
      ∀ crashed, r = .ok crashed → crashed = w.store.marker ∧ Taken w.store s) w := by
  refine safe_bind.mpr (safe_attempt.mpr (safe_map.mpr (runs_readFile ?_ ?_)))
  · intro f hf
    -- the marker is there and is unlinked
    have hfile := (Store.readable_eq_some.mp hf).1
    refine safe_bind.mpr (runs_op rfl ?_)
    rintro _ _ s hx
    change some (w.store.unlink .root loading) = _ at hx
    rw [Store.unlink_file hfile] at hx
    cases hx
    have habsent : (w.store.remove .root loading).node? .root loading = none :=
      (Store.node?_remove ..).trans (if_pos ⟨rfl, rfl⟩)
    have hother : ∀ d name, d ≠ .root →
        (w.store.remove .root loading).node? d name = w.store.node? d name :=
      fun d name hd => (Store.node?_remove ..).trans (if_neg fun h => hd h.1)
    rw [← Store.marker_eq hf]
    cases hm : w.store.marker with
    | none =>
      refine ⟨_, rfl, fun crashed hc => ?_⟩
      cases hc
      exact ⟨rfl, habsent, fun _ => hother _ _ nofun, fun _ _ => hother _ _ nofun⟩
    | some d =>
      refine safe_bind.mpr (safe_suppress.mpr (runs_op rfl ?_))
      rintro _ r s hx
      obtain ⟨-, rfl⟩ := Prod.mk.inj (Option.some.inj hx)
      have hend : Taken w.store ((w.store.remove .root loading).unlink .blobs d.val).2 := by
        refine ⟨?_, fun name => ?_, fun d' hd => ?_⟩
        · exact (Store.node?_unlink_of_ne (by rintro ⟨h, -⟩; cases h)).trans habsent
        · exact (Store.node?_unlink_of_ne (by rintro ⟨h, -⟩; cases h)).trans (hother _ _ nofun)
        · refine (Store.node?_unlink_of_ne fun h => hd ?_).trans (hother _ _ nofun)
          rw [hm, Subtype.ext h.2]
      have hok : Runs out (pure (some d) : Py V (Option Digest)) (fun r w' => ∃ s,
          w' = { w with store := s } ∧ ∀ crashed, r = .ok crashed → crashed = some d ∧
            Taken w.store s) { w with
              store := ((w.store.remove .root loading).unlink .blobs d.val).2 } := by
        refine ⟨_, rfl, fun crashed hc => ?_⟩
        cases hc
        exact ⟨rfl, hend⟩
      cases r with
      | ok _ => exact hok
      | error e =>
        change if _ then _ else _
        split
        · exact hok
        · exact ⟨_, rfl, nofun⟩
  · intro e hn he
    change Runs out (if e.kind = .fileNotFound then pure none else .raise e) _ w
    split
    · next hk =>
      refine ⟨w.store, rfl, fun crashed hc => ?_⟩
      cases hc
      exact ⟨(Store.marker_eq_none hn).symm, he.notFound.mp hk, fun _ => rfl, fun _ _ => rfl⟩
    · exact ⟨w.store, rfl, nofun⟩

/-- **`_clear`** leaves the names that are not eligible, and no other. -/
theorem runs_clear :
    Runs out (clear : Py V Unit) (fun r w' => r = .ok () ∧ ∃ ns, w' = { w with userNs := ns } ∧
      ∀ name, ns.get? name = if eligible w.globals name then none else w.userNs.get? name) w := by
  refine safe_bind.mpr ⟨trivial, ?_⟩
  rintro _ _ ⟨h, hx⟩
  cases hx
  -- the eligible names that are bound are among those that are left
  refine safe_forM (fun rest w₁ => ∃ ns, w₁ = { w with userNs := ns } ∧ ∀ name,
    (eligible w.globals name = false → ns.get? name = w.userNs.get? name) ∧
    (eligible w.globals name = true → ns.get? name = none ∨ name ∈ rest.map (·.1))) ?_ ?_
    ⟨w.userNs, rfl, fun name => ⟨fun _ => rfl, fun _ => ?_⟩⟩
  · rintro item rest _ ⟨ns, rfl, hns⟩
    refine safe_bind.mpr ⟨trivial, ?_⟩
    rintro _ _ ⟨h, hx⟩
    cases hx
    change Runs out (if eligible w.globals item.1 then pop item.1 else pure ()) _ _
    split
    · next he =>
      refine ⟨trivial, ?_⟩
      rintro _ _ ⟨h, hx⟩
      cases hx
      refine ⟨_, rfl, fun name => ⟨fun hn => ?_, fun hn => ?_⟩⟩
      · refine (Dict.get?_erase_of_ne ns ?_).trans ((hns name).1 hn)
        rintro rfl
        rw [he] at hn
        cases hn
      · change (ns.erase item.1).get? name = none ∨ _
        rw [Dict.get?_erase]
        split
        · exact .inl rfl
        · next hne =>
          refine ((hns name).2 hn).imp_right fun h => ?_
          exact (List.mem_cons.mp h).resolve_left hne
    · next he =>
      refine ⟨ns, rfl, fun name => ⟨(hns name).1, fun hn => ?_⟩⟩
      refine ((hns name).2 hn).imp_right fun h => (List.mem_cons.mp h).resolve_left ?_
      rintro rfl
      exact he hn
  · rintro _ ⟨ns, rfl, hns⟩
    refine ⟨rfl, ns, rfl, fun name => ?_⟩
    split
    · next he => exact ((hns name).2 he).resolve_right List.not_mem_nil
    · next he => exact (hns name).1 (Bool.eq_false_of_not_eq_true he)
  · rcases h : w.userNs.get? name with _ | v
    · exact .inl rfl
    · exact .inr (Dict.get?_isSome.mp (by rw [h]; rfl))

end PiIpython.Checkpoint
