import PiIpython.Checkpoint.State
import PiIpython.Lib.Locked

/-!
# Sessions on one store

Kernels of any number of sessions save and restore under the store-wide lock.
Beside the store, an observer keeps which blobs `_take_crashed` deleted, which
blobs a kernel was being killed by, and whether the last holder of the lock
gave it back. What the operations on the kernel answer is left open, so that a
run covers every namespace and every way in which a value can load.
-/

namespace PiIpython.Checkpoint

open Text
open Bridge (PyValue PyNum entry)

variable {V α : Type}

/-- The blob that the marker names. -/
def Store.marker (s : Store) : Option Digest :=
  match s.node? .root loading with
  | some (.file f) => if f.owned then digest? (decodeAscii f.data) else none
  | _ => none

structure World where
  store : Store
  /-- The blobs that `_take_crashed` deleted. -/
  condemned : List Digest
  /-- The blobs whose marker was complete and whose unpickling had not returned when the kernel was
  killed. -/
  killers : List Digest
  /-- The last holder of the lock gave it back: its kernel survived. -/
  survived : Bool

/-- Between the write of the marker and the return of the unpickling. -/
def Op.unpickling : Op V → Bool
  | .close fd => fd = ⟨.root, loading, .truncate⟩
  | .loads _ => true
  | _ => false

namespace World

def perform (w : World) (h : Hint V) : (o : Op V) → Option (Except Exc (Ans o) × World)
  | .unlink d name .crashed =>
    (w.store.perform h (.unlink d name .crashed)).map fun x =>
      (x.1, { w with
        store := x.2
        condemned := if raised x.1 then w.condemned else (digest? name).toList ++ w.condemned })
  | .release _ => some (.ok (), { w with survived := true })
  | o => (w.store.perform h o).map fun x => (x.1, { w with store := x.2 })

theorem perform_crashed (w : World) (h : Hint V) (d : Dir) (name : PyStr) :
    w.perform h (.unlink d name .crashed) =
      (w.store.perform h (.unlink d name .crashed)).map fun x =>
        (x.1, { w with
          store := x.2
          condemned := if raised x.1 then w.condemned
            else (digest? name).toList ++ w.condemned }) := rfl

/-- The holder is killed before it does the operation, or within it. -/
def died (w : World) (o : Op V) : World :=
  { w with
    survived := false
    killers := if o.unpickling then w.store.marker.toList ++ w.killers else w.killers }

end World

def use : Op V → Use
  | .flock => .acquire
  | .release _ => .release
  | .openFile .. | .fstat .. | .read .. | .write .. | .fsync .. | .close .. | .replace ..
  | .unlink .. | .listdir .. | .stat .. | .utime .. | .fsyncDir .. => .locked
  | _ => .free

/-- The store of the sessions. -/
def shared (V : Type) : Shared World (Op V) Ans Exc (Hint V) where
  use := use
  perform := World.perform
  interrupt := .keyboardInterrupt
  died := World.died
  perform_free {w h o x} hu hx := by
    cases o <;> first | (cases hx; rfl) | cases hu

/-- What a session may call. -/
inductive Call where
  | save (id : PyValue) (limit : Int) (maxAge : ℚ)
  | restore (candidateIds : PyValue)

/-- The program of a session that only restores. -/
abbrev restoring (python : Python V) (candidateIds : PyValue) : Py V Unit :=
  (fun _ => ()) <$> restore python candidateIds

/-- The program of a call; what it returns is left out. -/
def start (python : Python V) : Call → Py V Unit
  | .save id limit maxAge => save python id limit maxAge
  | .restore candidateIds => restoring python candidateIds

/-- Before the first call. -/
def idle (V : Type) (s : Store) : Sessions World (Op V) Ans Exc where
  world := ⟨s, [], [], true⟩
  holder := none
  program := fun _ => .done (.ok ())

/-! ## Steps on the store -/

/-- What an operation does to the store when a signal may strike as `strikes` says. -/
def Store.Step (strikes : Store → Op V → Prop) (s : Store) (o : Op V) (r : Except Exc (Ans o))
    (s' : Store) : Prop :=
  (∃ h, s.perform h o = some (r, s')) ∨ r = .error .keyboardInterrupt ∧
    (strikes s o ∧ s' = s ∨ strikes s' o ∧ ∃ h r₀, s.perform h o = some (r₀, s'))

/-- The signals of a run that strike the holder only where `strikes` says, and the kills that
strike it only where `kills` says. -/
def allow (strikes kills : Store → Op V → Prop) (w : World) (o : Op V) : Strike → Prop
  | .interruptBefore => strikes w.store o
  | .interruptAfter => strikes w.store o
  | .kill => kills w.store o

/-- The operation leaves the observer alone. -/
def Op.unobserved : Op V → Bool
  | .unlink _ _ .crashed => false
  | .release _ => false
  | _ => true

theorem World.perform_unobserved {w w' : World} {h : Hint V} {o : Op V} {r : Except Exc (Ans o)}
    (ho : o.unobserved = true) (hx : w.perform h o = some (r, w')) :
    ∃ s, w.store.perform h o = some (r, s) ∧ w' = { w with store := s } := by
  have hx : (w.store.perform h o).map (fun x => (x.1, { w with store := x.2 })) = some (r, w') := by
    cases o with
    | unlink d name why => cases why <;> first | exact hx | cases ho
    | release b => cases ho
    | _ => exact hx
  obtain ⟨⟨r', s⟩, hs, hx⟩ := Option.map_eq_some_iff.mp hx
  cases hx
  exact ⟨s, hs, rfl⟩

/-- An unobserved operation changes the store alone. -/
theorem step_unobserved {strikes kills : Store → Op V → Prop} {w w' : World} {o : Op V}
    {r : Except Exc (Ans o)} (ho : o.unobserved = true)
    (hs : Sessions.Step (shared V) (allow strikes kills) w o r w') :
    w.store.Step strikes o r w'.store ∧ w' = { w with store := w'.store } := by
  rcases hs with ⟨h, hx⟩ | ⟨rfl, ⟨ha, rfl⟩ | ⟨ha, h, r₀, hx⟩⟩
  · obtain ⟨s, hs, rfl⟩ := World.perform_unobserved ho hx
    exact ⟨.inl ⟨h, hs⟩, rfl⟩
  · exact ⟨.inr ⟨rfl, .inl ⟨ha, rfl⟩⟩, rfl⟩
  · obtain ⟨s, hs, rfl⟩ := World.perform_unobserved ho hx
    exact ⟨.inr ⟨rfl, .inr ⟨ha, h, r₀, hs⟩⟩, rfl⟩

/-! ## The lock -/

section Lock

variable {strikes kills : Store → Op V → Prop} {K J : World → Prop} {w : World}

/-- Where the holder may give the lock back. -/
def Ended (strikes kills : Store → Op V → Prop) (K J : World → Prop) (w : World) : Prop :=
  (∀ b, Sessions.Pre (shared V) (allow strikes kills) K J (.release b) w) ∧
    J { w with survived := true }

/-- `p` starts in the world `w` with the lock, and ends where it may be given back. -/
abbrev SafeLocked (strikes kills : Store → Op V → Prop) (K J : World → Prop) (p : Py V α)
    (Q : Except Exc α → World → Prop) (w : World) : Prop :=
  p.Safe (Sessions.PreLocked (shared V) (allow strikes kills) K J)
    (Sessions.Step (shared V) (allow strikes kills)) Q w

/-- **A program on the store alone runs beside the observer.** -/
theorem safe_store {p : Py V α} {P : Op V → Prop} {pre : Op V → Store → Prop}
    {Q : Except Exc α → World → Prop} (hP : ∀ o, P o → o.unobserved = true)
    (hpre : ∀ s o, P o → pre o s → Sessions.PreLocked (shared V) (allow strikes kills) K J o
      { w with store := s })
    (hp : p.AllOps P)
    (h : p.Safe pre (Store.Step strikes) (fun r s => Q r { w with store := s }) w.store) :
    SafeLocked strikes kills K J p Q w := by
  have hstep : ∀ (w₁ : World) (o : Op V) r (w₂ : World), w₁ = { w with store := w₁.store } → P o →
      Sessions.Step (shared V) (allow strikes kills) w₁ o r w₂ →
      w₁.store.Step strikes o r w₂.store ∧ w₂ = { w with store := w₂.store } := by
    rintro w₁ o r w₂ h₁ ho hs
    obtain ⟨h, h₂⟩ := step_unobserved (hP o ho) hs
    refine ⟨h, ?_⟩
    rw [h₂, h₁]
  refine Prog.Safe.lift hstep ?_ hp rfl (h.mono ?_)
  · rintro w₁ o h₁ ho hs
    rw [h₁]
    exact hpre _ o ho hs
  · rintro r s hq w₁ rfl h₁
    rw [h₁]
    exact hq

/-- The lock is given back, whatever the body ended with. -/
theorem keeps_closeStore {f : Except Exc α → Py V Unit} (hw : Ended strikes kills K J w)
    (hf : ∀ r, Sessions.Keeps (shared V) (allow strikes kills) K J (f r) .outside)
    (r : Except Exc α) :
    Sessions.Keeps (shared V) (allow strikes kills) K J ((closeStore r).andThen f) (.inside w) := by
  refine Sessions.keeps_release rfl (hw.1 _) ?_ ?_
  · rintro h e w' hx
    cases hx
    exact hw.2
  · rintro (e | a)
    · exact hf _
    · exact hf _

theorem keeps_closeStore_outside {f : Except Exc α → Py V Unit}
    (hf : ∀ r, Sessions.Keeps (shared V) (allow strikes kills) K J (f r) .outside)
    (r : Except Exc α) :
    Sessions.Keeps (shared V) (allow strikes kills) K J ((closeStore r).andThen f) .outside := by
  refine Sessions.keeps_free (.inr rfl) ?_
  rintro (e | a)
  · exact hf _
  · exact hf _

/-- **A body that is safe under the lock keeps the invariant.** -/
theorem keeps_withStore {body : Py V α} {f : Except Exc α → Py V Unit}
    (hstrike : ∀ w, J w → strikes w.store .flock → Ended strikes kills K J w)
    (hbody : ∀ w, J w → SafeLocked strikes kills K J (opened body)
      (fun _ w => Ended strikes kills K J w) w)
    (hf : ∀ r, Sessions.Keeps (shared V) (allow strikes kills) K J (f r) .outside) :
    Sessions.Keeps (shared V) (allow strikes kills) K J ((withStore body).andThen f) .outside := by
  have hout := fun r => keeps_closeStore_outside (r := r) hf
  rw [withStore, Prog.bind_eq, Prog.andThen_assoc]
  refine Sessions.keeps_free (.inl rfl) ?_
  rintro (e | g)
  · exact hf _
  change Sessions.Keeps _ _ _ _ (Prog.andThen (if _ then _ else _) f) .outside
  split
  · exact hf _
  rw [Prog.andThen_assoc]
  -- up to the lock
  refine Sessions.keeps_free (.inl rfl) ?_
  rintro (e | _)
  · exact hout _
  refine Sessions.keeps_free (.inl rfl) ?_
  rintro (e | _)
  · exact hout _
  refine Sessions.keeps_acquire rfl (fun e => hout _) ?_
  rintro w h _ w' hw hx
  cases hx
  refine ⟨?_, fun hs => keeps_closeStore (hstrike _ hw hs) hf _⟩
  exact Sessions.keeps_andThen_safe ((hbody _ hw).mono fun r w he => keeps_closeStore he hf r)

end Lock

/-! ## A store of one checkpoint -/

/-- The digest of the pickle of the number one. -/
def oneDigest : Digest :=
  ⟨py "bbe30a25430db256afe286f22962e23ca32ea9d0f650e5d3063bb8dd41b67500", by decide +kernel⟩

def onePickle : Bytes := [128, 5, 75, 1, 46]

def firstId : Uuid := ⟨py "00000000-0000-4000-8000-000000000001", by decide +kernel⟩

/-- The manifest of a namespace in which `x` is one. -/
def oneManifest : PyValue :=
  .obj [entry "version" (.num (.int 2)), entry "cell" (.num (.int 1)),
    entry "saved" (.arr [.obj [entry "name" (.str (py "x")), entry "kind" (.str (py "value")),
      entry "blob" (.str oneDigest.val), entry "bytes" (.num (.int 5))]]),
    entry "skipped" (.obj []), entry "bytes" (.num (.int 5)),
    entry "duration" (.num (.int 0))]

/-- Its text. -/
def oneText : Bytes :=
  (py "\x7b\"version\":2,\"cell\":1,\"saved\":[\x7b\"name\":\"x\",\"kind\":\"value\",\"blob\":\"" ++
    oneDigest.val ++ py "\",\"bytes\":5\x7d],\"skipped\":\x7b\x7d,\"bytes\":5,\"duration\":0\x7d").map
      fun c => UInt8.ofNat c.val

def secondId : Uuid := ⟨py "00000000-0000-4000-8000-000000000002", by decide +kernel⟩

/-- The manifest of an empty namespace. -/
def emptyManifest : PyValue :=
  .obj [entry "version" (.num (.int 2)), entry "cell" (.num (.int 0)), entry "saved" (.arr []),
    entry "skipped" (.obj []), entry "bytes" (.num (.int 0)), entry "duration" (.num (.int 0))]

/-- Its text. -/
def emptyText : Bytes :=
  (py "\x7b\"version\":2,\"cell\":0,\"saved\":[],\"skipped\":\x7b\x7d,\"bytes\":0,\"duration\":0\x7d").map
    fun c => UInt8.ofNat c.val

/-- Python on these files, in a kernel that saves an empty namespace. -/
def onePython : Python Unit where
  isModule _ := false
  sha256 _ := oneDigest
  jsonLoads data :=
    if data = oneText then .ok oneManifest
    else if data = emptyText then .ok emptyManifest
    else .error invalidManifest
  jsonDumps _ := emptyText

def oneStore : Store where
  root := .empty
  blobs := Dict.empty.set oneDigest.val (.file ⟨onePickle, 0, true⟩)
  manifests := Dict.empty.set (manifestName firstId) (.file ⟨oneText, 0, true⟩)

/-- Answers of a kernel with an empty namespace. -/
def oneHint : Hint Unit where
  answer
    | .globals => .ok ⟨[], [], 1, true, none, false, .checkpoint .null⟩
    | .items => .ok []
    | .loads _ => .ok ()
    | .openRoot => .ok ()
    | .openLock => .ok ()
    | .setHeld _ => .ok ()
    | .bind _ _ => .ok ()
    | .pop _ => .ok ()
    | _ => .error .keyboardInterrupt
  now := 1

/-- Answers while the namespace is saved beside the checkpoint. -/
def saveHint : Hint Unit where
  answer
    | .globals => .ok ⟨[], [], 1, true, none, false, .checkpoint .null⟩
    | .items => .ok []
    | .openRoot => .ok ()
    | .openLock => .ok ()
    | .setHeld _ => .ok ()
    | .monotonic => .ok (0 : ℚ)
    | .time => .ok (2 : ℚ)
    | .uuid4 => .ok ⟨List.replicate 32 (chr '0'), by decide +kernel⟩
    | .listdir .manifests => .ok [manifestName firstId, manifestName secondId]
    | .listdir .blobs => .ok [oneDigest.val]
    | _ => .error .keyboardInterrupt
  now := 2

end PiIpython.Checkpoint
