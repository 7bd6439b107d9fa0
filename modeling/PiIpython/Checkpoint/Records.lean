import PiIpython.Checkpoint.Saving
import PiIpython.Checkpoint.Reread

/-!
# What a checkpoint records

What a pickle or the name of a module stands for is left to a `Codec`. A save
that ends well leaves a manifest that records the namespace: each name that it
keeps is in one entry, with a blob or a module that stands for its value, or it
was skipped (`save_records`).
-/

namespace PiIpython.Checkpoint

open Text Prog
open Bridge (PyValue)

variable {V α : Type}

/-- What stands for a value: its pickle, or its name when it is a module. -/
structure Codec (V : Type) where
  pickles : Bytes → V → Prop
  names : PyStr → V → Prop

/-- The kernel answers a save of the namespace `ns`, of which it keeps the names `keeps`. -/
structure Serves (codec : Codec V) (keeps : PyStr → Bool) (ns : Dict PyStr V) (h : Hint V) :
    Prop where
  globals : ∀ g, h.answer .globals = .ok g →
    g.directory = true ∧ ∀ name, eligible g name = keeps name
  items : ∀ l, h.answer .items = .ok l → l = ns.entries
  dump : ∀ v ps, h.answer (.dump v) = .ok (ps, none) → codec.pickles ps.flatten v
  moduleName : ∀ v m, h.answer (.moduleName v) = .ok (some (.str m)) → codec.names (joined m) v

/-- No two pickles have one digest, and no private blob of the store has that of another one. -/
structure Undisputed (python : Python V) (codec : Codec V) (s : Store) : Prop where
  pickles : ∀ data data' v v', codec.pickles data v → codec.pickles data' v' →
    python.sha256 data = python.sha256 data' → data = data'
  blobs : ∀ data v f, codec.pickles data v →
    s.node? .blobs (python.sha256 data).val = some (.file f) → f.owned = true → f.data = data

/-- The target of an entry stands for the value. -/
def Target.Holds (codec : Codec V) (s : Store) (v : V) : Target → Prop
  | .module name => codec.names name v
  | .blob d => ∃ f, s.readable .blobs d.val valueLimit = some f ∧ codec.pickles f.data v

/-- **The manifest records the namespace `ns`** in the store. -/
structure Records (codec : Codec V) (keeps : PyStr → Bool) (ns : Dict PyStr V) (m : Manifest)
    (s : Store) : Prop where
  nodup : (m.entries.map (·.name)).Nodup
  holds : ∀ e ∈ m.entries, ∃ v, ns.get? e.name = some v ∧ keeps e.name = true ∧
    e.name ∉ m.skipped.keys ∧ e.target.Holds codec s v
  all : ∀ name ∈ ns.keys, keeps name = true →
    name ∈ m.entries.map (·.name) ∨ name ∈ m.skipped.keys

/-! ## Blobs -/

/-- The writer takes all that the pickler writes, or the value is not saved. -/
theorem limitedWrite_eq_ok {limit : Nat} {message : PyStr} {e : Option Exc} {ps : List Bytes}
    {buffer data : Bytes} (hb : buffer.length ≤ limit)
    (h : limitedWrite limit message e ps buffer = .ok data) :
    e = none ∧ data = buffer ++ ps.flatten ∧ data.length ≤ limit := by
  induction ps generalizing buffer with
  | nil =>
    cases e with
    | none =>
      cases h
      exact ⟨rfl, by rw [List.flatten_nil, List.append_nil], hb⟩
    | some e => cases h
  | cons p ps ih =>
    rw [limitedWrite] at h
    split at h
    · cases h
    · next hle =>
      have := ih (by rw [List.length_append]; omega) h
      rwa [List.append_assoc, ← List.flatten_cons] at this

/-- The store `s'` after a blob of `data` was kept, or not. -/
structure KeptBlob (d : Digest) (data : Bytes) (s s' : Store) : Prop where
  other : ∀ dir name, (dir ≠ .blobs ∨ name ≠ d.val) → ¬ (dir = .blobs ∧ IsTemporary name) →
    s'.node? dir name = s.node? dir name
  blob : s'.node? .blobs d.val = s.node? .blobs d.val ∨
    s.node? .blobs d.val = none ∧ Holds (s'.node? .blobs d.val) data

theorem KeptBlob.refl {d : Digest} {data : Bytes} {s : Store} : KeptBlob d data s s :=
  ⟨fun _ _ _ _ => rfl, .inl rfl⟩

theorem Writing.keptBlob {d : Digest} {data : Bytes} {s s' : Store}
    (h : Writing .blobs d.val data s s') (hn : s.node? .blobs d.val = none) :
    KeptBlob d data s s' where
  other dir name hne ht := by
    rcases h dir name with h | ⟨rfl, h | ⟨rfl, -⟩⟩
    · exact h
    · exact absurd ⟨rfl, h⟩ ht
    · exact hne.elim (absurd rfl) (absurd rfl)
  blob := by
    rcases h .blobs d.val with h | ⟨-, h | ⟨-, h⟩⟩
    · exact .inl h
    · exact absurd rfl (h.ne_digest d)
    · exact .inr ⟨hn, h⟩

section Blob

variable {python : Python V} {codec : Codec V} {c : Disk V} {s s' : Store} {d : Digest}
  {data : Bytes} {v : V}

/-- **The blob of a pickle** is there when the code goes on, and no other has changed. -/
theorem safe_keepBlob_data (d : Digest) (data : Bytes) :
    (keepBlob d data : Py V Unit).Safe (fun _ _ => True) c.Step
      (fun r s' => KeptBlob d data s s' ∧ (r = .ok () → s'.HasBlob d)) s := by
  have hname : ¬ IsTemporary d.val := fun h => h.ne_digest d rfl
  refine safe_attempt.mpr (safe_bind.mpr ⟨trivial, ?_⟩)
  rintro r s₁ hs
  obtain ⟨h, -, hx⟩ := hs.done fun id h => by cases h.1
  obtain ⟨rfl, rfl⟩ := Prod.ext_iff.mp (Option.some.inj hx)
  obtain ⟨hsame, hopen⟩ := openFile_read s h.now .blobs d.val
  rw [hsame]
  rcases hopen with ⟨f, hf, ho, hok⟩ | ⟨-, e, he, hR⟩
  · rw [hok]
    refine ⟨trivial, ?_⟩
    rintro r s₂ hs
    obtain ⟨rfl, rfl⟩ := hs.unchanged (a := ()) (fun _ h => h) fun _ => rfl
    exact ⟨.refl, fun _ => ⟨f, hf, ho⟩⟩
  · rw [he]
    change Prog.Safe _ _ (if e.kind = .fileNotFound then _ else _) _ s
    split
    · next hk =>
      refine ((safe_atomicWrite hname).weaken fun _ _ _ => trivial).mono ?_
      rintro r s' hw
      refine ⟨hw.writing.keptBlob (hR.notFound.mp hk), fun hr => ?_⟩
      obtain ⟨t, ht⟩ := hw.holds hr
      exact ⟨_, ht, rfl⟩
    · exact ⟨.refl, nofun⟩

theorem KeptBlob.undisputed (h : KeptBlob (python.sha256 data) data s s')
    (hu : Undisputed python codec s) (hv : codec.pickles data v) :
    Undisputed python codec s' where
  pickles := hu.pickles
  blobs data' v' f hv' hf ho := by
    by_cases hd : python.sha256 data' = python.sha256 data
    · have hsame := hu.pickles data' data v' v hv' hv hd
      rw [hd] at hf
      rcases h.blob with hb | ⟨-, t, ht⟩
      · refine hu.blobs data' v' f hv' ?_ ho
        rw [hd, ← hb, hf]
      · rw [ht] at hf
        cases hf
        exact hsame.symm
    · refine hu.blobs data' v' f hv' ?_ ho
      rw [← h.other .blobs _ (.inr fun he => hd (Subtype.ext he))
        fun ht => ht.2.ne_digest _ rfl, hf]

/-- What stood for a value still does. -/
theorem KeptBlob.holds (h : KeptBlob d data s s') {t : Target} (ht : t.Holds codec s v) :
    t.Holds codec s' v := by
  cases t with
  | module name => exact ht
  | blob d' =>
    obtain ⟨f, hf, hv⟩ := ht
    obtain ⟨hnode, hlimit⟩ := Store.readable_eq_some.mp hf
    refine ⟨f, Store.readable_eq_some.mpr ⟨?_, hlimit⟩, hv⟩
    by_cases hd : d' = d
    · subst hd
      rcases h.blob with hb | ⟨hn, -⟩
      · rw [hb, hnode]
      · rw [hnode] at hn
        cases hn
    · rw [h.other .blobs _ (.inr fun he => hd (Subtype.ext he))
        fun ht => ht.2.ne_digest _ rfl, hnode]

/-- The blob of a pickle holds it. -/
theorem Undisputed.holds (hu : Undisputed python codec s) (hv : codec.pickles data v)
    (hlimit : data.length ≤ valueLimit) (hb : s.HasBlob (python.sha256 data)) :
    (Target.blob (python.sha256 data)).Holds codec s v := by
  obtain ⟨f, hf, ho⟩ := hb
  have hdata := hu.blobs data v f hv hf ho
  exact ⟨f, Store.readable_eq_some.mpr ⟨hf, ho, by rwa [hdata]⟩, by rwa [hdata]⟩

end Blob

/-! ## The values -/

def SavedItem.name : SavedItem → PyStr
  | .module name _ => name
  | .value name _ _ => name

/-- What is saved of a value stands for it. -/
def SavedItem.Holds (codec : Codec V) (s : Store) (v : V) : SavedItem → Prop
  | .module _ name => ∀ m, name = some (.str m) → codec.names (joined m) v
  | .value _ d _ => (Target.blob d).Holds codec s v

/-- **The invariant of the loop of `save`**, after the rounds of `past`. -/
structure Recording (python : Python V) (codec : Codec V) (keeps : PyStr → Bool)
    (past : List (PyStr × V)) (acc : Saving) (s : Store) : Prop where
  undisputed : Undisputed python codec s
  nodup : (acc.saved.map (·.name)).Nodup
  apart : ∀ name ∈ acc.saved.map (·.name), name ∉ acc.skipped.keys
  saved : ∀ item ∈ acc.saved, ∃ v, (item.name, v) ∈ past ∧ keeps item.name = true ∧
    item.Holds codec s v
  skipped : ∀ name ∈ acc.skipped.keys, name ∈ past.map (·.1)
  all : ∀ name ∈ past.map (·.1), keeps name = true →
    name ∈ acc.saved.map (·.name) ∨ name ∈ acc.skipped.keys

section Save

variable {python : Python V} {codec : Codec V} {keeps : PyStr → Bool} {ns : Dict PyStr V}
  {c : Disk V} {s s' : Store} {past : List (PyStr × V)} {acc : Saving} {name : PyStr} {v : V}

theorem SavedItem.Holds.kept {d : Digest} {data : Bytes} {item : SavedItem}
    (h : item.Holds codec s v) (hk : KeptBlob d data s s') : item.Holds codec s' v := by
  cases item with
  | module => exact h
  | value _ d _ => exact hk.holds (t := .blob d) h

/-- The blob of a value is kept before the value is recorded. -/
theorem Recording.kept {data : Bytes} (h : Recording python codec keeps past acc s)
    (hv : codec.pickles data v) (hk : KeptBlob (python.sha256 data) data s s') :
    Recording python codec keeps past acc s' where
  undisputed := hk.undisputed h.undisputed hv
  nodup := h.nodup
  apart := h.apart
  saved item hi := by
    obtain ⟨v, hm, hkeep, hh⟩ := h.saved item hi
    exact ⟨v, hm, hkeep, hh.kept hk⟩
  skipped := h.skipped
  all := h.all

/-- A name that is not kept. -/
theorem Recording.pass (h : Recording python codec keeps past acc s) (hk : keeps name = false) :
    Recording python codec keeps (past ++ [(name, v)]) acc s where
  undisputed := h.undisputed
  nodup := h.nodup
  apart := h.apart
  saved item hi := by
    obtain ⟨v, hm, hh⟩ := h.saved item hi
    exact ⟨v, List.mem_append_left _ hm, hh⟩
  skipped n hn := by
    rw [List.map_append]
    exact List.mem_append_left _ (h.skipped n hn)
  all n hn hkeep := by
    rw [List.map_append, List.mem_append, List.map_singleton, List.mem_singleton] at hn
    rcases hn with hn | rfl
    · exact h.all n hn hkeep
    · rw [hk] at hkeep
      cases hkeep

/-- A value that is skipped. -/
theorem Recording.skip (h : Recording python codec keeps past acc s)
    (hnew : name ∉ past.map (·.1)) (reason : PyStr) :
    Recording python codec keeps (past ++ [(name, v)])
      { acc with skipped := acc.skipped.set name reason } s where
  undisputed := h.undisputed
  nodup := h.nodup
  apart n hn hs := by
    rcases Dict.mem_keys_set.mp hs with rfl | hs
    · obtain ⟨item, hi, rfl⟩ := List.mem_map.mp hn
      obtain ⟨v, hm, -⟩ := h.saved item hi
      exact hnew (List.mem_map_of_mem (f := (·.1)) hm)
    · exact h.apart n hn hs
  saved item hi := by
    obtain ⟨v, hm, hh⟩ := h.saved item hi
    exact ⟨v, List.mem_append_left _ hm, hh⟩
  skipped n hn := by
    rw [List.map_append, List.mem_append, List.map_singleton, List.mem_singleton]
    exact (Dict.mem_keys_set.mp hn).symm.imp_left (h.skipped n)
  all n hn hkeep := by
    rw [List.map_append, List.mem_append, List.map_singleton, List.mem_singleton] at hn
    rcases hn with hn | rfl
    · exact (h.all n hn hkeep).imp_right fun hs => Dict.mem_keys_set.mpr (.inr hs)
    · exact .inr (Dict.mem_keys_set.mpr (.inl rfl))

/-- A value that is saved. -/
theorem Recording.save (h : Recording python codec keeps past acc s) {item : SavedItem}
    (hh : item.Holds codec s v) (hnew : item.name ∉ past.map (·.1))
    (hkeep : keeps item.name = true) (total : Nat) :
    Recording python codec keeps (past ++ [(item.name, v)])
      { acc with saved := acc.saved ++ [item], total := total } s := by
  have hfresh : item.name ∉ acc.saved.map (·.name) := by
    intro hm
    obtain ⟨item', hi, he⟩ := List.mem_map.mp hm
    obtain ⟨v, hm, -⟩ := h.saved item' hi
    rw [he] at hm
    exact hnew (List.mem_map_of_mem (f := (·.1)) hm)
  refine ⟨h.undisputed, ?_, ?_, ?_, ?_, ?_⟩
  · dsimp only
    rw [List.map_append, List.map_singleton, ← List.concat_eq_append]
    exact List.nodup_concat _ _ |>.mpr ⟨hfresh, h.nodup⟩
  · intro n hn hs
    dsimp only at hn
    rw [List.map_append, List.mem_append, List.map_singleton, List.mem_singleton] at hn
    rcases hn with hn | rfl
    · exact h.apart n hn hs
    · exact hnew (h.skipped _ hs)
  · intro item' hi
    rcases List.mem_append.mp hi with hi | hi
    · obtain ⟨v, hm, hh⟩ := h.saved item' hi
      exact ⟨v, List.mem_append_left _ hm, hh⟩
    · cases List.mem_singleton.mp hi
      exact ⟨v, List.mem_append_right _ (List.mem_singleton_self _), hkeep, hh⟩
  · intro n hn
    rw [List.map_append]
    exact List.mem_append_left _ (h.skipped n hn)
  · intro n hn hkeep
    dsimp only
    rw [List.map_append, List.mem_append, List.map_singleton, List.mem_singleton] at hn
    rw [List.map_append, List.mem_append, List.map_singleton, List.mem_singleton]
    rcases hn with hn | rfl
    · exact (h.all n hn hkeep).imp_left .inl
    · exact .inl (.inr rfl)

/-- What a round of the loop leaves. -/
def Recorded (python : Python V) (codec : Codec V) (keeps : PyStr → Bool)
    (past : List (PyStr × V)) (acc : Saving) (item : PyStr × V) (r : Except Exc Saving)
    (s : Store) : Prop :=
  match r with
  | .ok acc' => Recording python codec keeps (past ++ [item]) acc' s
  | .error _ => Recording python codec keeps past acc s

/-- A program on the kernel, and its answer. -/
theorem safe_answer {o : Op V} {f : Ans o → Py V α} {Q : Except Exc α → Store → Prop}
    (ho : o.kernel = true)
    (hf : ∀ h a, c.hint h → h.answer o = .ok a → (f a).Safe (fun _ _ => True) c.Step Q s)
    (he : ∀ e, Q (.error e) s) :
    (Prog.perform o >>= f).Safe (fun _ _ => True) c.Step Q s := by
  refine safe_bind.mpr ⟨trivial, ?_⟩
  rintro r s' hs
  obtain ⟨rfl, h, hc, rfl⟩ := hs.kernel ho
  cases ha : h.answer o with
  | error e => exact he e
  | ok a => exact hf h a hc ha

theorem safe_saveValue_records (hserves : ∀ h, c.hint h → Serves codec keeps ns h)
    (h : Recording python codec keeps past acc s) (hnew : name ∉ past.map (·.1))
    (hkeep : keeps name = true) (v : V) :
    (saveValue python acc name v).Safe (fun _ _ => True) c.Step
      (Recorded python codec keeps past acc (name, v)) s := by
  unfold saveValue
  split
  · refine safe_answer rfl (fun x m hc hm => ?_) fun _ => h
    have hh : (SavedItem.module name m).Holds codec s v := by
      rintro m' rfl
      exact (hserves x hc).moduleName v m' hm
    exact h.save hh hnew hkeep _
  refine safe_kernel_then (allOps_estimate v) (fun _ => trivial) (fun size => ?_) fun _ => h
  split
  · exact h
  refine safe_answer rfl (fun x ans hc hans => ?_) fun _ => h
  obtain ⟨ps, e⟩ := ans
  refine safe_bind.mpr (safe_done.mpr ?_)
  cases hw : limitedWrite valueLimit (py "value exceeds 64 MB") e ps [] with
  | error e => exact h
  | ok data =>
  obtain ⟨rfl, hdata, hlimit⟩ := limitedWrite_eq_ok (Nat.zero_le _) hw
  obtain rfl : data = ps.flatten := hdata
  have hv := (hserves x hc).dump v ps hans
  dsimp only
  split
  · exact h
  refine safe_bind.mpr ((safe_keepBlob_data _ _).mono ?_)
  rintro (e | _) s' ⟨hk, hd⟩
  · exact h.kept hv hk
  · have h' := h.kept hv hk
    have hh : (SavedItem.value name (python.sha256 ps.flatten) ps.flatten.length).Holds codec s'
        v := h'.undisputed.holds hv hlimit (hd rfl)
    exact h'.save hh hnew hkeep _

/-- **A round of the loop** records the value, or skips it. -/
theorem safe_saveName_records (hserves : ∀ h, c.hint h → Serves codec keeps ns h)
    {item : PyStr × V} (h : Recording python codec keeps past acc s)
    (hnew : item.1 ∉ past.map (·.1)) :
    (saveName python acc item).Safe (fun _ _ => True) c.Step (fun r s' => ∀ acc', r = .ok acc' →
      Recording python codec keeps (past ++ [item]) acc' s') s := by
  refine safe_answer rfl (fun x g hc hg => ?_) fun _ => nofun
  have helig := ((hserves x hc).globals g hg).2 item.1
  rw [helig]
  cases hkeep : keeps item.1 with
  | false =>
    intro acc' ha
    cases ha
    exact h.pass hkeep
  | true =>
    refine safe_attempt.mpr ((safe_saveValue_records hserves h hnew hkeep item.2).mono ?_)
    rintro (e | acc₁) s' h'
    · change Prog.Safe _ _ (if e.isException then _ else _) _ s'
      split
      · intro acc' ha
        cases ha
        exact Recording.skip h' hnew _
      · exact nofun
    · intro acc' ha
      cases ha
      exact h'

/-- **The loop of `save`** records the namespace. -/
theorem safe_saveNames_records (hserves : ∀ h, c.hint h → Serves codec keeps ns h)
    (hu : Undisputed python codec s) :
    (ns.entries.foldlM (saveName python) ⟨[], .empty, 0⟩).Safe (fun _ _ => True) c.Step
      (fun r s' => ∀ acc, r = .ok acc → Recording python codec keeps ns.entries acc s') s := by
  refine safe_foldlM (fun rest acc s => ∃ past, ns.entries = past ++ rest ∧
    Recording python codec keeps past acc s) ?_ ?_ ?_
  · rintro item rest acc s₁ ⟨past, hpast, h⟩
    have hnew : item.1 ∉ past.map (·.1) := by
      have hd := ns.nodup
      rw [hpast, List.map_append, List.map_cons, List.nodup_append] at hd
      exact fun hm => hd.2.2 _ hm _ List.mem_cons_self rfl
    refine (safe_saveName_records hserves h hnew).mono ?_
    rintro (e | acc') s₂ h'
    · exact nofun
    · exact ⟨past ++ [item], by rw [hpast, List.append_assoc]; rfl, h' acc' rfl⟩
  · rintro acc s₁ ⟨past, hpast, h⟩ acc' ha
    cases ha
    rw [List.append_nil] at hpast
    rw [hpast]
    exact h
  · exact ⟨[], rfl, hu, List.nodup_nil, List.forall_mem_nil _, List.forall_mem_nil _,
      List.forall_mem_nil _, List.forall_mem_nil _⟩

/-! ## The manifest -/

theorem SavedItem.name_entry {item : SavedItem} {e : Entry} (h : item.entry? = some e) :
    e.name = joined item.name := by
  cases item with
  | value => cases h; rfl
  | module name m =>
    obtain _ | m := m
    · cases h
    · cases m <;> cases h
      rfl

theorem SavedItem.Holds.entry {item : SavedItem} {e : Entry} (h : item.Holds codec s v)
    (he : item.entry? = some e) : e.target.Holds codec s v := by
  cases item with
  | value name d bytes =>
    cases he
    exact h
  | module name m =>
    obtain _ | m := m
    · cases he
    · cases m <;> cases he
      exact h _ rfl

/-- The entries are those of what was saved, in its order. -/
theorem entries_of_saved {items : List SavedItem} {es : List Entry}
    (h : items.mapM SavedItem.entry? = some es) :
    List.Forall₂ (fun item e => item.entry? = some e) items es := by
  induction items generalizing es with
  | nil =>
    cases h
    exact .nil
  | cons item items ih =>
    rw [List.mapM_cons] at h
    obtain ⟨e, he, h⟩ := Option.bind_eq_some_iff.mp h
    obtain ⟨es', hes, heq⟩ := Option.bind_eq_some_iff.mp h
    cases heq
    exact .cons he (ih hes)

theorem exists_saved {items : List SavedItem} {es : List Entry} {e : Entry}
    (h : List.Forall₂ (fun item e => item.entry? = some e) items es) (he : e ∈ es) :
    ∃ item ∈ items, item.entry? = some e := by
  induction h with
  | nil => cases he
  | cons hitem _ ih =>
    rcases List.mem_cons.mp he with rfl | he
    · exact ⟨_, List.mem_cons_self, hitem⟩
    · obtain ⟨item, hi, h⟩ := ih he
      exact ⟨item, List.mem_cons_of_mem _ hi, h⟩

theorem names_of_saved {items : List SavedItem} {es : List Entry}
    (h : List.Forall₂ (fun item e => item.entry? = some e) items es) :
    es.map (·.name) = items.map fun item => joined item.name := by
  induction h with
  | nil => rfl
  | cons he _ ih => rw [List.map_cons, List.map_cons, ih, SavedItem.name_entry he]

/-- The names that were skipped are read back as they are joined. -/
theorem mem_keys_reread {name : PyStr} :
    name ∈ acc.reread.keys ↔ ∃ n ∈ acc.skipped.keys, joined n = name := by
  have hfold : ∀ (l : List (PyStr × PyStr)) (d : Dict PyStr PyStr),
      name ∈ (l.foldl (fun d p => d.set (joined p.1) (joined p.2)) d).keys ↔
        name ∈ d.keys ∨ ∃ n ∈ l.map (·.1), joined n = name := by
    intro l
    induction l with
    | nil => simp
    | cons p l ih =>
      intro d
      rw [List.foldl_cons, ih, Dict.mem_keys_set]
      simp only [List.map_cons, List.mem_cons, exists_eq_or_imp, @eq_comm _ (joined p.1)]
      tauto
  unfold Saving.reread
  rw [hfold]
  exact or_iff_right List.not_mem_nil

/-- **What the loop has recorded** is what the manifest says. -/
theorem Recording.records (h : Recording python codec keeps ns.entries acc s)
    (hj : ∀ name ∈ ns.keys, joined name = name) {es : List Entry}
    (hes : acc.saved.mapM SavedItem.entry? = some es) (cell : PyValue) (size : Nat) (mtime : ℚ) :
    Records codec keeps ns ⟨cell, es, acc.reread, size, mtime⟩ s := by
  have hsaved : ∀ item ∈ acc.saved, joined item.name = item.name := by
    intro item hi
    obtain ⟨v, hm, -⟩ := h.saved item hi
    exact hj _ (Dict.mem_keys_of_mem hm)
  have hall := entries_of_saved hes
  have hnames : es.map (·.name) = acc.saved.map (·.name) :=
    (names_of_saved hall).trans (List.map_congr_left hsaved)
  have hskipped : ∀ name, name ∈ acc.reread.keys ↔ name ∈ acc.skipped.keys := by
    intro name
    rw [mem_keys_reread]
    constructor
    · rintro ⟨n, hn, rfl⟩
      rwa [hj n (h.skipped n hn)]
    · exact fun hn => ⟨name, hn, hj name (h.skipped name hn)⟩
  refine ⟨?_, fun e he => ?_, fun name hn hkeep => ?_⟩
  · rw [hnames]
    exact h.nodup
  · obtain ⟨item, hi, hentry⟩ := exists_saved hall he
    obtain ⟨v, hm, hkeep, hh⟩ := h.saved item hi
    have hname := (SavedItem.name_entry hentry).trans (hsaved item hi)
    dsimp only
    rw [hname, hskipped]
    exact ⟨v, Dict.get?_eq_some.mpr hm, hkeep, h.apart _ (List.mem_map_of_mem hi),
      hh.entry hentry⟩
  · dsimp only
    rw [hnames, hskipped]
    exact h.all name hn hkeep

/-- The blobs of the manifest are read in `s'` as they are in `s`. -/
def SameBlobs (m : Manifest) (s s' : Store) : Prop :=
  ∀ d ∈ m.blobs, ∀ f, s.readable .blobs d.val valueLimit = some f →
    ∃ f', s'.readable .blobs d.val valueLimit = some f' ∧ f'.data = f.data

theorem sameBlobs_of_node {m : Manifest}
    (h : ∀ d ∈ m.blobs, s'.node? .blobs d.val = s.node? .blobs d.val) : SameBlobs m s s' := by
  intro d hd f hf
  refine ⟨f, ?_, rfl⟩
  obtain ⟨hnode, hlimit⟩ := Store.readable_eq_some.mp hf
  exact Store.readable_eq_some.mpr ⟨(h d hd).trans hnode, hlimit⟩

/-- A record lasts as long as its blobs do. -/
theorem Records.mono {m : Manifest} (h : Records codec keeps ns m s) (hb : SameBlobs m s s') :
    Records codec keeps ns m s' where
  nodup := h.nodup
  holds e he := by
    obtain ⟨v, hv, hkeep, hskip, ht⟩ := h.holds e he
    refine ⟨v, hv, hkeep, hskip, ?_⟩
    obtain ⟨name, target⟩ := e
    cases target with
    | module m => exact ht
    | blob d =>
      obtain ⟨f, hf, hp⟩ := ht
      have hd : d ∈ m.blobs := List.mem_dedup.mpr (List.mem_filterMap.mpr ⟨_, he, rfl⟩)
      obtain ⟨f', hf', hdata⟩ := hb d hd f hf
      exact ⟨f', hf', by rwa [hdata]⟩
  all := h.all

/-- The manifest in a file that a save has written. -/
theorem Recording.records_manifest (h : Recording python codec keeps ns.entries acc s)
    (hr : Rereads python) (hj : ∀ name ∈ ns.keys, joined name = name) {cell : Int} {duration : ℚ}
    {x : PyValue} (hx : acc.manifest cell duration = .ok x) {id : Uuid} {m : Manifest}
    (hw : Holds (s'.node? .manifests (manifestName id)) (python.jsonDumps x))
    (hm : s'.manifest? python id = some m) : Records codec keeps ns m s := by
  obtain ⟨t, ht⟩ := hw
  obtain ⟨f, hf, hparse⟩ := Option.bind_eq_some_iff.mp hm
  rw [(Store.readable_eq_some.mp hf).1] at ht
  cases ht
  cases hl : python.jsonLoads (python.jsonDumps x) with
  | error e =>
    rw [hl] at hparse
    cases hparse
  | ok y =>
    obtain rfl := hr x y hl
    rw [hl] at hparse
    obtain ⟨es, hes, rfl⟩ :=
      Option.map_eq_some_iff.mp ((parseManifest_reread _ hx).symm.trans hparse)
    exact h.records hj hes _ _ _

/-- **A save under the lock** leaves a record of the namespace. -/
theorem safe_saveLocked_records (hr : Rereads python)
    (hserves : ∀ h, c.hint h → Serves codec keeps ns h) (hj : ∀ name ∈ ns.keys, joined name = name)
    (hu : Undisputed python codec s) {id : Uuid} (hf : c.fails id = false) (began : ℚ) (limit : Int)
    (maxAge : ℚ) :
    (saveLocked python id began limit maxAge).Safe (fun _ _ => True) c.Step (fun r s' =>
      r = .ok () → ∀ m, s'.manifest? python id = some m → Records codec keeps ns m s') s := by
  refine safe_answer rfl (fun x items hc hitems => ?_) fun _ => nofun
  obtain rfl := (hserves x hc).items items hitems
  refine safe_bind.mpr ((safe_saveNames_records hserves hu).mono ?_)
  rintro (e | acc) s₁ h
  · exact nofun
  have hrec := h acc rfl
  refine safe_kernel_then (allOps_perform rfl) (fun _ => trivial) (fun g => ?_) fun _ => nofun
  refine safe_kernel_then (allOps_perform rfl) (fun _ => trivial) (fun ended => ?_) fun _ => nofun
  refine safe_bind.mpr (safe_done.mpr ?_)
  cases hx : acc.manifest (max 0 (g.executionCount - 1)) (ended - began) with
  | error e => exact nofun
  | ok x =>
  refine safe_bind.mpr (((safe_atomicWrite fun ht => ht.ne_manifestName id rfl).weaken
    fun _ _ _ => trivial).mono ?_)
  rintro (e | _) s₂ hw
  · exact nofun
  refine ((safe_cleanup python c id _ _ s₂).weaken fun _ _ _ => trivial).mono ?_
  rintro (e | _) s₃ hc
  · exact nofun
  obtain ⟨names, now, hnames, -, hcol⟩ := hc
  have hcol : Collecting python c.fails id s₂ s₃ := hcol.collecting (listed_byMtime hnames)
  intro _ m hm
  -- the manifest is the one that was written, and so are its blobs
  have hsame : s₃.node? .manifests (manifestName id) = s₂.node? .manifests (manifestName id) := by
    rcases hcol.manifest (manifestName id) with hn | ⟨-, id', he, hne, -⟩
    · exact hn
    · exact absurd (manifestName_injective he).symm hne
  obtain ⟨f, hnode⟩ := Store.manifest?_node hm
  rw [Store.manifest?_congr hsame] at hm
  refine (hrec.records_manifest hr hj hx (hw.holds rfl) hm).mono
    (sameBlobs_of_node fun d hd => ?_)
  rcases hcol.blob d.val with hb | ⟨-, d', he, hgone⟩
  · rw [hb]
    rcases hw.writing .blobs d.val with hb | ⟨he, -⟩
    · exact hb
    · cases he
  · obtain rfl := Subtype.ext he
    refine absurd hd (hgone id m hf hm ?_)
    rw [hnode]
    exact nofun

/-- **A checkpoint records the namespace**, whatever the store holds and the kernel answers: when a
save returns and its manifest can be read, each name that is kept has an entry with a blob or a
module that stands for its value, or is among the names that were skipped. -/
theorem save_records (hr : Rereads python) (hserves : ∀ h, c.hint h → Serves codec keeps ns h)
    (hj : ∀ name ∈ ns.keys, joined name = name) (hu : Undisputed python codec s) {id : Uuid}
    (hf : c.fails id = false) (limit : Int) (maxAge : ℚ) :
    (save python (.str id.val) limit maxAge).Safe (fun _ _ => True) c.Step (fun r s' =>
      r = .ok () → ∀ m, s'.manifest? python id = some m → Records codec keeps ns m s') s := by
  have hid : asUuid (.str id.val) = some id := dif_pos id.2
  unfold save
  rw [hid]
  refine safe_kernel_then (allOps_perform rfl) (fun _ => trivial) (fun _ => ?_) fun _ => nofun
  refine safe_answer rfl (fun x g hc hg => ?_) fun _ => nofun
  rw [((hserves x hc).globals g hg).1]
  refine safe_kernel_then (allOps_perform rfl) (fun _ => trivial) (fun began => ?_) fun _ => nofun
  refine safe_kernel_then (allOps_perform rfl) (fun _ => trivial) (fun g => ?_) fun _ => nofun
  split
  · exact nofun
  refine safe_andThen.mpr (Safe.mono (Q := fun r s' => r = .ok () →
    ∀ m, s'.manifest? python id = some m → Records codec keeps ns m s') ?_ ?_)
  rotate_left
  · rintro r s' h
    refine ⟨trivial, ?_⟩
    rintro r' s'' hs
    obtain ⟨rfl, rfl⟩ := hs.unchanged (a := ()) (fun _ h => h) fun _ => rfl
    exact h
  refine safe_kernel_then (allOps_perform rfl) (fun _ => trivial) (fun _ => ?_) fun _ => nofun
  refine safe_kernel_then (allOps_perform rfl) (fun _ => trivial) (fun _ => ?_) fun _ => nofun
  refine safe_bind.mpr ⟨trivial, ?_⟩
  rintro r s₁ hs
  obtain ⟨rfl, rfl⟩ := hs.unchanged (a := ()) (fun _ h => h) fun _ => rfl
  refine safe_bind.mpr ⟨trivial, ?_⟩
  rintro r s₂ hs
  obtain ⟨rfl, rfl⟩ := hs.unchanged (a := ()) (fun _ h => h) fun _ => rfl
  refine safe_bind.mpr ⟨trivial, ?_⟩
  rintro r s₃ hs
  obtain ⟨rfl, rfl⟩ := hs.unchanged (a := ()) (fun _ h => h) fun _ => rfl
  exact safe_saveLocked_records hr hserves hj hu hf began limit maxAge

end Save

end PiIpython.Checkpoint
