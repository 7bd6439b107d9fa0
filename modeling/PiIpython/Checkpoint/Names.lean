import PiIpython.Checkpoint.State

/-!
# The names that reach the file system

`Op.names` is what an operation passes to the file system relative to a
directory of the store. Whatever the arguments, the files, the listings and the
other answers are, each of these names has one of the store's own forms in the
directory where the form belongs, and is a single component of a path.
-/

namespace PiIpython.Checkpoint

open Text

variable {V α : Type}

/-! ## Forms -/

/-- The names that an operation passes, with the directory they are relative to. -/
def Op.names : Op V → List (Dir × PyStr)
  | .openLock => [(.root, py "lock")]
  | .openDir name => [(.root, name)]
  | .openFile d name _ => [(d, name)]
  | .replace d source target => [(d, source), (d, target)]
  | .unlink d name _ => [(d, name)]
  | .stat d name => [(d, name)]
  | .utime d name => [(d, name)]
  | _ => []

/-- The forms of the store's own names, by directory. -/
def IsOwn : Dir → PyStr → Prop
  | .root, name => name ∈ [py "lock", loading, py "blobs", py "manifests"]
  | .blobs, name => IsTemporary name ∨ IsBlob name
  | .manifests, name => IsTemporary name ∨ ∃ id : Uuid, name = manifestName id

/-- A single component of a path: one name in its directory. -/
def IsComponent (name : PyStr) : Prop :=
  name ≠ [] ∧ name ≠ py "." ∧ name ≠ py ".." ∧ ∀ c ∈ name, c ≠ chr '/' ∧ c.val ≠ 0

/-- The operation names only files of the store. -/
def OwnNames (o : Op V) : Prop := ∀ x ∈ o.names, IsOwn x.1 x.2 ∧ IsComponent x.2

/-! ## Components -/

/-- Every character of a match meets a class of the pattern. -/
theorem mem_fullmatch {p : Pattern} {s : PyStr} (h : fullmatch p s = true) {c : CodePoint}
    (hc : c ∈ s) : ∃ f ∈ p, f c = true := by
  simp only [fullmatch, Bool.and_eq_true, decide_eq_true_eq, List.all_eq_true] at h
  obtain ⟨i, hi, rfl⟩ := List.getElem_of_mem hc
  have hp : i < p.length := by omega
  have hz : i < (p.zip s).length := by rw [List.length_zip]; omega
  refine ⟨p[i], List.getElem_mem hp, ?_⟩
  have := h.2 _ (List.getElem_mem hz)
  rwa [List.getElem_zip] at this

theorem length_fullmatch {p : Pattern} {s : PyStr} (h : fullmatch p s = true) :
    s.length = p.length := by
  simp only [fullmatch, Bool.and_eq_true, decide_eq_true_eq] at h
  exact h.1.symm

/-- A dash, a digit or a letter. -/
def IsWordChar (c : CodePoint) : Prop := c.val = 45 ∨ 48 ≤ c.val

theorem isWordChar_hex {c : CodePoint} (h : isHex c = true) : IsWordChar c := by
  simp only [isHex, Bool.or_eq_true, Bool.and_eq_true, decide_eq_true_eq] at h
  exact .inr (by omega)

theorem isWordChar_dash {c : CodePoint} (h : dash c = true) : IsWordChar c :=
  .inl (by rw [of_decide_eq_true h]; decide)

theorem isWordChar_uuid {s : PyStr} (h : IsUuid s) : ∀ c ∈ s, IsWordChar c := by
  intro c hc
  obtain ⟨f, hf, hfc⟩ := mem_fullmatch h hc
  simp only [uuidPattern, List.mem_append, List.mem_replicate, List.mem_singleton] at hf
  rcases hf with (((((((((⟨-, rfl⟩ | rfl) | ⟨-, rfl⟩) | rfl) | rfl) | ⟨-, rfl⟩) | rfl) | rfl) |
    ⟨-, rfl⟩) | rfl) | ⟨-, rfl⟩
  · exact isWordChar_hex hfc
  · exact isWordChar_dash hfc
  · exact isWordChar_hex hfc
  · exact isWordChar_dash hfc
  · simp only [Bool.and_eq_true, decide_eq_true_eq] at hfc
    exact .inr (by omega)
  · exact isWordChar_hex hfc
  · exact isWordChar_dash hfc
  · simp only [Bool.or_eq_true, decide_eq_true_eq] at hfc
    rcases hfc with ((rfl | rfl) | rfl) | rfl <;> exact .inr (by decide)
  · exact isWordChar_hex hfc
  · exact isWordChar_dash hfc
  · exact isWordChar_hex hfc

theorem isWordChar_replicate {n : Nat} {s : PyStr}
    (h : fullmatch (List.replicate n isHex) s = true) : ∀ c ∈ s, IsWordChar c := by
  intro c hc
  obtain ⟨f, hf, hfc⟩ := mem_fullmatch h hc
  rw [(List.mem_replicate.mp hf).2] at hfc
  exact isWordChar_hex hfc

/-- Word characters and a few dots make a component. -/
theorem isComponent_of {s : PyStr} (hl : 2 < s.length)
    (h : ∀ c ∈ s, IsWordChar c ∨ c = chr '.') : IsComponent s := by
  refine ⟨?_, ?_, ?_, fun c hc => ⟨?_, ?_⟩⟩
  · rintro rfl
    exact absurd hl (by decide)
  · rintro rfl
    exact absurd hl (by simp [py])
  · rintro rfl
    exact absurd hl (by simp [py])
  · rintro rfl
    rcases h _ hc with (h | h) | h <;> revert h <;> decide
  · intro h0
    rcases h _ hc with (h | h) | rfl
    · omega
    · omega
    · revert h0
      decide

theorem isComponent_blob {s : PyStr} (h : IsBlob s) : IsComponent s :=
  isComponent_of (by rw [length_fullmatch h, List.length_replicate]; decide)
    fun c hc => .inl (isWordChar_replicate h c hc)

theorem isComponent_manifestName (id : Uuid) : IsComponent (manifestName id) := by
  refine isComponent_of ?_ fun c hc => ?_
  · rw [manifestName, List.length_append, length_fullmatch id.property]
    simp only [uuidPattern, List.length_append, List.length_replicate, List.length_singleton]
    omega
  · rcases List.mem_append.mp hc with hc | hc
    · exact .inl (isWordChar_uuid id.property c hc)
    · simp only [py, String.reduceToList, List.map_cons, List.map_nil, List.mem_cons,
        List.not_mem_nil, or_false] at hc
      rcases hc with rfl | rfl | rfl | rfl | rfl
      · exact .inr rfl
      all_goals exact .inl (.inr (by decide))

theorem isComponent_temporary {s : PyStr} (h : IsTemporary s) : IsComponent s := by
  obtain ⟨hex, rfl⟩ := h
  unfold temporaryName
  refine isComponent_of ?_ fun c hc => ?_
  · rw [List.length_append, length_fullmatch hex.property, List.length_replicate]
    omega
  · rcases List.mem_append.mp hc with hc | hc
    · simp only [py, String.reduceToList, List.map_cons, List.map_nil, List.mem_cons,
        List.not_mem_nil, or_false] at hc
      rcases hc with rfl | rfl | rfl | rfl | rfl
      · exact .inr rfl
      · exact .inl (.inr (by decide))
      · exact .inl (.inr (by decide))
      · exact .inl (.inr (by decide))
      · exact .inl (.inl (by decide))
    · exact .inl (isWordChar_replicate hex.property c hc)

theorem isComponent_root {s : PyStr} (h : IsOwn .root s) : IsComponent s := by
  simp only [IsOwn, loading, List.mem_cons, List.not_mem_nil, or_false] at h
  rcases h with rfl | rfl | rfl | rfl <;>
    refine isComponent_of (by simp [py]) ?_ <;>
    simp [py, IsWordChar, chr]

/-- **A name of the store's own forms is a single component.** -/
theorem isComponent_of_isOwn {d : Dir} {name : PyStr} (h : IsOwn d name) : IsComponent name := by
  cases d with
  | root => exact isComponent_root h
  | blobs => exact h.elim isComponent_temporary isComponent_blob
  | manifests =>
    rcases h with h | ⟨id, rfl⟩
    · exact isComponent_temporary h
    · exact isComponent_manifestName id

theorem isOwn_loading : IsOwn .root loading := by simp [IsOwn]

theorem isOwn_digest (d : Digest) : IsOwn .blobs d.val := .inr d.property

theorem isOwn_manifestName (id : Uuid) : IsOwn .manifests (manifestName id) := .inr ⟨id, rfl⟩

theorem ownNames_of {o : Op V} (h : ∀ x ∈ o.names, IsOwn x.1 x.2) : OwnNames o :=
  fun x hx => ⟨h x hx, isComponent_of_isOwn (h x hx)⟩

/-! ## Programs -/

open Prog

/-- The program names only files of the store, whatever it is answered. -/
abbrev Owns (p : Py V α) : Prop := p.AllOps OwnNames

theorem owns_silent {o : Op V} (h : o.names = []) : Owns (Prog.op o .done) := by
  refine ⟨ownNames_of fun x hx => ?_, fun _ => trivial⟩
  rw [h] at hx
  cases hx

theorem owns_name {o : Op V} {d : Dir} {name : PyStr} (h : o.names = [(d, name)])
    (hn : IsOwn d name) : Owns (Prog.op o .done) := by
  refine ⟨ownNames_of fun x hx => ?_, fun _ => trivial⟩
  rw [h, List.mem_singleton] at hx
  subst hx
  exact hn

theorem owns_suppress {q : Exc → Bool} {body : Py V Unit} (h : Owns body) :
    Owns (suppress q body) :=
  allOps_attempt h fun e => by split <;> trivial

theorem owns_closing {fd : Fd} {body : Py V α} (h : Owns body) : Owns (closing fd body) :=
  allOps_ensure h (owns_silent rfl)

theorem owns_readFile {d : Dir} {name : PyStr} (h : IsOwn d name) (limit : Nat) :
    Owns (readFile d name limit : Py V (Bytes × Info)) := by
  refine allOps_bind (owns_name rfl h) fun fd => ?_
  refine allOps_bind (owns_closing (allOps_bind (owns_silent rfl) fun info => ?_)) fun x => ?_
  · split
    · trivial
    · exact allOps_bind (owns_silent rfl) fun data => trivial
  · dsimp only
    split <;> trivial

theorem owns_atomicWrite {d : Dir} {name : PyStr} (hd : d ≠ .root) (h : IsOwn d name)
    (data : Bytes) : Owns (atomicWrite d name data : Py V Unit) := by
  refine allOps_bind (owns_silent rfl) fun hex => ?_
  have ht : IsOwn d (temporaryName hex) := by
    cases d with
    | root => exact absurd rfl hd
    | blobs => exact .inl ⟨hex, rfl⟩
    | manifests => exact .inl ⟨hex, rfl⟩
  refine allOps_ensure ?_ (owns_suppress (owns_name rfl ht))
  refine allOps_bind (owns_name rfl ht) fun fd => ?_
  refine allOps_bind (owns_closing (allOps_bind (owns_silent rfl) fun _ => owns_silent rfl)) fun _ => ?_
  refine allOps_bind ⟨ownNames_of fun x hx => ?_, fun _ => trivial⟩ fun _ => owns_silent rfl
  rcases List.mem_cons.mp hx with rfl | hx
  · exact ht
  · rw [List.mem_singleton] at hx
    subst hx
    exact h

theorem owns_withStore {body : Py V α} (h : Owns body) : Owns (withStore body) := by
  refine allOps_bind (owns_silent rfl) fun g => ?_
  split
  · trivial
  refine allOps_andThen ?_ fun r => allOps_andThen (owns_silent rfl) fun
    | .ok _ => trivial
    | .error _ => trivial
  refine allOps_bind (owns_silent rfl) fun _ => allOps_bind (owns_name rfl ?_) fun _ =>
    allOps_bind (owns_silent rfl) fun _ => allOps_bind (owns_name rfl ?_) fun _ =>
      allOps_bind (owns_name rfl ?_) fun _ => h
  all_goals simp [IsOwn]

variable (python : Python V)

theorem owns_readManifest (id : Uuid) : Owns (readManifest python id) :=
  allOps_bind (owns_readFile (isOwn_manifestName id) _) fun _ =>
    allOps_bind trivial fun _ => trivial

theorem owns_manifests : Owns (manifests python) := by
  refine allOps_bind (owns_silent rfl) fun names => allOps_foldlM (fun found name _ => ?_) _
  split
  · trivial
  · next id _ =>
    refine allOps_bind (allOps_attempt ?_ fun e => by split <;> trivial) fun _ => trivial
    exact allOps_bind (owns_readManifest python id) fun _ => trivial

theorem owns_blobSizes : Owns (blobSizes : Py V (Dict Digest Nat)) := by
  refine allOps_bind (owns_silent rfl) fun names => allOps_foldlM (fun sizes name _ => ?_) _
  split
  · trivial
  · next d hd =>
    have hb : IsBlob name := by
      unfold digest? at hd
      split at hd
      · next h => exact h
      · cases hd
    exact allOps_bind (allOps_attempt (owns_name (d := .blobs) rfl (.inr hb))
      fun e => by split <;> trivial) fun _ => trivial

theorem owns_evict (currentId : Uuid) (limit : Int) (maxAge now : ℚ) (sizes : Dict Digest Nat)
    (t : Tally) (m : Uuid × Manifest) :
    Owns (evict currentId limit maxAge now sizes t m : Py V Tally) := by
  unfold evict
  split
  · trivial
  split
  · trivial
  · exact allOps_bind (owns_name rfl (isOwn_manifestName m.1)) fun _ => trivial

theorem owns_forM {f : α → Py V Unit} (h : ∀ a, Owns (f a)) : ∀ l : List α, Owns (l.forM f)
  | [] => trivial
  | a :: l => allOps_bind (h a) fun _ => owns_forM h l

theorem owns_cleanup (currentId : Uuid) (limit : Int) (maxAge : ℚ) :
    Owns (cleanup python currentId limit maxAge) := by
  refine allOps_bind (owns_manifests python) fun ms => allOps_bind owns_blobSizes fun sizes =>
    allOps_bind (owns_silent rfl) fun now => ?_
  refine allOps_bind (allOps_foldlM (fun t m _ => owns_evict currentId limit maxAge now sizes t m) _)
    fun t => ?_
  refine allOps_bind (owns_forM (fun d => owns_name rfl (isOwn_digest d)) _) fun _ => ?_
  exact allOps_bind (owns_silent rfl) fun _ => owns_silent rfl

/-! ## Saving and restoring -/

theorem owns_keepBlob (d : Digest) (data : Bytes) : Owns (keepBlob d data : Py V Unit) := by
  refine allOps_attempt (allOps_bind (owns_name rfl (isOwn_digest d))
    fun fd => owns_silent rfl) fun e => ?_
  split
  · exact owns_atomicWrite (by decide) (isOwn_digest d) data
  · trivial

theorem owns_estimate (value : V) : Owns (estimate value) :=
  allOps_bind (owns_silent rfl) fun _ => allOps_bind (owns_silent rfl) fun _ =>
    allOps_bind (owns_silent rfl) fun _ => trivial

theorem owns_saveValue (acc : Saving) (name : PyStr) (value : V) :
    Owns (saveValue python acc name value) := by
  unfold saveValue
  split
  · exact allOps_bind (owns_silent rfl) fun _ => trivial
  refine allOps_bind (owns_estimate value) fun size => ?_
  split
  · trivial
  refine allOps_bind (owns_silent rfl) fun x => allOps_bind trivial fun data => ?_
  split
  · trivial
  · exact allOps_bind (owns_keepBlob _ data) fun _ => trivial

theorem owns_saveName (acc : Saving) (item : PyStr × V) : Owns (saveName python acc item) := by
  refine allOps_bind (owns_silent rfl) fun g => ?_
  split
  · trivial
  · exact allOps_attempt (owns_saveValue python acc item.1 item.2) fun e => by split <;> trivial

theorem owns_save (checkpointId : Bridge.PyValue) (limit : Int) (maxAge : ℚ) :
    Owns (save python checkpointId limit maxAge) := by
  unfold save
  split
  · trivial
  next id _ =>
  refine allOps_bind (owns_silent rfl) fun _ => allOps_bind (owns_silent rfl) fun g => ?_
  split
  · trivial
  refine allOps_bind (owns_silent rfl) fun began => owns_withStore ?_
  refine allOps_bind (owns_silent rfl) fun items =>
    allOps_bind (allOps_foldlM (fun acc item _ => owns_saveName python acc item) _) fun acc =>
      allOps_bind (owns_silent rfl) fun g => allOps_bind (owns_silent rfl) fun ended =>
        allOps_bind trivial fun manifest => ?_
  exact allOps_bind (owns_atomicWrite (by decide) (isOwn_manifestName id) _)
    fun _ => owns_cleanup python id _ _

theorem owns_clear : Owns (clear : Py V Unit) := by
  refine allOps_bind (owns_silent rfl) fun items => owns_forM (fun item => ?_) _
  refine allOps_bind (owns_silent rfl) fun g => ?_
  split
  · exact owns_silent rfl
  · trivial

theorem owns_takeCrashed : Owns (takeCrashed : Py V (Option Digest)) := by
  refine allOps_bind (allOps_attempt (allOps_bind (owns_readFile isOwn_loading 64)
    fun _ => trivial) fun e => by split <;> trivial) fun found => ?_
  split
  · trivial
  refine allOps_bind (owns_name rfl isOwn_loading) fun _ => ?_
  split
  · trivial
  · next d _ =>
    exact allOps_bind (owns_suppress (owns_name rfl (isOwn_digest d))) fun _ => trivial

theorem owns_load (d : Digest) : Owns (load d : Py V V) :=
  allOps_bind (owns_readFile (isOwn_digest d) _) fun _ =>
    allOps_bind (owns_name rfl isOwn_loading) fun _ =>
      allOps_bind (owns_closing (owns_silent rfl)) fun _ =>
        allOps_ensure (owns_silent rfl) (owns_name rfl isOwn_loading)

theorem owns_select : ∀ ids : List Uuid, Owns (select python ids)
  | [] => trivial
  | id :: ids => by
    refine allOps_bind (allOps_attempt (allOps_bind (owns_readManifest python id)
      fun _ => trivial) fun e => by split <;> trivial) fun m => ?_
    split
    · trivial
    · exact owns_select ids

theorem owns_restoreEntry (crashed : Option Digest) (acc : Restoring) (e : Entry) :
    Owns (restoreEntry crashed acc e : Py V Restoring) := by
  refine allOps_bind (owns_silent rfl) fun g => ?_
  split
  · trivial
  refine allOps_attempt (allOps_bind ?_ fun value => allOps_bind (owns_silent rfl) fun _ => trivial)
    fun x => by split <;> trivial
  unfold loadEntry
  split
  · exact owns_silent rfl
  · split
    · trivial
    · exact owns_load _

theorem owns_restore (candidateIds : Bridge.PyValue) : Owns (restore python candidateIds) := by
  unfold restore
  split
  · refine allOps_bind (owns_silent rfl) fun g => ?_
    split
    · split
      · trivial
      · exact allOps_bind (owns_silent rfl) fun _ => trivial
    split
    · trivial
    refine owns_withStore ?_
    refine allOps_bind owns_takeCrashed fun crashed => allOps_bind (owns_select python _)
      fun selected => allOps_bind (owns_silent rfl) fun _ => allOps_bind owns_clear fun _ => ?_
    split
    · exact allOps_bind (owns_silent rfl) fun _ => trivial
    · next id m =>
      refine allOps_bind (owns_name rfl (isOwn_manifestName id)) fun _ =>
        allOps_bind (allOps_foldlM (fun acc e _ => owns_restoreEntry crashed acc e) _) fun x => ?_
      exact allOps_bind (owns_silent rfl) fun _ => trivial
  · trivial

/-- **Untrusted ids never become paths.** Whatever ids `save` and `restore` are given and whatever
the files, the marker and the listings hold, the names that reach the file system are the store's
own. -/
theorem names_are_own (checkpointId candidateIds : Bridge.PyValue) (currentId : Uuid) (limit : Int)
    (maxAge : ℚ) :
    Owns (save python checkpointId limit maxAge) ∧ Owns (restore python candidateIds) ∧
      Owns (cleanup python currentId limit maxAge) :=
  ⟨owns_save python checkpointId limit maxAge, owns_restore python candidateIds,
    owns_cleanup python currentId limit maxAge⟩

end PiIpython.Checkpoint
