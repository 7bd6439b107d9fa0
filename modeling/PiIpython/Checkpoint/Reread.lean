import PiIpython.Checkpoint.Scan
import PiIpython.Checkpoint.Names
import PiIpython.Lib.JsonRoundTrip

/-!
# Reading a manifest back

`json.dumps` spells a string in escapes, and `json.loads` joins two of them
that are a surrogate pair; otherwise the value comes back as it was
(`Rereads`). So a manifest that `save` wrote is accepted if and only if the
name of every module in it is a string, and it names the blobs that were saved.
-/

namespace PiIpython.Checkpoint

open Text Json
open Bridge (PyValue PyNum entry)

variable {V : Type}

/-- The string with its surrogate pairs joined. -/
def joined (s : PyStr) : PyStr := decode16 (utf16 s)

/-- What `json.loads` returns of what `json.dumps` wrote. -/
def Rereads (python : Python V) : Prop :=
  ∀ v v', python.jsonLoads (python.jsonDumps v) = .ok v' → v' = v.map joined id

theorem joined_digest (d : Digest) : joined d.val = d.val := by
  refine decode16_utf16 fun c hc hs => ?_
  obtain ⟨f, hf, hfc⟩ := mem_fullmatch d.2 hc
  rw [(List.mem_replicate.mp hf).2] at hfc
  simp only [isHex, Bool.or_eq_true, Bool.and_eq_true, decide_eq_true_eq] at hfc
  have := hs.1
  omega

/-! ## Entries -/

/-- What is read of an element of `saved`. -/
def SavedItem.entry? : SavedItem → Option Entry
  | .value name d _ => some ⟨joined name, .blob d⟩
  | .module name (some (.str m)) => some ⟨joined name, .module (joined m)⟩
  | .module _ _ => none

/-- The entry of a value, whose blob may have no digest for a name. -/
def blobEntry (name : PyStr) : Option Digest → Except Exc Entry
  | some d => .ok ⟨name, .blob d⟩
  | none => .error invalidEntry

theorem parseEntry_reread {item : SavedItem} {x : PyValue} (hx : item.toJson = some x) :
    (parseEntry (x.map joined id)).toOption = item.entry? := by
  cases item with
  | value name d bytes =>
    cases hx
    have h : parseEntry ((Json.obj [entry "name" (.str name), entry "kind" (.str (py "value")),
        entry "blob" (.str d.val), entry "bytes" (.num (.int bytes))] : PyValue).map joined id) =
        blobEntry (joined name) (digest? (joined d.val)) := rfl
    rw [h, joined_digest, digest?_val]
    rfl
  | module name m =>
    obtain ⟨v, rfl, rfl⟩ := Option.map_eq_some_iff.mp hx
    cases v <;> rfl

theorem parseEntries_reread {items : List SavedItem} {xs : List PyValue}
    (hxs : items.mapM SavedItem.toJson = some xs) :
    ((mapElems joined id xs).mapM parseEntry).toOption = items.mapM SavedItem.entry? := by
  induction items generalizing xs with
  | nil =>
    cases hxs
    rfl
  | cons item items ih =>
    rw [List.mapM_cons] at hxs
    obtain ⟨x, hx, hxs⟩ := Option.bind_eq_some_iff.mp hxs
    obtain ⟨ys, hys, heq⟩ := Option.bind_eq_some_iff.mp hxs
    cases heq
    change ((x.map joined id :: mapElems joined id ys).mapM parseEntry).toOption = _
    rw [List.mapM_cons, List.mapM_cons, ← parseEntry_reread hx, ← ih hys]
    cases parseEntry (x.map joined id) with
    | error e => rfl
    | ok e => cases (mapElems joined id ys).mapM parseEntry <;> rfl

/-! ## The manifest -/

/-- What is read of the names that were skipped. -/
def Saving.reread (acc : Saving) : Dict PyStr PyStr :=
  acc.skipped.entries.foldl (fun d p => d.set (joined p.1) (joined p.2)) .empty

theorem reasons?_strings (d : Dict PyStr PyStr) :
    reasons? (d.mapValues (.str : PyStr → PyValue)) = some d := by
  have hmap : ∀ l : List (PyStr × PyStr), ((l.map fun p => (p.1, (.str p.2 : PyValue))).mapM
      fun p => (str? p.2).map fun s => (p.1, s)) = some l := by
    intro l
    induction l with
    | nil => rfl
    | cons p l ih =>
      rw [List.map_cons, List.mapM_cons, ih]
      rfl
  unfold reasons? Dict.mapValues
  rw [hmap, Option.map_some, Dict.foldl_set_entries]

theorem reasons?_reread (acc : Saving) :
    reasons? (toDict (mapFields joined id (acc.skipped.entries.map fun p => (p.1, .str p.2)))) =
      some acc.reread := by
  rw [← reasons?_strings]
  congr 1
  have hfold : ∀ (l : List (PyStr × PyStr)) (d : Dict PyStr PyStr),
      (mapFields joined id (l.map fun p => (p.1, (.str p.2 : PyValue)))).foldl
        (fun d p => d.set p.1 p.2) (d.mapValues .str) =
      (l.foldl (fun d p => d.set (joined p.1) (joined p.2)) d).mapValues .str := by
    intro l
    induction l with
    | nil => exact fun d => rfl
    | cons p l ih =>
      intro d
      rw [List.foldl_cons, ← ih, Dict.mapValues_set]
      rfl
  exact hfold acc.skipped.entries .empty

/-- The manifest of what was read, whose reasons may be no texts. -/
def withReasons (cell : Int) (info : Info) (entries : Except Exc (List Entry)) :
    Option (Dict PyStr PyStr) → Except Exc Manifest
  | some reasons => entries.map fun entries =>
      ⟨.num (.int cell), entries, reasons, info.size, info.mtime⟩
  | none => .error invalidManifest

/-- **A manifest that is read back** is accepted when the name of every module in it is a string,
and has the entries that were saved. -/
theorem parseManifest_reread {acc : Saving} {cell : Int} {duration : ℚ} {v : PyValue} (info : Info)
    (hv : acc.manifest cell duration = .ok v) : (parseManifest info (v.map joined id)).toOption =
      (acc.saved.mapM SavedItem.entry?).map fun es =>
        ⟨.num (.int cell), es, acc.reread, info.size, info.mtime⟩ := by
  unfold Saving.manifest at hv
  split at hv
  · cases hv
  · next xs hxs =>
    cases hv
    rw [← parseEntries_reread hxs]
    have h : parseManifest info ((Json.obj [entry "version" (.num (.int 2)),
        entry "cell" (.num (.int cell)), entry "saved" (.arr xs),
        entry "skipped" (.obj (acc.skipped.entries.map fun p => (p.1, .str p.2))),
        entry "bytes" (.num (.int acc.total)),
        entry "duration" (.num (.float (.round (duration < 0) |duration|)))] : PyValue).map joined id) =
        withReasons cell info ((mapElems joined id xs).mapM parseEntry) (reasons? (toDict
          (mapFields joined id (acc.skipped.entries.map fun p => (p.1, .str p.2))))) := rfl
    rw [h, reasons?_reread]
    cases (mapElems joined id xs).mapM parseEntry <;> rfl

/-- The blobs of a manifest that is read back are those that were saved. -/
theorem mem_blobs_reread {acc : Saving} {cell : Int} {duration : ℚ} {v : PyValue} {info : Info}
    {m : Manifest} {d : Digest} (hv : acc.manifest cell duration = .ok v)
    (hm : (parseManifest info (v.map joined id)).toOption = some m) (hd : d ∈ m.blobs) :
    ∃ name bytes, .value name d bytes ∈ acc.saved := by
  rw [parseManifest_reread info hv] at hm
  obtain ⟨es, hes, rfl⟩ := Option.map_eq_some_iff.mp hm
  obtain ⟨e, he, hed⟩ := List.mem_filterMap.mp (List.mem_dedup.mp hd)
  dsimp only at he
  clear hv hd hm
  generalize acc.saved = items at hes
  induction items generalizing es with
  | nil =>
    cases hes
    cases he
  | cons item items ih =>
    rw [List.mapM_cons] at hes
    obtain ⟨e', he', hes⟩ := Option.bind_eq_some_iff.mp hes
    obtain ⟨es', hes', heq⟩ := Option.bind_eq_some_iff.mp hes
    cases heq
    rcases List.mem_cons.mp he with rfl | he
    · cases item with
      | value name d' bytes =>
        cases he'
        cases hed
        exact ⟨name, bytes, List.mem_cons_self⟩
      | module name m =>
        rcases m with _ | m
        · cases he'
        · cases m <;> cases he'
          cases hed
    · obtain ⟨name, bytes, h⟩ := ih es' he hes'
      exact ⟨name, bytes, List.mem_cons_of_mem _ h⟩

end PiIpython.Checkpoint
