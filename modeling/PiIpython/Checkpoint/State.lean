import PiIpython.Checkpoint.Files

/-!
# Saving and restoring the namespace

The functions of `pi_ipython_state`, as programs over the operations of
`Checkpoint.Store`. What is Python's own or a package's, and computes a value
from a value, is a field of `Python`.
-/

namespace PiIpython.Checkpoint

open Text
open Bridge (PyValue PyNum entry)

/-- What the code uses of Python and its library, for values `V` of a namespace. -/
structure Python (V : Type) where
  /-- `isinstance(value, types.ModuleType)`. -/
  isModule : V → Bool
  sha256 : Bytes → Digest
  jsonLoads : Bytes → Except Exc PyValue
  /-- `json.dumps(.., separators=(",", ":")).encode()`. -/
  jsonDumps : PyValue → Bytes

variable {V α : Type}

def valueLimit : Nat := 64 * 1024 * 1024

def totalLimit : Nat := 256 * 1024 * 1024

def storeLimit : Int := 2 * 1024 ^ 3

def maxAgeSeconds : ℚ := 30 * 24 * 60 * 60

def manifestLimit : Nat := 4 * 1024 * 1024

/-- The name of the marker. -/
def loading : PyStr := py "loading"

/-! ## Manifests -/

/-- The module or the blob that an entry names. -/
inductive Target where
  | module (name : PyStr)
  | blob (digest : Digest)
  deriving DecidableEq

structure Entry where
  name : PyStr
  target : Target
  deriving DecidableEq

def Entry.blob (e : Entry) : Option Digest :=
  match e.target with
  | .module _ => none
  | .blob d => some d

def Entry.isModule (e : Entry) : Bool := e.blob.isNone

structure Manifest where
  cell : PyValue
  entries : List Entry
  skipped : Dict PyStr PyStr
  size : Nat
  mtime : ℚ

/-- `_Manifest.blobs` -/
def Manifest.blobs (m : Manifest) : List Digest := (m.entries.filterMap Entry.blob).dedup

def str? : PyValue → Option PyStr
  | .str s => some s
  | _ => none

/-- `value.get(key)` for a dictionary with a string there. -/
def getStr (value : PyValue) (key : String) : Option PyStr := (value.get? (py key)).bind str?

/-- An id or digest that passes its check. -/
def uuid? (s : PyStr) : Option Uuid := if h : IsUuid s then some ⟨s, h⟩ else none

def digest? (s : PyStr) : Option Digest := if h : IsBlob s then some ⟨s, h⟩ else none

def invalidEntry : Exc := .valueError (py "invalid checkpoint entry")

def parseEntry (item : PyValue) : Except Exc Entry :=
  match getStr item "name", getStr item "kind" with
  | some name, some kind =>
    if kind = py "module" then
      match getStr item "module" with
      | some m => .ok ⟨name, .module m⟩
      | none => .error invalidEntry
    else if kind = py "value" then
      match (getStr item "blob").bind digest? with
      | some d => .ok ⟨name, .blob d⟩
      | none => .error invalidEntry
    else .error invalidEntry
  | _, _ => .error invalidEntry

/-! ## Equality of values -/

/-- The number that a number or a truth value is equal to. -/
def numeric : PyValue → Option PyNum
  | .bool b => some (.int (if b then 1 else 0))
  | .num n => some n
  | _ => none

/-- `==` of numbers. -/
def numEq : PyNum → PyNum → Bool
  | .int a, .int b => a = b
  | .int a, .float x => x.toRat? = some (a : ℚ)
  | .float x, .int b => x.toRat? = some (b : ℚ)
  | .float x, .float y =>
    match x.toRat?, y.toRat? with
    | some p, some q => p = q
    | none, none => x = y && x ≠ .nan
    | _, _ => false

mutual

/-- `==` of values of JSON. -/
def pyEq : PyValue → PyValue → Bool
  | .null, .null => true
  | .str s, .str t => s = t
  | .arr vs, .arr ws => pyEqElems vs ws
  | .obj fs, .obj gs => pyEqFields fs gs && gs.all fun p => p.1 ∈ fs.map (·.1)
  | v, w =>
    match numeric v, numeric w with
    | some x, some y => numEq x y
    | _, _ => false

def pyEqElems : List PyValue → List PyValue → Bool
  | [], [] => true
  | v :: vs, w :: ws => pyEq v w && pyEqElems vs ws
  | _, _ => false

/-- Each key has an equal value in `gs`; of a repeated key the last value counts. -/
def pyEqFields : List (PyStr × PyValue) → List (PyStr × PyValue) → Bool
  | [], _ => true
  | (k, v) :: fs, gs =>
    (if k ∈ fs.map (·.1) then true
      else
        match Json.get? k (.obj gs) with
        | some w => pyEq v w
        | none => false) && pyEqFields fs gs

end

/-- `value == _held` -/
def Held.is (v : PyValue) : Held → Bool
  | .partialRestore => false
  | .checkpoint w => pyEq v w

/-! ## Manifests -/

/-- The dictionary of the members of an object. -/
def toDict (fs : List (PyStr × PyValue)) : Dict PyStr PyValue :=
  fs.foldl (fun d p => d.set p.1 p.2) .empty

/-- The dictionary with its values, when all of them are strings. -/
def reasons? (d : Dict PyStr PyValue) : Option (Dict PyStr PyStr) :=
  (d.entries.mapM fun p => (str? p.2).map fun s => (p.1, s)).map fun l =>
    l.foldl (fun d p => d.set p.1 p.2) .empty

/-- `isinstance(value, int)` -/
def isInt : PyValue → Bool
  | .bool _ => true
  | .num (.int _) => true
  | _ => false

def invalidManifest : Exc := .valueError (py "invalid checkpoint manifest")

/-- What `_read_manifest` makes of the value in the file. -/
def parseManifest (info : Info) (manifest : PyValue) : Except Exc Manifest :=
  match manifest with
  | .obj _ =>
    if (manifest.get? (py "version")).elim false (pyEq · (.num (.int 2))) then
      match manifest.get? (py "cell"), manifest.get? (py "saved"), manifest.get? (py "skipped") with
      | some cell, some (.arr saved), some (.obj skipped) =>
        match reasons? (toDict skipped) with
        | some reasons =>
          if isInt cell then
            (saved.mapM parseEntry).map fun entries =>
              ⟨cell, entries, reasons, info.size, info.mtime⟩
          else .error invalidManifest
        | none => .error invalidManifest
      | _, _, _ => .error invalidManifest
    else .error (.valueError (py "unsupported checkpoint manifest"))
  | _ => .error (.valueError (py "unsupported checkpoint manifest"))

variable (python : Python V)

def readManifest (id : Uuid) : Py V Manifest := do
  let (data, info) ← readFile .manifests (manifestName id) manifestLimit
  let manifest ← give (python.jsonLoads data)
  give (parseManifest info manifest)

/-! ## Collection -/

/-- The id that a file of a manifest is named after. -/
def manifestId? (name : PyStr) : Option Uuid :=
  if py ".json" <:+ name then uuid? (name.take (name.length - 5)) else none

/-- `_manifests` -/
def manifests : Py V (Dict Uuid Manifest) := do
  let names ← listdir .manifests
  names.foldlM (fun found name =>
    match manifestId? name with
    | none => pure found
    | some id => do
      let m ← (some <$> readManifest python id).attempt fun e =>
        if e.isOsOrValue then pure none else .raise e
      pure (m.elim found (found.set id))) .empty

/-- `_blob_sizes` -/
def blobSizes : Py V (Dict Digest Nat) := do
  let names ← listdir .blobs
  names.foldlM (fun sizes name =>
    match digest? name with
    | none => pure sizes
    | some d => do
      let size ← (stat .blobs name).attempt fun e => if e.isOs then pure none else .raise e
      pure (size.elim sizes (sizes.set d))) .empty

/-- `collections.Counter` of the blobs of the manifests. -/
def countReferences (ms : List Manifest) : Dict Digest Nat :=
  (ms.flatMap Manifest.blobs).foldl (fun c d => c.set d ((c.get? d).getD 0 + 1)) .empty

/-- What `_cleanup` keeps while it evicts manifests. -/
structure Tally where
  references : Dict Digest Nat
  total : Int

/-- One reference less to a blob. -/
def Tally.drop (sizes : Dict Digest Nat) (t : Tally) (d : Digest) : Tally :=
  let n := (t.references.get? d).getD 0 - 1
  if n = 0 then ⟨t.references.erase d, t.total - ((sizes.get? d).getD 0 : Nat)⟩
  else { t with references := t.references.set d n }

def evict (currentId : Uuid) (limit : Int) (maxAge now : ℚ) (sizes : Dict Digest Nat) (t : Tally)
    (m : Uuid × Manifest) : Py V Tally :=
  if m.1 = currentId then pure t
  else if now - m.2.mtime ≤ maxAge ∧ t.total ≤ limit then pure t
  else do
    unlink .manifests (manifestName m.1) .evicted
    pure (m.2.blobs.foldl (Tally.drop sizes) { t with total := t.total - m.2.size })

/-- The manifests, the least recently used first. -/
def byMtime (ms : Dict Uuid Manifest) : List (Uuid × Manifest) :=
  ms.entries.insertionSort fun a b => a.2.mtime ≤ b.2.mtime

/-- The weight of the manifests and of the blobs that they refer to. -/
def startTotal (ms : List Manifest) (references sizes : Dict Digest Nat) : Int :=
  ((ms.map (·.size)).sum + (references.keys.map fun d => (sizes.get? d).getD 0).sum : Nat)

/-- `_cleanup` -/
def cleanup (currentId : Uuid) (limit : Int) (maxAge : ℚ) : Py V Unit := do
  let ms ← manifests python
  let sizes ← blobSizes
  let references := countReferences ms.values
  let now ← time
  let t ← (byMtime ms).foldlM (evict currentId limit maxAge now sizes)
    ⟨references, startTotal ms.values references sizes⟩
  (sizes.keys.filter (· ∉ t.references.keys)).forM fun d => unlink .blobs d.val .unreferenced
  fsyncDir .manifests
  fsyncDir .blobs

/-! ## Saving -/

/-- `_eligible` -/
def eligible (g : Globals) (name : PyStr) : Bool :=
  name.head? ≠ some (chr '_') && name ∉ g.baseline && name ∉ g.userNsHidden

/-- `_estimate` -/
def estimate (value : V) : Py V ℚ := do
  let size ← sizeof value
  let nbytes ← nbytes value
  let size := nbytes.elim size (max size)
  let usage ← memoryUsage value
  pure (usage.elim size (max size))

/-- What `LimitedWriter` takes of the pieces that a pickler writes before it ends with `e`. -/
def limitedWrite (limit : Nat) (message : PyStr) (e : Option Exc) : List Bytes → Bytes →
    Except Exc Bytes
  | [], buffer => e.elim (.ok buffer) .error
  | piece :: pieces, buffer =>
    if limit < buffer.length + piece.length then .error (.valueError message)
    else limitedWrite limit message e pieces (buffer ++ piece)

/-- An element of `saved`. -/
inductive SavedItem where
  | module (name : PyStr) (module : NameAttribute)
  | value (name : PyStr) (blob : Digest) (bytes : Nat)

structure Saving where
  saved : List SavedItem
  skipped : Dict PyStr PyStr
  total : Nat

/-- `f"{type(error).__name__}: {str(error)[:300]}"` -/
def Exc.describe (e : Exc) : PyStr := e.typeName ++ py ": " ++ e.text.take 300

/-- A blob is written unless it is there. -/
def keepBlob (d : Digest) (data : Bytes) : Py V Unit :=
  Prog.attempt (do
      let fd ← openFile .blobs d.val .read
      close fd)
    fun e => if e.kind = .fileNotFound then atomicWrite .blobs d.val data else .raise e

/-- A value of the namespace, within the `try`. -/
def saveValue (acc : Saving) (name : PyStr) (value : V) : Py V Saving :=
  if python.isModule value then do
    let m ← moduleName value
    pure { acc with saved := acc.saved ++ [.module name m] }
  else do
    let size ← estimate value
    if valueLimit < size then .raise (.valueError (py "value exceeds 64 MB (size estimate)"))
    else
      let (pieces, e) ← dump value
      let data ← give (limitedWrite valueLimit (py "value exceeds 64 MB") e pieces [])
      if totalLimit < acc.total + data.length then .raise (.valueError (py "checkpoint full"))
      else
        let digest := python.sha256 data
        keepBlob digest data
        pure { acc with
          total := acc.total + data.length
          saved := acc.saved ++ [.value name digest data.length] }

/-- A round of the loop of `save`. -/
def saveName (acc : Saving) (item : PyStr × V) : Py V Saving := do
  let g ← globals
  if !eligible g item.1 then pure acc
  else
    (saveValue python acc item.1 item.2).attempt fun e =>
      if e.isException then pure { acc with skipped := acc.skipped.set item.1 e.describe }
      else .raise e

/-- An element of `saved` as `json.dumps` takes it. -/
def SavedItem.toJson : SavedItem → Option PyValue
  | .module name m => m.map fun m =>
    .obj [entry "name" (.str name), entry "kind" (.str (py "module")), entry "module" m]
  | .value name blob bytes => some (.obj [entry "name" (.str name),
      entry "kind" (.str (py "value")), entry "blob" (.str blob.val),
      entry "bytes" (.num (.int bytes))])

/-- The manifest, unless `json.dumps` refuses a value in it. -/
def Saving.manifest (acc : Saving) (cell : Int) (duration : ℚ) : Except Exc PyValue :=
  match acc.saved.mapM SavedItem.toJson with
  | none => .error ⟨.other, py "TypeError", py "Object is not JSON serializable"⟩
  | some saved => .ok (.obj [entry "version" (.num (.int 2)), entry "cell" (.num (.int cell)),
      entry "saved" (.arr saved),
      entry "skipped" (.obj (acc.skipped.entries.map fun p => (p.1, .str p.2))),
      entry "bytes" (.num (.int acc.total)),
      entry "duration" (.num (.float (.round (duration < 0) |duration|)))])

/-- A value that is a well-formed id. -/
def asUuid (v : PyValue) : Option Uuid := (str? v).bind uuid?

/-- `save`, under the lock. -/
def saveLocked (id : Uuid) (began : ℚ) (limit : Int) (maxAge : ℚ) : Py V Unit := do
  let items ← items
  let acc ← items.foldlM (saveName python) ⟨[], .empty, 0⟩
  let g ← globals
  let ended ← monotonic
  let manifest ← give (acc.manifest (max 0 (g.executionCount - 1)) (ended - began))
  atomicWrite .manifests (manifestName id) (python.jsonDumps manifest)
  cleanup python id (max 0 limit) (max 0 maxAge)

/-- `save` -/
def save (checkpointId : PyValue) (limit : Int) (maxAge : ℚ) : Py V Unit :=
  match asUuid checkpointId with
  | none => .raise (.valueError (py "invalid checkpoint id"))
  | some id => do
    setHeld (.checkpoint (.str id.val))
    let g ← globals
    if !g.directory then pure ()
    else
      let began ← monotonic
      withStore (saveLocked python id began limit maxAge)

/-- `accept` -/
def accept (checkpointId : PyValue) : Py V Unit := setHeld (.checkpoint checkpointId)

/-! ## Restoring -/

/-- `_clear` -/
def clear : Py V Unit := do
  let items ← items
  items.forM fun item => do
    let g ← globals
    if eligible g item.1 then pop item.1 else pure ()

/-- `_take_crashed` -/
def takeCrashed : Py V (Option Digest) := do
  let found ← (some <$> readFile .root loading 64).attempt fun e =>
    if e.kind = .fileNotFound then pure none else .raise e
  match found with
  | none => pure none
  | some (data, _) => do
    unlink .root loading .found
    match digest? (decodeAscii data) with
    | none => pure none
    | some d => do
      suppress (·.kind = .fileNotFound) (unlink .blobs d.val .crashed)
      pure (some d)

/-- `_load` -/
def load (d : Digest) : Py V V := do
  let (data, _) ← readFile .blobs d.val valueLimit
  let fd ← openFile .root loading .truncate
  closing fd (write fd d.encode)
  (loads data).ensure (unlink .root loading .loaded)

/-- What `restore` returns. -/
inductive Summary where
  /-- `None` -/
  | none
  | unavailable (error : PyStr)
  | empty (fellBack : Bool)
  | restored (id : Uuid) (cell : PyValue) (restored : List PyStr) (skipped : Dict PyStr PyStr)
      (fellBack : Bool)

/-- The first candidate with a readable manifest. -/
def select : List Uuid → Py V (Option (Uuid × Manifest))
  | [] => pure none
  | id :: ids => do
    let m ← (some <$> readManifest python id).attempt fun e =>
      if e.isOsOrValue then pure none else .raise e
    match m with
    | some m => pure (some (id, m))
    | none => select ids

/-- The value of an entry. -/
def loadEntry (crashed : Option Digest) (e : Entry) : Py V V :=
  match e.target with
  | .module name => importModule name
  | .blob d =>
    if crashed = some d then
      .raise (.runtimeError (py "restoring this value killed the kernel; it was deleted"))
    else load d

/-- What the loop of `restore` has made: `restored` and `skipped`. -/
abbrev Restoring := List PyStr × Dict PyStr PyStr

/-- A round of the loop of `restore`. -/
def restoreEntry (crashed : Option Digest) (acc : Restoring) (e : Entry) : Py V Restoring := do
  let g ← globals
  if !eligible g e.name then pure acc
  else
    Prog.attempt (do
        let value ← loadEntry crashed e
        bind e.name value
        pure (acc.1 ++ [e.name], acc.2))
      fun x =>
        if x.isException then
          pure (acc.1, acc.2.set e.name (py "restore failed: " ++ x.describe))
        else .raise x

/-- The entries, modules first. -/
def modulesFirst (es : List Entry) : List Entry :=
  es.filter Entry.isModule ++ es.filter fun e => !e.isModule

/-- `restore`, under the lock. -/
def restoreLocked (ids : List PyValue) (nearest : PyValue) : Py V Summary := do
  let crashed ← takeCrashed
  let selected ← select python (ids.filterMap asUuid)
  setHeld .partialRestore
  clear
  match selected with
  | none => do
    setHeld (.checkpoint nearest)
    pure (.empty (ids ≠ []))
  | some (id, m) => do
    utime .manifests (manifestName id)
    let (restored, skipped) ← (modulesFirst m.entries).foldlM (restoreEntry crashed) ([], m.skipped)
    setHeld (.checkpoint nearest)
    pure (.restored id m.cell restored skipped (!pyEq (.str id.val) nearest))

/-- `restore` -/
def restore (candidateIds : PyValue) : Py V Summary :=
  match candidateIds with
  | .arr ids => do
    let nearest := ids.head?.getD .null
    let g ← globals
    if !g.directory then
      if g.storageErrorReported then pure .none
      else do
        setReported
        pure (.unavailable (g.storageError.getD (py "not initialized")))
    else if g.held.is nearest then pure .none
    else withStore (restoreLocked python ids nearest)
  | _ => .raise (.valueError (py "checkpoint candidates must be a list"))

end PiIpython.Checkpoint
