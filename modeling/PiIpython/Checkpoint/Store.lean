import PiIpython.Lib.Prog
import PiIpython.Lib.Dict
import PiIpython.Bridge.Send
import PiIpython.Lib.JsString

/-!
# The checkpoint store

The names and files of the checkpoint store, and the operations that
`pi_ipython_state` performs on it and on the kernel it runs in. A descriptor
is the name it was opened for: under the store-wide lock no other session
renames it. `Store.perform` is what the operations on files do.
-/

namespace PiIpython.Checkpoint

open Text
open Bridge (PyValue PyNum)

abbrev Bytes := List UInt8

/-! ## Names -/

def isHex (c : CodePoint) : Bool := (48 ≤ c.val && c.val < 58) || (97 ≤ c.val && c.val < 103)

/-- A regular expression of one class for each character. -/
abbrev Pattern := List (CodePoint → Bool)

def fullmatch (p : Pattern) (s : PyStr) : Bool :=
  p.length = s.length && (p.zip s).all fun x => x.1 x.2

def dash : CodePoint → Bool := (· = chr '-')

/-- `_UUID`. -/
def uuidPattern : Pattern :=
  List.replicate 8 isHex ++ [dash] ++ List.replicate 4 isHex ++ [dash] ++
    [fun c => 49 ≤ c.val && c.val < 54] ++ List.replicate 3 isHex ++ [dash] ++
    [fun c => c = chr '8' || c = chr '9' || c = chr 'a' || c = chr 'b'] ++ List.replicate 3 isHex ++
    [dash] ++ List.replicate 12 isHex

def IsUuid (s : PyStr) : Prop := fullmatch uuidPattern s = true

instance (s : PyStr) : Decidable (IsUuid s) := inferInstanceAs (Decidable (_ = true))

/-- `_BLOB`. -/
def IsBlob (s : PyStr) : Prop := fullmatch (List.replicate 64 isHex) s = true

instance (s : PyStr) : Decidable (IsBlob s) := inferInstanceAs (Decidable (_ = true))

/-- The id of a checkpoint that passed the check. -/
abbrev Uuid := {s : PyStr // IsUuid s}

/-- The digest of a value. -/
abbrev Digest := {s : PyStr // IsBlob s}

instance digest_lawfulBEq : LawfulBEq Digest := inferInstance

/-- The 32 hexadecimal digits of a random UUID. -/
abbrev Hex := {s : PyStr // fullmatch (List.replicate 32 isHex) s = true}

def manifestName (id : Uuid) : PyStr := id.val ++ py ".json"

/-- The digest as it stands in the marker. -/
def Digest.encode (d : Digest) : Bytes := d.val.map fun c => UInt8.ofNat c.val

/-- `data.decode("ascii", "replace")`. -/
def decodeAscii (data : Bytes) : PyStr :=
  data.map fun b => if b.toNat < 128 then Fin.ofNat _ b.toNat else Fin.ofNat _ 0xFFFD

/-! ## Exceptions -/

/-- What the code tells apart about an exception. -/
inductive Kind where
  | fileNotFound
  /-- Any other `OSError`. -/
  | os
  | value
  /-- Any other `Exception`. -/
  | other
  /-- `KeyboardInterrupt`, which is no `Exception`. -/
  | interrupt
  deriving DecidableEq

structure Exc where
  kind : Kind
  typeName : PyStr
  text : PyStr
  deriving DecidableEq

namespace Exc

def isException (e : Exc) : Bool := e.kind ≠ .interrupt

/-- `OSError` or `ValueError`. -/
def isOsOrValue (e : Exc) : Bool := e.kind = .fileNotFound || e.kind = .os || e.kind = .value

def isOs (e : Exc) : Bool := e.kind = .fileNotFound || e.kind = .os

def valueError (text : PyStr) : Exc := ⟨.value, py "ValueError", text⟩

def runtimeError (text : PyStr) : Exc := ⟨.other, py "RuntimeError", text⟩

def fileNotFound (name : PyStr) : Exc :=
  ⟨.fileNotFound, py "FileNotFoundError", py "[Errno 2] No such file or directory: '" ++ name ++ py "'"⟩

def osError (text : PyStr) : Exc := ⟨.os, py "OSError", text⟩

def keyboardInterrupt : Exc := ⟨.interrupt, py "KeyboardInterrupt", []⟩

end Exc

/-! ## Files -/

inductive Dir where
  | root
  | blobs
  | manifests
  deriving DecidableEq

structure File where
  data : Bytes
  mtime : ℚ
  /-- Owned by the user and accessible to no one else. -/
  owned : Bool
  deriving DecidableEq

inductive Node where
  | file (f : File)
  | link
  | directory
  /-- A FIFO, a socket or a device. -/
  | special
  deriving DecidableEq

/-- The entries of the three directories, but for `lock`, `blobs` and `manifests` in the root. -/
structure Store where
  root : Dict PyStr Node
  blobs : Dict PyStr Node
  manifests : Dict PyStr Node

namespace Store

def empty : Store := ⟨.empty, .empty, .empty⟩

def dir (s : Store) : Dir → Dict PyStr Node
  | .root => s.root
  | .blobs => s.blobs
  | .manifests => s.manifests

def setDir (s : Store) (d : Dir) (x : Dict PyStr Node) : Store :=
  match d with
  | .root => { s with root := x }
  | .blobs => { s with blobs := x }
  | .manifests => { s with manifests := x }

@[simp] theorem dir_setDir_self (s : Store) (d : Dir) (x : Dict PyStr Node) :
    (s.setDir d x).dir d = x := by
  cases d <;> rfl

theorem dir_setDir_of_ne (s : Store) {d d' : Dir} (x : Dict PyStr Node) (h : d' ≠ d) :
    (s.setDir d x).dir d' = s.dir d' := by
  cases d <;> cases d' <;> first | rfl | exact absurd rfl h

theorem dir_setDir (s : Store) (d d' : Dir) (x : Dict PyStr Node) :
    (s.setDir d x).dir d' = if d' = d then x else s.dir d' := by
  split
  · next h => rw [h, dir_setDir_self]
  · next h => exact dir_setDir_of_ne s x h

/-- The node of a name. -/
def node? (s : Store) (d : Dir) (name : PyStr) : Option Node := (s.dir d).get? name

def put (s : Store) (d : Dir) (name : PyStr) (n : Node) : Store :=
  s.setDir d ((s.dir d).set name n)

def remove (s : Store) (d : Dir) (name : PyStr) : Store := s.setDir d ((s.dir d).erase name)

theorem node?_put (s : Store) (d d' : Dir) (name name' : PyStr) (n : Node) :
    (s.put d name n).node? d' name' =
      if d' = d ∧ name' = name then some n else s.node? d' name' := by
  unfold node? put
  rw [dir_setDir]
  by_cases hd : d' = d
  · subst hd
    rw [if_pos rfl, Dict.get?_set]
    simp
  · rw [if_neg hd, if_neg fun h => hd h.1]

theorem node?_remove (s : Store) (d d' : Dir) (name name' : PyStr) :
    (s.remove d name).node? d' name' =
      if d' = d ∧ name' = name then none else s.node? d' name' := by
  unfold node? remove
  rw [dir_setDir]
  by_cases hd : d' = d
  · subst hd
    rw [if_pos rfl, Dict.get?_erase]
    simp
  · rw [if_neg hd, if_neg fun h => hd h.1]

end Store

/-! ## Operations -/

/-- The flags of an `os.open` of a file. -/
inductive Mode where
  /-- `O_RDONLY` -/
  | read
  /-- `O_WRONLY | O_CREAT | O_EXCL` -/
  | create
  /-- `O_WRONLY | O_CREAT | O_TRUNC` -/
  | truncate
  deriving DecidableEq

/-- An open file. -/
structure Fd where
  dir : Dir
  name : PyStr
  mode : Mode
  deriving DecidableEq

structure Info where
  size : Nat
  mtime : ℚ

/-- Why a file is unlinked: the places of the code that do it. -/
inductive Reason where
  /-- The `finally` of `_atomic_write`. -/
  | temporary
  /-- A manifest, by `_cleanup`. -/
  | evicted
  /-- A blob, by `_cleanup`. -/
  | unreferenced
  /-- The marker, by `_take_crashed`. -/
  | found
  /-- The blob that the marker names, by `_take_crashed`. -/
  | crashed
  /-- The marker, by the `finally` of `_load`. -/
  | loaded
  deriving DecidableEq

/-- `_held`. -/
inductive Held where
  /-- `_PARTIAL` -/
  | partialRestore
  | checkpoint (v : PyValue)

/-- The globals of the module and the attributes of the shell that it reads. -/
structure Globals where
  baseline : List PyStr
  userNsHidden : List PyStr
  executionCount : Int
  /-- `_directory` is set. -/
  directory : Bool
  storageError : Option PyStr
  storageErrorReported : Bool
  held : Held

/-- The `__name__` of a module: a value of JSON, or an object that `json.dumps` refuses. -/
abbrev NameAttribute := Option PyValue

/-- The operations, for a namespace of values `V`. -/
inductive Op (V : Type) where
  | globals
  | items
  | pop (name : PyStr)
  | bind (name : PyStr) (value : V)
  | setHeld (held : Held)
  | setReported
  /-- `value.__name__` of a module. -/
  | moduleName (value : V)
  | sizeof (value : V)
  | nbytes (value : V)
  | memoryUsage (value : V)
  /-- `StatePickler.dump`. -/
  | dump (value : V)
  | loads (data : Bytes)
  | importModule (name : PyStr)
  | uuid4
  | time
  | monotonic
  /-- `_directory_fd(_directory)` and its check. -/
  | openRoot
  /-- `_open(root, "lock", O_RDWR | O_CREAT)`. -/
  | openLock
  /-- `flock(.., LOCK_EX)`. -/
  | flock
  /-- `_subdir` of a directory of the store. -/
  | openDir (name : PyStr)
  /-- The descriptors of `_store` are closed, in a `with` that an exception leaves or not. -/
  | release (raised : Bool)
  | openFile (dir : Dir) (name : PyStr) (mode : Mode)
  | fstat (fd : Fd)
  | read (fd : Fd) (limit : Nat)
  | write (fd : Fd) (data : Bytes)
  | fsync (fd : Fd)
  | close (fd : Fd)
  | replace (dir : Dir) (source target : PyStr)
  | unlink (dir : Dir) (name : PyStr) (why : Reason)
  | listdir (dir : Dir)
  | stat (dir : Dir) (name : PyStr)
  | utime (dir : Dir) (name : PyStr)
  | fsyncDir (dir : Dir)

/-- What an operation answers. -/
def Ans {V : Type} : Op V → Type
  | .globals => Globals
  | .items => List (PyStr × V)
  | .moduleName _ => NameAttribute
  | .sizeof _ => ℚ
  | .nbytes _ => Option ℚ
  | .memoryUsage _ => Option ℚ
  -- what it writes, piece by piece, and what it raises after that
  | .dump _ => List Bytes × Option Exc
  | .loads _ => V
  | .importModule _ => V
  | .uuid4 => Hex
  | .time => ℚ
  | .monotonic => ℚ
  | .openFile _ _ _ => Fd
  | .fstat _ => Info
  | .read _ _ => Bytes
  | .listdir _ => List PyStr
  -- the size of a regular file
  | .stat _ _ => Option Nat
  | _ => Unit

/-- Programs of the module. -/
abbrev Py (V α : Type) := Prog (Op V) Ans Exc α

/-! ## What the operations on files do -/

/-- What the world decides: the answers that the store does not determine, and the time. -/
structure Hint (V : Type) where
  answer : (o : Op V) → Except Exc (Ans o)
  now : ℚ

def unsafePath (name : PyStr) : Exc :=
  .valueError (py "refusing unsafe, unowned or non-private checkpoint path: " ++ name)

namespace Store

variable (s : Store) (now : ℚ)

/-- `_open` -/
def openFile (d : Dir) (name : PyStr) : Mode → Except Exc Fd × Store
  | .read =>
    match s.node? d name with
    | none => (.error (.fileNotFound name), s)
    | some (.file f) => (if f.owned then .ok ⟨d, name, .read⟩ else .error (unsafePath name), s)
    | some .link => (.error (.osError (py "[Errno 40] Too many levels of symbolic links")), s)
    | some _ => (.error (unsafePath name), s)
  | .create =>
    match s.node? d name with
    | none => (.ok ⟨d, name, .create⟩, s.put d name (.file ⟨[], now, true⟩))
    | some _ => (.error (.osError (py "[Errno 17] File exists")), s)
  | .truncate =>
    match s.node? d name with
    | none => (.ok ⟨d, name, .truncate⟩, s.put d name (.file ⟨[], now, true⟩))
    | some (.file f) =>
      (if f.owned then .ok ⟨d, name, .truncate⟩ else .error (unsafePath name),
        s.put d name (.file { f with data := [], mtime := now }))
    | some .link => (.error (.osError (py "[Errno 40] Too many levels of symbolic links")), s)
    | some .directory => (.error (.osError (py "[Errno 21] Is a directory")), s)
    | some .special => (.error (unsafePath name), s)

/-- The file of a descriptor. -/
def file? (fd : Fd) : Option File :=
  match s.node? fd.dir fd.name with
  | some (.file f) => some f
  | _ => none

def write (fd : Fd) (data : Bytes) : Store :=
  match s.file? fd with
  | some f => s.put fd.dir fd.name (.file { f with data := f.data ++ data, mtime := now })
  | none => s

def replace (d : Dir) (source target : PyStr) : Except Exc Unit × Store :=
  match s.node? d source, s.node? d target with
  | none, _ => (.error (.fileNotFound source), s)
  | some _, some .directory => (.error (.osError (py "[Errno 21] Is a directory")), s)
  | some n, _ => (.ok (), (s.remove d source).put d target n)

def unlink (d : Dir) (name : PyStr) : Except Exc Unit × Store :=
  match s.node? d name with
  | none => (.error (.fileNotFound name), s)
  | some .directory => (.error (.osError (py "[Errno 21] Is a directory")), s)
  | some _ => (.ok (), s.remove d name)

def stat (d : Dir) (name : PyStr) : Except Exc (Option Nat) :=
  match s.node? d name with
  | none => .error (.fileNotFound name)
  | some (.file f) => .ok (some f.data.length)
  | some _ => .ok none

def utime (d : Dir) (name : PyStr) : Except Exc Unit × Store :=
  match s.node? d name with
  | none => (.error (.fileNotFound name), s)
  | some (.file f) => (.ok (), s.put d name (.file { f with mtime := now }))
  | some _ => (.ok (), s)

/-- A listing has the names in any order. -/
def listdir (d : Dir) : Except Exc (List PyStr) → Option (Except Exc (List PyStr) × Store)
  | .ok names => if names.Perm (s.dir d).keys then some (.ok names, s) else none
  | .error _ => none

/-- An operation on the store, when the world decides as `h` says. -/
def perform {V : Type} (s : Store) (h : Hint V) : (o : Op V) → Option (Except Exc (Ans o) × Store)
  | .openFile d name mode => some (s.openFile h.now d name mode)
  | .fstat fd => some (.ok ((s.file? fd).elim ⟨0, 0⟩ fun f => ⟨f.data.length, f.mtime⟩), s)
  | .read fd limit => some (.ok ((s.file? fd).elim [] fun f => f.data.take limit), s)
  | .write fd data => some (.ok (), s.write h.now fd data)
  | .replace d source target => some (s.replace d source target)
  | .unlink d name _ => some (s.unlink d name)
  | .listdir d => s.listdir d (h.answer (.listdir d))
  | .stat d name => some (s.stat d name, s)
  | .utime d name => some (s.utime h.now d name)
  | .fsync _ => some (.ok (), s)
  | .fsyncDir _ => some (.ok (), s)
  | .close _ => some (.ok (), s)
  | .flock => some (.ok (), s)
  -- the directories stay as `initialize` left them
  | .openDir _ => some (.ok (), s)
  | .release _ => some (.ok (), s)
  | o => some (h.answer o, s)

/-! ## Files that are unlinked -/

theorem node?_unlink_of_ne {s : Store} {d d' : Dir} {name name' : PyStr}
    (h : ¬ (d' = d ∧ name' = name)) :
    (s.unlink d name).2.node? d' name' = s.node? d' name' := by
  unfold unlink
  split
  · rfl
  · rfl
  · exact (node?_remove s d d' name name').trans (if_neg h)

/-- A file can be unlinked. -/
theorem unlink_file {s : Store} {d : Dir} {name : PyStr} {f : File}
    (h : s.node? d name = some (.file f)) : s.unlink d name = (.ok (), s.remove d name) := by
  unfold unlink
  rw [h]

end Store

end PiIpython.Checkpoint
