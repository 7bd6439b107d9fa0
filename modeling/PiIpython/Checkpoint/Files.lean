import PiIpython.Checkpoint.Store

/-!
# Files of the store

The functions of `pi_ipython_state` that open, read and write the files of the
store, as programs over the operations of `Checkpoint.Store`.
-/

namespace PiIpython.Checkpoint

open Text

variable {V α : Type}

/-! ## Single operations -/

def globals : Py V Globals := .op .globals .done

def items : Py V (List (PyStr × V)) := .op .items .done

def pop (name : PyStr) : Py V Unit := .op (.pop name) .done

def bind (name : PyStr) (value : V) : Py V Unit := .op (.bind name value) .done

def setHeld (held : Held) : Py V Unit := .op (.setHeld held) .done

def time : Py V ℚ := .op .time .done

def monotonic : Py V ℚ := .op .monotonic .done

def loads (data : Bytes) : Py V V := .op (.loads data) .done

def openFile (d : Dir) (name : PyStr) (mode : Mode) : Py V Fd := .op (.openFile d name mode) .done

def write (fd : Fd) (data : Bytes) : Py V Unit := .op (.write fd data) .done

def fsync (fd : Fd) : Py V Unit := .op (.fsync fd) .done

def close (fd : Fd) : Py V Unit := .op (.close fd) .done

def replace (d : Dir) (source target : PyStr) : Py V Unit := .op (.replace d source target) .done

def unlink (d : Dir) (name : PyStr) (why : Reason) : Py V Unit := .op (.unlink d name why) .done

def listdir (d : Dir) : Py V (List PyStr) := .op (.listdir d) .done

def utime (d : Dir) (name : PyStr) : Py V Unit := .op (.utime d name) .done

def fsyncDir (d : Dir) : Py V Unit := .op (.fsyncDir d) .done

def openRoot : Py V Unit := .op .openRoot .done

def openLock : Py V Unit := .op .openLock .done

def flock : Py V Unit := .op .flock .done

def openDir (name : PyStr) : Py V Unit := .op (.openDir name) .done

def release (raised : Bool) : Py V Unit := .op (.release raised) .done

def uuid4 : Py V Hex := .op .uuid4 .done

def fstat (fd : Fd) : Py V Info := .op (.fstat fd) .done

def read (fd : Fd) (limit : Nat) : Py V Bytes := .op (.read fd limit) .done

def setReported : Py V Unit := .op .setReported .done

def moduleName (value : V) : Py V NameAttribute := .op (.moduleName value) .done

def sizeof (value : V) : Py V ℚ := .op (.sizeof value) .done

def nbytes (value : V) : Py V (Option ℚ) := .op (.nbytes value) .done

def memoryUsage (value : V) : Py V (Option ℚ) := .op (.memoryUsage value) .done

def dump (value : V) : Py V (List Bytes × Option Exc) := .op (.dump value) .done

def importModule (name : PyStr) : Py V V := .op (.importModule name) .done

def stat (d : Dir) (name : PyStr) : Py V (Option Nat) := .op (.stat d name) .done

def raised : Except Exc α → Bool
  | .ok _ => false
  | .error _ => true

/-- A value, or an exception raised. -/
def give (r : Except Exc α) : Py V α := .done r

/-- `with contextlib.suppress(..)`, of the exceptions that `p` tells. -/
def suppress (p : Exc → Bool) (body : Py V Unit) : Py V Unit :=
  body.attempt fun e => if p e then pure () else .raise e

/-- `with os.fdopen(fd)`. -/
def closing (fd : Fd) (body : Py V α) : Py V α := body.ensure (close fd)

/-! ## Files -/

/-- The body of `with _store()`, with the directories that are opened under the lock. -/
def opened (body : Py V α) : Py V α := do
  openDir (py "blobs")
  openDir (py "manifests")
  body

/-- The end of `with _store()`, of a body that ended with `r`. -/
def closeStore (r : Except Exc α) : Py V α :=
  (release (raised r)).andThen fun
    | .ok _ => .done r
    | .error e => .raise e

/-- `_store` up to the lock, and the body. -/
def locked (body : Py V α) : Py V α := do
  openRoot
  openLock
  flock
  opened body

/-- `with _store()`: under the lock, with the directories open. -/
def withStore (body : Py V α) : Py V α := do
  let g ← globals
  if !g.directory then
    .raise (.runtimeError (py "checkpoint storage unavailable: " ++
      g.storageError.getD (py "not initialized")))
  else (locked body).andThen closeStore

/-- A name that `_atomic_write` makes up. -/
def temporaryName (hex : Hex) : PyStr := py ".tmp-" ++ hex.val

def IsTemporary (name : PyStr) : Prop := ∃ hex : Hex, name = temporaryName hex

def atomicWrite (d : Dir) (name : PyStr) (data : Bytes) : Py V Unit := do
  let hex ← uuid4
  let temporary := temporaryName hex
  let body : Py V Unit := do
    let fd ← openFile d temporary .create
    closing fd do
      write fd data
      fsync fd
    replace d temporary name
    fsyncDir d
  body.ensure (suppress (·.kind = .fileNotFound) (unlink d temporary .temporary))

def exceeds (limit : Nat) : Exc :=
  .valueError (py "checkpoint file exceeds " ++ py (toString limit) ++ py " bytes")

/-- `_read` -/
def readFile (d : Dir) (name : PyStr) (limit : Nat) : Py V (Bytes × Info) := do
  let fd ← openFile d name .read
  let (data, info) ← closing fd do
    let info ← fstat fd
    if limit < info.size then .raise (exceeds limit)
    else
      let data ← read fd (limit + 1)
      pure (data, info)
  if limit < data.length then .raise (exceeds limit) else pure (data, info)

end PiIpython.Checkpoint
