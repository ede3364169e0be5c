import D3OS.Naming.OpenObjects

/-!
# Calls on open files

`open`, `write`, `read`, `seek` and `close` of `os/kernel/src/naming/open_objects.rs` on the files
of `os/kernel/src/naming/tmpfs.rs`. The position is kept with the handle, the data and a size of its
own with the file.
-/

namespace D3OS.Naming

/-- `File`, `tmpfs.rs:212`, with the size of its `Stat`. -/
structure File where
  data : List UInt8
  size : Nat
  deriving DecidableEq, Repr

namespace File

/-- `File::read`, `tmpfs.rs:234`: the bytes that are copied to the front of the buffer. -/
def read (len offset : Nat) (file : File) : List UInt8 :=
  if offset > file.data.length then []
  else
    let len := if file.data.length - offset < len then file.data.length - offset else len
    (file.data.drop offset).take len

/-- `data.resize`, which panics when the heap has no room for more than `limit` bytes. -/
def resize (limit size : Nat) (file : File) : Except Panic File :=
  if size ≤ limit then
    .ok ⟨file.data ++ List.replicate (size - file.data.length) 0, size⟩
  else .error .outOfFrames

/-- The data and the size grow if the bytes end behind them. -/
def grow (limit stop : Nat) (file : File) : Except Panic File :=
  if stop > file.data.length then file.resize limit stop else .ok file

/-- `data[offset..stop].clone_from_slice(buf)`. -/
def cloneFromSlice (buf : List UInt8) (offset stop : Nat) (file : File) : Except Panic File :=
  if offset ≤ stop ∧ stop ≤ file.data.length ∧ stop - offset = buf.length then
    .ok { file with data := file.data.take offset ++ (buf ++ file.data.drop stop) }
  else .error .assertion

/-- `File::write`, `tmpfs.rs:246`. It does not look at the options. -/
def write (mode : Overflow) (limit : Nat) (buf : List UInt8) (offset : Nat) (file : File) :
    Except Panic (Nat × File) := do
  let stop ← mode.add 64 offset buf.length
  let file ← file.grow limit stop
  let file ← file.cloneFromSlice buf offset stop
  return (buf.length, file)

end File

/-- `n as isize`. -/
def asIsize (n : Nat) : Int := if n < 2 ^ 63 then n else n - 2 ^ 64

/-- `i as usize`. -/
def asUsize (i : Int) : Nat := (i % 2 ^ 64).toNat

/-- Plain `a + b` on `isize`. -/
def addIsize (mode : Overflow) (a b : Int) : Except Panic Int :=
  if -2 ^ 63 ≤ a + b ∧ a + b < 2 ^ 63 then .ok (a + b)
  else
    match mode with
    | .panics => .error .overflow
    | .wraps => .ok ((a + b + 2 ^ 63) % 2 ^ 64 - 2 ^ 63)

/-- A call. A path is the number of the file that it names. -/
inductive Call where
  | open (file : Nat) (flags : OpenOptions)
  | write (handle : Nat) (buf : List UInt8)
  | read (handle len : Nat)
  | seek (handle : Nat) (offset : Int64) (origin : SeekOrigin)
  | stat (handle : Nat)
  | close (handle : Nat)

/-- What a call returns: a number, or the bytes that were read. -/
inductive Result where
  | number (n : Nat)
  | bytes (data : List UInt8)
  deriving DecidableEq, Repr

/-- The files and the table of open objects. -/
structure FileSystem where
  files : List File
  table : OpenObjectTable Nat

namespace FileSystem

/-- The object of a handle and its file. An open object keeps its file alive. -/
def opened (handle : Nat) (s : FileSystem) : Option (OpenedObject Nat × File) := do
  let object ← s.table.lookupOpenedObject handle
  let file ← s.files[object.object]?
  return (object, file)

section

variable (mode : Overflow) (limit : Nat)

/-- `open`, `open_objects.rs:40`. -/
def openFile (file : Nat) (flags : OpenOptions) (s : FileSystem) :
    Except Errno Result × FileSystem :=
  match s.files[file]? with
  | none => (.error .enoent, s)
  | some _ =>
    if contains flags .directory then (.error .enotdir, s)
    else
      match s.table.allocateHandle ⟨file, 0, flags⟩ with
      | .error e => (.error e, s)
      | .ok (handle, table) => (.ok (.number handle), { s with table := table })

/-- `write`, `open_objects.rs:72`. -/
def write (handle : Nat) (buf : List UInt8) (s : FileSystem) :
    Except Panic (Except Errno Result × FileSystem) :=
  match s.opened handle with
  | none => .ok (.error .einvalh, s)
  | some (object, file) => do
    let (written, file) ← file.write mode limit buf object.pos
    let pos ← mode.add 64 object.pos written
    return (.ok (.number written),
      ⟨s.files.set object.object file, s.table.storePos handle pos⟩)

/-- `read`, `open_objects.rs:98`. -/
def read (handle len : Nat) (s : FileSystem) : Except Panic (Except Errno Result × FileSystem) :=
  match s.opened handle with
  | none => .ok (.error .einvalh, s)
  | some (object, file) => do
    let bytes := file.read len object.pos
    let pos ← mode.add 64 object.pos bytes.length
    return (.ok (.bytes bytes), { s with table := s.table.storePos handle pos })

/-- The position that `seek` stores. -/
def seekTarget (offset : Int64) (origin : SeekOrigin) (object : OpenedObject Nat) (file : File) :
    Except Panic Nat := do
  let target ←
    match origin with
    | .start => .ok offset.toInt
    | .end => addIsize mode (asIsize file.size) offset.toInt
    | .current => addIsize mode (asIsize object.pos) offset.toInt
  return asUsize target

/-- `seek`, `open_objects.rs:126`. -/
def seek (handle : Nat) (offset : Int64) (origin : SeekOrigin) (s : FileSystem) :
    Except Panic (Except Errno Result × FileSystem) :=
  match s.opened handle with
  | none => .ok (.error .einvalh, s)
  | some (object, file) => do
    let pos ← seekTarget mode offset origin object file
    return (.ok (.number pos), { s with table := s.table.storePos handle pos })

/-- `stat` of the file of a handle, `tmpfs.rs:230`. -/
def stat (handle : Nat) (s : FileSystem) : Except Errno Result × FileSystem :=
  match s.opened handle with
  | none => (.error .einvalh, s)
  | some (_, file) => (.ok (.number file.size), s)

/-- `close`, `open_objects.rs:159`. -/
def close (handle : Nat) (s : FileSystem) : Except Errno Result × FileSystem :=
  match s.table.freeHandle handle with
  | .error e => (.error e, s)
  | .ok table => (.ok (.number 0), { s with table := table })

/-- One call. -/
def step (s : FileSystem) : Call → Except Panic (Except Errno Result × FileSystem)
  | .open file flags => .ok (s.openFile file flags)
  | .write handle buf => s.write mode limit handle buf
  | .read handle len => s.read mode handle len
  | .seek handle offset origin => s.seek mode handle offset origin
  | .stat handle => .ok (s.stat handle)
  | .close handle => .ok (s.close handle)

/-- Calls in turn, with what each returned. -/
def run : FileSystem → List Call → Except Panic (List (Except Errno Result) × FileSystem)
  | s, [] => .ok ([], s)
  | s, call :: calls => do
    let (answer, s) ← step mode limit s call
    let (answers, s) ← run s calls
    return (answer :: answers, s)

end

/-- Files with these contents, none of them open. -/
def start (contents : List (List UInt8)) : FileSystem :=
  ⟨contents.map fun data ↦ ⟨data, data.length⟩, .new⟩

end FileSystem

end D3OS.Naming
