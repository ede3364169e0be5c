import D3OS.Base.Rust

/-!
# The naming tree

Lookup of a path, `os/kernel/src/naming/lookup.rs`, and `mkdir`, `touch` and `mkfifo`,
`os/kernel/src/naming/api.rs`, over directories of `tmpfs` and of file systems that create nothing,
with any table of mounts. A path is the list of its characters, an object is known by a number.
-/

namespace D3OS.Naming

open Lib

/-- The characters of a path, or of a component of one. -/
abbrev Path := List Char

namespace Path

/-- The path of the root. -/
def slash : Path := ['/']

/-- `path.split("/")`. -/
def components (path : Path) : List Path := path.splitOn '/'

/-- `components.join("/")`. -/
def join (components : List Path) : Path := slash.intercalate components

/-- `check_absolute_path`, `lookup.rs:106`. -/
def checkAbsolutePath (path : Path) : Bool := path.head? == some '/'

/-- `build_path`, `lookup.rs:96`. -/
def buildPath (cur component : Path) : Path :=
  if cur = slash then cur ++ component else cur ++ '/' :: component

/-- The name of a new object. -/
def name (path : Path) : Path := path.components.getLastD []

/-- The path of the directory for a new object, `api.rs:137`. -/
def parent (path : Path) : Path :=
  let components := path.components.dropLast
  if components.length = 1 then slash else join components

end Path

/-- `NamedObject`, `traits.rs:59`. -/
inductive NamedObject where
  | file (id : Nat)
  | pipe (id : Nat)
  | dir (id : Nat)
  deriving DecidableEq, Repr

namespace NamedObject

/-- The number of an object. -/
def id : NamedObject → Nat
  | file id | pipe id | dir id => id

/-- The directory, if the object is one. -/
def asDir : NamedObject → Except Errno Nat
  | dir id => .ok id
  | file _ | pipe _ => .error .enotdir

end NamedObject

/-- What a call creates. -/
inductive ObjectKind where
  | file
  | pipe
  | dir
  deriving DecidableEq, Repr

/-- A new object of a kind. -/
def ObjectKind.object (id : Nat) : ObjectKind → NamedObject
  | file => .file id
  | pipe => .pipe id
  | dir => .dir id

@[simp] private theorem ObjectKind.id_object (kind : ObjectKind) (id : Nat) :
    (kind.object id).id = id := by
  cases kind <;> rfl

/-- A directory of `tmpfs`, or one of a file system that creates nothing, as `procfs`. -/
inductive Directory where
  | tmpfs (files : List (Path × NamedObject))
  | other (lookup : Path → Option NamedObject)

namespace Directory

/-- `DirectoryObject::lookup`, `tmpfs.rs:113`. The caller does not look at the error. -/
def lookup (name : Path) : Directory → Option NamedObject
  | tmpfs files => (files.find? fun e ↦ e.1 == name).map (·.2)
  | other lookup => lookup name

/-- `create_file`, `create_dir` and `create_pipe`, `tmpfs.rs:127`, of an object that is new. -/
def create (name : Path) (object : NamedObject) : Directory → Except Errno Directory
  | tmpfs files =>
    if files.any fun e ↦ e.1 == name then .error .eexist
    else .ok (.tmpfs (files ++ [(name, object)]))
  | other _ => .error .enotsup

/-- What is found after an object was created. -/
theorem lookup_create {d d' : Directory} {name : Path} {object : NamedObject}
    (h : d.create name object = .ok d') (c : Path) :
    d'.lookup c = if c = name then some object else d.lookup c := by
  cases d with
  | other lookup => exact absurd h nofun
  | tmpfs files =>
    rw [create] at h
    split at h
    · exact absurd h nofun
    next hnew =>
      cases h
      have hnone : c = name → files.find? (fun e ↦ e.1 == c) = none := by
        rintro rfl
        rw [List.find?_eq_none]
        exact fun e he hname ↦ hnew (List.any_eq_true.mpr ⟨e, he, hname⟩)
      show ((files ++ [(name, object)]).find? fun e ↦ e.1 == c).map (·.2) = _
      rw [List.find?_append]
      split
      next heq =>
        rw [hnone heq, heq, Option.none_or, List.find?_singleton, if_pos (beq_self_eq_true name)]
        rfl
      next hne =>
        rw [List.find?_singleton, if_neg (fun hname ↦ hne (beq_iff_eq.mp hname).symm),
          Option.or_none]
        rfl

/-- A new name was free. -/
theorem lookup_of_create {d d' : Directory} {name : Path} {object : NamedObject}
    (h : d.create name object = .ok d') : d.lookup name = none := by
  cases d with
  | other lookup => exact absurd h nofun
  | tmpfs files =>
    rw [create] at h
    split at h
    · exact absurd h nofun
    next hnew =>
      show (files.find? fun e ↦ e.1 == name).map (·.2) = none
      rw [Option.map_eq_none_iff, List.find?_eq_none]
      exact fun e he hname ↦ hnew (List.any_eq_true.mpr ⟨e, he, hname⟩)

end Directory

/-- The directories, the root, and the directory that is mounted at a path. The objects have the
numbers below `next`; a directory that is not there yet is empty. -/
structure Tree where
  dirs : Nat → Directory
  next : Nat
  root : Nat
  mounts : Path → Option Nat
  root_lt : root < next
  mounts_lt : ∀ path dir, mounts path = some dir → dir < next
  entries_lt : ∀ dir name object, (dirs dir).lookup name = some object → object.id < next
  unused : ∀ dir, next ≤ dir → dirs dir = .tmpfs []

namespace Tree

open Naming.Path

/-- The loop of `lookup_named_object` from a directory and the path so far, `lookup.rs:49`. -/
def walk (t : Tree) (dir : Nat) (cur : Path) : List Path → Except Errno NamedObject
  | [] => .error .enoent
  | component :: rest =>
    match (t.dirs dir).lookup component with
    | none => .error .enoent
    | some found =>
      match t.mounts (buildPath cur component) with
      | some mounted =>
        if rest = [] then .ok (.dir mounted) else t.walk mounted (buildPath cur component) rest
      | none =>
        if rest = [] then .ok found
        else
          match found with
          | .dir dir => t.walk dir (buildPath cur component) rest
          | _ => .error .enoent

/-- `lookup_named_object`, `lookup.rs:30`. -/
def lookup (t : Tree) (path : Path) : Except Errno NamedObject :=
  if checkAbsolutePath path then
    if path = slash then .ok (.dir t.root) else t.walk t.root slash path.components.tail
  else .error .enoent

/-- `lookup_dir`, `lookup.rs:19`. -/
def lookupDir (t : Tree) (path : Path) : Except Errno Nat := do
  let object ← t.lookup path
  object.asDir

private theorem walk_lt {t : Tree} {dir : Nat} {cur : Path} {components : List Path}
    {object : NamedObject}
    (h : t.walk dir cur components = .ok object) : object.id < t.next := by
  fun_induction t.walk dir cur components
  case case1 => exact absurd h nofun
  case case2 => exact absurd h nofun
  case case3 hmount =>
    cases h
    exact t.mounts_lt _ _ hmount
  case case4 ih => exact ih h
  case case5 hfound _ =>
    cases h
    exact t.entries_lt _ _ _ hfound
  case case6 ih => exact ih h
  case case7 => exact absurd h nofun

private theorem lookup_lt {t : Tree} {path : Path} {object : NamedObject}
    (h : t.lookup path = .ok object) :
    object.id < t.next := by
  rw [lookup] at h
  split at h
  · split at h
    · cases h
      exact t.root_lt
    · exact walk_lt h
  · exact absurd h nofun

/-- The path of a directory. -/
theorem lookupDir_eq_ok {t : Tree} {path : Path} {dir : Nat} :
    t.lookupDir path = .ok dir ↔ t.lookup path = .ok (.dir dir) := by
  rw [lookupDir, bind_eq_ok]
  constructor
  · rintro ⟨object, hlookup, hdir⟩
    cases object with
    | dir id =>
      cases hdir
      exact hlookup
    | file id | pipe id => exact absurd hdir nofun
  · exact fun hlookup ↦ ⟨_, hlookup, rfl⟩

/-- A new object takes the next number; a directory changes. -/
def add (t : Tree) {dir : Nat} {new : Directory} {name : Path} {object : NamedObject}
    (hnew : (t.dirs dir).create name object = .ok new) (hid : object.id = t.next)
    (hdir : dir < t.next) : Tree where
  dirs := Function.update t.dirs dir new
  next := t.next + 1
  root := t.root
  mounts := t.mounts
  root_lt := Nat.lt_succ_of_lt t.root_lt
  mounts_lt path dir h := Nat.lt_succ_of_lt (t.mounts_lt path dir h)
  entries_lt dir' c object' h := by
    rw [Function.update_apply] at h
    split at h
    next heq =>
      rw [Directory.lookup_create hnew] at h
      split at h
      · cases h
        rw [hid]
        exact Nat.lt_succ_self t.next
      · exact Nat.lt_succ_of_lt (t.entries_lt dir c object' h)
    · exact Nat.lt_succ_of_lt (t.entries_lt dir' c object' h)
  unused dir' h := by
    rw [Function.update_of_ne]
    · exact t.unused dir' (Nat.le_of_succ_le h)
    · rintro rfl
      omega

/-- What `mkdir`, `touch` and `mkfifo` do for a kind of object, and what they return for an
error. -/
def createAt (report : Errno → Errno) (kind : ObjectKind) (t : Tree) (path : Path) :
    Except Errno Nat × Tree :=
  match hdir : t.lookupDir path.parent with
  | .error e => (.error (report e), t)
  | .ok dir =>
    match hnew : (t.dirs dir).create path.name (kind.object t.next) with
    | .error e => (.error (report e), t)
    | .ok _ =>
      (.ok 0, t.add hnew (kind.id_object t.next) (lookup_lt (lookupDir_eq_ok.mp hdir)))

/-- `mkdir`, `api.rs:129`. -/
def mkdir : Tree → Path → Except Errno Nat × Tree := createAt (fun _ ↦ .enotdir) .dir

/-- `touch`, `api.rs:163`. -/
def touch : Tree → Path → Except Errno Nat × Tree := createAt (fun _ ↦ .enotdir) .file

/-- `mkfifo`, `api.rs:274`. -/
def mkfifo : Tree → Path → Except Errno Nat × Tree := createAt id .pipe

end Tree

end D3OS.Naming
