import EventCamera.Replay

/-! # A tree of files in memory

Directories, files and devices by their places in a tree, and what a path leads to from a working
directory. -/

namespace EventCamera

/-- A place in a tree: the names on the way to it, the last one first. The root has none. -/
abbrev Place := List String

/-- What can be opened, besides a directory. -/
inductive Content where
  | stored (bytes : ByteArray)
  /-- A device that takes every text and keeps none. -/
  | void
  /-- A device without any room. -/
  | full
  | stream (text : String)

/-- Directories, and what is in them. -/
structure FileTree where
  directories : List Place
  contents : List (Place × Content)
  here : Place

namespace FileTree

def nameLimit : Nat := 255

/-- The number of bytes from which on a path is too long. -/
def pathLimit : Nat := 4096

def content? (t : FileTree) (place : Place) : Option Content :=
  t.contents.lookup place

def put (t : FileTree) (place : Place) (content : Content) : FileTree :=
  { t with contents := (place, content) :: t.contents.filter (·.1 != place) }

/-- Takes one step from a directory to another one. -/
def enter (t : FileTree) (directory : Place) (step : String) : Except StorageError Place :=
  if step = "." then .ok directory
  else if step = ".." then .ok directory.tail
  else if nameLimit < step.utf8ByteSize then .error .nameTooLong
  else if step :: directory ∈ t.directories then .ok (step :: directory)
  else if (t.content? (step :: directory)).isSome then .error .notDirectory
  else .error .missing

/-- The directory in which the last step of a path is taken, and that step. A path that begins with
a slash starts at the root. -/
def approach (t : FileTree) (path : String) : Except StorageError (Place × String) := do
  if path = "" then .error .missing
  else if pathLimit ≤ path.utf8ByteSize then .error .nameTooLong
  else
    let steps := (path.splitOn "/").filter (· ≠ "")
    let directory ← steps.dropLast.foldlM t.enter (if path.startsWith "/" then [] else t.here)
    .ok (directory, steps.getLast?.getD ".")

/-- The place that a path leads to; `none` if a directory is there. Only a directory may have a
slash behind it. -/
def find (t : FileTree) (path : String) : Except StorageError (Option Place) := do
  let (directory, step) ← t.approach path
  match t.enter directory step with
  | .ok _ => .ok none
  | .error .notDirectory =>
    if path.endsWith "/" then .error .notDirectory else .ok (some (step :: directory))
  | .error e => .error e

/-- The place where a file is, or is to be. A slash behind it asks for a directory, even if there
is none. -/
def findRoom (t : FileTree) (path : String) : Except StorageError Place := do
  let (directory, step) ← t.approach path
  if path.endsWith "/" then .error .isDirectory
  else
    match t.enter directory step with
    | .ok _ => .error .isDirectory
    | .error .missing | .error .notDirectory => .ok (step :: directory)
    | .error e => .error e

/-- A file that is being written, and the number of bytes written so far. -/
structure Handle where
  place : Place
  position : Nat := 0

/-- Opens a file for writing, and makes or empties it. Devices and streams stay as they are. -/
def create (t : FileTree) (path : String) : Except StorageError (Handle × FileTree) := do
  let place ← t.findRoom path
  match t.content? place with
  | some (.stored _) | none => .ok ({ place }, t.put place (.stored .empty))
  | some _ => .ok ({ place }, t)

/-- Bytes with others in place of those from a position on. -/
def overlay (bytes : ByteArray) (position : Nat) (others : ByteArray) : ByteArray :=
  bytes.extract 0 position ++ others ++ bytes.extract (position + others.size) bytes.size

/-- Writes text behind what a handle has written. Others may have written to the same place. -/
def write (t : FileTree) (h : Handle) (text : String) : Except StorageError (Handle × FileTree) :=
  let bytes := text.toUTF8
  let moved := { h with position := h.position + bytes.size }
  match t.content? h.place with
  | some (.stored old) => .ok (moved, t.put h.place (.stored (overlay old h.position bytes)))
  | some .void => .ok (moved, t)
  | some .full => .error .noSpace
  | some (.stream old) => .ok (moved, t.put h.place (.stream (old ++ text)))
  | none => .error .missing

/-- The bytes of a file as a source. A directory can be opened, but not read; there is nothing to
read from a device or a stream. -/
def source (t : FileTree) (path : String) (size : Nat) : Source :=
  match t.find path with
  | .ok (some place) =>
    match t.content? place with
    | some (.stored bytes) => .ofBytes size bytes.toList
    | _ => { pieces := [] }
  | _ => { pieces := [.lost] }

def attempt {α : Type} (f : FileTree → Except StorageError (α × FileTree)) :
    StateM FileTree (Except StorageError α) := fun t =>
  match f t with
  | .ok (a, t) => (.ok a, t)
  | .error e => (.error e, t)

def files : Files (StateM FileTree) where
  Handle := Handle
  check path := do return ((← get).find path).map fun _ => ()
  create path := attempt (·.create path)
  source path size := do return (← get).source path size
  write handle text := attempt (·.write handle text)

/-- The usual directories, devices and streams, with an empty working directory. -/
def usual : FileTree where
  directories :=
    ["work", "tmp"] :: [] :: ["bin", "dev", "etc", "home", "lib", "opt", "proc", "root", "run",
      "sbin", "srv", "sys", "tmp", "usr", "var"].map ([·])
  contents := [(["null", "dev"], .void), (["full", "dev"], .full), (["stdin", "dev"], .void),
    (["stdout", "dev"], .stream ""), (["stderr", "dev"], .stream "")]
  here := ["work", "tmp"]

def streamed (t : FileTree) (place : Place) : String :=
  match t.content? place with
  | some (.stream text) => text
  | _ => ""

/-- The files in the working directory, by their names. -/
def listing (t : FileTree) : List (String × ByteArray) :=
  t.contents.filterMap fun
    | (name :: directory, .stored bytes) => if directory = t.here then some (name, bytes) else none
    | _ => none

end FileTree

end EventCamera
