/-
  The working directory of one request: files under relative paths, and the directories
  made for them.

  A path is walked part by part from the working directory (from the root when it starts
  with `/`): empty and `.` parts stay, `..` steps up, and a name enters a directory, which
  must exist. Above the working directory lie only directories: each `..` there climbs one
  more level, and nothing is found there but what this request writes. A directory exists
  when it was made or when a file lies below it.

  Reading fails as `missing` when nothing is at the path or on the way to it, and as
  `unreadable` when a directory is there, when a part on the way is a file, or when the
  path is written as a directory (`a/`, `a/.`, `a/..`). Writing first makes the parent
  directories, as `mkdir -p` does, then puts the bytes under the path; a path written as a
  directory cannot be written. Replacing a file writes the bytes to a temporary file beside
  it and renames that over the path; each step keeps its effect when a later one fails.

  The device may refuse any step of a replacement, for a cause of its own: a full device, a
  permission, an I/O error (`Refusal`). Making the parents is then cut short after some of
  the missing directories, and writing the temporary file after some of its bytes.
-/

namespace Telemetry

/-- Files and directories, each by the place a walk from the working directory reaches. -/
structure Disk where
  files : List (List String × ByteArray) := []
  dirs : List (List String) := []

/-- Why a read or a write failed. -/
inductive DiskFault where
  /-- Nothing exists at the path. -/
  | missing
  /-- Something is there, or on the way, that is not a file where one is needed. -/
  | unreadable
  /-- The device refused the step, for a cause of its own. -/
  | refused
  deriving DecidableEq, Repr

/-- The step of a replacement that the device refuses; the steps before it keep their effect. -/
inductive Refusal where
  /-- Making the parent directories, once the first `n` of those missing are made (all of
  them, when fewer are missing). -/
  | makeDir (n : Nat)
  /-- Writing the temporary file, once its first `n` bytes are written. -/
  | writeTemp (n : Nat)
  /-- Renaming the temporary file over the path. -/
  | rename
  deriving DecidableEq, Repr

/-- The bytes the temporary file is given: all of them, but for a refused write, which stops
after its first `n`. -/
def Refusal.written : Option Refusal → ByteArray → ByteArray
  | some (.writeTemp n), bytes => bytes.extract 0 n
  | _, bytes => bytes

namespace Disk

/-- Where a walk starts: the root for an absolute path, else the working directory. -/
def origin (path : String) : List String := if path.startsWith "/" then ["/"] else []

/-- One step up from a place. Above the working directory the place is a run of `..`
steps, and climbing adds one more; the root is its own parent. -/
def up (here : List String) : List String :=
  if here == ["/"] then here
  else if here.all (· == "..") then here ++ [".."]
  else here.dropLast

/-- The parts of a path, as split at `/`. -/
def parts (path : String) : List String := (path.toList.splitOn '/').map String.ofList

/-- The path is written as a directory: empty, or ending in `/`, `.` or `..`. -/
def dirOnly (path : String) : Bool :=
  match (parts path).getLast? with
  | some last => last == "" || last == "." || last == ".."
  | none => true

/-- The directories a path's parent consists of: its parts less empty and `.` parts, the
last one dropped. -/
def parentParts (path : String) : List String :=
  ((parts path).filter fun p => p != "" && p != ".").dropLast

/-- The bytes of the file at a place. -/
def fileAt? (d : Disk) (place : List String) : Option ByteArray := d.files.lookup place

/-- A directory exists at a place. -/
def isDir (d : Disk) (place : List String) : Bool :=
  place == ["/"] || place.all (· == "..") || d.dirs.contains place ||
  d.files.any fun (p, _) => place.isPrefixOf p && place.length < p.length

/-- The fault of a place that is not a directory: a file there, or nothing. -/
def notDir (d : Disk) (place : List String) : DiskFault :=
  if (d.fileAt? place).isSome then .unreadable else .missing

/-- Walks through parts from a place; every name entered must be a directory. -/
def walk (d : Disk) : List String → List String → Except DiskFault (List String)
  | here, [] => .ok here
  | here, p :: ps =>
    if p == "" || p == "." then d.walk here ps
    else if p == ".." then d.walk (up here) ps
    else
      let next := here ++ [p]
      if d.isDir next then d.walk next ps else .error (d.notDir next)

/-- The place a path names, walking all its parts but the last; a path written as a
directory names no file. -/
def locate (d : Disk) (path : String) : Except DiskFault (List String) := do
  let ps := parts path
  let here ← d.walk (origin path) ps.dropLast
  if dirOnly path then
    let _ ← d.walk here [ps.getLastD ""]
    throw .unreadable
  pure (here ++ [ps.getLastD ""])

/-- Reads the file at a path. -/
def read (d : Disk) (path : String) : Except DiskFault ByteArray := do
  if path.isEmpty then throw .missing
  let place ← d.locate path
  match d.fileAt? place with
  | some bytes => pure bytes
  | none => throw (if d.isDir place then .unreadable else .missing)

/-- Makes each directory along the parts from a place, as `mkdir -p` does: a missing name
becomes a directory, `.` stays and `..` climbs. A file on the way stops the walk with the
directories made so far kept. -/
def makeDirsAlong (d : Disk) : List String → List String → Disk × Option DiskFault
  | _, [] => (d, none)
  | here, p :: ps =>
    if p == "" || p == "." then d.makeDirsAlong here ps
    else if p == ".." then d.makeDirsAlong (up here) ps
    else
      let next := here ++ [p]
      if d.isDir next then d.makeDirsAlong next ps
      else if (d.fileAt? next).isSome then (d, some .unreadable)
      else { d with dirs := d.dirs ++ [next] }.makeDirsAlong next ps

/-- Makes the parent directories of a path; answers the disk afterwards and the fault that
stopped it, if any. -/
def makeParents (d : Disk) (path : String) : Disk × Option DiskFault :=
  d.makeDirsAlong (origin path) (parentParts path)

/-- Makes the parent directories of a path until the device refuses, once `n` of the
directories it adds are made: those stay made. A file in the way that stops it sooner is the
fault. -/
def makeParentsUpTo (d : Disk) (path : String) (n : Nat) : Disk × Option DiskFault :=
  let (made, fault) := d.makeParents path
  if d.dirs.length + n < made.dirs.length then
    ({ made with dirs := made.dirs.take (d.dirs.length + n) }, some .refused)
  else (made, some (fault.getD .refused))

/-- Puts bytes at a place: fails on a directory. -/
def put (d : Disk) (place : List String) (bytes : ByteArray) : Except DiskFault Disk :=
  if d.isDir place then .error .unreadable
  else .ok { d with files := (d.files.filter fun (p, _) => p != place) ++ [(place, bytes)] }

/-- Writes a file at a path, making its parent directories first; a path written as a
directory names no file and fails. -/
def write (d : Disk) (path : String) (bytes : ByteArray) : Except DiskFault Disk := do
  if dirOnly path then throw .unreadable
  let d ← match d.makeParents path with
    | (d, none) => pure d
    | (_, some e) => throw e
  let place ← d.locate path
  d.put place bytes

/-- The components of a path: its parts less empty and `.` parts, but for a `.` that starts
it. -/
def components (path : String) : List String :=
  match parts path with
  | [] => []
  | first :: rest =>
    (if first == "" then [] else [first]) ++ rest.filter fun p => p != "" && p != "."

/-- The temporary file a replacement is first written to: the last name of the path with
`.tmp` added, or a file `.tmp` inside the path when it ends in no name (nothing, the root,
a leading `.`, or `..`). -/
def tempPath (path : String) : String :=
  let cs := components path
  let named := match cs.getLast? with
    | some last => last != "." && last != ".."
    | none => false
  let cs := if named then cs.dropLast ++ [cs.getLastD "" ++ ".tmp"] else cs ++ [".tmp"]
  (if path.startsWith "/" then "/" else "") ++ "/".intercalate cs

/-- Moves the file at a place to a path: fails when the path is written as a directory or a
directory is there; a file there is replaced. -/
def rename (d : Disk) (source : List String) (path : String) : Except DiskFault Disk := do
  if dirOnly path then throw .unreadable
  let place ← d.locate path
  if d.isDir place then throw .unreadable
  let bytes := (d.fileAt? source).getD ByteArray.empty
  let kept := d.files.filter fun (p, _) => p != source && p != place
  pure { d with files := kept ++ [(place, bytes)] }

/-- Replaces the file at a path on a device that refuses the step `refusal` names, if any:
makes the parent directories, writes the bytes to the temporary file of the path, then renames
it over the path. A failing step keeps what the steps before it did, so a failed rename leaves
the temporary file, and a refused write leaves it holding the bytes written before. Answers
the disk afterwards and the fault, if any. -/
def replaceUnder (d : Disk) (path : String) (bytes : ByteArray) (refusal : Option Refusal) :
    Disk × Option DiskFault :=
  match refusal with
  | some (.makeDir n) => d.makeParentsUpTo path n
  | _ =>
    match d.makeParents path with
    | (d, some e) => (d, some e)
    | (d, none) =>
      match d.locate (tempPath path) with
      | .error e => (d, some e)
      | .ok temp =>
        match d.put temp (Refusal.written refusal bytes) with
        | .error e => (d, some e)
        | .ok d =>
          -- a refusal left for now is one of writing the temporary file or of the rename
          if refusal.isSome then (d, some .refused)
          else
            match d.rename temp path with
            | .ok d => (d, none)
            | .error e => (d, some e)

/-- Replaces the file at a path on a device that refuses nothing. -/
def replace (d : Disk) (path : String) (bytes : ByteArray) : Disk × Option DiskFault :=
  d.replaceUnder path bytes none

end Disk

end Telemetry
