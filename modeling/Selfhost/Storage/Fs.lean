import Selfhost.Lib.Forest
import Selfhost.Storage.Path
import Selfhost.Storage.Quota

/-!
# Directories of a share

The directory operations of `services/storage/src/fs.rs` on a disk without faults, links or devices. The
disk is one tree whose topmost entries are the roots of the shares, and an open directory is the way down to
it. Names are compared as they are spelled, as on ext4; which names the crate calls the same up to case is a
question to `Platform.lowercase`.
-/

namespace Selfhost.Storage

open Selfhost.Lib

/-- The contents of a file. Its length is a 64-bit number. -/
structure FileData where
  bytes : Bytes
  small : bytes.length < 2 ^ 64
  deriving DecidableEq

def FileData.len (data : FileData) : UInt64 := UInt64.ofNat data.bytes.length

abbrev Disk := Forest Str FileData

/-- An open directory: the share it is in and the names down to it. -/
abbrev Dir := List Str

/-- What the crate asks of the machine it runs on. -/
structure Platform where
  /-- `char::to_lowercase`. -/
  lowercase : Char → Str
  /-- The file system a share lies on. -/
  device : Str → Nat
  /-- Bytes free on the file system of a share, as the disk stands. -/
  freeSpace : Str → Disk → UInt64
  /-- A name no other call has used, inside the reserved namespace. -/
  temporaryName : Nat → {s : Str // tempPrefix <+: s}

/-- A machine with one file system of a gigabyte, whose letters fold as in ASCII. -/
def oneDisk : Platform where
  lowercase c := [c.toLower]
  device _ := 0
  freeSpace _ _ := 1000000000
  temporaryName n := ⟨tempPrefix ++ Nat.toDigits 16 n, List.prefix_append _ _⟩

/-- How deep any walk but a removal descends. -/
def maxTreeDepth : Nat := 64

inductive OpenError where
  | refused (refusal : Refusal)
  | notFound
  | notADirectory
  | notAFile
  | alreadyExists
  | io (code : Nat)
  deriving DecidableEq, Repr

inductive WriteError where
  | refused (refusal : Refusal)
  | nameTaken
  | collides (existing : Str)
  | openFailed (error : OpenError)
  | io (code : Nat)
  deriving DecidableEq, Repr

/-- `From<OpenError> for WriteError`. -/
def WriteError.ofOpen : OpenError → WriteError
  | .refused refusal => .refused refusal
  | .alreadyExists => .nameTaken
  | other => .openFailed other

inductive Existing where
  | refuse
  | replace
  deriving DecidableEq, Repr

/-! ## Reading -/

def openDir (disk : Disk) (here : Dir) (name : Str) : Except OpenError Dir :=
  match validateSegment name with
  | .error refusal => .error (.refused refusal)
  | .ok () =>
      match disk.get (here ++ [name]) with
      | none => .error .notFound
      | some (.file _) => .error .notADirectory
      | some (.dir _) => .ok (here ++ [name])

/-- Walks a relative path, one name at a time. -/
def walk (disk : Disk) (here : Dir) : List Str → Except OpenError Dir
  | [] => .ok here
  | name :: rest =>
      match openDir disk here name with
      | .error error => .error error
      | .ok next => walk disk next rest

def openFile (disk : Disk) (here : Dir) (name : Str) : Except OpenError FileData :=
  match validateSegment name with
  | .error refusal => .error (.refused refusal)
  | .ok () =>
      match disk.get (here ++ [name]) with
      | none => .error .notFound
      | some (.file data) => .ok data
      | some (.dir _) => .error .notAFile

/-- The names in a directory. -/
def dirNames (disk : Disk) (here : Dir) : Except OpenError (List Str) :=
  match disk.get here with
  | some (.dir inside) => .ok inside.names
  | _ => .error .notFound

/-- The case-folded form of a name. -/
def folded (platform : Platform) (name : Str) : Str := name.flatMap platform.lowercase

/-- Whether two names certainly fold together. A name does not collide with itself. -/
def collides (platform : Platform) (existing proposed : Str) : Bool :=
  existing ≠ proposed && folded platform existing = folded platform proposed

/-- Every existing name that folds onto `proposed`. -/
def collisions (platform : Platform) (disk : Disk) (here : Dir) (proposed : Str) :
    Except OpenError (List Str) :=
  match dirNames disk here with
  | .error error => .error error
  | .ok names => .ok (names.filter (collides platform · proposed))

/-- What a child is: a directory, or a file of some size. -/
def stat (disk : Disk) (here : Dir) (name : Str) : Except OpenError (Option UInt64) :=
  match openDir disk here name with
  | .ok _ => .ok none
  | .error .notADirectory =>
      match openFile disk here name with
      | .ok data => .ok (some data.len)
      | .error error => .error error
  | .error error => .error error

def occupied (disk : Disk) (here : Dir) (name : Str) : Except OpenError Bool :=
  match stat disk here name with
  | .ok _ => .ok true
  | .error .notAFile => .ok true
  | .error .notFound => .ok false
  | .error error => .error error

/-- The object under a name, for an identity comparison only. On this disk an object is where it is. -/
def openChildObject (disk : Disk) (here : Dir) (name : Str) : Except OpenError (Option Dir) :=
  match validateSegment name with
  | .error refusal => .error (.refused refusal)
  | .ok () =>
      match disk.get (here ++ [name]) with
      | none => .ok none
      | some _ => .ok (some (here ++ [name]))

/-- Whether two names, in two directories, are one object on disk. -/
def isSameChild (disk : Disk) (here : Dir) (name : Str) (other : Dir) (otherName : Str) :
    Except OpenError Bool :=
  match openChildObject disk here name with
  | .error error => .error error
  | .ok object =>
      match openChildObject disk other otherName with
      | .error error => .error error
      | .ok otherObject => .ok (object.isSome && object = otherObject)

/-- The total size of the files at most `levels` directories down. What cannot be opened is skipped. -/
def measureWithin : Nat → UInt64 → Disk → UInt64
  | _, total, .nil => total
  | levels, total, .file name data rest =>
      match validateSegment name with
      | .ok () => measureWithin levels (saturatingAdd total data.len) rest
      | .error _ => measureWithin levels total rest
  | levels, total, .dir name inside rest =>
      match validateSegment name with
      | .ok () =>
          let below := if levels ≤ 1 then 0 else measureWithin (levels - 1) 0 inside
          measureWithin levels (saturatingAdd total below) rest
      | .error _ => measureWithin levels total rest

def measure (disk : Disk) (here : Dir) : Except OpenError UInt64 :=
  match disk.get here with
  | some (.dir inside) => .ok (measureWithin maxTreeDepth 0 inside)
  | _ => .error .notFound

/-! ## Writing -/

/-- Creates one child directory, refusing to destroy anything. -/
def createDir (platform : Platform) (disk : Disk) (here : Dir) (name : Str) :
    Except WriteError (Disk × Dir) :=
  match validateSegment name with
  | .error refusal => .error (.refused refusal)
  | .ok () =>
      match collisions platform disk here name with
      | .error error => .error (.ofOpen error)
      | .ok (existing :: _) => .error (.collides existing)
      | .ok [] =>
          match disk.get (here ++ [name]) with
          | some _ => .error .nameTaken
          | none => .ok (disk.alter (Forest.insert name (.dir .nil)) here, here ++ [name])

/-- What is left of the entries of a directory, and the refusal that stopped the removal.

A pass of `remove_tree` goes 64 levels down and hands the rest to the next one. The names go in the order of
one descent, which is the one made here. -/
@[simp] def removeEntries : Disk → Disk × Option Refusal
  | .nil => (.nil, none)
  | .file name data rest =>
      match validateSegment name with
      | .error refusal => (.file name data rest, some refusal)
      | .ok () => removeEntries rest
  | .dir name inside rest =>
      match validateSegment name with
      | .error refusal => (.dir name inside rest, some refusal)
      | .ok () =>
          match removeEntries inside with
          | (_, none) => removeEntries rest
          | (left, some refusal) => (.dir name left rest, some refusal)

/-- Removes one child and everything beneath it, stopping at the first failure. -/
def removeTree (disk : Disk) (here : Dir) (name : Str) : Except WriteError Unit × Disk :=
  match openDir disk here name with
  | .error .notADirectory => (.ok (), disk.alter (Forest.erase name) here)
  | .error error => (.error (.ofOpen error), disk)
  | .ok child =>
      match disk.get child with
      | some (.dir inside) =>
          match removeEntries inside with
          | (_, none) => (.ok (), disk.alter (Forest.erase name) here)
          | (left, some refusal) => (.error (.refused refusal), disk.alter (fun _ => left) child)
      | _ => (.error (.ofOpen .notFound), disk)

/-- `EXDEV`. -/
def crossDevice : Nat := 18

/-- `EINVAL`. -/
def invalidArgument : Nat := 22

/-- `renameat`. What is at the destination is replaced, whatever the caller intended. -/
def renameChild (platform : Platform) (disk : Disk) (here : Dir) (name : Str) (there : Dir) (newName : Str) :
    Except OpenError Disk :=
  match disk.get (here ++ [name]), disk.get there with
  | some entry, some (.dir _) =>
      if platform.device (here.headD []) ≠ platform.device (there.headD []) then .error (.io crossDevice)
      else if here ++ [name] <+: there then .error (.io invalidArgument)
      else
        let moved := disk.alter (Forest.erase name) here
        .ok ((moved.alter (Forest.erase newName) there).alter (Forest.insert newName entry) there)
  | _, _ => .error .notFound

/-- Renames a child onto another spelling of its own name, through a temporary name. -/
def renameCaseOnly (platform : Platform) (sequence : Nat) (disk : Disk) (here : Dir) (name newName : Str) :
    Except WriteError Unit × Disk :=
  if name = newName then (.error .nameTaken, disk)
  else
    let staged := (platform.temporaryName sequence).val
    match renameChild platform disk here name here staged with
    | .error error => (.error (.ofOpen error), disk)
    | .ok away =>
        match renameChild platform away here staged here newName with
        | .ok done => (.ok (), done)
        | .error error =>
            -- Put it back under the name it had.
            match renameChild platform away here staged here name with
            | .ok back => (.error (.ofOpen error), back)
            | .error _ => (.error (.ofOpen error), away)

/-- Moves one child of a directory to a name in another. The destination must be free. -/
def renameInto (platform : Platform) (sequence : Nat) (disk : Disk) (here : Dir) (name : Str) (there : Dir)
    (newName : Str) : Except WriteError Unit × Disk :=
  match validateSegment name, validateSegment newName with
  | .error refusal, _ => (.error (.refused refusal), disk)
  | .ok (), .error refusal => (.error (.refused refusal), disk)
  | .ok (), .ok () =>
      match collisions platform disk there newName with
      | .error error => (.error (.ofOpen error), disk)
      | .ok folding =>
          let oneDirectory := decide (here = there)
          let foldsOntoSource := oneDirectory && folding.any (· = name)
          match folding.filter fun existing => !(oneDirectory && existing = name) with
          | existing :: _ => (.error (.collides existing), disk)
          | [] =>
              match occupied disk there newName with
              | .error error => (.error (.ofOpen error), disk)
              | .ok taken =>
                  if foldsOntoSource then
                    -- The destination may be the source under another spelling, and nothing else.
                    if taken then
                      match isSameChild disk here name there newName with
                      | .error error => (.error (.ofOpen error), disk)
                      | .ok true => renameCaseOnly platform sequence disk here name newName
                      | .ok false => (.error .nameTaken, disk)
                    else renameCaseOnly platform sequence disk here name newName
                  else if taken then (.error .nameTaken, disk)
                  else
                    match renameChild platform disk here name there newName with
                    | .error error => (.error (.ofOpen error), disk)
                    | .ok moved => (.ok (), moved)

/-- Where the bytes of an upload go until it is published. -/
inductive Staging where
  | inPlace
  | staged (name : Str)
  deriving DecidableEq, Repr

/-- Reserves the name of an upload without destroying anything. -/
def Staging.begin (platform : Platform) (sequence : Nat) (disk : Disk) (here : Dir) (name : Str)
    (existing : Existing) : Except WriteError Staging :=
  match validateSegment name with
  | .error refusal => .error (.refused refusal)
  | .ok () =>
      match collisions platform disk here name with
      | .error error => .error (.ofOpen error)
      | .ok (other :: _) => .error (.collides other)
      | .ok [] =>
          match disk.get (here ++ [name]), existing with
          | none, _ => .ok .inPlace
          | some _, .refuse => .error .nameTaken
          | some _, .replace => .ok (.staged (platform.temporaryName sequence).val)

/-- `EISDIR`. -/
def isADirectory : Nat := 21

/-- Publishes an upload. A file cannot be renamed over a directory: the bytes then stay under the temporary
name. -/
def Staging.commit (disk : Disk) (here : Dir) (name : Str) (data : FileData) :
    Staging → Except WriteError Unit × Disk
  | .inPlace => (.ok (), disk.alter (Forest.insert name (.file data)) here)
  | .staged temporary =>
      match disk.get (here ++ [name]) with
      | some (.dir _) =>
          (.error (.openFailed (.io isADirectory)), disk.alter (Forest.insert temporary (.file data)) here)
      | _ => (.ok (), (disk.alter (Forest.erase name) here).alter (Forest.insert name (.file data)) here)

end Selfhost.Storage
