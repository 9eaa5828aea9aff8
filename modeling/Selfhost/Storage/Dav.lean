import Selfhost.Storage.Locks
import Selfhost.Storage.Volume

/-!
# Writes over WebDAV

The writing verbs of `app/admin/src/dav_api.rs`, once the share is named and the path resolved. A request is first
let through or refused, on what the lock table says then; what it does to the disk it does later, in a task of its
own, after a `PUT` has sent its body. Other requests come in between.
-/

namespace Selfhost.Storage

open Selfhost.Lib

/-- What a name is: a directory, or a file of some size. -/
def Volume.stat (disk : Disk) (vol : Volume) (path : RelativePath) : Except Failure (Option UInt64) :=
  match vol.permit .read with
  | .error failure => .error failure
  | .ok () =>
      match path.fileName with
      | none => .ok none
      | some name =>
          match walk disk vol.root path.parent.names with
          | .error error => .error (.ofOpen error)
          | .ok parent =>
              match Storage.stat disk parent name with
              | .error error => .error (.ofOpen error)
              | .ok attributes => .ok attributes

/-- A writing request, with the shares as they are open to its caller. -/
inductive DavWrite where
  | put (vol : Volume) (path : RelativePath) (declared : UInt64) (data : FileData) (chunks : List UInt64)
  | mkcol (vol : Volume) (path : RelativePath)
  | proppatch (vol : Volume) (path : RelativePath)
  | delete (vol : Volume) (path : RelativePath)
  | move (home : Volume) (source : RelativePath) (into : Volume) (target : RelativePath) (replace : Bool)
  | copy (home : Volume) (source : RelativePath) (into : Volume) (target : RelativePath) (replace : Bool)

inductive Denied where
  | refused (failure : Failure)
  | locked (holder : Str)
  deriving DecidableEq, Repr

inductive DavAnswer where
  | created
  | noContent
  | multiStatus
  deriving DecidableEq, Repr

def resourceOf (vol : Volume) (path : RelativePath) : Resource := ⟨vol.id, path⟩

/-! ## Letting a request through -/

def located (vol : Volume) (path : RelativePath) (want : Want) : Except Denied Resource :=
  match vol.permit want with
  | .error failure => .error (.refused failure)
  | .ok () => .ok (resourceOf vol path)

/-- Refuses a write that a lock covers and whose token was not submitted. -/
def guarded (held : Locks) (now : Int) (target : Resource) (submitted : List Str) : Except Denied Unit × Locks :=
  match held.guard now target submitted with
  | (.clear, held) => (.ok (), held)
  | (.locked holder, held) => (.error (.locked holder), held)

/-- One path, which is guarded. -/
def letThrough (held : Locks) (now : Int) (vol : Volume) (path : RelativePath) (submitted : List Str) :
    Except Denied Unit × Locks :=
  match located vol path .write with
  | .error denied => (.error denied, held)
  | .ok target => guarded held now target submitted

def DavWrite.letThrough (held : Locks) (now : Int) (submitted : List Str) : DavWrite → Except Denied Unit × Locks
  | .put vol path _ _ _ | .mkcol vol path | .proppatch vol path | .delete vol path =>
      Storage.letThrough held now vol path submitted
  | .move home source into target _ =>
      match located home source .write, located into target .write with
      | .error denied, _ => (.error denied, held)
      | .ok _, .error denied => (.error denied, held)
      | .ok source, .ok target =>
          match guarded held now source submitted with
          | (.error denied, held) => (.error denied, held)
          | (.ok (), held) => guarded held now target submitted
  | .copy home source into target _ =>
      match located home source .read, located into target .write with
      | .error denied, _ => (.error denied, held)
      | .ok _, .error denied => (.error denied, held)
      | .ok _, .ok target => guarded held now target submitted

/-! ## Performing it -/

/-- The answer to a transfer. -/
def Landing.answer : Landing → DavAnswer
  | .created => .created
  | .replaced => .noContent

def answered {α : Type} (answer : α → DavAnswer) : Outcome α → Outcome DavAnswer
  | (.ok a, w) => (.ok (answer a), w)
  | (.error failure, w) => (.error failure, w)

def DavWrite.perform (platform : Platform) (w : World) : DavWrite → Outcome DavAnswer
  | .put vol path declared data chunks =>
      let landed := match vol.stat w.disk path with
        | .ok _ => DavAnswer.noContent
        | .error _ => .created
      answered (fun _ => landed) (vol.upload platform w path .replace declared data chunks)
  | .mkcol vol path => answered (fun _ => .created) (vol.createDirectory platform w path)
  | .proppatch vol path =>
      -- No property is stored; each one is answered with a refusal.
      match vol.stat w.disk path with
      | .ok _ => (.ok .multiStatus, w)
      | .error failure => (.error failure, w)
  | .delete vol path => answered (fun _ => .noContent) (vol.delete w path)
  | .move home source into target replace =>
      match home.stat w.disk source with
      | .error failure => (.error failure, w)
      | .ok _ => answered Landing.answer (home.moveTo platform w source into target replace)
  | .copy home source into target replace =>
      match home.stat w.disk source with
      | .error failure => (.error failure, w)
      | .ok _ => answered Landing.answer (home.copyTo platform w source into target replace)

/-! ## Requests in any order -/

structure DavState where
  now : Int
  held : Locks
  world : World
  /-- The writes that were let through and are not performed yet, with the tokens they submitted. -/
  admitted : List (DavWrite × List Str)

inductive DavStep where
  | tick (elapsed : Nat)
  | take (resource : Resource) (reach : Reach) (owner : Option Str) (seconds : Nat) (random : Option Bytes)
  | refresh (token : Str) (seconds : Nat)
  | release (resource : Resource) (token : Str)
  | request (write : DavWrite) (ifHeader : Option Str)
  | perform (index : Nat)
  /-- A request ends without having done anything, as when its body stops short. -/
  | leave (index : Nat)
  /-- The console or another program changes the disk. -/
  | elsewhere (disk : Disk)

namespace DavState

def start (now : Int) (world : World) : DavState := ⟨now, [], world, []⟩

/-- The disk and the ledger, at the time that it is. -/
def present (s : DavState) : World := { s.world with now := s.now }

def step (platform : Platform) (s : DavState) : DavStep → Option DavState
  | .tick elapsed => some { s with now := s.now + elapsed }
  | .take resource reach owner seconds random =>
      some { s with held := (s.held.take s.now resource reach owner seconds random).2 }
  | .refresh token seconds => some { s with held := (s.held.refresh s.now token seconds).2 }
  | .release resource token => some { s with held := (s.held.release s.now resource token).2 }
  | .request write ifHeader =>
      match write.letThrough s.held s.now (submittedTokens ifHeader) with
      | (.error _, held) => some { s with held }
      | (.ok (), held) => some { s with held, admitted := s.admitted ++ [(write, submittedTokens ifHeader)] }
  | .perform index =>
      s.admitted[index]?.map fun (write, _) =>
        { s with world := (write.perform platform s.present).2, admitted := s.admitted.eraseIdx index }
  | .leave index => some { s with admitted := s.admitted.eraseIdx index }
  | .elsewhere disk => some { s with world := { s.world with disk } }

end DavState

end Selfhost.Storage
