import Selfhost.Storage.Lemmas.Measure
import Selfhost.Storage.Volume

/-!
# Operations one after another

A daemon that serves several shares, each with limits of its own, and performs one operation at a time.
-/

namespace Selfhost.Storage

open Selfhost.Lib

/-- A body and the pieces it arrives in. -/
structure Body where
  data : FileData
  pieces : List UInt64
  whole : (pieces.map UInt64.toNat).sum = data.size

/-- What a caller asks for. -/
inductive Request where
  | upload (share : Str) (path : RelativePath) (existing : Existing) (declared : UInt64) (body : Body)
  | copyTo (home : Str) (source : RelativePath) (into : Str) (target : RelativePath) (replace : Bool)
  | moveTo (home : Str) (source : RelativePath) (into : Str) (target : RelativePath) (replace : Bool)
  | createDirectory (share : Str) (path : RelativePath)
  | delete (share : Str) (path : RelativePath)

/-- A request and what the grants of the shares say to the one who makes it, or time that goes by. -/
inductive ShareOp where
  | request (permits : Str → Want → GrantOutcome) (request : Request)
  | tick (elapsed : Nat)

section Step

variable (platform : Platform) (limits : Str → Limits)

/-- A share opened for a caller. -/
def openVolume (permits : Str → Want → GrantOutcome) (share : Str) : Volume :=
  ⟨share, limits share, permits share⟩

/-- The world a request leaves behind, whatever its answer was. -/
def World.serve (w : World) (permits : Str → Want → GrantOutcome) : Request → World
  | .upload share path existing declared body =>
      ((openVolume limits permits share).upload platform w path existing declared body.data body.pieces).2
  | .copyTo home source into target replace =>
      ((openVolume limits permits home).copyTo platform w source (openVolume limits permits into) target
        replace).2
  | .moveTo home source into target replace =>
      ((openVolume limits permits home).moveTo platform w source (openVolume limits permits into) target
        replace).2
  | .createDirectory share path => ((openVolume limits permits share).createDirectory platform w path).2
  | .delete share path => ((openVolume limits permits share).delete w path).2

def World.step (w : World) : ShareOp → Option World
  | .request permits request => some (w.serve platform limits permits request)
  | .tick elapsed => some { w with now := w.now + elapsed }

end Step

/-- The files of a share. -/
def contents (disk : Disk) (share : Str) : Disk :=
  match disk.find share with
  | some (.dir inside) => inside
  | _ => .nil

/-- The bytes a share holds. -/
def World.held (w : World) (share : Str) : Nat := heldBytes (contents w.disk share)

end Selfhost.Storage
