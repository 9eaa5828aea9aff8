import Selfhost.Storage.Fs
import Selfhost.Storage.Ledger

/-!
# The operations of a share

`Volume` of `services/storage/src/api.rs`: uploads, copies, moves and deletions, each as one step of the
world. An operation is over before the next one starts, and takes no time.
-/

namespace Selfhost.Storage

open Selfhost.Lib

inductive Want where
  | read
  | write
  deriving DecidableEq, Repr

inductive GrantOutcome where
  | allowed
  | readOnly
  | notGranted
  deriving DecidableEq, Repr

/-- Why an operation could not be performed. -/
inductive Failure where
  | refused (refusal : Refusal)
  | notFound
  | wrongKind
  | noParent
  | occupied
  | collides (existing : Str)
  | sameResource
  | intoOwnSubtree
  | notPermitted (outcome : GrantOutcome)
  | outOfRoom (admission : Admission)
  | tooDeep
  | io (code : Nat)
  deriving DecidableEq, Repr

/-- `From<OpenError> for Failure`. -/
def Failure.ofOpen : OpenError → Failure
  | .refused refusal => .refused refusal
  | .notFound => .notFound
  | .notADirectory | .notAFile => .wrongKind
  | .alreadyExists => .occupied
  | .io code => .io code

/-- `From<WriteError> for Failure`. -/
def Failure.ofWrite : WriteError → Failure
  | .refused refusal => .refused refusal
  | .nameTaken => .occupied
  | .collides existing => .collides existing
  | .openFailed error => .ofOpen error
  | .io code => .io code

/-- What a transfer did. -/
inductive Landing where
  | created
  | replaced
  deriving DecidableEq, Repr

/-- One share, opened for a caller. `permits` is what the share's grants say to that caller. -/
structure Volume where
  id : Str
  limits : Limits
  permits : Want → GrantOutcome

/-- The disk, the ledger and the clock, and how many temporary names were given out. -/
structure World where
  disk : Disk
  counts : Counts
  now : Int
  sequence : Nat

/-- The result of an operation and the world it leaves behind, also when it fails. -/
abbrev Outcome (α : Type) := Except Failure α × World

namespace Volume

def root (vol : Volume) : Dir := [vol.id]

def permit (vol : Volume) (want : Want) : Except Failure Unit :=
  match vol.permits want with
  | .allowed => .ok ()
  | refused => .error (.notPermitted refused)

/-- The directory a path's last segment goes in. -/
def parentOf (disk : Disk) (vol : Volume) (path : RelativePath) : Except Failure Dir :=
  match walk disk vol.root path.parent.names with
  | .ok dir => .ok dir
  | .error .notFound => .error .noParent
  | .error .notADirectory => .error .noParent
  | .error other => .error (.ofOpen other)

/-- What the share holds and what its file system has free. -/
def usage (platform : Platform) (vol : Volume) (w : World) : Outcome Usage :=
  match w.counts.used w.now vol.id with
  | some known => (.ok ⟨known, platform.freeSpace vol.id w.disk, 0, 0⟩, w)
  | none =>
      match measure w.disk vol.root with
      | .error error => (.error (.ofOpen error), w)
      | .ok measured =>
          (.ok ⟨measured, platform.freeSpace vol.id w.disk, 0, 0⟩,
            { w with counts := w.counts.observe w.now vol.id measured })

/-- Asks for room for `declared` bytes: the size is read first, the room is taken after. -/
def reserve (platform : Platform) (vol : Volume) (w : World) (declared : UInt64) : Outcome Reservation :=
  match vol.usage platform w with
  | (.error failure, w) => (.error failure, w)
  | (.ok usage, w) =>
      match w.counts.admitUpload w.now vol.id vol.limits usage.usedBytes usage.freeBytes declared with
      | .error admission => (.error (.outOfRoom admission), w)
      | .ok (counts, r) => (.ok r, { w with counts })

end Volume

/-! ## Uploads -/

/-- Records the chunks of a body one after another, up to the first refusal. -/
def Reservation.recordAll (r : Reservation) : List UInt64 → Except Admission Reservation
  | [] => .ok r
  | bytes :: rest =>
      match r.record bytes with
      | (.allowed, r) => recordAll r rest
      | (refused, _) => .error refused

/-- A body from the first byte to the last: the name is reserved, every chunk is counted, the file is
published. The reservation is finished only after that. -/
def receiveBody (platform : Platform) (w : World) (r : Reservation) (here : Dir) (name : Str)
    (existing : Existing) (data : FileData) (chunks : List UInt64) : Outcome Unit :=
  match Staging.begin platform w.sequence w.disk here name existing with
  | .error error => (.error (.ofWrite error), { w with counts := r.drop w.counts })
  | .ok staging =>
      let w := { w with sequence := w.sequence + 1 }
      match r.recordAll chunks with
      | .error admission => (.error (.outOfRoom admission), { w with counts := r.drop w.counts })
      | .ok r =>
          match staging.commit w.disk here name data with
          | (.error error, disk) => (.error (.ofWrite error), { w with disk, counts := r.drop w.counts })
          | (.ok (), disk) => (.ok (), { w with disk, counts := r.finish w.counts })

/-- `Volume::receive`, the writes and `Receiver::commit`. -/
def Volume.upload (platform : Platform) (vol : Volume) (w : World) (path : RelativePath)
    (existing : Existing) (declared : UInt64) (data : FileData) (chunks : List UInt64) : Outcome Unit :=
  match vol.permit .write with
  | .error failure => (.error failure, w)
  | .ok () =>
      match path.fileName with
      | none => (.error .wrongKind, w)
      | some name =>
          match vol.parentOf w.disk path with
          | .error failure => (.error failure, w)
          | .ok parent =>
              match vol.reserve platform w declared with
              | (.error failure, w) => (.error failure, w)
              | (.ok r, w) => receiveBody platform w r parent name existing data chunks

/-! ## Transfers -/

def copyBufferBytes : Nat := 64 * 1024

/-- How a file of some length is read through the copy buffer. -/
def bufferLengths (length : Nat) : List UInt64 :=
  List.replicate (length / copyBufferBytes) (UInt64.ofNat copyBufferBytes) ++
    if length % copyBufferBytes = 0 then [] else [UInt64.ofNat (length % copyBufferBytes)]

/-- Copies one file's bytes. The destination is admitted and published as an upload is. -/
def copyFile (platform : Platform) (into : Volume) (w : World) (here : Dir) (name : Str) (there : Dir)
    (newName : Str) : Outcome Unit :=
  match openFile w.disk here name with
  | .error error => (.error (.ofOpen error), w)
  | .ok data =>
      match into.reserve platform w data.len with
      | (.error failure, w) => (.error failure, w)
      | (.ok r, w) =>
          receiveBody platform w r there newName .refuse data (bufferLengths data.bytes.length)

/-- Whether a URL exists that fetches an entry of a directory. -/
def reachable (disk : Disk) (here : Dir) (name : Str) : Bool :=
  match stat disk here name with
  | .ok _ => true
  | .error _ => false

/-- Goes on after a step that went well. -/
def andThen (outcome : Outcome Unit) (next : World → Outcome Unit) : Outcome Unit :=
  match outcome with
  | (.error failure, w) => (.error failure, w)
  | (.ok (), w) => next w

/-- Copies one name into another directory, descending if it is a directory. `levels` is how many levels are
left of `maxTreeDepth`. -/
def copyInto (platform : Platform) (into : Volume) :
    (levels : Nat) → World → Dir → Str → Dir → Str → Outcome Unit
  | 0, w, _, _, _, _ => (.error .tooDeep, w)
  | levels + 1, w, here, name, there, newName =>
      match openDir w.disk here name with
      | .ok source =>
          match createDir platform w.disk there newName with
          | .error error => (.error (.ofWrite error), w)
          | .ok (disk, target) =>
              let w := { w with disk }
              match dirNames w.disk source with
              | .error error => (.error (.ofOpen error), w)
              | .ok names =>
                  -- The entries are read once, before the first of them is copied.
                  (names.filter (reachable w.disk source)).foldl
                    (fun outcome entry =>
                      andThen outcome fun w => copyInto platform into levels w source entry target entry)
                    (.ok (), w)
      | .error .notADirectory => copyFile platform into w here name there newName
      | .error error => (.error (.ofOpen error), w)

inductive Transfer where
  | onto
  | respelling
  deriving DecidableEq, Repr

/-- Whether the destination of a transfer is another spelling of its source. -/
def surveySame (disk : Disk) (here : Dir) (name : Str) (there : Dir) (newName : Str) :
    Except Failure Transfer :=
  match isSameChild disk here name there newName with
  | .error error => .error (.ofOpen error)
  | .ok true => .ok .respelling
  | .ok false => .ok .onto

/-- Examines both ends of a transfer before either is disturbed. -/
def survey (disk : Disk) (here : Dir) (name : Str) (there : Dir) (newName : Str) :
    Except Failure Transfer :=
  if here = there ∧ name = newName then .error .sameResource
  else match openDir disk here name with
    | .ok source =>
        if source <+: there then .error .intoOwnSubtree else surveySame disk here name there newName
    | .error .notADirectory => surveySame disk here name there newName
    | .error error => .error (.ofOpen error)

/-- Makes room at a destination, or refuses to. -/
def clearDestination (disk : Disk) (there : Dir) (newName : Str) (replace : Bool) :
    Except Failure Bool × Disk :=
  match occupied disk there newName with
  | .error error => (.error (.ofOpen error), disk)
  | .ok false => (.ok false, disk)
  | .ok true =>
      if replace then
        match removeTree disk there newName with
        | (.error error, disk) => (.error (.ofWrite error), disk)
        | (.ok (), disk) => (.ok true, disk)
      else (.error .occupied, disk)

/-- The part of a transfer that two paths decide: who may, what the ends are called, where they lie. -/
structure Ends where
  here : Dir
  name : Str
  there : Dir
  newName : Str

def transferEnds (disk : Disk) (self into : Volume) (want : Want) (source target : RelativePath) :
    Except Failure Ends :=
  match self.permit want, into.permit .write with
  | .error failure, _ => .error failure
  | .ok (), .error failure => .error failure
  | .ok (), .ok () =>
      match source.fileName, target.fileName with
      | none, _ => .error .wrongKind
      | some _, none => .error .occupied
      | some name, some newName =>
          match walk disk self.root source.parent.names with
          | .error error => .error (.ofOpen error)
          | .ok here =>
              match into.parentOf disk target with
              | .error failure => .error failure
              | .ok there => .ok ⟨here, name, there, newName⟩

def Landing.of (existed : Bool) : Landing := if existed then .replaced else .created

/-- Room for a move. A respelling has nothing to clear: what is there is the source. -/
def makeRoom (disk : Disk) (ends : Ends) (transfer : Transfer) (replace : Bool) : Except Failure Bool × Disk :=
  match transfer with
  | .respelling => (.ok false, disk)
  | .onto => clearDestination disk ends.there ends.newName replace

/-- Both sizes are forgotten after a move, and the move is reported. -/
def moved (self into : Volume) (existed : Bool) (w : World) : Outcome Landing :=
  (.ok (Landing.of existed), { w with counts := (w.counts.forget w.now self.id).forget w.now into.id })

/-- The move itself, once there is room: a rename, or a copy and a removal across file systems. -/
def performMove (platform : Platform) (self into : Volume) (w : World) (ends : Ends) (existed : Bool) :
    Outcome Landing :=
  match renameInto platform w.sequence w.disk ends.here ends.name ends.there ends.newName with
  | (.ok (), disk) => moved self into existed { w with disk, sequence := w.sequence + 1 }
  | (.error (.io code), disk) =>
      if code = crossDevice then
        match copyInto platform into maxTreeDepth { w with disk, sequence := w.sequence + 1 } ends.here
            ends.name ends.there ends.newName with
        | (.error failure, w) => (.error failure, w)
        | (.ok (), w) =>
            match removeTree w.disk ends.here ends.name with
            | (.error error, disk) => (.error (.ofWrite error), { w with disk })
            | (.ok (), disk) => moved self into existed { w with disk }
      else (.error (.io code), { w with disk, sequence := w.sequence + 1 })
  | (.error error, disk) => (.error (.ofWrite error), { w with disk, sequence := w.sequence + 1 })

/-- Moves a name, within a share or into another. -/
def Volume.moveTo (platform : Platform) (self : Volume) (w : World) (source : RelativePath) (into : Volume)
    (target : RelativePath) (replace : Bool) : Outcome Landing :=
  match transferEnds w.disk self into .write source target with
  | .error failure => (.error failure, w)
  | .ok ends =>
      match survey w.disk ends.here ends.name ends.there ends.newName with
      | .error failure => (.error failure, w)
      | .ok transfer =>
          match makeRoom w.disk ends transfer replace with
          | (.error failure, disk) => (.error failure, { w with disk })
          | (.ok existed, disk) => performMove platform self into { w with disk } ends existed

/-- Copies a name, within a share or into another. -/
def Volume.copyTo (platform : Platform) (self : Volume) (w : World) (source : RelativePath) (into : Volume)
    (target : RelativePath) (replace : Bool) : Outcome Landing :=
  match transferEnds w.disk self into .read source target with
  | .error failure => (.error failure, w)
  | .ok ends =>
      match survey w.disk ends.here ends.name ends.there ends.newName with
      | .error failure => (.error failure, w)
      | .ok .respelling => (.error .sameResource, w)
      | .ok .onto =>
          match clearDestination w.disk ends.there ends.newName replace with
          | (.error failure, disk) => (.error failure, { w with disk })
          | (.ok existed, disk) =>
              match copyInto platform into maxTreeDepth { w with disk } ends.here ends.name ends.there
                  ends.newName with
              | (.error failure, w) => (.error failure, w)
              | (.ok (), w) =>
                  (.ok (Landing.of existed), { w with counts := w.counts.forget w.now into.id })

/-! ## Directories -/

def Volume.createDirectory (platform : Platform) (vol : Volume) (w : World) (path : RelativePath) :
    Outcome Unit :=
  match vol.permit .write, path.fileName with
  | .error failure, _ => (.error failure, w)
  | .ok (), none => (.error .occupied, w)
  | .ok (), some name =>
      match vol.parentOf w.disk path with
      | .error failure => (.error failure, w)
      | .ok parent =>
          match createDir platform w.disk parent name with
          | .error error => (.error (.ofWrite error), w)
          | .ok (disk, _) => (.ok (), { w with disk })

/-- Removes a file, or a directory and everything beneath it. -/
def Volume.delete (vol : Volume) (w : World) (path : RelativePath) : Outcome Unit :=
  match vol.permit .write, path.fileName with
  | .error failure, _ => (.error failure, w)
  | .ok (), none => (.error .wrongKind, w)
  | .ok (), some name =>
      match vol.parentOf w.disk path with
      | .error failure => (.error failure, w)
      | .ok parent =>
          match removeTree w.disk parent name with
          | (.error error, disk) => (.error (.ofWrite error), { w with disk })
          | (.ok (), disk) => (.ok (), { w with disk, counts := w.counts.forget w.now vol.id })

end Selfhost.Storage
