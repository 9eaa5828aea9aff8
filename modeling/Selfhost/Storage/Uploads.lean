import Selfhost.Lib.Run
import Selfhost.Storage.Fs
import Selfhost.Storage.Ledger

/-!
# Uploads into one share at the same time

The atomic steps of the requests to one share, in any order: each acquisition of the ledger's lock, the walk
that measures the share, the publication of a file, the removal of a name. Other shares use the same ledger
meanwhile.
-/

namespace Selfhost.Storage

open Selfhost.Lib

/-- How far a request has come that asked for the size of the share. -/
inductive Reading where
  /-- `Ledger::used` had no answer, and the share is about to be walked. -/
  | unmeasured
  /-- The share was walked, and the result is about to be recorded. -/
  | measured (bytes : UInt64)
  /-- The size is known, and `Ledger::admit` is about to be asked. -/
  | sized (bytes : UInt64)
  deriving DecidableEq, Repr

/-- The share and the ceilings it is enforced against. -/
structure ShareConfig where
  id : Str
  quota : UInt64
  floor : UInt64
  maxConcurrent : UInt32
  maxInFlight : UInt64

structure ShareState where
  now : Int
  ledger : LedgerState
  files : Disk
  requests : List Reading

inductive UploadStep where
  /-- Time passes. -/
  | tick (elapsed : Nat)
  /-- A request comes in and asks the ledger for the size. -/
  | readSize
  /-- The walk of a request. It may also see bytes of uploads that are not finished. -/
  | measure (i : Nat) (unfinished : UInt64)
  | observe (i : Nat)
  | admitUpload (i : Nat) (freeBytes wanted : UInt64)
  /-- A request ends without asking for room. -/
  | leave (i : Nat)
  | record (j : Nat) (bytes : UInt64)
  /-- The file is published and its reservation finished. -/
  | finish (j : Nat) (path : RelativePath) (data : FileData)
  | drop (j : Nat)
  /-- A deletion removes one name. -/
  | remove (path : RelativePath)
  | forget
  /-- A step of some other share on the ledger. -/
  | elsewhere (op : LedgerOp)

/-- Whether an operation is one of a share's own. -/
def LedgerOp.concerns (op : LedgerOp) (live : List Reservation) (id : Str) : Bool :=
  match op with
  | .observe _ share _ => share = id
  | .adjust share _ _ => share = id
  | .forget _ share => share = id
  | .admitUpload _ share _ _ _ _ _ => share = id
  | .record i _ => live[i]?.any (·.share = id)
  | .finish i => live[i]?.any (·.share = id)
  | .drop i => live[i]?.any (·.share = id)

/-- The tree with a file published at a path, in place of a file that was there. -/
def publish (files : Disk) (path : RelativePath) (data : FileData) : Option Disk :=
  match path.fileName with
  | none => none
  | some name =>
      match files.get path.parent.names, files.get (path.parent.names ++ [name]) with
      | some (.dir _), some (.dir _) => none
      | some (.dir _), _ =>
          some ((files.alter (Forest.erase name) path.parent.names).alter
            (Forest.insert name (.file data)) path.parent.names)
      | _, _ => none

/-- The tree without the entry at a path. -/
def withoutEntry (files : Disk) (path : RelativePath) : Disk :=
  match path.fileName with
  | none => files
  | some name => files.alter (Forest.erase name) path.parent.names

namespace ShareState

variable (cfg : ShareConfig)

/-- One operation on the ledger. -/
def onLedger (s : ShareState) (op : LedgerOp) : ShareState :=
  { s with ledger := s.ledger.step cfg.maxConcurrent cfg.maxInFlight op }

/-- The reservation at an index, if it is one of the share. -/
def reservation (s : ShareState) (j : Nat) : Option Reservation :=
  s.ledger.live[j]?.filter (·.share = cfg.id)

/-- One atomic step, when it can be taken. -/
def step (s : ShareState) : UploadStep → Option ShareState
  | .tick elapsed => some { s with now := s.now + elapsed }
  | .readSize =>
      match s.ledger.counts.used s.now cfg.id with
      | some known => some { s with requests := s.requests ++ [.sized known] }
      | none => some { s with requests := s.requests ++ [.unmeasured] }
  | .measure i unfinished =>
      match s.requests[i]? with
      | some .unmeasured =>
          let bytes := saturatingAdd (measureWithin maxTreeDepth 0 s.files) unfinished
          some { s with requests := s.requests.set i (.measured bytes) }
      | _ => none
  | .observe i =>
      match s.requests[i]? with
      | some (.measured bytes) =>
          some { s.onLedger cfg (.observe s.now cfg.id bytes) with
                 requests := s.requests.set i (.sized bytes) }
      | _ => none
  | .admitUpload i freeBytes wanted =>
      match s.requests[i]? with
      | some (.sized bytes) =>
          some { s.onLedger cfg (.admitUpload s.now cfg.id (some cfg.quota) cfg.floor bytes freeBytes wanted) with
                 requests := s.requests.eraseIdx i }
      | _ => none
  | .leave i => some { s with requests := s.requests.eraseIdx i }
  | .record j bytes =>
      match s.reservation cfg j with
      | some _ => some (s.onLedger cfg (.record j bytes))
      | none => none
  | .finish j path data =>
      match s.reservation cfg j, publish s.files path data with
      | some r, some files =>
          if data.len = r.written then some { s.onLedger cfg (.finish j) with files } else none
      | _, _ => none
  | .drop j =>
      match s.reservation cfg j with
      | some _ => some (s.onLedger cfg (.drop j))
      | none => none
  | .remove path => some { s with files := withoutEntry s.files path }
  | .forget => some (s.onLedger cfg (.forget s.now cfg.id))
  | .elsewhere op =>
      if op.concerns s.ledger.live cfg.id then none else some (s.onLedger cfg op)

/-- The bytes promised by the uploads running into the share. -/
def promised (s : ShareState) : Nat := s.ledger.promisedBy (·.share = cfg.id)

/-- No upload finishes while a request holds a size it has not spent yet, and none lands deeper than a
measurement looks. -/
def undisturbed (s : ShareState) : UploadStep → Prop
  | .finish _ path _ => (∀ q ∈ s.requests, q = .unmeasured) ∧ path.names.length ≤ maxTreeDepth
  | _ => True

instance (s : ShareState) : (a : UploadStep) → Decidable (s.undisturbed a)
  | .finish _ path _ =>
      inferInstanceAs (Decidable ((∀ q ∈ s.requests, q = .unmeasured) ∧ path.names.length ≤ maxTreeDepth))
  | .tick _ | .readSize | .measure _ _ | .observe _ | .admitUpload _ _ _ | .leave _ | .record _ _ | .drop _
  | .remove _ | .forget | .elsewhere _ => .isTrue trivial

/-- A daemon that has just started, with what the share holds. -/
def start (now : Int) (files : Disk) : ShareState := ⟨now, .new, files, []⟩

end ShareState

end Selfhost.Storage
