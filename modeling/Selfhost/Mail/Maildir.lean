import Selfhost.Mail.Folder
import Selfhost.Mail.Store

/-!
# The operations of the store

`services/mail/src/store.rs`. Some operations resolve the address first and others take the directory of the
address as it is given; the directory is a rewriting of the address, and the copies of the counters in memory have
a key of their own.
-/

namespace Selfhost.Mail

open Selfhost.Lib

/-- A name that is safe as a directory. -/
def sanitise (component : Str) : Str :=
  component.map fun c => if c.isAlphanum || c == '-' || c == '.' || c == '_' then c else '_'

/-- The directory of an address, below the root. -/
def mailboxDir (a : Address) : Str × Str := (sanitise a.domain, sanitise a.localPart)

/-- The key of the counters in memory. -/
def mailboxKey (a : Address) : Str := toAsciiLowercase a.localPart ++ '@' :: a.domain

inductive StoreError where
  | noSuchMailbox (address : Address)
  | notFound (uid : UInt32)
  deriving DecidableEq

structure Maildir where
  tables : Tables
  dirs : Str × Str → Folder → FolderDir
  /-- The copies of the counters. -/
  uidNext : Str → Folder → Option UInt32

/-- The clock and the process at an operation. -/
structure StoreEnv where
  secs : Nat
  pid : Nat

namespace Maildir

/-- The directory of a folder; an address that is no mailbox has none. -/
def folderDir (m : Maildir) (a : Address) : Except StoreError (Str × Str) :=
  if m.tables.has a then .ok (mailboxDir a) else .error (.noSuchMailbox a)

def setDir (m : Maildir) (path : Str × Str) (folder : Folder) (d : FolderDir) : Maildir :=
  { m with dirs := fun p f => if p = path ∧ f = folder then d else m.dirs p f }

def setNext (m : Maildir) (key : Str) (folder : Folder) (n : UInt32) : Maildir :=
  { m with uidNext := fun k f => if k = key ∧ f = folder then some n else m.uidNext k f }

/-- Writes a message into a folder of a resolved address. -/
def writeMessage (m : Maildir) (env : StoreEnv) (mailbox : Address) (folder : Folder) (msg : Message) :
    Except StoreError (Maildir × UInt32) :=
  (m.folderDir mailbox).map fun path =>
    let d := m.dirs path folder
    let uid := d.nextUid (m.uidNext (mailboxKey mailbox) folder)
    let d' : FolderDir :=
      ⟨some (FolderDir.counterText uid), d.uidValidity, FolderDir.place d.files (newEntry env.secs env.pid uid msg.raw)⟩
    ((m.setNext (mailboxKey mailbox) folder (uid + 1)).setDir path folder d', uid)

def save (m : Maildir) (env : StoreEnv) (mailbox : Address) (folder : Folder) (msg : Message) :
    Except StoreError (Maildir × UInt32) :=
  match m.tables.resolve mailbox with
  | none => .error (.noSuchMailbox mailbox)
  | some target => m.writeMessage env target folder msg

def deliver (m : Maildir) (env : StoreEnv) (mailbox : Address) (msg : Message) : Except StoreError (Maildir × UInt32) :=
  m.save env mailbox .inbox msg

/-- The files of a folder, as `list` and `locate` see them. -/
def filesOf (m : Maildir) (mailbox : Address) (folder : Folder) : Except StoreError (List Entry) :=
  (m.folderDir mailbox).map fun path => (m.dirs path folder).files

def setFiles (m : Maildir) (path : Str × Str) (folder : Folder) (files : List Entry) : Maildir :=
  m.setDir path folder { m.dirs path folder with files }

def list (m : Maildir) (mailbox : Address) (folder : Folder) : Except StoreError (List UInt32) :=
  (m.filesOf mailbox folder).map FolderDir.list

def fetch (m : Maildir) (mailbox : Address) (folder : Folder) (uid : UInt32) : Except StoreError Message :=
  (m.filesOf mailbox folder).bind fun files =>
    match FolderDir.fetch files uid with
    | some msg => .ok msg
    | none => .error (.notFound uid)

def flags (m : Maildir) (mailbox : Address) (folder : Folder) (uid : UInt32) : Except StoreError Flags :=
  (m.filesOf mailbox folder).bind fun files =>
    match FolderDir.flags files uid with
    | some flags => .ok flags
    | none => .error (.notFound uid)

def setFlags (m : Maildir) (mailbox : Address) (folder : Folder) (uid : UInt32) (flags : Flags) :
    Except StoreError Maildir :=
  (m.folderDir mailbox).bind fun path =>
    match FolderDir.setFlags (m.dirs path folder).files uid flags with
    | some files => .ok (m.setFiles path folder files)
    | none => .error (.notFound uid)

def purge (m : Maildir) (mailbox : Address) (folder : Folder) (uid : UInt32) : Except StoreError Maildir :=
  (m.folderDir mailbox).bind fun path =>
    match FolderDir.locate (m.dirs path folder).files uid with
    | some _ => .ok (m.setFiles path folder (FolderDir.remove (m.dirs path folder).files uid))
    | none => .error (.notFound uid)

/-- Moves a message: it is fetched, saved under a new UID, and its file is removed. -/
def moveMessage (m : Maildir) (env : StoreEnv) (mailbox : Address) (source : Folder) (uid : UInt32) (target : Folder) :
    Except StoreError (Maildir × UInt32) :=
  (m.fetch mailbox source uid).bind fun msg =>
    (m.save env mailbox target msg).bind fun (m, newUid) =>
      (m.folderDir mailbox).map fun path =>
        (m.setFiles path source (FolderDir.remove (m.dirs path source).files uid), newUid)

/-- The UID that the next message gets; 1 when there is no mailbox. -/
def uidNextOf (m : Maildir) (mailbox : Address) (folder : Folder) : UInt32 :=
  match m.folderDir mailbox with
  | .error _ => 1
  | .ok path => (m.dirs path folder).nextUid (m.uidNext (mailboxKey mailbox) folder)

end Maildir

/-! ## One interface for all of them -/

inductive StoreOp where
  | deliver (msg : Message)
  | save (folder : Folder) (msg : Message)
  | list (folder : Folder)
  | fetch (folder : Folder) (uid : UInt32)
  | flags (folder : Folder) (uid : UInt32)
  | setFlags (folder : Folder) (uid : UInt32) (flags : Flags)
  | moveMessage (source : Folder) (uid : UInt32) (target : Folder)
  | purge (folder : Folder) (uid : UInt32)
  | uidNext (folder : Folder)

inductive StoreReply where
  | uid (uid : UInt32)
  | uids (uids : List UInt32)
  | message (msg : Message)
  | flags (flags : Flags)
  | done
  | error (e : StoreError)
  deriving DecidableEq

namespace Maildir

/-- The state and reply of an operation that changes something. -/
def changed {α : Type} (m : Maildir) (reply : α → StoreReply) : Except StoreError (Maildir × α) → Maildir × StoreReply
  | .ok (m', a) => (m', reply a)
  | .error e => (m, .error e)

def observed {α : Type} (m : Maildir) (reply : α → StoreReply) : Except StoreError α → Maildir × StoreReply
  | .ok a => (m, reply a)
  | .error e => (m, .error e)

def perform (m : Maildir) (env : StoreEnv) (a : Address) : StoreOp → Maildir × StoreReply
  | .deliver msg => m.changed .uid (m.deliver env a msg)
  | .save folder msg => m.changed .uid (m.save env a folder msg)
  | .list folder => m.observed .uids (m.list a folder)
  | .fetch folder uid => m.observed .message (m.fetch a folder uid)
  | .flags folder uid => m.observed .flags (m.flags a folder uid)
  | .setFlags folder uid flags => m.changed (fun _ : Unit => .done) ((m.setFlags a folder uid flags).map fun m => (m, ()))
  | .moveMessage source uid target => m.changed .uid (m.moveMessage env a source uid target)
  | .purge folder uid => m.changed (fun _ : Unit => .done) ((m.purge a folder uid).map fun m => (m, ()))
  | .uidNext folder => (m, .uid (m.uidNextOf a folder))

end Maildir

end Selfhost.Mail
