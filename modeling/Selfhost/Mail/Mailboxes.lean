import Selfhost.Lib.Run
import Selfhost.Mail.Lemmas.Receive
import Selfhost.Mail.Maildir

/-!
# One set of folders for each mailbox

What the store is for: every mailbox has its own folders, an address stands for the mailbox it resolves to, and a
request changes and reads the folders of that mailbox only. `Maildir.view` is the set of folders that the store
keeps for a mailbox.
-/

namespace Selfhost.Mail

open Selfhost.Lib

/-- A folder: its messages, and the UID that the next one gets. -/
structure Box where
  files : List Entry
  next : UInt32
  deriving DecidableEq

abbrev FolderSet := Folder → Box

namespace FolderSet

def set (s : FolderSet) (folder : Folder) (box : Box) : FolderSet := fun f => if f = folder then box else s f

def setFiles (s : FolderSet) (folder : Folder) (files : List Entry) : FolderSet :=
  s.set folder ⟨files, (s folder).next⟩

def save (s : FolderSet) (env : StoreEnv) (folder : Folder) (msg : Message) : FolderSet × UInt32 :=
  let box := s folder
  (s.set folder ⟨FolderDir.place box.files (newEntry env.secs env.pid box.next msg.raw), box.next + 1⟩, box.next)

/-- The answer about a message that may be missing. -/
def found {α : Type} (uid : UInt32) (reply : α → StoreReply) : Option α → StoreReply
  | some a => reply a
  | none => .error (.notFound uid)

def perform (s : FolderSet) (env : StoreEnv) : StoreOp → FolderSet × StoreReply
  | .deliver msg => ((s.save env .inbox msg).1, .uid (s.save env .inbox msg).2)
  | .save folder msg => ((s.save env folder msg).1, .uid (s.save env folder msg).2)
  | .list folder => (s, .uids (FolderDir.list (s folder).files))
  | .fetch folder uid => (s, found uid .message (FolderDir.fetch (s folder).files uid))
  | .flags folder uid => (s, found uid .flags (FolderDir.flags (s folder).files uid))
  | .setFlags folder uid flags =>
      match FolderDir.setFlags (s folder).files uid flags with
      | some files => (s.setFiles folder files, .done)
      | none => (s, .error (.notFound uid))
  | .moveMessage source uid target =>
      match FolderDir.fetch (s source).files uid with
      | some msg =>
          let saved := s.save env target msg
          (saved.1.setFiles source (FolderDir.remove (saved.1 source).files uid), .uid saved.2)
      | none => (s, .error (.notFound uid))
  | .purge folder uid =>
      match FolderDir.locate (s folder).files uid with
      | some _ => (s.setFiles folder (FolderDir.remove (s folder).files uid), .done)
      | none => (s, .error (.notFound uid))
  | .uidNext folder => (s, .uid (s folder).next)

end FolderSet

/-- A request to the store. -/
structure StoreCall where
  address : Address
  env : StoreEnv
  op : StoreOp

/-- A request changes and reads the folders of the mailbox that owns its address. -/
def performOwner (t : Tables) (s : Address → FolderSet) (c : StoreCall) : (Address → FolderSet) × StoreReply :=
  match owner t c.address with
  | none => (s, .error (.noSuchMailbox c.address))
  | some b => (fun x => if x = b then ((s b).perform c.env c.op).1 else s x, ((s b).perform c.env c.op).2)

namespace Maildir

/-- The store as it is opened over a disk: nothing is copied yet. -/
def opened (t : Tables) (dirs : Str × Str → Folder → FolderDir) : Maildir := ⟨t, dirs, fun _ _ => none⟩

def performCall (m : Maildir) (c : StoreCall) : Maildir × StoreReply := m.perform c.env c.address c.op

/-- The folders of a mailbox, in its own directory. -/
def view (m : Maildir) (b : Address) : FolderSet := fun folder =>
  ⟨(m.dirs (mailboxDir b) folder).files,
    (m.dirs (mailboxDir b) folder).nextUid (m.uidNext (mailboxKey b) folder)⟩

end Maildir

/-- Over every disk, requests with these addresses are answered as by one set of folders for each mailbox, and leave
the mailboxes as these sets. -/
def RefinesMailboxes (t : Tables) (as : Set Address) : Prop :=
  ∀ dirs (calls : List StoreCall), (∀ c ∈ calls, c.address ∈ as) →
    (serve Maildir.performCall (.opened t dirs) calls).2 =
        (serve (performOwner t) (Maildir.opened t dirs).view calls).2 ∧
      ∀ b ∈ t.mailboxes, (serve Maildir.performCall (.opened t dirs) calls).1.view b =
        (serve (performOwner t) (Maildir.opened t dirs).view calls).1 b

/-- The address, and the target it resolves to, have the directory of the mailbox, and no other mailbox has it. -/
structure SameDir (t : Tables) (a b : Address) : Prop where
  given : mailboxDir a = mailboxDir b
  target : ∀ target, t.resolve a = some target → mailboxDir target = mailboxDir b
  apart : ∀ c ∈ t.mailboxes, c ≠ b → mailboxDir c ≠ mailboxDir b

end Selfhost.Mail

/-! # Keys, targets and views -/

namespace Selfhost.Mail

open Selfhost.Lib

/-! ## Keys -/

theorem at_not_mem_lower_local (a : Address) : '@' ∉ toAsciiLowercase a.localPart := by
  intro hat
  obtain ⟨c, hc, hlower⟩ := List.mem_map.mp hat
  have hvalid := a.local_valid
  simp only [isValidLocal, Bool.and_eq_true] at hvalid
  have hascii : ∀ b : UInt8, isLocalByte b = true → b.toNat < 0x80 := by
    intro b hb
    rcases (Bool.or_eq_true _ _).mp hb with hb | hb
    · exact lt_of_isAsciiAlphanumeric hb
    · refine (?_ : ∀ x ∈ _, x.toNat < 0x80) b (of_decide_eq_true hb)
      decide
  obtain ⟨hlt, hbyte⟩ := toNat_lt_of_utf8 hascii hvalid.2 hc
  have htable : ∀ n < 0x80, isLocalByte (UInt8.ofNat n) = true → (Char.ofNat n).toLower ≠ '@' := by decide
  have hne := htable c.toNat hlt hbyte
  rw [Char.ofNat_toNat] at hne
  exact hne hlower

theorem at_not_mem_domain (a : Address) : '@' ∉ a.domain := by
  intro hat
  have hchar := List.all_eq_true.mp a.domain_chars '@' hat
  revert hchar
  decide

theorem mailboxKey_eq_iff {a b : Address} : mailboxKey a = mailboxKey b ↔ a.isMatch b = true := by
  rw [mailboxKey, mailboxKey,
    List.append_cons_inj_of_notMem (at_not_mem_lower_local a) (at_not_mem_domain a), Address.isMatch_iff]
  constructor
  · rintro ⟨hlocal, -, hdomain⟩
    exact ⟨hdomain, hlocal⟩
  · rintro ⟨hdomain, hlocal⟩
    exact ⟨hlocal, rfl, hdomain⟩

/-! ## Owners -/

namespace Tables

variable {t : Tables}

/-- A target matches the mailbox that owns it, which is a configured one. -/
theorem mem_of_resolve_target {a target b : Address} (htarget : t.resolve a = some target)
    (hb : t.resolve target = some b) : b ∈ t.mailboxes ∧ b.isMatch target = true := by
  rcases Option.or_eq_some_iff.mp hb with hfound | ⟨hnone, -⟩
  · have hmatch := List.find?_some hfound
    exact ⟨List.mem_of_find?_eq_some hfound, hmatch⟩
  · obtain ⟨known, hmem, hmatch⟩ := exists_match_of_resolve htarget
    exact absurd hmatch (List.find?_eq_none.mp hnone known hmem)

/-- An address that exists matches the mailbox it is owned by, or no mailbox. -/
theorem match_or_alias {a target b : Address} (htarget : t.resolve a = some target)
    (hb : t.resolve target = some b) :
    b.isMatch a = true ∨ ∀ known ∈ t.mailboxes, known.isMatch a = false := by
  obtain ⟨-, hmatch⟩ := mem_of_resolve_target htarget hb
  rcases Option.or_eq_some_iff.mp htarget with hfound | ⟨hnone, -⟩
  · have hta := List.find?_some hfound
    exact Or.inl ((Address.isMatch_congr hta b).symm.trans hmatch)
  · exact Or.inr fun known hmem => Bool.eq_false_iff.mpr (List.find?_eq_none.mp hnone known hmem)

end Tables

theorem owner_eq_some_iff {t : Tables} {a b : Address} :
    owner t a = some b ↔ ∃ target, t.resolve a = some target ∧ t.resolve target = some b :=
  Option.bind_eq_some_iff

theorem exists_owner {t : Tables} {a : Address} (h : t.has a = true) : ∃ b, owner t a = some b := by
  obtain ⟨target, htarget⟩ := Option.isSome_iff_exists.mp h
  obtain ⟨b, hb⟩ := Tables.exists_resolve_of_resolve htarget
  exact ⟨b, owner_eq_some_iff.mpr ⟨target, htarget, hb⟩⟩

theorem mem_of_owner {t : Tables} {a b : Address} (h : owner t a = some b) : b ∈ t.mailboxes := by
  obtain ⟨target, htarget, hb⟩ := owner_eq_some_iff.mp h
  exact (Tables.mem_of_resolve_target htarget hb).1

end Selfhost.Mail
