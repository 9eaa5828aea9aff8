import Selfhost.Identity.Registry
import Selfhost.Lib.Base64Url

/-!
# Invitations

`app/admin/src/invite.rs`: the codes that let somebody register a passkey under one name, kept as digests.
-/

namespace Selfhost.Admin

open Selfhost.Lib Selfhost.Names Selfhost.Json

/-- `ring`'s SHA-256. -/
structure Sha256 where
  digest : Str → Bytes
  length_digest : ∀ text, (digest text).length = 32

/-- The most outstanding invitations. -/
def maxInvites : Nat := 32

def defaultTtlHours : Nat := 48

def maxTtlHours : Nat := 24 * 14

variable {A : Alphabet}

structure Invite (A : Alphabet) where
  name : Name A
  digest : Bytes
  issuedUnix : Nat
  expiresUnix : Nat
  deriving DecidableEq

def Invite.liveAt (invite : Invite A) (now : Nat) : Bool := now < invite.expiresUnix

/-- When an invitation of so many hours stops being redeemable. -/
def expiry (now ttlHours : Nat) : Nat :=
  let hours := if ttlHours = 0 then defaultTtlHours else min ttlHours maxTtlHours
  min (now + hours * 3600) (2 ^ 64 - 1)

/-! ## Operations on fresh entries -/

/-- What a minted invitation leaves of the others: those of other people that have not run out. -/
def superseded (name : Name A) (now : Nat) (entries : List (Invite A)) : List (Invite A) :=
  entries.filter fun entry => entry.name ≠ name && entry.liveAt now

def hit (presented : Bytes) (now : Nat) (entry : Invite A) : Bool := entry.liveAt now && entry.digest = presented

/-- The name that a digest redeems; the walk keeps the last match. -/
def nameFor (presented : Bytes) (now : Nat) (entries : List (Invite A)) : Option (Name A) :=
  (entries.filter (hit presented now)).getLast?.map Invite.name

def redeemed (presented : Bytes) (now : Nat) (entries : List (Invite A)) : List (Invite A) :=
  entries.filter fun entry => !hit presented now entry

def revoked (name : Name A) (entries : List (Invite A)) : List (Invite A) :=
  entries.filter fun entry => entry.name ≠ name

/-! ## The file -/

section

variable (D : DoubleOps)

def inviteJson (entry : Invite A) : Value D.F :=
  .ofFields [("name".toList, .string entry.name.text), ("digest".toList, .string (b64urlEncode entry.digest)),
    ("issuedUnix".toList, .number (D.ofU64 entry.issuedUnix)),
    ("expiresUnix".toList, .number (D.ofU64 entry.expiresUnix))]

def invitesToJson (entries : List (Invite A)) : Value D.F :=
  .ofFields [("invites".toList, .array (entries.map (inviteJson D)))]

/-- One turn of the loop of `parse_invites`. -/
def parseInvite (A : Alphabet) (entries : List (Invite A)) (item : Value D.F) : Option (List (Invite A)) := do
  let name ← Identity.parseName A (← (← item.get "name".toList).asStr)
  if entries.any fun entry => entry.name = name then none
  else
    let digest ← b64urlDecode (← (← item.get "digest".toList).asStr)
    if digest.length ≠ 32 then none
    else
      let issuedUnix ← (← item.get "issuedUnix".toList).asU64
      let expiresUnix ← (← item.get "expiresUnix".toList).asU64
      some (entries ++ [⟨name, digest, issuedUnix, expiresUnix⟩])

def parseInvites (A : Alphabet) (text : Str) : Option (List (Invite A)) := do
  let value ← (parse D text).toOption
  let items ← (← value.get "invites".toList).asArray
  if maxInvites < items.length then none else items.foldlM (parseInvite D A) []

/-- `read_entries`, without the stamp: a file that is absent or malformed holds no invitation. -/
def readInvites (A : Alphabet) (disk : Option (Cached.File Str)) : List (Invite A) :=
  ((Cached.textOf disk).bind (parseInvites D A)).getD []

/-- `refreshed`: the entries, read again when the file has another stamp. -/
def refreshed (disk : Option (Cached.File Str)) (stored : Cached.Stored (List (Invite A))) :
    Cached.Stored (List (Invite A)) :=
  if Cached.stampOf disk = stored.seen then stored else ⟨readInvites D A disk, Cached.stampOf disk⟩

/-- The file after a write. -/
def written (entries : List (Invite A)) (w : Cached.Write) (disk : Option (Cached.File Str)) : Option (Cached.File Str) :=
  match w with
  | .failed => disk
  | .placed stamp => some ⟨toText D (invitesToJson D entries), stamp⟩

/-! ## The handle -/

/-- What `mint` answers: whether there is a code, and otherwise why not. -/
inductive Mint where
  | minted
  | tooMany
  | notWritten
  deriving DecidableEq, Repr

def mint (H : Sha256) (name : Name A) (ttlHours : Nat) (code : Str) (now : Nat) (w : Cached.Write)
    (stored : Cached.Stored (List (Invite A))) (disk : Option (Cached.File Str)) :
    Mint × Cached.Stored (List (Invite A)) × Option (Cached.File Str) :=
  let stored := refreshed D disk stored
  let rest := superseded name now stored.entries
  if maxInvites ≤ rest.length then (.tooMany, { stored with entries := rest }, disk)
  else
    let entries := rest ++ [⟨name, H.digest code, now, expiry now ttlHours⟩]
    let disk := written D entries w disk
    match w with
    | .failed => (.notWritten, { stored with entries }, disk)
    | .placed _ => (.minted, ⟨entries, Cached.stampOf disk⟩, disk)

/-- A failed write is only reported on the console. -/
def redeem (H : Sha256) (code : Str) (now : Nat) (w : Cached.Write) (stored : Cached.Stored (List (Invite A)))
    (disk : Option (Cached.File Str)) : Option (Name A) × Cached.Stored (List (Invite A)) × Option (Cached.File Str) :=
  let stored := refreshed D disk stored
  match nameFor (H.digest code) now stored.entries with
  | none => (none, stored, disk)
  | some name =>
      let entries := redeemed (H.digest code) now stored.entries
      let disk := written D entries w disk
      (some name, ⟨entries, Cached.stampOf disk⟩, disk)

/-- `none` is a write that failed. -/
def revoke (name : Name A) (w : Cached.Write) (stored : Cached.Stored (List (Invite A)))
    (disk : Option (Cached.File Str)) : Option Bool × Cached.Stored (List (Invite A)) × Option (Cached.File Str) :=
  let stored := refreshed D disk stored
  let entries := revoked name stored.entries
  if entries.length = stored.entries.length then (some false, stored, disk)
  else
    let disk := written D entries w disk
    match w with
    | .failed => (none, { stored with entries }, disk)
    | .placed _ => (some true, ⟨entries, Cached.stampOf disk⟩, disk)

end

end Selfhost.Admin
