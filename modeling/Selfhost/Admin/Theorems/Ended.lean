import Selfhost.Admin.Lemmas.Invite
import Selfhost.Identity.Theorems.Registry
import Selfhost.Login.Lemmas.Session

/-!
# Ended credentials

Sessions and invitations that were ended stay ended through failed writes and restarts, as long as no restart reads a
file that still holds them.
-/

namespace Selfhost.Admin

open Selfhost.Lib Selfhost.Names Selfhost.Json Selfhost.Login

variable {A : Alphabet} {D : Doubles} {config : SessionConfig} {H : Sha256}

/-- In every run in which each restart comes after the endings have reached the file, a cookie that is answered was not
ended and answers for its own account within both lifetimes, and a code that was ended names nobody and redeems
nothing. -/
theorem ended_stays_ended :
    (∀ events door, Run (Door.step D.toDoubleOps config) (Door.Sound D.toDoubleOps) .empty events door →
      ∀ presented now account, door.clock ≤ now → (accountOf config presented now door.entries).1 = some account →
        presented ∉ door.ended ∧ ∃ m, (door.minted.find? fun m => m.id = presented) = some m ∧ m.accountId = account ∧
          now - m.createdUnix < config.lifetimeSecs ∧ now - m.usedUnix < config.idleSecs) ∧
    ∀ events (desk : Desk A), Run (Desk.step D.toDoubleOps H) (Desk.Sound D.toDoubleOps H) .empty events desk →
      ∀ code, H.digest code ∈ desk.ended → ∀ now w,
        nameFor (H.digest code) now (refreshed D.toDoubleOps desk.disk desk.stored).entries = none ∧
          (redeem D.toDoubleOps H code now w desk.stored desk.disk).1 = none :=
  ⟨fun _ _ hrun _ _ _ hnow hanswer => sessions_stay_ended hrun hnow hanswer,
    fun _ _ hrun _ hended now w => invites_stay_ended hrun hended now w⟩

/-! ## A file that was not written -/

section

def sampleConfig : SessionConfig := ⟨100, 50, 8⟩

def sampleCode : Str := List.replicate 32 'A'

/-- The digest of the sample code. -/
def sampleDigest : Bytes :=
  [0x22, 0xa4, 0x80, 0x51, 0x59, 0x4c, 0x19, 0x49, 0xde, 0xed, 0x70, 0x40, 0x85, 0x0c, 0x1f, 0x0f, 0x87, 0x64, 0x53,
    0x7f, 0x51, 0x91, 0xbe, 0x56, 0x73, 0x2d, 0x16, 0xa5, 0x4c, 0x1d, 0x81, 0x53]

def sampleSha256 : Sha256 where
  digest text := if text = sampleCode then sampleDigest else List.replicate 32 0
  length_digest text := by
    split
    · decide
    · simp

def sampleCookie : Str := "c0ffee".toList

def sampleAccount : Str := "acct-1".toList

def sampleSignOut (ok : Bool) : List DoorEvent :=
  [.create sampleAccount sampleCookie 1 true, .endSession sampleCookie ok, .restart]

def sampleRedemption (w : Cached.Write) : List (DeskEvent asciiAlphabet) :=
  [.mint Identity.sampleMom 0 sampleCode 1 (.placed 1), .redeem sampleCode 2 w, .restart]

end

/-- A session is ended while its file cannot be written, and a code redeemed: after a restart both are accepted. -/
theorem revived_after_restart :
    (∃ door, Run (Door.step wholeOps sampleConfig) (fun _ _ => True) .empty (sampleSignOut false) door ∧
      sampleCookie ∈ door.ended ∧ door.clock ≤ 2 ∧
      (accountOf sampleConfig sampleCookie 2 door.entries).1 = some sampleAccount) ∧
    ∃ desk, Run (Desk.step wholeOps sampleSha256) (fun _ _ => True) .empty (sampleRedemption .failed) desk ∧
      sampleSha256.digest sampleCode ∈ desk.ended ∧
      (redeem wholeOps sampleSha256 sampleCode 3 .failed desk.stored desk.disk).1 = some Identity.sampleMom := by
  refine ⟨⟨_, .cons trivial rfl (.cons trivial rfl (.cons trivial rfl .nil)), ?_, ?_, ?_⟩,
    ⟨_, .cons trivial rfl (.cons trivial rfl (.cons trivial rfl .nil)), ?_, ?_⟩⟩ <;> decide +kernel

/-- With the endings written, a session that was not ended is answered after a restart, and a redeemed code is not. -/
theorem ended_stays_ended_written :
    (∃ door, Run (Door.step wholeOps sampleConfig) (Door.Sound wholeOps) .empty
        [.create sampleAccount sampleCookie 1 true, .restart] door ∧ sampleCookie ∉ door.ended) ∧
    ∃ desk, Run (Desk.step wholeOps sampleSha256) (Desk.Sound wholeOps sampleSha256) .empty
        (sampleRedemption (.placed 2)) desk ∧
      (redeem wholeOps sampleSha256 sampleCode 3 .failed desk.stored desk.disk).1 = none := by
  have hboth := @ended_stays_ended asciiAlphabet wholeDoubles sampleConfig sampleSha256
  constructor
  · have hrun : ∃ door, Run (Door.step wholeOps sampleConfig) (Door.Sound wholeOps) .empty
        [.create sampleAccount sampleCookie 1 true, .restart] door ∧ door.clock ≤ 2 ∧
        (accountOf sampleConfig sampleCookie 2 door.entries).1 = some sampleAccount :=
      ⟨_, .cons ⟨Nat.zero_le _, rfl, by simp [Door.empty], by simp [Door.empty]⟩ rfl (.cons rfl rfl .nil),
        by decide +kernel, by decide +kernel⟩
    obtain ⟨door, hrun, hclock, hanswer⟩ := hrun
    exact ⟨door, hrun, (hboth.1 _ door hrun sampleCookie 2 sampleAccount hclock hanswer).1⟩
  · have hrun : ∃ desk, Run (Desk.step wholeOps sampleSha256) (Desk.Sound wholeOps sampleSha256) .empty
        (sampleRedemption (.placed 2)) desk ∧ sampleSha256.digest sampleCode ∈ desk.ended :=
      ⟨_, .cons ⟨rfl, rfl, by simp [Desk.empty], by simp [Desk.empty]⟩ rfl
        (.cons trivial rfl (.cons rfl rfl .nil)), by decide +kernel⟩
    obtain ⟨desk, hrun, hended⟩ := hrun
    exact ⟨desk, hrun, (hboth.2 _ desk hrun sampleCode hended 3 .failed).2⟩

end Selfhost.Admin
