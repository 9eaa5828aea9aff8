import Selfhost.Webauthn.Lemmas.Stores

/-!
# Ceremonies touch only whom they are for
-/

namespace Selfhost.Webauthn

open Selfhost.Lib Selfhost.Json

/-- In every run of either store in which the file can be written, no challenge value comes twice, and no registration
of a stranger bears the id of a stored passkey of somebody else, or at the invite door a challenge that was issued to
another name: every operation touches only the credentials of those it is authorised for, a refused registration
touches none, an assertion is answered with a credential as it was registered, and each challenge is redeemed at most
once and for what it was issued for. -/
theorem ceremonies_touch_their_own (P : Party) :
    (∀ passkeys events s, passkeys.length ≤ Console.maxPasskeys →
      Run (Console.step P) (Console.Sound P) (.load passkeys) events s →
        s.history.SingleUse ∧ ∀ event, s.Sound P event →
          Kept P event.Authorises event.Registers event.assertion s.history.registered s.passkeys
            (s.handle P event).1.passkeys (s.handle P event).2) ∧
    ∀ passkeys events s, Run (Reports.step P) (Reports.Sound P) (.load passkeys) events s →
      s.history.SingleUse ∧ ∀ event, s.Sound P event →
        Kept P (s.Authorises P event) event.Registers event.assertion s.history.registered s.passkeys
          (s.handle P event).1.passkeys (s.handle P event).2 := by
  constructor
  · intro passkeys events s hloaded hrun
    have hinv : s.Inv := by
      refine hrun.invariant (fun s event t h hsound hstep => ?_) (.load hloaded)
      cases hstep
      exact h.step hsound
    exact ⟨hinv.pool.singleUse, fun event hsound => hinv.kept hsound⟩
  · intro passkeys events s hrun
    have hinv : s.Inv := by
      refine hrun.invariant (fun s event t h hsound hstep => ?_) (.load passkeys)
      cases hstep
      exact h.step hsound
    exact ⟨hinv.pool.singleUse, fun event hsound => hinv.kept hsound⟩

/-! ## A stranger who knows a credential id -/

section

def sampleHost : Str := "console.example".toList

/-- The digest of the sample host. -/
def sampleHostDigest : Bytes :=
  [0x45, 0x3f, 0xfb, 0xea, 0xf6, 0xf7, 0x40, 0xba, 0x66, 0x14, 0xa8, 0x88, 0xb7, 0x47, 0xb7, 0x1a, 0xd3, 0xe3, 0xe6,
    0x7c, 0xf5, 0x53, 0xa9, 0xdf, 0x08, 0x70, 0x08, 0xfa, 0xb9, 0x15, 0x57, 0x08]

/-- The console's party; nobody signs in at it. -/
def sampleParty : Party where
  D := wholeOps
  rpId := sampleHost
  origin := Console.origin sampleHost
  sha256 data := if data = utf8 sampleHost then sampleHostDigest else List.replicate 32 0
  verify _ _ _ := false

def sampleRandom (n : UInt8) : Bytes := List.replicate 32 n

/-- What a browser writes about the challenge of `sampleRandom 1`. -/
def sampleClientData : Str :=
  ["eyJ0eXBlIjoid2ViYXV0", "aG4uY3JlYXRlIiwiY2hh", "bGxlbmdlIjoiQVFFQkFR", "RUJBUUVCQVFFQkFRRUJB",
    "UUVCQVFFQkFRRUJBUUVC", "QVFFQkFRRSIsIm9yaWdp", "biI6Imh0dHBzOi8vY29u", "c29sZS5leGFtcGxlIn0"].flatMap String.toList

/-- What it writes about the challenge of `sampleRandom 2`. -/
def otherClientData : Str :=
  ["eyJ0eXBlIjoid2ViYXV0", "aG4uY3JlYXRlIiwiY2hh", "bGxlbmdlIjoiQWdJQ0Fn", "SUNBZ0lDQWdJQ0FnSUNB",
    "Z0lDQWdJQ0FnSUNBZ0lD", "QWdJQ0FnSSIsIm9yaWdp", "biI6Imh0dHBzOi8vY29u", "c29sZS5leGFtcGxlIn0"].flatMap String.toList

def sampleAuthData : Str :=
  ["RT_76vb3QLpmFKiIt0e3", "GtPj5nz1U6nfCHAI-rkV", "VwhFAAAAAA"].flatMap String.toList

def samplePublicKey : Str :=
  ["MFkwEwYHKoZIzj0CAQYI", "KoZIzj0DAQcDQgAEAQID", "BAUGBwgJCgsMDQ4PEBES", "ExQVFhcYGRobHB0eHyAh",
    "IiMkJSYnKCkqKywtLi8w", "MTIzNDU2Nzg5Ojs8PT4_", "QA"].flatMap String.toList

def sampleRegistration (id clientData : Str) : Value Int :=
  .ofFields [("id".toList, .string id), ("algorithm".toList, .number (-7)),
    ("clientDataJSON".toList, .string clientData), ("authenticatorData".toList, .string sampleAuthData),
    ("publicKey".toList, .string samplePublicKey)]

def sampleId : Str := "AQID".toList

def sampleVictim : Str := "acct-1".toList

def sampleStranger : Str := "acct-2".toList

/-- A second registration, of the id that the first one has. -/
def takenId : Value Int := sampleRegistration sampleId otherClientData

/-- A second registration, of another id. -/
def newId : Value Int := sampleRegistration "AQIE".toList otherClientData

/-- One account has a passkey and another has a challenge of its own. -/
def sampleReports : List (Reports.Event Int) :=
  [.startRegistration sampleVictim (some (sampleRandom 1)) 0,
    .finishRegistration (sampleRegistration sampleId sampleClientData) ⟨1, 1, true⟩,
    .startRegistration sampleStranger (some (sampleRandom 2)) 2]

def sampleConsole : List (Console.Event Int) :=
  [.inviteChallenge sampleVictim (some (sampleRandom 1)) 0,
    .registerInvited sampleVictim (sampleRegistration sampleId sampleClientData) ⟨1, 1, true⟩,
    .inviteChallenge sampleStranger (some (sampleRandom 2)) 2]

end

/-- A stranger registers under the credential id of another account, or of another person's invitation: that
credential is gone. A registration whose file cannot be written is refused and stays. A challenge that was issued to
one invitation is redeemed by another. -/
theorem stranger_displaces :
    (∃ s, Run (Reports.step sampleParty) (fun _ _ => True) (.load []) sampleReports s ∧
      s.accountFor sampleParty takenId 3 = some sampleStranger ∧ (credentialsOf sampleVictim s.passkeys).length = 1 ∧
      credentialsOf sampleVictim (s.handle sampleParty (.finishRegistration takenId ⟨3, 3, true⟩)).1.passkeys = []) ∧
    ∃ s, Run (Console.step sampleParty) (fun _ _ => True) (.load []) sampleConsole s ∧
      (credentialsOf sampleVictim s.passkeys).length = 1 ∧
      credentialsOf sampleVictim
        (s.handle sampleParty (.registerInvited sampleStranger takenId ⟨3, 3, true⟩)).1.passkeys = [] ∧
      (s.handle sampleParty (.registerInvited sampleVictim takenId ⟨3, 3, false⟩)).2 = none ∧
      (s.handle sampleParty (.registerInvited sampleVictim takenId ⟨3, 3, false⟩)).1.passkeys ≠ s.passkeys ∧
      ¬(s.handle sampleParty (.registerInvited sampleVictim takenId ⟨3, 3, false⟩)).1.history.redeemed ⊆
        s.history.issued := by
  refine ⟨⟨_, .cons trivial rfl (.cons trivial rfl (.cons trivial rfl .nil)), ?_⟩,
    ⟨_, .cons trivial rfl (.cons trivial rfl (.cons trivial rfl .nil)), ?_⟩⟩
  · decide +kernel
  · decide +kernel

/-- Under an id of its own, a second registration leaves the first at both doors. -/
theorem ceremonies_touch_their_own_id :
    (∃ s, Run (Console.step sampleParty) (Console.Sound sampleParty) (.load []) sampleConsole s ∧
      credentialsOf sampleVictim
          (s.handle sampleParty (.registerInvited sampleStranger newId ⟨3, 3, true⟩)).1.passkeys
        = credentialsOf sampleVictim s.passkeys) ∧
    ∃ s, Run (Reports.step sampleParty) (Reports.Sound sampleParty) (.load []) sampleReports s ∧
      credentialsOf sampleVictim (s.handle sampleParty (.finishRegistration newId ⟨3, 3, true⟩)).1.passkeys
        = credentialsOf sampleVictim s.passkeys := by
  obtain ⟨hconsole, hreports⟩ := ceremonies_touch_their_own sampleParty
  constructor
  · have hmap : (exec (Console.step sampleParty) (Console.Sound sampleParty) (.load []) sampleConsole).map
        (fun s => decide (s.Sound sampleParty (.registerInvited sampleStranger newId ⟨3, 3, true⟩))) = some true := by
      decide +kernel
    obtain ⟨s, hexec, hsound⟩ := Option.map_eq_some_iff.mp hmap
    have hrun := Run.of_exec hexec
    have hother : sampleVictim ≠ sampleStranger := by decide +kernel
    exact ⟨s, hrun, ((hconsole [] _ s (by decide) hrun).2 _ (of_decide_eq_true hsound)).others sampleVictim hother⟩
  · have hmap : (exec (Reports.step sampleParty) (Reports.Sound sampleParty) (.load []) sampleReports).map
        (fun s => (decide (s.Sound sampleParty (.finishRegistration newId ⟨3, 3, true⟩)),
          s.accountFor sampleParty newId 3)) = some (true, some sampleStranger) := by
      decide +kernel
    obtain ⟨s, hexec, hboth⟩ := Option.map_eq_some_iff.mp hmap
    obtain ⟨hsound, haccount⟩ := Prod.mk.inj hboth
    have hrun := Run.of_exec hexec
    refine ⟨s, hrun, ((hreports [] _ s hrun).2 _ (of_decide_eq_true hsound)).others sampleVictim ?_⟩
    intro hauth
    have hsame := haccount.symm.trans hauth
    revert hsame
    decide +kernel

end Selfhost.Webauthn
