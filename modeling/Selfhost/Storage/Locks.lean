import Selfhost.Lib.Slice
import Selfhost.Lib.Machine
import Selfhost.Storage.Path

/-!
# The lock table

`services/storage/src/dav/lock.rs`. Times are nanoseconds; the end of a lock never overflows here. Every operation
first drops the locks that have expired. The random bytes of a token are an argument, `none` when the system has
none.
-/

namespace Selfhost.Storage

open Selfhost.Lib

/-- The longest a lock is granted for. -/
def maxLockSeconds : Nat := 3600

/-- The most locks held at once, across every share. -/
def maxLocks : Nat := 256

def nanosPerSecond : Int := 1000000000

inductive Reach where
  | zero
  | infinity
  deriving DecidableEq, Repr

structure Resource where
  share : Str
  path : RelativePath
  deriving DecidableEq

/-- Whether the other resource is this one or lies beneath it, segment by segment. -/
def Resource.contains (r other : Resource) : Bool :=
  if r.share ≠ other.share then false
  else decide (r.path.names.length ≤ other.path.names.length) &&
    (other.path.names.zip r.path.names).all fun (a, b) => a == b

/-- The path as a person wrote it. -/
def RelativePath.text (p : RelativePath) : Str := ['/'].intercalate p.names

/-! ## Tokens -/

/-- Two lowercase hexadecimal digits for each byte. -/
def hexText (bytes : Bytes) : Str :=
  bytes.flatMap fun b =>
    ["0123456789abcdef".toList.getD (b.toNat / 16) '0', "0123456789abcdef".toList.getD (b.toNat % 16) '0']

abbrev Token := Str

/-- `urn:uuid:` and the bytes in groups. -/
def Token.mint (bytes : Bytes) : Token :=
  let hex := hexText bytes
  "urn:uuid:".toList ++ hex.take 8 ++ '-' :: (hex.drop 8).take 4 ++ '-' :: (hex.drop 12).take 4 ++
    '-' :: (hex.drop 16).take 4 ++ '-' :: (hex.drop 20).take 12

/-- Whether two byte strings are equal, compared without stopping at the first difference. -/
def sameBytes (expected actual : Bytes) : Bool :=
  if expected.length ≠ actual.length then false
  else ((expected.zip actual).map fun (a, b) => a ^^^ b).foldl (· ||| ·) 0 == 0

def Token.isMatch (token : Token) (presented : Str) : Bool := sameBytes (utf8 token) (utf8 presented)

/-! ## Submitted tokens -/

/-- The loop over an `If` header: the coded URLs that no `Not` stands before. Only a `<`, an `N` or an `n` stops it. -/
def scanTokens (negated : Bool) : Str → List Str
  | [] => []
  | c :: rest =>
      if c = '<' then
        match h : splitOnce '>' rest with
        | none => []
        | some (token, after) =>
            have : after.length < rest.length + 1 := by
              have hlen := congrArg List.length (splitOnce_some h).1
              simp only [List.length_append, List.length_cons] at hlen
              omega
            (if negated then [] else [token]) ++ scanTokens false after
      else if eqIgnoreAsciiCase ((c :: rest).take 3) "not".toList then scanTokens true (rest.drop 2)
      else scanTokens negated rest
termination_by s => s.length
decreasing_by
  · assumption
  · rw [List.length_drop, List.length_cons]
    omega
  · exact Nat.lt_succ_self _

def submittedTokens (header : Option Str) : List Str :=
  match header with
  | none => []
  | some value => scanTokens false value

/-! ## The table -/

structure Lock where
  token : Token
  resource : Resource
  reach : Reach
  owner : Option Str
  seconds : Nat
  expiresAt : Int
  deriving DecidableEq

def Lock.isLive (lock : Lock) (now : Int) : Bool := now < lock.expiresAt

/-- Whether a lock on a resource covers another, at its depth. -/
def Reach.covers (reach : Reach) (resource r : Resource) : Bool :=
  match reach with
  | .infinity => resource.contains r
  | .zero => resource == r

def Lock.covers (lock : Lock) (r : Resource) : Bool := lock.reach.covers lock.resource r

inductive TakeRefused where
  | conflict (holder : Str)
  | tooMany
  | noRandom
  deriving DecidableEq, Repr

inductive Guard where
  | clear
  | locked (holder : Str)
  deriving DecidableEq, Repr

inductive Release where
  | released
  | notHeld
  | wrongResource
  deriving DecidableEq, Repr

/-- The locks that are held, oldest first. -/
abbrev Locks := List Lock

namespace Locks

def clampSeconds (seconds : Nat) : Nat := max 1 (min seconds maxLockSeconds)

/-- The table without the locks that have expired. -/
def retainLive (held : Locks) (now : Int) : Locks := held.filter (·.isLive now)

/-- What is in the way of a new lock: one that covers it, or one that it covers. -/
def inTheWay (held : Locks) (resource : Resource) (reach : Reach) : Option Lock :=
  held.find? fun existing =>
    existing.covers resource || (reach == .infinity && resource.contains existing.resource)

def take (held : Locks) (now : Int) (resource : Resource) (reach : Reach) (owner : Option Str) (seconds : Nat)
    (random : Option Bytes) : Except TakeRefused Lock × Locks :=
  let held := held.retainLive now
  match held.inTheWay resource reach with
  | some existing => (.error (.conflict existing.resource.path.text), held)
  | none =>
      if maxLocks ≤ held.length then (.error .tooMany, held)
      else
        match random with
        | none => (.error .noRandom, held)
        | some bytes =>
            let seconds := clampSeconds seconds
            let lock : Lock := ⟨.mint bytes, resource, reach, owner, seconds, now + seconds * nanosPerSecond⟩
            (.ok lock, held ++ [lock])

/-- A lock with a new end. -/
def extended (now : Int) (seconds : Nat) (lock : Lock) : Lock :=
  { lock with seconds := clampSeconds seconds, expiresAt := now + clampSeconds seconds * nanosPerSecond }

/-- Extends the first lock of a token. -/
def refresh (held : Locks) (now : Int) (token : Str) (seconds : Nat) : Option Lock × Locks :=
  let held := held.retainLive now
  ((held.find? fun existing => existing.token.isMatch token).map (extended now seconds),
    modifyFirst (fun existing => existing.token.isMatch token) (extended now seconds) held)

def release (held : Locks) (now : Int) (resource : Resource) (token : Str) : Release × Locks :=
  let held := held.retainLive now
  match held.find? fun existing => existing.token.isMatch token with
  | none => (.notHeld, held)
  | some existing =>
      if existing.resource ≠ resource then (.wrongResource, held)
      else (.released, held.eraseP fun existing => existing.token.isMatch token)

/-- Whether a write to a resource may proceed. -/
def guard (held : Locks) (now : Int) (resource : Resource) (submitted : List Str) : Guard × Locks :=
  let held := held.retainLive now
  match held.find? fun existing =>
      existing.covers resource && !submitted.any fun token => existing.token.isMatch token with
  | some existing => (.locked existing.resource.path.text, held)
  | none => (.clear, held)

end Locks

end Selfhost.Storage
