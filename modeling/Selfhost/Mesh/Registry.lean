import Selfhost.Lib.Machine
import Selfhost.Lib.Utf8

/-!
# The registry of a mesh

The machines that were declared, whether each is linked, and why its last link ended.
-/

namespace Selfhost.Mesh

open Selfhost.Lib

/-! ## Names -/

def maxNameLen : Nat := 63

inductive NameError where
  | empty
  | tooLong (length : Nat)
  | uppercase
  | invalidCharacter (character : Char)
  | hyphenAtEdge
  deriving DecidableEq, Repr

/-- The loop over the characters of a name. -/
def checkCharacters : Str → Except NameError Unit
  | [] => .ok ()
  | c :: rest =>
      if c.isUpper then .error .uppercase
      else if !(c.isLower || c.isDigit || c = '-') then .error (.invalidCharacter c)
      else checkCharacters rest

def checkName (text : Str) : Except NameError Unit :=
  if text = [] then .error .empty
  else if (utf8 text).length > maxNameLen then .error (.tooLong (utf8 text).length)
  else
    match checkCharacters text with
    | .error error => .error error
    | .ok () =>
        if !(text.headD '-').isAlphanum || !(text.getLastD '-').isAlphanum then .error .hyphenAtEdge else .ok ()

/-- The name of one machine. -/
structure NodeName where
  text : Str
  wellFormed : checkName text = .ok ()
  deriving DecidableEq

def NodeName.parse (text : Str) : Except NameError NodeName :=
  match h : checkName text with
  | .error error => .error error
  | .ok () => .ok ⟨text, h⟩

/-! ## Records -/

/-- A reading of the wall clock. -/
abbrev SystemTime := Nat

inductive DropReason where
  | peerClosed (code : UInt16)
  | localShutdown
  | timeout
  | proofRefused
  | versionMismatch (offered : UInt8)
  | protocolError
  | transportFailed
  | neverConnected
  deriving DecidableEq, Repr

inductive Liveness where
  | neverLinked
  | linked (since : SystemTime)
  | down (since : SystemTime) (reason : DropReason)
  deriving DecidableEq, Repr

def Liveness.isLinked : Liveness → Bool
  | .linked _ => true
  | _ => false

structure PeerRecord where
  name : NodeName
  liveness : Liveness
  lastSeen : Option SystemTime
  consecutiveFailures : UInt32
  links : UInt64
  deriving DecidableEq

namespace PeerRecord

def declared (name : NodeName) : PeerRecord := ⟨name, .neverLinked, none, 0, 0⟩

def linked (now : SystemTime) (record : PeerRecord) : PeerRecord :=
  { record with
    liveness := .linked now
    lastSeen := some now
    consecutiveFailures := 0
    links := saturatingAdd record.links 1 }

def dropped (now : SystemTime) (reason : DropReason) (record : PeerRecord) : PeerRecord :=
  { record with
    lastSeen := if record.liveness.isLinked then some now else record.lastSeen
    liveness := .down now reason
    consecutiveFailures := saturatingAdd32 record.consecutiveFailures 1 }

end PeerRecord

/-! ## The registry -/

/-- One record for each machine. -/
structure Registry where
  peers : List (NodeName × PeerRecord)
  distinct : (peers.map Prod.fst).Nodup
  deriving DecidableEq

namespace Registry

def new : Registry := ⟨[], List.nodup_nil⟩

def isDeclared (registry : Registry) (name : NodeName) : Bool := (registry.peers.map Prod.fst).contains name

def get (registry : Registry) (name : NodeName) : Option PeerRecord :=
  (registry.peers.find? fun entry => entry.1 = name).map Prod.snd

def declare (registry : Registry) (name : NodeName) : Registry :=
  if h : registry.isDeclared name then registry
  else ⟨registry.peers ++ [(name, .declared name)], by
    rw [List.map_append, List.nodup_append']
    refine ⟨registry.distinct, List.nodup_singleton _, ?_⟩
    simpa [isDeclared] using h⟩

/-- `get_mut`, where the record is written. -/
def modify (registry : Registry) (name : NodeName) (f : PeerRecord → PeerRecord) : Registry :=
  ⟨registry.peers.map fun entry => if entry.1 = name then (entry.1, f entry.2) else entry, by
    rw [List.map_map, List.map_congr_left fun entry _ => show _ = entry.1 by
      simp only [Function.comp_apply]
      split <;> rfl]
    exact registry.distinct⟩

def declareLinked (registry : Registry) (name : NodeName) (now : SystemTime) : Registry :=
  (registry.declare name).modify name (.linked now)

def declareDropped (registry : Registry) (name : NodeName) (now : SystemTime) (reason : DropReason) : Registry :=
  (registry.declare name).modify name (.dropped now reason)

variable {registry : Registry} {name other : NodeName} {f : PeerRecord → PeerRecord}

theorem isDeclared_declare : (registry.declare name).isDeclared other = (registry.isDeclared other || other = name) := by
  unfold declare
  split
  · rename_i h
    by_cases hsame : other = name
    · simp [hsame, h]
    · simp [hsame]
  · rw [Bool.eq_iff_iff]
    simp [isDeclared]

@[simp] theorem isDeclared_modify : (registry.modify name f).isDeclared other = registry.isDeclared other := by
  unfold isDeclared modify
  rw [List.map_map]
  congr 1
  refine List.map_congr_left fun entry _ => ?_
  simp only [Function.comp_apply]
  split <;> rfl

theorem isDeclared_of_get {record : PeerRecord} (h : registry.get name = some record) :
    registry.isDeclared name = true := by
  obtain ⟨⟨key, value⟩, hfind, -⟩ := Option.map_eq_some_iff.mp h
  have hkey : key = name := by simpa using List.find?_some hfind
  rw [isDeclared, List.contains_iff_mem]
  exact List.mem_map.mpr ⟨_, List.mem_of_find?_eq_some hfind, hkey⟩

theorem declare_of_isDeclared (h : registry.isDeclared name = true) : registry.declare name = registry := by
  rw [declare, dif_pos h]

theorem get_modify_self : (registry.modify name f).get name = (registry.get name).map f := by
  unfold get modify
  rw [List.find?_map, Option.map_map, Option.map_map]
  have hsame : ((fun entry : NodeName × PeerRecord => decide (entry.1 = name)) ∘ fun entry =>
      if entry.1 = name then (entry.1, f entry.2) else entry) = fun entry => decide (entry.1 = name) := by
    funext entry
    simp only [Function.comp_apply]
    split <;> rfl
  rw [hsame]
  cases hfind : registry.peers.find? fun entry => decide (entry.1 = name) with
  | none => rfl
  | some entry =>
      have hkey : entry.1 = name := by simpa using List.find?_some hfind
      simp [hkey]

theorem get_modify_of_ne (h : other ≠ name) : (registry.modify name f).get other = registry.get other := by
  unfold get modify
  rw [List.find?_map, Option.map_map]
  have hsame : ((fun entry : NodeName × PeerRecord => decide (entry.1 = other)) ∘ fun entry =>
      if entry.1 = name then (entry.1, f entry.2) else entry) = fun entry => decide (entry.1 = other) := by
    funext entry
    simp only [Function.comp_apply]
    split <;> rfl
  rw [hsame]
  cases hfind : registry.peers.find? fun entry => decide (entry.1 = other) with
  | none => rfl
  | some entry =>
      have hkey : entry.1 = other := by simpa using List.find?_some hfind
      simp [hkey, h]

theorem get_declare_of_ne (h : other ≠ name) : (registry.declare name).get other = registry.get other := by
  unfold declare
  split
  · rfl
  · rw [get, get, List.find?_append]
    simp [h.symm]

end Registry

end Selfhost.Mesh
