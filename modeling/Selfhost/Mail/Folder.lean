import Selfhost.Lib.Text
import Selfhost.Mail.Store

/-!
# A folder on disk

`services/mail/src/store.rs`: a folder is a directory with the counter of its UIDs, its validity stamp and its
messages. The UID of a message stands in the name of its file.
-/

namespace Selfhost.Mail

open Selfhost.Lib

/-- What is set on a message, in the suffix of its name. -/
structure Flags where
  seen : Bool
  answered : Bool
  flagged : Bool
  deleted : Bool
  draft : Bool
  deriving DecidableEq

/-- No flag is set. -/
def Flags.default : Flags := ⟨false, false, false, false, false⟩

def flagsSuffix (f : Flags) : Str :=
  (if f.draft then ['D'] else []) ++ (if f.flagged then ['F'] else []) ++ (if f.answered then ['R'] else []) ++
    (if f.seen then ['S'] else []) ++ if f.deleted then ['T'] else []

/-- The parts of a file's name. -/
structure MessageName where
  secs : Nat
  pid : Nat
  uid : UInt32
  size : Nat
  flags : Option Flags
  deriving DecidableEq

def MessageName.base (n : MessageName) : Str :=
  natText n.secs ++ ".P".toList ++ natText n.pid ++ 'U' :: natText n.uid.toNat ++ ".selfhost,S=".toList ++
    natText n.size

/-- `<secs>.P<pid>U<uid>.selfhost,S=<size>[:2,<flags>]`. -/
def MessageName.text (n : MessageName) : Str :=
  n.base ++
    match n.flags with
    | some f => ':' :: '2' :: ',' :: flagsSuffix f
    | none => []

/-- The text behind a plus sign. -/
def stripPlus (text : Str) : Str := if text.head? = some '+' then text.tail else text

/-- A number of 32 bits; a plus sign is allowed. -/
def parseU32 (text : Str) : Option UInt32 :=
  let digits := stripPlus text
  if digits = [] ∨ !digits.all Char.isDigit then none
  else if 2 ^ 32 ≤ decimalValue digits then none
  else some (UInt32.ofNat (decimalValue digits))

/-- The UID in the name of a file. -/
def uidFromName (name : Str) : Option UInt32 :=
  ((name.takeWhile (· != ':')).splitOn 'U')[1]?.bind fun afterU => parseU32 (afterU.takeWhile Char.isDigit)

def flagsFromName (name : Str) : Flags :=
  match findSub [':', '2', ','] name with
  | none => .default
  | some i =>
      let info := name.drop (i + 3)
      ⟨info.contains 'S', info.contains 'R', info.contains 'F', info.contains 'T', info.contains 'D'⟩

/-- A file in `new/` or `cur/`. -/
structure Entry where
  isNew : Bool
  name : MessageName
  bytes : Bytes
  deriving DecidableEq

/-- Whether two files are at one path. -/
def Entry.samePath (e e' : Entry) : Bool := e.isNew == e'.isNew && e.name.text == e'.name.text

structure FolderDir where
  uidNext : Option Str
  uidValidity : Option Str
  files : List Entry
  deriving DecidableEq

namespace FolderDir

def empty : FolderDir := ⟨none, none, []⟩

/-! ## Counters -/

/-- The counter on disk; 1 when it cannot be read. -/
def readUidNext (d : FolderDir) : UInt32 := (d.uidNext.bind fun s => parseU32 (trim s)).getD 1

/-- The stamp; 0 when it cannot be read. -/
def validity (d : FolderDir) : UInt32 := (d.uidValidity.bind fun s => parseU32 (trim s)).getD 0

/-- The next UID: the copy in memory, or the counter on disk. -/
def nextUid (memory : Option UInt32) (d : FolderDir) : UInt32 := memory.getD d.readUidNext

/-- The text of the counter once this UID is taken. The addition wraps. -/
def counterText (uid : UInt32) : Str := natText (uid + 1).toNat

/-! ## Files -/

/-- The entries with a file renamed to its place; what was there is replaced. -/
def place (files : List Entry) (e : Entry) : List Entry := files.filter (fun f => !f.samePath e) ++ [e]

/-- The file of a UID, looked for in `new/` first. -/
def locate (files : List Entry) (uid : UInt32) : Option Entry :=
  (files.find? fun e => e.isNew && uidFromName e.name.text == some uid).or
    (files.find? fun e => !e.isNew && uidFromName e.name.text == some uid)

/-- The UIDs that are present, ascending. -/
def list (files : List Entry) : List UInt32 :=
  (files.filterMap fun e => uidFromName e.name.text).mergeSort fun a b => decide (a ≤ b)

def fetch (files : List Entry) (uid : UInt32) : Option Message := (locate files uid).bind fun e => Message.parse e.bytes

def flags (files : List Entry) (uid : UInt32) : Option Flags :=
  (locate files uid).map fun e => flagsFromName e.name.text

def remove (files : List Entry) (uid : UInt32) : List Entry :=
  match locate files uid with
  | some e => files.filter fun f => !f.samePath e
  | none => files

/-- Renames the file of a UID into `cur/`, with the flags in its name; `none` when there is none. -/
def setFlags (files : List Entry) (uid : UInt32) (flags : Flags) : Option (List Entry) :=
  (locate files uid).map fun e =>
    place (files.filter fun f => !f.samePath e) ⟨false, { e.name with flags := some flags }, e.bytes⟩

end FolderDir

/-- The file of a message that was just delivered. -/
def newEntry (secs pid : Nat) (uid : UInt32) (bytes : Bytes) : Entry :=
  ⟨true, ⟨secs, pid, uid, bytes.length, none⟩, bytes⟩

end Selfhost.Mail

/-! # One folder over the runs of the server -/

namespace Selfhost.Mail

open Selfhost.Lib

structure FolderRun where
  folder : Folder
  dir : FolderDir
  running : Bool
  pid : Nat
  /-- The copy of the counter in memory. -/
  memory : Option UInt32
  /-- The deliveries that have a UID, oldest first. -/
  inFlight : List (UInt32 × Bytes)
  /-- The UIDs of the messages that appeared in the folder, in that order. -/
  appeared : List UInt32
  /-- The messages that a rename replaced. -/
  lost : List Entry
  deriving DecidableEq

inductive FolderEvent where
  | start (pid now : Nat)
  /-- The server dies when `kept` bytes of the stamp are written. -/
  | startCut (now kept : Nat)
  | crash
  | allocate (bytes : Bytes)
  /-- Only `kept` bytes of the counter are written; the server dies or the delivery fails. -/
  | allocateCut (kept : Nat) (dies : Bool)
  | publish (index secs : Nat)
  | abandon (index : Nat)
  | setFlags (uid : UInt32) (flags : Flags)
  | purge (uid : UInt32)

namespace FolderRun

def fresh (folder : Folder) : FolderRun := ⟨folder, .empty, false, 0, none, [], [], []⟩

def nextUid (s : FolderRun) : UInt32 := s.dir.nextUid s.memory

/-- Only the root of a mailbox, its inbox, is stamped, and only when it has no stamp. -/
def needsStamp (s : FolderRun) : Bool := s.folder = .inbox && s.dir.uidValidity.isNone

def stamp (s : FolderRun) (text : Str) : FolderDir :=
  if s.needsStamp then { s.dir with uidValidity := some text } else s.dir

def dead (s : FolderRun) : FolderRun := { s with running := false, memory := none, inFlight := [] }

/-- The folder with a file renamed to its place, and what was lost to it. -/
def rename (s : FolderRun) (files : List Entry) (e : Entry) : FolderRun :=
  { s with dir := { s.dir with files := FolderDir.place files e }, lost := s.lost ++ files.filter (·.samePath e) }

def live (s : FolderRun) : FolderEvent → Option FolderRun
  | .start _ _ | .startCut _ _ => none
  | .crash => some s.dead
  | .allocate bytes =>
      some { s with
        dir := { s.dir with uidNext := some (FolderDir.counterText s.nextUid) }
        memory := some (s.nextUid + 1)
        inFlight := s.inFlight ++ [(s.nextUid, bytes)] }
  | .allocateCut kept dies =>
      let s' := { s with dir := { s.dir with uidNext := some ((FolderDir.counterText s.nextUid).take kept) } }
      some (if dies then s'.dead else s')
  | .publish index secs =>
      s.inFlight[index]?.map fun (uid, bytes) =>
        { s.rename s.dir.files (newEntry secs s.pid uid bytes) with
          inFlight := s.inFlight.eraseIdx index
          appeared := s.appeared ++ [uid] }
  | .abandon index => some { s with inFlight := s.inFlight.eraseIdx index }
  | .setFlags uid flags =>
      (FolderDir.locate s.dir.files uid).map fun e =>
        s.rename (s.dir.files.filter fun f => !f.samePath e) ⟨false, { e.name with flags := some flags }, e.bytes⟩
  | .purge uid => some { s with dir := { s.dir with files := FolderDir.remove s.dir.files uid } }

def step (s : FolderRun) (event : FolderEvent) : Option FolderRun :=
  if s.running then s.live event
  else
    match event with
    | .start pid now => some { s with dir := s.stamp (natText now), running := true, pid }
    | .startCut now kept => some { s with dir := s.stamp ((natText now).take kept) }
    | _ => none

end FolderRun

end Selfhost.Mail

/-! # Names and counters of a folder -/

namespace Selfhost.Mail

open Selfhost.Lib

/-! ## Numbers in texts -/

theorem stripPlus_of_digits {text : Str} (h : text.all Char.isDigit = true) : stripPlus text = text := by
  refine if_neg fun hhead => ?_
  have hplus := List.all_eq_true.mp h '+' (List.mem_of_mem_head? hhead)
  exact absurd hplus (by decide)

theorem parseU32_natText (n : UInt32) : parseU32 (natText n.toNat) = some n := by
  have hdigits := all_isDigit_natText n.toNat
  have hlt : ¬ 2 ^ 32 ≤ n.toNat := Nat.not_le.mpr n.toNat_lt
  unfold parseU32
  dsimp only
  rw [stripPlus_of_digits hdigits, decimalValue_natText, if_neg (by simp [natText_ne_nil, hdigits]), if_neg hlt,
    UInt32.ofNat_toNat]

theorem isWhitespace_of_isDigit {c : Char} (h : c.isDigit = true) : isWhitespace c = false := by
  simp only [Char.isDigit, Bool.and_eq_true, decide_eq_true_eq, ge_iff_le, UInt32.le_iff_toNat_le] at h
  have hzero : '0'.val.toNat = 48 := rfl
  have hnine : '9'.val.toNat = 57 := rfl
  have hc : c.toNat = c.val.toNat := rfl
  simp only [isWhitespace, Bool.or_eq_false_iff, Bool.and_eq_false_iff, decide_eq_false_iff_not, beq_eq_false_iff_ne]
  omega

/-- A number is its own trimmed text. -/
theorem trim_natText (n : Nat) : trim (natText n) = natText n := by
  have hspace : ∀ c ∈ natText n, isWhitespace c = false := fun c hc =>
    isWhitespace_of_isDigit (isDigit_of_mem_natText hc)
  have hstart : (natText n).dropWhile isWhitespace = natText n := by
    cases hn : natText n with
    | nil => rfl
    | cons c l => rw [List.dropWhile_cons_of_neg (by rw [hspace c (hn ▸ List.mem_cons_self)]; simp)]
  rw [trim, hstart]
  exact rdropWhile_eq_self_of_last fun c hc => hspace c (List.mem_of_getLast? hc)

/-! ## Names -/

theorem not_mem_natText {n : Nat} {c : Char} (h : c.isDigit = false) : c ∉ natText n := fun hc => by
  rw [isDigit_of_mem_natText hc] at h
  cases h

theorem takeWhile_natText (n : Nat) (t : Str) :
    (natText n ++ '.' :: t).takeWhile Char.isDigit = natText n := by
  rw [List.takeWhile_append_of_pos fun c hc => isDigit_of_mem_natText hc,
    List.takeWhile_cons_of_neg (by decide), List.append_nil]

/-- The UID of a name is the one that was put into it. -/
theorem uidFromName_text (n : MessageName) : uidFromName n.text = some n.uid := by
  have hbase : n.text.takeWhile (· != ':') = n.base := by
    have hcolon : ∀ c ∈ n.base, (c != ':') = true := by
      intro c hc
      rw [bne_iff_ne]
      rintro rfl
      simp only [MessageName.base, List.mem_append, List.mem_cons, not_mem_natText (show ':'.isDigit = false by rfl),
        false_or, or_false] at hc
      revert hc
      decide
    rw [MessageName.text, List.takeWhile_append_of_pos hcolon]
    cases n.flags with
    | none => rw [List.takeWhile_nil, List.append_nil]
    | some f => rw [List.takeWhile_cons_of_neg (by decide), List.append_nil]
  have hfirst : 'U' ∉ natText n.secs ++ ".P".toList ++ natText n.pid := by
    simp only [List.mem_append, not_mem_natText (show 'U'.isDigit = false by rfl), or_false, false_or]
    decide
  have hsecond : 'U' ∉ natText n.uid.toNat ++ ".selfhost,S=".toList ++ natText n.size := by
    simp only [List.mem_append, not_mem_natText (show 'U'.isDigit = false by rfl), or_false, false_or]
    decide
  have hsplit : n.base.splitOn 'U' = [natText n.secs ++ ".P".toList ++ natText n.pid,
      natText n.uid.toNat ++ ".selfhost,S=".toList ++ natText n.size] := by
    have hshape : n.base = (natText n.secs ++ ".P".toList ++ natText n.pid) ++
        'U' :: (natText n.uid.toNat ++ ".selfhost,S=".toList ++ natText n.size) := by
      simp only [MessageName.base, List.append_assoc, List.cons_append]
    rw [hshape, List.splitOn_append_cons_self_of_not_mem hfirst, List.splitOn_eq_singleton hsecond]
  rw [uidFromName, hbase, hsplit]
  show parseU32 ((natText n.uid.toNat ++ ".selfhost,S=".toList ++ natText n.size).takeWhile Char.isDigit) = _
  rw [List.append_assoc]
  exact (congrArg parseU32 (takeWhile_natText _ _)).trans (parseU32_natText _)

/-! ## Files -/

theorem Entry.uid_of_samePath {e e' : Entry} (h : e.samePath e' = true) : e.name.uid = e'.name.uid := by
  obtain ⟨-, hname⟩ := Bool.and_eq_true_iff.mp h
  have hname := congrArg uidFromName (beq_iff_eq.mp hname)
  rw [uidFromName_text, uidFromName_text] at hname
  exact Option.some.inj hname

namespace FolderDir

theorem mem_of_locate {files : List Entry} {uid : UInt32} {e : Entry} (h : locate files uid = some e) :
    e ∈ files ∧ e.name.uid = uid := by
  have hfound : ∀ p : Entry → Bool, (files.find? fun e => p e && uidFromName e.name.text == some uid) = some e →
      e ∈ files ∧ e.name.uid = uid := by
    intro p hp
    refine ⟨List.mem_of_find?_eq_some hp, ?_⟩
    have hsome := List.find?_some hp
    simp only [uidFromName_text, Bool.and_eq_true, beq_iff_eq, Option.some.injEq] at hsome
    exact hsome.2
  rcases Option.or_eq_some_iff.mp h with h | ⟨-, h⟩
  · exact hfound _ h
  · exact hfound _ h

theorem mem_place {files : List Entry} {e f : Entry} (h : f ∈ place files e) : f ∈ files ∨ f = e := by
  rcases List.mem_append.mp h with h | h
  · exact Or.inl (List.mem_filter.mp h).1
  · exact Or.inr (List.mem_singleton.mp h)

/-- The counter that is written is the counter that is read. -/
theorem readUidNext_counterText (uid : UInt32) (v : Option Str) (files : List Entry) :
    readUidNext ⟨some (counterText uid), v, files⟩ = uid + 1 := by
  rw [readUidNext, counterText, Option.bind_some, trim_natText, parseU32_natText]
  rfl

end FolderDir

end Selfhost.Mail
