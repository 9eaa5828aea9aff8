import Mathlib.Data.List.Pairwise
import Selfhost.Mail.Folder
import Selfhost.Mail.Mailboxes

/-!
# The store is one set of folders for each mailbox, where directories agree

`refinesMailboxes_iff` says exactly for which addresses: those that have the directory of their mailbox, as they are
given and as they resolve, when no other mailbox has that directory.
-/

namespace Selfhost.Mail

open Selfhost.Lib

namespace Maildir

/-! ## The invariant -/

/-- A copy in memory is of a mailbox, and is what its directory says. -/
structure Mirrored (m : Maildir) : Prop where
  owned : ∀ key folder n, m.uidNext key folder = some n → ∃ b ∈ m.tables.mailboxes, mailboxKey b = key
  copied : ∀ b ∈ m.tables.mailboxes, ∀ folder n, m.uidNext (mailboxKey b) folder = some n →
    (m.dirs (mailboxDir b) folder).readUidNext = n

theorem mirrored_opened (t : Tables) (dirs : Str × Str → Folder → FolderDir) : (opened t dirs).Mirrored :=
  ⟨fun _ _ _ h => (nomatch h), fun _ _ _ _ h => (nomatch h)⟩

/-- The states of the two services: the same tables, and for every mailbox the folders that the store keeps. -/
structure Related (t : Tables) (m : Maildir) (s : Address → FolderSet) : Prop where
  tables : m.tables = t
  mirrored : m.Mirrored
  views : ∀ b ∈ t.mailboxes, m.view b = s b

/-! ## Views -/

section Views

variable {m : Maildir} {b c : Address}

theorem view_setDir_of_ne {path : Str × Str} {folder : Folder} {d : FolderDir} (h : mailboxDir c ≠ path) :
    (m.setDir path folder d).view c = m.view c := by
  funext f
  simp [view, setDir, h]

theorem view_setNext_of_ne {key : Str} {folder : Folder} {n : UInt32} (h : mailboxKey c ≠ key) :
    (m.setNext key folder n).view c = m.view c := by
  funext f
  simp [view, setNext, h]

/-- New files leave the counter as it is. -/
theorem view_setFiles (folder : Folder) (files : List Entry) :
    (m.setFiles (mailboxDir b) folder files).view b = (m.view b).setFiles folder files := by
  funext f
  by_cases hf : f = folder
  · subst hf
    simp [view, setFiles, setDir, FolderSet.setFiles, FolderSet.set, FolderDir.nextUid, FolderDir.readUidNext]
  · simp [view, setFiles, setDir, FolderSet.setFiles, FolderSet.set, hf]

theorem Mirrored.setFiles (hm : m.Mirrored) (path : Str × Str) (folder : Folder) (files : List Entry) :
    (m.setFiles path folder files).Mirrored := by
  refine ⟨hm.owned, fun b hb f n hn => ?_⟩
  rw [← hm.copied b hb f n hn]
  simp only [Maildir.setFiles, setDir]
  split
  · rename_i heq
    rw [heq.1, heq.2]
    rfl
  · rfl

end Views

/-! ## One request -/

/-- `m'` is `m` with other folders for one mailbox. -/
structure Acts (t : Tables) (b : Address) (m m' : Maildir) (s : FolderSet) : Prop where
  tables : m'.tables = t
  mirrored : m'.Mirrored
  view : m'.view b = s
  others : ∀ c ∈ t.mailboxes, c ≠ b → m'.view c = m.view c

/-- The store once a message is written into a folder of a mailbox. -/
def written (m : Maildir) (env : StoreEnv) (b : Address) (folder : Folder) (msg : Message) : Maildir :=
  let d := m.dirs (mailboxDir b) folder
  let uid := (m.view b folder).next
  (m.setNext (mailboxKey b) folder (uid + 1)).setDir (mailboxDir b) folder
    ⟨some (FolderDir.counterText uid), d.uidValidity, FolderDir.place d.files (newEntry env.secs env.pid uid msg.raw)⟩

section Request

variable {t : Tables} {a target b : Address} {m : Maildir}

theorem folderDir_of_has (h : m.tables.has a = true) : m.folderDir a = .ok (mailboxDir a) := if_pos h

theorem Acts.same (htables : m.tables = t) (hm : m.Mirrored) : Acts t b m m (m.view b) :=
  ⟨htables, hm, rfl, fun _ _ _ => rfl⟩

theorem Acts.setFiles {m' : Maildir} {s : FolderSet} (h : Acts t b m m' s)
    (hdirs : ∀ c ∈ t.mailboxes, c ≠ b → mailboxDir c ≠ mailboxDir b) (folder : Folder) (files : List Entry) :
    Acts t b m (m'.setFiles (mailboxDir b) folder files) (s.setFiles folder files) := by
  refine ⟨h.tables, h.mirrored.setFiles _ folder files, ?_, fun c hc hne => ?_⟩
  · rw [view_setFiles, h.view]
  · rw [Maildir.setFiles, view_setDir_of_ne (hdirs c hc hne), h.others c hc hne]

theorem view_written (env : StoreEnv) (folder : Folder) (msg : Message) :
    (m.written env b folder msg).view b = ((m.view b).save env folder msg).1 := by
  funext f
  by_cases hf : f = folder
  · subst hf
    simp [written, view, setDir, setNext, FolderSet.save, FolderSet.set, FolderDir.nextUid]
  · simp [written, view, setDir, setNext, FolderSet.save, FolderSet.set, hf]

theorem Mirrored.written (hm : m.Mirrored) (hb : b ∈ m.tables.mailboxes)
    (hkeys : ∀ c ∈ m.tables.mailboxes, c ≠ b → mailboxKey c ≠ mailboxKey b)
    (hdirs : ∀ c ∈ m.tables.mailboxes, c ≠ b → mailboxDir c ≠ mailboxDir b) (env : StoreEnv) (folder : Folder)
    (msg : Message) : (m.written env b folder msg).Mirrored := by
  refine ⟨fun key f n hn => ?_, fun c hc f n hn => ?_⟩
  · by_cases heq : key = mailboxKey b ∧ f = folder
    · exact ⟨b, hb, heq.1.symm⟩
    · simp only [Maildir.written, setDir, setNext, if_neg heq] at hn
      exact hm.owned key f n hn
  · by_cases hcb : c = b
    · subst hcb
      by_cases hf : f = folder
      · subst hf
        simp only [Maildir.written, setDir, setNext, and_self, if_true, Option.some.injEq] at hn ⊢
        rw [FolderDir.readUidNext_counterText, hn]
      · simp only [Maildir.written, setDir, setNext, hf, and_false, if_false] at hn ⊢
        exact hm.copied c hc f n hn
    · simp only [Maildir.written, setDir, setNext, hkeys c hc hcb, hdirs c hc hcb, false_and, if_false] at hn ⊢
      exact hm.copied c hc f n hn

theorem Acts.written (htables : m.tables = t) (hm : m.Mirrored) (hb : b ∈ t.mailboxes)
    (hkeys : ∀ c ∈ t.mailboxes, c ≠ b → mailboxKey c ≠ mailboxKey b)
    (hdirs : ∀ c ∈ t.mailboxes, c ≠ b → mailboxDir c ≠ mailboxDir b) (env : StoreEnv) (folder : Folder)
    (msg : Message) : Acts t b m (m.written env b folder msg) ((m.view b).save env folder msg).1 := by
  subst htables
  refine ⟨rfl, hm.written hb hkeys hdirs env folder msg, view_written env folder msg, fun c hc hne => ?_⟩
  rw [Maildir.written, view_setDir_of_ne (hdirs c hc hne), view_setNext_of_ne (hkeys c hc hne)]

/-- A message is written to the target, under the key of the mailbox that the target matches. -/
theorem save_eq (htables : m.tables = t) (htarget : t.resolve a = some target) (hb : t.resolve target = some b)
    (hdir : mailboxDir target = mailboxDir b) (env : StoreEnv) (folder : Folder) (msg : Message) :
    m.save env a folder msg = .ok (m.written env b folder msg, (m.view b folder).next) := by
  have hkey : mailboxKey target = mailboxKey b :=
    (mailboxKey_eq_iff.mpr (Tables.mem_of_resolve_target htarget hb).2).symm
  have hhas : m.tables.has target = true := by rw [htables, Tables.has, hb]; rfl
  subst htables
  rw [save, htarget]
  dsimp only
  rw [writeMessage, folderDir_of_has hhas, hkey, hdir]
  rfl

/-- The counter of an address that is spelled otherwise than its mailbox, or is an alias, is read from the directory,
and says what the copy says. -/
theorem uidNextOf_eq (htables : m.tables = t) (hm : m.Mirrored) (htarget : t.resolve a = some target)
    (hb : t.resolve target = some b) (hdir : mailboxDir a = mailboxDir b) (folder : Folder) :
    m.uidNextOf a folder = (m.view b folder).next := by
  have hhas : m.tables.has a = true := by rw [htables, Tables.has, htarget]; rfl
  subst htables
  rw [uidNextOf, folderDir_of_has hhas]
  dsimp only [view]
  rw [hdir]
  rcases Tables.match_or_alias htarget hb with hmatch | halias
  · rw [mailboxKey_eq_iff.mpr hmatch]
  · have hnone : m.uidNext (mailboxKey a) folder = none := by
      cases hcopy : m.uidNext (mailboxKey a) folder with
      | none => rfl
      | some n =>
          obtain ⟨known, hknown, hkey⟩ := hm.owned _ _ _ hcopy
          have hmatch := mailboxKey_eq_iff.mp hkey
          rw [halias known hknown] at hmatch
          cases hmatch
    rw [hnone]
    cases hcopy : m.uidNext (mailboxKey b) folder with
    | none => rfl
    | some n => exact hm.copied b (Tables.mem_of_resolve_target htarget hb).1 folder n hcopy

/-- A request is answered from the folders of its mailbox, and changes no others. -/
theorem perform_acts (htables : m.tables = t) (hm : m.Mirrored) (htarget : t.resolve a = some target)
    (hb : t.resolve target = some b) (hkeys : ∀ c ∈ t.mailboxes, c ≠ b → mailboxKey c ≠ mailboxKey b)
    (hdir : SameDir t a b) (env : StoreEnv) (op : StoreOp) :
    Acts t b m (m.perform env a op).1 ((m.view b).perform env op).1 ∧
      (m.perform env a op).2 = ((m.view b).perform env op).2 := by
  have hsame : Acts t b m m (m.view b) := Acts.same htables hm
  have hmem : b ∈ t.mailboxes := (Tables.mem_of_resolve_target htarget hb).1
  have hwritten := fun folder msg => Acts.written htables hm hmem hkeys hdir.apart env folder msg
  have hsave := fun folder msg => save_eq htables htarget hb (hdir.target target htarget) env folder msg
  have hpath : m.folderDir a = .ok (mailboxDir b) := by
    rw [folderDir_of_has (by rw [htables, Tables.has, htarget]; rfl), hdir.given]
  have hfiles : ∀ folder, m.filesOf a folder = .ok (m.view b folder).files := by
    intro folder
    rw [filesOf, hpath]
    rfl
  cases op with
  | deliver msg =>
      simp only [perform, deliver, hsave, changed, FolderSet.perform]
      exact ⟨hwritten .inbox msg, rfl⟩
  | save folder msg =>
      simp only [perform, hsave, changed, FolderSet.perform]
      exact ⟨hwritten folder msg, rfl⟩
  | list folder =>
      simp only [perform, list, hfiles]
      exact ⟨hsame, rfl⟩
  | fetch folder uid =>
      simp only [perform, fetch, hfiles, FolderSet.perform, Except.bind]
      cases FolderDir.fetch (m.view b folder).files uid with
      | none => exact ⟨hsame, rfl⟩
      | some msg => exact ⟨hsame, rfl⟩
  | flags folder uid =>
      simp only [perform, flags, hfiles, FolderSet.perform, Except.bind]
      cases FolderDir.flags (m.view b folder).files uid with
      | none => exact ⟨hsame, rfl⟩
      | some flags => exact ⟨hsame, rfl⟩
  | setFlags folder uid flags =>
      have hview : (m.dirs (mailboxDir b) folder).files = (m.view b folder).files := rfl
      simp only [perform, setFlags, hpath, FolderSet.perform, Except.bind, hview]
      cases FolderDir.setFlags (m.view b folder).files uid flags with
      | none => exact ⟨hsame, rfl⟩
      | some files => exact ⟨hsame.setFiles hdir.apart folder files, rfl⟩
  | moveMessage source uid target =>
      simp only [perform, moveMessage, fetch, hfiles, FolderSet.perform, Except.bind]
      cases FolderDir.fetch (m.view b source).files uid with
      | none => exact ⟨hsame, rfl⟩
      | some msg =>
          have hnext : (m.written env b target msg).folderDir a = .ok (mailboxDir b) := hpath
          have hview : ((m.written env b target msg).dirs (mailboxDir b) source).files =
              (((m.view b).save env target msg).1 source).files := by
            rw [← view_written]
            rfl
          simp only [hsave, hnext, hview, Except.map, changed]
          exact ⟨(hwritten target msg).setFiles hdir.apart source _, rfl⟩
  | purge folder uid =>
      have hview : (m.dirs (mailboxDir b) folder).files = (m.view b folder).files := rfl
      simp only [perform, purge, hpath, FolderSet.perform, Except.bind, hview]
      cases FolderDir.locate (m.view b folder).files uid with
      | none => exact ⟨hsame, rfl⟩
      | some e => exact ⟨hsame.setFiles hdir.apart folder _, rfl⟩
  | uidNext folder =>
      refine ⟨hsame, ?_⟩
      simp only [perform, FolderSet.perform, uidNextOf_eq htables hm htarget hb hdir.given]

/-- One request keeps the store and the sets of folders related, and has one answer. -/
theorem Related.perform {s : Address → FolderSet} {c : StoreCall} (h : Related t m s)
    (hapart : t.mailboxes.Pairwise fun a b => a.isMatch b = false) (hhas : t.has c.address = true)
    (hdir : ∀ b, owner t c.address = some b → SameDir t c.address b) :
    Related t (m.performCall c).1 (performOwner t s c).1 ∧ (m.performCall c).2 = (performOwner t s c).2 := by
  obtain ⟨b, howner⟩ := exists_owner hhas
  obtain ⟨target, htarget, hb⟩ := owner_eq_some_iff.mp howner
  have hmem : b ∈ t.mailboxes := mem_of_owner howner
  have hkeys : ∀ c ∈ t.mailboxes, c ≠ b → mailboxKey c ≠ mailboxKey b := by
    intro c hc hne heq
    have hsymm : Std.Symm fun a b : Address => a.isMatch b = false :=
      ⟨fun x y hxy => Bool.eq_false_iff.mpr fun hyx => by rw [Address.isMatch_symm hyx] at hxy; cases hxy⟩
    have hfalse := hapart.forall hc hmem hne
    rw [mailboxKey_eq_iff.mp heq] at hfalse
    cases hfalse
  obtain ⟨hacts, hreply⟩ := perform_acts h.tables h.mirrored htarget hb hkeys (hdir b howner) c.env c.op
  rw [performOwner, howner, performCall, hreply]
  rw [h.views b hmem] at hacts ⊢
  refine ⟨⟨hacts.tables, hacts.mirrored, fun x hx => ?_⟩, rfl⟩
  dsimp only
  by_cases hxb : x = b
  · rw [if_pos hxb, hxb]
    exact hacts.view
  · rw [if_neg hxb, hacts.others x hx hxb]
    exact h.views x hx

end Request

end Maildir

/-! ## The directories are needed -/

section Needed

variable {t : Tables} {a target b : Address}

/-- A message of one byte. -/
def letterA : Message := ⟨[0x61], 1, by decide⟩

/-- A disk on which only the inbox of one mailbox has a message. -/
def inboxOf (b : Address) : Str × Str → Folder → FolderDir := fun path folder =>
  if path = mailboxDir b ∧ folder = .inbox then ⟨none, none, [newEntry 0 0 1 letterA.raw]⟩ else .empty

theorem list_newEntry : FolderDir.list [newEntry 0 0 1 letterA.raw] = [1] := by
  simp [FolderDir.list, uidFromName_text, newEntry]

/-- The first message on an empty disk is in the directory of the target. -/
theorem files_delivered (htarget : t.resolve a = some target) (hb : t.resolve target = some b) (path : Str × Str) :
    (((Maildir.opened t fun _ _ => .empty).perform ⟨0, 0⟩ a (.deliver letterA)).1.dirs path .inbox).files =
      if path = mailboxDir target then [newEntry 0 0 1 letterA.raw] else [] := by
  have hhas : t.has target = true := by rw [Tables.has, hb]; rfl
  simp only [Maildir.perform, Maildir.deliver, Maildir.save, Maildir.opened, htarget, Maildir.writeMessage,
    Maildir.folderDir, hhas, if_true, Except.map, Maildir.changed, Maildir.setDir, Maildir.setNext, and_true]
  split
  · rfl
  · rfl

variable {as : Set Address}

/-- Listing an address reads the directory of its mailbox. -/
theorem given_of_refines (h : RefinesMailboxes t as) (ha : a ∈ as) (htarget : t.resolve a = some target)
    (hb : t.resolve target = some b) : mailboxDir a = mailboxDir b := by
  by_contra hne
  have howner : owner t a = some b := owner_eq_some_iff.mpr ⟨target, htarget, hb⟩
  have hhas : t.has a = true := by rw [Tables.has, htarget]; rfl
  have hanswers := (h (inboxOf b) [⟨a, ⟨0, 0⟩, .list .inbox⟩] (by simpa using ha)).1
  have hread : (Maildir.opened t (inboxOf b)).list a .inbox = .ok [] := by
    simp [Maildir.list, Maildir.filesOf, Maildir.folderDir, Maildir.opened, hhas, Except.map, inboxOf, hne,
      FolderDir.list, FolderDir.empty]
  have hspec : ((Maildir.opened t (inboxOf b)).view b .inbox).files = [newEntry 0 0 1 letterA.raw] := by
    simp [Maildir.view, Maildir.opened, inboxOf]
  simp only [serve_singleton, Maildir.performCall, Maildir.perform, hread, Maildir.observed, performOwner, howner,
    FolderSet.perform, hspec, list_newEntry] at hanswers
  exact absurd hanswers (by decide)

/-- A delivery writes into the directory of the mailbox. -/
theorem target_of_refines (h : RefinesMailboxes t as) (ha : a ∈ as) (htarget : t.resolve a = some target)
    (hb : t.resolve target = some b) : mailboxDir target = mailboxDir b := by
  by_contra hne
  have howner : owner t a = some b := owner_eq_some_iff.mpr ⟨target, htarget, hb⟩
  have hviews := (h (fun _ _ => .empty) [⟨a, ⟨0, 0⟩, .deliver letterA⟩] (by simpa using ha)).2 b (mem_of_owner howner)
  have hfiles := congrArg (fun s : FolderSet => (s .inbox).files) hviews
  simp only [serve_singleton, Maildir.performCall, Maildir.view, files_delivered htarget hb,
    if_neg (Ne.symm hne), performOwner, howner, if_true] at hfiles
  exact absurd hfiles (by simp [FolderSet.perform, FolderSet.save, FolderSet.set, FolderDir.place])

/-- A delivery writes into the directory of no other mailbox. -/
theorem apart_of_refines (h : RefinesMailboxes t as) (ha : a ∈ as) (htarget : t.resolve a = some target)
    (hb : t.resolve target = some b) {c : Address} (hc : c ∈ t.mailboxes) (hcb : c ≠ b) :
    mailboxDir c ≠ mailboxDir b := by
  intro heq
  have howner : owner t a = some b := owner_eq_some_iff.mpr ⟨target, htarget, hb⟩
  have hviews := (h (fun _ _ => .empty) [⟨a, ⟨0, 0⟩, .deliver letterA⟩] (by simpa using ha)).2 c hc
  have hfiles := congrArg (fun s : FolderSet => (s .inbox).files) hviews
  simp only [serve_singleton, Maildir.performCall, Maildir.view, files_delivered htarget hb, heq,
    if_pos (target_of_refines h ha htarget hb).symm, performOwner, howner, if_neg hcb] at hfiles
  exact absurd hfiles (by simp [Maildir.opened, FolderDir.empty])

end Needed

/-! ## The store and the sets of folders -/

/-- Where no two mailboxes match, requests with existing addresses are answered as by one set of folders for each
mailbox, in every run over every disk, if and only if every address and every target it resolves to has the directory
of its mailbox and shares it with no other mailbox. -/
theorem refinesMailboxes_iff {t : Tables} (hapart : t.mailboxes.Pairwise fun a b => a.isMatch b = false)
    {as : Set Address} (hexists : ∀ a ∈ as, t.has a = true) :
    RefinesMailboxes t as ↔ ∀ a ∈ as, ∀ b, owner t a = some b → SameDir t a b := by
  constructor
  · intro h a ha b howner
    obtain ⟨target, htarget, hb⟩ := owner_eq_some_iff.mp howner
    refine ⟨given_of_refines h ha htarget hb, fun x hx => ?_, fun c => apart_of_refines h ha htarget hb⟩
    rw [htarget] at hx
    cases hx
    exact target_of_refines h ha htarget hb
  · intro hdir dirs calls hcalls
    have hstep : ∀ m s c, Maildir.Related t m s → c.address ∈ as →
        Maildir.Related t (m.performCall c).1 (performOwner t s c).1 ∧
          (m.performCall c).2 = (performOwner t s c).2 :=
      fun m s c h hc => h.perform hapart (hexists _ hc) (hdir _ hc)
    have hstart : Maildir.Related t (.opened t dirs) (Maildir.opened t dirs).view :=
      ⟨rfl, Maildir.mirrored_opened t dirs, fun _ _ => rfl⟩
    obtain ⟨hend, hanswers⟩ := serve_related hstep hstart hcalls
    exact ⟨hanswers, hend.views⟩

def boxBob : Address := ⟨"bob".toList, "x.y".toList, by decide, by decide⟩

def boxAmy : Address := ⟨"amy".toList, "x.y".toList, by decide, by decide⟩

def boxPost : Address := ⟨"postmaster".toList, "x.y".toList, by decide, by decide⟩

def twoBoxes : Tables := ⟨[boxBob, boxAmy], [(boxPost, boxBob)], by decide⟩

theorem refinesMailboxes_twoBoxes : (∀ a ∈ ({boxBob, boxAmy} : Set Address), twoBoxes.has a = true) ∧
    RefinesMailboxes twoBoxes {boxBob, boxAmy} := by
  have hhas : ∀ a ∈ ({boxBob, boxAmy} : Set Address), twoBoxes.has a = true := by
    rintro a (rfl | rfl)
    · decide
    · decide
  refine ⟨hhas, (refinesMailboxes_iff (by decide) hhas).mpr ?_⟩
  have hself : ∀ a ∈ twoBoxes.mailboxes, twoBoxes.resolve a = some a ∧ owner twoBoxes a = some a ∧
      ∀ c ∈ twoBoxes.mailboxes, c ≠ a → mailboxDir c ≠ mailboxDir a := by decide
  intro a ha b howner
  have hmem : a ∈ twoBoxes.mailboxes := by
    rcases ha with rfl | rfl
    · decide
    · decide
  obtain ⟨hresolve, hself, hothers⟩ := hself a hmem
  rw [hself] at howner
  cases howner
  refine ⟨rfl, fun x hx => ?_, hothers⟩
  rw [hresolve] at hx
  cases hx
  rfl

def boxPlus : Address := ⟨"a+b".toList, "x.y".toList, by decide, by decide⟩

def boxUnder : Address := ⟨"a_b".toList, "x.y".toList, by decide, by decide⟩

def sharedBoxes : Tables := ⟨[boxPlus, boxUnder], [], by decide⟩

/-- The alias of a mailbox lists an empty folder, and a delivery to one of two mailboxes is in the other too. -/
theorem mailboxes_mixed : ¬ RefinesMailboxes twoBoxes {a | twoBoxes.has a = true} ∧
    (sharedBoxes.mailboxes.Pairwise fun a b => a.isMatch b = false) ∧
    ¬ RefinesMailboxes sharedBoxes {a | sharedBoxes.has a = true} := by
  refine ⟨fun h => ?_, by decide, fun h => ?_⟩
  · have hdir : mailboxDir boxPost = mailboxDir boxBob :=
      given_of_refines h (show twoBoxes.has boxPost = true by decide)
        (show twoBoxes.resolve boxPost = some boxBob by decide) (by decide)
    exact absurd hdir (by decide)
  · have hdir : mailboxDir boxUnder ≠ mailboxDir boxPlus :=
      apart_of_refines h (show sharedBoxes.has boxPlus = true by decide)
        (show sharedBoxes.resolve boxPlus = some boxPlus by decide) (by decide) (by decide) (by decide)
    exact hdir (by decide)

end Selfhost.Mail
