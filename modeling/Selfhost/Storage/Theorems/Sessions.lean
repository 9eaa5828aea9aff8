import Selfhost.Lib.Run
import Selfhost.Storage.Lemmas.Locks
import Selfhost.Storage.Sessions

/-!
# Resumable uploads publish what was sent, unless a write fails

A chunk is counted before it is written, and the session of a write that failed is kept. `uploads_exact` says that
counter and file agree, and only whole uploads are published, as long as no write fails; and that the first write
that stops short parts them.
-/

namespace Selfhost.Storage

open Selfhost.Lib

/-- The counter is the length of the partial file, and the file holds the accepted chunks. -/
structure Session.Exact (session : Session) : Prop where
  counted : session.receiver.received.toNat = session.receiver.file.bytes.length
  contents : session.receiver.file.bytes = session.accepted.flatten

structure Publication.Exact (p : Publication) : Prop where
  contents : p.contents = p.accepted.flatten
  whole : p.contents.length = p.declared.toNat

namespace Sessions

variable {s s' : Sessions}

structure Exact (s : Sessions) : Prop where
  live : ∀ session ∈ s.entries, session.Exact
  published : ∀ p ∈ s.published, p.Exact

/-- A write that is not empty ends with all of the chunk in the file. -/
def Unbroken (_ : Sessions) : SessionEvent → Prop
  | .append _ _ chunk write => write = .whole ∨ chunk.bytes = []
  | _ => True

instance (s : Sessions) : (a : SessionEvent) → Decidable (s.Unbroken a)
  | .tick _ => instDecidableTrue
  | .begin .. => instDecidableTrue
  | .append _ _ chunk write => inferInstanceAs (Decidable (write = .whole ∨ chunk.bytes = []))
  | .progress _ => instDecidableTrue
  | .finish .. => instDecidableTrue
  | .abandon _ => instDecidableTrue

/-! ## The table -/

theorem Exact.sublist (h : s.Exact) {entries : List Session} (hsub : entries.Sublist s.entries) :
    Exact { s with entries } := ⟨fun session hmem => h.live session (hsub.subset hmem), h.published⟩

theorem sweep_exact (h : s.Exact) : s.sweep.Exact := h.sublist List.filter_sublist

theorem mem_of_find {ticket : Str} {session : Session} (h : s.find ticket = some session) : session ∈ s.entries :=
  List.mem_of_find?_eq_some h

theorem progress_eq (s : Sessions) (ticket : Str) : (s.progress ticket).2 = s.sweep := by
  unfold progress
  dsimp only
  split
  · rfl
  · rfl

/-! ## Writing -/

/-- A chunk is refused, or it is counted and some of it is written. -/
theorem write_cases {r r' : Receiver} {chunk : FileData} {write : FileWrite} {result : Except SessionFailure Unit}
    (h : r.write chunk write = some (result, r')) :
    (r' = r ∧ ∃ admission, result = .error (.outOfRoom admission)) ∨
      (r'.received = saturatingAdd r.received chunk.len ∧ r'.declared = r.declared ∧
        r'.file.bytes = r.file.bytes ++ write.landed chunk.bytes ∧ result = write.result) := by
  unfold Receiver.write Reservation.record at h
  dsimp only at h
  split at h
  · rename_i reservation heq
    obtain ⟨file, hfile, heq'⟩ := Option.map_eq_some_iff.mp h
    cases heq'
    unfold FileData.append at hfile
    split at hfile
    · cases hfile
      obtain ⟨hadmission, rfl⟩ := Prod.mk.inj heq
      refine Or.inr ⟨?_, rfl, rfl, rfl⟩
      rw [Receiver.received, if_pos hadmission]
      rfl
    · cases hfile
  · cases h
    exact Or.inl ⟨rfl, _, rfl⟩

theorem toNat_len (data : FileData) : data.len.toNat = data.bytes.length :=
  UInt64.toNat_ofNat_of_lt' data.small

/-- A counter that was right is right again when the whole chunk is in the file. -/
theorem counted_whole {r r' : Receiver} {chunk : FileData} (hr : r.received.toNat = r.file.bytes.length)
    (hreceived : r'.received = saturatingAdd r.received chunk.len) (hfile : r'.file.bytes = r.file.bytes ++ chunk.bytes) :
    r'.received.toNat = r'.file.bytes.length := by
  have hsmall := r'.file.small
  rw [hfile, List.length_append] at hsmall
  rw [hreceived, hfile, toNat_saturatingAdd, toNat_len, hr, List.length_append, u64Max]
  omega

/-- What an append does to the table. -/
theorem append_cases {ticket : Str} {offset : UInt64} {chunk : FileData} {write : FileWrite}
    {reply : Except SessionFailure Progress} (h : s.append ticket offset chunk write = some (reply, s')) :
    (s' = s.sweep ∧ reply ≠ .error .io) ∨
      ∃ session result receiver, s.sweep.find ticket = some session ∧ offset = session.receiver.received ∧
        session.receiver.write chunk write = some (result, receiver) ∧ reply = result.map (fun _ => receiver.progress) ∧
        s' = { s.sweep with
          entries := modifyFirst (holds ticket) (Session.after · s.sweep.now chunk receiver result) s.sweep.entries } := by
  unfold append at h
  dsimp only at h
  split at h
  · cases h
    exact Or.inl ⟨rfl, fun h => (nomatch h)⟩
  · rename_i session hfind
    split at h
    · cases h
      exact Or.inl ⟨rfl, fun h => (nomatch h)⟩
    · rename_i hoffset
      obtain ⟨⟨result, receiver⟩, hwrite, heq⟩ := Option.map_eq_some_iff.mp h
      cases heq
      exact Or.inr ⟨session, result, receiver, hfind, not_not.mp hoffset, hwrite, rfl, rfl⟩

/-! ## One event -/

/-- The session a chunk was written for, once the whole of it is in the file. -/
theorem after_exact {session : Session} {now : Int} {chunk : FileData} {write : FileWrite} {receiver : Receiver}
    {result : Except SessionFailure Unit} (h : session.Exact) (hun : write = .whole ∨ chunk.bytes = [])
    (hwrite : session.receiver.write chunk write = some (result, receiver)) :
    (Session.after session now chunk receiver result).Exact := by
  obtain ⟨rfl, admission, rfl⟩ | ⟨hreceived, -, hfile, hresult⟩ := write_cases hwrite
  · exact h
  · have hlanded : write.landed chunk.bytes = chunk.bytes := by
      rcases hun with rfl | hempty
      · rfl
      · cases write with
        | whole => rfl
        | fails kept => rw [hempty, FileWrite.landed, List.take_nil]
    rw [hlanded] at hfile
    have hcounted := counted_whole h.counted hreceived hfile
    cases write with
    | whole =>
        rw [hresult]
        refine ⟨hcounted, ?_⟩
        change receiver.file.bytes = (session.accepted ++ [chunk.bytes]).flatten
        rw [hfile, h.contents, List.flatten_append, List.flatten_singleton]
    | fails kept =>
        rw [hresult]
        refine ⟨hcounted, ?_⟩
        have hempty : chunk.bytes = [] := hun.resolve_left (fun h => (nomatch h))
        change receiver.file.bytes = session.accepted.flatten
        rw [hfile, hempty, List.append_nil, h.contents]

theorem append_exact {ticket : Str} {offset : UInt64} {chunk : FileData} {write : FileWrite}
    {reply : Except SessionFailure Progress} (h : s.Exact) (hun : write = .whole ∨ chunk.bytes = [])
    (happend : s.append ticket offset chunk write = some (reply, s')) : s'.Exact := by
  obtain ⟨rfl, -⟩ | ⟨session, result, receiver, hfind, -, hwrite, -, rfl⟩ := append_cases happend
  · exact sweep_exact h
  · have hsweep := sweep_exact h
    have hafter : (Session.after session s.sweep.now chunk receiver result).Exact :=
      after_exact (hsweep.live session (mem_of_find hfind)) hun hwrite
    obtain ⟨l₁, l₂, hentries, hmodified⟩ :=
      modifyFirst_of_find? hfind (Session.after · s.sweep.now chunk receiver result)
    refine ⟨?_, hsweep.published⟩
    intro other hmem
    rw [hmodified] at hmem
    have hlive := hsweep.live
    rw [hentries] at hlive
    rcases List.mem_append.mp hmem with hmem | hmem
    · exact hlive other (List.mem_append_left _ hmem)
    · rcases List.mem_cons.mp hmem with rfl | hmem
      · exact hafter
      · exact hlive other (List.mem_append_right _ (List.mem_cons_of_mem _ hmem))

theorem begin_exact {share : Str} {limits : Limits} {usedBefore declared : UInt64} {random : Option Bytes}
    (h : s.Exact) : (s.begin (.new share limits usedBefore declared) random).2.Exact := by
  unfold begin
  split
  · exact h
  · rename_i bytes
    have hsweep := sweep_exact h
    dsimp only
    split
    · exact hsweep
    · refine ⟨?_, hsweep.published⟩
      intro session hmem
      rcases List.mem_append.mp hmem with hmem | hmem
      · exact hsweep.live session hmem
      · rw [List.mem_singleton] at hmem
        subst hmem
        exact ⟨rfl, rfl⟩

theorem finish_exact {ticket : Str} {commits : Bool} (h : s.Exact) : (s.finish ticket commits).2.Exact := by
  have hsweep := sweep_exact h
  unfold finish
  dsimp only
  split
  · exact hsweep
  · rename_i session hfind
    have hsession := hsweep.live session (mem_of_find hfind)
    have herased := hsweep.sublist (@List.eraseP_sublist _ (holds ticket) _)
    split
    · exact hsweep
    · rename_i hwhole
      split
      · refine ⟨herased.live, ?_⟩
        intro publication hmem
        rcases List.mem_append.mp hmem with hmem | hmem
        · exact herased.published publication hmem
        · rw [List.mem_singleton] at hmem
          subst hmem
          refine ⟨hsession.contents, ?_⟩
          rw [← hsession.counted, not_not.mp hwhole]
      · exact herased

theorem abandon_exact {ticket : Str} (h : s.Exact) : (s.abandon ticket).2.Exact := by
  have hsweep := sweep_exact h
  unfold abandon
  dsimp only
  split
  · exact hsweep
  · exact hsweep.sublist List.eraseP_sublist

theorem step_exact {a : SessionEvent} (h : s.Exact) (hun : s.Unbroken a) (hstep : s.step a = some s') : s'.Exact := by
  cases a with
  | tick elapsed =>
      cases hstep
      exact ⟨h.live, h.published⟩
  | begin share limits usedBefore declared random =>
      cases hstep
      exact begin_exact h
  | append ticket offset chunk write =>
      obtain ⟨⟨reply, s''⟩, happend, rfl⟩ := Option.map_eq_some_iff.mp hstep
      exact append_exact h hun happend
  | progress ticket =>
      cases hstep
      rw [progress_eq]
      exact sweep_exact h
  | finish ticket commits =>
      cases hstep
      exact finish_exact h
  | abandon ticket =>
      cases hstep
      exact abandon_exact h

/-- A write that fails before the end of its chunk leaves a session that is not exact. -/
theorem not_exact_of_short_write {ticket : Str} {offset : UInt64} {chunk : FileData} {kept : Nat} (h : s.Exact)
    (hshort : kept < chunk.bytes.length) (hroom : offset.toNat + chunk.bytes.length < 2 ^ 64)
    (happend : s.append ticket offset chunk (.fails kept) = some (.error .io, s')) : ¬s'.Exact := by
  obtain ⟨-, hreply⟩ | ⟨session, result, receiver, hfind, hoffset, hwrite, hreply, rfl⟩ := append_cases happend
  · exact absurd rfl hreply
  · obtain ⟨-, admission, rfl⟩ | ⟨hreceived, -, hfile, rfl⟩ := write_cases hwrite
    · cases hreply
    · obtain ⟨l₁, l₂, -, hmodified⟩ :=
        modifyFirst_of_find? hfind (Session.after · s.sweep.now chunk receiver (FileWrite.fails kept).result)
      intro hexact
      have hafter := hexact.live (Session.after session s.sweep.now chunk receiver (FileWrite.fails kept).result) (by
        rw [hmodified]
        exact List.mem_append_right _ List.mem_cons_self)
      have hbefore := (sweep_exact h).live session (mem_of_find hfind)
      have hcounted : receiver.received.toNat = receiver.file.bytes.length := hafter.counted
      have hlength : receiver.file.bytes.length = session.receiver.file.bytes.length + min kept chunk.bytes.length := by
        rw [hfile, List.length_append, FileWrite.landed, List.length_take]
      rw [hreceived, toNat_saturatingAdd, toNat_len, hlength, hbefore.counted, u64Max] at hcounted
      rw [hoffset, hbefore.counted] at hroom
      omega

/-! ## Whole runs -/

/-- Over a run without a failed write the counter of every live session is the length of its file, and what is
published is the accepted chunks and as long as declared. A write that fails before the end of its chunk, with no
counter near its bound, ends this. -/
theorem uploads_exact (now : Int) :
    (∀ (l : List SessionEvent) (s : Sessions), Run step Unbroken (start now) l s → s.Exact) ∧
      ∀ (s s' : Sessions) (ticket : Str) (offset : UInt64) (chunk : FileData) (kept : Nat), s.Exact →
        kept < chunk.bytes.length → offset.toNat + chunk.bytes.length < 2 ^ 64 →
        s.append ticket offset chunk (.fails kept) = some (.error .io, s') → ¬s'.Exact := by
  refine ⟨?_, fun s s' ticket offset chunk kept h => not_exact_of_short_write h⟩
  intro l s hrun
  refine hrun.invariant (fun s a t h hun hstep => step_exact h hun hstep) ⟨?_, ?_⟩
  · intro session hmem
    cases hmem
  · intro publication hmem
    cases hmem

/-- An upload of two bytes, under the ticket `61`. -/
def twoBytes : SessionEvent := .begin "s".toList ⟨none, 4, 100, 0⟩ 0 2 (some [0x61])

/-- The bytes `61 62`. -/
def pair : FileData := ⟨[0x61, 0x62], by decide⟩

def sent (now : Int) : Option Sessions :=
  exec step Unbroken (start now) [twoBytes, .append "61".toList 0 pair .whole, .finish "61".toList true]

/-- The two bytes are published when the write succeeds; when it stops after one, the session is not exact. -/
theorem uploads_exact_twoBytes :
    (∃ s, sent 0 = some s ∧ s.published = [⟨pair.bytes, [pair.bytes], 2⟩] ∧ s.Exact) ∧
      ∃ s s', step (start 0) twoBytes = some s ∧
        s.append "61".toList 0 pair (.fails 1) = some (.error .io, s') ∧ ¬s'.Exact := by
  constructor
  · obtain ⟨s, hs⟩ : ∃ s, sent 0 = some s := Option.isSome_iff_exists.mp (by decide +kernel)
    refine ⟨s, hs, ?_, (uploads_exact 0).1 _ s (Run.of_exec hs)⟩
    have hpublished : (sent 0).map Sessions.published = some [⟨pair.bytes, [pair.bytes], 2⟩] := by decide +kernel
    rw [hs] at hpublished
    exact Option.some.inj hpublished
  · have happend : ((step (start 0) twoBytes).bind fun s => s.append "61".toList 0 pair (.fails 1)).map Prod.fst =
        some (.error .io) := by decide +kernel
    obtain ⟨⟨reply, s'⟩, heq, rfl⟩ := Option.map_eq_some_iff.mp happend
    obtain ⟨s, hs, heq⟩ := Option.bind_eq_some_iff.mp heq
    have hexact := (uploads_exact 0).1 [twoBytes] s (.cons trivial hs .nil)
    exact ⟨s, s', hs, heq, (uploads_exact 0).2 s s' "61".toList 0 pair 1 hexact (by decide) (by decide) heq⟩

/-- A write that stops after one of two bytes: the resume offset is 2, the upload finishes, and the file that is
published has one byte and holds nothing that was accepted. -/
theorem short_upload_published :
    ∃ s, exec step (fun _ _ => True) (start 0)
        [twoBytes, .append "61".toList 0 pair (.fails 1), .finish "61".toList true] = some s ∧
      s.published = [⟨[0x61], [], 2⟩] ∧ ¬s.Exact := by
  have hrun : (exec step (fun _ _ => True) (start 0)
      [twoBytes, .append "61".toList 0 pair (.fails 1), .finish "61".toList true]).map Sessions.published =
      some [⟨[0x61], [], 2⟩] := by decide +kernel
  obtain ⟨s, hs, hpublished⟩ := Option.map_eq_some_iff.mp hrun
  refine ⟨s, hs, hpublished, ?_⟩
  intro hexact
  have hwhole := (hexact.published ⟨[0x61], [], 2⟩ (by rw [hpublished]; exact List.mem_singleton.mpr rfl)).whole
  exact absurd hwhole (by decide)

end Sessions

end Selfhost.Storage
