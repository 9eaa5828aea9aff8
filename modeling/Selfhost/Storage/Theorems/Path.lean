import Selfhost.Storage.Lemmas.Requests
import Selfhost.Storage.Lemmas.Resolve

/-!
# Paths stay inside their share

Confinement of `resolve` and of every path built from it, and the round trip of the links of a listing.
-/

namespace Selfhost.Storage

open Selfhost.Lib

/-! ## Confinement -/

/-- The relative paths the program can build: resolved from a request, or reached from one by `join` and
`parent`. -/
inductive Built : RelativePath → Prop where
  | resolve {root : Bytes} {request : Str} {res : Resolved} :
      resolve root request = .ok res → Built res.relative
  | join {p q : RelativePath} {segment : Str} : Built p → p.join segment = .ok q → Built q
  | parent {p : RelativePath} : Built p → Built p.parent

theorem relative_eq_of_decoded {root root' : Bytes} {request request' : Str} {res res' : Resolved}
    (h : resolve root request = .ok res) (h' : resolve root' request' = .ok res')
    (hd : percentDecode request' = percentDecode request) : res'.relative = res.relative := by
  obtain ⟨-, decoded, segments, hdec, -, hs, -, rfl⟩ := resolve_ok_iff.mp h
  obtain ⟨-, decoded', segments', hdec', -, hs', -, rfl⟩ := resolve_ok_iff.mp h'
  rw [hdec, hdec'] at hd
  cases hd
  rw [hs] at hs'
  cases hs'
  rfl

/-- A resolved path is the root followed by plain names of the request decoded once, and every path built
from resolved ones has plain names only. -/
theorem resolve_confined {root : Bytes} {request : Str} {res : Resolved}
    (h : resolve root request = .ok res) :
    (∀ s ∈ res.relative.names, validateSegment s = .ok () ∧ PlainName s) ∧
    res.full = underRoot root res.relative.names ∧
    res.full.length ≤ maxPathBytes ∧
    (∃ decoded, percentDecode request = .ok decoded ∧
      res.relative.names = ((normalise decoded).splitOn '/').filter isKept) ∧
    (∀ root' request' res', resolve root' request' = .ok res' →
      percentDecode request' = percentDecode request → res'.relative = res.relative) ∧
    (∀ p, Built p → ∀ s ∈ p.names, validateSegment s = .ok () ∧ PlainName s) := by
  have hplain : ∀ p : RelativePath, ∀ s ∈ p.names, validateSegment s = .ok () ∧ PlainName s :=
    fun p s hs => ⟨(p.plain s hs).validateSegment, p.plain s hs⟩
  refine ⟨hplain _, ?_, ?_, ?_, ?_, fun p _ => hplain p⟩
  · obtain ⟨-, decoded, segments, -, -, -, -, rfl⟩ := resolve_ok_iff.mp h
    exact foldl_pushPath (RelativePath.plain ⟨segments⟩) root
  · obtain ⟨-, decoded, segments, -, -, -, hfull, rfl⟩ := resolve_ok_iff.mp h
    exact hfull
  · obtain ⟨-, decoded, segments, hd, -, hs, -, rfl⟩ := resolve_ok_iff.mp h
    exact ⟨decoded, hd, collectSegments_names hs⟩
  · intro root' request' res' h' hd
    exact relative_eq_of_decoded h h' hd

/-- What two requests resolve to. -/
theorem resolved_requests :
    (resolve (utf8 "/srv/vault".toList) "/photos/./a%20b.txt".toList).map
        (fun res => (res.relative.names, res.full)) =
      .ok (["photos".toList, "a b.txt".toList], utf8 "/srv/vault/photos/a b.txt".toList) ∧
      (resolve (utf8 "/srv".toList) "/a%20b/c.txt".toList).map (fun res => linkLength res.relative) = .ok 12 :=
  ⟨by decide +kernel, by decide +kernel⟩

/-- The request `/photos/./a%20b.txt` against `/srv/vault`, and the directory it lies in. -/
theorem resolve_confined_photo :
    ∃ res, resolve (utf8 "/srv/vault".toList) "/photos/./a%20b.txt".toList = .ok res ∧
      res.relative.names = ["photos".toList, "a b.txt".toList] ∧
      (∀ s ∈ res.relative.names, PlainName s) ∧
      res.full = utf8 "/srv/vault/photos/a b.txt".toList ∧
      Built res.relative.parent ∧ ∀ s ∈ res.relative.parent.names, PlainName s := by
  have hok := resolved_requests.1
  cases hr : resolve (utf8 "/srv/vault".toList) "/photos/./a%20b.txt".toList with
  | error refusal =>
      rw [hr] at hok
      cases hok
  | ok res =>
      rw [hr] at hok
      simp only [Except.map, Except.ok.injEq, Prod.mk.injEq] at hok
      have hb : Built res.relative.parent := .parent (.resolve hr)
      obtain ⟨hplain, -, -, -, -, hbuilt⟩ := resolve_confined hr
      exact ⟨res, rfl, hok.1, fun s hs => (hplain s hs).2, hok.2, hb, fun s hs => (hbuilt _ hb s hs).2⟩

example : (percentDecode ['%', '2', 'e']).toOption = some ['.'] := by decide +kernel

/-! ## Links -/

/-- The link to a path that was resolved leads back to it exactly when the link is not longer than a
request may be. -/
theorem resolve_link_iff {root : Bytes} {request : Str} {res : Resolved}
    (h : resolve root request = .ok res) :
    (∃ res', resolve root ('/' :: res.relative.toUrlPath) = .ok res' ∧ res'.relative = res.relative) ↔
      linkLength res.relative ≤ maxPathBytes := by
  constructor
  · rintro ⟨res', h', -⟩
    obtain ⟨hraw, -⟩ := resolve_ok_iff.mp h'
    rwa [length_link] at hraw
  · intro hlen
    obtain ⟨-, decoded, segments, -, -, -, hfull, rfl⟩ := resolve_ok_iff.mp h
    exact resolve_link hlen hfull

theorem resolve_link_iff_spaced :
    ∃ res, resolve (utf8 "/srv".toList) "/a%20b/c.txt".toList = .ok res ∧
      linkLength res.relative ≤ maxPathBytes ∧
      ∃ res', resolve (utf8 "/srv".toList) ('/' :: res.relative.toUrlPath) = .ok res' ∧
        res'.relative = res.relative := by
  have hok := resolved_requests.2
  cases hr : resolve (utf8 "/srv".toList) "/a%20b/c.txt".toList with
  | error refusal =>
      rw [hr] at hok
      cases hok
  | ok res =>
      rw [hr] at hok
      simp only [Except.map, Except.ok.injEq] at hok
      have hlen : linkLength res.relative ≤ maxPathBytes := by
        rw [hok]
        decide
      exact ⟨res, rfl, hlen, (resolve_link_iff hr).mpr hlen⟩

/-- Seven directories whose names are two hundred exclamation marks each. -/
def exclaimed : Str := ['/'].intercalate (List.replicate 7 (List.replicate 200 '!'))

theorem validateSegment_exclaimed : validateSegment (List.replicate 200 '!') = .ok () := by decide +kernel

theorem resolve_exclaimed :
    ∃ res, resolve (utf8 "/srv".toList) exclaimed = .ok res ∧
      res.relative = ⟨List.replicate 7 ⟨List.replicate 200 '!', validateSegment_exclaimed⟩⟩ ∧
      maxPathBytes < linkLength res.relative := by
  have hlen : (utf8 exclaimed).length ≤ maxPathBytes := by decide +kernel
  have hdecoded : percentDecode exclaimed = .ok exclaimed := by decide +kernel
  have hslashes : '\\' ∉ exclaimed := by decide +kernel
  have hsplit : exclaimed.splitOn '/' = List.replicate 7 (List.replicate 200 '!') := by decide +kernel
  refine ⟨_, resolve_ok_iff.mpr ⟨hlen, _, _, hdecoded, by decide +kernel, ?_, ?_, rfl⟩, rfl, by decide +kernel⟩
  · rw [normalise_of_no_backslash hslashes, hsplit]
    exact collectSegments_segments (List.replicate 7 ⟨List.replicate 200 '!', validateSegment_exclaimed⟩)
  · rw [List.map_replicate]
    decide +kernel

/-- A path of 1406 bytes is accepted and its link of 4207 bytes is refused. -/
theorem exclaimed_link_refused :
    ∃ res, resolve (utf8 "/srv".toList) exclaimed = .ok res ∧
      resolve (utf8 "/srv".toList) ('/' :: res.relative.toUrlPath) = .error .pathTooLong ∧
      ¬ ∃ res', resolve (utf8 "/srv".toList) ('/' :: res.relative.toUrlPath) = .ok res' ∧
        res'.relative = res.relative := by
  obtain ⟨res, hr, -, hlength⟩ := resolve_exclaimed
  have hlong : maxPathBytes < (utf8 ('/' :: res.relative.toUrlPath)).length := by rwa [length_link]
  have hrefused : resolve (utf8 "/srv".toList) ('/' :: res.relative.toUrlPath) = .error .pathTooLong :=
    if_pos hlong
  refine ⟨res, hr, hrefused, ?_⟩
  rintro ⟨res', h', -⟩
  rw [hrefused] at h'
  cases h'

end Selfhost.Storage

/-! # The ways into a share -/

namespace Selfhost.Storage

open Selfhost.Lib

variable {platform : Platform} {limits : Str → Limits} {disk : Disk} {now : Int} {sequence : Nat}
  {ops : List ShareOp} {op : ShareOp} {w w' : World}

theorem accounted_run
    (hrun : Run (World.step platform limits) (World.respects limits) ⟨disk, Counts.new, now, sequence⟩ ops w) :
    Accounted w :=
  hrun.invariant (fun _ _ _ h hok ht => (h.step hok ht).1) ⟨List.nodup_nil, fun _ _ he => by cases he⟩

/-- In every run whose steps go to shares that can be measured and whose moves between shares fit, no
operation takes a share over its quota. -/
theorem quota_of_every_way
    (hrun : Run (World.step platform limits) (World.respects limits) ⟨disk, Counts.new, now, sequence⟩ ops w)
    (hok : w.respects limits op) (hstep : w.step platform limits op = some w') (share : Str) (q : UInt64)
    (hq : (limits share).quotaBytes = some q) (hle : w.held share ≤ q.toNat) : w'.held share ≤ q.toNat :=
  ((accounted_run hrun).step hok hstep).2 share q hq hle

def someBytes (n : Nat) (h : n < 2 ^ 64) : FileData := ⟨List.replicate n 0, by rw [List.length_replicate]; exact h⟩

/-- Every share has a quota of ten bytes. -/
def tenBytes : Str → Limits := fun _ => ⟨some 10, defaultMaxConcurrent, defaultMaxInFlightBytes, 0⟩

/-- Share `s` holds a file of eight bytes, share `t` one of nine. -/
def twoShares : World where
  disk := .dir "s".toList (.file "old".toList (someBytes 8 (by decide)) .nil)
    (.dir "t".toList (.file "big".toList (someBytes 9 (by decide)) .nil) .nil)
  counts := Counts.new
  now := 0
  sequence := 0

def anyone : Str → Want → GrantOutcome := fun _ _ => .allowed

def pathBig : RelativePath := ⟨[⟨"big".toList, by decide⟩]⟩

def pathOne : RelativePath := ⟨[⟨"one".toList, by decide⟩]⟩

def pathTwo : RelativePath := ⟨[⟨"two".toList, by decide⟩]⟩

/-- A byte is uploaded, and then copied beside itself: the share is full, and not over. -/
def oneByte : Body := ⟨someBytes 1 (by decide), [1], by decide⟩

def uploadOne : ShareOp := .request anyone (.upload "s".toList pathOne .refuse 1 oneByte)

def copyOne : ShareOp := .request anyone (.copyTo "s".toList pathOne "s".toList pathTwo false)

theorem quota_of_every_way_full :
    ∃ w w', twoShares.step oneDisk tenBytes uploadOne = some w ∧ w.step oneDisk tenBytes copyOne = some w' ∧
      w.held "s".toList = 9 ∧ w'.held "s".toList = 10 ∧ w'.held "s".toList ≤ (10 : UInt64).toNat := by
  refine ⟨_, _, rfl, rfl, by decide +kernel, by decide +kernel, ?_⟩
  have hrun : Run (World.step oneDisk tenBytes) (World.respects tenBytes) twoShares [uploadOne] _ :=
    .cons (show hidden maxTreeDepth (contents twoShares.disk "s".toList) = 0 by decide +kernel) rfl .nil
  exact @quota_of_every_way oneDisk tenBytes _ _ _ _ copyOne _ _ hrun
    (show hidden maxTreeDepth (contents (World.serve oneDisk tenBytes twoShares anyone
      (.upload "s".toList pathOne .refuse 1 oneByte)).disk "s".toList) = 0 by decide +kernel)
    rfl "s".toList 10 rfl (by decide +kernel)

/-- A file of nine bytes is moved into a share of ten that holds eight. -/
theorem move_between_shares_exceeds_quota :
    ∃ w', twoShares.step oneDisk tenBytes
        (.request anyone (.moveTo "t".toList pathBig "s".toList pathBig false)) = some w' ∧
      ((openVolume tenBytes anyone "t".toList).moveTo oneDisk twoShares pathBig
        (openVolume tenBytes anyone "s".toList) pathBig false).1 = .ok .created ∧
      twoShares.held "s".toList ≤ (10 : UInt64).toNat ∧ w'.held "s".toList = 17 ∧
      ¬ w'.held "s".toList ≤ (10 : UInt64).toNat ∧
      ((openVolume tenBytes anyone "t".toList).copyTo oneDisk twoShares pathBig
        (openVolume tenBytes anyone "s".toList) pathBig false).1 = .error (.outOfRoom (.overQuota 10 8 9)) :=
  ⟨_, rfl, by decide +kernel, by decide +kernel, by decide +kernel, by decide +kernel, by decide +kernel⟩

end Selfhost.Storage
