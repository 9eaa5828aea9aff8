import Selfhost.Lib.Fallible
import Selfhost.Mail.Lemmas.Mime

/-!
# No message crashes the parser, unless two delimiters meet

Every range of the tree is in order and inside its parent as long as no multipart that is reached has a delimiter
line directly behind one that is open; such a line inverts the range between them, and the parser panics on it.
`parse_safe_iff` is the whole of it, with everything that slices the message along the tree.
-/

namespace Selfhost.Mail

open Selfhost.Lib

/-- The ranges of a part and of its children: in bounds, adjoining, inside the parent and one after the other. -/
inductive Part.Fits (length : Nat) : Range → Part → Prop where
  | node {outer : Range} {info : PartInfo} {children : List Part} (start : outer.start ≤ info.header.start)
      (header : info.header.start ≤ info.header.stop) (adjoin : info.header.stop = info.body.start)
      (body : info.body.start ≤ info.body.stop) (stop : info.body.stop ≤ outer.stop) (bound : outer.stop ≤ length)
      (disjoint : children.Pairwise fun a b => a.info.body.stop ≤ b.info.header.start)
      (inside : ∀ c ∈ children, Part.Fits length info.body c) : Part.Fits length outer (.node info children)

inductive Part.DepthLe : Nat → Part → Prop where
  | node {n : Nat} {info : PartInfo} {children : List Part} (inside : ∀ c ∈ children, Part.DepthLe n c) :
      Part.DepthLe (n + 1) (.node info children)

/-- A part of a tree. -/
inductive Part.Within : Part → Part → Prop where
  | self {p : Part} : Part.Within p p
  | child {p c q : Part} : c ∈ p.children → Part.Within c q → Part.Within p q

/-- The message is parsed into a tree with ranges in order and bounded depth, and nothing that reads the message
along the tree slices outside of it. -/
structure Safe (raw : Bytes) (root : Part) : Prop where
  fits : root.Fits raw.length ⟨0, raw.length⟩
  depth : root.DepthLe (raw.length + 1)
  lineCount : ∀ p, root.Within p → (p.info.lineCount raw).isSome
  sections : ∀ path target, (sectionBytes raw path target).isSome
  structured : (bodyStructure raw root).isSome

/-- The ranges that the parser goes into. -/
inductive Reached (raw : Bytes) : Range → Prop where
  | root : Reached raw ⟨0, raw.length⟩
  | child {r c : Range} {s : Bytes} : Reached raw r → slice raw r = some s → c ∈ childrenOf raw (infoOf s r) →
      Reached raw c

theorem Part.Fits.widen {length : Nat} {inner outer : Range} {p : Part} (h : p.Fits length inner)
    (hstart : outer.start ≤ inner.start) (hstop : inner.stop ≤ outer.stop) (hbound : outer.stop ≤ length) :
    p.Fits length outer := by
  cases h with
  | node start header adjoin body stop _ disjoint inside =>
      exact .node (Nat.le_trans hstart start) header adjoin body (Nat.le_trans stop hstop) hbound disjoint inside

/-! ## Parsing -/

theorem parseRange_eq_some {raw : Bytes} {fuel : Nat} {r : Range} {p : Part}
    (h : parseRange raw (fuel + 1) r = some p) :
    ∃ s children, slice raw r = some s ∧ p = .node (infoOf s r) children ∧
      Results (parseRange raw fuel) (childrenOf raw (infoOf s r)) children := by
  obtain ⟨s, hs, h⟩ := Option.bind_eq_some_iff.mp h
  obtain ⟨children, hchildren, rfl⟩ := Option.map_eq_some_iff.mp h
  exact ⟨s, children, hs, rfl, results_iff.mp hchildren⟩

theorem depthLe_of_parseRange {raw : Bytes} {fuel : Nat} {r : Range} {p : Part} (h : parseRange raw fuel r = some p) :
    p.DepthLe fuel := by
  induction fuel generalizing r p with
  | zero => cases h
  | succ fuel ih =>
      obtain ⟨s, children, -, rfl, hchildren⟩ := parseRange_eq_some h
      refine .node fun c hc => ?_
      obtain ⟨r', -, hr'⟩ := hchildren.of_result hc
      exact ih hr'

theorem range_of_parseRange {raw : Bytes} {fuel : Nat} {r : Range} {p : Part} (h : parseRange raw fuel r = some p) :
    p.info.header.start = r.start ∧ p.info.body.stop = r.stop := by
  cases fuel with
  | zero => cases h
  | succ fuel =>
      obtain ⟨s, children, -, rfl, -⟩ := parseRange_eq_some h
      exact ⟨rfl, rfl⟩

/-- The body of a part, and that the children have less room than the part. -/
theorem infoOf_body {raw s : Bytes} {r : Range} (hs : slice raw r = some s) :
    (infoOf s r).body.start ≤ (infoOf s r).body.stop ∧ (infoOf s r).body.stop ≤ raw.length ∧
      (childrenOf raw (infoOf s r) ≠ [] → (infoOf s r).body.len < r.len) := by
  obtain ⟨hstart, hstop, hlength, -⟩ := slice_eq_some hs
  have hheader := headerLength_le s
  have hbody : (infoOf s r).body = ⟨r.start + headerLength s, r.stop⟩ := rfl
  rw [hbody]
  refine ⟨?_, hstop, fun hchildren => ?_⟩
  · dsimp only
    rw [Range.len] at hlength
    omega
  · have hpos : headerLength s ≠ 0 := fun hzero => hchildren (childrenOf_of_headerless hzero)
    simp only [Range.len] at *
    omega

/-- Parts that are reached have parsed children. -/
theorem parsed_of_reached {raw : Bytes} {root : Part} (h : parse raw = some root) {r : Range}
    (hr : Reached raw r) : ∃ fuel p, parseRange raw fuel r = some p := by
  induction hr with
  | root => exact ⟨_, root, h⟩
  | child _ hs hc ih =>
      obtain ⟨fuel, p, hp⟩ := ih
      cases fuel with
      | zero => cases hp
      | succ fuel =>
          obtain ⟨s, children, hs', -, hchildren⟩ := parseRange_eq_some hp
          rw [hs] at hs'
          cases hs'
          obtain ⟨q, -, hq⟩ := hchildren.of_mem hc
          exact ⟨fuel, q, hq⟩

theorem smooth_of_parse {raw s : Bytes} {root : Part} {r : Range} (h : parse raw = some root)
    (hr : Reached raw r) (hs : slice raw r = some s) : Smooth raw (infoOf s r) := by
  obtain ⟨hbody, hstop, -⟩ := infoOf_body hs
  refine smooth_of_childrenOf hbody hstop fun c hc => ?_
  obtain ⟨fuel, q, hq⟩ := parsed_of_reached h (.child hr hs hc)
  cases fuel with
  | zero => cases hq
  | succ fuel =>
      obtain ⟨s', children, hs', -, -⟩ := parseRange_eq_some hq
      exact (slice_eq_some hs').1

/-- A part of a message without adjacent delimiters is parsed, with enough fuel, and its ranges fit. -/
theorem parseRange_fits {raw : Bytes}
    (h : ∀ r s, Reached raw r → slice raw r = some s → Smooth raw (infoOf s r)) {fuel : Nat} {r : Range}
    (hr : Reached raw r) (hstart : r.start ≤ r.stop) (hstop : r.stop ≤ raw.length) (hfuel : r.len < fuel) :
    ∃ p, parseRange raw fuel r = some p ∧ p.Fits raw.length r := by
  induction fuel generalizing r with
  | zero => exact absurd hfuel (Nat.not_lt_zero _)
  | succ fuel ih =>
      have hs := slice_of_le hstart hstop
      obtain ⟨hbody, hbodyStop, hless⟩ := infoOf_body hs
      generalize (raw.drop r.start).take r.len = s at hs hbody hbodyStop hless
      have hordered := childrenOf_ordered hbody hbodyStop (h r s hr hs)
      have hchild : ∀ c ∈ childrenOf raw (infoOf s r),
          ∃ q, parseRange raw fuel c = some q ∧ q.Fits raw.length c := by
        intro c hc
        obtain ⟨hlo, hle, hhi⟩ := hordered.inside c hc
        have hlen := hless (List.ne_nil_of_mem hc)
        refine ih (.child hr hs hc) hle (Nat.le_trans hhi hbodyStop) ?_
        simp only [Range.len] at *
        omega
      obtain ⟨children, hchildren⟩ := exists_results fun c hc => (hchild c hc).imp fun _ hq => hq.1
      refine ⟨.node (infoOf s r) children, ?_, ?_⟩
      · rw [parseRange, hs, Option.bind_some, results_iff.mpr hchildren]
        rfl
      · refine .node (Nat.le_refl _) (Nat.le_add_right _ _) rfl hbody (Nat.le_refl _) hstop ?_ fun q hq => ?_
        · refine hchildren.pairwise (fun c c' q q' hq hq' hdisjoint => ?_) hordered.disjoint
          rw [(range_of_parseRange hq).2, (range_of_parseRange hq').1]
          exact hdisjoint
        · obtain ⟨c, hc, hcq⟩ := hchildren.of_result hq
          obtain ⟨q', hq', hfits⟩ := hchild c hc
          rw [hcq] at hq'
          cases hq'
          obtain ⟨hlo, -, hhi⟩ := hordered.inside c hc
          exact hfits.widen hlo hhi hbodyStop

/-! ## What reads the message along the tree -/

theorem slice_isSome {raw : Bytes} {r : Range} (h : r.start ≤ r.stop) (hr : r.stop ≤ raw.length) :
    (slice raw r).isSome := by
  rw [slice_of_le h hr]
  rfl

theorem Part.Fits.body {raw : Bytes} {outer : Range} {p : Part} (h : p.Fits raw.length outer) :
    (slice raw p.info.body).isSome := by
  cases h with
  | node _ _ _ body stop bound _ _ => exact slice_isSome body (Nat.le_trans stop bound)

theorem Part.Fits.header {raw : Bytes} {outer : Range} {p : Part} (h : p.Fits raw.length outer) :
    (slice raw p.info.header).isSome := by
  cases h with
  | node _ header adjoin body stop bound _ _ =>
      exact slice_isSome header (Nat.le_trans (Nat.le_of_eq adjoin) (Nat.le_trans body (Nat.le_trans stop bound)))

theorem Part.Fits.whole {raw : Bytes} {outer : Range} {p : Part} (h : p.Fits raw.length outer) :
    (slice raw ⟨p.info.header.start, p.info.body.stop⟩).isSome := by
  cases h with
  | node _ header adjoin body stop bound _ _ =>
      exact slice_isSome (Nat.le_trans (adjoin ▸ header) body) (Nat.le_trans stop bound)

theorem Part.Fits.child {length : Nat} {outer : Range} {p c : Part} (h : p.Fits length outer)
    (hc : c ∈ p.children) : c.Fits length p.info.body := by
  cases h with
  | node _ _ _ _ _ _ _ inside => exact inside c hc

theorem Part.Fits.within {length : Nat} {outer : Range} {p q : Part} (h : p.Fits length outer) (hq : p.Within q) :
    ∃ outer', q.Fits length outer' := by
  induction hq generalizing outer with
  | self => exact ⟨outer, h⟩
  | child hc _ ih => exact ih (h.child hc)

theorem Part.Fits.lineCount {raw : Bytes} {outer : Range} {p : Part} (h : p.Fits raw.length outer) :
    (p.info.lineCount raw).isSome := by
  rw [PartInfo.lineCount, Option.isSome_map]
  exact h.body

theorem within_numbered {p q : Part} {index : Nat} (h : numbered p.children index = some q) : q ∈ p.children := by
  unfold numbered at h
  split at h
  · cases h
  · exact List.mem_of_getElem? h

theorem within_descend {first : Bool} {p q : Part} {path : List Nat} (h : descend first p path = some q) :
    p.Within q := by
  induction path generalizing first p with
  | nil =>
      cases h
      exact .self
  | cons index path ih =>
      obtain ⟨next, hnext, hq⟩ := Option.bind_eq_some_iff.mp h
      have hwithin := ih hq
      split at hnext
      · exact .child (within_numbered hnext) hwithin
      · split at hnext
        · rename_i inner rest hmessage hchildren
          have hinner : inner ∈ p.children := hchildren ▸ List.mem_cons_self
          split at hnext
          · exact .child hinner (.child (within_numbered hnext) hwithin)
          · split at hnext
            · cases hnext
              exact .child hinner hwithin
            · cases hnext
        · split at hnext
          · cases hnext
            exact hwithin
          · cases hnext

theorem sectionOf_slice {raw : Bytes} {outer : Range} {root : Part} {path : List Nat} {target : Target} {r : Range}
    (h : root.Fits raw.length outer) (hr : sectionOf root path target = some r) : (slice raw r).isSome := by
  obtain ⟨part, hpart, hr⟩ := Option.bind_eq_some_iff.mp hr
  obtain ⟨outer', hfits⟩ := h.within (within_descend hpart)
  have hinner : ∀ inner, (if part.info.isMessage then part.children.head? else none) = some inner →
      inner.Fits raw.length part.info.body := by
    intro inner hhead
    split at hhead
    · exact hfits.child (List.mem_of_mem_head? hhead)
    · cases hhead
  cases target with
  | content =>
      cases hr
      exact hfits.body
  | mime =>
      cases hr
      exact hfits.header
  | header =>
      obtain ⟨inner, hhead, rfl⟩ := Option.map_eq_some_iff.mp hr
      exact (hinner inner hhead).header
  | text =>
      obtain ⟨inner, hhead, rfl⟩ := Option.map_eq_some_iff.mp hr
      exact (hinner inner hhead).body

theorem bodyStructures_isSome {raw : Bytes} {parts : List Part} (h : ∀ p ∈ parts, (bodyStructure raw p).isSome) :
    (bodyStructures raw parts).isSome := by
  induction parts with
  | nil => rfl
  | cons p parts ih =>
      obtain ⟨first, hfirst⟩ := Option.isSome_iff_exists.mp (h p List.mem_cons_self)
      obtain ⟨rest, hrest⟩ := Option.isSome_iff_exists.mp (ih fun q hq => h q (List.mem_cons_of_mem _ hq))
      rw [bodyStructures, hfirst, Option.bind_some, hrest]
      rfl

theorem bodyStructure_isSome {raw : Bytes} {outer : Range} {p : Part} (h : p.Fits raw.length outer) :
    (bodyStructure raw p).isSome := by
  induction h with
  | @node outer info children start header adjoin body stop bound disjoint inside ih =>
      have hfits : (Part.node info children).Fits raw.length outer :=
        .node start header adjoin body stop bound disjoint inside
      obtain ⟨lines, hlines⟩ := Option.isSome_iff_exists.mp (show (info.lineCount raw).isSome from hfits.lineCount)
      unfold bodyStructure
      split
      · rw [Option.isSome_map]
        exact bodyStructures_isSome ih
      · split
        · rename_i inner rest _
          obtain ⟨innerRaw, hinner⟩ := Option.isSome_iff_exists.mp (inside inner List.mem_cons_self).whole
          obtain ⟨structured, hstructured⟩ := Option.isSome_iff_exists.mp (ih inner List.mem_cons_self)
          rw [hinner, Option.bind_some, hstructured, Option.bind_some, hlines]
          rfl
        · split
          · rw [hlines]
            rfl
          · rfl

/-! ## The whole message -/

/-- The parser returns a tree that is safe to use exactly when no multipart that it reaches has a delimiter line
directly behind one that is open. -/
theorem parse_safe_iff (raw : Bytes) :
    (∃ root, parse raw = some root ∧ Safe raw root) ↔
      ∀ r s, Reached raw r → slice raw r = some s → Smooth raw (infoOf s r) := by
  constructor
  · rintro ⟨root, hroot, -⟩ r s hr hs
    exact smooth_of_parse hroot hr hs
  · intro h
    have hlen : (Range.mk 0 raw.length).len < raw.length + 1 := Nat.lt_succ_self _
    obtain ⟨root, hroot, hfits⟩ := parseRange_fits h .root (Nat.zero_le _) (Nat.le_refl _) hlen
    refine ⟨root, hroot, hfits, depthLe_of_parseRange hroot, fun p hp => ?_, fun path target => ?_,
      bodyStructure_isSome hfits⟩
    · obtain ⟨outer, hp⟩ := hfits.within hp
      exact hp.lineCount
    · rw [sectionBytes, show parse raw = some root from hroot, Option.bind_some]
      split
      · rename_i r hr
        exact sectionOf_slice hfits hr
      · rfl

/-- A multipart whose first delimiter is followed by the closing one. -/
def emptyMultipart : Bytes := utf8 "Content-Type: multipart/mixed; boundary=X\r\n\r\n--X\r\n--X--\r\n".toList

/-- The parser panics on it. -/
theorem parse_panics : parse emptyMultipart = none := by
  have hnone : (parse emptyMultipart).isNone = true := by decide +kernel
  exact Option.isNone_iff_eq_none.mp hnone

end Selfhost.Mail
