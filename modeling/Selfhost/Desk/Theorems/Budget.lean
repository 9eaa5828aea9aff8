import Selfhost.Lib.Run
import Selfhost.Desk.Lemmas.Strokes
import Selfhost.Desk.Lemmas.Drawing

/-!
# The window of a client

What a client granted against what was charged to it.
-/

namespace Selfhost.Desk

open Selfhost.Lib

/-- The largest message of the codec. -/
def maxMessage : Nat := 2 ^ 20 - 8

/-- The bytes of tiles and cursors among these messages. -/
def charge (messages : List Message) : Nat := (messages.map Message.encodedLen).sum

theorem charge_append {front back : List Message} : charge (front ++ back) = charge front + charge back := by
  rw [charge, List.map_append, List.sum_append]
  rfl

namespace Viewer

variable {ceilings : Ceilings} {world : World} {viewer viewer' viewer'' : Viewer} {event : Event}

/-- What remains of the client's window. -/
def window (viewer : Viewer) : Option Nat := viewer.peerWindow.map UInt32.toNat

/-- These messages were written and charged. Nothing is charged to an empty window, and a window is overdrawn by less
than a message. -/
structure Charged (viewer : Viewer) (messages : List Message) (viewer' : Viewer) : Prop where
  sent : viewer'.sent = viewer.sent ++ messages
  window : viewer'.window = viewer.window.map (· - charge messages)
  gated : ∀ left ∈ viewer.window, (left = 0 → charge messages = 0) ∧ charge messages ≤ left + maxMessage

def Spends (viewer viewer' : Viewer) : Prop := ∃ messages, Charged viewer messages viewer'

theorem Charged.free {messages : List Message} (hsent : viewer'.sent = viewer.sent ++ messages)
    (hwindow : viewer'.peerWindow = viewer.peerWindow) (hfree : charge messages = 0) :
    Charged viewer messages viewer' := by
  refine ⟨hsent, ?_, fun left _ => ⟨fun _ => hfree, by omega⟩⟩
  rw [Viewer.window, hwindow, hfree, Viewer.window]
  cases viewer.peerWindow <;> rfl

theorem Spends.same (hsent : viewer'.sent = viewer.sent) (hwindow : viewer'.peerWindow = viewer.peerWindow) :
    Spends viewer viewer' :=
  ⟨[], .free (hsent.trans (List.append_nil _).symm) hwindow rfl⟩

theorem Spends.refl (viewer : Viewer) : Spends viewer viewer := .same rfl rfl

theorem Spends.trans (h : Spends viewer viewer') (h' : Spends viewer' viewer'') : Spends viewer viewer'' := by
  obtain ⟨front, hfront⟩ := h
  obtain ⟨back, hback⟩ := h'
  refine ⟨front ++ back, ?_, ?_, ?_⟩
  · rw [hback.sent, hfront.sent, List.append_assoc]
  · rw [hback.window, hfront.window, Option.map_map, charge_append]
    refine congrArg (Option.map · viewer.window) (funext fun left => ?_)
    exact Nat.sub_sub ..
  · intro left hleft
    have hbefore := hfront.gated left hleft
    have hafter := hback.gated (left - charge front) (by rw [hfront.window, hleft]; rfl)
    rw [charge_append]
    omega

theorem Spends.andThen {next : Viewer → Viewer} (h : Spends viewer viewer') (hnext : Spends viewer' (next viewer')) :
    Spends viewer (viewer'.andThen next) := by
  unfold Viewer.andThen
  split
  · exact h
  · exact h.trans hnext

theorem Spends.plain (h : Plain viewer viewer') : Spends viewer viewer' := by
  obtain ⟨messages, hsent, hfree⟩ := h.sent
  exact ⟨messages, .free hsent h.peerWindow (List.sum_eq_zero_iff_forall_eq_nat.mpr (List.forall_mem_map.mpr hfree))⟩

theorem window_spend (spent : Nat) : (viewer.spend spent).window = viewer.window.map (· - spent) := by
  unfold spend window
  cases hwindow : viewer.peerWindow with
  | none =>
      dsimp only
      rw [hwindow]
      rfl
  | some left =>
      dsimp only
      have hless : min spent (2 ^ 32 - 1) < 2 ^ 32 := by omega
      have hleft := left.toNat_lt
      simp only [Option.map_some, toNat_saturatingSub32, UInt32.toNat_ofNat_of_lt' hless, Option.some.injEq]
      omega

/-- A message is written and charged, or the stream ends. -/
theorem charged_write (message : Message) (hending : viewer.ending = none) :
    ∃ written, charge written ≤ message.encodedLen ∧
      ((viewer.write world message).andThen (spend message.encodedLen)).sent = viewer.sent ++ written ∧
      ((viewer.write world message).andThen (spend message.encodedLen)).window =
        viewer.window.map (· - charge written) := by
  unfold Viewer.write
  split
  · refine ⟨[message], Nat.le_refl _, ?_, ?_⟩
    · rw [andThen_of_none (by exact hending), spend_sent]
    · rw [andThen_of_none (by exact hending), window_spend]
      rfl
  · refine ⟨[], Nat.zero_le _, (List.append_nil _).symm, ?_⟩
    rw [andThen_of_some rfl]
    change viewer.window = _
    cases viewer.window <;> rfl

/-- Messages that are written one after the other are charged as far as they went. -/
theorem writeAll_charges (messages : List Message) : ∃ written, charge written ≤ charge messages ∧
    (viewer.writeAll world messages).sent = viewer.sent ++ written ∧
      (viewer.writeAll world messages).window = viewer.window.map (· - charge written) := by
  unfold writeAll
  induction messages generalizing viewer with
  | nil =>
      refine ⟨[], Nat.le_refl _, (List.append_nil _).symm, ?_⟩
      rw [List.foldl_nil]
      cases viewer.window <;> rfl
  | cons message rest ih =>
      rw [List.foldl_cons]
      cases hending : viewer.ending with
      | some ending =>
          rw [andThen_of_some (by rw [hending]; rfl)]
          obtain ⟨written, hless, hwritten⟩ := @ih viewer
          exact ⟨written, Nat.le_trans hless (Nat.le_add_left _ _), hwritten⟩
      | none =>
          rw [andThen_of_none hending]
          obtain ⟨front, hless, hsent, hwindow⟩ := @charged_write world viewer message hending
          obtain ⟨back, hless', hsent', hwindow'⟩ := @ih
            ((viewer.write world message).andThen (spend message.encodedLen))
          refine ⟨front ++ back, ?_, by rw [hsent', hsent, List.append_assoc], ?_⟩
          · rw [charge_append]
            exact Nat.add_le_add hless hless'
          · rw [hwindow', hwindow, Option.map_map, charge_append]
            exact congrArg (Option.map · viewer.window) (funext fun left => Nat.sub_sub ..)

/-- What is charged to a window that is open. -/
theorem Charged.open {written : List Message} (hwindow : viewer.peerWindow ≠ some 0)
    (hsmall : charge written ≤ maxMessage) (hsent : viewer'.sent = viewer.sent ++ written)
    (hcharged : viewer'.window = viewer.window.map (· - charge written)) : Charged viewer written viewer' := by
  refine ⟨hsent, hcharged, ?_⟩
  intro left hleft
  obtain ⟨bytes, hbytes, rfl⟩ := Option.map_eq_some_iff.mp hleft
  have hopen : bytes.toNat ≠ 0 := by
    intro hzero
    rw [hbytes, UInt32.toNat_inj.mp (hzero.trans UInt32.toNat_zero.symm)] at hwindow
    exact hwindow rfl
  omega

theorem Spends.writeAll {messages : List Message} (hwindow : viewer.peerWindow ≠ some 0)
    (hsmall : charge messages ≤ maxMessage) : Spends viewer (viewer.writeAll world messages) := by
  obtain ⟨written, hless, hsent, hcharged⟩ := @writeAll_charges world viewer messages
  exact ⟨written, .open hwindow (Nat.le_trans hless hsmall) hsent hcharged⟩

/-! ## Drawing -/

theorem Spends.stroke (h : Stroke world viewer viewer') : Spends viewer viewer' := by
  cases h with
  | note => exact .same rfl rfl
  | frameBegin | frameEnd => exact .plain (.write rfl)
  | @tile monitor update hsmall hending hwindow =>
      have hpayload : update.payload.length ≤ 65536 := hsmall
      have hcharge : (Message.tile monitor update).encodedLen ≤ maxMessage := by
        rw [Message.encodedLen, maxMessage]
        omega
      obtain ⟨written, hless, hsent, hcharged⟩ := @charged_write world viewer (.tile monitor update) hending
      exact ⟨written, .open hwindow (Nat.le_trans hless hcharge) hsent hcharged⟩

theorem Spends.draws (h : Draws world viewer viewer') : Spends viewer viewer' := by
  induction h with
  | refl => exact .refl viewer
  | tail _ hstroke ih => exact ih.trans (.stroke hstroke)

/-- The bitmap and the position together are smaller than the largest message. -/
theorem charge_pointer {reading : PointerReading} {id : Option ShapeId} {shapes : List Message}
    {position : Option Pointer} (h : shapeMessages reading id = some shapes) :
    charge (shapes ++ position.toList.map fun p => Message.cursorPos p.x p.y p.visible) ≤ maxMessage := by
  have hposition : charge (position.toList.map fun p => Message.cursorPos p.x p.y p.visible) ≤ 10 := by
    cases position with
    | none => exact Nat.zero_le _
    | some pointer => exact Nat.le_refl _
  have hshape : ∀ {id shape message}, cursorMessage id shape = some message → message.encodedLen ≤ 21 + 65536 := by
    intro id shape message hmessage
    unfold cursorMessage at hmessage
    split at hmessage
    · cases hmessage
    · split at hmessage
      · cases hmessage
      · rename_i hedge
        split at hmessage
        · cases hmessage
        · rename_i hlength
          cases hmessage
          have hwidth : shape.width.toNat ≤ 128 := by
            rw [not_or] at hedge
            exact Nat.le_of_not_lt hedge.1
          have hheight : shape.height.toNat ≤ 128 := by
            rw [not_or] at hedge
            exact Nat.le_of_not_lt hedge.2
          have harea := Nat.mul_le_mul hwidth hheight
          rw [Decidable.not_not] at hlength
          rw [Message.encodedLen, hlength]
          omega
  have hshapes : charge shapes ≤ 21 + 65536 := by
    unfold shapeMessages at h
    split at h
    · cases h
      exact Nat.zero_le _
    · split at h
      · cases h
      · rename_i id _ shape _
        cases h
        cases hmessage : shape.bind (cursorMessage id) with
        | none => exact Nat.zero_le _
        | some message =>
            obtain ⟨bitmap, -, hmessage⟩ := Option.bind_eq_some_iff.mp hmessage
            exact Nat.le_trans (Nat.le_of_eq (Nat.add_zero _)) (hshape hmessage)
  rw [charge_append, maxMessage]
  omega

theorem Spends.sendPointer (reading : PointerReading) : Spends viewer (viewer.sendPointer world reading) := by
  unfold Viewer.sendPointer
  split
  · exact .same rfl rfl
  · exact .refl viewer
  · rename_i pointer _
    generalize viewer.cursor.observe pointer = result
    obtain ⟨emission, cursor⟩ := result
    dsimp only
    split
    · exact .same rfl rfl
    · split
      · exact .same rfl rfl
      · rename_i shapes hshapes
        split
        · exact .same rfl rfl
        · rename_i hcredit
          have hobserved : Spends viewer { viewer with cursor := cursor }.read := .same rfl rfl
          have hopen : viewer.peerWindow ≠ some 0 := peerWindow_ne_zero hcredit
          exact hobserved.trans (.writeAll hopen (charge_pointer hshapes))

theorem Spends.turn (source : Source) (now : Instant) (observation : Observation) (captured : Option CapturedFrame) :
    Spends viewer (viewer.turn ceilings world source now observation captured) := by
  unfold Viewer.turn
  generalize viewer.machine.observe observation now = result
  obtain ⟨machine, step⟩ := result
  dsimp only
  have hobserved : Spends viewer { viewer with machine := machine } := .same rfl rfl
  refine ((hobserved.trans ?_).andThen ?_).andThen ?_
  · exact .plain (.announce step.notice)
  · unfold Viewer.present
    split
    · cases captured with
      | none => exact .draws draws_flushOwed
      | some frame => exact (Spends.draws (draws_sendFrame frame)).andThen (.sendPointer source.pointer)
    · exact .refl _
  · exact .plain (.act step.action)

theorem Spends.pump (source : Source) (now : Instant) : Spends viewer (viewer.pump ceilings world source now) := by
  unfold Viewer.pump
  split
  · dsimp only
    have hpending : Spends viewer { viewer with pendingRestore := none } := .same rfl rfl
    split
    · exact .same rfl rfl
    · exact hpending.trans (.turn ..)
    · have hforgot : Spends viewer { ({ viewer with pendingRestore := none } : Viewer).forgetClientState with
          cursor := viewer.cursor.forget } := .same rfl rfl
      exact hforgot.trans (.turn ..)
  · split <;> exact .turn ..

theorem Spends.react (h : event.grant = none) : Spends viewer (viewer.react ceilings world event) := by
  cases event with
  | pump source now => exact .pump source now
  | ends ending => exact .same rfl rfl
  | revalidate standing now => exact .plain plain_revalidate
  | receive message standing now => exact .plain (plain_receive h)

end Viewer

/-! ## The ledger -/

/-- A viewer beside what its client granted in all, and what was charged since the first grant. -/
structure Ledger where
  viewer : Viewer
  granted : Nat
  spent : Nat
  deriving DecidableEq

namespace Ledger

def step (ceilings : Ceilings) (world : World) (ledger : Ledger) (event : Viewer.Event) : Option Ledger :=
  (ledger.viewer.step ceilings world event).map fun viewer =>
    ⟨viewer, ledger.granted + (event.grant.map UInt32.toNat).getD 0,
      ledger.spent +
        if ledger.viewer.peerWindow.isSome then charge (viewer.sent.drop ledger.viewer.sent.length) else 0⟩

def start (ceilings : Ceilings) (world : World) (standing : Option Standing) : Ledger :=
  ⟨.start ceilings world standing, 0, 0⟩

/-- A grant comes while nothing is overdrawn. -/
def Settled (ledger : Ledger) (event : Viewer.Event) : Prop :=
  ∀ bytes, event.grant = some bytes → bytes ≠ 0 → ledger.spent ≤ ledger.granted

-- A grant is one of finitely many values, which are not to be gone through.
instance : DecidableRel Settled := fun ledger event =>
  Option.decidableForallMem (p := fun bytes => bytes ≠ 0 → ledger.spent ≤ ledger.granted) event.grant

/-- What is left of the window was granted and not charged, or the window is empty and overdrawn by one message. -/
structure Balanced (ledger : Ledger) : Prop where
  ungranted : ledger.viewer.window = none → ledger.granted = 0 ∧ ledger.spent = 0
  left : ∀ left ∈ ledger.viewer.window, ledger.spent + left ≤ ledger.granted ∨
    (left = 0 ∧ ledger.spent ≤ ledger.granted + maxMessage)

variable {ceilings : Ceilings} {world : World} {ledger ledger' : Ledger} {event : Viewer.Event}
  {standing : Option Standing} {events : List Viewer.Event}

theorem Balanced.bounded (h : Balanced ledger) : ledger.spent ≤ ledger.granted + maxMessage := by
  cases hwindow : ledger.viewer.window with
  | none =>
      have := (h.ungranted hwindow).2
      omega
  | some left =>
      have := h.left left hwindow
      omega

/-- A grant is added to what is left. -/
theorem Balanced.grant (h : Balanced ledger) {bytes : UInt32} {viewer : Viewer}
    (hsettled : bytes ≠ 0 → ledger.spent ≤ ledger.granted)
    (hwindow : viewer.peerWindow = some (saturatingAdd32 (ledger.viewer.peerWindow.getD 0) bytes)) :
    Balanced ⟨viewer, ledger.granted + bytes.toNat, ledger.spent⟩ := by
  have hleft : viewer.window = some (min ((ledger.viewer.peerWindow.getD 0).toNat + bytes.toNat) (2 ^ 32 - 1)) := by
    rw [Viewer.window, hwindow, Option.map_some, toNat_saturatingAdd32]
  refine ⟨fun hnone => (by rw [hleft] at hnone; cases hnone), ?_⟩
  intro left hmem
  rw [hleft] at hmem
  cases hmem
  dsimp only
  by_cases hzero : bytes = 0
  · subst hzero
    cases hbefore : ledger.viewer.peerWindow with
    | none =>
        have := h.ungranted (by rw [Viewer.window, hbefore]; rfl)
        simp only [Option.getD_none, UInt32.toNat_zero]
        omega
    | some before =>
        have := h.left before.toNat (by rw [Viewer.window, hbefore]; rfl)
        simp only [Option.getD_some, UInt32.toNat_zero]
        omega
  · have hsettled := hsettled hzero
    cases hbefore : ledger.viewer.peerWindow with
    | none =>
        have := h.ungranted (by rw [Viewer.window, hbefore]; rfl)
        simp only [Option.getD_none, UInt32.toNat_zero]
        omega
    | some before =>
        have := h.left before.toNat (by rw [Viewer.window, hbefore]; rfl)
        simp only [Option.getD_some]
        omega

/-- What is charged is taken from what is left. -/
theorem Balanced.spend (h : Balanced ledger) {viewer : Viewer} (hspends : Viewer.Spends ledger.viewer viewer) :
    Balanced ⟨viewer, ledger.granted, ledger.spent +
      if ledger.viewer.peerWindow.isSome then charge (viewer.sent.drop ledger.viewer.sent.length) else 0⟩ := by
  obtain ⟨messages, hsent, hwindow, hgated⟩ := hspends
  rw [hsent, List.drop_left]
  cases hbefore : ledger.viewer.peerWindow with
  | none =>
      have hnone : ledger.viewer.window = none := by
        rw [Viewer.window, hbefore]
        rfl
      rw [hnone] at hwindow
      refine ⟨fun _ => h.ungranted hnone, ?_⟩
      intro left hmem
      rw [hwindow] at hmem
      cases hmem
  | some before =>
      have hsome : ledger.viewer.window = some before.toNat := by
        rw [Viewer.window, hbefore]
        rfl
      rw [hsome] at hwindow
      refine ⟨fun hnone => (by rw [hwindow] at hnone; cases hnone), ?_⟩
      intro left hmem
      rw [hwindow] at hmem
      cases hmem
      have hgated := hgated before.toNat hsome
      have hleft := h.left before.toNat hsome
      dsimp only [Option.isSome]
      rw [if_pos rfl]
      omega

theorem Balanced.step (h : Balanced ledger) (hsettled : Settled ledger event)
    (hstep : ledger.step ceilings world event = some ledger') : Balanced ledger' := by
  obtain ⟨viewer, hviewer, rfl⟩ := Option.map_eq_some_iff.mp hstep
  unfold Viewer.step at hviewer
  split at hviewer
  · cases hviewer
  · rename_i hending
    have hclosed := Option.some.inj hviewer
    cases hgrant : event.grant with
    | none =>
        have hspends : Viewer.Spends ledger.viewer viewer :=
          hclosed ▸ (Viewer.Spends.react hgrant).trans (.plain .closing)
        exact h.spend hspends
    | some bytes =>
        -- A grant ends no stream, so that nothing is written with it.
        obtain ⟨standing, now, rfl⟩ := Viewer.grant_eq_some hgrant
        have hnone : ledger.viewer.ending = none := by simpa using hending
        have hviewer : viewer = { ledger.viewer with
            peerWindow := some (saturatingAdd32 (ledger.viewer.peerWindow.getD 0) bytes) } := by
          rw [← hclosed]
          simp only [Viewer.react, Viewer.receive, Message.isToAgent, Viewer.closing, hnone]
          rfl
        have hcharge : charge (viewer.sent.drop ledger.viewer.sent.length) = 0 := by
          rw [hviewer, List.drop_length]
          rfl
        rw [hcharge, ite_self, Nat.add_zero]
        exact h.grant (hsettled bytes hgrant) (by rw [hviewer])

theorem balanced_start : Balanced (start ceilings world standing) := by
  have hstopped : ∀ ending, Viewer.Spends (.new ceilings .none) ((Viewer.new ceilings .none).stop ending) :=
    fun ending => .same rfl rfl
  have hspends : ∃ live, Viewer.Spends (.new ceilings live) (.start ceilings world standing) := by
    unfold Viewer.start
    cases standing with
    | none => exact ⟨.none, (hstopped .sessionGone).trans (.plain .closing)⟩
    | some held =>
        dsimp only
        split
        · exact ⟨.none, (hstopped .viewRevoked).trans (.plain .closing)⟩
        · exact ⟨_, Viewer.Spends.trans (.plain (.write rfl)) (.plain .closing)⟩
  obtain ⟨live, messages, -, hwindow, -⟩ := hspends
  have hnone : (start ceilings world standing).viewer.window = none := hwindow
  refine ⟨fun _ => ⟨rfl, rfl⟩, ?_⟩
  intro left hmem
  rw [hnone] at hmem
  cases hmem

end Ledger

/-- In every run in which each grant comes while nothing is overdrawn, the tiles and cursors written since the first
grant take at most one largest message more than the client granted. -/
theorem spending_is_bounded (ceilings : Ceilings) (world : World) (standing : Option Standing)
    {events : List Viewer.Event} {ledger : Ledger}
    (hrun : Run (Ledger.step ceilings world) Ledger.Settled (.start ceilings world standing) events ledger) :
    ledger.spent ≤ ledger.granted + maxMessage := by
  have hbalanced : ledger.Balanced :=
    hrun.invariant (fun _ _ _ h hsettled hstep => h.step hsettled hstep) Ledger.balanced_start
  exact hbalanced.bounded

/-! ## A pointer that hovers -/

namespace Viewer

/-- The pointer moves between two places. -/
def samplePointer (right : Bool) : Pointer := ⟨if right then 1 else 0, 0, true, 5⟩

/-- The display is as it was, and the pointer has moved. -/
def sampleMove (right : Bool) : Event :=
  .pump ⟨.elapsed, .given (.ok ⟨0, sampleDot⟩), ⟨.given (some (samplePointer right)), .given none⟩⟩ 0

def sampleCredit (bytes : UInt32) : Event := .receive (some (.credit bytes)) none 0

/-- The viewer once the display is drawn and the pointer's shape is known. -/
def hovering (sent : List Message) (reads : Nat) (window : UInt32) (right : Bool) : Viewer where
  machine := ⟨.live, sampleCeilings.limits, 0, 0, some 0⟩
  cursor := ⟨⟨[5], 4⟩, some (samplePointer right)⟩
  held := .new
  buttons := .none
  previous := some sampleDot
  previousMonitor := some 0
  owed := []
  peerWindow := some window
  sequence := 1
  pendingRestore := none
  live := ⟨3⟩
  ending := none
  sent := sent
  reads := reads
  handed := []

theorem step_sampleCredit (sent : List Message) (reads : Nat) (right : Bool) :
    (hovering sent reads 0 right).step sampleCeilings steadyWorld (sampleCredit 1) =
      some (hovering sent reads 1 right) := rfl

theorem step_sampleMove (sent : List Message) (reads : Nat) (right : Bool) :
    (hovering sent reads 1 right).step sampleCeilings steadyWorld (sampleMove !right) =
      some (hovering (sent ++ [.cursorPos (samplePointer !right).x 0 true]) (reads + 1) 0 (!right)) := by
  have hview : (⟨3⟩ : Capabilities).contains .view = true := by decide
  have hlive : (hovering sent reads 1 right).machine.phase = .live ∧
      (hovering sent reads 1 right).live.contains .view = true := ⟨rfl, hview⟩
  have hdrawn : (hovering sent reads 1 right).sendFrame sampleCeilings steadyWorld ⟨0, sampleDot⟩ =
      hovering sent reads 1 right := rfl
  have hpointed : (hovering sent reads 1 right).sendPointer steadyWorld
      ⟨.given (some (samplePointer !right)), .given none⟩ =
        hovering (sent ++ [.cursorPos (samplePointer !right).x 0 true]) (reads + 1) 0 (!right) := by
    cases right <;> rfl
  have hturned : (hovering sent reads 1 right).react sampleCeilings steadyWorld (sampleMove !right) =
      ((hovering sent reads 1 right).present sampleCeilings steadyWorld
        ⟨.given (some (samplePointer !right)), .given none⟩ (some ⟨0, sampleDot⟩)).andThen (act .capture) := rfl
  have hpresented : (hovering sent reads 1 right).andThen (sendPointer steadyWorld
      ⟨.given (some (samplePointer !right)), .given none⟩) =
        hovering (sent ++ [.cursorPos (samplePointer !right).x 0 true]) (reads + 1) 0 (!right) := hpointed
  refine congrArg some ?_
  rw [hturned, present, if_pos hlive, hdrawn, hpresented]
  rfl

end Viewer

namespace Ledger

/-- Each grant of one byte is answered with a position of ten. -/
theorem run_hovering (n : Nat) (sent : List Message) (reads granted spent : Nat) :
    ∃ events sent' reads', Run (step Viewer.sampleCeilings Viewer.steadyWorld) (fun _ _ => True)
      ⟨Viewer.hovering sent reads 0 (n % 2 = 1), granted, spent⟩ events
      ⟨Viewer.hovering sent' reads' 0 false, granted + n, spent + 10 * n⟩ := by
  induction n generalizing sent reads granted spent with
  | zero => exact ⟨[], sent, reads, .nil⟩
  | succ n ih =>
      have hright : decide (n % 2 = 1) = !decide ((n + 1) % 2 = 1) := by
        by_cases hodd : n % 2 = 1
        · simp [hodd, Nat.add_mod]
        · have heven : n % 2 = 0 := by omega
          simp [heven, Nat.add_mod]
      obtain ⟨events, sent', reads', hrun⟩ := ih
        (sent ++ [.cursorPos (Viewer.samplePointer (n % 2 = 1)).x 0 true]) (reads + 1) (granted + 1) (spent + 10)
      refine ⟨Viewer.sampleCredit 1 :: Viewer.sampleMove (n % 2 = 1) :: events, sent', reads', ?_⟩
      have hcredit : step Viewer.sampleCeilings Viewer.steadyWorld
          ⟨Viewer.hovering sent reads 0 ((n + 1) % 2 = 1), granted, spent⟩ (Viewer.sampleCredit 1) =
            some ⟨Viewer.hovering sent reads 1 ((n + 1) % 2 = 1), granted + 1, spent⟩ := by
        have hdrop : charge (sent.drop sent.length) = 0 := by
          rw [List.drop_length]
          rfl
        rw [step, Viewer.step_sampleCredit]
        refine congrArg some (congrArg (Ledger.mk _ _) ?_)
        exact (congrArg (spent + ·) hdrop)
      have hmove : step Viewer.sampleCeilings Viewer.steadyWorld
          ⟨Viewer.hovering sent reads 1 ((n + 1) % 2 = 1), granted + 1, spent⟩ (Viewer.sampleMove (n % 2 = 1)) =
            some ⟨Viewer.hovering (sent ++ [.cursorPos (Viewer.samplePointer (n % 2 = 1)).x 0 true]) (reads + 1) 0
              (n % 2 = 1), granted + 1, spent + 10⟩ := by
        have hdrop : charge ((sent ++
            [Message.cursorPos (Viewer.samplePointer (n % 2 = 1)).x 0 true]).drop sent.length) = 10 := by
          rw [List.drop_left]
          rfl
        rw [step, hright, Viewer.step_sampleMove, ← hright]
        refine congrArg some (congrArg (Ledger.mk _ _) ?_)
        exact (congrArg (spent + ·) hdrop)
      rw [show granted + (n + 1) = granted + 1 + n by omega, show spent + 10 * (n + 1) = spent + 10 + 10 * n by omega]
      exact .cons trivial hcredit (.cons trivial hmove hrun)

end Ledger

theorem spending_is_bounded_once :
    ∃ ledger, Run (Ledger.step Viewer.sampleCeilings Viewer.steadyWorld) Ledger.Settled
        (.start Viewer.sampleCeilings Viewer.steadyWorld (some Viewer.sampleStanding))
        [Viewer.sampleMove false, Viewer.sampleCredit 1, Viewer.sampleMove true] ledger ∧
      ledger.granted = 1 ∧ ledger.spent = 10 ∧ ledger.spent ≤ ledger.granted + maxMessage := by
  have hexec : (exec (Ledger.step Viewer.sampleCeilings Viewer.steadyWorld) Ledger.Settled
      (.start Viewer.sampleCeilings Viewer.steadyWorld (some Viewer.sampleStanding))
      [Viewer.sampleMove false, Viewer.sampleCredit 1, Viewer.sampleMove true]).map
        (fun ledger => (ledger.granted, ledger.spent)) = some (1, 10) := by decide +kernel
  obtain ⟨ledger, hledger, hends⟩ := Option.map_eq_some_iff.mp hexec
  injection hends with hgranted hspent
  exact ⟨ledger, Run.of_exec hledger, hgranted, hspent, spending_is_bounded _ _ _ (Run.of_exec hledger)⟩

/-- The client grants a byte at a time, and the overdraft of each answer is forgotten with the next grant. -/
theorem overdraft_is_forgotten :
    ∃ events ledger, Run (Ledger.step Viewer.sampleCeilings Viewer.steadyWorld) (fun _ _ => True)
        (.start Viewer.sampleCeilings Viewer.steadyWorld (some Viewer.sampleStanding)) events ledger ∧
      ledger.granted + maxMessage < ledger.spent := by
  have hdrawn : exec (Ledger.step Viewer.sampleCeilings Viewer.steadyWorld) (fun _ _ => True)
      (.start Viewer.sampleCeilings Viewer.steadyWorld (some Viewer.sampleStanding))
      [Viewer.sampleMove false, Viewer.sampleCredit 0] =
        some ⟨Viewer.hovering [.hello, .status .live, .frameBegin ⟨0, 1, 1, 1, true⟩,
          .tile 0 ⟨⟨0, 0⟩, .solid, [1, 2, 3, 4]⟩, .frameEnd 1, .cursorPos 0 0 true] 3 0 false, 0, 0⟩ := by
    decide +kernel
  obtain ⟨events, sent, reads, hrun⟩ := Ledger.run_hovering 1048576 [.hello, .status .live,
    .frameBegin ⟨0, 1, 1, 1, true⟩, .tile 0 ⟨⟨0, 0⟩, .solid, [1, 2, 3, 4]⟩, .frameEnd 1, .cursorPos 0 0 true] 3 0 0
  have heven : decide (1048576 % 2 = 1) = false := by decide
  rw [heven] at hrun
  have hforgotten : 0 + 1048576 + maxMessage < 0 + 10 * 1048576 := by decide
  exact ⟨_, _, (Run.of_exec hdrawn).append hrun, hforgotten⟩

end Selfhost.Desk
