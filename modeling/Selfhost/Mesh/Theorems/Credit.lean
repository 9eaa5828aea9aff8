import Selfhost.Mesh.Credit

/-!
# A window is neither lost nor made

What the sender may still send, what is under way, what the receiver holds and what it owes add up to the window the
channel was opened with, whatever the order in which the two machines and the two queues move.
-/

namespace Selfhost.Mesh

open Selfhost.Lib

theorem maxWindow_toNat : maxWindow.toNat = 16777216 := rfl

/-! ## One operation of either window -/

/-- A reservation takes what it grants from the window, and one that grants nothing takes nothing. -/
theorem SendWindow.reserve_available (window : SendWindow) (bytes : UInt32) :
    (window.reserve bytes).2.available.toNat + (if (window.reserve bytes).1 = .granted then bytes.toNat else 0) =
      window.available.toNat := by
  unfold reserve
  split
  · rename_i hzero
    simp [hzero]
  · split
    · simp
    · unfold checkedSub32
      split
      · rename_i remaining heq
        split at heq
        · rename_i hle
          cases heq
          have := UInt32.le_iff_toNat_le.mp hle
          simp only [↓reduceIte, UInt32.toNat_sub_of_le _ _ hle]
          omega
        · cases heq
      · simp

theorem SendWindow.grant_ok {window : SendWindow} {bytes : UInt32} (hne : bytes ≠ 0)
    (hle : window.available.toNat + bytes.toNat ≤ maxWindow.toNat) :
    ∃ window', window.grant bytes = .ok window' ∧
      window'.available.toNat = window.available.toNat + bytes.toNat := by
  have hmax := maxWindow_toNat
  have hadd : (window.available + bytes).toNat = window.available.toNat + bytes.toNat := toNat_add32 (by omega)
  have hfits : ¬ window.available + bytes > maxWindow := by
    rw [gt_iff_lt, UInt32.lt_iff_toNat_lt, hadd]
    omega
  refine ⟨{ window with
    available := window.available + bytes
    granted := saturatingAdd window.granted bytes.toUInt64 }, ?_, hadd⟩
  simp only [grant, checkedAdd32, if_neg hne, if_pos (show window.available.toNat + bytes.toNat < 2 ^ 32 by omega),
    if_neg hfits]

theorem ReceiveWindow.receive_ok {window : ReceiveWindow} {bytes : UInt32}
    (hle : window.held.toNat + window.ungranted.toNat + bytes.toNat ≤ window.capacity.toNat) :
    ∃ window', window.receive bytes = .ok window' ∧ window'.held.toNat = window.held.toNat + bytes.toNat ∧
      window'.ungranted = window.ungranted ∧ window'.capacity = window.capacity := by
  have hlt := window.capacity.toNat_lt
  have hfits : ¬ bytes > saturatingSub32 window.capacity (saturatingAdd32 window.held window.ungranted) := by
    rw [gt_iff_lt, UInt32.lt_iff_toNat_lt, toNat_saturatingSub32, toNat_saturatingAdd32]
    omega
  refine ⟨{ window with held := window.held + bytes, received := saturatingAdd window.received bytes.toUInt64 }, ?_,
    toNat_add32 (by omega), rfl, rfl⟩
  simp only [receive, if_neg hfits]

theorem ReceiveWindow.consume_ok {window window' : ReceiveWindow} {bytes : UInt32}
    (h : window.consume bytes = .ok window')
    (hle : window.held.toNat + window.ungranted.toNat ≤ window.capacity.toNat) :
    window'.held.toNat + window'.ungranted.toNat = window.held.toNat + window.ungranted.toNat ∧
      window'.capacity = window.capacity := by
  have hlt := window.capacity.toNat_lt
  unfold consume at h
  split at h
  · cases h
  · rename_i hheld
    cases h
    have hle' : bytes ≤ window.held := UInt32.not_lt.mp hheld
    have := UInt32.le_iff_toNat_le.mp hle'
    refine ⟨?_, rfl⟩
    dsimp only
    rw [UInt32.toNat_sub_of_le _ _ hle', toNat_saturatingAdd32]
    omega

/-- Nothing is granted, or all that is owed, and that is something. -/
theorem ReceiveWindow.takeGrantNow_cases (window : ReceiveWindow) :
    window.takeGrantNow = (none, window) ∨
      window.ungranted ≠ 0 ∧ window.takeGrantNow = (some window.ungranted, { window with ungranted := 0 }) := by
  by_cases hzero : window.ungranted = 0
  · exact .inl (if_pos hzero)
  · exact .inr ⟨hzero, if_neg hzero⟩

theorem ReceiveWindow.takeGrant_cases (window : ReceiveWindow) :
    window.takeGrant = (none, window) ∨
      window.ungranted ≠ 0 ∧ window.takeGrant = (some window.ungranted, { window with ungranted := 0 }) := by
  unfold takeGrant
  split
  · exact window.takeGrantNow_cases
  · exact .inl rfl

theorem parseGrant_encodeGrant {bytes : UInt32} (h : bytes ≠ 0) : parseGrant (encodeGrant bytes) = .ok bytes := by
  simp only [parseGrant, encodeGrant, be32, ofBe32_be32, if_neg h]

/-! ## The sum -/

namespace Flow

def dataInFlight (flow : Flow) : Nat := (flow.data.map UInt32.toNat).sum

/-- The grants under way, as the sender will read them. -/
def creditInFlight (flow : Flow) : Nat :=
  (flow.credit.map fun payload =>
    match parseGrant payload with
    | .ok bytes => bytes.toNat
    | .error _ => 0).sum

def total (flow : Flow) : Nat :=
  flow.sender.available.toNat + flow.dataInFlight + flow.receiver.held.toNat + flow.receiver.ungranted.toNat +
    flow.creditInFlight

/-- The window is kept, every grant under way is one, and nobody had anything to report. -/
structure Conserved (window : UInt32) (flow : Flow) : Prop where
  total : flow.total = (min window maxWindow).toNat
  capacity : flow.receiver.capacity = min window maxWindow
  grants : ∀ payload ∈ flow.credit, ∃ bytes, bytes ≠ 0 ∧ payload = encodeGrant bytes
  errors : flow.errors = []

variable {window : UInt32} {flow flow' : Flow}

theorem Conserved.opened (window : UInt32) : (opened window).Conserved window where
  total := by simp [Flow.total, Flow.opened, dataInFlight, creditInFlight, SendWindow.new, ReceiveWindow.new]
  capacity := rfl
  grants := by simp [Flow.opened]
  errors := rfl

theorem Conserved.le_max (h : flow.Conserved window) : flow.total ≤ maxWindow.toNat := by
  rw [h.total, UInt32.toNat_min]
  exact Nat.min_le_right _ _

theorem Conserved.le_capacity (h : flow.Conserved window) : flow.total ≤ flow.receiver.capacity.toNat := by
  rw [h.capacity, h.total]

/-- A sender that sends a payload, or does not. -/
theorem Conserved.reserve (h : flow.Conserved window) (bytes : UInt32) :
    Conserved window { flow with
      sender := (flow.sender.reserve bytes).2
      data := flow.data ++ if (flow.sender.reserve bytes).1 = .granted then [bytes] else [] } := by
  refine ⟨?_, h.capacity, h.grants, h.errors⟩
  have hsum := flow.sender.reserve_available bytes
  rw [← h.total]
  unfold Flow.total dataInFlight creditInFlight
  split at hsum
  · rename_i hgranted
    simp only [if_pos hgranted, List.map_append, List.sum_append, List.map_cons, List.map_nil, List.sum_singleton]
    omega
  · rename_i hgranted
    simp only [if_neg hgranted, List.append_nil]
    omega

theorem Conserved.receive (h : flow.Conserved window) {bytes : UInt32} {data : List UInt32}
    (hdata : flow.data = bytes :: data) : ({ flow with data := data }.delivered bytes).Conserved window := by
  have htotal := h.total
  have hle := h.le_capacity
  have hhead : flow.dataInFlight = bytes.toNat + (data.map UInt32.toNat).sum := by simp [dataInFlight, hdata]
  unfold Flow.total at htotal hle
  obtain ⟨receiver, hok, hheld, hungranted, hcapacity⟩ :=
    @ReceiveWindow.receive_ok flow.receiver bytes (by omega)
  simp only [delivered, hok]
  refine ⟨?_, hcapacity.trans h.capacity, h.grants, h.errors⟩
  rw [← htotal]
  unfold Flow.total dataInFlight creditInFlight at *
  dsimp only at *
  rw [hheld, hungranted]
  omega

theorem Conserved.consume (h : flow.Conserved window) {bytes : UInt32} {receiver : ReceiveWindow}
    (hok : flow.receiver.consume bytes = .ok receiver) : Conserved window { flow with receiver := receiver } := by
  have htotal := h.total
  have hle := h.le_capacity
  unfold Flow.total at htotal hle
  obtain ⟨hsum, hcapacity⟩ := ReceiveWindow.consume_ok hok (by omega)
  refine ⟨?_, hcapacity.trans h.capacity, h.grants, h.errors⟩
  rw [← htotal]
  unfold Flow.total dataInFlight creditInFlight
  dsimp only
  omega

/-- A grant leaves the receiver's debt and goes under way. -/
theorem Conserved.advertise (h : flow.Conserved window) {taken : Option UInt32 × ReceiveWindow}
    (htaken : taken = (none, flow.receiver) ∨
      flow.receiver.ungranted ≠ 0 ∧
        taken = (some flow.receiver.ungranted, { flow.receiver with ungranted := 0 })) :
    (flow.advertise taken).Conserved window := by
  rcases htaken with rfl | ⟨hne, rfl⟩
  · refine ⟨?_, h.capacity, ?_, h.errors⟩
    · rw [← h.total]
      simp [Flow.total, Flow.advertise, dataInFlight, creditInFlight]
    · simpa [Flow.advertise] using h.grants
  · refine ⟨?_, h.capacity, ?_, h.errors⟩
    · rw [← h.total]
      simp only [Flow.total, Flow.advertise, dataInFlight, creditInFlight, Option.toList_some, List.map_cons,
        List.map_nil, List.map_append, List.sum_append, List.sum_singleton, parseGrant_encodeGrant hne,
        UInt32.toNat_zero]
      omega
    · intro payload hmem
      rcases List.mem_append.mp hmem with hmem | hmem
      · exact h.grants payload hmem
      · exact ⟨_, hne, List.mem_singleton.mp hmem⟩

theorem credited_of {payload : Bytes} {bytes : UInt32} {sender : SendWindow} (hparse : parseGrant payload = .ok bytes)
    (hgrant : flow.sender.grant bytes = .ok sender) : flow.credited payload = { flow with sender := sender } := by
  have hbind : (parseGrant payload).bind flow.sender.grant = .ok sender := by
    rw [hparse]
    exact hgrant
  simp only [credited, hbind]

theorem Conserved.grant (h : flow.Conserved window) {payload : Bytes} {credit : List Bytes}
    (hcredit : flow.credit = payload :: credit) : ({ flow with credit := credit }.credited payload).Conserved window := by
  obtain ⟨bytes, hne, rfl⟩ := h.grants payload (by simp [hcredit])
  have htotal := h.total
  have hle := h.le_max
  have hhead : flow.creditInFlight = bytes.toNat + creditInFlight { flow with credit := credit } := by
    simp only [creditInFlight, hcredit, List.map_cons, List.sum_cons, parseGrant_encodeGrant hne]
  unfold Flow.total at htotal hle
  obtain ⟨sender, hok, havailable⟩ := @SendWindow.grant_ok flow.sender bytes hne (by omega)
  have hparse := parseGrant_encodeGrant hne
  generalize encodeGrant bytes = payload at hcredit hparse
  rw [@credited_of { flow with credit := credit } payload bytes sender hparse hok]
  refine ⟨?_, h.capacity, fun payload hmem => h.grants payload ?_, h.errors⟩
  · rw [← htotal]
    have hdata : flow.dataInFlight = dataInFlight { flow with sender := sender, credit := credit } := rfl
    have hrest : creditInFlight { flow with credit := credit } =
      creditInFlight { flow with sender := sender, credit := credit } := rfl
    unfold Flow.total
    rw [havailable, hhead, hrest, ← hdata]
    dsimp only
    omega
  · rw [hcredit]
    exact List.mem_cons_of_mem _ hmem

theorem Conserved.step (h : flow.Conserved window) {move : Move} (hstep : flow.step move = some flow') :
    flow'.Conserved window := by
  cases move with
  | reserve bytes =>
      cases hstep
      exact h.reserve bytes
  | receive =>
      simp only [Flow.step] at hstep
      split at hstep
      · cases hstep
      · rename_i bytes data hdata
        cases hstep
        exact h.receive hdata
  | consume bytes =>
      simp only [Flow.step] at hstep
      split at hstep
      · rename_i receiver hok
        cases hstep
        exact h.consume hok
      · cases hstep
  | takeGrant =>
      cases hstep
      exact h.advertise flow.receiver.takeGrant_cases
  | takeGrantNow =>
      cases hstep
      exact h.advertise flow.receiver.takeGrantNow_cases
  | grant =>
      simp only [Flow.step] at hstep
      split at hstep
      · cases hstep
      · rename_i payload credit hcredit
        cases hstep
        exact h.grant hcredit

end Flow

/-- In every run of a channel the window adds up, neither side has an overrun, an overflow or an empty grant to report,
and the receiver never holds more than its capacity. -/
theorem window_is_conserved (window : UInt32) (moves : List Move) (flow : Flow)
    (hrun : Run Flow.step (fun _ _ => True) (.opened window) moves flow) :
    flow.sender.available.toNat + flow.dataInFlight + flow.receiver.held.toNat + flow.receiver.ungranted.toNat +
        flow.creditInFlight = (min window maxWindow).toNat ∧
      flow.errors = [] ∧ flow.receiver.held ≤ flow.receiver.capacity := by
  have h : flow.Conserved window :=
    hrun.invariant (fun _ _ _ h _ hstep => Flow.Conserved.step h hstep) (.opened window)
  have hle := h.le_capacity
  unfold Flow.total at hle
  exact ⟨h.total, h.errors, UInt32.le_iff_toNat_le.mpr (by omega)⟩

/-- A window of ten bytes that goes round once. -/
theorem window_is_conserved_once :
    ∃ flow, Run Flow.step (fun _ _ => True) (.opened 10) [.reserve 7, .receive, .consume 6, .takeGrant, .grant] flow ∧
      flow.sender.available = 9 ∧ flow.receiver.held = 1 ∧ flow.errors = [] := by
  have hrun : Run Flow.step (fun _ _ => True) (.opened 10) [.reserve 7, .receive, .consume 6, .takeGrant, .grant]
      ⟨⟨9, 7, 6, 0⟩, ⟨10, 1, 0, 7, 6⟩, [], [], []⟩ := Run.of_exec (by decide +kernel)
  exact ⟨_, hrun, rfl, rfl, (window_is_conserved 10 _ _ hrun).2.1⟩

end Selfhost.Mesh
