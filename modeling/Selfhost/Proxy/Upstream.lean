import Selfhost.Lib.Run
import Selfhost.Lib.Text
import Mathlib.Data.List.Count

/-!
# Upstreams in and out of rotation

Probes take an instance out of rotation and bring it back, each after a streak. A request is leased to the healthy
instance with the fewest requests in flight.
-/

namespace Selfhost.Proxy

open Selfhost.Lib

structure Upstream where
  address : Str
  healthy : Bool
  inFlight : Nat
  consecutiveOk : UInt32
  consecutiveFail : UInt32
  totalFailures : UInt32
  deriving DecidableEq

namespace Upstream

def new (address : Str) : Upstream := ⟨address, true, 0, 0, 0, 0⟩

/-- Whether the probe brought the instance back, and the instance afterwards. -/
def recordSuccess (upstream : Upstream) (healthyAfter : UInt32) : Bool × Upstream :=
  let streak := upstream.consecutiveOk + 1
  let upstream := { upstream with consecutiveFail := 0, consecutiveOk := streak }
  if !upstream.healthy && healthyAfter ≤ streak then (true, { upstream with healthy := true }) else (false, upstream)

/-- Whether the probe removed the instance, and the instance afterwards. -/
def recordFailure (upstream : Upstream) (unhealthyAfter : UInt32) : Bool × Upstream :=
  let streak := upstream.consecutiveFail + 1
  let upstream :=
    { upstream with consecutiveOk := 0, totalFailures := upstream.totalFailures + 1, consecutiveFail := streak }
  if upstream.healthy && unhealthyAfter ≤ streak then (true, { upstream with healthy := false }) else (false, upstream)

/-- The instance as its probes know it. -/
def idle (upstream : Upstream) : Upstream := { upstream with inFlight := 0 }

end Upstream

/-- After how many probes an instance leaves and returns. -/
structure Thresholds where
  healthyAfter : UInt32
  unhealthyAfter : UInt32
  deriving DecidableEq

/-- One probe: whether it changed the rotation, and the instance afterwards. -/
def Upstream.probe (thresholds : Thresholds) (upstream : Upstream) (ok : Bool) : Bool × Upstream :=
  if ok then upstream.recordSuccess thresholds.healthyAfter else upstream.recordFailure thresholds.unhealthyAfter

/-! ## Pools -/

structure Pool where
  upstreams : List Upstream
  cursor : UInt64
  deriving DecidableEq

namespace Pool

def new (addresses : List Str) : Pool := ⟨addresses.map Upstream.new, 0⟩

/-- The instance at an offset from the cursor. -/
def place (pool : Pool) (offset : Nat) : Nat := (pool.cursor + UInt64.ofNat offset).toNat % pool.upstreams.length

/-- One turn of the loop in `acquire`: the best instance so far, with its load. -/
def consider (pool : Pool) (best : Option (Nat × Nat)) (offset : Nat) : Option (Nat × Nat) :=
  match pool.upstreams[pool.place offset]? with
  | none => best
  | some upstream =>
      if !upstream.healthy then best
      else
        match best with
        | some (_, load) =>
            if upstream.inFlight ≥ load then best else some (pool.place offset, upstream.inFlight)
        | none => some (pool.place offset, upstream.inFlight)

/-- The instance that is leased, if any. -/
def choose (pool : Pool) : Option Nat :=
  ((List.range pool.upstreams.length).foldl pool.consider none).map Prod.fst

def acquire (pool : Pool) : Option Nat × Pool :=
  if pool.upstreams.length = 0 then (none, pool)
  else
    let next := { pool with cursor := pool.cursor + 1 }
    match pool.choose with
    | none => (none, next)
    | some chosen =>
        (some chosen,
          { next with upstreams := next.upstreams.modify chosen fun u => { u with inFlight := u.inFlight + 1 } })

/-- A lease is dropped. -/
def release (pool : Pool) (chosen : Nat) : Pool :=
  { pool with
    upstreams := pool.upstreams.modify chosen fun u =>
      { u with inFlight := if u.inFlight = 0 then 2 ^ 64 - 1 else u.inFlight - 1 } }

end Pool

/-- A pool and the leases on it that are alive. -/
structure Traffic where
  pool : Pool
  leases : List Nat
  deriving DecidableEq

namespace Traffic

inductive Event where
  | acquire
  | drop (lease : Nat)
  | probe (upstream : Nat) (ok : Bool)
  deriving DecidableEq

def start (addresses : List Str) : Traffic := ⟨.new addresses, []⟩

def step (thresholds : Thresholds) (traffic : Traffic) : Event → Option Traffic
  | .acquire =>
      let (chosen, pool) := traffic.pool.acquire
      some ⟨pool, chosen.toList ++ traffic.leases⟩
  | .drop lease =>
      match traffic.leases[lease]? with
      | none => none
      | some chosen => some ⟨traffic.pool.release chosen, traffic.leases.eraseIdx lease⟩
  | .probe upstream ok =>
      some { traffic with
        pool := { traffic.pool with
          upstreams := traffic.pool.upstreams.modify upstream fun u => (u.probe thresholds ok).2 } }

end Traffic

/-! ## Rotation -/

section

variable {thresholds : Thresholds} {address : Str}

/-- An instance after the probes of a history. -/
def probed (thresholds : Thresholds) (address : Str) (history : List Bool) : Upstream :=
  history.foldl (fun upstream ok => (upstream.probe thresholds ok).2) (.new address)

theorem probed_concat (history : List Bool) (ok : Bool) : probed thresholds address (history ++ [ok]) =
    ((probed thresholds address history).probe thresholds ok).2 := by
  simp [probed]

/-- How many of the latest probes, one after the other, spoke against a standing that the instance had at the time; the
history is read backwards. -/
def against (thresholds : Thresholds) (address : Str) (standing : Bool) : List Bool → Nat
  | [] => 0
  | ok :: earlier =>
      if ok ≠ standing ∧ (probed thresholds address earlier.reverse).healthy = standing then
        against thresholds address standing earlier + 1
      else 0

/-- The counter that matters in the present standing is the streak against it, and the streak is not complete. -/
structure Counted (thresholds : Thresholds) (address : Str) (history : List Bool) : Prop where
  fails : (probed thresholds address history).healthy = true →
    (probed thresholds address history).consecutiveFail.toNat = against thresholds address true history.reverse ∧
      against thresholds address true history.reverse < thresholds.unhealthyAfter.toNat
  succeeds : (probed thresholds address history).healthy = false →
    (probed thresholds address history).consecutiveOk.toNat = against thresholds address false history.reverse ∧
      against thresholds address false history.reverse < thresholds.healthyAfter.toNat

theorem toNat_succ {n bound : UInt32} (h : n.toNat < bound.toNat) : (n + 1).toNat = n.toNat + 1 := by
  have := bound.toNat_lt
  rw [UInt32.toNat_add, Nat.mod_eq_of_lt]
  · rfl
  · show n.toNat + 1 < 2 ^ 32
    omega

theorem against_cons (standing ok : Bool) (history : List Bool) :
    against thresholds address standing (ok :: history.reverse) =
      if ok ≠ standing ∧ (probed thresholds address history).healthy = standing then
        against thresholds address standing history.reverse + 1
      else 0 := by
  rw [against, List.reverse_reverse]

/-- A success of an instance that is in rotation. -/
theorem probe_true_of_healthy {upstream : Upstream} (h : upstream.healthy = true) :
    (upstream.probe thresholds true).1 = false ∧ (upstream.probe thresholds true).2.healthy = true ∧
      (upstream.probe thresholds true).2.consecutiveFail = 0 := by
  simp [Upstream.probe, Upstream.recordSuccess, h]

/-- A failure of an instance that is out of rotation. -/
theorem probe_false_of_unhealthy {upstream : Upstream} (h : upstream.healthy = false) :
    (upstream.probe thresholds false).1 = false ∧ (upstream.probe thresholds false).2.healthy = false ∧
      (upstream.probe thresholds false).2.consecutiveOk = 0 := by
  simp [Upstream.probe, Upstream.recordFailure, h]

/-- A success of an instance that is out of rotation: the streak grows, and completes or not. -/
theorem probe_true_of_unhealthy {upstream : Upstream} (h : upstream.healthy = false) :
    (upstream.probe thresholds true).1 = decide (thresholds.healthyAfter ≤ upstream.consecutiveOk + 1) ∧
      (upstream.probe thresholds true).2.healthy = decide (thresholds.healthyAfter ≤ upstream.consecutiveOk + 1) ∧
      (upstream.probe thresholds true).2.consecutiveFail = 0 ∧
      (upstream.probe thresholds true).2.consecutiveOk = upstream.consecutiveOk + 1 := by
  by_cases hstreak : thresholds.healthyAfter ≤ upstream.consecutiveOk + 1
  · simp [Upstream.probe, Upstream.recordSuccess, h, hstreak]
  · simp [Upstream.probe, Upstream.recordSuccess, h, hstreak]

/-- A failure of an instance that is in rotation. -/
theorem probe_false_of_healthy {upstream : Upstream} (h : upstream.healthy = true) :
    (upstream.probe thresholds false).1 = decide (thresholds.unhealthyAfter ≤ upstream.consecutiveFail + 1) ∧
      (upstream.probe thresholds false).2.healthy = !decide (thresholds.unhealthyAfter ≤ upstream.consecutiveFail + 1) ∧
      (upstream.probe thresholds false).2.consecutiveOk = 0 ∧
      (upstream.probe thresholds false).2.consecutiveFail = upstream.consecutiveFail + 1 := by
  by_cases hstreak : thresholds.unhealthyAfter ≤ upstream.consecutiveFail + 1
  · simp [Upstream.probe, Upstream.recordFailure, h, hstreak]
  · simp [Upstream.probe, Upstream.recordFailure, h, hstreak]

/-- The probe takes the instance out of rotation, or brings it back, just when it completes the streak against its
standing. -/
structure Turns (thresholds : Thresholds) (address : Str) (history : List Bool) (ok : Bool) : Prop where
  leaves : ((probed thresholds address history).healthy = true ∧
      (probed thresholds address (history ++ [ok])).healthy = false) ↔
    (probed thresholds address history).healthy = true ∧
      against thresholds address true (ok :: history.reverse) = thresholds.unhealthyAfter.toNat
  returns : ((probed thresholds address history).healthy = false ∧
      (probed thresholds address (history ++ [ok])).healthy = true) ↔
    (probed thresholds address history).healthy = false ∧
      against thresholds address false (ok :: history.reverse) = thresholds.healthyAfter.toNat
  told : ((probed thresholds address history).probe thresholds ok).1 = true ↔
    (probed thresholds address (history ++ [ok])).healthy ≠ (probed thresholds address history).healthy

theorem Counted.step (hhealthy : 1 ≤ thresholds.healthyAfter) (hunhealthy : 1 ≤ thresholds.unhealthyAfter)
    {history : List Bool} (h : Counted thresholds address history) (ok : Bool) :
    Counted thresholds address (history ++ [ok]) ∧ Turns thresholds address history ok := by
  have hpos : 0 < thresholds.healthyAfter.toNat := UInt32.le_iff_toNat_le.mp hhealthy
  have hpos' : 0 < thresholds.unhealthyAfter.toNat := UInt32.le_iff_toNat_le.mp hunhealthy
  have hagainst := fun standing => @against_cons thresholds address standing ok history
  obtain ⟨hfails, hsucceeds⟩ := h
  generalize hbefore : probed thresholds address history = before at *
  have hafter : probed thresholds address (history ++ [ok]) = (before.probe thresholds ok).2 := by
    rw [probed_concat, hbefore]
  cases hstanding : before.healthy with
  | true =>
      obtain ⟨hcount, hless⟩ := hfails hstanding
      have hzero := hagainst false
      have hgrow := hagainst true
      cases ok with
      | true =>
          obtain ⟨htold, hhealth, hfail⟩ := @probe_true_of_healthy thresholds before hstanding
          rw [← hafter] at hhealth hfail
          simp only [hstanding] at hzero hgrow
          refine ⟨⟨fun _ => ?_, fun hout => ?_⟩, ⟨?_, ?_, ?_⟩⟩
          · rw [List.reverse_concat, hfail, hgrow]
            simpa using hpos'
          · rw [hhealth] at hout
            cases hout
          · rw [hgrow, hhealth, hbefore]
            simp [hstanding]
            omega
          · rw [hbefore, hstanding]
            simp
          · rw [hbefore, htold, hhealth, hstanding]
            simp
      | false =>
          obtain ⟨htold, hhealth, hok, hfail⟩ := @probe_false_of_healthy thresholds before hstanding
          rw [← hafter] at hhealth hok hfail
          simp only [hstanding] at hzero hgrow
          have hnext : (before.consecutiveFail + 1).toNat = before.consecutiveFail.toNat + 1 :=
            toNat_succ (Nat.lt_of_le_of_lt (Nat.le_of_eq hcount) hless)
          have hcomplete : thresholds.unhealthyAfter ≤ before.consecutiveFail + 1 ↔
              against thresholds address true history.reverse + 1 = thresholds.unhealthyAfter.toNat := by
            rw [UInt32.le_iff_toNat_le, hnext]
            omega
          refine ⟨⟨fun hin => ?_, fun hout => ?_⟩, ⟨?_, ?_, ?_⟩⟩
          · rw [List.reverse_concat, hfail, hgrow, hnext]
            rw [hhealth] at hin
            simp [hcomplete] at hin
            simp
            omega
          · rw [List.reverse_concat, hok, hzero]
            simpa using hpos
          · rw [hgrow, hhealth, hbefore]
            simp [hstanding, hcomplete]
          · rw [hbefore, hstanding]
            simp
          · rw [hbefore, htold, hhealth, hstanding]
            simp
  | false =>
      obtain ⟨hcount, hless⟩ := hsucceeds hstanding
      have hzero := hagainst true
      have hgrow := hagainst false
      cases ok with
      | false =>
          obtain ⟨htold, hhealth, hok⟩ := @probe_false_of_unhealthy thresholds before hstanding
          rw [← hafter] at hhealth hok
          simp only [hstanding] at hzero hgrow
          refine ⟨⟨fun hin => ?_, fun _ => ?_⟩, ⟨?_, ?_, ?_⟩⟩
          · rw [hhealth] at hin
            cases hin
          · rw [List.reverse_concat, hok, hgrow]
            simpa using hpos
          · rw [hbefore, hstanding]
            simp
          · rw [hgrow, hhealth, hbefore]
            simp [hstanding]
            omega
          · rw [hbefore, htold, hhealth, hstanding]
            simp
      | true =>
          obtain ⟨htold, hhealth, hfail, hok⟩ := @probe_true_of_unhealthy thresholds before hstanding
          rw [← hafter] at hhealth hok hfail
          simp only [hstanding] at hzero hgrow
          have hnext : (before.consecutiveOk + 1).toNat = before.consecutiveOk.toNat + 1 :=
            toNat_succ (Nat.lt_of_le_of_lt (Nat.le_of_eq hcount) hless)
          have hcomplete : thresholds.healthyAfter ≤ before.consecutiveOk + 1 ↔
              against thresholds address false history.reverse + 1 = thresholds.healthyAfter.toNat := by
            rw [UInt32.le_iff_toNat_le, hnext]
            omega
          refine ⟨⟨fun hin => ?_, fun hout => ?_⟩, ⟨?_, ?_, ?_⟩⟩
          · rw [List.reverse_concat, hfail, hzero]
            simpa using hpos'
          · rw [List.reverse_concat, hok, hgrow, hnext]
            rw [hhealth] at hout
            simp [hcomplete] at hout
            simp
            omega
          · rw [hbefore, hstanding]
            simp
          · rw [hgrow, hhealth, hbefore]
            simp [hstanding, hcomplete]
          · rw [hbefore, htold, hhealth, hstanding]
            simp

theorem counted (hhealthy : 1 ≤ thresholds.healthyAfter) (hunhealthy : 1 ≤ thresholds.unhealthyAfter)
    (history : List Bool) : Counted thresholds address history := by
  induction history using List.reverseRecOn with
  | nil =>
      have hpos' : 0 < thresholds.unhealthyAfter.toNat := UInt32.le_iff_toNat_le.mp hunhealthy
      exact ⟨fun _ => ⟨rfl, hpos'⟩, fun h => by cases h⟩
  | append_singleton history ok ih => exact (ih.step hhealthy hunhealthy ok).1

end

/-! ## Choosing an instance -/

namespace Pool

variable {pool : Pool}

/-- The loop has considered some offsets: it holds a healthy instance with the least load among theirs, or there is
none. -/
structure Best (pool : Pool) (offsets : List Nat) (best : Option (Nat × Nat)) : Prop where
  none : best = none → ∀ o ∈ offsets, ∀ u, pool.upstreams[pool.place o]? = some u → u.healthy = false
  some : ∀ i load, best = some (i, load) → (∃ o ∈ offsets, pool.place o = i) ∧
    (∃ u, pool.upstreams[i]? = some u ∧ u.healthy = true ∧ u.inFlight = load) ∧
    ∀ o ∈ offsets, ∀ u, pool.upstreams[pool.place o]? = some u → u.healthy = true → load ≤ u.inFlight

theorem Best.keep {offsets : List Nat} {best : Option (Nat × Nat)} {offset : Nat} (h : Best pool offsets best)
    (hnone : best = Option.none → ∀ u, pool.upstreams[pool.place offset]? = Option.some u → u.healthy = false)
    (hload : ∀ i load, best = Option.some (i, load) →
      ∀ u, pool.upstreams[pool.place offset]? = Option.some u → u.healthy = true → load ≤ u.inFlight) :
    Best pool (offsets ++ [offset]) best where
  none hbest := by
    intro o ho u hu
    rcases List.mem_append.mp ho with ho | ho
    · exact h.none hbest o ho u hu
    · obtain rfl := List.mem_singleton.mp ho
      exact hnone hbest u hu
  some := by
    intro i load hbest
    obtain ⟨⟨o, ho, hplace⟩, hheld, hleast⟩ := h.some i load hbest
    refine ⟨⟨o, List.mem_append_left _ ho, hplace⟩, hheld, fun o ho u hu hhealthy => ?_⟩
    rcases List.mem_append.mp ho with ho | ho
    · exact hleast o ho u hu hhealthy
    · obtain rfl := List.mem_singleton.mp ho
      exact hload i load hbest u hu hhealthy

theorem Best.take {offsets : List Nat} {best : Option (Nat × Nat)} {offset : Nat} {u : Upstream} (h : Best pool offsets best)
    (hu : pool.upstreams[pool.place offset]? = Option.some u) (hhealthy : u.healthy = true)
    (hless : ∀ i load, best = Option.some (i, load) → u.inFlight ≤ load) :
    Best pool (offsets ++ [offset]) (Option.some (pool.place offset, u.inFlight)) where
  none hbest := by cases hbest
  some := by
    intro i load hbest
    cases hbest
    refine ⟨⟨offset, by simp, rfl⟩, ⟨u, hu, hhealthy, rfl⟩, fun o ho v hv hv' => ?_⟩
    rcases List.mem_append.mp ho with ho | ho
    · cases hbest : best with
      | none =>
          rw [h.none hbest o ho v hv] at hv'
          cases hv'
      | some held =>
          obtain ⟨-, -, hleast⟩ := h.some held.1 held.2 hbest
          exact Nat.le_trans (hless held.1 held.2 hbest) (hleast o ho v hv hv')
    · obtain rfl := List.mem_singleton.mp ho
      rw [hu] at hv
      cases hv
      exact Nat.le_refl _

theorem best_foldl (pool : Pool) (offsets : List Nat) : Best pool offsets (offsets.foldl pool.consider Option.none) := by
  induction offsets using List.reverseRecOn with
  | nil => exact ⟨by simp, by simp⟩
  | append_singleton offsets offset ih =>
      rw [List.foldl_append, List.foldl_cons, List.foldl_nil]
      generalize offsets.foldl pool.consider Option.none = best at ih ⊢
      unfold consider
      cases hu : pool.upstreams[pool.place offset]? with
      | none => exact ih.keep (by simp [hu]) (by simp [hu])
      | some u =>
          cases hhealthy : u.healthy with
          | false =>
              simp only [hhealthy, Bool.not_false, if_true]
              exact ih.keep (by simp [hu, hhealthy]) (by simp [hu, hhealthy])
          | true =>
              simp only [hhealthy, Bool.not_true, Bool.false_eq_true, if_false]
              cases best with
              | none => exact ih.take hu hhealthy (by simp)
              | some held =>
                  obtain ⟨i, load⟩ := held
                  dsimp only
                  by_cases hload : u.inFlight ≥ load
                  · rw [if_pos hload]
                    refine ih.keep (by simp) fun i' load' h v hv _ => ?_
                    rw [hu] at hv
                    cases h
                    cases hv
                    exact hload
                  · rw [if_neg hload]
                    refine ih.take hu hhealthy fun i' load' h => ?_
                    cases h
                    omega

theorem acquire_fst (pool : Pool) : pool.acquire.1 = pool.choose := by
  unfold acquire
  split
  · rename_i hzero
    simp [choose, hzero]
  · cases pool.choose with
    | none => rfl
    | some chosen => rfl

/-- The cursor does not wrap in the middle of the loop, or wrapping does not matter. -/
def Whole (pool : Pool) : Prop :=
  pool.cursor.toNat + pool.upstreams.length ≤ 2 ^ 64 ∨ pool.upstreams.length ∣ 2 ^ 64

instance : Decidable pool.Whole := inferInstanceAs (Decidable (_ ∨ _))

theorem place_eq (pool : Pool) (offset : Nat) :
    pool.place offset = (pool.cursor.toNat + offset) % 2 ^ 64 % pool.upstreams.length := by
  rw [place, UInt64.toNat_add, UInt64.toNat_ofNat', Nat.add_mod_mod]

theorem exists_rotation {n c i : Nat} (hi : i < n) : ∃ o < n, (c + o) % n = i := by
  have hdecomp := Nat.div_add_mod c n
  have hmod := Nat.mod_lt c (Nat.zero_lt_of_lt hi)
  by_cases hle : c % n ≤ i
  · refine ⟨i - c % n, by omega, ?_⟩
    rw [show c + (i - c % n) = n * (c / n) + i by omega, Nat.mul_add_mod, Nat.mod_eq_of_lt hi]
  · refine ⟨i + n - c % n, by omega, ?_⟩
    rw [show c + (i + n - c % n) = n * (c / n) + (n + i) by omega, Nat.mul_add_mod, Nat.add_mod_left,
      Nat.mod_eq_of_lt hi]

/-- The loop comes past every instance. -/
theorem Whole.place (h : pool.Whole) {i : Nat} (hi : i < pool.upstreams.length) :
    ∃ o ∈ List.range pool.upstreams.length, pool.place o = i := by
  obtain ⟨o, ho, hplace⟩ := @exists_rotation _ pool.cursor.toNat _ hi
  refine ⟨o, List.mem_range.mpr ho, ?_⟩
  rw [place_eq]
  rcases h with hroom | hdvd
  · rw [Nat.mod_eq_of_lt (by omega : pool.cursor.toNat + o < 2 ^ 64), hplace]
  · rw [Nat.mod_mod_of_dvd _ hdvd, hplace]

/-- Nothing is leased just when no instance is healthy, else a healthy one with the fewest requests in flight. -/
structure Fair (pool : Pool) : Prop where
  none : pool.acquire.1 = none ↔ ∀ u ∈ pool.upstreams, u.healthy = false
  some : ∀ chosen, pool.acquire.1 = some chosen → ∃ u, pool.upstreams[chosen]? = some u ∧ u.healthy = true ∧
    ∀ v ∈ pool.upstreams, v.healthy = true → u.inFlight ≤ v.inFlight

theorem Whole.fair (h : pool.Whole) : pool.Fair := by
  have hbest := best_foldl pool (List.range pool.upstreams.length)
  have hchoose := acquire_fst pool
  rw [choose] at hchoose
  generalize (List.range pool.upstreams.length).foldl pool.consider Option.none = best at hbest hchoose
  have hplaces : ∀ u ∈ pool.upstreams, ∃ o ∈ List.range pool.upstreams.length,
      pool.upstreams[pool.place o]? = Option.some u := by
    intro u hu
    obtain ⟨i, hi⟩ := List.mem_iff_getElem?.mp hu
    obtain ⟨o, ho, hplace⟩ := h.place (List.getElem?_eq_some_iff.mp hi).1
    exact ⟨o, ho, by rw [hplace, hi]⟩
  constructor
  · rw [hchoose]
    cases best with
    | none =>
        refine ⟨fun _ u hu => ?_, fun _ => rfl⟩
        obtain ⟨o, ho, hplace⟩ := hplaces u hu
        exact hbest.none rfl o ho u hplace
    | some held =>
        obtain ⟨-, ⟨u, hu, hhealthy, -⟩, -⟩ := hbest.some held.1 held.2 rfl
        refine ⟨fun hnone => (by cases hnone), fun hall => ?_⟩
        rw [hall u (List.mem_of_getElem? hu)] at hhealthy
        cases hhealthy
  · intro chosen hchosen
    rw [hchoose] at hchosen
    obtain ⟨⟨i, load⟩, rfl, rfl⟩ := Option.map_eq_some_iff.mp hchosen
    obtain ⟨-, ⟨u, hu, hhealthy, rfl⟩, hleast⟩ := hbest.some i load rfl
    refine ⟨u, hu, hhealthy, fun v hv hv' => ?_⟩
    obtain ⟨o, ho, hplace⟩ := hplaces v hv
    exact hleast o ho v hplace hv'

/-- When the cursor wraps in the middle of the loop, the loop misses an instance. -/
theorem missed {n c : Nat} (hc : c < 2 ^ 64) (hn : 0 < n) (hwraps : 2 ^ 64 < c + n) (hndvd : ¬ n ∣ 2 ^ 64) :
    ∃ i < n, ∀ o < n, (c + o) % 2 ^ 64 % n ≠ i := by
  have hmod := Nat.mod_lt (2 ^ 64) hn
  have hdecomp := Nat.div_add_mod (2 ^ 64) n
  have hrest : 2 ^ 64 % n ≠ 0 := fun hzero => hndvd (Nat.dvd_of_mod_eq_zero hzero)
  generalize hq : 2 ^ 64 / n = q at hdecomp
  generalize hr : 2 ^ 64 % n = r at hmod hdecomp hrest
  generalize hsize : 2 ^ 64 = size at *
  refine ⟨max r (n - (size - c)), by omega, fun o ho => ?_⟩
  by_cases hbefore : c + o < size
  · rw [Nat.mod_eq_of_lt hbefore]
    have hback : c + o = size - (size - c - o) := by omega
    by_cases hsmall : size - c - o ≤ r
    · rw [hback, show size - (size - c - o) = n * q + (r - (size - c - o)) by omega, Nat.mul_add_mod,
        Nat.mod_eq_of_lt (by omega)]
      omega
    · cases q with
      | zero => omega
      | succ q =>
          rw [Nat.mul_succ] at hdecomp
          rw [hback, show size - (size - c - o) = n * q + (n + r - (size - c - o)) by omega, Nat.mul_add_mod,
            Nat.mod_eq_of_lt (by omega)]
          omega
  · have hsmall : (c + o) % size < n - (size - c) := by
      refine Nat.lt_of_le_of_lt (?_ : (c + o) % size ≤ c + o - size) (by omega)
      rw [Nat.mod_eq_sub_mod (by omega)]
      exact Nat.mod_le _ _
    rw [Nat.mod_eq_of_lt (Nat.lt_of_lt_of_le hsmall (Nat.sub_le _ _))]
    omega

/-- A cursor at which the choice is fair for every load. -/
theorem fair_iff (cursor : UInt64) (count : Nat) :
    (∀ upstreams : List Upstream, upstreams.length = count → Fair ⟨upstreams, cursor⟩) ↔
      cursor.toNat + count ≤ 2 ^ 64 ∨ count ∣ 2 ^ 64 := by
  constructor
  · intro hfair
    by_contra hwhole
    rw [not_or, Nat.not_le] at hwhole
    have hcursor := cursor.toNat_lt
    obtain ⟨i, hi, hmissed⟩ := missed hcursor (by omega) hwhole.1 hwhole.2
    let idle : Upstream := .new []
    let pool : Pool := ⟨(List.replicate count { idle with healthy := false }).set i idle, cursor⟩
    have hlen : pool.upstreams.length = count := by simp [pool]
    have hnone := (hfair pool.upstreams hlen).none
    have hbest := best_foldl pool (List.range pool.upstreams.length)
    have hidle : pool.upstreams[i]? = Option.some idle := by simp [pool, hi]
    have hchoose : pool.acquire.1 = Option.none := by
      rw [acquire_fst, choose]
      cases hfold : (List.range pool.upstreams.length).foldl pool.consider Option.none with
      | none => rfl
      | some held =>
          obtain ⟨⟨o, ho, hplace⟩, ⟨u, hu, hhealthy, -⟩, -⟩ := hbest.some held.1 held.2 hfold
          rw [List.mem_range, hlen] at ho
          have hne : i ≠ held.1 := by
            rw [← hplace, place_eq, hlen]
            exact (hmissed o ho).symm
          rw [show pool.upstreams[held.1]? = _ from List.getElem?_set_ne hne, List.getElem?_replicate] at hu
          split at hu
          · cases hu
            cases hhealthy
          · cases hu
    have hall := hnone.mp hchoose idle (List.mem_of_getElem? hidle)
    cases hall
  · intro hwhole upstreams hlen
    subst hlen
    exact Whole.fair hwhole

end Pool

/-! ## Leases -/

namespace Traffic

theorem getElem?_modify_eq_some {α : Type} {l : List α} {f : α → α} {i j : Nat} {a : α} :
    (l.modify i f)[j]? = some a ↔ ∃ b, l[j]? = some b ∧ (if i = j then f b else b) = a := by
  rw [List.getElem?_modify, Option.map_eq_map, Option.map_eq_some_iff]

theorem count_eraseIdx {l : List Nat} {k a : Nat} (h : l[k]? = some a) (i : Nat) :
    l.count i = (l.eraseIdx k).count i + if a = i then 1 else 0 := by
  induction l generalizing k with
  | nil => cases h
  | cons b l ih =>
      cases k with
      | zero =>
          cases h
          simp [List.count_cons]
      | succ k =>
          have := @ih k h
          simp only [List.eraseIdx_cons_succ, List.count_cons, this]
          omega

/-- Every request in flight is a lease that is alive. -/
structure Leased (traffic : Traffic) : Prop where
  counted : ∀ i u, traffic.pool.upstreams[i]? = some u → u.inFlight = traffic.leases.count i
  known : ∀ lease ∈ traffic.leases, lease < traffic.pool.upstreams.length

/-- The results of the probes of one instance. -/
def probesOf (i : Nat) (events : List Event) : List Bool :=
  events.filterMap fun
    | .probe upstream ok => if upstream = i then some ok else none
    | _ => none

/-- What the probes say of an instance, whatever is in flight. -/
def Standing (thresholds : Thresholds) (events : List Event) (traffic : Traffic) : Prop :=
  ∀ i u, traffic.pool.upstreams[i]? = some u →
    u.idle = probed thresholds u.address (probesOf i events)

variable {thresholds : Thresholds} {traffic : Traffic} {events : List Event}

theorem acquire_cases (pool : Pool) : (pool.acquire.1 = none ∧ pool.acquire.2.upstreams = pool.upstreams) ∨
    ∃ chosen u, pool.acquire.1 = some chosen ∧ pool.upstreams[chosen]? = some u ∧
      pool.acquire.2.upstreams = pool.upstreams.modify chosen fun u => { u with inFlight := u.inFlight + 1 } := by
  have hbest := Pool.best_foldl pool (List.range pool.upstreams.length)
  unfold Pool.acquire
  split
  · exact .inl ⟨rfl, rfl⟩
  · cases hchoose : pool.choose with
    | none => exact .inl ⟨rfl, rfl⟩
    | some chosen =>
        obtain ⟨⟨i, load⟩, hfold, rfl⟩ := Option.map_eq_some_iff.mp hchoose
        obtain ⟨-, ⟨u, hu, -⟩, -⟩ := hbest.some i load hfold
        exact .inr ⟨i, u, rfl, hu, rfl⟩

theorem Leased.acquire (h : Leased traffic) :
    Leased ⟨traffic.pool.acquire.2, traffic.pool.acquire.1.toList ++ traffic.leases⟩ := by
  rcases acquire_cases traffic.pool with ⟨hnone, hsame⟩ | ⟨chosen, held, hsome, hheld, hmodify⟩
  · rw [hnone]
    exact ⟨by simpa [hsame] using h.counted, by simpa [hsame] using h.known⟩
  · rw [hsome]
    constructor
    · intro i u hu
      simp only [hmodify, getElem?_modify_eq_some] at hu
      obtain ⟨before, hbefore, rfl⟩ := hu
      have hcount := h.counted i before hbefore
      simp only [Option.toList_some, List.singleton_append, List.count_cons]
      by_cases heq : chosen = i
      · simp [heq, hcount]
      · simp [heq, hcount]
    · intro lease hmem
      simp only [hmodify, List.length_modify]
      simp only [Option.toList_some, List.singleton_append, List.mem_cons] at hmem
      rcases hmem with rfl | hmem
      · exact (List.getElem?_eq_some_iff.mp hheld).1
      · exact h.known lease hmem

theorem Leased.drop (h : Leased traffic) {lease chosen : Nat} (hlease : traffic.leases[lease]? = some chosen) :
    Leased ⟨traffic.pool.release chosen, traffic.leases.eraseIdx lease⟩ := by
  constructor
  · intro i u hu
    simp only [Pool.release, getElem?_modify_eq_some] at hu
    obtain ⟨before, hbefore, rfl⟩ := hu
    have hcount := h.counted i before hbefore
    rw [count_eraseIdx hlease i] at hcount
    by_cases heq : chosen = i
    · simp only [heq, if_true] at hcount ⊢
      rw [if_neg (by omega)]
      omega
    · simp only [heq, if_false] at hcount ⊢
      exact hcount
  · intro other hmem
    simp only [Pool.release, List.length_modify]
    exact h.known other (List.mem_of_mem_eraseIdx hmem)

theorem probe_inFlight (upstream : Upstream) (ok : Bool) :
    (upstream.probe thresholds ok).2.inFlight = upstream.inFlight := by
  unfold Upstream.probe Upstream.recordSuccess Upstream.recordFailure
  split <;> dsimp only <;> split <;> rfl

theorem probe_address (upstream : Upstream) (ok : Bool) :
    (upstream.probe thresholds ok).2.address = upstream.address := by
  unfold Upstream.probe Upstream.recordSuccess Upstream.recordFailure
  split <;> dsimp only <;> split <;> rfl

/-- What is in flight does not matter to a probe. -/
theorem probe_idle (upstream : Upstream) (ok : Bool) :
    (upstream.probe thresholds ok).2.idle = (upstream.idle.probe thresholds ok).2 := by
  unfold Upstream.idle Upstream.probe Upstream.recordSuccess Upstream.recordFailure
  split <;> dsimp only <;> split <;> rfl

theorem step_acquire : step thresholds traffic .acquire =
    some ⟨traffic.pool.acquire.2, traffic.pool.acquire.1.toList ++ traffic.leases⟩ := rfl

theorem Leased.step (h : Leased traffic) {event : Event} {after : Traffic}
    (hstep : step thresholds traffic event = some after) : Leased after := by
  cases event with
  | acquire =>
      cases hstep
      exact h.acquire
  | drop lease =>
      simp only [Traffic.step] at hstep
      cases hlease : traffic.leases[lease]? with
      | none =>
          rw [hlease] at hstep
          cases hstep
      | some chosen =>
          rw [hlease] at hstep
          cases hstep
          exact h.drop hlease
  | probe upstream ok =>
      cases hstep
      refine ⟨fun i u hu => ?_, by simpa using h.known⟩
      simp only [getElem?_modify_eq_some] at hu
      obtain ⟨before, hbefore, rfl⟩ := hu
      have hcount := h.counted i before hbefore
      by_cases heq : upstream = i
      · simp only [heq, if_true, probe_inFlight, hcount]
      · simp only [heq, if_false, hcount]

theorem Standing.step (h : Standing thresholds events traffic) {event : Event} {after : Traffic}
    (hstep : step thresholds traffic event = some after) : Standing thresholds (events ++ [event]) after := by
  intro i u hu
  cases event with
  | acquire =>
      rw [step_acquire] at hstep
      obtain rfl := Option.some.inj hstep
      have hprobes : probesOf i (events ++ [.acquire]) = probesOf i events := by simp [probesOf]
      rw [hprobes]
      rcases acquire_cases traffic.pool with ⟨-, hsame⟩ | ⟨chosen, held, -, -, hmodify⟩
      · simp only [hsame] at hu
        exact h i u hu
      · simp only [hmodify, getElem?_modify_eq_some] at hu
        obtain ⟨before, hbefore, rfl⟩ := hu
        have hstanding := h i before hbefore
        by_cases heq : chosen = i
        · simpa [heq, Upstream.idle] using hstanding
        · simpa [heq] using hstanding
  | drop lease =>
      have hprobes : probesOf i (events ++ [.drop lease]) = probesOf i events := by simp [probesOf]
      rw [hprobes]
      simp only [Traffic.step] at hstep
      cases hlease : traffic.leases[lease]? with
      | none =>
          rw [hlease] at hstep
          cases hstep
      | some chosen =>
          rw [hlease] at hstep
          cases hstep
          simp only [Pool.release, getElem?_modify_eq_some] at hu
          obtain ⟨before, hbefore, rfl⟩ := hu
          have hstanding := h i before hbefore
          by_cases heq : chosen = i
          · simpa [heq, Upstream.idle] using hstanding
          · simpa [heq] using hstanding
  | probe upstream ok =>
      cases hstep
      simp only [getElem?_modify_eq_some] at hu
      obtain ⟨before, hbefore, rfl⟩ := hu
      have hstanding := h i before hbefore
      by_cases heq : upstream = i
      · have hprobes : probesOf i (events ++ [.probe upstream ok]) = probesOf i events ++ [ok] := by
          simp [probesOf, heq]
        rw [hprobes, probed_concat]
        simp only [heq, if_true, probe_idle, probe_address]
        rw [hstanding]
      · have hprobes : probesOf i (events ++ [.probe upstream ok]) = probesOf i events := by
          simp [probesOf, heq]
        rw [hprobes]
        simpa [heq] using hstanding

theorem of_run {addresses : List Str} (hrun : Run (step thresholds) (fun _ _ => True) (start addresses) events traffic) :
    Leased traffic ∧ Standing thresholds events traffic := by
  induction events using List.reverseRecOn generalizing traffic with
  | nil =>
      cases hrun
      constructor
      · constructor
        · intro i u hu
          simp only [start, Pool.new, List.getElem?_map, Option.map_eq_some_iff] at hu
          obtain ⟨address, -, rfl⟩ := hu
          rfl
        · intro lease hmem
          cases hmem
      · intro i u hu
        simp only [start, Pool.new, List.getElem?_map, Option.map_eq_some_iff] at hu
        obtain ⟨address, -, rfl⟩ := hu
        rfl
  | append_singleton events event ih =>
      obtain ⟨before, hbefore, hlast⟩ := hrun.split
      obtain ⟨hleased, hstanding⟩ := ih hbefore
      cases hlast with
      | cons _ hstep hnil =>
          cases hnil
          exact ⟨hleased.step hstep, hstanding.step hstep⟩

/-- An instance leaves and returns at the probe that completes the streak. After every run of requests, dropped leases
and probes the requests in flight are the leases that are alive, and the next lease goes to a healthy instance with the
fewest, as long as the cursor does not wrap in the middle of the loop; that is exactly when the loop comes past all. -/
theorem rotation_and_leases (thresholds : Thresholds) (hhealthy : 1 ≤ thresholds.healthyAfter)
    (hunhealthy : 1 ≤ thresholds.unhealthyAfter) :
    (∀ address history ok, Turns thresholds address history ok) ∧
    (∀ addresses events traffic, Run (step thresholds) (fun _ _ => True) (start addresses) events traffic →
      (∀ i u, traffic.pool.upstreams[i]? = some u → u.inFlight = traffic.leases.count i ∧
        u.idle = probed thresholds u.address (probesOf i events)) ∧
      (traffic.pool.Whole → traffic.pool.Fair)) ∧
    ∀ (cursor : UInt64) (count : Nat), (∀ upstreams : List Upstream, upstreams.length = count →
      Pool.Fair ⟨upstreams, cursor⟩) ↔ cursor.toNat + count ≤ 2 ^ 64 ∨ count ∣ 2 ^ 64 := by
  refine ⟨fun address history ok => ?_, fun addresses events traffic hrun => ?_, Pool.fair_iff⟩
  · exact ((counted hhealthy hunhealthy history).step hhealthy hunhealthy ok).2
  · obtain ⟨hleased, hstanding⟩ := of_run hrun
    exact ⟨fun i u hu => ⟨hleased.counted i u hu, hstanding i u hu⟩, Pool.Whole.fair⟩

theorem rotation_and_leases_two_three :
    (∀ address history ok, Turns ⟨2, 3⟩ address history ok) ∧
    (∀ addresses events traffic, Run (step ⟨2, 3⟩) (fun _ _ => True) (start addresses) events traffic →
      (∀ i u, traffic.pool.upstreams[i]? = some u → u.inFlight = traffic.leases.count i ∧
        u.idle = probed ⟨2, 3⟩ u.address (probesOf i events)) ∧
      (traffic.pool.Whole → traffic.pool.Fair)) ∧
    ∀ (cursor : UInt64) (count : Nat), (∀ upstreams : List Upstream, upstreams.length = count →
      Pool.Fair ⟨upstreams, cursor⟩) ↔ cursor.toNat + count ≤ 2 ^ 64 ∨ count ∣ 2 ^ 64 :=
  rotation_and_leases ⟨2, 3⟩ (by decide) (by decide)

/-- Requests that find nothing healthy only move the cursor. -/
theorem run_idle {upstreams : List Upstream} (hne : upstreams.length ≠ 0) (hidle : ∀ u ∈ upstreams, u.healthy = false)
    (cursor : UInt64) (n : Nat) : Run (step thresholds) (fun _ _ => True) ⟨⟨upstreams, cursor⟩, []⟩
      (List.replicate n .acquire) ⟨⟨upstreams, cursor + UInt64.ofNat n⟩, []⟩ := by
  induction n with
  | zero => simpa using Run.nil
  | succ n ih =>
      rw [List.replicate_succ']
      refine ih.append (.cons trivial ?_ .nil)
      have hbest := Pool.best_foldl ⟨upstreams, cursor + UInt64.ofNat n⟩ (List.range upstreams.length)
      have hchoose : Pool.choose ⟨upstreams, cursor + UInt64.ofNat n⟩ = none := by
        rw [Pool.choose]
        cases hfold : (List.range upstreams.length).foldl (Pool.consider ⟨upstreams, cursor + UInt64.ofNat n⟩) none with
        | none => rfl
        | some held =>
            obtain ⟨-, ⟨u, hu, hhealthy, -⟩, -⟩ := hbest.some held.1 held.2 hfold
            rw [hidle u (List.mem_of_getElem? hu)] at hhealthy
            cases hhealthy
      have hcursor : cursor + UInt64.ofNat n + 1 = cursor + UInt64.ofNat (n + 1) := by
        rw [UInt64.ofNat_add, UInt64.add_assoc]
        rfl
      simp only [step, Pool.acquire, hne, if_false, hchoose, hcursor]
      rfl

/-- An instance that one failed probe took out. -/
def fallen : Upstream := ((Upstream.new []).probe ⟨1, 1⟩ false).2

/-- Three instances fail; after as many requests as bring the cursor to its end the third recovers, and the next request
is turned away. -/
theorem wrapped_cursor_misses : ∃ events traffic,
    Run (step ⟨1, 1⟩) (fun _ _ => True) (start [[], [], []]) events traffic ∧
      traffic.pool.acquire.1 = none ∧ ∃ u ∈ traffic.pool.upstreams, u.healthy = true := by
  have hfall : Run (step ⟨1, 1⟩) (fun _ _ => True) (start [[], [], []]) [.probe 0 false, .probe 1 false, .probe 2 false]
      ⟨⟨[fallen, fallen, fallen], 0⟩, []⟩ :=
    .cons trivial rfl (.cons trivial rfl (.cons trivial rfl .nil))
  have hidle := @run_idle ⟨1, 1⟩ [fallen, fallen, fallen] (by decide) (by decide) 0 (2 ^ 64 - 1)
  refine ⟨_, _, hfall.append (hidle.append (.cons trivial rfl .nil : Run _ _ _ [.probe 2 true] _)), ?_, ?_⟩
  · decide
  · exact ⟨_, List.mem_of_getElem? (i := 2) rfl, by decide⟩

end Traffic

end Selfhost.Proxy
