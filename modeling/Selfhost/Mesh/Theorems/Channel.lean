import Selfhost.Mesh.Channel

/-!
# Channels are opened, agreed to and closed

What one operation does to a table, what holds of the tables of both ends after any operations, and when the number of
a channel that is gone comes back.
-/

namespace Selfhost.Mesh

open Selfhost.Lib

/-! ## Whose numbers are whose -/

namespace Role

/-- What the numbers of a side leave when they are halved. -/
def parity : Role → Nat
  | .dialler => 1
  | .accepter => 0

theorem owns_iff {role : Role} {id : ChannelId} : role.owns id = true ↔ id.toNat ≠ 0 ∧ id.toNat % 2 = role.parity := by
  have hzero : ChannelId.isControl id = true ↔ id.toNat = 0 := by
    rw [ChannelId.isControl, decide_eq_true_eq, ← UInt16.toNat_inj]
    rfl
  have hmod : ∀ n : UInt16, n.toNat < 2 → (id % 2 = n ↔ id.toNat % 2 = n.toNat) := by
    intro n hn
    rw [← UInt16.toNat_inj, UInt16.toNat_mod]
    rfl
  unfold owns
  split
  · rename_i hcontrol
    simp [hzero.mp hcontrol]
  · rename_i hcontrol
    have hne : id.toNat ≠ 0 := fun h => hcontrol (hzero.mpr h)
    cases role with
    | dialler => simpa [hne, parity] using hmod 1 (by decide)
    | accepter => simpa [hne, parity] using hmod 0 (by decide)

/-- No number belongs to both sides. -/
theorem owns_peer {role other : Role} {id : ChannelId} (h : role.owns id = true) (hother : other.owns id = true) :
    role = other := by
  have hparity := (owns_iff.mp h).2.symm.trans (owns_iff.mp hother).2
  cases role <;> cases other <;> first | rfl | cases hparity

end Role

/-! ## Entries by their numbers -/

namespace Channels

variable {channels : Channels} {id other : ChannelId} {entry : ChannelEntry} {slot : ChannelId × ChannelEntry}

def ids (channels : Channels) : List ChannelId := channels.map Prod.fst

theorem get_eq_none : channels.get id = none ↔ id ∉ channels.ids := by
  rw [get, Option.map_eq_none_iff, List.find?_eq_none, ids, List.mem_map]
  constructor
  · rintro h ⟨slot, hmem, rfl⟩
    exact h slot hmem (by simp)
  · intro h slot hmem heq
    exact h ⟨slot, hmem, by simpa using heq⟩

theorem get_cons : get (slot :: channels) id = if slot.1 = id then some slot.2 else channels.get id := by
  unfold get
  by_cases h : slot.1 = id
  · simp [h]
  · simp [h]

theorem mem_insert (h : slot ∈ insert id entry channels) : slot = (id, entry) ∨ slot ∈ channels := by
  induction channels with
  | nil => exact .inl (by simpa [insert] using h)
  | cons first rest ih =>
      unfold insert at h
      split at h
      · exact List.mem_cons.mp h
      · split at h
        · exact (List.mem_cons.mp h).imp_right (List.mem_cons_of_mem _)
        · rcases List.mem_cons.mp h with rfl | h
          · exact .inr List.mem_cons_self
          · exact (ih h).imp_right (List.mem_cons_of_mem _)

theorem mem_ids_insert : other ∈ (insert id entry channels).ids ↔ other = id ∨ other ∈ channels.ids := by
  induction channels with
  | nil => simp [insert, ids]
  | cons first rest ih =>
      simp only [ids, List.map_cons, List.mem_cons] at ih ⊢
      unfold insert
      split
      · simp
      · split
        · rename_i heq
          simp [heq]
        · simp only [List.map_cons, List.mem_cons, ih]
          exact or_left_comm

theorem length_insert_le : (insert id entry channels).length ≤ channels.length + 1 := by
  induction channels with
  | nil => simp [insert]
  | cons first rest ih =>
      unfold insert
      split
      · simp
      · split
        · simp
        · simpa using ih

theorem get_insert : (insert id entry channels).get other = if id = other then some entry else channels.get other := by
  induction channels with
  | nil => rw [insert, get_cons]
  | cons first rest ih =>
      unfold insert
      split
      · rw [get_cons]
      · split
        · rename_i heq
          rw [get_cons, get_cons, ← heq]
          split <;> simp_all
        · rename_i hne
          rw [get_cons, ih, get_cons]
          by_cases h : id = other
          · subst h
            simp [Ne.symm hne]
          · simp [h]

theorem mem_ids_remove : other ∈ (channels.remove id).ids ↔ other ∈ channels.ids ∧ other ≠ id := by
  simp only [ids, remove, List.mem_map, List.mem_filter, decide_eq_true_eq]
  constructor
  · rintro ⟨slot, ⟨hmem, hne⟩, rfl⟩
    exact ⟨⟨slot, hmem, rfl⟩, hne⟩
  · rintro ⟨⟨slot, hmem, rfl⟩, hne⟩
    exact ⟨slot, ⟨hmem, hne⟩, rfl⟩

theorem get_remove : (channels.remove id).get other = if id = other then none else channels.get other := by
  by_cases h : id = other
  · rw [if_pos h, get_eq_none, mem_ids_remove]
    exact fun hmem => hmem.2 h.symm
  · rw [if_neg h]
    unfold get remove
    rw [List.find?_filter]
    congr 1
    refine congrArg (List.find? · channels) (funext fun slot => ?_)
    by_cases hslot : slot.1 = other
    · simp [hslot, Ne.symm h]
    · simp [hslot]

theorem mem_setState {state : ChannelState} (h : slot ∈ channels.setState id state) :
    ∃ old ∈ channels, slot.1 = old.1 ∧ slot.2.id = old.2.id ∧ slot.2.openedBy = old.2.openedBy := by
  obtain ⟨old, hmem, rfl⟩ := List.mem_map.mp h
  refine ⟨old, hmem, ?_⟩
  split <;> exact ⟨rfl, rfl, rfl⟩

theorem ids_setState {state : ChannelState} : (channels.setState id state).ids = channels.ids := by
  unfold ids setState
  rw [List.map_map]
  refine List.map_congr_left fun slot _ => ?_
  dsimp only [Function.comp]
  split <;> rfl

theorem get_setState {state : ChannelState} : (channels.setState id state).get other =
    if id = other then (channels.get other).map (fun entry => { entry with state := state }) else channels.get other := by
  induction channels with
  | nil => split <;> rfl
  | cons first rest ih =>
      unfold setState at ih ⊢
      rw [List.map_cons, get_cons, ih, get_cons]
      by_cases hfirst : first.1 = id
      · subst hfirst
        by_cases h : first.1 = other
        · simp [h]
        · simp [h]
      · by_cases h : first.1 = other
        · subst h
          simp [hfirst, Ne.symm hfirst]
        · simp [hfirst, h]

end Channels

/-! ## One operation -/

namespace ChannelTable

variable {table table' : ChannelTable} {op : ChannelOp} {reply : ChannelReply} {error : ChannelError}

/-- What an operation that succeeds does. -/
inductive Done (table : ChannelTable) : ChannelOp → ChannelReply → ChannelTable → Prop where
  | openLocal {service : UInt8} : table.len < table.limit → table.allocator.next.toNat ≤ 65535 →
      Done table (.openLocal service) (.id table.allocator.next.toUInt16)
        { table with
          allocator := ⟨table.allocator.role, saturatingAdd32 table.allocator.next 2⟩
          channels := table.channels.insert table.allocator.next.toUInt16
            ⟨table.allocator.next.toUInt16, table.role, service, .opening⟩ }
  | acceptRemoteOpen {id : ChannelId} {service : UInt8} : table.role.peer.owns id = true → table.get id = none →
      table.len < table.limit →
      Done table (.acceptRemoteOpen id service) (.entry ⟨id, table.role.peer, service, .opened⟩)
        { table with channels := table.channels.insert id ⟨id, table.role.peer, service, .opened⟩ }
  | accepted {id : ChannelId} {entry : ChannelEntry} : table.get id = some entry → entry.state = .opening →
      Done table (.accepted id) .done { table with channels := table.channels.setState id .opened }
  | rejected {id : ChannelId} {entry : ChannelEntry} : table.get id = some entry → entry.state = .opening →
      Done table (.rejected id) .done { table with channels := table.channels.remove id }
  | close {id : ChannelId} {entry : ChannelEntry} : table.get id = some entry →
      Done table (.close id) .done { table with channels := table.channels.setState id .closing }
  | closed {id : ChannelId} {entry : ChannelEntry} : table.get id = some entry →
      Done table (.closed id) (.entry entry) { table with channels := table.channels.remove id }
  | drain : Done table .drain (.entries (table.channels.map Prod.snd)) { table with channels := [] }

/-- An operation succeeds as `Done` says, or it fails and the table is as before. -/
theorem apply_cases (table : ChannelTable) (op : ChannelOp) :
    (∃ error, table.apply op = (.error error, table)) ∨
      ∃ reply table', table.apply op = (.ok reply, table') ∧ Done table op reply table' := by
  cases op with
  | openLocal service =>
      simp only [apply, ChannelTable.openLocal, Allocator.allocate]
      split
      · exact .inl ⟨_, rfl⟩
      · rename_i hlimit
        split
        · rename_i error allocator heq
          split at heq
          · cases heq
            exact .inl ⟨_, rfl⟩
          · cases heq
        · rename_i id allocator heq
          split at heq
          · cases heq
          · rename_i hnext
            cases heq
            exact .inr ⟨_, _, rfl, .openLocal (by omega) (UInt32.le_iff_toNat_le.mp (UInt32.not_lt.mp hnext))⟩
  | acceptRemoteOpen id service =>
      simp only [apply, ChannelTable.acceptRemoteOpen]
      split
      · exact .inl ⟨_, rfl⟩
      · split
        · exact .inl ⟨_, rfl⟩
        · rename_i howns
          split
          · exact .inl ⟨_, rfl⟩
          · rename_i hfree
            split
            · exact .inl ⟨_, rfl⟩
            · rename_i hlimit
              exact .inr ⟨_, _, rfl, .acceptRemoteOpen (by simpa using howns) (by simpa using hfree) (by omega)⟩
  | accepted id =>
      simp only [apply, ChannelTable.accepted]
      split
      · exact .inl ⟨_, rfl⟩
      · rename_i entry hget
        split
        · exact .inl ⟨_, rfl⟩
        · split
          · exact .inl ⟨_, rfl⟩
          · rename_i hstate
            exact .inr ⟨_, _, rfl, .accepted hget (by simpa using hstate)⟩
  | rejected id =>
      simp only [apply, ChannelTable.rejected]
      split
      · exact .inl ⟨_, rfl⟩
      · rename_i entry hget
        split
        · exact .inl ⟨_, rfl⟩
        · split
          · exact .inl ⟨_, rfl⟩
          · rename_i hstate
            exact .inr ⟨_, _, rfl, .rejected hget (by simpa using hstate)⟩
  | close id =>
      simp only [apply, ChannelTable.close]
      split
      · exact .inl ⟨_, rfl⟩
      · rename_i entry hget
        exact .inr ⟨_, _, rfl, .close hget⟩
  | closed id =>
      simp only [apply, ChannelTable.closed]
      split
      · exact .inl ⟨_, rfl⟩
      · rename_i entry hget
        exact .inr ⟨_, _, rfl, .closed hget⟩
  | drain => exact .inr ⟨_, _, rfl, .drain⟩

/-! ## Numbers -/

/-- The numbers of the entries, and the number that comes next. -/
structure Inv (table : ChannelTable) : Prop where
  parity : table.allocator.next.toNat % 2 = table.role.parity
  positive : 0 < table.allocator.next.toNat
  bounded : table.len ≤ table.limit
  owned : ∀ slot ∈ table.channels, slot.2.id = slot.1 ∧ slot.2.openedBy.owns slot.1 = true

theorem Inv.withLimit (role : Role) (limit : Nat) : (withLimit role limit).Inv := by
  refine ⟨?_, ?_, Nat.zero_le _, fun slot hmem => (by cases hmem)⟩
  · cases role <;> simp [ChannelTable.withLimit, Allocator.new, Role.parity]
  · cases role <;> simp [ChannelTable.withLimit, Allocator.new]

theorem toNat_next (h : table.allocator.next.toNat ≤ 65535) :
    table.allocator.next.toUInt16.toNat = table.allocator.next.toNat := by
  rw [UInt32.toNat_toUInt16]
  omega

theorem Inv.owns_next (h : table.Inv) (hnext : table.allocator.next.toNat ≤ 65535) :
    table.role.owns table.allocator.next.toUInt16 = true := by
  rw [Role.owns_iff, toNat_next hnext]
  exact ⟨Nat.ne_of_gt h.positive, h.parity⟩

theorem toNat_advanced (h : table.allocator.next.toNat ≤ 65535) :
    (saturatingAdd32 table.allocator.next 2).toNat = table.allocator.next.toNat + 2 := by
  have htwo : (2 : UInt32).toNat = 2 := rfl
  rw [toNat_saturatingAdd32, htwo]
  omega

theorem Inv.done (h : table.Inv) (hdone : Done table op reply table') : table'.Inv := by
  cases hdone with
  | openLocal hlimit hnext =>
      refine ⟨?_, ?_, ?_, ?_⟩
      · dsimp only
        rw [toNat_advanced hnext, Nat.add_mod_right]
        exact h.parity
      · dsimp only
        rw [toNat_advanced hnext]
        omega
      · exact Nat.le_trans Channels.length_insert_le hlimit
      · intro slot hmem
        rcases Channels.mem_insert hmem with rfl | hmem
        · exact ⟨rfl, h.owns_next hnext⟩
        · exact h.owned slot hmem
  | acceptRemoteOpen howns hfree hlimit =>
      refine ⟨h.parity, h.positive, Nat.le_trans Channels.length_insert_le hlimit, ?_⟩
      intro slot hmem
      rcases Channels.mem_insert hmem with rfl | hmem
      · exact ⟨rfl, howns⟩
      · exact h.owned slot hmem
  | accepted | close =>
      refine ⟨h.parity, h.positive, ?_, ?_⟩
      · exact Nat.le_trans (Nat.le_of_eq (List.length_map _)) h.bounded
      · intro slot hmem
        obtain ⟨old, hold, hkey, hid, hby⟩ := Channels.mem_setState hmem
        rw [hkey, hid, hby]
        exact h.owned old hold
  | rejected | closed =>
      exact ⟨h.parity, h.positive, Nat.le_trans (List.length_filter_le _ _) h.bounded,
        fun slot hmem => h.owned slot (List.mem_filter.mp hmem).1⟩
  | drain => exact ⟨h.parity, h.positive, Nat.zero_le _, fun slot hmem => (by cases hmem)⟩

theorem done_role (hdone : Done table op reply table') : table'.role = table.role ∧ table'.limit = table.limit := by
  cases hdone <;> exact ⟨rfl, rfl⟩

end ChannelTable

/-! ## Both ends -/

/-- An operation on the table of one side, and what it reported. -/
structure Deed where
  side : Role
  op : ChannelOp
  result : Except ChannelError ChannelReply

/-- The channels an operation that succeeded was about. -/
def ChannelOp.isAbout (id : ChannelId) : ChannelOp → ChannelReply → Bool
  | .openLocal _, .id new => new = id
  | .openLocal _, _ => false
  | .acceptRemoteOpen other _, _ | .accepted other, _ | .rejected other, _ | .close other, _ | .closed other, _ =>
      other = id
  | .drain, _ => true

/-- What a side did with success to a channel. -/
def Deed.opOn (side : Role) (id : ChannelId) (deed : Deed) : Option ChannelOp :=
  match deed.result with
  | .ok reply => if deed.side = side ∧ deed.op.isAbout id reply = true then some deed.op else none
  | .error _ => none

/-- Where a channel is after an operation on it. -/
def ChannelOp.leads : ChannelOp → Option ChannelState
  | .openLocal _ => some .opening
  | .acceptRemoteOpen _ _ | .accepted _ => some .opened
  | .close _ => some .closing
  | .rejected _ | .closed _ | .drain => none

theorem opOn_some {side : Role} {id : ChannelId} {deed : Deed} {op : ChannelOp} (h : deed.opOn side id = some op) :
    ∃ reply, op.isAbout id reply = true := by
  unfold Deed.opOn at h
  split at h
  · rename_i reply _
    split at h
    · rename_i habout
      cases h
      exact ⟨reply, habout.2⟩
    · cases h
  · cases h

/-- An operation that succeeds takes the channels it is about to where it leads, and no other channel anywhere. -/
theorem ChannelTable.state_done {table table' : ChannelTable} {op : ChannelOp} {reply : ChannelReply}
    (hdone : Done table op reply table') (id : ChannelId) :
    (table'.get id).map ChannelEntry.state =
      if op.isAbout id reply = true then op.leads else (table.get id).map ChannelEntry.state := by
  cases hdone with
  | openLocal | acceptRemoteOpen =>
      simp only [ChannelTable.get, Channels.get_insert, ChannelOp.isAbout, ChannelOp.leads, decide_eq_true_eq]
      split <;> rfl
  | accepted hget | close hget =>
      simp only [ChannelTable.get, Channels.get_setState, ChannelOp.isAbout, ChannelOp.leads, decide_eq_true_eq]
      split
      · rename_i heq
        subst heq
        rw [ChannelTable.get] at hget
        rw [hget]
        rfl
      · rfl
  | rejected | closed =>
      simp only [ChannelTable.get, Channels.get_remove, ChannelOp.isAbout, ChannelOp.leads, decide_eq_true_eq]
      split <;> rfl
  | drain => rfl

/-- The tables of both sides of a link, and what was done to them. -/
structure Ends where
  table : Role → ChannelTable
  log : List Deed

namespace Ends

def new (limit : Role → Nat) : Ends := ⟨fun side => .withLimit side (limit side), []⟩

/-- One operation on the table of one side. -/
def act (ends : Ends) (side : Role) (op : ChannelOp) : Ends where
  table := Function.update ends.table side ((ends.table side).apply op).2
  log := ends.log ++ [⟨side, op, ((ends.table side).apply op).1⟩]

def run (limit : Role → Nat) (events : List (Role × ChannelOp)) : Ends :=
  events.foldl (fun ends event => ends.act event.1 event.2) (new limit)

/-- A side has opened a channel under this number. -/
def Allocated (ends : Ends) (side : Role) (id : ChannelId) : Prop :=
  ∃ service, ⟨side, .openLocal service, .ok (.id id)⟩ ∈ ends.log

/-- The last thing a side did to a channel was to learn of, or to give, the agreement to its opening. -/
def Agreed (ends : Ends) (side : Role) (id : ChannelId) : Prop :=
  latest (Deed.opOn side id) ends.log = some (.accepted id) ∨
    ∃ service, latest (Deed.opOn side id) ends.log = some (.acceptRemoteOpen id service)

structure Safe (limit : Role → Nat) (ends : Ends) : Prop where
  noControl : ∀ side, ∀ slot ∈ (ends.table side).channels, slot.1 ≠ 0
  parity : ∀ side, ∀ slot ∈ (ends.table side).channels,
    slot.2.id = slot.1 ∧ (slot.2.openedBy = .dialler ↔ slot.1.toNat % 2 = 1)
  limited : ∀ side, (ends.table side).len ≤ limit side
  agreed : ∀ side id, (ends.table side).mayCarryData id = true → ends.Agreed side id
  apart : ∀ id, ¬ (ends.Allocated .dialler id ∧ ends.Allocated .accepter id)
  unchanged : ∀ side op error, ((ends.table side).apply op).1 = .error error →
    ((ends.table side).apply op).2 = ends.table side

/-- What is kept on the way. -/
structure Inv (limit : Role → Nat) (ends : Ends) : Prop where
  tables : ∀ side, (ends.table side).Inv
  sides : ∀ side, (ends.table side).role = side ∧ (ends.table side).limit = limit side
  tracked : ∀ side id, ((ends.table side).get id).map ChannelEntry.state =
    (latest (Deed.opOn side id) ends.log).bind ChannelOp.leads
  owned : ∀ side id, ends.Allocated side id → side.owns id = true

variable {limit : Role → Nat} {ends : Ends} {side : Role} {op : ChannelOp}

theorem Inv.new (limit : Role → Nat) : (new limit).Inv limit := by
  refine ⟨fun side => .withLimit side (limit side), fun side => ⟨rfl, rfl⟩, fun side id => rfl, ?_⟩
  rintro side id ⟨service, hmem⟩
  cases hmem

theorem Inv.act (h : ends.Inv limit) (side : Role) (op : ChannelOp) : (ends.act side op).Inv limit := by
  have hstep := (ends.table side).apply_cases op
  unfold Ends.act
  generalize (ends.table side).apply op = outcome at hstep ⊢
  rcases hstep with ⟨error, rfl⟩ | ⟨reply, table', rfl, hdone⟩
  · dsimp only
    rw [Function.update_eq_self]
    refine ⟨h.tables, h.sides, ?_, ?_⟩
    · intro other id
      rw [latest_concat]
      exact h.tracked other id
    · rintro other id ⟨service, hmem⟩
      rcases List.mem_append.mp hmem with hmem | hmem
      · exact h.owned other id ⟨service, hmem⟩
      · cases List.mem_singleton.mp hmem
  · obtain ⟨hrole, hlimit⟩ := ChannelTable.done_role hdone
    refine ⟨?_, ?_, ?_, ?_⟩
    · exact (Function.forall_update_iff ends.table fun _ table => table.Inv).mpr
        ⟨(h.tables side).done hdone, fun other _ => h.tables other⟩
    · exact (Function.forall_update_iff ends.table fun other table => table.role = other ∧ table.limit = limit other).mpr
        ⟨by rw [hrole, hlimit]; exact h.sides side, fun other _ => h.sides other⟩
    · intro other id
      dsimp only
      rw [latest_concat, Deed.opOn]
      by_cases heq : other = side
      · subst heq
        rw [Function.update_self, ChannelTable.state_done hdone]
        by_cases habout : op.isAbout id reply = true
        · simp [habout]
        · simpa [habout] using h.tracked other id
      · rw [Function.update_of_ne heq]
        simpa [Ne.symm heq] using h.tracked other id
    · rintro other id ⟨service, hmem⟩
      rcases List.mem_append.mp hmem with hmem | hmem
      · exact h.owned other id ⟨service, hmem⟩
      · cases List.mem_singleton.mp hmem
        cases hdone with
        | openLocal hlimit hnext =>
            have howns := (h.tables side).owns_next hnext
            rw [(h.sides side).1] at howns
            exact howns

theorem Inv.run (limit : Role → Nat) (events : List (Role × ChannelOp)) : (run limit events).Inv limit := by
  unfold Ends.run
  induction events using List.reverseRecOn with
  | nil => exact Inv.new limit
  | append_singleton events event ih =>
      rw [List.foldl_append]
      exact ih.act event.1 event.2

/-- A channel that carries data was agreed to. -/
theorem Inv.agreed (h : ends.Inv limit) {side : Role} {id : ChannelId} (hdata : (ends.table side).mayCarryData id = true) :
    ends.Agreed side id := by
  have htracked := h.tracked side id
  unfold ChannelTable.mayCarryData at hdata
  split at hdata
  · rename_i entry hget
    rw [hget, Option.map_some, of_decide_eq_true hdata] at htracked
    obtain ⟨op, hop, hleads⟩ := Option.bind_eq_some_iff.mp htracked.symm
    obtain ⟨deed, -, hon⟩ := mem_of_latest hop
    obtain ⟨reply, habout⟩ := opOn_some hon
    cases op with
    | accepted other =>
        cases of_decide_eq_true habout
        exact .inl hop
    | acceptRemoteOpen other service =>
        cases of_decide_eq_true habout
        exact .inr ⟨service, hop⟩
    | openLocal | close | rejected | closed | drain => cases hleads
  · cases hdata

end Ends

/-- Whatever is done to the tables of both sides of a link, by their own side or by the peer: no table holds the
control channel, the number of each entry is of the half of the side that opened it, no table holds more than its limit,
a channel carries data only when the last thing done to it was the agreement to its opening, no number is allocated by
both sides, and an operation that fails leaves its table unchanged. -/
theorem channel_tables_are_safe (limit : Role → Nat) (events : List (Role × ChannelOp)) :
    (Ends.run limit events).Safe limit := by
  have h := Ends.Inv.run limit events
  refine ⟨?_, ?_, ?_, fun side id hdata => h.agreed hdata, ?_, ?_⟩
  · rintro side slot hmem hzero
    have howned := ((h.tables side).owned slot hmem).2
    rw [hzero] at howned
    exact (Role.owns_iff.mp howned).1 rfl
  · intro side slot hmem
    obtain ⟨hid, howned⟩ := (h.tables side).owned slot hmem
    refine ⟨hid, ?_⟩
    rw [(Role.owns_iff.mp howned).2]
    cases slot.2.openedBy <;> simp [Role.parity]
  · intro side
    rw [← (h.sides side).2]
    exact (h.tables side).bounded
  · rintro id ⟨hdialler, haccepter⟩
    cases Role.owns_peer (h.owned _ id hdialler) (h.owned _ id haccepter)
  · intro side op error herror
    rcases ((Ends.run limit events).table side).apply_cases op with ⟨_, heq⟩ | ⟨_, _, heq, -⟩
    · rw [heq]
    · rw [heq] at herror
      cases herror

/-! ## Numbers that come back -/

/-- A table beside the numbers of the channels that have left it. -/
structure Past where
  table : ChannelTable
  left : List ChannelId
  deriving DecidableEq

namespace Past

def new (role : Role) (limit : Nat) : Past := ⟨.withLimit role limit, []⟩

def step (past : Past) (op : ChannelOp) : Option Past :=
  let table := (past.table.apply op).2
  some ⟨table, past.left ++ past.table.channels.ids.filter fun id => id ∉ table.channels.ids⟩

/-- No channel that has left is in the table. -/
def NotReused (past : Past) : Prop := ∀ id ∈ past.left, id ∉ past.table.channels.ids

/-- The peer does not open a number that has left, where the table would take it. -/
def Fresh (past : Past) : ChannelOp → Prop
  | .acceptRemoteOpen id _ => id ∉ past.left ∨ past.table.role.peer.owns id = false ∨ past.table.len ≥ past.table.limit
  | _ => True

instance (past : Past) (op : ChannelOp) : Decidable (past.Fresh op) :=
  match op with
  | .acceptRemoteOpen _ _ => inferInstanceAs (Decidable (_ ∨ _ ∨ _))
  | .openLocal _ | .accepted _ | .rejected _ | .close _ | .closed _ | .drain => .isTrue trivial

structure Inv (past : Past) : Prop where
  table : past.table.Inv
  kept : past.NotReused
  -- The numbers of this side that were ever used lie below the next one.
  used : ∀ id, id ∈ past.left ∨ id ∈ past.table.channels.ids → past.table.role.owns id = true →
    id.toNat < past.table.allocator.next.toNat

variable {past past' : Past} {op : ChannelOp}

theorem Inv.new (role : Role) (limit : Nat) : (new role limit).Inv := by
  refine ⟨.withLimit role limit, fun id hmem => (by cases hmem), ?_⟩
  rintro id (hmem | hmem) <;> cases hmem

theorem Inv.replace (h : past.Inv) {table : ChannelTable} (htable : table.Inv)
    (hnew : ∀ id ∈ table.channels.ids, id ∈ past.table.channels.ids ∨ id ∉ past.left)
    (hused : ∀ id, id ∈ past.left ∨ id ∈ past.table.channels.ids ∨ id ∈ table.channels.ids →
      table.role.owns id = true → id.toNat < table.allocator.next.toNat) :
    Inv ⟨table, past.left ++ past.table.channels.ids.filter fun id => id ∉ table.channels.ids⟩ := by
  refine ⟨htable, ?_, ?_⟩
  · intro id hleft hmem
    rcases List.mem_append.mp hleft with hleft | hleft
    · rcases hnew id hmem with hold | hfresh
      · exact h.kept id hleft hold
      · exact hfresh hleft
    · exact of_decide_eq_true (List.mem_filter.mp hleft).2 hmem
  · rintro id (hleft | hmem)
    · rcases List.mem_append.mp hleft with hleft | hleft
      · exact hused id (.inl hleft)
      · exact hused id (.inr (.inl (List.mem_filter.mp hleft).1))
    · exact hused id (.inr (.inr hmem))

/-- An operation that brings no number into the table. -/
theorem Inv.shrink (h : past.Inv) {channels : Channels} (htable : { past.table with channels := channels }.Inv)
    (hsub : ∀ id ∈ channels.ids, id ∈ past.table.channels.ids) :
    Inv ⟨{ past.table with channels := channels },
      past.left ++ past.table.channels.ids.filter fun id => id ∉ channels.ids⟩ := by
  refine h.replace htable (fun id hmem => .inl (hsub id hmem)) ?_
  rintro id (hleft | hmem | hmem)
  · exact h.used id (.inl hleft)
  · exact h.used id (.inr hmem)
  · exact h.used id (.inr (hsub id hmem))

theorem Inv.step (h : past.Inv) (hfresh : past.Fresh op) (hstep : past.step op = some past') : past'.Inv := by
  have hcases := past.table.apply_cases op
  cases hstep
  generalize past.table.apply op = outcome at hcases ⊢
  rcases hcases with ⟨error, rfl⟩ | ⟨reply, table', rfl, hdone⟩
  · exact h.shrink h.table fun id hmem => hmem
  · have htable := h.table.done hdone
    cases hdone with
    | openLocal hlimit hnext =>
        -- The number is the next one, and all that were used lie below it.
        have howns := h.table.owns_next hnext
        refine h.replace htable ?_ ?_
        · intro id hmem
          rcases Channels.mem_ids_insert.mp hmem with rfl | hmem
          · refine .inr fun hleft => ?_
            have hlt := h.used _ (.inl hleft) howns
            rw [ChannelTable.toNat_next hnext] at hlt
            exact Nat.lt_irrefl _ hlt
          · exact .inl hmem
        · intro id hmem howned
          dsimp only at howned ⊢
          rw [ChannelTable.toNat_advanced hnext]
          have hused : ∀ id, id ∈ past.left ∨ id ∈ past.table.channels.ids → past.table.role.owns id = true →
              id.toNat < past.table.allocator.next.toNat + 2 := fun id hmem howned =>
            Nat.lt_of_lt_of_le (h.used id hmem howned) (Nat.le_add_right _ 2)
          rcases hmem with hmem | hmem | hmem
          · exact hused id (.inl hmem) howned
          · exact hused id (.inr hmem) howned
          · rcases Channels.mem_ids_insert.mp hmem with rfl | hmem
            · rw [ChannelTable.toNat_next hnext]
              omega
            · exact hused id (.inr hmem) howned
    | @acceptRemoteOpen id service howns hfree hlimit =>
        refine h.replace htable ?_ ?_
        · intro other hmem
          rcases Channels.mem_ids_insert.mp hmem with rfl | hmem
          · rcases hfresh with hfresh | hparity | hfull
            · exact .inr hfresh
            · rw [howns] at hparity
              cases hparity
            · exact absurd hfull (Nat.not_le.mpr hlimit)
          · exact .inl hmem
        · rintro other (hleft | hmem | hmem) howned
          · exact h.used other (.inl hleft) howned
          · exact h.used other (.inr hmem) howned
          · rcases Channels.mem_ids_insert.mp hmem with rfl | hmem
            · have hsame := Role.owns_peer howns howned
              dsimp only at hsame
              cases hrole : past.table.role <;> rw [hrole] at hsame <;> cases hsame
            · exact h.used other (.inr hmem) howned
    | accepted | close =>
        refine h.shrink htable fun id hmem => ?_
        rw [Channels.ids_setState] at hmem
        exact hmem
    | rejected | closed => exact h.shrink htable fun id hmem => (Channels.mem_ids_remove.mp hmem).1
    | drain => exact h.shrink htable fun id hmem => (by cases hmem)

/-- A number that has left and that the peer opens anew comes back. -/
theorem reused_of_not_fresh (h : past.Inv) (hfresh : ¬ past.Fresh op) (hstep : past.step op = some past') :
    ¬ past'.NotReused := by
  intro hkept
  cases op with
  | acceptRemoteOpen id service =>
      simp only [Fresh, not_or, Classical.not_not, Bool.not_eq_false, Nat.not_le] at hfresh
      obtain ⟨hleft, howns, hlimit⟩ := hfresh
      have hfree : past.table.get id = none := Channels.get_eq_none.mpr (h.kept id hleft)
      have hcontrol : ChannelId.isControl id = false := by
        unfold Role.owns at howns
        split at howns
        · cases howns
        · rename_i hcontrol
          simpa using hcontrol
      cases hstep
      refine hkept id (List.mem_append_left _ hleft) ?_
      simp [ChannelTable.apply, ChannelTable.reported, ChannelTable.acceptRemoteOpen, hcontrol, howns, hfree,
        Nat.not_le.mpr hlimit, Channels.mem_ids_insert]
  | openLocal | accepted | rejected | close | closed | drain => exact hfresh trivial

end Past

/-- In every run in which the peer never opens a number that has left the table (where its half of the numbers and
the limit would let it in), no number that has left comes back; and the first such opening brings one back. -/
theorem channel_ids_are_not_reused (role : Role) (limit : Nat) :
    (∀ ops past, Run Past.step Past.Fresh (.new role limit) ops past → past.NotReused) ∧
      ∀ ops past past' op, Run Past.step Past.Fresh (.new role limit) ops past → past.step op = some past' →
        ¬ past.Fresh op → ¬ past'.NotReused := by
  have hinv : ∀ ops past, Run Past.step Past.Fresh (.new role limit) ops past → past.Inv := by
    intro ops past hrun
    exact hrun.invariant (fun _ _ _ h hfresh hstep => Past.Inv.step h hfresh hstep) (Past.Inv.new role limit)
  refine ⟨fun ops past hrun => (hinv ops past hrun).kept, ?_⟩
  intro ops past past' op hrun hstep hfresh
  exact Past.reused_of_not_fresh (hinv ops past hrun) hfresh hstep

theorem channel_ids_are_not_reused_once :
    ∃ past, Run Past.step Past.Fresh (.new .dialler defaultMaxChannels) [.openLocal 0, .rejected 1, .openLocal 0] past ∧
      past.left = [1] ∧ past.NotReused := by
  have hrun : Run Past.step Past.Fresh (.new .dialler defaultMaxChannels) [.openLocal 0, .rejected 1, .openLocal 0]
      ⟨⟨.dialler, ⟨.dialler, 5⟩, 64, [(3, ⟨3, .dialler, 0, .opening⟩)]⟩, [1]⟩ := Run.of_exec (by decide +kernel)
  exact ⟨_, hrun, rfl, (channel_ids_are_not_reused .dialler defaultMaxChannels).1 _ _ hrun⟩

/-- The peer opens channel 2, closes it and opens it again. -/
def reopened : List ChannelOp := [.acceptRemoteOpen 2 0, .closed 2, .acceptRemoteOpen 2 0]

theorem reopened_comes_back :
    ∃ past, Run Past.step (fun _ _ => True) (.new .dialler defaultMaxChannels) reopened past ∧ 2 ∈ past.left ∧
      past.table.mayCarryData 2 = true ∧ ¬ past.NotReused := by
  have hrun : Run Past.step (fun _ _ => True) (.new .dialler defaultMaxChannels) reopened
      ⟨⟨.dialler, ⟨.dialler, 1⟩, 64, [(2, ⟨2, .accepter, 0, .opened⟩)]⟩, [2]⟩ := Run.of_exec (by decide +kernel)
  refine ⟨_, hrun, by decide, by decide, fun hkept => ?_⟩
  exact hkept 2 (by decide) (by decide)

end Selfhost.Mesh
