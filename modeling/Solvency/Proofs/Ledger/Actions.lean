import Solvency.Proofs.Ledger.Sending

/-! What each action does to a ledger and to its subscriptions. All that one action sends is the
same news, to whoever is subscribed to it. -/

namespace Solvency

namespace Ledger

/-- Whatever may happen to a ledger and to its subscriptions. -/
inductive Action where
  | setAccount (address : Address) (entity : Entity)
  | setRaw (address : Address) (tag : UInt8) (data : Bytes)
  | removeAccount (address : Address)
  | advanceSlot
  | disconnect
  | setReachable (reachable : Bool)
  | subscribe (address : Address)
  | subscribeSlots
  | getAccount (address : Address)
  | dropFeed (id : Nat)
  | hearAccount (id : Nat)
  | hearSlot (id : Nat)

/-- A request that is refused changes nothing, and neither does asking for an account. -/
def act (l : Ledger) : Action → Ledger
  | .setAccount address entity => l.setAccount address entity
  | .setRaw address tag data => l.setRaw address tag data
  | .removeAccount address => l.removeAccount address
  | .advanceSlot => l.advanceSlot
  | .disconnect => l.disconnect
  | .setReachable reachable => l.setReachable reachable
  | .subscribe address => (l.subscribe address).toOption.elim l (·.2)
  | .subscribeSlots => l.subscribeSlots.toOption.elim l (·.2)
  | .getAccount _ => l
  | .dropFeed id => l.dropFeed id
  | .hearAccount id => (l.nextAccount? id).elim l (·.2)
  | .hearSlot id => (l.nextSlot? id).elim l (·.2)

namespace Action

/-- The record that an action writes at a slot. -/
def written? (slot : Slot) : Action → Option RawAccount
  | .setAccount address entity => some (.ofEntity address slot entity)
  | .setRaw address tag data => some ⟨address, slot, tag, data⟩
  | _ => none

/-- All that an action may send to account subscriptions. -/
def accountNews? (slot : Slot) : Action → Option (Delivery RawAccount)
  | .disconnect => some (.failure (.disconnected .dropped))
  | action => (action.written? slot).map .item

/-- All that an action may send to slot subscriptions. -/
def slotNews? (slot : Slot) : Action → Option (Delivery Slot)
  | .disconnect => some (.failure (.disconnected .dropped))
  | .advanceSlot => some (.item slot)
  | _ => none

/-- When an action sends: records in the first of the two moments of a slot, its heartbeat in the
second. -/
def moment (slot : Slot) : Action → Nat
  | .advanceSlot => 2 * slot + 1
  | _ => 2 * slot

def Touches (address : Address) : Action → Prop
  | .setAccount other _ => other = address
  | .setRaw other _ _ => other = address
  | .removeAccount other => other = address
  | _ => False

/-- Subscriptions end as the ledger drops them all or as their reader lets go of them. -/
def Ends (id : Nat) : Action → Prop
  | .disconnect => True
  | .dropFeed other => other = id
  | _ => False

end Action

def heardAccounts (l : Ledger) : Action → Log (Delivery RawAccount)
  | .hearAccount id => ((l.nextAccount? id).map fun heard => (id, heard.1)).toList
  | _ => []

def heardSlots (l : Ledger) : Action → Log (Delivery Slot)
  | .hearSlot id => ((l.nextSlot? id).map fun heard => (id, heard.1)).toList
  | _ => []

inductive Sending where
  | account (id : Nat) (d : Delivery RawAccount)
  | slot (id : Nat) (d : Delivery Slot)

def sends (l : Ledger) (action : Action) : List Sending :=
  (Feeds.additions (·.2.queue) l.accountFeeds (l.act action).accountFeeds).map
      (fun e => .account e.1 e.2) ++
    (Feeds.additions (·.queue) l.slotFeeds (l.act action).slotFeeds).map fun e => .slot e.1 e.2

/-- The moment in which something is sent, as its slot tells it. -/
def Sending.moment? : Sending → Option Nat
  | .account _ (.item w) => some (2 * w.slot)
  | .slot _ (.item beat) => some (2 * beat + 1)
  | _ => none

def accountLog (sent : List Sending) : Log (Delivery RawAccount) :=
  sent.filterMap fun
    | .account id d => some (id, d)
    | .slot _ _ => none

def slotLog (sent : List Sending) : Log (Delivery Slot) :=
  sent.filterMap fun
    | .account _ _ => none
    | .slot id d => some (id, d)

variable {l l' : Ledger} {action : Action} {id : Nat} {address : Address} {w : RawAccount}

theorem act_of_written (h : action.written? l.slot = some w) : l.act action = l.publish w := by
  cases action <;> cases h <;> rfl

theorem written?_of_news (h : .item w ∈ action.accountNews? l.slot) :
    action.written? l.slot = some w := by
  cases action <;> cases h <;> rfl

theorem moment_of_written (h : action.written? l.slot = some w) :
    action.moment l.slot = 2 * w.slot := by
  cases action <;> cases h <;> rfl

theorem moment_of_beat {beat : Slot} (h : .item beat ∈ action.slotNews? l.slot) :
    beat = l.slot ∧ action.moment l.slot = 2 * beat + 1 := by
  cases action <;> cases h
  exact ⟨rfl, rfl⟩

theorem lt_of_moment_le {beat slot : Nat} (h : 2 * beat + 1 ≤ 2 * slot) : beat < slot := by
  omega

theorem le_of_moment_le {beat slot : Nat} (h : 2 * slot ≤ 2 * beat + 1) : slot ≤ beat := by
  omega

theorem nextSlot?_eq_some_iff {d : Delivery Slot} :
    l.nextSlot? id = some (d, l') ↔ ∃ inbox queue,
      l.slotFeeds.find? id = some inbox ∧ inbox.queue = d :: queue ∧
        l' = { l with slotFeeds := l.slotFeeds.insert id { inbox with queue } } := by
  simp only [nextSlot?, Option.bind_eq_bind, Option.bind_eq_some_iff]
  refine exists_congr fun inbox => ?_
  cases hqueue : inbox.queue <;> simp [eq_comm]

theorem act_subscribe (l : Ledger) (address : Address) :
    l.act (.subscribe address) = if l.reachable then { l with
        accountFeeds := l.accountFeeds.insert l.nextFeed (address, {}), nextFeed := l.nextFeed + 1 }
      else l := by
  rw [act, subscribe_eq]
  split <;> rfl

theorem act_subscribeSlots (l : Ledger) :
    l.act .subscribeSlots = if l.reachable ∧ l.heartbeats then { l with
        slotFeeds := l.slotFeeds.insert l.nextFeed {}, nextFeed := l.nextFeed + 1 }
      else l := by
  rw [act, subscribeSlots, ensureReachable]
  cases l.reachable <;> cases l.heartbeats <;> rfl

/-- Nothing happens where there is nothing to hear. -/
theorem act_hearAccount (l : Ledger) (id : Nat) :
    (l.act (.hearAccount id) = l ∧ l.heardAccounts (.hearAccount id) = []) ∨
      ∃ address inbox d queue, l.accountFeeds.find? id = some (address, inbox) ∧
        inbox.queue = d :: queue ∧ l.heardAccounts (.hearAccount id) = [(id, d)] ∧
        l.act (.hearAccount id) = { l with
          accountFeeds := l.accountFeeds.insert id (address, { inbox with queue }) } := by
  rw [act, heardAccounts]
  cases hnext : l.nextAccount? id with
  | none => exact .inl ⟨rfl, rfl⟩
  | some next =>
    obtain ⟨d, l'⟩ := next
    obtain ⟨address, inbox, queue, hfeed, hqueue, rfl⟩ := nextAccount?_eq_some_iff.mp hnext
    exact .inr ⟨address, inbox, d, queue, hfeed, hqueue, rfl, rfl⟩

theorem act_hearSlot (l : Ledger) (id : Nat) :
    (l.act (.hearSlot id) = l ∧ l.heardSlots (.hearSlot id) = []) ∨
      ∃ inbox d queue, l.slotFeeds.find? id = some inbox ∧ inbox.queue = d :: queue ∧
        l.heardSlots (.hearSlot id) = [(id, d)] ∧
        l.act (.hearSlot id) = { l with
          slotFeeds := l.slotFeeds.insert id { inbox with queue } } := by
  rw [act, heardSlots]
  cases hnext : l.nextSlot? id with
  | none => exact .inl ⟨rfl, rfl⟩
  | some next =>
    obtain ⟨d, l'⟩ := next
    obtain ⟨inbox, queue, hfeed, hqueue, rfl⟩ := nextSlot?_eq_some_iff.mp hnext
    exact .inr ⟨inbox, d, queue, hfeed, hqueue, rfl, rfl⟩

theorem queue_send {α : Type} (inbox : Inbox α) (a : α) :
    (inbox.send a).queue = inbox.queue ∨ (inbox.send a).queue = inbox.queue ++ [.item a] := by
  rw [Inbox.send]
  split
  · exact .inr rfl
  · exact .inl rfl

theorem queue_cut {α : Type} (inbox : Inbox α) :
    inbox.cut.queue = inbox.queue ∨
      inbox.cut.queue = inbox.queue ++ [.failure (.disconnected .dropped)] := by
  rw [Inbox.cut]
  split
  · exact .inr rfl
  · exact .inl rfl

theorem accountStep_publish (h : action.written? l.slot = some w) :
    Feeds.Step (·.2.queue) (action.accountNews? l.slot) l.nextFeed l.accountFeeds
      l.nextFeed (l.publish w).accountFeeds [] := by
  have hnews : action.accountNews? l.slot = some (.item w) := by
    cases action <;> cases h <;> rfl
  let f : Address × Inbox RawAccount → Address × Inbox RawAccount := fun feed =>
    (feed.1, if feed.1 = w.address then feed.2.send w else feed.2)
  refine Feeds.Step.map (f := f) fun feed => ?_
  rw [hnews]
  by_cases ha : feed.1 = w.address
  · simpa [f, ha] using queue_send feed.2 w
  · simp [f, ha]

theorem accountStep (l : Ledger) (action : Action) :
    Feeds.Step (·.2.queue) (action.accountNews? l.slot) l.nextFeed l.accountFeeds
      (l.act action).nextFeed (l.act action).accountFeeds (l.heardAccounts action) := by
  cases action with
  | setAccount address entity => exact accountStep_publish rfl
  | setRaw address tag data => exact accountStep_publish rfl
  | disconnect =>
    let f : Address × Inbox RawAccount → Address × Inbox RawAccount := fun feed =>
      (feed.1, feed.2.cut)
    refine Feeds.Step.map (f := f) fun feed => ?_
    simpa [Action.accountNews?] using queue_cut feed.2
  | subscribe address =>
    rw [act_subscribe]
    split
    · exact .opened (address, ({} : Inbox RawAccount)) rfl
    · exact .unchanged (Nat.le_refl _)
  | subscribeSlots =>
    rw [act_subscribeSlots]
    split
    · exact .unchanged (Nat.le_succ _)
    · exact .unchanged (Nat.le_refl _)
  | dropFeed id => exact .erase id
  | hearAccount id =>
    obtain ⟨hact, hheard⟩ | ⟨_, _, _, _, hfeed, hqueue, hheard, hact⟩ := l.act_hearAccount id <;>
      rw [hact, hheard]
    · exact .unchanged (Nat.le_refl _)
    · exact .heard hfeed hqueue
  | hearSlot id =>
    obtain ⟨hact, _⟩ | ⟨_, _, _, _, _, _, hact⟩ := l.act_hearSlot id <;> rw [hact]
    · exact .unchanged (Nat.le_refl _)
    · exact .unchanged (Nat.le_refl _)
  | removeAccount | advanceSlot | setReachable | getAccount => exact .unchanged (Nat.le_refl _)

theorem slotStep (l : Ledger) (action : Action) :
    Feeds.Step (·.queue) (action.slotNews? l.slot) l.nextFeed l.slotFeeds
      (l.act action).nextFeed (l.act action).slotFeeds (l.heardSlots action) := by
  cases action with
  | advanceSlot =>
    refine Feeds.Step.map (f := fun inbox : Inbox Slot => inbox.send l.slot) fun inbox => ?_
    simpa [Action.slotNews?] using queue_send inbox l.slot
  | disconnect =>
    refine Feeds.Step.map (f := Inbox.cut (α := Slot)) fun inbox => ?_
    simpa [Action.slotNews?] using queue_cut inbox
  | subscribe address =>
    rw [act_subscribe]
    split
    · exact .unchanged (Nat.le_succ _)
    · exact .unchanged (Nat.le_refl _)
  | subscribeSlots =>
    rw [act_subscribeSlots]
    split
    · exact .opened ({} : Inbox Slot) rfl
    · exact .unchanged (Nat.le_refl _)
  | dropFeed id => exact .erase id
  | hearAccount id =>
    obtain ⟨hact, _⟩ | ⟨_, _, _, _, _, _, _, hact⟩ := l.act_hearAccount id <;> rw [hact]
    · exact .unchanged (Nat.le_refl _)
    · exact .unchanged (Nat.le_refl _)
  | hearSlot id =>
    obtain ⟨hact, hheard⟩ | ⟨_, _, _, hfeed, hqueue, hheard, hact⟩ := l.act_hearSlot id <;>
      rw [hact, hheard]
    · exact .unchanged (Nat.le_refl _)
    · exact .heard hfeed hqueue
  | setAccount | setRaw | removeAccount | setReachable | getAccount =>
    exact .unchanged (Nat.le_refl _)

theorem slot_act (l : Ledger) (action : Action) :
    (l.act action).slot = match action with
      | .advanceSlot => l.slot + 1
      | _ => l.slot := by
  cases action with
  | subscribe other =>
    rw [act_subscribe]
    split <;> rfl
  | subscribeSlots =>
    rw [act_subscribeSlots]
    split <;> rfl
  | hearAccount id =>
    obtain ⟨hact, _⟩ | ⟨_, _, _, _, _, _, _, hact⟩ := l.act_hearAccount id <;> rw [hact]
  | hearSlot id =>
    obtain ⟨hact, _⟩ | ⟨_, _, _, _, _, _, hact⟩ := l.act_hearSlot id <;> rw [hact]
  | setAccount | setRaw | removeAccount | advanceSlot | disconnect | setReachable | getAccount
  | dropFeed => rfl

theorem moment_bounds (l : Ledger) (action : Action) :
    2 * l.slot ≤ action.moment l.slot ∧ action.moment l.slot ≤ 2 * (l.act action).slot := by
  rw [slot_act]
  cases action with
  | advanceSlot => exact ⟨Nat.le_succ _, Nat.le_succ _⟩
  | _ => exact ⟨Nat.le_refl _, Nat.le_refl _⟩

theorem accountLog_sends (l : Ledger) (action : Action) :
    accountLog (l.sends action) =
      Feeds.additions (·.2.queue) l.accountFeeds (l.act action).accountFeeds := by
  simp [accountLog, sends, List.filterMap_append, List.filterMap_map]

theorem slotLog_sends (l : Ledger) (action : Action) :
    slotLog (l.sends action) =
      Feeds.additions (·.queue) l.slotFeeds (l.act action).slotFeeds := by
  simp [slotLog, sends, List.filterMap_append, List.filterMap_map]

theorem mem_accountLog {sent : List Sending} {d : Delivery RawAccount} :
    (id, d) ∈ accountLog sent ↔ .account id d ∈ sent := by
  simp only [accountLog, List.mem_filterMap]
  constructor
  · rintro ⟨_ | _, hmem, heq⟩ <;> cases heq
    exact hmem
  · exact fun hmem => ⟨_, hmem, rfl⟩

theorem mem_slotLog {sent : List Sending} {d : Delivery Slot} :
    (id, d) ∈ slotLog sent ↔ .slot id d ∈ sent := by
  simp only [slotLog, List.mem_filterMap]
  constructor
  · rintro ⟨_ | _, hmem, heq⟩ <;> cases heq
    exact hmem
  · exact fun hmem => ⟨_, hmem, rfl⟩

theorem find?_accounts_act (l : Ledger) (h : ¬ action.Touches address) :
    (l.act action).accounts.find? address = l.accounts.find? address := by
  cases action with
  | setAccount other entity => exact (Table.find?_insert _ _ _ _).trans (if_neg (Ne.symm h))
  | setRaw other tag data => exact (Table.find?_insert _ _ _ _).trans (if_neg (Ne.symm h))
  | removeAccount other => exact (Table.find?_erase _ _ _).trans (if_neg (Ne.symm h))
  | subscribe other =>
    rw [act_subscribe]
    split <;> rfl
  | subscribeSlots =>
    rw [act_subscribeSlots]
    split <;> rfl
  | hearAccount id =>
    obtain ⟨hact, _⟩ | ⟨_, _, _, _, _, _, _, hact⟩ := l.act_hearAccount id <;> rw [hact]
  | hearSlot id =>
    obtain ⟨hact, _⟩ | ⟨_, _, _, _, _, _, hact⟩ := l.act_hearSlot id <;> rw [hact]
  | advanceSlot | disconnect | setReachable | getAccount | dropFeed => rfl

/-- A subscription that is open and that the ledger still sends to. -/
def Subscribed (l : Ledger) (id : Nat) (address : Address) : Prop :=
  ∃ inbox, l.accountFeeds.find? id = some (address, inbox) ∧ inbox.isFed = true

theorem isFed_send {α : Type} (inbox : Inbox α) (a : α) : (inbox.send a).isFed = inbox.isFed := by
  rw [Inbox.send]
  split <;> rfl

theorem Subscribed.publish (h : l.Subscribed id address) (raw : RawAccount) :
    (l.publish raw).Subscribed id address := by
  obtain ⟨inbox, hfeed, hfed⟩ := h
  have hfind : (l.publish raw).accountFeeds.find? id = some (address, _) :=
    (find?_mapAccountFeeds _ id).trans (congrArg (Option.map _) hfeed)
  refine ⟨_, hfind, ?_⟩
  dsimp only
  split
  · rw [isFed_send, hfed]
  · exact hfed

theorem Subscribed.act (h : l.Subscribed id address) (hid : id < l.nextFeed)
    (hends : ¬ action.Ends id) : (l.act action).Subscribed id address := by
  cases action with
  | setAccount other entity => exact h.publish _
  | setRaw other tag data => exact h.publish _
  | disconnect => exact absurd trivial hends
  | subscribe other =>
    rw [act_subscribe]
    split
    · obtain ⟨inbox, hfeed, hfed⟩ := h
      refine ⟨inbox, (Table.find?_insert _ _ _ _).trans ?_, hfed⟩
      rw [if_neg (Nat.ne_of_lt hid), hfeed]
    · exact h
  | subscribeSlots =>
    rw [act_subscribeSlots]
    split <;> exact h
  | dropFeed other =>
    obtain ⟨inbox, hfeed, hfed⟩ := h
    exact ⟨inbox, Table.find?_erase_eq_some.mpr ⟨Ne.symm hends, hfeed⟩, hfed⟩
  | hearAccount other =>
    obtain ⟨hact, _⟩ | ⟨_, _, _, _, hheard, _, _, hact⟩ := l.act_hearAccount other <;> rw [hact]
    · exact h
    · obtain ⟨inbox, hfeed, hfed⟩ := h
      by_cases hother : id = other
      · cases (hother ▸ hfeed).symm.trans hheard
        exact ⟨_, (Table.find?_insert _ _ _ _).trans (if_pos hother), hfed⟩
      · exact ⟨inbox, (Table.find?_insert _ _ _ _).trans ((if_neg hother).trans hfeed), hfed⟩
  | hearSlot other =>
    obtain ⟨hact, _⟩ | ⟨_, _, _, _, _, _, hact⟩ := l.act_hearSlot other <;> rw [hact]
    · exact h
    · exact h
  | removeAccount | advanceSlot | setReachable | getAccount => exact h

/-- A record is sent to every subscription of its address. -/
theorem Subscribed.mem_sends (h : l.Subscribed id w.address) (hnodup : l.accountFeeds.keys.Nodup)
    (hw : action.written? l.slot = some w) : .account id (.item w) ∈ l.sends action := by
  obtain ⟨inbox, hfeed, hfed⟩ := h
  have hfind : (l.act action).accountFeeds.find? id = some (w.address, inbox.send w) := by
    rw [act_of_written hw]
    refine (find?_mapAccountFeeds _ id).trans ?_
    rw [hfeed, Option.map_some, if_pos rfl]
  rw [← mem_accountLog, accountLog_sends, ← Log.mem_stream,
    Feeds.stream_additions ((l.accountStep action).nodup hnodup), Feeds.unheard_of_find? hfeed,
    Feeds.unheard_of_find? hfind]
  simp [Inbox.send, Inbox.push, hfed]

end Ledger

end Solvency
