import Solvency.Proofs.Ledger.Actions

/-! A ledger through any actions, with all that it has sent on the way. A heartbeat is sent after
every record of its slot or an earlier one, and before every record of a later one. -/

namespace Solvency

def Delivery.item? {α : Type} : Delivery α → Option α
  | .item a => some a
  | _ => none

theorem Delivery.item?_eq_some_iff {α : Type} {d : Delivery α} {a : α} :
    d.item? = some a ↔ d = .item a := by
  cases d <;> simp [item?]

namespace Ledger

variable {action : Action} {id : Nat} {address : Address} {w : RawAccount}

/-- A ledger, what it has sent and what its readers have heard. -/
structure Course where
  ledger : Ledger
  sent : List Sending := []
  heardAccounts : Log (Delivery RawAccount) := []
  heardSlots : Log (Delivery Slot) := []

namespace Course

def act (c : Course) (action : Action) : Course where
  ledger := c.ledger.act action
  sent := c.sent ++ c.ledger.sends action
  heardAccounts := c.heardAccounts ++ c.ledger.heardAccounts action
  heardSlots := c.heardSlots ++ c.ledger.heardSlots action

/-- The course of a new ledger, which may offer heartbeats. -/
def run (heartbeats : Bool) (actions : List Action) : Course :=
  actions.foldl act { ledger := { heartbeats } }

/-- The records that an account subscription was sent, in order. -/
def records (c : Course) (id : Nat) : List RawAccount :=
  ((accountLog c.sent).stream id).filterMap Delivery.item?

/-- The heartbeats that a slot subscription was sent, in order. -/
def beats (c : Course) (id : Nat) : List Slot :=
  ((slotLog c.sent).stream id).filterMap Delivery.item?

/-- A ledger that has sent nothing out of order, and whose subscriptions hold the rest of what they
were sent. -/
structure Ordered (c : Course) : Prop where
  accounts : Feeds.Balanced (·.2.queue) c.ledger.nextFeed c.ledger.accountFeeds
    (accountLog c.sent) c.heardAccounts
  slots : Feeds.Balanced (·.queue) c.ledger.nextFeed c.ledger.slotFeeds
    (slotLog c.sent) c.heardSlots
  sorted : (c.sent.filterMap Sending.moment?).Pairwise (· ≤ ·)
  past : ∀ moment ∈ c.sent.filterMap Sending.moment?, moment ≤ 2 * c.ledger.slot
  beats : ∀ id, (c.beats id).Pairwise (· < ·)

variable {c : Course}

theorem Ordered.accountNews (h : c.Ordered) {d : Delivery RawAccount}
    (hd : .account id d ∈ c.ledger.sends action) : d ∈ action.accountNews? c.ledger.slot := by
  rw [← mem_accountLog, accountLog_sends] at hd
  exact (c.ledger.accountStep action).news_of_mem h.accounts.nodup hd

theorem Ordered.slotNews (h : c.Ordered) {d : Delivery Slot}
    (hd : .slot id d ∈ c.ledger.sends action) : d ∈ action.slotNews? c.ledger.slot := by
  rw [← mem_slotLog, slotLog_sends] at hd
  exact (c.ledger.slotStep action).news_of_mem h.slots.nodup hd

/-- All that one action sends is sent in one moment. -/
theorem Ordered.moment_of_sends (h : c.Ordered) {s : Sending} (hs : s ∈ c.ledger.sends action)
    {moment : Nat} (hmoment : s.moment? = some moment) :
    moment = action.moment c.ledger.slot := by
  cases s with
  | account id d =>
    cases d with
    | item w =>
      cases hmoment
      exact (moment_of_written (written?_of_news (h.accountNews hs))).symm
    | failure | ended => cases hmoment
  | slot id d =>
    cases d with
    | item beat =>
      cases hmoment
      exact (moment_of_beat (h.slotNews hs)).2.symm
    | failure | ended => cases hmoment

theorem Ordered.lt_of_beat (h : c.Ordered) {beat : Slot} (hbeat : beat ∈ c.beats id) :
    beat < c.ledger.slot := by
  obtain ⟨d, hd, heq⟩ := List.mem_filterMap.mp hbeat
  rw [Delivery.item?_eq_some_iff.mp heq] at hd
  have hsent : .slot id (.item beat) ∈ c.sent := mem_slotLog.mp (Log.mem_stream.mp hd)
  exact lt_of_moment_le (h.past _ (List.mem_filterMap.mpr ⟨_, hsent, rfl⟩))

theorem Ordered.beats_act (h : c.Ordered) (action : Action) (id : Nat) :
    ((c.act action).beats id).Pairwise (· < ·) := by
  have hsplit : (c.act action).beats id = c.beats id ++
      ((slotLog (c.ledger.sends action)).stream id).filterMap Delivery.item? := by
    simp only [Course.beats, Course.act, slotLog, List.filterMap_append, Log.stream_append]
  rw [hsplit, slotLog_sends]
  obtain hnone | ⟨news, hnews, hone⟩ :=
    (c.ledger.slotStep action).stream_additions h.slots.nodup id
  · simpa [hnone] using h.beats id
  · rw [hone]
    cases news with
    | item beat =>
      obtain ⟨rfl, -⟩ := moment_of_beat hnews
      refine List.pairwise_append.mpr ⟨h.beats id, List.pairwise_singleton _ _, ?_⟩
      intro earlier hearlier beat hbeat
      cases List.mem_singleton.mp hbeat
      exact h.lt_of_beat hearlier
    | failure | ended => exact (List.append_nil (c.beats id)).symm ▸ h.beats id

theorem Ordered.act (h : c.Ordered) (action : Action) : (c.act action).Ordered := by
  have haccounts : accountLog (c.act action).sent = accountLog c.sent ++
      Feeds.additions (·.2.queue) c.ledger.accountFeeds (c.ledger.act action).accountFeeds := by
    rw [← accountLog_sends]
    exact List.filterMap_append
  have hslots : slotLog (c.act action).sent = slotLog c.sent ++
      Feeds.additions (·.queue) c.ledger.slotFeeds (c.ledger.act action).slotFeeds := by
    rw [← slotLog_sends]
    exact List.filterMap_append
  have hmoments : ∀ moment ∈ (c.ledger.sends action).filterMap Sending.moment?,
      moment = action.moment c.ledger.slot := by
    intro moment hmoment
    obtain ⟨s, hs, heq⟩ := List.mem_filterMap.mp hmoment
    exact h.moment_of_sends hs heq
  obtain ⟨hfrom, hto⟩ := c.ledger.moment_bounds action
  refine ⟨?_, ?_, ?_, ?_, h.beats_act action⟩
  · rw [haccounts]
    exact h.accounts.step (c.ledger.accountStep action)
  · rw [hslots]
    exact h.slots.step (c.ledger.slotStep action)
  · rw [Course.act, List.filterMap_append, List.pairwise_append]
    refine ⟨h.sorted, List.pairwise_of_forall_mem_list fun a ha b hb => ?_, fun a ha b hb => ?_⟩
    · exact Nat.le_of_eq ((hmoments a ha).trans (hmoments b hb).symm)
    · exact hmoments b hb ▸ Nat.le_trans (h.past a ha) hfrom
  · intro moment hmoment
    rw [Course.act, List.filterMap_append] at hmoment
    rcases List.mem_append.mp hmoment with hmoment | hmoment
    · exact Nat.le_trans (h.past moment hmoment) (Nat.le_trans hfrom hto)
    · exact hmoments moment hmoment ▸ hto

theorem ordered_start (heartbeats : Bool) : Ordered { ledger := { heartbeats } } :=
  ⟨Feeds.balanced_empty _ _, Feeds.balanced_empty _ _, .nil, nofun, fun _ => .nil⟩

theorem ordered_run (heartbeats : Bool) (actions : List Action) :
    (run heartbeats actions).Ordered := by
  induction actions using List.reverseRecOn with
  | nil => exact ordered_start heartbeats
  | append_singleton earlier action ih =>
    rw [run, List.foldl_append]
    exact ih.act action

theorem run_append (heartbeats : Bool) (earlier : List Action) (action : Action)
    (later : List Action) : run heartbeats (earlier ++ action :: later) =
      later.foldl act ((run heartbeats earlier).act action) :=
  List.foldl_append

theorem Ordered.records (h : c.Ordered) (id : Nat) :
    (c.records id).Pairwise fun w later => w.slot ≤ later.slot := by
  have hlog : (accountLog c.sent).Pairwise fun e later => ∀ w w', e.2 = .item w →
      later.2 = .item w' → w.slot ≤ w'.slot := by
    refine List.pairwise_filterMap.mpr ((List.pairwise_filterMap.mp h.sorted).imp ?_)
    rintro (⟨_, d⟩ | _) (⟨_, d'⟩ | _) hmoments _ he _ he' w w' hw hw' <;> cases he <;> cases he'
    cases hw
    cases hw'
    exact Nat.le_of_mul_le_mul_left (hmoments _ rfl _ rfl) Nat.two_pos
  simp only [Course.records, Log.stream, List.pairwise_filterMap, Option.ite_none_right_eq_some,
    Option.some.injEq, Delivery.item?_eq_some_iff]
  refine hlog.imp ?_
  rintro e later hslot _ ⟨_, rfl⟩ _ ⟨_, rfl⟩ w hw w' hw'
  exact hslot w w' hw hw'

/-- A heartbeat parts what was sent: no record of a later slot comes before it, and none of its own
slot or an earlier one comes after it. -/
theorem Ordered.parted (h : c.Ordered) {earlier later : List Sending} {beat : Slot}
    (hsent : c.sent = earlier ++ .slot id (.item beat) :: later) :
    (∀ other w, .account other (.item w) ∈ earlier → w.slot ≤ beat) ∧
      ∀ other w, .account other (.item w) ∈ later → beat < w.slot := by
  have hsorted := h.sorted
  rw [hsent, List.filterMap_append, List.pairwise_append] at hsorted
  obtain ⟨-, hlater, hearlier⟩ := hsorted
  constructor
  · intro other w hw
    refine le_of_moment_le (hearlier (2 * w.slot) ?_ (2 * beat + 1) List.mem_cons_self)
    exact List.mem_filterMap.mpr ⟨_, hw, rfl⟩
  · intro other w hw
    have hmem : 2 * w.slot ∈ later.filterMap Sending.moment? := List.mem_filterMap.mpr ⟨_, hw, rfl⟩
    have hle : 2 * beat + 1 ≤ 2 * w.slot := List.rel_of_pairwise_cons hlater hmem
    exact lt_of_moment_le hle

theorem Ordered.id_lt (h : c.Ordered) (hid : c.ledger.Subscribed id address) :
    id < c.ledger.nextFeed := by
  obtain ⟨inbox, hfeed, _⟩ := hid
  exact h.accounts.opened id (Table.mem_keys_iff.mpr (by simp [hfeed]))

/-- A subscription goes on until it ends. -/
theorem Ordered.subscribed_foldl (h : c.Ordered) (hid : c.ledger.Subscribed id address)
    {actions : List Action} (hends : ∀ action ∈ actions, ¬ action.Ends id) :
    (actions.foldl Course.act c).ledger.Subscribed id address := by
  induction actions generalizing c with
  | nil => exact hid
  | cons action rest ih =>
    obtain ⟨hfirst, hrest⟩ := List.forall_mem_cons.mp hends
    exact ih (h.act action) (hid.act (h.id_lt hid) hfirst) hrest

theorem find?_accounts_foldl (c : Course) {actions : List Action}
    (h : ∀ action ∈ actions, ¬ action.Touches address) :
    (actions.foldl act c).ledger.accounts.find? address = c.ledger.accounts.find? address := by
  induction actions generalizing c with
  | nil => rfl
  | cons action rest ih =>
    obtain ⟨hfirst, hrest⟩ := List.forall_mem_cons.mp h
    exact (ih (c.act action) hrest).trans (c.ledger.find?_accounts_act hfirst)

theorem subscribed_of_subscribe {l opened : Ledger} (h : l.subscribe address = .ok (id, opened)) :
    opened.Subscribed id address := by
  rw [subscribe_eq] at h
  split at h
  · cases h
    exact ⟨{}, (Table.find?_insert _ _ _ _).trans (if_pos rfl), rfl⟩
  · cases h

theorem getAccount_run {heartbeats : Bool} {earlier later : List Action} {write : Action}
    (hw : write.written? (run heartbeats earlier).ledger.slot = some w)
    (hlater : ∀ action ∈ later, ¬ action.Touches w.address) :
    (run heartbeats (earlier ++ write :: later)).ledger.getAccount w.address =
      if (run heartbeats (earlier ++ write :: later)).ledger.reachable then .ok w
      else .error (.disconnected .unreachable) := by
  have hfound : (run heartbeats (earlier ++ write :: later)).ledger.accounts.find? w.address =
      some w := by
    rw [run_append, find?_accounts_foldl _ hlater, act, act_of_written hw]
    exact (Table.find?_insert _ _ _ _).trans (if_pos rfl)
  rw [getAccount, hfound, ensureReachable]
  split <;> rfl

theorem mem_sends_run {heartbeats : Bool} {before between : List Action} {write : Action}
    {opened : Ledger}
    (hopened : (run heartbeats before).ledger.subscribe w.address = .ok (id, opened))
    (hends : ∀ action ∈ between, ¬ action.Ends id)
    (hw : write.written?
      (run heartbeats (before ++ .subscribe w.address :: between)).ledger.slot = some w) :
    .account id (.item w) ∈
      (run heartbeats (before ++ .subscribe w.address :: between)).ledger.sends write := by
  have hordered := ordered_run heartbeats (before ++ .subscribe w.address :: between)
  refine Subscribed.mem_sends ?_ hordered.accounts.nodup hw
  rw [run_append]
  refine ((ordered_run heartbeats before).act _).subscribed_foldl ?_ hends
  rw [act, Ledger.act, hopened]
  exact subscribed_of_subscribe hopened

/-- Heartbeats increase on each slot subscription, and the slots of records never decrease on an
account subscription. Heartbeats part the records by their slots, whatever they are sent to. What
is read of a subscription is what it was sent, in this order. A record that is written is sent to
every open subscription of its address, and stands until it is replaced or removed, although a
ledger that cannot be reached does not give it. -/
theorem heartbeats_follow_records (heartbeats : Bool) (actions : List Action) :
    let c := run heartbeats actions
    (∀ id, (c.beats id).Pairwise (· < ·)) ∧
    (∀ id, (c.records id).Pairwise fun w later => w.slot ≤ later.slot) ∧
    (∀ earlier id beat later, c.sent = earlier ++ .slot id (.item beat) :: later →
      (∀ other w, .account other (.item w) ∈ earlier → w.slot ≤ beat) ∧
        ∀ other w, .account other (.item w) ∈ later → beat < w.slot) ∧
    (∀ id address inbox, c.ledger.accountFeeds.find? id = some (address, inbox) →
      c.heardAccounts.stream id ++ inbox.queue = (accountLog c.sent).stream id) ∧
    (∀ id inbox, c.ledger.slotFeeds.find? id = some inbox →
      c.heardSlots.stream id ++ inbox.queue = (slotLog c.sent).stream id) ∧
    ∀ earlier write later w, actions = earlier ++ write :: later →
      write.written? (run heartbeats earlier).ledger.slot = some w →
      (∀ before between id opened, earlier = before ++ .subscribe w.address :: between →
        (run heartbeats before).ledger.subscribe w.address = .ok (id, opened) →
        (∀ action ∈ between, ¬ action.Ends id) →
        .account id (.item w) ∈ (run heartbeats earlier).ledger.sends write) ∧
      ((∀ action ∈ later, ¬ action.Touches w.address) →
        c.ledger.getAccount w.address =
          if c.ledger.reachable then .ok w else .error (.disconnected .unreachable)) := by
  intro c
  have h : c.Ordered := ordered_run heartbeats actions
  refine ⟨h.beats, h.records, fun earlier id beat later hsent => h.parted hsent,
    fun id address inbox hfeed => h.accounts.balance id _ hfeed, h.slots.balance, ?_⟩
  rintro earlier write later w rfl hw
  refine ⟨?_, fun hlater => getAccount_run hw hlater⟩
  rintro before between id opened rfl hopened hends
  exact mem_sends_run hopened hends hw

theorem heartbeats_follow_records_over_two_slots :
    (run true [.subscribe ⟨1⟩, .subscribeSlots, .setRaw ⟨1⟩ 255 [], .advanceSlot,
      .setRaw ⟨1⟩ 255 [7]]).sent = [.account 0 (.item ⟨⟨1⟩, 1, 255, []⟩), .slot 1 (.item 1),
        .account 0 (.item ⟨⟨1⟩, 2, 255, [7]⟩)] ∧
      (1 : Slot) < (⟨⟨1⟩, 2, 255, [7]⟩ : RawAccount).slot ∧
      .account 0 (.item ⟨⟨1⟩, 2, 255, [7]⟩) ∈ (run true [.subscribe ⟨1⟩, .subscribeSlots,
        .setRaw ⟨1⟩ 255 [], .advanceSlot]).ledger.sends (.setRaw ⟨1⟩ 255 [7]) ∧
      (run true [.subscribe ⟨1⟩, .subscribeSlots, .setRaw ⟨1⟩ 255 [], .advanceSlot,
        .setRaw ⟨1⟩ 255 [7]]).ledger.getAccount ⟨1⟩ = .ok ⟨⟨1⟩, 2, 255, [7]⟩ := by
  let between : List Action := [.subscribeSlots, .setRaw ⟨1⟩ 255 [], .advanceSlot]
  let actions : List Action := .subscribe ⟨1⟩ :: between ++ [.setRaw ⟨1⟩ 255 [7]]
  have hsent : (run true actions).sent = [.account 0 (.item ⟨⟨1⟩, 1, 255, []⟩), .slot 1 (.item 1),
      .account 0 (.item ⟨⟨1⟩, 2, 255, [7]⟩)] := rfl
  obtain ⟨-, -, hparted, -, -, hwrites⟩ := heartbeats_follow_records true actions
  obtain ⟨hdelivered, hstands⟩ := hwrites (.subscribe ⟨1⟩ :: between) (.setRaw ⟨1⟩ 255 [7]) []
    ⟨⟨1⟩, 2, 255, [7]⟩ rfl rfl
  refine ⟨hsent, (hparted [_] 1 1 [_] hsent).2 0 _ List.mem_cons_self, ?_, ?_⟩
  · exact hdelivered [] between 0 _ rfl rfl (by simp [between, Action.Ends])
  · have hreachable : (run true actions).ledger.reachable = true := rfl
    exact (hstands (List.forall_mem_nil _)).trans (if_pos hreachable)

/-- A record that stands is not given while the ledger cannot be reached. -/
theorem getAccount_unreachable :
    ¬ ∀ (earlier later : List Action) (write : Action) (w : RawAccount),
      write.written? (run true earlier).ledger.slot = some w →
      (∀ action ∈ later, ¬ action.Touches w.address) →
      (run true (earlier ++ write :: later)).ledger.getAccount w.address = .ok w := by
  intro hgiven
  have hcut := hgiven [] [.setReachable false] (.setRaw ⟨1⟩ 255 []) ⟨⟨1⟩, 1, 255, []⟩ rfl
    (by simp [Action.Touches])
  have hrefused : (run true [.setRaw ⟨1⟩ 255 [], .setReachable false]).ledger.getAccount ⟨1⟩ =
      .error (.disconnected .unreachable) := rfl
  cases hrefused.symm.trans hcut

end Course

end Ledger

end Solvency
