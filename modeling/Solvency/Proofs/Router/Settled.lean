import Solvency.Proofs.Router.Wired

/-! Every step of a router over its ledger keeps the two together. Losing the connection
gives up all streams and all that was observed; only a connected router holds any. -/

namespace Solvency.Link

variable {s s' : Link} {writes : List RawAccount} {a : Address}

theorem fetch_eq (h : s.transport.Reliable) (a : Address) :
    s.fetch a =
      if s.transport.ledger.reachable then
        match s.transport.ledger.accounts.find? a with
        | some raw => (.ok (), s.ingest raw)
        | none => (.error (.accountNotFound a), s)
      else (.error (.disconnected .unreachable), s) := by
  have hget : s.transport.getAccount a = s.transport.ledger.getAccount a := by
    rw [Transport.getAccount, h.get a]
  rw [Link.fetch, hget, Ledger.getAccount, Ledger.ensureReachable]
  by_cases hreachable : s.transport.ledger.reachable = true
  · rw [if_pos hreachable, if_pos hreachable, ok_bind]
    cases s.transport.ledger.accounts.find? a <;> rfl
  · rw [if_neg hreachable, if_neg hreachable]
    rfl

def opened (s : Link) (a : Address) : Link :=
  let l := s.transport.ledger
  { s with
    transport := { s.transport with
      ledger := { l with
        accountFeeds := l.accountFeeds.insert l.nextFeed (a, {}), nextFeed := l.nextFeed + 1 }
      latestFeed := s.transport.latestFeed.insert a l.nextFeed }
    registry := s.registry.setLive a true
    router := { s.router with streams := s.router.streams.insert a l.nextFeed } }

theorem reliable_opened (h : s.transport.Reliable) (a : Address) :
    (s.opened a).transport.Reliable :=
  ⟨h.get, h.subscribe, h.slots⟩

theorem openStream_eq (h : s.transport.Reliable) (a : Address) :
    s.openStream a =
      if s.transport.ledger.reachable then
        match s.transport.ledger.accounts.find? a with
        | some raw => (.ok (), (s.opened a).ingest raw)
        | none => (.error (.accountNotFound a), s.opened a)
      else (.error (.disconnected .unreachable), s) := by
  have hsubscribe := Ledger.subscribe_eq s.transport.ledger a
  simp only [Link.openStream, Transport.subscribe, h.subscribe a]
  by_cases hreachable : s.transport.ledger.reachable = true
  · have hopened : (s.opened a).transport.ledger.reachable = true := hreachable
    have hfetch := fetch_eq (reliable_opened h a) a
    rw [if_pos hopened] at hfetch
    rw [if_pos hreachable] at hsubscribe ⊢
    rw [hsubscribe]
    exact hfetch
  · rw [if_neg hreachable] at hsubscribe ⊢
    rw [hsubscribe]
    rfl

theorem Based.opened (h : s.Based writes) (a : Address) : (s.opened a).Based writes where
  ledger := h.ledger.subscribe a
  reliable := reliable_opened h.reliable a
  stores := h.stores
  running := h.running

theorem Based.fetch_eq (h : s.Based writes) (a : Address) :
    s.fetch a =
      if s.transport.ledger.reachable then
        match writes.find? (·.address = a) with
        | some w => (.ok (), s.ingest w)
        | none => (.error (.accountNotFound a), s)
      else (.error (.disconnected .unreachable), s) := by
  rw [Link.fetch_eq h.reliable, h.ledger.accounts a]

theorem Based.openStream_eq (h : s.Based writes) (a : Address) :
    s.openStream a =
      if s.transport.ledger.reachable then
        match writes.find? (·.address = a) with
        | some w => (.ok (), (s.opened a).ingest w)
        | none => (.error (.accountNotFound a), s.opened a)
      else (.error (.disconnected .unreachable), s) := by
  rw [Link.openStream_eq h.reliable, h.ledger.accounts a]

theorem Wired.agrees_opened (h : s.Wired writes) {b : Address} (hb : b ≠ a) :
    s.Agrees (s.opened a) b where
  entry := rfl
  live := by simp [opened, Registry.setLive, hb]
  stream := by simp [opened, Table.find?_insert, hb]
  feed id hid := by
    obtain ⟨_, hfeed, _⟩ := (h.follows b).held id hid
    have hlt := h.ledger.id_lt id _ hfeed
    simp [opened, Table.find?_insert, Nat.ne_of_lt hlt]

theorem Wired.opened (h : s.Wired writes) (hnone : writes.find? (·.address = a) = none) :
    (s.opened a).Wired writes := by
  have hunwritten : ∀ w ∈ writes, w.address ≠ a := fun w hw => by
    simpa using List.find?_eq_none.mp hnone w hw
  refine h.change (a := a) (h.toBased.opened a) (Table.nodup_keys_insert h.proper a _)
    (List.Nodup.insert h.nodup) rfl rfl rfl (fun b hb => h.agrees_opened hb) ⟨?_, ?_, ?_⟩
  · simp [Link.opened, Registry.setLive, Table.find?_insert]
  · simp [Link.opened, Table.find?_insert]
  · intro id hid
    simp only [Link.opened, Table.find?_insert, if_true, Option.some.injEq] at hid
    refine ⟨{}, by simp [Link.opened, Table.find?_insert, hid], ?_, (by intro hfed; cases hfed), ?_⟩
    · intro entry hentry
      obtain ⟨_, w, hw, hwa, _⟩ := h.stores a entry hentry
      exact absurd hwa (hunwritten w hw)
    · exact fun w hw hwa => absurd hwa (hunwritten w hw)

/-- The newest write is fetched after the stream is open, so nothing falls in between. -/
theorem Wired.opened_ingest (h : s.Wired writes) {w : RawAccount} {e : Entity}
    (hw : writes.find? (·.address = a) = some w) (hread : w.read = .ok e) :
    ((s.opened a).ingest w).Wired writes := by
  obtain ⟨hmem, rfl, hnewest⟩ := h.ledger.newest hw
  have hbased := h.toBased.opened w.address
  have hstale : ∀ entry, s.registry.entries.find? w.address = some entry → entry.slot ≤ w.slot := by
    intro entry hentry
    obtain ⟨_, other, hother, haddress, hslot, _⟩ := h.stores _ entry hentry
    exact hslot ▸ hnewest other hother haddress
  rw [ingest_of_read hread]
  refine h.change (a := w.address)
    ⟨hbased.ledger, hbased.reliable, hbased.stores.put hmem hread, h.running⟩
    (Table.nodup_keys_insert h.proper _ _) ?_ Registry.epoch_put Registry.confirmedSlot_put rfl ?_
    ⟨?_, ?_, ?_⟩
  · rw [Registry.live_put]
    exact List.Nodup.insert h.nodup
  · intro b hb
    have hagrees := h.agrees_opened hb
    exact ⟨by simp [Registry.find?_entries_put, hb, Link.opened, Registry.setLive],
      by simpa using hagrees.live, hagrees.stream, hagrees.feed⟩
  · simp [Link.opened, Registry.setLive, Table.find?_insert]
  · simp [Link.opened, Table.find?_insert]
  · intro id hid
    simp only [Link.opened, Table.find?_insert, if_true, Option.some.injEq] at hid
    refine ⟨{}, by simp [Link.opened, Table.find?_insert, hid], ?_, (by intro hfed; cases hfed), ?_⟩
    · intro entry hentry
      rw [Registry.find?_entries_put, if_pos rfl] at hentry
      cases hentry
      rw [Registry.epoch_put]
      exact Registry.Entry.epoch_absorb fun entry hentry => .inr (hstale entry hentry)
    · intro other hother haddress
      rw [Registry.find?_entries_put, if_pos rfl]
      exact .inl ⟨_, rfl, Nat.le_trans (hnewest other hother haddress)
        (Registry.Entry.le_slot_absorb _ _).1⟩

def Readable (writes : List RawAccount) : Prop := ∀ w ∈ writes, ∃ e, w.read = .ok e

theorem Wired.openStream (h : s.Wired writes) (hreads : Readable writes) (a : Address) :
    (s.openStream a).2.Wired writes := by
  rw [h.openStream_eq a]
  split
  · split
    case h_1 w hw =>
      obtain ⟨e, hread⟩ := hreads w (h.ledger.newest hw).1
      exact h.opened_ingest hw hread
    case h_2 hnone => exact h.opened hnone
  · exact h

theorem router_openStream (s : Link) (a : Address) :
    ∃ streams tally, (s.openStream a).2.router = { s.router with streams, tally } := by
  rw [Link.openStream]
  split
  · exact ⟨_, _, rfl⟩
  · rw [fetch]
    split <;> exact ⟨_, _, rfl⟩

theorem Wired.openAll (h : s.Wired writes) (hreads : Readable writes) (addresses : List Address) :
    (s.openAll addresses).2.Wired writes ∧
      ∃ streams tally, (s.openAll addresses).2.router = { s.router with streams, tally } := by
  induction addresses generalizing s with
  | nil => exact ⟨h, _, _, rfl⟩
  | cons a rest ih =>
    have hwired := h.openStream hreads a
    obtain ⟨streams, tally, hrouter⟩ := s.router_openStream a
    have hrest : ∀ s', (s.openStream a).2 = s' → (s'.openAll rest).2.Wired writes ∧
        ∃ streams tally, (s'.openAll rest).2.router = { s.router with streams, tally } := by
      rintro s' rfl
      obtain ⟨hwired', streams', tally', hrouter'⟩ := ih hwired
      exact ⟨hwired', streams', tally', by rw [hrouter', hrouter]⟩
    rw [Link.openAll]
    split
    case h_1 s' hopen => exact hrest s' (by rw [hopen])
    case h_2 s' hopen => exact hrest s' (by rw [hopen])
    case h_3 s' hopen =>
      rw [hopen] at hwired hrouter
      exact ⟨hwired, streams, tally, hrouter⟩

theorem Wired.subscribeSlots (h : s.Wired writes) {slots : Option Nat} {transport : Transport}
    (hslots : s.transport.subscribeSlots = .ok (slots, transport)) :
    Wired writes { s with transport, router := { s.router with slots } } := by
  obtain ⟨slotFeeds, nextFeed, _, rfl, hle, hcases⟩ := Transport.subscribeSlots_cases hslots
  have hrecords : Ledger.Records writes { s.transport.ledger with slotFeeds, nextFeed } := by
    refine h.ledger.congr rfl rfl (fun id a inbox hfeed => ?_) fun id inbox hfeed d hd => ?_
    · exact ⟨Nat.lt_of_lt_of_le (h.ledger.id_lt id _ hfeed) hle, fun d hd => ⟨inbox, hfeed, hd⟩⟩
    · rcases hcases id inbox hfeed with hbefore | ⟨_, hempty⟩
      · exact ⟨inbox, hbefore, hd⟩
      · rw [hempty] at hd
        cases hd
  exact h.agree ⟨hrecords, ⟨h.reliable.get, h.reliable.subscribe, h.reliable.slots⟩, h.stores,
    h.running⟩ rfl rfl rfl fun _ _ _ => rfl

theorem Wired.connect (h : s.Wired writes) (hreads : Readable writes) :
    s.connect.2.Wired writes ∧
      ∃ streams slots tally, s.connect.2.router = { s.router with streams, slots, tally } := by
  rw [Link.connect]
  split
  · exact ⟨h, _, _, _, rfl⟩
  case h_2 slots transport hslots =>
    obtain ⟨hwired, streams, tally, hrouter⟩ :=
      (h.subscribeSlots hslots).openAll hreads s.router.tracked
    exact ⟨hwired, streams, slots, tally, hrouter⟩

theorem Wired.reconnect (h : s.Wired writes) (hreads : Readable writes) :
    s.reconnect.Settled writes := by
  have hbegin : Wired writes ({ s with router := { s.router with
      reconnectAt := none, attempts := s.router.attempts + 1 } }.announce .resyncing) :=
    h.congr rfl rfl rfl rfl
  obtain ⟨hwired, streams, slots, tally, hrouter⟩ := hbegin.connect hreads
  rw [Link.reconnect]
  split
  case h_1 s' hconnect =>
    rw [hconnect] at hwired hrouter
    refine ⟨hwired.congr rfl rfl rfl rfl, fun hstate => absurd rfl hstate, fun _ => ?_⟩
    exact congrArg Router.reconnectAt hrouter
  case h_2 s' hconnect =>
    rw [hconnect] at hwired
    obtain ⟨hreset, hstreams⟩ := hwired.toBased.reset
    simp only
    split
    · exact ⟨hreset.congr rfl rfl rfl rfl, fun _ => hstreams, nofun⟩
    · exact ⟨hreset.congr rfl rfl rfl rfl, fun _ => hstreams, nofun⟩

theorem Based.resync (h : s.Based writes) (hreads : Readable writes) :
    s.resync.2.Settled writes :=
  Wired.reconnect (h.reset.1.congr rfl rfl rfl rfl) hreads

theorem Based.onDisconnect (h : s.Based writes) (hstate : s.router.state = .connected) :
    s.onDisconnect.Settled writes := by
  obtain ⟨hreset, hstreams⟩ := h.reset
  rw [Link.onDisconnect, if_pos hstate]
  exact ⟨hreset.congr rfl rfl rfl rfl, fun _ => hstreams, nofun⟩

theorem Settled.onDisconnect (h : s.Settled writes) : s.onDisconnect.Settled writes := by
  by_cases hstate : s.router.state = .connected
  · exact h.toBased.onDisconnect hstate
  · rw [Link.onDisconnect, if_neg hstate]
    exact h

theorem Settled.congr (h : s.Settled writes) (hwired : s'.Wired writes)
    (hstate : s'.router.state = s.router.state)
    (hreconnect : s'.router.reconnectAt = s.router.reconnectAt)
    (hidle : s.router.state ≠ .connected → s'.router.streams = s.router.streams) :
    s'.Settled writes where
  toWired := hwired
  idle hs a := by
    rw [hstate] at hs
    rw [hidle hs]
    exact h.idle hs a
  timer hs := by
    rw [hreconnect]
    exact h.timer (hstate ▸ hs)

theorem Settled.fetch (h : s.Settled writes) (hreads : Readable writes) {id : Nat}
    (hid : s.router.streams.find? a = some id) : (s.fetch a).2.Settled writes := by
  rw [h.fetch_eq a]
  split
  · split
    case h_1 w hw =>
      obtain ⟨hmem, rfl, _⟩ := h.ledger.newest hw
      obtain ⟨e, hread⟩ := hreads w hmem
      exact h.congr (h.ingest hmem hread hid) rfl rfl fun _ => rfl
    case h_2 => exact h
  · exact h

/-- Only a connected router does more than remember what to track: it fetches what it already
has a stream for, or opens one. -/
theorem track_cases (s : Link) (a : Address) :
    ∃ s₁ : Link, s₁ = { s with router := { s.router with
        tracked := s.router.tracked.insert a } } ∧
      (s₁.router.state ≠ .connected ∧ (s.track a).2 = s₁ ∨
        s₁.router.state = .connected ∧ ∃ found : Except Failure Unit × Link,
          ((∃ id, s₁.router.streams.find? a = some id) ∧
              (found = (.ok (), s₁) ∨ found = s₁.fetch a) ∨
            s₁.router.streams.find? a = none ∧ found = s₁.openStream a) ∧
          ((s.track a).2 = found.2.onDisconnect ∨
            (s.track a).2 = found.2 ∧
              ∀ error, found.1 = .error error → error.isDisconnect = false)) := by
  refine ⟨_, rfl, ?_⟩
  rw [Link.track]
  generalize ({ s with router := { s.router with
    tracked := s.router.tracked.insert a } } : Link) = s₁
  simp only
  split
  case isFalse hstate => exact .inl ⟨hstate, rfl⟩
  case isTrue hstate =>
    generalize hfound : (if s₁.router.streams.contains a then
      if (s₁.registry.get? a).isSome then (Except.ok (), s₁) else s₁.fetch a
      else s₁.openStream a : Except Failure Unit × Link) = found
    refine .inr ⟨hstate, found, ?_, ?_⟩
    · split at hfound
      case isTrue hheld =>
        refine .inl ⟨Option.isSome_iff_exists.mp hheld, ?_⟩
        split at hfound
        · exact .inl hfound.symm
        · exact .inr hfound.symm
      case isFalse hnew => exact .inr ⟨Option.not_isSome_iff_eq_none.mp hnew, hfound.symm⟩
    · obtain ⟨result, s'⟩ := found
      cases result with
      | ok => exact .inr ⟨rfl, fun error herror => by cases herror⟩
      | error error =>
        by_cases hlost : error.isDisconnect = true
        · exact .inl (if_pos hlost)
        · refine .inr ⟨if_neg hlost, ?_⟩
          rintro _ ⟨⟩
          exact Bool.eq_false_iff.mpr hlost

theorem Settled.track (h : s.Settled writes) (hreads : Readable writes) (a : Address) :
    (s.track a).2.Settled writes := by
  obtain ⟨s₁, hs₁, hcases⟩ := s.track_cases a
  have hbegin : s₁.Settled writes := by
    rw [hs₁]
    exact h.congr (h.toWired.congr rfl rfl rfl rfl) rfl rfl fun _ => rfl
  rcases hcases with ⟨_, htrack⟩ | ⟨hstate, found, hfound, htrack⟩
  · rw [htrack]
    exact hbegin
  · have hsettled : found.2.Settled writes := by
      rcases hfound with ⟨⟨id, hid⟩, rfl | rfl⟩ | ⟨_, rfl⟩
      · exact hbegin
      · exact hbegin.fetch hreads hid
      · obtain ⟨streams, tally, hrouter⟩ := s₁.router_openStream a
        refine hbegin.congr (hbegin.openStream hreads a) ?_ ?_ ?_
        · rw [hrouter]
        · rw [hrouter]
        · exact fun hs => absurd hstate hs
    rcases htrack with htrack | ⟨htrack, _⟩
    · rw [htrack]
      exact hsettled.onDisconnect
    · rw [htrack]
      exact hsettled

theorem track_of_opened (hstate : s.router.state = .connected)
    (hnew : s.router.streams.find? a = none)
    (hopen : Link.openStream { s with router := { s.router with
      tracked := s.router.tracked.insert a } } a = (.ok (), s')) : s.track a = (.ok (), s') := by
  have hheld : ¬ s.router.streams.contains a = true := by simp [Table.contains, hnew]
  rw [Link.track]
  dsimp only
  rw [if_pos hstate, if_neg hheld, hopen]

/-- Tracking an address for the first time stores the last write to it. -/
theorem Settled.track_new (h : s.Settled writes) (hstate : s.router.state = .connected)
    (hnew : s.router.streams.find? a = none) (hreachable : s.transport.ledger.reachable = true)
    {w : RawAccount} (hw : writes.find? (·.address = a) = some w) {e : Entity}
    (hread : w.read = .ok e) :
    ∃ tally, (s.track a).2 = { s.opened a with
      registry := ((s.registry.setLive a true).put w.address e w.slot).2
      router := { (s.opened a).router with tracked := s.router.tracked.insert a, tally } } := by
  have hbegin : Settled writes { s with router := { s.router with
      tracked := s.router.tracked.insert a } } :=
    h.congr (h.toWired.congr rfl rfl rfl rfl) rfl rfl fun _ => rfl
  have hopen := hbegin.openStream_eq a
  rw [if_pos hreachable, hw] at hopen
  rw [track_of_opened hstate hnew hopen, ingest_of_read hread]
  exact ⟨_, rfl⟩

theorem Settled.untrack (h : s.Settled writes) (a : Address) : (s.untrack a).Settled writes := by
  have hwired := h.toWired.untrack a
  rw [Link.untrack] at hwired ⊢
  split at hwired
  case isFalse htracked => rwa [if_neg htracked]
  case isTrue htracked =>
    rw [if_pos htracked]
    refine ⟨hwired, fun hs b => ?_, h.timer⟩
    simp [Table.find?_erase, h.idle hs b]

theorem Settled.command (h : s.Settled writes) (hreads : Readable writes)
    (hs : s.commandStep? = some s') : s'.Settled writes := by
  rw [commandStep?] at hs
  split at hs
  · cases hs
  case h_2 command commands hcommands =>
    cases hs
    have hpop : Settled writes { s with router := { s.router with commands } } :=
      h.congr (h.toWired.congr rfl rfl rfl rfl) rfl rfl fun _ => rfl
    cases command with
    | track a => exact hpop.track hreads a
    | untrack a => exact hpop.untrack a

/-- What is read from a stream is a write to its address, or that the connection is lost. -/
theorem Settled.accountStep_cases (h : s.Settled writes) {id : Nat}
    (hid : id ∈ s.router.streams.values) (hs : s.accountStep? id = some s') :
    ∃ a d ledger, s.router.streams.find? a = some id ∧
      s.transport.ledger.nextAccount? id = some (d, ledger) ∧
      ((∃ w ∈ writes, w.address = a ∧ d = .item w ∧
          s' = ({ s with transport := { s.transport with ledger } } : Link).ingest w) ∨
        s' = ({ s with transport := { s.transport with ledger } } : Link).onDisconnect) := by
  obtain ⟨a, hid⟩ := Table.exists_find?_of_mem_values h.proper hid
  simp only [accountStep?, Option.bind_eq_bind, Option.bind_eq_some_iff] at hs
  obtain ⟨⟨d, ledger⟩, hnext, hs⟩ := hs
  cases hs
  obtain ⟨inbox, hfeed, _⟩ := (h.follows a).held id hid
  obtain ⟨b, inbox', queue, hfeed', hqueue, _⟩ := Ledger.nextAccount?_eq_some_iff.mp hnext
  cases hfeed.symm.trans hfeed'
  refine ⟨a, d, ledger, hid, hnext, ?_⟩
  rcases h.ledger.deliveries id a inbox hfeed d (hqueue ▸ List.mem_cons_self) with
    ⟨w, hw, ha, rfl⟩ | rfl
  · exact .inl ⟨w, hw, ha, rfl, rfl⟩
  · exact .inr rfl

theorem Settled.account (h : s.Settled writes) (hreads : Readable writes) {id : Nat}
    (hid : id ∈ s.router.streams.values) (hs : s.accountStep? id = some s') :
    s'.Settled writes := by
  obtain ⟨a, d, ledger, hid, hnext, hread⟩ := h.accountStep_cases hid hs
  have hstate : s.router.state = .connected := by
    by_contra hstate
    rw [h.idle hstate a] at hid
    cases hid
  rcases hread with ⟨w, hw, rfl, rfl, rfl⟩ | rfl
  · obtain ⟨e, hread⟩ := hreads w hw
    have hstored := h.toWired.ingest hw hread hid
    refine h.congr ?_ rfl rfl fun _ => rfl
    have hcommute : ({ s with transport := { s.transport with ledger } } : Link).ingest w =
        { s.ingest w with transport := { s.transport with ledger } } := by
      rw [ingest_of_read hread, ingest_of_read hread]
    rw [hcommute]
    refine hstored.read hid hnext ?_
    rw [ingest_of_read hread, Registry.find?_entries_put, if_pos rfl]
    exact ⟨_, rfl, (Registry.Entry.le_slot_absorb _ _).1⟩
  · exact (h.withLedger (h.ledger.nextAccount hnext)).onDisconnect hstate

theorem Settled.slot (h : s.Settled writes) (hquiet : s.IsQuiet) (hs : s.slotStep? = some s') :
    s'.Settled writes := by
  simp only [slotStep?, Option.bind_eq_bind, Option.bind_eq_some_iff] at hs
  obtain ⟨id, _, ⟨d, ledger⟩, hnext, hs⟩ := hs
  cases hs
  obtain ⟨hrecords, hfeeds, hslot, hheartbeat⟩ := h.ledger.nextSlot hnext
  have hread : Settled writes { s with transport := { s.transport with ledger } } :=
    h.congr (h.agree (h.withLedger hrecords) rfl rfl hslot fun _ _ _ => by simp only [hfeeds]) rfl
      rfl fun _ => rfl
  cases d with
  | item slot =>
    have hconfirmed := hread.toWired.confirmSlot (hslot ▸ hheartbeat slot rfl)
      fun a id inbox hid hfeed => hquiet.drained.queue hid (hfeeds ▸ hfeed)
    exact h.congr (hconfirmed.congr rfl rfl rfl rfl) rfl rfl fun _ => rfl
  | failure error =>
    rw [onSlot]
    split
    · exact hread.onDisconnect
    · exact hread
  | ended => exact hread.onDisconnect

/-- What one step preserves. -/
theorem Settled.step (h : s.Settled writes) {written : List RawAccount}
    (hreads : Readable (written ++ writes)) (hstep : s.Step written s') :
    s'.Settled (written ++ writes) := by
  cases hstep with
  | ledger op => exact ⟨h.toWired.performLedger op, h.idle, h.timer⟩
  | wait ms => exact h.congr (h.toWired.congr rfl rfl rfl rfl) rfl rfl fun _ => rfl
  | resync => exact h.toBased.resync hreads
  | command hs => exact h.command hreads hs
  | account _ hid hs => exact h.account hreads hid hs
  | slot hquiet hs => exact h.slot hquiet hs
  | timer _ _ hs =>
    simp only [timerStep?, Option.bind_eq_bind, Option.bind_eq_some_iff] at hs
    obtain ⟨time, _, hs⟩ := hs
    split at hs
    · cases hs
      exact h.toWired.reconnect hreads
    · cases hs

theorem Settled.send (h : s.Settled writes) (command : Router.Command) :
    (s.send command).2.Settled writes := by
  rw [Link.send, if_pos h.running]
  exact h.congr (h.toWired.congr rfl rfl rfl rfl) rfl rfl fun _ => rfl

theorem wired_initial {l : Ledger} (h : l.Records writes) (settings : TransportSettings)
    (buffer now : Nat) :
    Wired writes {
      transport := { ledger := l }
      registry := .ofBuffer buffer
      router := { settings }
      now } where
  ledger := h
  reliable := ⟨fun _ => rfl, fun _ => rfl, rfl⟩
  stores := by simp [Registry.Stores, Registry.ofBuffer]
  running := rfl
  proper := .nil
  nodup := .nil
  confirmed_lt := h.slot_pos
  follows := fun a => by constructor <;> simp [Registry.ofBuffer]

theorem Settled.start {l : Ledger} (h : l.Records writes) (hreads : Readable writes)
    (settings : TransportSettings) (buffer now : Nat) :
    (start { ledger := l } settings buffer now).Settled writes :=
  (wired_initial h settings buffer now).reconnect hreads

/-- What a run preserves. -/
theorem Settled.of_reaches (h : s.Reaches writes) (hreads : Readable writes) :
    s.Settled writes := by
  induction h with
  | start h settings buffer now => exact Settled.start h.records hreads settings buffer now
  | step _ hstep ih =>
    exact (ih fun w hw => hreads w (List.mem_append_right _ hw)).step hreads hstep
  | send _ command ih => exact (ih hreads).send command

end Solvency.Link
