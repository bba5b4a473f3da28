import Solvency.Proofs.Channel.EventLog
import Solvency.Proofs.Router.Announced

/-! What a step of a router is to a listener. An address that is given up disappears quietly;
it comes back with an event, for whoever needs it has asked for it to be tracked again. -/

namespace Solvency

namespace Router.Command

variable {a : Address} {command : Router.Command} {commands rest : List Router.Command}

/-- Where an address is given up, it is tracked again later. -/
def Renewed (a : Address) (commands : List Router.Command) : Prop :=
  ∀ rest, .untrack a :: rest <:+ commands → .track a ∈ rest

theorem Renewed.tail (h : Renewed a (command :: rest)) : Renewed a rest :=
  fun _ hsuffix => h _ (hsuffix.trans (List.suffix_cons command rest))

theorem Renewed.append (h : Renewed a commands) (hne : command ≠ .untrack a) :
    Renewed a (commands ++ [command]) := by
  intro rest hsuffix
  rcases List.suffix_concat_iff.mp hsuffix with hnil | ⟨before, hbefore, hearlier⟩
  · cases hnil
  · cases before with
    | nil =>
      cases hbefore
      exact absurd rfl hne
    | cons first before =>
      cases hbefore
      exact List.mem_append_left _ (h before hearlier)

theorem renewed_append_track : Renewed a (commands ++ [.track a]) := by
  intro rest hsuffix
  rcases List.suffix_concat_iff.mp hsuffix with hnil | ⟨before, hbefore, _⟩
  · cases hnil
  · cases before with
    | nil => cases hbefore
    | cons first before =>
      cases hbefore
      exact List.mem_append_right _ (List.mem_singleton_self _)

end Router.Command

namespace Link

variable {s s' : Link} {writes : List RawAccount} {a : Address}

/-- Giving an address up is not announced: if it could be looked up, it is now without stream. -/
theorem Settled.untrack_spec (h : s.Settled writes) (a : Address) :
    (s.untrack a).router.commands = s.router.commands ∧
      (s.untrack a).registry.events = s.registry.events ∧
      ∀ b, (s.Unopened writes b → (s.untrack a).Unopened writes b) ∧
        ((s.untrack a).registry.get? b = s.registry.get? b ∨
          b = a ∧ (s.untrack a).Unopened writes b) := by
  rw [Link.untrack]
  split
  case isFalse => exact ⟨rfl, rfl, fun b => ⟨id, .inl rfl⟩⟩
  case isTrue =>
    refine ⟨rfl, s.registry.events_remove a, fun b => ⟨fun hunopened => ?_, ?_⟩⟩
    · refine ⟨hunopened.connected, ?_, hunopened.written⟩
      simp [Table.find?_erase, hunopened.unread]
    · by_cases hb : b = a
      · subst hb
        by_cases hnone : s.registry.get? b = none
        · left
          rw [hnone, Registry.get?_eq_none_iff]
          simp [Registry.find?_entries_remove]
        · have hstream : s.router.streams.find? b ≠ none := fun hstream =>
            hnone (h.get?_eq_none hstream)
          have hstate : s.router.state = .connected := by
            by_contra hstate
            exact hstream (h.idle hstate b)
          obtain ⟨v, hget⟩ := Option.ne_none_iff_exists'.mp hnone
          obtain ⟨entry, hentry, _⟩ := Option.bind_eq_some_iff.mp hget
          obtain ⟨_, w, hw, haddress, _⟩ := h.stores b entry hentry
          exact .inr ⟨rfl, hstate, by simp [Table.find?_erase], w, hw, haddress⟩
      · left
        refine Registry.get?_congr ?_ Registry.epoch_remove ?_ Registry.confirmedSlot_remove
        · rw [Registry.find?_entries_remove, if_neg hb]
        · exact List.mem_erase_of_ne hb

theorem Settled.announces_account (h : s.Settled writes) (hreads : Readable writes) {id : Nat}
    (hid : id ∈ s.router.streams.values) (hs : s.accountStep? id = some s') :
    s.Announces writes s' := by
  obtain ⟨a, d, ledger, _, _, hread⟩ := h.accountStep_cases hid hs
  have hfirst : s.Announces writes { s with transport := { s.transport with ledger } } :=
    .congr rfl rfl fun _ h => ⟨h.connected, h.unread, h.written⟩
  rcases hread with ⟨w, hw, _, _, rfl⟩ | rfl
  · obtain ⟨e, hw⟩ := hreads w hw
    exact hfirst.trans (.ingest hw)
  · exact hfirst.trans (announces_onDisconnect writes _)

theorem Settled.slot_cases (h : s.Settled writes) (hs : s.slotStep? = some s') :
    s.Announces writes s' ∨
      s'.router.commands = s.router.commands ∧
        (∀ a, s.Unopened writes a → s'.Unopened writes a) ∧
        ∃ slot, s'.registry.events = s.registry.events.push (.slotConfirmed slot) ∧
          s'.registry.get? = Lookup.raise s.registry.get? slot := by
  simp only [slotStep?, Option.bind_eq_bind, Option.bind_eq_some_iff] at hs
  obtain ⟨id, _, ⟨d, ledger⟩, hnext, hs⟩ := hs
  cases hs
  have hread : s.Announces writes { s with transport := { s.transport with ledger } } :=
    .congr rfl rfl fun _ h => ⟨h.connected, h.unread, h.written⟩
  cases d with
  | item slot =>
    by_cases hlater : s.registry.confirmedSlot < slot
    · refine .inr ⟨rfl, fun _ h => ⟨h.connected, h.unread, h.written⟩, slot, ?_, ?_⟩
      · simp only [onSlot, Registry.confirmSlot, if_pos hlater]
        rfl
      · exact Registry.get?_confirmSlot fun b hb => h.get?_of_not_live hb
    · refine .inl (.congr rfl ?_ fun _ h => ⟨h.connected, h.unread, h.written⟩)
      simp only [onSlot, Registry.confirmSlot, if_neg hlater]
  | failure error =>
    rw [onSlot]
    split
    · exact .inl (hread.trans (announces_onDisconnect writes _))
    · exact .inl hread
  | ended => exact .inl (hread.trans (announces_onDisconnect writes _))

/-- What a step may change that a listener cares for: it announces its changes, takes a command
from the queue, or confirms a slot. -/
theorem Settled.step_cases (h : s.Settled writes) {written : List RawAccount}
    (hreads : Readable (written ++ writes)) (hstep : s.Step written s') :
    s.Announces (written ++ writes) s' ∨
    (∃ a rest, s.router.commands = .track a :: rest ∧
      Announces (written ++ writes) { s with router := { s.router with commands := rest } } s' ∧
      ¬ s'.Unopened (written ++ writes) a) ∨
    (∃ a rest, s.router.commands = .untrack a :: rest ∧ s'.router.commands = rest ∧
      s'.registry.events = s.registry.events ∧
      ∀ b, (s.Unopened (written ++ writes) b → s'.Unopened (written ++ writes) b) ∧
        (s'.registry.get? b = s.registry.get? b ∨
          b = a ∧ s'.Unopened (written ++ writes) b)) ∨
    s'.router.commands = s.router.commands ∧
      (∀ a, s.Unopened (written ++ writes) a → s'.Unopened (written ++ writes) a) ∧
      ∃ slot, s'.registry.events = s.registry.events.push (.slotConfirmed slot) ∧
        s'.registry.get? = Lookup.raise s.registry.get? slot := by
  cases hstep with
  | ledger op => exact .inl (.congr rfl rfl fun _ h => ⟨h.connected, h.unread, h.written⟩)
  | wait ms => exact .inl (.congr rfl rfl fun _ h => ⟨h.connected, h.unread, h.written⟩)
  | resync => exact .inl (h.toBased.announces_resync hreads)
  | command hs =>
    rw [commandStep?] at hs
    split at hs
    · cases hs
    case h_2 command rest hcommands =>
      cases hs
      have hpop : Settled writes { s with router := { s.router with commands := rest } } :=
        h.congr (h.toWired.congr rfl rfl rfl rfl) rfl rfl fun _ => rfl
      cases command with
      | track a =>
        obtain ⟨hannounces, hopened⟩ := hpop.announces_track hreads a
        exact .inr (.inl ⟨a, rest, hcommands, hannounces, hopened⟩)
      | untrack a =>
        obtain ⟨hrest, hevents, hothers⟩ := hpop.untrack_spec a
        refine .inr (.inr (.inl ⟨a, rest, hcommands, hrest, hevents, fun b => ?_⟩))
        exact ⟨fun h => (hothers b).1 ⟨h.connected, h.unread, h.written⟩, (hothers b).2⟩
  | account _ hid hs => exact .inl (h.announces_account hreads hid hs)
  | slot _ hs => exact (h.slot_cases hs).imp_right fun h => .inr (.inr h)
  | timer _ _ hs =>
    simp only [timerStep?, Option.bind_eq_bind, Option.bind_eq_some_iff] at hs
    obtain ⟨time, htime, hs⟩ := hs
    split at hs
    · cases hs
      refine .inl (h.toWired.announces_reconnect hreads fun hstate => ?_)
      have hnone : s.router.reconnectAt = none := h.timer hstate
      rw [hnone] at htime
      cases htime
    · cases hs

open Router.Command (Renewed)

/-- Not read, but about to be. -/
structure Owed (writes : List RawAccount) (s : Link) (a : Address) : Prop
    extends s.Unopened writes a where
  asked : .track a ∈ s.router.commands

/-- All that a listener has to know of what happens to a link: a change of an address is
announced or the address is owed, and a slot that was confirmed changes nothing else. -/
structure Evolves (writes : List RawAccount) (s s' : Link) : Prop where
  renewed : ∀ a, Renewed a s.router.commands → Renewed a s'.router.commands
  changes :
    (∃ new : List RegistryEvent,
      s'.registry.events = new.foldl EventLog.push s.registry.events ∧
      ∀ a, Renewed a s.router.commands → (∃ event ∈ new, event.Touches a) ∨
        s'.Owed writes a ∨ s'.registry.get? a = s.registry.get? a ∧ ¬ s.Owed writes a) ∨
    ∃ slot, s'.registry.events = s.registry.events.push (.slotConfirmed slot) ∧
      s'.registry.get? = Lookup.raise s.registry.get? slot ∧
      ∀ a, s.Owed writes a → s'.Owed writes a

theorem Announces.evolves (h : s.Announces writes s') : s.Evolves writes s' := by
  obtain ⟨hcommands, new, hevents, hchanges⟩ := h
  refine ⟨fun a => hcommands ▸ id, .inl ⟨new, hevents, fun a _ => ?_⟩⟩
  rcases hchanges a with htouched | ⟨hget, hunopened⟩
  · exact .inl htouched
  · by_cases howed : s.Owed writes a
    · exact .inr (.inl ⟨hunopened howed.toUnopened, hcommands ▸ howed.asked⟩)
    · exact .inr (.inr ⟨hget, howed⟩)

theorem Evolves.log (h : s.Evolves writes s') (hfull : s.registry.events.Full) :
    s'.registry.events.Full ∧ s.registry.events.total ≤ s'.registry.events.total := by
  rcases h.changes with ⟨new, hevents, _⟩ | ⟨slot, hevents, _⟩
  · rw [hevents]
    exact ⟨hfull.foldl new, s.registry.events.total_le_foldl new⟩
  · rw [hevents]
    exact ⟨hfull.push _, Nat.le_succ _⟩

theorem Settled.step_evolves (h : s.Settled writes) {written : List RawAccount}
    (hreads : Readable (written ++ writes)) (hstep : s.Step written s') :
    s.Evolves (written ++ writes) s' := by
  rcases h.step_cases hreads hstep with hannounces | ⟨b, rest, hcommands, hannounces, hopened⟩ |
    ⟨b, rest, hcommands, hrest, hevents, hothers⟩ | ⟨hcommands, hunopened, slot, hevents, hraise⟩
  · exact hannounces.evolves
  · obtain ⟨hrest, new, hevents, hchanges⟩ := hannounces
    refine ⟨fun a hrenewed => ?_, .inl ⟨new, hevents, fun a _ => ?_⟩⟩
    · rw [hcommands] at hrenewed
      exact hrest ▸ hrenewed.tail
    · rcases hchanges a with htouched | ⟨hget, hunopened⟩
      · exact .inl htouched
      · by_cases howed : s.Owed (written ++ writes) a
        · have hnext := hunopened ⟨howed.connected, howed.unread, howed.written⟩
          have hasked : .track a ∈ rest := by
            have hasked := howed.asked
            rw [hcommands] at hasked
            rcases List.mem_cons.mp hasked with heq | hasked
            · cases heq
              exact absurd hnext hopened
            · exact hasked
          exact .inr (.inl ⟨hnext, hrest ▸ hasked⟩)
        · exact .inr (.inr ⟨hget, howed⟩)
  · refine ⟨fun a hrenewed => ?_, .inl ⟨[], hevents, fun a hrenewed => ?_⟩⟩
    · rw [hcommands] at hrenewed
      exact hrest ▸ hrenewed.tail
    · obtain ⟨hunopened, hget | ⟨rfl, hnext⟩⟩ := hothers a
      · by_cases howed : s.Owed (written ++ writes) a
        · have hasked := howed.asked
          rw [hcommands] at hasked
          have hasked : .track a ∈ rest := (List.mem_cons.mp hasked).resolve_left nofun
          exact .inr (.inl ⟨hunopened howed.toUnopened, hrest ▸ hasked⟩)
        · exact .inr (.inr ⟨hget, howed⟩)
      · have hasked : .track a ∈ rest := hrenewed rest ⟨[], hcommands.symm⟩
        exact .inr (.inl ⟨hnext, hrest ▸ hasked⟩)
  · refine ⟨fun a => hcommands ▸ id, .inr ⟨slot, hevents, hraise, fun a howed => ?_⟩⟩
    exact ⟨hunopened a howed.toUnopened, hcommands ▸ howed.asked⟩

end Link

end Solvency
