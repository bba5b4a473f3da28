import Solvency.Proofs.Push.Gap
import Solvency.Proofs.Push.Steps
import Solvency.Proofs.Router.Ready
import Solvency.Proofs.View.Layers

/-! Loading an account that is all on the ledger. Each round of tracking what is missing brings
the next layer of references to light, and there are no more layers than rounds. -/

namespace Solvency

/-- What is required and not seen. -/
def Lookup.missing (lookup : Lookup) (a : Address) : List Address :=
  (lookup.requirements a).filterMap fun r =>
    if (lookup r.address).isNone then some r.address else none

theorem Lookup.mem_missing {lookup : Lookup} {a x : Address} :
    x ∈ lookup.missing a ↔
      ∃ r ∈ lookup.requirements a, lookup r.address = none ∧ r.address = x := by
  simp only [missing, List.mem_filterMap, Option.ite_none_right_eq_some, Option.isNone_iff_eq_none,
    Option.some.injEq]

section Rounds

variable {σ : Type} {track : σ → Address → Except Failure Unit × σ} {lookup : σ → Lookup}
  {ledger : Lookup} {P : σ → Prop} {s s' : σ} {tolerance rounds k : Nat} {a : Address}

theorem loadWith_of_missing_eq_nil (h : (lookup s).missing a = []) (last : Option Failure) :
    loadWith track lookup tolerance a (rounds + 1) last s =
      ((lookup s).build tolerance a, s) := by
  rw [Lookup.missing] at h
  rw [loadWith, h]
  cases (lookup s).build tolerance a <;> simp

theorem loadWith_of_trackAll (rounds : Nat) {error : Failure}
    (hbuild : (lookup s).build tolerance a = .error error) (htransient : error.isTransient = true)
    (hmissing : (lookup s).missing a ≠ [])
    (htrack : loadWith.trackAll track ((lookup s).missing a) s = (.ok (), s'))
    (last : Option Failure) :
    loadWith track lookup tolerance a (rounds + 1) last s =
      loadWith track lookup tolerance a rounds (some error) s' := by
  rw [Lookup.missing] at hmissing htrack
  rw [loadWith, hbuild]
  simp only [htransient, hmissing, htrack, List.isEmpty_iff, if_true, if_false]

/-- Whatever is on the ledger can be tracked and is seen from then on. -/
structure Tracks (P : σ → Prop) (track : σ → Address → Except Failure Unit × σ)
    (lookup : σ → Lookup) (ledger : Lookup) : Prop where
  within : ∀ {s}, P s → (lookup s).Within ledger
  track_eq : ∀ {s} a, P s → (ledger a).isSome = true → ∃ s', track s a = (.ok (), s') ∧ P s' ∧
    (lookup s' a).isSome = true ∧ ∀ x v, lookup s x = some v → lookup s' x = some v

theorem Tracks.trackAll (h : Tracks P track lookup ledger) (hs : P s) {missing : List Address}
    (hmissing : ∀ x ∈ missing, (ledger x).isSome = true) :
    ∃ s', loadWith.trackAll track missing s = (.ok (), s') ∧ P s' ∧
      (∀ x ∈ missing, (lookup s' x).isSome = true) ∧
      ∀ x v, lookup s x = some v → lookup s' x = some v := by
  induction missing generalizing s with
  | nil => exact ⟨s, rfl, hs, nofun, fun _ _ hv => hv⟩
  | cons a rest ih =>
    obtain ⟨ha, hrest⟩ := List.forall_mem_cons.mp hmissing
    obtain ⟨next, htrack, hnext, hseen, hkept⟩ := h.track_eq a hs ha
    obtain ⟨s', hall, hs', hseenRest, hkeptRest⟩ := ih hnext hrest
    refine ⟨s', ?_, hs', List.forall_mem_cons.mpr ⟨?_, hseenRest⟩, fun x v hv =>
      hkeptRest x v (hkept x v hv)⟩
    · simp only [loadWith.trackAll, htrack, hall]
    · obtain ⟨v, hv⟩ := Option.isSome_iff_exists.mp hseen
      exact Option.isSome_iff_exists.mpr ⟨v, hkeptRest a v hv⟩

/-- With `k` layers in sight, as many rounds as there are layers left and one more suffice. -/
theorem Tracks.loadWith_eq (h : Tracks P track lookup ledger) {account : MarginAccount}
    {group : Group} (hcomplete : ledger.Complete a account group) (tolerance : Nat) (hk : k ≤ 3)
    (hrounds : 3 < rounds + k) (last : Option Failure) (hs : P s)
    (hseen : ∀ r ∈ Requirement.layer a account group k, (lookup s r.address).isSome = true) :
    ∃ s', loadWith track lookup tolerance a rounds last s =
        ((lookup s').build tolerance a, s') ∧ P s' ∧ (lookup s').Complete a account group ∧
      ∀ x v, lookup s x = some v → lookup s' x = some v := by
  -- a round that finds something missing brings one more layer into sight
  induction rounds generalizing s k last with
  | zero => omega
  | succ rounds ih =>
    have hwithin := h.within hs
    have hsubset := hwithin.requirements_subset hcomplete
    rcases hwithin.complete_or_missing hcomplete with hfound | ⟨r, hr, hnone, hbuild⟩
    · have hnothing : (lookup s).missing a = [] := by
        refine List.eq_nil_iff_forall_not_mem.mpr fun x hx => ?_
        obtain ⟨r, hr, hnone, _⟩ := Lookup.mem_missing.mp hx
        have hsome := hfound.isSome (hsubset hr)
        rw [hnone] at hsome
        cases hsome
      exact ⟨s, loadWith_of_missing_eq_nil hnothing last, hs, hfound, fun _ _ hv => hv⟩
    · have hlayer : k ≠ 3 := by
        rintro rfl
        have hsome := hseen r (hsubset hr)
        rw [hnone] at hsome
        cases hsome
      have hmissing : ∀ x ∈ (lookup s).missing a, (ledger x).isSome = true := by
        intro x hx
        obtain ⟨r, hr, _, rfl⟩ := Lookup.mem_missing.mp hx
        exact hcomplete.isSome (hsubset hr)
      obtain ⟨next, htrack, hnext, hfound, hkept⟩ := h.trackAll hs hmissing
      have hstep := loadWith_of_trackAll rounds (hbuild tolerance) rfl
        (List.ne_nil_of_mem (Lookup.mem_missing.mpr ⟨r, hr, hnone, rfl⟩)) htrack last
      -- what was missing is now tracked, and what was not was seen before
      have hseen' : ∀ r ∈ Requirement.layer a account group (k + 1),
          (lookup next r.address).isSome = true := by
        intro r hr
        have hr := hwithin.layer_succ hcomplete hseen hr
        cases hv : lookup s r.address with
        | none => exact hfound _ (Lookup.mem_missing.mpr ⟨r, hr, hv, rfl⟩)
        | some v => exact Option.isSome_iff_exists.mpr ⟨v, hkept _ v hv⟩
      obtain ⟨s', hload, hs', hcomplete', hkept'⟩ :=
        ih (k := k + 1) (by omega) (by omega) (some (.missing r.address r.role)) hnext hseen'
      exact ⟨s', hstep.trans hload, hs', hcomplete', fun x v hv => hkept' x v (hkept x v hv)⟩

end Rounds

/-- What the ledger says of each address, as of the slot it was written at. -/
def Ledger.lookup (l : Ledger) : Lookup := fun a => do
  let raw ← l.accounts.find? a
  let entity ← raw.read.toOption
  return ⟨entity, raw.slot, raw.slot⟩

theorem Ledger.exists_lookup_iff {l : Ledger} {a : Address} {entity : Entity} :
    (∃ record, l.lookup a = some record ∧ record.entity = entity) ↔
      ∃ raw, l.accounts.find? a = some raw ∧ raw.read = .ok entity := by
  simp only [lookup, Option.bind_eq_bind, Option.bind_eq_some_iff, toOption_eq_some_iff]
  constructor
  · rintro ⟨_, ⟨raw, hraw, entity, hentity, ⟨⟩⟩, rfl⟩
    exact ⟨raw, hraw, hentity⟩
  · rintro ⟨raw, hraw, hentity⟩
    exact ⟨_, ⟨raw, hraw, entity, hentity, rfl⟩, rfl⟩

namespace Engine

variable {e e' e'' : Engine} {a : Address}

def run? (e : Engine) (events : List Event) : Option Engine := events.foldlM after? e

/-- The link has changed in nothing but the commands that were sent. -/
def Asks (e e' : Engine) : Prop :=
  ∃ sent, e'.link = { e.link with
    router := { e.link.router with commands := e.link.router.commands ++ sent } }

theorem asks_of_link_eq (h : e'.link = e.link) : e.Asks e' :=
  ⟨[], by rw [h, List.append_nil]⟩

theorem Asks.trans (h : e.Asks e') (h' : e'.Asks e'') : e.Asks e'' := by
  obtain ⟨sent, hlink⟩ := h
  obtain ⟨sent', hlink'⟩ := h'
  refine ⟨sent ++ sent', ?_⟩
  rw [hlink', hlink, List.append_assoc]

theorem Rebooked.asks (h : e.Rebooked e') : e.Asks e' := by
  obtain ⟨_, _, _, sent, rfl⟩ := h
  exact ⟨sent, rfl⟩

theorem asks_setDependencies (e : Engine) (account : Address) (next : List Address) :
    e.Asks (e.setDependencies account next) := by
  obtain ⟨_, hrebooked, _⟩ := e.rebooked_setDependencies account next
  exact hrebooked.asks

theorem asks_recompose (e : Engine) (account : Address) : e.Asks (e.recompose account) := by
  by_cases hwatched : e.scheduler.watched.contains account = true
  · obtain ⟨_, _, _, _, hrebooked, _⟩ := recompose_spec hwatched
    exact hrebooked.asks
  · rw [recompose, if_neg hwatched]
    exact asks_of_link_eq rfl

theorem asks_foldl {f : Engine → Address → Engine} (hf : ∀ e a, Asks e (f e a))
    (addresses : List Address) (e : Engine) : e.Asks (addresses.foldl f e) :=
  List.foldlRecOn addresses f (asks_of_link_eq rfl) fun next h a _ => h.trans (hf next a)

theorem asks_expireIdle (e : Engine) : e.Asks e.expireIdle := by
  refine asks_foldl (fun e x => ?_) _ e
  dsimp only
  split
  · exact asks_of_link_eq rfl
  · exact (rebooked_untrack _ x).asks

theorem asks_watchStep (h : e.watchStep? = some e') : e.Asks e' := by
  rw [watchStep?] at h
  split at h
  · cases h
  case h_2 account rest _ =>
    cases h
    rw [onWatch]
    dsimp only
    split
    · exact asks_of_link_eq rfl
    · exact asks_setDependencies _ account _

theorem asks_releaseStep (h : e.releaseStep? = some e') : e.Asks e' := by
  rw [releaseStep?] at h
  split at h
  · cases h
  case h_2 account rest _ =>
    cases h
    rw [onRelease]
    split
    · exact asks_setDependencies _ account []
    · exact asks_of_link_eq rfl

theorem asks_eventStep (h : e.eventStep? = some e') : e.Asks e' := by
  simp only [eventStep?, Option.bind_eq_bind, Option.bind_eq_some_iff] at h
  obtain ⟨⟨reception, position⟩, _, h⟩ := h
  cases h
  cases reception with
  | lagged missed => exact asks_of_link_eq rfl
  | event event => cases event <;> exact asks_of_link_eq rfl

/-- What one event preserves. The scheduler only ever sends commands. -/
theorem fit_after (h : e.link.Fit) {event : Event} (hs : e.after? event = some e') :
    e'.link.Fit := by
  have hasks : e.Asks e' → e'.link.Fit := by
    rintro ⟨sent, hlink⟩
    exact hlink ▸ h.withCommands _
  cases event with
  | link event =>
    obtain ⟨link, hlink, rfl⟩ := Option.map_eq_some_iff.mp hs
    exact h.after hlink
  | pin address =>
    cases hs
    have hrequest : e.link.request (·.track address) = e.link.track address := if_pos h.running
    exact hrequest ▸ h.track address
  | watch account =>
    cases hs
    exact h
  | drop id =>
    cases hs
    exact h
  | poll id =>
    cases hs
    exact h
  | accept => exact hasks (asks_watchStep hs)
  | release => exact hasks (asks_releaseStep hs)
  | receive => exact hasks (asks_eventStep hs)
  | flush =>
    simp only [after?, flushStep?, Option.bind_eq_bind, Option.bind_eq_some_iff] at hs
    obtain ⟨_, _, hs⟩ := hs
    split at hs
    · cases hs
      exact hasks (asks_foldl asks_recompose _ _)
    · cases hs
  | expire =>
    simp only [after?, idleStep?, Option.bind_eq_bind, Option.bind_eq_some_iff] at hs
    obtain ⟨_, _, hs⟩ := hs
    split at hs
    · cases hs
      exact hasks (asks_expireIdle e)
    · cases hs
  | tick duration =>
    cases hs
    exact h
  | arrange arrangement =>
    cases hs
    exact h

theorem fit_run (h : e.link.Fit) {events : List Event} (hrun : e.run? events = some e') :
    e'.link.Fit :=
  foldlM_preserves (P := fun e => e.link.Fit) (fun h => fit_after h) h hrun

def pin (e : Engine) (address : Address) : Except Failure Unit × Engine :=
  let (result, link) := e.link.request (·.track address)
  let pinned := e.pinned.insert address
  (result, { e with link, pinned, lastRun := .router })

/-- The router alone has gone on, by some number of its steps. -/
def Yields : Engine → Engine → Prop :=
  Relation.ReflTransGen fun e e' => e.taskStep? .router = some e'

/-- Loads an account. Whenever an address has been tracked, something else goes on. -/
def loadWhile (rest : Engine → Engine) (e : Engine) (account : Address) :
    Except Failure View × Engine :=
  loadWith (fun e a => ((e.pin a).1, rest (e.pin a).2)) lookup e.tolerance account loadRounds none e

theorem load_eq (e : Engine) (account : Address) : e.load account = e.loadWhile settle account :=
  rfl

/-- Ready, and with nothing that is fresh at odds with what the ledger says. -/
structure Poised (ledger : Ledger) (e : Engine) : Prop where
  ready : e.link.Ready
  accounts_eq : e.link.transport.ledger.accounts = ledger.accounts
  within : e.lookup.Within ledger.lookup

variable {ledger : Ledger} {rest : Engine → Engine}

/-- Where nothing is left to do, the router does nothing. -/
theorem Yields.eq (h : e.Yields e') (hidle : e.link.step? = none) : e' = e := by
  rcases Relation.ReflTransGen.cases_head h with heq | ⟨next, hnext, _⟩
  · exact heq.symm
  · rw [taskStep?, hidle] at hnext
    cases hnext

theorem tracks_poised (hrest : ∀ e : Engine, e.Yields (rest e)) :
    Tracks (Poised ledger) (fun e a => ((e.pin a).1, rest (e.pin a).2)) lookup ledger.lookup where
  within h := h.within
  track_eq {e} a h ha := by
    obtain ⟨record, hrecord⟩ := Option.isSome_iff_exists.mp ha
    obtain ⟨raw, hraw, hread⟩ := Ledger.exists_lookup_iff.mp ⟨record, hrecord, rfl⟩
    obtain ⟨link, htrack, hready, haccounts, hseen, hkept, hnew⟩ :=
      h.ready.track (h.accounts_eq ▸ hraw) hread
    have hpin : e.pin a =
        (.ok (), { e with link, pinned := e.pinned.insert a, lastRun := .router }) := by
      have hrequest : e.link.request (·.track a) = e.link.track a := if_pos h.ready.running
      rw [pin, hrequest, htrack]
    refine ⟨{ e with link, pinned := e.pinned.insert a, lastRun := .router }, ?_,
      ⟨hready, haccounts.trans h.accounts_eq, fun x v hv => ?_⟩, hseen, hkept⟩
    · rw [hpin, (hrest _).eq hready.idle]
    · rcases hnew x v hv with hbefore | ⟨rfl, hentity⟩
      · exact h.within x v hbefore
      · exact ⟨record, hrecord, hentity.symm⟩

/-- However it got there, an engine that is connected to a ledger within reach, has nothing left to
read and agrees with the ledger on all that is fresh loads whatever is complete on the ledger. The
router may go on in between. What comes of it are the values of the ledger, or word of slots that
lie too far apart; nothing is ever missing, whatever was tracked before. -/
theorem load_completes {heartbeats : Bool} {changes : List Ledger.Change} {settings : Settings}
    {now : Nat} {events : List Event} {e : Engine} {a : Address} {account : MarginAccount}
    {group : Group} {rest : Engine → Engine}
    (hrun : (start { ledger := changes.foldl Ledger.change { heartbeats } } settings now).run?
      events = some e)
    (hconnected : e.link.router.state = .connected)
    (hreachable : e.link.transport.ledger.reachable = true) (hidle : e.link.step? = none)
    (hcurrent : e.lookup.Within e.link.transport.ledger.lookup)
    (hcomplete : e.link.transport.ledger.lookup.Complete a account group)
    (hrest : ∀ e : Engine, e.Yields (rest e)) :
    ∃ outcome e', ∃ range : SlotRange, e.loadWhile rest a = (outcome, e') ∧
      range.Spans (e'.lookup.slotsOf (Requirement.closure a account group)) ∧
      (∀ x v, e.lookup x = some v → e'.lookup x = some v) ∧
      (range.max - range.min ≤ e.tolerance → ∃ view, outcome = .ok view ∧ view.slots = range ∧
        ∀ role seen, view.part? role = some seen ↔
          ∃ r ∈ Requirement.closure a account group, r.role = role ∧ e'.lookup.Meets r seen ∧
            (e.link.transport.ledger.lookup r.address).map (·.entity) = some seen.value) ∧
      (e.tolerance < range.max - range.min → outcome = .error (.stale range e.tolerance)) := by
  have hfit : e.link.Fit := fit_run (Link.fit_start heartbeats changes _ _ _) hrun
  have hpoised : e.Poised e.link.transport.ledger :=
    ⟨⟨hfit, hconnected, hreachable, hidle⟩, rfl, hcurrent⟩
  have hrounds : 3 < loadRounds + 0 := by decide
  obtain ⟨e', hload, hpoised', hfound, hkept⟩ := (tracks_poised hrest).loadWith_eq hcomplete
    e.tolerance (Nat.zero_le 3) hrounds none hpoised nofun
  obtain ⟨seenAccount, seenGroup, parts, hgathers, rfl, rfl⟩ := hfound.gathers
  refine ⟨_, e', parts.slots seenAccount.slot seenGroup.slot, hload, hgathers.spans, hkept,
    fun hspread => ?_, fun hspread => ?_⟩
  · refine ⟨_, Lookup.build_eq_ok_iff.mpr ⟨seenAccount, seenGroup, parts, hgathers.account_eq,
      hgathers.group_eq, hgathers.resolves, hspread, rfl⟩, rfl, fun role seen => ?_⟩
    rw [hgathers.part?_eq_some_iff]
    constructor
    · rintro ⟨r, hr, hrole, hmeets⟩
      exact ⟨r, hr, hrole, hmeets, hpoised'.within.record_eq hmeets⟩
    · rintro ⟨r, hr, hrole, hmeets, _⟩
      exact ⟨r, hr, hrole, hmeets⟩
  · exact Lookup.build_eq_error_iff.mpr (.inr ⟨_, _, _, hgathers, hspread, rfl⟩)

def yieldToRouter (e : Engine) : Engine := (e.taskStep? .router).getD e

theorem yields_yieldToRouter (e : Engine) : e.Yields e.yieldToRouter := by
  rw [yieldToRouter]
  cases hstep : e.taskStep? .router with
  | none => exact .refl
  | some next => exact .single hstep

/-- The group of an account has been loaded, and the account has not. -/
def halfway : Option Engine := run? (start { ledger := stakedLedger } {} 0) [.pin ⟨2⟩]

theorem closure_staked : Requirement.closure ⟨1⟩ stakedAccount stakedGroup =
    stakedParts.map fun (role, a, _) => ⟨a, role⟩ := by
  decide +kernel

theorem meets_stakedPart {lookup : Lookup} {part : Role × Address × Entity}
    (hpart : part ∈ stakedParts) (h : lookup part.2.1 = some ⟨part.2.2, 1, 1⟩) :
    lookup.Meets ⟨part.2.1, part.1⟩ ⟨part.2.1, 1, part.2.2⟩ := by
  have hfits : ∀ part ∈ stakedParts, part.2.1 ≠ .zero ∧ part.2.2.kind = part.1.kind := by decide
  obtain ⟨hset, hkind⟩ := hfits part hpart
  exact ⟨hset, rfl, hkind, _, h, rfl, rfl⟩

theorem complete_staked {ledger : Lookup}
    (h : ∀ part ∈ stakedParts, ledger part.2.1 = some ⟨part.2.2, 1, 1⟩) :
    ledger.Complete ⟨1⟩ stakedAccount stakedGroup := by
  have hmeets part hpart := meets_stakedPart hpart (h part hpart)
  refine ⟨⟨1, hmeets _ List.mem_cons_self⟩, ⟨1, hmeets _ (.tail _ List.mem_cons_self)⟩,
    fun r hr => ?_⟩
  have hclosure : r ∈ Requirement.closure ⟨1⟩ stakedAccount stakedGroup := .tail _ (.tail _ hr)
  rw [closure_staked] at hclosure
  obtain ⟨part, hpart, rfl⟩ := List.mem_map.mp hclosure
  exact ⟨_, hmeets part hpart⟩

theorem load_completes_halfway :
    ∃ e view e', halfway = some e ∧ e.lookup ⟨1⟩ = none ∧
      e.loadWhile yieldToRouter ⟨1⟩ = (.ok view, e') ∧
      ∀ part ∈ stakedParts, view.part? part.1 = some ⟨part.2.1, 1, part.2.2⟩ := by
  have hchecked : halfway.any (fun e =>
      let loaded := e.loadWhile yieldToRouter ⟨1⟩
      e.link.router.state = .connected ∧ e.link.transport.ledger.reachable = true ∧
      e.link.step?.isNone ∧ e.lookup ⟨1⟩ = none ∧
      e.link.registry.entries.entries.all (fun (x, entry) =>
        (e.link.transport.ledger.lookup x).map (·.entity) = some entry.entity) ∧
      loaded.1.toOption.isSome ∧
      ∀ part ∈ stakedParts,
        e.link.transport.ledger.lookup part.2.1 = some ⟨part.2.2, 1, 1⟩ ∧
        loaded.2.lookup part.2.1 = some ⟨part.2.2, 1, 1⟩) = true := by
    decide +kernel
  obtain ⟨e, hrun, hchecked⟩ := (Option.any_eq_true _ _).mp hchecked
  obtain ⟨hconnected, hreachable, hidle, hnone, hentries, hok, hrecords⟩ :=
    of_decide_eq_true hchecked
  have hcurrent : e.lookup.Within e.link.transport.ledger.lookup := by
    intro x v hv
    obtain ⟨entry, hentry, _, rfl⟩ := Registry.get?_eq_some_iff.mp hv
    have hrecord := List.all_eq_true.mp hentries _ (Table.mem_entries_of_find? hentry)
    exact Option.map_eq_some_iff.mp (of_decide_eq_true hrecord)
  have hcomplete := complete_staked fun part hpart => (hrecords part hpart).1
  obtain ⟨outcome, e', range, hload, _, _, hclose, hfar⟩ := @load_completes true stakedChanges {} 0
    _ e _ _ _ _ hrun hconnected hreachable (Option.isNone_iff_eq_none.mp hidle) hcurrent hcomplete
    yields_yieldToRouter
  simp only [hload] at hok hrecords
  have hspread : range.max - range.min ≤ e.tolerance := by
    by_contra hspread
    rw [hfar (Nat.lt_of_not_le hspread)] at hok
    cases hok
  obtain ⟨view, rfl, _, hparts⟩ := hclose hspread
  refine ⟨e, view, e', hrun, hnone, hload, fun part hpart => ?_⟩
  obtain ⟨hledger, hseen⟩ := hrecords part hpart
  refine (hparts _ _).mpr ⟨⟨part.2.1, part.1⟩, ?_, rfl, meets_stakedPart hpart hseen, ?_⟩
  · rw [closure_staked]
    exact List.mem_map_of_mem hpart
  · rw [hledger]
    rfl

end Engine

end Solvency
