import Solvency.Proofs.Ledger.Feeds
import Solvency.Proofs.Router.Settled
import Solvency.Proofs.Router.Steps
import Solvency.Push.Engine

/-! What may happen to an engine. Callers and the ledger act at any time; the router and the
scheduler each take their own next step, in any order. -/

namespace Solvency.Engine

/-- One thing that happens, and what it writes. An address that is loaded is pinned, and its
command may be answered at once or wait in the queue. The clock may be set to any time, and the
sets of the scheduler may come up in another order than before. -/
inductive Step (e : Engine) : List RawAccount → Engine → Prop
  | link {written : List RawAccount} {link : Link} (h : e.link.Step written link) (lastRun : Task) :
      Step e written { e with link, lastRun }
  | scheduler {e' : Engine} (h : e.schedulerStep? = some e') (lastRun : Task) :
      Step e [] { e' with lastRun }
  | watch (account : Address) : Step e [] (e.watch account).2
  | drop (id : Nat) : Step e [] { e with notifier := e.notifier.drop id }
  | poll (id : Nat) : Step e [] { e with notifier := (e.notifier.poll id).2 }
  | tick (clock : Nat) : Step e [] { e with clock }
  | arrange (arrangement : Arrangement) : Step e [] (e.updateScheduler ({ · with arrangement }))
  | ask (address : Address) : Step e [] { e with
      link := (e.link.send (.track address)).2, pinned := e.pinned.insert address }
  | pin (address : Address) (lastRun : Task) : Step e [] { e with
      link := (e.link.request (·.track address)).2, pinned := e.pinned.insert address, lastRun }

/-- The states that an engine over a ledger may get into, with everything written so far. -/
inductive Reaches : Engine → List RawAccount → Prop
  | start {heartbeats : Bool} {l : Ledger} {writes : List RawAccount}
      (h : l.Reaches heartbeats writes) (settings : Settings) (now : Nat) :
      Reaches (start { ledger := l } settings now) writes
  | step {e e' : Engine} {writes written : List RawAccount} (h : Reaches e writes)
      (hstep : e.Step written e') : Reaches e' (written ++ writes)

variable {e e' : Engine} {writes : List RawAccount}

theorem Reaches.taskStep (h : e.Reaches writes) {task : Task} (hs : e.taskStep? task = some e') :
    e'.Reaches writes := by
  cases task with
  | router =>
    obtain ⟨link, hlink, rfl⟩ := Option.map_eq_some_iff.mp hs
    exact h.step (.link (Link.step_of_step? hlink) .router)
  | scheduler =>
    obtain ⟨next, hnext, rfl⟩ := Option.map_eq_some_iff.mp hs
    exact h.step (.scheduler hnext .scheduler)

/-- What each task keeps is kept until neither has anything left to do. -/
theorem settle_preserves {P : Engine → Prop}
    (hstep : ∀ {e e' : Engine} {task : Task}, P e → e.taskStep? task = some e' → P e')
    (h : P e) : P e.settle := by
  have hwithin : ∀ (limit : Nat) (task : Task) (e : Engine), P e →
      P (e.settleWithin task limit) := by
    intro limit
    induction limit with
    | zero => exact fun _ _ h => h
    | succ limit ih =>
      intro task e h
      rw [Engine.settleWithin]
      split
      case h_1 next hnext => exact ih task next (hstep h hnext)
      case h_2 =>
        split
        case h_1 next hnext => exact ih task.other next (hstep h hnext)
        case h_2 => exact h
  exact hwithin stepLimit e.lastRun.other e h

theorem Reaches.settle (h : e.Reaches writes) : e.settle.Reaches writes :=
  settle_preserves (P := (Reaches · writes)) (fun h => h.taskStep) h

theorem Reaches.wait (h : e.Reaches writes) (ms : Nat) :
    Reaches { e with link := { e.link with now := e.link.now + ms } } writes :=
  h.step (.link (.wait ms) e.lastRun)

theorem Reaches.track (h : e.Reaches writes) (address : Address) :
    (e.track address).2.Reaches writes :=
  (h.step (.pin address .router)).settle

theorem Reaches.resync (h : e.Reaches writes) : e.resync.2.Reaches writes := by
  refine Reaches.settle (e := { e with
    link := (e.link.request Link.resync).2, lastRun := .router }) ?_
  rw [Link.request]
  split
  · exact h.step (.link .resync .router)
  · exact h.step (.link (.wait 0) .router)

theorem Reaches.trackAll (h : e.Reaches writes) (missing : List Address) :
    (loadWith.trackAll Engine.track missing e).2.Reaches writes := by
  induction missing generalizing e with
  | nil => exact h
  | cons address rest ih =>
    have htrack := h.track address
    rw [loadWith.trackAll]
    split
    case h_1 next hnext =>
      rw [hnext] at htrack
      exact ih htrack
    case h_2 error next hnext =>
      rw [hnext] at htrack
      exact htrack

theorem Reaches.load (h : e.Reaches writes) (account : Address) :
    (e.load account).2.Reaches writes := by
  have hrounds : ∀ rounds last {e : Engine} tolerance, e.Reaches writes →
      (loadWith Engine.track lookup tolerance account rounds last e).2.Reaches writes := by
    intro rounds
    induction rounds with
    | zero => exact fun _ _ _ h => h
    | succ rounds ih =>
      intro last e tolerance h
      rw [loadWith]
      split
      · exact h
      · split
        · simp only
          split
          · exact h
          · have htracked := h.trackAll
              ((e.lookup.requirements account).filterMap fun r =>
                if (e.lookup r.address).isNone then some r.address else none)
            split
            case h_1 next hnext =>
              rw [hnext] at htracked
              exact ih _ _ htracked
            case h_2 error next hnext =>
              rw [hnext] at htracked
              exact htracked
        · exact h
  exact hrounds _ _ _ h

/-- A deposit, an order and a perpetual position, each in market 0. -/
def stakedAccount : MarginAccount :=
  { (default : MarginAccount) with
    group := ⟨2⟩
    deposits := .ofFn fun i => if i.val = 0 then 1 else 0
    inMarginBasket := .ofFn (·.val == 0)
    spotOpenOrders := .ofFn fun i => if i.val = 0 then ⟨6⟩ else .zero
    perpAccounts := .ofFn fun i =>
      { (default : PerpAccount) with basePosition := if i.val = 0 then 1 else 0 } }

def stakedGroup : Group :=
  { (default : Group) with
    numOracles := 1
    oracles := .ofFn fun i => if i.val = 0 then ⟨4⟩ else .zero
    tokens := .ofFn fun _ => { (default : TokenInfo) with rootBank := ⟨3⟩ }
    spotMarkets := .ofFn fun _ =>
      { (default : SpotMarketInfo) with spotMarket := ⟨5⟩, maintAssetWeight := 1 }
    perpMarkets := .ofFn fun _ => { (default : PerpMarketInfo) with
      perpMarket := ⟨7⟩, maintAssetWeight := 1, baseLotSize := 1 } }

def stakedBank : RootBank := { (default : RootBank) with depositIndex := 1 }

def stakedPrice : OraclePrice :=
  { (default : OraclePrice) with
    aggregate := { (default : PriceInfo) with price := 5, status := .trading } }

def stakedOrders : OpenOrders :=
  { (default : OpenOrders) with
    accountFlags := ⟨AccountFlags.initialized ||| AccountFlags.openOrders⟩
    baseTokenTotal := 3 }

/-- All that the account refers to, and the account itself. -/
def stakedParts : List (Role × Address × Entity) :=
  [(.marginAccount, ⟨1⟩, .marginAccount stakedAccount), (.group, ⟨2⟩, .group stakedGroup),
    (.rootBank 0, ⟨3⟩, .rootBank stakedBank), (.oracle 0, ⟨4⟩, .oraclePrice stakedPrice),
    (.openOrders 0, ⟨6⟩, .openOrders stakedOrders), (.perpMarket 0, ⟨7⟩, .perpMarket default)]

def stakedChanges : List Ledger.Change :=
  stakedParts.map fun (_, a, entity) => .op (.setAccount a entity)

def stakedLedger : Ledger := stakedChanges.foldl Ledger.change {}

def stakedWrites : List RawAccount :=
  (stakedParts.map fun (_, a, entity) => .ofEntity a 1 entity).reverse

theorem canonical_stakedParts : ∀ part ∈ stakedParts, part.2.2.Canonical := by
  simp only [stakedParts, List.forall_mem_cons]
  refine ⟨⟨.inl rfl, .nil, nofun⟩, ⟨rfl, by decide⟩, ⟨rfl, by decide⟩, Nat.zero_le _, ?_, rfl, ?_⟩
  · exact ⟨by decide, by decide, by decide, .nil, nofun⟩
  · exact fun _ h => absurd h List.not_mem_nil

theorem readable_stakedWrites : Link.Readable stakedWrites := by
  intro w hw
  obtain ⟨part, hpart, rfl⟩ := List.mem_map.mp (List.mem_reverse.mp hw)
  exact ⟨_, RawAccount.read_ofEntity (canonical_stakedParts part hpart) _ _⟩

theorem reaches_stakedLedger : stakedLedger.Reaches true stakedWrites := by
  have haccount := (@Ledger.Reaches.start true).perform
    (.setAccount ⟨1⟩ (.marginAccount stakedAccount))
  have hgroup := haccount.perform (.setAccount ⟨2⟩ (.group stakedGroup))
  have hbank := hgroup.perform (.setAccount ⟨3⟩ (.rootBank stakedBank))
  have hprice := hbank.perform (.setAccount ⟨4⟩ (.oraclePrice stakedPrice))
  have horders := hprice.perform (.setAccount ⟨6⟩ (.openOrders stakedOrders))
  exact horders.perform (.setAccount ⟨7⟩ (.perpMarket default))

/-- Time passes, and then each task does what it can. -/
def elapse (e : Engine) (ms : Nat) : Engine :=
  settle { e with link := { e.link with now := e.link.now + ms } }

theorem Reaches.elapse (h : e.Reaches writes) (ms : Nat) : (e.elapse ms).Reaches writes :=
  (h.wait ms).settle

/-- An engine that was asked to watch an account, and has had time for each layer of what the
account refers to. -/
def stakedEngine : Engine :=
  let e := ((start { ledger := stakedLedger } {} 0).watch ⟨1⟩).2.settle
  ((e.elapse 50).elapse 50).elapse 50

theorem reaches_stakedEngine : stakedEngine.Reaches stakedWrites := by
  have hasked := (Reaches.start reaches_stakedLedger {} 0).step (.watch ⟨1⟩)
  exact ((hasked.settle.elapse 50).elapse 50).elapse 50

end Solvency.Engine
