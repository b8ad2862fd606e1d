/-
# The price collar across a restart

The collar of `RiskEngine::check_price` is around the last trade of the symbol, which `onFill`
passes to the risk engine.  `src/main.cpp` restores symbols and resting orders from the
database, and nothing of the trades: a process that starts on the database of another one takes
no decision of the collar until the symbol has traded again.  So a restart keeps the decision
about an order exactly when the trades of the run do not refuse it
(`restart_keeps_decision_iff`).
-/
import FixExchange.System.Owners

namespace FixExchange

/-! ## The last trade -/

/-- The price of the last one of some trades in a symbol. -/
def lastTrade (symbol : String) (trades : List Fill) : Option Price :=
  (trades.filter (·.symbol = symbol)).getLast?.map Fill.price

lemma lastTrade_append (symbol : String) (l l' : List Fill) :
    lastTrade symbol (l ++ l') = (lastTrade symbol l').or (lastTrade symbol l) := by
  rw [lastTrade, List.filter_append, List.getLast?_append, Option.map_or]
  rfl

lemma lastTrade_singleton (symbol : String) (fill : Fill) :
    lastTrade symbol [fill] = if fill.symbol = symbol then some fill.price else none := by
  by_cases h : fill.symbol = symbol <;> simp [lastTrade, h]

/-- The risk engine after a trade. -/
lemma RiskEngine.lookup_onTrade (r : RiskEngine) (fill : Fill) (symbol : String) :
    (r.onTrade fill.symbol fill.price).lastPrice.lookup symbol
      = (lastTrade symbol [fill]).or (r.lastPrice.lookup symbol) := by
  rw [lastTrade_singleton]
  show (r.lastPrice.insert fill.symbol fill.price).lookup symbol = _
  split_ifs with h
  · rw [h, AList.lookup_insert]
    rfl
  · rw [AList.lookup_insert_ne (Ne.symm h)]
    rfl

/-- The trade that a call of the engine reports. -/
def Callback.trades : Callback → List Fill
  | .onFill maker _ => [maker]
  | _ => []

/-- The trade that a task still has to pass to the risk engine. -/
def Task.trades : Task → List Fill
  | .fillDone maker _ => [maker]
  | .fillRouting _ | .fillOrders _ _ | .onCancel _ _ | .onTIFCancel _ | .onReplace _ _ _
  | .onOrderRested _ _ => []

lemma Callback.trades_tasks (cb : Callback) : cb.tasks.flatMap Task.trades = cb.trades := by
  cases cb <;> rfl

/-- A task tells the risk engine about its trade, and leaves no other one behind. -/
lemma FixGateway.runTask_risk (g : FixGateway) (t : Task) :
    (g.runTask t).1.risk.cfg = g.risk.cfg ∧ (g.runTask t).2.flatMap Task.trades = [] ∧
      ∀ symbol, (g.runTask t).1.risk.lastPrice.lookup symbol
        = (lastTrade symbol t.trades).or (g.risk.lastPrice.lookup symbol) := by
  cases t with
  | fillRouting fill =>
    simp only [runTask, fillRouting]
    cases g.orderSessions.lookup fill.exchangeId with
    | none => exact ⟨rfl, rfl, fun _ => rfl⟩
    | some session =>
      dsimp only
      split_ifs <;> exact ⟨rfl, rfl, fun _ => rfl⟩
  | fillOrders fill session => exact ⟨rfl, rfl, fun _ => rfl⟩
  | fillDone maker taker => exact ⟨rfl, rfl, g.risk.lookup_onTrade maker⟩
  | onCancel req found =>
    simp only [runTask, onCancel]
    split
    · split_ifs <;> exact ⟨rfl, rfl, fun _ => rfl⟩
    · exact ⟨rfl, rfl, fun _ => rfl⟩
  | onTIFCancel order =>
    simp only [runTask, onTIFCancel]
    split <;> exact ⟨rfl, rfl, fun _ => rfl⟩
  | onReplace req found newLeavesQty =>
    simp only [runTask, onReplace]
    split
    · split_ifs <;> exact ⟨rfl, rfl, fun _ => rfl⟩
    · exact ⟨rfl, rfl, fun _ => rfl⟩
  | onOrderRested order leavesQty => exact ⟨rfl, rfl, fun _ => rfl⟩

namespace System

variable {cfg : Config} {db : Database} {ok : System → Action → Prop} {s s' s₀ : System}
  {as : List Action} {a : Action}

/-- The trades that the engine makes in a step. -/
def makes (s : System) : Action → List Fill
  | .engine =>
    match s.tasks, s.queue with
    | [], item :: _ =>
      ((s.engine.process item).map fun (_, callbacks) => callbacks.flatMap Callback.trades).getD []
    | _, _ => []
  | _ => []

/-- The trades of a run. -/
def trades (s : System) (as : List Action) : List Fill := Transition.collect step makes s as

/-- The risk engine knows the trades that have been made, except for those that the engine
thread is still to pass on. -/
structure KnowsTrades (cfg : Config) (trades : List Fill) (s : System) : Prop where
  cfg : s.gateway.risk.cfg = cfg.risk
  last : ∀ symbol, lastTrade symbol trades
    = (lastTrade symbol (s.tasks.flatMap Task.trades)).or (s.gateway.risk.lastPrice.lookup symbol)

/-- A step of another thread leaves the trades alone. -/
lemma KnowsTrades.other {trades : List Fill} (h : s.KnowsTrades cfg trades) (ha : a ≠ .engine)
    (hrisk : s'.gateway.risk = s.gateway.risk) (htasks : s'.tasks = s.tasks) :
    s'.KnowsTrades cfg (trades ++ s.makes a) := by
  have hmakes : s.makes a = [] := by
    cases a with
    | engine => exact absurd rfl ha
    | _ => rfl
  refine ⟨by rw [hrisk, h.cfg], fun symbol => ?_⟩
  rw [hmakes, List.append_nil, hrisk, htasks, h.last]

/-- What the engine thread does next. -/
lemma KnowsTrades.engine {trades : List Fill} (h : s.KnowsTrades cfg trades)
    (hstep : s.engineStep = some s') : s'.KnowsTrades cfg (trades ++ s.makes .engine) := by
  rcases engineStep_cases hstep with ⟨t, ts, ht, rfl⟩ | ⟨ht, item, queue, b, hq, hb, rfl⟩
  · obtain ⟨hcfg, hmore, hlast⟩ := s.gateway.runTask_risk t
    have hmakes : s.makes .engine = [] := by simp [makes, ht]
    refine ⟨hcfg.trans h.cfg, fun symbol => ?_⟩
    -- the trade of the task was to be passed on, and now it has been
    rw [hmakes, List.append_nil, h.last, ht]
    show _ = (lastTrade symbol (((s.gateway.runTask t).2 ++ ts).flatMap Task.trades)).or
      ((s.gateway.runTask t).1.risk.lastPrice.lookup symbol)
    rw [List.flatMap_append, hmore, List.nil_append, hlast, List.flatMap_cons, lastTrade_append,
      Option.or_assoc]
  · -- the trades of the item are to be passed on after each other
    have hmakes : s.makes .engine
        = ((processIn b item).2.flatMap Callback.tasks).flatMap Task.trades := by
      have hprocess := MatchingEngine.process_eq_some.mpr ⟨b, hb, rfl, rfl⟩
      simp [makes, ht, hq, hprocess, List.flatMap_assoc, Callback.trades_tasks]
    refine ⟨h.cfg, fun symbol => ?_⟩
    rw [lastTrade_append, h.last, ht, hmakes]
    rfl

/-- What one step does. -/
theorem KnowsTrades.step {trades : List Fill} (h : s.KnowsTrades cfg trades)
    (hstep : s.step a = some s') : s'.KnowsTrades cfg (trades ++ s.makes a) := by
  cases a with
  | message msg session =>
    obtain ⟨-, rfl⟩ := step_message hstep
    refine h.other (by simp) ?_ rfl
    rcases onMessage_cases s session msg with ⟨seq, sent, heq, -⟩ | ⟨m, o, -, -, heq⟩ |
      ⟨m, req, -, -, heq⟩ | ⟨m, req, -, -, heq⟩ <;> rw [heq] <;> rfl
  | logon session =>
    obtain ⟨-, rfl⟩ := step_logon hstep
    exact h.other (by simp) rfl rfl
  | handle =>
    rcases handle_cases hstep with ⟨o, session, -, rfl⟩ | ⟨o, session, -, rfl⟩ | ⟨item, -, rfl⟩ <;>
      exact h.other (by simp) rfl rfl
  | engine => exact h.engine hstep
  | persist =>
    obtain ⟨p, p', -, -, rfl⟩ := step_persist hstep
    exact h.other (by simp) rfl rfl
  | registerSymbol symbol =>
    obtain ⟨e, -, rfl⟩ := step_registerSymbol hstep
    exact h.other (by simp) rfl rfl

/-- A process starts with no trades, on any database. -/
lemma StartsOn.knowsTrades (h : StartsOn cfg db s) : s.KnowsTrades cfg [] := by
  cases h <;> exact ⟨rfl, fun _ => rfl⟩

lemma knowsTrades_of_run (hstart : StartsOn cfg db s₀) (h : Transition.Reaches step ok s₀ as s) :
    s.KnowsTrades cfg (s₀.trades as) := by
  refine h.invariant_history (I := fun as s => s.KnowsTrades cfg (s₀.trades as))
    hstart.knowsTrades fun as t a u hrun ht _ hstep => ?_
  rw [trades, hrun.collect_snoc]
  exact ht.step hstep

/-- **When a restart keeps the decision of the risk checks**: for every process that has stopped
with its database flushed, and every order, the restarted process decides as the stopped one
would have, unless the order is within the quantity limit and its limit price is outside of the
collar around the last trade that the process has made in the symbol. -/
theorem restart_keeps_decision_iff (hstart : StartsOn cfg db s₀)
    (h : Transition.Reaches step ok s₀ as s) (hstop : s.Drained) (symbol : String)
    (type side : Char) (qty : ℤ) (price : Price) :
    ∀ p ∈ s.gateway.persistence, p.queue = [] →
      (((recover cfg p.db).gateway.risk.check symbol type side qty price = "" ↔
          s.gateway.risk.check symbol type side qty price = "") ↔
        ¬ ((0 < cfg.risk.maxOrderQty → qty ≤ cfg.risk.maxOrderQty) ∧ type = '2' ∧ price ≠ 0 ∧
          0 < cfg.risk.priceCollarPct ∧
          ∃ last ∈ lastTrade symbol (s₀.trades as), cfg.risk.Breached side price last)) := by
  intro p _ _
  have hknows := knowsTrades_of_run hstart h
  have hlast : s.gateway.risk.lastPrice.lookup symbol = lastTrade symbol (s₀.trades as) := by
    rw [hknows.last, hstop.tasks]
    rfl
  have hnew : (recover cfg p.db).gateway.risk = ⟨cfg.risk, ∅⟩ := rfl
  rw [RiskEngine.check_eq_empty, RiskEngine.check_eq_empty, RiskEngine.checkQty_eq_empty,
    RiskEngine.checkQty_eq_empty, RiskEngine.checkPrice_eq_empty, RiskEngine.checkPrice_eq_empty,
    hnew, hknows.cfg, hlast]
  -- the restarted process knows of no trade
  have hskip : ∀ last, last ∉ (∅ : StrMap Price).lookup symbol := by simp
  by_cases htype : type = '2'
  · rw [if_pos htype]
    constructor
    · rintro hsame ⟨hqty, -, hprice, hpct, last, hmem, hbreached⟩
      have hpass := hsame.mp ⟨hqty, fun _ _ last hmem => absurd hmem (hskip last)⟩
      exact hpass.2 hprice hpct last hmem hbreached
    · intro hnot
      refine ⟨fun hpass => ⟨hpass.1, fun hprice hpct last hmem hbreached => ?_⟩,
        fun hpass => ⟨hpass.1, fun _ _ last hmem => absurd hmem (hskip last)⟩⟩
      exact hnot ⟨hpass.1, htype, hprice, hpct, last, hmem, hbreached⟩
  · rw [if_neg htype]
    refine iff_of_true ?_ fun hbreach => htype hbreach.2.1
    exact and_congr_right fun _ =>
      iff_of_true (fun hprice => absurd rfl hprice) fun hprice => absurd rfl hprice

/-- An exchange for one symbol, with a collar of five percent. -/
def restartConfig : Config := { Sample.config with risk := { priceCollarPct := 5 } }

/-- A trade at ten, after which the process stops. -/
def sampleTradeRun : List Action :=
  Sample.submit (Sample.limit "a" '2' 5 10) Sample.alice ++ Sample.engine 2
    ++ Sample.submit (Sample.limit "b" '1' 5 10) Sample.bob ++ Sample.engine 6
    ++ List.replicate 3 .persist

/-- An order within the collar: both processes accept it. -/
theorem restart_keeps_decision_iff_sample :
    ∃ s, Transition.Reaches step Any (start restartConfig) sampleTradeRun s ∧
      ∃ p ∈ s.gateway.persistence, p.queue = [] ∧
        ((recover restartConfig p.db).gateway.risk.check "X" '2' '1' 5 (21 / 2) = "" ↔
          s.gateway.risk.check "X" '2' '1' 5 (21 / 2) = "") := by
  have hreach : ∃ s, Transition.Reaches step Any (start restartConfig) sampleTradeRun s ∧
      (s.Drained ∧ ∃ p ∈ s.gateway.persistence, p.queue = []) :=
    Transition.exists_reaches (by decide +kernel) (by decide +kernel)
  obtain ⟨s, hrun, hstop, p, hp, hq⟩ := hreach
  refine ⟨s, hrun, p, hp, hq, (restart_keeps_decision_iff .fresh hrun hstop "X" '2' '1' 5 (21 / 2)
    p hp hq).mpr ?_⟩
  have htrade : lastTrade "X" ((start restartConfig).trades sampleTradeRun) = some 10 := by
    decide +kernel
  rintro ⟨-, -, -, -, last, hlast, hbreached⟩
  rw [htrade] at hlast
  obtain rfl := Option.some.inj hlast
  exact absurd hbreached (by decide +kernel)

/-- A buy at ten times the last trade is refused by the process, and accepted after a restart. -/
theorem restart_drops_collar :
    ∃ s, Transition.Reaches step Any (start restartConfig) sampleTradeRun s ∧ s.Drained ∧
      ∃ p ∈ s.gateway.persistence, p.queue = [] ∧
        s.gateway.risk.check "X" '2' '1' 5 100 ≠ "" ∧
        (recover restartConfig p.db).gateway.risk.check "X" '2' '1' 5 100 = "" := by
  have hreach : ∃ s, Transition.Reaches step Any (start restartConfig) sampleTradeRun s ∧
      (s.Drained ∧ ∃ p ∈ s.gateway.persistence, p.queue = [] ∧
        s.gateway.risk.check "X" '2' '1' 5 100 ≠ "" ∧
        (recover restartConfig p.db).gateway.risk.check "X" '2' '1' 5 100 = "") :=
    Transition.exists_reaches (by decide +kernel) (by decide +kernel)
  exact hreach

end System

end FixExchange
