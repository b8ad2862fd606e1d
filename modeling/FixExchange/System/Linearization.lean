/-
# The exchange is a sequential market

The threads of the exchange take their turns in any order; what the engine does is nevertheless
what a market does that works off one item at a time, in the order in which the messages that led
to them were received: the books are the books of the reference market, the calls of the callbacks
tell what happens there, in the same order, and the items are those of the messages that the gateway
has admitted, but for the ones that still wait (`exchange_refines_market`).  The market counts
without a bound, so that this holds of every run in which the engine computes with `int`s.
-/
import FixExchange.Engine.Reference
import FixExchange.Lib.Refinement
import FixExchange.System.Owners
import FixExchange.System.Resting

namespace FixExchange

/-- The callback that a task completes. -/
def Task.callback : Task → Option Callback
  | .fillRouting _ | .fillOrders _ _ => none
  | .fillDone maker taker => some (.onFill maker taker)
  | .onCancel req found => some (.onCancel req found)
  | .onTIFCancel order => some (.onTIFCancel order)
  | .onReplace req found newLeavesQty => some (.onReplace req found newLeavesQty)
  | .onOrderRested order leavesQty => some (.onOrderRested order leavesQty)

/-- The tasks of a callback complete it, and no other. -/
@[simp] lemma Callback.filterMap_tasks (cb : Callback) : cb.tasks.filterMap Task.callback = [cb] := by
  cases cb <;> rfl

lemma filterMap_flatMap_tasks (cbs : List Callback) :
    (cbs.flatMap Callback.tasks).filterMap Task.callback = cbs := by
  induction cbs with
  | nil => rfl
  | cons cb cbs ih =>
    rw [List.flatMap_cons, List.filterMap_append, ih, Callback.filterMap_tasks]
    rfl

/-- What a task leaves to be run completes no callback. -/
lemma FixGateway.filterMap_runTask (g : FixGateway) (t : Task) :
    (g.runTask t).2.filterMap Task.callback = [] := by
  cases t with
  | fillRouting fill =>
    simp only [runTask]
    split <;> rfl
  | _ => rfl

namespace System

variable {s s' s₀ : System} {a : Action} {as : List Action}

/-- The market that the books of the engine stand for. -/
def market (s : System) : Market := fun sym => (s.engine.books.lookup sym).map OrderBook.toFlat

/-- What the engine reads in a step: the item that it takes from the queue, or a new symbol. -/
def inputs (s : System) : Action → List MarketInput
  | .engine => if s.tasks = [] then (s.queue.head?.map MarketInput.item).toList else []
  | .registerSymbol symbol => [.symbol symbol]
  | .message _ _ | .logon _ | .handle | .persist => []

/-- The engine computes with `int`s in a step. -/
def ComputesInts (s : System) (a : Action) : Prop :=
  ∀ i ∈ s.inputs a, ∀ item ∈ i.item?, ∀ b ∈ s.engine.books.lookup item.symbol, b.InRange item

instance (s : System) (a : Action) : Decidable (s.ComputesInts a) :=
  inferInstanceAs (Decidable (∀ i ∈ s.inputs a, _))

/-- The callback that is completed in a step. -/
def completes (s : System) : Action → List Callback
  | .engine => (s.tasks.head?.bind Task.callback).toList
  | .message _ _ | .logon _ | .handle | .persist | .registerSymbol _ => []

/-- The callbacks that are still to be completed. -/
def callbacks (s : System) : List Callback := s.tasks.filterMap Task.callback

/-- The item of a message that the gateway admits: an order that it accepts, or a request that it
passes on. -/
def admits (s : System) : Action → List WorkItem
  | .message msg session => (s.onMessage session msg).2.item.toList
  | .logon _ | .handle | .engine | .persist | .registerSymbol _ => []

/-- The items that wait to be taken by the engine. -/
def waiting (s : System) : List WorkItem := s.queue ++ s.handler.item.toList

/-! ## Items wait in the order of the messages -/

/-- **One step** lets an item wait, or takes the first one that waits. -/
lemma waiting_step (hstep : s.step a = some s') :
    s.waiting ++ s.admits a = (s.inputs a).filterMap MarketInput.item? ++ s'.waiting := by
  cases a with
  | message msg session =>
    obtain ⟨hidle, rfl⟩ := step_message hstep
    simp [waiting, admits, inputs, hidle, Handler.item]
  | logon session =>
    obtain ⟨-, rfl⟩ := step_logon hstep
    simp [waiting, admits, inputs]
  | handle =>
    rcases handle_cases hstep with ⟨o, session, hh, rfl⟩ | ⟨o, session, hh, rfl⟩ |
        ⟨item, hitem, rfl⟩
    · simp [waiting, admits, inputs, hh, Handler.item]
    · simp [waiting, admits, inputs, hh, Handler.item]
    · have hidle : Handler.idle.item = none := rfl
      simp [waiting, admits, inputs, item_of_nextItem hitem, hidle]
  | engine =>
    rcases engineStep_cases hstep with ⟨t, ts, ht, rfl⟩ | ⟨ht, item, queue, b, hq, hb, rfl⟩
    · simp [waiting, admits, inputs, ht]
    · simp [waiting, admits, inputs, ht, hq, MarketInput.item?]
  | persist =>
    obtain ⟨p, p', -, -, rfl⟩ := step_persist hstep
    simp [waiting, admits, inputs]
  | registerSymbol symbol =>
    obtain ⟨e, -, rfl⟩ := step_registerSymbol hstep
    simp [waiting, admits, inputs, MarketInput.item?]

/-! ## The engine and the market -/

/-- Processing an item in its book is working it off in the market. -/
lemma market_process (hf : s.Founded) {item : WorkItem} {b : OrderBook}
    (hb : s.engine.books.lookup item.symbol = some b) (hfits : b.InRange item) :
    (s.market.next (.item item)).1 = (fun sym =>
        ((s.engine.books.insert item.symbol (processIn b item).1).lookup sym).map OrderBook.toFlat) ∧
      List.Forall₂ Callback.Tells (processIn b item).2 (s.market.next (.item item)).2 := by
  obtain ⟨hbook, htells⟩ :=
    OrderBook.processIn_refines (hf.books.wf _ b hb) (hf.books.keyed _ b hb) item
      hfits
  have hm : s.market item.symbol = some b.toFlat := by
    rw [market, hb]
    rfl
  rw [Market.next_item hm]
  refine ⟨funext fun sym => ?_, htells⟩
  dsimp only
  by_cases hsym : sym = item.symbol
  · subst hsym
    rw [Function.update_self, AList.lookup_insert, ← hbook]
    rfl
  · rw [Function.update_of_ne hsym, AList.lookup_insert_ne hsym]
    rfl

/-- Registering a symbol gives the market an empty book. -/
lemma market_registerSymbol {e : MatchingEngine} {symbol : String}
    (he : s.engine.registerSymbol symbol = some e) :
    (s.market.next (.symbol symbol)).1 = fun sym => (e.books.lookup sym).map OrderBook.toFlat := by
  obtain ⟨hbooks, -, hmem⟩ := MatchingEngine.registerSymbol_books he
  rw [Market.next]
  funext sym
  dsimp only
  rcases hbooks sym with hsame | ⟨rfl, hnone, hnew⟩
  · rw [hsame]
    by_cases hm : s.market symbol = none
    · rw [if_pos hm, Function.update_of_ne]
      · rfl
      · -- the new symbol has a book now, and had none
        rintro rfl
        have hnone : s.engine.books.lookup sym = none := Option.map_eq_none_iff.mp hm
        rw [hnone] at hsame
        exact AList.lookup_eq_none.mp hsame (hmem sym (Or.inr rfl))
    · rw [if_neg hm]
      rfl
  · have hm : s.market sym = none := by
      rw [market, hnone]
      rfl
    rw [if_pos hm, Function.update_self, hnew]
    rfl

/-- **One step** feeds the market with what the engine reads, and the calls that it makes are
completed later, in their order. -/
lemma market_step (hf : s.Founded) (hok : s.ComputesInts a) (hstep : s.step a = some s') :
    ∃ new, s.callbacks ++ new = s.completes a ++ s'.callbacks ∧
      (Transition.feed Market.next s.market (s.inputs a)).1 = s'.market ∧
      List.Forall₂ Callback.Tells new (Transition.feed Market.next s.market (s.inputs a)).2 := by
  have hsame : s.completes a = [] → s.inputs a = [] → s'.tasks = s.tasks → s'.engine = s.engine →
      ∃ new, s.callbacks ++ new = s.completes a ++ s'.callbacks ∧
        (Transition.feed Market.next s.market (s.inputs a)).1 = s'.market ∧
        List.Forall₂ Callback.Tells new (Transition.feed Market.next s.market (s.inputs a)).2 := by
    intro hcompletes hinputs htasks hengine
    have hmarket : s'.market = s.market := by
      unfold market
      rw [hengine]
    rw [hcompletes, hinputs, callbacks, callbacks, htasks, hmarket]
    exact ⟨[], List.append_nil _, rfl, .nil⟩
  cases a with
  | message msg session =>
    obtain ⟨-, rfl⟩ := step_message hstep
    exact hsame rfl rfl rfl rfl
  | logon session =>
    obtain ⟨-, rfl⟩ := step_logon hstep
    exact hsame rfl rfl rfl rfl
  | handle =>
    rcases handle_cases hstep with ⟨o, session, -, rfl⟩ | ⟨o, session, -, rfl⟩ | ⟨item, -, rfl⟩ <;>
      exact hsame rfl rfl rfl rfl
  | engine =>
    rcases engineStep_cases hstep with ⟨t, ts, ht, rfl⟩ | ⟨ht, item, queue, b, hq, hb, rfl⟩
    · have hinputs : s.inputs .engine = [] := by rw [inputs, ht]; rfl
      rw [hinputs]
      refine ⟨[], ?_, rfl, .nil⟩
      rw [List.append_nil, callbacks, callbacks, completes, ht, List.filterMap_append,
        FixGateway.filterMap_runTask, List.nil_append, List.filterMap_cons, List.head?_cons,
        Option.bind_some]
      cases t.callback <;> rfl
    · have hinputs : s.inputs .engine = [.item item] := by rw [inputs, ht, hq]; rfl
      have hfits : b.InRange item :=
        hok _ (by rw [hinputs]; exact List.mem_singleton_self _) item rfl b hb
      obtain ⟨hmarket, htells⟩ := market_process hf hb hfits
      rw [hinputs, Transition.feed_singleton]
      refine ⟨(processIn b item).2, ?_, hmarket, htells⟩
      rw [callbacks, callbacks, completes, ht, filterMap_flatMap_tasks]
      rfl
  | persist =>
    obtain ⟨p, p', -, -, rfl⟩ := step_persist hstep
    exact hsame rfl rfl rfl rfl
  | registerSymbol symbol =>
    obtain ⟨e, he, rfl⟩ := step_registerSymbol hstep
    refine ⟨[], List.append_nil _, ?_, ?_⟩
    · rw [inputs, Transition.feed_singleton]
      exact market_registerSymbol he
    · rw [inputs, Transition.feed_singleton]
      exact .nil

/-- **The exchange is a sequential market.**  In every run in which the engine computes with `int`s,
after a start on any sound database, the books are those of the reference market that reads what the
engine has read; the callbacks that have been completed, and then the ones that are still to be, tell
what happens in this market, in its order; and the items that it has read, and then the ones that
wait, are those of the messages that the gateway has admitted, in the order in which they were
received. -/
theorem exchange_refines_market {cfg : Config} {db : Database} (hstart : StartsOn cfg db s₀)
    (hdb : db.Sound) (h : Transition.Reaches step ComputesInts s₀ as s) :
    (Transition.feed Market.next s₀.market (Transition.collect step inputs s₀ as)).1 = s.market ∧
      List.Forall₂ Callback.Tells (Transition.collect step completes s₀ as ++ s.callbacks)
        (Transition.feed Market.next s₀.market (Transition.collect step inputs s₀ as)).2 ∧
      Transition.collect step admits s₀ as
        = (Transition.collect step inputs s₀ as).filterMap MarketInput.item? ++ s.waiting := by
  have hfounded : s₀.Founded := hstart.founded hdb
  have hcallbacks : s₀.callbacks = [] := by cases hstart <;> rfl
  have hwaiting : s₀.waiting = [] := by cases hstart <;> rfl
  obtain ⟨hmarket, htells⟩ := h.refines (fun _ _ _ hf _ hstep => hf.step hstep)
    (fun _ _ _ hf hok hstep => market_step hf hok hstep) hfounded hcallbacks
  refine ⟨hmarket, htells, ?_⟩
  have hqueue := h.conserves (fun _ _ _ hstep => waiting_step hstep)
  rw [hwaiting, List.nil_append] at hqueue
  rw [hqueue]
  congr 1
  -- the items that are taken are the items among what is read
  refine h.invariant_history (I := fun as _ =>
    Transition.collect step (fun s a => (s.inputs a).filterMap MarketInput.item?) s₀ as
      = (Transition.collect step inputs s₀ as).filterMap MarketInput.item?) rfl
    fun as t a u hrun ih _ _ => ?_
  rw [hrun.collect_snoc, hrun.collect_snoc, List.filterMap_append, ih]

/-- A fill-or-kill order trades while a cancel request waits for a handler. -/
def tradingRun : List Action :=
  Sample.submit (Sample.limit "a" '2' 5 10) Sample.alice
    ++ Sample.submit (.newOrder ⟨"b", "X", '1', '2', 3, some 10, some '4'⟩) Sample.bob
    ++ Sample.engine 4 ++ [.message (Sample.cancel "a") Sample.alice]

theorem exchange_refines_market_sample :
    ∃ s, RunTo Sample.config ComputesInts tradingRun s ∧ s.callbacks ≠ [] ∧ s.waiting ≠ [] ∧
      (Transition.feed Market.next (start Sample.config).market
        (Transition.collect step inputs (start Sample.config) tradingRun)).1 = s.market := by
  have hreach : ∃ s, RunTo Sample.config ComputesInts tradingRun s ∧ s.callbacks ≠ [] ∧
      s.waiting ≠ [] :=
    Transition.exists_reaches (by decide +kernel) (by decide +kernel)
  obtain ⟨s, hrun, hcallbacks, hwaiting⟩ := hreach
  have hsound : Database.empty.Sound := ⟨List.nodup_nil, by simp [Database.empty]⟩
  exact ⟨s, hrun, hcallbacks, hwaiting, (exchange_refines_market .fresh hsound hrun).1⟩

end System

end FixExchange
