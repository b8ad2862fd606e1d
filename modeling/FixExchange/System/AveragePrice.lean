/-
# The average price of the fill reports

A fill report has the price of its fill as the average price of the order.  The executions of an
order are the trades that the gateway has settled, which are the trades of the engine in their
order (`trades_settled`); the average is right exactly as long as the fill has the average price
of the executions before it (`avgPx_true_iff`).
-/
import FixExchange.System.FillReports

namespace FixExchange

/-- The shares of an order that have been traded. -/
def tradedQty (id : String) (es : List Entry) : ℤ :=
  (es.map fun
    | .trade fill => if fill.exchangeId = id then fill.qty else 0
    | .quantity _ _ => 0).sum

/-- What has been paid for the shares of an order that have been traded. -/
def tradedValue (id : String) (es : List Entry) : Price :=
  (es.map fun
    | .trade fill => if fill.exchangeId = id then fill.price * fill.qty else 0
    | .quantity _ _ => 0).sum

/-- The trades among some entries. -/
def tradesOf (es : List Entry) : List Entry :=
  es.filter fun
    | .trade _ => true
    | .quantity _ _ => false

/-- The average price in a report is the one of the executions of its order. -/
def AvgPxTrue (es : List Entry) (r : ExecutionReport) : Prop :=
  r.avgPx * tradedQty r.orderId es = tradedValue r.orderId es

section

variable {id : String} {es es' : List Entry}

lemma tradedQty_append : tradedQty id (es ++ es') = tradedQty id es + tradedQty id es' := by
  simp [tradedQty]

lemma tradedValue_append : tradedValue id (es ++ es') = tradedValue id es + tradedValue id es' := by
  simp [tradedValue]

lemma tradedQty_trade (fill : Fill) : tradedQty fill.exchangeId [.trade fill] = fill.qty := by
  simp [tradedQty]

lemma tradedValue_trade (fill : Fill) :
    tradedValue fill.exchangeId [.trade fill] = fill.price * fill.qty := by
  simp [tradedValue]

lemma tradesOf_append : tradesOf (es ++ es') = tradesOf es ++ tradesOf es' := List.filter_append ..

/-- What is pending are trades. -/
lemma tradesOf_pendingEntries (ts : List Task) : tradesOf (pendingEntries ts) = pendingEntries ts := by
  refine List.filter_eq_self.mpr fun e he => ?_
  obtain ⟨t, -, fill, rfl, -⟩ := mem_pendingEntries he
  rfl

end

/-- A quantity that an item sets is no trade. -/
lemma OrderBook.tradesOf_renewal (b : OrderBook) (item : WorkItem) :
    tradesOf (b.renewal item) = [] := by
  cases item with
  | replace req =>
    simp only [OrderBook.renewal]
    split_ifs <;> rfl
  | order o => rfl
  | cancel req => rfl

namespace System

variable {s s' : System} {a : Action} {as : List Action} {r : ExecutionReport}

/-- What the gateway has settled in a run. -/
def settled (s : System) (as : List Action) : List Entry := Transition.collect step follows s as

lemma settled_snoc {s₀ : System} {ok : System → Action → Prop}
    (h : Transition.Reaches step ok s₀ as s) (a : Action) :
    s₀.settled (as ++ [a]) = s₀.settled as ++ s.follows a := h.collect_snoc a

/-- A step moves trades from what is pending to what is settled, and what it enters is pending. -/
lemma trades_step (hstep : s.step a = some s') :
    pendingEntries s.tasks ++ tradesOf (s.enters a)
      = tradesOf (s.follows a) ++ pendingEntries s'.tasks := by
  have hack : tradesOf s.acknowledged = [] := by
    simp only [acknowledged]
    split <;> rfl
  cases a with
  | message msg session =>
    obtain ⟨-, rfl⟩ := step_message hstep
    exact List.append_nil _
  | logon session =>
    obtain ⟨-, rfl⟩ := step_logon hstep
    exact List.append_nil _
  | handle =>
    have hsame : s'.tasks = s.tasks := by
      rcases handle_cases hstep with ⟨o, session, -, rfl⟩ | ⟨o, session, -, rfl⟩ | ⟨item, -, rfl⟩ <;>
        rfl
    rw [enters, follows, hack, hsame, List.append_nil, List.nil_append]
  | engine =>
    rcases engineStep_cases hstep with ⟨t, ts, ht, rfl⟩ | ⟨ht, item, queue, b, hq, hb, rfl⟩
    · have htrades : tradesOf (t.follows s.gateway) = t.follows s.gateway := by
        cases t with
        | fillRouting fill =>
          simp only [Task.follows]
          split_ifs <;> rfl
        | _ => rfl
      rw [(enters_task ht).1, (enters_task ht).2, htrades, ht, pendingEntries_cons,
        Task.entries_eq s.gateway t, pendingEntries_append, ← List.append_assoc]
      exact List.append_nil _
    · rw [(enters_take ht hq hb).1, (enters_take ht hq hb).2, b.tradesOf_renewal, ht,
        OrderBook.itemEntries, tradesOf_append, b.tradesOf_renewal, tradesOf_pendingEntries]
      rfl
  | persist =>
    obtain ⟨p, p', -, -, rfl⟩ := step_persist hstep
    exact List.append_nil _
  | registerSymbol symbol =>
    obtain ⟨e, -, rfl⟩ := step_registerSymbol hstep
    exact List.append_nil _

/-- **The gateway settles the trades of the engine in their order.** -/
theorem trades_settled {cfg : Config} {ok : System → Action → Prop} (h : RunTo cfg ok as s) :
    tradesOf ((start cfg).journal as)
      = tradesOf ((start cfg).settled as) ++ pendingEntries s.tasks := by
  refine h.invariant_history
    (I := fun as s => tradesOf ((start cfg).journal as)
      = tradesOf ((start cfg).settled as) ++ pendingEntries s.tasks)
    rfl fun as s a s' hrun ih _ hstep => ?_
  rw [journal_snoc hrun, settled_snoc hrun, tradesOf_append, tradesOf_append, ih,
    List.append_assoc, List.append_assoc, trades_step hstep]

/-- **When the average price is right**: a fill report is sent for a fill, and its average price
is the one of the executions of the order, including the fill, exactly if the fill has the
average price of the executions before it. -/
theorem avgPx_true_iff {cfg : Config} {ok : System → Action → Prop} (h : RunTo cfg ok as s)
    (hr : r ∈ executionReports (s.liveSends a)) (hfill : r.IsFill) :
    ∃ fill session ts, a = .engine ∧ s.tasks = .fillOrders fill session :: ts ∧
      r = makeFillReport fill (if fill.leavesQty = 0 then .Fill else .PartFill) ∧
      (AvgPxTrue ((start cfg).settled (as ++ [a])) r ↔
        fill.price * tradedQty fill.exchangeId ((start cfg).settled as)
          = tradedValue fill.exchangeId ((start cfg).settled as)) := by
  obtain ⟨fill, session, ts, rfl, ht, rfl⟩ := (mem_step_reports hr).isFill hfill
  refine ⟨fill, session, ts, rfl, ht, rfl, ?_⟩
  have hfollows : s.follows .engine = [.trade fill] := (enters_task ht).2
  show fill.price * tradedQty fill.exchangeId _ = tradedValue fill.exchangeId _ ↔ _
  rw [settled_snoc h, hfollows, tradedQty_append, tradedValue_append, tradedQty_trade,
    tradedValue_trade, Int.cast_add, mul_add]
  exact add_left_inj _

/-- The order of `partlyFilledRun` is about to be reported as filled again, at the same price. -/
def filledTwiceRun : List Action :=
  partlyFilledRun ++ Sample.engine 4 ++ Sample.submit (Sample.limit "d" '1' 3 10) Sample.bob
    ++ Sample.engine 2

theorem avgPx_true_iff_sample :
    ∃ s, RunTo Sample.config (fun _ _ => True) filledTwiceRun s ∧
      ∃ r ∈ executionReports (s.liveSends .engine), r.avgPx = 10 ∧
        tradedQty r.orderId ((start Sample.config).settled filledTwiceRun) = 4 ∧
        AvgPxTrue ((start Sample.config).settled (filledTwiceRun ++ [.engine])) r := by
  have hreach : ∃ s, RunTo Sample.config (fun _ _ => True) filledTwiceRun s ∧
      ∃ r ∈ executionReports (s.liveSends .engine), r.IsFill ∧ r.avgPx = 10 ∧
        tradedQty r.orderId ((start Sample.config).settled filledTwiceRun) = 4 ∧
        tradedValue r.orderId ((start Sample.config).settled filledTwiceRun) = 40 :=
    Transition.exists_reaches (by decide +kernel) (by decide +kernel)
  obtain ⟨s, hrun, r, hr, hfill, havg, hqty, hvalue⟩ := hreach
  refine ⟨s, hrun, r, hr, havg, hqty, ?_⟩
  obtain ⟨fill, session, ts, -, -, rfl, hiff⟩ := avgPx_true_iff hrun hr hfill
  have hprice : fill.price = 10 := havg
  have hqty : tradedQty fill.exchangeId ((start Sample.config).settled filledTwiceRun) = 4 := hqty
  have hvalue : tradedValue fill.exchangeId ((start Sample.config).settled filledTwiceRun) = 40 :=
    hvalue
  refine hiff.mpr ?_
  rw [hprice, hqty, hvalue]
  norm_num

/-- An order buys five shares at 10 and five at 11, and the second fill is about to be
reported. -/
def sweepFillsRun : List Action :=
  Sample.submit (Sample.limit "a" '2' 5 10) Sample.alice ++ Sample.engine 2
    ++ Sample.submit (Sample.limit "b" '2' 5 11) Sample.alice ++ Sample.engine 2
    ++ Sample.submit (Sample.limit "c" '1' 10 11) Sample.bob ++ Sample.engine 9

/-- Ten shares have been bought for 105, and the report says that they cost 11 on average. -/
theorem sweep_avgPx_false :
    ∃ s, RunTo Sample.config (fun _ _ => True) sweepFillsRun s ∧
      ∃ r ∈ executionReports (s.liveSends .engine), r.IsFill ∧ r.avgPx = 11 ∧
        tradedQty r.orderId ((start Sample.config).settled (sweepFillsRun ++ [.engine])) = 10 ∧
        tradedValue r.orderId ((start Sample.config).settled (sweepFillsRun ++ [.engine])) = 105 ∧
        ¬ AvgPxTrue ((start Sample.config).settled (sweepFillsRun ++ [.engine])) r := by
  have hreach : ∃ s, RunTo Sample.config (fun _ _ => True) sweepFillsRun s ∧
      ∃ r ∈ executionReports (s.liveSends .engine), r.IsFill ∧ r.avgPx = 11 ∧
        tradedQty r.orderId ((start Sample.config).settled (sweepFillsRun ++ [.engine])) = 10 ∧
        tradedValue r.orderId ((start Sample.config).settled (sweepFillsRun ++ [.engine])) = 105 :=
    Transition.exists_reaches (by decide +kernel) (by decide +kernel)
  obtain ⟨s, hrun, r, hr, hfill, havg, hqty, hvalue⟩ := hreach
  refine ⟨s, hrun, r, hr, hfill, havg, hqty, hvalue, fun htrue => ?_⟩
  rw [AvgPxTrue, havg, hqty, hvalue] at htrue
  norm_num at htrue

end System

end FixExchange
