/-
# What a step reports

The execution reports of a run, one step at a time: a step of a handler or of a callback reports
at most once, and the report is built from the order or the fill that the step is about
(`executionReports_step`).  The status reports and the historical replays of a logon are not
among them.
-/
import FixExchange.System.ClOrdIds

namespace FixExchange

/-- The execution reports among some messages. -/
def executionReports (messages : List (SessionID × ClientMessage)) : List ExecutionReport :=
  messages.filterMap fun message =>
    match message.2 with
    | .execReport report => some report
    | .cancelReject _ => none

lemma executionReports_append (l l' : List (SessionID × ClientMessage)) :
    executionReports (l ++ l') = executionReports l ++ executionReports l' :=
  List.filterMap_append

lemma mem_executionReports {messages : List (SessionID × ClientMessage)}
    {report : ExecutionReport} :
    report ∈ executionReports messages ↔ ∃ session, (session, .execReport report) ∈ messages := by
  rw [executionReports, List.mem_filterMap]
  constructor
  · rintro ⟨⟨session, message⟩, hm, hreport⟩
    cases message with
    | execReport r => exact ⟨session, by rw [← Option.some.inj hreport]; exact hm⟩
    | cancelReject r => exact absurd hreport (by simp)
  · rintro ⟨session, hm⟩
    exact ⟨_, hm, rfl⟩

/-- A new order that is refused: the report is about an order with the next id. -/
lemma FixGateway.onNewOrderSingle_refused (g : FixGateway) (engine : MatchingEngine)
    (msg : NewOrderSingle) (session : SessionID) :
    (g.onNewOrderSingle engine msg session).1.sent = g.sent ∨
      ∃ o text, o.exchangeId = exchangeId (g.orderSeq + 1) ∧
        (g.onNewOrderSingle engine msg session).1.sent = g.sent ++
          [(session, .execReport { makeExecReport o .Rejected with text := some text })] := by
  simp only [onNewOrderSingle]
  split_ifs
  · exact Or.inr ⟨_, _, rfl, rfl⟩
  · exact Or.inl rfl
  · exact Or.inr ⟨_, _, rfl, rfl⟩
  · exact Or.inr ⟨_, _, rfl, rfl⟩
  · exact Or.inr ⟨_, _, rfl, rfl⟩
  · exact Or.inl rfl

namespace System

variable {s s' : System} {a : Action}

/-- `LiveReport s a report`: the step `a` from `s` sends the report. -/
inductive LiveReport (s : System) : Action → ExecutionReport → Prop
  | rejected {msg : NewOrderSingle} {session : SessionID} {o : Order} {text : String}
      (hid : o.exchangeId = exchangeId (s.gateway.orderSeq + 1))
      (hsends : s.sends (.message (.newOrder msg) session)
        = [(session, .execReport { makeExecReport o .Rejected with text := some text })]) :
      LiveReport s (.message (.newOrder msg) session)
        { makeExecReport o .Rejected with text := some text }
  | new {o : Order} {session : SessionID} (h : s.handler = .activate o session) :
      LiveReport s .handle (makeExecReport o .New)
  | fill {fill : Fill} {session : SessionID} {ts : List Task}
      (ht : s.tasks = .fillOrders fill session :: ts) :
      LiveReport s .engine
        (makeFillReport fill (if fill.leavesQty = 0 then .Fill else .PartFill))
  | expired {o : Order} {session : SessionID} {ts : List Task}
      (ht : s.tasks = .onTIFCancel o :: ts)
      (hs : s.gateway.orderSessions.lookup o.exchangeId = some session) :
      LiveReport s .engine (makeTifCancelReport o)
  | canceled {req : CancelRequest} {o : Order} {session : SessionID} {ts : List Task}
      (ht : s.tasks = .onCancel req true :: ts)
      (hs : s.gateway.orderSessions.lookup req.origOrderId = some session)
      (ho : s.gateway.activeOrders.lookup req.origOrderId = some o) :
      LiveReport s .engine (makeExecReport o .Canceled)
  | replaced {req : ReplaceRequest} {newLeavesQty : ℤ} {o : Order} {session : SessionID}
      {ts : List Task} (ht : s.tasks = .onReplace req true newLeavesQty :: ts)
      (hs : s.gateway.orderSessions.lookup req.origOrderId = some session)
      (ho : s.gateway.activeOrders.lookup req.origOrderId = some o) :
      LiveReport s .engine
        { makeExecReport (FixGateway.replaced o req newLeavesQty) .Replaced with
          origClOrdId := some req.oldClordId }

lemma executionReports_task {t : Task} {ts : List Task} (ht : s.tasks = t :: ts) :
    executionReports (t.sends s.gateway) = [] ∨
      ∃ report, executionReports (t.sends s.gateway) = [report] ∧ s.LiveReport .engine report := by
  cases t with
  | fillRouting fill => exact Or.inl rfl
  | fillOrders fill session => exact Or.inr ⟨_, rfl, .fill ht⟩
  | fillDone maker taker => exact Or.inl rfl
  | onCancel req found =>
    simp only [Task.sends]
    split
    · rename_i session o hs ho
      split_ifs with hfound
      · subst hfound
        exact Or.inr ⟨_, rfl, .canceled ht hs ho⟩
      · exact Or.inl rfl
    · exact Or.inl rfl
  | onTIFCancel o =>
    simp only [Task.sends]
    split
    · exact Or.inl rfl
    · rename_i session hs
      exact Or.inr ⟨_, rfl, .expired ht hs⟩
  | onReplace req found newLeavesQty =>
    simp only [Task.sends]
    split
    · rename_i session o hs ho
      split_ifs with hfound
      · subst hfound
        exact Or.inr ⟨_, rfl, .replaced ht hs ho⟩
      · exact Or.inl rfl
    · exact Or.inl rfl
  | onOrderRested o leavesQty => exact Or.inl rfl

/-- **A step reports at most once**, about the order that it is working on. -/
theorem executionReports_step (s : System) (a : Action) :
    executionReports (s.liveSends a) = [] ∨
      ∃ report, executionReports (s.liveSends a) = [report] ∧ s.LiveReport a report := by
  cases a with
  | message msg session =>
    have hsent := (onMessage_sent s session msg).1
    rcases (onMessage_sent s session msg).2 with h | ⟨m, report, rfl, h, -⟩ | ⟨m, reject, -, h, -⟩
    · refine Or.inl ?_
      show executionReports (s.sends (.message msg session)) = []
      rw [h]
      rfl
    · -- the report is the one of the refused order
      rcases FixGateway.onNewOrderSingle_refused s.gateway s.engine m session with
        hsame | ⟨o, text, hid, hmore⟩
      · rw [h] at hsent
        have hsame : (s.onMessage session (.newOrder m)).1.sent = s.gateway.sent := hsame
        rw [hsame] at hsent
        exact absurd hsent (by simp)
      · have hmore : (s.onMessage session (.newOrder m)).1.sent = s.gateway.sent ++ _ := hmore
        have hsends := List.append_cancel_left (hmore.symm.trans hsent)
        refine Or.inr ⟨{ makeExecReport o .Rejected with text := some text }, ?_,
          .rejected hid hsends.symm⟩
        show executionReports (s.sends (.message (.newOrder m) session)) = _
        rw [← hsends]
        rfl
    · refine Or.inl ?_
      show executionReports (s.sends (.message msg session)) = []
      rw [h]
      rfl
  | logon session => exact Or.inl rfl
  | handle =>
    cases hh : s.handler with
    | activate o session =>
      refine Or.inr ⟨_, ?_, .new hh⟩
      show executionReports (s.sends .handle) = _
      rw [sends, hh]
      rfl
    | _ =>
      refine Or.inl ?_
      show executionReports (s.sends .handle) = []
      rw [sends, hh]
      rfl
  | engine =>
    cases ht : s.tasks with
    | nil =>
      rw [liveSends_take ht]
      exact Or.inl rfl
    | cons t ts =>
      rw [liveSends_task ht]
      exact executionReports_task ht
  | persist => exact Or.inl rfl
  | registerSymbol symbol => exact Or.inl rfl

/-- What a task sends is what the step sends. -/
lemma LiveReport.mem_sends {report : ExecutionReport} (h : s.LiveReport .engine report) :
    report ∈ executionReports (s.liveSends .engine) := by
  cases h with
  | fill ht =>
    rw [liveSends_task ht]
    exact List.mem_singleton.mpr rfl
  | expired ht hs =>
    rw [liveSends_task ht, Task.sends, hs]
    exact List.mem_singleton.mpr rfl
  | canceled ht hs ho =>
    rw [liveSends_task ht, Task.sends, hs, ho]
    exact List.mem_singleton.mpr rfl
  | replaced ht hs ho =>
    rw [liveSends_task ht, Task.sends, hs, ho]
    exact List.mem_singleton.mpr rfl

/-- The execution reports of a run. -/
def liveReports (s : System) (as : List Action) : List ExecutionReport :=
  executionReports (s.liveLog as)

lemma liveReports_snoc {s₀ : System} {ok : System → Action → Prop} {as : List Action}
    (h : Transition.Reaches step ok s₀ as s) (a : Action) :
    s₀.liveReports (as ++ [a]) = s₀.liveReports as ++ executionReports (s.liveSends a) := by
  rw [liveReports, liveLog_snoc h, executionReports_append, liveReports]

end System

end FixExchange
