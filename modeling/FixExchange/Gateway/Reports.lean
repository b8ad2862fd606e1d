/-
# What the gateway sends and records

The messages that a section of a callback sends and the events that it pushes, and the
messages that a message handler sends itself: the log of sent messages and the queue of
events only grow, by these.
-/
import FixExchange.Gateway.TaskEffects

namespace FixExchange

/-- The messages that a task sends. -/
def Task.sends (g : FixGateway) : Task → List (SessionID × ClientMessage)
  | .fillRouting _ => []
  | .fillOrders fill session =>
    [(session, .execReport
      (makeFillReport fill (if fill.leavesQty = 0 then .Fill else .PartFill)))]
  | .fillDone _ _ => []
  | .onCancel req found =>
    match g.orderSessions.lookup req.origOrderId, g.activeOrders.lookup req.origOrderId with
    | some session, some order =>
      if found then [(session, .execReport (makeExecReport order .Canceled))] else []
    | _, _ => []
  | .onTIFCancel order =>
    match g.orderSessions.lookup order.exchangeId with
    | none => []
    | some session => [(session, .execReport (makeTifCancelReport order))]
  | .onReplace req found newLeavesQty =>
    match g.orderSessions.lookup req.origOrderId, g.activeOrders.lookup req.origOrderId with
    | some session, some existing =>
      if found then
        [(session, .execReport
          { makeExecReport (FixGateway.replaced existing req newLeavesQty) .Replaced with
            origClOrdId := some req.oldClordId })]
      else
        [(session, .cancelReject (makeCancelReject req.newClordId req.oldClordId
          req.origOrderId "Order not found in book"))]
    | _, _ => []
  | .onOrderRested _ _ => []

/-- The events that a task pushes. -/
def Task.pushes (g : FixGateway) : Task → List PersistenceEvent
  | .fillRouting _ => []
  | .fillOrders _ _ => []
  | .fillDone maker taker => [.fill maker, .takerFill taker]
  | .onCancel req found =>
    match g.orderSessions.lookup req.origOrderId, g.activeOrders.lookup req.origOrderId with
    | some _, some order => if found then [.cancel req.origOrderId order] else []
    | _, _ => []
  | .onTIFCancel _ => []
  | .onReplace req found newLeavesQty =>
    match g.orderSessions.lookup req.origOrderId, g.activeOrders.lookup req.origOrderId with
    | some _, some _ => if found then [.replace req (max 0 newLeavesQty)] else []
    | _, _ => []
  | .onOrderRested order leavesQty => [.rested order leavesQty]

namespace FixGateway

lemma runTask_sent (g : FixGateway) (t : Task) :
    (g.runTask t).1.sent = g.sent ++ t.sends g := by
  cases t with
  | fillRouting fill =>
    simp only [runTask, fillRouting, Task.sends, List.append_nil]
    split
    · rfl
    · split_ifs <;> rfl
  | fillOrders fill session => rfl
  | fillDone maker taker => exact (List.append_nil _).symm
  | onCancel req found =>
    cases hs : g.orderSessions.lookup req.origOrderId with
    | none => simp [runTask, onCancel, Task.sends, hs]
    | some session =>
      cases ha : g.activeOrders.lookup req.origOrderId with
      | none => simp [runTask, onCancel, Task.sends, ha]
      | some order =>
        cases found <;> simp [runTask, onCancel, Task.sends, hs, ha, sendToTarget, persist]
  | onTIFCancel order =>
    cases hs : g.orderSessions.lookup order.exchangeId <;>
      simp [runTask, onTIFCancel, Task.sends, hs, sendToTarget]
  | onReplace req found newLeavesQty =>
    cases hs : g.orderSessions.lookup req.origOrderId with
    | none => simp [runTask, onReplace, Task.sends, hs]
    | some session =>
      cases ha : g.activeOrders.lookup req.origOrderId with
      | none => simp [runTask, onReplace, Task.sends, ha]
      | some existing =>
        cases found <;> simp [runTask, onReplace, Task.sends, hs, ha, sendToTarget, persist]
  | onOrderRested order leavesQty => exact (List.append_nil _).symm

/-- A report of a task goes to the session of its order; the session has been looked up in the
task before when the report is about a fill. -/
lemma sends_session {g : FixGateway} {t : Task} {session : SessionID} {report : ExecutionReport}
    (hactive : ∀ id o, g.active id = some o → o.exchangeId = id)
    (h : (session, .execReport report) ∈ t.sends g) :
    (∃ fill, t = .fillOrders fill session ∧ report.orderId = fill.exchangeId) ∨
      g.orderSessions.lookup report.orderId = some session := by
  cases t with
  | fillRouting fill => exact absurd h List.not_mem_nil
  | fillOrders fill session' =>
    obtain ⟨rfl, hreport⟩ := Prod.mk.inj (List.mem_singleton.mp h)
    obtain rfl := ClientMessage.execReport.inj hreport
    exact Or.inl ⟨fill, rfl, rfl⟩
  | fillDone maker taker => exact absurd h List.not_mem_nil
  | onCancel req found =>
    simp only [Task.sends] at h
    split at h
    · rename_i session' o hs ho
      split_ifs at h
      · obtain ⟨rfl, hreport⟩ := Prod.mk.inj (List.mem_singleton.mp h)
        obtain rfl := ClientMessage.execReport.inj hreport
        have hid : (makeExecReport o .Canceled).orderId = req.origOrderId := hactive _ o ho
        exact Or.inr (by rw [hid, hs])
      · exact absurd h List.not_mem_nil
    · exact absurd h List.not_mem_nil
  | onTIFCancel o =>
    simp only [Task.sends] at h
    split at h
    · exact absurd h List.not_mem_nil
    · rename_i session' hs
      obtain ⟨rfl, hreport⟩ := Prod.mk.inj (List.mem_singleton.mp h)
      obtain rfl := ClientMessage.execReport.inj hreport
      exact Or.inr hs
  | onReplace req found newLeavesQty =>
    simp only [Task.sends] at h
    split at h
    · rename_i session' existing hs ho
      split_ifs at h
      · obtain ⟨rfl, hreport⟩ := Prod.mk.inj (List.mem_singleton.mp h)
        obtain rfl := ClientMessage.execReport.inj hreport
        have hid : (makeExecReport (replaced existing req newLeavesQty) .Replaced).orderId
            = req.origOrderId := hactive _ existing ho
        exact Or.inr (by rw [hid, hs])
      · obtain ⟨-, hreject⟩ := Prod.mk.inj (List.mem_singleton.mp h)
        exact absurd hreject (by simp)
    · exact absurd h List.not_mem_nil
  | onOrderRested o leavesQty => exact absurd h List.not_mem_nil

/-- Pushing events appends them to the queue. -/
lemma pushEvents_eq (p : PersistenceLayer) (evts : List PersistenceEvent) :
    pushEvents p evts = ⟨p.queue ++ evts, p.db⟩ := by
  induction evts generalizing p with
  | nil => rw [List.append_nil]; rfl
  | cons evt evts ih =>
    rw [pushEvents, List.foldl_cons, ← pushEvents, ih]
    simp [PersistenceLayer.push]

lemma runTask_persistence (g : FixGateway) (t : Task) :
    (g.runTask t).1.persistence = g.persistence.map fun p => pushEvents p (t.pushes g) := by
  have hnone : g.persistence = g.persistence.map fun p => pushEvents p [] := by
    rw [show (fun p => pushEvents p []) = id from rfl, Option.map_id]
    rfl
  cases t with
  | fillRouting fill =>
    simp only [runTask, fillRouting, Task.pushes]
    split
    · exact hnone
    · split_ifs <;> exact hnone
  | fillOrders fill session => exact hnone
  | fillDone maker taker =>
    simp [runTask, fillDone, persist, Task.pushes, pushEvents, Function.comp_def]
  | onCancel req found =>
    cases hs : g.orderSessions.lookup req.origOrderId with
    | none => simp [runTask, onCancel, Task.pushes, hs, pushEvents]
    | some session =>
      cases ha : g.activeOrders.lookup req.origOrderId with
      | none => simp [runTask, onCancel, Task.pushes, ha, pushEvents]
      | some order =>
        cases found <;>
          simp [runTask, onCancel, Task.pushes, hs, ha, sendToTarget, persist, pushEvents]
  | onTIFCancel order =>
    cases hs : g.orderSessions.lookup order.exchangeId <;>
      simp [runTask, onTIFCancel, Task.pushes, hs, sendToTarget, pushEvents]
  | onReplace req found newLeavesQty =>
    cases hs : g.orderSessions.lookup req.origOrderId with
    | none => simp [runTask, onReplace, Task.pushes, hs, pushEvents]
    | some session =>
      cases ha : g.activeOrders.lookup req.origOrderId with
      | none => simp [runTask, onReplace, Task.pushes, ha, pushEvents]
      | some existing =>
        cases found <;>
          simp [runTask, onReplace, Task.pushes, hs, ha, sendToTarget, persist, pushEvents]
  | onOrderRested order leavesQty => rfl

/-- A new order that ends with its first section: nothing is sent, or a reject. -/
lemma onNewOrderSingle_sent (g : FixGateway) (engine : MatchingEngine) (msg : NewOrderSingle)
    (session : SessionID) :
    (g.onNewOrderSingle engine msg session).1.sent = g.sent ∨
      ∃ report, (g.onNewOrderSingle engine msg session).1.sent
          = g.sent ++ [(session, .execReport report)] ∧
        report.orderId = exchangeId (g.orderSeq + 1) ∧
        report.execType = ExecType.Rejected.char ∧
        (g.onNewOrderSingle engine msg session).2 = .idle := by
  simp only [onNewOrderSingle]
  split_ifs
  · exact Or.inr ⟨_, rfl, rfl, rfl, rfl⟩
  · exact Or.inl rfl
  · exact Or.inr ⟨_, rfl, rfl, rfl, rfl⟩
  · exact Or.inr ⟨_, rfl, rfl, rfl, rfl⟩
  · exact Or.inr ⟨_, rfl, rfl, rfl, rfl⟩
  · exact Or.inl rfl

lemma onOrderCancelRequest_sent (g : FixGateway) (msg : OrderCancelRequest)
    (session : SessionID) : (g.onOrderCancelRequest msg session).1.sent = g.sent := by
  simp only [onOrderCancelRequest]
  split <;> rfl

/-- A replace request that ends with its first section: nothing is sent, or a reject. -/
lemma onOrderCancelReplaceRequest_sent (g : FixGateway) (msg : OrderCancelReplaceRequest)
    (session : SessionID) :
    (g.onOrderCancelReplaceRequest msg session).1.sent = g.sent ∨
      ∃ reject, (g.onOrderCancelReplaceRequest msg session).1.sent
          = g.sent ++ [(session, .cancelReject reject)] ∧
        (g.onOrderCancelReplaceRequest msg session).2 = .idle := by
  simp only [onOrderCancelReplaceRequest]
  split
  · exact Or.inl rfl
  · split
    · exact Or.inr ⟨_, rfl, rfl⟩
    · split
      · exact Or.inl rfl
      · split_ifs
        · exact Or.inr ⟨_, rfl, rfl⟩
        · exact Or.inl rfl

end FixGateway

end FixExchange
