/-
# The reports about an order

The execution reports about an order that a process has accepted form a word: an
acknowledgement, then partial fills and replaces in any number and order, and then at most one
end, a fill or a cancel, with nothing behind it (`reports_follow_protocol`).  The proof follows
an order through its stages (`Stage`).
-/
import FixExchange.System.Closing
import FixExchange.System.Owners

namespace FixExchange

/-! ## Words of reports -/

/-- The kinds of the execution reports about an order, among some messages. -/
def reportTypes (id : String) (messages : List (SessionID × ClientMessage)) : List Char :=
  messages.filterMap fun message =>
    match message.2 with
    | .execReport report => if report.orderId = id then some report.execType else none
    | .cancelReject _ => none

lemma reportTypes_append (id : String) (l l' : List (SessionID × ClientMessage)) :
    reportTypes id (l ++ l') = reportTypes id l ++ reportTypes id l' := List.filterMap_append

lemma reportTypes_report (id : String) (session : SessionID) (report : ExecutionReport) :
    reportTypes id [(session, .execReport report)]
      = if report.orderId = id then [report.execType] else [] := by
  by_cases h : report.orderId = id <;> simp [reportTypes, h]

/-- A report that an open order may have any number of. -/
def IsMiddle (c : Char) : Prop := c = ExecType.PartFill.char ∨ c = ExecType.Replaced.char

/-- A report that an order ends with. -/
def IsTerminal (c : Char) : Prop := c = ExecType.Fill.char ∨ c = ExecType.Canceled.char

/-- New, then any number of partial fills and replaces, then at most one fill or cancel. -/
def IsReportWord (w : List Char) : Prop :=
  ∃ mid last, w = ExecType.New.char :: (mid ++ last) ∧ (∀ c ∈ mid, IsMiddle c) ∧
    (last = [] ∨ ∃ c, last = [c] ∧ IsTerminal c)

/-- **The report of a task** about an order: none, or one that the order may have any number
of, or its end, behind which it is not open. -/
lemma reportTypes_task {g : FixGateway}
    (hactive : ∀ id o, g.active id = some o → o.exchangeId = id) (t : Task) (id : String) :
    reportTypes id (t.sends g) = [] ∨
      (id ∈ t.ids ∧ (t.tells = some id ∨ g.active id ≠ none) ∧
        ∃ c, reportTypes id (t.sends g) = [c] ∧
          (IsMiddle c ∨ IsTerminal c ∧ t.closes = some id ∧ (g.runTask t).1.active id = none)) := by
  cases t with
  | fillRouting fill => exact Or.inl rfl
  | fillOrders fill session =>
    rw [Task.sends, reportTypes_report]
    by_cases hid : fill.exchangeId = id
    · refine Or.inr ⟨List.mem_singleton.mpr hid.symm, Or.inl (congrArg some hid), _, if_pos hid, ?_⟩
      by_cases h0 : fill.leavesQty = 0
      · refine Or.inr ⟨?_, ?_, ?_⟩
        · rw [if_pos h0]
          exact Or.inl rfl
        · rw [Task.closes, if_pos h0, hid]
        · have hopen : (g.fillOrders fill session).active
              = g.active.setOpen fill.exchangeId fill.leavesQty :=
            FixGateway.active_setLeaves _ _ _
          show (g.fillOrders fill session).active id = none
          rw [hopen, ← hid, OrderLedger.setOpen_self, if_pos h0]
      · refine Or.inl ?_
        rw [if_neg h0]
        exact Or.inl rfl
    · exact Or.inl (if_neg hid)
  | fillDone maker taker => exact Or.inl rfl
  | onCancel req found =>
    cases hs : g.orderSessions.lookup req.origOrderId with
    | none => exact Or.inl (by simp [Task.sends, hs, reportTypes])
    | some session =>
      cases ha : g.activeOrders.lookup req.origOrderId with
      | none => exact Or.inl (by simp [Task.sends, ha, reportTypes])
      | some o =>
        cases found with
        | false => exact Or.inl (by simp [Task.sends, hs, ha, reportTypes])
        | true =>
          have ho : (makeExecReport o .Canceled).orderId = req.origOrderId := hactive _ o ha
          have hsends : (Task.onCancel req true).sends g
              = [(session, .execReport (makeExecReport o .Canceled))] := by
            simp [Task.sends, hs, ha]
          rw [hsends, reportTypes_report, ho]
          by_cases hid : req.origOrderId = id
          · refine Or.inr ⟨List.mem_singleton.mpr hid.symm, Or.inr ?_, _, if_pos hid,
              Or.inr ⟨Or.inr rfl, congrArg some hid, ?_⟩⟩
            · rw [← hid]
              exact fun hnone => absurd (ha.symm.trans hnone) (by simp)
            · have hrun : (g.runTask (.onCancel req true)).1.active
                  = Ledger.ofAList (g.activeOrders.erase req.origOrderId) := by
                simp only [FixGateway.runTask, FixGateway.onCancel, hs, ha]
                rfl
              rw [hrun, ← hid]
              exact AList.lookup_erase _ _
          · exact Or.inl (if_neg hid)
  | onTIFCancel o =>
    cases hs : g.orderSessions.lookup o.exchangeId with
    | none => exact Or.inl (by simp [Task.sends, hs, reportTypes])
    | some session =>
      have hsends : (Task.onTIFCancel o).sends g
          = [(session, .execReport (makeTifCancelReport o))] := by
        simp [Task.sends, hs]
      rw [hsends, reportTypes_report]
      by_cases hid : o.exchangeId = id
      · refine Or.inr ⟨List.mem_singleton.mpr hid.symm, Or.inl (congrArg some hid), _, if_pos hid,
          Or.inr ⟨Or.inr rfl, congrArg some hid, ?_⟩⟩
        have hrun : (g.runTask (.onTIFCancel o)).1.active
            = Ledger.ofAList (g.activeOrders.erase o.exchangeId) := by
          simp only [FixGateway.runTask, FixGateway.onTIFCancel, hs]
          rfl
        rw [hrun, ← hid]
        exact AList.lookup_erase _ _
      · exact Or.inl (if_neg hid)
  | onReplace req found newLeavesQty =>
    cases hs : g.orderSessions.lookup req.origOrderId with
    | none => exact Or.inl (by simp [Task.sends, hs, reportTypes])
    | some session =>
      cases ha : g.activeOrders.lookup req.origOrderId with
      | none => exact Or.inl (by simp [Task.sends, ha, reportTypes])
      | some o =>
        cases found with
        | false => exact Or.inl (by simp [Task.sends, hs, ha, reportTypes])
        | true =>
          have hsends : (Task.onReplace req true newLeavesQty).sends g
              = [(session, .execReport
                { makeExecReport (FixGateway.replaced o req newLeavesQty) .Replaced with
                  origClOrdId := some req.oldClordId })] := by
            simp [Task.sends, hs, ha]
          rw [hsends, reportTypes_report]
          by_cases hid : o.exchangeId = id
          · have hreq : req.origOrderId = id := (hactive _ o ha).symm.trans hid
            refine Or.inr ⟨List.mem_singleton.mpr hreq.symm, Or.inr ?_, _, if_pos hid,
              Or.inl (Or.inr rfl)⟩
            rw [← hreq]
            exact fun hnone => absurd (ha.symm.trans hnone) (by simp)
          · exact Or.inl (if_neg hid)
  | onOrderRested o leavesQty => exact Or.inl rfl

namespace System

variable {s s' : System} {a : Action} {id : String}

/-! ## Stages of an order -/

/-- The orders that a step accepts. -/
def accepts (s : System) : Action → List Order
  | .message msg session =>
    match (s.onMessage session msg).2 with
    | .route o _ => [o]
    | _ => []
  | _ => []

/-- The messages that a step sends, without the status reports and the historical replays,
which are sent on a logon. -/
def liveSends (s : System) : Action → List (SessionID × ClientMessage)
  | .logon _ => []
  | a => s.sends a

/-- The orders that are accepted in a run. -/
def accepted (s : System) (as : List Action) : List Order := Transition.collect step accepts s as

/-- The kinds of the reports about an order in a run. -/
def reportWord (s : System) (as : List Action) (id : String) : List Char :=
  reportTypes id (Transition.collect step liveSends s as)

/-- The order that a handler has accepted and not yet acknowledged. -/
def unacked : Handler → Option Order
  | .route o _ | .activate o _ => some o
  | _ => none

lemma pending_of_unacked {handler : Handler} {o : Order} (h : unacked handler = some o) :
    handler.pending = some o := by
  cases handler <;> first | exact h | exact absurd h (by simp [unacked])

/-- Nothing will be reported about an order any more. -/
structure Ended (s : System) (id : String) : Prop where
  known : s.Known id
  active : s.gateway.active id = none
  resting : ∀ sym b, s.engine.books.lookup sym = some b → b.Fresh id
  queued : ∀ o, .order o ∈ s.queue → o.exchangeId ≠ id
  tasks : ∀ t ∈ s.tasks, t.tells ≠ some id

/-- How far an order is, and what has been reported about it. -/
inductive Stage (s : System) (o : Order) : List Char → Prop
  | accepted (h : unacked s.handler = some o) : Stage s o []
  | acked {mid : List Char} (hmid : ∀ c ∈ mid, IsMiddle c)
      (hissued : Issued s.gateway.orderSeq o.exchangeId)
      (hother : ∀ o' ∈ unacked s.handler, o'.exchangeId ≠ o.exchangeId) :
      Stage s o (ExecType.New.char :: mid)
  | ended {mid : List Char} {c : Char} (hmid : ∀ c ∈ mid, IsMiddle c) (hc : IsTerminal c)
      (h : s.Ended o.exchangeId) : Stage s o (ExecType.New.char :: (mid ++ [c]))

lemma Stage.word {o : Order} {w : List Char} (h : s.Stage o w) :
    (unacked s.handler = some o ∧ w = []) ∨ IsReportWord w := by
  cases h with
  | accepted h => exact Or.inl ⟨h, rfl⟩
  | @acked mid hmid => exact Or.inr ⟨mid, [], by rw [List.append_nil], hmid, Or.inl rfl⟩
  | @ended mid c hmid hc => exact Or.inr ⟨mid, [c], rfl, hmid, Or.inr ⟨c, rfl, hc⟩⟩

/-- The orders that an item's tasks tell about without looking at the open orders. -/
lemma tells_processIn {b : OrderBook} (h : b.Wf) {item : WorkItem} {t : Task}
    (ht : t ∈ (processIn b item).2.flatMap Callback.tasks) (hid : t.tells = some id) :
    (∃ o, item = .order o ∧ o.exchangeId = id) ∨ ∃ m ∈ b.nodes, m.order.exchangeId = id := by
  obtain ⟨cb, hcb, ht⟩ := List.mem_flatMap.mp ht
  cases OrderBook.calls_processIn h hcb with
  | added hmaker htaker =>
    obtain ⟨m, hm, hmaker⟩ := hmaker
    rcases OrderBook.mem_onFill_tasks ht with rfl | rfl | rfl
    · exact Or.inr ⟨m, hm, hmaker.exchangeId.symm.trans (Option.some.inj hid)⟩
    · exact Or.inl ⟨_, rfl, htaker.exchangeId.symm.trans (Option.some.inj hid)⟩
    · exact absurd hid (by simp [Task.tells])
  | matched hmaker htaker =>
    obtain ⟨m, hm, hmaker⟩ := hmaker
    obtain ⟨m', hm', -, htaker⟩ := htaker
    rcases OrderBook.mem_onFill_tasks ht with rfl | rfl | rfl
    · exact Or.inr ⟨m, hm, hmaker.exchangeId.symm.trans (Option.some.inj hid)⟩
    · exact Or.inr ⟨m', hm', htaker.exchangeId.symm.trans (Option.some.inj hid)⟩
    · exact absurd hid (by simp [Task.tells])
  | killed o leavesQty =>
    obtain rfl := List.mem_singleton.mp ht
    exact Or.inl ⟨o, rfl, Option.some.inj hid⟩
  | rested o leavesQty =>
    obtain rfl := List.mem_singleton.mp ht
    exact absurd hid (by simp [Task.tells])
  | canceled req found =>
    obtain rfl := List.mem_singleton.mp ht
    exact absurd hid (by simp [Task.tells])
  | replaced req found newLeavesQty =>
    obtain rfl := List.mem_singleton.mp ht
    exact absurd hid (by simp [Task.tells])

/-- An id goes on being known to the engine. -/
lemma Known.step (h : s.Known id) (hstep : s.step a = some s') : s'.Known id := by
  cases a with
  | message msg session =>
    obtain ⟨hidle, rfl⟩ := step_message hstep
    rcases onMessage_cases s session msg with ⟨seq, sent, heq, hseq⟩ | ⟨m, o, rfl, ho, heq⟩ |
        ⟨m, req, rfl, hreq, heq⟩ | ⟨m, req, rfl, hreq, heq⟩ <;> rw [heq]
    · exact h.mono hseq (by simp [Handler.pending])
    · refine h.mono (Nat.le_succ _) fun o' ho' => Or.inr ?_
      obtain rfl := Option.some.inj ho'
      exact ho.exchangeId
    · exact h.mono (le_refl _) (by simp [Handler.pending])
    · exact h.mono (le_refl _) (by simp [Handler.pending])
  | logon session =>
    obtain ⟨-, rfl⟩ := step_logon hstep
    exact h
  | handle =>
    rcases handle_cases hstep with ⟨o, session, hh, rfl⟩ | ⟨o, session, hh, rfl⟩ |
        ⟨item, hitem, rfl⟩
    · exact h.of_same rfl (by rw [hh]; rfl)
    · exact h.of_same rfl (by rw [hh]; rfl)
    · exact h.mono (le_refl _) (by simp [Handler.pending])
  | engine =>
    rcases engineStep_cases hstep with ⟨t, ts, ht, rfl⟩ | ⟨-, item, queue, b, -, -, rfl⟩
    · exact h.of_same (FixGateway.runTask_orderSeq s.gateway t) rfl
    · exact h
  | persist =>
    obtain ⟨p, p', -, -, rfl⟩ := step_persist hstep
    exact h
  | registerSymbol symbol =>
    obtain ⟨e, -, rfl⟩ := step_registerSymbol hstep
    exact h

/-- The engine has seen the last of an order. -/
structure Departed (s : System) (id : String) : Prop where
  known : s.Known id
  resting : ∀ sym b, s.engine.books.lookup sym = some b → b.Fresh id
  queued : ∀ o, .order o ∈ s.queue → o.exchangeId ≠ id

lemma Ended.departed (h : s.Ended id) : s.Departed id := ⟨h.known, h.resting, h.queued⟩

/-- **An order that has departed** does not come back. -/
lemma Departed.step (h : s.Departed id) (hf : s.Founded) (hstep : s.step a = some s') :
    s'.Departed id := by
  have hknown := h.known.step hstep
  cases a with
  | message msg session =>
    obtain ⟨-, rfl⟩ := step_message hstep
    exact ⟨hknown, h.resting, h.queued⟩
  | logon session =>
    obtain ⟨-, rfl⟩ := step_logon hstep
    exact ⟨hknown, h.resting, h.queued⟩
  | handle =>
    rcases handle_cases hstep with ⟨o, session, hh, rfl⟩ | ⟨o, session, hh, rfl⟩ |
        ⟨item, hitem, rfl⟩
    · exact ⟨hknown, h.resting, h.queued⟩
    · exact ⟨hknown, h.resting, h.queued⟩
    · refine ⟨hknown, h.resting, fun o ho => ?_⟩
      rcases List.mem_append.mp ho with ho | ho
      · exact h.queued o ho
      · obtain rfl := List.mem_singleton.mp ho
        rcases nextItem_cases hitem with ⟨o', hh, heq⟩ | ⟨-, hne⟩
        · obtain rfl := WorkItem.order.inj heq
          exact (h.known.2 o (by rw [hh]; rfl)).symm
        · exact absurd rfl (hne o)
  | engine =>
    rcases engineStep_cases hstep with ⟨t, ts, ht, rfl⟩ | ⟨-, item, queue, b, hq, hb, rfl⟩
    · exact ⟨hknown, h.resting, h.queued⟩
    · have hmem : item ∈ s.queue := by rw [hq]; exact List.mem_cons_self
      refine ⟨hknown, fun sym b' hb' n hn => ?_, fun o ho => ?_⟩
      · rcases lookup_processed hb' with ⟨-, rfl⟩ | ⟨-, hb'⟩
        · rcases (hf.processed_orders hb hn).2 with ⟨o, rfl, heq⟩ | ⟨m, hm, heq⟩
          · rw [heq]
            exact h.queued o hmem
          · rw [heq]
            exact h.resting _ b hb m hm
        · exact h.resting sym b' hb' n hn
      · exact h.queued o (by rw [hq]; exact List.mem_cons_of_mem _ ho)
  | persist =>
    obtain ⟨p, p', -, -, rfl⟩ := step_persist hstep
    exact ⟨hknown, h.resting, h.queued⟩
  | registerSymbol symbol =>
    obtain ⟨e, he, rfl⟩ := step_registerSymbol hstep
    refine ⟨hknown, fun sym b hb => ?_, h.queued⟩
    rcases (MatchingEngine.registerSymbol_books he).1 sym with hsame | ⟨rfl, -, hnew⟩
    · exact h.resting sym b (hsame.symm.trans hb)
    · rw [Option.some.inj (hb.symm.trans hnew)]
      intro n hn
      simp [OrderBook.init, OrderBook.nodes] at hn

/-- **An order that has ended** stays so. -/
lemma Ended.step (h : s.Ended id) (hf : s.Founded) (hstep : s.step a = some s') : s'.Ended id := by
  obtain ⟨hknown, hresting, hqueued⟩ := h.departed.step hf hstep
  suffices hrest : s'.gateway.active id = none ∧ ∀ t ∈ s'.tasks, t.tells ≠ some id from
    ⟨hknown, hrest.1, hresting, hqueued, hrest.2⟩
  cases a with
  | message msg session =>
    obtain ⟨-, rfl⟩ := step_message hstep
    refine ⟨?_, h.tasks⟩
    rcases onMessage_cases s session msg with ⟨seq, sent, heq, -⟩ | ⟨m, o, -, -, heq⟩ |
        ⟨m, req, -, -, heq⟩ | ⟨m, req, -, -, heq⟩ <;>
      rw [heq] <;> exact h.active
  | logon session =>
    obtain ⟨-, rfl⟩ := step_logon hstep
    exact ⟨h.active, h.tasks⟩
  | handle =>
    rcases handle_cases hstep with ⟨o, session, hh, rfl⟩ | ⟨o, session, hh, rfl⟩ |
        ⟨item, hitem, rfl⟩
    · exact ⟨h.active, h.tasks⟩
    · refine ⟨?_, h.tasks⟩
      rw [Option.eq_none_iff_forall_ne_some]
      intro o' ho'
      rcases active_activateOrder ho' with ho' | ⟨heq, -⟩
      · exact absurd (h.active.symm.trans ho') (by simp)
      · exact h.known.2 o (by rw [hh]; rfl) heq
    · exact ⟨h.active, h.tasks⟩
  | engine =>
    rcases engineStep_cases hstep with ⟨t, ts, ht, rfl⟩ | ⟨-, item, queue, b, hq, hb, rfl⟩
    · refine ⟨?_, fun t' ht' => ?_⟩
      · rw [Option.eq_none_iff_forall_ne_some]
        intro o' ho'
        obtain ⟨o, ho, -⟩ := FixGateway.runTask_active_inv ho'
        exact absurd (h.active.symm.trans ho) (by simp)
      · rcases List.mem_append.mp ht' with ht' | ht'
        · rw [(runTask_closes ht').2.1]
          exact h.tasks t (by rw [ht]; exact List.mem_cons_self)
        · exact h.tasks t' (by rw [ht]; exact List.mem_cons_of_mem _ ht')
    · refine ⟨h.active, fun t ht hid => ?_⟩
      rcases tells_processIn (hf.books.wf _ b hb) ht hid with ⟨o, rfl, heq⟩ | ⟨m, hm, heq⟩
      · exact h.queued o (by rw [hq]; exact List.mem_cons_self) heq
      · exact h.resting _ b hb m hm heq
  | persist =>
    obtain ⟨p, p', -, -, rfl⟩ := step_persist hstep
    exact ⟨h.active, h.tasks⟩
  | registerSymbol symbol =>
    obtain ⟨e, -, rfl⟩ := step_registerSymbol hstep
    exact ⟨h.active, h.tasks⟩

/-! ## What a step reports about an order -/

/-- The handler of a message reports about no order that has an id already. -/
lemma reportTypes_message (hid : Issued s.gateway.orderSeq id) (msg : Message)
    (session : SessionID) : reportTypes id (s.liveSends (.message msg session)) = [] := by
  show reportTypes id (s.sends (.message msg session)) = []
  rcases (onMessage_sent s session msg).2 with h | ⟨m, report, -, h, hreport, -⟩ |
      ⟨m, reject, -, h, -⟩
  · rw [h]
    rfl
  · rw [h, reportTypes_report, if_neg]
    rw [hreport]
    exact hid.ne_next.symm
  · rw [h]
    rfl

/-- The handler of an accepted order reports about this order. -/
lemma reportTypes_handle (s : System) (id : String) :
    reportTypes id (s.liveSends .handle) = [] ∨
      ∃ o session, s.handler = .activate o session ∧ o.exchangeId = id ∧
        reportTypes id (s.liveSends .handle) = [ExecType.New.char] := by
  show reportTypes id (s.sends .handle) = [] ∨ ∃ o session, s.handler = .activate o session ∧
    o.exchangeId = id ∧ reportTypes id (s.sends .handle) = [ExecType.New.char]
  cases hh : s.handler with
  | activate o session =>
    have hsends : s.sends .handle = [(session, .execReport (makeExecReport o .New))] := by
      rw [sends, hh]
    rw [hsends, reportTypes_report]
    by_cases hid : o.exchangeId = id
    · exact Or.inr ⟨o, session, rfl, hid, if_pos hid⟩
    · exact Or.inl (if_neg hid)
  | _ =>
    refine Or.inl ?_
    rw [sends, hh]
    rfl

lemma liveSends_task {t : Task} {ts : List Task} (ht : s.tasks = t :: ts) :
    s.liveSends .engine = t.sends s.gateway := by
  show s.sends .engine = t.sends s.gateway
  rw [sends, ht]

lemma liveSends_take (ht : s.tasks = []) : s.liveSends .engine = [] := by
  show s.sends .engine = []
  rw [sends, ht]

/-- A task that sends something leaves no other task. -/
lemma runTask_rest {g : FixGateway} {t : Task} (h : t.sends g ≠ []) : (g.runTask t).2 = [] := by
  cases t with
  | fillRouting fill => exact absurd rfl h
  | _ => rfl

/-- Nothing is reported about an order that has ended. -/
lemma Ended.silent (h : s.Ended id) (hf : s.Founded) (a : Action) :
    reportTypes id (s.liveSends a) = [] := by
  cases a with
  | message msg session => exact reportTypes_message h.known.1 msg session
  | handle =>
    rcases reportTypes_handle s id with hnil | ⟨o, session, hh, hid, -⟩
    · exact hnil
    · exact absurd hid.symm (h.known.2 o (by rw [hh]; rfl))
  | engine =>
    cases ht : s.tasks with
    | nil =>
      rw [liveSends_take ht]
      rfl
    | cons t ts =>
      rw [liveSends_task ht]
      rcases reportTypes_task (fun id o ho => (hf.maps.active id o ho).1) t id with hnil |
          ⟨-, htells | hopen, -⟩
      · exact hnil
      · exact absurd htells (h.tasks t (by rw [ht]; exact List.mem_cons_self))
      · exact absurd h.active hopen
  | logon session => rfl
  | persist => rfl
  | registerSymbol symbol => rfl

/-- What a step reports is about orders that have an id. -/
lemma issued_of_reported (hf : s.Founded) (hstep : s.step a = some s')
    (h : reportTypes id (s.liveSends a) ≠ []) : Issued s'.gateway.orderSeq id := by
  cases a with
  | message msg session =>
    obtain ⟨-, rfl⟩ := step_message hstep
    have h : reportTypes id (s.sends (.message msg session)) ≠ [] := h
    rcases (onMessage_sent s session msg).2 with hs | ⟨m, report, rfl, hs, hreport, -⟩ |
        ⟨m, reject, -, hs, -⟩
    · rw [hs] at h
      exact absurd rfl h
    · rw [hs, reportTypes_report] at h
      split_ifs at h with hid
      · rw [← hid, hreport]
        have hseq : (s.onMessage session (.newOrder m)).1.orderSeq = s.gateway.orderSeq + 1 := by
          rcases onNewOrderSingle_cases s m session with ⟨sent, heq⟩ | ⟨o, -, heq⟩ <;>
            simp only [onMessage, heq] <;> rfl
        show Issued (s.onMessage session (.newOrder m)).1.orderSeq _
        rw [hseq]
        exact issued_self _
      · exact absurd rfl h
    · rw [hs] at h
      exact absurd rfl h
  | handle =>
    have hseq : s'.gateway.orderSeq = s.gateway.orderSeq := by
      rcases handle_cases hstep with ⟨o, session, -, rfl⟩ | ⟨o, session, -, rfl⟩ |
        ⟨item, -, rfl⟩ <;> rfl
    rcases reportTypes_handle s id with hnil | ⟨o, session, hh, rfl, -⟩
    · exact absurd hnil h
    · rw [hseq, (hf.handler.pending o (by rw [hh]; rfl)).1]
      exact issued_self _
  | engine =>
    rcases engineStep_cases hstep with ⟨t, ts, ht, rfl⟩ | ⟨ht, item, queue, b, -, -, rfl⟩
    · rw [liveSends_task ht] at h
      rcases reportTypes_task (fun id o ho => (hf.maps.active id o ho).1) t id with hnil |
          ⟨hid, -⟩
      · exact absurd hnil h
      · show Issued (s.gateway.runTask t).1.orderSeq id
        rw [FixGateway.runTask_orderSeq]
        exact (hf.tasks t (by rw [ht]; exact List.mem_cons_self) id hid).1
    · rw [liveSends_take ht] at h
      exact absurd rfl h
  | logon session => exact absurd rfl h
  | persist => exact absurd rfl h
  | registerSymbol symbol => exact absurd rfl h

/-- An order has ended behind a task that closes it: the tasks behind do not tell about it. -/
lemma ended_of_task (hf : s.Founded) (hc : s.Closing) {t : Task} {ts : List Task}
    (ht : s.tasks = t :: ts) (hid : id ∈ t.ids) (hrest : (s.gateway.runTask t).2 = [])
    (hcloses : t.closes = some id) (hactive : (s.gateway.runTask t).1.active id = none) :
    ({ s with
      gateway := (s.gateway.runTask t).1
      tasks := (s.gateway.runTask t).2 ++ ts } : System).Ended id := by
  have hmem : t ∈ s.tasks := by rw [ht]; exact List.mem_cons_self
  have hbefore := hc.before
  rw [ht] at hbefore
  refine ⟨?_, hactive, hc.gone t hmem _ hcloses, hc.queued t hmem _ hcloses, fun t' ht' => ?_⟩
  · exact (hf.tasks t hmem _ hid).of_same (FixGateway.runTask_orderSeq s.gateway t) rfl
  · rw [hrest, List.nil_append] at ht'
    exact (List.pairwise_cons.mp hbefore).1 t' ht' _ hcloses

/-- A task takes an acknowledged order to its next stage. -/
lemma stage_task {o : Order} {mid : List Char} (hf : s.Founded) (hc : s.Closing)
    (hmid : ∀ c ∈ mid, IsMiddle c) (hissued : Issued s.gateway.orderSeq o.exchangeId)
    (hother : ∀ o' ∈ unacked s.handler, o'.exchangeId ≠ o.exchangeId) {t : Task} {ts : List Task}
    (ht : s.tasks = t :: ts) :
    ({ s with
      gateway := (s.gateway.runTask t).1
      tasks := (s.gateway.runTask t).2 ++ ts } : System).Stage o
        (ExecType.New.char :: (mid ++ reportTypes o.exchangeId (t.sends s.gateway))) := by
  have hissued' : Issued (s.gateway.runTask t).1.orderSeq o.exchangeId := by
    rw [FixGateway.runTask_orderSeq]
    exact hissued
  have hmem : t ∈ s.tasks := by rw [ht]; exact List.mem_cons_self
  rcases reportTypes_task (fun id o ho => (hf.maps.active id o ho).1) t o.exchangeId with hnil |
      ⟨hid, -, c, hword, hkind⟩
  · rw [hnil, List.append_nil]
    exact .acked hmid hissued' hother
  · rw [hword]
    rcases hkind with hmiddle | ⟨hterminal, hcloses, hactive⟩
    · refine .acked (fun c' hc' => ?_) hissued' hother
      rcases List.mem_append.mp hc' with hc' | hc'
      · exact hmid c' hc'
      · rw [List.mem_singleton.mp hc']
        exact hmiddle
    · have hrest : (s.gateway.runTask t).2 = [] := by
        refine runTask_rest fun hnil => ?_
        rw [hnil] at hword
        exact absurd hword (by simp [reportTypes])
      exact .ended hmid hterminal (ended_of_task hf hc ht hid hrest hcloses hactive)

/-- **One step** takes an order to its next stage. -/
theorem Stage.step {o : Order} {w : List Char} (h : s.Stage o w) (hf : s.Founded)
    (hc : s.Closing) (hstep : s.step a = some s') :
    s'.Stage o (w ++ reportTypes o.exchangeId (s.liveSends a)) := by
  cases h with
  | accepted hun =>
    have hpending := pending_of_unacked hun
    cases a with
    | message msg session =>
      obtain ⟨hidle, -⟩ := step_message hstep
      rw [hidle] at hun
      exact absurd hun (by simp [unacked])
    | logon session =>
      obtain ⟨hidle, -⟩ := step_logon hstep
      rw [hidle] at hun
      exact absurd hun (by simp [unacked])
    | handle =>
      rcases handle_cases hstep with ⟨o', session, hh, rfl⟩ | ⟨o', session, hh, rfl⟩ |
          ⟨item, hitem, rfl⟩
      · have hsilent : s.liveSends .handle = [] := by
          show s.sends .handle = []
          rw [sends, hh]
        rw [hh] at hun
        rw [hsilent]
        exact .accepted hun
      · rw [hh] at hun
        obtain rfl := Option.some.inj hun
        have hnew : s.liveSends .handle
            = [(session, .execReport (makeExecReport o' .New))] := by
          show s.sends .handle = _
          rw [sends, hh]
        have hid : (makeExecReport o' .New).orderId = o'.exchangeId := rfl
        rw [hnew, reportTypes_report, if_pos hid]
        refine .acked (by simp) ?_ (by simp [unacked])
        rw [(hf.handler.pending o' (by rw [hh]; rfl)).1]
        exact issued_self _
      · rcases nextItem_cases hitem with ⟨o', hh, -⟩ | ⟨hnone, -⟩
        · rw [hh] at hun
          exact absurd hun (by simp [unacked])
        · exact absurd (hpending.symm.trans hnone) (by simp)
    | engine =>
      rcases engineStep_cases hstep with ⟨t, ts, ht, rfl⟩ | ⟨ht, item, queue, b, -, -, rfl⟩
      · rw [liveSends_task ht]
        rcases reportTypes_task (fun id o ho => (hf.maps.active id o ho).1) t o.exchangeId with
          hnil | ⟨hid, -⟩
        · rw [hnil]
          exact .accepted hun
        · exact absurd rfl ((hf.tasks t (by rw [ht]; exact List.mem_cons_self) _ hid).2 o hpending)
      · rw [liveSends_take ht]
        exact .accepted hun
    | persist =>
      obtain ⟨p, p', -, -, rfl⟩ := step_persist hstep
      exact .accepted hun
    | registerSymbol symbol =>
      obtain ⟨e, -, rfl⟩ := step_registerSymbol hstep
      exact .accepted hun
  | @acked mid hmid hissued hother =>
    rw [List.cons_append]
    have hsame : reportTypes o.exchangeId (s.liveSends a) = [] →
        Issued s'.gateway.orderSeq o.exchangeId →
        (∀ o' ∈ unacked s'.handler, o'.exchangeId ≠ o.exchangeId) →
        s'.Stage o (ExecType.New.char :: (mid ++ reportTypes o.exchangeId (s.liveSends a))) := by
      intro hnil hissued' hother'
      rw [hnil, List.append_nil]
      exact .acked hmid hissued' hother'
    cases a with
    | message msg session =>
      have hnil := reportTypes_message hissued msg session
      obtain ⟨-, rfl⟩ := step_message hstep
      rcases onMessage_cases s session msg with ⟨seq, sent, heq, hseq⟩ | ⟨m, o', rfl, ho', heq⟩ |
          ⟨m, req, rfl, hreq, heq⟩ | ⟨m, req, rfl, hreq, heq⟩ <;>
        rw [heq] at hsame ⊢ <;> refine hsame hnil ?_ ?_
      · exact hissued.mono hseq
      · simp [unacked]
      · exact hissued.mono (Nat.le_succ _)
      · intro o'' ho''
        obtain rfl := Option.some.inj ho''
        rw [ho'.exchangeId]
        exact hissued.ne_next.symm
      · exact hissued
      · simp [unacked]
      · exact hissued
      · simp [unacked]
    | logon session =>
      obtain ⟨-, rfl⟩ := step_logon hstep
      exact hsame rfl hissued hother
    | handle =>
      have hnil : reportTypes o.exchangeId (s.liveSends .handle) = [] := by
        rcases reportTypes_handle s o.exchangeId with hnil | ⟨o', session, hh, hid, -⟩
        · exact hnil
        · exact absurd hid (hother o' (by rw [hh]; rfl))
      rcases handle_cases hstep with ⟨o', session, hh, rfl⟩ | ⟨o', session, hh, rfl⟩ |
          ⟨item, hitem, rfl⟩
      · refine hsame hnil hissued fun o'' ho'' => ?_
        obtain rfl := Option.some.inj ho''
        exact hother o' (by rw [hh]; rfl)
      · exact hsame hnil hissued (by simp [unacked])
      · exact hsame hnil hissued (by simp [unacked])
    | engine =>
      rcases engineStep_cases hstep with ⟨t, ts, ht, rfl⟩ | ⟨ht, item, queue, b, -, -, rfl⟩
      · rw [liveSends_task ht]
        exact stage_task hf hc hmid hissued hother ht
      · exact hsame (by rw [liveSends_take ht]; rfl) hissued hother
    | persist =>
      obtain ⟨p, p', -, -, rfl⟩ := step_persist hstep
      exact hsame rfl hissued hother
    | registerSymbol symbol =>
      obtain ⟨e, -, rfl⟩ := step_registerSymbol hstep
      exact hsame rfl hissued hother
  | ended hmid hterminal hended =>
    rw [hended.silent hf a, List.append_nil]
    exact .ended hmid hterminal (hended.step hf hstep)

/-- An order that is accepted has the next id, and nothing is sent about it yet. -/
lemma stage_accepts {o : Order} (ho : o ∈ s.accepts a) (hstep : s.step a = some s') :
    s'.Stage o [] ∧ o.exchangeId = exchangeId (s.gateway.orderSeq + 1) ∧ s.liveSends a = [] := by
  cases a with
  | message msg session =>
    obtain ⟨-, rfl⟩ := step_message hstep
    have hsent := (onMessage_sent s session msg).2
    rcases onMessage_cases s session msg with ⟨seq, sent, heq, hseq⟩ | ⟨m, o', -, ho', heq⟩ |
        ⟨m, req, -, hreq, heq⟩ | ⟨m, req, -, hreq, heq⟩ <;>
      simp only [accepts, heq] at ho hsent
    · exact absurd ho List.not_mem_nil
    · obtain rfl := List.mem_singleton.mp ho
      refine ⟨.accepted (by rw [heq]; rfl), ho'.exchangeId, ?_⟩
      rcases hsent with hnil | ⟨_, _, _, _, _, _, hidle⟩ | ⟨_, _, _, _, hidle⟩
      · exact hnil
      · exact absurd hidle (by simp)
      · exact absurd hidle (by simp)
    · exact absurd ho List.not_mem_nil
    · exact absurd ho List.not_mem_nil
  | _ => exact absurd ho List.not_mem_nil

/-! ## All runs -/

/-- The orders that a run has accepted, and what it has reported. -/
structure Reported (s₀ : System) (as : List Action) (s : System) : Prop where
  founded : s.Founded
  closing : s.Closing
  stage : ∀ o ∈ s₀.accepted as, s.Stage o (s₀.reportWord as o.exchangeId)
  issued : ∀ id, s₀.reportWord as id ≠ [] → Issued s.gateway.orderSeq id

/-- The word of an order after one more step. -/
lemma reportWord_snoc {s₀ : System} {as : List Action} {ok : System → Action → Prop}
    (h : Transition.Reaches step ok s₀ as s) (a : Action) (id : String) :
    s₀.reportWord (as ++ [a]) id = s₀.reportWord as id ++ reportTypes id (s.liveSends a) := by
  rw [reportWord, h.collect_snoc, reportTypes_append, reportWord]

lemma StartsOn.closing {cfg : Config} {db : Database} (h : StartsOn cfg db s) : s.Closing := by
  have htasks : s.tasks = [] := by
    cases h with
    | fresh => rfl
    | recovered => rfl
  refine ⟨?_, ?_, ?_⟩ <;> rw [htasks]
  · exact List.Pairwise.nil
  · exact fun t ht => absurd ht List.not_mem_nil
  · exact fun t ht => absurd ht List.not_mem_nil

/-- In every run the orders go through their stages. -/
lemma reported_of_run {cfg : Config} {db : Database} {s₀ : System} {as : List Action}
    {ok : System → Action → Prop} (hstart : StartsOn cfg db s₀) (hdb : db.Sound)
    (h : Transition.Reaches step ok s₀ as s) : Reported s₀ as s := by
  refine h.invariant_history (I := Reported s₀) ?_ ?_
  · exact ⟨hstart.founded hdb, hstart.closing, fun o ho => absurd ho List.not_mem_nil,
      fun id hid => absurd rfl hid⟩
  · intro as t a u hrun hinv _ hstep
    refine ⟨hinv.founded.step hstep, hinv.closing.step hinv.founded hstep, fun o ho => ?_,
      fun id hid => ?_⟩
    · rw [reportWord_snoc hrun]
      rw [accepted, hrun.collect_snoc] at ho
      rcases List.mem_append.mp ho with ho | ho
      · exact (hinv.stage o ho).step hinv.founded hinv.closing hstep
      · -- the id of a new order has not been reported before
        obtain ⟨hstage, hid, hsilent⟩ := stage_accepts ho hstep
        have hnil : s₀.reportWord as o.exchangeId = [] := by
          by_contra hne
          exact (hinv.issued _ hne).ne_next hid
        rw [hnil, hsilent]
        exact hstage
    · rw [reportWord_snoc hrun] at hid
      by_cases hnew : reportTypes id (t.liveSends a) = []
      · rw [hnew, List.append_nil] at hid
        obtain ⟨n, hn, -⟩ := assigns_step hstep
        exact (hinv.issued id hid).mono (by omega)
      · exact issued_of_reported hinv.founded hstep hnew

/-- **The reports about an accepted order** form a word of the protocol, in every run of a
process, however the processes before it on the database have ended; nothing is reported only
as long as the handler of the order has not acknowledged it. -/
theorem reports_follow_protocol {cfg : Config} {ok ok' : System → Action → Prop}
    {stop : System → Prop} {ids : List (String × String)} {db : Database} {s₀ : System}
    {as : List Action} (hlives : Lives ok stop Database.empty ids db)
    (hstart : StartsOn cfg db s₀) (h : Transition.Reaches step ok' s₀ as s) :
    ∀ o ∈ s₀.accepted as,
      (unacked s.handler = some o ∧ s₀.reportWord as o.exchangeId = []) ∨
        IsReportWord (s₀.reportWord as o.exchangeId) := fun o ho =>
  ((reported_of_run hstart hlives.owned.1 h).stage o ho).word

/-- An order that is traded in part, replaced, and traded completely. -/
def tradedRun : List Action :=
  Sample.submit (Sample.limit "a" '2' 5 10) Sample.alice ++ Sample.engine 2
    ++ Sample.submit (Sample.limit "b" '1' 3 10) Sample.bob ++ Sample.engine 6
    ++ Sample.forward (Sample.replace "c" "a" '2' 4 10) Sample.alice ++ Sample.engine 2
    ++ Sample.submit (Sample.limit "d" '1' 4 10) Sample.bob ++ Sample.engine 6

theorem reports_follow_protocol_sample :
    ∃ s, RunTo Sample.config Any tradedRun s ∧
      ["EXCH-1", "EXCH-2", "EXCH-3"].map ((start Sample.config).reportWord tradedRun)
        = [['0', '1', '5', '2'], ['0', '2'], ['0', '2']] ∧
      ∀ o ∈ (start Sample.config).accepted tradedRun,
        (unacked s.handler = some o ∧
            (start Sample.config).reportWord tradedRun o.exchangeId = []) ∨
          IsReportWord ((start Sample.config).reportWord tradedRun o.exchangeId) := by
  have hreach : ∃ s, RunTo Sample.config Any tradedRun s ∧ s.tasks = [] :=
    Transition.exists_reaches (by decide +kernel) (by decide +kernel)
  obtain ⟨s, hrun, -⟩ := hreach
  exact ⟨s, hrun, by decide +kernel, reports_follow_protocol
    (Lives.none : Lives Any (fun _ => True) _ _ _) .fresh hrun⟩

end System

end FixExchange
