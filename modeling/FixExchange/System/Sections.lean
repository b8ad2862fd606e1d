/-
# The logon, section by section

`onLogon` copies the open orders of the client and gives them a session in one section, and
reports the copies after it, when it holds no mutex any more.  In the runs of the exchange a
logon is a single step; here it is cut at its section, so that the callbacks of the engine come
between the section and the reports.  A logon that is not interrupted is the step of the
exchange (`run_logon`).

The routing map and the open orders are changed in one section by all callbacks but the report
of a complete fill, which changes them in two.  They have the same keys whenever both threads are
idle, and no order is reported as open after its complete fill, as long as no client logs on
while one of its orders is between these sections, and no order is filled that a logon has
copied and not yet reported (`maps_in_step`).
-/
import FixExchange.System.ExecIds

namespace FixExchange

namespace FixGateway

/-- The section of `onLogon`: an order without a session gets the one of the client. -/
def bindOrders (g : FixGateway) (session : SessionID) : FixGateway :=
  { g with
    orderSessions := (g.ordersOf session.targetCompID).foldl
      (fun sessions order => sessions.emplace order.exchangeId session) g.orderSessions }

/-- The status report about an order. -/
def reportStatus (g : FixGateway) (order : Order) (session : SessionID) : FixGateway :=
  g.sendToTarget (.execReport (makeOrderStatusReport order)) session

/-- The reports about finished orders. -/
def replayHistory (g : FixGateway) (session : SessionID) : FixGateway :=
  { g with
    sent := g.sent ++ (g.historicalReports session).map fun report =>
      (session, .execReport report) }

end FixGateway

/-- The exchange, with the logon that the QuickFIX thread is in: its session, and the copies of
orders that it still has to report. -/
structure Sections where
  system : System
  logon : Option (SessionID × List Order)

namespace Sections

/-- The exchange after its start on an empty database. -/
def start (cfg : Config) : Sections := ⟨System.start cfg, none⟩

/-- The QuickFIX thread goes on with the logon that it is in. -/
def goOn (x : Sections) (session : SessionID) : List Order → Sections
  | order :: orders =>
    ⟨{ x.system with gateway := x.system.gateway.reportStatus order session },
      some (session, orders)⟩
  | [] => ⟨{ x.system with gateway := x.system.gateway.replayHistory session }, none⟩

/-- One step, at the granularity of sections and reports. -/
def step (x : Sections) : Action → Option Sections
  | .message msg session =>
    if x.logon = none then (x.system.step (.message msg session)).map fun s => ⟨s, none⟩ else none
  | .logon session =>
    if x.logon = none ∧ x.system.handler = .idle then
      some ⟨{ x.system with gateway := x.system.gateway.bindOrders session },
        some (session, x.system.gateway.ordersOf session.targetCompID)⟩
    else none
  | .handle =>
    match x.logon with
    | some (session, orders) => some (x.goOn session orders)
    | none => (x.system.step .handle).map fun s => ⟨s, none⟩
  | .engine => (x.system.step .engine).map fun s => ⟨s, x.logon⟩
  | .persist => (x.system.step .persist).map fun s => ⟨s, x.logon⟩
  | .registerSymbol symbol => (x.system.step (.registerSymbol symbol)).map fun s => ⟨s, x.logon⟩

/-! ## Refinement of the atomic logon -/

/-- The reports of a logon, one after the other. -/
lemma run_reports (s : System) (session : SessionID) (orders : List Order) :
    Transition.run step ⟨s, some (session, orders)⟩ (List.replicate (orders.length + 1) .handle)
      = some ⟨{ s with gateway := { s.gateway with
          sent := s.gateway.sent ++ (orders.map makeOrderStatusReport
            ++ s.gateway.historicalReports session).map fun report =>
              (session, .execReport report) } }, none⟩ := by
  induction orders generalizing s with
  | nil => rfl
  | cons order orders ih =>
    rw [List.length_cons, List.replicate_succ, Transition.run]
    refine (ih _).trans ?_
    simp [FixGateway.reportStatus, FixGateway.sendToTarget, FixGateway.historicalReports]

/-- **A logon that is not interrupted** is the step of the exchange. -/
theorem run_logon {s s' : System} {session : SessionID} (h : s.step (.logon session) = some s') :
    Transition.run step ⟨s, none⟩ (.logon session :: List.replicate
      ((s.gateway.ordersOf session.targetCompID).length + 1) .handle) = some ⟨s', none⟩ := by
  obtain ⟨hidle, rfl⟩ := System.step_logon h
  rw [Transition.run, step, if_pos ⟨rfl, hidle⟩]
  exact run_reports _ _ _

/-! ## What a step does -/

variable {x y : Sections} {a : Action}

/-- A step is the section of a logon, a report of it, or a step of the exchange. -/
theorem step_cases (h : x.step a = some y) :
    (∃ session, a = .logon session ∧ x.logon = none ∧ x.system.handler = .idle ∧
      y = ⟨{ x.system with gateway := x.system.gateway.bindOrders session },
        some (session, x.system.gateway.ordersOf session.targetCompID)⟩) ∨
    (∃ session orders, a = .handle ∧ x.logon = some (session, orders) ∧
      y = x.goOn session orders) ∨
    ((∀ session, a ≠ .logon session) ∧ x.system.step a = some y.system ∧ y.logon = x.logon) := by
  cases a with
  | message msg session =>
    simp only [step] at h
    split_ifs at h with hlogon
    obtain ⟨s, hs, rfl⟩ := Option.map_eq_some_iff.mp h
    exact Or.inr (Or.inr ⟨by simp, hs, hlogon.symm⟩)
  | logon session =>
    simp only [step] at h
    split_ifs at h with hidle
    exact Or.inl ⟨session, rfl, hidle.1, hidle.2, (Option.some.inj h).symm⟩
  | handle =>
    simp only [step] at h
    split at h
    · rename_i session orders hlogon
      exact Or.inr (Or.inl ⟨session, orders, rfl, hlogon, (Option.some.inj h).symm⟩)
    · rename_i hlogon
      obtain ⟨s, hs, rfl⟩ := Option.map_eq_some_iff.mp h
      exact Or.inr (Or.inr ⟨by simp, hs, hlogon.symm⟩)
  | engine | persist | registerSymbol symbol =>
    obtain ⟨s, hs, rfl⟩ := Option.map_eq_some_iff.mp h
    exact Or.inr (Or.inr ⟨by simp, hs, rfl⟩)

end Sections

/-- The invariant of all runs says nothing about the messages that have been sent. -/
lemma System.Sound.sent {s : System} (h : s.Sound) (sent : List (SessionID × ClientMessage)) :
    { s with gateway := { s.gateway with sent := sent } : System }.Sound :=
  ⟨h.books, h.queue, h.tasks, h.handler, ⟨h.maps.resolved, h.maps.active, h.maps.session,
    h.maps.covered⟩, h.symbols⟩

/-- The section of a logon does what the logon of the exchange does, and sends nothing. -/
lemma System.Sound.bindOrders {s : System} (h : s.Sound) (hidle : s.handler = .idle)
    (session : SessionID) :
    { s with gateway := s.gateway.bindOrders session : System }.Sound := by
  have hstep : s.step (.logon session)
      = some { s with gateway := s.gateway.onLogon session } := if_pos hidle
  exact (h.step hstep).sent s.gateway.sent

namespace Sections

variable {cfg : Config} {ok : Sections → Action → Prop} {as : List Action} {x y : Sections}
  {a : Action}

/-- **Every run keeps the invariant of the exchange.** -/
theorem sound_of_run (h : Transition.Reaches step ok (start cfg) as x) : x.system.Sound := by
  refine h.invariant (I := fun x => x.system.Sound) (System.sound_start cfg)
    fun _ x a y _ hx _ hstep => ?_
  rcases step_cases hstep with ⟨session, -, -, hidle, rfl⟩ | ⟨session, orders, -, -, rfl⟩ |
    ⟨-, hs, -⟩
  · exact hx.bindOrders hidle session
  · cases orders <;> exact hx.sent _
  · exact hx.step hs

end Sections

/-! ## The two maps -/

namespace System

variable {s s' : System} {a : Action}

/-- A session belongs to an open order, or to one whose handler is about to enter it in the open
orders; while the report of a complete fill is between its sections, the order has none. -/
structure InStep (s : System) : Prop where
  opened : ∀ id, s.gateway.orderSessions.lookup id ≠ none →
    s.gateway.active id ≠ none ∨ ∃ o session, s.handler = .activate o session ∧ o.exchangeId = id
  filled : ∀ fill session, .fillOrders fill session ∈ s.tasks → fill.leavesQty = 0 →
    s.gateway.orderSessions.lookup fill.exchangeId = none

lemma inStep_start (cfg : Config) : (start cfg).InStep := by
  refine ⟨fun id h => absurd rfl h, fun fill session ht => ?_⟩
  exact absurd ht List.not_mem_nil

/-- A step that drops the session of one order, and touches no other open order. -/
lemma InStep.drop (h : s.InStep) {g : FixGateway} {ts : List Task} {id : String}
    (hsessions : g.orderSessions = s.gateway.orderSessions.erase id)
    (hactive : ∀ id', id' ≠ id → g.active id' = s.gateway.active id')
    (htasks : ∀ fill session, .fillOrders fill session ∈ ts →
      .fillOrders fill session ∈ s.tasks ∨ fill.exchangeId = id) :
    { s with gateway := g, tasks := ts : System }.InStep := by
  refine ⟨fun id' hid' => ?_, fun fill session ht h0 => ?_⟩
  · have hne : id' ≠ id := by
      rintro rfl
      exact hid' (by rw [hsessions, AList.lookup_erase])
    rw [hsessions, AList.lookup_erase_ne hne] at hid'
    show g.active id' ≠ none ∨ _
    rw [hactive id' hne]
    exact h.opened id' hid'
  · show g.orderSessions.lookup fill.exchangeId = none
    rw [hsessions]
    by_cases hid : fill.exchangeId = id
    · rw [hid, AList.lookup_erase]
    · rw [AList.lookup_erase_ne hid]
      exact h.filled fill session ((htasks fill session ht).resolve_right hid) h0

/-- A step that keeps the sessions, and every open order that has one. -/
lemma InStep.keep (h : s.InStep) {g : FixGateway} {ts : List Task}
    (hsessions : g.orderSessions = s.gateway.orderSessions)
    (hactive : ∀ id, s.gateway.active id ≠ none → s.gateway.orderSessions.lookup id ≠ none →
      g.active id ≠ none)
    (htasks : ∀ fill session, .fillOrders fill session ∈ ts → fill.leavesQty = 0 →
      .fillOrders fill session ∈ s.tasks) :
    { s with gateway := g, tasks := ts : System }.InStep := by
  refine ⟨fun id hid => ?_, fun fill session ht h0 => ?_⟩
  · have hid : g.orderSessions.lookup id ≠ none := hid
    rw [hsessions] at hid
    exact (h.opened id hid).imp_left fun hopen => hactive id hopen hid
  · show g.orderSessions.lookup fill.exchangeId = none
    rw [hsessions]
    exact h.filled fill session (htasks fill session ht h0) h0

/-- The next task of the engine thread. -/
lemma InStep.task (h : s.InStep) {t : Task} {ts : List Task} (ht : s.tasks = t :: ts) :
    { s with
      gateway := (s.gateway.runTask t).1
      tasks := (s.gateway.runTask t).2 ++ ts : System }.InStep := by
  have hold : ∀ fill session, .fillOrders fill session ∈ ts → .fillOrders fill session ∈ s.tasks :=
    fun fill session hm => by rw [ht]; exact List.mem_cons_of_mem _ hm
  -- a task that leaves both maps as they are
  have hskip : { s with tasks := ts : System }.InStep :=
    h.keep rfl (fun _ hopen _ => hopen) fun fill session hm _ => hold fill session hm
  cases t with
  | fillRouting fill =>
    cases hs : s.gateway.orderSessions.lookup fill.exchangeId with
    | none =>
      simp only [FixGateway.runTask, FixGateway.fillRouting, hs]
      exact hskip
    | some session =>
      by_cases h0 : fill.leavesQty = 0
      · -- the order loses its session, and stays open until the next section
        simp only [FixGateway.runTask, FixGateway.fillRouting, hs, if_pos h0]
        refine h.drop rfl (fun _ _ => rfl) fun fill' session' hm => ?_
        rcases List.mem_cons.mp hm with heq | hm
        · obtain ⟨rfl, -⟩ := Task.fillOrders.inj heq
          exact Or.inr rfl
        · exact Or.inl (hold fill' session' hm)
      · simp only [FixGateway.runTask, FixGateway.fillRouting, hs, if_neg h0]
        refine h.keep rfl (fun _ hopen _ => hopen) fun fill' session' hm h0' => ?_
        rcases List.mem_cons.mp hm with heq | hm
        · obtain ⟨rfl, -⟩ := Task.fillOrders.inj heq
          exact absurd h0' h0
        · exact hold fill' session' hm
  | fillOrders fill session =>
    have hactive : (s.gateway.fillOrders fill session).active
        = s.gateway.active.setOpen fill.exchangeId fill.leavesQty :=
      FixGateway.active_setLeaves _ _ _
    refine h.keep rfl (fun id hopen hid => ?_) fun fill' session' hm _ => hold fill' session' hm
    show (s.gateway.fillOrders fill session).active id ≠ none
    rw [hactive]
    by_cases heq : id = fill.exchangeId
    · -- the order has a session, so that this is not its last fill
      have h0 : fill.leavesQty ≠ 0 := by
        intro h0
        rw [heq] at hid
        exact hid (h.filled fill session (by rw [ht]; exact List.mem_cons_self) h0)
      rw [heq, OrderLedger.setOpen_self, if_neg h0]
      rw [heq] at hopen
      simpa using hopen
    · rwa [OrderLedger.setOpen_of_ne heq]
  | fillDone maker taker => exact ⟨hskip.opened, hskip.filled⟩
  | onCancel req found =>
    simp only [FixGateway.runTask, FixGateway.onCancel]
    split
    · split_ifs with hfound
      · refine h.drop rfl (fun id' hid' => ?_) fun fill' session' hm => Or.inl (hold _ _ hm)
        exact AList.lookup_erase_ne hid'
      · exact hskip
    · exact hskip
  | onTIFCancel order =>
    simp only [FixGateway.runTask, FixGateway.onTIFCancel]
    split
    · exact hskip
    · refine h.drop rfl (fun id' hid' => ?_) fun fill' session' hm => Or.inl (hold _ _ hm)
      exact AList.lookup_erase_ne hid'
  | onReplace req found newLeavesQty =>
    simp only [FixGateway.runTask, FixGateway.onReplace]
    split
    · split_ifs with hfound h0
      · refine h.drop rfl (fun id' hid' => ?_) fun fill' session' hm => Or.inl (hold _ _ hm)
        exact AList.lookup_erase_ne hid'
      · refine h.keep rfl (fun id hopen _ => ?_) fun fill' session' hm _ => hold _ _ hm
        show (s.gateway.activeOrders.insert req.origOrderId _).lookup id ≠ none
        by_cases hid : id = req.origOrderId
        · rw [hid, AList.lookup_insert]
          simp
        · rwa [AList.lookup_insert_ne hid]
      · exact ⟨hskip.opened, hskip.filled⟩
    · exact hskip
  | onOrderRested order leavesQty => exact ⟨hskip.opened, hskip.filled⟩

/-- The callbacks of an item begin with their routing sections. -/
lemma fillOrders_notMem_tasks (cbs : List Callback) (fill : Fill) (session : SessionID) :
    .fillOrders fill session ∉ cbs.flatMap Callback.tasks := by
  intro hm
  obtain ⟨cb, -, hcb⟩ := List.mem_flatMap.mp hm
  cases cb <;> simp [Callback.tasks] at hcb

/-- **A step of the exchange that is not a logon** keeps the maps in step. -/
theorem InStep.step (h : s.InStep) (hs : s.Sound) (ha : ∀ session, a ≠ .logon session)
    (hstep : s.step a = some s') : s'.InStep := by
  cases a with
  | message msg session =>
    obtain ⟨hidle, rfl⟩ := step_message hstep
    have hopened : ∀ id, s.gateway.orderSessions.lookup id ≠ none →
        s.gateway.active id ≠ none := by
      intro id hid
      refine (h.opened id hid).resolve_right ?_
      rintro ⟨o, session', hh, -⟩
      exact absurd (hidle.symm.trans hh) (by simp)
    rcases onMessage_cases s session msg with ⟨seq, sent, heq, -⟩ | ⟨m, o, -, -, heq⟩ |
        ⟨m, req, -, -, heq⟩ | ⟨m, req, -, -, heq⟩ <;>
      rw [heq] <;> exact ⟨fun id hid => Or.inl (hopened id hid), h.filled⟩
  | logon session => exact absurd rfl (ha session)
  | handle =>
    rcases handle_cases hstep with ⟨o, session, hh, rfl⟩ | ⟨o, session, hh, rfl⟩ |
      ⟨item, hitem, rfl⟩
    · -- the new order has a session before it is open
      refine ⟨fun id hid => ?_, fun fill session' ht h0 => ?_⟩
      · obtain ⟨session', hid⟩ := Option.ne_none_iff_exists'.mp hid
        rcases StrMap.lookup_emplace hid with hid | ⟨rfl, -⟩
        · rcases h.opened id (by rw [hid]; simp) with hopen | ⟨o', session'', hh', -⟩
          · exact Or.inl hopen
          · exact absurd (hh.symm.trans hh') (by simp)
        · exact Or.inr ⟨o, session, rfl, rfl⟩
      · rw [Option.eq_none_iff_forall_ne_some]
        intro session'' hid
        rcases StrMap.lookup_emplace hid with hid | ⟨heq, -⟩
        · exact absurd (h.filled fill session' ht h0) (by rw [hid]; simp)
        · exact (hs.tasks _ ht _ (List.mem_singleton.mpr rfl)).2 o (by rw [hh]; rfl) heq
    · refine ⟨fun id hid => Or.inl ?_, h.filled⟩
      rcases h.opened id hid with hopen | ⟨o', session', hh', rfl⟩
      · exact StrMap.lookup_emplace_ne_none hopen
      · obtain ⟨rfl, -⟩ := Handler.activate.inj (hh.symm.trans hh')
        exact StrMap.lookup_emplace_self _ _ _
    · refine ⟨fun id hid => (h.opened id hid).imp_right ?_, h.filled⟩
      rintro ⟨o, session, hh, -⟩
      rw [hh] at hitem
      exact absurd hitem (by simp [nextItem])
  | engine =>
    rcases engineStep_cases hstep with ⟨t, ts, ht, rfl⟩ | ⟨ht, item, queue, b, -, -, rfl⟩
    · exact h.task ht
    · exact ⟨h.opened, fun fill session hm => absurd hm (fillOrders_notMem_tasks _ _ _)⟩
  | persist =>
    obtain ⟨p, p', -, -, rfl⟩ := step_persist hstep
    exact ⟨h.opened, h.filled⟩
  | registerSymbol symbol =>
    obtain ⟨e, -, rfl⟩ := step_registerSymbol hstep
    exact ⟨h.opened, h.filled⟩

/-! ## Orders that are filled -/

/-- The complete fills whose report is between its two sections. -/
def halfRemoved (s : System) : List Fill :=
  s.tasks.filterMap fun
    | .fillOrders fill _ => if fill.leavesQty = 0 then some fill else none
    | _ => none

/-- The complete fill that the engine thread is about to report. -/
def nextRemoved (s : System) : List Fill :=
  match s.tasks with
  | .fillRouting fill :: _ => if fill.leavesQty = 0 then [fill] else []
  | _ => []

/-- The orders whose complete fill a step takes out of one of the two maps. -/
def removes (s : System) : Action → List String
  | .engine =>
    match s.tasks with
    | .fillRouting fill :: _ =>
      if fill.leavesQty = 0 ∧ fill.exchangeId ∈ s.gateway.orderSessions then [fill.exchangeId]
      else []
    | .fillOrders fill _ :: _ =>
      if fill.leavesQty = 0 ∧ fill.exchangeId ∈ s.gateway.activeOrders then [fill.exchangeId]
      else []
    | _ => []
  | _ => []

lemma mem_halfRemoved {fill : Fill} {session : SessionID}
    (h : .fillOrders fill session ∈ s.tasks) (h0 : fill.leavesQty = 0) : fill ∈ s.halfRemoved :=
  List.mem_filterMap.mpr ⟨_, h, if_pos h0⟩

/-- An order that has been filled is open at most while its report is between its sections. -/
structure Gone (s : System) (id : String) : Prop where
  known : s.Known id
  half : s.gateway.active id ≠ none →
    ∃ fill session, .fillOrders fill session ∈ s.tasks ∧ fill.leavesQty = 0 ∧ fill.exchangeId = id

/-- **An order that has been filled** does not come back. -/
theorem Gone.step {id : String} (h : s.Gone id) (hstep : s.step a = some s') : s'.Gone id := by
  refine ⟨h.known.step hstep, ?_⟩
  cases a with
  | message msg session =>
    obtain ⟨-, rfl⟩ := step_message hstep
    rcases onMessage_cases s session msg with ⟨seq, sent, heq, -⟩ | ⟨m, o, -, -, heq⟩ |
      ⟨m, req, -, -, heq⟩ | ⟨m, req, -, -, heq⟩ <;> rw [heq] <;> exact h.half
  | logon session =>
    obtain ⟨-, rfl⟩ := step_logon hstep
    exact h.half
  | handle =>
    rcases handle_cases hstep with ⟨o, session, -, rfl⟩ | ⟨o, session, hh, rfl⟩ | ⟨item, -, rfl⟩
    · exact h.half
    · intro hid
      obtain ⟨o', ho'⟩ := Option.ne_none_iff_exists'.mp hid
      rcases active_activateOrder ho' with ho' | ⟨rfl, -⟩
      · exact h.half (by rw [ho']; simp)
      · exact absurd rfl (h.known.2 o (by rw [hh]; rfl))
    · exact h.half
  | engine =>
    rcases engineStep_cases hstep with ⟨t, ts, ht, rfl⟩ | ⟨ht, item, queue, b, -, -, rfl⟩
    · intro hid
      obtain ⟨o', ho'⟩ := Option.ne_none_iff_exists'.mp hid
      obtain ⟨o, ho, -⟩ := FixGateway.runTask_active_inv ho'
      obtain ⟨fill, session, hm, h0, rfl⟩ := h.half (by rw [ho]; simp)
      rw [ht] at hm
      rcases List.mem_cons.mp hm with rfl | hm
      · -- the second section has dropped the order
        have hactive : (s.gateway.fillOrders fill session).active
            = s.gateway.active.setOpen fill.exchangeId fill.leavesQty :=
          FixGateway.active_setLeaves _ _ _
        have ho' : (s.gateway.fillOrders fill session).active fill.exchangeId = some o' := ho'
        rw [hactive, OrderLedger.setOpen_self, if_pos h0] at ho'
        exact absurd ho' (by simp)
      · exact ⟨fill, session, List.mem_append_right _ hm, h0, rfl⟩
    · intro hid
      obtain ⟨fill, session, hm, -⟩ := h.half hid
      rw [ht] at hm
      exact absurd hm List.not_mem_nil
  | persist =>
    obtain ⟨p, p', -, -, rfl⟩ := step_persist hstep
    exact h.half
  | registerSymbol symbol =>
    obtain ⟨e, -, rfl⟩ := step_registerSymbol hstep
    exact h.half

/-- A report that is sent by another step than a logon is not a status report. -/
lemma LiveReport.execType_ne {report : ExecutionReport} (h : s.LiveReport a report) :
    report.execType ≠ ExecType.OrderStatus.char := by
  have hchar : ∀ t : ExecType, t ≠ .OrderStatus → t.char ≠ ExecType.OrderStatus.char := by
    intro t ht
    cases t <;> simp_all [ExecType.char]
  cases h with
  | fill ht => exact hchar _ (by split_ifs <;> simp)
  | rejected hid hsends => exact hchar .Rejected (by simp)
  | new h => exact hchar .New (by simp)
  | expired ht hs | canceled ht hs ho => exact hchar .Canceled (by simp)
  | replaced ht hs ho => exact hchar .Replaced (by simp)

end System

/-- A session that is there already is kept. -/
lemma FixGateway.bindOrders_eq {g : FixGateway} {session : SessionID}
    (h : ∀ o ∈ g.ordersOf session.targetCompID, o.exchangeId ∈ g.orderSessions) :
    g.bindOrders session = g := by
  have hfold : ∀ orders : List Order, (∀ o ∈ orders, o.exchangeId ∈ g.orderSessions) →
      orders.foldl (fun sessions o => StrMap.emplace sessions o.exchangeId session) g.orderSessions
        = g.orderSessions := by
    intro orders
    induction orders with
    | nil => exact fun _ => rfl
    | cons o orders ih =>
      intro hmem
      rw [List.foldl_cons, StrMap.emplace, if_pos (hmem o List.mem_cons_self)]
      exact ih fun o' ho' => hmem o' (List.mem_cons_of_mem _ ho')
  rw [bindOrders, hfold _ h]

namespace Sections

variable {cfg : Config} {ok : Sections → Action → Prop} {as : List Action} {x y : Sections}
  {a : Action}

/-- The copies that the QuickFIX thread still has to report. -/
def copies (x : Sections) : List Order := (x.logon.map Prod.snd).getD []

/-- The step does not come into the window of another section: no client logs on while one of
its orders is between the sections of its last report, and no order is filled that a logon has
copied and not yet reported. -/
def Timely (x : Sections) : Action → Prop
  | .logon session => ∀ fill ∈ x.system.halfRemoved,
      ∀ o ∈ x.system.gateway.activeOrders.lookup fill.exchangeId,
        o.clientId ≠ session.targetCompID
  | .engine => ∀ fill ∈ x.system.nextRemoved, ∀ o ∈ x.copies, o.exchangeId ≠ fill.exchangeId
  | .message _ _ | .handle | .persist | .registerSymbol _ => True

instance decidableTimely (x : Sections) (a : Action) : Decidable (x.Timely a) :=
  match a with
  | .logon session =>
    have : DecidablePred fun fill : Fill =>
        ∀ o ∈ x.system.gateway.activeOrders.lookup fill.exchangeId,
          o.clientId ≠ session.targetCompID :=
      fun _ => Option.decidableForallMem _
    List.decidableBAll _ x.system.halfRemoved
  | .engine =>
    have : DecidablePred fun fill : Fill => ∀ o ∈ x.copies, o.exchangeId ≠ fill.exchangeId :=
      fun _ => List.decidableBAll _ x.copies
    List.decidableBAll _ x.system.nextRemoved
  | .message _ _ | .handle | .persist | .registerSymbol _ => instDecidableTrue

/-- The orders whose complete fill a run has taken out of one of the two maps. -/
def removed (cfg : Config) (as : List Action) : List String :=
  Transition.collect step (fun x a => x.system.removes a) (start cfg) as

/-- What is known of the orders that have been filled. -/
structure Reported (removed : List String) (x : Sections) : Prop where
  gone : ∀ id ∈ removed, x.system.Gone id
  half : ∀ fill session, .fillOrders fill session ∈ x.system.tasks → fill.leavesQty = 0 →
    fill.exchangeId ∈ removed
  reports : ∀ o ∈ x.copies, o.exchangeId ∉ removed

/-- A logon that is timely finds a session for each of its orders. -/
lemma bindOrders_of_timely {session : SessionID} (hs : x.system.Sound)
    (hok : x.Timely (.logon session)) :
    x.system.gateway.bindOrders session = x.system.gateway := by
  refine FixGateway.bindOrders_eq fun o ho => ?_
  obtain ⟨hmem, hclient⟩ := List.mem_filter.mp ho
  obtain ⟨id, hid⟩ := FixGateway.mem_activeOrders.mp hmem
  obtain ⟨rfl, -⟩ := hs.maps.active id o hid
  by_contra hnone
  have hnone : x.system.gateway.orderSessions.lookup o.exchangeId = none :=
    AList.lookup_eq_none.mpr hnone
  rcases hs.maps.covered o.exchangeId (by rw [hid]; simp) with hsession |
    ⟨fill, session', ts, ht, heq, h0⟩
  · exact hsession hnone
  · have hhalf : fill ∈ x.system.halfRemoved :=
      System.mem_halfRemoved (by rw [ht]; exact List.mem_cons_self) h0
    refine hok fill hhalf o ?_ (of_decide_eq_true hclient)
    rw [heq]
    exact hid

/-- One step keeps the maps in step. -/
lemma inStep_step (h : x.system.InStep) (hs : x.system.Sound) (hok : x.Timely a)
    (hstep : x.step a = some y) : y.system.InStep := by
  rcases step_cases hstep with ⟨session, rfl, -, -, rfl⟩ | ⟨session, orders, -, -, rfl⟩ |
    ⟨hlogon, hstep, -⟩
  · rw [bindOrders_of_timely hs hok]
    exact h
  · cases orders <;> exact ⟨h.opened, h.filled⟩
  · exact h.step hs hlogon hstep

/-- A step of the exchange that takes out some more orders. -/
lemma Reported.more {ids new : List String} (h : x.Reported ids)
    (hstep : x.system.step a = some y.system) (hlogon : y.logon = x.logon)
    (hnew : ∀ id ∈ new, y.system.Gone id ∧ ∀ o ∈ x.copies, o.exchangeId ≠ id)
    (hhalf : ∀ fill session, .fillOrders fill session ∈ y.system.tasks → fill.leavesQty = 0 →
      fill.exchangeId ∈ ids ++ new) : y.Reported (ids ++ new) := by
  refine ⟨fun id hid => ?_, hhalf, fun o ho hid => ?_⟩
  · rcases List.mem_append.mp hid with hid | hid
    · exact (h.gone id hid).step hstep
    · exact (hnew id hid).1
  · have ho : o ∈ x.copies := by rwa [copies, hlogon] at ho
    rcases List.mem_append.mp hid with hid | hid
    · exact h.reports o ho hid
    · exact (hnew _ hid).2 o ho rfl

/-- The engine thread takes out the orders whose complete fill it reports. -/
lemma Reported.engine {ids : List String} (h : x.Reported ids) (hs : x.system.Sound)
    (hok : x.Timely .engine) (hstep : x.system.step .engine = some y.system)
    (hlogon : y.logon = x.logon) : y.Reported (ids ++ x.system.removes .engine) := by
  have hstep' : x.system.engineStep = some y.system := hstep
  rcases System.engineStep_cases hstep' with ⟨t, ts, ht, hy⟩ | ⟨ht, item, queue, b, -, -, hy⟩
  · have hmem : t ∈ x.system.tasks := by rw [ht]; exact List.mem_cons_self
    have htasks : y.system.tasks = (x.system.gateway.runTask t).2 ++ ts := by rw [hy]
    have hold : ∀ fill session, .fillOrders fill session ∈ ts → fill.leavesQty = 0 →
        fill.exchangeId ∈ ids ++ x.system.removes .engine := fun fill session hm h0 =>
      List.mem_append_left _ (h.half fill session (by rw [ht]; exact List.mem_cons_of_mem _ hm) h0)
    cases t with
    | fillRouting fill =>
      cases hses : x.system.gateway.orderSessions.lookup fill.exchangeId with
      | none =>
        have hmore : (x.system.gateway.runTask (.fillRouting fill)).2 = [] := by
          simp [FixGateway.runTask, FixGateway.fillRouting, hses]
        have hnone : x.system.removes .engine = [] := by
          simp [System.removes, ht, AList.lookup_eq_none.mp hses]
        rw [hmore, List.nil_append] at htasks
        refine h.more hstep hlogon (by simp [hnone]) ?_
        rw [htasks]
        exact hold
      | some session =>
        have hin : fill.exchangeId ∈ x.system.gateway.orderSessions :=
          AList.lookup_isSome.mp (by rw [hses]; rfl)
        by_cases h0 : fill.leavesQty = 0
        · have hmore : (x.system.gateway.runTask (.fillRouting fill)).2
              = [.fillOrders fill session] := by
            simp [FixGateway.runTask, FixGateway.fillRouting, hses, h0]
          have hone : x.system.removes .engine = [fill.exchangeId] := by
            simp [System.removes, ht, hin, h0]
          rw [hmore, List.singleton_append] at htasks
          have hhead : .fillOrders fill session ∈ y.system.tasks := by
            rw [htasks]
            exact List.mem_cons_self
          have hknown := hs.tasks _ hmem _ (List.mem_singleton.mpr rfl)
          refine h.more hstep hlogon ?_ ?_
          · rw [hone]
            intro id hid
            obtain rfl := List.mem_singleton.mp hid
            refine ⟨⟨hknown.step hstep, fun _ => ⟨fill, session, hhead, h0, rfl⟩⟩, ?_⟩
            -- the step is timely: no logon has copied the order
            exact hok fill (by simp [System.nextRemoved, ht, h0])
          · rw [htasks]
            intro fill' session' hm h0'
            rcases List.mem_cons.mp hm with heq | hm
            · obtain ⟨rfl, -⟩ := Task.fillOrders.inj heq
              rw [hone]
              exact List.mem_append_right _ List.mem_cons_self
            · exact hold fill' session' hm h0'
        · have hmore : (x.system.gateway.runTask (.fillRouting fill)).2
              = [.fillOrders fill session] := by
            simp [FixGateway.runTask, FixGateway.fillRouting, hses, h0]
          have hnone : x.system.removes .engine = [] := by
            simp [System.removes, ht, h0]
          rw [hmore, List.singleton_append] at htasks
          refine h.more hstep hlogon (by simp [hnone]) ?_
          rw [htasks]
          intro fill' session' hm h0'
          rcases List.mem_cons.mp hm with heq | hm
          · obtain ⟨rfl, -⟩ := Task.fillOrders.inj heq
            exact absurd h0' h0
          · exact hold fill' session' hm h0'
    | fillOrders fill session =>
      -- the order has been taken out of the other map before
      have hhas : ∀ id ∈ x.system.removes .engine, id ∈ ids := by
        intro id hid
        simp only [System.removes, ht] at hid
        split_ifs at hid with h0
        · obtain rfl := List.mem_singleton.mp hid
          exact h.half fill session hmem h0.1
        · exact absurd hid List.not_mem_nil
      refine h.more hstep hlogon (fun id hid => ?_) ?_
      · refine ⟨(h.gone id (hhas id hid)).step hstep, fun o ho heq => ?_⟩
        exact h.reports o ho (heq ▸ hhas id hid)
      · rw [htasks]
        exact hold
    | fillDone | onCancel | onTIFCancel | onReplace | onOrderRested =>
      have hnone : x.system.removes .engine = [] := by simp [System.removes, ht]
      refine h.more hstep hlogon (by simp [hnone]) ?_
      rw [htasks]
      exact hold
  · have hnone : x.system.removes .engine = [] := by simp [System.removes, ht]
    refine h.more hstep hlogon (by simp [hnone]) ?_
    rw [hy]
    exact fun fill session hm => absurd hm (System.fillOrders_notMem_tasks _ _ _)

/-- What the exchange takes out is reported as filled, and by then no logon reports it. -/
lemma Reported.system_step {ids : List String} (h : x.Reported ids) (hs : x.system.Sound)
    (hok : x.Timely a) (hstep : x.system.step a = some y.system) (hlogon : y.logon = x.logon) :
    y.Reported (ids ++ x.system.removes a) := by
  -- a step of another thread takes out nothing
  have hother : x.system.removes a = [] → y.system.tasks = x.system.tasks →
      y.Reported (ids ++ x.system.removes a) := by
    intro hnone htasks
    refine h.more hstep hlogon (by simp [hnone]) ?_
    rw [htasks]
    exact fun fill session hm h0 => List.mem_append_left _ (h.half fill session hm h0)
  cases a with
  | message msg session =>
    obtain ⟨-, hy⟩ := System.step_message hstep
    exact hother rfl (by rw [hy])
  | logon session =>
    obtain ⟨-, hy⟩ := System.step_logon hstep
    exact hother rfl (by rw [hy])
  | handle =>
    rcases System.handle_cases hstep with ⟨o, session, -, hy⟩ | ⟨o, session, -, hy⟩ |
        ⟨item, -, hy⟩ <;>
      exact hother rfl (by rw [hy])
  | engine => exact h.engine hs hok hstep hlogon
  | persist =>
    obtain ⟨p, p', -, -, hy⟩ := System.step_persist hstep
    exact hother rfl (by rw [hy])
  | registerSymbol symbol =>
    obtain ⟨e, -, hy⟩ := System.step_registerSymbol hstep
    exact hother rfl (by rw [hy])

/-- **One timely step** reports no order that has been filled. -/
theorem Reported.step {ids : List String} (h : x.Reported ids) (hs : x.system.Sound)
    (hok : x.Timely a) (hstep : x.step a = some y) : y.Reported (ids ++ x.system.removes a) := by
  rcases step_cases hstep with ⟨session, rfl, hlogon, -, rfl⟩ | ⟨session, orders, rfl, hlogon, rfl⟩ |
    ⟨-, hsystem, hlogon⟩
  · -- the orders that are copied are open, and none of them is half removed
    have hnone : x.system.removes (.logon session) = [] := rfl
    rw [hnone, List.append_nil]
    refine ⟨fun id hid => ⟨(h.gone id hid).known, (h.gone id hid).half⟩, h.half, fun o ho hid => ?_⟩
    obtain ⟨hmem, hclient⟩ := List.mem_filter.mp ho
    obtain ⟨id, hopen⟩ := FixGateway.mem_activeOrders.mp hmem
    obtain ⟨rfl, -⟩ := hs.maps.active id o hopen
    obtain ⟨fill, session', ht, h0, heq⟩ := (h.gone _ hid).half (by rw [hopen]; simp)
    refine hok fill (System.mem_halfRemoved ht h0) o ?_ (of_decide_eq_true hclient)
    rw [heq]
    exact hopen
  · have hnone : x.system.removes .handle = [] := rfl
    rw [hnone, List.append_nil]
    have hcopies : ∀ o ∈ orders, o.exchangeId ∉ ids := by
      have := h.reports
      rwa [copies, hlogon] at this
    cases orders with
    | nil =>
      exact ⟨fun id hid => ⟨(h.gone id hid).known, (h.gone id hid).half⟩, h.half,
        fun o ho => absurd ho List.not_mem_nil⟩
    | cons order orders =>
      exact ⟨fun id hid => ⟨(h.gone id hid).known, (h.gone id hid).half⟩, h.half,
        fun o ho => hcopies o (List.mem_cons_of_mem _ ho)⟩
  · exact h.system_step hs hok hsystem hlogon

/-- A report from the history is not a status report. -/
lemma execType_historical {p : PersistenceLayer} {client : String} {f : HistoricalFill}
    (h : f ∈ p.loadHistoricalFills client) :
    (makeHistoricalFillReport f).execType ≠ ExecType.OrderStatus.char := by
  obtain ⟨row, -, hrow⟩ := List.mem_filterMap.mp h
  split at hrow
  · exact absurd hrow (by simp)
  · split_ifs at hrow <;> obtain rfl := Option.some.inj hrow <;>
      simp [makeHistoricalFillReport, ExecType.char]

/-- A status report is about a copy that a logon has made. -/
lemma status_of_copy (hstep : x.step a = some y) {session : SessionID} {report : ExecutionReport}
    (hsent : (session, .execReport report)
      ∈ y.system.gateway.sent.drop x.system.gateway.sent.length)
    (htype : report.execType = ExecType.OrderStatus.char) :
    ∃ o ∈ x.copies, report.orderId = o.exchangeId := by
  rcases step_cases hstep with ⟨session', -, -, -, rfl⟩ | ⟨session', orders, -, hlogon, rfl⟩ |
    ⟨ha, hsystem, -⟩
  · have hsent : _ ∈ x.system.gateway.sent.drop x.system.gateway.sent.length := hsent
    rw [List.drop_length] at hsent
    exact absurd hsent List.not_mem_nil
  · cases orders with
    | nil =>
      have hsent : _ ∈ (x.system.gateway.sent ++ _).drop x.system.gateway.sent.length := hsent
      rw [List.drop_left] at hsent
      obtain ⟨report', hreport, heq⟩ := List.mem_map.mp hsent
      obtain ⟨-, heq⟩ := Prod.mk.inj heq
      obtain rfl := ClientMessage.execReport.inj heq
      rw [FixGateway.historicalReports] at hreport
      split at hreport
      · exact absurd hreport List.not_mem_nil
      · obtain ⟨f, hf, rfl⟩ := List.mem_map.mp hreport
        exact absurd htype (execType_historical hf)
    | cons o orders =>
      have hsent : _ ∈ (x.system.gateway.sent ++ _).drop x.system.gateway.sent.length := hsent
      rw [List.drop_left, List.mem_singleton, Prod.mk.injEq] at hsent
      obtain rfl := ClientMessage.execReport.inj hsent.2
      exact ⟨o, by rw [copies, hlogon]; exact List.mem_cons_self, rfl⟩
  · -- the exchange reports an order as open in the step of a logon only
    rw [System.sent_step hsystem, List.drop_left] at hsent
    have hlive : x.system.liveSends a = x.system.sends a := by
      cases a with
      | logon session' => exact absurd rfl (ha session')
      | _ => rfl
    have hmem : report ∈ executionReports (x.system.liveSends a) := by
      rw [hlive]
      exact mem_executionReports.mpr ⟨session, hsent⟩
    rcases x.system.executionReports_step a with hnone | ⟨report', hone, hreport⟩
    · rw [hnone] at hmem
      exact absurd hmem List.not_mem_nil
    · rw [hone] at hmem
      obtain rfl := List.mem_singleton.mp hmem
      exact absurd htype hreport.execType_ne

/-- Both threads are idle: the engine thread is between two items of its queue. -/
structure Idle (x : Sections) : Prop where
  logon : x.logon = none
  handler : x.system.handler = .idle
  tasks : x.system.tasks = []

instance (x : Sections) : Decidable x.Idle :=
  decidable_of_iff (x.logon.isNone ∧ x.system.handler = .idle ∧ x.system.tasks = [])
    ⟨fun h => ⟨Option.isNone_iff_eq_none.mp h.1, h.2.1, h.2.2⟩,
      fun h => ⟨Option.isNone_iff_eq_none.mpr h.logon, h.handler, h.tasks⟩⟩

/-- **The two maps are in step**: in every interleaving whose steps are timely, the routing map
and the open orders have the same keys whenever both threads are idle, and no step reports an
order as open when its complete fill has been taken out of one of them. -/
theorem maps_in_step (h : Transition.Reaches step Timely (start cfg) as x) :
    (x.Idle → ∀ id, id ∈ x.system.gateway.orderSessions ↔ id ∈ x.system.gateway.activeOrders) ∧
      ∀ a y, x.step a = some y → ∀ session report,
        (session, .execReport report)
            ∈ y.system.gateway.sent.drop x.system.gateway.sent.length →
          report.execType = ExecType.OrderStatus.char → report.orderId ∉ removed cfg as := by
  have hs := sound_of_run h
  have hinv : x.system.InStep ∧ x.Reported (removed cfg as) := by
    have hstart : (start cfg).Reported (removed cfg []) :=
      ⟨fun id hid => absurd hid List.not_mem_nil, fun fill session ht => absurd ht List.not_mem_nil,
        fun o ho => absurd ho List.not_mem_nil⟩
    refine h.invariant_history (I := fun as x => x.system.InStep ∧ x.Reported (removed cfg as))
      ⟨System.inStep_start cfg, hstart⟩ fun as x a y hrun hx hok hstep => ?_
    refine ⟨inStep_step hx.1 (sound_of_run hrun) hok hstep, ?_⟩
    rw [removed, hrun.collect_snoc]
    exact hx.2.step (sound_of_run hrun) hok hstep
  refine ⟨fun hidle id => ?_, fun a y hstep session report hsent htype => ?_⟩
  · rw [← AList.lookup_isSome, ← AList.lookup_isSome, Option.isSome_iff_ne_none,
      Option.isSome_iff_ne_none]
    constructor
    · intro hid
      refine (hinv.1.opened id hid).resolve_right ?_
      rintro ⟨o, session, hh, -⟩
      exact absurd (hidle.handler.symm.trans hh) (by simp)
    · intro hid
      refine (hs.maps.covered id hid).resolve_right ?_
      rintro ⟨fill, session, ts, ht, -⟩
      exact absurd (hidle.tasks.symm.trans ht) (by simp)
  · obtain ⟨o, ho, hid⟩ := status_of_copy hstep hsent htype
    rw [hid]
    exact hinv.2.reports o ho

/-- A client logs on while its order rests, and the order is filled after that. -/
def sampleLogonRun : List Action :=
  Sample.submit (Sample.limit "a" '2' 5 10) Sample.alice ++ Sample.engine 2
    ++ .logon Sample.alice :: List.replicate 2 .handle
    ++ Sample.submit (Sample.limit "b" '1' 5 10) Sample.bob ++ Sample.engine 6

theorem maps_in_step_sample :
    ∃ x, Transition.Reaches step Timely (start Sample.config) sampleLogonRun x ∧ x.Idle ∧
      ∀ id, id ∈ x.system.gateway.orderSessions ↔ id ∈ x.system.gateway.activeOrders := by
  have hreach : ∃ x, Transition.Reaches step Timely (start Sample.config) sampleLogonRun x ∧
      x.Idle :=
    Transition.exists_reaches (by decide +kernel) (by decide +kernel)
  obtain ⟨x, hrun, hidle⟩ := hreach
  exact ⟨x, hrun, hidle, (maps_in_step hrun).1 hidle⟩

/-- The client logs on between the two sections of the report of its complete fill. -/
def sampleLateLogonRun : List Action :=
  Sample.submit (Sample.limit "a" '2' 5 10) Sample.alice ++ Sample.engine 2
    ++ Sample.submit (Sample.limit "b" '1' 5 10) Sample.bob ++ Sample.engine 2
    ++ .logon Sample.alice :: List.replicate 2 .handle ++ Sample.engine 4

/-- The session of a filled order comes back, and stays when both threads are idle. -/
theorem session_stays :
    ∃ x, Transition.Reaches step (fun _ _ => True) (start Sample.config) sampleLateLogonRun x ∧
      x.Idle ∧ "EXCH-1" ∈ x.system.gateway.orderSessions ∧
        "EXCH-1" ∉ x.system.gateway.activeOrders :=
  Transition.exists_reaches (by decide +kernel)
    (Transition.allowed_of_forall (fun _ _ => trivial) _ _)

end Sections

end FixExchange
