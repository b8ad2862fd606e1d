/-
# Who gets the reports

Every order belongs to the client that sent it, whether it was sent to this process or
recovered from the database.  A report about an order of this process goes to a session of its
client, and a report from the history goes to the client of the finished order, in every run,
after any sequence of processes on the database (`reports_reach_owner`).
-/
import FixExchange.Persistence.Tables
import FixExchange.System.Held
import FixExchange.System.Lives
import FixExchange.System.Reports

namespace FixExchange

/-! ## Owners -/

/-- The id of an order, with its client. -/
def Order.owner (o : Order) : String × String := (o.exchangeId, o.clientId)

@[inherit_doc Order.owner]
def Fill.owner (f : Fill) : String × String := (f.exchangeId, f.clientId)

@[inherit_doc Order.owner]
def RestingRow.owner (row : RestingRow) : String × String := (row.exchangeId, row.clientId)

lemma Fill.Of.owner {f : Fill} {o : Order} (h : f.Of o) : f.owner = o.owner :=
  Prod.ext h.exchangeId h.clientId

lemma Order.SameOrigin.owner {o o' : Order} (h : o'.SameOrigin o) : o'.owner = o.owner :=
  Prod.ext h.exchangeId h.clientId

variable {own all : Set (String × String)}

/-- The orders that a task is about have these owners; its report goes to one of them. -/
def Task.Owned (own : Set (String × String)) : Task → Prop
  | .fillOrders fill session => (fill.exchangeId, session.targetCompID) ∈ own
  | .fillDone maker taker => maker.owner ∈ own ∧ taker.owner ∈ own
  | .onOrderRested o _ => o.owner ∈ own
  | .fillRouting _ | .onCancel _ _ | .onTIFCancel _ | .onReplace _ _ _ => True

/-- The orders that an event is about have these owners. -/
def PersistenceEvent.Owned (own : Set (String × String)) : PersistenceEvent → Prop
  | .rested o _ => o.owner ∈ own
  | .fill f | .takerFill f => f.owner ∈ own
  | .cancel id o => (id, o.clientId) ∈ own
  | .replace _ _ | .symbol _ => True

/-- The resting orders of a database have owners among `own`, and the orders in its history
among `all`. -/
structure Database.Owned (db : Database) (own all : Set (String × String)) : Prop where
  rows : ∀ row ∈ db.restingOrders, row.owner ∈ own
  events : ∀ row ∈ db.events, ∀ client ∈ row.clientId, (row.exchangeId, client) ∈ all

lemma Database.Owned.applyEvent {db : Database} (h : db.Owned own all) (hsub : own ⊆ all)
    {evt : PersistenceEvent} (hevt : evt.Owned own) : (db.applyEvent evt).Owned own all := by
  refine ⟨fun row hrow => ?_, fun row hrow client hclient => ?_⟩
  · rcases mem_applyEvent hrow with ⟨row₀, hrow₀, hid, hclient, -, -⟩ | ⟨o, leavesQty, rfl, rfl⟩
    · have howner : row.owner = row₀.owner := Prod.ext hid hclient
      rw [howner]
      exact h.rows row₀ hrow₀
    · exact hevt
  · rw [events_applyEvent] at hrow
    rcases List.mem_append.mp hrow with hrow | hrow
    · exact h.events row hrow client hclient
    · refine hsub ?_
      cases evt with
      | rested o leavesQty =>
        obtain rfl := List.mem_singleton.mp hrow
        obtain rfl := Option.some.inj hclient
        exact hevt
      | fill f | takerFill f =>
        obtain rfl := List.mem_singleton.mp hrow
        obtain rfl := Option.some.inj hclient
        exact hevt
      | cancel id o =>
        obtain rfl := List.mem_singleton.mp hrow
        obtain rfl := Option.some.inj hclient
        exact hevt
      | replace req leavesQty =>
        obtain rfl := List.mem_singleton.mp hrow
        exact absurd hclient (by simp)
      | symbol symbol => exact absurd hrow List.not_mem_nil

/-- A finished order in the history of a client is an order of the client. -/
lemma Database.Owned.history {db : Database} (h : db.Owned own all) {p : PersistenceLayer}
    (hp : p.db = db) {client : String} {f : HistoricalFill}
    (hf : f ∈ p.loadHistoricalFills client) : (f.exchangeId, client) ∈ all := by
  obtain ⟨row, hrow, hsome⟩ := List.mem_filterMap.mp hf
  split at hsome
  · exact absurd hsome (by simp)
  · rename_i clordId hclord
    by_cases hcond : row.type ∈ ["fill", "taker_fill", "cancel"] ∧ row.clientId = some client ∧
        row.leavesQty = some 0 ∧ clordId ≠ ""
    · rw [if_pos hcond] at hsome
      obtain rfl := Option.some.inj hsome
      rw [hp] at hrow
      exact h.events row hrow client hcond.2.1
    · rw [if_neg hcond] at hsome
      exact absurd hsome (by simp)

/-- The history of a client only grows. -/
lemma PersistenceLayer.loadHistoricalFills_applyNext {p p' : PersistenceLayer}
    (h : p.applyNext = some p') {client : String} {f : HistoricalFill}
    (hf : f ∈ p.loadHistoricalFills client) : f ∈ p'.loadHistoricalFills client := by
  obtain ⟨evt, -, hdb⟩ := applyNext_eq_some h
  rw [loadHistoricalFills, hdb, Database.events_applyEvent, List.filterMap_append]
  exact List.mem_append_left _ hf

namespace FixGateway

variable {g : FixGateway} {t : Task}

/-- A task enters no session. -/
lemma lookup_of_runTask {id : String} {session : SessionID}
    (h : (g.runTask t).1.orderSessions.lookup id = some session) :
    g.orderSessions.lookup id = some session := by
  cases t with
  | fillRouting fill =>
    simp only [runTask, fillRouting] at h
    split at h
    · exact h
    · split_ifs at h
      · exact lookup_of_lookup_erase h
      · exact h
  | fillOrders fill session => exact h
  | fillDone maker taker => exact h
  | onCancel req found =>
    simp only [runTask, onCancel] at h
    split at h
    · split_ifs at h
      · exact lookup_of_lookup_erase h
      · exact h
    · exact h
  | onTIFCancel order =>
    simp only [runTask, onTIFCancel] at h
    split at h
    · exact h
    · exact lookup_of_lookup_erase h
  | onReplace req found newLeavesQty =>
    simp only [runTask, onReplace] at h
    split at h
    · split_ifs at h
      · exact lookup_of_lookup_erase h
      · exact h
      · exact h
    · exact h
  | onOrderRested order leavesQty => exact h

end FixGateway

namespace System

variable {s s' : System} {a : Action}

/-! ## The invariant -/

/-- Everything that the exchange holds belongs to the owners of the orders. -/
structure Owned (s : System) (own all : Set (String × String)) : Prop where
  held : ∀ o ∈ s.heldOrders, o.owner ∈ own
  sessions : ∀ id session, s.gateway.orderSessions.lookup id = some session →
    (id, session.targetCompID) ∈ own
  handler : ∀ o session, s.handler = .route o session ∨ s.handler = .activate o session →
    session.targetCompID = o.clientId
  tasks : ∀ t ∈ s.tasks, t.Owned own
  events : ∀ p ∈ s.gateway.persistence, ∀ evt ∈ p.queue, evt.Owned own
  db : ∀ p ∈ s.gateway.persistence, p.db.Owned own all
  sent : ∀ session report, (session, .execReport report) ∈ s.gateway.sent →
    (report.orderId, session.targetCompID) ∈ own ∨ ∃ p ∈ s.gateway.persistence,
      ∃ f ∈ p.loadHistoricalFills session.targetCompID, report = makeHistoricalFillReport f

lemma Owned.mono {own' all' : Set (String × String)} (h : s.Owned own all) (hown : own ⊆ own')
    (hall : all ⊆ all') : s.Owned own' all' where
  held := fun o ho => hown (h.held o ho)
  sessions := fun id session hs => hown (h.sessions id session hs)
  handler := h.handler
  tasks := fun t ht => by
    have := h.tasks t ht
    cases t with
    | fillOrders fill session => exact hown this
    | fillDone maker taker => exact ⟨hown this.1, hown this.2⟩
    | onOrderRested o leavesQty => exact hown this
    | fillRouting | onCancel | onTIFCancel | onReplace => trivial
  events := fun p hp evt hevt => by
    have := h.events p hp evt hevt
    cases evt with
    | rested | fill | takerFill | cancel => exact hown this
    | replace | symbol => trivial
  db := fun p hp => ⟨fun row hrow => hown ((h.db p hp).rows row hrow),
    fun row hrow client hclient => hall ((h.db p hp).events row hrow client hclient)⟩
  sent := fun session report hsent => (h.sent session report hsent).imp_left fun hr => hown hr

/-- A pending order is held. -/
lemma Owned.pending (h : s.Owned own all) {o : Order} (ho : o ∈ s.handler.pending) :
    o.owner ∈ own := h.held o (mem_heldOrders.mpr (Or.inr (Or.inl (Or.inr ho))))

lemma Owned.active (h : s.Owned own all) {id : String} {o : Order}
    (ho : s.gateway.active id = some o) : o.owner ∈ own :=
  h.held o (mem_heldOrders.mpr (Or.inr (Or.inr ⟨id, ho⟩)))

/-- The open orders that are reported to a client are its orders. -/
lemma Owned.mem_ordersOf (h : s.Owned own all) {client : String} {o : Order}
    (ho : o ∈ s.gateway.ordersOf client) : (o.exchangeId, client) ∈ own := by
  obtain ⟨hmem, hclient⟩ := List.mem_filter.mp ho
  rw [decide_eq_true_eq] at hclient
  obtain ⟨id, hid⟩ := FixGateway.mem_activeOrders.mp hmem
  rw [← hclient]
  exact h.active hid

/-! ## What a step sends -/

/-- **A report that a step sends** goes to the owner of its order, or is from the history. -/
lemma Owned.sends (h : s.Owned own all) (hf : s.Founded) (hnew : ∀ x ∈ s.assigns a, x ∈ own)
    {session : SessionID} {report : ExecutionReport}
    (hsent : (session, .execReport report) ∈ s.sends a) :
    (report.orderId, session.targetCompID) ∈ own ∨ ∃ p ∈ s.gateway.persistence,
      ∃ f ∈ p.loadHistoricalFills session.targetCompID, report = makeHistoricalFillReport f := by
  cases a with
  | message msg session' =>
    rcases (onMessage_sent s session' msg).2 with hnil | ⟨m, report', rfl, hone, hid, -, -⟩ |
        ⟨m, reject, -, hone, -⟩
    · rw [hnil] at hsent
      exact absurd hsent List.not_mem_nil
    · rw [hone, List.mem_singleton, Prod.mk.injEq] at hsent
      obtain ⟨rfl, hreport⟩ := hsent
      obtain rfl := ClientMessage.execReport.inj hreport
      refine Or.inl (hnew _ ?_)
      rw [hid]
      exact List.mem_singleton_self _
    · rw [hone, List.mem_singleton, Prod.mk.injEq] at hsent
      exact absurd hsent.2 (by simp)
  | logon session' =>
    obtain ⟨report', hreport', heq⟩ := List.mem_map.mp hsent
    obtain ⟨rfl, hreport⟩ := Prod.mk.inj heq
    obtain rfl := ClientMessage.execReport.inj hreport
    rcases List.mem_append.mp hreport' with hstatus | hhistory
    · obtain ⟨o, ho, rfl⟩ := List.mem_map.mp hstatus
      exact Or.inl (h.mem_ordersOf ho)
    · refine Or.inr ?_
      rw [FixGateway.historicalReports] at hhistory
      cases hp : s.gateway.persistence with
      | none =>
        rw [hp] at hhistory
        exact absurd hhistory List.not_mem_nil
      | some p =>
        rw [hp] at hhistory
        obtain ⟨f, hfill, rfl⟩ := List.mem_map.mp hhistory
        exact ⟨p, rfl, f, hfill, rfl⟩
  | handle =>
    rw [System.sends] at hsent
    split at hsent
    · rename_i o session' hh
      obtain ⟨rfl, hreport⟩ := Prod.mk.inj (List.mem_singleton.mp hsent)
      obtain rfl := ClientMessage.execReport.inj hreport
      rw [h.handler o session (Or.inr hh)]
      exact Or.inl (h.pending (by rw [hh]; rfl))
    · exact absurd hsent List.not_mem_nil
  | engine =>
    rw [System.sends] at hsent
    split at hsent
    · exact absurd hsent List.not_mem_nil
    · rename_i t ts ht
      refine Or.inl ?_
      rcases FixGateway.sends_session (fun id o ho => (hf.maps.active id o ho).1) hsent with
        ⟨fill, rfl, hid⟩ | hs
      · rw [hid]
        exact h.tasks (.fillOrders fill session) (by rw [ht]; exact List.mem_cons_self)
      · exact h.sessions _ _ hs
  | persist => exact absurd hsent List.not_mem_nil
  | registerSymbol symbol => exact absurd hsent List.not_mem_nil

/-! ## One step -/

/-- A session that is entered in a step is the one of the client of its order. -/
lemma Owned.sessions_step (h : s.Owned own all) (hstep : s.step a = some s') {id : String}
    {session : SessionID} (hs : s'.gateway.orderSessions.lookup id = some session) :
    (id, session.targetCompID) ∈ own := by
  cases a with
  | message msg session' =>
    obtain ⟨-, rfl⟩ := step_message hstep
    rcases onMessage_cases s session' msg with ⟨seq, sent, heq, -⟩ | ⟨m, o, -, -, heq⟩ |
        ⟨m, req, -, -, heq⟩ | ⟨m, req, -, -, heq⟩ <;>
      rw [heq] at hs <;> exact h.sessions id session hs
  | logon session' =>
    obtain ⟨-, rfl⟩ := step_logon hstep
    rcases lookup_foldl_emplace (f := Order.exchangeId) (g := fun _ => session') hs with
      hs | ⟨o, ho, rfl, rfl⟩
    · exact h.sessions id session hs
    · exact h.mem_ordersOf ho
  | handle =>
    rcases handle_cases hstep with ⟨o, session', hh, rfl⟩ | ⟨o, session', hh, rfl⟩ |
        ⟨item, -, rfl⟩
    · rcases StrMap.lookup_emplace hs with hs | ⟨rfl, rfl⟩
      · exact h.sessions id session hs
      · rw [h.handler o session (Or.inl hh)]
        exact h.pending (by rw [hh]; rfl)
    · exact h.sessions id session hs
    · exact h.sessions id session hs
  | engine =>
    rcases engineStep_cases hstep with ⟨t, ts, -, rfl⟩ | ⟨-, item, queue, b, -, -, rfl⟩
    · exact h.sessions id session (FixGateway.lookup_of_runTask hs)
    · exact h.sessions id session hs
  | persist =>
    obtain ⟨p, p', -, -, rfl⟩ := step_persist hstep
    exact h.sessions id session hs
  | registerSymbol symbol =>
    obtain ⟨e, -, rfl⟩ := step_registerSymbol hstep
    exact h.sessions id session hs

/-- The handler of a new order goes on with the session of the order. -/
lemma Owned.handler_step (h : s.Owned own all) (hstep : s.step a = some s') {o : Order}
    {session : SessionID}
    (hh' : s'.handler = .route o session ∨ s'.handler = .activate o session) :
    session.targetCompID = o.clientId := by
  cases a with
  | message msg session' =>
    obtain ⟨-, rfl⟩ := step_message hstep
    rcases onMessage_cases s session' msg with ⟨seq, sent, heq, -⟩ | ⟨m, o', -, ho', heq⟩ |
        ⟨m, req, -, -, heq⟩ | ⟨m, req, -, -, heq⟩
    · simp [heq] at hh'
    · rw [heq] at hh'
      rcases hh' with hh' | hh'
      · obtain ⟨rfl, rfl⟩ := Handler.route.inj hh'
        exact ho'.clientId.symm
      · exact absurd hh' (by simp)
    · simp [heq] at hh'
    · simp [heq] at hh'
  | logon session' =>
    obtain ⟨-, rfl⟩ := step_logon hstep
    exact h.handler o session hh'
  | handle =>
    rcases handle_cases hstep with ⟨o', session', hh, rfl⟩ | ⟨o', session', hh, rfl⟩ |
        ⟨item, -, rfl⟩
    · rcases hh' with hh' | hh'
      · exact absurd hh' (by simp)
      · obtain ⟨rfl, rfl⟩ := Handler.activate.inj hh'
        exact h.handler _ _ (Or.inl hh)
    · simp at hh'
    · simp at hh'
  | engine =>
    rcases engineStep_cases hstep with ⟨t, ts, -, rfl⟩ | ⟨-, item, queue, b, -, -, rfl⟩ <;>
      exact h.handler o session hh'
  | persist =>
    obtain ⟨p, p', -, -, rfl⟩ := step_persist hstep
    exact h.handler o session hh'
  | registerSymbol symbol =>
    obtain ⟨e, -, rfl⟩ := step_registerSymbol hstep
    exact h.handler o session hh'

/-- The tasks of an item are about orders that are held. -/
lemma Owned.take (h : s.Owned own all) (hf : s.Founded) {item : WorkItem}
    (hi : item ∈ s.queue) {b : OrderBook} (hb : s.engine.books.lookup item.symbol = some b)
    {t : Task} (ht : t ∈ (processIn b item).2.flatMap Callback.tasks) : t.Owned own := by
  have hrests : ∀ m ∈ b.nodes, m.order.owner ∈ own := fun m hm =>
    h.held _ (mem_heldOrders.mpr (Or.inl ⟨_, b, hb, m, hm, rfl⟩))
  have hqueued : ∀ o, item = .order o → o.owner ∈ own := by
    rintro o rfl
    exact h.held o (mem_heldOrders.mpr (Or.inr (Or.inl (Or.inl hi))))
  have hfill : ∀ {maker taker : Fill}, (∃ m ∈ b.nodes, maker.Of m.order) → taker.owner ∈ own →
      t ∈ (Callback.onFill maker taker).tasks → t.Owned own := by
    rintro maker taker ⟨m, hm, hmaker⟩ htaker ht
    rcases OrderBook.mem_onFill_tasks ht with rfl | rfl | rfl
    · trivial
    · trivial
    · refine ⟨?_, htaker⟩
      rw [hmaker.owner]
      exact hrests m hm
  obtain ⟨cb, hcb, ht⟩ := List.mem_flatMap.mp ht
  cases OrderBook.calls_processIn (hf.books.wf _ b hb) hcb with
  | added hmaker htaker =>
    refine hfill hmaker ?_ ht
    rw [htaker.owner]
    exact hqueued _ rfl
  | matched hmaker htaker =>
    obtain ⟨m, hm, -, htaker⟩ := htaker
    refine hfill hmaker ?_ ht
    rw [htaker.owner]
    exact hrests m hm
  | rested o leavesQty =>
    rw [List.mem_singleton.mp ht]
    exact hqueued o rfl
  | killed o leavesQty | canceled req found | replaced req found newLeavesQty =>
    rw [List.mem_singleton.mp ht]
    trivial

/-- The tasks after a step are about orders that are held. -/
lemma Owned.tasks_step (h : s.Owned own all) (hf : s.Founded) (hstep : s.step a = some s')
    {t : Task} (ht' : t ∈ s'.tasks) : t.Owned own := by
  cases a with
  | message msg session =>
    obtain ⟨-, rfl⟩ := step_message hstep
    exact h.tasks t ht'
  | logon session =>
    obtain ⟨-, rfl⟩ := step_logon hstep
    exact h.tasks t ht'
  | handle =>
    rcases handle_cases hstep with ⟨o, session, -, rfl⟩ | ⟨o, session, -, rfl⟩ | ⟨item, -, rfl⟩ <;>
      exact h.tasks t ht'
  | engine =>
    rcases engineStep_cases hstep with ⟨t₀, ts, ht, rfl⟩ | ⟨-, item, queue, b, hq, hb, rfl⟩
    · rcases List.mem_append.mp ht' with ht' | ht'
      · -- only the routing section of a fill leaves a task
        cases t₀ with
        | fillRouting fill =>
          simp only [FixGateway.runTask, FixGateway.fillRouting] at ht'
          cases hs : s.gateway.orderSessions.lookup fill.exchangeId with
          | none => simp [hs] at ht'
          | some session =>
            have hone : t = .fillOrders fill session := by
              by_cases h0 : fill.leavesQty = 0 <;> simpa [hs, h0] using ht'
            rw [hone]
            exact h.sessions _ _ hs
        | _ => exact absurd ht' List.not_mem_nil
      · exact h.tasks t (by rw [ht]; exact List.mem_cons_of_mem _ ht')
    · exact h.take hf (by rw [hq]; exact List.mem_cons_self) hb ht'
  | persist =>
    obtain ⟨p, p', -, -, rfl⟩ := step_persist hstep
    exact h.tasks t ht'
  | registerSymbol symbol =>
    obtain ⟨e, -, rfl⟩ := step_registerSymbol hstep
    exact h.tasks t ht'

/-- The events that a step pushes are about orders that are held. -/
lemma Owned.pushes (h : s.Owned own all) (hf : s.Founded) {evt : PersistenceEvent}
    (hevt : evt ∈ s.pushes a) : evt.Owned own := by
  cases a with
  | message msg session => exact absurd hevt List.not_mem_nil
  | logon session => exact absurd hevt List.not_mem_nil
  | handle => exact absurd hevt List.not_mem_nil
  | persist => exact absurd hevt List.not_mem_nil
  | registerSymbol symbol =>
    rw [List.mem_singleton.mp hevt]
    trivial
  | engine =>
    rw [System.pushes] at hevt
    split at hevt
    · exact absurd hevt List.not_mem_nil
    · rename_i t ts ht
      have htask := h.tasks t (by rw [ht]; exact List.mem_cons_self)
      cases t with
      | fillRouting fill => exact absurd hevt List.not_mem_nil
      | fillOrders fill session => exact absurd hevt List.not_mem_nil
      | fillDone maker taker =>
        rcases List.mem_pair.mp hevt with rfl | rfl
        · exact htask.1
        · exact htask.2
      | onCancel req found =>
        simp only [Task.pushes] at hevt
        split at hevt
        · rename_i session o hs ho
          split_ifs at hevt
          · rw [List.mem_singleton.mp hevt]
            have howner := h.active ho
            rw [Order.owner, (hf.maps.active _ _ ho).1] at howner
            exact howner
          · exact absurd hevt List.not_mem_nil
        · exact absurd hevt List.not_mem_nil
      | onTIFCancel o => exact absurd hevt List.not_mem_nil
      | onReplace req found newLeavesQty =>
        simp only [Task.pushes] at hevt
        split at hevt
        · split_ifs at hevt
          · rw [List.mem_singleton.mp hevt]
            trivial
          · exact absurd hevt List.not_mem_nil
        · exact absurd hevt List.not_mem_nil
      | onOrderRested o leavesQty =>
        rw [List.mem_singleton.mp hevt]
        exact htask

/-- **One step keeps everything with its owner**, when the new orders are among the owned. -/
theorem Owned.step (h : s.Owned own all) (hf : s.Founded) (hsub : own ⊆ all)
    (hnew : ∀ x ∈ s.assigns a, x ∈ own) (hstep : s.step a = some s') : s'.Owned own all := by
  have hevents : ∀ p' ∈ s'.gateway.persistence,
      (∀ evt ∈ p'.queue, evt.Owned own) ∧ p'.db.Owned own all := by
    intro p' hp'
    rcases persistence_step hstep with hpush | ⟨p, p₁, hp, happly, hp₁, -⟩
    · rw [hpush] at hp'
      obtain ⟨p, hp, rfl⟩ := Option.map_eq_some_iff.mp hp'
      refine ⟨fun evt hevt => ?_, h.db p hp⟩
      rcases List.mem_append.mp hevt with hevt | hevt
      · exact h.events p hp evt hevt
      · exact h.pushes hf hevt
    · obtain rfl := Option.some.inj (hp₁.symm.trans hp')
      obtain ⟨evt, hq, hdb⟩ := PersistenceLayer.applyNext_eq_some happly
      have hall := h.events p hp
      rw [hq] at hall
      rw [hdb]
      exact ⟨fun evt' hevt' => hall evt' (List.mem_cons_of_mem _ hevt'),
        (h.db p hp).applyEvent hsub (hall evt List.mem_cons_self)⟩
  -- what was in the history stays there
  have hhistory : ∀ p ∈ s.gateway.persistence, ∀ client, ∀ f ∈ p.loadHistoricalFills client,
      ∃ p' ∈ s'.gateway.persistence, f ∈ p'.loadHistoricalFills client := by
    intro p hp client f hfill
    rcases persistence_step hstep with hpush | ⟨p₀, p₁, hp₀, happly, hp₁, -⟩
    · exact ⟨⟨p.queue ++ s.pushes a, p.db⟩, by rw [hpush, Option.mem_def.mp hp]; rfl, hfill⟩
    · obtain rfl := Option.some.inj (hp₀.symm.trans hp)
      exact ⟨p₁, hp₁, PersistenceLayer.loadHistoricalFills_applyNext happly hfill⟩
  refine ⟨fun o ho => ?_, fun id session hs => h.sessions_step hstep hs,
    fun o session hh => h.handler_step hstep hh, fun t ht => h.tasks_step hf hstep ht,
    fun p' hp' => (hevents p' hp').1, fun p' hp' => (hevents p' hp').2,
    fun session report hr => ?_⟩
  · rcases held_step hf hstep ho with ⟨o₀, ho₀, hsame⟩ | ⟨m, session, rfl, haccepts, -⟩
    · rw [hsame.owner]
      exact h.held o₀ ho₀
    · refine hnew _ ?_
      rw [Order.owner, haccepts.exchangeId, haccepts.clientId]
      exact List.mem_singleton_self _
  · have hsent : (report.orderId, session.targetCompID) ∈ own ∨ ∃ p ∈ s.gateway.persistence,
        ∃ f ∈ p.loadHistoricalFills session.targetCompID,
          report = makeHistoricalFillReport f := by
      rw [sent_step hstep] at hr
      rcases List.mem_append.mp hr with hr | hr
      · exact h.sent session report hr
      · exact h.sends hf hnew hr
    refine hsent.imp_right ?_
    rintro ⟨p, hp, f, hfill, rfl⟩
    obtain ⟨p', hp', hfill'⟩ := hhistory p hp _ f hfill
    exact ⟨p', hp', f, hfill', rfl⟩

/-! ## All runs -/

/-- A state in which a process starts on a database; without a database path the database is
empty and stays so. -/
inductive StartsOn (cfg : Config) : Database → System → Prop
  | fresh : StartsOn cfg Database.empty (start cfg)
  | recovered (db : Database) : StartsOn cfg db (recover cfg db)

/-- The orders of a process with their owners: the ones that it has recovered, and the ones
that it has been sent. -/
def owners (db : Database) (s₀ : System) (as : List Action) : List (String × String) :=
  db.restingOrders.map RestingRow.owner ++ s₀.assigned as

lemma StartsOn.founded {cfg : Config} {db : Database} (h : StartsOn cfg db s) (hdb : db.Sound) :
    s.Founded := by
  cases h with
  | fresh => exact founded_start cfg
  | recovered => exact founded_recover cfg hdb

lemma StartsOn.owned {cfg : Config} {db : Database} (h : StartsOn cfg db s)
    (hdb : db.Owned own all) : s.Owned own all := by
  cases h with
  | fresh =>
    have hheld : ∀ o, o ∉ (start cfg).heldOrders := by
      intro o ho
      rcases mem_heldOrders.mp ho with ⟨sym, b, hb, n, hn, -⟩ | ho | ⟨id, ho⟩
      · rw [start, lookup_init_books] at hb
        split_ifs at hb
        rw [← Option.some.inj hb] at hn
        simp [OrderBook.init, OrderBook.nodes] at hn
      · simp [Incoming, start, Handler.pending] at ho
      · simp [start, FixGateway.init, FixGateway.active] at ho
    have hlayer : ∀ p ∈ (start cfg).gateway.persistence, p = PersistenceLayer.empty := by
      intro p hp
      simp only [start, FixGateway.init, Option.mem_def] at hp
      split_ifs at hp
      exact (Option.some.inj hp).symm
    refine ⟨fun o ho => absurd ho (hheld o), fun id session hs => ?_, by simp [start],
      by simp [start], fun p hp => ?_, fun p hp => ?_, by simp [start, FixGateway.init]⟩
    · simp [start, FixGateway.init] at hs
    · rw [hlayer p hp]
      simp [PersistenceLayer.empty]
    · rw [hlayer p hp]
      exact hdb
  | recovered =>
    have hlayer : ∀ p ∈ (recover cfg db).gateway.persistence, p = PersistenceLayer.load db :=
      fun p hp => (Option.some.inj hp).symm
    have howner : ∀ row ∈ db.restingOrders, (PersistenceLayer.restoredOrder row).owner ∈ own :=
      hdb.rows
    refine ⟨fun o ho => ?_, fun id session hs => ?_, by simp [recover], by simp [recover],
      fun p hp => ?_, fun p hp => ?_, by simp [recover, FixGateway.restoreOrders, FixGateway.init]⟩
    · rcases mem_heldOrders.mp ho with ⟨sym, b, hb, n, hn, rfl⟩ | ho | ⟨id, ho⟩
      · obtain ⟨row, hrow, -, ho⟩ := (mem_books_recover hb).mp ⟨n, hn, rfl⟩
        rw [← ho]
        exact howner row hrow
      · simp [Incoming, recover, Handler.pending] at ho
      · obtain ⟨row, hrow, -, rfl⟩ := active_recover ho
        exact howner row hrow
    · simp [recover, FixGateway.restoreOrders, FixGateway.init] at hs
    · rw [hlayer p hp]
      simp [PersistenceLayer.load]
    · rw [hlayer p hp]
      exact hdb

/-- In a run on a database everything stays with its owner. -/
lemma owned_of_run {cfg : Config} {db : Database} {s₀ : System} {as : List Action}
    {ok : System → Action → Prop} {ids : List (String × String)} (hstart : StartsOn cfg db s₀)
    (hdb : db.Sound) (hrows : db.restingOrders.map RestingRow.owner ⊆ ids)
    (hids : db.Owned {x | x ∈ db.restingOrders.map RestingRow.owner} {x | x ∈ ids})
    (h : Transition.Reaches step ok s₀ as s) :
    s.Founded ∧ s.Owned {x | x ∈ owners db s₀ as} {x | x ∈ ids ++ s₀.assigned as} := by
  refine h.invariant_history (I := fun as s => s.Founded ∧
    s.Owned {x | x ∈ owners db s₀ as} {x | x ∈ ids ++ s₀.assigned as}) ?_ ?_
  · refine ⟨hstart.founded hdb, (hstart.owned hids).mono ?_ ?_⟩
    · intro x hx
      simpa [owners, assigned] using hx
    · intro x hx
      simpa [assigned] using hx
  · rintro as t a u hrun ⟨hf, hown⟩ - hstep
    refine ⟨hf.step hstep, Owned.step (hown.mono ?_ ?_) hf ?_ ?_ hstep⟩
    · intro x hx
      show x ∈ owners db s₀ _
      rw [owners, assigned_snoc hrun hstep, ← List.append_assoc]
      exact List.mem_append_left _ hx
    · intro x hx
      show x ∈ ids ++ s₀.assigned _
      rw [assigned_snoc hrun hstep, ← List.append_assoc]
      exact List.mem_append_left _ hx
    · intro x hx
      rcases List.mem_append.mp hx with hx | hx
      · exact List.mem_append_left _ (hrows hx)
      · exact List.mem_append_right _ hx
    · intro x hx
      show x ∈ owners db s₀ _
      rw [owners, assigned_snoc hrun hstep, ← List.append_assoc]
      exact List.mem_append_right _ hx

/-- The rows of the database go on having distinct keys. -/
lemma nodup_of_run {s₀ : System} {as : List Action} {ok : System → Action → Prop}
    (hinit : ∀ p ∈ s₀.gateway.persistence, (p.db.restingOrders.map RestingRow.exchangeId).Nodup)
    (h : Transition.Reaches step ok s₀ as s) :
    ∀ p ∈ s.gateway.persistence, (p.db.restingOrders.map RestingRow.exchangeId).Nodup := by
  refine h.invariant (I := fun s => ∀ p ∈ s.gateway.persistence,
    (p.db.restingOrders.map RestingRow.exchangeId).Nodup) hinit ?_
  intro _ t a u _ hnodup _ hstep p' hp'
  rcases persistence_step hstep with hpush | ⟨p, p₁, hp, happly, hp₁, -⟩
  · rw [hpush] at hp'
    obtain ⟨p, hp, rfl⟩ := Option.map_eq_some_iff.mp hp'
    exact hnodup p hp
  · obtain rfl := Option.some.inj (hp₁.symm.trans hp')
    obtain ⟨evt, -, hdb⟩ := PersistenceLayer.applyNext_eq_some happly
    rw [hdb]
    exact Database.nodup_applyEvent (hnodup p hp)

/-- The ids that a run assigns are exchange ids. -/
lemma exists_of_assigned {s₀ : System} {as : List Action} {ok : System → Action → Prop}
    (h : Transition.Reaches step ok s₀ as s) :
    ∀ x ∈ s₀.assigned as, ∃ k, s₀.gateway.orderSeq < k ∧ x.1 = exchangeId k := by
  intro x hx
  obtain ⟨n, -, hids⟩ := assigned_of_run h
  have hmem : x.1 ∈ (s₀.assigned as).map Prod.fst := List.mem_map_of_mem hx
  rw [hids] at hmem
  obtain ⟨k, hlt, -, hk⟩ := mem_idsFrom.mp hmem
  exact ⟨k, hlt, hk⟩

/-- **What processes leave in the database** belongs to orders that they have been sent. -/
theorem Lives.owned {ok : System → Action → Prop} {stop : System → Prop}
    {ids : List (String × String)} {db : Database} (h : Lives ok stop Database.empty ids db) :
    db.Sound ∧ db.restingOrders.map RestingRow.owner ⊆ ids ∧
      db.Owned {x | x ∈ db.restingOrders.map RestingRow.owner} {x | x ∈ ids} ∧
      ∀ x ∈ ids, ∃ k, x.1 = exchangeId k := by
  induction h with
  | none => exact ⟨⟨List.nodup_nil, by simp [Database.empty]⟩, by simp [Database.empty],
      ⟨by simp [Database.empty], by simp [Database.empty]⟩, by simp⟩
  | @next cfg ids db as s p _ hrun hp _ ih =>
    obtain ⟨hsound, hrows, howned, hids⟩ := ih
    obtain ⟨-, hs⟩ := owned_of_run (.recovered db) hsound hrows howned hrun
    have hids' : ∀ x ∈ ids ++ (recover cfg db).assigned as, ∃ k, x.1 = exchangeId k := by
      intro x hx
      rcases List.mem_append.mp hx with hx | hx
      · exact hids x hx
      · obtain ⟨k, -, hk⟩ := exists_of_assigned hrun x hx
        exact ⟨k, hk⟩
    have hrows' : p.db.restingOrders.map RestingRow.owner
        ⊆ ids ++ (recover cfg db).assigned as := by
      intro x hx
      obtain ⟨row, hrow, rfl⟩ := List.mem_map.mp hx
      rcases List.mem_append.mp ((hs.db p hp).rows row hrow) with hmem | hmem
      · exact List.mem_append_left _ (hrows hmem)
      · exact List.mem_append_right _ hmem
    refine ⟨⟨?_, fun row hrow => hids' _ (hrows' (List.mem_map_of_mem hrow))⟩, hrows',
      ⟨fun row hrow => List.mem_map_of_mem hrow, (hs.db p hp).events⟩, hids'⟩
    refine nodup_of_run (fun p₀ hp₀ => ?_) hrun p hp
    obtain rfl := Option.some.inj hp₀
    exact hsound.nodup

/-- In a run everything belongs to the orders that the process has been sent. -/
lemma owned_of_fresh {cfg : Config} {as : List Action} {ok : System → Action → Prop}
    (h : RunTo cfg ok as s) :
    s.Founded ∧
      s.Owned {x | x ∈ (start cfg).assigned as} {x | x ∈ (start cfg).assigned as} := by
  have hlives : Lives (fun _ _ => True) (fun _ => True) Database.empty [] Database.empty := .none
  obtain ⟨hsound, hrows, howned, -⟩ := hlives.owned
  exact owned_of_run .fresh hsound hrows howned h

/-- No two orders of a process have the same id. -/
lemma nodup_owners {cfg : Config} {db : Database} {s₀ : System} {as : List Action}
    {ok : System → Action → Prop} (hstart : StartsOn cfg db s₀) (hdb : db.Sound)
    (h : Transition.Reaches step ok s₀ as s) : ((owners db s₀ as).map Prod.fst).Nodup := by
  obtain ⟨n, -, hids⟩ := assigned_of_run h
  rw [owners, List.map_append, List.map_map, hids]
  refine List.nodup_append.mpr ⟨hdb.nodup, nodup_idsFrom _ _, ?_⟩
  intro id hid id' hid' heq
  obtain ⟨row, hrow, rfl⟩ := List.mem_map.mp hid
  obtain ⟨k', hlt, -, rfl⟩ := mem_idsFrom.mp hid'
  cases hstart with
  | fresh => exact absurd hrow List.not_mem_nil
  | recovered =>
    have hissued : Issued (recover cfg db).gateway.orderSeq row.exchangeId :=
      issued_recover hdb hrow
    obtain ⟨k, hle, hk⟩ := hissued
    have hkk := exchangeId_injective (hk.symm.trans heq)
    omega

/-- **Reports reach only the owner**: after any sequence of processes on the database, however
they have ended, and in every run from there, each id of the process has one owner, and a
report about an order goes to a session of the owner of its id; a report from the history
goes to a session of the client that the history has recorded, which is one that was assigned
this id. -/
theorem reports_reach_owner {cfg : Config} {ok ok' : System → Action → Prop}
    {stop : System → Prop} {ids : List (String × String)} {db : Database} {s₀ : System}
    {as : List Action} (hlives : Lives ok stop Database.empty ids db)
    (hstart : StartsOn cfg db s₀) (h : Transition.Reaches step ok' s₀ as s) :
    ((owners db s₀ as).map Prod.fst).Nodup ∧ owners db s₀ as ⊆ ids ++ s₀.assigned as ∧
      ∀ session report, (session, .execReport report) ∈ s.gateway.sent →
        (report.orderId, session.targetCompID) ∈ owners db s₀ as ∨
          ∃ p ∈ s.gateway.persistence, ∃ f ∈ p.loadHistoricalFills session.targetCompID,
            report = makeHistoricalFillReport f ∧
              (f.exchangeId, session.targetCompID) ∈ ids ++ s₀.assigned as := by
  obtain ⟨hsound, hrows, howned, -⟩ := hlives.owned
  obtain ⟨-, hs⟩ := owned_of_run hstart hsound hrows howned h
  refine ⟨nodup_owners hstart hsound h, fun x hx => ?_, fun session report hsent => ?_⟩
  · rcases List.mem_append.mp hx with hx | hx
    · exact List.mem_append_left _ (hrows hx)
    · exact List.mem_append_right _ hx
  · refine (hs.sent session report hsent).imp_right ?_
    rintro ⟨p, hp, f, hf, hreport⟩
    exact ⟨p, hp, f, hf, hreport, (hs.db p hp).history rfl hf⟩

/-- Another client trades with a recovered order, and its owner logs on before and after. -/
def recoveredRun : List Action :=
  .logon Sample.alice :: Sample.submit (Sample.limit "b" '2' 5 10) Sample.bob ++ Sample.engine 6
    ++ [.persist, .persist, .logon Sample.alice]

theorem reports_reach_owner_sample :
    ∃ s, RunFrom Sample.config (restingDatabase [("EXCH-1", "a")]) Any recoveredRun s ∧
      s.gateway.sent.length = 5 ∧
      ∀ session report, (session, .execReport report) ∈ s.gateway.sent →
        (report.orderId, session.targetCompID) ∈ [("EXCH-1", "A"), ("EXCH-2", "B")] ∨
          ∃ p ∈ s.gateway.persistence, ∃ f ∈ p.loadHistoricalFills session.targetCompID,
            report = makeHistoricalFillReport f ∧
              (f.exchangeId, session.targetCompID) ∈ [("EXCH-1", "A"), ("EXCH-2", "B")] := by
  have hfirst : Lives Any (fun _ => True) Database.empty [("EXCH-1", "A")]
      (restingDatabase [("EXCH-1", "a")]) :=
    Lives.run Sample.config (restingLife "a") .none (by decide +kernel) (by decide +kernel)
      (by decide +kernel)
  have hreach : ∃ s, RunFrom Sample.config (restingDatabase [("EXCH-1", "a")]) Any recoveredRun s ∧
      s.gateway.sent.length = 5 := Transition.exists_reaches (by decide +kernel) (by decide +kernel)
  obtain ⟨s, hrun, hsent⟩ := hreach
  obtain ⟨-, -, hreports⟩ := reports_reach_owner hfirst (.recovered _) hrun
  have howners : owners (restingDatabase [("EXCH-1", "a")])
      (recover Sample.config (restingDatabase [("EXCH-1", "a")])) recoveredRun
        = [("EXCH-1", "A"), ("EXCH-2", "B")] := by decide +kernel
  have hassigned : (recover Sample.config (restingDatabase [("EXCH-1", "a")])).assigned recoveredRun
      = [("EXCH-2", "B")] := by decide +kernel
  rw [howners, hassigned] at hreports
  exact ⟨s, hrun, hsent, hreports⟩

end System

end FixExchange
