/-
# The history of a client

On a logon a client gets a report for each row of the history that closes one of its orders.
The rows are written by the callbacks that end an order (`history_of_run`), and an order ends
once (`ended_of_run`); but a row knows one trade, or one cancel, and the expiry of an order
leaves none.  The history of a client is therefore faithful exactly as long as each of its
finished orders was executed by a single trade, or cancelled before any trade
(`history_faithful_iff`).
-/
import FixExchange.Lib.Sublists
import FixExchange.System.AveragePrice
import FixExchange.System.Crash
import FixExchange.System.Protocol

namespace FixExchange

/-! ## The ends of orders -/

/-- The end of an order. -/
inductive Ending
  /-- A trade that leaves nothing of it. -/
  | filled (fill : Fill)
  /-- A cancel request that finds it; the copy is that of the gateway, as long as it has a session
  for the order, too. -/
  | canceled (id : String) (copy : Option Order)
  /-- The expiry of what could not be executed at once. -/
  | expired (order : Order)
deriving DecidableEq, Repr

/-- The order that ends. -/
def Ending.orderId : Ending → String
  | .filled fill => fill.exchangeId
  | .canceled id _ => id
  | .expired order => order.exchangeId

/-- The copy of an order that the callback of a cancel request works with. -/
def FixGateway.routed (g : FixGateway) (id : String) : Option Order :=
  (g.orderSessions.lookup id).bind fun _ => g.activeOrders.lookup id

namespace Task

/-- The ends of orders that are told by the last section of a callback. -/
def endings (g : FixGateway) : Task → List Ending
  | .fillDone maker taker =>
    ([maker, taker].filter fun fill => fill.leavesQty = 0).map Ending.filled
  | .onCancel req found =>
    if found then [.canceled req.origOrderId (g.routed req.origOrderId)] else []
  | .onTIFCancel order => [.expired order]
  | .fillRouting _ | .fillOrders _ _ | .onReplace _ _ _ | .onOrderRested _ _ => []

/-- The orders that end with a callback, at its last section. -/
def ends : Task → List String
  | .fillDone maker taker =>
    ([maker, taker].filter fun fill => fill.leavesQty = 0).map Fill.exchangeId
  | .onCancel req found => if found then [req.origOrderId] else []
  | .onTIFCancel order => [order.exchangeId]
  | .fillRouting _ | .fillOrders _ _ | .onReplace _ _ _ | .onOrderRested _ _ => []

lemma map_orderId_endings (g : FixGateway) (t : Task) :
    (t.endings g).map Ending.orderId = t.ends := by
  cases t with
  | fillDone maker taker => exact List.map_map
  | onCancel req found => cases found <;> rfl
  | _ => rfl

/-- A task that closes an order tells about it, the callback of a cancel request excepted. -/
lemma tells_of_closes {t : Task} {id : String} (h : t.closes = some id)
    (hne : ∀ req found, t ≠ .onCancel req found) : t.tells = some id := by
  cases t with
  | fillRouting fill | fillOrders fill session =>
    simp only [closes] at h
    split_ifs at h
    exact h
  | onCancel req found => exact absurd rfl (hne req found)
  | onTIFCancel order => exact h
  | fillDone | onReplace | onOrderRested => exact absurd h (by simp [closes])

/-- A task that is left of another one tells no end. -/
lemma ends_runTask (g : FixGateway) (t : Task) : (g.runTask t).2.flatMap ends = [] := by
  cases t with
  | fillRouting fill =>
    simp only [FixGateway.runTask]
    split <;> rfl
  | _ => rfl

end Task

/-- The sections of a callback close the orders that it ends. -/
lemma Callback.ends_eq (cb : Callback) :
    cb.tasks.flatMap Task.ends = cb.tasks.filterMap Task.closes := by
  cases cb with
  | onFill maker taker =>
    by_cases hm : maker.leavesQty = 0 <;> by_cases ht : taker.leavesQty = 0 <;>
      simp [Callback.tasks, Task.ends, Task.closes, hm, ht]
  | onCancel req found => cases found <;> rfl
  | _ => rfl

/-- The order that ends has this owner, as far as its end tells one. -/
def Ending.Owned (own : Set (String × String)) : Ending → Prop
  | .filled fill => fill.owner ∈ own
  | .canceled id (some copy) => (id, copy.clientId) ∈ own
  | .canceled _ none | .expired _ => True

lemma Ending.Owned.mono {own own' : Set (String × String)} {e : Ending} (h : e.Owned own)
    (hsub : own ⊆ own') : e.Owned own' := by
  cases e with
  | filled fill => exact hsub h
  | canceled id copy =>
    cases copy with
    | none => trivial
    | some copy => exact hsub h
  | expired order => trivial

/-- The end tells all of an order, of which so much has been executed: it is the only trade of the
order, or the cancel of an order that the gateway has and that has not been executed. -/
def Ending.Told (executed : ℤ) : Ending → Prop
  | .filled fill => boundText fill.clordId ≠ "" ∧ fill.qty = executed
  | .canceled _ (some copy) => boundText copy.clordId ≠ "" ∧ executed = 0
  | .canceled _ none | .expired _ => False

instance (executed : ℤ) : (e : Ending) → Decidable (e.Told executed)
  | .filled _ | .canceled _ (some _) => inferInstanceAs (Decidable (_ ∧ _))
  | .canceled _ none | .expired _ => instDecidableFalse

/-- The row of a client's history that the end of an order leaves. -/
def Ending.row (client : String) : Ending → Option HistoricalFill
  | .filled fill =>
    if fill.clientId = client ∧ boundText fill.clordId ≠ "" then
      some
        { execType := '2'
          exchangeId := fill.exchangeId
          clordId := boundText fill.clordId
          symbol := fill.symbol
          side := fill.side
          price := fill.price
          qty := fill.qty }
    else none
  | .canceled id (some copy) =>
    if copy.clientId = client ∧ boundText copy.clordId ≠ "" then
      some
        { execType := '4'
          exchangeId := id
          clordId := boundText copy.clordId
          symbol := copy.symbol
          side := copy.side
          price := copy.price
          qty := copy.qty }
    else none
  | .canceled _ none | .expired _ => none

/-- The report to a client that the end of an order leaves. -/
def Ending.report (client : String) (e : Ending) : Option ExecutionReport :=
  (e.row client).map makeHistoricalFillReport

namespace Ending

variable {e : Ending} {client : String} {r : ExecutionReport}

lemma orderId_report (h : e.report client = some r) : r.orderId = e.orderId := by
  obtain ⟨f, hf, rfl⟩ := Option.map_eq_some_iff.mp h
  cases e with
  | filled fill =>
    simp only [row] at hf
    split_ifs at hf
    obtain rfl := Option.some.inj hf
    rfl
  | canceled id copy =>
    cases copy with
    | none => exact absurd hf (by simp [row])
    | some copy =>
      simp only [row] at hf
      split_ifs at hf
      obtain rfl := Option.some.inj hf
      rfl
  | expired order => exact absurd hf (by simp [row])

/-- A report is for the owner of the order. -/
lemma Owned.report {own : Set (String × String)} (h : e.Owned own)
    (hr : e.report client = some r) : (e.orderId, client) ∈ own := by
  obtain ⟨f, hf, rfl⟩ := Option.map_eq_some_iff.mp hr
  cases e with
  | filled fill =>
    simp only [row] at hf
    split_ifs at hf with hrow
    rw [← hrow.1]
    exact h
  | canceled id copy =>
    cases copy with
    | none => exact absurd hf (by simp [row])
    | some copy =>
      simp only [row] at hf
      split_ifs at hf with hrow
      rw [← hrow.1]
      exact h
  | expired order => exact absurd hf (by simp [row])

/-- **What an end tells the owner of its order.** -/
theorem told_iff {orders : List (String × String)} (h : e.Owned {x | x ∈ orders})
    (hids : (orders.map Prod.fst).Nodup) (hclient : (e.orderId, client) ∈ orders)
    (executed : ℤ) :
    e.Told executed ↔ ∃ r, e.report client = some r ∧ r.cumQty = executed := by
  have howner : ∀ owner, (e.orderId, owner) ∈ orders → owner = client := fun owner hmem =>
    congrArg Prod.snd (List.inj_on_of_nodup_map hids hmem hclient rfl)
  cases e with
  | filled fill =>
    have hfill : fill.clientId = client := howner _ h
    by_cases hclord : boundText fill.clordId = ""
    · simp [Told, report, row, hclord]
    · simp [Told, report, row, hfill, hclord, makeHistoricalFillReport]
  | canceled id copy =>
    cases copy with
    | none => simp [Told, report, row]
    | some copy =>
      have hcopy : copy.clientId = client := howner _ h
      by_cases hclord : boundText copy.clordId = ""
      · simp [Told, report, row, hclord]
      · simp [Told, report, row, hcopy, hclord, makeHistoricalFillReport, eq_comm]
  | expired order => simp [Told, report, row]

end Ending

/-- The history of a client after some events. -/
def historyOf (client : String) (evts : List PersistenceEvent) : List HistoricalFill :=
  (PersistenceLayer.load (Database.after evts)).loadHistoricalFills client

section

variable (client : String) (evts evts' : List PersistenceEvent)

lemma Database.events_after : (Database.after evts).events = evts.flatMap Database.recorded := by
  induction evts using List.reverseRecOn with
  | nil => rfl
  | append_singleton evts evt ih =>
    rw [Database.after_concat, Database.events_applyEvent, ih, List.flatMap_append,
      List.flatMap_singleton]

lemma historyOf_append :
    historyOf client (evts ++ evts') = historyOf client evts ++ historyOf client evts' := by
  simp only [historyOf, PersistenceLayer.load, PersistenceLayer.loadHistoricalFills,
    Database.events_after, List.flatMap_append, List.filterMap_append]

/-- The history of a single event. -/
lemma historyOf_singleton (evt : PersistenceEvent) :
    historyOf client [evt]
      = (PersistenceLayer.load ⟨[], Database.recorded evt, []⟩).loadHistoricalFills client := by
  have hevents : (Database.after [evt]).events = Database.recorded evt := by
    rw [Database.events_after, List.flatMap_singleton]
  rw [historyOf, PersistenceLayer.loadHistoricalFills, PersistenceLayer.loadHistoricalFills,
    PersistenceLayer.load, PersistenceLayer.load, hevents]

/-- A fill is in the history when nothing is left of its order. -/
lemma historyOf_fill (fill : Fill) {evt : PersistenceEvent} {type : String}
    (hevt : Database.recorded evt = [Database.fillRow type fill])
    (htype : type = "fill" ∨ type = "taker_fill") :
    historyOf client [evt] = (([fill].filter fun fill => fill.leavesQty = 0).map
      Ending.filled).filterMap (Ending.row client) := by
  rw [historyOf_singleton, hevt]
  rcases htype with rfl | rfl <;> by_cases h0 : fill.leavesQty = 0 <;>
    by_cases hrow : fill.clientId = client ∧ boundText fill.clordId ≠ "" <;>
    simp [PersistenceLayer.load, PersistenceLayer.loadHistoricalFills, Database.fillRow,
      Ending.row, h0, hrow]

/-- A cancel is in the history. -/
lemma historyOf_cancel (id : String) (o : Order) :
    historyOf client [.cancel id o] = [Ending.canceled id (some o)].filterMap (Ending.row client) := by
  rw [historyOf_singleton]
  by_cases hrow : o.clientId = client ∧ boundText o.clordId ≠ "" <;>
    simp [PersistenceLayer.load, PersistenceLayer.loadHistoricalFills, Database.recorded,
      Database.orderRow, Ending.row, hrow]

/-- An order that rests and a replace are not in the history. -/
lemma historyOf_eq_nil {evt : PersistenceEvent}
    (h : ∀ row ∈ Database.recorded evt, row.type ∉ ["fill", "taker_fill", "cancel"]) :
    historyOf client [evt] = [] := by
  rw [historyOf_singleton]
  refine List.filterMap_eq_nil_iff.mpr fun row hrow => ?_
  split
  · rfl
  · exact if_neg fun hsel => h row hrow hsel.1

/-- **The rows of a task** are those of the ends that it tells. -/
theorem historyOf_pushes (g : FixGateway) (t : Task) :
    historyOf client (t.pushes g) = (t.endings g).filterMap (Ending.row client) := by
  cases t with
  | fillDone maker taker =>
    show historyOf client ([.fill maker] ++ [.takerFill taker]) = (([maker] ++ [taker]).filter
      (fun fill => fill.leavesQty = 0) |>.map Ending.filled).filterMap (Ending.row client)
    rw [historyOf_append, historyOf_fill client maker rfl (Or.inl rfl),
      historyOf_fill client taker rfl (Or.inr rfl), List.filter_append, List.map_append,
      List.filterMap_append]
  | onCancel req found =>
    simp only [Task.pushes, Task.endings, FixGateway.routed]
    cases hs : g.orderSessions.lookup req.origOrderId with
    | none => cases found <;> rfl
    | some session =>
      cases ha : g.activeOrders.lookup req.origOrderId with
      | none => cases found <;> rfl
      | some order =>
        cases found with
        | false => rfl
        | true => exact historyOf_cancel client req.origOrderId order
  | onReplace req found newLeavesQty =>
    simp only [Task.pushes, Task.endings]
    split
    · split_ifs
      · exact historyOf_eq_nil client (by simp [Database.recorded])
      · rfl
    · rfl
  | onOrderRested order leavesQty =>
    exact historyOf_eq_nil client (by simp [Database.recorded, Database.orderRow])
  | _ => rfl

end

namespace OrderBook

variable {b : OrderBook} {item : WorkItem} {id : String}

lemma ends_processIn (b : OrderBook) (item : WorkItem) :
    ((processIn b item).2.flatMap Callback.tasks).flatMap Task.ends
      = ((processIn b item).2.flatMap Callback.tasks).filterMap Task.closes := by
  induction (processIn b item).2 with
  | nil => rfl
  | cons cb cbs ih =>
    rw [List.flatMap_cons, List.flatMap_append, List.filterMap_append, ih, cb.ends_eq]

/-- The tasks of an item that is no cancel request. -/
lemma not_onCancel (h : b.Wf) (hitem : ∀ req, item ≠ .cancel req) {t : Task}
    (ht : t ∈ (processIn b item).2.flatMap Callback.tasks) (req : CancelRequest) (found : Bool) :
    t ≠ .onCancel req found := by
  rintro rfl
  obtain ⟨cb, hcb, ht⟩ := List.mem_flatMap.mp ht
  cases calls_processIn h hcb with
  | added | matched | killed | rested | replaced => simp [Callback.tasks] at ht
  | canceled req found => exact hitem req rfl

/-- **An item ends an order once.** -/
theorem nodup_ends (h : b.Wf) (hk : b.Keyed) (hitem : b.Accepts item) :
    (((processIn b item).2.flatMap Callback.tasks).flatMap Task.ends).Nodup := by
  cases item with
  | cancel req =>
    show (Task.ends (.onCancel req (b.cancel req.origOrderId).2) ++ []).Nodup
    rw [List.append_nil, Task.ends]
    split_ifs
    · exact List.nodup_singleton _
    · exact List.nodup_nil
  | order | replace =>
    rw [ends_processIn]
    refine List.pairwise_filterMap.mpr ((processIn_before h hk hitem).imp_of_mem ?_)
    intro t t' _ ht' hbefore id hid id' hid' heq
    exact hbefore id hid (heq ▸ Task.tells_of_closes hid' (not_onCancel h (by simp) ht'))

end OrderBook

namespace System

variable {s s' : System} {a : Action} {as : List Action} {E : List Ending}

/-- The ends of orders that a step tells. -/
def endings (s : System) : Action → List Ending
  | .engine =>
    match s.tasks with
    | [] => []
    | t :: _ => t.endings s.gateway
  | .message _ _ | .logon _ | .handle | .persist | .registerSymbol _ => []

/-- The ends of orders that a run tells. -/
def ended (s : System) (as : List Action) : List Ending := Transition.collect step endings s as

lemma ended_snoc {s₀ : System} {ok : System → Action → Prop}
    (h : Transition.Reaches step ok s₀ as s) (a : Action) :
    s₀.ended (as ++ [a]) = s₀.ended as ++ s.endings a := h.collect_snoc a

/-- The orders that have ended, up to the ends that the pending tasks will tell, are out of the
engine, and each of them has ended once. -/
structure EndedOnce (E : List Ending) (s : System) : Prop where
  nodup : (E.map Ending.orderId ++ s.tasks.flatMap Task.ends).Nodup
  departed : ∀ id ∈ E.map Ending.orderId ++ s.tasks.flatMap Task.ends, s.Departed id

lemma EndedOnce.of_eq (h : s.EndedOnce E) (hf : s.Founded) (hstep : s.step a = some s')
    {E' : List Ending} (heq : E'.map Ending.orderId ++ s'.tasks.flatMap Task.ends
      = E.map Ending.orderId ++ s.tasks.flatMap Task.ends) : s'.EndedOnce E' :=
  ⟨by rw [heq]; exact h.nodup, by
    rw [heq]
    exact fun id hid => (h.departed id hid).step hf hstep⟩

/-- An item ends no order that has ended before. -/
lemma EndedOnce.take (h : s.EndedOnce E) (hf : s.Founded) (hc : s.Closing) {item : WorkItem}
    {queue : List WorkItem} {b : OrderBook} (ht : s.tasks = []) (hq : s.queue = item :: queue)
    (hb : s.engine.books.lookup item.symbol = some b) (hstep : s.step .engine = some s')
    (htasks : s'.tasks = (processIn b item).2.flatMap Callback.tasks) : s'.EndedOnce E := by
  have hmem : item ∈ s.queue := by rw [hq]; exact List.mem_cons_self
  have hwf := hf.books.wf _ b hb
  have hk := hf.books.keyed _ b hb
  have hitem := hf.accepts hmem hb
  have hnodup := h.nodup
  have hdeparted := h.departed
  rw [ht, List.flatMap_nil, List.append_nil] at hnodup hdeparted
  have hcloses : ∀ id ∈ s'.tasks.flatMap Task.ends, ∃ t ∈ s'.tasks, t.closes = some id := by
    intro id hid
    rw [htasks, OrderBook.ends_processIn] at hid
    rw [htasks]
    exact List.mem_filterMap.mp hid
  refine ⟨List.nodup_append.mpr ⟨hnodup, ?_, ?_⟩, fun id hid => ?_⟩
  · rw [htasks]
    exact OrderBook.nodup_ends hwf hk hitem
  · rintro id hid _ hid' rfl
    obtain ⟨t, ht', hclose⟩ := hcloses id hid'
    rw [htasks] at ht'
    rcases (OrderBook.processIn_closes hwf hk hitem ht' hclose).2 with ⟨o, rfl, heq⟩ | ⟨m, hm, heq⟩
    · exact (hdeparted id hid).queued o hmem heq
    · exact (hdeparted id hid).resting _ b hb m hm heq
  · rcases List.mem_append.mp hid with hid | hid
    · exact (hdeparted id hid).step hf hstep
    · obtain ⟨t, ht', hclose⟩ := hcloses id hid
      have hc' := hc.step hf hstep
      exact ⟨(hf.step hstep).tasks t ht' id (Task.mem_ids_of_closes hclose), hc'.gone t ht' id hclose,
        hc'.queued t ht' id hclose⟩

/-- **One step** tells ends that are pending, or takes an item. -/
theorem EndedOnce.step (h : s.EndedOnce E) (hf : s.Founded) (hc : s.Closing)
    (hstep : s.step a = some s') : s'.EndedOnce (E ++ s.endings a) := by
  have hsame : s.endings a = [] → s'.tasks = s.tasks → s'.EndedOnce (E ++ s.endings a) := by
    intro hnil htasks
    refine h.of_eq hf hstep ?_
    rw [hnil, htasks, List.append_nil]
  cases a with
  | engine =>
    rcases engineStep_cases hstep with ⟨t, ts, ht, rfl⟩ | ⟨ht, item, queue, b, hq, hb, rfl⟩
    · refine h.of_eq hf hstep ?_
      show (E ++ s.endings .engine).map Ending.orderId
        ++ ((s.gateway.runTask t).2 ++ ts).flatMap Task.ends = _
      rw [endings, ht, List.map_append, Task.map_orderId_endings, List.flatMap_append,
        Task.ends_runTask, List.nil_append, List.append_assoc, List.flatMap_cons]
    · have hnil : s.endings .engine = [] := by rw [endings, ht]
      rw [hnil, List.append_nil]
      exact h.take hf hc ht hq hb hstep rfl
  | message msg session =>
    obtain ⟨-, rfl⟩ := step_message hstep
    exact hsame rfl rfl
  | logon session =>
    obtain ⟨-, rfl⟩ := step_logon hstep
    exact hsame rfl rfl
  | handle =>
    rcases handle_cases hstep with ⟨o, session, -, rfl⟩ | ⟨o, session, -, rfl⟩ | ⟨item, -, rfl⟩ <;>
      exact hsame rfl rfl
  | persist =>
    obtain ⟨p, p', -, -, rfl⟩ := step_persist hstep
    exact hsame rfl rfl
  | registerSymbol symbol =>
    obtain ⟨e, -, rfl⟩ := step_registerSymbol hstep
    exact hsame rfl rfl

/-- **In every run an order ends once.** -/
theorem ended_of_run {cfg : Config} {db : Database} {s₀ : System} {ok : System → Action → Prop}
    (hstart : StartsOn cfg db s₀) (hdb : db.Sound) (h : Transition.Reaches step ok s₀ as s) :
    s.EndedOnce (s₀.ended as) := by
  refine h.invariant_history (I := fun as s => s.EndedOnce (s₀.ended as)) ?_ ?_
  · have htasks : s₀.tasks = [] := by
      cases hstart with
      | fresh => rfl
      | recovered => rfl
    refine ⟨?_, ?_⟩ <;> rw [htasks]
    · exact List.nodup_nil
    · exact fun id hid => absurd hid List.not_mem_nil
  · intro as t a u hrun ih _ hstep
    have hreported := reported_of_run hstart hdb hrun
    rw [ended_snoc hrun]
    exact ih.step hreported.founded hreported.closing hstep

/-! ## What the ends leave in the history -/

lemma endings_task {t : Task} {ts : List Task} (ht : s.tasks = t :: ts) :
    s.endings .engine = t.endings s.gateway := by
  rw [endings, ht]

/-- **The history of a client** are the rows that the ends of its orders leave. -/
theorem history_of_run {cfg : Config} {ok : System → Action → Prop} (client : String)
    (h : RunTo cfg ok as s) :
    historyOf client ((start cfg).pushed as)
      = ((start cfg).ended as).filterMap (Ending.row client) := by
  refine h.invariant_history (I := fun as _ => historyOf client ((start cfg).pushed as)
    = ((start cfg).ended as).filterMap (Ending.row client)) rfl fun as t a u hrun ih _ _ => ?_
  have hstep : historyOf client (t.pushes a) = (t.endings a).filterMap (Ending.row client) := by
    cases a with
    | engine =>
      rw [pushes, endings]
      cases t.tasks with
      | nil => rfl
      | cons task ts => exact historyOf_pushes client t.gateway task
    | _ => rfl
  rw [pushed, hrun.collect_snoc, historyOf_append, ← pushed, ih, ended_snoc hrun, hstep,
    List.filterMap_append]

/-- **The reports of a logon**, once every event has been applied. -/
theorem reports_of_run {cfg : Config} {ok : System → Action → Prop}
    (hcfg : cfg.persistence = true) (h : RunTo cfg ok as s) (hflushed : s.Flushed)
    (session : SessionID) :
    s.gateway.historicalReports session
      = ((start cfg).ended as).filterMap (Ending.report session.targetCompID) := by
  obtain ⟨p, hp⟩ := persistence_of_run h hcfg
  have hdb : p.db = Database.after ((start cfg).pushed as) := by
    rw [← flushed_of_run h hp, PersistenceLayer.flushed, hflushed p hp]
    rfl
  have hhistory : p.loadHistoricalFills session.targetCompID
      = historyOf session.targetCompID ((start cfg).pushed as) := by
    rw [historyOf, PersistenceLayer.loadHistoricalFills, PersistenceLayer.loadHistoricalFills, hdb]
    rfl
  rw [FixGateway.historicalReports, hp]
  show (p.loadHistoricalFills _).map makeHistoricalFillReport = _
  rw [hhistory, history_of_run _ h, List.map_filterMap]
  rfl

/-- The next process on the database replays the same. -/
lemma historicalReports_recover {p : PersistenceLayer} (hp : s.gateway.persistence = some p)
    (cfg : Config) (session : SessionID) :
    (recover cfg p.db).gateway.historicalReports session
      = s.gateway.historicalReports session := by
  rw [FixGateway.historicalReports, FixGateway.historicalReports, hp]
  rfl

/-! ## Whose orders end -/

/-- What a task tells is about orders of their owners. -/
lemma Owned.endings {own all : Set (String × String)} (h : s.Owned own all) (hf : s.Founded)
    {t : Task} (ht : t ∈ s.tasks) {e : Ending} (he : e ∈ t.endings s.gateway) : e.Owned own := by
  have htask := h.tasks t ht
  cases t with
  | fillDone maker taker =>
    obtain ⟨fill, hfill, rfl⟩ := List.mem_map.mp he
    rcases List.mem_pair.mp (List.mem_filter.mp hfill).1 with rfl | rfl
    · exact htask.1
    · exact htask.2
  | onCancel req found =>
    simp only [Task.endings] at he
    split_ifs at he
    · obtain rfl := List.mem_singleton.mp he
      cases hcopy : s.gateway.routed req.origOrderId with
      | none => trivial
      | some copy =>
        obtain ⟨session, -, hactive⟩ := Option.bind_eq_some_iff.mp hcopy
        have howner := h.active hactive
        rwa [Order.owner, (hf.maps.active _ copy hactive).1] at howner
    · exact absurd he List.not_mem_nil
  | onTIFCancel order =>
    obtain rfl := List.mem_singleton.mp he
    trivial
  | _ => exact absurd he List.not_mem_nil

/-- **The ends of a run** are those of orders that the process has been sent. -/
theorem ended_owned {cfg : Config} {ok : System → Action → Prop} (h : RunTo cfg ok as s) :
    ∀ e ∈ (start cfg).ended as, e.Owned {x | x ∈ (start cfg).assigned as} := by
  refine h.invariant_history
    (I := fun as _ => ∀ e ∈ (start cfg).ended as, e.Owned {x | x ∈ (start cfg).assigned as})
    (fun e he => absurd he List.not_mem_nil) fun as t a u hrun ih _ hstep e he => ?_
  obtain ⟨hf, hown⟩ := owned_of_fresh hrun
  have hmore : {x | x ∈ (start cfg).assigned as} ⊆ {x | x ∈ (start cfg).assigned (as ++ [a])} := by
    intro x hx
    show x ∈ (start cfg).assigned (as ++ [a])
    rw [assigned_snoc hrun hstep]
    exact List.mem_append_left _ hx
  rw [ended_snoc hrun] at he
  rcases List.mem_append.mp he with he | he
  · exact (ih e he).mono hmore
  · cases a with
    | engine =>
      cases ht : t.tasks with
      | nil =>
        simp [System.endings, ht] at he
      | cons task ts =>
        rw [endings_task ht] at he
        exact (hown.endings hf (by rw [ht]; exact List.mem_cons_self) he).mono hmore
    | _ => exact absurd he List.not_mem_nil

/-! ## Faithful histories -/

/-- The reports are one for each order of the client that has ended, with what has been executed
of it, and no other. -/
structure FaithfulHistory (orders : List (String × String)) (ends : List String)
    (executed : String → ℤ) (client : String) (reports : List ExecutionReport) : Prop where
  one : ∀ id, (id, client) ∈ orders → id ∈ ends → ∃ r,
    (reports.filter fun r => r.orderId = id) = [r] ∧ r.cumQty = executed id
  none : ∀ r ∈ reports, (r.orderId, client) ∈ orders ∧ r.orderId ∈ ends

/-- **When the history of a client is faithful**: at the end of every run, once every event has
been applied, the reports of a logon tell each finished order of the client once, with what has
been executed of it, exactly if each of them was executed by a single trade, or cancelled before
any trade while the gateway had it, and the table has a client id of it. -/
theorem history_faithful_iff {cfg : Config} {ok : System → Action → Prop}
    (hcfg : cfg.persistence = true) (h : RunTo cfg ok as s) (ht : s.tasks = [])
    (hflushed : s.Flushed) (session : SessionID) :
    FaithfulHistory ((start cfg).assigned as) (((start cfg).ended as).map Ending.orderId)
        (fun id => tradedQty id ((start cfg).journal as)) session.targetCompID
        (s.gateway.historicalReports session) ↔
      ∀ e ∈ (start cfg).ended as, (e.orderId, session.targetCompID) ∈ (start cfg).assigned as →
        e.Told (tradedQty e.orderId ((start cfg).journal as)) := by
  set client := session.targetCompID with hclient
  set E := (start cfg).ended as with hE
  have hsound : Database.empty.Sound := ⟨List.nodup_nil, by simp [Database.empty]⟩
  have hends : (E.map Ending.orderId).Nodup := by
    have hnodup := (ended_of_run .fresh hsound h).nodup
    rwa [ht, List.flatMap_nil, List.append_nil] at hnodup
  have hids : (((start cfg).assigned as).map Prod.fst).Nodup := nodup_owners .fresh hsound h
  have hreports := reports_of_run hcfg h hflushed session
  have hone : ∀ e ∈ E, ((s.gateway.historicalReports session).filter
      fun r => r.orderId = e.orderId) = (e.report client).toList := by
    intro e he
    rw [hreports]
    exact Sublists.filter_filterMap_of_nodup (fun e r => Ending.orderId_report) hends he
  constructor
  · intro hfaithful e he horder
    obtain ⟨r, hr, hcum⟩ := hfaithful.one e.orderId horder (List.mem_map_of_mem he)
    rw [hone e he] at hr
    exact (Ending.told_iff (ended_owned h e he) hids horder _).mpr
      ⟨r, Option.toList_eq_singleton_iff.mp hr, hcum⟩
  · intro htold
    refine ⟨fun id horder hid => ?_, fun r hr => ?_⟩
    · obtain ⟨e, he, rfl⟩ := List.mem_map.mp hid
      obtain ⟨r, hr, hcum⟩ :=
        (Ending.told_iff (ended_owned h e he) hids horder _).mp (htold e he horder)
      refine ⟨r, ?_, hcum⟩
      rw [hone e he, hr]
      rfl
    · rw [hreports] at hr
      obtain ⟨e, he, hr⟩ := List.mem_filterMap.mp hr
      rw [Ending.orderId_report hr]
      exact ⟨(ended_owned h e he).report hr, List.mem_map_of_mem he⟩

/-- An order is executed by a single trade, and another one is cancelled. -/
def faithfulRun : List Action :=
  Sample.submit (Sample.limit "a" '2' 5 10) Sample.alice ++ Sample.engine 2
    ++ Sample.submit (Sample.limit "b" '1' 5 10) Sample.bob ++ Sample.engine 6
    ++ Sample.submit (Sample.limit "c" '2' 3 10) Sample.alice ++ Sample.engine 2
    ++ Sample.forward (Sample.cancel "c") Sample.alice ++ Sample.engine 2
    ++ List.replicate 5 .persist

theorem history_faithful_iff_sample :
    ∃ s, RunTo Sample.config Any faithfulRun s ∧
      (s.gateway.historicalReports Sample.alice).map (fun r => (r.orderId, r.execType, r.cumQty))
        = [("EXCH-1", '2', 5), ("EXCH-3", '4', 0)] ∧
      FaithfulHistory ((start Sample.config).assigned faithfulRun)
        (((start Sample.config).ended faithfulRun).map Ending.orderId)
        (fun id => tradedQty id ((start Sample.config).journal faithfulRun))
        Sample.alice.targetCompID (s.gateway.historicalReports Sample.alice) := by
  have hreach : ∃ s, RunTo Sample.config Any faithfulRun s ∧ (s.tasks = [] ∧ s.Flushed) ∧
      (s.gateway.historicalReports Sample.alice).map (fun r => (r.orderId, r.execType, r.cumQty))
        = [("EXCH-1", '2', 5), ("EXCH-3", '4', 0)] :=
    Transition.exists_reaches (by decide +kernel) (by decide +kernel)
  obtain ⟨s, hrun, ⟨ht, hflushed⟩, hreports⟩ := hreach
  exact ⟨s, hrun, hreports,
    (history_faithful_iff rfl hrun ht hflushed Sample.alice).mpr (by decide +kernel)⟩

/-- An order is executed by two trades. -/
def twoTradesRun : List Action :=
  Sample.submit (Sample.limit "a" '2' 10 10) Sample.alice ++ Sample.engine 2
    ++ Sample.submit (Sample.limit "b" '1' 4 10) Sample.bob ++ Sample.engine 6
    ++ Sample.submit (Sample.limit "c" '1' 6 10) Sample.bob ++ Sample.engine 6
    ++ List.replicate 5 .persist

/-- Ten shares of the order have been executed, and its only report says that it was six. -/
theorem last_trade_replayed :
    ∃ s, RunTo Sample.config Any twoTradesRun s ∧ s.tasks = [] ∧ s.Flushed ∧
      (s.gateway.historicalReports Sample.alice).map (fun r => (r.orderId, r.cumQty))
        = [("EXCH-1", 6)] ∧
      tradedQty "EXCH-1" ((start Sample.config).journal twoTradesRun) = 10 ∧
      ¬ FaithfulHistory ((start Sample.config).assigned twoTradesRun)
        (((start Sample.config).ended twoTradesRun).map Ending.orderId)
        (fun id => tradedQty id ((start Sample.config).journal twoTradesRun))
        Sample.alice.targetCompID (s.gateway.historicalReports Sample.alice) := by
  have hreach : ∃ s, RunTo Sample.config Any twoTradesRun s ∧ s.tasks = [] ∧ s.Flushed ∧
      (s.gateway.historicalReports Sample.alice).map (fun r => (r.orderId, r.cumQty))
        = [("EXCH-1", 6)] :=
    Transition.exists_reaches (by decide +kernel) (by decide +kernel)
  obtain ⟨s, hrun, ht, hflushed, hreports⟩ := hreach
  have hexecuted : tradedQty "EXCH-1" ((start Sample.config).journal twoTradesRun) = 10 := by
    decide +kernel
  refine ⟨s, hrun, ht, hflushed, hreports, hexecuted, fun hfaithful => ?_⟩
  obtain ⟨r, hr, hcum⟩ := hfaithful.one "EXCH-1" (by decide +kernel) (by decide +kernel)
  have hmem : (r.orderId, r.cumQty) ∈ [("EXCH-1", (6 : ℤ))] := by
    rw [← hreports]
    refine List.mem_map_of_mem (List.mem_of_mem_filter (p := fun r => r.orderId = "EXCH-1") ?_)
    rw [hr]
    exact List.mem_cons_self
  have hsix : r.cumQty = 6 := congrArg Prod.snd (List.mem_singleton.mp hmem)
  rw [hsix] at hcum
  exact absurd (hcum.trans hexecuted) (by decide)

end System

end FixExchange
