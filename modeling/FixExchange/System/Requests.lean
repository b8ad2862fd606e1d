/-
# The answers to requests

A cancel or replace request that names an open order of its client is passed on to the engine, or
refused at once.  The engine takes the requests in their order and calls the gateway back once for
each of them (`matched_of_run`), and what the callback sends is the answer.  It sends nothing about
an order that the gateway has no longer, nor when a cancel finds no order: a request that is passed
on is answered exactly if the gateway still has its order when the engine takes it, and a cancel
finds the order in the book of its symbol, or a replace does not execute all of it
(`request_answered_iff`).
-/
import FixExchange.System.Accounts
import FixExchange.System.Carried
import FixExchange.System.Ownership
import FixExchange.System.Protocol

namespace FixExchange

/-! ## Answers -/

/-- The answers to a cancel request. -/
def AnswersCancel (id : String) : ClientMessage → Prop
  | .execReport report => report.orderId = id ∧ report.execType = ExecType.Canceled.char
  | .cancelReject reject => reject.orderId = id

/-- The answers to a replace request. -/
def AnswersReplace (id newClordId : String) : ClientMessage → Prop
  | .execReport report => report.orderId = id ∧ report.execType = ExecType.Replaced.char ∧
      report.clOrdId = newClordId
  | .cancelReject reject => reject.clOrdId = newClordId

instance (id : String) : (message : ClientMessage) → Decidable (AnswersCancel id message)
  | .execReport _ => inferInstanceAs (Decidable (_ ∧ _))
  | .cancelReject _ => inferInstanceAs (Decidable (_ = _))

instance (id newClordId : String) :
    (message : ClientMessage) → Decidable (AnswersReplace id newClordId message)
  | .execReport _ => inferInstanceAs (Decidable (_ ∧ _ ∧ _))
  | .cancelReject _ => inferInstanceAs (Decidable (_ = _))

/-- A message answers a request that has been passed on. -/
def WorkItem.AnsweredBy : WorkItem → ClientMessage → Prop
  | .order _, _ => False
  | .cancel req, message => AnswersCancel req.origOrderId message
  | .replace req, message => AnswersReplace req.origOrderId req.newClordId message

/-- A message answers a request about the order with an id. -/
def Message.AnsweredBy (id : String) : Message → ClientMessage → Prop
  | .newOrder _, _ => False
  | .cancel _, message => AnswersCancel id message
  | .replace m, message => AnswersReplace id m.clOrdID message

instance (id : String) : (msg : Message) → (message : ClientMessage) →
    Decidable (msg.AnsweredBy id message)
  | .newOrder _, _ => instDecidableFalse
  | .cancel _, _ => inferInstanceAs (Decidable (AnswersCancel _ _))
  | .replace _, _ => inferInstanceAs (Decidable (AnswersReplace _ _ _))

/-- The order that a request names, by the id that its client gave it. -/
def Message.origClOrdID : Message → Option String
  | .newOrder _ => none
  | .cancel m => some m.origClOrdID
  | .replace m => some m.origClOrdID

namespace Task

/-- The request that a task is the callback of. -/
def request : Task → Option WorkItem
  | .onCancel req _ => some (.cancel req)
  | .onReplace req _ _ => some (.replace req)
  | .fillRouting _ | .fillOrders _ _ | .fillDone _ _ | .onTIFCancel _ | .onOrderRested _ _ => none

/-- The callback of a request sends something, given whether its order is open. -/
def Responds (opened : Prop) : Task → Prop
  | .onCancel _ found => found = true ∧ opened
  | .onReplace _ _ _ => opened
  | .fillRouting _ | .fillOrders _ _ | .fillDone _ _ | .onTIFCancel _ | .onOrderRested _ _ => False

variable {t : Task} {item : WorkItem} {g : FixGateway}

lemma id_of_request (h : t.request = some item) : t.ids = [item.id] := by
  cases t with
  | onCancel req found =>
    rw [← Option.some.inj h]
    rfl
  | onReplace req found newLeavesQty =>
    rw [← Option.some.inj h]
    rfl
  | _ => exact absurd h (by simp [request])

/-- **What the callback of a request sends**: one answer, or nothing. -/
theorem sends_request (hactive : ∀ id o, g.active id = some o → o.exchangeId = id)
    (hsession : g.active item.id ≠ none → g.orderSessions.lookup item.id ≠ none)
    (h : t.request = some item) :
    (t.Responds (g.active item.id ≠ none) → ∃ session message, t.sends g = [(session, message)] ∧
      item.AnsweredBy message ∧ g.orderSessions.lookup item.id = some session) ∧
    (¬ t.Responds (g.active item.id ≠ none) → t.sends g = []) := by
  have hopen : g.active item.id ≠ none → ∃ session o,
      g.orderSessions.lookup item.id = some session ∧ g.activeOrders.lookup item.id = some o ∧
        o.exchangeId = item.id := by
    intro hid
    obtain ⟨o, ho⟩ := Option.ne_none_iff_exists'.mp hid
    obtain ⟨session, hs⟩ := Option.ne_none_iff_exists'.mp (hsession hid)
    exact ⟨session, o, hs, ho, hactive _ o ho⟩
  cases t with
  | onCancel req found =>
    obtain rfl := Option.some.inj h
    constructor
    · rintro ⟨rfl, hid⟩
      obtain ⟨session, o, hs, ho, heq⟩ := hopen hid
      have hs : g.orderSessions.lookup req.origOrderId = some session := hs
      have ho : g.activeOrders.lookup req.origOrderId = some o := ho
      refine ⟨session, .execReport (makeExecReport o .Canceled), ?_, ⟨heq, rfl⟩, hs⟩
      simp [sends, hs, ho]
    · intro hnot
      cases found with
      | false =>
        simp only [sends]
        split <;> rfl
      | true =>
        have hnone : g.activeOrders.lookup req.origOrderId = none := by
          by_contra hne
          exact hnot ⟨rfl, hne⟩
        simp [sends, hnone]
  | onReplace req found newLeavesQty =>
    obtain rfl := Option.some.inj h
    constructor
    · intro hid
      obtain ⟨session, o, hs, ho, heq⟩ := hopen hid
      have hs : g.orderSessions.lookup req.origOrderId = some session := hs
      have ho : g.activeOrders.lookup req.origOrderId = some o := ho
      cases found with
      | true =>
        refine ⟨session, .execReport { makeExecReport (FixGateway.replaced o req newLeavesQty)
          .Replaced with origClOrdId := some req.oldClordId }, ?_, ⟨heq, rfl, rfl⟩, hs⟩
        simp [sends, hs, ho]
      | false =>
        refine ⟨session, .cancelReject (makeCancelReject req.newClordId req.oldClordId
          req.origOrderId "Order not found in book"), ?_, rfl, hs⟩
        simp [sends, hs, ho]
    · intro hnot
      have hnone : g.activeOrders.lookup req.origOrderId = none := not_not.mp hnot
      simp [sends, hnone]
  | _ => exact absurd h (by simp [request])

lemma request_ne_order {o : Order} : t.request ≠ some (.order o) := by
  cases t with
  | onCancel req found => exact fun h => WorkItem.noConfusion (Option.some.inj h)
  | onReplace req found newLeavesQty => exact fun h => WorkItem.noConfusion (Option.some.inj h)
  | _ => exact fun h => absurd h (by simp [request])

/-- A section leaves no callback of a request. -/
lemma request_runTask {t' : Task} (ht' : t' ∈ (g.runTask t).2) : t'.request = none := by
  cases t with
  | fillRouting fill =>
    simp only [FixGateway.runTask] at ht'
    split at ht'
    · exact absurd ht' List.not_mem_nil
    · rw [List.mem_singleton.mp ht']
      rfl
  | _ => exact absurd ht' List.not_mem_nil

/-- What a task leaves open, unless it is the callback of a request. -/
lemma onActive_ne_none_iff (h : t.request = none) {A : OrderLedger} {id : String} :
    t.onActive A id ≠ none ↔ A id ≠ none ∧ t.closes ≠ some id := by
  constructor
  · intro hopen
    refine ⟨fun hnone => hopen ?_, fun hclose => hopen (onActive_of_closes hclose)⟩
    show settle [t] A id = none
    exact settle_eq_none hnone
  · rintro ⟨hA, hclose⟩ hnone
    rcases closes_of_onActive hnone hA with hcl | ⟨req, rfl, -⟩
    · exact hclose hcl
    · exact absurd h (by simp [request])

end Task

namespace FixGateway

variable {g : FixGateway} {t : Task} {ts : List Task} {id : String}

/-- Only the next task says whether an order is covered. -/
lemma CoveredAt.of_head {ts' : List Task} (h : g.CoveredAt (t :: ts') id) :
    g.CoveredAt (t :: ts) id := by
  intro hopen
  refine (h hopen).imp_right ?_
  rintro ⟨fill, session, ts'', hts, hlast⟩
  exact ⟨fill, session, ts, by rw [(List.cons.inj hts).1], hlast⟩

/-- The callback of a request is no section of a fill. -/
lemma CoveredAt.session_of_request {tasks : List Task} {item : WorkItem}
    (h : g.CoveredAt tasks id) (ht : tasks = t :: ts) (hreq : t.request = some item) :
    g.active id ≠ none → g.orderSessions.lookup id ≠ none := by
  subst ht
  refine h.session fun fill session heq => ?_
  subst heq
  exact absurd hreq (by simp [Task.request])

/-- An order is open, and some tasks leave it so. -/
def StaysOpen (g : FixGateway) (ts : List Task) (id : String) : Prop :=
  g.active id ≠ none ∧ ∀ t ∈ ts, t.closes ≠ some id

/-- **A section that is not the callback of a request** leaves open what its task leaves open. -/
theorem staysOpen_runTask (h : g.CoveredAt (t :: ts) id) (ht : t.request = none) :
    (g.runTask t).1.StaysOpen ((g.runTask t).2 ++ ts) id ↔ g.StaysOpen (t :: ts) id := by
  -- a section that does to the open orders what its task stands for
  have hdone : (g.runTask t).1.active id = t.onActive g.active id → (g.runTask t).2 = [] →
      ((g.runTask t).1.StaysOpen ((g.runTask t).2 ++ ts) id ↔ g.StaysOpen (t :: ts) id) := by
    intro hactive htasks
    rw [StaysOpen, StaysOpen, hactive, htasks, List.nil_append, Task.onActive_ne_none_iff ht,
      List.forall_mem_cons, and_assoc]
  -- a section that does nothing, as the order of its task has no session
  have hskip : (g.runTask t).1.active id = g.active id → (g.runTask t).2 = [] →
      (g.active id ≠ none → t.closes ≠ some id) →
      ((g.runTask t).1.StaysOpen ((g.runTask t).2 ++ ts) id ↔ g.StaysOpen (t :: ts) id) := by
    intro hactive htasks hclose
    rw [StaysOpen, StaysOpen, hactive, htasks, List.nil_append, List.forall_mem_cons]
    exact and_congr_right fun hopen => (and_iff_right (hclose hopen)).symm
  cases t with
  | fillRouting fill =>
    have hsession := h.session fun _ _ => by simp
    cases hs : g.orderSessions.lookup fill.exchangeId with
    | none =>
      refine hskip ?_ ?_ fun hopen hclose => hsession hopen ?_
      · simp only [FixGateway.runTask, fillRouting, hs]
      · simp only [FixGateway.runTask, fillRouting, hs]
      · rw [← (Task.closes_fillRouting hclose).2, hs]
    | some session =>
      -- what the task closes is left to the next section
      have hrun : (g.runTask (.fillRouting fill)).1.active id = g.active id ∧
          (g.runTask (.fillRouting fill)).2 = [.fillOrders fill session] := by
        by_cases h0 : fill.leavesQty = 0 <;>
          simp [FixGateway.runTask, fillRouting, hs, h0, active]
      rw [StaysOpen, StaysOpen, hrun.1, hrun.2, List.singleton_append, List.forall_mem_cons,
        List.forall_mem_cons]
      rfl
  | fillOrders fill session => exact hdone (congrFun (active_setLeaves _ _ _) id) rfl
  | fillDone maker taker => exact hdone rfl rfl
  | onTIFCancel order =>
    have hsession := h.session fun _ _ => by simp
    cases hs : g.orderSessions.lookup order.exchangeId with
    | none =>
      refine hskip ?_ rfl fun hopen hclose => hsession hopen ?_
      · simp only [FixGateway.runTask, onTIFCancel, hs]
      · rw [← Option.some.inj hclose, hs]
    | some session =>
      refine hdone ?_ rfl
      have hactive : (g.onTIFCancel order).active = g.active.drop order.exchangeId := by
        simp only [onTIFCancel, hs]
        exact Ledger.ofAList_erase _
      exact congrFun hactive id
  | onOrderRested order leavesQty => exact hdone rfl rfl
  | onCancel req found => exact absurd ht (by simp [Task.request])
  | onReplace req found newLeavesQty => exact absurd ht (by simp [Task.request])

end FixGateway

/-! ## Requests that the engine takes -/

/-- A request that the engine takes, with its book and the gateway at this time. -/
structure Taken where
  item : WorkItem
  book : OrderBook
  gateway : FixGateway

namespace Taken

/-- The gateway has the order; and a cancel finds it in the book, or a replace does not execute all
of it. -/
def Answerable (x : Taken) : Prop :=
  x.gateway.active x.item.id ≠ none ∧
    match x.item with
    | .order _ => False
    | .cancel req => ¬ x.book.Fresh req.origOrderId
    | .replace req => ¬ x.book.Absorbs req.origOrderId req.newPrice req.newQty

/-- The gateway has a session for the order if it has the order. -/
def Bound (x : Taken) : Prop :=
  x.gateway.active x.item.id ≠ none → x.gateway.orderSessions.lookup x.item.id ≠ none

/-- The callback of the request is still to be run. -/
def Pending (x : Taken) (s : System) : Prop :=
  ∃ ts t, s.tasks = ts ++ [t] ∧ (∀ t' ∈ ts, t'.request = none) ∧ t.request = some x.item ∧
    (x.Bound → s.gateway.CoveredAt s.tasks x.item.id ∧
      (x.Answerable ↔ t.Responds (s.gateway.StaysOpen ts x.item.id)))

end Taken

namespace OrderBook

variable {b : OrderBook}

/-- The callbacks of an item are about no other request. -/
lemma request_processIn (h : b.Wf) {item item' : WorkItem} {t : Task}
    (ht : t ∈ (processIn b item).2.flatMap Callback.tasks) (hreq : t.request = some item') :
    item' = item := by
  obtain ⟨cb, hcb, ht⟩ := List.mem_flatMap.mp ht
  cases calls_processIn h hcb with
  | added | matched =>
    rcases mem_onFill_tasks ht with rfl | rfl | rfl <;> exact absurd hreq (by simp [Task.request])
  | killed | rested =>
    obtain rfl := List.mem_singleton.mp ht
    exact absurd hreq (by simp [Task.request])
  | canceled req found =>
    obtain rfl := List.mem_singleton.mp ht
    exact (Option.some.inj hreq).symm
  | replaced req found newLeavesQty =>
    obtain rfl := List.mem_singleton.mp ht
    exact (Option.some.inj hreq).symm

lemma request_fillTasks {fs : List FillPair} {t : Task} (ht : t ∈ fillTasks fs) :
    t.request = none := by
  obtain ⟨cb, hcb, ht⟩ := List.mem_flatMap.mp ht
  obtain ⟨f, -, rfl⟩ := mem_fillCallbacks.mp hcb
  rcases mem_onFill_tasks ht with rfl | rfl | rfl <;> rfl

/-- The fills of a replace close its order when it is executed completely. -/
lemma replace_closes_iff (h : b.Wf) (hk : b.Keyed) (id : String) (p : Price) (q : ℤ) :
    (∀ t ∈ fillTasks (b.replace id p q).fills, t.closes ≠ some id) ↔ ¬ b.Absorbs id p q := by
  rw [← replace_executes_iff h hk]
  constructor
  · rintro hopen ⟨f, hf, h0⟩
    refine hopen (.fillRouting f.taker) (List.mem_flatMap.mpr
      ⟨_, mem_fillCallbacks.mpr ⟨f, hf, rfl⟩, by simp [Callback.tasks]⟩) ?_
    rw [Task.closes, if_pos h0, replace_taker_id h hf]
  · intro hnot t ht hclose
    obtain ⟨cb, hcb, ht⟩ := List.mem_flatMap.mp ht
    obtain ⟨f, hf, rfl⟩ := mem_fillCallbacks.mp hcb
    rcases mem_onFill_tasks ht with rfl | rfl | rfl
    · -- the order does not trade with itself
      obtain ⟨-, hid⟩ := Task.closes_fillRouting hclose
      exact absurd (hid.trans (replace_taker_id h hf).symm) (replace_maker_ne_taker h hk f hf f hf)
    · exact hnot ⟨f, hf, (Task.closes_fillRouting hclose).1⟩
    · exact absurd hclose (by simp [Task.closes])

/-- **A request that is taken** has its callback behind its fills. -/
theorem pending_processIn (h : b.Wf) (hk : b.Keyed) {item : WorkItem}
    (hitem : item.requester ≠ none) {s : System}
    (ht : s.tasks = (processIn b item).2.flatMap Callback.tasks) :
    (⟨item, b, s.gateway⟩ : Taken).Pending s := by
  have hcov : (⟨item, b, s.gateway⟩ : Taken).Bound → s.gateway.CoveredAt s.tasks item.id :=
    fun hbound => FixGateway.coveredAt_of_session hbound
  cases item with
  | order o => exact absurd rfl hitem
  | cancel req =>
    refine ⟨[], .onCancel req (b.cancel req.origOrderId).2, ht, by simp, rfl,
      fun hbound => ⟨hcov hbound, ?_⟩⟩
    have hfound : (b.cancel req.origOrderId).2 = true ↔ ¬ b.Fresh req.origOrderId := by
      rcases h.cancel_eq req.origOrderId with ⟨hnone, hc⟩ | ⟨m, hm, hid, hc⟩
      · have hfresh : b.Fresh req.origOrderId := (hk.lookup_eq_none_iff h).mp hnone
        simp [hc, hfresh]
      · have hnot : ¬ b.Fresh req.origOrderId := fun hfresh => hfresh m hm hid
        simp [hc, hnot]
    simp only [Taken.Answerable, Task.Responds, FixGateway.StaysOpen, hfound, List.not_mem_nil,
      false_imp_iff, implies_true, and_true]
    exact and_comm
  | replace req =>
    have htasks : s.tasks = fillTasks (b.replace req.origOrderId req.newPrice req.newQty).fills
        ++ [.onReplace req (decide ((b.replace req.origOrderId req.newPrice req.newQty).value ≥ 0))
          (b.replace req.origOrderId req.newPrice req.newQty).value] := by
      rw [ht, processIn, processReplace, List.flatMap_append]
      rfl
    refine ⟨_, _, htasks, fun t' ht' => request_fillTasks ht', rfl,
      fun hbound => ⟨hcov hbound, ?_⟩⟩
    exact and_congr_right fun _ => (replace_closes_iff h hk _ _ _).symm

end OrderBook

namespace System

variable {s s' : System} {a : Action} {as : List Action}

/-! ## Requests in a run -/

/-- The request that the first section of a handler passes on. -/
def passes (s : System) : Action → List WorkItem
  | .message msg session =>
    (nextItem (s.onMessage session msg).2).toList.filter fun item => item.requester ≠ none
  | .logon _ | .handle | .engine | .persist | .registerSymbol _ => []

/-- The request that the engine thread takes from the queue. -/
def takes (s : System) : Action → List Taken
  | .engine =>
    match s.nextTaken with
    | none => []
    | some (item, b) =>
      if item.requester = none then [] else [⟨item, b, s.gateway⟩]
  | .message _ _ | .logon _ | .handle | .persist | .registerSymbol _ => []

/-- The callback of a request that the engine thread runs, with what it sends. -/
def replies (s : System) : Action → List (WorkItem × List (SessionID × ClientMessage))
  | .engine =>
    match s.tasks with
    | [] => []
    | t :: _ => t.request.toList.map fun item => (item, t.sends s.gateway)
  | .message _ _ | .logon _ | .handle | .persist | .registerSymbol _ => []

/-- The requests that have been passed on in a run. -/
def passed (s : System) (as : List Action) : List WorkItem := Transition.collect step passes s as

/-- The requests that the engine has taken in a run. -/
def taken (s : System) (as : List Action) : List Taken := Transition.collect step takes s as

/-- The callbacks of requests that have been run, with what they have sent. -/
def replied (s : System) (as : List Action) : List (WorkItem × List (SessionID × ClientMessage)) :=
  Transition.collect step replies s as

/-- The requests that are on their way to the engine. -/
def underway (s : System) : List WorkItem := s.coming.filter fun item => item.requester ≠ none

/-- **One step** passes a request on, or lets the engine take the next one. -/
lemma underway_step (hstep : s.step a = some s') :
    s.underway ++ s.passes a = (s.takes a).map Taken.item ++ s'.underway := by
  have hsame : s.passes a = [] → s.takes a = [] → s'.underway = s.underway →
      s.underway ++ s.passes a = (s.takes a).map Taken.item ++ s'.underway := by
    intro hpasses htakes heq
    rw [hpasses, htakes, heq, List.append_nil]
    rfl
  cases a with
  | message msg session =>
    obtain ⟨hidle, rfl⟩ := step_message hstep
    show _ = [] ++ _
    rw [List.nil_append, underway, coming_of_idle hidle, underway, coming, List.filter_append]
    rfl
  | logon session =>
    obtain ⟨-, rfl⟩ := step_logon hstep
    exact hsame rfl rfl rfl
  | handle =>
    refine hsame rfl rfl ?_
    rcases handle_cases hstep with ⟨o, session, hh, rfl⟩ | ⟨o, session, hh, rfl⟩ |
        ⟨item, hitem, rfl⟩
    · rw [underway, underway, coming, coming, hh]
      rfl
    · rw [underway, underway, coming, coming, hh, List.filter_append, List.filter_append]
      rfl
    · rw [underway, underway, coming, coming, hitem]
      exact congrArg _ (List.append_nil _)
  | engine =>
    rcases engineStep_cases hstep with ⟨t, ts, ht, rfl⟩ | ⟨ht, item, queue, b, hq, hb, rfl⟩
    · refine hsame rfl ?_ rfl
      simp only [takes, nextTaken, ht]
    · have htaken : s.nextTaken = some (item, b) := by
        simp only [nextTaken, ht, hq, hb]
        rfl
      show s.underway ++ [] = _
      rw [List.append_nil, underway, coming, hq, takes, htaken]
      dsimp only
      rw [List.cons_append, List.filter_cons]
      split_ifs <;> simp_all [underway, coming]
  | persist =>
    obtain ⟨p, p', -, -, rfl⟩ := step_persist hstep
    exact hsame rfl rfl rfl
  | registerSymbol symbol =>
    obtain ⟨e, -, rfl⟩ := step_registerSymbol hstep
    exact hsame rfl rfl rfl

/-- **The engine takes the requests in their order.** -/
theorem passed_of_run {ok : System → Action → Prop} {s₀ : System} (hstart : s₀.underway = [])
    (h : Transition.Reaches step ok s₀ as s) :
    s₀.passed as = (s₀.taken as).map Taken.item ++ s.underway := by
  refine h.invariant_history (I := fun as s => s₀.passed as
    = (s₀.taken as).map Taken.item ++ s.underway) (by rw [hstart]; rfl)
    fun as s a s' hrun ih _ hstep => ?_
  rw [passed, hrun.collect_snoc, taken, hrun.collect_snoc, List.map_append, List.append_assoc,
    ← underway_step hstep, ← List.append_assoc, ← taken, ← ih]
  rfl

/-! ## The callbacks of requests -/

/-- What is sent by the callback of a request that the engine has taken, where the gateway has had
a session for the order if it has had the order. -/
structure Replied (own : Set (String × String)) (x : Taken)
    (y : WorkItem × List (SessionID × ClientMessage)) : Prop where
  item : y.1 = x.item
  answer : x.Bound → x.Answerable → ∃ session message, y.2 = [(session, message)] ∧
    x.item.AnsweredBy message ∧ (x.item.id, session.targetCompID) ∈ own
  silent : x.Bound → ¬ x.Answerable → y.2 = []

lemma Replied.mono {own own' : Set (String × String)} {x : Taken}
    {y : WorkItem × List (SessionID × ClientMessage)} (h : Replied own x y) (hsub : own ⊆ own') :
    Replied own' x y := by
  refine ⟨h.item, fun hbound hans => ?_, h.silent⟩
  obtain ⟨session, message, hy, hanswer, hown⟩ := h.answer hbound hans
  exact ⟨session, message, hy, hanswer, hsub hown⟩

/-- The callbacks that have been run are those of the requests that have been taken, but for the
last one as long as its callback is still to be run. -/
inductive Matched (own : Set (String × String)) (s : System) :
    List Taken → List (WorkItem × List (SessionID × ClientMessage)) → Prop
  | idle {xs ys} (h : List.Forall₂ (Replied own) xs ys) (htasks : ∀ t ∈ s.tasks, t.request = none) :
    Matched own s xs ys
  | busy {xs ys x} (h : List.Forall₂ (Replied own) xs ys) (hx : x.Pending s) :
    Matched own s (xs ++ [x]) ys

lemma Matched.mono {own own' : Set (String × String)} {xs : List Taken}
    {ys : List (WorkItem × List (SessionID × ClientMessage))} (h : Matched own s xs ys)
    (hsub : own ⊆ own') : Matched own' s xs ys := by
  cases h with
  | idle h htasks => exact .idle (h.imp fun _ _ hxy => hxy.mono hsub) htasks
  | busy h hx => exact .busy (h.imp fun _ _ hxy => hxy.mono hsub) hx

/-- When no task is left, all callbacks have been run. -/
lemma Matched.all {own : Set (String × String)} {xs : List Taken}
    {ys : List (WorkItem × List (SessionID × ClientMessage))} (h : Matched own s xs ys)
    (htasks : s.tasks = []) : List.Forall₂ (Replied own) xs ys := by
  cases h with
  | idle h hnone => exact h
  | busy h hx =>
    obtain ⟨ts, t, hts, -⟩ := hx
    rw [htasks] at hts
    exact absurd hts (by simp)

/-- A step of another thread leaves the tasks alone, and the orders that the engine knows as open
as they are. -/
lemma open_of_other (ha : a ≠ .engine) (hstep : s.step a = some s') :
    s'.tasks = s.tasks ∧
      ∀ id, s.Known id → (s'.gateway.active id ≠ none ↔ s.gateway.active id ≠ none) := by
  cases a with
  | message msg session =>
    obtain ⟨-, rfl⟩ := step_message hstep
    rcases onMessage_cases s session msg with ⟨seq, sent, heq, -⟩ | ⟨m, o, -, -, heq⟩ |
        ⟨m, req, -, -, heq⟩ | ⟨m, req, -, -, heq⟩ <;>
      rw [heq] <;> exact ⟨rfl, fun _ _ => Iff.rfl⟩
  | logon session =>
    obtain ⟨-, rfl⟩ := step_logon hstep
    exact ⟨rfl, fun _ _ => Iff.rfl⟩
  | handle =>
    rcases handle_cases hstep with ⟨o, session, hh, rfl⟩ | ⟨o, session, hh, rfl⟩ |
        ⟨item, -, rfl⟩
    · exact ⟨rfl, fun _ _ => Iff.rfl⟩
    · refine ⟨rfl, fun id hknown => ⟨fun hopen => ?_, StrMap.lookup_emplace_ne_none⟩⟩
      obtain ⟨o', ho'⟩ := Option.ne_none_iff_exists'.mp hopen
      rcases active_activateOrder ho' with ho' | ⟨rfl, -⟩
      · rw [ho']
        simp
      · -- the order that is entered is not known to the engine yet
        exact absurd rfl (hknown.2 o (by rw [hh]; rfl))
    · exact ⟨rfl, fun _ _ => Iff.rfl⟩
  | engine => exact absurd rfl ha
  | persist =>
    obtain ⟨p, p', -, -, rfl⟩ := step_persist hstep
    exact ⟨rfl, fun _ _ => Iff.rfl⟩
  | registerSymbol symbol =>
    obtain ⟨e, -, rfl⟩ := step_registerSymbol hstep
    exact ⟨rfl, fun _ _ => Iff.rfl⟩

/-- A request waits for its callback while another thread takes a step. -/
lemma pending_of_other {x : Taken} (hx : x.Pending s) (hf : s.Founded) (ha : a ≠ .engine)
    (hstep : s.step a = some s') : x.Pending s' := by
  obtain ⟨ts, t, htasks, hts, ht, hreply⟩ := hx
  obtain ⟨hsame, hopen⟩ := open_of_other ha hstep
  have hknown : s.Known x.item.id := by
    refine hf.tasks t (by rw [htasks]; simp) _ ?_
    rw [Task.id_of_request ht]
    exact List.mem_singleton_self _
  refine ⟨ts, t, hsame.trans htasks, hts, ht, fun hbound => ?_⟩
  obtain ⟨hcov, hans⟩ := hreply hbound
  have hstays : s'.gateway.StaysOpen ts x.item.id ↔ s.gateway.StaysOpen ts x.item.id :=
    and_congr_left fun _ => hopen _ hknown
  rw [hstays]
  exact ⟨hf.covered_step hcov hstep, hans⟩

/-- A section of a callback that is not the one of the request. -/
lemma pending_of_task {x : Taken} {t t₁ : Task} {ts : List Task} (ht : s.tasks = t :: (ts ++ [t₁]))
    (hts : ∀ t' ∈ t :: ts, t'.request = none) (hreq : t₁.request = some x.item)
    (hreply : x.Bound → s.gateway.CoveredAt s.tasks x.item.id ∧
      (x.Answerable ↔ t₁.Responds (s.gateway.StaysOpen (t :: ts) x.item.id))) :
    x.Pending { s with
      gateway := (s.gateway.runTask t).1
      tasks := (s.gateway.runTask t).2 ++ (ts ++ [t₁]) } := by
  have hnone := hts t List.mem_cons_self
  refine ⟨(s.gateway.runTask t).2 ++ ts, t₁, (List.append_assoc _ _ _).symm, ?_, hreq,
    fun hbound => ?_⟩
  · intro t' ht'
    rcases List.mem_append.mp ht' with ht' | ht'
    · exact Task.request_runTask ht'
    · exact hts t' (List.mem_cons_of_mem _ ht')
  · obtain ⟨hcov, hans⟩ := hreply hbound
    rw [ht] at hcov
    refine ⟨hcov.runTask, ?_⟩
    have hhead : s.gateway.CoveredAt (t :: ts) x.item.id := hcov.of_head
    rw [hans, FixGateway.staysOpen_runTask hhead hnone]

/-- The engine thread runs the next section of a callback. -/
lemma Matched.task {own : Set (String × String)} {xs : List Taken}
    {ys : List (WorkItem × List (SessionID × ClientMessage))} (h : Matched own s xs ys)
    (hf : s.Founded) (hown : ∀ id session, s.gateway.orderSessions.lookup id = some session →
      (id, session.targetCompID) ∈ own) {t : Task} {ts : List Task} (ht : s.tasks = t :: ts) :
    Matched own { s with
      gateway := (s.gateway.runTask t).1
      tasks := (s.gateway.runTask t).2 ++ ts } xs
      (ys ++ t.request.toList.map fun item => (item, t.sends s.gateway)) := by
  cases h with
  | idle h hnone =>
    rw [ht] at hnone
    rw [hnone t List.mem_cons_self, Option.toList_none, List.map_nil, List.append_nil]
    refine .idle h fun t' ht' => ?_
    rcases List.mem_append.mp ht' with ht' | ht'
    · exact Task.request_runTask ht'
    · exact hnone t' (List.mem_cons_of_mem _ ht')
  | @busy xs ys x h hx =>
    obtain ⟨ts', t₁, htasks, hts, hreq, hreply⟩ := hx
    cases ts' with
    | nil =>
      -- the callback of the request itself
      obtain ⟨rfl, rfl⟩ := List.cons.inj (ht.symm.trans htasks)
      have hlast : (s.gateway.runTask t).2 = [] := by
        cases t with
        | fillRouting fill => exact absurd hreq (by simp [Task.request])
        | _ => rfl
      rw [hreq, hlast]
      refine .idle (List.rel_append h (.cons ?_ .nil)) fun t' ht' => absurd ht' List.not_mem_nil
      have hsent : x.Bound → _ := fun hbound => Task.sends_request
        (fun id o ho => (hf.maps.active id o ho).1)
        ((hreply hbound).1.session_of_request ht hreq) hreq
      have hopen : s.gateway.StaysOpen [] x.item.id ↔ s.gateway.active x.item.id ≠ none :=
        and_iff_left (by simp)
      refine ⟨rfl, fun hbound hans => ?_, fun hbound hans => ?_⟩
      · rw [(hreply hbound).2, hopen] at hans
        obtain ⟨session, message, hsends, hanswer, hs⟩ := (hsent hbound).1 hans
        exact ⟨session, message, hsends, hanswer, hown _ _ hs⟩
      · rw [(hreply hbound).2, hopen] at hans
        exact (hsent hbound).2 hans
    | cons t' ts' =>
      obtain ⟨rfl, rfl⟩ := List.cons.inj (ht.symm.trans htasks)
      rw [hts t List.mem_cons_self, Option.toList_none, List.map_nil, List.append_nil]
      exact .busy h (pending_of_task ht hts hreq hreply)

/-- **One step** keeps the requests and their callbacks matched. -/
theorem Matched.step {own : Set (String × String)} {xs : List Taken}
    {ys : List (WorkItem × List (SessionID × ClientMessage))} (h : Matched own s xs ys)
    (hf : s.Founded) (hown : ∀ id session, s.gateway.orderSessions.lookup id = some session →
      (id, session.targetCompID) ∈ own) (hstep : s.step a = some s') :
    Matched own s' (xs ++ s.takes a) (ys ++ s.replies a) := by
  by_cases ha : a = .engine
  · subst ha
    rcases engineStep_cases hstep with ⟨t, ts, ht, rfl⟩ | ⟨ht, item, queue, b, hq, hb, rfl⟩
    · have htakes : s.takes .engine = [] := by simp only [takes, nextTaken, ht]
      have hreplies : s.replies .engine
          = t.request.toList.map fun item => (item, t.sends s.gateway) := by
        simp only [replies, ht]
      rw [htakes, hreplies, List.append_nil]
      exact h.task hf hown ht
    · have htaken : s.nextTaken = some (item, b) := by
        simp only [nextTaken, ht, hq, hb]
        rfl
      have hreplies : s.replies .engine = [] := by simp only [replies, ht]
      have hwf := hf.books.wf _ b hb
      rw [hreplies, List.append_nil, takes, htaken]
      cases h with
      | busy h hx =>
        -- no callback is left when the engine takes an item
        obtain ⟨ts', t₁, htasks, -⟩ := hx
        rw [ht] at htasks
        exact absurd htasks (by simp)
      | idle h hnone =>
        dsimp only
        by_cases hitem : item.requester = none
        · rw [if_pos hitem, List.append_nil]
          refine .idle h fun t' ht' => ?_
          rw [Option.eq_none_iff_forall_ne_some]
          intro item' hreq
          obtain rfl := OrderBook.request_processIn hwf ht' hreq
          cases item' with
          | order o => exact Task.request_ne_order hreq
          | cancel req => exact absurd hitem (by simp [WorkItem.requester])
          | replace req => exact absurd hitem (by simp [WorkItem.requester])
        · rw [if_neg hitem]
          exact .busy h (OrderBook.pending_processIn hwf (hf.books.keyed _ b hb) hitem rfl)
  · have htakes : s.takes a = [] := by
      cases a with
      | engine => exact absurd rfl ha
      | _ => rfl
    have hreplies : s.replies a = [] := by
      cases a with
      | engine => exact absurd rfl ha
      | _ => rfl
    rw [htakes, hreplies, List.append_nil, List.append_nil]
    cases h with
    | idle h hnone =>
      refine .idle h fun t' ht' => hnone t' ?_
      rwa [(open_of_other ha hstep).1] at ht'
    | busy h hx => exact .busy h (pending_of_other hx hf ha hstep)

/-- A process starts with nothing on its way. -/
lemma StartsOn.quiet {cfg : Config} {db : Database} {s₀ : System} (h : StartsOn cfg db s₀) :
    s₀.tasks = [] ∧ s₀.underway = [] := by
  cases h <;> exact ⟨rfl, rfl⟩

/-- In a run the requests that the engine has taken and their callbacks match. -/
theorem matched_of_run {cfg : Config} {db : Database} {s₀ : System}
    {ok : System → Action → Prop} {ids : List (String × String)} (hstart : StartsOn cfg db s₀)
    (hdb : db.Sound) (hrows : db.restingOrders.map RestingRow.owner ⊆ ids)
    (hids : db.Owned {x | x ∈ db.restingOrders.map RestingRow.owner} {x | x ∈ ids})
    (h : Transition.Reaches step ok s₀ as s) :
    Matched {x | x ∈ owners db s₀ as} s (s₀.taken as) (s₀.replied as) := by
  refine h.invariant_history
    (I := fun as s => Matched {x | x ∈ owners db s₀ as} s (s₀.taken as) (s₀.replied as)) ?_ ?_
  · refine .idle .nil fun t ht => ?_
    rw [hstart.quiet.1] at ht
    exact absurd ht List.not_mem_nil
  · intro as s a s' hrun ih _ hstep
    obtain ⟨hf, hown⟩ := owned_of_run hstart hdb hrows hids hrun
    rw [taken, replied, hrun.collect_snoc, hrun.collect_snoc]
    refine (ih.step hf hown.sessions hstep).mono fun x hx => ?_
    show x ∈ owners db s₀ (as ++ [a])
    rw [owners, assigned_snoc hrun hstep, ← List.append_assoc]
    exact List.mem_append_left _ hx

/-! ## The sessions of orders that requests name -/

/-- The engine takes a request whose order is covered. -/
lemma bound_of_takes {x : Taken} (hx : x ∈ s.takes a)
    (hcov : s.gateway.CoveredAt s.tasks x.item.id) : x.Bound := by
  cases a with
  | engine =>
    rw [takes] at hx
    cases htaken : s.nextTaken with
    | none =>
      rw [htaken] at hx
      exact absurd hx List.not_mem_nil
    | some y =>
      obtain ⟨item, b⟩ := y
      rw [htaken] at hx
      dsimp only at hx
      split_ifs at hx
      · exact absurd hx List.not_mem_nil
      · obtain rfl := List.mem_singleton.mp hx
        have ht : s.tasks = [] := by
          by_contra hne
          obtain ⟨t, ts, ht⟩ := List.exists_cons_of_ne_nil hne
          simp [nextTaken, ht] at htaken
        intro hopen
        rcases hcov hopen with hs | ⟨fill, session, ts', hts, -⟩
        · exact hs
        · rw [ht] at hts
          exact absurd hts (by simp)
  | _ => exact absurd hx List.not_mem_nil

/-- An order that is covered stays so until the engine takes the requests about it. -/
lemma bound_of_run {u : System} {ok : System → Action → Prop} {id : String} (hf : u.Founded)
    (hcov : u.gateway.CoveredAt u.tasks id) (h : Transition.Reaches step ok u as s) :
    ∀ x ∈ u.taken as, x.item.id = id → x.Bound := by
  have hrun := h.invariant_history (I := fun as s => s.Founded ∧ s.gateway.CoveredAt s.tasks id ∧
    ∀ x ∈ u.taken as, x.item.id = id → x.Bound) ⟨hf, hcov, by simp [taken, Transition.collect]⟩ ?_
  · exact hrun.2.2
  · rintro as t a s' hreach ⟨hf, hcov, ih⟩ - hstep
    refine ⟨hf.step hstep, hf.covered_step hcov hstep, fun x hx hid => ?_⟩
    rw [taken, hreach.collect_snoc] at hx
    rcases List.mem_append.mp hx with hx | hx
    · exact ih x hx hid
    · subst hid
      exact bound_of_takes hx hcov

/-- A client asks, after a run, to cancel or replace an open order of its own.  If the order has
been restored, the client has logged on before. -/
structure Asks (s₀ : System) (bs : List Action) (u : System) (session : SessionID) (msg : Message)
    (o : Order) : Prop where
  named : msg.origClOrdID.bind u.gateway.clordToExchange.lookup = some o.exchangeId
  opened : u.gateway.active o.exchangeId = some o
  client : o.clientId = session.targetCompID
  logon : s₀.gateway.active o.exchangeId = none ∨
    ∃ session', .logon session' ∈ bs ∧ session'.targetCompID = o.clientId

/-- A logon enters a session for the open orders of the client. -/
lemma covered_logon {session : SessionID} {ts : List Task} {id : String} {o : Order}
    (ho : s.gateway.active id = some o) (hid : o.exchangeId = id)
    (hclient : o.clientId = session.targetCompID) :
    (s.gateway.onLogon session).CoveredAt ts id := by
  refine FixGateway.coveredAt_of_session fun _ => ?_
  have hmem : o ∈ s.gateway.ordersOf session.targetCompID := by
    refine List.mem_filter.mpr ⟨FixGateway.mem_activeOrders.mpr ⟨id, ho⟩, ?_⟩
    rw [decide_eq_true_eq]
    exact hclient
  rw [← hid]
  exact lookup_foldl_emplace_ne_none (f := Order.exchangeId) (g := fun _ => session)
    (Or.inr (List.mem_map_of_mem hmem))

/-- An id that is restored stays with its client. -/
lemma clientId_of_run {cfg : Config} {db : Database} {s₀ : System}
    {ok : System → Action → Prop} {ids : List (String × String)} (hstart : StartsOn cfg db s₀)
    (hdb : db.Sound) (hrows : db.restingOrders.map RestingRow.owner ⊆ ids)
    (hids : db.Owned {x | x ∈ db.restingOrders.map RestingRow.owner} {x | x ∈ ids})
    (h : Transition.Reaches step ok s₀ as s) {id : String} {o₀ o : Order}
    (ho₀ : s₀.gateway.active id = some o₀) (ho : s.gateway.active id = some o) :
    o.clientId = o₀.clientId := by
  have howner : ∀ {as s o}, Transition.Reaches step ok s₀ as s → s.gateway.active id = some o →
      (id, o.clientId) ∈ owners db s₀ as := by
    intro as s o hrun ho
    obtain ⟨hf, hown⟩ := owned_of_run hstart hdb hrows hids hrun
    have hmem := hown.active ho
    rwa [Order.owner, (hf.maps.active id o ho).1] at hmem
  have hfirst : (id, o₀.clientId) ∈ owners db s₀ as := by
    have hmem : (id, o₀.clientId) ∈ owners db s₀ [] := howner .refl ho₀
    have hnil : owners db s₀ [] = db.restingOrders.map RestingRow.owner := List.append_nil _
    rw [hnil] at hmem
    exact List.mem_append_left _ hmem
  exact congrArg Prod.snd
    (List.inj_on_of_nodup_map (nodup_owners hstart hdb h) (howner h ho) hfirst rfl)

/-- The order that a client asks about is covered. -/
lemma Asks.covered {cfg : Config} {db : Database} {s₀ u : System} {bs : List Action}
    {session : SessionID} {msg : Message} {o : Order} (hasks : Asks s₀ bs u session msg o)
    {ok : System → Action → Prop} {ids : List (String × String)} (hstart : StartsOn cfg db s₀)
    (hdb : db.Sound) (hrows : db.restingOrders.map RestingRow.owner ⊆ ids)
    (hids : db.Owned {x | x ∈ db.restingOrders.map RestingRow.owner} {x | x ∈ ids})
    (h : Transition.Reaches step ok s₀ bs u) : u.gateway.CoveredAt u.tasks o.exchangeId := by
  have hf : ∀ {as s}, Transition.Reaches step ok s₀ as s → s.Founded := fun hrun =>
    (owned_of_run hstart hdb hrows hids hrun).1
  have hnew : s₀.gateway.active o.exchangeId = none →
      u.gateway.CoveredAt u.tasks o.exchangeId := fun hnone =>
    h.invariant (I := fun s => s.gateway.CoveredAt s.tasks o.exchangeId)
      (fun hopen => absurd hnone hopen)
      fun as s a s' hrun ih _ hstep => (hf hrun).covered_step ih hstep
  rcases hasks.logon with hnone | ⟨session', hlogon, hclient⟩
  · exact hnew hnone
  · cases hold : s₀.gateway.active o.exchangeId with
    | none => exact hnew hold
    | some o₀ =>
      have hsame : ∀ {as s o'}, Transition.Reaches step ok s₀ as s →
          s.gateway.active o.exchangeId = some o' → o'.clientId = o₀.clientId := fun hrun ho' =>
        clientId_of_run hstart hdb hrows hids hrun hold ho'
      rw [hsame h hasks.opened] at hclient
      refine h.invariant_history (I := fun as s => .logon session' ∈ as →
        s.gateway.CoveredAt s.tasks o.exchangeId) (fun hmem => absurd hmem List.not_mem_nil)
        (fun as s a s' hrun ih _ hstep hmem => ?_) hlogon
      rcases List.mem_append.mp hmem with hmem | hmem
      · exact (hf hrun).covered_step (ih hmem) hstep
      · obtain rfl := List.mem_singleton.mp hmem
        obtain ⟨-, rfl⟩ := step_logon hstep
        cases ho' : s.gateway.active o.exchangeId with
        | none => exact fun hopen => absurd ho' hopen
        | some o' =>
          exact covered_logon ho' ((hf hrun).maps.active _ _ ho').1
            ((hsame hrun ho').trans hclient.symm)

/-! ## The answer to a request -/

/-- What is sent on a message: by the callback of the request with its number, if the handler passes
a request on, and by the handler itself otherwise. -/
def outcome (s₀ : System) (bs : List Action) (u : System) (a : Action) (cs : List Action) :
    List (SessionID × ClientMessage) :=
  if u.passes a = [] then u.sends a
  else (((s₀.replied (bs ++ a :: cs))[(s₀.passed bs).length]?).map Prod.snd).getD []

/-- The answers that the client of a request gets. -/
def answers (s₀ : System) (bs : List Action) (u : System) (session : SessionID) (msg : Message)
    (o : Order) (cs : List Action) : List (SessionID × ClientMessage) :=
  (s₀.outcome bs u (.message msg session) cs).filter fun sent =>
    sent.1.targetCompID = session.targetCompID ∧ msg.AnsweredBy o.exchangeId sent.2

/-- The request of a message is answerable when the engine takes it. -/
def TakenAnswerable (s₀ : System) (bs : List Action) (a : Action) (cs : List Action) : Prop :=
  ∃ x, (s₀.taken (bs ++ a :: cs))[(s₀.passed bs).length]? = some x ∧ x.Answerable

/-- A cancel request is answerable when the engine takes it; a replace request has a price, and it
is answerable when the engine takes it, or asks for another symbol or side. -/
def Heeds (s₀ : System) (bs : List Action) (session : SessionID) (msg : Message) (o : Order)
    (cs : List Action) : Prop :=
  match msg with
  | .newOrder _ => False
  | .cancel _ => s₀.TakenAnswerable bs (.message msg session) cs
  | .replace m => m.price ≠ none ∧ ((o.symbol ≠ m.symbol ∨ o.side ≠ m.side) ∨
      s₀.TakenAnswerable bs (.message msg session) cs)

lemma exists_getElem?_of_forall₂ {α β : Type} {R : α → β → Prop} {xs : List α} {ys : List β}
    (h : List.Forall₂ R xs ys) {n : ℕ} {x : α} (hx : xs[n]? = some x) :
    ∃ y, ys[n]? = some y ∧ R x y := by
  induction h generalizing n with
  | nil => exact absurd hx (by simp)
  | cons hxy _ ih =>
    cases n with
    | zero =>
      obtain rfl := Option.some.inj hx
      exact ⟨_, rfl, hxy⟩
    | succ n => exact ih hx

/-- **A request that is passed on** is answered once if it is answerable when the engine takes
it. -/
lemma answered_of_passed {cfg : Config} {db : Database} {s₀ u : System}
    {ok : System → Action → Prop} {ids : List (String × String)} {bs cs : List Action}
    {session : SessionID} {msg : Message} {o : Order} {item : WorkItem}
    (hstart : StartsOn cfg db s₀) (hdb : db.Sound)
    (hrows : db.restingOrders.map RestingRow.owner ⊆ ids)
    (hids : db.Owned {x | x ∈ db.restingOrders.map RestingRow.owner} {x | x ∈ ids})
    (hu : Transition.Reaches step ok s₀ bs u) (hasks : Asks s₀ bs u session msg o)
    (h : Transition.Reaches step ok u (.message msg session :: cs) s) (hdrained : s.Drained)
    (hpasses : u.passes (.message msg session) = [item]) (hid : item.id = o.exchangeId)
    (hanswers : ∀ message, item.AnsweredBy message ↔ msg.AnsweredBy o.exchangeId message) :
    (s₀.answers bs u session msg o cs).length = 1 ↔
      s₀.TakenAnswerable bs (.message msg session) cs := by
  have hfull := hu.trans h
  set as := bs ++ .message msg session :: cs with has
  -- the request, its callback and what it sends have the same number
  have hcoming : s.underway = [] := by
    rw [underway, coming, hdrained.queue, hdrained.handler]
    rfl
  have hpassed := passed_of_run hstart.quiet.2 hfull
  rw [hcoming, List.append_nil] at hpassed
  have hitem : ((s₀.taken as).map Taken.item)[(s₀.passed bs).length]? = some item := by
    rw [← hpassed, passed, has, hu.collect_append, ← passed,
      List.getElem?_append_right (le_refl _), Nat.sub_self]
    show (u.passes (.message msg session) ++ _)[0]? = _
    rw [hpasses]
    rfl
  rw [List.getElem?_map] at hitem
  obtain ⟨x, hx, hxitem⟩ := Option.map_eq_some_iff.mp hitem
  have hmatched : List.Forall₂ (Replied {x | x ∈ owners db s₀ as}) (s₀.taken as)
      (s₀.replied as) := (matched_of_run hstart hdb hrows hids hfull).all hdrained.tasks
  obtain ⟨y, hy, hreplied⟩ := exists_getElem?_of_forall₂ hmatched hx
  -- the request is taken after it has been made
  have hbound : x.Bound := by
    refine bound_of_run (owned_of_run hstart hdb hrows hids hu).1
      (hasks.covered hstart hdb hrows hids hu) h x ?_ (by rw [hxitem, hid])
    have hlater : (s₀.taken bs).length ≤ (s₀.passed bs).length := by
      rw [passed_of_run hstart.quiet.2 hu]
      simp
    have hsplit : s₀.taken as = s₀.taken bs ++ u.taken (.message msg session :: cs) := by
      rw [taken, has, hu.collect_append]
      rfl
    rw [hsplit, List.getElem?_append_right hlater] at hx
    exact List.mem_of_getElem? hx
  have houtcome : s₀.outcome bs u (.message msg session) cs = y.2 := by
    rw [outcome, if_neg (by rw [hpasses]; simp), ← has, hy]
    rfl
  have hcondition : s₀.TakenAnswerable bs (.message msg session) cs ↔ x.Answerable := by
    constructor
    · rintro ⟨x', hx', hans⟩
      obtain rfl := Option.some.inj (hx.symm.trans hx')
      exact hans
    · exact fun hans => ⟨x, hx, hans⟩
  rw [hcondition, answers, houtcome]
  by_cases hans : x.Answerable
  · obtain ⟨session', message, hsent, hanswer, hown⟩ := hreplied.answer hbound hans
    have hclient : session'.targetCompID = session.targetCompID := by
      rw [hxitem, hid] at hown
      have hmine := (owned_of_run hstart hdb hrows hids hu).2.active hasks.opened
      have hmore : o.owner ∈ owners db s₀ as := by
        rw [owners, has, assigned_append hu, ← List.append_assoc]
        exact List.mem_append_left _ hmine
      rw [← hasks.client]
      exact congrArg Prod.snd
        (List.inj_on_of_nodup_map (nodup_owners hstart hdb hfull) hown hmore rfl)
    rw [hxitem, hanswers] at hanswer
    simp [hsent, hclient, hanswer, hans]
  · rw [hreplied.silent hbound hans]
    simp [hans]

/-- **When a request is answered**: after any sequence of processes on the database, and in every
run from there, a request about an open order of its client has got exactly one answer when
nothing is left to be done, if and only if it is heeded. -/
theorem request_answered_iff {cfg : Config} {ok ok' : System → Action → Prop}
    {stop : System → Prop} {ids : List (String × String)} {db : Database} {s₀ u : System}
    {bs cs : List Action} {session : SessionID} {msg : Message} {o : Order}
    (hlives : Lives ok stop Database.empty ids db) (hstart : StartsOn cfg db s₀)
    (hu : Transition.Reaches step ok' s₀ bs u) (hasks : Asks s₀ bs u session msg o)
    (h : Transition.Reaches step ok' u (.message msg session :: cs) s) (hdrained : s.Drained) :
    (s₀.answers bs u session msg o cs).length = 1 ↔ s₀.Heeds bs session msg o cs := by
  obtain ⟨hsound, hrows, howned, -⟩ := hlives.owned
  cases msg with
  | newOrder m => exact absurd hasks.named (by simp [Message.origClOrdID])
  | cancel m =>
    have hnamed : u.gateway.clordToExchange.lookup m.origClOrdID = some o.exchangeId := hasks.named
    have hpasses : u.passes (.message (.cancel m) session)
        = [.cancel ⟨o.exchangeId, session.targetCompID, m.symbol⟩] := by
      simp [passes, onMessage, FixGateway.onOrderCancelRequest, hnamed, nextItem,
        WorkItem.requester]
    exact answered_of_passed hstart hsound hrows howned hu hasks h hdrained hpasses rfl
      fun _ => Iff.rfl
  | replace m =>
    have hnamed : u.gateway.clordToExchange.lookup m.origClOrdID = some o.exchangeId := hasks.named
    have hopened : u.gateway.activeOrders.lookup o.exchangeId = some o := hasks.opened
    cases hprice : m.price with
    | none =>
      -- the handler ends with an exception
      have hrun : u.onMessage session (.replace m) = (u.gateway, .idle) := by
        simp only [onMessage, FixGateway.onOrderCancelReplaceRequest, hprice]
      have hsends : u.sends (.message (.replace m) session) = [] := by
        rw [sends, hrun]
        exact List.drop_length
      simp [answers, outcome, passes, hrun, hsends, nextItem, Heeds, hprice]
    | some price =>
      by_cases hdiffers : o.symbol ≠ m.symbol ∨ o.side ≠ m.side
      · -- the handler refuses the request
        have hrun : u.onMessage session (.replace m) = (u.gateway.sendToTarget (.cancelReject
            (makeCancelReject m.clOrdID m.origClOrdID o.exchangeId "Cannot change symbol or side"))
            session, .idle) := by
          simp only [onMessage, FixGateway.onOrderCancelReplaceRequest, hprice,
            FixGateway.replaceRequest, hnamed, hopened]
          exact if_pos hdiffers
        have hsends : u.sends (.message (.replace m) session) = [(session, .cancelReject
            (makeCancelReject m.clOrdID m.origClOrdID o.exchangeId
              "Cannot change symbol or side"))] := by
          rw [sends, hrun]
          exact List.drop_left
        have hanswer : (Message.replace m).AnsweredBy o.exchangeId (.cancelReject
            (makeCancelReject m.clOrdID m.origClOrdID o.exchangeId
              "Cannot change symbol or side")) := rfl
        refine iff_of_true ?_ ⟨by simp [hprice], Or.inl hdiffers⟩
        simp [answers, outcome, passes, hrun, hsends, nextItem, hanswer]
      · have hrun : u.onMessage session (.replace m) = (u.gateway, .replace
            { FixGateway.replaceRequest m price session with origOrderId := o.exchangeId }) := by
          simp only [onMessage, FixGateway.onOrderCancelReplaceRequest, hprice,
            FixGateway.replaceRequest, hnamed, hopened]
          exact if_neg hdiffers
        have hpasses : u.passes (.message (.replace m) session) = [.replace
            { FixGateway.replaceRequest m price session with origOrderId := o.exchangeId }] := by
          simp [passes, hrun, nextItem, WorkItem.requester]
        rw [answered_of_passed hstart hsound hrows howned hu hasks h hdrained hpasses rfl
          fun _ => Iff.rfl, Heeds, hprice]
        simp [hdiffers]

/-- A request is passed on, and the engine thread runs for some sections. -/
def finish (n : ℕ) : List Action := .handle :: Sample.engine n

/-- An order is about to be traded completely. -/
def lateRun : List Action :=
  Sample.submit (Sample.limit "a" '2' 5 10) Sample.alice ++ Sample.engine 2
    ++ Sample.submit (Sample.limit "b" '1' 5 10) Sample.bob

/-- The gateway's copy of the order. -/
def restingOrder : Order := ⟨"a", "EXCH-1", "A", "X", '2', '2', 10, 5, 5, '0'⟩

/-- A cancel request that loses the race to a fill is not answered. -/
theorem late_cancel_unanswered :
    ∃ u s, RunTo Sample.config Any lateRun u ∧
      Asks (start Sample.config) lateRun u Sample.alice (Sample.cancel "a") restingOrder ∧
      Transition.Reaches step Any u
        (.message (Sample.cancel "a") Sample.alice :: finish 8) s ∧ s.Drained ∧
      (start Sample.config).answers lateRun u Sample.alice (Sample.cancel "a") restingOrder
        (finish 8) = [] := by
  have hreach : ∃ u, RunTo Sample.config Any lateRun u ∧
      (u.gateway.clordToExchange.lookup "a" = some "EXCH-1" ∧
        u.gateway.activeOrders.lookup "EXCH-1" = some restingOrder ∧
        (Transition.run step u (.message (Sample.cancel "a") Sample.alice :: finish 8)).any
          (fun s => decide s.Drained) = true ∧
        (start Sample.config).answers lateRun u Sample.alice (Sample.cancel "a") restingOrder
          (finish 8) = []) :=
    Transition.exists_reaches (by decide +kernel) (by decide +kernel)
  obtain ⟨u, hu, hnamed, hopened, hend, hnone⟩ := hreach
  obtain ⟨s, hrun, hdrained⟩ :=
    Transition.exists_reaches hend (Transition.allowed_of_forall (fun _ _ => trivial) _ _)
  have hasks : Asks (start Sample.config) lateRun u Sample.alice (Sample.cancel "a")
      restingOrder := ⟨hnamed, hopened, rfl, Or.inl rfl⟩
  exact ⟨u, s, hu, hasks, hrun, hdrained, hnone⟩

/-- An order rests. -/
def restingRun : List Action :=
  Sample.submit (Sample.limit "a" '2' 5 10) Sample.alice ++ Sample.engine 2

theorem request_answered_sample :
    ∃ u s, RunTo Sample.config Any restingRun u ∧
      Transition.Reaches step Any u
        (.message (Sample.cancel "a") Sample.alice :: finish 2) s ∧ s.Drained ∧
      (start Sample.config).answers restingRun u Sample.alice (Sample.cancel "a") restingOrder
        (finish 2) = [(Sample.alice, .execReport (makeExecReport restingOrder .Canceled))] ∧
      (start Sample.config).Heeds restingRun Sample.alice (Sample.cancel "a") restingOrder
        (finish 2) := by
  have hreach : ∃ u, RunTo Sample.config Any restingRun u ∧
      (u.gateway.clordToExchange.lookup "a" = some "EXCH-1" ∧
        u.gateway.activeOrders.lookup "EXCH-1" = some restingOrder ∧
        (Transition.run step u (.message (Sample.cancel "a") Sample.alice :: finish 2)).any
          (fun s => decide s.Drained) = true ∧
        (start Sample.config).answers restingRun u Sample.alice (Sample.cancel "a") restingOrder
          (finish 2) = [(Sample.alice, .execReport (makeExecReport restingOrder .Canceled))]) :=
    Transition.exists_reaches (by decide +kernel) (by decide +kernel)
  obtain ⟨u, hu, hnamed, hopened, hend, hone⟩ := hreach
  obtain ⟨s, hrun, hdrained⟩ :=
    Transition.exists_reaches hend (Transition.allowed_of_forall (fun _ _ => trivial) _ _)
  have hasks : Asks (start Sample.config) restingRun u Sample.alice (Sample.cancel "a")
      restingOrder := ⟨hnamed, hopened, rfl, Or.inl rfl⟩
  refine ⟨u, s, hu, hrun, hdrained, hone, ?_⟩
  refine (request_answered_iff (Lives.none : Lives Any (fun _ => True) _ _ _) .fresh hu hasks hrun
    hdrained).mp ?_
  rw [hone]
  rfl

end System

end FixExchange
