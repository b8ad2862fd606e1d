/-
# What the tasks of the engine thread do

Each callback of the engine changes the open orders of the gateway and may tell the
subscribers of the feed and the database.  Read as a change of the ledger of open orders
(`Task.onActive`) and as a list of notices (`Task.notices`) this does not depend on the
session map, as long as every open order has a session (`Covered`).  A callback may be cut
short by another thread at any section; what the ledger and the notices will be once the
pending tasks have run is therefore defined without running them (`settle`, `noticesOf`).
-/
import FixExchange.Engine.BookLedger
import FixExchange.Gateway.FixGateway

namespace FixExchange

/-- What the gateway passes on to the feed and to the database. -/
inductive Notice
  | filled (maker taker : Fill)
  | cancelled (id : String) (order : Order)
  | replaced (req : ReplaceRequest) (newLeavesQty : ℤ) (oldPrice : Price)
  | rested (order : Order) (leavesQty : ℤ)
deriving DecidableEq, Repr

/-- The packets of a notice are sent. -/
def Notice.publish (m : MarketDataPublisher) : Notice → MarketDataPublisher
  | .filled maker _ => m.onFill maker
  | .cancelled _ order => m.onCancel order
  | .replaced req newLeavesQty oldPrice => m.onReplace req newLeavesQty oldPrice
  | .rested order leavesQty => m.onNewOrder order leavesQty

/-- The events of a notice. -/
def Notice.events : Notice → List PersistenceEvent
  | .filled maker taker => [.fill maker, .takerFill taker]
  | .cancelled id order => [.cancel id order]
  | .replaced req newLeavesQty _ => [.replace req (max 0 newLeavesQty)]
  | .rested order leavesQty => [.rested order leavesQty]

namespace Task

/-- The exchange ids that a task looks up. -/
def ids : Task → List String
  | .fillRouting fill => [fill.exchangeId]
  | .fillOrders fill _ => [fill.exchangeId]
  | .fillDone _ _ => []
  | .onCancel req _ => [req.origOrderId]
  | .onTIFCancel order => [order.exchangeId]
  | .onReplace req _ _ => [req.origOrderId]
  | .onOrderRested _ _ => []

/-- The open orders after a task, given those before. -/
def onActive (A : OrderLedger) : Task → OrderLedger
  | .fillRouting fill => A.setOpen fill.exchangeId fill.leavesQty
  | .fillOrders fill _ => A.setOpen fill.exchangeId fill.leavesQty
  | .fillDone _ _ => A
  | .onCancel req found => if found then A.drop req.origOrderId else A
  | .onTIFCancel order => A.drop order.exchangeId
  | .onReplace req found newLeavesQty =>
    if found then
      if newLeavesQty = 0 then A.drop req.origOrderId
      else A.adjust req.origOrderId fun o => FixGateway.replaced o req newLeavesQty
    else A
  | .onOrderRested _ _ => A

/-- What a task passes on, given the open orders. -/
def notices (A : OrderLedger) : Task → List Notice
  | .fillDone maker taker => [.filled maker taker]
  | .onCancel req found =>
    if found then (A req.origOrderId).toList.map fun o => .cancelled req.origOrderId o else []
  | .onReplace req found newLeavesQty =>
    if found then (A req.origOrderId).toList.map fun o => .replaced req newLeavesQty o.price
    else []
  | .onOrderRested order leavesQty => [.rested order leavesQty]
  | _ => []

variable {A : OrderLedger} {t : Task} {id : String} {o : Order}

lemma onActive_of_notMem (h : id ∉ t.ids) : t.onActive A id = A id := by
  cases t with
  | fillRouting fill => exact OrderLedger.setOpen_of_ne (by simpa [ids] using h)
  | fillOrders fill session => exact OrderLedger.setOpen_of_ne (by simpa [ids] using h)
  | fillDone maker taker => rfl
  | onCancel req found =>
    simp only [onActive]
    split_ifs
    · exact Ledger.drop_of_ne (by simpa [ids] using h)
    · rfl
  | onTIFCancel order => exact Ledger.drop_of_ne (by simpa [ids] using h)
  | onReplace req found newLeavesQty =>
    simp only [onActive]
    split_ifs
    · exact Ledger.drop_of_ne (by simpa [ids] using h)
    · exact Ledger.adjust_of_ne (by simpa [ids] using h)
    · rfl
  | onOrderRested order leavesQty => rfl

/-- A task and the opening of an order it does not look up can be exchanged. -/
lemma onActive_put (h : id ∉ t.ids) : t.onActive (A.put id o) = (t.onActive A).put id o := by
  cases t with
  | fillRouting fill => exact OrderLedger.setOpen_put (Ne.symm (by simpa [ids] using h)) o
  | fillOrders fill session => exact OrderLedger.setOpen_put (Ne.symm (by simpa [ids] using h)) o
  | fillDone maker taker => rfl
  | onCancel req found =>
    simp only [onActive]
    split_ifs
    · exact Ledger.drop_put (Ne.symm (by simpa [ids] using h)) o
    · rfl
  | onTIFCancel order => exact Ledger.drop_put (Ne.symm (by simpa [ids] using h)) o
  | onReplace req found newLeavesQty =>
    simp only [onActive]
    split_ifs
    · exact Ledger.drop_put (Ne.symm (by simpa [ids] using h)) o
    · exact Ledger.adjust_put (Ne.symm (by simpa [ids] using h)) o _
    · rfl
  | onOrderRested order leavesQty => rfl

lemma notices_put (h : id ∉ t.ids) : t.notices (A.put id o) = t.notices A := by
  cases t with
  | onCancel req found =>
    simp only [notices]
    rw [Ledger.put_of_ne (Ne.symm (by simpa [ids] using h))]
  | onReplace req found newLeavesQty =>
    simp only [notices]
    rw [Ledger.put_of_ne (Ne.symm (by simpa [ids] using h))]
  | _ => rfl

end Task

/-- The open orders after a list of tasks. -/
def settle (ts : List Task) (A : OrderLedger) : OrderLedger := ts.foldl Task.onActive A

/-- What a list of tasks passes on. -/
def noticesOf : List Task → OrderLedger → List Notice
  | [], _ => []
  | t :: ts, A => t.notices A ++ noticesOf ts (t.onActive A)

section

variable {A : OrderLedger} {ts : List Task} {id : String} {o : Order}

@[simp] lemma settle_nil (A : OrderLedger) : settle [] A = A := rfl

@[simp] lemma settle_cons (t : Task) (ts : List Task) (A : OrderLedger) :
    settle (t :: ts) A = settle ts (t.onActive A) := rfl

@[simp] lemma noticesOf_nil (A : OrderLedger) : noticesOf [] A = [] := rfl

@[simp] lemma noticesOf_cons (t : Task) (ts : List Task) (A : OrderLedger) :
    noticesOf (t :: ts) A = t.notices A ++ noticesOf ts (t.onActive A) := rfl

lemma settle_append (ts ts' : List Task) (A : OrderLedger) :
    settle (ts ++ ts') A = settle ts' (settle ts A) := List.foldl_append

lemma noticesOf_append (ts ts' : List Task) (A : OrderLedger) :
    noticesOf (ts ++ ts') A = noticesOf ts A ++ noticesOf ts' (settle ts A) := by
  induction ts generalizing A with
  | nil => rfl
  | cons t ts ih => simp [ih]

lemma settle_of_notMem (h : ∀ t ∈ ts, id ∉ t.ids) : settle ts A id = A id := by
  induction ts generalizing A with
  | nil => rfl
  | cons t ts ih =>
    rw [settle_cons, ih fun t' ht' => h t' (List.mem_cons_of_mem _ ht'),
      Task.onActive_of_notMem (h t List.mem_cons_self)]

lemma settle_put (h : ∀ t ∈ ts, id ∉ t.ids) :
    settle ts (A.put id o) = (settle ts A).put id o := by
  induction ts generalizing A with
  | nil => rfl
  | cons t ts ih =>
    rw [settle_cons, Task.onActive_put (h t List.mem_cons_self),
      ih fun t' ht' => h t' (List.mem_cons_of_mem _ ht'), settle_cons]

lemma noticesOf_put (h : ∀ t ∈ ts, id ∉ t.ids) :
    noticesOf ts (A.put id o) = noticesOf ts A := by
  induction ts generalizing A with
  | nil => rfl
  | cons t ts ih =>
    rw [noticesOf_cons, noticesOf_cons, Task.onActive_put (h t List.mem_cons_self),
      Task.notices_put (h t List.mem_cons_self),
      ih fun t' ht' => h t' (List.mem_cons_of_mem _ ht')]

end

namespace FixGateway

/-- The ledger of the open orders. -/
def active (g : FixGateway) : OrderLedger := Ledger.ofAList g.activeOrders

/-- The open orders as a list. -/
lemma mem_activeOrders {g : FixGateway} {o : Order} :
    o ∈ g.activeOrders.entries.map Sigma.snd ↔ ∃ id, g.active id = some o := by
  rw [List.mem_map]
  constructor
  · rintro ⟨⟨id, o'⟩, hmem, rfl⟩
    exact ⟨id, AList.mem_lookup_iff.mpr hmem⟩
  · rintro ⟨id, hid⟩
    exact ⟨⟨id, o⟩, AList.mem_lookup_iff.mp hid, rfl⟩

/-- Every open order has a session, except one whose last fill is just being reported. -/
def Covered (g : FixGateway) (ts : List Task) : Prop :=
  ∀ id, g.active id ≠ none → g.orderSessions.lookup id ≠ none ∨
    ∃ fill session ts', ts = .fillOrders fill session :: ts' ∧ fill.exchangeId = id ∧
      fill.leavesQty = 0

variable {g : FixGateway} {t : Task} {ts : List Task}

/-- The events of a list of notices are pushed. -/
def pushEvents (p : PersistenceLayer) (evts : List PersistenceEvent) : PersistenceLayer :=
  evts.foldl PersistenceLayer.push p

/-- What running a task does to the rest of the system. -/
structure RunsTo (g : FixGateway) (t : Task) (ts : List Task) (g' : FixGateway)
    (ts' : List Task) : Prop where
  settle : settle ts' g'.active = settle ts (t.onActive g.active)
  notices : noticesOf ts' g'.active = noticesOf ts (t.onActive g.active)
  publisher : g'.publisher = (t.notices g.active).foldl Notice.publish g.publisher
  persistence : g'.persistence
    = g.persistence.map fun p => pushEvents p ((t.notices g.active).flatMap Notice.events)
  orderSeq : g'.orderSeq = g.orderSeq
  riskCfg : g'.risk.cfg = g.risk.cfg
  covered : g'.Covered ts'

lemma active_setLeaves (orders : StrMap Order) (id : String) (leavesQty : ℤ) :
    Ledger.ofAList (setLeaves orders id leavesQty)
      = OrderLedger.setOpen (Ledger.ofAList orders) id leavesQty := by
  rw [setLeaves, OrderLedger.setOpen, Ledger.setAmount]
  by_cases h0 : leavesQty = 0
  · rw [if_pos h0, if_pos h0, Ledger.ofAList_erase]
  · rw [if_neg h0, if_neg h0]
    cases h : orders.lookup id with
    | none => exact (Ledger.adjust_of_none (L := Ledger.ofAList orders) h).symm
    | some o =>
      rw [Ledger.adjust_of_some (L := Ledger.ofAList orders) h, Ledger.ofAList_insert]

/-- Every open order has a session. -/
def AllCovered (g : FixGateway) : Prop := ∀ id, g.orderSessions.lookup id = none → g.active id = none

lemma AllCovered.covered (h : g.AllCovered) (ts : List Task) : g.Covered ts :=
  fun id hid => Or.inl fun hn => hid (h id hn)

/-- Unless an order is just being reported as filled, every open order has a session. -/
lemma Covered.allCovered (h : g.Covered (t :: ts))
    (ht : ∀ fill session, t ≠ .fillOrders fill session) : g.AllCovered := by
  intro id hid
  by_contra hne
  rcases h id hne with hs | ⟨fill, session, ts', hts, -⟩
  · exact hs hid
  · exact ht fill session (List.cons.inj hts).1

/-- Dropping an order together with its session. -/
lemma AllCovered.drop (h : g.AllCovered) {g' : FixGateway} (id : String)
    (hactive : g'.active = g.active.drop id)
    (hsessions : g'.orderSessions = g.orderSessions.erase id) : g'.AllCovered := by
  intro id' hid'
  by_cases hid : id' = id
  · rw [hactive, hid, Ledger.drop_self]
  · rw [hactive, Ledger.drop_of_ne hid]
    rw [hsessions, AList.lookup_erase_ne hid] at hid'
    exact h id' hid'

/-- A task that leaves the maps and the feed as they are. -/
lemma runsTo_skip (h : g.AllCovered) (hactive : t.onActive g.active = g.active)
    (hnotices : t.notices g.active = []) : g.RunsTo t ts g ts where
  settle := by rw [hactive]
  notices := by rw [hactive]
  publisher := by rw [hnotices]; rfl
  persistence := by rw [hnotices]; simp [pushEvents]
  orderSeq := rfl
  riskCfg := rfl
  covered := h.covered ts

lemma fillRouting_runsTo (h : g.AllCovered) (fill : Fill) :
    g.RunsTo (.fillRouting fill) ts (g.runTask (.fillRouting fill)).1
      ((g.runTask (.fillRouting fill)).2 ++ ts) := by
  cases hlookup : g.orderSessions.lookup fill.exchangeId with
  | none =>
    simp only [runTask, fillRouting, hlookup, List.nil_append]
    exact runsTo_skip h (OrderLedger.setOpen_of_none (h _ hlookup)) rfl
  | some session =>
    -- the open orders are left to the next task
    by_cases h0 : fill.leavesQty = 0
    · simp only [runTask, fillRouting, hlookup, if_pos h0, List.singleton_append]
      refine ⟨rfl, rfl, rfl, by simp [Task.notices, pushEvents], rfl, rfl, fun id hid => ?_⟩
      by_cases hid' : id = fill.exchangeId
      · exact Or.inr ⟨fill, session, ts, rfl, hid'.symm, h0⟩
      · refine Or.inl ?_
        simp only [AList.lookup_erase_ne hid']
        exact fun hn => hid (h id hn)
    · simp only [runTask, fillRouting, hlookup, if_neg h0, List.singleton_append]
      exact ⟨rfl, rfl, rfl, by simp [Task.notices, pushEvents], rfl, rfl, h.covered _⟩

lemma fillOrders_runsTo (fill : Fill) (session : SessionID)
    (h : g.Covered (.fillOrders fill session :: ts)) :
    g.RunsTo (.fillOrders fill session) ts (g.runTask (.fillOrders fill session)).1
      ((g.runTask (.fillOrders fill session)).2 ++ ts) := by
  have hactive : (g.runTask (.fillOrders fill session)).1.active
      = OrderLedger.setOpen g.active fill.exchangeId fill.leavesQty := active_setLeaves _ _ _
  refine ⟨congrArg (settle ts) hactive, congrArg (noticesOf ts) hactive, rfl,
    by simp [runTask, fillOrders, sendToTarget, Task.notices, pushEvents], rfl, rfl, ?_⟩
  intro id hid
  refine Or.inl ?_
  rw [hactive] at hid
  by_cases hid' : id = fill.exchangeId
  · subst hid'
    rw [OrderLedger.setOpen_self] at hid
    by_cases h0 : fill.leavesQty = 0
    · rw [if_pos h0] at hid
      exact absurd rfl hid
    · rw [if_neg h0, ne_eq, Option.map_eq_none_iff] at hid
      rcases h _ hid with hs | ⟨fill', session', ts', hts, -, h0'⟩
      · exact hs
      · obtain ⟨rfl, -⟩ := Task.fillOrders.inj (List.cons.inj hts).1
        exact absurd h0' h0
  · rw [OrderLedger.setOpen_of_ne hid'] at hid
    rcases h _ hid with hs | ⟨fill', session', ts', hts, heq, -⟩
    · exact hs
    · obtain ⟨rfl, -⟩ := Task.fillOrders.inj (List.cons.inj hts).1
      exact absurd heq.symm hid'

lemma fillDone_runsTo (h : g.AllCovered) (maker taker : Fill) :
    g.RunsTo (.fillDone maker taker) ts (g.fillDone maker taker) ts := by
  refine ⟨rfl, rfl, rfl, ?_, rfl, rfl, h.covered ts⟩
  simp [fillDone, persist, Task.notices, Notice.events, pushEvents, Function.comp_def]

lemma onCancel_runsTo (h : g.AllCovered) (req : CancelRequest) (found : Bool) :
    g.RunsTo (.onCancel req found) ts (g.onCancel req found) ts := by
  cases hfound : found with
  | false =>
    have hskip : g.onCancel req false = g := by
      rw [onCancel]
      split <;> rfl
    rw [hskip]
    exact runsTo_skip h rfl rfl
  | true =>
    cases ha : g.activeOrders.lookup req.origOrderId with
    | none =>
      have hnone : g.active req.origOrderId = none := ha
      have hskip : g.onCancel req true = g := by simp [onCancel, ha]
      rw [hskip]
      exact runsTo_skip h (Ledger.drop_of_none hnone) (by simp [Task.notices, hnone])
    | some o =>
      have hsome : g.active req.origOrderId = some o := ha
      cases hs : g.orderSessions.lookup req.origOrderId with
      | none =>
        rw [h _ hs] at hsome
        exact absurd hsome (by simp)
      | some session =>
        have hactive : (g.onCancel req true).active = g.active.drop req.origOrderId := by
          simp only [onCancel, hs, ha]
          exact Ledger.ofAList_erase _
        have hrun : (g.onCancel req true).orderSessions
            = g.orderSessions.erase req.origOrderId := by
          simp [onCancel, hs, ha, sendToTarget, persist]
        refine ⟨congrArg (settle ts) hactive, congrArg (noticesOf ts) hactive, ?_, ?_, ?_, ?_,
          (h.drop _ hactive hrun).covered ts⟩
        · simp [onCancel, hs, ha, sendToTarget, persist, Task.notices, hsome, Notice.publish]
        · simp [onCancel, hs, ha, sendToTarget, persist, Task.notices, hsome, Notice.events,
            pushEvents]
        · simp [onCancel, hs, ha, sendToTarget, persist]
        · simp [onCancel, hs, ha, sendToTarget, persist]

lemma onTIFCancel_runsTo (h : g.AllCovered) (order : Order) :
    g.RunsTo (.onTIFCancel order) ts (g.onTIFCancel order) ts := by
  cases hs : g.orderSessions.lookup order.exchangeId with
  | none =>
    have hskip : g.onTIFCancel order = g := by simp [onTIFCancel, hs]
    rw [hskip]
    exact runsTo_skip h (Ledger.drop_of_none (h _ hs)) rfl
  | some session =>
    have hactive : (g.onTIFCancel order).active = g.active.drop order.exchangeId := by
      simp only [onTIFCancel, hs]
      exact Ledger.ofAList_erase _
    have hrun : (g.onTIFCancel order).orderSessions
        = g.orderSessions.erase order.exchangeId := by
      simp [onTIFCancel, hs, sendToTarget]
    refine ⟨congrArg (settle ts) hactive, congrArg (noticesOf ts) hactive, ?_, ?_, ?_, ?_,
      (h.drop _ hactive hrun).covered ts⟩
    · simp [onTIFCancel, hs, sendToTarget, Task.notices]
    · simp [onTIFCancel, hs, sendToTarget, Task.notices, pushEvents]
    · simp [onTIFCancel, hs, sendToTarget]
    · simp [onTIFCancel, hs, sendToTarget]

lemma onReplace_runsTo (h : g.AllCovered) (req : ReplaceRequest) (found : Bool)
    (newLeavesQty : ℤ) :
    g.RunsTo (.onReplace req found newLeavesQty) ts (g.onReplace req found newLeavesQty) ts := by
  cases ha : g.activeOrders.lookup req.origOrderId with
  | none =>
    have hnone : g.active req.origOrderId = none := ha
    have hskip : g.onReplace req found newLeavesQty = g := by simp [onReplace, ha]
    rw [hskip]
    refine runsTo_skip h ?_ (by simp [Task.notices, hnone])
    simp only [Task.onActive, Ledger.drop_of_none hnone, Ledger.adjust_of_none hnone, ite_self]
  | some o =>
    have hsome : g.active req.origOrderId = some o := ha
    cases hs : g.orderSessions.lookup req.origOrderId with
    | none =>
      rw [h _ hs] at hsome
      exact absurd hsome (by simp)
    | some session =>
      cases hfound : found with
      | false =>
        -- only a reject is sent
        simp only [onReplace, hs, ha, Bool.false_eq_true, if_false]
        exact ⟨rfl, rfl, rfl, by simp [sendToTarget, Task.notices, pushEvents], rfl, rfl,
          h.covered ts⟩
      | true =>
        have hactive : (g.onReplace req true newLeavesQty).active
            = (Task.onReplace req true newLeavesQty).onActive g.active := by
          simp only [onReplace, hs, ha, Task.onActive, if_true]
          by_cases h0 : newLeavesQty = 0
          · simp only [if_pos h0]
            exact Ledger.ofAList_erase _
          · simp only [if_neg h0]
            rw [Ledger.adjust_of_some hsome]
            exact Ledger.ofAList_insert _
        refine ⟨congrArg (settle ts) hactive, congrArg (noticesOf ts) hactive, ?_, ?_, ?_, ?_, ?_⟩
        · simp [onReplace, hs, ha, sendToTarget, persist, Task.notices, hsome, Notice.publish]
        · simp [onReplace, hs, ha, sendToTarget, persist, Task.notices, hsome, Notice.events,
            pushEvents]
        · simp [onReplace, hs, ha, sendToTarget, persist]
        · simp [onReplace, hs, ha, sendToTarget, persist]
        · by_cases h0 : newLeavesQty = 0
          · refine (h.drop req.origOrderId ?_ ?_).covered ts
            · rw [hactive, Task.onActive, if_pos rfl, if_pos h0]
            · simp [onReplace, hs, ha, sendToTarget, persist, h0]
          · refine AllCovered.covered (fun id hid => ?_) ts
            have hsame : (g.onReplace req true newLeavesQty).orderSessions = g.orderSessions := by
              simp [onReplace, hs, ha, sendToTarget, persist, h0]
            rw [hsame] at hid
            rw [hactive, Task.onActive, if_pos rfl, if_neg h0, Ledger.adjust_of_ne]
            · exact h id hid
            · rintro rfl
              rw [hid] at hs
              exact absurd hs (by simp)

lemma onOrderRested_runsTo (h : g.AllCovered) (order : Order) (leavesQty : ℤ) :
    g.RunsTo (.onOrderRested order leavesQty) ts (g.onOrderRested order leavesQty) ts := by
  refine ⟨rfl, rfl, rfl, ?_, rfl, rfl, h.covered ts⟩
  simp [onOrderRested, persist, Task.notices, Notice.events, pushEvents]

/-- **What running a task does**, when the open orders are covered by sessions. -/
theorem runTask_runsTo (h : g.Covered (t :: ts)) :
    g.RunsTo t ts (g.runTask t).1 ((g.runTask t).2 ++ ts) := by
  cases t with
  | fillRouting fill => exact fillRouting_runsTo (h.allCovered fun _ _ => by simp) fill
  | fillOrders fill session => exact fillOrders_runsTo fill session h
  | fillDone maker taker => exact fillDone_runsTo (h.allCovered fun _ _ => by simp) maker taker
  | onCancel req found => exact onCancel_runsTo (h.allCovered fun _ _ => by simp) req found
  | onTIFCancel order => exact onTIFCancel_runsTo (h.allCovered fun _ _ => by simp) order
  | onReplace req found newLeavesQty =>
    exact onReplace_runsTo (h.allCovered fun _ _ => by simp) req found newLeavesQty
  | onOrderRested order leavesQty =>
    exact onOrderRested_runsTo (h.allCovered fun _ _ => by simp) order leavesQty

end FixGateway

end FixExchange
