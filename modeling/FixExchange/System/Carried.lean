/-
# Items that are carried through

An item is carried through when no order disappears without a report about its end: what a new
order cannot trade rests or is cancelled, and a replace that finds its order fills it.  In a
run whose items are carried through the gateway has open what rests, or is on its way to the
engine, whatever the quantities in the requests are (`carried_of_run`), and no replace is ever
reported (`Carried.unreplaced`).
-/
import FixExchange.System.Closing
import FixExchange.System.Follower
import FixExchange.System.OpenOrders

namespace FixExchange

/-! ## The open orders at the end of an order -/

section

variable {A : OrderLedger} {t : Task} {ts : List Task} {id : String}

/-- Tasks open no order. -/
lemma settle_eq_none (h : A id = none) : settle ts A id = none := by
  rw [Option.eq_none_iff_forall_ne_some]
  intro o ho
  obtain ⟨o', ho', -⟩ := FixGateway.settle_inv ho
  exact absurd (h.symm.trans ho') (by simp)

/-- A task that reports the end of an order drops it. -/
lemma Task.onActive_of_closes (h : t.closes = some id) : t.onActive A id = none := by
  cases t with
  | fillRouting fill | fillOrders fill session =>
    have hfill : (Task.fillRouting fill).closes = some id := h
    obtain ⟨h0, rfl⟩ := Task.closes_fillRouting hfill
    show OrderLedger.setOpen A fill.exchangeId fill.leavesQty fill.exchangeId = none
    rw [OrderLedger.setOpen_self, if_pos h0]
  | onCancel req found =>
    simp only [Task.closes] at h
    split_ifs at h with hfound
    obtain rfl := Option.some.inj h
    simp only [Task.onActive, hfound, if_true]
    exact Ledger.drop_self
  | onTIFCancel order =>
    obtain rfl := Option.some.inj h
    exact Ledger.drop_self
  | fillDone | onReplace | onOrderRested => exact absurd h (by simp [Task.closes])

lemma settle_of_closes (ht : t ∈ ts) (h : t.closes = some id) : settle ts A id = none := by
  induction ts generalizing A with
  | nil => exact absurd ht List.not_mem_nil
  | cons t' ts ih =>
    rw [settle_cons]
    rcases List.mem_cons.mp ht with rfl | ht
    · exact settle_eq_none (Task.onActive_of_closes h)
    · exact ih ht

/-- A task that drops an order reports its end, or that a replace has left nothing of it. -/
lemma Task.closes_of_onActive (h : t.onActive A id = none) (hA : A id ≠ none) :
    t.closes = some id ∨ ∃ req, t = .onReplace req true 0 ∧ req.origOrderId = id := by
  have hfill : ∀ {fill : Fill}, A.setOpen fill.exchangeId fill.leavesQty id = none →
      fill.leavesQty = 0 ∧ fill.exchangeId = id := by
    intro fill h
    by_cases hid : id = fill.exchangeId
    · subst hid
      rw [OrderLedger.setOpen_self] at h
      split_ifs at h with h0
      · exact ⟨h0, rfl⟩
      · exact absurd (Option.map_eq_none_iff.mp h) hA
    · rw [OrderLedger.setOpen_of_ne hid] at h
      exact absurd h hA
  have hdrop : ∀ {id'}, A.drop id' id = none → id' = id := by
    intro id' h
    by_contra hid
    rw [Ledger.drop_of_ne (Ne.symm hid)] at h
    exact hA h
  cases t with
  | fillRouting fill | fillOrders fill session =>
    obtain ⟨h0, hid⟩ := hfill h
    refine Or.inl ?_
    rw [Task.closes, if_pos h0, hid]
  | fillDone | onOrderRested => exact absurd h hA
  | onCancel req found =>
    simp only [Task.onActive] at h
    split_ifs at h with hfound
    · refine Or.inl ?_
      rw [Task.closes, if_pos hfound, hdrop h]
    · exact absurd h hA
  | onTIFCancel order => exact Or.inl (congrArg some (hdrop h))
  | onReplace req found newLeavesQty =>
    simp only [Task.onActive] at h
    split_ifs at h with hfound h0
    · subst hfound h0
      exact Or.inr ⟨req, rfl, hdrop h⟩
    · by_cases hid : id = req.origOrderId
      · subst hid
        rw [Ledger.adjust_self] at h
        exact absurd (Option.map_eq_none_iff.mp h) hA
      · rw [Ledger.adjust_of_ne hid] at h
        exact absurd h hA
    · exact absurd h hA

lemma exists_of_settle_eq_none (h : settle ts A id = none) (hA : A id ≠ none) :
    ∃ t ∈ ts, t.closes = some id ∨ ∃ req, t = .onReplace req true 0 ∧ req.origOrderId = id := by
  induction ts generalizing A with
  | nil => exact absurd h hA
  | cons t ts ih =>
    rw [settle_cons] at h
    by_cases ht : t.onActive A id = none
    · exact ⟨t, List.mem_cons_self, Task.closes_of_onActive ht hA⟩
    · obtain ⟨t', ht', hends⟩ := ih h ht
      exact ⟨t', List.mem_cons_of_mem _ ht', hends⟩

/-- A notice about a replace comes from the call about it, when its order is open. -/
lemma Task.replaced_of_notices {req : ReplaceRequest} {n : ℤ} {p : Price}
    (h : .replaced req n p ∈ t.notices A) :
    t = .onReplace req true n ∧ A req.origOrderId ≠ none := by
  cases t with
  | onReplace req' found n' =>
    simp only [Task.notices] at h
    split_ifs at h with hfound
    · obtain ⟨o, ho, heq⟩ := List.mem_map.mp h
      obtain ⟨rfl, rfl, -⟩ := Notice.replaced.inj heq
      rw [hfound]
      exact ⟨rfl, fun hn => absurd (hn.symm.trans (Option.mem_toList.mp ho)) (by simp)⟩
    · exact absurd h List.not_mem_nil
  | onCancel req' found =>
    simp only [Task.notices] at h
    split_ifs at h
    · obtain ⟨o, -, heq⟩ := List.mem_map.mp h
      exact absurd heq (by simp)
    · exact absurd h List.not_mem_nil
  | _ => exact absurd h (by simp [Task.notices])

lemma mem_of_replaced {req : ReplaceRequest} {n : ℤ} {p : Price}
    (h : .replaced req n p ∈ noticesOf ts A) : .onReplace req true n ∈ ts := by
  induction ts generalizing A with
  | nil => exact absurd h List.not_mem_nil
  | cons t ts ih =>
    rw [noticesOf_cons] at h
    rcases List.mem_append.mp h with h | h
    · rw [(Task.replaced_of_notices h).1]
      exact List.mem_cons_self
    · exact List.mem_cons_of_mem _ (ih h)

end

/-! ## Items that a book carries through -/

/-- The last fill leaves of the taker what is left of it. -/
lemma Executes.exists_last {id : String} {left : ℤ} {L L' : OrderLedger} {fs : List FillPair}
    (h : Executes id left L fs L') (hne : fs ≠ []) :
    ∃ f ∈ fs, f.taker.exchangeId = id ∧ f.taker.leavesQty = left := by
  induction h with
  | nil => exact absurd rfl hne
  | @cons L L' f fs m maker symbol side nonneg taker exhausted last rest ih =>
    by_cases hnil : fs = []
    · exact ⟨f, List.mem_cons_self, taker, last hnil⟩
    · obtain ⟨f', hf', hlast⟩ := ih hnil
      exact ⟨f', List.mem_cons_of_mem _ hf', hlast⟩

/-- A fill that leaves nothing of an order reports its end. -/
lemma exists_closes_of_fill {fs : List FillPair} {f : FillPair} (hf : f ∈ fs) {fill : Fill}
    (hfill : fill = f.maker ∨ fill = f.taker) (h0 : fill.leavesQty = 0) :
    ∃ t ∈ fillTasks fs, t.closes = some fill.exchangeId := by
  refine ⟨.fillRouting fill, ?_, by rw [Task.closes, if_pos h0]⟩
  refine List.mem_flatMap.mpr ⟨_, OrderBook.mem_fillCallbacks.mpr ⟨f, hf, rfl⟩, ?_⟩
  rcases hfill with rfl | rfl <;> simp [Callback.tasks]

namespace OrderBook

variable {b : OrderBook} {o : Order} {item : WorkItem} {id : String}

/-- A book carries an item through.  What a new order cannot trade rests, or is cancelled by
its time in force, unless there is enough to trade with; a replace that finds its order finds
enough to fill it, too. -/
def CarriesThrough (b : OrderBook) : WorkItem → Prop
  | .order o => 0 < o.qty ∧ (o.type = '2' ∨ o.tif = '3' ∨
      (o.tif = '4' ∧ (o.type = '1' ∨ b.availableToFill o < o.qty)) ∨
      o.qty ≤ openQty (o.reachable (b.toFlat.opposite o)))
  | .cancel _ => True
  | .replace req => (∃ n ∈ b.nodes, n.order.exchangeId = req.origOrderId) →
      0 < req.newQty ∧ b.FillsOnReplace req

instance (b : OrderBook) (item : WorkItem) : Decidable (b.CarriesThrough item) :=
  match item with
  | .order _ => inferInstanceAs (Decidable (_ ∧ _))
  | .cancel _ => isTrue trivial
  | .replace req =>
    inferInstanceAs (Decidable ((∃ n ∈ b.nodes, n.order.exchangeId = req.origOrderId) → _ ∧ _))

/-- An order of which nothing is left has a fill that says so. -/
lemma Regular.exists_last_fill (h : b.Regular) (hfresh : b.Fresh o.exchangeId) (hq : 0 < o.qty)
    (hv : (b.add o).value = 0) : ∃ f ∈ (b.add o).fills, f.taker.exchangeId = o.exchangeId ∧
      f.taker.leavesQty = 0 := by
  obtain ⟨L, hfills, -⟩ := h.add_executes hfresh
  have hne : (b.add o).fills ≠ [] := fun hnil =>
    hq.ne' ((add_value_of_no_fills h.inv.wf hnil).symm.trans hv)
  obtain ⟨f, hf, htaker, hleaves⟩ := hfills.exists_last hne
  exact ⟨f, hf, htaker, hleaves.trans hv⟩

/-- An order that is carried through without a time in force leaves nothing, or rests. -/
lemma add_value_of_carries (h : b.Inv) (hc : b.CarriesThrough (.order o)) (h3 : o.tif ≠ '3')
    (hkill : o.tif = '4' → ¬ b.availableToFill o < o.qty) :
    (b.add o).value = 0 ∨ o.type = '2' ∧ o.tif ≠ '4' := by
  obtain ⟨hq, hc⟩ := hc
  have habsorbed : o.qty ≤ openQty (o.reachable (b.toFlat.opposite o)) → (b.add o).value = 0 := by
    intro hle
    rw [add_value_eq h.wf, matchList_exhausted_iff hq.le]
    refine ⟨(o.reachable (b.toFlat.opposite o)).length, ?_⟩
    rw [Order.reachable_withLeaves, List.take_length]
    exact hle
  by_cases h4 : o.tif = '4'
  · refine Or.inl ?_
    rcases hc with h2 | h3' | ⟨-, h1 | hlt⟩ | hle
    · exact add_value_of_available h (Or.inr h2) hq.le (hkill h4)
    · exact absurd h3' h3
    · exact add_value_of_available h (Or.inl h1) hq.le (hkill h4)
    · exact absurd hlt (hkill h4)
    · exact habsorbed hle
  · rcases hc with h2 | h3' | ⟨h4', -⟩ | hle
    · exact Or.inr ⟨h2, h4⟩
    · exact absurd h3' h3
    · exact absurd h4' h4
    · exact Or.inl (habsorbed hle)

/-- **A new order that is carried through** rests, or its end is reported. -/
lemma Regular.order_carried (h : b.Regular) (hfresh : b.Fresh o.exchangeId)
    (hc : b.CarriesThrough (.order o)) :
    (∃ n ∈ (processIn b (.order o)).1.nodes, n.order.exchangeId = o.exchangeId) ∨
      ∃ t ∈ (processIn b (.order o)).2.flatMap Callback.tasks,
        t.closes = some o.exchangeId := by
  have hq : 0 < o.qty := hc.1
  have hfilled : ∀ last, (b.add o).value = 0 →
      ∃ t ∈ (fillCallbacks (b.add o).fills ++ last).flatMap Callback.tasks,
        t.closes = some o.exchangeId := by
    intro last hv
    obtain ⟨f, hf, hid, h0⟩ := h.exists_last_fill hfresh hq hv
    obtain ⟨t, ht, hcloses⟩ := exists_closes_of_fill hf (Or.inr rfl) h0
    rw [hid] at hcloses
    rw [List.flatMap_append]
    exact ⟨t, List.mem_append_left _ ht, hcloses⟩
  have hkilled : ∀ fs n, ∃ t ∈ (fs ++ [Callback.onTIFCancel (o.withLeaves n)]).flatMap
      Callback.tasks, t.closes = some o.exchangeId := by
    intro fs n
    rw [List.flatMap_append]
    exact ⟨.onTIFCancel (o.withLeaves n), List.mem_append_right _ List.mem_cons_self, rfl⟩
  rw [processIn]
  by_cases h4 : o.tif = '4'
  · rw [processOrder_fok h4]
    split_ifs with havail
    · exact Or.inr (hkilled [] o.qty)
    · have hv := (add_value_of_carries h.inv hc (by rw [h4]; decide)
        fun _ => havail).resolve_right fun hr => hr.2 h4
      have hends := hfilled [] hv
      rw [List.append_nil] at hends
      exact Or.inr hends
  · by_cases h3 : o.tif = '3'
    · rw [processOrder_ioc h3]
      by_cases hv : (b.add o).value > 0
      · rw [if_pos hv]
        exact Or.inr (hkilled _ _)
      · have hnonneg := add_value_nonneg h.inv.wf hq.le
        exact Or.inr (hfilled _ (by omega))
    · rw [processOrder_rest h4 h3]
      rcases add_value_of_carries h.inv hc h3 fun h4' => absurd h4' h4 with hv | ⟨h2, -⟩
      · exact Or.inr (hfilled _ hv)
      · have hnonneg := add_value_nonneg h.inv.wf hq.le
        rcases hnonneg.lt_or_eq with hv | hv
        · obtain ⟨n, hn, ho⟩ := add_rests h.inv.wf hv h2 h3
          exact Or.inl ⟨n, hn, by rw [ho]; rfl⟩
        · exact Or.inr (hfilled _ hv.symm)

/-- **A replace that finds its order and is carried through** fills it. -/
lemma Regular.replace_carried (h : b.Regular) {req : ReplaceRequest}
    (hc : b.CarriesThrough (.replace req)) {n : Node} (hn : n ∈ b.nodes)
    (hid : n.order.exchangeId = req.origOrderId) :
    ∃ t ∈ fillTasks (b.replace req.origOrderId req.newPrice req.newQty).fills,
      t.closes = some req.origOrderId := by
  obtain ⟨hq, m, hm, hmid, hne, hle⟩ := hc ⟨n, hn, hid⟩
  rcases h.inv.wf.replace_eq req.origOrderId req.newPrice req.newQty with
    ⟨hnone, -⟩ | ⟨m', hm', hmid', ⟨hp, hlt, -⟩ | ⟨-, hr⟩⟩
  · exact absurd hmid ((h.inv.keyed.lookup_eq_none_iff h.inv.wf).mp hnone m hm)
  · obtain rfl := h.inv.keyed.eq_of_id hm hm' (hmid.trans hmid'.symm)
    exact absurd ⟨hp, hlt⟩ hne
  · obtain rfl := h.inv.keyed.eq_of_id hm hm' (hmid.trans hmid'.symm)
    have hreg := h.unlink hm
    have hfresh := h.inv.keyed.fresh_unlink h.inv.wf hm
    set o : Order := { m.order with price := req.newPrice, qty := req.newQty } with ho
    have hv : ((b.unlink m.order.exchangeId m.addr m.order.price m.order.side).add o).value
        = 0 := by
      rw [add_value (o := o) hreg.inv (Or.inr (h.inv.wf.limit m hm)) hq.le,
        availableExact_unlink]
      · exact max_eq_left (sub_nonpos.mpr hle)
      · rfl
    obtain ⟨f, hf, hfid, h0⟩ := hreg.exists_last_fill (o := o) hfresh hq hv
    rw [hr, ← hmid]
    obtain ⟨t, ht, hcloses⟩ := exists_closes_of_fill hf (Or.inr rfl) h0
    rw [hfid] at hcloses
    exact ⟨t, ht, hcloses⟩

/-- **No order disappears** when an item is carried through: it rests, or its end is reported. -/
theorem Regular.carried (h : b.Regular) (hitem : b.Accepts item) (hc : b.CarriesThrough item)
    (hid : (∃ m ∈ b.nodes, m.order.exchangeId = id) ∨ ∃ o, item = .order o ∧ o.exchangeId = id) :
    (∃ n ∈ (processIn b item).1.nodes, n.order.exchangeId = id) ∨
      ∃ t ∈ (processIn b item).2.flatMap Callback.tasks, t.closes = some id := by
  rcases hid with ⟨m, hm, rfl⟩ | ⟨o, rfl, rfl⟩
  · by_cases hne : m.order.exchangeId = item.id
    · cases item with
      | order o => exact absurd hne (hitem o rfl m hm)
      | cancel req =>
        refine Or.inr ⟨.onCancel req true, ?_, congrArg some hne.symm⟩
        rw [processIn, processCancel]
        rcases h.inv.wf.cancel_eq req.origOrderId with ⟨hnone, -⟩ | ⟨m', -, -, hr⟩
        · exact absurd hne ((h.inv.keyed.lookup_eq_none_iff h.inv.wf).mp hnone m hm)
        · rw [hr]
          exact List.mem_cons_self
      | replace req =>
        obtain ⟨t, ht, hcloses⟩ := h.replace_carried hc hm hne
        rw [processIn, processReplace, List.flatMap_append, hne]
        exact Or.inr ⟨t, List.mem_append_left _ ht, hcloses⟩
    · obtain ⟨fs, hfs, ⟨n, hn, ho⟩ | ⟨f, hf, hfid, -, hrest⟩⟩ := kept_processIn h.inv.wf hm hne
      · exact Or.inl ⟨n, hn, by rw [ho]⟩
      · by_cases h0 : f.maker.leavesQty = 0
        · refine Or.inr ⟨.fillRouting f.maker, ?_, by rw [Task.closes, if_pos h0, hfid]⟩
          exact List.mem_flatMap.mpr ⟨_, hfs f hf, List.mem_cons_self⟩
        · obtain ⟨n, hn, ho⟩ := hrest h0
          exact Or.inl ⟨n, hn, by rw [ho]; rfl⟩
  · exact h.order_carried (hitem o rfl) hc

/-- A replace that has found its order is called with that. -/
lemma found_of_onReplace (h : b.Wf) {req : ReplaceRequest} {n : ℤ}
    (ht : .onReplace req true n ∈ (processIn b item).2.flatMap Callback.tasks) :
    item = .replace req ∧ ∃ m ∈ b.nodes, m.order.exchangeId = req.origOrderId := by
  obtain ⟨cb, hcb, hmem⟩ := List.mem_flatMap.mp ht
  cases calls_processIn h hcb with
  | replaced req' found newLeavesQty =>
    obtain ⟨rfl, rfl, rfl⟩ := Task.onReplace.inj (List.mem_singleton.mp hmem)
    refine ⟨rfl, ?_⟩
    rcases h.replace_eq req.origOrderId req.newPrice req.newQty with ⟨-, hr⟩ | ⟨m, hm, hid, -⟩
    · rw [processIn, processReplace, hr] at hcb
      exact absurd hcb (by simp [fillCallbacks])
    · exact ⟨m, hm, hid⟩
  | added | matched => exact absurd hmem (by simp [Callback.tasks])
  | killed o leavesQty => exact absurd (List.mem_singleton.mp hmem) (by simp)
  | rested o leavesQty => exact absurd (List.mem_singleton.mp hmem) (by simp)
  | canceled req' found => exact absurd (List.mem_singleton.mp hmem) (by simp)

/-- The end of an order that a replace has changed is reported. -/
lemma Regular.closes_of_onReplace (h : b.Regular) (hc : b.CarriesThrough item)
    {req : ReplaceRequest} {n : ℤ}
    (ht : .onReplace req true n ∈ (processIn b item).2.flatMap Callback.tasks) :
    ∃ t ∈ (processIn b item).2.flatMap Callback.tasks, t.closes = some req.origOrderId := by
  obtain ⟨rfl, m, hm, hid⟩ := found_of_onReplace h.inv.wf ht
  obtain ⟨t, ht, hcloses⟩ := h.replace_carried hc hm hid
  rw [processIn, processReplace, List.flatMap_append]
  exact ⟨t, List.mem_append_left _ ht, hcloses⟩

/-- **No replace is passed on** when an item is carried through: the order is not open any more
when the gateway is called. -/
theorem Regular.unreplaced (h : b.Regular) (hc : b.CarriesThrough item) {A : OrderLedger}
    {req : ReplaceRequest} {n : ℤ} {p : Price} :
    .replaced req n p ∉ noticesOf ((processIn b item).2.flatMap Callback.tasks) A := by
  intro hmem
  obtain ⟨rfl, m, hm, hid⟩ := found_of_onReplace h.inv.wf (mem_of_replaced hmem)
  obtain ⟨t, ht, hcloses⟩ := h.replace_carried hc hm hid
  rw [processIn, processReplace, noticesOf_calls, noticesOf_fillTasks] at hmem
  rcases List.mem_append.mp hmem with hmem | hmem
  · obtain ⟨f, -, heq⟩ := List.mem_map.mp hmem
    exact absurd heq (by simp)
  · simp only [List.flatMap_cons, List.flatMap_nil, Callback.tasks, List.append_nil,
      noticesOf_cons, noticesOf_nil] at hmem
    exact (Task.replaced_of_notices hmem).2 (settle_of_closes ht hcloses)

end OrderBook

namespace System

variable {s s' : System} {a : Action}

/-- The item that the engine takes from the queue is carried through. -/
def CarriesThrough (s : System) : Action → Prop
  | .engine =>
    match s.tasks, s.queue with
    | [], item :: _ => ∀ b ∈ s.engine.books.lookup item.symbol, b.CarriesThrough item
    | _, _ => True
  | _ => True

lemma carriesThrough_engine : s.CarriesThrough .engine ↔ (s.tasks = [] →
    ∀ item ∈ s.queue.head?, ∀ b ∈ s.engine.books.lookup item.symbol, b.CarriesThrough item) := by
  rw [CarriesThrough]
  cases s.tasks <;> cases s.queue <;> simp

instance (s : System) (a : Action) : Decidable (s.CarriesThrough a) :=
  match a with
  | .engine => decidable_of_iff _ carriesThrough_engine.symm
  | .message _ _ | .logon _ | .handle | .persist | .registerSymbol _ => isTrue trivial

lemma CarriesThrough.item (h : s.CarriesThrough .engine) (ht : s.tasks = []) {item : WorkItem}
    {queue : List WorkItem} (hq : s.queue = item :: queue) {b : OrderBook}
    (hb : s.engine.books.lookup item.symbol = some b) : b.CarriesThrough item := by
  rw [CarriesThrough, ht, hq] at h
  exact h b hb

/-- What holds in the runs whose items are carried through. -/
structure Carried (s : System) : Prop where
  positive : ∀ sym b, s.engine.books.lookup sym = some b → b.Positive
  accounted : s.Accounted
  /-- What rests or is on its way to the engine is open. -/
  listed : ∀ id, (restingLedger s.engine.books id ≠ none ∨
    ∃ o, .order o ∈ s.coming ∧ o.exchangeId = id) → s.openOrders id ≠ none
  /-- No replace will be passed on. -/
  unreplaced : ∀ req n p, .replaced req n p ∉ noticesOf s.tasks s.gateway.active

lemma carried_start (cfg : Config) : (start cfg).Carried := by
  refine ⟨(synced_start cfg).positive, accounted_start cfg, fun id hid => ?_, fun req n p hmem =>
    absurd hmem List.not_mem_nil⟩
  rcases hid with hid | ⟨o, ho, -⟩
  · obtain ⟨o, ho⟩ := Option.ne_none_iff_exists'.mp hid
    obtain ⟨a, ha, -⟩ := (synced_start cfg).agrees id o ho
    rw [ha]
    simp
  · simp [coming, start, nextItem] at ho

/-- Taking an item that is carried through accounts for every open order. -/
lemma Carried.take_accounted (h : s.Carried) (hf : s.Founded) {item : WorkItem}
    {queue : List WorkItem} {b : OrderBook} (ht : s.tasks = []) (hq : s.queue = item :: queue)
    (hb : s.engine.books.lookup item.symbol = some b) (hc : b.CarriesThrough item) :
    ({ s with
      engine := { s.engine with books := s.engine.books.insert item.symbol (processIn b item).1 }
      queue := queue
      tasks := (processIn b item).2.flatMap Callback.tasks } : System).Accounted := by
  have hmem : item ∈ s.queue := by rw [hq]; exact List.mem_cons_self
  have hreg := hf.regular hb (h.positive _ b hb)
  have hf' := hf.take hq hb
  intro id hopen
  -- an order of the book or of the item that is still open rests
  have hkept : ((∃ m ∈ b.nodes, m.order.exchangeId = id) ∨
      ∃ o, item = .order o ∧ o.exchangeId = id) →
      restingLedger (s.engine.books.insert item.symbol (processIn b item).1) id ≠ none := by
    intro hid
    rcases hreg.carried (hf.accepts hmem hb) hc hid with ⟨n, hn, hnid⟩ | ⟨t, ht', hcloses⟩
    · exact hf'.resting_iff.mpr ⟨_, _, AList.lookup_insert _, n, hn, hnid⟩
    · exact absurd (settle_of_closes ht' hcloses) hopen
  have hactive : s.openOrders id ≠ none := by
    rw [openOrders_of_no_tasks ht]
    exact fun hnone => hopen (settle_eq_none hnone)
  rcases h.accounted id hactive with hrests | ⟨o, ho, rfl⟩
  · obtain ⟨sym, b', hb', n, hn, hid⟩ := hf.resting_iff.mp hrests
    by_cases hsym : sym = item.symbol
    · subst hsym
      obtain rfl := Option.some.inj (hb.symm.trans hb')
      exact Or.inl (hkept (Or.inl ⟨n, hn, hid⟩))
    · refine Or.inl (hf'.resting_iff.mpr ⟨sym, b', ?_, n, hn, hid⟩)
      exact (AList.lookup_insert_ne hsym).trans hb'
  · rw [coming, hq] at ho
    rcases List.mem_cons.mp ho with ho | ho
    · exact Or.inl (hkept (Or.inr ⟨o, ho.symm, rfl⟩))
    · exact Or.inr ⟨o, ho, rfl⟩

/-- Taking an item that is carried through keeps open what rests. -/
lemma Carried.take_listed (h : s.Carried) (hf : s.Founded) {item : WorkItem}
    {queue : List WorkItem} {b : OrderBook} (ht : s.tasks = []) (hq : s.queue = item :: queue)
    (hb : s.engine.books.lookup item.symbol = some b) (hc : b.CarriesThrough item) {id : String}
    (hid : restingLedger (s.engine.books.insert item.symbol (processIn b item).1) id ≠ none ∨
      ∃ o, .order o ∈ queue ++ (nextItem s.handler).toList ∧ o.exchangeId = id) :
    settle ((processIn b item).2.flatMap Callback.tasks) s.gateway.active id ≠ none := by
  have hmem : item ∈ s.queue := by rw [hq]; exact List.mem_cons_self
  have hreg := hf.regular hb (h.positive _ b hb)
  have hf' := hf.take hq hb
  have hclosing := Closing.take hf hq hb
  have hopen : s.gateway.active id ≠ none := by
    rw [← openOrders_of_no_tasks ht]
    refine h.listed id ?_
    rcases hid with hid | ⟨o, ho, rfl⟩
    · obtain ⟨sym, b', hb', n, hn, rfl⟩ := hf'.resting_iff.mp hid
      rcases lookup_processed hb' with ⟨rfl, rfl⟩ | ⟨-, hold⟩
      · rcases (hf.processed_orders hb hn).2 with ⟨o, rfl, heq⟩ | ⟨m, hm, heq⟩
        · exact Or.inr ⟨o, mem_coming_of_queue hmem, heq.symm⟩
        · exact Or.inl (hf.resting_iff.mpr ⟨_, b, hb, m, hm, heq.symm⟩)
      · exact Or.inl (hf.resting_iff.mpr ⟨sym, b', hold, n, hn, rfl⟩)
    · refine Or.inr ⟨o, ?_, rfl⟩
      rw [coming, hq]
      exact List.mem_cons_of_mem _ ho
  intro hnone
  -- some task reports the end of the order, although it rests or is to come
  have hends : ∃ t ∈ (processIn b item).2.flatMap Callback.tasks, t.closes = some id := by
    obtain ⟨t, htmem, hcloses | ⟨req, rfl, rfl⟩⟩ := exists_of_settle_eq_none hnone hopen
    · exact ⟨t, htmem, hcloses⟩
    · exact hreg.closes_of_onReplace hc htmem
  obtain ⟨t, htmem, hcloses⟩ := hends
  rcases hid with hid | ⟨o, ho, rfl⟩
  · obtain ⟨sym, b', hb', n, hn, hnid⟩ := hf'.resting_iff.mp hid
    exact hclosing.gone t htmem id hcloses sym b' hb' n hn hnid
  · rcases List.mem_append.mp ho with ho | ho
    · exact hclosing.queued t htmem _ hcloses o ho rfl
    · rcases nextItem_cases (Option.mem_toList.mp ho) with ⟨o', hh, heq⟩ | ⟨-, hne⟩
      · obtain rfl := WorkItem.order.inj heq
        have hpending : s.handler.pending = some o := by rw [hh]; rfl
        exact (hf'.tasks t htmem _ (Task.mem_ids_of_closes hcloses)).2 o hpending rfl
      · exact hne o rfl

/-- A step that leaves the books, the open orders and the notices as they are, and brings in no
order. -/
lemma Carried.of_same (h : s.Carried) (haccounted : s'.Accounted)
    (hbooks : ∀ sym b, s'.engine.books.lookup sym = some b → b.Positive)
    (hledger : restingLedger s'.engine.books = restingLedger s.engine.books)
    (hopen : s'.openOrders = s.openOrders)
    (hcoming : ∀ o, .order o ∈ s'.coming → .order o ∈ s.coming)
    (hnotices : ∀ n ∈ noticesOf s'.tasks s'.gateway.active,
      n ∈ noticesOf s.tasks s.gateway.active) : s'.Carried := by
  refine ⟨hbooks, haccounted, fun id hid => ?_, fun req n p hmem =>
    h.unreplaced req n p (hnotices _ hmem)⟩
  rw [hopen]
  refine h.listed id ?_
  rw [hledger] at hid
  refine hid.imp_right ?_
  rintro ⟨o, ho, rfl⟩
  exact ⟨o, hcoming o ho, rfl⟩

/-- **One step** that carries its item through keeps the invariant. -/
theorem Carried.step (h : s.Carried) (hs : s.Sound) (hc : s.CarriesThrough a)
    (hstep : s.step a = some s') : s'.Carried := by
  have hf := hs.founded
  have haccounted : s'.Accounted := by
    refine h.accounted.step hf (hs.taskSettles a) (fun ha ht hq hb => ?_) hstep
    subst ha
    exact h.take_accounted hf ht hq hb (hc.item ht hq hb)
  cases a with
  | message msg session =>
    obtain ⟨hidle, rfl⟩ := step_message hstep
    have hcoming := coming_of_idle hidle
    rcases onMessage_cases s session msg with ⟨seq, sent, heq, -⟩ | ⟨m, o, -, -, heq⟩ |
        ⟨m, req, -, -, heq⟩ | ⟨m, req, -, -, heq⟩ <;> rw [heq] at haccounted ⊢
    all_goals
      refine h.of_same haccounted h.positive rfl rfl (fun o' ho' => ?_) fun n hn => hn
      rw [hcoming]
      simpa [coming, nextItem] using ho'
  | logon session =>
    obtain ⟨-, rfl⟩ := step_logon hstep
    exact h.of_same haccounted h.positive rfl rfl (fun o ho => ho) fun n hn => hn
  | handle =>
    rcases handle_cases hstep with ⟨o, session, hh, rfl⟩ | ⟨o, session, hh, rfl⟩ |
        ⟨item, hitem, rfl⟩
    · refine h.of_same haccounted h.positive rfl rfl (fun o' ho' => ?_) fun n hn => hn
      simpa [coming, nextItem, hh] using ho'
    · obtain ⟨hopen, hnotices⟩ := openOrders_activate hf hh
      refine ⟨h.positive, haccounted, fun id hid => ?_, fun req n p hmem =>
        h.unreplaced req n p (hnotices ▸ hmem)⟩
      show settle s.tasks ((s.gateway.activateOrder o).ackOrder o session).active id ≠ none
      rw [hopen]
      by_cases heq : id = o.exchangeId
      · rw [heq, Ledger.put_self]
        simp
      · rw [Ledger.put_of_ne heq]
        refine h.listed id (hid.imp_right ?_)
        rintro ⟨o', ho', rfl⟩
        rcases List.mem_append.mp ho' with ho' | ho'
        · exact ⟨o', List.mem_append_left _ ho', rfl⟩
        · obtain rfl := WorkItem.order.inj (Option.some.inj (Option.mem_toList.mp ho'))
          exact absurd rfl heq
    · refine h.of_same haccounted h.positive rfl rfl (fun o ho => ?_) fun n hn => hn
      rw [coming_of_idle rfl] at ho
      rw [coming, hitem]
      exact ho
  | engine =>
    rcases engineStep_cases hstep with ⟨t, ts, ht, rfl⟩ | ⟨ht, item, queue, b, hq, hb, rfl⟩
    · refine h.of_same haccounted h.positive rfl (openOrders_task (hs.taskSettles _) ht)
        (fun o ho => ho) fun n hn => ?_
      have hcov := hs.maps.covered
      rw [ht] at hcov ⊢
      rw [noticesOf_cons, ← (FixGateway.runTask_runsTo hcov).notices]
      exact List.mem_append_right _ hn
    · have hitem := hc.item ht hq hb
      have hreg := hf.regular hb (h.positive _ b hb)
      refine ⟨fun sym b' hb' => ?_, haccounted, fun id hid => ?_, fun req n p =>
        hreg.unreplaced hitem⟩
      · rcases lookup_processed hb' with ⟨-, rfl⟩ | ⟨-, hb'⟩
        · refine hreg.inv.positive.processIn hreg.inv.wf ?_
          rintro req rfl hfound
          exact (hitem hfound).1
        · exact h.positive sym b' hb'
      · exact h.take_listed hf ht hq hb hitem hid
  | persist =>
    obtain ⟨p, p', -, -, rfl⟩ := step_persist hstep
    exact h.of_same haccounted h.positive rfl rfl (fun o ho => ho) fun n hn => hn
  | registerSymbol symbol =>
    have hledger := resting_registerSymbol hf hstep
    obtain ⟨e, he, rfl⟩ := step_registerSymbol hstep
    refine h.of_same haccounted (fun sym b hb => ?_) hledger rfl (fun o ho => ho) fun n hn => hn
    rcases (MatchingEngine.registerSymbol_books he).1 sym with hsame | ⟨-, -, hnew⟩
    · exact h.positive sym b (hsame.symm.trans hb)
    · obtain rfl := Option.some.inj (hb.symm.trans hnew)
      simp [OrderBook.Positive, OrderBook.init, OrderBook.nodes]

/-- **Every run whose items are carried through** keeps the invariant. -/
theorem carried_of_run {cfg : Config} {ok : System → Action → Prop} {as : List Action}
    (hok : ∀ s a, ok s a → s.CarriesThrough a) (h : RunTo cfg ok as s) : s.Carried :=
  h.invariant (carried_start cfg) fun _ _ _ _ hrun hs hoka hstep =>
    hs.step (sound_of_run hrun) (hok _ _ hoka) hstep

end System

end FixExchange
