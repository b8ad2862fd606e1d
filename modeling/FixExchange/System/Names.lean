/-
# The client's ids of the orders

Each order has one exchange id and the one `ClOrdID` of its `NewOrderSingle` (`Order.name`).
As long as no replace is passed on, everything that the exchange holds about an order has these
two ids (`Named`), and the map from client ids to exchange ids has exactly the open orders in
it, up to the sections of the threads (`Routed`).
-/
import FixExchange.System.Carried
import FixExchange.System.Protocol

namespace FixExchange

/-- The exchange id of an order, with the id that its client has given it. -/
def Order.name (o : Order) : String × String := (o.exchangeId, o.clordId)

@[inherit_doc Order.name]
def Fill.name (f : Fill) : String × String := (f.exchangeId, f.clordId)

lemma Fill.Of.name {f : Fill} {o : Order} (h : f.Of o) : f.name = o.name :=
  Prod.ext h.exchangeId h.clordId

/-- The orders that a task is about have these names. -/
def Task.Named (own : Set (String × String)) : Task → Prop
  | .fillRouting fill | .fillOrders fill _ => fill.name ∈ own
  | .onTIFCancel o => o.name ∈ own
  | .fillDone _ _ | .onCancel _ _ | .onReplace _ _ _ | .onOrderRested _ _ => True

lemma Task.Named.mono {t : Task} {own own' : Set (String × String)} (h : t.Named own)
    (hsub : own ⊆ own') : t.Named own' := by
  cases t <;> first | exact hsub h | trivial

section

variable {A : OrderLedger} {t : Task} {id : String}

/-- A task keeps the name of an order, unless it passes a replace on. -/
lemma Task.name_of_onActive {o' : Order} (h : t.onActive A id = some o')
    (hun : ∀ req n p, .replaced req n p ∉ t.notices A) : ∃ o, A id = some o ∧ o'.name = o.name := by
  have hset : ∀ {k : String} {n : ℤ}, A.setOpen k n id = some o' →
      ∃ o, A id = some o ∧ o'.name = o.name := by
    intro k n h
    by_cases hk : id = k
    · subst hk
      rw [OrderLedger.setOpen_self] at h
      split_ifs at h
      obtain ⟨o, ho, rfl⟩ := Option.map_eq_some_iff.mp h
      exact ⟨o, ho, rfl⟩
    · rw [OrderLedger.setOpen_of_ne hk] at h
      exact ⟨o', h, rfl⟩
  have hdrop : ∀ {k : String}, A.drop k id = some o' → ∃ o, A id = some o ∧ o'.name = o.name := by
    intro k h
    by_cases hk : id = k
    · rw [hk, Ledger.drop_self] at h
      exact absurd h (by simp)
    · rw [Ledger.drop_of_ne hk] at h
      exact ⟨o', h, rfl⟩
  cases t with
  | fillRouting fill | fillOrders fill session => exact hset h
  | fillDone | onOrderRested => exact ⟨o', h, rfl⟩
  | onCancel req found =>
    simp only [Task.onActive] at h
    split_ifs at h
    · exact hdrop h
    · exact ⟨o', h, rfl⟩
  | onTIFCancel order => exact hdrop h
  | onReplace req found newLeavesQty =>
    simp only [Task.onActive] at h
    split_ifs at h with hfound
    · exact hdrop h
    · by_cases hk : id = req.origOrderId
      · subst hk
        rw [Ledger.adjust_self] at h
        obtain ⟨o, ho, rfl⟩ := Option.map_eq_some_iff.mp h
        refine absurd ?_ (hun req newLeavesQty o.price)
        rw [Task.notices, if_pos hfound, ho]
        exact List.mem_cons_self
      · rw [Ledger.adjust_of_ne hk] at h
        exact ⟨o', h, rfl⟩
    · exact ⟨o', h, rfl⟩

end

namespace System

variable {s s' : System} {a : Action} {own own' : Set (String × String)}

/-- Everything that the exchange holds about an order has the name of the order. -/
structure Named (s : System) (own : Set (String × String)) : Prop where
  resting : ∀ sym b, s.engine.books.lookup sym = some b → ∀ n ∈ b.nodes, n.order.name ∈ own
  incoming : ∀ o, s.Incoming o → o.name ∈ own
  active : ∀ id o, s.gateway.active id = some o → o.name ∈ own
  tasks : ∀ t ∈ s.tasks, t.Named own

lemma Named.mono (h : s.Named own) (hsub : own ⊆ own') : s.Named own' :=
  ⟨fun sym b hb n hn => hsub (h.resting sym b hb n hn), fun o ho => hsub (h.incoming o ho),
    fun id o ho => hsub (h.active id o ho), fun t ht => (h.tasks t ht).mono hsub⟩

/-- The tasks of an item have the names of its order and of the orders of the book. -/
lemma named_processIn {b : OrderBook} (h : b.Wf) {item : WorkItem}
    (hbook : ∀ n ∈ b.nodes, n.order.name ∈ own) (hitem : ∀ o, item = .order o → o.name ∈ own)
    {t : Task} (ht : t ∈ (processIn b item).2.flatMap Callback.tasks) : t.Named own := by
  obtain ⟨cb, hcb, ht⟩ := List.mem_flatMap.mp ht
  have hfill : ∀ {maker taker : Fill}, maker.name ∈ own → taker.name ∈ own →
      t ∈ (Callback.onFill maker taker).tasks → t.Named own := by
    intro maker taker hmaker htaker ht
    rcases OrderBook.mem_onFill_tasks ht with rfl | rfl | rfl
    · exact hmaker
    · exact htaker
    · trivial
  cases OrderBook.calls_processIn h hcb with
  | added hmaker htaker =>
    obtain ⟨m, hm, hmaker⟩ := hmaker
    exact hfill (hmaker.name ▸ hbook m hm) (htaker.name ▸ hitem _ rfl) ht
  | matched hmaker htaker =>
    obtain ⟨m, hm, hmaker⟩ := hmaker
    obtain ⟨m', hm', -, htaker⟩ := htaker
    exact hfill (hmaker.name ▸ hbook m hm) (htaker.name ▸ hbook m' hm') ht
  | killed o leavesQty =>
    rw [List.mem_singleton.mp ht]
    exact hitem o rfl
  | rested | canceled | replaced =>
    rw [List.mem_singleton.mp ht]
    trivial

/-- An order of a book after a step has the name of an order that rested or was on its way. -/
lemma Named.resting_step (h : s.Named own) (hf : s.Founded) (hstep : s.step a = some s')
    {sym : String} {b : OrderBook} (hb : s'.engine.books.lookup sym = some b) {n : Node}
    (hn : n ∈ b.nodes) : n.order.name ∈ own := by
  obtain ⟨b₀, hb₀, ⟨m, hm, hleft⟩ | ⟨item, queue, -, hq, -, hnames⟩⟩ :=
    hf.mem_books_step hstep hb hn
  · rw [hleft.eq_withLeaves]
    exact h.resting sym b₀ hb₀ m hm
  · rcases hnames with ⟨o, rfl, ho, -⟩ | ⟨req, -, m, hm, -, ho⟩
    · rw [ho]
      refine h.incoming o (Or.inl ?_)
      rw [hq]
      exact List.mem_cons_self
    · rw [ho]
      exact h.resting sym b₀ hb₀ m hm

/-- **One step** keeps the names, when no replace is passed on. -/
lemma Named.step (h : s.Named own) (hf : s.Founded)
    (hun : ∀ req n p, .replaced req n p ∉ noticesOf s.tasks s.gateway.active)
    (hnew : ∀ o, s.AcceptsAs a o → o.name ∈ own) (hstep : s.step a = some s') : s'.Named own := by
  refine ⟨fun sym b hb n hn => h.resting_step hf hstep hb hn, fun o ho => ?_, ?_, ?_⟩
  · rcases incoming_step hstep ho with ho | ho
    · exact h.incoming o ho
    · exact hnew o ho
  · intro id o ho
    cases a with
    | message msg session =>
      obtain ⟨-, rfl⟩ := step_message hstep
      refine h.active id o ?_
      rcases onMessage_cases s session msg with ⟨seq, sent, heq, -⟩ | ⟨m, o, -, -, heq⟩ |
          ⟨m, req, -, -, heq⟩ | ⟨m, req, -, -, heq⟩ <;>
        rw [heq] at ho <;> exact ho
    | logon session =>
      obtain ⟨-, rfl⟩ := step_logon hstep
      exact h.active id o ho
    | handle =>
      rcases handle_cases hstep with ⟨o', session, -, rfl⟩ | ⟨o', session, hh, rfl⟩ |
          ⟨item, -, rfl⟩
      · exact h.active id o ho
      · rcases active_activateOrder ho with ho | ⟨-, rfl⟩
        · exact h.active id o ho
        · exact h.incoming o (Or.inr (by rw [hh]; rfl))
      · exact h.active id o ho
    | engine =>
      rcases engineStep_cases hstep with ⟨t, ts, ht, rfl⟩ | ⟨-, item, queue, b, -, -, rfl⟩
      · rw [ht] at hun
        rcases FixGateway.runTask_active s.gateway t with hsame | hsame
        · exact h.active id o (by rw [← hsame]; exact ho)
        · have ho : t.onActive s.gateway.active id = some o := by rw [← hsame]; exact ho
          obtain ⟨o₀, ho₀, hname⟩ := Task.name_of_onActive ho fun req n p hmem =>
            hun req n p (List.mem_append_left _ hmem)
          rw [hname]
          exact h.active id o₀ ho₀
      · exact h.active id o ho
    | persist =>
      obtain ⟨p, p', -, -, rfl⟩ := step_persist hstep
      exact h.active id o ho
    | registerSymbol symbol =>
      obtain ⟨e, -, rfl⟩ := step_registerSymbol hstep
      exact h.active id o ho
  · intro t ht
    cases a with
    | message msg session =>
      obtain ⟨-, rfl⟩ := step_message hstep
      exact h.tasks t ht
    | logon session =>
      obtain ⟨-, rfl⟩ := step_logon hstep
      exact h.tasks t ht
    | handle =>
      rcases handle_cases hstep with ⟨o', session, -, rfl⟩ | ⟨o', session, -, rfl⟩ |
          ⟨item, -, rfl⟩ <;> exact h.tasks t ht
    | engine =>
      rcases engineStep_cases hstep with ⟨t', ts, ht', rfl⟩ | ⟨-, item, queue, b, hq, hb, rfl⟩
      · rcases List.mem_append.mp ht with ht | ht
        · cases t' with
          | fillRouting fill =>
            simp only [FixGateway.runTask] at ht
            split at ht
            · exact absurd ht List.not_mem_nil
            · rw [List.mem_singleton.mp ht]
              exact h.tasks (.fillRouting fill) (by rw [ht']; exact List.mem_cons_self)
          | _ => exact absurd ht List.not_mem_nil
        · exact h.tasks t (by rw [ht']; exact List.mem_cons_of_mem _ ht)
      · refine named_processIn (hf.books.wf _ b hb) (h.resting _ b hb) (fun o ho => ?_) ht
        refine h.incoming o (Or.inl ?_)
        rw [hq, ho]
        exact List.mem_cons_self
    | persist =>
      obtain ⟨p, p', -, -, rfl⟩ := step_persist hstep
      exact h.tasks t ht
    | registerSymbol symbol =>
      obtain ⟨e, -, rfl⟩ := step_registerSymbol hstep
      exact h.tasks t ht

/-! ## The routing map -/

/-- No two orders share an id of either kind. -/
def Distinct (own : Set (String × String)) : Prop :=
  ∀ x ∈ own, ∀ y ∈ own, x.1 = y.1 ∨ x.2 = y.2 → x = y

/-- The client's id of every open order leads to the order, and no other id leads anywhere.  The
two maps are changed in different sections, by the handler of a new order and by the report of
the last fill. -/
structure Routed (s : System) : Prop where
  entry : ∀ c id, s.gateway.clordToExchange.lookup c = some id →
    (∃ o, s.gateway.active id = some o ∧ o.clordId = c) ∨
      ∃ o session, s.handler = .activate o session ∧ o.exchangeId = id ∧ o.clordId = c
  routed : ∀ id o, s.gateway.active id = some o →
    s.gateway.clordToExchange.lookup o.clordId = some id ∨
      ∃ fill session, .fillOrders fill session ∈ s.tasks ∧ fill.exchangeId = id ∧
        fill.leavesQty = 0
  pending : ∀ o session, s.handler = .activate o session →
    s.gateway.clordToExchange.lookup o.clordId = some o.exchangeId
  filled : ∀ fill session, .fillOrders fill session ∈ s.tasks → fill.leavesQty = 0 →
    ∀ c, s.gateway.clordToExchange.lookup c ≠ some fill.exchangeId

/-- A step that keeps both maps, and does not come from a handler that has entered an order in
one of them only. -/
lemma Routed.of_same (h : s.Routed) (hclord : s'.gateway.clordToExchange = s.gateway.clordToExchange)
    (hactive : s'.gateway.active = s.gateway.active) (htasks : ∀ fill session,
      .fillOrders fill session ∈ s'.tasks ↔ .fillOrders fill session ∈ s.tasks)
    (hhandler : ∀ o session, s'.handler = .activate o session ↔ s.handler = .activate o session) :
    s'.Routed := by
  refine ⟨?_, ?_, ?_, ?_⟩
  · simp only [hclord, hactive, hhandler]
    exact h.entry
  · simp only [hclord, hactive, htasks]
    exact h.routed
  · simp only [hclord, hhandler]
    exact h.pending
  · simp only [hclord, htasks]
    exact h.filled

/-- The id of an order that is being entered is not open. -/
lemma Founded.active_pending (hf : s.Founded) {o : Order} (ho : s.handler.pending = some o)
    (hsubmit : s.handler ≠ .submit o) : s.gateway.active o.exchangeId = none := by
  rw [Option.eq_none_iff_forall_ne_some]
  intro o' ho'
  obtain ⟨hid, hk | hk⟩ := hf.maps.active _ _ ho'
  · exact hk.2 o ho rfl
  · rw [hk] at ho
    obtain rfl := Option.some.inj ho
    exact hsubmit hk

lemma Routed.route (h : s.Routed) (hf : s.Founded) (hn : s.Named own) (hdist : Distinct own)
    {o : Order} {session : SessionID} (hh : s.handler = .route o session) :
    ({ s with
      gateway := s.gateway.routeOrder o session
      handler := .activate o session } : System).Routed := by
  have hpending : s.handler.pending = some o := by rw [hh]; rfl
  have hclosed := hf.active_pending hpending (by rw [hh]; simp)
  have hname : o.name ∈ own := hn.incoming o (Or.inr hpending)
  -- no open order has the client's id of the new one
  have hnone : s.gateway.clordToExchange.lookup o.clordId = none := by
    rw [Option.eq_none_iff_forall_ne_some]
    intro id hid
    rcases h.entry _ id hid with ⟨o', ho', hc⟩ | ⟨o', session', hh', -⟩
    · have heq := hdist _ (hn.active id o' ho') _ hname (Or.inr hc)
      have hid' := (hf.maps.active id o' ho').1
      rw [show o'.exchangeId = o.exchangeId from congrArg Prod.fst heq] at hid'
      rw [← hid', hclosed] at ho'
      exact absurd ho' (by simp)
    · exact absurd (hh.symm.trans hh') (by simp)
  have hinsert : StrMap.emplace s.gateway.clordToExchange o.clordId o.exchangeId
      = s.gateway.clordToExchange.insert o.clordId o.exchangeId :=
    if_neg fun hmem => AList.lookup_eq_none.mp hnone hmem
  refine ⟨fun c id hc => ?_, fun id o' ho' => ?_, fun o' session' hh' => ?_,
    fun fill session' ht h0 c hc => ?_⟩
  · rcases StrMap.lookup_emplace hc with hc | ⟨rfl, rfl⟩
    · rcases h.entry c id hc with hopen | ⟨o', session', hh', -⟩
      · exact Or.inl hopen
      · exact absurd (hh.symm.trans hh') (by simp)
    · exact Or.inr ⟨o, session, rfl, rfl, rfl⟩
  · exact (h.routed id o' ho').imp_left StrMap.lookup_emplace_of_some
  · obtain ⟨rfl, -⟩ := Handler.activate.inj hh'
    show (StrMap.emplace s.gateway.clordToExchange o.clordId o.exchangeId).lookup o.clordId
      = some o.exchangeId
    rw [hinsert, AList.lookup_insert]
  · rcases StrMap.lookup_emplace hc with hc | ⟨-, heq⟩
    · exact h.filled fill session' ht h0 c hc
    · exact (hf.tasks _ ht _ (List.mem_singleton.mpr rfl)).2 o hpending heq

lemma Routed.activate (h : s.Routed) (hf : s.Founded) {o : Order} {session : SessionID}
    (hh : s.handler = .activate o session) :
    ({ s with
      gateway := (s.gateway.activateOrder o).ackOrder o session
      handler := .submit o } : System).Routed := by
  have hpending : s.handler.pending = some o := by rw [hh]; rfl
  have hclosed := hf.active_pending hpending (by rw [hh]; simp)
  have hold : ∀ {id o'}, s.gateway.active id = some o' →
      ((s.gateway.activateOrder o).ackOrder o session).active id = some o' :=
    fun ho' => StrMap.lookup_emplace_of_some ho'
  have hnew : ((s.gateway.activateOrder o).ackOrder o session).active o.exchangeId = some o := by
    obtain ⟨o', ho'⟩ := Option.ne_none_iff_exists'.mp
      (StrMap.lookup_emplace_self s.gateway.activeOrders o.exchangeId o)
    rcases active_activateOrder ho' with hopen | ⟨-, rfl⟩
    · exact absurd (hclosed.symm.trans hopen) (by simp)
    · exact ho'
  refine ⟨fun c id hc => Or.inl ?_, fun id o' ho' => ?_, fun o' session' hh' => ?_, h.filled⟩
  · rcases h.entry c id hc with ⟨o', ho', hc'⟩ | ⟨o', session', hh', rfl, rfl⟩
    · exact ⟨o', hold ho', hc'⟩
    · obtain ⟨rfl, -⟩ := Handler.activate.inj (hh.symm.trans hh')
      exact ⟨o, hnew, rfl⟩
  · rcases active_activateOrder ho' with ho' | ⟨rfl, rfl⟩
    · exact h.routed id o' ho'
    · exact Or.inl (h.pending o' session hh)
  · exact absurd hh' (by simp)

/-- Both maps drop an order that the engine knows. -/
lemma Routed.drop (h : s.Routed) (hf : s.Founded) (hn : s.Named own) (hdist : Distinct own)
    {id c : String} (hname : (id, c) ∈ own) (hknown : s.Known id) {g : FixGateway}
    {t : Task} {ts : List Task} (ht : s.tasks = t :: ts)
    (htask : ∀ fill session, t ≠ .fillOrders fill session)
    (hclord : g.clordToExchange = s.gateway.clordToExchange.erase c)
    (hactive : g.active = s.gateway.active.drop id) :
    ({ s with
      gateway := g
      tasks := ts } : System).Routed := by
  have hopen : ∀ {id' o'}, g.active id' = some o' → id' ≠ id ∧ s.gateway.active id' = some o' := by
    intro id' o' ho'
    rw [hactive] at ho'
    have hne : id' ≠ id := by
      rintro rfl
      rw [Ledger.drop_self] at ho'
      exact absurd ho' (by simp)
    rw [Ledger.drop_of_ne hne] at ho'
    exact ⟨hne, ho'⟩
  have hmem : ∀ {fill session}, .fillOrders fill session ∈ ts → .fillOrders fill session ∈ s.tasks :=
    fun hm => by rw [ht]; exact List.mem_cons_of_mem _ hm
  have hnotmem : ∀ {fill session}, .fillOrders fill session ∈ s.tasks →
      .fillOrders fill session ∈ ts := by
    intro fill session hm
    rw [ht] at hm
    exact (List.mem_cons.mp hm).resolve_left fun heq => htask fill session heq.symm
  refine ⟨fun c' id' hc' => ?_, fun id' o' ho' => ?_, fun o' session' hh' => ?_,
    fun fill session' hm h0 c' hc' => ?_⟩
  · have hc' : (s.gateway.clordToExchange.erase c).lookup c' = some id' := hclord ▸ hc'
    have hne : c' ≠ c := by
      rintro rfl
      rw [AList.lookup_erase] at hc'
      exact absurd hc' (by simp)
    refine (h.entry c' id' (lookup_of_lookup_erase hc')).imp_left ?_
    rintro ⟨o', ho', rfl⟩
    refine ⟨o', ?_, rfl⟩
    show g.active id' = some o'
    rw [hactive, Ledger.drop_of_ne]
    · exact ho'
    · -- another client's id belongs to another order
      rintro rfl
      have heq := hdist _ (hn.active id' o' ho') _ hname (Or.inl (hf.maps.active id' o' ho').1)
      exact hne (congrArg Prod.snd heq)
  · obtain ⟨hne, ho'⟩ := hopen ho'
    rcases h.routed id' o' ho' with hc' | ⟨fill, session, hm, heq, h0⟩
    · refine Or.inl ?_
      show g.clordToExchange.lookup o'.clordId = some id'
      rw [hclord, AList.lookup_erase_ne]
      · exact hc'
      · intro hceq
        have heq := hdist _ (hn.active id' o' ho') _ hname (Or.inr hceq)
        exact hne ((hf.maps.active id' o' ho').1.symm.trans (congrArg Prod.fst heq))
    · exact Or.inr ⟨fill, session, hnotmem hm, heq, h0⟩
  · show g.clordToExchange.lookup o'.clordId = some o'.exchangeId
    rw [hclord, AList.lookup_erase_ne]
    · exact h.pending o' session' hh'
    · intro hceq
      have hpending : s.handler.pending = some o' := by rw [show s.handler = _ from hh']; rfl
      have heq := hdist _ (hn.incoming o' (Or.inr hpending)) _ hname (Or.inr hceq)
      exact hknown.2 o' hpending (congrArg Prod.fst heq).symm
  · have hc' : (s.gateway.clordToExchange.erase c).lookup c' = some fill.exchangeId := hclord ▸ hc'
    exact h.filled fill session' (hmem hm) h0 c' (lookup_of_lookup_erase hc')

/-- A task that leaves both maps as they are, and no other task. -/
lemma Routed.skip (h : s.Routed) {g : FixGateway} {t : Task} {ts : List Task}
    (ht : s.tasks = t :: ts) (htask : ∀ fill session, t ≠ .fillOrders fill session)
    (hclord : g.clordToExchange = s.gateway.clordToExchange)
    (hactive : g.active = s.gateway.active) : ({ s with
      gateway := g
      tasks := ts } : System).Routed := by
  refine h.of_same hclord hactive (fun fill session => ?_) fun o session => Iff.rfl
  rw [ht, List.mem_cons]
  exact ⟨Or.inr, fun hm => hm.resolve_left fun heq => htask fill session heq.symm⟩

/-- The first section of the report of a fill drops the client's id of a filled order. -/
lemma Routed.fillRouting (h : s.Routed) (hf : s.Founded) (hn : s.Named own)
    (hdist : Distinct own) {fill : Fill} {ts : List Task} (ht : s.tasks = .fillRouting fill :: ts) :
    ({ s with
      gateway := (s.gateway.runTask (.fillRouting fill)).1
      tasks := (s.gateway.runTask (.fillRouting fill)).2 ++ ts } : System).Routed := by
  have hmem : .fillRouting fill ∈ s.tasks := by rw [ht]; exact List.mem_cons_self
  have hname : fill.name ∈ own := hn.tasks _ hmem
  have hknown : s.Known fill.exchangeId := hf.tasks _ hmem _ (List.mem_singleton.mpr rfl)
  cases hs : s.gateway.orderSessions.lookup fill.exchangeId with
  | none =>
    simp only [FixGateway.runTask, FixGateway.fillRouting, hs, List.nil_append]
    exact h.skip ht (by simp) rfl rfl
  | some session =>
    by_cases h0 : fill.leavesQty = 0
    · simp only [FixGateway.runTask, FixGateway.fillRouting, hs, if_pos h0, List.singleton_append]
      have hold : ∀ {fill' session'}, .fillOrders fill' session' ∈ s.tasks →
          .fillOrders fill' session' ∈ Task.fillOrders fill session :: ts := by
        intro fill' session' hm
        rw [ht] at hm
        exact List.mem_cons_of_mem _ ((List.mem_cons.mp hm).resolve_left (by simp))
      refine ⟨fun c id hc => h.entry c id (lookup_of_lookup_erase hc), fun id o ho => ?_,
        fun o session' hh => ?_, fun fill' session' hm h0' c hc => ?_⟩
      · rcases h.routed id o ho with hc | ⟨fill', session', hm, heq, h0'⟩
        · by_cases hceq : o.clordId = fill.clordId
          · have heq := hdist _ (hn.active id o ho) _ hname (Or.inr hceq)
            refine Or.inr ⟨fill, session, List.mem_cons_self, ?_, h0⟩
            exact (congrArg Prod.fst heq).symm.trans (hf.maps.active id o ho).1
          · exact Or.inl ((AList.lookup_erase_ne hceq).trans hc)
        · exact Or.inr ⟨fill', session', hold hm, heq, h0'⟩
      · have hpending : s.handler.pending = some o := by rw [show s.handler = _ from hh]; rfl
        refine (AList.lookup_erase_ne fun hceq => ?_).trans (h.pending o session' hh)
        have heq := hdist _ (hn.incoming o (Or.inr hpending)) _ hname (Or.inr hceq)
        exact hknown.2 o hpending (congrArg Prod.fst heq).symm
      · have hc : (s.gateway.clordToExchange.erase fill.clordId).lookup c
            = some fill'.exchangeId := hc
        rcases List.mem_cons.mp hm with heq | hm
        · obtain ⟨rfl, -⟩ := Task.fillOrders.inj heq
          have hne : c ≠ fill'.clordId := by
            rintro rfl
            rw [AList.lookup_erase] at hc
            exact absurd hc (by simp)
          rcases h.entry c _ (lookup_of_lookup_erase hc) with ⟨o, ho, rfl⟩ | ⟨o, session₁, hh, hid, -⟩
          · have heq := hdist _ (hn.active _ o ho) _ hname (Or.inl (hf.maps.active _ o ho).1)
            exact hne (congrArg Prod.snd heq)
          · exact hknown.2 o (by rw [hh]; rfl) hid.symm
        · refine h.filled fill' session' ?_ h0' c (lookup_of_lookup_erase hc)
          rw [ht]
          exact List.mem_cons_of_mem _ hm
    · simp only [FixGateway.runTask, FixGateway.fillRouting, hs, if_neg h0, List.singleton_append]
      have hmem' : ∀ {fill' session'}, fill'.leavesQty = 0 →
          (.fillOrders fill' session' ∈ Task.fillOrders fill session :: ts ↔
            .fillOrders fill' session' ∈ s.tasks) := by
        intro fill' session' h0'
        rw [ht, List.mem_cons, List.mem_cons]
        refine or_congr_left (iff_of_false (fun heq => ?_) (by simp))
        obtain ⟨rfl, -⟩ := Task.fillOrders.inj heq
        exact h0 h0'
      refine ⟨h.entry, fun id o ho => (h.routed id o ho).imp_right ?_, h.pending,
        fun fill' session' hm h0' => h.filled fill' session' ((hmem' h0').mp hm) h0'⟩
      rintro ⟨fill', session', hm, heq, h0'⟩
      exact ⟨fill', session', (hmem' h0').mpr hm, heq, h0'⟩

/-- The second section drops the filled order itself. -/
lemma Routed.fillOrders (h : s.Routed) {fill : Fill} {session : SessionID} {ts : List Task}
    (ht : s.tasks = .fillOrders fill session :: ts) :
    ({ s with
      gateway := s.gateway.fillOrders fill session
      tasks := ts } : System).Routed := by
  have hmem : .fillOrders fill session ∈ s.tasks := by rw [ht]; exact List.mem_cons_self
  have hactive : (s.gateway.fillOrders fill session).active
      = s.gateway.active.setOpen fill.exchangeId fill.leavesQty :=
    FixGateway.active_setLeaves _ _ _
  have hold : ∀ {fill' session'}, .fillOrders fill' session' ∈ ts →
      .fillOrders fill' session' ∈ s.tasks := fun hm => by
    rw [ht]
    exact List.mem_cons_of_mem _ hm
  refine ⟨fun c id hc => ?_, fun id o ho => ?_, h.pending,
    fun fill' session' hm => h.filled fill' session' (hold hm)⟩
  · refine (h.entry c id hc).imp_left ?_
    rintro ⟨o, ho, rfl⟩
    show ∃ o', (s.gateway.fillOrders fill session).active id = some o' ∧ o'.clordId = o.clordId
    rw [hactive]
    by_cases hid : id = fill.exchangeId
    · subst hid
      have h0 : fill.leavesQty ≠ 0 := fun h0 => h.filled fill session hmem h0 _ hc
      rw [OrderLedger.setOpen_self, if_neg h0, ho]
      exact ⟨_, rfl, rfl⟩
    · rw [OrderLedger.setOpen_of_ne hid]
      exact ⟨o, ho, rfl⟩
  · have ho : s.gateway.active.setOpen fill.exchangeId fill.leavesQty id = some o := hactive ▸ ho
    have hopen : ∃ o', s.gateway.active id = some o' ∧ o'.clordId = o.clordId ∧
        (id = fill.exchangeId → fill.leavesQty ≠ 0) := by
      by_cases hid : id = fill.exchangeId
      · subst hid
        rw [OrderLedger.setOpen_self] at ho
        split_ifs at ho with h0
        obtain ⟨o', ho', rfl⟩ := Option.map_eq_some_iff.mp ho
        exact ⟨o', ho', rfl, fun _ => h0⟩
      · rw [OrderLedger.setOpen_of_ne hid] at ho
        exact ⟨o, ho, rfl, fun heq => absurd heq hid⟩
    obtain ⟨o', ho', hclord, hne⟩ := hopen
    rw [← hclord]
    refine (h.routed id o' ho').imp_right ?_
    rintro ⟨fill', session', hm, rfl, h0⟩
    rw [ht] at hm
    rcases List.mem_cons.mp hm with heq | hm
    · obtain ⟨rfl, -⟩ := Task.fillOrders.inj heq
      exact absurd h0 (hne rfl)
    · exact ⟨fill', session', hm, rfl, h0⟩

/-- A task keeps the two maps in step, when it passes no replace on. -/
lemma Routed.task (h : s.Routed) (hf : s.Founded) (hn : s.Named own) (hdist : Distinct own)
    (hun : ∀ req n p, .replaced req n p ∉ noticesOf s.tasks s.gateway.active) {t : Task}
    {ts : List Task} (ht : s.tasks = t :: ts) :
    ({ s with
      gateway := (s.gateway.runTask t).1
      tasks := (s.gateway.runTask t).2 ++ ts } : System).Routed := by
  have hmem : t ∈ s.tasks := by rw [ht]; exact List.mem_cons_self
  cases t with
  | fillRouting fill => exact h.fillRouting hf hn hdist ht
  | fillOrders fill session => exact h.fillOrders ht
  | fillDone maker taker => exact h.skip ht (by simp) rfl rfl
  | onOrderRested o leavesQty => exact h.skip ht (by simp) rfl rfl
  | onCancel req found =>
    have hknown := hf.tasks _ hmem _ (List.mem_singleton.mpr rfl)
    cases hs : s.gateway.orderSessions.lookup req.origOrderId with
    | none =>
      simp only [FixGateway.runTask, FixGateway.onCancel, hs]
      exact h.skip ht (by simp) rfl rfl
    | some session =>
      cases ha : s.gateway.activeOrders.lookup req.origOrderId with
      | none =>
        simp only [FixGateway.runTask, FixGateway.onCancel, hs, ha]
        exact h.skip ht (by simp) rfl rfl
      | some o =>
        cases found with
        | false =>
          simp only [FixGateway.runTask, FixGateway.onCancel, hs, ha, Bool.false_eq_true, if_false]
          exact h.skip ht (by simp) rfl rfl
        | true =>
          simp only [FixGateway.runTask, FixGateway.onCancel, hs, ha, if_true]
          have hname : (req.origOrderId, o.clordId) ∈ own := by
            rw [← (hf.maps.active _ o ha).1]
            exact hn.active _ o ha
          exact h.drop hf hn hdist hname hknown ht (by simp) rfl (Ledger.ofAList_erase _)
  | onTIFCancel o =>
    have hknown := hf.tasks _ hmem _ (List.mem_singleton.mpr rfl)
    cases hs : s.gateway.orderSessions.lookup o.exchangeId with
    | none =>
      simp only [FixGateway.runTask, FixGateway.onTIFCancel, hs]
      exact h.skip ht (by simp) rfl rfl
    | some session =>
      simp only [FixGateway.runTask, FixGateway.onTIFCancel, hs]
      exact h.drop hf hn hdist (hn.tasks _ hmem) hknown ht (by simp) rfl (Ledger.ofAList_erase _)
  | onReplace req found newLeavesQty =>
    cases hs : s.gateway.orderSessions.lookup req.origOrderId with
    | none =>
      simp only [FixGateway.runTask, FixGateway.onReplace, hs]
      exact h.skip ht (by simp) rfl rfl
    | some session =>
      cases ha : s.gateway.activeOrders.lookup req.origOrderId with
      | none =>
        simp only [FixGateway.runTask, FixGateway.onReplace, hs, ha]
        exact h.skip ht (by simp) rfl rfl
      | some o =>
        cases found with
        | false =>
          simp only [FixGateway.runTask, FixGateway.onReplace, hs, ha, Bool.false_eq_true, if_false]
          exact h.skip ht (by simp) rfl rfl
        | true =>
          -- the replace would be passed on
          refine absurd ?_ (hun req newLeavesQty o.price)
          have ha : s.gateway.active req.origOrderId = some o := ha
          rw [ht, noticesOf_cons, Task.notices, if_pos rfl, ha]
          exact List.mem_cons_self

/-- **One step** keeps the two maps in step, when no replace is passed on. -/
theorem Routed.step (h : s.Routed) (hf : s.Founded) (hn : s.Named own) (hdist : Distinct own)
    (hun : ∀ req n p, .replaced req n p ∉ noticesOf s.tasks s.gateway.active)
    (hstep : s.step a = some s') : s'.Routed := by
  cases a with
  | message msg session =>
    obtain ⟨hidle, rfl⟩ := step_message hstep
    rcases onMessage_cases s session msg with ⟨seq, sent, heq, -⟩ | ⟨m, o, -, -, heq⟩ |
        ⟨m, req, -, -, heq⟩ | ⟨m, req, -, -, heq⟩ <;>
      rw [heq] <;> exact h.of_same rfl rfl (fun _ _ => Iff.rfl) (by simp [hidle])
  | logon session =>
    obtain ⟨-, rfl⟩ := step_logon hstep
    exact h.of_same rfl rfl (fun _ _ => Iff.rfl) fun _ _ => Iff.rfl
  | handle =>
    rcases handle_cases hstep with ⟨o, session, hh, rfl⟩ | ⟨o, session, hh, rfl⟩ |
        ⟨item, hitem, rfl⟩
    · exact h.route hf hn hdist hh
    · exact h.activate hf hh
    · refine h.of_same rfl rfl (fun _ _ => Iff.rfl) fun o session => ?_
      refine iff_of_false (by simp) fun hh => ?_
      rw [hh] at hitem
      exact absurd hitem (by simp [nextItem])
  | engine =>
    rcases engineStep_cases hstep with ⟨t, ts, ht, rfl⟩ | ⟨ht, item, queue, b, -, -, rfl⟩
    · exact h.task hf hn hdist hun ht
    · refine h.of_same rfl rfl (fun fill session => ?_) fun _ _ => Iff.rfl
      rw [ht]
      refine iff_of_false (fun hm => ?_) List.not_mem_nil
      obtain ⟨cb, -, hm⟩ := List.mem_flatMap.mp hm
      cases cb <;> simp [Callback.tasks] at hm
  | persist =>
    obtain ⟨p, p', -, -, rfl⟩ := step_persist hstep
    exact h.of_same rfl rfl (fun _ _ => Iff.rfl) fun _ _ => Iff.rfl
  | registerSymbol symbol =>
    obtain ⟨e, -, rfl⟩ := step_registerSymbol hstep
    exact h.of_same rfl rfl (fun _ _ => Iff.rfl) fun _ _ => Iff.rfl

end System

end FixExchange
