/-
# The accounts of a run

An order has an account from its acknowledgement on.  The engine enters the quantity of a
replace that finds its order, and the fills of an item, when it processes the item; the gateway
learns of the fills one at a time, as the tasks run.  Two accounts are kept of a run therefore:
what the engine has done (`System.accounts`), and how far the gateway has followed it
(`System.followed`).  The difference is the fills in the pending tasks, and each of them states
the account of its order as it is after it (`booked_of_run`).
-/
import FixExchange.Engine.Accounts
import FixExchange.System.ExecIds

namespace FixExchange

/-- The trades that the gateway learns of by a task. -/
def Task.entries : Task → List Entry
  | .fillRouting fill | .fillOrders fill _ => [.trade fill]
  | .fillDone _ _ | .onCancel _ _ | .onTIFCancel _ | .onReplace _ _ _ | .onOrderRested _ _ => []

/-- The trades that the gateway learns of by some tasks. -/
def pendingEntries (ts : List Task) : List Entry := ts.flatMap Task.entries

lemma pendingEntries_append (ts ts' : List Task) :
    pendingEntries (ts ++ ts') = pendingEntries ts ++ pendingEntries ts' := List.flatMap_append

@[simp] lemma pendingEntries_cons (t : Task) (ts : List Task) :
    pendingEntries (t :: ts) = t.entries ++ pendingEntries ts := rfl

/-- The tasks of fills. -/
lemma pendingEntries_fillTasks (fs : List FillPair) :
    pendingEntries (fillTasks fs) = entriesOf fs := by
  induction fs with
  | nil => rfl
  | cons f fs ih =>
    rw [entriesOf_cons, ← ih]
    rfl

lemma mem_pendingEntries {ts : List Task} {e : Entry} (h : e ∈ pendingEntries ts) :
    ∃ t ∈ ts, ∃ fill, e = .trade fill ∧ t.entries = [e] ∧ t.ids = [fill.exchangeId] := by
  obtain ⟨t, ht, he⟩ := List.mem_flatMap.mp h
  cases t with
  | fillRouting fill | fillOrders fill session =>
    obtain rfl := List.mem_singleton.mp he
    exact ⟨_, ht, fill, rfl, rfl, rfl⟩
  | _ => exact absurd he List.not_mem_nil

/-- What a task says about the account of its order, besides the fills. -/
def Task.Tells (A : Accounts String) : Task → Prop
  | .onTIFCancel order => order.Agrees A ∧ (A order.exchangeId).earlier = 0
  | .onReplace req true newLeavesQty => 0 ≤ newLeavesQty ∧
    (A req.origOrderId).qty = req.newQty ∧ (A req.origOrderId).openQty = newLeavesQty
  | _ => True

/-! ## Work items -/

namespace OrderBook

variable {b : OrderBook} {o : Order} {item : WorkItem} {A : Accounts String} {id : String}

/-- The quantity that an item sets: that of a replace which finds its order. -/
def renewal (b : OrderBook) : WorkItem → List Entry
  | .replace req =>
    if req.origOrderId ∈ b.orderIndex then [.quantity req.origOrderId req.newQty] else []
  | .order _ | .cancel _ => []

/-- What the engine enters for an item. -/
def itemEntries (b : OrderBook) (item : WorkItem) : List Entry :=
  b.renewal item ++ pendingEntries ((processIn b item).2.flatMap Callback.tasks)

/-- What an order has to be for the accounts to be kept: a new order is open for its quantity,
and nothing of it has been executed. -/
def AcceptsAt (b : OrderBook) (A : Accounts String) (item : WorkItem) : Prop :=
  ∀ o, item = .order o → b.Fresh o.exchangeId ∧ A o.exchangeId = ⟨o.qty, 0, 0⟩

/-- The entries of a new order, when it is not killed. -/
lemma itemEntries_order {last : List Callback}
    (h : FixExchange.processOrder b o = ((b.add o).book, fillCallbacks (b.add o).fills ++ last))
    (hlast : pendingEntries (last.flatMap Callback.tasks) = []) :
    b.itemEntries (.order o) = entriesOf (b.add o).fills := by
  rw [itemEntries, processIn, h, List.flatMap_append, pendingEntries_append, hlast]
  show [] ++ (pendingEntries (fillTasks _) ++ []) = _
  rw [pendingEntries_fillTasks, List.nil_append, List.append_nil]

lemma itemEntries_replace (b : OrderBook) (req : ReplaceRequest) :
    b.itemEntries (.replace req) = b.renewal (.replace req)
      ++ entriesOf (b.replace req.origOrderId req.newPrice req.newQty).fills := by
  rw [itemEntries, processIn, processReplace, List.flatMap_append, pendingEntries_append]
  show _ ++ (pendingEntries (fillTasks _) ++ []) = _
  rw [pendingEntries_fillTasks, List.append_nil]

lemma itemEntries_killed
    (h : FixExchange.processOrder b o = (b, [.onTIFCancel (o.withLeaves o.qty)])) :
    b.itemEntries (.order o) = [] := by
  rw [itemEntries, processIn, h]
  rfl

lemma agrees_of_account (h : A o.exchangeId = ⟨o.qty, 0, 0⟩) :
    (o.withLeaves o.qty).Agrees A := by
  refine ⟨?_, ?_⟩
  · rw [Order.withLeaves_exchangeId, h]
    rfl
  · rw [Order.withLeaves_exchangeId, h, Account.openQty]
    simp

lemma Agrees.processOrder (hA : b.Agrees A) (h : b.Wf) (hk : b.Keyed)
    (hfresh : b.Fresh o.exchangeId) (ho : A o.exchangeId = ⟨o.qty, 0, 0⟩) :
    let es := b.itemEntries (.order o)
    Entry.Stated A es ∧ (processOrder b o).1.Agrees (Entry.enterAll A es) ∧
      ∀ t ∈ (processOrder b o).2.flatMap Callback.tasks, t.Tells (Entry.enterAll A es) := by
  intro es
  have hopen := agrees_of_account ho
  rcases processOrder_cases b o with hkill | ⟨last, hadd, hlast⟩
  · have hes : es = [] := itemEntries_killed hkill
    rw [hes, hkill]
    refine ⟨trivial, hA, fun t ht => ?_⟩
    obtain rfl := List.mem_singleton.mp ht
    exact ⟨hopen, by rw [Order.withLeaves_exchangeId, Entry.enterAll_nil, ho]⟩
  · obtain ⟨h1, h2, h3⟩ := hA.add h hk hfresh hopen
    have hes : es = entriesOf (b.add o).fills :=
      itemEntries_order hadd (by rcases hlast with rfl | ⟨rfl, -, -⟩ | rfl <;> rfl)
    have hunset : ∀ q, .quantity o.exchangeId q ∉ es := by
      intro q he
      rw [hes] at he
      obtain ⟨f, -, he⟩ := List.mem_flatMap.mp he
      rcases List.mem_pair.mp he with heq | heq <;> exact absurd heq (by simp)
    rw [hadd]
    refine ⟨by rw [hes]; exact h1, by rw [hes]; exact h3, fun t ht => ?_⟩
    rw [List.flatMap_append] at ht
    rcases List.mem_append.mp ht with ht | ht
    · obtain ⟨cb, hcb, ht⟩ := List.mem_flatMap.mp ht
      obtain ⟨f, -, rfl⟩ := mem_fillCallbacks.mp hcb
      rcases mem_onFill_tasks ht with rfl | rfl | rfl <;> trivial
    · rcases hlast with rfl | ⟨rfl, -, -⟩ | rfl
      · exact absurd ht List.not_mem_nil
      · obtain rfl := List.mem_singleton.mp ht
        refine ⟨by rw [hes]; exact h2, ?_⟩
        rw [Order.withLeaves_exchangeId, (Entry.enterAll_unset hunset).2, ho]
      · obtain rfl := List.mem_singleton.mp ht
        trivial

lemma Agrees.processReplace (hA : b.Agrees A) (h : b.Wf) (hk : b.Keyed) (req : ReplaceRequest) :
    let es := b.itemEntries (.replace req)
    Entry.Stated A es ∧ (processReplace b req).1.Agrees (Entry.enterAll A es) ∧
      ∀ t ∈ (processReplace b req).2.flatMap Callback.tasks, t.Tells (Entry.enterAll A es) := by
  intro es
  have hes : es = b.replaceEntries req.origOrderId req.newPrice req.newQty :=
    b.itemEntries_replace req
  obtain ⟨hstated, hagrees, hopen⟩ :=
    hA.replace h hk req.origOrderId req.newPrice req.newQty
  rw [hes]
  refine ⟨hstated, hagrees, fun t ht => ?_⟩
  rw [FixExchange.processReplace, List.flatMap_append] at ht
  rcases List.mem_append.mp ht with ht | ht
  · -- the fills tell nothing besides
    obtain ⟨cb, hcb, ht⟩ := List.mem_flatMap.mp ht
    obtain ⟨f, -, rfl⟩ := mem_fillCallbacks.mp hcb
    rcases mem_onFill_tasks ht with rfl | rfl | rfl <;> trivial
  · obtain rfl := List.mem_singleton.mp ht
    cases hd : decide ((b.replace req.origOrderId req.newPrice req.newQty).value ≥ 0) with
    | false => trivial
    | true => exact ⟨of_decide_eq_true hd, hopen (of_decide_eq_true hd)⟩

/-- **What an item does to the accounts**: the fills state them, the resting orders agree with
them, and so does what the other tasks tell. -/
theorem Agrees.processIn (hA : b.Agrees A) (h : b.Wf) (hk : b.Keyed) (hitem : b.AcceptsAt A item) :
    Entry.Stated A (b.itemEntries item) ∧
      (processIn b item).1.Agrees (Entry.enterAll A (b.itemEntries item)) ∧
      ∀ t ∈ (processIn b item).2.flatMap Callback.tasks,
        t.Tells (Entry.enterAll A (b.itemEntries item)) := by
  cases item with
  | order o => exact hA.processOrder h hk (hitem o rfl).1 (hitem o rfl).2
  | cancel req =>
    refine ⟨trivial, hA.cancel h _, fun t ht => ?_⟩
    obtain rfl := List.mem_singleton.mp ht
    trivial
  | replace req => exact hA.processReplace h hk req

/-- An item changes the accounts of a new order and of orders of the book. -/
lemma itemEntries_ids (h : b.Wf) (hk : b.Keyed) {e : Entry} (he : e ∈ b.itemEntries item) :
    (∃ o, item = .order o ∧ e.orderId = o.exchangeId) ∨
      ∃ m ∈ b.nodes, e.orderId = m.order.exchangeId := by
  cases item with
  | order o =>
    rcases processOrder_cases b o with hkill | ⟨last, hadd, hlast⟩
    · rw [itemEntries_killed hkill] at he
      exact absurd he List.not_mem_nil
    · rw [itemEntries_order hadd (by rcases hlast with rfl | ⟨rfl, -, -⟩ | rfl <;> rfl)] at he
      obtain ⟨f, hf, hid⟩ := mem_entriesOf he
      obtain ⟨⟨m, hm, hmaker⟩, htaker⟩ := add_fill_parties h o hf
      rcases hid with hid | hid
      · exact Or.inr ⟨m, hm, hid.trans hmaker.exchangeId⟩
      · exact Or.inl ⟨o, rfl, hid.trans htaker.exchangeId⟩
  | cancel req => exact absurd he List.not_mem_nil
  | replace req =>
    refine Or.inr ?_
    rw [itemEntries_replace] at he
    rcases List.mem_append.mp he with he | he
    · simp only [renewal] at he
      split_ifs at he with hfound
      · obtain ⟨m, hm, hid⟩ : ∃ m ∈ b.nodes, m.order.exchangeId = req.origOrderId := by
          have hnot := (mem_orderIndex hk h).mp hfound
          simpa [Fresh] using hnot
        rw [List.mem_singleton.mp he]
        exact ⟨m, hm, hid.symm⟩
      · exact absurd he List.not_mem_nil
    · obtain ⟨f, hf, hid⟩ := mem_entriesOf he
      obtain ⟨⟨m, hm, hmaker⟩, m', hm', -, htaker⟩ := replace_fill_parties h hf
      rcases hid with hid | hid
      · exact ⟨m, hm, hid.trans hmaker.exchangeId⟩
      · exact ⟨m', hm', hid.trans htaker.exchangeId⟩

/-- The accounts of the other orders. -/
lemma enterAll_item_of_ne (h : b.Wf) (hk : b.Keyed)
    (hne : ∀ o, item = .order o → id ≠ o.exchangeId) (hfresh : b.Fresh id) :
    Entry.enterAll A (b.itemEntries item) id = A id := by
  refine Entry.enterAll_of_ne fun e he heq => ?_
  rcases itemEntries_ids h hk he with ⟨o, rfl, hid⟩ | ⟨m, hm, hid⟩
  · exact hne o rfl (heq.trans hid)
  · exact hfresh m hm (hid.symm.trans heq.symm)

end OrderBook

/-! ## Runs -/

/-- The trades that a task settles with the gateway: a fill that is reported, or given up because
its order has no session. -/
def Task.follows (g : FixGateway) : Task → List Entry
  | .fillRouting fill =>
    if g.orderSessions.lookup fill.exchangeId = none then [.trade fill] else []
  | .fillOrders fill _ => [.trade fill]
  | .fillDone _ _ | .onCancel _ _ | .onTIFCancel _ | .onReplace _ _ _ | .onOrderRested _ _ => []

/-- What the gateway learns of by a task it learns of when the task is run, or by the task that
this leaves. -/
lemma Task.entries_eq (g : FixGateway) (t : Task) :
    t.entries = t.follows g ++ pendingEntries (g.runTask t).2 := by
  cases t with
  | fillRouting fill =>
    simp only [Task.follows, FixGateway.runTask, FixGateway.fillRouting]
    cases hs : g.orderSessions.lookup fill.exchangeId with
    | none => rfl
    | some session =>
      dsimp only
      rw [if_neg (by simp)]
      split_ifs <;> rfl
  | _ => rfl

namespace System

variable {s s' : System} {a : Action} {F J : Accounts String}

/-- The quantity of an order that is acknowledged. -/
def acknowledged (s : System) : List Entry :=
  match s.handler with
  | .activate o _ => [.quantity o.exchangeId o.qty]
  | .idle | .route _ _ | .submit _ | .cancel _ | .replace _ => []

/-- The item that the engine thread takes from the queue in its next step, with its book. -/
def nextTaken (s : System) : Option (WorkItem × OrderBook) :=
  match s.tasks, s.queue with
  | [], item :: _ => (s.engine.books.lookup item.symbol).map fun b => (item, b)
  | [], [] | _ :: _, _ => none

/-- What a step enters in the accounts of the engine. -/
def enters (s : System) : Action → List Entry
  | .handle => s.acknowledged
  | .engine => (s.nextTaken.map fun taken => taken.2.itemEntries taken.1).getD []
  | .message _ _ | .logon _ | .persist | .registerSymbol _ => []

/-- What a step enters in the accounts as the gateway follows them. -/
def follows (s : System) : Action → List Entry
  | .handle => s.acknowledged
  | .engine =>
    match s.tasks with
    | [] => (s.nextTaken.map fun taken => taken.2.renewal taken.1).getD []
    | t :: _ => t.follows s.gateway
  | .message _ _ | .logon _ | .persist | .registerSymbol _ => []

/-- What a run has entered in the accounts of the engine. -/
def journal (s : System) (as : List Action) : List Entry := Transition.collect step enters s as

/-- The accounts of the engine after a run. -/
def accounts (s : System) (as : List Action) : Accounts String :=
  Entry.enterAll Accounts.blank (s.journal as)

/-- The accounts after a run as far as the gateway has followed the engine. -/
def followed (s : System) (as : List Action) : Accounts String :=
  Entry.enterAll Accounts.blank (Transition.collect step follows s as)

lemma journal_snoc {s₀ : System} {ok : System → Action → Prop} {as : List Action}
    (h : Transition.Reaches step ok s₀ as s) (a : Action) :
    s₀.journal (as ++ [a]) = s₀.journal as ++ s.enters a := h.collect_snoc a

lemma accounts_snoc {s₀ : System} {ok : System → Action → Prop} {as : List Action}
    (h : Transition.Reaches step ok s₀ as s) (a : Action) :
    s₀.accounts (as ++ [a]) = Entry.enterAll (s₀.accounts as) (s.enters a) := by
  rw [accounts, journal_snoc h, Entry.enterAll_append]
  rfl

lemma followed_snoc {s₀ : System} {ok : System → Action → Prop} {as : List Action}
    (h : Transition.Reaches step ok s₀ as s) (a : Action) :
    s₀.followed (as ++ [a]) = Entry.enterAll (s₀.followed as) (s.follows a) := by
  rw [followed, h.collect_snoc, Entry.enterAll_append]
  rfl

/-- The accounts `J` are those of the engine, and the gateway has followed them up to `F`. -/
structure Booked (F J : Accounts String) (s : System) : Prop where
  resting : ∀ sym b, s.engine.books.lookup sym = some b → b.Agrees J
  coming : ∀ o, .order o ∈ s.coming → J o.exchangeId = ⟨o.qty, 0, 0⟩
  /-- Orders without an acknowledgement have no account. -/
  acked : ∀ id, J id ≠ Account.blank →
    Issued s.gateway.orderSeq id ∧ ∀ o ∈ unacked s.handler, o.exchangeId ≠ id
  pending : J = Entry.enterAll F (pendingEntries s.tasks)
  stated : Entry.Stated F (pendingEntries s.tasks)
  tells : ∀ t ∈ s.tasks, t.Tells J

/-- A step that enters nothing. -/
lemma Booked.of_same (h : Booked F J s) (hstep : s.step a = some s')
    (hbooks : ∀ sym b, s'.engine.books.lookup sym = some b →
      s.engine.books.lookup sym = some b ∨ b = OrderBook.init sym)
    (hcoming : ∀ o, .order o ∈ s'.coming → .order o ∈ s.coming) (htasks : s'.tasks = s.tasks) :
    Booked F J s' := by
  refine ⟨fun sym b hb => ?_, fun o ho => h.coming o (hcoming o ho),
    fun id hid => issued_unacked_step hstep (h.acked id hid), by rw [htasks]; exact h.pending,
    by rw [htasks]; exact h.stated, by rw [htasks]; exact h.tells⟩
  rcases hbooks sym b hb with hb | rfl
  · exact h.resting sym b hb
  · intro n hn
    simp [OrderBook.init, OrderBook.nodes] at hn

/-- An order that is acknowledged gets its account. -/
lemma Booked.activate (h : Booked F J s) (hf : s.Founded) {o : Order} {session : SessionID}
    (hh : s.handler = .activate o session) :
    Booked (F.renew o.exchangeId o.qty) (J.renew o.exchangeId o.qty)
      { s with
        gateway := (s.gateway.activateOrder o).ackOrder o session
        handler := .submit o } := by
  have hpending : o ∈ s.handler.pending := by rw [hh]; rfl
  have hid := (hf.handler.pending o hpending).1
  -- what the engine knows is about other orders
  have hqueue : ∀ item ∈ s.queue, item.id ≠ o.exchangeId := fun item hi =>
    (hf.queue.known item hi).2 o hpending
  have hentries : ∀ e ∈ pendingEntries s.tasks, o.exchangeId ≠ e.orderId := by
    intro e he
    obtain ⟨t, ht, fill, rfl, -, hids⟩ := mem_pendingEntries he
    exact Ne.symm ((hf.tasks t ht fill.exchangeId
      (by rw [hids]; exact List.mem_singleton.mpr rfl)).2 o hpending)
  have hblank : J o.exchangeId = Account.blank := by
    by_contra hne
    exact (h.acked _ hne).2 o (by rw [hh]; rfl) rfl
  refine ⟨fun sym b hb => (h.resting sym b hb).congr fun n hn => Accounts.renew_of_ne ?_,
    fun o' ho' => ?_, fun id hne => ?_, ?_, h.stated.renew hentries _, fun t ht => ?_⟩
  · exact (hf.books.orders sym b hb n hn).2.2 o hpending
  · rcases List.mem_append.mp ho' with ho' | ho'
    · have hne : o'.exchangeId ≠ o.exchangeId := hqueue _ ho'
      rw [Accounts.renew_of_ne hne]
      exact h.coming o' (List.mem_append_left _ ho')
    · obtain rfl := WorkItem.order.inj (Option.some.inj (Option.mem_toList.mp ho'))
      rw [Accounts.renew_self, hblank]
      rfl
  · by_cases heq : id = o.exchangeId
    · rw [heq, hid]
      exact ⟨issued_self _, by simp [unacked]⟩
    · rw [Accounts.renew_of_ne heq] at hne
      exact ⟨(h.acked id hne).1, by simp [unacked]⟩
  · rw [Entry.enterAll_renew hentries, ← h.pending]
  · have hids := hf.tasks t ht
    cases t with
    | onTIFCancel order =>
      have hne := (hids order.exchangeId (List.mem_singleton.mpr rfl)).2 o hpending
      obtain ⟨hagrees, hearlier⟩ := h.tells _ ht
      exact ⟨hagrees.congr (Accounts.renew_of_ne hne), by rw [Accounts.renew_of_ne hne, hearlier]⟩
    | onReplace req found newLeavesQty =>
      have hne := (hids req.origOrderId (List.mem_singleton.mpr rfl)).2 o hpending
      cases found with
      | false => trivial
      | true =>
        have htells : 0 ≤ newLeavesQty ∧ (J req.origOrderId).qty = req.newQty ∧
            (J req.origOrderId).openQty = newLeavesQty := h.tells _ ht
        rw [← Accounts.renew_of_ne (A := J) (q := o.qty) hne] at htells
        exact htells
    | _ => trivial

/-- A task settles its fill. -/
lemma Booked.task (h : Booked F J s) {t : Task} {ts : List Task} (ht : s.tasks = t :: ts)
    (hstep : s.step .engine = some s')
    (hs' : s' = { s with
      gateway := (s.gateway.runTask t).1
      tasks := (s.gateway.runTask t).2 ++ ts }) :
    Booked (Entry.enterAll F (t.follows s.gateway)) J s' := by
  have hpending := h.pending
  have hstated := h.stated
  rw [ht, pendingEntries_cons, Task.entries_eq s.gateway t, List.append_assoc,
    ← pendingEntries_append] at hpending hstated
  rw [Entry.enterAll_append] at hpending
  rw [Entry.stated_append] at hstated
  have hacked := fun id hid => issued_unacked_step hstep (h.acked id hid)
  subst hs'
  refine ⟨h.resting, h.coming, hacked, hpending, hstated.2, fun t' ht' => ?_⟩
  rcases List.mem_append.mp ht' with ht' | ht'
  · cases t with
    | fillRouting fill =>
      simp only [FixGateway.runTask] at ht'
      split at ht'
      · exact absurd ht' List.not_mem_nil
      · rw [List.mem_singleton.mp ht']
        trivial
    | _ => exact absurd ht' List.not_mem_nil
  · exact h.tells t' (by rw [ht]; exact List.mem_cons_of_mem _ ht')

/-- An item that is taken from the queue. -/
lemma Booked.take (h : Booked F J s) (hf : s.Founded) {item : WorkItem} {queue : List WorkItem}
    {b : OrderBook} (ht : s.tasks = []) (hq : s.queue = item :: queue)
    (hb : s.engine.books.lookup item.symbol = some b) (hstep : s.step .engine = some s')
    (hs' : s' = { s with
      engine := { s.engine with books := s.engine.books.insert item.symbol (processIn b item).1 }
      queue := queue
      tasks := (processIn b item).2.flatMap Callback.tasks }) :
    Booked (Entry.enterAll F (b.renewal item)) (Entry.enterAll J (b.itemEntries item)) s' := by
  have hmem : item ∈ s.queue := by rw [hq]; exact List.mem_cons_self
  have hwf := hf.books.wf _ b hb
  have hF : F = J := by
    rw [h.pending, ht]
    rfl
  have haccepts : b.AcceptsAt J item := by
    rintro o rfl
    exact ⟨hf.accepts hmem hb o rfl, h.coming o (mem_coming_of_queue hmem)⟩
  have hkeyed := hf.books.keyed _ b hb
  obtain ⟨hstated, hagrees, htells⟩ := (h.resting _ b hb).processIn hwf hkeyed haccepts
  have hacked := fun id hid => issued_unacked_step hstep (h.acked id hid)
  have hissued : ∀ id, s.Known id →
      Issued s'.gateway.orderSeq id ∧ ∀ o ∈ unacked s'.handler, o.exchangeId ≠ id := fun id hk =>
    issued_unacked_step hstep ⟨hk.1, fun o ho => (hk.2 o (pending_of_unacked ho)).symm⟩
  subst hs'
  subst hF
  refine ⟨fun sym b' hb' => ?_, fun o ho => ?_, fun id hid => ?_, ?_, ?_, htells⟩
  · rcases lookup_processed hb' with ⟨-, rfl⟩ | ⟨hne, hold⟩
    · exact hagrees
    · -- the orders of the other books
      refine (h.resting sym b' hold).congr fun n hn =>
        OrderBook.enterAll_item_of_ne hwf hkeyed ?_ fun m hm hid => ?_
      · rintro o rfl hid
        exact hf.queue.fresh o hmem sym b' hold n hn hid
      · exact hne (hf.books.apart sym b' _ b hold hb n hn m hm hid.symm)
  · -- the orders that are still to come are others than the one of the item
    have hcoming : .order o ∈ s.coming := by
      rw [System.coming, hq]
      exact List.mem_cons_of_mem _ ho
    have hnone := hf.coming_fresh hcoming
    rw [OrderBook.enterAll_item_of_ne hwf hkeyed ?_ fun n hn hid => ?_]
    · exact h.coming o hcoming
    · rintro o' rfl
      exact hf.coming_ne hq ho
    · exact hf.resting_iff.mpr ⟨_, b, hb, n, hn, hid⟩ hnone
  · by_cases hsame : Entry.enterAll F (b.itemEntries item) id = F id
    · rw [hsame] at hid
      exact hacked id hid
    · refine hissued id ?_
      have hids : (∃ o, item = .order o ∧ id = o.exchangeId) ∨
          ∃ m ∈ b.nodes, id = m.order.exchangeId := by
        by_contra hnot
        rw [not_or] at hnot
        refine hsame (OrderBook.enterAll_item_of_ne hwf hkeyed (fun o ho heq => ?_) fun m hm heq => ?_)
        · exact hnot.1 ⟨o, ho, heq⟩
        · exact hnot.2 ⟨m, hm, heq.symm⟩
      rcases hids with ⟨o, rfl, rfl⟩ | ⟨m, hm, rfl⟩
      · exact hf.queue.known _ hmem
      · exact (hf.books.orders _ b hb m hm).2
  · rw [OrderBook.itemEntries, Entry.enterAll_append]
  · rw [OrderBook.itemEntries, Entry.stated_append] at hstated
    exact hstated.2

lemma enters_task {t : Task} {ts : List Task} (ht : s.tasks = t :: ts) :
    s.enters .engine = [] ∧ s.follows .engine = t.follows s.gateway := by
  constructor
  · simp only [enters, nextTaken, ht]
    rfl
  · simp only [follows, ht]

lemma enters_take {item : WorkItem} {queue : List WorkItem} {b : OrderBook} (ht : s.tasks = [])
    (hq : s.queue = item :: queue) (hb : s.engine.books.lookup item.symbol = some b) :
    s.enters .engine = b.itemEntries item ∧ s.follows .engine = b.renewal item := by
  constructor
  · simp only [enters, nextTaken, ht, hq, hb]
    rfl
  · simp only [follows, nextTaken, ht, hq, hb]
    rfl

/-- **One step keeps the accounts.** -/
theorem Booked.step (h : Booked F J s) (hf : s.Founded) (hstep : s.step a = some s') :
    Booked (Entry.enterAll F (s.follows a)) (Entry.enterAll J (s.enters a)) s' := by
  cases a with
  | message msg session =>
    refine h.of_same hstep ?_ ?_ ?_
    all_goals obtain ⟨hidle, rfl⟩ := step_message hstep
    · exact fun _ _ hb => Or.inl hb
    · intro o ho
      rw [coming_of_idle hidle]
      rcases List.mem_append.mp ho with ho | ho
      · exact ho
      · rcases onMessage_cases s session msg with ⟨seq, sent, heq, -⟩ | ⟨m, o', -, -, heq⟩ |
            ⟨m, req, -, -, heq⟩ | ⟨m, req, -, -, heq⟩ <;>
          simp [heq, nextItem] at ho
    · rfl
  | logon session =>
    refine h.of_same hstep ?_ ?_ ?_
    all_goals obtain ⟨-, rfl⟩ := step_logon hstep
    · exact fun _ _ hb => Or.inl hb
    · exact fun _ ho => ho
    · rfl
  | handle =>
    rcases handle_cases hstep with ⟨o, session, hh, hs'⟩ | ⟨o, session, hh, hs'⟩ | ⟨item, hitem, hs'⟩
    · have hnone : s.acknowledged = [] := by rw [acknowledged, hh]
      have hsame : Booked F J s' := by
        refine h.of_same hstep ?_ ?_ ?_
        all_goals subst hs'
        · exact fun _ _ hb => Or.inl hb
        · intro o' ho'
          simpa [System.coming, nextItem, hh] using ho'
        · rfl
      rw [enters, follows, hnone]
      exact hsame
    · have hone : s.acknowledged = [.quantity o.exchangeId o.qty] := by rw [acknowledged, hh]
      have hact := h.activate hf hh
      rw [enters, follows, hone, hs']
      exact hact
    · have hnone : s.acknowledged = [] := by
        rw [acknowledged]
        cases hh : s.handler <;> simp [hh, nextItem] at hitem ⊢
      have hsame : Booked F J s' := by
        refine h.of_same hstep ?_ ?_ ?_
        all_goals subst hs'
        · exact fun _ _ hb => Or.inl hb
        · intro o' ho'
          rw [coming_of_idle rfl] at ho'
          rw [System.coming, hitem]
          exact ho'
        · rfl
      rw [enters, follows, hnone]
      exact hsame
  | engine =>
    rcases engineStep_cases hstep with ⟨t, ts, ht, hs'⟩ | ⟨ht, item, queue, b, hq, hb, hs'⟩
    · rw [(enters_task ht).1, (enters_task ht).2]
      exact h.task ht hstep hs'
    · rw [(enters_take ht hq hb).1, (enters_take ht hq hb).2]
      exact h.take hf ht hq hb hstep hs'
  | persist =>
    refine h.of_same hstep ?_ ?_ ?_
    all_goals obtain ⟨p, p', -, -, rfl⟩ := step_persist hstep
    · exact fun _ _ hb => Or.inl hb
    · exact fun _ ho => ho
    · rfl
  | registerSymbol symbol =>
    refine h.of_same hstep ?_ ?_ ?_
    all_goals obtain ⟨e, he, rfl⟩ := step_registerSymbol hstep
    · intro sym b hb
      rcases (MatchingEngine.registerSymbol_books he).1 sym with hsame | ⟨rfl, -, hnew⟩
      · exact Or.inl (hsame.symm.trans hb)
      · exact Or.inr (Option.some.inj (hb.symm.trans hnew))
    · exact fun _ ho => ho
    · rfl

lemma booked_start (cfg : Config) : Booked Accounts.blank Accounts.blank (start cfg) := by
  refine ⟨fun sym b hb n hn => ?_, by simp [System.coming, start, nextItem],
    fun id hid => absurd rfl hid, rfl, trivial, by simp [start]⟩
  rw [start, lookup_init_books] at hb
  split_ifs at hb
  rw [← Option.some.inj hb] at hn
  simp [OrderBook.init, OrderBook.nodes] at hn

/-- **Every run keeps the accounts.** -/
theorem booked_of_run {cfg : Config} {ok : System → Action → Prop} {as : List Action}
    (h : RunTo cfg ok as s) : Booked ((start cfg).followed as) ((start cfg).accounts as) s := by
  refine h.invariant_history
    (I := fun as s => Booked ((start cfg).followed as) ((start cfg).accounts as) s)
    (booked_start cfg) fun as s a s' hrun ih _ hstep => ?_
  rw [followed_snoc hrun, accounts_snoc hrun]
  exact ih.step (sound_of_run hrun).founded hstep

end System

end FixExchange
