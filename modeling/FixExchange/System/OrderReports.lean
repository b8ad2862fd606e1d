/-
# What the reports about orders say

The Canceled, Replaced and status reports take their quantities from copies of the order: the
copy that a callback carries, or the one among the open orders, which the callbacks of fills and
replaces change.  A copy agrees with the account of its order as soon as no fill and no replace
of the order is pending (`copied_of_run`), unless a replace with a negative quantity has changed
the order behind the back of the gateway.  The report of an expiry and a status report are built
from the open quantity of their copy; a Canceled report that answers a request, and a Replaced
report, give the quantity of the order as open, and nothing as executed (`report_true_iff`).
-/
import FixExchange.System.FillReports
import FixExchange.System.Outcomes

namespace FixExchange

namespace System

variable {s s' : System} {a : Action} {F J : Accounts String} {journal es : List Entry}
  {id : String} {r : ExecutionReport}

/-! ## The open quantity -/

/-- The open quantity of an order: what rests of it, or all of it as long as it is on its way to
the engine. -/
def openQty (s : System) (id : String) : ℤ :=
  match restingLedger s.engine.books id with
  | some o => o.leavesQty
  | none =>
    ((s.coming.findSome? fun
      | .order o => if o.exchangeId = id then some o.qty else none
      | .cancel _ | .replace _ => none)).getD 0

/-- The order rests, or it is on its way to the engine. -/
def Alive (s : System) (id : String) : Prop :=
  restingLedger s.engine.books id ≠ none ∨ ∃ o, .order o ∈ s.coming ∧ o.exchangeId = id

/-- Nothing is open of an order that is gone. -/
lemma openQty_of_gone (h : ¬ s.Alive id) : s.openQty id = 0 := by
  rw [Alive, not_or, not_not, not_exists] at h
  have hnone : (s.coming.findSome? fun
      | .order o => if o.exchangeId = id then some o.qty else none
      | .cancel _ | .replace _ => none) = none := by
    rw [List.findSome?_eq_none_iff]
    intro item hi
    cases item with
    | order o => exact if_neg fun hid => h.2 o ⟨hi, hid⟩
    | cancel req => rfl
    | replace req => rfl
  rw [openQty, h.1]
  dsimp only
  rw [hnone]
  rfl

/-- The account of an order that is not gone has its open quantity. -/
lemma Booked.openQty_eq (h : Booked F J s) (hf : s.Founded) (halive : s.Alive id) :
    s.openQty id = (J id).openQty := by
  cases hrest : restingLedger s.engine.books id with
  | some o =>
    obtain ⟨sym, b, hb, n, hn, hid, rfl⟩ := hf.books.resting_eq_some.mp hrest
    rw [openQty, hrest, ← hid]
    exact (h.resting sym b hb n hn).2.symm
  | none =>
    obtain ⟨o, ho, hid⟩ := halive.resolve_left (not_not.mpr hrest)
    obtain ⟨q, hq⟩ : ∃ q, (s.coming.findSome? fun
        | .order o => if o.exchangeId = id then some o.qty else none
        | .cancel _ | .replace _ => none) = some q := by
      rw [← Option.isSome_iff_exists, List.findSome?_isSome_iff]
      exact ⟨.order o, ho, by simp [hid]⟩
    rw [openQty, hrest]
    dsimp only
    rw [hq]
    -- whichever order is found, the account has its quantity
    obtain ⟨item, hi, hitem⟩ := List.exists_of_findSome?_eq_some hq
    cases item with
    | order o' =>
      dsimp only at hitem
      split_ifs at hitem with hid'
      have haccount := h.coming o' hi
      rw [hid'] at haccount
      rw [haccount, ← Option.some.inj hitem, Account.openQty]
      simp
    | cancel req => exact absurd hitem (by simp)
    | replace req => exact absurd hitem (by simp)

/-! ## The copies of the gateway -/

/-- No call about a replace of the order is pending. -/
def Unreplaced (s : System) (id : String) : Prop :=
  ∀ req newLeavesQty, .onReplace req true newLeavesQty ∈ s.tasks → req.origOrderId ≠ id

/-- No fill of the order is pending. -/
def Unfilled (s : System) (id : String) : Prop := ∀ e ∈ pendingEntries s.tasks, e.orderId ≠ id

/-- The copies of the open orders agree with the accounts, as far as no call is pending that
changes them.  The engine does not tell the gateway of a replace that leaves the order with a
negative quantity. -/
def Copied (journal : List Entry) (J : Accounts String) (s : System) : Prop :=
  ∀ id o, s.gateway.active id = some o → (∀ q, .quantity id q ∈ journal → 0 ≤ q) →
    s.Unreplaced id → o.qty = (J id).qty ∧ (s.Unfilled id → o.leavesQty = (J id).openQty)

lemma Copied.of_same (h : Copied journal J s) (htasks : s'.tasks = s.tasks)
    (hactive : s'.gateway.active = s.gateway.active) : Copied journal J s' := by
  intro id o ho hnonneg hunreplaced
  rw [hactive] at ho
  rw [Unreplaced, htasks] at hunreplaced
  rw [Unfilled, htasks]
  exact h id o ho hnonneg hunreplaced

/-- A task that changes the copies of the open orders at most by dropping some. -/
lemma Copied.drop {t : Task} {ts : List Task} (h : Copied journal J s) (ht : s.tasks = t :: ts)
    (hentries : t.entries = []) (hcall : ∀ req newLeavesQty, t ≠ .onReplace req true newLeavesQty)
    (hs' : s'.tasks = ts)
    (hactive : ∀ id o, s'.gateway.active id = some o → s.gateway.active id = some o) :
    Copied journal J s' := by
  intro id o ho hnonneg hunreplaced
  obtain ⟨hqty, hleaves⟩ := h id o (hactive id o ho) hnonneg fun req n hmem => by
    rw [ht] at hmem
    rcases List.mem_cons.mp hmem with heq | hmem
    · exact absurd heq.symm (hcall req n)
    · exact hunreplaced req n (by rw [hs']; exact hmem)
  refine ⟨hqty, fun hunfilled => hleaves fun e he => ?_⟩
  rw [ht, pendingEntries_cons, hentries, List.nil_append, ← hs'] at he
  exact hunfilled e he

/-- A task brings the copy of its order up to date. -/
lemma Copied.task (h : Copied journal J s) (hb : Booked F J s)
    (hcov : s.gateway.Covered s.tasks) {t : Task} {ts : List Task} (ht : s.tasks = t :: ts) :
    Copied journal J { s with
      gateway := (s.gateway.runTask t).1
      tasks := (s.gateway.runTask t).2 ++ ts } := by
  rw [ht] at hcov
  have hmem : ∀ {t'}, t' ∈ ts → t' ∈ s.tasks := fun hm => by
    rw [ht]
    exact List.mem_cons_of_mem _ hm
  cases t with
  | fillRouting fill =>
    have hall := hcov.allCovered fun _ _ => by simp
    intro id o ho hnonneg hunreplaced
    replace ho : (s.gateway.runTask (.fillRouting fill)).1.active id = some o := ho
    rw [active_fillRouting] at ho
    obtain ⟨hqty, hleaves⟩ := h id o ho hnonneg fun req n hm => by
      rw [ht] at hm
      exact hunreplaced req n (List.mem_append_right _ (List.mem_of_ne_of_mem (by simp) hm))
    refine ⟨hqty, fun hunfilled => hleaves fun e he => ?_⟩
    rw [ht, pendingEntries_cons, Task.entries_eq s.gateway, List.append_assoc,
      ← pendingEntries_append] at he
    rcases List.mem_append.mp he with he | he
    · -- a fill is given up when its order has no session, and then it is not open
      simp only [Task.follows] at he
      split_ifs at he with hs
      · rw [List.mem_singleton.mp he]
        rintro rfl
        exact absurd (ho.symm.trans (hall _ hs)) (by simp)
      · exact absurd he List.not_mem_nil
    · exact hunfilled e he
  | fillOrders fill session =>
    intro id o ho hnonneg hunreplaced
    have hunreplaced' : s.Unreplaced id := fun req n hm => by
      rw [ht] at hm
      exact hunreplaced req n (List.mem_of_ne_of_mem (by simp) hm)
    replace ho : OrderLedger.setOpen s.gateway.active fill.exchangeId fill.leavesQty id = some o :=
      (congrFun (FixGateway.active_setLeaves _ _ _) id).symm.trans ho
    by_cases hid : id = fill.exchangeId
    · subst hid
      rw [OrderLedger.setOpen_self] at ho
      split_ifs at ho with h0
      obtain ⟨o', ho', rfl⟩ := Option.map_eq_some_iff.mp ho
      refine ⟨(h _ o' ho' hnonneg hunreplaced').1, fun hunfilled => ?_⟩
      -- the fill is the last one of its order, and states the account
      have hlast : J fill.exchangeId = F.spend fill.exchangeId fill.qty fill.exchangeId := by
        rw [hb.pending, ht, pendingEntries_cons, Entry.enterAll_append]
        exact Entry.enterAll_of_ne fun e he => (hunfilled e he).symm
      rw [hlast]
      exact (hb.reported ht).2
    · rw [OrderLedger.setOpen_of_ne hid] at ho
      obtain ⟨hqty, hleaves⟩ := h id o ho hnonneg hunreplaced'
      refine ⟨hqty, fun hunfilled => hleaves fun e he => ?_⟩
      rw [ht, pendingEntries_cons] at he
      rcases List.mem_append.mp he with he | he
      · rw [List.mem_singleton.mp he]
        exact Ne.symm hid
      · exact hunfilled e he
  | onReplace req found n =>
    have hall := hcov.allCovered fun _ _ => by simp
    have hruns : s.gateway.RunsTo (.onReplace req found n) [] (s.gateway.onReplace req found n) [] :=
      FixGateway.onReplace_runsTo hall req found n
    have hactive : (s.gateway.onReplace req found n).active
        = (Task.onReplace req found n).onActive s.gateway.active := hruns.settle
    cases found with
    | false =>
      refine h.drop ht rfl (fun _ _ => by simp) rfl fun id o ho => ?_
      exact (congrFun hactive id).symm.trans ho
    | true =>
      intro id o ho hnonneg hunreplaced
      replace ho := (congrFun hactive id).symm.trans ho
      by_cases hid : id = req.origOrderId
      · subst hid
        obtain ⟨hn, hqty, hopen⟩ : 0 ≤ n ∧ (J req.origOrderId).qty = req.newQty ∧
          (J req.origOrderId).openQty = n :=
          hb.tells (.onReplace req true n) (by rw [ht]; exact List.mem_cons_self)
        simp only [Task.onActive, if_true] at ho
        split_ifs at ho with h0
        · rw [Ledger.drop_self] at ho
          exact absurd ho (by simp)
        · rw [Ledger.adjust_self] at ho
          obtain ⟨o', -, rfl⟩ := Option.map_eq_some_iff.mp ho
          exact ⟨hqty.symm, fun _ => (max_eq_right hn).trans hopen.symm⟩
      · rw [Task.onActive_of_notMem (by simpa [Task.ids] using hid)] at ho
        obtain ⟨hqty, hleaves⟩ := h id o ho hnonneg fun req' n' hm => by
          rw [ht] at hm
          rcases List.mem_cons.mp hm with heq | hm
          · obtain ⟨rfl, -⟩ := Task.onReplace.inj heq
            exact Ne.symm hid
          · exact hunreplaced req' n' hm
        refine ⟨hqty, fun hunfilled => hleaves fun e he => ?_⟩
        rw [ht] at he
        exact hunfilled e he
  | onCancel req found =>
    refine h.drop ht rfl (fun _ _ => by simp) rfl fun id o ho => ?_
    rcases FixGateway.runTask_active s.gateway (.onCancel req found) with hsame | hsame <;>
      replace ho := (congrFun hsame id).symm.trans ho
    · exact ho
    · simp only [Task.onActive] at ho
      split_ifs at ho
      · exact Ledger.of_drop_eq_some ho
      · exact ho
  | onTIFCancel order =>
    refine h.drop ht rfl (fun _ _ => by simp) rfl fun id o ho => ?_
    rcases FixGateway.runTask_active s.gateway (.onTIFCancel order) with hsame | hsame <;>
      replace ho := (congrFun hsame id).symm.trans ho
    · exact ho
    · exact Ledger.of_drop_eq_some ho
  | fillDone maker taker => exact h.drop ht rfl (fun _ _ => by simp) rfl fun _ _ ho => ho
  | onOrderRested order leavesQty =>
    exact h.drop ht rfl (fun _ _ => by simp) rfl fun _ _ ho => ho

/-- An item changes the account of an order by entries that are pending, or by a replace of
which the gateway is told. -/
lemma Copied.take (h : Copied journal J s) (hf : s.Founded) {item : WorkItem}
    {queue : List WorkItem} {b : OrderBook} (ht : s.tasks = [])
    (hb : s.engine.books.lookup item.symbol = some b) :
    Copied (journal ++ b.itemEntries item) (Entry.enterAll J (b.itemEntries item)) { s with
      engine := { s.engine with books := s.engine.books.insert item.symbol (processIn b item).1 }
      queue := queue
      tasks := (processIn b item).2.flatMap Callback.tasks } := by
  intro id o ho hnonneg hunreplaced
  obtain ⟨hqty, hleaves⟩ := h id o ho (fun q hq => hnonneg q (List.mem_append_left _ hq))
    fun req n hm => by
      rw [ht] at hm
      exact absurd hm List.not_mem_nil
  -- the gateway is told of the quantity of a replace
  have hrenewal : ∀ e ∈ b.renewal item, e.orderId ≠ id := by
    rintro e he rfl
    cases item with
    | replace req =>
      simp only [OrderBook.renewal] at he
      split_ifs at he with hfound
      · obtain rfl := List.mem_singleton.mp he
        have hq : 0 ≤ req.newQty := hnonneg _ (List.mem_append_right _ (List.mem_append_left _
          (by rw [OrderBook.renewal, if_pos hfound]; exact List.mem_singleton.mpr rfl)))
        have hvalue := OrderBook.replace_value_nonneg (hf.books.wf _ b hb) hfound hq
        refine hunreplaced req (b.replace req.origOrderId req.newPrice req.newQty).value ?_ rfl
        show _ ∈ (processReplace b req).2.flatMap Callback.tasks
        rw [processReplace, List.flatMap_append, ← decide_eq_true hvalue]
        exact List.mem_append_right _ (List.mem_singleton.mpr rfl)
      · exact absurd he List.not_mem_nil
    | order o => exact absurd he List.not_mem_nil
    | cancel req => exact absurd he List.not_mem_nil
  have hunset : ∀ q, .quantity id q ∉ b.itemEntries item := by
    intro q he
    rcases List.mem_append.mp he with he | he
    · exact hrenewal _ he rfl
    · obtain ⟨t, -, fill, heq, -⟩ := mem_pendingEntries he
      exact absurd heq (by simp)
  refine ⟨by rw [(Entry.enterAll_unset hunset).1, hqty], fun hunfilled => ?_⟩
  have hsame : Entry.enterAll J (b.itemEntries item) id = J id := by
    refine Entry.enterAll_of_ne fun e he => Ne.symm ?_
    rcases List.mem_append.mp he with he | he
    · exact hrenewal e he
    · exact hunfilled e he
  rw [hsame]
  refine hleaves fun e he => ?_
  rw [ht] at he
  exact absurd he List.not_mem_nil

/-- The copy of an order that is acknowledged. -/
lemma Copied.activate (h : Copied journal J s) (hf : s.Founded) {o : Order} {session : SessionID}
    (hh : s.handler = .activate o session) :
    Copied (journal ++ [.quantity o.exchangeId o.qty]) (J.renew o.exchangeId o.qty) { s with
      gateway := (s.gateway.activateOrder o).ackOrder o session
      handler := .submit o } := by
  have hpending : o ∈ s.handler.pending := by rw [hh]; rfl
  intro id o' ho hnonneg hunreplaced
  rcases active_activateOrder ho with ho | ⟨rfl, rfl⟩
  · have hne : id ≠ o.exchangeId := by
      rintro rfl
      obtain ⟨-, hk | hk⟩ := hf.maps.active _ _ ho
      · exact hk.2 o hpending rfl
      · exact absurd (hh.symm.trans hk) (by simp)
    rw [Accounts.renew_of_ne hne]
    exact h id o' ho (fun q hq => hnonneg q (List.mem_append_left _ hq)) hunreplaced
  · rw [Accounts.renew_self, Account.renew_openQty]
    exact ⟨rfl, fun _ => (hf.handler.pending _ hpending).2.1⟩

/-- **One step** keeps the copies in agreement with the accounts. -/
theorem Copied.step (h : Copied journal J s) (hb : Booked F J s) (hs : s.Sound)
    (hstep : s.step a = some s') :
    Copied (journal ++ s.enters a) (Entry.enterAll J (s.enters a)) s' := by
  have hnothing : s.enters a = [] → Copied journal J s' →
      Copied (journal ++ s.enters a) (Entry.enterAll J (s.enters a)) s' := by
    intro hnone hsame
    rw [hnone, List.append_nil]
    exact hsame
  cases a with
  | message msg session =>
    refine hnothing rfl ?_
    obtain ⟨-, rfl⟩ := step_message hstep
    refine h.of_same rfl ?_
    rcases onMessage_cases s session msg with ⟨seq, sent, heq, -⟩ | ⟨m, o, -, -, heq⟩ |
        ⟨m, req, -, -, heq⟩ | ⟨m, req, -, -, heq⟩ <;>
      rw [heq] <;> rfl
  | logon session =>
    refine hnothing rfl ?_
    obtain ⟨-, rfl⟩ := step_logon hstep
    exact h.of_same rfl rfl
  | handle =>
    rcases handle_cases hstep with ⟨o, session, hh, rfl⟩ | ⟨o, session, hh, rfl⟩ | ⟨item, hitem, rfl⟩
    · exact hnothing (by rw [enters, acknowledged, hh]) (h.of_same rfl rfl)
    · rw [enters, acknowledged, hh]
      exact h.activate hs.founded hh
    · refine hnothing ?_ (h.of_same rfl rfl)
      rw [enters, acknowledged]
      cases hh : s.handler <;> simp [hh, nextItem] at hitem ⊢
  | engine =>
    rcases engineStep_cases hstep with ⟨t, ts, ht, rfl⟩ | ⟨ht, item, queue, b, hq, hlookup, rfl⟩
    · exact hnothing (enters_task ht).1 (h.task hb hs.maps.covered ht)
    · rw [(enters_take ht hq hlookup).1]
      exact h.take hs.founded ht hlookup
  | persist =>
    refine hnothing rfl ?_
    obtain ⟨p, p', -, -, rfl⟩ := step_persist hstep
    exact h.of_same rfl rfl
  | registerSymbol symbol =>
    refine hnothing rfl ?_
    obtain ⟨e, -, rfl⟩ := step_registerSymbol hstep
    exact h.of_same rfl rfl

/-- While the call about a replace is pending, what the replace has left of the order rests. -/
def Requeued (s : System) : Prop :=
  ∀ req newLeavesQty, .onReplace req true newLeavesQty ∈ s.tasks → newLeavesQty ≠ 0 →
    restingLedger s.engine.books req.origOrderId ≠ none

lemma Requeued.of_same (h : s.Requeued) (htasks : s'.tasks = s.tasks)
    (hbooks : restingLedger s'.engine.books = restingLedger s.engine.books) : s'.Requeued := by
  intro req n hmem
  rw [htasks] at hmem
  rw [hbooks]
  exact h req n hmem

/-- The call that the engine makes for an item about a replace. -/
lemma mem_processIn_onReplace {b : OrderBook} {item : WorkItem} {req : ReplaceRequest} {n : ℤ}
    (h : .onReplace req true n ∈ (processIn b item).2.flatMap Callback.tasks) :
    item = .replace req ∧ n = (b.replace req.origOrderId req.newPrice req.newQty).value ∧ 0 ≤ n := by
  have hfills : ∀ {fs : List FillPair},
      .onReplace req true n ∉ (fillCallbacks fs).flatMap Callback.tasks := by
    intro fs hmem
    obtain ⟨cb, hcb, ht⟩ := List.mem_flatMap.mp hmem
    obtain ⟨f, -, rfl⟩ := OrderBook.mem_fillCallbacks.mp hcb
    rcases OrderBook.mem_onFill_tasks ht with heq | heq | heq <;> exact absurd heq (by simp)
  cases item with
  | order o =>
    rcases OrderBook.processOrder_cases b o with hkill | ⟨last, hadd, hlast⟩
    · rw [processIn, hkill] at h
      exact absurd (List.mem_singleton.mp h) (by simp)
    · rw [processIn, hadd, List.flatMap_append] at h
      have hmem := (List.mem_append.mp h).resolve_left hfills
      rcases hlast with rfl | ⟨rfl, -, -⟩ | rfl
      · exact absurd hmem List.not_mem_nil
      · exact absurd (List.mem_singleton.mp hmem) (by simp)
      · exact absurd (List.mem_singleton.mp hmem) (by simp)
  | cancel req' => exact absurd (List.mem_singleton.mp h) (by simp)
  | replace req' =>
    rw [processIn, processReplace, List.flatMap_append] at h
    have hmem := List.mem_singleton.mp ((List.mem_append.mp h).resolve_left hfills)
    obtain ⟨rfl, hfound, rfl⟩ := Task.onReplace.inj hmem
    exact ⟨rfl, rfl, of_decide_eq_true hfound.symm⟩

/-- **One step** keeps what is left of the replaced orders in the books. -/
theorem Requeued.step (h : s.Requeued) (hf : s.Founded) (hstep : s.step a = some s') :
    s'.Requeued := by
  have hf' := hf.step hstep
  cases a with
  | message msg session =>
    obtain ⟨-, rfl⟩ := step_message hstep
    exact h.of_same rfl rfl
  | logon session =>
    obtain ⟨-, rfl⟩ := step_logon hstep
    exact h.of_same rfl rfl
  | handle =>
    rcases handle_cases hstep with ⟨o, session, hh, rfl⟩ | ⟨o, session, hh, rfl⟩ | ⟨item, hitem, rfl⟩
    all_goals exact h.of_same rfl rfl
  | engine =>
    rcases engineStep_cases hstep with ⟨t, ts, ht, rfl⟩ | ⟨-, item, queue, b, -, hb, rfl⟩
    · intro req n hmem
      refine h req n ?_
      rw [ht]
      rcases List.mem_append.mp hmem with hmem | hmem
      · -- what a task leaves to be done is about a fill
        cases t with
        | fillRouting fill =>
          simp only [FixGateway.runTask] at hmem
          split at hmem
          · exact absurd hmem List.not_mem_nil
          · exact absurd (List.mem_singleton.mp hmem) (by simp)
        | _ => exact absurd hmem List.not_mem_nil
      · exact List.mem_cons_of_mem _ hmem
    · intro req n hmem hn
      obtain ⟨rfl, rfl, hle⟩ := mem_processIn_onReplace hmem
      obtain ⟨m, hm, hid⟩ := OrderBook.replace_rests (hf.books.wf _ b hb) (hf.books.patient _ b hb)
        (lt_of_le_of_ne hle hn.symm)
      exact hf'.resting_iff.mpr ⟨_, _, AList.lookup_insert _, m, hm, hid⟩
  | persist =>
    obtain ⟨p, p', -, -, rfl⟩ := step_persist hstep
    exact h.of_same rfl rfl
  | registerSymbol symbol =>
    have hledger := resting_registerSymbol hf hstep
    obtain ⟨e, -, rfl⟩ := step_registerSymbol hstep
    exact h.of_same rfl hledger

/-- The call about a replace has the open quantity of the order. -/
lemma Requeued.openQty_eq (h : s.Requeued) (hb : Booked F J s) (hf : s.Founded)
    {req : ReplaceRequest} {n : ℤ} (hmem : .onReplace req true n ∈ s.tasks) :
    s.openQty req.origOrderId = n := by
  have htells : 0 ≤ n ∧ (J req.origOrderId).qty = req.newQty ∧
    (J req.origOrderId).openQty = n := hb.tells _ hmem
  by_cases halive : s.Alive req.origOrderId
  · exact (hb.openQty_eq hf halive).trans htells.2.2
  · rw [openQty_of_gone halive]
    by_contra hne
    exact halive (Or.inl (h req n hmem (Ne.symm hne)))

/-! ## The reports -/

/-- The report states what has been executed of its order, and what is open of it; nothing is
open of a cancelled order. -/
structure ReportTrue (s : System) (J : Accounts String) (r : ExecutionReport) : Prop where
  cumQty : r.cumQty = (J r.orderId).spent
  leavesQty : r.leavesQty =
    if r.execType = ExecType.Canceled.char then 0 else s.openQty r.orderId

/-- The copy that the gateway has of an order is up to date: the order is not gone, no call about
a fill or a replace of it is pending, and its quantity has never been set below zero. -/
structure UpToDate (s : System) (journal : List Entry) (id : String) : Prop where
  alive : s.Alive id
  unreplaced : s.Unreplaced id
  unfilled : s.Unfilled id
  nonneg : ∀ q, .quantity id q ∈ journal → 0 ≤ q

/-- When the report that a step sends about an order is true. -/
inductive Faithful (s : System) (journal : List Entry) (J : Accounts String) :
    Action → String → Prop
  /-- Always for an order that expires. -/
  | expired {o : Order} {ts : List Task} (ht : s.tasks = .onTIFCancel o :: ts) :
      Faithful s journal J .engine o.exchangeId
  /-- For an order that is cancelled on request: if it has no quantity. -/
  | canceled {req : CancelRequest} {o : Order} {ts : List Task}
      (ht : s.tasks = .onCancel req true :: ts)
      (ho : s.gateway.active req.origOrderId = some o) (hqty : o.qty = 0)
      (hspent : (J req.origOrderId).spent = 0) : Faithful s journal J .engine req.origOrderId
  /-- For an order that is replaced: if nothing of it has been executed, by the replace or
  before. -/
  | replaced {req : ReplaceRequest} {newLeavesQty : ℤ} {ts : List Task}
      (ht : s.tasks = .onReplace req true newLeavesQty :: ts)
      (hspent : (J req.origOrderId).spent = 0) (hearlier : (J req.origOrderId).earlier = 0) :
      Faithful s journal J .engine req.origOrderId
  /-- For an order that a status report is about: if the copy of the gateway is up to date, and
  nothing of the order had been executed when its quantity was set for the last time. -/
  | status {session : SessionID} {id : String} (hcopy : s.UpToDate journal id)
      (hearlier : (J id).earlier = 0) : Faithful s journal J (.logon session) id

/-- What makes the report of a cancel faithful. -/
lemma Faithful.of_onCancel {req : CancelRequest} {ts : List Task}
    (h : s.Faithful journal J .engine id) (ht : s.tasks = .onCancel req true :: ts) :
    (∃ o, s.gateway.active req.origOrderId = some o ∧ o.qty = 0) ∧
      (J req.origOrderId).spent = 0 := by
  cases h with
  | expired ht' => exact absurd (ht.symm.trans ht') (by simp)
  | canceled ht' ho hqty hspent =>
    obtain ⟨rfl, -⟩ := Task.onCancel.inj (List.cons.inj (ht.symm.trans ht')).1
    exact ⟨⟨_, ho, hqty⟩, hspent⟩
  | replaced ht' => exact absurd (ht.symm.trans ht') (by simp)

/-- What makes the report of a replace faithful. -/
lemma Faithful.of_onReplace {req : ReplaceRequest} {n : ℤ} {ts : List Task}
    (h : s.Faithful journal J .engine id) (ht : s.tasks = .onReplace req true n :: ts) :
    (J req.origOrderId).spent = 0 ∧ (J req.origOrderId).earlier = 0 := by
  cases h with
  | expired ht' => exact absurd (ht.symm.trans ht') (by simp)
  | canceled ht' => exact absurd (ht.symm.trans ht') (by simp)
  | replaced ht' hspent hearlier =>
    obtain ⟨rfl, -⟩ := Task.onReplace.inj (List.cons.inj (ht.symm.trans ht')).1
    exact ⟨hspent, hearlier⟩

/-- A Canceled or Replaced report is true exactly where it is faithful. -/
lemma LiveReport.true_iff (hb : Booked F J s) (hf : s.Founded) (hreq : s.Requeued)
    (hr : s.LiveReport a r)
    (htype : r.execType = ExecType.Canceled.char ∨ r.execType = ExecType.Replaced.char) :
    s.ReportTrue J r ↔ s.Faithful journal J a r.orderId := by
  cases hr with
  | rejected | new => exact absurd htype (by simp [makeExecReport, ExecType.char])
  | @fill fill =>
    refine absurd htype ?_
    by_cases h0 : fill.leavesQty = 0 <;> simp [makeFillReport, ExecType.char, h0]
  | @expired o session ts ht hs =>
    obtain ⟨hagrees, hearlier⟩ : o.Agrees J ∧ (J o.exchangeId).earlier = 0 :=
      hb.tells (.onTIFCancel o) (by rw [ht]; exact List.mem_cons_self)
    refine iff_of_true ⟨?_, rfl⟩ (.expired ht)
    show o.qty - o.leavesQty = (J o.exchangeId).spent
    rw [← hagrees.1, ← hagrees.2]
    exact (Account.spent_iff _).mpr hearlier
  | @canceled req o session ts ht hs ho =>
    have hid : o.exchangeId = req.origOrderId := (hf.maps.active _ o ho).1
    have hiff : s.ReportTrue J (makeExecReport o .Canceled) ↔
        o.qty = 0 ∧ (J req.origOrderId).spent = 0 := by
      rw [← hid]
      exact ⟨fun htrue => ⟨htrue.leavesQty, htrue.cumQty.symm⟩, fun h => ⟨h.2.symm, h.1⟩⟩
    rw [hiff]
    show _ ↔ s.Faithful journal J .engine o.exchangeId
    constructor
    · rintro ⟨hqty, hspent⟩
      rw [hid]
      exact .canceled ht ho hqty hspent
    · intro hfaithful
      obtain ⟨⟨o', ho', hqty⟩, hspent⟩ := hfaithful.of_onCancel ht
      obtain rfl := Option.some.inj (ho'.symm.trans ho)
      exact ⟨hqty, hspent⟩
  | @replaced req n o session ts ht hs ho =>
    have hid : o.exchangeId = req.origOrderId := (hf.maps.active _ o ho).1
    have hmem : .onReplace req true n ∈ s.tasks := by
      rw [ht]
      exact List.mem_cons_self
    obtain ⟨-, hqty, hopen⟩ : 0 ≤ n ∧ (J req.origOrderId).qty = req.newQty ∧
      (J req.origOrderId).openQty = n := hb.tells _ hmem
    have hleft := hreq.openQty_eq hb hf hmem
    -- the report has the new quantity as the open one
    have hiff : s.ReportTrue J { makeExecReport (FixGateway.replaced o req n) .Replaced with
          origClOrdId := some req.oldClordId } ↔
        (J req.origOrderId).spent = 0 ∧ n = req.newQty := by
      rw [← hleft, ← hid]
      exact ⟨fun htrue => ⟨htrue.cumQty.symm, htrue.leavesQty.symm⟩, fun h => ⟨h.1.symm, h.2.symm⟩⟩
    have hunspent : (J req.origOrderId).spent = 0 →
        (n = req.newQty ↔ (J req.origOrderId).earlier = 0) := by
      intro hspent
      rw [← hopen, ← hqty, Account.openQty, hspent]
      omega
    rw [hiff, and_congr_right hunspent]
    show _ ↔ s.Faithful journal J .engine o.exchangeId
    rw [hid]
    exact ⟨fun h => .replaced ht h.1 h.2, fun h => h.of_onReplace ht⟩

end System

end FixExchange
