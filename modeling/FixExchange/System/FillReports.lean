/-
# What the fill reports say

Each fill of an order is reported once, in the order of the fills, when the replaces of the run
carry positive quantities (`reported_of_run`): no fill finds its order without a session
(`Heard`).  A report takes its quantities from the book, where a replace sets the quantity of an
order anew whatever has been executed of it before; the cumulative quantity is therefore the
executed one as long as no replace comes after a fill (`fill_report_true_iff`).
-/
import FixExchange.System.Accounts
import FixExchange.System.Admission

namespace FixExchange

/-! ## Fills behind which no report is lost -/

/-- The call about a replace comes behind its fills. -/
def Task.Trails (t t' : Task) : Prop :=
  ∀ req found newLeavesQty, t = .onReplace req found newLeavesQty → t'.entries = []

namespace OrderBook

variable {b : OrderBook} {item : WorkItem}

lemma fillTasks_trails {fs : List FillPair} {t : Task} (ht : t ∈ fillTasks fs) (t' : Task) :
    t.Trails t' := by
  obtain ⟨cb, hcb, ht⟩ := List.mem_flatMap.mp ht
  obtain ⟨f, -, rfl⟩ := mem_fillCallbacks.mp hcb
  rcases mem_onFill_tasks ht with rfl | rfl | rfl <;>
    exact fun req found n heq => absurd heq (by simp)

/-- Behind the call about a replace there are no fills. -/
lemma processIn_trails (b : OrderBook) (item : WorkItem) :
    ((processIn b item).2.flatMap Callback.tasks).Pairwise Task.Trails := by
  have hfills : ∀ (fs : List FillPair) (last : Task),
      (fillTasks fs ++ [last]).Pairwise Task.Trails := by
    intro fs last
    refine List.pairwise_append.mpr ⟨?_, List.pairwise_singleton _ _,
      fun t ht t' _ => fillTasks_trails ht t'⟩
    exact List.Pairwise.imp_of_mem (fun ht _ _ => fillTasks_trails ht _)
      (List.pairwise_of_forall (R := fun _ _ => True) fun _ _ => trivial)
  cases item with
  | order o =>
    rcases processOrder_cases b o with hkill | ⟨last, hadd, hlast⟩
    · rw [processIn, hkill]
      exact List.pairwise_singleton _ _
    · rw [processIn, hadd, List.flatMap_append]
      rcases hlast with rfl | ⟨rfl, -, -⟩ | rfl
      · show (fillTasks (b.add o).fills ++ []).Pairwise Task.Trails
        rw [List.append_nil]
        exact (List.pairwise_append.mp (hfills (b.add o).fills (.onTIFCancel o))).1
      · exact hfills _ _
      · exact hfills _ _
  | cancel req => exact List.pairwise_singleton _ _
  | replace req =>
    rw [processIn, processReplace, List.flatMap_append]
    exact hfills _ _

end OrderBook

namespace System

variable {s s' : System} {a : Action} {as : List Action}

/-- Every fill that the gateway has yet to learn of is of at least one share, and its order is
open. -/
structure Heard (s : System) : Prop where
  trails : s.tasks.Pairwise Task.Trails
  positive : ∀ fill, .trade fill ∈ pendingEntries s.tasks → 0 < fill.qty
  isOpen : ∀ fill, .trade fill ∈ pendingEntries s.tasks → s.gateway.active fill.exchangeId ≠ none

/-- A step that leaves the tasks and drops no open order. -/
lemma Heard.of_same (h : s.Heard) (htasks : s'.tasks = s.tasks)
    (hactive : ∀ id, s.gateway.active id ≠ none → s'.gateway.active id ≠ none) : s'.Heard :=
  ⟨by rw [htasks]; exact h.trails, by rw [htasks]; exact h.positive, fun fill hfill =>
    hactive _ (h.isOpen fill (by rw [← htasks]; exact hfill))⟩

/-- The first section of a fill does not touch the open orders. -/
lemma active_fillRouting (g : FixGateway) (fill : Fill) :
    (g.runTask (.fillRouting fill)).1.active = g.active := by
  simp only [FixGateway.runTask, FixGateway.fillRouting]
  split
  · rfl
  · split_ifs <;> rfl

lemma Heard.task (h : s.Heard) (hc : s.Closing) {t : Task} {ts : List Task}
    (ht : s.tasks = t :: ts) :
    ({ s with
      gateway := (s.gateway.runTask t).1
      tasks := (s.gateway.runTask t).2 ++ ts } : System).Heard := by
  have htrails := h.trails
  have hbefore := hc.before
  rw [ht, List.pairwise_cons] at htrails hbefore
  have hold : ∀ fill, .trade fill ∈ pendingEntries ((s.gateway.runTask t).2 ++ ts) →
      .trade fill ∈ pendingEntries s.tasks := by
    intro fill hfill
    rw [ht, pendingEntries_cons, Task.entries_eq s.gateway t, List.append_assoc,
      ← pendingEntries_append]
    exact List.mem_append_right _ hfill
  refine ⟨?_, fun fill hfill => h.positive fill (hold fill hfill), fun fill hfill => ?_⟩
  · refine List.pairwise_append.mpr ⟨?_, htrails.2, fun t' ht' t'' ht'' => ?_⟩
    · cases hrest : (s.gateway.runTask t).2 with
      | nil => exact List.Pairwise.nil
      | cons t' ts' =>
        have ht' : t' ∈ (s.gateway.runTask t).2 := by
          rw [hrest]
          exact List.mem_cons_self
        rw [← hrest, (runTask_closes ht').2.2]
        exact List.pairwise_singleton _ _
    · -- what is left of a task is the second section of a fill
      cases t with
      | fillRouting fill' =>
        simp only [FixGateway.runTask] at ht'
        split at ht'
        · exact absurd ht' List.not_mem_nil
        · rw [List.mem_singleton.mp ht']
          exact fun req found n heq => absurd heq (by simp)
      | _ => exact absurd ht' List.not_mem_nil
  · have hopen := h.isOpen fill (hold fill hfill)
    cases t with
    | fillRouting fill' =>
      show (s.gateway.runTask (.fillRouting fill')).1.active _ ≠ none
      rw [active_fillRouting]
      exact hopen
    | _ =>
      rcases FixGateway.runTask_active s.gateway _ with hsame | hsame
      · show (s.gateway.runTask _).1.active _ ≠ none
        rw [hsame]
        exact hopen
      · show (s.gateway.runTask _).1.active _ ≠ none
        rw [hsame]
        intro hnone
        obtain ⟨t', ht', fill', heq, hentries, -⟩ := mem_pendingEntries hfill
        obtain rfl := Entry.trade.inj heq
        have htells : t'.tells = some fill.exchangeId := by
          cases t' with
          | fillRouting fill'' | fillOrders fill'' session =>
            obtain rfl := Entry.trade.inj (List.singleton_inj.mp hentries)
            rfl
          | _ => exact absurd hentries (by simp [Task.entries])
        rcases Task.closes_of_onActive hnone hopen with hcloses | ⟨req, heq, -⟩
        · exact hbefore.1 t' ht' _ hcloses htells
        · rw [htrails.1 t' ht' _ _ _ heq] at hentries
          exact absurd hentries (by simp)

lemma Heard.take (hf : s.Founded) (hsync : s.Synced) {item : WorkItem} {queue : List WorkItem}
    {b : OrderBook} (ht : s.tasks = []) (hq : s.queue = item :: queue)
    (hb : s.engine.books.lookup item.symbol = some b) :
    ({ s with
      engine := { s.engine with books := s.engine.books.insert item.symbol (processIn b item).1 }
      queue := queue
      tasks := (processIn b item).2.flatMap Callback.tasks } : System).Heard := by
  have hmem : item ∈ s.queue := by rw [hq]; exact List.mem_cons_self
  have hwf := hf.books.wf _ b hb
  refine ⟨OrderBook.processIn_trails b item, fun fill hfill => ?_, fun fill hfill => ?_⟩
  · obtain ⟨t, htask, fill', heq, hentries, -⟩ := mem_pendingEntries hfill
    refine OrderBook.processIn_fill_qty hwf (hsync.positive _ b hb) htask (f := fill) ?_
    cases t with
    | fillRouting fill'' | fillOrders fill'' session =>
      obtain rfl := Entry.trade.inj (List.singleton_inj.mp hentries)
      exact List.mem_singleton.mpr rfl
    | _ => exact absurd hentries (by simp [Task.entries])
  · have hentry : .trade fill ∈ b.itemEntries item := List.mem_append_right _ hfill
    rcases OrderBook.itemEntries_ids hwf (hf.books.keyed _ b hb) hentry with
      ⟨o, rfl, hid⟩ | ⟨m, hm, hid⟩
    · have hopen := (hsync.order_open hf ht hmem o rfl).1
      rw [← hid] at hopen
      show s.gateway.active fill.exchangeId ≠ none
      rw [show fill.exchangeId = (Entry.trade fill).orderId from rfl, hopen]
      simp
    · obtain ⟨aₒ, haₒ, -⟩ := hsync.active_agrees ht _ _
        (hf.books.resting_eq_some.mpr ⟨_, b, hb, m, hm, rfl, rfl⟩)
      show s.gateway.active fill.exchangeId ≠ none
      rw [show fill.exchangeId = (Entry.trade fill).orderId from rfl, hid, haₒ]
      simp

/-- **One step** loses no fill. -/
theorem Heard.step (h : s.Heard) (hf : s.Founded) (hsync : s.Synced) (hc : s.Closing)
    (hstep : s.step a = some s') : s'.Heard := by
  cases a with
  | message msg session =>
    obtain ⟨-, rfl⟩ := step_message hstep
    refine h.of_same rfl fun id hid => ?_
    rcases onMessage_cases s session msg with ⟨seq, sent, heq, -⟩ | ⟨m, o, -, -, heq⟩ |
        ⟨m, req, -, -, heq⟩ | ⟨m, req, -, -, heq⟩ <;>
      rw [heq] <;> exact hid
  | logon session =>
    obtain ⟨-, rfl⟩ := step_logon hstep
    exact h.of_same rfl fun _ hid => hid
  | handle =>
    rcases handle_cases hstep with ⟨o, session, -, rfl⟩ | ⟨o, session, hh, rfl⟩ | ⟨item, -, rfl⟩
    · exact h.of_same rfl fun _ hid => hid
    · exact h.of_same rfl fun _ hid => StrMap.lookup_emplace_ne_none hid
    · exact h.of_same rfl fun _ hid => hid
  | engine =>
    rcases engineStep_cases hstep with ⟨t, ts, ht, rfl⟩ | ⟨ht, item, queue, b, hq, hb, rfl⟩
    · exact h.task hc ht
    · exact Heard.take hf hsync ht hq hb
  | persist =>
    obtain ⟨p, p', -, -, rfl⟩ := step_persist hstep
    exact h.of_same rfl fun _ hid => hid
  | registerSymbol symbol =>
    obtain ⟨e, -, rfl⟩ := step_registerSymbol hstep
    exact h.of_same rfl fun _ hid => hid

/-- Every run whose replaces carry positive quantities loses no fill. -/
lemma heard_of_run {cfg : Config} (h : RunTo cfg (fun _ a => a.ReplacesPositive) as s) :
    s.Heard ∧ s.Closing := by
  refine h.invariant (I := fun s => s.Heard ∧ s.Closing)
    ⟨⟨List.Pairwise.nil, by simp [start, pendingEntries], by simp [start, pendingEntries]⟩,
      (StartsOn.fresh : StartsOn cfg Database.empty (start cfg)).closing⟩
    fun as s a s' hrun ih _ hstep => ?_
  have hf := (sound_of_run hrun).founded
  have hsync := synced_of_run (fun _ _ hok => forwardsPositive_of_replacesPositive hok) hrun
  exact ⟨ih.1.step hf hsync ih.2 hstep, ih.2.step hf hstep⟩

/-- The order of a fill has a session when the gateway comes to it. -/
lemma Heard.session (h : s.Heard) (hcov : s.gateway.Covered s.tasks) {fill : Fill} {ts : List Task}
    (ht : s.tasks = .fillRouting fill :: ts) :
    s.gateway.orderSessions.lookup fill.exchangeId ≠ none := by
  have hopen := h.isOpen fill (by rw [ht]; exact List.mem_cons_self)
  rcases hcov _ hopen with hs | ⟨fill', session, ts', heq, -⟩
  · exact hs
  · exact absurd (ht.symm.trans heq) (by simp)

end System

/-! ## The reports of a run -/

namespace ExecutionReport

/-- A report about a fill of an order. -/
def IsFill (r : ExecutionReport) : Prop :=
  r.execType = ExecType.PartFill.char ∨ r.execType = ExecType.Fill.char

instance (r : ExecutionReport) : Decidable r.IsFill := by
  unfold IsFill
  infer_instance

end ExecutionReport

/-- The reports about fills of an order. -/
def fillReports (id : String) (reports : List ExecutionReport) : List ExecutionReport :=
  reports.filter fun r => r.orderId = id ∧ r.IsFill

section

variable {id : String} {r : ExecutionReport}

lemma fillReports_append (id : String) (reports reports' : List ExecutionReport) :
    fillReports id (reports ++ reports') = fillReports id reports ++ fillReports id reports' :=
  List.filter_append ..

lemma fillReports_self (h : r.IsFill) : fillReports r.orderId [r] = [r] :=
  List.filter_cons_of_pos (by simpa using h)

lemma fillReports_of_ne (h : r.orderId ≠ id) : fillReports id [r] = [] :=
  List.filter_cons_of_neg (by simp [h])

end

/-- What has been executed of an order by the reports: the sum of their `LastShares`. -/
def executedQty (id : String) (reports : List ExecutionReport) : ℤ :=
  ((fillReports id reports).map fun r => r.lastShares.getD 0).sum

lemma executedQty_append (id : String) (reports reports' : List ExecutionReport) :
    executedQty id (reports ++ reports') = executedQty id reports + executedQty id reports' := by
  rw [executedQty, fillReports_append, List.map_append, List.sum_append, executedQty, executedQty]

/-- `FillReportTrue account before r`: the report `r`, sent after the reports `before`, states
what has been executed of its order, and what is open of it. -/
structure FillReportTrue (account : Account) (before : List ExecutionReport)
    (r : ExecutionReport) : Prop where
  cumQty : r.cumQty = executedQty r.orderId (before ++ [r])
  leavesQty : r.leavesQty = account.openQty
  total : r.orderQty = r.cumQty + r.leavesQty
  /-- The cumulative quantity does not decrease. -/
  monotone : ∀ r' ∈ fillReports r.orderId before, r'.cumQty ≤ r.cumQty

/-- The accounts `F` are what the reports say. -/
structure Stating (F : Accounts String) (reports : List ExecutionReport) : Prop where
  spent : ∀ id, (F id).spent = executedQty id reports
  ordered : ∀ id, 0 ≤ (F id).earlier ∧ (F id).earlier ≤ (F id).spent
  cumQty : ∀ id, (F id).earlier = 0 → ∀ r ∈ fillReports id reports, r.cumQty ≤ (F id).spent

namespace Stating

variable {F : Accounts String} {reports more : List ExecutionReport}

lemma blank : Stating Accounts.blank [] :=
  ⟨fun _ => rfl, fun _ => ⟨le_refl _, le_refl _⟩, fun _ _ _ hr => absurd hr List.not_mem_nil⟩

/-- Reports that are about no fill. -/
lemma append (h : Stating F reports) (hmore : ∀ r ∈ more, ¬ r.IsFill) :
    Stating F (reports ++ more) := by
  have hnil : ∀ id, fillReports id more = [] := fun id =>
    List.filter_eq_nil_iff.mpr fun r hr => by simpa using fun _ => hmore r hr
  refine ⟨fun id => ?_, h.ordered, fun id h0 r hr => ?_⟩
  · have hzero : executedQty id more = 0 := by
      rw [executedQty, hnil]
      rfl
    rw [executedQty_append, hzero, add_zero, h.spent]
  · rw [fillReports_append, hnil, List.append_nil] at hr
    exact h.cumQty id h0 r hr

/-- A quantity that is set anew. -/
lemma renew (h : Stating F reports) (id : String) (q : ℤ) : Stating (F.renew id q) reports := by
  refine ⟨fun id' => ?_, fun id' => ?_, fun id' h0 r hr => ?_⟩
  all_goals by_cases hid : id' = id
  · subst hid
    rw [Accounts.renew_self]
    exact h.spent id'
  · rw [Accounts.renew_of_ne hid]
    exact h.spent id'
  · subst hid
    rw [Accounts.renew_self]
    exact ⟨(h.ordered id').1.trans (h.ordered id').2, le_refl _⟩
  · rw [Accounts.renew_of_ne hid]
    exact h.ordered id'
  · subst hid
    rw [Accounts.renew_self] at h0 ⊢
    -- nothing has been executed, of an earlier quantity either
    have h0 : (F id').spent = 0 := h0
    have hordered := h.ordered id'
    exact h.cumQty id' (by omega) r hr
  · rw [Accounts.renew_of_ne hid] at h0 ⊢
    exact h.cumQty id' h0 r hr

/-- **A fill and its report**, which is true exactly when the quantity of the order has not been
set since something of it was executed. -/
lemma fill (h : Stating F reports) {fill : Fill} (hpos : 0 < fill.qty)
    (hstates : fill.States (F.spend fill.exchangeId fill.qty)) {execType : ExecType}
    (hexec : execType = .Fill ∨ execType = .PartFill) :
    (FillReportTrue (F.spend fill.exchangeId fill.qty fill.exchangeId) reports
        (makeFillReport fill execType) ↔ (F fill.exchangeId).earlier = 0) ∧
      Stating (F.spend fill.exchangeId fill.qty) (reports ++ [makeFillReport fill execType]) := by
  set id := fill.exchangeId with hid
  set r := makeFillReport fill execType with hr
  rw [Fill.States, ← hid, Accounts.spend_self] at hstates
  have hisFill : r.IsFill := by
    rcases hexec with rfl | rfl
    · exact Or.inr rfl
    · exact Or.inl rfl
  have hone : fillReports id [r] = [r] := fillReports_self hisFill
  have hexecuted : executedQty id (reports ++ [r]) = (F id).spent + fill.qty := by
    rw [executedQty_append, h.spent, executedQty, executedQty, hone]
    simp [r, makeFillReport]
  have hcum : r.cumQty = ((F id).spend fill.qty).qty - ((F id).spend fill.qty).openQty := by
    rw [← hstates.1, ← hstates.2]
    rfl
  -- the cumulative quantity is the executed one
  have hiff : r.cumQty = (F id).spent + fill.qty ↔ (F id).earlier = 0 := by
    rw [hcum]
    exact ((F id).spend fill.qty).spent_iff
  have hmono : (F id).earlier = 0 → ∀ r' ∈ fillReports id reports, r'.cumQty ≤ r.cumQty := by
    intro h0 r' hr'
    have hle := h.cumQty id h0 r' hr'
    rw [hiff.mpr h0]
    omega
  constructor
  · rw [Accounts.spend_self]
    constructor
    · intro htrue
      exact hiff.mp (htrue.cumQty.trans hexecuted)
    · intro h0
      exact ⟨(hiff.mpr h0).trans hexecuted.symm, hstates.2, by simp [r, makeFillReport], hmono h0⟩
  · refine ⟨fun id' => ?_, fun id' => ?_, fun id' h0 r' hr' => ?_⟩
    all_goals by_cases hne : id' = id
    · rw [hne, Accounts.spend_self, hexecuted]
      rfl
    · have hnone : fillReports id' [r] = [] := fillReports_of_ne (Ne.symm hne)
      rw [Accounts.spend_of_ne hne, executedQty_append, h.spent, executedQty, executedQty, hnone]
      simp
    · have hordered := h.ordered id
      rw [hne, Accounts.spend_self, Account.spend_earlier, Account.spend_spent]
      exact ⟨hordered.1, by omega⟩
    · rw [Accounts.spend_of_ne hne]
      exact h.ordered id'
    · rw [hne, Accounts.spend_self, Account.spend_earlier] at h0
      rw [hne, fillReports_append, hone] at hr'
      rw [hne, Accounts.spend_self, Account.spend_spent]
      rcases List.mem_append.mp hr' with hr' | hr'
      · have hle := h.cumQty id h0 r' hr'
        omega
      · rw [List.mem_singleton.mp hr']
        exact (hiff.mpr h0).le
    · rw [Accounts.spend_of_ne hne] at h0 ⊢
      rw [fillReports_append, fillReports_of_ne (Ne.symm hne), List.append_nil] at hr'
      exact h.cumQty id' h0 r' hr'

end Stating

namespace System

variable {s s' : System} {a : Action} {as : List Action} {r : ExecutionReport}

/-- A report about a fill is sent by the second section of the fill. -/
lemma LiveReport.isFill (h : s.LiveReport a r) (hr : r.IsFill) :
    ∃ fill session ts, a = .engine ∧ s.tasks = .fillOrders fill session :: ts ∧
      r = makeFillReport fill (if fill.leavesQty = 0 then .Fill else .PartFill) := by
  cases h with
  | @fill fill session ts ht => exact ⟨fill, session, ts, rfl, ht, rfl⟩
  | rejected | new | expired | canceled | replaced =>
    exact absurd hr (by
      simp [ExecutionReport.IsFill, makeExecReport, makeTifCancelReport, ExecType.char])

lemma mem_step_reports (hr : r ∈ executionReports (s.liveSends a)) : s.LiveReport a r := by
  rcases executionReports_step s a with hnone | ⟨r', hone, hlive⟩
  · rw [hnone] at hr
    exact absurd hr List.not_mem_nil
  · rw [hone] at hr
    rw [List.mem_singleton.mp hr]
    exact hlive

/-- **A step reports a fill**, or it enters no trade and reports none. -/
lemma follows_cases (h : s.Heard) (hcov : s.gateway.Covered s.tasks) (a : Action) :
    (∃ fill session ts, a = .engine ∧ s.tasks = .fillOrders fill session :: ts) ∨
      ((s.follows a = [] ∨ ∃ id q, s.follows a = [.quantity id q]) ∧
        ∀ r ∈ executionReports (s.liveSends a), ¬ r.IsFill) := by
  by_cases hfill : ∃ fill session ts, a = .engine ∧ s.tasks = .fillOrders fill session :: ts
  · exact Or.inl hfill
  · refine Or.inr ⟨?_, fun r hr hisFill => hfill ?_⟩
    · cases a with
      | handle =>
        have hack : s.acknowledged = [] ∨ ∃ id q, s.acknowledged = [.quantity id q] := by
          simp only [acknowledged]
          split
          · exact Or.inr ⟨_, _, rfl⟩
          all_goals exact Or.inl rfl
        exact hack
      | engine =>
        cases ht : s.tasks with
        | cons t ts =>
          rw [(enters_task ht).2]
          refine Or.inl ?_
          cases t with
          | fillRouting fill => exact if_neg (h.session hcov ht)
          | fillOrders fill session => exact absurd ⟨fill, session, ts, rfl, ht⟩ hfill
          | _ => rfl
        | nil =>
          simp only [follows, ht]
          cases htaken : s.nextTaken with
          | none => exact Or.inl rfl
          | some taken =>
            obtain ⟨item, b⟩ := taken
            have hset : b.renewal item = [] ∨ ∃ id q, b.renewal item = [.quantity id q] := by
              cases item with
              | replace req =>
                simp only [OrderBook.renewal]
                split_ifs
                · exact Or.inr ⟨_, _, rfl⟩
                · exact Or.inl rfl
              | order o => exact Or.inl rfl
              | cancel req => exact Or.inl rfl
            exact hset
      | message | logon | persist | registerSymbol => exact Or.inl rfl
    · obtain ⟨fill, session, ts, ha, ht, -⟩ := (mem_step_reports hr).isFill hisFill
      exact ⟨fill, session, ts, ha, ht⟩

/-- The fill that is reported states its account. -/
lemma Booked.reported {F J : Accounts String} (h : Booked F J s) {fill : Fill}
    {session : SessionID} {ts : List Task} (ht : s.tasks = .fillOrders fill session :: ts) :
    fill.States (F.spend fill.exchangeId fill.qty) := by
  have hstated := h.stated
  rw [ht] at hstated
  exact hstated.1 fill rfl

/-- What is reported when a fill is. -/
lemma reports_fillOrders {fill : Fill} {session : SessionID} {ts : List Task}
    (ht : s.tasks = .fillOrders fill session :: ts) :
    executionReports (s.liveSends .engine)
      = [makeFillReport fill (if fill.leavesQty = 0 then .Fill else .PartFill)] := by
  rw [liveSends_task ht]
  rfl

/-- **Every run whose replaces carry positive quantities** reports what is entered in the
accounts. -/
theorem stating_of_run {cfg : Config} (h : RunTo cfg (fun _ a => a.ReplacesPositive) as s) :
    Stating ((start cfg).followed as) ((start cfg).liveReports as) := by
  refine h.invariant_history
    (I := fun as _ => Stating ((start cfg).followed as) ((start cfg).liveReports as))
    Stating.blank fun as s a s' hrun ih _ hstep => ?_
  have hheard := (heard_of_run hrun).1
  rw [followed_snoc hrun, liveReports_snoc hrun]
  rcases follows_cases hheard (sound_of_run hrun).maps.covered a with
    ⟨fill, session, ts, rfl, ht⟩ | ⟨hfollows, hreports⟩
  · rw [(enters_task ht).2, reports_fillOrders ht]
    have hpos := hheard.positive fill (by rw [ht]; exact List.mem_cons_self)
    exact (ih.fill hpos ((booked_of_run hrun).reported ht) (by split_ifs <;> simp)).2
  · refine Stating.append ?_ hreports
    rcases hfollows with hnone | ⟨id, q, hone⟩
    · rw [hnone]
      exact ih
    · rw [hone]
      exact ih.renew id q

/-- **When a fill report is true**: in every run whose replaces carry positive quantities, a
report of a fill states the executed and the open quantity of its order exactly when nothing of
the order had been executed when its quantity was set for the last time, by its
acknowledgement or by a replace. -/
theorem fill_report_true_iff {cfg : Config} (h : RunTo cfg (fun _ a => a.ReplacesPositive) as s)
    (hr : r ∈ executionReports (s.liveSends a)) (hfill : r.IsFill) :
    FillReportTrue ((start cfg).followed (as ++ [a]) r.orderId) ((start cfg).liveReports as) r ↔
      ((start cfg).followed as r.orderId).earlier = 0 := by
  obtain ⟨fill, session, ts, rfl, ht, rfl⟩ := (mem_step_reports hr).isFill hfill
  have hpos := (heard_of_run h).1.positive fill (by rw [ht]; exact List.mem_cons_self)
  rw [followed_snoc h, (enters_task ht).2]
  exact ((stating_of_run h).fill hpos ((booked_of_run h).reported ht) (by split_ifs <;> simp)).1

/-- Part of an order is about to be reported as filled. -/
def partlyFilledRun : List Action :=
  Sample.submit (Sample.limit "a" '2' 10 10) Sample.alice ++ Sample.engine 2
    ++ Sample.submit (Sample.limit "b" '1' 4 10) Sample.bob ++ Sample.engine 2

theorem fill_report_true_iff_sample :
    ∃ s, RunTo Sample.config (fun _ a => a.ReplacesPositive) partlyFilledRun s ∧
      ∃ r ∈ executionReports (s.liveSends .engine), r.cumQty = 4 ∧
        FillReportTrue ((start Sample.config).followed (partlyFilledRun ++ [.engine]) r.orderId)
          ((start Sample.config).liveReports partlyFilledRun) r := by
  have hreach : ∃ s, RunTo Sample.config (fun _ a => a.ReplacesPositive) partlyFilledRun s ∧
      ∃ r ∈ executionReports (s.liveSends .engine), r.IsFill ∧ r.cumQty = 4 ∧
        ((start Sample.config).followed partlyFilledRun r.orderId).earlier = 0 :=
    Transition.exists_reaches (by decide +kernel) (by decide +kernel)
  obtain ⟨s, hrun, r, hr, hfill, hcum, hearlier⟩ := hreach
  exact ⟨s, hrun, r, hr, hcum, (fill_report_true_iff hrun hr hfill).mpr hearlier⟩

/-- The order of `partlyFilledRun` is replaced after its fill, and is about to be reported as
filled again. -/
def replacedFillRun : List Action :=
  partlyFilledRun ++ Sample.engine 4 ++ Sample.forward (Sample.replace "c" "a" '2' 8 10) Sample.alice
    ++ Sample.engine 2 ++ Sample.submit (Sample.limit "d" '1' 3 10) Sample.bob ++ Sample.engine 2

/-- Seven shares of the order have been executed, and the report says that it was three, after a
report that said it was four. -/
theorem replaced_fill_report_false :
    ∃ s, RunTo Sample.config (fun _ a => a.ReplacesPositive) replacedFillRun s ∧
      ∃ r ∈ executionReports (s.liveSends .engine), r.IsFill ∧ r.cumQty = 3 ∧
        executedQty r.orderId ((start Sample.config).liveReports replacedFillRun ++ [r]) = 7 ∧
        (∃ r' ∈ fillReports r.orderId ((start Sample.config).liveReports replacedFillRun),
          r'.cumQty = 4) ∧
        ¬ FillReportTrue ((start Sample.config).followed (replacedFillRun ++ [.engine]) r.orderId)
          ((start Sample.config).liveReports replacedFillRun) r := by
  have hreach : ∃ s, RunTo Sample.config (fun _ a => a.ReplacesPositive) replacedFillRun s ∧
      ∃ r ∈ executionReports (s.liveSends .engine), r.IsFill ∧ r.cumQty = 3 ∧
        executedQty r.orderId ((start Sample.config).liveReports replacedFillRun ++ [r]) = 7 ∧
        ∃ r' ∈ fillReports r.orderId ((start Sample.config).liveReports replacedFillRun),
          r'.cumQty = 4 :=
    Transition.exists_reaches (by decide +kernel) (by decide +kernel)
  obtain ⟨s, hrun, r, hr, hfill, hcum, hexecuted, hbefore⟩ := hreach
  refine ⟨s, hrun, r, hr, hfill, hcum, hexecuted, hbefore, fun htrue => ?_⟩
  have heq := htrue.cumQty
  rw [hcum, hexecuted] at heq
  exact absurd heq (by decide)

end System

end FixExchange
