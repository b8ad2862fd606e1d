/-
# The tasks that close an order

A task that reports the end of an order -- its last fill, or its cancel -- has no task behind it
that reports about the order again, and the order does not rest any more.  This holds of the
tasks of an item (`processIn_before`, `processIn_closes`), and with it of the tasks in every
reachable state (`Closing.step`).
-/
import FixExchange.Engine.LastFill
import FixExchange.System.Founded

namespace FixExchange

namespace Task

/-- The order whose end the task reports. -/
def closes : Task → Option String
  | .fillRouting fill | .fillOrders fill _ =>
    if fill.leavesQty = 0 then some fill.exchangeId else none
  | .onCancel req found => if found then some req.origOrderId else none
  | .onTIFCancel order => some order.exchangeId
  | .fillDone _ _ | .onReplace _ _ _ | .onOrderRested _ _ => none

/-- The order that the task reports about without looking at the open orders. -/
def tells : Task → Option String
  | .fillRouting fill | .fillOrders fill _ => some fill.exchangeId
  | .onTIFCancel order => some order.exchangeId
  | .fillDone _ _ | .onCancel _ _ | .onReplace _ _ _ | .onOrderRested _ _ => none

/-- The second task does not report about an order whose end the first one reports. -/
def Before (t t' : Task) : Prop := ∀ id, t.closes = some id → t'.tells ≠ some id

lemma mem_ids_of_closes {t : Task} {id : String} (h : t.closes = some id) : id ∈ t.ids := by
  cases t with
  | fillRouting fill | fillOrders fill session =>
    simp only [closes] at h
    split_ifs at h
    exact List.mem_singleton.mpr (Option.some.inj h).symm
  | onCancel req found =>
    simp only [closes] at h
    split_ifs at h
    exact List.mem_singleton.mpr (Option.some.inj h).symm
  | onTIFCancel order => exact List.mem_singleton.mpr (Option.some.inj h).symm
  | fillDone | onReplace | onOrderRested => exact absurd h (by simp [closes])

lemma closes_fillRouting {fill : Fill} {id : String}
    (h : (Task.fillRouting fill).closes = some id) :
    fill.leavesQty = 0 ∧ fill.exchangeId = id := by
  simp only [closes] at h
  split_ifs at h with h0
  exact ⟨h0, Option.some.inj h⟩

end Task

namespace OrderBook

variable {b : OrderBook} {item : WorkItem} {fs : List FillPair} {t : Task} {id : String}

/-- The tasks of fills, when no maker is a taker as well. -/
lemma fillTasks_before {left : ℤ} (h : b.Closes left fs)
    (hne : ∀ f ∈ fs, ∀ f' ∈ fs, f.maker.exchangeId ≠ f'.taker.exchangeId) :
    ((fillCallbacks fs).flatMap Callback.tasks).Pairwise Task.Before := by
  rw [fillCallbacks, List.flatMap_map, List.pairwise_flatMap]
  constructor
  · intro f hf
    refine List.pairwise_cons.mpr ⟨fun t ht id hid => ?_, List.pairwise_cons.mpr
      ⟨fun t ht id hid => ?_, List.pairwise_singleton _ _⟩⟩
    · obtain ⟨-, rfl⟩ := Task.closes_fillRouting hid
      rcases List.mem_pair.mp ht with rfl | rfl
      · exact fun heq => hne f hf f hf (Option.some.inj heq).symm
      · simp [Task.tells]
    · rw [List.mem_singleton.mp ht]
      simp [Task.tells]
  · refine h.before.imp_of_mem fun {f f'} hf hf' hbefore t ht t' ht' id hid => ?_
    rcases mem_onFill_tasks ht with rfl | rfl | rfl
    · obtain ⟨-, rfl⟩ := Task.closes_fillRouting hid
      rcases mem_onFill_tasks ht' with rfl | rfl | rfl
      · exact fun heq => hbefore.maker (Option.some.inj heq).symm
      · exact fun heq => hne f hf f' hf' (Option.some.inj heq).symm
      · simp [Task.tells]
    · obtain ⟨h0, -⟩ := Task.closes_fillRouting hid
      exact absurd h0 hbefore.taker
    · exact absurd hid (by simp [Task.closes])

/-- The order of a task of fills that closes it. -/
lemma fillTasks_closes {left : ℤ} (h : b.Closes left fs)
    (ht : t ∈ (fillCallbacks fs).flatMap Callback.tasks) (hid : t.closes = some id) :
    b.Fresh id ∧ ∃ f ∈ fs, (f.maker.exchangeId = id) ∨ (f.taker.exchangeId = id ∧ left = 0) := by
  obtain ⟨cb, hcb, ht⟩ := List.mem_flatMap.mp ht
  obtain ⟨f, hf, rfl⟩ := mem_fillCallbacks.mp hcb
  rcases mem_onFill_tasks ht with rfl | rfl | rfl
  · obtain ⟨h0, rfl⟩ := Task.closes_fillRouting hid
    exact ⟨h.maker f hf h0, f, hf, Or.inl rfl⟩
  · obtain ⟨h0, rfl⟩ := Task.closes_fillRouting hid
    obtain ⟨hleft, hfresh⟩ := h.taker f hf h0
    exact ⟨hfresh, f, hf, Or.inr ⟨rfl, hleft⟩⟩
  · exact absurd hid (by simp [Task.closes])

/-- The maker of a fill of a new order is another order. -/
lemma add_maker_ne_taker (h : b.Wf) {o : Order} (hfresh : b.Fresh o.exchangeId) :
    ∀ f ∈ (b.add o).fills, ∀ f' ∈ (b.add o).fills, f.maker.exchangeId ≠ f'.taker.exchangeId := by
  intro f hf f' hf'
  obtain ⟨⟨m, hm, hmaker⟩, -⟩ := add_fill_parties h o hf
  rw [hmaker.exchangeId, (add_fill_parties h o hf').2.exchangeId]
  exact hfresh m hm

/-- The maker of a fill of a replace is another order. -/
lemma replace_maker_ne_taker (h : b.Wf) (hk : b.Keyed) {id : String} {p : Price} {q : ℤ} :
    ∀ f ∈ (b.replace id p q).fills, ∀ f' ∈ (b.replace id p q).fills,
      f.maker.exchangeId ≠ f'.taker.exchangeId := by
  intro f hf f' hf'
  rcases h.replace_eq id p q with ⟨-, hr⟩ | ⟨m, hm, rfl, ⟨-, -, hr⟩ | ⟨-, hr⟩⟩
  · rw [hr] at hf
    exact absurd hf List.not_mem_nil
  · rw [hr] at hf
    exact absurd hf List.not_mem_nil
  · rw [hr] at hf hf'
    exact add_maker_ne_taker (o := { m.order with price := p, qty := q }) (h.unlink hm)
      (hk.fresh_unlink h hm) f hf f' hf'

/-- Tasks behind the tasks of fills that report about no order but the taker, of which something
is left. -/
lemma pairwise_append_last {left : ℤ} {last : List Task} (h : b.Closes left fs)
    (hne : ∀ f ∈ fs, ∀ f' ∈ fs, f.maker.exchangeId ≠ f'.taker.exchangeId)
    (hlast : last.Pairwise Task.Before)
    (htells : ∀ t ∈ last, ∀ id, t.tells = some id → left ≠ 0 ∧
      ∀ f ∈ fs, f.maker.exchangeId ≠ id) :
    ((fillCallbacks fs).flatMap Callback.tasks ++ last).Pairwise Task.Before := by
  refine List.pairwise_append.mpr ⟨fillTasks_before h hne, hlast, ?_⟩
  intro t ht t' ht' id hid htell
  obtain ⟨hleft, hmaker⟩ := htells t' ht' id htell
  obtain ⟨-, f, hf, heq | ⟨-, h0⟩⟩ := fillTasks_closes h ht hid
  · exact hmaker f hf heq
  · exact hleft h0

/-- **The tasks of an item** report the end of an order last. -/
theorem processIn_before (h : b.Wf) (hk : b.Keyed) (hitem : b.Accepts item) :
    ((processIn b item).2.flatMap Callback.tasks).Pairwise Task.Before := by
  cases item with
  | order o =>
    have hfresh := hitem o rfl
    rcases processOrder_cases b o with hkill | ⟨last, hadd, hlast⟩
    · rw [processIn, hkill]
      exact List.pairwise_singleton _ _
    · rw [processIn, hadd, List.flatMap_append]
      refine pairwise_append_last (add_closes h hk hfresh) (add_maker_ne_taker h hfresh) ?_ ?_
      · rcases hlast with rfl | ⟨rfl, -, -⟩ | rfl
        · exact List.Pairwise.nil
        · exact List.pairwise_singleton _ _
        · exact List.pairwise_singleton _ _
      · intro t ht id htell
        rcases hlast with rfl | ⟨rfl, -, hv⟩ | rfl
        · exact absurd ht List.not_mem_nil
        · obtain rfl := List.mem_singleton.mp ht
          obtain rfl := Option.some.inj htell
          refine ⟨hv.ne', fun f hf heq => ?_⟩
          obtain ⟨⟨m, hm, hmaker⟩, -⟩ := add_fill_parties h o hf
          exact hfresh m hm (hmaker.exchangeId.symm.trans heq)
        · obtain rfl := List.mem_singleton.mp ht
          exact absurd htell (by simp [Task.tells])
  | cancel req => exact List.pairwise_singleton _ _
  | replace req =>
    rw [processIn, processReplace, List.flatMap_append]
    refine pairwise_append_last (replace_closes h hk _ _ _) (replace_maker_ne_taker h hk)
      (List.pairwise_singleton _ _) fun t ht id htell => ?_
    obtain rfl := List.mem_singleton.mp ht
    exact absurd htell (by simp [Task.tells])

/-- **An order that a task of an item closes** does not rest afterwards; it is the order of the
item, or has rested before. -/
theorem processIn_closes (h : b.Wf) (hk : b.Keyed) (hitem : b.Accepts item)
    (ht : t ∈ (processIn b item).2.flatMap Callback.tasks) (hid : t.closes = some id) :
    (processIn b item).1.Fresh id ∧
      ((∃ o, item = .order o ∧ o.exchangeId = id) ∨ ∃ m ∈ b.nodes, m.order.exchangeId = id) := by
  cases item with
  | order o =>
    have hfresh := hitem o rfl
    rcases processOrder_cases b o with hkill | ⟨last, hadd, hlast⟩
    · rw [processIn, hkill] at ht
      obtain rfl := List.mem_singleton.mp ht
      obtain rfl := Option.some.inj hid
      rw [processIn, hkill]
      exact ⟨hfresh, Or.inl ⟨o, rfl, rfl⟩⟩
    · rw [processIn, hadd, List.flatMap_append] at ht
      rw [processIn, hadd]
      rcases List.mem_append.mp ht with ht | ht
      · obtain ⟨hgone, f, hf, heq | ⟨heq, -⟩⟩ := fillTasks_closes (add_closes h hk hfresh) ht hid
        · obtain ⟨⟨m, hm, hmaker⟩, -⟩ := add_fill_parties h o hf
          exact ⟨hgone, Or.inr ⟨m, hm, hmaker.exchangeId.symm.trans heq⟩⟩
        · refine ⟨hgone, Or.inl ⟨o, rfl, ?_⟩⟩
          exact (add_fill_parties h o hf).2.exchangeId.symm.trans heq
      · rcases hlast with rfl | ⟨rfl, h3, -⟩ | rfl
        · exact absurd ht List.not_mem_nil
        · obtain rfl := List.mem_singleton.mp ht
          obtain rfl := Option.some.inj hid
          exact ⟨fresh_add h hfresh fun hrest => hrest.2.2 h3, Or.inl ⟨o, rfl, rfl⟩⟩
        · obtain rfl := List.mem_singleton.mp ht
          exact absurd hid (by simp [Task.closes])
  | cancel req =>
    obtain rfl := List.mem_singleton.mp ht
    rw [processIn, processCancel]
    rcases h.cancel_eq req.origOrderId with ⟨-, hc⟩ | ⟨m, hm, hmid, hc⟩
    · rw [hc] at hid
      exact absurd hid (by simp [Task.closes])
    · rw [hc] at hid
      obtain rfl := Option.some.inj hid
      rw [hc]
      have hgone := hk.fresh_unlink h hm
      rw [hmid] at hgone
      exact ⟨hgone, Or.inr ⟨m, hm, hmid⟩⟩
  | replace req =>
    rw [processIn, processReplace, List.flatMap_append] at ht
    rw [processIn, processReplace]
    rcases List.mem_append.mp ht with ht | ht
    · obtain ⟨hgone, f, hf, heq | ⟨heq, -⟩⟩ := fillTasks_closes (replace_closes h hk _ _ _) ht hid
      · obtain ⟨⟨m, hm, hmaker⟩, -⟩ := replace_fill_parties h hf
        exact ⟨hgone, Or.inr ⟨m, hm, hmaker.exchangeId.symm.trans heq⟩⟩
      · obtain ⟨-, m, hm, -, htaker⟩ := replace_fill_parties h hf
        exact ⟨hgone, Or.inr ⟨m, hm, htaker.exchangeId.symm.trans heq⟩⟩
    · obtain rfl := List.mem_singleton.mp ht
      exact absurd hid (by simp [Task.closes])

end OrderBook

namespace System

variable {s s' : System} {a : Action}

/-- The tasks report the end of an order last: behind a task that does, no other task tells about
the order, it does not rest, and it is not on its way to the engine. -/
structure Closing (s : System) : Prop where
  before : s.tasks.Pairwise Task.Before
  gone : ∀ t ∈ s.tasks, ∀ id, t.closes = some id →
    ∀ sym b, s.engine.books.lookup sym = some b → b.Fresh id
  queued : ∀ t ∈ s.tasks, ∀ id, t.closes = some id → ∀ o, .order o ∈ s.queue → o.exchangeId ≠ id

/-- The task that a task leaves closes the same order, and tells about the same one. -/
lemma runTask_closes {g : FixGateway} {t t' : Task} (ht' : t' ∈ (g.runTask t).2) :
    t'.closes = t.closes ∧ t'.tells = t.tells ∧ (g.runTask t).2 = [t'] := by
  cases t with
  | fillRouting fill =>
    simp only [FixGateway.runTask] at ht' ⊢
    split at ht'
    · exact absurd ht' List.not_mem_nil
    · rw [List.mem_singleton.mp ht']
      exact ⟨rfl, rfl, rfl⟩
  | _ => exact absurd ht' List.not_mem_nil

/-- A step that keeps the tasks and leaves no new order resting or queued. -/
lemma Closing.of_same (h : s.Closing) (htasks : s'.tasks = s.tasks)
    (hbooks : ∀ sym b, s'.engine.books.lookup sym = some b →
      s.engine.books.lookup sym = some b ∨ b = OrderBook.init sym)
    (hqueue : ∀ o, .order o ∈ s'.queue → .order o ∈ s.queue ∨
      ∀ t ∈ s.tasks, o.exchangeId ∉ t.ids) : s'.Closing := by
  refine ⟨by rw [htasks]; exact h.before, fun t ht id hid sym b hb => ?_,
    fun t ht id hid o ho => ?_⟩
  · rw [htasks] at ht
    rcases hbooks sym b hb with hb | rfl
    · exact h.gone t ht id hid sym b hb
    · intro n hn
      simp [OrderBook.init, OrderBook.nodes] at hn
  · rw [htasks] at ht
    rcases hqueue o ho with ho | hnot
    · exact h.queued t ht id hid o ho
    · rintro rfl
      exact hnot t ht (Task.mem_ids_of_closes hid)

lemma Closing.task (h : s.Closing) {t : Task} {ts : List Task} (ht : s.tasks = t :: ts) :
    ({ s with
      gateway := (s.gateway.runTask t).1
      tasks := (s.gateway.runTask t).2 ++ ts } : System).Closing := by
  have hbefore := h.before
  rw [ht] at hbefore
  obtain ⟨hhead, htail⟩ := List.pairwise_cons.mp hbefore
  -- what is left of the task closes the same order
  have hcloses : ∀ t' ∈ (s.gateway.runTask t).2 ++ ts, ∃ t₀ ∈ s.tasks, t'.closes = t₀.closes := by
    intro t' ht'
    rcases List.mem_append.mp ht' with ht' | ht'
    · exact ⟨t, by rw [ht]; exact List.mem_cons_self, (runTask_closes ht').1⟩
    · exact ⟨t', by rw [ht]; exact List.mem_cons_of_mem _ ht', rfl⟩
  refine ⟨?_, fun t' ht' id hid sym b hb => ?_, fun t' ht' id hid o ho => ?_⟩
  · refine List.pairwise_append.mpr ⟨?_, htail, fun t' ht' t'' ht'' id hid => ?_⟩
    · cases hrest : (s.gateway.runTask t).2 with
      | nil => exact List.Pairwise.nil
      | cons t' ts' =>
        have ht' : t' ∈ (s.gateway.runTask t).2 := by
          rw [hrest]
          exact List.mem_cons_self
        obtain ⟨-, -, hone⟩ := runTask_closes ht'
        rw [← hrest, hone]
        exact List.pairwise_singleton _ _
    · rw [(runTask_closes ht').1] at hid
      exact hhead t'' ht'' id hid
  · obtain ⟨t₀, ht₀, heq⟩ := hcloses t' ht'
    exact h.gone t₀ ht₀ id (heq ▸ hid) sym b hb
  · obtain ⟨t₀, ht₀, heq⟩ := hcloses t' ht'
    exact h.queued t₀ ht₀ id (heq ▸ hid) o ho

lemma Closing.take (hf : s.Founded) {item : WorkItem} {queue : List WorkItem} {b : OrderBook}
    (hq : s.queue = item :: queue) (hb : s.engine.books.lookup item.symbol = some b) :
    ({ s with
      engine := { s.engine with books := s.engine.books.insert item.symbol (processIn b item).1 }
      queue := queue
      tasks := (processIn b item).2.flatMap Callback.tasks } : System).Closing := by
  have hmem : item ∈ s.queue := by rw [hq]; exact List.mem_cons_self
  have hwf := hf.books.wf _ b hb
  have hk := hf.books.keyed _ b hb
  have hitem := hf.accepts hmem hb
  refine ⟨OrderBook.processIn_before hwf hk hitem, fun t ht id hid sym b' hb' => ?_,
    fun t ht id hid o ho => ?_⟩
  · obtain ⟨hgone, hwhose⟩ := OrderBook.processIn_closes hwf hk hitem ht hid
    rcases lookup_processed hb' with ⟨-, rfl⟩ | ⟨hne, hold⟩
    · exact hgone
    · rcases hwhose with ⟨o, rfl, rfl⟩ | ⟨m, hm, rfl⟩
      · exact hf.queue.fresh o hmem sym b' hold
      · exact fun n hn heq => hne (hf.books.apart sym b' _ b hold hb n hn m hm heq)
  · obtain ⟨-, ⟨o', rfl, rfl⟩ | ⟨m, hm, rfl⟩⟩ := OrderBook.processIn_closes hwf hk hitem ht hid
    · have hnodup := hf.queue.nodup
      rw [hq] at hnodup
      exact fun heq => (List.nodup_cons.mp hnodup).1 (mem_submittedIds.mpr ⟨o, ho, heq⟩)
    · exact fun heq => hf.queue.fresh o (by rw [hq]; exact List.mem_cons_of_mem _ ho) _ b hb m hm
        heq.symm

/-- **One step** keeps the ends of orders last. -/
theorem Closing.step (h : s.Closing) (hf : s.Founded) (hstep : s.step a = some s') :
    s'.Closing := by
  cases a with
  | message msg session =>
    obtain ⟨-, rfl⟩ := step_message hstep
    exact h.of_same rfl (fun _ _ hb => Or.inl hb) fun _ ho => Or.inl ho
  | logon session =>
    obtain ⟨-, rfl⟩ := step_logon hstep
    exact h.of_same rfl (fun _ _ hb => Or.inl hb) fun _ ho => Or.inl ho
  | handle =>
    rcases handle_cases hstep with ⟨o, session, -, rfl⟩ | ⟨o, session, -, rfl⟩ |
        ⟨item, hitem, rfl⟩
    · exact h.of_same rfl (fun _ _ hb => Or.inl hb) fun _ ho => Or.inl ho
    · exact h.of_same rfl (fun _ _ hb => Or.inl hb) fun _ ho => Or.inl ho
    · refine h.of_same rfl (fun _ _ hb => Or.inl hb) fun o ho => ?_
      rcases List.mem_append.mp ho with ho | ho
      · exact Or.inl ho
      · obtain rfl := List.mem_singleton.mp ho
        rcases nextItem_cases hitem with ⟨o', hh, heq⟩ | ⟨-, hne⟩
        · -- no task looks up the order that is being submitted
          obtain rfl := WorkItem.order.inj heq
          exact Or.inr fun t ht hid => (hf.tasks t ht _ hid).2 o (by rw [hh]; rfl) rfl
        · exact absurd rfl (hne o)
  | engine =>
    rcases engineStep_cases hstep with ⟨t, ts, ht, rfl⟩ | ⟨-, item, queue, b, hq, hb, rfl⟩
    · exact h.task ht
    · exact Closing.take hf hq hb
  | persist =>
    obtain ⟨p, p', -, -, rfl⟩ := step_persist hstep
    exact h.of_same rfl (fun _ _ hb => Or.inl hb) fun _ ho => Or.inl ho
  | registerSymbol symbol =>
    obtain ⟨e, he, rfl⟩ := step_registerSymbol hstep
    refine h.of_same rfl (fun sym b hb => ?_) fun _ ho => Or.inl ho
    rcases (MatchingEngine.registerSymbol_books he).1 sym with hsame | ⟨rfl, -, hnew⟩
    · exact Or.inl (hsame.symm.trans hb)
    · exact Or.inr (Option.some.inj (hb.symm.trans hnew))

end System

end FixExchange
