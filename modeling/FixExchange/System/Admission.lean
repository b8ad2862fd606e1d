/-
# What is admitted to the books

The gateway checks the quantity and the price of a new order, and nothing of a replace request.
In a run whose replace requests would have passed the same checks, every resting order has an
open quantity, a quantity within the limit, and a price that was within the collar when the
gateway let it through, and every fill is of at least one share (`admitted_of_run`).  A replace
request that would not have passed puts its values into the book (`replace_not_checked`).
-/
import FixExchange.System.Synced

namespace FixExchange

/-- The fills that a task works on. -/
def Task.fills : Task → List Fill
  | .fillRouting fill => [fill]
  | .fillOrders fill _ => [fill]
  | .fillDone maker taker => [maker, taker]
  | _ => []

/-- A quantity and a price that pass what the gateway checks of new limit orders. -/
structure RiskEngine.Admits (r : RiskEngine) (symbol : String) (side : Char) (price : Price)
    (qty : ℤ) : Prop where
  qtyPos : 0 < qty
  pricePos : 0 < price
  limit : r.checkQty qty = ""
  collar : r.checkPrice symbol side price = ""

instance (r : RiskEngine) (symbol : String) (side : Char) (price : Price) (qty : ℤ) :
    Decidable (r.Admits symbol side price qty) :=
  decidable_of_iff (0 < qty ∧ 0 < price ∧ r.checkQty qty = "" ∧ r.checkPrice symbol side price = "")
    ⟨fun ⟨hq, hp, hl, hc⟩ => ⟨hq, hp, hl, hc⟩, fun ⟨hq, hp, hl, hc⟩ => ⟨hq, hp, hl, hc⟩⟩

/-! ## The quantities of fills -/

namespace OrderBook

variable {b : OrderBook}

/-- Against orders with positive open quantity, every fill is positive. -/
lemma add_fill_qty (h : b.Wf) (hp : b.Positive) (o : Order) {f : FillPair}
    (hf : f ∈ (b.add o).fills) : 0 < f.maker.qty ∧ 0 < f.taker.qty := by
  rw [(add_toFlat h o).2.2] at hf
  obtain ⟨t, ht, hrep⟩ := exists_of_forall₂ (fillsOf_reports _ _ _) hf
  rw [FlatBook.add] at ht
  dsimp only at ht
  rw [FlatBook.matchIn_snd] at ht
  have hqty : 0 < t.qty := by
    refine traded_qty_pos (fun m hm => ?_) ht
    obtain ⟨n, hn, rfl⟩ := mem_opposite hm
    exact (hp n hn).1
  rw [hrep.makerQty, hrep.takerQty]
  exact ⟨hqty, hqty⟩

lemma replace_fill_qty (h : b.Wf) (hp : b.Positive) {id : String} {p : Price} {q : ℤ}
    {f : FillPair} (hf : f ∈ (b.replace id p q).fills) : 0 < f.maker.qty ∧ 0 < f.taker.qty := by
  rcases h.replace_eq id p q with ⟨-, hr⟩ | ⟨m, hm, rfl, ⟨-, -, hr⟩ | ⟨-, hr⟩⟩
  · rw [hr] at hf
    exact absurd hf List.not_mem_nil
  · rw [hr] at hf
    exact absurd hf List.not_mem_nil
  · rw [hr] at hf
    exact add_fill_qty (h.unlink hm) (hp.unlink h hm _) _ hf

/-- The fills of an item are positive. -/
lemma processIn_fill_qty (h : b.Wf) (hp : b.Positive) {item : WorkItem} {t : Task}
    (ht : t ∈ (processIn b item).2.flatMap Callback.tasks) {f : Fill} (hf : f ∈ t.fills) :
    0 < f.qty := by
  have hfills : ∀ {fs : List FillPair}, (∀ f ∈ fs, 0 < f.maker.qty ∧ 0 < f.taker.qty) →
      t ∈ (fillCallbacks fs).flatMap Callback.tasks → 0 < f.qty := by
    intro fs hfs ht
    obtain ⟨cb, hcb, ht⟩ := List.mem_flatMap.mp ht
    obtain ⟨p, hp, rfl⟩ := mem_fillCallbacks.mp hcb
    rcases mem_onFill_tasks ht with rfl | rfl | rfl
    · rw [List.mem_singleton.mp hf]
      exact (hfs p hp).1
    · rw [List.mem_singleton.mp hf]
      exact (hfs p hp).2
    · rcases List.mem_pair.mp hf with rfl | rfl
      · exact (hfs p hp).1
      · exact (hfs p hp).2
  cases item with
  | order o =>
    obtain ⟨fs, last, hfs, hcbs, hlast⟩ := processOrder_calls b o
    rw [processIn, hcbs, List.flatMap_append] at ht
    rcases List.mem_append.mp ht with ht | ht
    · refine hfills (fun f hf => ?_) ht
      rcases hfs with rfl | rfl
      · exact absurd hf List.not_mem_nil
      · exact add_fill_qty h hp o hf
    · obtain ⟨cb, hcb, ht⟩ := List.mem_flatMap.mp ht
      rcases hlast cb hcb with rfl | rfl | ⟨rfl, -⟩ <;>
        rw [List.mem_singleton.mp ht] at hf <;> exact absurd hf List.not_mem_nil
  | cancel req =>
    rw [List.mem_singleton.mp ht] at hf
    exact absurd hf List.not_mem_nil
  | replace req =>
    rw [processIn, processReplace, List.flatMap_append] at ht
    rcases List.mem_append.mp ht with ht | ht
    · exact hfills (fun f hf => replace_fill_qty h hp hf) ht
    · rw [List.mem_singleton.mp ht] at hf
      exact absurd hf List.not_mem_nil

end OrderBook

namespace System

variable {cfg : Config} {s s' : System} {a : Action} {as : List Action}

/-! ## What the gateway lets through -/

/-- A replace request that names an order, with its symbol and side while it is open, would pass
the checks of a new order. -/
def Admitting (s : System) : Action → Prop
  | .message (.replace msg) _ =>
    ∀ id ∈ s.gateway.clordToExchange.lookup msg.origClOrdID,
      (∀ o ∈ s.gateway.activeOrders.lookup id, o.symbol = msg.symbol ∧ o.side = msg.side) →
        ∀ price ∈ msg.price,
          s.gateway.risk.Admits msg.symbol msg.side price (castInt msg.orderQty)
  | _ => True

instance (s : System) (a : Action) : Decidable (s.Admitting a) :=
  match a with
  | .message (.replace _) _ => Option.decidableForallMem _
  | .message (.newOrder _) _ | .message (.cancel _) _ | .logon _ | .handle | .engine | .persist
  | .registerSymbol _ => isTrue trivial

lemma Admitting.admits (h : s.Admitting a) {req : ReplaceRequest}
    (hforward : s.Forwards a (.replace req)) :
    s.gateway.risk.Admits req.symbol req.side req.newPrice req.newQty := by
  cases hforward with
  | replace hreq handler =>
    rw [hreq.symbol, hreq.side, hreq.qty]
    refine h _ hreq.resolved (fun o ho => ?_) _ hreq.price
    rw [← hreq.symbol, ← hreq.side]
    exact hreq.same o ho

/-- A message gives an order its price: the message of the order, or a replace request. -/
def Prices (s : System) (a : Action) (id : String) (price : Price) : Prop :=
  (∃ o, s.AcceptsAs a o ∧ o.exchangeId = id ∧ o.price = price) ∨
    ∃ req, s.Forwards a (.replace req) ∧ req.origOrderId = id ∧ req.newPrice = price

/-- The actions `as` lead through a state in which the gateway let the price of an order
through, and the price was within the collar around the last trade then. -/
def Passed (cfg : Config) (as : List Action) (id symbol : String) (side : Char) (price : Price) :
    Prop :=
  ∃ as₀ a rest s, as = as₀ ++ a :: rest ∧ RunTo cfg Any as₀ s ∧ s.Prices a id price ∧
    s.gateway.risk.checkPrice symbol side price = ""

/-- The terms of an order as the gateway is to let them through. -/
structure Terms (cfg : Config) (as : List Action) (id symbol : String) (side : Char)
    (price : Price) (qty : ℤ) : Prop where
  limit : 0 < cfg.risk.maxOrderQty → qty ≤ cfg.risk.maxOrderQty
  positive : 0 < price
  passed : Passed cfg as id symbol side price

lemma Terms.mono {id symbol : String} {side : Char} {price : Price} {qty : ℤ}
    (h : Terms cfg as id symbol side price qty) (more : List Action) :
    Terms cfg (as ++ more) id symbol side price qty := by
  obtain ⟨as₀, a, rest, s, rfl, hrun⟩ := h.passed
  exact ⟨h.limit, h.positive, as₀, a, rest ++ more, s, by simp, hrun⟩

/-- Every order in the books is on admitted terms, and every fill is of a share or more. -/
structure Admitted (cfg : Config) (as : List Action) (s : System) : Prop where
  orders : ∀ sym b, s.engine.books.lookup sym = some b → ∀ n ∈ b.nodes,
    1 ≤ n.order.leavesQty ∧
      Terms cfg as n.order.exchangeId n.order.symbol n.order.side n.order.price n.order.qty
  fills : ∀ t ∈ s.tasks, ∀ f ∈ t.fills, 1 ≤ f.qty

/-! ## Runs -/

lemma risk_cfg_step (hs : s.Sound) (hstep : s.step a = some s') :
    s'.gateway.risk.cfg = s.gateway.risk.cfg := by
  cases a with
  | message msg session =>
    obtain ⟨-, rfl⟩ := step_message hstep
    rcases onMessage_cases s session msg with ⟨seq, sent, heq, -⟩ | ⟨m, o, -, -, heq⟩ |
      ⟨m, req, -, -, heq⟩ | ⟨m, req, -, -, heq⟩ <;> rw [heq] <;> rfl
  | logon session =>
    obtain ⟨-, rfl⟩ := step_logon hstep
    rfl
  | handle =>
    rcases handle_cases hstep with ⟨o, session, -, rfl⟩ | ⟨o, session, -, rfl⟩ | ⟨item, -, rfl⟩ <;>
      rfl
  | engine =>
    rcases engineStep_cases hstep with ⟨t, ts, ht, rfl⟩ | ⟨-, item, queue, b, -, -, rfl⟩
    · have hcov := hs.maps.covered
      rw [ht] at hcov
      exact (FixGateway.runTask_runsTo hcov).riskCfg
    · rfl
  | persist =>
    obtain ⟨p, p', -, -, rfl⟩ := step_persist hstep
    rfl
  | registerSymbol symbol =>
    obtain ⟨e, -, rfl⟩ := step_registerSymbol hstep
    rfl

lemma risk_cfg_of_run {ok : System → Action → Prop} (h : RunTo cfg ok as s) :
    s.gateway.risk.cfg = cfg.risk :=
  h.invariant (I := fun s => s.gateway.risk.cfg = cfg.risk) rfl
    fun _ _ _ _ hrun hcfg _ hstep => (risk_cfg_step (sound_of_run hrun) hstep).trans hcfg

/-- The orders and the replace requests on their way to the books, and the orders in the
books, are on admitted terms. -/
structure AdmittedAll (cfg : Config) (as : List Action) (s : System) : Prop where
  incoming : ∀ o, s.Incoming o → o.type = '2' →
    Terms cfg as o.exchangeId o.symbol o.side o.price o.qty
  requests : ∀ req, .replace req ∈ s.coming →
    Terms cfg as req.origOrderId req.symbol req.side req.newPrice req.newQty
  resting : ∀ sym b, s.engine.books.lookup sym = some b → ∀ n ∈ b.nodes,
    Terms cfg as n.order.exchangeId n.order.symbol n.order.side n.order.price n.order.qty
  fills : ∀ t ∈ s.tasks, ∀ f ∈ t.fills, 0 < f.qty

lemma AdmittedAll.incoming_step (h : AdmittedAll cfg as s) (hrun : RunTo cfg Admitting as s)
    (hstep : s.step a = some s') {o : Order} (ho : s'.Incoming o) (ht : o.type = '2') :
    Terms cfg (as ++ [a]) o.exchangeId o.symbol o.side o.price o.qty := by
  rcases System.incoming_step hstep ho with ho | haccepts
  · exact (h.incoming o ho ht).mono [a]
  · obtain ⟨m, session, rfl, haccepts', -⟩ := id haccepts
    obtain ⟨hqty, hprice⟩ := RiskEngine.check_eq_empty.mp haccepts'.risk
    rw [if_pos ht] at hprice
    refine ⟨fun hmax => ?_, (haccepts'.limit ht).2, as, _, [], s, rfl,
      hrun.mono fun _ _ _ => trivial, Or.inl ⟨o, haccepts, rfl, rfl⟩, hprice⟩
    rw [← risk_cfg_of_run hrun] at hmax ⊢
    exact RiskEngine.le_max_of_checkQty hqty hmax

lemma AdmittedAll.requests_step (h : AdmittedAll cfg as s) (hrun : RunTo cfg Admitting as s)
    (hok : s.Admitting a) (hstep : s.step a = some s') {req : ReplaceRequest}
    (hr : .replace req ∈ s'.coming) :
    Terms cfg (as ++ [a]) req.origOrderId req.symbol req.side req.newPrice req.newQty := by
  rcases coming_step hstep hr with hr | ⟨o, ho⟩ | hforward
  · exact (h.requests req hr).mono [a]
  · exact absurd ho (by simp)
  · have hadmits := hok.admits hforward
    refine ⟨fun hmax => ?_, hadmits.pricePos, as, a, [], s, rfl,
      hrun.mono fun _ _ _ => trivial, Or.inr ⟨req, hforward, rfl, rfl⟩, hadmits.collar⟩
    rw [← risk_cfg_of_run hrun] at hmax ⊢
    exact RiskEngine.le_max_of_checkQty hadmits.limit hmax

lemma AdmittedAll.resting_step (h : AdmittedAll cfg as s) (hs : s.Sound) (hsync : s.Synced)
    (hstep : s.step a = some s') {sym : String} {b : OrderBook}
    (hb : s'.engine.books.lookup sym = some b) {n : Node} (hn : n ∈ b.nodes) :
    Terms cfg (as ++ [a]) n.order.exchangeId n.order.symbol n.order.side n.order.price
      n.order.qty := by
  obtain ⟨b₀, hb₀, ⟨m, hm, hleft⟩ | ⟨item, queue, ht, hq, rfl, hnames⟩⟩ :=
    hs.founded.mem_books_step hstep hb hn
  · rw [hleft.eq_withLeaves]
    exact (h.resting sym b₀ hb₀ m hm).mono [a]
  · have hmem : item ∈ s.queue := by rw [hq]; exact List.mem_cons_self
    rcases hnames with ⟨o, rfl, ho, -, htype, -⟩ | ⟨req, rfl, m, hm, hid, ho⟩
    · rw [ho]
      exact (h.incoming o (Or.inl hmem) htype).mono [a]
    · -- the request has the symbol and the side of the order
      obtain ⟨aₒ, haₒ, hmirrors⟩ := hsync.active_agrees ht _ _
        (hs.books.resting_eq_some.mpr ⟨_, b₀, hb₀, m, hm, rfl, rfl⟩)
      rw [hid] at haₒ
      obtain ⟨hsymbol, hside⟩ := hsync.replace_same ht hmem req rfl aₒ haₒ
      rw [ho, hid, ← hmirrors.symbol, ← hmirrors.side, hsymbol, hside]
      exact (h.requests req (mem_coming_of_queue hmem)).mono [a]

lemma AdmittedAll.fills_step (h : AdmittedAll cfg as s) (hs : s.Sound) (hsync : s.Synced)
    (hstep : s.step a = some s') : ∀ t ∈ s'.tasks, ∀ f ∈ t.fills, 0 < f.qty := by
  cases a with
  | message msg session =>
    obtain ⟨-, rfl⟩ := step_message hstep
    exact h.fills
  | logon session =>
    obtain ⟨-, rfl⟩ := step_logon hstep
    exact h.fills
  | handle =>
    rcases handle_cases hstep with ⟨o, session, -, rfl⟩ | ⟨o, session, -, rfl⟩ | ⟨item, -, rfl⟩ <;>
      exact h.fills
  | engine =>
    rcases engineStep_cases hstep with ⟨t, ts, ht, rfl⟩ | ⟨-, item, queue, b, -, hb, rfl⟩
    · intro t' ht'
      have hts : ∀ t' ∈ t :: ts, ∀ f ∈ t'.fills, 0 < f.qty := by
        rw [← ht]
        exact h.fills
      rcases List.mem_append.mp ht' with ht' | ht'
      · -- a task leaves only the second section of a fill
        cases t with
        | fillRouting fill =>
          simp only [FixGateway.runTask] at ht'
          split at ht'
          · exact absurd ht' List.not_mem_nil
          · rw [List.mem_singleton.mp ht']
            exact hts (.fillRouting fill) List.mem_cons_self
        | _ => exact absurd ht' List.not_mem_nil
      · exact hts t' (List.mem_cons_of_mem _ ht')
    · intro t ht f hf
      exact OrderBook.processIn_fill_qty (hs.books.wf _ b hb) (hsync.positive _ b hb) ht hf
  | persist =>
    obtain ⟨p, p', -, -, rfl⟩ := step_persist hstep
    exact h.fills
  | registerSymbol symbol =>
    obtain ⟨e, -, rfl⟩ := step_registerSymbol hstep
    exact h.fills

lemma synced_of_admitting (h : RunTo cfg Admitting as s) : s.Synced :=
  synced_of_run (fun _ _ hok _ hforward => (hok.admits hforward).qtyPos) h

lemma admittedAll_of_run (h : RunTo cfg Admitting as s) : AdmittedAll cfg as s := by
  refine h.invariant_history (I := AdmittedAll cfg) ?_ fun as s a s' hrun ih hok hstep => ?_
  · have hsync := synced_start cfg
    refine ⟨by simp [Incoming, start, Handler.pending], by simp [coming, start, nextItem],
      fun sym b hb n hn => ?_, by simp [start]⟩
    rw [start, lookup_init_books] at hb
    split_ifs at hb
    rw [← Option.some.inj hb] at hn
    simp [OrderBook.init, OrderBook.nodes] at hn
  · have hs := sound_of_run hrun
    have hsync := synced_of_admitting hrun
    exact ⟨fun o ho ht => ih.incoming_step hrun hstep ho ht,
      fun req hr => ih.requests_step hrun hok hstep hr,
      fun sym b hb n hn => ih.resting_step hs hsync hstep hb hn, ih.fills_step hs hsync hstep⟩

/-- **Every resting order is on admitted terms, and every fill is of at least one share**, in
every run whose replace requests would have passed the checks of new orders. -/
theorem admitted_of_run (h : RunTo cfg Admitting as s) : Admitted cfg as s := by
  have hall := admittedAll_of_run h
  exact ⟨fun sym b hb n hn =>
    ⟨((synced_of_admitting h).positive sym b hb n hn).1, hall.resting sym b hb n hn⟩, hall.fills⟩

/-- An exchange with a limit on quantities and a collar. -/
def collarConfig : Config := { Sample.config with risk := ⟨100, 10⟩ }

/-- A trade that sets the last price, and a replace request within the collar. -/
def sampleAdmissionRun : List Action :=
  Sample.submit (Sample.limit "a" '2' 5 10) Sample.alice ++ Sample.engine 2
    ++ Sample.submit (Sample.limit "b" '1' 3 10) Sample.bob ++ Sample.engine 6
    ++ Sample.forward (Sample.replace "c" "a" '2' 4 11) Sample.alice ++ Sample.engine 2

theorem admitted_of_run_sample :
    ∃ s, RunTo collarConfig Admitting sampleAdmissionRun s ∧
      (∃ o ∈ restingOrders s.engine.books, o.price = 11) ∧
      Admitted collarConfig sampleAdmissionRun s := by
  have hreach : ∃ s, RunTo collarConfig Admitting sampleAdmissionRun s ∧
      ∃ o ∈ restingOrders s.engine.books, o.price = 11 :=
    Transition.exists_reaches (by decide +kernel) (by decide +kernel)
  obtain ⟨s, hrun, ho⟩ := hreach
  exact ⟨s, hrun, ho, admitted_of_run hrun⟩

/-- An order that rests, and a replace request with a negative quantity. -/
def negativeReplaceRun : List Action :=
  Sample.submit (Sample.limit "a" '1' 5 10) Sample.alice ++ Sample.engine 2
    ++ Sample.forward (Sample.replace "b" "a" '1' (-3) 10) Sample.alice ++ Sample.engine 1

/-- An order in the book has a negative open quantity. -/
theorem replace_not_checked :
    ∃ s, RunTo Sample.config Any negativeReplaceRun s ∧
      (∃ o ∈ restingOrders s.engine.books, o.leavesQty = -3) ∧
      ¬ Admitted Sample.config negativeReplaceRun s := by
  have hreach : ∃ s, RunTo Sample.config Any negativeReplaceRun s ∧
      ∃ o ∈ restingOrders s.engine.books, o.leavesQty = -3 :=
    Transition.exists_reaches (by decide +kernel) (by decide +kernel)
  obtain ⟨s, hrun, o, ho, hleaves⟩ := hreach
  refine ⟨s, hrun, ⟨o, ho, hleaves⟩, fun h => ?_⟩
  obtain ⟨sym, b, hb, n, hn, rfl⟩ := mem_restingOrders.mp ho
  have hpos := (h.orders sym b hb n hn).1
  rw [hleaves] at hpos
  exact absurd hpos (by decide)

end System

end FixExchange
