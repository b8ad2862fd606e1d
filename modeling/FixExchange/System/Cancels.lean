/-
# What a cancel request does

A cancel request is not always answered, but it always takes effect.  From the moment when the
gateway has resolved it the request waits for the engine behind its order, and when the engine has
taken it the order rests nowhere and nothing brings it back (`Leaving`).  In a run of limit orders
the order is then closed whenever nothing is left to be done, whatever the other threads and clients
have done meanwhile (`cancel_takes_effect`).
-/
import FixExchange.System.Held
import FixExchange.System.Linearization
import FixExchange.System.Names
import FixExchange.System.OpenOrders
import FixExchange.System.Protocol
import FixExchange.Lib.Settling

namespace FixExchange

namespace OrderBook

variable {b : OrderBook}

/-- A cancel leaves no order with its id. -/
lemma fresh_cancel (hk : b.Keyed) (h : b.Wf) (id : String) : (b.cancel id).1.Fresh id := by
  rcases h.cancel_eq id with ⟨hl, hc⟩ | ⟨n, hn, rfl, hc⟩
  · rw [hc]
    exact (hk.lookup_eq_none_iff h).mp hl
  · rw [hc]
    exact hk.fresh_unlink h hn

end OrderBook

namespace System

variable {s s' t : System} {a : Action} {as bs : List Action} {id symbol : String}

/-! ## The symbol of an order -/

/-- Whatever the exchange holds about an order is about this symbol. -/
def Labelled (s : System) (id symbol : String) : Prop :=
  ∀ o ∈ s.heldOrders, o.exchangeId = id → o.symbol = symbol

lemma Labelled.step (h : s.Labelled id symbol) (hf : s.Founded)
    (hid : Issued s.gateway.orderSeq id) (hstep : s.step a = some s') : s'.Labelled id symbol := by
  intro o' ho' hoid
  rcases held_step hf hstep ho' with ⟨o, ho, hsame⟩ | ⟨m, session, -, haccepts, -⟩
  · rw [hsame.symbol]
    exact h o ho (hsame.exchangeId.symm.trans hoid)
  · -- the id of a new order has not been issued before
    rw [← hoid, haccepts.exchangeId] at hid
    exact absurd rfl hid.ne_next

/-- The order rests in the book of its symbol only. -/
lemma Labelled.book (h : s.Labelled id symbol) (hf : s.Founded) {sym : String} {b : OrderBook}
    (hb : s.engine.books.lookup sym = some b) (hsym : sym ≠ symbol) : b.Fresh id := by
  intro n hn hid
  refine hsym ?_
  rw [← (hf.books.orders sym b hb n hn).1]
  exact h n.order (mem_heldOrders.mpr (Or.inl ⟨sym, b, hb, n, hn, rfl⟩)) hid

/-! ## A cancel on its way -/

/-- A cancel request for an order waits, and no submission of the order waits behind it; or the
engine has seen the last of the order. -/
inductive Leaving (s : System) (id symbol : String) : Prop
  | waits {pre post : List WorkItem} {req : CancelRequest}
      (hwaiting : s.waiting = pre ++ .cancel req :: post) (hid : req.origOrderId = id)
      (hsymbol : req.symbol = symbol) (hpost : ∀ o, .order o ∈ post → o.exchangeId ≠ id) :
      Leaving s id symbol
  | departed (h : s.Departed id) : Leaving s id symbol

/-- When nothing waits the order has departed. -/
lemma Leaving.departed_of_drained (h : s.Leaving id symbol) (hd : s.Drained) : s.Departed id := by
  cases h with
  | waits hwaiting =>
    rw [waiting, hd.queue, hd.handler] at hwaiting
    exact absurd hwaiting.symm (by simp [Handler.item])
  | departed h => exact h

/-- **One step** keeps an order leaving. -/
theorem Leaving.step (h : s.Leaving id symbol) (hf : s.Founded) (hknown : s.Known id)
    (hlabel : s.Labelled id symbol) (hstep : s.step a = some s') : s'.Leaving id symbol := by
  cases h with
  | departed h => exact .departed (h.step hf hstep)
  | @waits pre post req hwaiting hid hsymbol hpost =>
    have hkeep : s'.waiting = s.waiting → s'.Leaving id symbol := fun hsame =>
      .waits (hsame.trans hwaiting) hid hsymbol hpost
    have hline := waiting_step hstep
    cases a with
    | message msg session =>
      rw [inputs, List.filterMap_nil, List.nil_append, hwaiting, List.append_assoc,
        List.cons_append] at hline
      refine .waits hline.symm hid hsymbol fun o ho => ?_
      rcases List.mem_append.mp ho with ho | ho
      · exact hpost o ho
      · -- a new order has a new id
        rcases onMessage_cases s session msg with ⟨seq, sent, heq, -⟩ | ⟨m, o', -, ho', heq⟩ |
            ⟨m, req', -, -, heq⟩ | ⟨m, req', -, -, heq⟩ <;>
          simp only [admits, heq, Handler.item, Option.toList_none, Option.toList_some] at ho
        · exact absurd ho List.not_mem_nil
        · obtain rfl := WorkItem.order.inj (List.mem_singleton.mp ho)
          rw [ho'.exchangeId]
          exact hknown.1.ne_next.symm
        · exact absurd (List.mem_singleton.mp ho) (by simp)
        · exact absurd (List.mem_singleton.mp ho) (by simp)
    | logon session | handle | persist | registerSymbol symbol =>
      simp only [inputs, admits, List.filterMap_nil, List.filterMap_cons, MarketInput.item?,
        List.nil_append, List.append_nil] at hline
      exact hkeep hline.symm
    | engine =>
      rcases engineStep_cases hstep with ⟨t, ts, ht, rfl⟩ | ⟨ht, item, queue, b, hq, hb, rfl⟩
      · exact hkeep rfl
      · have hrest : item :: (queue ++ s.handler.item.toList) = pre ++ .cancel req :: post := by
          rw [← hwaiting, waiting, hq]
          rfl
        cases pre with
        | cons first pre =>
          obtain ⟨-, hrest⟩ := List.cons.inj hrest
          exact .waits hrest hid hsymbol hpost
        | nil =>
          -- the engine takes the request
          obtain ⟨rfl, hbehind⟩ := List.cons.inj hrest
          refine .departed ⟨hknown.step hstep, fun sym b' hb' => ?_, fun o ho => hpost o ?_⟩
          · rcases lookup_processed hb' with ⟨-, rfl⟩ | ⟨hne, hb'⟩
            · rw [← hid]
              exact OrderBook.fresh_cancel (hf.books.keyed _ b hb) (hf.books.wf _ b hb) _
            · exact hlabel.book hf hb' fun heq => hne (heq.trans hsymbol.symm)
          · rw [← hbehind]
            exact List.mem_append_left _ ho

/-- A request that the gateway has resolved is on its way. -/
lemma leaving_of_message {m : OrderCancelRequest} {session : SessionID}
    (hresolved : s.gateway.clordToExchange.lookup m.origClOrdID = some id)
    (hstep : s.step (.message (.cancel m) session) = some s') : s'.Leaving id m.symbol := by
  obtain ⟨-, rfl⟩ := step_message hstep
  have hhandler : (s.onMessage session (.cancel m)).2 = .cancel
      { origOrderId := id, clientId := session.targetCompID, symbol := m.symbol } := by
    rw [onMessage, FixGateway.onOrderCancelRequest, hresolved]
  have hwaiting : ({ s with
      gateway := (s.onMessage session (.cancel m)).1
      handler := (s.onMessage session (.cancel m)).2 } : System).waiting
        = s.queue ++ .cancel
          { origOrderId := id, clientId := session.targetCompID, symbol := m.symbol } :: [] := by
    rw [waiting, hhandler]
    rfl
  exact .waits hwaiting rfl rfl fun o ho => absurd ho List.not_mem_nil

/-- What is open has the symbol that it has everywhere. -/
lemma labelled_of_open (hf : s.Founded) (hsync : s.Synced) {o : Order}
    (ho : s.gateway.active id = some o) : s.Labelled id o.symbol := by
  have hopen : ∀ o', s.openOrders id = some o' → o'.symbol = o.symbol := by
    intro o' ho'
    obtain ⟨o₀, ho₀, hsame⟩ := FixGateway.settle_inv ho'
    rw [hsame.symbol, Option.some.inj (ho₀.symm.trans ho)]
  intro o' ho' hid
  rcases mem_heldOrders.mp ho' with ⟨sym, b, hb, n, hn, rfl⟩ | hincoming | ⟨id', ho'⟩
  · have hrests := hf.books.resting_eq_some.mpr ⟨sym, b, hb, n, hn, rfl, rfl⟩
    obtain ⟨a, ha, hmirrors⟩ := hsync.agrees _ _ hrests
    rw [← hmirrors.symbol]
    exact hopen a (by rw [← hid]; exact ha)
  · have hcoming : .order o' ∈ s.coming := by
      rcases hincoming with hq | hpending
      · exact mem_coming_of_queue hq
      · -- an order that is open is entered in all maps
        by_cases hsubmit : s.handler = .submit o'
        · rw [coming, hsubmit]
          exact List.mem_append_right _ List.mem_cons_self
        · have hclosed := hf.active_pending hpending hsubmit
          rw [hid] at hclosed
          exact absurd (hclosed.symm.trans ho) (by simp)
    exact hopen o' (by rw [← hid]; exact hsync.orders o' hcoming)
  · rw [(hf.maps.active id' o' ho').1] at hid
    rw [hid] at ho'
    rw [Option.some.inj (ho'.symm.trans ho)]

/-- Ids stay issued. -/
lemma orderSeq_le (hstep : s.step a = some s') : s.gateway.orderSeq ≤ s'.gateway.orderSeq := by
  cases a with
  | message msg session =>
    obtain ⟨-, rfl⟩ := step_message hstep
    rcases onMessage_cases s session msg with ⟨seq, sent, heq, hseq⟩ | ⟨m, o, -, -, heq⟩ |
        ⟨m, req, -, -, heq⟩ | ⟨m, req, -, -, heq⟩ <;> rw [heq]
    · exact hseq
    · exact Nat.le_succ _
  | logon session =>
    obtain ⟨-, rfl⟩ := step_logon hstep
    exact le_refl _
  | handle =>
    rcases handle_cases hstep with ⟨o, session, -, rfl⟩ | ⟨o, session, -, rfl⟩ | ⟨item, -, rfl⟩ <;>
      exact le_refl _
  | engine =>
    rcases engineStep_cases hstep with ⟨t, ts, -, rfl⟩ | ⟨-, item, queue, b, -, -, rfl⟩
    · exact (FixGateway.runTask_orderSeq s.gateway t).ge
    · exact le_refl _
  | persist =>
    obtain ⟨p, p', -, -, rfl⟩ := step_persist hstep
    exact le_refl _
  | registerSymbol symbol =>
    obtain ⟨e, -, rfl⟩ := step_registerSymbol hstep
    exact le_refl _

/-- An order that is not open any more is not opened again. -/
lemma closed_step (hknown : s.Known id) (h : s.gateway.active id = none)
    (hstep : s.step a = some s') : s'.gateway.active id = none := by
  cases a with
  | message msg session =>
    obtain ⟨-, rfl⟩ := step_message hstep
    rcases onMessage_cases s session msg with ⟨seq, sent, heq, -⟩ | ⟨m, o, -, -, heq⟩ |
        ⟨m, req, -, -, heq⟩ | ⟨m, req, -, -, heq⟩ <;>
      rw [heq] <;> exact h
  | logon session =>
    obtain ⟨-, rfl⟩ := step_logon hstep
    exact h
  | handle =>
    rcases handle_cases hstep with ⟨o, session, -, rfl⟩ | ⟨o, session, hh, rfl⟩ | ⟨item, -, rfl⟩
    · exact h
    · rw [Option.eq_none_iff_forall_ne_some]
      intro o' ho'
      rcases active_activateOrder ho' with ho' | ⟨heq, -⟩
      · exact absurd (h.symm.trans ho') (by simp)
      · exact hknown.2 o (by rw [hh]; rfl) heq
    · exact h
  | engine =>
    rcases engineStep_cases hstep with ⟨t, ts, -, rfl⟩ | ⟨-, item, queue, b, -, -, rfl⟩
    · rw [Option.eq_none_iff_forall_ne_some]
      intro o' ho'
      obtain ⟨o, ho, -⟩ := FixGateway.runTask_active_inv ho'
      exact absurd (h.symm.trans ho) (by simp)
    · exact h
  | persist =>
    obtain ⟨p, p', -, -, rfl⟩ := step_persist hstep
    exact h
  | registerSymbol symbol =>
    obtain ⟨e, -, rfl⟩ := step_registerSymbol hstep
    exact h

/-- **An order that leaves is closed** in every later state in which nothing is left to be done. -/
theorem closed_of_leaving {cfg : Config} (h : RunTo cfg LimitOrders as s) (hknown : s.Known id)
    (hlabel : s.Labelled id symbol) (hleaving : s.Leaving id symbol)
    (hrest : Transition.Reaches step LimitOrders s bs t) (hd : t.Drained) :
    t.gateway.active id = none ∧
      ∀ sym b, t.engine.books.lookup sym = some b → b.Fresh id := by
  obtain ⟨-, -, hleaving⟩ : t.Known id ∧ t.Labelled id symbol ∧ t.Leaving id symbol := by
    refine hrest.invariant (I := fun v => v.Known id ∧ v.Labelled id symbol ∧ v.Leaving id symbol)
      ⟨hknown, hlabel, hleaving⟩ ?_
    rintro ds v a w hrun ⟨hknown, hlabel, hleaving⟩ - hstep
    have hv := (sound_of_run (h.trans hrun)).founded
    exact ⟨hknown.step hstep, hlabel.step hv hknown.1 hstep, hleaving.step hv hknown hlabel hstep⟩
  have hdeparted := hleaving.departed_of_drained hd
  refine ⟨?_, hdeparted.resting⟩
  by_contra hne
  have hopen : t.openOrders id ≠ none := by
    rw [openOrders_of_no_tasks hd.tasks]
    exact hne
  have hf := (sound_of_run (h.trans hrest)).founded
  rcases accounted_of_run (h.trans hrest) id hopen with hrests | ⟨o, ho, -⟩
  · obtain ⟨sym, b, hb, n, hn, hid⟩ := hf.resting_iff.mp hrests
    exact hdeparted.resting sym b hb n hn hid
  · rw [coming_of_idle hd.handler, hd.queue] at ho
    exact absurd ho List.not_mem_nil

/-- **A cancel request takes effect.**  In every run of limit orders, when the gateway resolves a
cancel request to an open order whose symbol the request names, then after any more steps of all
threads and clients, whenever nothing is left to be done, the order is not open and rests in no
book. -/
theorem cancel_takes_effect {cfg : Config} {m : OrderCancelRequest} {session : SessionID} {o : Order}
    (h : RunTo cfg LimitOrders as s)
    (hresolved : s.gateway.clordToExchange.lookup m.origClOrdID = some id)
    (hopen : s.gateway.activeOrders.lookup id = some o) (hsymbol : o.symbol = m.symbol)
    (hrest : Transition.Reaches step LimitOrders s (.message (.cancel m) session :: bs) t)
    (hd : t.Drained) :
    t.gateway.activeOrders.lookup id = none ∧
      ∀ sym b, t.engine.books.lookup sym = some b → b.Fresh id := by
  have hf := (sound_of_run h).founded
  have hsync : s.Synced :=
    synced_of_run (fun _ _ h => forwardsPositive_of_replacesPositive h.positive) h
  obtain ⟨hnil, -⟩ | ⟨a, u, cs, heq, hok, hstep, hafter⟩ := hrest.head_cases
  · exact absurd hnil (by simp)
  obtain ⟨rfl, rfl⟩ := List.cons.inj heq
  have hissued : Issued s.gateway.orderSeq id := hf.maps.resolved _ _ hresolved
  have hidle : s.handler = .idle := (step_message hstep).1
  have hknown : s.Known id := ⟨hissued, by simp [hidle, Handler.pending]⟩
  have hlabel : u.Labelled id m.symbol := by
    rw [← hsymbol]
    exact (labelled_of_open hf hsync hopen).step hf hissued hstep
  exact closed_of_leaving (.snoc h hok hstep) (hknown.step hstep) hlabel
    (leaving_of_message hresolved hstep) hafter hd

/-- An order rests; a cancel request for it races with an order that trades with a part of it. -/
def racedRun : List Action :=
  Sample.submit (Sample.limit "a" '2' 5 10) Sample.alice ++ Sample.engine 2
    ++ Sample.submit (Sample.limit "b" '1' 3 10) Sample.bob

theorem cancel_takes_effect_sample :
    ∃ s t, RunTo Sample.config LimitOrders racedRun s ∧
      Transition.Reaches step LimitOrders s
        (Sample.forward (Sample.cancel "a") Sample.alice ++ Sample.engine 8) t ∧
      t.gateway.activeOrders.lookup "EXCH-1" = none := by
  have hreach : ∃ s, RunTo Sample.config LimitOrders racedRun s ∧
      s.gateway.clordToExchange.lookup "a" = some "EXCH-1" ∧
      (s.gateway.activeOrders.lookup "EXCH-1").map Order.symbol = some "X" ∧
      (Transition.run step s (Sample.forward (Sample.cancel "a") Sample.alice
        ++ Sample.engine 8)).any (fun t => decide t.Drained) = true ∧
      Transition.Allowed step LimitOrders s
        (Sample.forward (Sample.cancel "a") Sample.alice ++ Sample.engine 8) :=
    Transition.exists_reaches (by decide +kernel) (by decide +kernel)
  obtain ⟨s, hrun, hresolved, hopen, hmore, hallowed⟩ := hreach
  obtain ⟨o, ho, hsymbol⟩ := Option.map_eq_some_iff.mp hopen
  obtain ⟨t, hrest, hd⟩ := Transition.exists_reaches hmore hallowed
  exact ⟨s, t, hrun, hrest, (cancel_takes_effect hrun hresolved ho hsymbol hrest hd).1⟩

end System

end FixExchange
