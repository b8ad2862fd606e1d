/-
# One client id per live order

In a run whose items are carried through, and whose messages bring different client ids, an
order that rests has one client id: the book, the gateway and the client have the same one, and
it is the only id that leads to the order.  The ids of finished orders lead nowhere
(`one_clOrdId`).  The book keeps the old id of an order that has been replaced, though
(`replaced_id_differs`).
-/
import FixExchange.System.Names

namespace FixExchange

/-- The client ids that a message brings for an order. -/
def Action.clOrdIds : Action → List String
  | .message (.newOrder msg) _ => [msg.clOrdID]
  | .message (.replace msg) _ => [msg.clOrdID]
  | .message (.cancel _) _ | .logon _ | .handle | .engine | .persist | .registerSymbol _ => []

/-- The client's id of an order, going by the messages: the one of the last new order or
replace that has been accepted. -/
def currentClOrdId (id : String) (messages : List (SessionID × ClientMessage)) : Option String :=
  (messages.filterMap fun message =>
    match message.2 with
    | .execReport report =>
      if report.orderId = id ∧
          (report.execType = ExecType.New.char ∨ report.execType = ExecType.Replaced.char) then
        some report.clOrdId
      else none
    | .cancelReject _ => none).getLast?

/-- When all reports of new orders and replaces have names of `own`, the client's id of an order
that has been acknowledged is the one of its name. -/
lemma currentClOrdId_eq {own : Set (String × String)} (hdist : System.Distinct own)
    {messages : List (SessionID × ClientMessage)}
    (hall : ∀ session report, (session, .execReport report) ∈ messages →
      report.execType = ExecType.New.char ∨ report.execType = ExecType.Replaced.char →
      (report.orderId, report.clOrdId) ∈ own)
    {o : Order} {session : SessionID}
    (hmem : (session, .execReport (makeExecReport o .New)) ∈ messages) :
    currentClOrdId o.exchangeId messages = some o.clordId := by
  rw [currentClOrdId]
  set ids := messages.filterMap _ with hids
  have hname : o.name ∈ own := hall session _ hmem (Or.inl rfl)
  have hin : o.clordId ∈ ids :=
    List.mem_filterMap.mpr ⟨_, hmem, if_pos ⟨rfl, Or.inl rfl⟩⟩
  have hone : ∀ c ∈ ids, c = o.clordId := by
    intro c hc
    obtain ⟨⟨session', message⟩, hm, hsome⟩ := List.mem_filterMap.mp hc
    cases message with
    | cancelReject reject => exact absurd hsome (by simp)
    | execReport report =>
      dsimp only at hsome
      split_ifs at hsome with hreport
      obtain rfl := Option.some.inj hsome
      have heq := hdist _ (hall session' report hm hreport.2) _ hname (Or.inl hreport.1)
      exact congrArg Prod.snd heq
  rw [List.getLast?_eq_getLast_of_ne_nil (List.ne_nil_of_mem hin)]
  exact congrArg some (hone _ (List.getLast_mem _))

namespace System

variable {s s' : System} {a : Action} {as : List Action}

/-- The messages of a run, without the status reports and the historical replays. -/
def liveLog (s : System) (as : List Action) : List (SessionID × ClientMessage) :=
  Transition.collect step liveSends s as

/-- The names of the orders that a run has accepted. -/
def names (s : System) (as : List Action) : Set (String × String) :=
  {x | x ∈ (s.accepted as).map Order.name}

/-! ## What is reported -/

/-- What a message reports about an order, when no replace is passed on. -/
inductive Reports (s : System) : SessionID × ClientMessage → Prop
  | new {o : Order} {session : SessionID} (h : s.handler = .activate o session) :
      Reports s (session, .execReport (makeExecReport o .New))
  | fill {fill : Fill} {session : SessionID} {execType : ExecType}
      (h : .fillOrders fill session ∈ s.tasks)
      (hexec : execType = .Fill ∨ execType = .PartFill) :
      Reports s (session, .execReport (makeFillReport fill execType))
  | other {session : SessionID} {report : ExecutionReport}
      (h : report.execType = ExecType.Canceled.char ∨ report.execType = ExecType.Rejected.char) :
      Reports s (session, .execReport report)
  | reject (session : SessionID) (reject : OrderCancelReject) :
      Reports s (session, .cancelReject reject)

/-- A task sends at most one message. -/
lemma reports_task {t : Task} {ts : List Task} (ht : s.tasks = t :: ts)
    (hun : ∀ req n p, .replaced req n p ∉ noticesOf s.tasks s.gateway.active) :
    t.sends s.gateway = [] ∨ ∃ message, t.sends s.gateway = [message] ∧ s.Reports message := by
  have hmem : t ∈ s.tasks := by rw [ht]; exact List.mem_cons_self
  cases t with
  | fillRouting fill => exact Or.inl rfl
  | fillOrders fill session =>
    refine Or.inr ⟨_, rfl, .fill hmem ?_⟩
    split_ifs
    · exact Or.inl rfl
    · exact Or.inr rfl
  | fillDone maker taker => exact Or.inl rfl
  | onCancel req found =>
    simp only [Task.sends]
    split
    · split_ifs
      · exact Or.inr ⟨_, rfl, .other (Or.inl rfl)⟩
      · exact Or.inl rfl
    · exact Or.inl rfl
  | onTIFCancel o =>
    simp only [Task.sends]
    split
    · exact Or.inl rfl
    · exact Or.inr ⟨_, rfl, .other (Or.inl rfl)⟩
  | onReplace req found newLeavesQty =>
    simp only [Task.sends]
    split
    · rename_i session o hs ha
      split_ifs with hfound
      · -- the replace would be passed on
        refine absurd ?_ (hun req newLeavesQty o.price)
        have ha : s.gateway.active req.origOrderId = some o := ha
        rw [ht, noticesOf_cons, Task.notices, if_pos hfound, ha]
        exact List.mem_cons_self
      · exact Or.inr ⟨_, rfl, .reject _ _⟩
    · exact Or.inl rfl
  | onOrderRested o leavesQty => exact Or.inl rfl

/-- A step sends at most one message, a logon apart. -/
lemma reports_step (hun : ∀ req n p, .replaced req n p ∉ noticesOf s.tasks s.gateway.active)
    (a : Action) : s.liveSends a = [] ∨ ∃ message, s.liveSends a = [message] ∧ s.Reports message := by
  cases a with
  | message msg session =>
    show s.sends (.message msg session) = [] ∨
      ∃ message, s.sends (.message msg session) = [message] ∧ s.Reports message
    rcases (onMessage_sent s session msg).2 with h | ⟨m, report, -, h, -, hexec, -⟩ |
        ⟨m, reject, -, h, -⟩
    · exact Or.inl h
    · exact Or.inr ⟨_, h, .other (Or.inr hexec)⟩
    · exact Or.inr ⟨_, h, .reject _ _⟩
  | logon session => exact Or.inl rfl
  | handle =>
    show s.sends .handle = [] ∨ ∃ message, s.sends .handle = [message] ∧ s.Reports message
    rw [sends]
    split
    · rename_i o session hh
      exact Or.inr ⟨_, rfl, .new hh⟩
    · exact Or.inl rfl
  | engine =>
    cases ht : s.tasks with
    | nil => exact Or.inl (liveSends_take ht)
    | cons t ts =>
      rw [liveSends_task ht]
      exact reports_task ht hun
  | persist => exact Or.inl rfl
  | registerSymbol symbol => exact Or.inl rfl

/-! ## All runs -/

/-- Every report of a fill has the client's id that the order has then. -/
def FillsCurrent (log : List (SessionID × ClientMessage)) : Prop :=
  ∀ pre session report, pre ++ [(session, .execReport report)] <+: log →
    report.execType = ExecType.PartFill.char ∨ report.execType = ExecType.Fill.char →
    currentClOrdId report.orderId pre = some report.clOrdId

/-- What holds of the client's ids in the runs whose items are carried through. -/
structure Tracked (s₀ : System) (as : List Action) (s : System) : Prop where
  named : s.Named (s₀.names as)
  distinct : Distinct (s₀.names as)
  brought : ∀ x ∈ s₀.names as, x.2 ∈ as.flatMap Action.clOrdIds
  issued : ∀ x ∈ s₀.names as, Issued s.gateway.orderSeq x.1
  routed : s.Routed
  reported : ∀ session report, (session, .execReport report) ∈ s₀.liveLog as →
    report.execType = ExecType.New.char ∨ report.execType = ExecType.Replaced.char →
    (report.orderId, report.clOrdId) ∈ s₀.names as
  acked : ∀ o ∈ s₀.accepted as, unacked s.handler = some o ∨
    ∃ session, (session, .execReport (makeExecReport o .New)) ∈ s₀.liveLog as
  fills : FillsCurrent (s₀.liveLog as)

/-- The client's id of an order that the engine knows. -/
lemma Tracked.current {s₀ : System} (h : Tracked s₀ as s) {id c : String}
    (hname : (id, c) ∈ s₀.names as) (hknown : s.Known id) :
    currentClOrdId id (s₀.liveLog as) = some c := by
  obtain ⟨o, ho, heq⟩ := List.mem_map.mp hname
  obtain ⟨rfl, rfl⟩ := Prod.mk.inj heq
  rcases h.acked o ho with hun | ⟨session, hmem⟩
  · exact absurd rfl (hknown.2 o (pending_of_unacked hun))
  · exact currentClOrdId_eq h.distinct h.reported hmem

lemma tracked_start (cfg : Config) : Tracked (start cfg) [] (start cfg) := by
  have hactive : ∀ id o, (start cfg).gateway.active id ≠ some o := by
    intro id o ho
    simp [start, FixGateway.active, FixGateway.init] at ho
  refine ⟨⟨fun sym b hb n hn => ?_, fun o ho => ?_, fun id o ho => absurd ho (hactive id o),
      fun t ht => absurd ht List.not_mem_nil⟩, fun x hx => absurd hx List.not_mem_nil,
    fun x hx => absurd hx List.not_mem_nil, fun x hx => absurd hx List.not_mem_nil,
    ⟨fun c id hc => ?_, fun id o ho => absurd ho (hactive id o), fun o session hh => ?_,
      fun fill session ht => absurd ht List.not_mem_nil⟩,
    fun session report hm => absurd hm List.not_mem_nil, fun o ho => absurd ho List.not_mem_nil,
    fun pre session report hpre => ?_⟩
  · rw [start, lookup_init_books] at hb
    split_ifs at hb
    rw [← Option.some.inj hb] at hn
    simp [OrderBook.init, OrderBook.nodes] at hn
  · simp [Incoming, start, Handler.pending] at ho
  · simp [start, FixGateway.init] at hc
  · simp [start] at hh
  · exact absurd (List.prefix_nil.mp hpre) (by simp)

/-- The messages of a run after one more step. -/
lemma liveLog_snoc {s₀ : System} {ok : System → Action → Prop}
    (h : Transition.Reaches step ok s₀ as s) (a : Action) :
    s₀.liveLog (as ++ [a]) = s₀.liveLog as ++ s.liveSends a := h.collect_snoc a

lemma mem_names_snoc {s₀ : System} {ok : System → Action → Prop}
    (h : Transition.Reaches step ok s₀ as s) {a : Action} {x : String × String} :
    x ∈ s₀.names (as ++ [a]) ↔ x ∈ s₀.names as ∨ ∃ o ∈ s.accepts a, o.name = x := by
  show x ∈ (s₀.accepted (as ++ [a])).map Order.name ↔ _
  rw [accepted, h.collect_snoc, List.map_append, List.mem_append, List.mem_map (l := s.accepts a)]
  rfl

/-- An order that is accepted has the client id that its message brings. -/
lemma clordId_of_accepts {o : Order} (h : o ∈ s.accepts a) : o.clordId ∈ a.clOrdIds := by
  cases a with
  | message msg session =>
    rcases onMessage_cases s session msg with ⟨seq, sent, heq, -⟩ | ⟨m, o', rfl, ho', heq⟩ |
        ⟨m, req, -, -, heq⟩ | ⟨m, req, -, -, heq⟩ <;>
      simp only [accepts, heq] at h
    · exact absurd h List.not_mem_nil
    · rw [List.mem_singleton.mp h, ho'.clordId]
      exact List.mem_cons_self
    · exact absurd h List.not_mem_nil
    · exact absurd h List.not_mem_nil
  | _ => exact absurd h List.not_mem_nil

/-- The names stay distinct. -/
lemma Tracked.distinct_step {s₀ : System} {ok : System → Action → Prop} (h : Tracked s₀ as s)
    (hrun : Transition.Reaches step ok s₀ as s) (hstep : s.step a = some s')
    (hnodup : ((as ++ [a]).flatMap Action.clOrdIds).Nodup) : Distinct (s₀.names (as ++ [a])) := by
  rw [List.flatMap_append, List.flatMap_cons, List.flatMap_nil, List.append_nil] at hnodup
  obtain ⟨-, -, hne⟩ := List.nodup_append.mp hnodup
  -- an order that is accepted shares no id with the orders before
  have hnew : ∀ x ∈ s₀.names as, ∀ o ∈ s.accepts a, x.1 ≠ o.exchangeId ∧ x.2 ≠ o.clordId := by
    intro x hx o ho
    refine ⟨?_, fun heq => hne _ (h.brought x hx) _ (clordId_of_accepts ho) heq⟩
    rw [(stage_accepts ho hstep).2.1]
    exact (h.issued x hx).ne_next
  have hone : ∀ o ∈ s.accepts a, ∀ o' ∈ s.accepts a, o = o' := by
    intro o ho o' ho'
    cases a with
    | message msg session =>
      cases hres : (s.onMessage session msg).2 <;> simp only [accepts, hres] at ho ho'
      · exact absurd ho List.not_mem_nil
      · rw [List.mem_singleton.mp ho, List.mem_singleton.mp ho']
      all_goals exact absurd ho List.not_mem_nil
    | _ => exact absurd ho List.not_mem_nil
  intro x hx y hy hxy
  rcases (mem_names_snoc hrun).mp hx with hx | ⟨o, ho, rfl⟩
  · rcases (mem_names_snoc hrun).mp hy with hy | ⟨o', ho', rfl⟩
    · exact h.distinct x hx y hy hxy
    · exact absurd hxy (not_or.mpr (hnew x hx o' ho'))
  · rcases (mem_names_snoc hrun).mp hy with hy | ⟨o', ho', rfl⟩
    · obtain ⟨hid, hclord⟩ := hnew y hy o ho
      exact absurd hxy (not_or.mpr ⟨hid.symm, hclord.symm⟩)
    · rw [hone o ho o' ho']

/-- An accepted order is acknowledged, or its handler is still on the way to that. -/
lemma Tracked.acked_step {s₀ : System} {ok : System → Action → Prop} (h : Tracked s₀ as s)
    (hrun : Transition.Reaches step ok s₀ as s) (hstep : s.step a = some s') :
    ∀ o ∈ s₀.accepted (as ++ [a]), unacked s'.handler = some o ∨
      ∃ session, (session, .execReport (makeExecReport o .New)) ∈ s₀.liveLog (as ++ [a]) := by
  intro o ho
  rw [liveLog_snoc hrun]
  rw [accepted, hrun.collect_snoc] at ho
  rcases List.mem_append.mp ho with ho | ho
  · rcases h.acked o ho with hun | ⟨session, hmem⟩
    · cases a with
      | message msg session =>
        rw [(step_message hstep).1] at hun
        exact absurd hun (by simp [unacked])
      | logon session =>
        rw [(step_logon hstep).1] at hun
        exact absurd hun (by simp [unacked])
      | handle =>
        rcases handle_cases hstep with ⟨o', session, hh, rfl⟩ | ⟨o', session, hh, rfl⟩ |
            ⟨item, hitem, rfl⟩
        · rw [hh] at hun
          exact Or.inl hun
        · rw [hh] at hun
          obtain rfl := Option.some.inj hun
          refine Or.inr ⟨session, List.mem_append_right _ ?_⟩
          show _ ∈ s.sends .handle
          rw [sends, hh]
          exact List.mem_cons_self
        · rcases nextItem_cases hitem with ⟨o', hh, -⟩ | ⟨hnone, -⟩
          · rw [hh] at hun
            exact absurd hun (by simp [unacked])
          · exact absurd ((pending_of_unacked hun).symm.trans hnone) (by simp)
      | engine =>
        rcases engineStep_cases hstep with ⟨t, ts, -, rfl⟩ | ⟨-, item, queue, b, -, -, rfl⟩ <;>
          exact Or.inl hun
      | persist =>
        obtain ⟨p, p', -, -, rfl⟩ := step_persist hstep
        exact Or.inl hun
      | registerSymbol symbol =>
        obtain ⟨e, -, rfl⟩ := step_registerSymbol hstep
        exact Or.inl hun
    · exact Or.inr ⟨session, List.mem_append_left _ hmem⟩
  · cases (stage_accepts ho hstep).1 with
    | accepted hun => exact Or.inl hun

/-- **One step** keeps track of the client's ids. -/
theorem Tracked.step {s₀ : System} {ok : System → Action → Prop} (h : Tracked s₀ as s)
    (hrun : Transition.Reaches System.step ok s₀ as s) (hf : s.Founded)
    (hun : ∀ req n p, .replaced req n p ∉ noticesOf s.tasks s.gateway.active)
    (hstep : s.step a = some s') (hnodup : ((as ++ [a]).flatMap Action.clOrdIds).Nodup) :
    Tracked s₀ (as ++ [a]) s' := by
  have hsub : s₀.names as ⊆ s₀.names (as ++ [a]) := fun x hx => (mem_names_snoc hrun).mpr (Or.inl hx)
  have hdist := h.distinct_step hrun hstep hnodup
  have hlog := liveLog_snoc hrun a
  have hreports := reports_step hun a
  have hnamed : ∀ o, s.Incoming o → o.name ∈ s₀.names as := h.named.incoming
  refine ⟨Named.step (h.named.mono hsub) hf hun (fun o ho => ?_) hstep, hdist, fun x hx => ?_,
    fun x hx => ?_, h.routed.step hf h.named h.distinct hun hstep, fun session report hm hexec => ?_,
    h.acked_step hrun hstep, fun pre session report hpre hexec => ?_⟩
  · obtain ⟨m, session, rfl, -, hroute⟩ := ho
    refine (mem_names_snoc hrun).mpr (Or.inr ⟨o, ?_, rfl⟩)
    simp only [accepts, hroute, List.mem_singleton]
  · rw [List.flatMap_append, List.mem_append]
    rcases (mem_names_snoc hrun).mp hx with hx | ⟨o, ho, rfl⟩
    · exact Or.inl (h.brought x hx)
    · refine Or.inr ?_
      rw [List.flatMap_cons, List.flatMap_nil, List.append_nil]
      exact clordId_of_accepts ho
  · obtain ⟨n, hn, -⟩ := assigns_step hstep
    rcases (mem_names_snoc hrun).mp hx with hx | ⟨o, ho, rfl⟩
    · exact (h.issued x hx).mono (by omega)
    · cases (stage_accepts ho hstep).1 with
      | accepted hun' =>
        show Issued _ o.exchangeId
        rw [((hf.step hstep).handler.pending o (pending_of_unacked hun')).1]
        exact issued_self _
  · rw [hlog] at hm
    rcases List.mem_append.mp hm with hm | hm
    · exact hsub (h.reported session report hm hexec)
    · rcases hreports with hnil | ⟨message, hone, hkind⟩
      · rw [hnil] at hm
        exact absurd hm List.not_mem_nil
      · rw [hone] at hm
        rw [← List.mem_singleton.mp hm] at hkind
        cases hkind with
        | @new o _ hh => exact hsub (hnamed o (Or.inr (by rw [hh]; rfl)))
        | fill _ hfill =>
          rcases hfill with rfl | rfl <;>
            exact absurd hexec (by simp [makeFillReport, ExecType.char])
        | other hother =>
          rcases hother with hother | hother <;> rw [hother] at hexec <;>
            exact absurd hexec (by decide)
  · rw [hlog] at hpre
    rcases hreports with hnil | ⟨message, hone, hkind⟩
    · rw [hnil, List.append_nil] at hpre
      exact h.fills pre session report hpre hexec
    · rw [hone] at hpre
      rcases List.prefix_concat_iff.mp hpre with heq | hpre
      · obtain ⟨rfl, hmessage⟩ := List.append_inj' heq rfl
        rw [← List.head_eq_of_cons_eq hmessage] at hkind
        cases hkind with
        | new hh => exact absurd hexec (by simp [makeExecReport, ExecType.char])
        | @fill fill _ _ ht hfill =>
          exact h.current (h.named.tasks _ ht) (hf.tasks _ ht _ (List.mem_singleton.mpr rfl))
        | other hother =>
          rcases hother with hother | hother <;> rw [hother] at hexec <;>
            exact absurd hexec (by decide)
      · exact h.fills pre session report hpre hexec

/-- Every run whose items are carried through, and whose messages bring different client ids,
keeps track of them. -/
lemma tracked_of_run {cfg : Config} (h : RunTo cfg CarriesThrough as s)
    (hnodup : (as.flatMap Action.clOrdIds).Nodup) : Tracked (start cfg) as s := by
  revert hnodup
  refine h.invariant_history (I := fun as s => (as.flatMap Action.clOrdIds).Nodup →
    Tracked (start cfg) as s) (fun _ => tracked_start cfg) ?_
  intro as t a u hrun ih _ hstep hnodup
  have hcarried := carried_of_run (fun _ _ h => h) hrun
  refine (ih ?_).step hrun (sound_of_run hrun).founded hcarried.unreplaced hstep hnodup
  rw [List.flatMap_append] at hnodup
  exact (List.nodup_append.mp hnodup).1

/-- Each resting order has one client id: in the book, in the open orders, and in the messages
of the run; the id leads to the order, and no other id leads anywhere. -/
structure OneClOrdId (s : System) (log : List (SessionID × ClientMessage)) : Prop where
  resting : ∀ sym b, s.engine.books.lookup sym = some b → ∀ n ∈ b.nodes,
    (∃ o, s.gateway.activeOrders.lookup n.order.exchangeId = some o ∧
        o.clordId = n.order.clordId) ∧
      currentClOrdId n.order.exchangeId log = some n.order.clordId ∧
      s.gateway.clordToExchange.lookup n.order.clordId = some n.order.exchangeId
  only : ∀ c id, s.gateway.clordToExchange.lookup c = some id →
    ∃ sym b, s.engine.books.lookup sym = some b ∧
      ∃ n ∈ b.nodes, n.order.exchangeId = id ∧ n.order.clordId = c

/-- **One client id per live order**, in every run whose items are carried through and whose
messages bring different client ids: whenever the queue is drained and no callback runs every
resting order has one client id, and no other id leads anywhere; and every report of a fill has
the client's id that the order has then. -/
theorem one_clOrdId {cfg : Config} (h : RunTo cfg CarriesThrough as s)
    (hnodup : (as.flatMap Action.clOrdIds).Nodup) :
    (s.queue = [] → s.tasks = [] →
        (∀ o ∈ s.handler.pending, ∃ session, s.handler = .route o session) →
        s.OneClOrdId ((start cfg).liveLog as)) ∧
      FillsCurrent ((start cfg).liveLog as) := by
  have htracked := tracked_of_run h hnodup
  have hcarried := carried_of_run (fun _ _ h => h) h
  have hf := (sound_of_run h).founded
  refine ⟨fun hq ht hh => ⟨fun sym b hb n hn => ?_, fun c id hc => ?_⟩, htracked.fills⟩
  · have hname := htracked.named.resting sym b hb n hn
    have hopen := hcarried.listed n.order.exchangeId
      (Or.inl (hf.resting_iff.mpr ⟨sym, b, hb, n, hn, rfl⟩))
    rw [openOrders_of_no_tasks ht] at hopen
    obtain ⟨o, ho⟩ := Option.ne_none_iff_exists'.mp hopen
    have hsame : o.clordId = n.order.clordId := congrArg Prod.snd
      (htracked.distinct _ (htracked.named.active _ o ho) _ hname
        (Or.inl (hf.maps.active _ o ho).1))
    refine ⟨⟨o, ho, hsame⟩, htracked.current hname (hf.books.orders sym b hb n hn).2, ?_⟩
    rw [← hsame]
    rcases htracked.routed.routed _ o ho with hc | ⟨fill, session, hm, -⟩
    · exact hc
    · rw [ht] at hm
      exact absurd hm List.not_mem_nil
  · rcases htracked.routed.entry c id hc with ⟨o, ho, rfl⟩ | ⟨o, session, hact, -⟩
    · have hopen : s.openOrders id ≠ none := by
        rw [openOrders_of_no_tasks ht, ho]
        simp
      rcases hcarried.accounted id hopen with hrests | ⟨o', ho', -⟩
      · obtain ⟨sym, b, hb, n, hn, hid⟩ := hf.resting_iff.mp hrests
        refine ⟨sym, b, hb, n, hn, hid, congrArg Prod.snd (htracked.distinct _
          (htracked.named.resting sym b hb n hn) _ (htracked.named.active id o ho) (Or.inl ?_))⟩
        exact hid.trans (hf.maps.active id o ho).1.symm
      · -- nothing is on its way to the engine
        rw [coming, hq, List.nil_append] at ho'
        rcases nextItem_cases (Option.mem_toList.mp ho') with ⟨o'', hsubmit, -⟩ | ⟨-, hne⟩
        · obtain ⟨session, hroute⟩ := hh o'' (by rw [hsubmit]; rfl)
          exact absurd (hsubmit.symm.trans hroute) (by simp)
        · exact absurd rfl (hne o')
    · obtain ⟨session', hroute⟩ := hh o (by rw [hact]; rfl)
      exact absurd (hact.symm.trans hroute) (by simp)

/-- An order trades and is then replaced by one that trades with all of another order; an order
is cancelled. -/
def namedRun : List Action :=
  Sample.submit (Sample.limit "a" '2' 5 10) Sample.alice ++ Sample.engine 2
    ++ Sample.submit (Sample.limit "b" '1' 3 10) Sample.bob ++ Sample.engine 6
    ++ Sample.submit (Sample.limit "c" '1' 4 8) Sample.bob ++ Sample.engine 2
    ++ Sample.forward (Sample.replace "d" "a" '2' 2 8) Sample.alice ++ Sample.engine 7
    ++ Sample.submit (Sample.limit "e" '1' 1 7) Sample.bob ++ Sample.engine 2
    ++ Sample.forward (Sample.cancel "e") Sample.bob ++ Sample.engine 2

theorem one_clOrdId_sample :
    ∃ s, RunTo Sample.config CarriesThrough namedRun s ∧
      (namedRun.flatMap Action.clOrdIds).Nodup ∧ s.Drained ∧
      restingOrders s.engine.books ≠ [] ∧
      s.OneClOrdId ((start Sample.config).liveLog namedRun) ∧
      FillsCurrent ((start Sample.config).liveLog namedRun) := by
  have hreach : ∃ s, RunTo Sample.config CarriesThrough namedRun s ∧
      (s.Drained ∧ restingOrders s.engine.books ≠ []) :=
    Transition.exists_reaches (by decide +kernel) (by decide +kernel)
  have hnodup : (namedRun.flatMap Action.clOrdIds).Nodup := by decide +kernel
  obtain ⟨s, hrun, hd, hrests⟩ := hreach
  obtain ⟨hone, hfills⟩ := one_clOrdId hrun hnodup
  exact ⟨s, hrun, hnodup, hd, hrests,
    hone hd.queue hd.tasks (by simp [hd.handler, Handler.pending]), hfills⟩

/-- An order is replaced by one at the same price for less, and then trades. -/
def renamedRun : List Action :=
  Sample.submit (Sample.limit "a" '2' 5 10) Sample.alice ++ Sample.engine 2
    ++ Sample.forward (Sample.replace "b" "a" '2' 3 10) Sample.alice ++ Sample.engine 2
    ++ Sample.submit (Sample.limit "c" '1' 1 10) Sample.bob ++ Sample.engine 6

/-- What is reported about the trade. -/
def lateReport : ExecutionReport where
  orderId := "EXCH-1"
  execId := "X-2"
  execType := '1'
  ordStatus := '1'
  symbol := "X"
  side := '2'
  leavesQty := 2
  cumQty := 1
  avgPx := 10
  clOrdId := "a"
  orderQty := 3
  price := some 10
  lastShares := some 1

/-- After a replace the book has the old client id, and the fills have it, too. -/
theorem replaced_id_differs :
    ∃ s, RunTo Sample.config Any renamedRun s ∧ (renamedRun.flatMap Action.clOrdIds).Nodup ∧
      s.Drained ∧ ¬ s.OneClOrdId ((start Sample.config).liveLog renamedRun) ∧
      ¬ FillsCurrent ((start Sample.config).liveLog renamedRun) := by
  have hreach : ∃ s, RunTo Sample.config Any renamedRun s ∧ (s.Drained ∧
      (s.gateway.activeOrders.lookup "EXCH-1").map Order.clordId = some "b" ∧
      ∃ b ∈ s.engine.books.lookup "X", ∃ n ∈ b.nodes,
        n.order.exchangeId = "EXCH-1" ∧ n.order.clordId = "a") :=
    Transition.exists_reaches (by decide +kernel) (by decide +kernel)
  obtain ⟨s, hrun, hd, hactive, b, hb, n, hn, hid, hclord⟩ := hreach
  have hpre : ((start Sample.config).liveLog renamedRun).take 3 ++
      [(Sample.alice, .execReport lateReport)] <+: (start Sample.config).liveLog renamedRun := by
    decide +kernel
  refine ⟨s, hrun, by decide +kernel, hd, fun h => ?_, fun h => ?_⟩
  · obtain ⟨⟨o, ho, heq⟩, -⟩ := h.resting "X" b hb n hn
    rw [hid] at ho
    rw [ho, Option.map_some, heq, hclord] at hactive
    exact absurd hactive (by decide)
  · have heq := h _ Sample.alice lateReport hpre (Or.inl rfl)
    exact absurd heq (by decide +kernel)

end System

end FixExchange
