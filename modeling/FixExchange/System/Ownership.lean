/-
# Whose orders a request touches

A request names an order by the id that its client gave it, and the map from these ids to
exchange ids is shared by all clients.  As long as every lookup leads to an order of the
client, or to no order at all, a request changes orders of its client only, and trades with
others (`requests_touch_own`).  Nothing checks this: with an id that another client has used
first, a cancel request takes the order of that client (`cancel_touches_other`).
-/
import FixExchange.System.Held
import FixExchange.System.Synced

namespace FixExchange

/-- The client of a request. -/
def WorkItem.requester : WorkItem → Option String
  | .order _ => none
  | .cancel req => some req.clientId
  | .replace req => some req.clientId

/-! ## The open orders of others -/

/-- What fills leave of an open order that takes none of them itself. -/
lemma settle_fillTasks_maker {fs : List FillPair} {A : OrderLedger} {id : String}
    (h : ∀ f ∈ fs, f.taker.exchangeId ≠ id) :
    settle (fillTasks fs) A id = A id ∨ ∃ f ∈ fs, f.maker.exchangeId = id ∧
      (settle (fillTasks fs) A id = none ∨
        settle (fillTasks fs) A id = (A id).map fun o => o.withLeaves f.maker.leavesQty) := by
  induction fs generalizing A with
  | nil => exact Or.inl rfl
  | cons f fs ih =>
    rw [settle_fillTasks_cons]
    have hafter : afterFill A f id = A.setOpen f.maker.exchangeId f.maker.leavesQty id :=
      OrderLedger.setOpen_of_ne (h f List.mem_cons_self).symm
    have hrest := ih (A := afterFill A f) fun f' hf' => h f' (List.mem_cons_of_mem _ hf')
    by_cases hid : id = f.maker.exchangeId
    · subst hid
      rw [OrderLedger.setOpen_self] at hafter
      refine Or.inr ?_
      rcases hrest with heq | ⟨f', hf', hid', heq | heq⟩
      · refine ⟨f, List.mem_cons_self, rfl, ?_⟩
        rw [heq, hafter]
        split_ifs
        · exact Or.inl rfl
        · exact Or.inr rfl
      · exact ⟨f', List.mem_cons_of_mem _ hf', hid', Or.inl heq⟩
      · refine ⟨f', List.mem_cons_of_mem _ hf', hid', ?_⟩
        rw [heq, hafter]
        split_ifs
        · exact Or.inl rfl
        · refine Or.inr ?_
          rw [Option.map_map]
          rfl
    · rw [OrderLedger.setOpen_of_ne hid] at hafter
      rw [hafter] at hrest
      refine hrest.imp_right ?_
      rintro ⟨f', hf', hfill⟩
      exact ⟨f', List.mem_cons_of_mem _ hf', hfill⟩

/-- What a request leaves of an open order that it does not name. -/
lemma settle_request {b : OrderBook} (h : b.Wf) {item : WorkItem} {client : String}
    (hitem : item.requester = some client) {A : OrderLedger} {id : String} (hid : id ≠ item.id) :
    settle ((processIn b item).2.flatMap Callback.tasks) A id = A id ∨
      ∃ maker taker, .onFill maker taker ∈ (processIn b item).2 ∧ maker.exchangeId = id ∧
        (settle ((processIn b item).2.flatMap Callback.tasks) A id = none ∨
          settle ((processIn b item).2.flatMap Callback.tasks) A id
            = (A id).map fun o => o.withLeaves maker.leavesQty) := by
  have hnot : ∀ {t : Task}, t.ids = [item.id] → id ∉ t.ids := by
    intro t ht hmem
    rw [ht] at hmem
    exact hid (List.mem_singleton.mp hmem)
  cases item with
  | order o => exact absurd hitem (by simp [WorkItem.requester])
  | cancel req =>
    refine Or.inl (settle_of_notMem fun t ht => hnot ?_)
    rw [List.mem_singleton.mp ht]
    rfl
  | replace req =>
    have hlast : settle ((processIn b (.replace req)).2.flatMap Callback.tasks) A id
        = settle (fillTasks (b.replace req.origOrderId req.newPrice req.newQty).fills) A id := by
      rw [processIn, processReplace, settle_calls]
      refine settle_of_notMem fun t ht => hnot ?_
      rw [List.mem_singleton.mp ht]
      rfl
    rw [hlast]
    refine (settle_fillTasks_maker fun f hf => ?_).imp_right ?_
    · rw [OrderBook.replace_taker_id h hf]
      exact hid.symm
    · rintro ⟨f, hf, hfill⟩
      exact ⟨f.maker, f.taker, List.mem_append_left _ (OrderBook.mem_fillCallbacks.mpr ⟨f, hf, rfl⟩),
        hfill⟩

namespace System

variable {s s' : System} {a : Action}

/-! ## The owners of orders -/

/-- A client owns the order with an id, if there is one. -/
def Owns (s : System) (client id : String) : Prop :=
  ∀ o ∈ s.heldOrders, o.exchangeId = id → o.clientId = client

instance (s : System) (client id : String) : Decidable (s.Owns client id) := by
  unfold Owns; infer_instance

/-- The client ids in requests lead to orders of the client, or to none. -/
def Owning (s : System) : Action → Prop
  | .message (.cancel m) session =>
    ∀ id ∈ s.gateway.clordToExchange.lookup m.origClOrdID, s.Owns session.targetCompID id
  | .message (.replace m) session =>
    ∀ id ∈ s.gateway.clordToExchange.lookup m.origClOrdID, s.Owns session.targetCompID id
  | _ => True

instance (s : System) (a : Action) : Decidable (s.Owning a) :=
  match a with
  | .message (.cancel _) _ | .message (.replace _) _ => Option.decidableForallMem _
  | .message (.newOrder _) _ | .logon _ | .handle | .engine | .persist | .registerSymbol _ =>
    isTrue trivial

/-- A client goes on owning the order with an id that has been issued. -/
lemma Owns.step (hs : s.Sound) (hstep : s.step a = some s') {client id : String}
    (hid : Issued s.gateway.orderSeq id) (h : s.Owns client id) : s'.Owns client id := by
  intro o' ho' hoid
  rcases held_step hs.founded hstep ho' with ⟨o, ho, hsame⟩ | ⟨m, session, -, haccepts, -⟩
  · rw [hsame.clientId]
    exact h o ho (hsame.exchangeId.symm.trans hoid)
  · -- the id of a new order has not been issued before
    rw [← hoid, haccepts.exchangeId] at hid
    exact absurd rfl hid.ne_next

/-! ## The owners of requests -/

/-- The requests that are to come are about orders of their clients. -/
def RequestsOwned (s : System) : Prop :=
  ∀ item ∈ s.coming, ∀ client, item.requester = some client → s.Owns client item.id

/-- The id in a request has been issued. -/
lemma Sound.request_issued (hs : s.Sound) {item : WorkItem} (hi : item ∈ s.coming)
    {client : String} (hitem : item.requester = some client) :
    Issued s.gateway.orderSeq item.id := by
  rcases List.mem_append.mp hi with hi | hi
  · exact (hs.queue.known item hi).1
  · rcases nextItem_cases (Option.mem_toList.mp hi) with ⟨o, -, rfl⟩ | ⟨hpending, -⟩
    · exact absurd hitem (by simp [WorkItem.requester])
    · exact hs.handler.request hpending item (Option.mem_toList.mp hi)

lemma RequestsOwned.step (h : s.RequestsOwned) (hs : s.Sound) (hok : s.Owning a)
    (hstep : s.step a = some s') : s'.RequestsOwned := by
  intro item hi client hitem
  rcases coming_step hstep hi with hi | ⟨o, rfl⟩ | hforward
  · exact Owns.step hs hstep (hs.request_issued hi hitem) (h item hi client hitem)
  · exact absurd hitem (by simp [WorkItem.requester])
  · cases hforward with
    | cancel hreq =>
      obtain rfl := Option.some.inj hitem
      refine Owns.step hs hstep (hs.maps.resolved _ _ hreq.resolved) ?_
      rw [hreq.clientId]
      exact hok _ hreq.resolved
    | replace hreq hhandler =>
      obtain rfl := Option.some.inj hitem
      refine Owns.step hs hstep (hs.maps.resolved _ _ hreq.resolved) ?_
      rw [hreq.clientId]
      exact hok _ hreq.resolved

lemma requestsOwned_of_run {cfg : Config} {as : List Action} (h : RunTo cfg Owning as s) :
    s.RequestsOwned :=
  h.invariant (fun item hi => absurd hi (by simp [coming, start, nextItem]))
    fun _ _ _ _ hrun hs hok hstep => hs.step (sound_of_run hrun) hok hstep

/-! ## What a request touches -/

/-- A step of the engine leaves the orders of other clients alone, unless it trades with
them. -/
structure TouchesOnly (s s' : System) (client : String) : Prop where
  /-- A resting order stays as it is, or trades at its price and stays with what is left. -/
  books : ∀ sym b, s.engine.books.lookup sym = some b → ∀ n ∈ b.nodes,
    n.order.clientId ≠ client → ∃ b', s'.engine.books.lookup sym = some b' ∧
      ((∃ n' ∈ b'.nodes, n'.order = n.order) ∨
        ∃ maker taker, .fillDone maker taker ∈ s'.tasks ∧
          maker.exchangeId = n.order.exchangeId ∧ maker.price = n.order.price ∧
          (maker.leavesQty ≠ 0 →
            ∃ n' ∈ b'.nodes, n'.order = n.order.withLeaves maker.leavesQty))
  /-- An open order is as it is once the callbacks have run, or a trade takes some of it. -/
  opens : ∀ id o, s.openOrders id = some o → o.clientId ≠ client →
    s'.openOrders id = some o ∨
      ∃ maker taker, .fillDone maker taker ∈ s'.tasks ∧ maker.exchangeId = id ∧
        (s'.openOrders id = none ∨ s'.openOrders id = some (o.withLeaves maker.leavesQty))

/-- **A request is about an order of its client and touches orders of its client only**, in
every run in which the client ids of requests lead to orders of the client or to none. -/
theorem requests_touch_own {cfg : Config} {as : List Action} (h : RunTo cfg Owning as s)
    {item : WorkItem} {queue : List WorkItem} {client : String} (ht : s.tasks = [])
    (hq : s.queue = item :: queue) (hitem : item.requester = some client)
    (hstep : s.step .engine = some s') : s.Owns client item.id ∧ s.TouchesOnly s' client := by
  have hs := sound_of_run h
  have hmem : item ∈ s.coming := by
    rw [coming, hq]
    exact List.mem_cons_self
  have howns := requestsOwned_of_run h item hmem client hitem
  rcases engineStep_cases hstep with ⟨t, ts, hts, -⟩ | ⟨-, item', queue', b, hq', hb, rfl⟩
  · rw [ht] at hts
    exact absurd hts (by simp)
  · obtain ⟨rfl, -⟩ := List.cons.inj (hq.symm.trans hq')
    have hwf := hs.books.wf _ b hb
    -- an order of another client has another id
    have hne : ∀ o ∈ s.heldOrders, o.clientId ≠ client → o.exchangeId ≠ item.id :=
      fun o ho hclient hid => hclient (howns o ho hid)
    have hdone : ∀ {maker taker}, .onFill maker taker ∈ (processIn b item).2 →
        .fillDone maker taker ∈ (processIn b item).2.flatMap Callback.tasks := fun hfill =>
      List.mem_flatMap.mpr ⟨_, hfill, by simp [Callback.tasks]⟩
    refine ⟨howns, fun sym b' hb' n hn hclient => ?_, fun id o ho hclient => ?_⟩
    · by_cases hsym : sym = item.symbol
      · subst hsym
        obtain rfl := Option.some.inj (hb.symm.trans hb')
        have hheld := mem_heldOrders.mpr (Or.inl ⟨_, b, hb, n, hn, rfl⟩)
        obtain ⟨fs, hfs, hkeeps⟩ := OrderBook.kept_processIn hwf hn (hne _ hheld hclient)
        refine ⟨_, AList.lookup_insert _, hkeeps.imp_right ?_⟩
        rintro ⟨f, hf, hfill⟩
        exact ⟨f.maker, f.taker, hdone (hfs f hf), hfill⟩
      · exact ⟨b', (AList.lookup_insert_ne hsym).trans hb', Or.inl ⟨n, hn, rfl⟩⟩
    · rw [openOrders_of_no_tasks ht] at ho
      have hheld := mem_heldOrders.mpr (Or.inr (Or.inr ⟨id, ho⟩))
      have hid : id ≠ item.id := by
        rw [← (hs.maps.active id o ho).1]
        exact hne o hheld hclient
      rcases settle_request hwf hitem (A := s.gateway.active) hid with hsame |
          ⟨maker, taker, hfill, hmaker, hleft⟩
      · exact Or.inl (hsame.trans ho)
      · refine Or.inr ⟨maker, taker, hdone hfill, hmaker, hleft.imp_right fun hleft => ?_⟩
        refine hleft.trans ?_
        rw [ho]
        rfl

/-- Two clients use the same client id, and the second one cancels. -/
def sharedIdRun : List Action :=
  Sample.submit (Sample.limit "a" '1' 5 10) Sample.alice ++ Sample.engine 2
    ++ Sample.submit (Sample.limit "a" '1' 5 9) Sample.bob ++ Sample.engine 2
    ++ Sample.forward (Sample.cancel "a") Sample.bob

/-- The cancel request of one client takes the order of the other. -/
theorem cancel_touches_other :
    ∃ s, RunTo Sample.config Any sharedIdRun s ∧ s.tasks = [] ∧
      ∃ req, s.queue = [.cancel req] ∧ req.clientId = "B" ∧
        ∃ s', s.step .engine = some s' ∧ ¬ s.TouchesOnly s' "B" := by
  have hreach : ∃ s, RunTo Sample.config Any sharedIdRun s ∧
      (s.tasks = [] ∧
        s.queue = [.cancel ⟨"EXCH-1", "B", "X"⟩] ∧
        (∃ o ∈ restingOrders s.engine.books, o.exchangeId = "EXCH-1" ∧ o.clientId = "A") ∧
        ∃ s' ∈ s.step .engine, (∀ o ∈ restingOrders s'.engine.books, o.exchangeId ≠ "EXCH-1") ∧
          s'.tasks.all fun | .fillDone .. => false | _ => true) :=
    Transition.exists_reaches (by decide +kernel) (by decide +kernel)
  obtain ⟨s, hrun, ht, hq, ⟨o, ho, hid, hclient⟩, s', hstep, hgone, htasks⟩ := hreach
  refine ⟨s, hrun, ht, _, hq, rfl, s', hstep, fun htouches => ?_⟩
  obtain ⟨sym, b, hb, n, hn, rfl⟩ := mem_restingOrders.mp ho
  obtain ⟨b', hb', ⟨n', hn', heq⟩ | ⟨maker, taker, hfill, -⟩⟩ :=
    htouches.books sym b hb n hn (by rw [hclient]; decide)
  · refine hgone n'.order (mem_restingOrders.mpr ⟨sym, b', hb', n', hn', rfl⟩) ?_
    rw [heq, hid]
  · exact absurd (List.all_eq_true.mp htasks _ hfill) (by simp)

/-- Two clients use different client ids, and the second one cancels. -/
def sampleOwnRun : List Action :=
  Sample.submit (Sample.limit "a" '1' 5 10) Sample.alice ++ Sample.engine 2
    ++ Sample.submit (Sample.limit "b" '1' 5 9) Sample.bob ++ Sample.engine 2
    ++ Sample.forward (Sample.cancel "b") Sample.bob

theorem requests_touch_own_sample :
    ∃ s s', RunTo Sample.config Owning sampleOwnRun s ∧ s.step .engine = some s' ∧
      s.Owns "B" "EXCH-2" ∧ s.TouchesOnly s' "B" := by
  have hreach : ∃ s, RunTo Sample.config Owning sampleOwnRun s ∧
      (s.tasks = [] ∧ s.queue = [.cancel ⟨"EXCH-2", "B", "X"⟩] ∧
        (s.step .engine).isSome = true) :=
    Transition.exists_reaches (by decide +kernel) (by decide +kernel)
  obtain ⟨s, hrun, ht, hq, hstep⟩ := hreach
  obtain ⟨s', hstep⟩ := Option.isSome_iff_exists.mp hstep
  exact ⟨s, s', hrun, hstep, requests_touch_own hrun ht hq rfl hstep⟩

end System

end FixExchange
