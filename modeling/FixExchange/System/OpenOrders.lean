/-
# The gateway and the engine agree on what is open

In a run whose new orders are limit orders every order that the gateway has open either rests
or is still on its way to the engine.  Once nothing is left to be done the open orders are
therefore exactly the resting ones, with the same symbol, side, price and open quantity, and
the status reports of a logon say so (`open_orders_agree`).
-/
import FixExchange.System.Synced

namespace FixExchange

namespace System

/-- The new orders that are accepted are limit orders with a positive quantity, and replace
requests carry a positive quantity. -/
structure LimitOrders (s : System) (a : Action) : Prop where
  limit : Accepting (fun o => o.type = '2' ∧ 0 < o.qty) s a
  positive : a.ReplacesPositive

instance (s : System) (a : Action) : Decidable (s.LimitOrders a) :=
  decidable_of_iff (Accepting (fun o => o.type = '2' ∧ 0 < o.qty) s a ∧ a.ReplacesPositive)
    ⟨fun ⟨hl, hp⟩ => ⟨hl, hp⟩, fun ⟨hl, hp⟩ => ⟨hl, hp⟩⟩

variable {s s' : System}

/-! ## Every open order rests, or is to come -/

/-- Every open order rests or is on its way to the engine. -/
def Accounted (s : System) : Prop :=
  ∀ id, s.openOrders id ≠ none → restingLedger s.engine.books id ≠ none ∨
    ∃ o, .order o ∈ s.coming ∧ o.exchangeId = id

lemma accounted_start (cfg : Config) : (start cfg).Accounted := by
  intro id hid
  simp [start, openOrders, FixGateway.active, FixGateway.init, Ledger.empty] at hid

/-- A step that leaves the books and the open orders as they are. -/
lemma Accounted.of_same (h : s.Accounted)
    (hbooks : restingLedger s'.engine.books = restingLedger s.engine.books)
    (hopen : s'.openOrders = s.openOrders)
    (hcoming : ∀ o, .order o ∈ s.coming → .order o ∈ s'.coming) : s'.Accounted := by
  intro id hid
  rw [hopen] at hid
  rw [hbooks]
  refine (h id hid).imp_right ?_
  rintro ⟨o, ho, rfl⟩
  exact ⟨o, hcoming o ho, rfl⟩

lemma Accounted.message (h : s.Accounted) {session : SessionID} {msg : Message}
    (hstep : s.step (.message msg session) = some s') : s'.Accounted := by
  obtain ⟨hidle, rfl⟩ := step_message hstep
  have hcoming : ∀ o, .order o ∈ s.coming → .order o ∈ s.queue := by
    rw [coming_of_idle hidle]
    exact fun o ho => ho
  refine h.of_same rfl ?_ fun o ho => List.mem_append_left _ (hcoming o ho)
  rcases onMessage_cases s session msg with ⟨seq, sent, heq, -⟩ | ⟨m, o, rfl, ho, heq⟩ |
      ⟨m, req, rfl, hreq, heq⟩ | ⟨m, req, rfl, hreq, heq⟩ <;> simp only [heq] <;> rfl

lemma Accounted.handle (h : s.Accounted) (hs : s.Founded) (hstep : s.step .handle = some s') :
    s'.Accounted := by
  rcases handle_cases hstep with ⟨o, session, hh, rfl⟩ | ⟨o, session, hh, rfl⟩ | ⟨item, hitem, rfl⟩
  · refine h.of_same rfl rfl fun o' ho' => ?_
    simpa [coming, nextItem, hh] using ho'
  · -- the order is open now, and is pushed next
    have hopen : ({ s with
        gateway := (s.gateway.activateOrder o).ackOrder o session
        handler := .submit o } : System).openOrders = s.openOrders.put o.exchangeId o :=
      (openOrders_activate hs hh).1
    intro id hid
    rw [hopen] at hid
    by_cases heq : id = o.exchangeId
    · exact Or.inr ⟨o, List.mem_append_right _ List.mem_cons_self, heq.symm⟩
    · rw [Ledger.put_of_ne heq] at hid
      refine (h id hid).imp_right ?_
      rintro ⟨o', ho', rfl⟩
      refine ⟨o', List.mem_append_left _ ?_, rfl⟩
      simpa [coming, nextItem, hh] using ho'
  · refine h.of_same rfl rfl fun o ho => ?_
    rw [coming_of_idle rfl]
    rw [coming, hitem] at ho
    exact ho

lemma Accounted.take (h : s.Accounted) (hs : s.Founded) (hsync : s.Synced)
    (hlimit : ∀ o, s.Incoming o → o.type = '2' ∧ 0 < o.qty) {item : WorkItem}
    {queue : List WorkItem} {b : OrderBook} (ht : s.tasks = []) (hq : s.queue = item :: queue)
    (hb : s.engine.books.lookup item.symbol = some b) :
    ({ s with
      engine := { s.engine with books := s.engine.books.insert item.symbol (processIn b item).1 }
      queue := queue
      tasks := (processIn b item).2.flatMap Callback.tasks } : System).Accounted := by
  have hmem : item ∈ s.queue := by rw [hq]; exact List.mem_cons_self
  have hactive := openOrders_of_no_tasks ht
  have hprocessed := hsync.processed hs hmem hb
  intro id hid
  by_cases hitem : restingLedger s.engine.books id ≠ none ∨
      ∃ o, item = .order o ∧ id = o.exchangeId
  · refine Or.inl (hprocessed.closes (fun o ho => ?_) hitem hid)
    exact hlimit o (Or.inl (by rw [← ho]; exact hmem))
  · rw [not_or, not_not] at hitem
    have hsame := hprocessed.untouched (A := s.gateway.active) hitem.1
      fun o ho heq => hitem.2 ⟨o, ho, heq⟩
    rw [openOrders, hsame.1, ← hactive] at hid
    obtain ⟨o, ho, rfl⟩ := (h id hid).resolve_left (not_not.mpr hitem.1)
    refine Or.inr ⟨o, ?_, rfl⟩
    rw [coming, hq] at ho
    rcases List.mem_cons.mp ho with ho | ho
    · exact absurd ⟨o, ho.symm, rfl⟩ hitem.2
    · exact ho

/-- A step keeps the open orders accounted for, when taking an item does. -/
lemma Accounted.step (h : s.Accounted) (hs : s.Founded) {a : Action} (hset : s.TaskSettles a)
    (htake : ∀ {item queue b}, a = .engine → s.tasks = [] → s.queue = item :: queue →
      s.engine.books.lookup item.symbol = some b → ({ s with
        engine := { s.engine with books := s.engine.books.insert item.symbol (processIn b item).1 }
        queue := queue
        tasks := (processIn b item).2.flatMap Callback.tasks } : System).Accounted)
    (hstep : s.step a = some s') : s'.Accounted := by
  cases a with
  | message msg session => exact h.message hstep
  | logon session =>
    obtain ⟨-, rfl⟩ := step_logon hstep
    exact h.of_same rfl rfl fun o ho => ho
  | handle => exact h.handle hs hstep
  | engine =>
    rcases engineStep_cases hstep with ⟨t, ts, ht, rfl⟩ | ⟨ht, item, queue, b, hq, hb, rfl⟩
    · exact h.of_same rfl (openOrders_task hset ht) fun o ho => ho
    · exact htake rfl ht hq hb
  | persist =>
    obtain ⟨p, p', -, -, rfl⟩ := step_persist hstep
    exact h.of_same rfl rfl fun o ho => ho
  | registerSymbol symbol =>
    have hledger := resting_registerSymbol hs hstep
    obtain ⟨e, he, rfl⟩ := step_registerSymbol hstep
    exact h.of_same hledger rfl fun o ho => ho

lemma accounted_of_run {cfg : Config} {as : List Action} (h : RunTo cfg LimitOrders as s) :
    s.Accounted := by
  refine h.invariant (accounted_start cfg) fun _ _ _ _ hrun hs _ hstep => ?_
  have hsound := sound_of_run hrun
  have hsync := synced_of_run
    (fun _ _ h => forwardsPositive_of_replacesPositive h.positive) hrun
  exact hs.step hsound.founded (hsound.taskSettles _)
    (fun _ => hs.take hsound.founded hsync (good_of_incoming (fun _ _ h => h.limit) hrun)) hstep

/-! ## Agreement -/

/-- The order and the open quantity that a status report is about. -/
def statusLine : ClientMessage → Option (String × ℤ)
  | .execReport r => if r.execType = 'I' then some (r.orderId, r.leavesQty) else none
  | .cancelReject _ => none

/-- The gateway has open what rests. -/
structure OpenAgree (s : System) : Prop where
  /-- The keys of the open orders are the ids that rest. -/
  keys : ∀ id, id ∈ s.gateway.activeOrders ↔ ∃ sym b, s.engine.books.lookup sym = some b ∧
    ∃ n ∈ b.nodes, n.order.exchangeId = id
  /-- An open order is the resting one. -/
  fields : ∀ sym b, s.engine.books.lookup sym = some b → ∀ n ∈ b.nodes,
    ∃ a, s.gateway.activeOrders.lookup n.order.exchangeId = some a ∧
      a.symbol = n.order.symbol ∧ a.side = n.order.side ∧ a.price = n.order.price ∧
      a.leavesQty = n.order.leavesQty
  /-- A logon reports exactly the resting orders of the client as open. -/
  reports : ∀ session, ∃ new, (s.gateway.onLogon session).sent = s.gateway.sent ++ new ∧
    (∀ m ∈ new, m.1 = session) ∧
    (new.filterMap fun m => statusLine m.2).Perm
      (((restingOrders s.engine.books).filter fun o => o.clientId = session.targetCompID).map
        fun o => (o.exchangeId, o.leavesQty))

/-- The finished orders of the history are not reported as open. -/
lemma statusLine_historical (g : FixGateway) (session : SessionID) {r : ExecutionReport}
    (hr : r ∈ g.historicalReports session) : statusLine (.execReport r) = none := by
  rw [FixGateway.historicalReports] at hr
  split at hr
  · exact absurd hr List.not_mem_nil
  · rename_i p hp
    obtain ⟨f, hf, rfl⟩ := List.mem_map.mp hr
    obtain ⟨row, -, hrow⟩ := List.mem_filterMap.mp hf
    have htype : f.execType = '4' ∨ f.execType = '2' := by
      split at hrow
      · exact absurd hrow (by simp)
      · split_ifs at hrow with hmatch hcancel
        · rw [← Option.some.inj hrow]
          exact Or.inl rfl
        · rw [← Option.some.inj hrow]
          exact Or.inr rfl
    have hne : (makeHistoricalFillReport f).execType ≠ 'I' := by
      rcases htype with h | h <;> simp [makeHistoricalFillReport, h]
    rw [statusLine, if_neg hne]

/-- The status reports of a logon, read as lines. -/
lemma statusLines_onLogon (g : FixGateway) (session : SessionID) :
    ((g.statusReports session ++ g.historicalReports session).map
        fun r => (session, ClientMessage.execReport r)).filterMap (fun m => statusLine m.2)
      = (g.ordersOf session.targetCompID).map fun o => (o.exchangeId, o.leavesQty) := by
  have hhistorical : (g.historicalReports session).filterMap
      (fun r => statusLine (.execReport r)) = [] :=
    List.filterMap_eq_nil_iff.mpr fun r hr => statusLine_historical g session hr
  rw [List.filterMap_map, List.filterMap_append]
  simp only [Function.comp_def]
  rw [hhistorical, List.append_nil, FixGateway.statusReports, List.filterMap_map]
  simp [Function.comp_def, statusLine, makeOrderStatusReport, ExecType.char]

/-- When the open orders are the resting ones, they are the same list up to order and the ids
that the clients use. -/
lemma activeOrders_perm (hs : s.Founded)
    (hagrees : Agrees s.gateway.active (restingLedger s.engine.books))
    (hclosed : ∀ id, s.gateway.active id ≠ none → restingLedger s.engine.books id ≠ none) :
    ((s.gateway.activeOrders.entries.map Sigma.snd).map
        fun o => (o.exchangeId, o.leavesQty, o.clientId)).Perm
      ((restingOrders s.engine.books).map fun o => (o.exchangeId, o.leavesQty, o.clientId)) := by
  have hids : ((s.gateway.activeOrders.entries.map Sigma.snd).map Order.exchangeId).Nodup := by
    have hkeys : (s.gateway.activeOrders.entries.map Sigma.snd).map Order.exchangeId
        = s.gateway.activeOrders.keys := by
      rw [List.map_map]
      refine List.map_congr_left fun kv hkv => ?_
      exact (hs.maps.active kv.1 kv.2 (AList.mem_lookup_iff.mpr hkv)).1
    rw [hkeys]
    exact s.gateway.activeOrders.keys_nodup
  have hnodup : ∀ {l : List Order}, (l.map Order.exchangeId).Nodup →
      (l.map fun o => (o.exchangeId, o.leavesQty, o.clientId)).Nodup := by
    intro l hl
    refine List.Nodup.of_map Prod.fst ?_
    rw [List.map_map]
    exact hl
  refine (List.perm_ext_iff_of_nodup (hnodup hids) (hnodup hs.books.nodup)).mpr fun line => ?_
  rw [List.mem_map, List.mem_map]
  constructor
  · rintro ⟨a, ha, rfl⟩
    obtain ⟨id, hid⟩ := FixGateway.mem_activeOrders.mp ha
    obtain ⟨o, ho⟩ := Option.ne_none_iff_exists'.mp (hclosed id (by rw [hid]; simp))
    obtain ⟨a', ha', hmirrors⟩ := hagrees id o ho
    obtain rfl := Option.some.inj (hid.symm.trans ha')
    obtain ⟨hmem, hoid⟩ := Ledger.key_of_ofList ho
    refine ⟨o, hmem, ?_⟩
    rw [hoid, ← (hs.maps.active id a hid).1, hmirrors.leavesQty, hmirrors.clientId]
  · rintro ⟨o, ho, rfl⟩
    have hR := (Ledger.ofList_eq_some hs.books.nodup).mpr ⟨ho, rfl⟩
    obtain ⟨a, ha, hmirrors⟩ := hagrees _ o hR
    refine ⟨a, FixGateway.mem_activeOrders.mpr ⟨_, ha⟩, ?_⟩
    rw [(hs.maps.active _ a ha).1, hmirrors.leavesQty, hmirrors.clientId]

/-- Once nothing is left to be done the gateway has open what rests. -/
lemma Accounted.openAgree (hacc : s.Accounted) (hs : s.Founded) (hsync : s.Synced)
    (hq : s.queue = []) (ht : s.tasks = []) (hh : ∀ o, s.handler ≠ .submit o) :
    s.OpenAgree := by
  have hactive := openOrders_of_no_tasks ht
  have hagrees := hsync.active_agrees ht
  have hclosed : ∀ id, s.gateway.active id ≠ none → restingLedger s.engine.books id ≠ none := by
    intro id hid
    rw [← hactive] at hid
    refine (hacc id hid).resolve_right ?_
    rintro ⟨o, ho, -⟩
    rw [coming, hq, List.nil_append] at ho
    rcases nextItem_cases (Option.mem_toList.mp ho) with ⟨o', hsubmit, -⟩ | ⟨-, hne⟩
    · exact hh o' hsubmit
    · exact hne o rfl
  refine ⟨fun id => ?_, fun sym b hb n hn => ?_, fun session => ?_⟩
  · rw [← hs.resting_iff, ← AList.lookup_isSome, Option.isSome_iff_ne_none]
    refine ⟨hclosed id, fun hid => ?_⟩
    obtain ⟨o, ho⟩ := Option.ne_none_iff_exists'.mp hid
    obtain ⟨a, ha, -⟩ := hagrees id o ho
    exact ne_of_eq_of_ne ha (by simp)
  · obtain ⟨a, ha, hmirrors⟩ := hagrees _ _
      (hs.books.resting_eq_some.mpr ⟨sym, b, hb, n, hn, rfl, rfl⟩)
    exact ⟨a, ha, hmirrors.symbol, hmirrors.side, hmirrors.price, hmirrors.leavesQty⟩
  · refine ⟨_, rfl, fun m hm => ?_, ?_⟩
    · obtain ⟨r, -, rfl⟩ := List.mem_map.mp hm
      rfl
    · rw [statusLines_onLogon, FixGateway.ordersOf]
      have hperm := ((activeOrders_perm hs hagrees hclosed).filter
        fun line => decide (line.2.2 = session.targetCompID)).map fun line => (line.1, line.2.1)
      simpa [List.filter_map, Function.comp_def] using hperm

/-- **The gateway and the engine agree on what is open** whenever the queue is empty, no
callback of the engine is running, and no handler has entered an order that it has yet to
submit. -/
theorem open_orders_agree {cfg : Config} {as : List Action} (h : RunTo cfg LimitOrders as s)
    (hq : s.queue = []) (ht : s.tasks = []) (hh : ∀ o, s.handler ≠ .submit o) :
    s.OpenAgree :=
  (accounted_of_run h).openAgree (sound_of_run h).founded
    (synced_of_run (fun _ _ h => forwardsPositive_of_replacesPositive h.positive) h) hq ht hh

/-- A sell order, a buy order that fills part of it while it is acknowledged, and a replace of
the rest. -/
def sampleOpenRun : List Action :=
  Sample.submit (Sample.limit "a" '2' 5 10) Sample.alice ++ Sample.engine 1
    ++ [.message (Sample.limit "b" '1' 3 10) Sample.bob, .handle] ++ Sample.engine 1
    ++ [.handle, .handle] ++ Sample.engine 4
    ++ Sample.forward (Sample.replace "c" "a" '2' 4 11) Sample.alice ++ Sample.engine 4

theorem open_orders_agree_sample :
    ∃ s, RunTo Sample.config LimitOrders sampleOpenRun s ∧ s.Drained ∧ s.OpenAgree := by
  have hreach : ∃ s, RunTo Sample.config LimitOrders sampleOpenRun s ∧ s.Drained :=
    Transition.exists_reaches (by decide +kernel) (by decide +kernel)
  obtain ⟨s, hrun, hd⟩ := hreach
  exact ⟨s, hrun, hd, open_orders_agree hrun hd.queue hd.tasks (by simp [hd.handler])⟩

end System

end FixExchange
