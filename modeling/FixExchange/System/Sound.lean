/-
# The invariant of the runs from an empty database

An open order that has a session keeps it, up to the report of its last fill
(`Founded.covered_step`).  In a run that starts on an empty database all open orders have one
(`FixGateway.Covered`); after a recovery the sessions come back with the logons.
-/
import FixExchange.System.Founded

namespace FixExchange

namespace FixGateway

variable {g : FixGateway} {t : Task} {ts : List Task} {id : String}

/-- An order has a session as long as it is open, unless its last fill is just being reported. -/
def CoveredAt (g : FixGateway) (ts : List Task) (id : String) : Prop :=
  g.active id ≠ none → g.orderSessions.lookup id ≠ none ∨
    ∃ fill session ts', ts = .fillOrders fill session :: ts' ∧ fill.exchangeId = id ∧
      fill.leavesQty = 0

lemma coveredAt_of_session (h : g.active id ≠ none → g.orderSessions.lookup id ≠ none) :
    g.CoveredAt ts id := fun hopen => Or.inl (h hopen)

/-- Before any other section the order has its session. -/
lemma CoveredAt.session (h : g.CoveredAt (t :: ts) id)
    (ht : ∀ fill session, t ≠ .fillOrders fill session) (hopen : g.active id ≠ none) :
    g.orderSessions.lookup id ≠ none := by
  rcases h hopen with hs | ⟨fill, session, ts', hts, -⟩
  · exact hs
  · exact absurd (List.cons.inj hts).1 (ht fill session)

/-- Two erased entries of the same order. -/
lemma covered_erase {active : StrMap Order} {sessions : StrMap SessionID} {id' : String}
    (h : active.lookup id ≠ none → sessions.lookup id ≠ none)
    (hopen : (active.erase id').lookup id ≠ none) : (sessions.erase id').lookup id ≠ none := by
  by_cases hid : id = id'
  · subst hid
    exact absurd (AList.lookup_erase _ _) hopen
  · rw [AList.lookup_erase_ne hid] at hopen ⊢
    exact h hopen

/-- **Every section** keeps the session of an open order. -/
theorem CoveredAt.runTask (h : g.CoveredAt (t :: ts) id) :
    (g.runTask t).1.CoveredAt ((g.runTask t).2 ++ ts) id := by
  cases t with
  | fillRouting fill =>
    have hsession := h.session fun _ _ => by simp
    cases hs : g.orderSessions.lookup fill.exchangeId with
    | none =>
      simp only [FixGateway.runTask, fillRouting, hs]
      exact coveredAt_of_session hsession
    | some session =>
      by_cases h0 : fill.leavesQty = 0
      · simp only [FixGateway.runTask, fillRouting, hs, if_pos h0, List.singleton_append]
        intro hopen
        by_cases hid : id = fill.exchangeId
        · exact Or.inr ⟨fill, session, ts, rfl, hid.symm, h0⟩
        · refine Or.inl ?_
          simp only [AList.lookup_erase_ne hid]
          exact hsession hopen
      · simp only [FixGateway.runTask, fillRouting, hs, if_neg h0]
        exact coveredAt_of_session hsession
  | fillOrders fill session =>
    refine coveredAt_of_session fun hopen => ?_
    have hactive : (g.fillOrders fill session).active
        = OrderLedger.setOpen g.active fill.exchangeId fill.leavesQty := active_setLeaves _ _ _
    have hopen : (g.fillOrders fill session).active id ≠ none := hopen
    rw [hactive] at hopen
    have hbefore : g.active id ≠ none ∧ ¬ (fill.exchangeId = id ∧ fill.leavesQty = 0) := by
      by_cases hid : id = fill.exchangeId
      · subst hid
        rw [OrderLedger.setOpen_self] at hopen
        split_ifs at hopen with h0
        · exact absurd rfl hopen
        · exact ⟨by simpa using hopen, fun hlast => h0 hlast.2⟩
      · rw [OrderLedger.setOpen_of_ne hid] at hopen
        exact ⟨hopen, fun hlast => hid hlast.1.symm⟩
    rcases h hbefore.1 with hs | ⟨fill', session', ts', hts, hlast⟩
    · exact hs
    · obtain ⟨rfl, -⟩ := Task.fillOrders.inj (List.cons.inj hts).1
      exact absurd hlast hbefore.2
  | fillDone maker taker => exact coveredAt_of_session (h.session fun _ _ => by simp)
  | onCancel req found =>
    refine coveredAt_of_session fun hopen => ?_
    have hsession := h.session fun _ _ => by simp
    cases hs : g.orderSessions.lookup req.origOrderId with
    | none =>
      simp only [FixGateway.runTask, onCancel, hs] at hopen ⊢
      exact hsession hopen
    | some session =>
      cases ha : g.activeOrders.lookup req.origOrderId with
      | none =>
        simp only [FixGateway.runTask, onCancel, hs, ha] at hopen ⊢
        exact hsession hopen
      | some o =>
        simp only [FixGateway.runTask, onCancel, hs, ha] at hopen ⊢
        split_ifs at hopen ⊢
        · exact covered_erase hsession hopen
        · exact hsession hopen
  | onTIFCancel order =>
    refine coveredAt_of_session fun hopen => ?_
    have hsession := h.session fun _ _ => by simp
    cases hs : g.orderSessions.lookup order.exchangeId with
    | none =>
      simp only [FixGateway.runTask, onTIFCancel, hs] at hopen ⊢
      exact hsession hopen
    | some session =>
      simp only [FixGateway.runTask, onTIFCancel, hs] at hopen ⊢
      exact covered_erase hsession hopen
  | onReplace req found newLeavesQty =>
    refine coveredAt_of_session fun hopen => ?_
    have hsession := h.session fun _ _ => by simp
    cases hs : g.orderSessions.lookup req.origOrderId with
    | none =>
      simp only [FixGateway.runTask, onReplace, hs] at hopen ⊢
      exact hsession hopen
    | some session =>
      cases ha : g.activeOrders.lookup req.origOrderId with
      | none =>
        simp only [FixGateway.runTask, onReplace, hs, ha] at hopen ⊢
        exact hsession hopen
      | some o =>
        simp only [FixGateway.runTask, onReplace, hs, ha] at hopen ⊢
        split_ifs at hopen ⊢ with hfound h0
        · exact covered_erase hsession hopen
        · by_cases hid : id = req.origOrderId
          · show g.orderSessions.lookup id ≠ none
            rw [hid, hs]
            simp
          · exact hsession ((AList.lookup_insert_ne hid).symm.trans_ne hopen)
        · exact hsession hopen
  | onOrderRested order leavesQty =>
    exact coveredAt_of_session (h.session fun _ _ => by simp)

end FixGateway

namespace System

variable {s s' : System} {a : Action}

/-- Keys that are emplaced one after the other have entries, and so have the keys that were there
before. -/
lemma lookup_foldl_emplace_ne_none {α β : Type} {f : β → String} {g : β → α} {l : List β}
    {m : StrMap α} {key : String} (h : m.lookup key ≠ none ∨ key ∈ l.map f) :
    (l.foldl (fun m x => StrMap.emplace m (f x) (g x)) m).lookup key ≠ none := by
  induction l generalizing m with
  | nil => exact h.resolve_right List.not_mem_nil
  | cons x l ih =>
    rw [List.foldl_cons]
    refine ih ?_
    rcases h with h | h
    · exact Or.inl (StrMap.lookup_emplace_ne_none h)
    · rcases List.mem_cons.mp h with rfl | h
      · exact Or.inl (StrMap.lookup_emplace_self _ _ _)
      · exact Or.inr h

lemma lookup_onLogon (g : FixGateway) (session : SessionID) {id : String}
    (h : g.orderSessions.lookup id ≠ none) :
    (g.onLogon session).orderSessions.lookup id ≠ none :=
  lookup_foldl_emplace_ne_none (f := Order.exchangeId) (g := fun _ => session) (Or.inl h)

/-- **One step** keeps the session of an open order. -/
theorem Founded.covered_step (hf : s.Founded) {id : String}
    (h : s.gateway.CoveredAt s.tasks id) (hstep : s.step a = some s') :
    s'.gateway.CoveredAt s'.tasks id := by
  cases a with
  | message msg session =>
    obtain ⟨-, rfl⟩ := step_message hstep
    rcases onMessage_cases s session msg with ⟨seq, sent, heq, -⟩ | ⟨m, o, -, -, heq⟩ |
        ⟨m, req, -, -, heq⟩ | ⟨m, req, -, -, heq⟩ <;>
      rw [heq] <;> exact h
  | logon session =>
    obtain ⟨-, rfl⟩ := step_logon hstep
    exact fun hopen => (h hopen).imp_left (lookup_onLogon _ _)
  | handle =>
    rcases handle_cases hstep with ⟨o, session, -, rfl⟩ | ⟨o, session, hh, rfl⟩ | ⟨item, -, rfl⟩
    · exact fun hopen => (h hopen).imp_left StrMap.lookup_emplace_ne_none
    · intro hopen
      obtain ⟨o', ho'⟩ := Option.ne_none_iff_exists'.mp hopen
      rcases active_activateOrder ho' with ho' | ⟨rfl, -⟩
      · exact h (by rw [ho']; simp)
      · exact Or.inl (hf.maps.session o session hh)
    · exact h
  | engine =>
    rcases engineStep_cases hstep with ⟨t, ts, ht, rfl⟩ | ⟨ht, item, queue, b, -, -, rfl⟩
    · rw [ht] at h
      exact h.runTask
    · intro hopen
      rcases h hopen with hs | ⟨fill, session, ts', hts, -⟩
      · exact Or.inl hs
      · rw [ht] at hts
        exact absurd hts (by simp)
  | persist =>
    obtain ⟨p, p', -, -, rfl⟩ := step_persist hstep
    exact h
  | registerSymbol symbol =>
    obtain ⟨e, -, rfl⟩ := step_registerSymbol hstep
    exact h

/-- The maps of the gateway. -/
structure MapsSound (g : FixGateway) (handler : Handler) (tasks : List Task)
    (known : String → Prop) : Prop where
  resolved : ∀ c id, g.clordToExchange.lookup c = some id → Issued g.orderSeq id
  active : ∀ id o, g.active id = some o → o.exchangeId = id ∧ (known id ∨ handler = .submit o)
  session : ∀ o session, handler = .activate o session →
    g.orderSessions.lookup o.exchangeId ≠ none
  covered : g.Covered tasks

/-- **The invariant of all runs.** -/
structure Sound (s : System) : Prop where
  books : BooksSound s.engine.books s.Known
  queue : QueueSound s.queue s.engine.books s.Known
  tasks : ∀ t ∈ s.tasks, ∀ id ∈ t.ids, s.Known id
  handler : HandlerSound s.handler s.gateway.orderSeq
  maps : MapsSound s.gateway s.handler s.tasks s.Known
  symbols : ∀ sym ∈ s.engine.validSymbols, sym ∈ s.engine.books

lemma Sound.founded (h : s.Sound) : s.Founded :=
  ⟨h.books, h.queue, h.tasks, h.handler, ⟨h.maps.resolved, h.maps.active, h.maps.session⟩,
    h.symbols⟩

lemma Founded.sound (h : s.Founded) (hcov : s.gateway.Covered s.tasks) : s.Sound :=
  ⟨h.books, h.queue, h.tasks, h.handler,
    ⟨h.maps.resolved, h.maps.active, h.maps.session, hcov⟩, h.symbols⟩

lemma sound_start (cfg : Config) : (start cfg).Sound := by
  refine (founded_start cfg).sound fun id h => ?_
  simp [start, FixGateway.init, FixGateway.active] at h

/-- **One step keeps the invariant.** -/
theorem Sound.step (h : s.Sound) {a : Action} (hstep : s.step a = some s') : s'.Sound :=
  (h.founded.step hstep).sound fun _ => h.founded.covered_step (h.maps.covered _) hstep

/-- **Every run keeps the invariant.** -/
theorem sound_of_run {cfg : Config} {ok : System → Action → Prop} {as : List Action}
    (h : RunTo cfg ok as s) : s.Sound :=
  h.invariant (sound_start cfg) fun _ _ _ _ _ hs _ hstep => hs.step hstep

end System

end FixExchange
