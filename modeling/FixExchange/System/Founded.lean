/-
# What every run is founded on

What holds in every reachable state, whatever the clients send and whatever the exchange has
recovered from: the books are well formed, exchange ids are never reused, and the ids that the
engine and the pending tasks work with are ids of orders that have been handled completely.
The invariant is split by component, and each part says how it is kept when the ids known to
the engine grow; the step lemmas then only look at what a step changes.
-/
import FixExchange.System.ProcessItem
import FixExchange.System.Steps

namespace FixExchange

/-! ## What a task leaves alone -/

lemma lookup_of_lookup_erase {α : Type} {m : StrMap α} {k k' : String} {v : α}
    (h : (m.erase k').lookup k = some v) : m.lookup k = some v := by
  by_cases hk : k = k'
  · rw [hk, AList.lookup_erase] at h
    exact absurd h (by simp)
  · rwa [AList.lookup_erase_ne hk] at h

/-- An entry of a map after `emplace` was there before, or is the new one. -/
lemma StrMap.lookup_emplace {α : Type} {m : StrMap α} {k k' : String} {v w : α}
    (h : (StrMap.emplace m k' w).lookup k = some v) :
    m.lookup k = some v ∨ (k = k' ∧ v = w) := by
  rw [StrMap.emplace] at h
  split_ifs at h
  · exact Or.inl h
  · by_cases hk : k = k'
    · rw [hk, AList.lookup_insert] at h
      exact Or.inr ⟨hk, (Option.some.inj h).symm⟩
    · rw [AList.lookup_insert_ne hk] at h
      exact Or.inl h

/-- `emplace` keeps the entries. -/
lemma StrMap.lookup_emplace_of_some {α : Type} {m : StrMap α} {k k' : String} {v w : α}
    (h : m.lookup k = some v) : (StrMap.emplace m k' w).lookup k = some v := by
  rw [StrMap.emplace]
  split_ifs with hmem
  · exact h
  · have hk : k ≠ k' := by
      rintro rfl
      rw [AList.lookup_eq_none.mpr hmem] at h
      exact absurd h (by simp)
    rwa [AList.lookup_insert_ne hk]

/-- `emplace` keeps the keys. -/
lemma StrMap.lookup_emplace_ne_none {α : Type} {m : StrMap α} {k k' : String} {w : α}
    (h : m.lookup k ≠ none) : (StrMap.emplace m k' w).lookup k ≠ none := by
  obtain ⟨v, hv⟩ := Option.ne_none_iff_exists'.mp h
  rw [StrMap.lookup_emplace_of_some hv]
  simp

/-- `emplace` makes an entry for its key. -/
lemma StrMap.lookup_emplace_self {α : Type} (m : StrMap α) (k : String) (w : α) :
    (StrMap.emplace m k w).lookup k ≠ none := by
  rw [StrMap.emplace]
  split_ifs with hmem
  · exact fun hn => AList.lookup_eq_none.mp hn hmem
  · rw [AList.lookup_insert]
    simp

namespace FixGateway

variable {g : FixGateway} {t : Task} {id : String}

/-- A task keeps the sessions of the orders that it does not look up. -/
lemma runTask_sessions (h : id ∉ t.ids) :
    (g.runTask t).1.orderSessions.lookup id = g.orderSessions.lookup id := by
  cases t with
  | fillRouting fill =>
    simp only [runTask, fillRouting]
    split
    · rfl
    · split_ifs
      · exact AList.lookup_erase_ne (by simpa [Task.ids] using h)
      · rfl
  | fillOrders fill session => rfl
  | fillDone maker taker => rfl
  | onCancel req found =>
    simp only [runTask, onCancel]
    split
    · split_ifs
      · exact AList.lookup_erase_ne (by simpa [Task.ids] using h)
      · rfl
    · rfl
  | onTIFCancel order =>
    simp only [runTask, onTIFCancel]
    split
    · rfl
    · exact AList.lookup_erase_ne (by simpa [Task.ids] using h)
  | onReplace req found newLeavesQty =>
    simp only [runTask, onReplace]
    split
    · split_ifs
      · exact AList.lookup_erase_ne (by simpa [Task.ids] using h)
      · rfl
      · rfl
    · rfl
  | onOrderRested order leavesQty => rfl

/-- The client ids after a task lead to orders that they led to before, or to an order that
the task looks up. -/
lemma runTask_clord {c : String} (h : (g.runTask t).1.clordToExchange.lookup c = some id) :
    g.clordToExchange.lookup c = some id ∨ id ∈ t.ids := by
  cases t with
  | fillRouting fill =>
    simp only [runTask, fillRouting] at h
    split at h
    · exact Or.inl h
    · split_ifs at h
      · exact Or.inl (lookup_of_lookup_erase h)
      · exact Or.inl h
  | fillOrders fill session => exact Or.inl h
  | fillDone maker taker => exact Or.inl h
  | onCancel req found =>
    simp only [runTask, onCancel] at h
    split at h
    · split_ifs at h
      · exact Or.inl (lookup_of_lookup_erase h)
      · exact Or.inl h
    · exact Or.inl h
  | onTIFCancel order =>
    simp only [runTask, onTIFCancel] at h
    split at h
    · exact Or.inl h
    · exact Or.inl (lookup_of_lookup_erase h)
  | onReplace req found newLeavesQty =>
    simp only [runTask, onReplace] at h
    split at h
    · have key : (StrMap.emplace (g.clordToExchange.erase req.oldClordId) req.newClordId
          req.origOrderId).lookup c = some id →
          g.clordToExchange.lookup c = some id ∨ id ∈ (Task.onReplace req found newLeavesQty).ids := by
        intro h
        rcases StrMap.lookup_emplace h with h | ⟨-, rfl⟩
        · exact Or.inl (lookup_of_lookup_erase h)
        · exact Or.inr List.mem_cons_self
      split_ifs at h
      · exact key h
      · exact key h
      · exact Or.inl h
    · exact Or.inl h
  | onOrderRested order leavesQty => exact Or.inl h

/-- An order that is open after a task was open before, in another version. -/
lemma onActive_inv {A : OrderLedger} {o' : Order} (h : t.onActive A id = some o') :
    ∃ o, A id = some o ∧ o'.SameOrigin o := by
  have hset : ∀ {k : String} {n : ℤ}, A.setOpen k n id = some o' →
      ∃ o, A id = some o ∧ o'.SameOrigin o := by
    intro k n h
    by_cases hk : id = k
    · subst hk
      rw [OrderLedger.setOpen_self] at h
      split_ifs at h
      obtain ⟨o, ho, rfl⟩ := Option.map_eq_some_iff.mp h
      exact ⟨o, ho, o.sameOrigin_withLeaves n⟩
    · rw [OrderLedger.setOpen_of_ne hk] at h
      exact ⟨o', h, .refl o'⟩
  have hdrop : ∀ {k : String}, A.drop k id = some o' → ∃ o, A id = some o ∧ o'.SameOrigin o := by
    intro k h
    by_cases hk : id = k
    · rw [hk, Ledger.drop_self] at h
      exact absurd h (by simp)
    · rw [Ledger.drop_of_ne hk] at h
      exact ⟨o', h, .refl o'⟩
  cases t with
  | fillRouting fill => exact hset h
  | fillOrders fill session => exact hset h
  | fillDone maker taker => exact ⟨o', h, .refl o'⟩
  | onCancel req found =>
    simp only [Task.onActive] at h
    split_ifs at h
    · exact hdrop h
    · exact ⟨o', h, .refl o'⟩
  | onTIFCancel order => exact hdrop h
  | onReplace req found newLeavesQty =>
    simp only [Task.onActive] at h
    split_ifs at h
    · exact hdrop h
    · by_cases hk : id = req.origOrderId
      · subst hk
        rw [Ledger.adjust_self] at h
        obtain ⟨o, ho, rfl⟩ := Option.map_eq_some_iff.mp h
        exact ⟨o, ho, rfl, rfl, rfl, rfl, rfl⟩
      · rw [Ledger.adjust_of_ne hk] at h
        exact ⟨o', h, .refl o'⟩
    · exact ⟨o', h, .refl o'⟩
  | onOrderRested order leavesQty => exact ⟨o', h, .refl o'⟩

lemma settle_inv {A : OrderLedger} {ts : List Task} {o' : Order} (h : settle ts A id = some o') :
    ∃ o, A id = some o ∧ o'.SameOrigin o := by
  induction ts generalizing A with
  | nil => exact ⟨o', h, .refl o'⟩
  | cons t ts ih =>
    obtain ⟨o₁, h₁, hsame₁⟩ := ih h
    obtain ⟨o, ho, hsame⟩ := onActive_inv h₁
    exact ⟨o, ho, hsame₁.trans hsame⟩

/-- A task changes the open orders as `onActive` says, or not at all. -/
lemma runTask_active (g : FixGateway) (t : Task) :
    (g.runTask t).1.active = g.active ∨ (g.runTask t).1.active = t.onActive g.active := by
  cases t with
  | fillRouting fill =>
    refine Or.inl ?_
    simp only [runTask, fillRouting]
    split
    · rfl
    · split_ifs <;> rfl
  | fillOrders fill session => exact Or.inr (active_setLeaves _ _ _)
  | fillDone maker taker => exact Or.inl rfl
  | onCancel req found =>
    simp only [runTask, onCancel, Task.onActive]
    split
    · split_ifs
      · exact Or.inr (Ledger.ofAList_erase _)
      · exact Or.inl rfl
    · exact Or.inl rfl
  | onTIFCancel order =>
    simp only [runTask, onTIFCancel, Task.onActive]
    split
    · exact Or.inl rfl
    · exact Or.inr (Ledger.ofAList_erase _)
  | onReplace req found newLeavesQty =>
    simp only [runTask, onReplace, Task.onActive]
    split
    · rename_i session existing hs ha
      have ha : g.active req.origOrderId = some existing := ha
      split_ifs
      · exact Or.inr (Ledger.ofAList_erase _)
      · rw [Ledger.adjust_of_some ha]
        exact Or.inr (Ledger.ofAList_insert _)
      · exact Or.inl rfl
    · exact Or.inl rfl
  | onOrderRested order leavesQty => exact Or.inl rfl

/-- An order that is open after a task has run was open before, in another version. -/
lemma runTask_active_inv {o' : Order} (h : (g.runTask t).1.active id = some o') :
    ∃ o, g.active id = some o ∧ o'.SameOrigin o := by
  rcases runTask_active g t with hg | hg
  · rw [hg] at h
    exact ⟨o', h, .refl o'⟩
  · rw [hg] at h
    exact onActive_inv h

/-- A task does not issue ids. -/
lemma runTask_orderSeq (g : FixGateway) (t : Task) : (g.runTask t).1.orderSeq = g.orderSeq := by
  cases t with
  | fillRouting fill =>
    simp only [runTask, fillRouting]
    split
    · rfl
    · split_ifs <;> rfl
  | fillOrders fill session => rfl
  | fillDone maker taker => rfl
  | onCancel req found =>
    simp only [runTask, onCancel]
    split
    · split_ifs <;> rfl
    · rfl
  | onTIFCancel order =>
    simp only [runTask, onTIFCancel]
    split <;> rfl
  | onReplace req found newLeavesQty =>
    simp only [runTask, onReplace]
    split
    · split_ifs <;> rfl
    · rfl
  | onOrderRested order leavesQty => rfl

/-- The tasks that a task leaves look up the same orders. -/
lemma runTask_ids {t' : Task} (ht' : t' ∈ (g.runTask t).2) : t'.ids = t.ids := by
  cases t with
  | fillRouting fill =>
    simp only [runTask] at ht'
    split at ht'
    · exact absurd ht' List.not_mem_nil
    · rw [List.mem_singleton.mp ht']
      rfl
  | _ => exact absurd ht' List.not_mem_nil

end FixGateway

/-! ## Exchange ids -/

/-- One of the first `n` exchange ids. -/
def Issued (n : ℕ) (id : String) : Prop := ∃ k ≤ n, id = exchangeId k

lemma Issued.mono {m n : ℕ} {id : String} (h : Issued m id) (hmn : m ≤ n) : Issued n id := by
  obtain ⟨k, hk, rfl⟩ := h
  exact ⟨k, hk.trans hmn, rfl⟩

lemma issued_self (n : ℕ) : Issued n (exchangeId n) := ⟨n, le_refl n, rfl⟩

lemma Issued.ne_next {n : ℕ} {id : String} (h : Issued n id) : id ≠ exchangeId (n + 1) := by
  obtain ⟨k, hk, rfl⟩ := h
  intro heq
  have := exchangeId_injective heq
  omega

/-- The order that a handler is entering in the maps. -/
def Handler.pending : Handler → Option Order
  | .route o _ => some o
  | .activate o _ => some o
  | .submit o => some o
  | _ => none

namespace System

variable {s s' : System}

/-- The id of an order whose handler has submitted it. -/
def Known (s : System) (id : String) : Prop :=
  Issued s.gateway.orderSeq id ∧ ∀ o ∈ s.handler.pending, id ≠ o.exchangeId

/-! ## The parts of the invariant -/

/-- The books. -/
structure BooksSound (books : StrMap OrderBook) (known : String → Prop) : Prop where
  wf : ∀ sym b, books.lookup sym = some b → b.Wf
  keyed : ∀ sym b, books.lookup sym = some b → b.Keyed
  symbol : ∀ sym b, books.lookup sym = some b → b.symbol = sym
  orders : ∀ sym b, books.lookup sym = some b → ∀ n ∈ b.nodes,
    n.order.symbol = sym ∧ known n.order.exchangeId
  /-- No id rests in two books. -/
  apart : ∀ sym b sym' b', books.lookup sym = some b → books.lookup sym' = some b' →
    ∀ n ∈ b.nodes, ∀ n' ∈ b'.nodes, n.order.exchangeId = n'.order.exchangeId → sym = sym'
  /-- Orders that are immediate or cancel do not rest. -/
  patient : ∀ sym b, books.lookup sym = some b → b.Patient

/-- The ids of the orders in the queue. -/
def submittedIds (queue : List WorkItem) : List String :=
  queue.filterMap fun
    | .order o => some o.exchangeId
    | _ => none

/-- The queue. -/
structure QueueSound (queue : List WorkItem) (books : StrMap OrderBook) (known : String → Prop) :
    Prop where
  known : ∀ item ∈ queue, known item.id
  nodup : (submittedIds queue).Nodup
  fresh : ∀ o, .order o ∈ queue → ∀ sym b, books.lookup sym = some b → b.Fresh o.exchangeId
  qty : ∀ o, .order o ∈ queue → o.leavesQty = o.qty ∧ 0 ≤ o.qty

/-- The QuickFIX thread. -/
structure HandlerSound (handler : Handler) (orderSeq : ℕ) : Prop where
  pending : ∀ o ∈ handler.pending,
    o.exchangeId = exchangeId orderSeq ∧ o.leavesQty = o.qty ∧ 0 ≤ o.qty
  request : handler.pending = none → ∀ item, nextItem handler = some item → Issued orderSeq item.id

/-- The maps of the gateway. -/
structure MapsFounded (g : FixGateway) (handler : Handler) (known : String → Prop) : Prop where
  resolved : ∀ c id, g.clordToExchange.lookup c = some id → Issued g.orderSeq id
  active : ∀ id o, g.active id = some o → o.exchangeId = id ∧ (known id ∨ handler = .submit o)
  session : ∀ o session, handler = .activate o session →
    g.orderSessions.lookup o.exchangeId ≠ none

/-- **The invariant of all runs.** -/
structure Founded (s : System) : Prop where
  books : BooksSound s.engine.books s.Known
  queue : QueueSound s.queue s.engine.books s.Known
  tasks : ∀ t ∈ s.tasks, ∀ id ∈ t.ids, s.Known id
  handler : HandlerSound s.handler s.gateway.orderSeq
  maps : MapsFounded s.gateway s.handler s.Known
  symbols : ∀ sym ∈ s.engine.validSymbols, sym ∈ s.engine.books

lemma BooksSound.mono {books : StrMap OrderBook} {known known' : String → Prop}
    (h : BooksSound books known) (hk : ∀ id, known id → known' id) : BooksSound books known' :=
  ⟨h.wf, h.keyed, h.symbol, fun sym b hb n hn =>
    ⟨(h.orders sym b hb n hn).1, hk _ (h.orders sym b hb n hn).2⟩, h.apart, h.patient⟩

lemma QueueSound.mono {queue : List WorkItem} {books : StrMap OrderBook}
    {known known' : String → Prop} (h : QueueSound queue books known)
    (hk : ∀ id, known id → known' id) : QueueSound queue books known' :=
  ⟨fun item hi => hk _ (h.known item hi), h.nodup, h.fresh, h.qty⟩

/-! ## The start -/

lemma lookup_init_books (symbols : List String) (sym : String) :
    (MatchingEngine.init symbols).books.lookup sym
      = if sym ∈ symbols then some (OrderBook.init sym) else none := by
  simp only [MatchingEngine.init]
  induction symbols with
  | nil => simp
  | cons a l ih =>
    rw [List.foldr_cons]
    by_cases ha : sym = a
    · subst ha
      rw [AList.lookup_insert, if_pos List.mem_cons_self]
    · rw [AList.lookup_insert_ne ha, ih]
      simp [ha]

lemma founded_start (cfg : Config) : (start cfg).Founded := by
  have hbook : ∀ sym b, (start cfg).engine.books.lookup sym = some b → b = OrderBook.init sym := by
    intro sym b hb
    rw [start, lookup_init_books] at hb
    split_ifs at hb
    exact (Option.some.inj hb).symm
  have hnone : ∀ sym b, (start cfg).engine.books.lookup sym = some b → ∀ n, n ∉ b.nodes := by
    intro sym b hb
    rw [hbook sym b hb]
    simp [OrderBook.init, OrderBook.nodes]
  refine ⟨⟨?_, ?_, ?_, ?_, ?_, ?_⟩, ⟨?_, ?_, ?_, ?_⟩, ?_, ⟨?_, ?_⟩, ⟨?_, ?_, ?_⟩, ?_⟩
  · intro sym b hb
    rw [hbook sym b hb]
    exact OrderBook.wf_init sym
  · intro sym b hb
    rw [hbook sym b hb]
    exact OrderBook.keyed_init sym
  · intro sym b hb
    rw [hbook sym b hb]
    rfl
  · exact fun sym b hb n hn => absurd hn (hnone sym b hb n)
  · exact fun sym b sym' b' hb _ n hn => absurd hn (hnone sym b hb n)
  · exact fun sym b hb n hn => absurd hn (hnone sym b hb n)
  · simp [start]
  · simp [start, submittedIds]
  · simp [start]
  · simp [start]
  · simp [start]
  · simp [start, Handler.pending]
  · simp [start, nextItem]
  · intro c id h
    simp [start, FixGateway.init] at h
  · intro id o h
    simp [start, FixGateway.init, FixGateway.active] at h
  · simp [start]
  · intro sym hsym
    have hmem : sym ∈ cfg.symbols := List.mem_toFinset.mp hsym
    refine AList.lookup_isSome.mp ?_
    rw [start, lookup_init_books, if_pos hmem]
    rfl

/-! ## Steps of the QuickFIX thread -/

/-- The ids known to the engine grow when the counter does and no other order becomes
pending than the one that has just got its id. -/
lemma Known.mono {id : String} (h : s.Known id) (hseq : s.gateway.orderSeq ≤ s'.gateway.orderSeq)
    (hpending : ∀ o ∈ s'.handler.pending, o ∈ s.handler.pending ∨
      o.exchangeId = exchangeId (s.gateway.orderSeq + 1)) : s'.Known id := by
  refine ⟨h.1.mono hseq, fun o ho => ?_⟩
  rcases hpending o ho with ho | ho
  · exact h.2 o ho
  · rw [ho]
    exact h.1.ne_next

lemma Founded.message (h : s.Founded) {session : SessionID} {msg : Message}
    (hstep : s.step (.message msg session) = some s') : s'.Founded := by
  obtain ⟨hidle, rfl⟩ := step_message hstep
  -- the maps are not touched, and no handler was entering an order
  have hmaps : ∀ seq sent handler (known : String → Prop), s.gateway.orderSeq ≤ seq →
      (∀ id, s.Known id → known id) → (∀ o session, handler ≠ .activate o session) →
      MapsFounded (bump s.gateway seq sent) handler known := by
    intro seq sent handler known hseq hknown hact
    refine ⟨fun c id hc => (h.maps.resolved c id hc).mono hseq, fun id o ho => ?_,
      fun o session ho => absurd ho (hact o session)⟩
    obtain ⟨hid, hk | hk⟩ := h.maps.active id o ho
    · exact ⟨hid, Or.inl (hknown id hk)⟩
    · rw [hidle] at hk
      exact absurd hk (by simp)
  rcases onMessage_cases s session msg with ⟨seq, sent, heq, hseq⟩ | ⟨m, o, rfl, ho, heq⟩ |
      ⟨m, req, rfl, hreq, heq⟩ | ⟨m, req, rfl, hreq, heq⟩
  · rw [heq]
    have hknown : ∀ id, s.Known id →
        ({ s with gateway := bump s.gateway seq sent, handler := .idle } : System).Known id :=
      fun id hid => hid.mono hseq (by simp [Handler.pending])
    exact ⟨h.books.mono hknown, h.queue.mono hknown, fun t ht id hid =>
      hknown id (h.tasks t ht id hid), ⟨by simp [Handler.pending], by simp [nextItem]⟩,
      hmaps seq sent _ _ hseq hknown (by simp), h.symbols⟩
  · rw [heq]
    have hknown : ∀ id, s.Known id →
        ({ s with
            gateway := bump s.gateway (s.gateway.orderSeq + 1) s.gateway.sent
            handler := .route o session } : System).Known id := by
      refine fun id hid => hid.mono (Nat.le_succ _) fun o' ho' => Or.inr ?_
      obtain rfl := Option.some.inj ho'
      exact ho.exchangeId
    refine ⟨h.books.mono hknown, h.queue.mono hknown, fun t ht id hid =>
      hknown id (h.tasks t ht id hid), ⟨fun o' ho' => ?_, fun hn => ?_⟩,
      hmaps _ _ _ _ (Nat.le_succ _) hknown (by simp), h.symbols⟩
    · obtain rfl := Option.some.inj ho'
      refine ⟨ho.exchangeId, ho.leavesQty, ?_⟩
      rw [ho.qty]
      exact castInt_nonneg ho.rawQty.1.le ho.rawQty.2
    · exact absurd hn (by simp [Handler.pending])
  · rw [heq]
    have hknown : ∀ id, s.Known id →
        ({ s with handler := .cancel req } : System).Known id :=
      fun id hid => hid.mono (le_refl _) (by simp [Handler.pending])
    refine ⟨h.books.mono hknown, h.queue.mono hknown, fun t ht id hid =>
      hknown id (h.tasks t ht id hid), ⟨by simp [Handler.pending], fun _ item hitem => ?_⟩,
      hmaps s.gateway.orderSeq s.gateway.sent _ _ (le_refl _) hknown (by simp), h.symbols⟩
    obtain rfl := Option.some.inj hitem
    exact h.maps.resolved _ _ hreq.resolved
  · rw [heq]
    have hknown : ∀ id, s.Known id →
        ({ s with handler := .replace req } : System).Known id :=
      fun id hid => hid.mono (le_refl _) (by simp [Handler.pending])
    refine ⟨h.books.mono hknown, h.queue.mono hknown, fun t ht id hid =>
      hknown id (h.tasks t ht id hid), ⟨by simp [Handler.pending], fun _ item hitem => ?_⟩,
      hmaps s.gateway.orderSeq s.gateway.sent _ _ (le_refl _) hknown (by simp), h.symbols⟩
    obtain rfl := Option.some.inj hitem
    exact h.maps.resolved _ _ hreq.resolved

lemma Founded.logon (h : s.Founded) {session : SessionID}
    (hstep : s.step (.logon session) = some s') : s'.Founded := by
  obtain ⟨hidle, rfl⟩ := step_logon hstep
  refine ⟨h.books, h.queue, h.tasks, h.handler, ⟨h.maps.resolved, h.maps.active, ?_⟩, h.symbols⟩
  intro o session' ho
  exact absurd (hidle.symm.trans ho) (by simp)

/-- A section that keeps the counter and the pending order keeps the known ids. -/
lemma Known.of_same {id : String} (h : s.Known id) (hseq : s'.gateway.orderSeq = s.gateway.orderSeq)
    (hpending : s'.handler.pending = s.handler.pending) : s'.Known id :=
  h.mono hseq.ge fun o ho => Or.inl (by rwa [hpending] at ho)

lemma Founded.route (h : s.Founded) {o : Order} {session : SessionID}
    (hh : s.handler = .route o session) :
    ({ s with
      gateway := s.gateway.routeOrder o session
      handler := .activate o session } : System).Founded := by
  have hpending : s.handler.pending = some o := by rw [hh]; rfl
  have hknown : ∀ id, s.Known id → ({ s with
      gateway := s.gateway.routeOrder o session
      handler := .activate o session } : System).Known id :=
    fun id hid => hid.of_same rfl hpending.symm
  refine ⟨h.books.mono hknown, h.queue.mono hknown, fun t ht id hid =>
    hknown id (h.tasks t ht id hid), ⟨fun o' ho' => ?_, fun hn => absurd hn (by simp [Handler.pending])⟩,
    ⟨fun c id hc => ?_, fun id o' ho' => ?_, fun o' session' ho' => ?_⟩, h.symbols⟩
  · exact h.handler.pending o' (by rw [hpending]; exact ho')
  · rcases StrMap.lookup_emplace hc with hc | ⟨-, rfl⟩
    · exact h.maps.resolved c id hc
    · rw [(h.handler.pending o (by rw [hpending]; rfl)).1]
      exact issued_self _
  · obtain ⟨hid, hk | hk⟩ := h.maps.active id o' ho'
    · exact ⟨hid, Or.inl (hknown id hk)⟩
    · exact absurd (hh.symm.trans hk) (by simp)
  · obtain ⟨rfl, -⟩ := Handler.activate.inj ho'
    exact StrMap.lookup_emplace_self _ _ _

lemma active_activateOrder {g : FixGateway} {o o' : Order} {id : String}
    (h : (g.activateOrder o).active id = some o') :
    g.active id = some o' ∨ (id = o.exchangeId ∧ o' = o) := StrMap.lookup_emplace h

lemma Founded.activate (h : s.Founded) {o : Order} {session : SessionID}
    (hh : s.handler = .activate o session) :
    ({ s with
      gateway := (s.gateway.activateOrder o).ackOrder o session
      handler := .submit o } : System).Founded := by
  have hpending : s.handler.pending = some o := by rw [hh]; rfl
  have hknown : ∀ id, s.Known id → ({ s with
      gateway := (s.gateway.activateOrder o).ackOrder o session
      handler := .submit o } : System).Known id :=
    fun id hid => hid.of_same rfl hpending.symm
  refine ⟨h.books.mono hknown, h.queue.mono hknown, fun t ht id hid =>
    hknown id (h.tasks t ht id hid), ⟨fun o' ho' => ?_, fun hn => absurd hn (by simp [Handler.pending])⟩,
    ⟨h.maps.resolved, fun id o' ho' => ?_, by simp⟩, h.symbols⟩
  · exact h.handler.pending o' (by rw [hpending]; exact ho')
  · rcases active_activateOrder ho' with ho' | ⟨rfl, rfl⟩
    · obtain ⟨hid, hk | hk⟩ := h.maps.active id o' ho'
      · exact ⟨hid, Or.inl (hknown id hk)⟩
      · exact absurd (hh.symm.trans hk) (by simp)
    · exact ⟨rfl, Or.inr rfl⟩

lemma submittedIds_append (queue : List WorkItem) (item : WorkItem) :
    submittedIds (queue ++ [item]) = submittedIds queue ++ submittedIds [item] :=
  List.filterMap_append

lemma mem_submittedIds {queue : List WorkItem} {id : String} :
    id ∈ submittedIds queue ↔ ∃ o, .order o ∈ queue ∧ o.exchangeId = id := by
  simp only [submittedIds, List.mem_filterMap]
  constructor
  · rintro ⟨item, hi, hid⟩
    cases item with
    | order o => exact ⟨o, hi, Option.some.inj hid⟩
    | cancel req => exact absurd hid (by simp)
    | replace req => exact absurd hid (by simp)
  · rintro ⟨o, ho, rfl⟩
    exact ⟨.order o, ho, rfl⟩

/-- The handlers that push an item. -/
lemma nextItem_cases {handler : Handler} {item : WorkItem} (h : nextItem handler = some item) :
    (∃ o, handler = .submit o ∧ item = .order o) ∨
      (handler.pending = none ∧ ∀ o, item ≠ .order o) := by
  cases handler with
  | submit o => exact Or.inl ⟨o, rfl, (Option.some.inj h).symm⟩
  | cancel req =>
    obtain rfl := Option.some.inj h
    exact Or.inr ⟨rfl, by simp⟩
  | replace req =>
    obtain rfl := Option.some.inj h
    exact Or.inr ⟨rfl, by simp⟩
  | _ => exact absurd h (by simp [nextItem])

lemma Founded.push (h : s.Founded) {item : WorkItem} (hitem : nextItem s.handler = some item) :
    ({ s with queue := s.queue ++ [item], handler := .idle } : System).Founded := by
  have hknown : ∀ id, s.Known id →
      ({ s with queue := s.queue ++ [item], handler := .idle } : System).Known id :=
    fun id hid => hid.mono (le_refl _) (by simp [Handler.pending])
  have hissued : ∀ id, Issued s.gateway.orderSeq id →
      ({ s with queue := s.queue ++ [item], handler := .idle } : System).Known id :=
    fun id hid => ⟨hid, by simp [Handler.pending]⟩
  have hmaps : MapsFounded s.gateway .idle
      ({ s with queue := s.queue ++ [item], handler := .idle } : System).Known := by
    refine ⟨h.maps.resolved, fun id o ho => ?_, by simp⟩
    obtain ⟨hid, hk | hk⟩ := h.maps.active id o ho
    · exact ⟨hid, Or.inl (hknown id hk)⟩
    · refine ⟨hid, Or.inl (hissued id ?_)⟩
      rw [← hid, (h.handler.pending o (by rw [hk]; rfl)).1]
      exact issued_self _
  refine ⟨h.books.mono hknown, ?_, fun t ht id hid => hknown id (h.tasks t ht id hid),
    ⟨by simp [Handler.pending], by simp [nextItem]⟩, hmaps, h.symbols⟩
  have hold := h.queue.mono hknown
  rcases nextItem_cases hitem with ⟨o, hh, rfl⟩ | ⟨hpending, hne⟩
  · -- the pending order is new to the engine
    have hpending : s.handler.pending = some o := by rw [hh]; rfl
    obtain ⟨hid, hleaves, hqty⟩ := h.handler.pending o (by rw [hpending]; rfl)
    have hfresh : ∀ id, s.Known id → id ≠ o.exchangeId := fun id hid =>
      hid.2 o (by rw [hpending]; rfl)
    refine ⟨fun item hi => ?_, ?_, fun o' ho' sym b hb => ?_, fun o' ho' => ?_⟩
    · rcases List.mem_append.mp hi with hi | hi
      · exact hold.known item hi
      · rw [List.mem_singleton.mp hi]
        refine hissued _ ?_
        rw [WorkItem.id, hid]
        exact issued_self _
    · rw [submittedIds_append]
      refine List.nodup_append.mpr ⟨h.queue.nodup, List.nodup_singleton _, ?_⟩
      intro id hq id' hid' heq
      obtain ⟨o', ho', rfl⟩ := mem_submittedIds.mp hq
      obtain rfl := List.mem_singleton.mp hid'
      exact hfresh _ (h.queue.known _ ho') heq
    · rcases List.mem_append.mp ho' with ho' | ho'
      · exact h.queue.fresh o' ho' sym b hb
      · obtain rfl := WorkItem.order.inj (List.mem_singleton.mp ho')
        exact fun n hn => hfresh _ (h.books.orders sym b hb n hn).2
    · rcases List.mem_append.mp ho' with ho' | ho'
      · exact h.queue.qty o' ho'
      · obtain rfl := WorkItem.order.inj (List.mem_singleton.mp ho')
        exact ⟨hleaves, hqty⟩
  · have hold' : ∀ o, .order o ∈ s.queue ++ [item] → .order o ∈ s.queue := by
      intro o ho
      rcases List.mem_append.mp ho with ho | ho
      · exact ho
      · exact absurd (List.mem_singleton.mp ho).symm (hne o)
    refine ⟨fun item' hi => ?_, ?_, fun o ho => h.queue.fresh o (hold' o ho),
      fun o ho => h.queue.qty o (hold' o ho)⟩
    · rcases List.mem_append.mp hi with hi | hi
      · exact hold.known item' hi
      · rw [List.mem_singleton.mp hi]
        exact hissued _ (h.handler.request hpending item hitem)
    · have hnil : submittedIds [item] = [] := by
        cases item with
        | order o => exact absurd rfl (hne o)
        | cancel req => rfl
        | replace req => rfl
      rw [submittedIds_append, hnil, List.append_nil]
      exact h.queue.nodup

lemma Founded.handle (h : s.Founded) (hstep : s.step .handle = some s') : s'.Founded := by
  rcases handle_cases hstep with ⟨o, session, hh, rfl⟩ | ⟨o, session, hh, rfl⟩ | ⟨item, hitem, rfl⟩
  · exact h.route hh
  · exact h.activate hh
  · exact h.push hitem

/-! ## Steps of the engine thread -/

lemma Founded.task (h : s.Founded) {t : Task} {ts : List Task} (ht : s.tasks = t :: ts) :
    ({ s with
      gateway := (s.gateway.runTask t).1
      tasks := (s.gateway.runTask t).2 ++ ts } : System).Founded := by
  have hseq := FixGateway.runTask_orderSeq s.gateway t
  have htids : ∀ id ∈ t.ids, s.Known id := h.tasks t (by rw [ht]; exact List.mem_cons_self)
  have hknown : ∀ id, s.Known id → ({ s with
      gateway := (s.gateway.runTask t).1
      tasks := (s.gateway.runTask t).2 ++ ts } : System).Known id :=
    fun id hid => hid.of_same hseq rfl
  refine ⟨h.books.mono hknown, h.queue.mono hknown, fun t' ht' id hid => hknown id ?_, ?_,
    ⟨fun c id hc => ?_, fun id o' ho' => ?_, fun o session ho => ?_⟩, h.symbols⟩
  · rcases List.mem_append.mp ht' with ht' | ht'
    · rw [FixGateway.runTask_ids ht'] at hid
      exact htids id hid
    · exact h.tasks t' (by rw [ht]; exact List.mem_cons_of_mem _ ht') id hid
  · refine ⟨fun o ho => ?_, fun hp item hi => ?_⟩
    · rw [hseq]
      exact h.handler.pending o ho
    · rw [hseq]
      exact h.handler.request hp item hi
  · rw [hseq]
    rcases FixGateway.runTask_clord hc with hc | hid
    · exact h.maps.resolved c id hc
    · exact (htids id hid).1
  · obtain ⟨o, ho, hsame⟩ := FixGateway.runTask_active_inv ho'
    obtain ⟨hid, hk⟩ := h.maps.active id o ho
    refine ⟨hsame.exchangeId.trans hid, hk.imp (hknown id) fun hk => ?_⟩
    -- the task does not look up the order that is being submitted
    have hnot : id ∉ t.ids := fun hmem =>
      (htids id hmem).2 o (by rw [hk]; rfl) hid.symm
    have hactive : (s.gateway.runTask t).1.active id = s.gateway.active id := by
      rcases FixGateway.runTask_active s.gateway t with hg | hg
      · rw [hg]
      · rw [hg, Task.onActive_of_notMem hnot]
    rw [hactive, ho] at ho'
    rw [← Option.some.inj ho']
    exact hk
  · have hnot : o.exchangeId ∉ t.ids := fun hmem =>
      (htids _ hmem).2 o (by rw [ho]; rfl) rfl
    rw [FixGateway.runTask_sessions hnot]
    exact h.maps.session o session ho

/-- The books after an item has been processed. -/
lemma lookup_processed {books : StrMap OrderBook} {sym sym' : String} {b b' : OrderBook}
    (h : (books.insert sym b').lookup sym' = some b) :
    (sym' = sym ∧ b = b') ∨ (sym' ≠ sym ∧ books.lookup sym' = some b) := by
  by_cases hsym : sym' = sym
  · rw [hsym, AList.lookup_insert] at h
    exact Or.inl ⟨hsym, (Option.some.inj h).symm⟩
  · rw [AList.lookup_insert_ne hsym] at h
    exact Or.inr ⟨hsym, h⟩

lemma Founded.accepts (h : s.Founded) {item : WorkItem} (hi : item ∈ s.queue) {sym : String}
    {b : OrderBook} (hb : s.engine.books.lookup sym = some b) : b.Accepts item := by
  rintro o rfl
  exact h.queue.fresh o hi sym b hb

/-- An order in a book after an item has been processed has the symbol of the book, and the id
of an order that was in the book or of a new one. -/
lemma Founded.processed_orders (h : s.Founded) {item : WorkItem} {b : OrderBook}
    (hb : s.engine.books.lookup item.symbol = some b) {n : Node}
    (hn : n ∈ (processIn b item).1.nodes) : n.order.symbol = item.symbol ∧
      ((∃ o, item = .order o ∧ n.order.exchangeId = o.exchangeId) ∨
        ∃ m ∈ b.nodes, n.order.exchangeId = m.order.exchangeId) := by
  rcases OrderBook.mem_processIn (h.books.wf _ b hb) hn with ⟨m, hm, hleft⟩ |
      ⟨o', rfl, ho, -⟩ | ⟨req, rfl, m, hm, -, ho⟩
  · refine ⟨?_, Or.inr ⟨m, hm, hleft.sameOrigin.exchangeId⟩⟩
    rw [hleft.sameOrigin.symbol]
    exact (h.books.orders _ b hb m hm).1
  · refine ⟨?_, Or.inl ⟨o', rfl, ?_⟩⟩
    · rw [ho]; rfl
    · rw [ho]; rfl
  · refine ⟨?_, Or.inr ⟨m, hm, ?_⟩⟩
    · rw [ho]
      exact (h.books.orders _ b hb m hm).1
    · rw [ho]

/-- An id that rests after an item has been processed rests in no other book. -/
lemma Founded.processed_apart (h : s.Founded) {item : WorkItem} (hi : item ∈ s.queue) {b : OrderBook}
    (hb : s.engine.books.lookup item.symbol = some b) {n : Node}
    (hn : n ∈ (processIn b item).1.nodes) {sym : String} {b' : OrderBook}
    (hb' : s.engine.books.lookup sym = some b') {n' : Node} (hn' : n' ∈ b'.nodes)
    (hid : n.order.exchangeId = n'.order.exchangeId) : sym = item.symbol := by
  rcases (h.processed_orders hb hn).2 with ⟨o, rfl, ho⟩ | ⟨m, hm, hmid⟩
  · exact absurd (hid.symm.trans ho) (h.queue.fresh o hi sym b' hb' n' hn')
  · exact (h.books.apart _ b sym b' hb hb' m hm n' hn' (hmid.symm.trans hid)).symm

lemma Founded.take (h : s.Founded) {item : WorkItem} {queue : List WorkItem} {b : OrderBook}
    (hq : s.queue = item :: queue) (hb : s.engine.books.lookup item.symbol = some b) :
    ({ s with
      engine := { s.engine with books := s.engine.books.insert item.symbol (processIn b item).1 }
      queue := queue
      tasks := (processIn b item).2.flatMap Callback.tasks } : System).Founded := by
  have hmem : item ∈ s.queue := by rw [hq]; exact List.mem_cons_self
  have hqueue : ∀ item' ∈ queue, item' ∈ s.queue := fun item' hi => by
    rw [hq]; exact List.mem_cons_of_mem _ hi
  have hwf := h.books.wf _ b hb
  have hitem := h.queue.known item hmem
  refine ⟨⟨fun sym b' hb' => ?_, fun sym b' hb' => ?_, fun sym b' hb' => ?_,
      fun sym b' hb' n hn => ?_, fun sym b₁ sym' b₂ hb₁ hb₂ n hn n' hn' hid => ?_,
      fun sym b' hb' => ?_⟩, ⟨fun item' hi => h.queue.known item' (hqueue item' hi), ?_,
      fun o ho sym b' hb' n hn => ?_, fun o ho => h.queue.qty o (hqueue _ ho)⟩,
    fun t ht' id hid => ?_, h.handler, h.maps, fun sym hsym => ?_⟩
  · rcases lookup_processed hb' with ⟨-, rfl⟩ | ⟨-, hb'⟩
    · exact hwf.processIn item
    · exact h.books.wf sym b' hb'
  · rcases lookup_processed hb' with ⟨-, rfl⟩ | ⟨-, hb'⟩
    · exact (h.books.keyed _ b hb).processIn hwf (h.accepts hmem hb)
    · exact h.books.keyed sym b' hb'
  · rcases lookup_processed hb' with ⟨rfl, rfl⟩ | ⟨-, hb'⟩
    · rw [OrderBook.processIn_symbol hwf]
      exact h.books.symbol _ b hb
    · exact h.books.symbol sym b' hb'
  · rcases lookup_processed hb' with ⟨rfl, rfl⟩ | ⟨-, hb'⟩
    · obtain ⟨hsym, hid⟩ := h.processed_orders hb hn
      refine ⟨hsym, ?_⟩
      rcases hid with ⟨o, rfl, hid⟩ | ⟨m, hm, hid⟩
      · rw [hid]; exact hitem
      · rw [hid]; exact (h.books.orders _ b hb m hm).2
    · exact h.books.orders sym b' hb' n hn
  · rcases lookup_processed hb₁ with ⟨rfl, rfl⟩ | ⟨hne, hb₁⟩
    · rcases lookup_processed hb₂ with ⟨rfl, rfl⟩ | ⟨-, hb₂⟩
      · rfl
      · exact (h.processed_apart hmem hb hn hb₂ hn' hid).symm
    · rcases lookup_processed hb₂ with ⟨rfl, rfl⟩ | ⟨-, hb₂⟩
      · exact absurd (h.processed_apart hmem hb hn' hb₁ hn hid.symm) hne
      · exact h.books.apart sym b₁ sym' b₂ hb₁ hb₂ n hn n' hn' hid
  · rcases lookup_processed hb' with ⟨-, rfl⟩ | ⟨-, hb'⟩
    · exact (h.books.patient _ b hb).processIn hwf
    · exact h.books.patient sym b' hb'
  · have hnodup := h.queue.nodup
    rw [hq, submittedIds, List.filterMap_cons] at hnodup
    split at hnodup
    · exact hnodup
    · exact hnodup.of_cons
  · rcases lookup_processed hb' with ⟨rfl, rfl⟩ | ⟨-, hb'⟩
    · rcases (h.processed_orders hb hn).2 with ⟨o', rfl, hid⟩ | ⟨m, hm, hid⟩
      · -- the order of the item has another id than the orders behind it
        rw [hid]
        intro heq
        have hnodup := h.queue.nodup
        rw [hq] at hnodup
        exact (List.nodup_cons.mp hnodup).1 (mem_submittedIds.mpr ⟨o, ho, heq.symm⟩)
      · rw [hid]
        exact h.queue.fresh o (hqueue _ ho) _ b hb m hm
    · exact h.queue.fresh o (hqueue _ ho) sym b' hb' n hn
  · rcases OrderBook.task_ids_processIn hwf ht' hid with rfl | ⟨m, hm, rfl⟩
    · exact hitem
    · exact (h.books.orders _ b hb m hm).2
  · exact (AList.mem_insert _).mpr (Or.inr (h.symbols sym hsym))

lemma Founded.engine (h : s.Founded) (hstep : s.step .engine = some s') : s'.Founded := by
  rcases engineStep_cases hstep with ⟨t, ts, ht, rfl⟩ | ⟨-, item, queue, b, hq, hb, rfl⟩
  · exact h.task ht
  · exact h.take hq hb

/-! ## The other threads, and all runs -/

lemma Founded.persist (h : s.Founded) (hstep : s.step .persist = some s') : s'.Founded := by
  obtain ⟨p, p', -, -, rfl⟩ := step_persist hstep
  exact ⟨h.books, h.queue, h.tasks, h.handler,
    ⟨h.maps.resolved, h.maps.active, h.maps.session⟩, h.symbols⟩

lemma Founded.registerSymbol (h : s.Founded) {symbol : String}
    (hstep : s.step (.registerSymbol symbol) = some s') : s'.Founded := by
  obtain ⟨e, he, rfl⟩ := step_registerSymbol hstep
  obtain ⟨hlookup, hvalid, hbooks⟩ := MatchingEngine.registerSymbol_books he
  -- a book is an old one, or a new and empty one
  have hcases : ∀ sym b, e.books.lookup sym = some b →
      s.engine.books.lookup sym = some b ∨ b = OrderBook.init sym := by
    intro sym b hb
    rcases hlookup sym with hsame | ⟨rfl, -, hnew⟩
    · exact Or.inl (hsame.symm.trans hb)
    · exact Or.inr (Option.some.inj (hb.symm.trans hnew))
  have hnone : ∀ sym n, n ∉ (OrderBook.init sym).nodes := by
    simp [OrderBook.init, OrderBook.nodes]
  refine ⟨⟨fun sym b hb => ?_, fun sym b hb => ?_, fun sym b hb => ?_, fun sym b hb n hn => ?_,
      fun sym b sym' b' hb hb' n hn n' hn' hid => ?_, fun sym b hb => ?_⟩,
    ⟨h.queue.known, h.queue.nodup, fun o ho sym b hb n hn => ?_, h.queue.qty⟩, h.tasks, h.handler,
    ⟨h.maps.resolved, h.maps.active, h.maps.session⟩, fun sym hsym => ?_⟩
  · rcases hcases sym b hb with hb | rfl
    · exact h.books.wf sym b hb
    · exact OrderBook.wf_init sym
  · rcases hcases sym b hb with hb | rfl
    · exact h.books.keyed sym b hb
    · exact OrderBook.keyed_init sym
  · rcases hcases sym b hb with hb | rfl
    · exact h.books.symbol sym b hb
    · rfl
  · rcases hcases sym b hb with hb | rfl
    · exact h.books.orders sym b hb n hn
    · exact absurd hn (hnone sym n)
  · rcases hcases sym b hb with hb | rfl
    · rcases hcases sym' b' hb' with hb' | rfl
      · exact h.books.apart sym b sym' b' hb hb' n hn n' hn' hid
      · exact absurd hn' (hnone sym' n')
    · exact absurd hn (hnone sym n)
  · rcases hcases sym b hb with hb | rfl
    · exact h.books.patient sym b hb
    · exact fun n hn => absurd hn (hnone sym n)
  · rcases hcases sym b hb with hb | rfl
    · exact h.queue.fresh o ho sym b hb n hn
    · exact absurd hn (hnone sym n)
  · rw [hvalid, Finset.mem_insert] at hsym
    exact hbooks sym (hsym.symm.imp_left (h.symbols sym))

/-- **One step keeps the invariant.** -/
theorem Founded.step (h : s.Founded) {a : Action} (hstep : s.step a = some s') : s'.Founded := by
  cases a with
  | message msg session => exact h.message hstep
  | logon session => exact h.logon hstep
  | handle => exact h.handle hstep
  | engine => exact h.engine hstep
  | persist => exact h.persist hstep
  | registerSymbol symbol => exact h.registerSymbol hstep

end System

end FixExchange
