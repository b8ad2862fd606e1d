/-
# Time priority after a recovery

The database does not store the place of an order in its queue: the rows of `resting_orders`
come in the order in which the orders first came to rest.  As long as no replace takes an order
behind one that came to rest later, the queues of the book have the order of the rows
(`in_order_of_run`), and the exchange that recovers from the database has the same queues
(`recovery_keeps_priority`).  A replace that takes its order behind a later one is undone by
a recovery (`recovery_changes_priority`).
-/
import FixExchange.Engine.Queues
import FixExchange.Lib.Sublists
import FixExchange.System.Recovery
import FixExchange.System.Reports
import FixExchange.System.RestingTable

namespace FixExchange

/-! ## The order of the rows -/

/-- The events of a notice add no row but that of an order that has come to rest, which comes
last. -/
lemma Notice.keys_tabulate (rows : List RestingRow) (n : Notice) :
    ((n.tabulate rows).map RestingRow.exchangeId).Sublist (rows.map RestingRow.exchangeId) ∨
      ∃ o leavesQty, n = .rested o leavesQty ∧ (n.tabulate rows).map RestingRow.exchangeId
        = ((rows.map RestingRow.exchangeId).filter fun id => id ≠ o.exchangeId)
            ++ [o.exchangeId] := by
  have hdelete : ∀ id, ((rows.filter fun row => row.exchangeId ≠ id).map
      RestingRow.exchangeId).Sublist (rows.map RestingRow.exchangeId) :=
    fun id => List.filter_sublist.map _
  have hupdate : ∀ id (f : RestingRow → RestingRow), (∀ row, (f row).exchangeId = row.exchangeId) →
      ((rows.map fun row => if row.exchangeId = id then f row else row).map
        RestingRow.exchangeId).Sublist (rows.map RestingRow.exchangeId) := by
    intro id f hf
    have hkeys : (rows.map fun row => if row.exchangeId = id then f row else row).map
        RestingRow.exchangeId = rows.map RestingRow.exchangeId := by
      rw [List.map_map]
      refine List.map_congr_left fun row _ => ?_
      simp only [Function.comp_apply]
      split_ifs
      · exact hf row
      · rfl
    rw [hkeys]
  cases n with
  | filled maker taker =>
    refine Or.inl ?_
    simp only [Notice.tabulate, Notice.events, List.foldl_cons, List.foldl_nil,
      Database.restingAfter, Database.applyEvent, Database.insertEvent]
    split_ifs
    · exact hupdate _ _ fun _ => rfl
    · exact hdelete _
  | cancelled id order => exact Or.inl (hdelete id)
  | replaced req newLeavesQty oldPrice =>
    refine Or.inl ?_
    simp only [Notice.tabulate, Notice.events, List.foldl_cons, List.foldl_nil,
      Database.restingAfter, Database.applyEvent, Database.insertEvent]
    split_ifs
    · exact hupdate _ _ fun _ => rfl
    · exact hdelete _
  | rested order leavesQty =>
    refine Or.inr ⟨order, leavesQty, rfl, ?_⟩
    show ((rows.filter fun row : RestingRow => row.exchangeId ≠ order.exchangeId) ++ [_]).map
      RestingRow.exchangeId = _
    rw [List.map_append, List.filter_map]
    rfl

/-- The keys of the rows after notices of which none is about a new order. -/
lemma keys_tabulates {ns : List Notice} (hns : ∀ o leavesQty, .rested o leavesQty ∉ ns)
    (rows : List RestingRow) : ((ns.foldl Notice.tabulate rows).map RestingRow.exchangeId).Sublist
      (rows.map RestingRow.exchangeId) := by
  induction ns generalizing rows with
  | nil => exact List.Sublist.refl _
  | cons n ns ih =>
    have hrest := ih (fun o k hmem => hns o k (List.mem_cons_of_mem _ hmem)) (n.tabulate rows)
    rcases n.keys_tabulate rows with hsub | ⟨o, leavesQty, rfl, -⟩
    · exact hrest.trans hsub
    · exact absurd List.mem_cons_self (hns o leavesQty)

/-- The keys of the rows after notices that are about no new order but one. -/
lemma keys_tabulates_concat {ns : List Notice} {id : String}
    (hns : ∀ o leavesQty, .rested o leavesQty ∈ ns → o.exchangeId = id) {keys : List String}
    {rows : List RestingRow} (hrows : (rows.map RestingRow.exchangeId).Sublist (keys ++ [id])) :
    ((ns.foldl Notice.tabulate rows).map RestingRow.exchangeId).Sublist (keys ++ [id]) := by
  induction ns generalizing rows with
  | nil => exact hrows
  | cons n ns ih =>
    refine ih (fun o k hmem => hns o k (List.mem_cons_of_mem _ hmem)) ?_
    rcases n.keys_tabulate rows with hsub | ⟨o, leavesQty, rfl, hkeys⟩
    · exact hsub.trans hrows
    · rw [hkeys, hns o leavesQty List.mem_cons_self]
      refine List.Sublist.append ?_ (List.Sublist.refl _)
      have hfilter := hrows.filter fun id' => decide (id' ≠ id)
      rw [List.filter_append, List.filter_singleton] at hfilter
      simp only [ne_eq, not_true_eq_false, decide_false, cond_false, List.append_nil] at hfilter
      exact hfilter.trans List.filter_sublist

lemma restingTable_apply (ns : List Notice) (c : Option (List RestingRow)) :
    ns.foldl restingTable.apply c = c.map fun rows => ns.foldl Notice.tabulate rows := by
  induction ns generalizing c with
  | nil => cases c <;> rfl
  | cons n ns ih =>
    rw [List.foldl_cons, ih]
    cases c <;> rfl

/-! ## The condition -/

/-- A replace that takes its order to the end of the queue of its new price takes it behind no
order of a later row. -/
def OrderBook.KeepsPlace (b : OrderBook) (keys : List String) (req : ReplaceRequest) : Prop :=
  ∀ n ∈ b.nodes, n.order.exchangeId = req.origOrderId →
    ¬(req.newPrice = n.order.price ∧ req.newQty < n.order.leavesQty) →
    ∀ m ∈ b.nodes, m.order.exchangeId ≠ req.origOrderId →
      (m.order.side = '1' ↔ n.order.side = '1') → m.order.price = req.newPrice →
      keys.idxOf m.order.exchangeId < keys.idxOf req.origOrderId

instance (b : OrderBook) (keys : List String) (req : ReplaceRequest) :
    Decidable (b.KeepsPlace keys req) := List.decidableBAll _ _

namespace System

variable {s s' : System} {a : Action} {as : List Action} {cfg : Config}

/-- An item takes no order behind one of a later row, when it is a replace. -/
def ItemKeepsPlace (s : System) : WorkItem → Prop
  | .replace req => ∀ b ∈ s.engine.books.lookup req.symbol, ∀ p ∈ s.gateway.persistence,
      b.KeepsPlace (p.flushed.restingOrders.map RestingRow.exchangeId) req
  | .order _ | .cancel _ => True

instance (s : System) (item : WorkItem) : Decidable (s.ItemKeepsPlace item) :=
  match item with
  | .replace _ => Option.decidableForallMem _
  | .order _ | .cancel _ => instDecidableTrue

/-- The item that the engine takes from the queue takes no order behind one of a later row. -/
def KeepsPlace (s : System) : Action → Prop
  | .engine => s.tasks = [] → ∀ item ∈ s.queue.head?, s.ItemKeepsPlace item
  | .message _ _ | .logon _ | .handle | .persist | .registerSymbol _ => True

instance (s : System) (a : Action) : Decidable (s.KeepsPlace a) :=
  match a with
  | .engine =>
    inferInstanceAs (Decidable (s.tasks = [] → ∀ item ∈ s.queue.head?, s.ItemKeepsPlace item))
  | .message _ _ | .logon _ | .handle | .persist | .registerSymbol _ => instDecidableTrue

/-- The steps of a run in which the queues keep the order of the rows. -/
structure Ordered (s : System) (a : Action) : Prop where
  followed : s.Followed (fun _ => True) a
  keeps : s.KeepsPlace a

instance (s : System) (a : Action) : Decidable (s.Ordered a) :=
  decidable_of_iff (s.Followed (fun _ => True) a ∧ s.KeepsPlace a)
    ⟨fun ⟨hf, hk⟩ => ⟨hf, hk⟩, fun ⟨hf, hk⟩ => ⟨hf, hk⟩⟩

/-- The queues of the books have the order of the rows, as they will be. -/
def InOrder (s : System) : Prop :=
  ∀ rows, s.copy restingTable = some rows → ∀ sym b, s.engine.books.lookup sym = some b →
    ∀ side p, (b.queue side p).Sublist (rows.map RestingRow.exchangeId)

/-! ## One step -/

/-- A step that takes no item changes no book. -/
lemma books_kept (ha : s.TakesNothing a) (hstep : s.step a = some s') {sym : String}
    {b : OrderBook} (hb : s'.engine.books.lookup sym = some b) :
    s.engine.books.lookup sym = some b ∨ b = OrderBook.init sym := by
  cases a with
  | message msg session =>
    obtain ⟨-, rfl⟩ := step_message hstep
    exact Or.inl hb
  | logon session =>
    obtain ⟨-, rfl⟩ := step_logon hstep
    exact Or.inl hb
  | handle =>
    rcases handle_cases hstep with ⟨o, session, -, rfl⟩ | ⟨o, session, -, rfl⟩ | ⟨item, -, rfl⟩ <;>
      exact Or.inl hb
  | engine =>
    rcases engineStep_cases hstep with ⟨t, ts, -, rfl⟩ | ⟨ht, -⟩
    · exact Or.inl hb
    · exact absurd ht (ha rfl)
  | persist =>
    obtain ⟨p, p', -, -, rfl⟩ := step_persist hstep
    exact Or.inl hb
  | registerSymbol symbol =>
    obtain ⟨e, he, rfl⟩ := step_registerSymbol hstep
    obtain ⟨hlookup, -, -⟩ := MatchingEngine.registerSymbol_books he
    rcases hlookup sym with hsame | ⟨rfl, -, hnew⟩
    · exact Or.inl (hsame.symm.trans hb)
    · exact Or.inr (Option.some.inj (hb.symm.trans hnew))

/-- The orders that have a row are those that rest. -/
lemma mem_rows (h : RunTo cfg (Followed fun _ => True) as s) {rows : List RestingRow}
    (hrows : s.copy restingTable = some rows) {id : String} :
    id ∈ rows.map RestingRow.exchangeId ↔
      ∃ sym b, s.engine.books.lookup sym = some b ∧ ∃ n ∈ b.nodes, n.order.exchangeId = id := by
  have hsync := synced_of_run (fun _ _ h => forwardsPositive_of_replacesPositive h.positive) h
  have htab := following_of_run (F := restingTable) h rows hrows
  rw [← (sound_of_run h).founded.resting_iff]
  refine Tabulates.mem_iff htab fun id hid => ?_
  obtain ⟨o, ho⟩ := Option.ne_none_iff_exists'.mp hid
  obtain ⟨a, ha, -⟩ := hsync.agrees id o ho
  exact ne_of_eq_of_ne ha (by simp)

end System

/-- **The queues after an item**, when those before have the order of a list of ids. -/
theorem OrderBook.queue_processIn {b : OrderBook} (h : b.Wf) (hk : b.Keyed) {item : WorkItem}
    {keys : List String} (hnodup : keys.Nodup) (hmem : ∀ n ∈ b.nodes, n.order.exchangeId ∈ keys)
    (hqueues : ∀ side p, (b.queue side p).Sublist keys)
    (hkeeps : ∀ req, item = .replace req → b.KeepsPlace keys req) (side : Char) (p : Price) :
    ((processIn b item).1.queue side p).Sublist keys ∨
      ∃ o, item = .order o ∧ ((processIn b item).1.queue side p).Sublist (keys ++ [o.exchangeId]) := by
  cases item with
  | order o =>
    refine Or.inr ⟨o, rfl, ?_⟩
    rcases processOrder_book b o with hb | hb
    · rw [processIn, hb]
      exact (hqueues side p).trans (List.sublist_append_left _ _)
    · obtain ⟨q, hq, hsame | ⟨-, -, hconcat⟩⟩ := queue_add h o side p
      · rw [processIn, hb, hsame]
        exact (hq.trans (hqueues side p)).trans (List.sublist_append_left _ _)
      · rw [processIn, hb, hconcat]
        exact (hq.trans (hqueues side p)).append (List.Sublist.refl _)
  | cancel req => exact Or.inl ((queue_cancel h req.origOrderId side p).trans (hqueues side p))
  | replace req =>
    refine Or.inl ?_
    rcases queue_replace h hk req.origOrderId req.newPrice req.newQty side p with
      hsub | ⟨n, hn, hid, hne, hside, hprice, q, hq, hnot, hconcat⟩
    · exact hsub.trans (hqueues side p)
    · -- the order goes to the end of the queue
      rw [processIn, processReplace]
      dsimp only
      rw [hconcat]
      refine Sublists.concat_of_idxOf_lt hnodup (hq.trans (hqueues side p)) (hid ▸ hmem n hn) ?_
      intro id hid'
      obtain ⟨m, hm, hmside, hmprice, rfl⟩ := (mem_queue h).mp (hq.subset hid')
      have hmid : m.order.exchangeId ≠ req.origOrderId := fun heq => hnot (heq ▸ hid')
      exact hkeeps req rfl n hn hid hne m hm hmid (hmside.trans hside.symm)
        (hmprice.trans hprice.symm)

namespace System

variable {s s' : System} {a : Action} {as : List Action} {cfg : Config}

/-- Taking an item keeps the order of the rows. -/
lemma InOrder.take (h : s.InOrder) (hrun : RunTo cfg (Followed fun _ => True) as s)
    (hok : s.Ordered .engine) {item : WorkItem} {queue : List WorkItem} {b : OrderBook}
    (ht : s.tasks = []) (hq : s.queue = item :: queue)
    (hb : s.engine.books.lookup item.symbol = some b) (hstep : s.step .engine = some s')
    (hs' : s' = { s with
      engine := { s.engine with books := s.engine.books.insert item.symbol (processIn b item).1 }
      queue := queue
      tasks := (processIn b item).2.flatMap Callback.tasks }) : s'.InOrder := by
  have hs := sound_of_run hrun
  have hsync := synced_of_run (fun _ _ h => forwardsPositive_of_replacesPositive h.positive) hrun
  have hrun' := hrun.snoc hok.followed hstep
  have hitem : item ∈ s.queue := by rw [hq]; exact List.mem_cons_self
  have hprocessed := hsync.processed hs.founded hitem hb
  intro rows' hrows' sym b' hb' side p
  -- the rows before, and what the notices make of them
  have hcopy : s'.copy restingTable = (s.copy restingTable).map fun rows =>
      (noticesOf ((processIn b item).2.flatMap Callback.tasks) s.gateway.active).foldl
        Notice.tabulate rows := by
    rw [← restingTable_apply, copy, copy, hs', ht, noticesOf_nil, List.foldl_nil]
  obtain ⟨rows, hrows, rfl⟩ := Option.map_eq_some_iff.mp (hcopy.symm.trans hrows')
  have hnodup : (rows.map RestingRow.exchangeId).Nodup :=
    (following_of_run (F := restingTable) hrun rows hrows).single
  -- what is queued has a row afterwards
  have hmem : ∀ id ∈ b'.queue side p, id ∈ ((noticesOf ((processIn b item).2.flatMap
      Callback.tasks) s.gateway.active).foldl Notice.tabulate rows).map RestingRow.exchangeId := by
    intro id hid
    obtain ⟨n, hn, -, -, hnid⟩ :=
      (OrderBook.mem_queue ((sound_of_run hrun').books.wf sym b' hb')).mp hid
    exact (mem_rows hrun' hrows').mpr ⟨sym, b', hb', n, hn, hnid⟩
  have hkeeps : ∀ req, item = .replace req →
      b.KeepsPlace (rows.map RestingRow.exchangeId) req := by
    rintro req rfl
    rw [copy, ht, noticesOf_nil, List.foldl_nil] at hrows
    obtain ⟨p, hp, rfl⟩ := Option.map_eq_some_iff.mp hrows
    exact hok.keeps ht (.replace req) (by rw [hq]; rfl) b hb p hp
  have hqueue : (b'.queue side p).Sublist (rows.map RestingRow.exchangeId) ∨ ∃ o, item = .order o ∧
      (b'.queue side p).Sublist (rows.map RestingRow.exchangeId ++ [o.exchangeId]) := by
    rw [hs'] at hb'
    rcases lookup_processed hb' with ⟨rfl, rfl⟩ | ⟨-, hb'⟩
    · refine OrderBook.queue_processIn (hs.books.wf _ b hb) (hs.books.keyed _ b hb) hnodup
        (fun n hn => ?_) (h rows hrows _ b hb) hkeeps side p
      exact (mem_rows hrun hrows).mpr ⟨_, b, hb, n, hn, rfl⟩
    · exact Or.inl (h rows hrows sym b' hb' side p)
  by_cases hnew : ∃ o, item = .order o
  · obtain ⟨o, rfl⟩ := hnew
    have hfresh : o.exchangeId ∉ rows.map RestingRow.exchangeId := by
      intro hid
      obtain ⟨sym, b₀, hb₀, n, hn, hnid⟩ := (mem_rows hrun hrows).mp hid
      exact hs.queue.fresh o hitem sym b₀ hb₀ n hn hnid
    have hnodup' : (rows.map RestingRow.exchangeId ++ [o.exchangeId]).Nodup := by
      rw [← List.concat_eq_append]
      exact hnodup.concat hfresh
    refine Sublists.sublist_of_mem hnodup' ?_ (keys_tabulates_concat (fun o' k hrested => ?_)
      (List.sublist_append_left _ _)) hmem
    · rcases hqueue with hsub | ⟨o', heq, hsub⟩
      · exact hsub.trans (List.sublist_append_left _ _)
      · rw [WorkItem.order.inj heq]
        exact hsub
    · rw [WorkItem.order.inj (hprocessed.eq_of_rested hrested)]
  · refine Sublists.sublist_of_mem hnodup ?_ (keys_tabulates (fun o k hrested => ?_) rows) hmem
    · rcases hqueue with hsub | ⟨o, rfl, -⟩
      · exact hsub
      · exact absurd ⟨o, rfl⟩ hnew
    · exact hnew ⟨o, hprocessed.eq_of_rested hrested⟩

/-- **One step keeps the order of the rows.** -/
theorem InOrder.step (h : s.InOrder) (hrun : RunTo cfg (Followed fun _ => True) as s)
    (hok : s.Ordered a) (hstep : s.step a = some s') : s'.InOrder := by
  by_cases ha : s.TakesNothing a
  · obtain ⟨hcopy, -⟩ := kept_step (F := restingTable) (sound_of_run hrun) ha hstep
    intro rows hrows sym b hb side p
    rcases books_kept ha hstep hb with hb | rfl
    · exact h rows (hcopy.symm.trans hrows) sym b hb side p
    · rw [OrderBook.queue_init]
      exact List.nil_sublist _
  · obtain ⟨rfl, ht⟩ := Classical.not_imp.mp ha
    rcases engineStep_cases hstep with ⟨t, ts, ht', -⟩ | ⟨ht, item, queue, b, hq, hb, hs'⟩
    · exact absurd ht' (by rw [not_not.mp ht]; simp)
    · exact h.take hrun hok ht hq hb hstep hs'

/-- **The queues have the order of the rows** in every run in which no replace takes an order
behind one of a later row. -/
theorem in_order_of_run (h : RunTo cfg Ordered as s) : s.InOrder := by
  refine h.invariant (I := InOrder) ?_ fun as t a u hrun ih hok hstep =>
    ih.step (hrun.mono fun _ _ h => h.followed) hok hstep
  intro rows hrows sym b hb side p
  rw [start, lookup_init_books] at hb
  split_ifs at hb
  rw [← Option.some.inj hb, OrderBook.queue_init]
  exact List.nil_sublist _

/-! ## The symbols after a recovery -/

/-- A name that the exchange registers as a symbol. -/
def IsSymbol (symbol : String) : Prop :=
  ¬(symbol.isEmpty || symbol.utf8ByteSize > 8) ∧ symbol.toList.all Char.isAlphanum

/-- Applying an event removes no symbol. -/
lemma symbols_applyEvent {db : Database} {evt : PersistenceEvent} {symbol : String}
    (h : symbol ∈ db.symbols ∨ evt = .symbol symbol) : symbol ∈ (db.applyEvent evt).symbols := by
  cases evt with
  | symbol symbol' =>
    rw [Database.applyEvent]
    split_ifs with hmem
    · rcases h with h | heq
      · exact h
      · rw [← PersistenceEvent.symbol.inj heq]
        exact hmem
    · rcases h with h | heq
      · exact List.mem_append_left _ h
      · rw [PersistenceEvent.symbol.inj heq]
        exact List.mem_append_right _ List.mem_cons_self
  | rested o leavesQty => exact h.resolve_right (by simp)
  | takerFill f => exact h.resolve_right (by simp)
  | cancel id o => exact h.resolve_right (by simp)
  | fill f =>
    simp only [Database.applyEvent, Database.insertEvent]
    split_ifs <;> exact h.resolve_right (by simp)
  | replace req leavesQty =>
    simp only [Database.applyEvent, Database.insertEvent]
    split_ifs <;> exact h.resolve_right (by simp)

lemma symbols_applyEvents {evts : List PersistenceEvent} {db : Database} {symbol : String}
    (h : symbol ∈ db.symbols ∨ .symbol symbol ∈ evts) :
    symbol ∈ (evts.foldl Database.applyEvent db).symbols := by
  induction evts generalizing db with
  | nil => exact h.resolve_right List.not_mem_nil
  | cons evt evts ih =>
    refine ih ?_
    rcases h with h | h
    · exact Or.inl (symbols_applyEvent (Or.inl h))
    · rcases List.mem_cons.mp h with heq | h
      · exact Or.inl (symbols_applyEvent (Or.inr heq.symm))
      · exact Or.inr h

/-- The exchange registers nothing else. -/
lemma isSymbol_of_registerSymbol {e e' : MatchingEngine} {symbol : String}
    (h : e.registerSymbol symbol = some e') : IsSymbol symbol := by
  simp only [MatchingEngine.registerSymbol] at h
  split_ifs at h with h1 h2
  · exact ⟨h1, by simpa using h2⟩
  · exact ⟨h1, by simpa using h2⟩

/-- A new book belongs to a symbol that is registered. -/
lemma new_book_of_step (hstep : s.step a = some s') {sym : String} (h : sym ∈ s'.engine.books) :
    sym ∈ s.engine.books ∨ a = .registerSymbol sym ∧ IsSymbol sym := by
  cases a with
  | message msg session =>
    obtain ⟨-, rfl⟩ := step_message hstep
    exact Or.inl h
  | logon session =>
    obtain ⟨-, rfl⟩ := step_logon hstep
    exact Or.inl h
  | handle =>
    rcases handle_cases hstep with ⟨o, session, -, rfl⟩ | ⟨o, session, -, rfl⟩ | ⟨item, -, rfl⟩ <;>
      exact Or.inl h
  | engine =>
    rcases engineStep_cases hstep with ⟨t, ts, -, rfl⟩ | ⟨-, item, queue, b, -, hb, rfl⟩
    · exact Or.inl h
    · rcases (AList.mem_insert _).mp h with rfl | h
      · exact Or.inl (AList.lookup_isSome.mp (by rw [hb]; rfl))
      · exact Or.inl h
  | persist =>
    obtain ⟨p, p', -, -, rfl⟩ := step_persist hstep
    exact Or.inl h
  | registerSymbol symbol =>
    obtain ⟨e, he, rfl⟩ := step_registerSymbol hstep
    obtain ⟨hlookup, -, -⟩ := MatchingEngine.registerSymbol_books he
    rcases hlookup sym with hsame | ⟨rfl, -, -⟩
    · refine Or.inl (AList.lookup_isSome.mp ?_)
      rw [← hsame]
      exact AList.lookup_isSome.mpr h
    · exact Or.inr ⟨rfl, isSymbol_of_registerSymbol he⟩

/-- Every book belongs to a symbol of the configuration, or to one that the database will
have. -/
lemma listed_of_run {ok : System → Action → Prop} (h : RunTo cfg ok as s) :
    ∀ sym ∈ s.engine.books, sym ∈ cfg.symbols ∨
      IsSymbol sym ∧ ∀ p ∈ s.gateway.persistence, sym ∈ p.flushed.symbols := by
  refine h.invariant (I := fun s => ∀ sym ∈ s.engine.books, sym ∈ cfg.symbols ∨
    IsSymbol sym ∧ ∀ p ∈ s.gateway.persistence, sym ∈ p.flushed.symbols) ?_ ?_
  · intro sym hsym
    refine Or.inl ?_
    have hlookup := AList.lookup_isSome.mpr hsym
    rw [start, lookup_init_books] at hlookup
    by_contra hnot
    rw [if_neg hnot] at hlookup
    exact absurd hlookup (by simp)
  · intro as t a u _ ih _ hstep sym hsym
    -- the events that have been pushed stay
    have hflushed : ∀ p' ∈ u.gateway.persistence, ∃ p ∈ t.gateway.persistence,
        p'.flushed = (t.pushes a).foldl Database.applyEvent p.flushed := by
      intro p' hp'
      rcases persistence_step hstep with hpush | ⟨p, p₁, hp, happly, hp₁, hnil⟩
      · rw [hpush] at hp'
        obtain ⟨p, hp, rfl⟩ := Option.map_eq_some_iff.mp hp'
        exact ⟨p, hp, by rw [PersistenceLayer.flushed, List.foldl_append]; rfl⟩
      · obtain rfl := Option.some.inj (hp₁.symm.trans hp')
        exact ⟨p, hp, by rw [hnil, List.foldl_nil, PersistenceLayer.flushed_applyNext happly]⟩
    rcases new_book_of_step hstep hsym with hsym | ⟨rfl, hname⟩
    · rcases ih sym hsym with hcfg | ⟨hname, hlist⟩
      · exact Or.inl hcfg
      · refine Or.inr ⟨hname, fun p' hp' => ?_⟩
        obtain ⟨p, hp, heq⟩ := hflushed p' hp'
        rw [heq]
        exact symbols_applyEvents (Or.inl (hlist p hp))
    · refine Or.inr ⟨hname, fun p' hp' => ?_⟩
      obtain ⟨p, hp, heq⟩ := hflushed p' hp'
      rw [heq]
      exact symbols_applyEvents (Or.inr List.mem_cons_self)

/-- The symbols that are registered again. -/
lemma mem_registerSymbols {e : MatchingEngine} {symbols : List String} {sym : String}
    (h : sym ∈ e.validSymbols ∨ IsSymbol sym ∧ sym ∈ symbols) :
    sym ∈ (e.registerSymbols symbols).validSymbols := by
  induction symbols generalizing e with
  | nil => exact h.resolve_right fun h => List.not_mem_nil h.2
  | cons symbol symbols ih =>
    have hkeep : sym ∈ e.validSymbols →
        sym ∈ ((e.registerSymbol symbol).getD e).validSymbols := by
      intro hmem
      cases he : e.registerSymbol symbol with
      | none => exact hmem
      | some e' =>
        obtain ⟨-, hvalid, -⟩ := MatchingEngine.registerSymbol_books he
        rw [Option.getD_some, hvalid]
        exact Finset.mem_insert_of_mem hmem
    refine ih ?_
    rcases h with h | ⟨hname, h⟩
    · exact Or.inl (hkeep h)
    · rcases List.mem_cons.mp h with rfl | h
      · by_cases hmem : sym ∈ e.validSymbols
        · exact Or.inl (hkeep hmem)
        · obtain ⟨e', he⟩ : ∃ e', e.registerSymbol sym = some e' := by
            simp only [MatchingEngine.registerSymbol]
            rw [if_neg hname.1, if_neg (by simp [hname.2]), if_neg hmem]
            exact ⟨_, rfl⟩
          obtain ⟨-, hvalid, -⟩ := MatchingEngine.registerSymbol_books he
          refine Or.inl ?_
          show sym ∈ ((e.registerSymbol sym).getD e).validSymbols
          rw [he, Option.getD_some, hvalid]
          exact Finset.mem_insert_self _ _
      · exact Or.inr ⟨hname, h⟩

/-- **Every book is there again** after a recovery from the flushed database. -/
theorem book_of_recover {ok : System → Action → Prop} (h : RunTo cfg ok as s)
    {p : PersistenceLayer} (hp : s.gateway.persistence = some p) (hq : p.queue = []) {sym : String}
    (hsym : sym ∈ s.engine.books) :
    ∃ b, (recover cfg p.db).engine.books.lookup sym = some b := by
  have hflushed : p.flushed = p.db := by rw [PersistenceLayer.flushed, hq, List.foldl_nil]
  have hvalid : sym ∈
      ((MatchingEngine.init cfg.symbols).registerSymbols p.db.symbols).validSymbols := by
    refine mem_registerSymbols ?_
    rcases listed_of_run h sym hsym with hcfg | ⟨hname, hlist⟩
    · exact Or.inl (List.mem_toFinset.mpr hcfg)
    · rw [← hflushed]
      exact Or.inr ⟨hname, hlist p hp⟩
  have hbook := (blank_registered cfg p.db.symbols).symbols sym hvalid
  obtain ⟨-, hbooks⟩ := restoreOrders_symbols
    ((MatchingEngine.init cfg.symbols).registerSymbols p.db.symbols)
    (PersistenceLayer.load p.db).loadRestingOrders
  exact Option.isSome_iff_exists.mp (AList.lookup_isSome.mpr ((hbooks sym).mpr hbook))

/-! ## The queues after a recovery -/

/-- The queues of a recovered book are the rows of its symbol, side and price. -/
lemma queue_recover {db : Database} {sym : String} {b : OrderBook}
    (hb : (recover cfg db).engine.books.lookup sym = some b) (side : Char) (p : Price) :
    (b.queue side p).Sublist (db.restingOrders.map RestingRow.exchangeId) ∧
      ∀ id, id ∈ b.queue side p ↔ ∃ row ∈ db.restingOrders, row.symbol = sym ∧
        (row.side = '1' ↔ side = '1') ∧ row.price = p ∧ row.exchangeId = id := by
  rw [book_recover hb, OrderBook.queue_restore, OrderBook.queue_init, List.nil_append]
  refine ⟨?_, fun id => ?_⟩
  · have hsub := (List.filter_sublist (p := fun o : Order =>
        decide ((o.side = '1' ↔ side = '1') ∧ o.price = p)) (l := restoredOrders db sym)).trans
      List.filter_sublist
    have hkeys : (PersistenceLayer.load db).loadRestingOrders.map Order.exchangeId
        = db.restingOrders.map RestingRow.exchangeId := by
      rw [PersistenceLayer.loadRestingOrders, List.map_map]
      rfl
    rw [← hkeys]
    exact hsub.map _
  · simp only [restoredOrders, PersistenceLayer.loadRestingOrders, List.mem_map, List.mem_filter,
      decide_eq_true_eq]
    constructor
    · rintro ⟨o, ⟨⟨⟨row, hrow, rfl⟩, hsym⟩, hside, hprice⟩, rfl⟩
      exact ⟨row, hrow, hsym, hside, hprice, rfl⟩
    · rintro ⟨row, hrow, hsym, hside, hprice, rfl⟩
      exact ⟨_, ⟨⟨⟨row, hrow, rfl⟩, hsym⟩, hside, hprice⟩, rfl⟩

/-- The database of a run that is flushed is sound. -/
lemma TableHolds.sound {db : Database} (h : s.TableHolds db) (hs : s.Sound) : db.Sound := by
  refine ⟨h.single, fun row hrow => ?_⟩
  obtain ⟨sym, b, hb, n, hn, hid, -⟩ := h.row hrow
  obtain ⟨k, -, hk⟩ := (hs.books.orders sym b hb n hn).2.1
  exact ⟨k, hid.trans hk⟩

/-- An order and its copy after a recovery trade alike. -/
lemma TableHolds.alike {db : Database} (h : s.TableHolds db) (hs : s.Sound) {sym : String}
    {b b' : OrderBook} (hb : s.engine.books.lookup sym = some b)
    (hb' : (recover cfg db).engine.books.lookup sym = some b') :
    ∀ n ∈ b.nodes, ∀ n' ∈ b'.nodes, n.order.exchangeId = n'.order.exchangeId →
      n.order.Alike n'.order := by
  intro n hn n' hn' hid
  obtain ⟨row', hrow', -, heq⟩ := (mem_books_recover hb').mp ⟨n', hn', rfl⟩
  obtain ⟨row, hrow, hrid, -, hside, hprice, hleaves, -⟩ := h.fields sym b hb n hn
  rw [← heq] at hid ⊢
  obtain rfl := List.inj_on_of_nodup_map h.single hrow hrow' (hrid.trans hid)
  refine ⟨hid, hside.symm, (hs.books.wf sym b hb).limit n hn, hprice.symm, hleaves.symm, ?_⟩
  exact iff_of_false (hs.books.patient sym b hb n hn) (by simp [PersistenceLayer.restoredOrder])

/-- **A recovery keeps the time priority** in every run in which no replace takes an order behind
one of a later row: the recovered books have the same queues, and the same requests have the
same results and make the same trades. -/
theorem recovery_keeps_priority (h : RunTo cfg Ordered as s) (ht : s.tasks = [])
    {p : PersistenceLayer} (hp : s.gateway.persistence = some p) (hq : p.queue = []) {sym : String}
    {b : OrderBook} (hb : s.engine.books.lookup sym = some b) :
    ∃ b', (recover cfg p.db).engine.books.lookup sym = some b' ∧
      (∀ side price, b'.queue side price = b.queue side price) ∧
      ∀ ops, b.AdmissibleRun ops → List.Forall₂ OrderBook.AlikeOutput (b.run ops).2 (b'.run ops).2 := by
  have hrun := h.mono fun _ _ h => h.followed
  have hs := sound_of_run hrun
  have htable := resting_table_holds hrun ht hp hq
  have hsync := synced_of_run (fun _ _ h => forwardsPositive_of_replacesPositive h.positive) hrun
  obtain ⟨b', hb'⟩ := book_of_recover hrun hp hq (AList.lookup_isSome.mp (by rw [hb]; rfl))
  have hf := founded_recover cfg (htable.sound hs)
  have hwf := hs.books.wf sym b hb
  have hwf' := hf.books.wf sym b' hb'
  -- the rows are in the order of the queues
  have hrows : s.copy restingTable = some p.db.restingOrders := by
    rw [copy, ht, noticesOf_nil, List.foldl_nil, hp]
    simp only [restingTable, Option.map_some, PersistenceLayer.flushed, hq, List.foldl_nil]
  have hqueues : ∀ side price, b'.queue side price = b.queue side price := by
    intro side price
    obtain ⟨hsub, hmem⟩ := queue_recover hb' side price
    refine Sublists.eq_of_mem_iff htable.single hsub
      (in_order_of_run h _ hrows sym b hb side price) fun id => ?_
    rw [hmem, OrderBook.mem_queue hwf]
    constructor
    · rintro ⟨row, hrow, hsym, hside, hprice, rfl⟩
      obtain ⟨sym', b₀, hb₀, n, hn, hid, hnsym, hnside, hnprice, -⟩ := htable.row hrow
      obtain rfl : sym' = sym := by
        rw [← (hs.books.orders sym' b₀ hb₀ n hn).1, ← hnsym, hsym]
      obtain rfl := Option.some.inj (hb₀.symm.trans hb)
      exact ⟨n, hn, by rw [← hnside]; exact hside, hnprice.symm.trans hprice, hid.symm⟩
    · rintro ⟨n, hn, hside, hprice, rfl⟩
      obtain ⟨row, hrow, hid, hsymbol, hrside, hrprice, -⟩ := htable.fields sym b hb n hn
      exact ⟨row, hrow, hsymbol.trans (hs.books.orders sym b hb n hn).1,
        by rw [hrside]; exact hside, hrprice.trans hprice, hid⟩
  refine ⟨b', hb', hqueues, fun ops hops => OrderBook.run_alike ?_ ?_ ?_ hops⟩
  · exact ⟨hwf, hs.books.keyed sym b hb, hsync.positive sym b hb⟩
  · refine ⟨hwf', hf.books.keyed sym b' hb', fun n hn => ?_⟩
    obtain ⟨row, hrow, -, heq⟩ := (mem_books_recover hb').mp ⟨n, hn, rfl⟩
    obtain ⟨sym₀, b₀, hb₀, m, hm, -, -, -, -, hleaves⟩ := htable.row hrow
    rw [← heq]
    refine ⟨?_, le_refl _⟩
    show 0 < row.leavesQty
    rw [hleaves]
    exact (hsync.positive sym₀ b₀ hb₀ m hm).1
  · exact OrderBook.alike_of_queues hwf hwf' (fun side price => (hqueues side price).symm)
      (htable.alike hs hb hb')

/-- Two buy orders at one price; the second one is raised, and the first one is shrunk. -/
def keptRun : List Action :=
  Sample.submit (Sample.limit "a" '1' 5 10) Sample.alice ++ Sample.engine 2
    ++ Sample.submit (Sample.limit "b" '1' 3 10) Sample.bob ++ Sample.engine 2
    ++ Sample.forward (Sample.replace "c" "b" '1' 7 10) Sample.bob ++ Sample.engine 2
    ++ Sample.forward (Sample.replace "d" "a" '1' 2 10) Sample.alice ++ Sample.engine 2
    ++ List.replicate 4 .persist

theorem recovery_keeps_priority_sample :
    ∃ s p b, RunTo Sample.config Ordered keptRun s ∧ s.tasks = [] ∧
      s.gateway.persistence = some p ∧ p.queue = [] ∧ s.engine.books.lookup "X" = some b ∧
      b.queue '1' 10 = ["EXCH-1", "EXCH-2"] ∧
      ∃ b', (recover Sample.config p.db).engine.books.lookup "X" = some b' ∧
        (∀ side price, b'.queue side price = b.queue side price) ∧
        ∀ ops, b.AdmissibleRun ops →
          List.Forall₂ OrderBook.AlikeOutput (b.run ops).2 (b'.run ops).2 := by
  have hreach : ∃ s, RunTo Sample.config Ordered keptRun s ∧ (s.tasks = [] ∧
      s.gateway.persistence.map PersistenceLayer.queue = some [] ∧
      (s.engine.books.lookup "X").map (fun b => b.queue '1' 10) = some ["EXCH-1", "EXCH-2"]) :=
    Transition.exists_reaches (by decide +kernel) (by decide +kernel)
  obtain ⟨s, hrun, ht, hp, hb⟩ := hreach
  obtain ⟨p, hp, hq⟩ := Option.map_eq_some_iff.mp hp
  obtain ⟨b, hb, hqueue⟩ := Option.map_eq_some_iff.mp hb
  exact ⟨s, p, b, hrun, ht, hp, hq, hb, hqueue, recovery_keeps_priority hrun ht hp hq hb⟩

/-- Two buy orders at one price, of which the first one is raised. -/
def raisedRun : List Action :=
  Sample.submit (Sample.limit "a" '1' 5 10) Sample.alice ++ Sample.engine 2
    ++ Sample.submit (Sample.limit "b" '1' 3 10) Sample.bob ++ Sample.engine 2
    ++ Sample.forward (Sample.replace "c" "a" '1' 7 10) Sample.alice ++ Sample.engine 2
    ++ List.replicate 3 .persist

/-- A raised order gets its old priority back by a recovery. -/
theorem recovery_changes_priority :
    ∃ s p b b', RunTo Sample.config (Followed fun _ => True) raisedRun s ∧ s.Drained ∧
      s.gateway.persistence = some p ∧ p.queue = [] ∧ s.engine.books.lookup "X" = some b ∧
      (recover Sample.config p.db).engine.books.lookup "X" = some b' ∧
      b.queue '1' 10 = ["EXCH-2", "EXCH-1"] ∧ b'.queue '1' 10 = ["EXCH-1", "EXCH-2"] := by
  have hreach : ∃ s, RunTo Sample.config (Followed fun _ => True) raisedRun s ∧ (s.Drained ∧
      ∃ p ∈ s.gateway.persistence, p.queue = [] ∧
        (s.engine.books.lookup "X").map (fun b => b.queue '1' 10) = some ["EXCH-2", "EXCH-1"] ∧
        ((recover Sample.config p.db).engine.books.lookup "X").map (fun b => b.queue '1' 10)
          = some ["EXCH-1", "EXCH-2"]) :=
    Transition.exists_reaches (by decide +kernel) (by decide +kernel)
  obtain ⟨s, hrun, hd, p, hp, hq, hb, hb'⟩ := hreach
  obtain ⟨b, hb, hqueue⟩ := Option.map_eq_some_iff.mp hb
  obtain ⟨b', hb', hqueue'⟩ := Option.map_eq_some_iff.mp hb'
  exact ⟨s, p, b, b', hrun, hd, hp, hq, hb, hb', hqueue, hqueue'⟩

end System

end FixExchange
