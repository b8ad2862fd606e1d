/-
# Processing a work item

What an item does to the book of its symbol, on any book that is well formed: the orders it
leaves are the orders of the book, less what they traded, and at most one order with the id
of the item (`mem_processIn`); the orders that it does not name stay, less what they trade
(`kept_processIn`); and the calls that are made are about orders of the book and about the
item (`task_ids_processIn`).
-/
import FixExchange.Engine.TimeInForce
import FixExchange.Gateway.TaskEffects

namespace FixExchange

/-- The exchange id of the order that an item submits, cancels or replaces. -/
def WorkItem.id : WorkItem → String
  | .order o => o.exchangeId
  | .cancel req => req.origOrderId
  | .replace req => req.origOrderId

/-- Two versions of one order: what an order keeps through all changes. -/
structure Order.SameOrigin (o' o : Order) : Prop where
  exchangeId : o'.exchangeId = o.exchangeId
  clientId : o'.clientId = o.clientId
  symbol : o'.symbol = o.symbol
  side : o'.side = o.side
  type : o'.type = o.type

lemma Order.SameOrigin.refl (o : Order) : o.SameOrigin o := ⟨rfl, rfl, rfl, rfl, rfl⟩

lemma Order.SameOrigin.symm {o o' : Order} (h : o'.SameOrigin o) : o.SameOrigin o' :=
  ⟨h.exchangeId.symm, h.clientId.symm, h.symbol.symm, h.side.symm, h.type.symm⟩

lemma Order.SameOrigin.trans {o o' o'' : Order} (h : o''.SameOrigin o') (h' : o'.SameOrigin o) :
    o''.SameOrigin o :=
  ⟨h.exchangeId.trans h'.exchangeId, h.clientId.trans h'.clientId, h.symbol.trans h'.symbol,
    h.side.trans h'.side, h.type.trans h'.type⟩

lemma Order.sameOrigin_withLeaves (o : Order) (x : ℤ) : (o.withLeaves x).SameOrigin o :=
  ⟨rfl, rfl, rfl, rfl, rfl⟩

lemma Order.LeftOf.sameOrigin {o o' : Order} (h : o'.LeftOf o) : o'.SameOrigin o := by
  rw [h.eq_withLeaves]
  exact o.sameOrigin_withLeaves _

/-- A resting order stays as it is, or it is traded at its price, and what is left of it
stays. -/
lemma mem_matchList_kept {o m : Order} {l : List Order} (hm : m ∈ l) :
    m ∈ (matchList o l).rest ∨ ∃ t ∈ (matchList o l).trades, t.price = m.price ∧
      t.maker = m.withLeaves t.maker.leavesQty ∧
      (t.maker.leavesQty ≠ 0 → t.maker ∈ (matchList o l).rest) := by
  refine matchList_induction (P := fun _ l d => ∀ m ∈ l, m ∈ d.rest ∨ ∃ t ∈ d.trades,
      t.price = m.price ∧ t.maker = m.withLeaves t.maker.leavesQty ∧
      (t.maker.leavesQty ≠ 0 → t.maker ∈ d.rest)) ?_ ?_ ?_ ?_ o l m hm
  · simp
  · exact fun o m l _ m' hm' => Or.inl hm'
  · intro o m l _ _ _ m' hm'
    rcases List.mem_cons.mp hm' with rfl | hm'
    · exact Or.inr ⟨Trade.of o m', List.mem_cons_self, rfl, rfl, fun _ => List.mem_cons_self⟩
    · exact Or.inl (List.mem_cons_of_mem _ hm')
  · intro o m l d _ _ h0 _ ih m' hm'
    rcases List.mem_cons.mp hm' with rfl | hm'
    · exact Or.inr ⟨Trade.of o m', List.mem_cons_self, rfl, rfl, fun hne => absurd h0 hne⟩
    · refine (ih m' hm').imp_right ?_
      rintro ⟨t, ht, htrade⟩
      exact ⟨t, List.mem_cons_of_mem _ ht, htrade⟩

namespace OrderBook

variable {b : OrderBook} {o : Order}

/-! ## The orders that an operation leaves -/

/-- The orders in the book after an order has been added: what is left of the resting orders,
and what is left of the order itself. -/
lemma mem_add (h : b.Wf) {n : Node} (hn : n ∈ (b.add o).book.nodes) :
    (∃ m ∈ b.nodes, n.order.LeftOf m.order) ∨
      (n.order = o.withLeaves (b.add o).value ∧ (b.add o).value > 0 ∧ o.type = '2' ∧
        o.tif ≠ '3') := by
  by_cases hrest : (b.add o).value > 0 ∧ o.type = '2' ∧ o.tif ≠ '3'
  · have htaker := (tryMatch_toFlat h (o.withLeaves o.qty)).2.1
    rw [matchIn_taker] at htaker
    have hbook := add_book_of_rests h hrest.1 hrest.2.1 hrest.2.2
    rw [hbook] at hn
    rcases List.mem_cons.mp ((pushOrder_nodes_perm (h.tryMatch _) _).mem_iff.mp hn) with rfl | hn
    · exact Or.inr ⟨rfl, hrest⟩
    · exact Or.inl (tryMatch_ids h _ hn)
  · exact Or.inl (add_nodes_of_not_rests h hrest hn)

/-- The orders in the book after a replace. -/
lemma mem_replace (h : b.Wf) {id : String} {p : Price} {q : ℤ} {n : Node}
    (hn : n ∈ (b.replace id p q).book.nodes) :
    (∃ m ∈ b.nodes, n.order.LeftOf m.order) ∨
      ∃ m ∈ b.nodes, m.order.exchangeId = id ∧
        n.order = { m.order with price := p, qty := q, leavesQty := n.order.leavesQty } := by
  rcases h.replace_eq id p q with ⟨-, hr⟩ | ⟨m, hm, rfl, ⟨hp, -, hr⟩ | ⟨-, hr⟩⟩
  · rw [hr] at hn
    exact Or.inl ⟨n, hn, Or.inl rfl⟩
  · rw [hr] at hn
    dsimp only at hn
    rw [modify_nodes] at hn
    obtain ⟨m', hm', rfl⟩ := List.mem_map.mp hn
    by_cases ha : m'.addr = m.addr
    · obtain rfl := h.eq_of_addr hm' hm ha
      refine Or.inr ⟨m', hm, rfl, ?_⟩
      simp [hp]
    · rw [if_neg ha]
      exact Or.inl ⟨m', hm', Or.inl rfl⟩
  · rw [hr] at hn
    have hunlink : ∀ m' ∈ (b.unlink m.order.exchangeId m.addr m.order.price m.order.side).nodes,
        m' ∈ b.nodes := by
      intro m' hm'
      rw [unlink_nodes h hm] at hm'
      exact List.mem_of_mem_filter hm'
    rcases mem_add (h.unlink hm) hn with ⟨m', hm', hleft⟩ | ⟨ho, -⟩
    · exact Or.inl ⟨m', hunlink m' hm', hleft⟩
    · refine Or.inr ⟨m, hm, rfl, ?_⟩
      rw [ho]
      rfl

/-! ## The orders that an operation keeps -/

/-- The book still has an order as it was, or the fills have traded it at its price and the
book has what they leave of it. -/
def Keeps (b : OrderBook) (fs : List FillPair) (o : Order) : Prop :=
  (∃ n ∈ b.nodes, n.order = o) ∨ ∃ f ∈ fs, f.maker.exchangeId = o.exchangeId ∧
    f.maker.price = o.price ∧
    (f.maker.leavesQty ≠ 0 → ∃ n ∈ b.nodes, n.order = o.withLeaves f.maker.leavesQty)

/-- Matching keeps the resting orders. -/
lemma tryMatch_keeps (h : b.Wf) (o : Order) {m : Node} (hm : m ∈ b.nodes) :
    (b.tryMatch o).book.Keeps (b.tryMatch o).fills m.order := by
  obtain ⟨hbook, -, hfills⟩ := tryMatch_toFlat h o
  -- it is enough to find the order in the flat book
  have hflat : m.order ∈ (b.toFlat.matchIn o).1.orders ∨
      ∃ t ∈ (b.toFlat.matchIn o).2.trades, t.price = m.order.price ∧
        t.maker = m.order.withLeaves t.maker.leavesQty ∧
        (t.maker.leavesQty ≠ 0 → t.maker ∈ (b.toFlat.matchIn o).1.orders) := by
    have hmem := mem_nodes.mp hm
    by_cases hs : o.side = '1'
    · simp only [FlatBook.matchIn, if_pos hs, FlatBook.orders]
      rcases hmem with hm | hm
      · exact Or.inl (List.mem_append_left _ (List.mem_map_of_mem hm))
      · rcases mem_matchList_kept (o := o) (List.mem_map_of_mem (f := Node.order) hm) with
          hkept | ⟨t, ht, hprice, hmaker, hrest⟩
        · exact Or.inl (List.mem_append_right _ hkept)
        · exact Or.inr ⟨t, ht, hprice, hmaker, fun hne => List.mem_append_right _ (hrest hne)⟩
    · simp only [FlatBook.matchIn, if_neg hs, FlatBook.orders]
      rcases hmem with hm | hm
      · rcases mem_matchList_kept (o := o) (List.mem_map_of_mem (f := Node.order) hm) with
          hkept | ⟨t, ht, hprice, hmaker, hrest⟩
        · exact Or.inl (List.mem_append_left _ hkept)
        · exact Or.inr ⟨t, ht, hprice, hmaker, fun hne => List.mem_append_left _ (hrest hne)⟩
      · exact Or.inl (List.mem_append_right _ (List.mem_map_of_mem hm))
  rw [← hbook] at hflat
  rcases hflat with hkept | ⟨t, ht, hprice, hmaker, hrest⟩
  · exact Or.inl (mem_orders_toFlat.mp hkept)
  · obtain ⟨f, hf, hrep⟩ := exists_of_forall₂ (fillsOf_reports b.symbol b.execSeq _).flip ht
    refine Or.inr ⟨f, by rw [hfills]; exact hf, ?_, hrep.makerPrice.trans hprice, fun hne => ?_⟩
    · rw [hrep.makerId, hmaker]; rfl
    · rw [hrep.makerLeaves] at hne ⊢
      rw [← hmaker]
      exact mem_orders_toFlat.mp (hrest hne)

lemma add_keeps (h : b.Wf) (o : Order) {m : Node} (hm : m ∈ b.nodes) :
    (b.add o).book.Keeps (b.add o).fills m.order := by
  have hmem : ∀ n ∈ (b.tryMatch (o.withLeaves o.qty)).book.nodes, n ∈ (b.add o).book.nodes := by
    intro n hn
    simp only [OrderBook.add]
    split_ifs
    · exact (pushOrder_nodes_perm (h.tryMatch _) _).mem_iff.mpr (List.mem_cons_of_mem _ hn)
    · exact hn
  rw [add_fills]
  rcases tryMatch_keeps h (o.withLeaves o.qty) hm with ⟨n, hn, hkept⟩ | ⟨f, hf, hid, hprice, hrest⟩
  · exact Or.inl ⟨n, hmem n hn, hkept⟩
  · refine Or.inr ⟨f, hf, hid, hprice, fun hne => ?_⟩
    obtain ⟨n, hn, hleft⟩ := hrest hne
    exact ⟨n, hmem n hn, hleft⟩

/-! ## Work items -/

/-- What the engine does with an order: it kills it, or adds it and reports its fills, and then
what is left of it. -/
lemma processOrder_cases (b : OrderBook) (o : Order) :
    processOrder b o = (b, [.onTIFCancel (o.withLeaves o.qty)]) ∨
      ∃ last, processOrder b o = ((b.add o).book, fillCallbacks (b.add o).fills ++ last) ∧
        (last = [] ∨
          (last = [.onTIFCancel (o.withLeaves (b.add o).value)] ∧ o.tif = '3' ∧
            (b.add o).value > 0) ∨
          last = [.onOrderRested o (b.add o).value]) := by
  by_cases h4 : o.tif = '4'
  · rw [processOrder_fok h4]
    split_ifs
    · exact Or.inl rfl
    · exact Or.inr ⟨[], by rw [List.append_nil], Or.inl rfl⟩
  · by_cases h3 : o.tif = '3'
    · rw [processOrder_ioc h3]
      refine Or.inr ⟨_, rfl, ?_⟩
      split_ifs with hv
      · exact Or.inr (Or.inl ⟨rfl, h3, hv⟩)
      · exact Or.inl rfl
    · rw [processOrder_rest h4 h3]
      refine Or.inr ⟨_, rfl, ?_⟩
      split_ifs
      · exact Or.inr (Or.inr rfl)
      · exact Or.inl rfl

/-- An order is killed, or added; then its fills are reported first. -/
lemma processOrder_add (b : OrderBook) (o : Order) :
    processOrder b o = (b, [.onTIFCancel (o.withLeaves o.qty)]) ∨
      (processOrder b o).1 = (b.add o).book ∧
        ∃ last, (processOrder b o).2 = fillCallbacks (b.add o).fills ++ last := by
  rcases processOrder_cases b o with hkill | ⟨last, hadd, -⟩
  · exact Or.inl hkill
  · rw [hadd]
    exact Or.inr ⟨rfl, last, rfl⟩

lemma processOrder_book (b : OrderBook) (o : Order) :
    (processOrder b o).1 = b ∨ (processOrder b o).1 = (b.add o).book := by
  rcases processOrder_add b o with hkill | ⟨hbook, -⟩
  · exact Or.inl (congrArg Prod.fst hkill)
  · exact Or.inr hbook

/-- An item can be processed on a book: a new order has an id that does not rest. -/
def Accepts (b : OrderBook) (item : WorkItem) : Prop :=
  ∀ o, item = .order o → b.Fresh o.exchangeId

lemma Wf.processIn (h : b.Wf) (item : WorkItem) : (processIn b item).1.Wf := by
  cases item with
  | order o =>
    rcases processOrder_book b o with hb | hb
    · rw [FixExchange.processIn, hb]; exact h
    · rw [FixExchange.processIn, hb]; exact h.add o
  | cancel req => exact h.cancel _
  | replace req => exact h.replace _ _ _

lemma Keyed.processIn (hk : b.Keyed) (h : b.Wf) {item : WorkItem} (hitem : b.Accepts item) :
    (processIn b item).1.Keyed := by
  cases item with
  | order o =>
    rcases processOrder_book b o with hb | hb
    · rw [FixExchange.processIn, hb]; exact hk
    · rw [FixExchange.processIn, hb]; exact hk.add h (hitem o rfl)
  | cancel req => exact hk.cancel h _
  | replace req => exact hk.replace h _ _ _

lemma pushOrder_symbol (b : OrderBook) (o : Order) : (b.pushOrder o).symbol = b.symbol := by
  by_cases hs : o.side = '1' <;> simp [pushOrder, hs]

lemma unlink_symbol (b : OrderBook) (id : String) (it : ℕ) (p : Price) (c : Char) :
    (b.unlink id it p c).symbol = b.symbol := by
  by_cases hs : c = '1' <;> simp [unlink, hs]

lemma add_symbol (b : OrderBook) (o : Order) : (b.add o).book.symbol = b.symbol := by
  simp only [OrderBook.add]
  split_ifs
  · rw [pushOrder_symbol, (tryMatch_nextAddr b _).2]
  · rw [(tryMatch_nextAddr b _).2]

lemma processIn_symbol (h : b.Wf) (item : WorkItem) :
    (processIn b item).1.symbol = b.symbol := by
  cases item with
  | order o =>
    rcases processOrder_book b o with hb | hb
    · rw [processIn, hb]
    · rw [processIn, hb, add_symbol]
  | cancel req =>
    rw [processIn, processCancel]
    rcases h.cancel_eq req.origOrderId with ⟨-, hc⟩ | ⟨n, -, -, hc⟩
    · rw [hc]
    · rw [hc, unlink_symbol]
  | replace req =>
    rw [processIn, processReplace]
    rcases h.replace_eq req.origOrderId req.newPrice req.newQty with
      ⟨-, hr⟩ | ⟨n, -, -, ⟨-, -, hr⟩ | ⟨-, hr⟩⟩
    · rw [hr]
    · rw [hr]; rfl
    · rw [hr, add_symbol, unlink_symbol]

/-- What an item makes of the order it names. -/
def Names (b : OrderBook) (item : WorkItem) (o' : Order) : Prop :=
  (∃ o, item = .order o ∧ o' = o.withLeaves o'.leavesQty ∧ 0 < o'.leavesQty ∧ o.type = '2' ∧
      o.tif ≠ '3') ∨
    ∃ req, item = .replace req ∧ ∃ m ∈ b.nodes, m.order.exchangeId = req.origOrderId ∧
      o' = { m.order with price := req.newPrice, qty := req.newQty, leavesQty := o'.leavesQty }

/-- **The orders after an item**: what is left of the orders of the book, and the order that
the item names. -/
lemma mem_processIn (h : b.Wf) {item : WorkItem} {n : Node}
    (hn : n ∈ (processIn b item).1.nodes) :
    (∃ m ∈ b.nodes, n.order.LeftOf m.order) ∨ b.Names item n.order := by
  cases item with
  | order o =>
    rcases processOrder_book b o with hb | hb
    · rw [processIn, hb] at hn
      exact Or.inl ⟨n, hn, Or.inl rfl⟩
    · rw [processIn, hb] at hn
      rcases mem_add h hn with hleft | ⟨ho, hv, ht, htif⟩
      · exact Or.inl hleft
      · refine Or.inr (Or.inl ⟨o, rfl, ?_, ?_, ht, htif⟩)
        · rw [ho]; rfl
        · rw [ho]; exact hv
  | cancel req =>
    rw [processIn, processCancel] at hn
    rcases h.cancel_eq req.origOrderId with ⟨-, hc⟩ | ⟨m, hm, -, hc⟩
    · rw [hc] at hn
      exact Or.inl ⟨n, hn, Or.inl rfl⟩
    · rw [hc] at hn
      dsimp only at hn
      rw [unlink_nodes h hm] at hn
      exact Or.inl ⟨n, List.mem_of_mem_filter hn, Or.inl rfl⟩
  | replace req =>
    rcases mem_replace h hn with hleft | ⟨m, hm, hid, ho⟩
    · exact Or.inl hleft
    · exact Or.inr (Or.inr ⟨req, rfl, m, hm, hid, ho⟩)

/-- No resting order is immediate or cancel. -/
def Patient (b : OrderBook) : Prop := ∀ n ∈ b.nodes, n.order.tif ≠ '3'

lemma Patient.processIn (hp : b.Patient) (h : b.Wf) {item : WorkItem} :
    (processIn b item).1.Patient := by
  intro n hn
  rcases mem_processIn h hn with ⟨m, hm, hleft⟩ | ⟨o, -, ho, -, -, htif⟩ | ⟨req, -, m, hm, -, ho⟩
  · exact hleft.of_forall (P := fun o => o.tif ≠ '3') fun _ => hp m hm
  · rw [ho]; exact htif
  · rw [ho]; exact hp m hm

/-- **The orders that an item keeps**: all but the one it names, less what its fills trade. -/
lemma kept_processIn (h : b.Wf) {item : WorkItem} {m : Node} (hm : m ∈ b.nodes)
    (hid : m.order.exchangeId ≠ item.id) :
    ∃ fs, (∀ f ∈ fs, .onFill f.maker f.taker ∈ (processIn b item).2) ∧
      (processIn b item).1.Keeps fs m.order := by
  have hcalls : ∀ (fs : List FillPair) (last : List Callback) f, f ∈ fs →
      .onFill f.maker f.taker ∈ fillCallbacks fs ++ last := fun fs last f hf =>
    List.mem_append_left _ (mem_fillCallbacks.mpr ⟨f, hf, rfl⟩)
  -- another order than the one the item names has another address
  have haddr : ∀ m' ∈ b.nodes, m'.order.exchangeId = item.id → m.addr ≠ m'.addr :=
    fun m' hm' hid' ha => hid (by rw [h.eq_of_addr hm hm' ha, hid'])
  cases item with
  | order o =>
    rcases processOrder_add b o with hkill | ⟨hbook, last, hcbs⟩
    · rw [processIn, hkill]
      exact ⟨[], by simp, Or.inl ⟨m, hm, rfl⟩⟩
    · rw [processIn, hbook, hcbs]
      exact ⟨_, hcalls _ last, add_keeps h o hm⟩
  | cancel req =>
    refine ⟨[], by simp, Or.inl ⟨m, ?_, rfl⟩⟩
    rw [processIn, processCancel]
    rcases h.cancel_eq req.origOrderId with ⟨-, hc⟩ | ⟨m', hm', hid', hc⟩
    · rw [hc]; exact hm
    · rw [hc]
      dsimp only
      rw [unlink_nodes h hm', List.mem_filter]
      exact ⟨hm, by simpa using haddr m' hm' hid'⟩
  | replace req =>
    rw [processIn, processReplace]
    rcases h.replace_eq req.origOrderId req.newPrice req.newQty with
      ⟨-, hr⟩ | ⟨m', hm', hid', ⟨hp, -, hr⟩ | ⟨-, hr⟩⟩
    · rw [hr]
      exact ⟨[], by simp, Or.inl ⟨m, hm, rfl⟩⟩
    · rw [hr]
      refine ⟨[], by simp, Or.inl ⟨m, ?_, rfl⟩⟩
      dsimp only
      rw [modify_nodes]
      exact List.mem_map.mpr ⟨m, hm, if_neg (haddr m' hm' hid')⟩
    · rw [hr]
      have hkeep : m ∈ (b.unlink req.origOrderId m'.addr m'.order.price m'.order.side).nodes := by
        rw [unlink_nodes h hm', List.mem_filter]
        exact ⟨hm, by simpa using haddr m' hm' hid'⟩
      have hwf := h.unlink hm'
      rw [hid'] at hwf
      exact ⟨_, hcalls _ _, add_keeps hwf _ hkeep⟩

/-- The calls that an item may make, on a book. -/
inductive Calls (b : OrderBook) : WorkItem → Callback → Prop
  /-- An order is filled against a resting order. -/
  | added {o : Order} {maker taker : Fill} (hmaker : ∃ m ∈ b.nodes, maker.Of m.order)
      (htaker : taker.Of o) : Calls b (.order o) (.onFill maker taker)
  /-- A replaced order is filled against a resting order. -/
  | matched {req : ReplaceRequest} {maker taker : Fill} (hmaker : ∃ m ∈ b.nodes, maker.Of m.order)
      (htaker : ∃ m ∈ b.nodes, m.order.exchangeId = req.origOrderId ∧ taker.Of m.order) :
      Calls b (.replace req) (.onFill maker taker)
  | killed (o : Order) (leavesQty : ℤ) :
      Calls b (.order o) (.onTIFCancel (o.withLeaves leavesQty))
  | rested (o : Order) (leavesQty : ℤ) : Calls b (.order o) (.onOrderRested o leavesQty)
  | canceled (req : CancelRequest) (found : Bool) : Calls b (.cancel req) (.onCancel req found)
  | replaced (req : ReplaceRequest) (found : Bool) (newLeavesQty : ℤ) :
      Calls b (.replace req) (.onReplace req found newLeavesQty)

/-- **The calls of an item** are about orders of the book and about the order of the item. -/
theorem calls_processIn (h : b.Wf) {item : WorkItem} {cb : Callback}
    (hcb : cb ∈ (processIn b item).2) : b.Calls item cb := by
  cases item with
  | order o =>
    obtain ⟨fs, last, hfs, hcbs, hlast⟩ := processOrder_calls b o
    rw [processIn, hcbs] at hcb
    rcases List.mem_append.mp hcb with hcb | hcb
    · obtain ⟨f, hf, rfl⟩ := mem_fillCallbacks.mp hcb
      rcases hfs with rfl | rfl
      · exact absurd hf List.not_mem_nil
      · obtain ⟨hmaker, htaker⟩ := add_fill_parties h o hf
        exact .added hmaker htaker
    · rcases hlast cb hcb with rfl | rfl | ⟨rfl, -⟩
      · exact .killed o _
      · exact .killed o _
      · exact .rested o _
  | cancel req =>
    rw [List.mem_singleton.mp hcb]
    exact .canceled req _
  | replace req =>
    rw [processIn, processReplace] at hcb
    rcases List.mem_append.mp hcb with hcb | hcb
    · obtain ⟨f, hf, rfl⟩ := mem_fillCallbacks.mp hcb
      obtain ⟨hmaker, htaker⟩ := replace_fill_parties h hf
      exact .matched hmaker htaker
    · rw [List.mem_singleton.mp hcb]
      exact .replaced req _ _

/-- The order of the taker's side of a fill of a replace is the one that is replaced. -/
lemma replace_taker_id (h : b.Wf) {id : String} {p : Price} {q : ℤ} {f : FillPair}
    (hf : f ∈ (b.replace id p q).fills) : f.taker.exchangeId = id := by
  obtain ⟨-, m, -, hid, htaker⟩ := replace_fill_parties h hf
  exact htaker.exchangeId.trans hid

lemma mem_onFill_tasks {maker taker : Fill} {t : Task}
    (ht : t ∈ (Callback.onFill maker taker).tasks) :
    t = .fillRouting maker ∨ t = .fillRouting taker ∨ t = .fillDone maker taker := by
  simpa [Callback.tasks] using ht

/-- **The tasks of an item** look up orders of the book and the order of the item. -/
lemma task_ids_processIn (h : b.Wf) {item : WorkItem} {t : Task}
    (ht : t ∈ (processIn b item).2.flatMap Callback.tasks) {id : String} (hid : id ∈ t.ids) :
    id = item.id ∨ ∃ m ∈ b.nodes, id = m.order.exchangeId := by
  obtain ⟨cb, hcb, ht⟩ := List.mem_flatMap.mp ht
  have hfill : ∀ {maker taker : Fill}, (∃ m ∈ b.nodes, maker.Of m.order) →
      (taker.exchangeId = item.id) → t ∈ (Callback.onFill maker taker).tasks →
      id = item.id ∨ ∃ m ∈ b.nodes, id = m.order.exchangeId := by
    rintro maker taker ⟨m, hm, hmaker⟩ htaker ht
    rcases mem_onFill_tasks ht with rfl | rfl | rfl
    · exact Or.inr ⟨m, hm, (List.mem_singleton.mp hid).trans hmaker.exchangeId⟩
    · exact Or.inl ((List.mem_singleton.mp hid).trans htaker)
    · exact absurd hid List.not_mem_nil
  cases calls_processIn h hcb with
  | added hmaker htaker => exact hfill hmaker htaker.exchangeId ht
  | matched hmaker htaker =>
    obtain ⟨m, -, hmid, htaker⟩ := htaker
    exact hfill hmaker (htaker.exchangeId.trans hmid) ht
  | killed o leavesQty =>
    rw [List.mem_singleton.mp ht] at hid
    exact Or.inl (List.mem_singleton.mp hid)
  | rested o leavesQty =>
    rw [List.mem_singleton.mp ht] at hid
    exact absurd hid List.not_mem_nil
  | canceled req found =>
    rw [List.mem_singleton.mp ht] at hid
    exact Or.inl (List.mem_singleton.mp hid)
  | replaced req found newLeavesQty =>
    rw [List.mem_singleton.mp ht] at hid
    exact Or.inl (List.mem_singleton.mp hid)

end OrderBook

end FixExchange
