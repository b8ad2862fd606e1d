/-
# The book as a ledger

Which orders rest, by exchange id, and nothing about where: this is the view of the book that
the copies kept elsewhere in the exchange have to agree with.  `Executes` says what a
sequence of fills does to the resting orders, and `Processed` what a work item does and which
calls it makes; `processIn_processed` shows that the engine does just that.
-/
import FixExchange.Engine.TimeInForce
import FixExchange.Lib.Ledger

namespace FixExchange

/-- The ledgers of orders by exchange id. -/
abbrev OrderLedger := Ledger String Order

/-- Set the open quantity of an order in a ledger. -/
def OrderLedger.setOpen (L : OrderLedger) (id : String) (leavesQty : ℤ) : OrderLedger :=
  Ledger.setAmount (fun n o => o.withLeaves n) L id leavesQty

namespace OrderLedger

variable {L M : OrderLedger} {id id' : String} {leaves : ℤ} {o : Order}

lemma setOpen_of_ne (h : id' ≠ id) : L.setOpen id leaves id' = L id' := Ledger.setAmount_of_ne h

lemma setOpen_self :
    L.setOpen id leaves id = if leaves = 0 then none else (L id).map fun o => o.withLeaves leaves :=
  Ledger.setAmount_self

lemma setOpen_of_none (h : L id = none) : L.setOpen id leaves = L := Ledger.setAmount_of_none h

lemma setOpen_put (h : id' ≠ id) (o : Order) :
    OrderLedger.setOpen (Ledger.put L id o) id' leaves = Ledger.put (L.setOpen id' leaves) id o :=
  Ledger.setAmount_put h o

lemma setOpen_put_self (L : OrderLedger) (id : String) (o : Order) (leaves : ℤ) :
    OrderLedger.setOpen (Ledger.put L id o) id leaves
      = if leaves = 0 then Ledger.drop L id else Ledger.put L id (o.withLeaves leaves) := by
  funext id'
  by_cases hid : id' = id
  · subst hid
    rw [setOpen_self, Ledger.put_self]
    split_ifs <;> simp
  · rw [setOpen_of_ne hid, Ledger.put_of_ne hid]
    split_ifs
    · rw [Ledger.drop_of_ne hid]
    · rw [Ledger.put_of_ne hid]

lemma setOpen_eq_none (h : L id = none) (id' : String) (leaves : ℤ) :
    L.setOpen id' leaves id = none := by
  by_cases hid : id = id'
  · subst hid
    rw [setOpen_of_none h, h]
  · rw [setOpen_of_ne hid, h]

lemma orElse_setOpen (h : M id = none) :
    Ledger.orElse (L.setOpen id leaves) M = OrderLedger.setOpen (Ledger.orElse L M) id leaves :=
  Ledger.orElse_setAmount h

end OrderLedger

/-! ## Fills -/

/-- `Executes id left L fs L'`: the fills `fs` of the incoming order `id`, one after the other,
leave `L'` of the resting orders `L`, and the last of them leaves `left` of the incoming
order. -/
inductive Executes (id : String) (left : ℤ) : OrderLedger → List FillPair → OrderLedger → Prop
  | nil {L : OrderLedger} : Executes id left L [] L
  | cons {L L' : OrderLedger} {f : FillPair} {fs : List FillPair} {m : Order}
      (maker : L f.maker.exchangeId = some m)
      (symbol : f.maker.symbol = m.symbol)
      (side : f.maker.side = m.side)
      (nonneg : 0 ≤ f.maker.leavesQty)
      (taker : f.taker.exchangeId = id)
      (exhausted : f.taker.leavesQty = 0 → fs = [])
      (last : fs = [] → f.taker.leavesQty = left)
      (rest : Executes id left (L.setOpen f.maker.exchangeId f.maker.leavesQty) fs L') :
      Executes id left L (f :: fs) L'

namespace Executes

variable {id : String} {left : ℤ} {L L' M : OrderLedger} {fs : List FillPair}

/-- Fills bring no order into the book. -/
lemma eq_none (h : Executes id left L fs L') {id' : String} (hid : L id' = none) :
    L' id' = none := by
  induction h with
  | nil => exact hid
  | cons _ _ _ _ _ _ _ _ ih => exact ih (OrderLedger.setOpen_eq_none hid _ _)

/-- Fills happen in the same way when other orders rest, too. -/
lemma orElse (h : Executes id left L fs L') (hM : ∀ id', L id' ≠ none → M id' = none) :
    Executes id left (Ledger.orElse L M) fs (Ledger.orElse L' M) := by
  induction h with
  | nil => exact .nil
  | @cons L L' f fs m maker symbol side nonneg taker exhausted last rest ih =>
    have hnone : M f.maker.exchangeId = none := hM _ (by rw [maker]; simp)
    refine .cons (Ledger.orElse_of_some maker) symbol side nonneg taker exhausted last ?_
    rw [← OrderLedger.orElse_setOpen hnone]
    refine ih fun id' hid' => hM id' fun hn => hid' ?_
    exact OrderLedger.setOpen_eq_none hn _ _

end Executes

/-- An exhausted order trades nothing. -/
lemma matchList_trades_of_exhausted {o : Order} (h : o.leavesQty ≤ 0) (l : List Order) :
    (matchList o l).trades = [] := by
  cases l with
  | nil => rfl
  | cons m l => rw [matchList_stop fun hgo => absurd hgo.1 (not_lt.mpr h)]

/-- An order that trades nothing stays as it is. -/
lemma matchList_taker_of_no_trades {o : Order} {l : List Order} (h : (matchList o l).trades = []) :
    (matchList o l).taker = o := by
  rw [matchList_taker, h, traded_nil, sub_zero, Order.withLeaves_self]

lemma fillsOf_eq_nil {symbol : String} {seq : ℕ} {ts : List Trade} :
    fillsOf symbol seq ts = [] ↔ ts = [] := by
  cases ts <;> simp [fillsOf]

/-- **Matching, as a sequence of fills** of the resting orders. -/
lemma matchList_executes {symbol : String} (seq : ℕ) (o : Order) {l : List Order}
    (hnd : (l.map Order.exchangeId).Nodup) (hpos : ∀ m ∈ l, 0 < m.leavesQty)
    (hsym : ∀ m ∈ l, m.symbol = symbol) :
    Executes o.exchangeId (matchList o l).taker.leavesQty (Ledger.ofList Order.exchangeId l)
      (fillsOf symbol seq (matchList o l).trades)
      (Ledger.ofList Order.exchangeId (matchList o l).rest) := by
  refine matchList_induction
    (P := fun o l d => ∀ seq, (l.map Order.exchangeId).Nodup → (∀ m ∈ l, 0 < m.leavesQty) →
      (∀ m ∈ l, m.symbol = symbol) → Executes o.exchangeId d.taker.leavesQty
        (Ledger.ofList Order.exchangeId l) (fillsOf symbol seq d.trades)
        (Ledger.ofList Order.exchangeId d.rest))
    ?_ ?_ ?_ ?_ o l seq hnd hpos hsym
  · exact fun o seq _ _ _ => .nil
  · exact fun o m l _ seq _ _ _ => .nil
  · intro o m l ho _ h0 seq _ hpos hsym
    have hmaker := hpos m List.mem_cons_self
    refine .cons (m := m) ?_ (hsym m List.mem_cons_self).symm rfl ?_ rfl (fun _ => rfl)
      (fun _ => rfl) ?_
    · rw [Ledger.ofList_cons]
      exact Ledger.put_self
    · simp only [makeFill, Trade.of_maker, Trade.of_qty, Order.withLeaves_leavesQty]
      omega
    · have hset := OrderLedger.setOpen_put_self (Ledger.ofList Order.exchangeId l)
        m.exchangeId m (Trade.of o m).maker.leavesQty
      rw [if_neg h0] at hset
      rw [Ledger.ofList_cons, Ledger.ofList_cons]
      simp only [makeFill, Trade.of_maker, Order.withLeaves_exchangeId] at hset ⊢
      rw [hset]
      exact .nil
  · intro o m l d ho _ h0 hd ih seq hnd hpos hsym
    obtain ⟨hm, hnd⟩ := List.nodup_cons.mp hnd
    have hset := OrderLedger.setOpen_put_self (Ledger.ofList Order.exchangeId l)
      m.exchangeId m (Trade.of o m).maker.leavesQty
    rw [if_pos h0, Ledger.drop_of_none (Ledger.ofList_eq_none.mpr fun m' hm' heq =>
      hm (List.mem_map.mpr ⟨m', hm', heq⟩))] at hset
    refine .cons (m := m) ?_ (hsym m List.mem_cons_self).symm rfl h0.ge rfl (fun hex => ?_)
      (fun hnil => ?_) ?_
    · rw [Ledger.ofList_cons]
      exact Ledger.put_self
    · rw [fillsOf_eq_nil, hd]
      exact matchList_trades_of_exhausted hex.le l
    · rw [fillsOf_eq_nil, hd] at hnil
      rw [hd, matchList_taker_of_no_trades hnil]
      rfl
    · rw [Ledger.ofList_cons]
      simp only [makeFill, Trade.of_maker, Order.withLeaves_exchangeId] at hset ⊢
      rw [hset]
      exact ih (seq + 2) hnd (fun m' hm' => hpos m' (List.mem_cons_of_mem _ hm'))
        fun m' hm' => hsym m' (List.mem_cons_of_mem _ hm')

/-- Matching in a flat book. -/
lemma FlatBook.matchIn_executes {b : FlatBook} {symbol : String} (seq : ℕ) (o : Order)
    (hnd : (b.orders.map Order.exchangeId).Nodup) (hpos : ∀ m ∈ b.orders, 0 < m.leavesQty)
    (hsym : ∀ m ∈ b.orders, m.symbol = symbol) :
    Executes o.exchangeId (b.matchIn o).2.taker.leavesQty
      (Ledger.ofList Order.exchangeId b.orders)
      (fillsOf symbol seq (b.matchIn o).2.trades)
      (Ledger.ofList Order.exchangeId (b.matchIn o).1.orders) := by
  rw [FlatBook.orders, List.map_append] at hnd
  obtain ⟨hbids, hasks, hne⟩ := List.nodup_append.mp hnd
  -- no id is on both sides
  have happart : ∀ id, Ledger.ofList Order.exchangeId b.bids id = none ∨
      Ledger.ofList Order.exchangeId b.asks id = none := by
    intro id
    by_contra hboth
    rw [not_or] at hboth
    obtain ⟨m, hm⟩ := Option.ne_none_iff_exists'.mp hboth.1
    obtain ⟨m', hm'⟩ := Option.ne_none_iff_exists'.mp hboth.2
    obtain ⟨hmem, hid⟩ := Ledger.key_of_ofList hm
    obtain ⟨hmem', hid'⟩ := Ledger.key_of_ofList hm'
    exact hne _ (List.mem_map_of_mem hmem) _ (List.mem_map_of_mem hmem') (hid.trans hid'.symm)
  by_cases hs : o.side = '1'
  · have hmatch := matchList_executes seq o hasks
      (fun m hm => hpos m (List.mem_append_right _ hm))
      fun m hm => hsym m (List.mem_append_right _ hm)
    simp only [FlatBook.matchIn, if_pos hs, FlatBook.orders, Ledger.ofList_append]
    rw [Ledger.orElse_comm happart, Ledger.orElse_comm fun id =>
      (happart id).imp_right fun hnone => hmatch.eq_none hnone]
    exact hmatch.orElse fun id hid => (happart id).resolve_right hid
  · have hmatch := matchList_executes seq o hbids
      (fun m hm => hpos m (List.mem_append_left _ hm))
      fun m hm => hsym m (List.mem_append_left _ hm)
    simp only [FlatBook.matchIn, if_neg hs, FlatBook.orders, Ledger.ofList_append]
    exact hmatch.orElse fun id hid => (happart id).resolve_left hid

/-! ## The operations of a book -/

namespace OrderBook

/-- The resting orders, by exchange id. -/
def ledger (b : OrderBook) : OrderLedger := Ledger.ofList Order.exchangeId b.getOrders

/-- A book as the engine keeps it: its orders are open, may rest, and are for its symbol. -/
structure Regular (b : OrderBook) : Prop where
  inv : b.Inv
  patient : ∀ n ∈ b.nodes, n.order.tif ≠ '3'
  symbol : ∀ n ∈ b.nodes, n.order.symbol = b.symbol

variable {b : OrderBook} {o : Order}

lemma getOrders_eq (b : OrderBook) : b.getOrders = b.toFlat.orders := (orders_toFlat b).symm

lemma Keyed.nodup (hk : b.Keyed) : (b.getOrders.map Order.exchangeId).Nodup := by
  have := hk.keys_nodup
  rw [keys, List.map_map] at this
  rw [getOrders, List.map_map]
  exact this

lemma Keyed.ledger_eq_some (hk : b.Keyed) {id : String} :
    b.ledger id = some o ↔ ∃ n ∈ b.nodes, n.order = o ∧ o.exchangeId = id := by
  rw [ledger, Ledger.ofList_eq_some hk.nodup, getOrders, List.mem_map]
  exact ⟨fun ⟨⟨n, hn, ho⟩, hid⟩ => ⟨n, hn, ho, hid⟩, fun ⟨n, hn, ho, hid⟩ => ⟨⟨n, hn, ho⟩, hid⟩⟩

lemma ledger_eq_none {id : String} : b.ledger id = none ↔ b.Fresh id := by
  rw [ledger, Ledger.ofList_eq_none, getOrders, List.forall_mem_map]
  rfl

lemma ledger_pushOrder (h : b.Wf) (hk : b.Keyed) (hfresh : b.Fresh o.exchangeId) :
    (b.pushOrder o).ledger = b.ledger.put o.exchangeId o := by
  have hperm := (pushOrder_nodes_perm h o).map Node.order
  rw [ledger, Ledger.ofList_perm (hk.pushOrder h hfresh).nodup hperm, List.map_cons,
    Ledger.ofList_cons]
  rfl

lemma ledger_unlink (hk : b.Keyed) (h : b.Wf) {n : Node} (hn : n ∈ b.nodes) :
    (b.unlink n.order.exchangeId n.addr n.order.price n.order.side).ledger
      = b.ledger.drop n.order.exchangeId := by
  rw [ledger, getOrders_eq, unlink_toFlat hk h hn, FlatBook.delete, FlatBook.orders,
    ← List.filter_append, Ledger.ofList_filter_ne, ledger, getOrders_eq]
  rfl

lemma ledger_modify (hk : b.Keyed) (h : b.Wf) {n : Node} (hn : n ∈ b.nodes) (q : ℤ) :
    (b.modify n.addr fun o => { o with qty := q, leavesQty := q }).ledger
      = b.ledger.adjust n.order.exchangeId (FlatBook.shrink q) := by
  rw [ledger, getOrders_eq, modify_toFlat hk h hn, FlatBook.shrinkAt, FlatBook.orders,
    ← List.map_append, Ledger.ofList_map_if (f := FlatBook.shrink q) fun _ => rfl, ledger, getOrders_eq]
  rfl

lemma Regular.tryMatch_executes (h : b.Regular) (o : Order) :
    Executes o.exchangeId (b.tryMatch o).value.leavesQty b.ledger (b.tryMatch o).fills
      (b.tryMatch o).book.ledger := by
  obtain ⟨hbook, hvalue, hfills⟩ := tryMatch_toFlat h.inv.wf o
  have hnd := h.inv.keyed.nodup
  rw [getOrders_eq] at hnd
  rw [ledger, ledger, getOrders_eq, getOrders_eq, hbook, hvalue, hfills]
  refine FlatBook.matchIn_executes _ o hnd (fun m hm => ?_) fun m hm => ?_
  · obtain ⟨n, hn, rfl⟩ := mem_orders_toFlat.mp hm
    exact (h.inv.positive n hn).1
  · obtain ⟨n, hn, rfl⟩ := mem_orders_toFlat.mp hm
    exact h.symbol n hn

/-- **Adding an order**: its fills, and the order itself when it may rest. -/
lemma Regular.add_executes (h : b.Regular) (hfresh : b.Fresh o.exchangeId) :
    ∃ L, Executes o.exchangeId (b.add o).value b.ledger (b.add o).fills L ∧
      (b.add o).book.ledger =
        if 0 < (b.add o).value ∧ o.type = '2' ∧ o.tif ≠ '3' then
          L.put o.exchangeId (o.withLeaves (b.add o).value)
        else L := by
  have hwf := h.inv.wf
  have hmatch := h.tryMatch_executes (o.withLeaves o.qty)
  have hvalue : (b.tryMatch (o.withLeaves o.qty)).value.leavesQty = (b.add o).value := by
    simp only [OrderBook.add]
    split_ifs <;> rfl
  rw [hvalue, ← add_fills, Order.withLeaves_exchangeId] at hmatch
  refine ⟨_, hmatch, ?_⟩
  split_ifs with hrest
  · rw [add_book_of_rests hwf hrest.1 hrest.2.1 hrest.2.2,
      ledger_pushOrder (hwf.tryMatch _) (h.inv.keyed.tryMatch _)]
    · rfl
    · exact ledger_eq_none.mp (hmatch.eq_none (ledger_eq_none.mpr hfresh))
  · rw [add_book_of_not_rests hwf hrest]

/-- An order that is not filled at all is open for its whole quantity. -/
lemma add_value_of_no_fills (h : b.Wf) (hnil : (b.add o).fills = []) : (b.add o).value = o.qty := by
  have hfilled := add_filled h o
  rw [hnil] at hfilled
  simp [fillCallbacks] at hfilled
  omega

lemma Regular.unlink (h : b.Regular) {n : Node} (hn : n ∈ b.nodes) :
    (b.unlink n.order.exchangeId n.addr n.order.price n.order.side).Regular := by
  have hmem : ∀ m ∈ (b.unlink n.order.exchangeId n.addr n.order.price n.order.side).nodes,
      m ∈ b.nodes := by
    intro m hm
    rw [unlink_nodes h.inv.wf hn] at hm
    exact List.mem_of_mem_filter hm
  refine ⟨⟨h.inv.wf.unlink hn, h.inv.keyed.unlink h.inv.wf hn,
    h.inv.positive.unlink h.inv.wf hn _⟩, fun m hm => h.patient m (hmem m hm), fun m hm => ?_⟩
  have hsame : (b.unlink n.order.exchangeId n.addr n.order.price n.order.side).symbol
      = b.symbol := by
    by_cases hs : n.order.side = '1' <;> simp [OrderBook.unlink, hs]
  rw [hsame]
  exact h.symbol m (hmem m hm)

end OrderBook

/-! ## Work items -/

/-- What becomes of the rest of an order that has been matched: the last call about it, and
the resting orders. -/
inductive Settled (o : Order) (left : ℤ) (L : OrderLedger) : List Callback → OrderLedger → Prop
  /-- There is no rest, or it is the rest of a market order. -/
  | silent (h : left = 0 ∨ o.type ≠ '2') : Settled o left L [] L
  | cancelled (h : 0 < left) : Settled o left L [.onTIFCancel (o.withLeaves left)] L
  | rested (h : 0 < left) (type : o.type = '2') (tif : o.tif ≠ '3') :
      Settled o left L [.onOrderRested o left] (L.put o.exchangeId (o.withLeaves left))

/-- An order after a replace. -/
def Order.replacedBy (o : Order) (req : ReplaceRequest) (leavesQty : ℤ) : Order :=
  { o with price := req.newPrice, qty := req.newQty, leavesQty := leavesQty }

/-- `Processed L item cbs L'`: processing the item makes the calls `cbs`, and leaves `L'` of
the resting orders `L`. -/
inductive Processed (L : OrderLedger) : WorkItem → List Callback → OrderLedger → Prop
  | killed {o : Order} (fresh : L o.exchangeId = none) :
      Processed L (.order o) [.onTIFCancel (o.withLeaves o.qty)] L
  | matched {o : Order} {left : ℤ} {fs : List FillPair} {last : List Callback}
      {L₁ L' : OrderLedger} (fresh : L o.exchangeId = none)
      (fills : Executes o.exchangeId left L fs L₁) (unfilled : fs = [] → left = o.qty)
      (settled : Settled o left L₁ last L') :
      Processed L (.order o) (fillCallbacks fs ++ last) L'
  /-- The order does not rest in the book that the request names. -/
  | notCancelled {req : CancelRequest} : Processed L (.cancel req) [.onCancel req false] L
  | cancelled {req : CancelRequest} {m : Order} (some : L req.origOrderId = some m) :
      Processed L (.cancel req) [.onCancel req true] (L.drop req.origOrderId)
  | notReplaced {req : ReplaceRequest} : Processed L (.replace req) [.onReplace req false (-1)] L
  | shrunk {req : ReplaceRequest} {m : Order} (some : L req.origOrderId = some m)
      (price : req.newPrice = m.price) (positive : 0 < req.newQty) :
      Processed L (.replace req) [.onReplace req true req.newQty]
        (L.put req.origOrderId (m.replacedBy req req.newQty))
  | requeued {req : ReplaceRequest} {m : Order} {left : ℤ} {fs : List FillPair}
      {L₁ : OrderLedger} (some : L req.origOrderId = some m)
      (fills : Executes req.origOrderId left (L.drop req.origOrderId) fs L₁)
      (unfilled : fs = [] → left = req.newQty) (positive : 0 < req.newQty) (nonneg : 0 ≤ left) :
      Processed L (.replace req) (fillCallbacks fs ++ [.onReplace req true left])
        (if 0 < left then L₁.put req.origOrderId (m.replacedBy req left) else L₁)

namespace OrderBook

variable {b : OrderBook} {o : Order}

lemma Regular.processOrder_processed (h : b.Regular) (hfresh : b.Fresh o.exchangeId)
    (hq : 0 ≤ o.qty) :
    Processed b.ledger (.order o) (processOrder b o).2 (processOrder b o).1.ledger := by
  have hnone := ledger_eq_none.mpr hfresh
  have hwf := h.inv.wf
  have hnonneg := add_value_nonneg hwf hq
  obtain ⟨L, hfills, hledger⟩ := h.add_executes hfresh
  have hunfilled := add_value_of_no_fills (o := o) hwf
  by_cases h4 : o.tif = '4'
  · rw [processOrder_fok h4]
    split_ifs with havail
    · exact .killed hnone
    · -- a limit order that passes the pre-check is filled completely
      have hleft : (b.add o).value = 0 ∨ o.type ≠ '2' := by
        by_cases ht : o.type = '2'
        · exact Or.inl (add_value_of_available h.inv (Or.inr ht) hq havail)
        · exact Or.inr ht
      rw [if_neg fun hr => hleft.elim (fun hv => hr.1.ne' hv) fun ht => ht hr.2.1] at hledger
      rw [← List.append_nil (fillCallbacks _)]
      refine .matched hnone hfills hunfilled ?_
      rw [hledger]
      exact .silent hleft
  · by_cases h3 : o.tif = '3'
    · rw [processOrder_ioc h3]
      refine .matched hnone hfills hunfilled ?_
      rw [if_neg fun hr => hr.2.2 h3] at hledger
      dsimp only
      rw [hledger]
      split_ifs with hv
      · exact .cancelled hv
      · exact .silent (Or.inl (le_antisymm (not_lt.mp hv) hnonneg))
    · rw [processOrder_rest h4 h3]
      refine .matched hnone hfills hunfilled ?_
      dsimp only
      rw [hledger]
      split_ifs with hv hr hr
      · exact .rested hr.1 hr.2.1 hr.2.2
      · exact absurd ⟨hv.1, hv.2, h3⟩ hr
      · exact absurd ⟨hr.1, hr.2.1⟩ hv
      · refine .silent ?_
        by_cases ht : o.type = '2'
        · exact Or.inl (le_antisymm (not_lt.mp fun hpos => hv ⟨hpos, ht⟩) hnonneg)
        · exact Or.inr ht

lemma Regular.processCancel_processed (h : b.Regular) (req : CancelRequest) :
    Processed b.ledger (.cancel req) (processCancel b req).2 (processCancel b req).1.ledger := by
  rw [processCancel]
  rcases h.inv.wf.cancel_eq req.origOrderId with ⟨-, hc⟩ | ⟨n, hn, hid, hc⟩
  · rw [hc]
    exact .notCancelled
  · rw [hc]
    dsimp only
    rw [← hid, ledger_unlink h.inv.keyed h.inv.wf hn, hid]
    exact .cancelled (h.inv.keyed.ledger_eq_some.mpr ⟨n, hn, rfl, hid⟩)

lemma Regular.processReplace_processed (h : b.Regular) {req : ReplaceRequest}
    (hq : 0 < req.newQty) :
    Processed b.ledger (.replace req) (processReplace b req).2 (processReplace b req).1.ledger := by
  have hwf := h.inv.wf
  have hkeyed := h.inv.keyed
  rw [processReplace]
  rcases hwf.replace_eq req.origOrderId req.newPrice req.newQty with
    ⟨-, hr⟩ | ⟨n, hn, hid, ⟨hp, -, hr⟩ | ⟨-, hr⟩⟩
  · rw [hr]
    exact .notReplaced
  · have hsome : b.ledger req.origOrderId = some n.order :=
      hkeyed.ledger_eq_some.mpr ⟨n, hn, rfl, hid⟩
    have hshrunk : FlatBook.shrink req.newQty n.order = n.order.replacedBy req req.newQty := by
      rw [Order.replacedBy, hp]
      rfl
    rw [hr]
    dsimp only
    rw [ledger_modify hkeyed hwf hn, hid, Ledger.adjust_of_some hsome, hshrunk,
      decide_eq_true hq.le]
    exact .shrunk hsome hp hq
  · have hsome : b.ledger req.origOrderId = some n.order :=
      hkeyed.ledger_eq_some.mpr ⟨n, hn, rfl, hid⟩
    have hreg := h.unlink hn
    have hfresh := hkeyed.fresh_unlink hwf hn
    have hdrop := ledger_unlink hkeyed hwf hn
    rw [hid] at hreg hfresh hdrop
    rw [hr]
    set b' := b.unlink req.origOrderId n.addr n.order.price n.order.side with hb'
    set o : Order := { n.order with price := req.newPrice, qty := req.newQty } with ho
    have hoid : o.exchangeId = req.origOrderId := hid
    obtain ⟨L, hfills, hledger⟩ := hreg.add_executes (o := o) (by rw [hoid]; exact hfresh)
    have hnonneg := add_value_nonneg (o := o) hreg.inv.wf hq.le
    have hunfilled := add_value_of_no_fills (o := o) hreg.inv.wf
    have hrests : (0 < (b'.add o).value ∧ o.type = '2' ∧ o.tif ≠ '3') ↔ 0 < (b'.add o).value :=
      ⟨And.left, fun hv => ⟨hv, hwf.limit n hn, h.patient n hn⟩⟩
    simp only [hrests] at hledger
    rw [hoid, hdrop] at hfills
    rw [hoid] at hledger
    dsimp only
    rw [hledger, decide_eq_true hnonneg]
    exact .requeued (m := n.order) hsome hfills hunfilled hq hnonneg

/-- **The engine processes items as `Processed` says**, on a book as the engine keeps it. -/
theorem Regular.processIn_processed (h : b.Regular) {item : WorkItem}
    (horder : ∀ o, item = .order o → b.Fresh o.exchangeId ∧ 0 ≤ o.qty)
    (hnewQty : ∀ req, item = .replace req → 0 < req.newQty) :
    Processed b.ledger item (processIn b item).2 (processIn b item).1.ledger := by
  cases item with
  | order o => exact h.processOrder_processed (horder o rfl).1 (horder o rfl).2
  | cancel req => exact h.processCancel_processed req
  | replace req => exact h.processReplace_processed (hnewQty req rfl)

end OrderBook

/-- Items are processed in the same way when other orders rest in other books. -/
lemma Processed.orElse {L L' M : OrderLedger} {item : WorkItem} {cbs : List Callback}
    (h : Processed L item cbs L') (hM : ∀ id, L id ≠ none → M id = none)
    (horder : ∀ o, item = .order o → M o.exchangeId = none) :
    Processed (Ledger.orElse L M) item cbs (Ledger.orElse L' M) := by
  have hM' : ∀ {id m}, L id = some m → M id = none := fun hid => hM _ (by rw [hid]; simp)
  cases h with
  | @killed o fresh => exact .killed (Ledger.orElse_eq_none.mpr ⟨fresh, horder o rfl⟩)
  | @matched o left fs last L₁ L' fresh fills unfilled settled =>
    refine .matched (Ledger.orElse_eq_none.mpr ⟨fresh, horder o rfl⟩) (fills.orElse hM) unfilled ?_
    cases settled with
    | silent h => exact .silent h
    | cancelled h => exact .cancelled h
    | rested h type tif =>
      rw [Ledger.orElse_put]
      exact .rested h type tif
  | notCancelled => exact .notCancelled
  | cancelled hm =>
    rw [Ledger.orElse_drop (hM' hm)]
    exact .cancelled (Ledger.orElse_of_some hm)
  | notReplaced => exact .notReplaced
  | shrunk hm price positive =>
    rw [Ledger.orElse_put]
    exact .shrunk (Ledger.orElse_of_some hm) price positive
  | @requeued req m left fs L₁ hm fills unfilled positive nonneg =>
    have hfills := fills.orElse (M := M) fun id hid => hM id fun hn => hid (by
      by_cases h : id = req.origOrderId
      · rw [h, Ledger.drop_self]
      · rw [Ledger.drop_of_ne h, hn])
    rw [Ledger.orElse_drop (hM' hm)] at hfills
    have hrest := Processed.requeued (Ledger.orElse_of_some hm) hfills unfilled positive nonneg
    split_ifs at hrest ⊢ with hleft
    · rw [Ledger.orElse_put]
      exact hrest
    · exact hrest

end FixExchange
