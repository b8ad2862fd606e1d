/-
# The accounts of the orders

The quantities in a fill are read off the order as the book has it: its quantity and what is
left of it.  The account of an order is kept apart from the book: it says how much of the order
has been executed, from the quantities of the fills, and on which quantity, from the orders and
the replaces.  Every fill states the account of its order after the fill, and every order in the
book agrees with its account (`processIn_stated`), whatever the quantities of the requests are.
-/
import FixExchange.Engine.BookLedger
import FixExchange.Engine.TimeInForce
import FixExchange.Lib.Accounts

namespace FixExchange

/-- What the account of an order is changed by. -/
inductive Entry
  /-- The quantity of an order is set, when it is accepted or replaced. -/
  | quantity (id : String) (qty : ℤ)
  | trade (fill : Fill)
deriving DecidableEq, Repr

/-- The account of an order has its quantity, and what is left of it. -/
def Order.Agrees (o : Order) (A : Accounts String) : Prop :=
  (A o.exchangeId).qty = o.qty ∧ (A o.exchangeId).openQty = o.leavesQty

/-- A fill states the account of its order. -/
def Fill.States (f : Fill) (A : Accounts String) : Prop :=
  f.orderQty = (A f.exchangeId).qty ∧ f.leavesQty = (A f.exchangeId).openQty

namespace Entry

variable {A : Accounts String} {es es' : List Entry} {e : Entry}

/-- The accounts after an entry. -/
def enter (A : Accounts String) : Entry → Accounts String
  | .quantity id qty => A.renew id qty
  | .trade fill => A.spend fill.exchangeId fill.qty

/-- The accounts after some entries. -/
def enterAll (A : Accounts String) (es : List Entry) : Accounts String := es.foldl enter A

@[simp] lemma enterAll_nil : enterAll A [] = A := rfl
@[simp] lemma enterAll_cons : enterAll A (e :: es) = enterAll (enter A e) es := rfl

lemma enterAll_append : enterAll A (es ++ es') = enterAll (enterAll A es) es' :=
  List.foldl_append

/-- The order that an entry is about. -/
def orderId : Entry → String
  | .quantity id _ => id
  | .trade fill => fill.exchangeId

lemma enter_of_ne {k : String} (h : k ≠ e.orderId) : enter A e k = A k := by
  cases e with
  | quantity id qty => exact Accounts.renew_of_ne h
  | trade fill => exact Accounts.spend_of_ne h

lemma enterAll_of_ne {k : String} (h : ∀ e ∈ es, k ≠ e.orderId) : enterAll A es k = A k := by
  induction es generalizing A with
  | nil => rfl
  | cons e es ih =>
    rw [enterAll_cons, ih fun e' he' => h e' (List.mem_cons_of_mem _ he'),
      enter_of_ne (h e List.mem_cons_self)]

/-- The quantity of an order can be set before or after entries about other orders. -/
lemma enter_renew {k : String} (h : k ≠ e.orderId) (q : ℤ) :
    enter (A.renew k q) e = (enter A e).renew k q := by
  cases e with
  | quantity id qty => exact Accounts.renew_renew h qty
  | trade fill => exact Accounts.spend_renew h

lemma enterAll_renew {k : String} (h : ∀ e ∈ es, k ≠ e.orderId) (q : ℤ) :
    enterAll (A.renew k q) es = (enterAll A es).renew k q := by
  induction es generalizing A with
  | nil => rfl
  | cons e es ih =>
    rw [enterAll_cons, enterAll_cons, enter_renew (h e List.mem_cons_self),
      ih fun e' he' => h e' (List.mem_cons_of_mem _ he')]

/-- The quantity of an order, and what had been executed when it was set, change when it is set
only. -/
lemma enterAll_unset {k : String} (h : ∀ q, .quantity k q ∉ es) :
    (enterAll A es k).qty = (A k).qty ∧ (enterAll A es k).earlier = (A k).earlier := by
  induction es generalizing A with
  | nil => exact ⟨rfl, rfl⟩
  | cons e es ih =>
    obtain ⟨hqty, hearlier⟩ := ih (A := enter A e) fun q hq => h q (List.mem_cons_of_mem _ hq)
    rw [enterAll_cons, hqty, hearlier]
    by_cases hk : k = e.orderId
    · cases e with
      | quantity id qty =>
        obtain rfl : k = id := hk
        exact absurd List.mem_cons_self (h qty)
      | trade fill =>
        obtain rfl : k = fill.exchangeId := hk
        rw [enter, Accounts.spend_self]
        exact ⟨rfl, rfl⟩
    · rw [enter_of_ne hk]
      exact ⟨rfl, rfl⟩

/-- Each fill among the entries states the account of its order after it. -/
def Stated : Accounts String → List Entry → Prop
  | _, [] => True
  | A, e :: es => (∀ fill, e = .trade fill → fill.States (enter A e)) ∧ Stated (enter A e) es

lemma stated_append : Stated A (es ++ es') ↔ Stated A es ∧ Stated (enterAll A es) es' := by
  induction es generalizing A with
  | nil => exact (iff_of_eq (true_and _)).symm
  | cons e es ih =>
    rw [List.cons_append, Stated, Stated, ih, enterAll_cons, and_assoc]

lemma Stated.renew {k : String} (hs : Stated A es) (h : ∀ e ∈ es, k ≠ e.orderId) (q : ℤ) :
    Stated (A.renew k q) es := by
  induction es generalizing A with
  | nil => trivial
  | cons e es ih =>
    have hne := h e List.mem_cons_self
    rw [Stated, enter_renew hne]
    refine ⟨?_, ih hs.2 fun e' he' => h e' (List.mem_cons_of_mem _ he')⟩
    rintro fill rfl
    have hstates := hs.1 fill rfl
    have hne' : fill.exchangeId ≠ k := Ne.symm hne
    rw [Fill.States, Accounts.renew_of_ne hne']
    exact hstates

/-- A fill among entries that are stated. -/
lemma Stated.states {fill : Fill} (h : Stated A (es ++ .trade fill :: es')) :
    fill.States (enterAll A (es ++ [.trade fill])) := by
  rw [enterAll_append]
  exact (stated_append.mp h).2.1 fill rfl

end Entry

/-- The entries of the two fills of a trade. -/
def FillPair.entries (f : FillPair) : List Entry := [.trade f.maker, .trade f.taker]

/-- Only the accounts of the two orders are changed. -/
lemma FillPair.enterAll_of_ne {f : FillPair} {A : Accounts String} {id : String}
    (hmaker : id ≠ f.maker.exchangeId) (htaker : id ≠ f.taker.exchangeId) :
    Entry.enterAll A f.entries id = A id := by
  refine Entry.enterAll_of_ne fun e he => ?_
  rcases List.mem_pair.mp he with rfl | rfl
  · exact hmaker
  · exact htaker

/-! ## Matching -/

section

variable {A : Accounts String} {symbol : String} {o m : Order} {l : List Order}

lemma Order.Agrees.congr {A' : Accounts String} (h : m.Agrees A)
    (hA : A' m.exchangeId = A m.exchangeId) : m.Agrees A' := by
  rw [Agrees, hA]
  exact h

/-- An order that has traded. -/
lemma Order.Agrees.spend (h : m.Agrees A) (q : ℤ) :
    (m.withLeaves (m.leavesQty - q)).Agrees (A.spend m.exchangeId q) := by
  refine ⟨?_, ?_⟩
  · rw [withLeaves_exchangeId, Accounts.spend_self]
    exact h.1
  · rw [withLeaves_exchangeId, Accounts.spend_self, Account.spend_openQty, h.2]
    rfl

/-- An order whose quantity has been set. -/
lemma Order.agrees_renew {id : String} (hid : m.exchangeId = id) (q : ℤ) (A : Accounts String)
    (p : Price) :
    ({ m with price := p, qty := q, leavesQty := q } : Order).Agrees (A.renew id q) := by
  subst hid
  refine ⟨?_, ?_⟩
  · show (A.renew m.exchangeId q m.exchangeId).qty = q
    rw [Accounts.renew_self]
    rfl
  · show (A.renew m.exchangeId q m.exchangeId).openQty = q
    rw [Accounts.renew_self, Account.renew_openQty]

/-- A fill states the account of its order when the order agrees with it. -/
lemma Order.Agrees.states (h : m.Agrees A) (symbol : String) (i : ℕ) (p : Price) (q : ℤ) :
    (makeFill symbol i m p q m.leavesQty).States A :=
  ⟨h.1.symm, h.2.symm⟩

/-- The entries of a trade. -/
lemma stated_trade (hne : o.exchangeId ≠ m.exchangeId) (ho : o.Agrees A) (hm : m.Agrees A)
    (symbol : String) (i j : ℕ) (p : Price) (q : ℤ) :
    let maker := m.withLeaves (m.leavesQty - q)
    let taker := o.withLeaves (o.leavesQty - q)
    let f : FillPair := ⟨makeFill symbol i maker p q maker.leavesQty,
      makeFill symbol j taker p q taker.leavesQty⟩
    Entry.Stated A f.entries ∧ taker.Agrees (Entry.enterAll A f.entries) ∧
      maker.Agrees (Entry.enterAll A f.entries) := by
  intro maker taker f
  have hmaker : maker.Agrees (A.spend m.exchangeId q) := hm.spend q
  have htaker : taker.Agrees ((A.spend m.exchangeId q).spend o.exchangeId q) :=
    (ho.congr (Accounts.spend_of_ne hne)).spend q
  refine ⟨⟨fun fill hfill => ?_, fun fill hfill => ?_, trivial⟩, htaker,
    hmaker.congr (Accounts.spend_of_ne (Ne.symm hne))⟩
  · obtain rfl := Entry.trade.inj hfill
    exact hmaker.states symbol i p q
  · obtain rfl := Entry.trade.inj hfill
    exact htaker.states symbol j p q

/-- The ids of an order and of the first two of a list. -/
lemma nodup_cons_cons (h : ((o :: m :: l).map Order.exchangeId).Nodup) :
    (o.exchangeId ≠ m.exchangeId ∧ ∀ x ∈ l, x.exchangeId ≠ o.exchangeId) ∧
      (∀ x ∈ l, x.exchangeId ≠ m.exchangeId) ∧ ((o :: l).map Order.exchangeId).Nodup := by
  simp only [List.map_cons, List.nodup_cons, List.mem_cons, not_or, List.mem_map, not_exists,
    not_and] at h ⊢
  exact ⟨⟨h.1.1, h.1.2⟩, h.2.1, h.1.2, h.2.2⟩

/-- The entries of some trades. -/
def entriesOf (fs : List FillPair) : List Entry := fs.flatMap FillPair.entries

@[simp] lemma entriesOf_cons (f : FillPair) (fs : List FillPair) :
    entriesOf (f :: fs) = f.entries ++ entriesOf fs := rfl

/-- **Matching keeps the accounts**: the fills state them, and what is left of the orders agrees
with them. -/
lemma matchList_stated (symbol : String) (seq : ℕ) (hnd : ((o :: l).map Order.exchangeId).Nodup)
    (ho : o.Agrees A) (hl : ∀ m ∈ l, m.Agrees A) :
    Entry.Stated A (entriesOf (fillsOf symbol seq (matchList o l).trades)) ∧
      (matchList o l).taker.Agrees
        (Entry.enterAll A (entriesOf (fillsOf symbol seq (matchList o l).trades))) ∧
      ∀ m ∈ (matchList o l).rest, m.Agrees
        (Entry.enterAll A (entriesOf (fillsOf symbol seq (matchList o l).trades))) := by
  refine matchList_induction
    (P := fun o l d => ∀ seq A, ((o :: l).map Order.exchangeId).Nodup → o.Agrees A →
      (∀ m ∈ l, m.Agrees A) → Entry.Stated A (entriesOf (fillsOf symbol seq d.trades)) ∧
        d.taker.Agrees (Entry.enterAll A (entriesOf (fillsOf symbol seq d.trades))) ∧
        ∀ m ∈ d.rest, m.Agrees (Entry.enterAll A (entriesOf (fillsOf symbol seq d.trades))))
    ?_ ?_ ?_ ?_ o l seq A hnd ho hl
  · exact fun o seq A _ ho hl => ⟨trivial, ho, hl⟩
  · exact fun o m l _ seq A _ ho hl => ⟨trivial, ho, hl⟩
  · intro o m l _ _ _ seq A hnd ho hl
    obtain ⟨⟨hne, ho'⟩, hm', -⟩ := nodup_cons_cons hnd
    obtain ⟨hstated, htaker, hmaker⟩ := stated_trade hne ho (hl m List.mem_cons_self) symbol
      (seq + 2) (seq + 1) m.price (Trade.of o m).qty
    refine ⟨hstated, htaker, fun x hx => ?_⟩
    rcases List.mem_cons.mp hx with rfl | hx
    · exact hmaker
    · exact (hl x (List.mem_cons_of_mem _ hx)).congr
        (FillPair.enterAll_of_ne (hm' x hx) (ho' x hx))
  · rintro o m l d _ _ _ rfl ih seq A hnd ho hl
    obtain ⟨⟨hne, ho'⟩, hm', hnd'⟩ := nodup_cons_cons hnd
    obtain ⟨hstated, htaker, -⟩ := stated_trade hne ho (hl m List.mem_cons_self) symbol
      (seq + 2) (seq + 1) m.price (Trade.of o m).qty
    obtain ⟨h1, h2, h3⟩ := ih (seq + 2) _ hnd' htaker fun x hx =>
      (hl x (List.mem_cons_of_mem _ hx)).congr
        (FillPair.enterAll_of_ne (hm' x hx) (ho' x hx))
    rw [fillsOf, entriesOf_cons, Entry.stated_append, Entry.enterAll_append]
    exact ⟨⟨hstated, h1⟩, h2, h3⟩

/-- The accounts of orders that take no part in the matching. -/
lemma matchList_frame (symbol : String) (seq : ℕ) {id : String} (ho : id ≠ o.exchangeId)
    (hl : ∀ m ∈ l, id ≠ m.exchangeId) :
    Entry.enterAll A (entriesOf (fillsOf symbol seq (matchList o l).trades)) id = A id := by
  refine Entry.enterAll_of_ne fun e he => ?_
  obtain ⟨f, hf, he⟩ := List.mem_flatMap.mp he
  obtain ⟨t, ht, hmaker, htaker⟩ := mem_fillsOf hf
  obtain ⟨m, hm, y, -, -, rfl⟩ := mem_matchList_trades ht
  rcases List.mem_pair.mp he with rfl | rfl
  · exact fun heq => hl m hm (heq.trans hmaker.exchangeId)
  · exact fun heq => ho (heq.trans htaker.exchangeId)

/-- Matching in a flat book. -/
lemma FlatBook.matchIn_stated {b : FlatBook} (symbol : String) (seq : ℕ)
    (hnd : ((o :: b.orders).map Order.exchangeId).Nodup) (ho : o.Agrees A)
    (hb : ∀ m ∈ b.orders, m.Agrees A) :
    let es := entriesOf (fillsOf symbol seq (b.matchIn o).2.trades)
    Entry.Stated A es ∧ (b.matchIn o).2.taker.Agrees (Entry.enterAll A es) ∧
      ∀ m ∈ (b.matchIn o).1.orders, m.Agrees (Entry.enterAll A es) := by
  intro es
  obtain ⟨hfresh, hnodup⟩ := List.nodup_cons.mp hnd
  rw [FlatBook.orders, List.map_append] at hfresh hnodup
  obtain ⟨hbids, hasks, hne⟩ := List.nodup_append.mp hnodup
  rw [List.mem_append, not_or] at hfresh
  have hid : ∀ {l : List Order} {m : Order}, o.exchangeId ∉ l.map Order.exchangeId → m ∈ l →
      m.exchangeId ≠ o.exchangeId :=
    fun hnot hm heq => hnot (List.mem_map.mpr ⟨_, hm, heq⟩)
  -- the orders on the side of `o` keep their accounts
  have hes : es = entriesOf (fillsOf symbol seq (matchList o (b.opposite o)).trades) := by
    show entriesOf (fillsOf symbol seq (b.matchIn o).2.trades) = _
    rw [matchIn_snd]
  rw [hes, matchIn_snd]
  by_cases hs : o.side = '1'
  · simp only [opposite, FlatBook.matchIn, if_pos hs]
    obtain ⟨h1, h2, h3⟩ := matchList_stated (A := A) symbol seq
      (List.nodup_cons.mpr ⟨hfresh.2, hasks⟩) ho fun m hm => hb m (List.mem_append_right _ hm)
    refine ⟨h1, h2, fun m hm => ?_⟩
    rcases List.mem_append.mp hm with hm | hm
    · refine (hb m (List.mem_append_left _ hm)).congr (matchList_frame symbol seq
        (hid hfresh.1 hm) fun m' hm' => ?_)
      exact hne _ (List.mem_map_of_mem hm) _ (List.mem_map_of_mem hm')
    · exact h3 m hm
  · simp only [opposite, FlatBook.matchIn, if_neg hs]
    obtain ⟨h1, h2, h3⟩ := matchList_stated (A := A) symbol seq
      (List.nodup_cons.mpr ⟨hfresh.1, hbids⟩) ho fun m hm => hb m (List.mem_append_left _ hm)
    refine ⟨h1, h2, fun m hm => ?_⟩
    rcases List.mem_append.mp hm with hm | hm
    · exact h3 m hm
    · refine (hb m (List.mem_append_right _ hm)).congr (matchList_frame symbol seq
        (hid hfresh.2 hm) fun m' hm' => ?_)
      exact (hne _ (List.mem_map_of_mem hm') _ (List.mem_map_of_mem hm)).symm

end

/-! ## The operations of a book -/

/-- Every resting order agrees with its account. -/
def OrderBook.Agrees (b : OrderBook) (A : Accounts String) : Prop :=
  ∀ n ∈ b.nodes, n.order.Agrees A

namespace OrderBook

variable {b : OrderBook} {o : Order} {A A' : Accounts String} {id : String}

lemma Agrees.congr (h : b.Agrees A)
    (hA : ∀ n ∈ b.nodes, A' n.order.exchangeId = A n.order.exchangeId) : b.Agrees A' :=
  fun n hn => (h n hn).congr (hA n hn)

lemma Keyed.nodup_cons (hk : b.Keyed) (hfresh : b.Fresh o.exchangeId) :
    ((o :: b.toFlat.orders).map Order.exchangeId).Nodup := by
  have hnd := hk.nodup
  rw [getOrders_eq] at hnd
  refine List.nodup_cons.mpr ⟨fun hmem => ?_, hnd⟩
  obtain ⟨m, hm, hid⟩ := List.mem_map.mp hmem
  obtain ⟨n, hn, rfl⟩ := mem_orders_toFlat.mp hm
  exact hfresh n hn hid

/-- Matching an order that agrees with its account. -/
lemma Agrees.tryMatch (hA : b.Agrees A) (h : b.Wf) (hk : b.Keyed) (hfresh : b.Fresh o.exchangeId)
    (ho : o.Agrees A) :
    Entry.Stated A (entriesOf (b.tryMatch o).fills) ∧
      (b.tryMatch o).value.Agrees (Entry.enterAll A (entriesOf (b.tryMatch o).fills)) ∧
      (b.tryMatch o).book.Agrees (Entry.enterAll A (entriesOf (b.tryMatch o).fills)) := by
  obtain ⟨hbook, hvalue, hfills⟩ := tryMatch_toFlat h o
  obtain ⟨h1, h2, h3⟩ := FlatBook.matchIn_stated (A := A) b.symbol b.execSeq
    (hk.nodup_cons hfresh) ho fun m hm => by
      obtain ⟨n, hn, rfl⟩ := mem_orders_toFlat.mp hm
      exact hA n hn
  rw [hfills, hvalue]
  refine ⟨h1, h2, fun n hn => h3 _ ?_⟩
  rw [← hbook]
  exact mem_orders_toFlat.mpr ⟨n, hn, rfl⟩

/-- **Adding an order** whose whole quantity is open. -/
lemma Agrees.add (hA : b.Agrees A) (h : b.Wf) (hk : b.Keyed) (hfresh : b.Fresh o.exchangeId)
    (ho : (o.withLeaves o.qty).Agrees A) :
    Entry.Stated A (entriesOf (b.add o).fills) ∧
      (o.withLeaves (b.add o).value).Agrees (Entry.enterAll A (entriesOf (b.add o).fills)) ∧
      (b.add o).book.Agrees (Entry.enterAll A (entriesOf (b.add o).fills)) := by
  have hwf := h.tryMatch (o.withLeaves o.qty)
  obtain ⟨h1, h2, h3⟩ := hA.tryMatch h hk (o := o.withLeaves o.qty) hfresh ho
  have hvalue : (b.tryMatch (o.withLeaves o.qty)).value = o.withLeaves (b.add o).value := by
    rw [(tryMatch_toFlat h _).2.1, matchIn_taker, (add_toFlat h o).2.1, FlatBook.add]
    dsimp only
    rw [matchIn_taker]
    rfl
  rw [← add_fills] at h1 h2 h3
  rw [hvalue] at h2
  refine ⟨h1, h2, fun n hn => ?_⟩
  by_cases hrest : (b.add o).value > 0 ∧ o.type = '2' ∧ o.tif ≠ '3'
  · rw [add_book_of_rests h hrest.1 hrest.2.1 hrest.2.2] at hn
    rcases List.mem_cons.mp ((pushOrder_nodes_perm hwf _).mem_iff.mp hn) with rfl | hn
    · exact h2
    · exact h3 n hn
  · rw [add_book_of_not_rests h hrest] at hn
    exact h3 n hn

lemma mem_entriesOf {fs : List FillPair} {e : Entry} (he : e ∈ entriesOf fs) :
    ∃ f ∈ fs, e.orderId = f.maker.exchangeId ∨ e.orderId = f.taker.exchangeId := by
  obtain ⟨f, hf, he⟩ := List.mem_flatMap.mp he
  rcases List.mem_pair.mp he with rfl | rfl
  · exact ⟨f, hf, Or.inl rfl⟩
  · exact ⟨f, hf, Or.inr rfl⟩

/-- The index of a book says whether a replace finds its order. -/
lemma mem_orderIndex (hk : b.Keyed) (h : b.Wf) : id ∈ b.orderIndex ↔ ¬ b.Fresh id := by
  rw [← not_iff_not, not_not, ← AList.lookup_eq_none]
  exact hk.lookup_eq_none_iff h

/-- What a replace changes in the accounts: the quantity of its order, when it finds it, and what
is traded then. -/
def replaceEntries (b : OrderBook) (id : String) (newPrice : Price) (newQty : ℤ) : List Entry :=
  (if id ∈ b.orderIndex then [.quantity id newQty] else [])
    ++ entriesOf (b.replace id newPrice newQty).fills

/-- **Replacing an order.** -/
lemma Agrees.replace (hA : b.Agrees A) (h : b.Wf) (hk : b.Keyed) (id : String) (p : Price) (q : ℤ) :
    Entry.Stated A (b.replaceEntries id p q) ∧
      (b.replace id p q).book.Agrees (Entry.enterAll A (b.replaceEntries id p q)) ∧
      (0 ≤ (b.replace id p q).value →
        (Entry.enterAll A (b.replaceEntries id p q) id).qty = q ∧
        (Entry.enterAll A (b.replaceEntries id p q) id).openQty = (b.replace id p q).value) := by
  rw [replaceEntries]
  rcases h.replace_eq id p q with ⟨hnone, hr⟩ | ⟨n, hn, hid, hr⟩
  · rw [if_neg (AList.lookup_eq_none.mp hnone), hr]
    exact ⟨trivial, hA, fun hv => absurd hv (by simp)⟩
  · have hfound : id ∈ b.orderIndex := (mem_orderIndex hk h).mpr fun hfresh => hfresh n hn hid
    rw [if_pos hfound]
    -- the other orders keep their accounts when the quantity is set
    have hother : ∀ m ∈ b.nodes, m.order.exchangeId ≠ id → m.order.Agrees (A.renew id q) :=
      fun m hm hne => (hA m hm).congr (Accounts.renew_of_ne hne)
    rcases hr with ⟨-, -, hr⟩ | ⟨-, hr⟩
    · rw [hr]
      refine ⟨⟨fun fill hfill => absurd hfill (by simp), trivial⟩, fun m hm => ?_, fun _ =>
        ⟨congrArg Account.qty Accounts.renew_self,
          (congrArg Account.openQty Accounts.renew_self).trans (Account.renew_openQty ..)⟩⟩
      rw [modify_nodes] at hm
      obtain ⟨m', hm', rfl⟩ := List.mem_map.mp hm
      split_ifs with haddr
      · rw [h.eq_of_addr hm' hn haddr]
        exact Order.agrees_renew hid q A n.order.price
      · refine hother m' hm' fun heq => haddr ?_
        rw [hk.eq_of_id hm' hn (heq.trans hid.symm)]
    · set o : Order := { n.order with price := p, qty := q } with ho
      set b' := b.unlink id n.addr n.order.price n.order.side with hb'
      rw [hr]
      have hA' : b'.Agrees (A.renew id q) := by
        intro m hm
        rw [hb', unlink_nodes h hn] at hm
        obtain ⟨hm, haddr⟩ := List.mem_filter.mp hm
        refine hother m hm fun heq => ?_
        rw [hk.eq_of_id hm hn (heq.trans hid.symm)] at haddr
        simp at haddr
      have hwf := h.unlink hn
      have hkeyed := hk.unlink h hn
      have hfresh := hk.fresh_unlink h hn
      rw [hid] at hwf hkeyed hfresh
      have hoid : o.exchangeId = id := hid
      obtain ⟨h1, h2, h3⟩ := hA'.add hwf hkeyed (o := o) (by rw [hoid]; exact hfresh)
        (Order.agrees_renew hid q A p)
      refine ⟨⟨fun fill hfill => absurd hfill (by simp), h1⟩, h3, fun _ => ?_⟩
      rw [Order.Agrees, Order.withLeaves_exchangeId, hoid] at h2
      exact h2

lemma Agrees.cancel (hA : b.Agrees A) (h : b.Wf) (id : String) : (b.cancel id).1.Agrees A := by
  rcases h.cancel_eq id with ⟨-, hc⟩ | ⟨n, hn, -, hc⟩
  · rw [hc]
    exact hA
  · rw [hc]
    intro m hm
    dsimp only at hm
    rw [unlink_nodes h hn] at hm
    exact hA m (List.mem_of_mem_filter hm)

end OrderBook

end FixExchange
