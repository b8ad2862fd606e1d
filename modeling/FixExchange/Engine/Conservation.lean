/-
# Trades conserve quantity

Each trade is reported by two fills that mirror each other, and what the fills of an order add up
to is what is missing of its quantity.  A run of a book has a journal (`OrderBook.journal`): the
quantities that are set, when an order is added or replaced, and the fills.  What has been
executed of a resting order since its quantity was set for the last time is read off the journal,
not off the book (`run_conserves`).
-/
import FixExchange.Engine.Accounts
import FixExchange.Engine.PriceTime

namespace FixExchange

/-- The orders of an operation are on one of the two sides. -/
def BookOp.TwoSided : BookOp → Prop
  | .restore o | .add o => o.side = '1' ∨ o.side = '2'
  | .cancel _ | .replace _ _ _ => True

instance (op : BookOp) : Decidable op.TwoSided :=
  match op with
  | .restore o | .add o => inferInstanceAs (Decidable (o.side = '1' ∨ o.side = '2'))
  | .cancel _ | .replace _ _ _ => isTrue trivial

/-- The two fills of a trade mirror each other, and the price is within the limit of the taker. -/
structure FillPair.Symmetric (f : FillPair) : Prop where
  sides : f.maker.side = '1' ∧ f.taker.side = '2' ∨ f.maker.side = '2' ∧ f.taker.side = '1'
  price : f.maker.price = f.taker.price
  qty : f.maker.qty = f.taker.qty
  positive : 1 ≤ f.maker.qty
  limit : f.taker.orderType = '1' ∨
    if f.taker.side = '1' then f.taker.price ≤ f.taker.limitPrice
    else f.taker.limitPrice ≤ f.taker.price

/-- The shares that orders of a side have traded. -/
def sharesOf (side : Char) (fs : List FillPair) : ℤ :=
  ((fs.flatMap fun f => [f.maker, f.taker]).map fun f => if f.side = side then f.qty else 0).sum

/-- What has been executed of an order since its quantity was set, after one more entry. -/
def executedThen (id : String) (n : ℤ) : Entry → ℤ
  | .quantity k _ => if k = id then 0 else n
  | .trade fill => if fill.exchangeId = id then n + fill.qty else n

/-- What has been executed of an order since its quantity was set for the last time. -/
def executedSince (id : String) (es : List Entry) : ℤ := es.foldl (executedThen id) 0

section

variable {A : Accounts String} {es : List Entry} {fs : List FillPair} {id : String}

lemma executedThen_eq (A : Accounts String) (id : String) (e : Entry) :
    executedThen id ((A id).spent - (A id).earlier) e
      = (Entry.enter A e id).spent - (Entry.enter A e id).earlier := by
  by_cases hid : id = e.orderId
  · cases e with
    | quantity k q =>
      obtain rfl : id = k := hid
      rw [executedThen, if_pos rfl, Entry.enter, Accounts.renew_self]
      simp
    | trade fill =>
      obtain rfl : id = fill.exchangeId := hid
      rw [executedThen, if_pos rfl, Entry.enter, Accounts.spend_self]
      simp only [Account.spend_spent, Account.spend_earlier]
      ring
  · rw [Entry.enter_of_ne hid]
    cases e with
    | quantity k q => exact if_neg fun heq => hid heq.symm
    | trade fill => exact if_neg fun heq => hid heq.symm

/-- The accounts have what the journal says. -/
lemma executedSince_eq (es : List Entry) (id : String) :
    executedSince id es = (Entry.enterAll Accounts.blank es id).spent
      - (Entry.enterAll Accounts.blank es id).earlier := by
  have hfold : ∀ (es : List Entry) (A : Accounts String),
      es.foldl (executedThen id) ((A id).spent - (A id).earlier)
        = (Entry.enterAll A es id).spent - (Entry.enterAll A es id).earlier := by
    intro es
    induction es with
    | nil => exact fun _ => rfl
    | cons e es ih =>
      intro A
      rw [List.foldl_cons, executedThen_eq, ih, Entry.enterAll_cons]
  exact hfold es Accounts.blank

lemma sharesOf_cons (side : Char) (f : FillPair) (fs : List FillPair) :
    sharesOf side (f :: fs) = (if f.maker.side = side then f.maker.qty else 0)
      + (if f.taker.side = side then f.taker.qty else 0) + sharesOf side fs := by
  simp [sharesOf, add_assoc]

/-- Symmetric trades are bought as much as they are sold. -/
lemma sharesOf_balanced (h : ∀ f ∈ fs, f.Symmetric) : sharesOf '1' fs = sharesOf '2' fs := by
  induction fs with
  | nil => rfl
  | cons f fs ih =>
    have hf := h f List.mem_cons_self
    rw [sharesOf_cons, sharesOf_cons, ih fun g hg => h g (List.mem_cons_of_mem _ hg)]
    rcases hf.sides with ⟨hm, ht⟩ | ⟨hm, ht⟩ <;> rw [hm, ht, hf.qty] <;> simp

/-- The fills of a trade have the fields of its orders. -/
lemma fillsOf_fields {symbol : String} {seq : ℕ} {ts : List Trade} {f : FillPair}
    (hf : f ∈ fillsOf symbol seq ts) : ∃ t ∈ ts, ∃ i j,
      f.maker = makeFill symbol i t.maker t.price t.qty t.maker.leavesQty ∧
      f.taker = makeFill symbol j t.taker t.price t.qty t.taker.leavesQty := by
  induction ts generalizing seq with
  | nil => exact absurd hf List.not_mem_nil
  | cons t ts ih =>
    rcases List.mem_cons.mp hf with rfl | hf
    · exact ⟨t, List.mem_cons_self, _, _, rfl, rfl⟩
    · obtain ⟨t', ht', hfields⟩ := ih hf
      exact ⟨t', List.mem_cons_of_mem _ ht', hfields⟩

end

namespace OrderBook

variable {b : OrderBook} {o : Order} {op : BookOp}

/-- Every resting order is on one of the two sides. -/
def TwoSided (b : OrderBook) : Prop := ∀ n ∈ b.nodes, n.order.side = '1' ∨ n.order.side = '2'

/-- What an operation enters in the journal. -/
def entries (b : OrderBook) : BookOp → List Entry
  | .restore o => [.quantity o.exchangeId o.qty]
  | .add o => .quantity o.exchangeId o.qty :: entriesOf (b.add o).fills
  | .cancel _ => []
  | .replace id newPrice newQty => b.replaceEntries id newPrice newQty

/-- The journal of a run. -/
def journal (b : OrderBook) : List BookOp → List Entry
  | [] => []
  | op :: ops => b.entries op ++ (b.apply op).1.journal ops

/-- The fills of a run. -/
def runFills (b : OrderBook) (ops : List BookOp) : List FillPair :=
  (b.run ops).2.flatMap fun output => output.2

lemma runFills_cons (b : OrderBook) (op : BookOp) (ops : List BookOp) :
    b.runFills (op :: ops) = (b.apply op).2.2 ++ (b.apply op).1.runFills ops := rfl

/-! ## Sides -/

lemma TwoSided.add (ht : b.TwoSided) (h : b.Wf) (ho : o.side = '1' ∨ o.side = '2') :
    (b.add o).book.TwoSided := by
  have hleft : ∀ {n m : Node}, m ∈ b.nodes → n.order.LeftOf m.order →
      n.order.side = '1' ∨ n.order.side = '2' := by
    intro n m hm hleft
    rw [hleft.eq_withLeaves]
    exact ht m hm
  intro n hn
  by_cases hrest : (b.add o).value > 0 ∧ o.type = '2' ∧ o.tif ≠ '3'
  · rw [add_book_of_rests h hrest.1 hrest.2.1 hrest.2.2] at hn
    rcases List.mem_cons.mp ((pushOrder_nodes_perm (h.tryMatch _) _).mem_iff.mp hn) with rfl | hn
    · exact ho
    · obtain ⟨m, hm, hl⟩ := tryMatch_ids h _ hn
      exact hleft hm hl
  · obtain ⟨m, hm, hl⟩ := add_nodes_of_not_rests h hrest hn
    exact hleft hm hl

lemma TwoSided.unlink (ht : b.TwoSided) (h : b.Wf) {n : Node} (hn : n ∈ b.nodes) (id : String) :
    (b.unlink id n.addr n.order.price n.order.side).TwoSided := by
  intro m hm
  rw [unlink_nodes h hn] at hm
  exact ht m (List.mem_of_mem_filter hm)

lemma TwoSided.apply (ht : b.TwoSided) (h : b.Wf) (hop : op.TwoSided) :
    (b.apply op).1.TwoSided := by
  cases op with
  | restore o =>
    intro n hn
    rcases List.mem_cons.mp ((pushOrder_nodes_perm h o).mem_iff.mp hn) with rfl | hn
    · exact hop
    · exact ht n hn
  | add o => exact ht.add h hop
  | cancel id =>
    rcases h.cancel_eq id with ⟨-, hc⟩ | ⟨n, hn, rfl, hc⟩
    · rw [apply, hc]
      exact ht
    · rw [apply, hc]
      exact ht.unlink h hn _
  | replace id p q =>
    rcases h.replace_eq id p q with ⟨-, hr⟩ | ⟨n, hn, rfl, ⟨-, -, hr⟩ | ⟨-, hr⟩⟩
    · rw [apply, hr]
      exact ht
    · rw [apply, hr]
      intro m hm
      dsimp only at hm
      rw [modify_nodes] at hm
      obtain ⟨m', hm', rfl⟩ := List.mem_map.mp hm
      split_ifs
      · exact ht m' hm'
      · exact ht m' hm'
    · rw [apply, hr]
      exact (ht.unlink h hn _).add (h.unlink hn) (ht n hn)

/-! ## Trades -/

/-- The orders that an order trades against are on the other side. -/
lemma side_of_mem_opposite (ht : b.TwoSided) (h : b.Wf) (ho : o.side = '1' ∨ o.side = '2')
    {m : Order} (hm : m ∈ b.toFlat.opposite o) :
    m.side = '1' ∧ o.side = '2' ∨ m.side = '2' ∧ o.side = '1' := by
  rw [FlatBook.opposite] at hm
  rcases ho with ho | ho
  · rw [if_pos ho] at hm
    obtain ⟨n, hn, rfl⟩ := List.mem_map.mp hm
    exact Or.inr ⟨(ht n (mem_nodes.mpr (Or.inr hn))).resolve_left (h.asks_side n hn), ho⟩
  · rw [if_neg (by rw [ho]; decide)] at hm
    obtain ⟨n, hn, rfl⟩ := List.mem_map.mp hm
    exact Or.inl ⟨h.bids_side n hn, ho⟩

/-- **The fills of an order that is added.** -/
lemma add_symmetric (ht : b.TwoSided) (hinv : b.Wf) (hp : b.Positive)
    (ho : o.side = '1' ∨ o.side = '2') {f : FillPair} (hf : f ∈ (b.add o).fills) :
    f.Symmetric := by
  rw [(add_toFlat hinv o).2.2] at hf
  obtain ⟨t, htrade, i, j, hmaker, htaker⟩ := fillsOf_fields hf
  rw [FlatBook.add] at htrade
  dsimp only at htrade
  rw [FlatBook.matchIn_snd, FlatBook.opposite_withLeaves] at htrade
  obtain ⟨m, hm, y, hy, hreach, rfl⟩ := mem_matchList_trades htrade
  have hside := side_of_mem_opposite ht hinv ho hm
  obtain ⟨n, hn, rfl⟩ := mem_opposite hm
  have hqty : 0 < (Trade.of (((o.withLeaves o.qty)).withLeaves y) n.order).qty :=
    lt_min hy (hp n hn).1
  refine ⟨?_, ?_, ?_, ?_, ?_⟩
  · rw [hmaker, htaker]
    exact hside
  · rw [hmaker, htaker]
    rfl
  · rw [hmaker, htaker]
    rfl
  · rw [hmaker]
    exact hqty
  · rw [htaker]
    exact hreach

/-- The fills of an operation. -/
lemma apply_symmetric (ht : b.TwoSided) (h : b.Inv) (hop : op.TwoSided) {f : FillPair}
    (hf : f ∈ (b.apply op).2.2) : f.Symmetric := by
  cases op with
  | restore o => exact absurd hf List.not_mem_nil
  | add o => exact add_symmetric ht h.wf h.positive hop hf
  | cancel id => exact absurd hf List.not_mem_nil
  | replace id p q =>
    rcases h.wf.replace_eq id p q with ⟨-, hr⟩ | ⟨n, hn, rfl, ⟨-, -, hr⟩ | ⟨-, hr⟩⟩
    · rw [apply, hr] at hf
      exact absurd hf List.not_mem_nil
    · rw [apply, hr] at hf
      exact absurd hf List.not_mem_nil
    · rw [apply, hr] at hf
      exact add_symmetric (o := { n.order with price := p, qty := q }) (ht.unlink h.wf hn _)
        (h.wf.unlink hn) (h.positive.unlink h.wf hn _) (ht n hn) hf

/-- Matching takes from the resting orders what it trades. -/
lemma openQty_matchList (o : Order) (l : List Order) :
    FixExchange.openQty l
      = FixExchange.openQty (matchList o l).rest + traded (matchList o l).trades := by
  refine matchList_induction
    (P := fun _ l d =>
      FixExchange.openQty l = FixExchange.openQty d.rest + traded d.trades) ?_ ?_ ?_ ?_ o l
  · exact fun _ => by simp
  · exact fun _ _ _ _ => by simp
  · intro o m l _ _ _
    simp only [openQty_cons, traded_cons, traded_nil, Trade.of_maker, Order.withLeaves_leavesQty]
    omega
  · intro o m l d _ _ h0 _ ih
    rw [Trade.of_maker, Order.withLeaves_leavesQty] at h0
    dsimp only
    rw [openQty_cons, traded_cons, ih]
    omega

/-- An order that is put in the book leaves the side that it trades against as it is. -/
lemma opposite_place (b : FlatBook) {m o : Order} (hside : m.side = o.side) :
    (b.place m).opposite o = b.opposite o := by
  by_cases hs : o.side = '1'
  · rw [FlatBook.opposite, FlatBook.opposite, if_pos hs, if_pos hs, FlatBook.place,
      if_pos (hside.trans hs)]
  · rw [FlatBook.opposite, FlatBook.opposite, if_neg hs, if_neg hs, FlatBook.place,
      if_neg (by rw [hside]; exact hs)]

lemma opposite_matchIn (b : FlatBook) (o : Order) :
    (b.matchIn o).1.opposite o = (matchList o (b.opposite o)).rest := by
  by_cases hs : o.side = '1' <;> simp [FlatBook.opposite, FlatBook.matchIn, hs]

/-- **What an order takes from the other side** is what it has been filled with. -/
lemma add_drop (h : b.Wf) (o : Order) :
    FixExchange.openQty (b.toFlat.opposite o)
        - FixExchange.openQty ((b.add o).book.toFlat.opposite o)
      = o.qty - (b.add o).value := by
  have hrest : (b.add o).book.toFlat.opposite o
      = (matchList (o.withLeaves o.qty) (b.toFlat.opposite o)).rest := by
    have hmatch := opposite_matchIn b.toFlat (o.withLeaves o.qty)
    rw [FlatBook.opposite_withLeaves, FlatBook.opposite_withLeaves] at hmatch
    rw [(add_toFlat h o).1, FlatBook.add]
    dsimp only
    split_ifs
    · rw [opposite_place _ (by rw [matchIn_taker]; rfl), hmatch]
    · exact hmatch
  have hconserve := openQty_matchList (o.withLeaves o.qty) (b.toFlat.opposite o)
  rw [hrest, add_value_eq h, matchList_taker_leaves, Order.withLeaves_leavesQty]
  omega

/-! ## Runs -/

/-- An operation keeps the orders in agreement with the journal. -/
lemma Agrees.apply {A : Accounts String} (hA : b.Agrees A) (h : b.Inv) (hop : b.Admissible op) :
    (b.apply op).1.Agrees (Entry.enterAll A (b.entries op)) := by
  cases op with
  | restore o =>
    obtain ⟨-, hleaves, -, hfresh⟩ := hop
    intro n hn
    rcases List.mem_cons.mp ((pushOrder_nodes_perm h.wf o).mem_iff.mp hn) with rfl | hn
    · have hagrees := Order.agrees_renew (m := o) rfl o.qty A o.price
      rw [← o.withLeaves_self, hleaves]
      exact hagrees
    · exact (hA n hn).congr (Accounts.renew_of_ne (hfresh n hn))
  | add o =>
    have hA' : b.Agrees (A.renew o.exchangeId o.qty) :=
      hA.congr fun n hn => Accounts.renew_of_ne (hop.2 n hn)
    exact (hA'.add h.wf h.keyed hop.2 (Order.agrees_renew rfl o.qty A o.price)).2.2
  | cancel id => exact hA.cancel h.wf id
  | replace id p q => exact (hA.replace h.wf h.keyed id p q).2.1

/-- A run keeps the orders in agreement with the journal, and all its fills are symmetric. -/
lemma run_agrees {A : Accounts String} {ops : List BookOp} (h : b.Inv) (ht : b.TwoSided)
    (hA : b.Agrees A) (hops : b.AdmissibleRun ops) (hsides : ∀ op ∈ ops, op.TwoSided) :
    (b.run ops).1.Agrees (Entry.enterAll A (b.journal ops)) ∧
      ∀ f ∈ b.runFills ops, f.Symmetric := by
  induction ops generalizing b A with
  | nil => exact ⟨hA, fun f hf => absurd hf List.not_mem_nil⟩
  | cons op ops ih =>
    have hside := hsides op List.mem_cons_self
    obtain ⟨hagrees, hfills⟩ := ih (h.apply hops.1) (ht.apply h.wf hside) (hA.apply h hops.1)
      hops.2 fun op' hop' => hsides op' (List.mem_cons_of_mem _ hop')
    refine ⟨?_, fun f hf => ?_⟩
    · rw [journal, Entry.enterAll_append]
      exact hagrees
    · rw [runFills_cons] at hf
      rcases List.mem_append.mp hf with hf | hf
      · exact apply_symmetric ht h hside hf
      · exact hfills f hf

/-- `Conserves b es fs`: on the book `b`, reached by a run with the journal `es` and the fills
`fs`, no share is lost or made. -/
structure Conserves (b : OrderBook) (es : List Entry) (fs : List FillPair) : Prop where
  symmetric : ∀ f ∈ fs, f.Symmetric
  /-- What is missing of the quantity of an order has been executed since it was set. -/
  executed : ∀ n ∈ b.nodes,
    n.order.qty - n.order.leavesQty = executedSince n.order.exchangeId es
  balanced : sharesOf '1' fs = sharesOf '2' fs
  /-- What an order takes from the other side it has been filled with. -/
  drop : ∀ o, FixExchange.openQty (b.toFlat.opposite o)
      - FixExchange.openQty ((b.add o).book.toFlat.opposite o) = o.qty - (b.add o).value

/-- **Trades are symmetric and conserve quantity**, after any sequence of operations. -/
theorem run_conserves (symbol : String) (ops : List BookOp)
    (h : (init symbol).AdmissibleRun ops) (hsides : ∀ op ∈ ops, op.TwoSided) :
    ((init symbol).run ops).1.Conserves ((init symbol).journal ops)
      ((init symbol).runFills ops) := by
  have hempty : ∀ n, n ∉ (init symbol).nodes := by simp [init, nodes]
  obtain ⟨hagrees, hfills⟩ := run_agrees (A := Accounts.blank) (inv_init symbol)
    (fun n hn => absurd hn (hempty n)) (fun n hn => absurd hn (hempty n)) h hsides
  refine ⟨hfills, fun n hn => ?_, sharesOf_balanced hfills,
    add_drop ((inv_init symbol).run h).wf⟩
  obtain ⟨hqty, hopen⟩ := hagrees n hn
  rw [executedSince_eq, ← hqty, ← hopen, Account.openQty]
  ring

/-- The orders of `sampleOps`, of which the third takes the first and part of it rests and is
met by a replaced order. -/
def sampleTrades : List BookOp :=
  [.add (sampleOrder "1" '2' '2' '0' 10 5), .add (sampleOrder "2" '2' '2' '0' 11 5),
    .add (sampleOrder "3" '1' '2' '0' 10 7), .replace "2" 10 4]

theorem run_conserves_sample :
    executedSince "2" ((init "X").journal sampleTrades) = 2 ∧
      ((init "X").run sampleTrades).1.Conserves ((init "X").journal sampleTrades)
        ((init "X").runFills sampleTrades) :=
  ⟨by decide, run_conserves "X" sampleTrades (by decide) (by decide)⟩

end OrderBook

end FixExchange
