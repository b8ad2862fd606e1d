/-
# What happens to an order

Where the quantity of an incoming order goes when the engine processes it: fills, the rest
that stays in the book, and the rest that its time in force cancels.  Fill-or-kill orders
trade completely or not at all, immediate-or-cancel orders never rest (`tif_on_reachable`),
and every share of an order is accounted for unless it is a market order without a time in
force that the book cannot absorb (`accountsFor_iff`).
-/
import FixExchange.Engine.Liquidity
import FixExchange.Engine.MatchingEngine
import FixExchange.Engine.PriceTime

namespace FixExchange

namespace Callback

/-- The quantity a call reports as filled for the incoming order. -/
def filledQty : Callback → ℤ
  | .onFill _ taker => taker.qty
  | _ => 0

/-- The quantity a call reports as resting. -/
def restedQty : Callback → ℤ
  | .onOrderRested _ leaves => leaves
  | _ => 0

/-- The quantity a call reports as cancelled by the time in force. -/
def tifCancelledQty : Callback → ℤ
  | .onTIFCancel order => order.leavesQty
  | _ => 0

/-- The order a call announces as cancelled by its time in force. -/
def tifCancelled? : Callback → Option Order
  | .onTIFCancel order => some order
  | _ => none

/-- The order and the quantity a call announces as resting. -/
def rested? : Callback → Option (Order × ℤ)
  | .onOrderRested order leaves => some (order, leaves)
  | _ => none

/-- The total of what a sequence of calls reports. -/
def total (qty : Callback → ℤ) (cbs : List Callback) : ℤ := (cbs.map qty).sum

@[simp] lemma total_nil (qty : Callback → ℤ) : total qty [] = 0 := rfl

@[simp] lemma total_cons (qty : Callback → ℤ) (cb : Callback) (cbs : List Callback) :
    total qty (cb :: cbs) = qty cb + total qty cbs := by
  simp [total]

@[simp] lemma total_append (qty : Callback → ℤ) (cbs cbs' : List Callback) :
    total qty (cbs ++ cbs') = total qty cbs + total qty cbs' := by
  simp [total]

end Callback

open Callback

/-! ## The fills of an order -/

@[simp] lemma total_filledQty_fills (fs : List FillPair) :
    total filledQty (fillCallbacks fs) = (fs.map fun f => f.taker.qty).sum := by
  simp [total, fillCallbacks, Function.comp_def, filledQty]

@[simp] lemma total_restedQty_fills (fs : List FillPair) :
    total restedQty (fillCallbacks fs) = 0 := by
  induction fs with
  | nil => rfl
  | cons f fs ih => simpa [fillCallbacks, restedQty] using ih

@[simp] lemma total_tifCancelledQty_fills (fs : List FillPair) :
    total tifCancelledQty (fillCallbacks fs) = 0 := by
  induction fs with
  | nil => rfl
  | cons f fs ih => simpa [fillCallbacks, tifCancelledQty] using ih

@[simp] lemma filterMap_tifCancelled_fills (fs : List FillPair) :
    (fillCallbacks fs).filterMap tifCancelled? = [] := by
  simp [fillCallbacks, List.filterMap_map, tifCancelled?, Function.comp_def]

@[simp] lemma filterMap_rested_fills (fs : List FillPair) :
    (fillCallbacks fs).filterMap rested? = [] := by
  simp [fillCallbacks, List.filterMap_map, rested?, Function.comp_def]

lemma sum_taker_fillsOf (symbol : String) (seq : ℕ) (ts : List Trade) :
    ((fillsOf symbol seq ts).map fun f => f.taker.qty).sum = traded ts := by
  induction ts generalizing seq with
  | nil => rfl
  | cons t ts ih =>
    rw [fillsOf, List.map_cons, List.sum_cons, ih, traded_cons]
    rfl

/-- A fill is about an order. -/
structure Fill.Of (f : Fill) (o : Order) : Prop where
  exchangeId : f.exchangeId = o.exchangeId
  clordId : f.clordId = o.clordId
  clientId : f.clientId = o.clientId
  side : f.side = o.side

/-- The fills reported for trades are about the orders of the trades. -/
lemma mem_fillsOf {symbol : String} {seq : ℕ} {ts : List Trade} {f : FillPair}
    (hf : f ∈ fillsOf symbol seq ts) : ∃ t ∈ ts, f.maker.Of t.maker ∧ f.taker.Of t.taker := by
  induction ts generalizing seq with
  | nil => exact absurd hf List.not_mem_nil
  | cons t ts ih =>
    rcases List.mem_cons.mp hf with rfl | hf
    · exact ⟨t, List.mem_cons_self, ⟨rfl, rfl, rfl, rfl⟩, ⟨rfl, rfl, rfl, rfl⟩⟩
    · obtain ⟨t', ht', hparties⟩ := ih hf
      exact ⟨t', List.mem_cons_of_mem _ ht', hparties⟩

namespace OrderBook

variable {b : OrderBook} {o : Order}

/-- What is filled of an order is what it trades. -/
lemma add_fillsOf (h : b.Wf) (o : Order) :
    (b.add o).fills = fillsOf b.symbol b.execSeq
      (matchList (o.withLeaves o.qty) (b.toFlat.opposite o)).trades := by
  rw [(add_toFlat h o).2.2, FlatBook.add]
  dsimp only
  rw [FlatBook.matchIn_snd, FlatBook.opposite_withLeaves]

/-- What an order does not trade is what `add` returns. -/
lemma add_filled (h : b.Wf) (o : Order) :
    total filledQty (fillCallbacks (b.add o).fills) = o.qty - (b.add o).value := by
  rw [total_filledQty_fills, add_fillsOf h, sum_taker_fillsOf, add_value_eq h,
    matchList_taker_leaves, Order.withLeaves_leavesQty]
  ring

lemma add_value_nonneg (h : b.Wf) (hq : 0 ≤ o.qty) : 0 ≤ (b.add o).value := by
  rw [add_value_eq h]
  exact matchList_taker_nonneg hq

/-- The parties of a fill of a new order. -/
theorem add_fill_parties (h : b.Wf) (o : Order) {f : FillPair} (hf : f ∈ (b.add o).fills) :
    (∃ m ∈ b.nodes, f.maker.Of m.order) ∧ f.taker.Of o := by
  rw [(add_toFlat h o).2.2] at hf
  obtain ⟨t, ht, hmaker, htaker⟩ := mem_fillsOf hf
  rw [FlatBook.add] at ht
  dsimp only at ht
  rw [FlatBook.matchIn_snd] at ht
  obtain ⟨m, hm, y, -, -, rfl⟩ := mem_matchList_trades ht
  obtain ⟨n, hn, rfl⟩ := mem_opposite hm
  exact ⟨⟨n, hn, hmaker.exchangeId, hmaker.clordId, hmaker.clientId, hmaker.side⟩,
    htaker.exchangeId, htaker.clordId, htaker.clientId, htaker.side⟩

/-- The parties of a fill of a replaced order; the replace keeps the ids of the order. -/
theorem replace_fill_parties (h : b.Wf) {id : String} {p : Price} {q : ℤ}
    {f : FillPair} (hf : f ∈ (b.replace id p q).fills) :
    (∃ m ∈ b.nodes, f.maker.Of m.order) ∧
      ∃ m ∈ b.nodes, m.order.exchangeId = id ∧ f.taker.Of m.order := by
  rcases h.replace_eq id p q with ⟨-, hr⟩ | ⟨m, hm, rfl, ⟨-, -, hr⟩ | ⟨-, hr⟩⟩
  · rw [hr] at hf
    exact absurd hf List.not_mem_nil
  · rw [hr] at hf
    exact absurd hf List.not_mem_nil
  · rw [hr] at hf
    obtain ⟨⟨m', hm', hmaker⟩, htaker⟩ := add_fill_parties (h.unlink hm) _ hf
    rw [unlink_nodes h hm] at hm'
    exact ⟨⟨m', List.mem_of_mem_filter hm', hmaker⟩, m, hm, rfl,
      htaker.exchangeId, htaker.clordId, htaker.clientId, htaker.side⟩

/-- The fills of `add` are fills of the order. -/
lemma add_taker_id (h : b.Wf) (o : Order) {f : FillPair} (hf : f ∈ (b.add o).fills) :
    f.taker.exchangeId = o.exchangeId :=
  (add_fill_parties h o hf).2.exchangeId

lemma add_fills (b : OrderBook) (o : Order) :
    (b.add o).fills = (b.tryMatch (o.withLeaves o.qty)).fills := by
  simp only [OrderBook.add]
  split_ifs <;> rfl

/-- The book after an order that may not rest has been added. -/
lemma add_book_of_not_rests (h : b.Wf)
    (hno : ¬(0 < (b.add o).value ∧ o.type = '2' ∧ o.tif ≠ '3')) :
    (b.add o).book = (b.tryMatch (o.withLeaves o.qty)).book := by
  have htaker := (tryMatch_toFlat h (o.withLeaves o.qty)).2.1
  rw [matchIn_taker] at htaker
  have hvalue : (b.add o).value = (b.tryMatch (o.withLeaves o.qty)).value.leavesQty := by
    simp only [OrderBook.add]
    split_ifs <;> rfl
  rw [hvalue] at hno
  simp only [OrderBook.add]
  rw [if_neg]
  rw [htaker] at hno ⊢
  exact hno

/-- An order that may not rest leaves nothing new in the book. -/
lemma add_nodes_of_not_rests (h : b.Wf)
    (hno : ¬((b.add o).value > 0 ∧ o.type = '2' ∧ o.tif ≠ '3')) {n : Node}
    (hn : n ∈ (b.add o).book.nodes) : ∃ m ∈ b.nodes, n.order.LeftOf m.order := by
  rw [add_book_of_not_rests h hno] at hn
  exact tryMatch_ids h _ hn

/-- The book after an order that may rest has been added. -/
lemma add_book_of_rests (h : b.Wf) (hv : (b.add o).value > 0) (ht : o.type = '2')
    (htif : o.tif ≠ '3') :
    (b.add o).book
      = (b.tryMatch (o.withLeaves o.qty)).book.pushOrder (o.withLeaves (b.add o).value) := by
  have htaker := (tryMatch_toFlat h (o.withLeaves o.qty)).2.1
  rw [matchIn_taker] at htaker
  have hvalue : (b.add o).value = (b.tryMatch (o.withLeaves o.qty)).value.leavesQty := by
    simp only [OrderBook.add]
    split_ifs <;> rfl
  have horder : (b.tryMatch (o.withLeaves o.qty)).value = o.withLeaves (b.add o).value := by
    rw [hvalue, htaker]
    rfl
  rw [← horder]
  simp only [OrderBook.add]
  rw [if_pos]
  rw [horder]
  exact ⟨hv, ht, htif⟩

/-- An order that may rest does, with the quantity that `add` returns. -/
lemma add_rests (h : b.Wf) (hv : (b.add o).value > 0) (ht : o.type = '2') (htif : o.tif ≠ '3') :
    ∃ n ∈ (b.add o).book.nodes, n.order = o.withLeaves (b.add o).value := by
  rw [add_book_of_rests h hv ht htif]
  refine ⟨⟨(b.tryMatch (o.withLeaves o.qty)).book.nextAddr, o.withLeaves (b.add o).value⟩, ?_, rfl⟩
  exact (pushOrder_nodes_perm (h.tryMatch _) _).mem_iff.mpr List.mem_cons_self

/-! ## Time in force -/

/-- Fill or kill: everything or nothing. -/
def FillsOrKills (b : OrderBook) (o : Order) : Prop :=
  let (book, cbs) := processOrder b o
  (total filledQty cbs = o.qty ∧ cbs.filterMap tifCancelled? = [] ∧ cbs.filterMap rested? = [] ∧
      ∀ n ∈ book.nodes, ∃ m ∈ b.nodes, n.order.LeftOf m.order) ∨
    (book = b ∧ cbs = [.onTIFCancel (o.withLeaves o.qty)])

/-- Immediate or cancel: what is not filled is cancelled. -/
def FillsThenCancels (b : OrderBook) (o : Order) : Prop :=
  let (book, cbs) := processOrder b o
  (∀ n ∈ book.nodes, ∃ m ∈ b.nodes, n.order.LeftOf m.order) ∧ cbs.filterMap rested? = [] ∧
    cbs.filterMap tifCancelled?
      = if o.qty - total filledQty cbs > 0 then [o.withLeaves (o.qty - total filledQty cbs)] else []

lemma processOrder_fok (htif : o.tif = '4') :
    processOrder b o = if b.availableToFill o < o.qty then
        (b, [.onTIFCancel (o.withLeaves o.qty)])
      else ((b.add o).book, fillCallbacks (b.add o).fills) := by
  rw [processOrder, if_pos htif]

lemma processOrder_ioc (htif : o.tif = '3') :
    processOrder b o = ((b.add o).book, fillCallbacks (b.add o).fills
      ++ if (b.add o).value > 0 then [.onTIFCancel (o.withLeaves (b.add o).value)] else []) := by
  rw [processOrder, if_neg (by rw [htif]; decide)]
  dsimp only
  by_cases hv : (b.add o).value > 0
  · rw [if_pos ⟨htif, hv⟩, if_pos hv]
  · rw [if_neg fun h => hv h.2, if_neg fun h => hv h.1, if_neg hv, List.append_nil]

lemma processOrder_rest (htif : o.tif ≠ '4') (htif' : o.tif ≠ '3') :
    processOrder b o = ((b.add o).book, fillCallbacks (b.add o).fills
      ++ if (b.add o).value > 0 ∧ o.type = '2' then [.onOrderRested o (b.add o).value] else []) := by
  rw [processOrder, if_neg htif]
  dsimp only
  rw [if_neg fun h => htif' h.1]
  split_ifs
  · rfl
  · rw [List.append_nil]

/-- The total of the pre-check is never too large. -/
lemma availableToFill_le (h : b.Inv) (ht : o.type = '1' ∨ o.type = '2') :
    b.availableToFill o ≤ b.availableExact o := by
  refine WrapSum.wrapSum_le 32 ?_
  rw [addends_eq h.wf ht]
  refine openQty_nonneg fun m hm => ?_
  obtain ⟨n, hn, rfl⟩ := mem_opposite (Order.mem_of_mem_reachable hm)
  exact (h.positive n hn).1

/-- A fill-or-kill order that passes the pre-check is exhausted. -/
lemma add_value_of_available (h : b.Inv) (ht : o.type = '1' ∨ o.type = '2') (hq : 0 ≤ o.qty)
    (havail : ¬ b.availableToFill o < o.qty) : (b.add o).value = 0 := by
  have hle := availableToFill_le h ht
  rw [add_value h ht hq]
  omega

lemma fillsOrKills (h : b.Inv) (ht : o.type = '1' ∨ o.type = '2') (hq : 0 ≤ o.qty)
    (htif : o.tif = '4') : b.FillsOrKills o := by
  rw [FillsOrKills, processOrder_fok htif]
  split_ifs with havail
  · exact Or.inr ⟨rfl, rfl⟩
  · have hv := add_value_of_available h ht hq havail
    refine Or.inl ⟨?_, by simp, by simp, fun n hn => add_nodes_of_not_rests h.wf ?_ hn⟩
    · rw [add_filled h.wf, hv, sub_zero]
    · rw [hv]
      simp

lemma fillsThenCancels (h : b.Wf) (htif : o.tif = '3') : b.FillsThenCancels o := by
  rw [FillsThenCancels, processOrder_ioc htif]
  have hfilled := add_filled h o
  dsimp only
  rw [total_append, hfilled]
  by_cases hv : (b.add o).value > 0
  · rw [if_pos hv]
    refine ⟨fun n hn => add_nodes_of_not_rests h (fun hr => hr.2.2 htif) hn, ?_, ?_⟩
    · simp [rested?]
    · have hqty : o.qty - (o.qty - (b.add o).value + total filledQty
          [.onTIFCancel (o.withLeaves (b.add o).value)]) = (b.add o).value := by
        simp [filledQty]
      rw [hqty, if_pos hv]
      simp [tifCancelled?]
  · rw [if_neg hv]
    refine ⟨fun n hn => add_nodes_of_not_rests h (fun hr => hr.2.2 htif) hn, by simp, ?_⟩
    have hqty : o.qty - (o.qty - (b.add o).value + total filledQty []) = (b.add o).value := by
      simp
    rw [hqty, if_neg hv]
    simp

/-- **Time in force.**  On every reachable book the pre-check says what `add` returns, with its
total as an exact integer; a fill-or-kill order is filled completely or killed, and an
immediate-or-cancel order never rests. -/
theorem tif_on_reachable (symbol : String) (ops : List BookOp)
    (h : (init symbol).AdmissibleRun ops) (o : Order) (ht : o.type = '1' ∨ o.type = '2')
    (hq : 0 < o.qty) :
    let b := ((init symbol).run ops).1
    (b.add o).value = max 0 (o.qty - b.availableExact o) ∧
      (o.tif = '4' → b.FillsOrKills o) ∧ (o.tif = '3' → b.FillsThenCancels o) := by
  have hinv := (inv_init symbol).run h
  exact ⟨add_value hinv ht hq.le, fillsOrKills hinv ht hq.le, fillsThenCancels hinv.wf⟩

/-- Orders to sell at three prices, of which a buy order, a replace and a cancel leave five shares
at 10 and three at 11. -/
def askingOps : List BookOp :=
  [.add (sampleOrder "1" '2' '2' '0' 10 4), .add (sampleOrder "2" '2' '2' '0' 11 5),
    .add (sampleOrder "3" '2' '2' '0' 10 3), .add (sampleOrder "4" '2' '2' '0' 12 6),
    .add (sampleOrder "5" '1' '2' '0' 10 2), .replace "2" 11 3, .cancel "4"]

/-- A fill-or-kill order sweeps both levels, and one of more shares is killed; of an
immediate-or-cancel order the rest is cancelled. -/
theorem tif_on_reachable_sample :
    let b := ((init "X").run askingOps).1
    let fok := sampleOrder "7" '1' '2' '4' 11 7
    let ioc := sampleOrder "8" '1' '1' '3' 0 10
    b.availableExact fok = 8 ∧ b.availableExact ioc = 8 ∧
      ((b.add fok).value = 0 ∧ b.FillsOrKills fok ∧
        total filledQty (processOrder b fok).2 = 7 ∧
        (processOrder b fok).1.getOrders.map Order.leavesQty = [1]) ∧
      ((b.add ioc).value = 2 ∧ b.FillsThenCancels ioc ∧
        (processOrder b ioc).2.filterMap tifCancelled? = [ioc.withLeaves 2]) := by
  intro b fok ioc
  obtain ⟨hfok, hfills, -⟩ := tif_on_reachable "X" askingOps (by decide) fok (by decide) (by decide)
  obtain ⟨hioc, -, hcancels⟩ := tif_on_reachable "X" askingOps (by decide) ioc (by decide) (by decide)
  have hfokAvailable : b.availableExact fok = 8 := by decide +kernel
  have hiocAvailable : b.availableExact ioc = 8 := by decide +kernel
  refine ⟨hfokAvailable, hiocAvailable,
    ⟨hfok.trans ?_, hfills rfl, by decide +kernel, by decide +kernel⟩,
    hioc.trans ?_, hcancels rfl, by decide +kernel⟩
  · exact congrArg (fun x => max 0 (fok.qty - x)) hfokAvailable
  · exact congrArg (fun x => max 0 (ioc.qty - x)) hiocAvailable

/-! ## Accounting for every share -/

/-- What the engine reports about an order adds up to its quantity, and what it reports as
resting is what rests; and what is left of the order is an `int` all the time. -/
structure AccountsFor (b : OrderBook) (o : Order) : Prop where
  total : o.qty = total filledQty (processOrder b o).2 + total restedQty (processOrder b o).2
    + total tifCancelledQty (processOrder b o).2
  taker : ∀ maker taker, .onFill maker taker ∈ (processOrder b o).2 →
    taker.exchangeId = o.exchangeId
  rested : ∀ o' leaves, .onOrderRested o' leaves ∈ (processOrder b o).2 → o' = o ∧
    (∃ n ∈ (processOrder b o).1.nodes, n.order.exchangeId = o.exchangeId) ∧
    ∀ n ∈ (processOrder b o).1.nodes, n.order.exchangeId = o.exchangeId →
      n.order.leavesQty = leaves
  in_range : ∀ maker taker, .onFill maker taker ∈ (processOrder b o).2 →
    taker.leavesQty ≤ maxInt

lemma mem_fillCallbacks {fs : List FillPair} {cb : Callback} :
    cb ∈ fillCallbacks fs ↔ ∃ f ∈ fs, cb = .onFill f.maker f.taker := by
  simp only [fillCallbacks, List.mem_map]
  constructor
  · rintro ⟨f, hf, rfl⟩; exact ⟨f, hf, rfl⟩
  · rintro ⟨f, hf, rfl⟩; exact ⟨f, hf, rfl⟩

/-- The calls made for an order: its fills, and at most one call about its rest. -/
lemma processOrder_calls (b : OrderBook) (o : Order) :
    ∃ fs last, (fs = [] ∨ fs = (b.add o).fills) ∧ (processOrder b o).2 = fillCallbacks fs ++ last ∧
      (∀ cb ∈ last, cb = .onTIFCancel (o.withLeaves o.qty) ∨
        cb = .onTIFCancel (o.withLeaves (b.add o).value) ∨
        (cb = .onOrderRested o (b.add o).value ∧ (b.add o).value > 0 ∧ o.type = '2' ∧
          o.tif ≠ '3' ∧ (processOrder b o).1 = (b.add o).book)) := by
  by_cases h4 : o.tif = '4'
  · rw [processOrder_fok h4]
    split_ifs
    · exact ⟨[], [_], Or.inl rfl, rfl, by simp⟩
    · exact ⟨_, [], Or.inr rfl, (List.append_nil _).symm, by simp⟩
  · by_cases h3 : o.tif = '3'
    · rw [processOrder_ioc h3]
      refine ⟨_, _, Or.inr rfl, rfl, fun cb hcb => ?_⟩
      split_ifs at hcb
      · exact Or.inr (Or.inl (List.mem_singleton.mp hcb))
      · exact absurd hcb List.not_mem_nil
    · rw [processOrder_rest h4 h3]
      refine ⟨_, _, Or.inr rfl, rfl, fun cb hcb => ?_⟩
      split_ifs at hcb with hr
      · exact Or.inr (Or.inr ⟨List.mem_singleton.mp hcb, hr.1, hr.2, h3, rfl⟩)
      · exact absurd hcb List.not_mem_nil

/-- What is reported about an order is about it, and is true. -/
lemma reports_true (h : b.Wf) (hk : b.Keyed) (hfresh : b.Fresh o.exchangeId) :
    (∀ maker taker, .onFill maker taker ∈ (processOrder b o).2 →
        taker.exchangeId = o.exchangeId) ∧
      ∀ o' leaves, .onOrderRested o' leaves ∈ (processOrder b o).2 → o' = o ∧
        (∃ n ∈ (processOrder b o).1.nodes, n.order.exchangeId = o.exchangeId) ∧
        ∀ n ∈ (processOrder b o).1.nodes, n.order.exchangeId = o.exchangeId →
          n.order.leavesQty = leaves := by
  obtain ⟨fs, last, hfs, hcbs, hlast⟩ := processOrder_calls b o
  constructor
  · intro maker taker hmem
    rw [hcbs] at hmem
    rcases List.mem_append.mp hmem with hmem | hmem
    · obtain ⟨f, hf, heq⟩ := mem_fillCallbacks.mp hmem
      obtain ⟨-, rfl⟩ := Callback.onFill.inj heq
      rcases hfs with rfl | rfl
      · exact absurd hf List.not_mem_nil
      · exact add_taker_id h o hf
    · rcases hlast _ hmem with h1 | h1 | ⟨h1, -⟩ <;> exact absurd h1 (by simp)
  · intro o' leaves hmem
    rw [hcbs] at hmem
    rcases List.mem_append.mp hmem with hmem | hmem
    · obtain ⟨f, -, heq⟩ := mem_fillCallbacks.mp hmem
      exact absurd heq (by simp)
    · rcases hlast _ hmem with h1 | h1 | ⟨h1, hv, ht, htif, hbook⟩
      · exact absurd h1 (by simp)
      · exact absurd h1 (by simp)
      · obtain ⟨rfl, rfl⟩ := Callback.onOrderRested.inj h1
        obtain ⟨n, hn, hno⟩ := add_rests h hv ht htif
        rw [hbook]
        refine ⟨rfl, ⟨n, hn, by rw [hno]; rfl⟩, fun m hm hid => ?_⟩
        have hkey := hk.add h hfresh
        rw [hkey.eq_of_id hm hn (by rw [hid, hno]; rfl), hno]
        rfl

/-- The sum of the quantities that the engine reports about an order. -/
def reported (cbs : List Callback) : ℤ :=
  total filledQty cbs + total restedQty cbs + total tifCancelledQty cbs

/-- What is reported about an order that is not killed: what is filled, and the rest if it is
cancelled or rests. -/
lemma reported_processOrder (hkill : ¬ (o.tif = '4' ∧ b.availableToFill o < o.qty)) :
    reported (processOrder b o).2 = total filledQty (fillCallbacks (b.add o).fills)
      + if 0 < (b.add o).value ∧ (o.tif = '3' ∨ o.tif ≠ '4' ∧ o.type = '2')
        then (b.add o).value else 0 := by
  by_cases h4 : o.tif = '4'
  · have hrest : ¬ (0 < (b.add o).value ∧ (o.tif = '3' ∨ o.tif ≠ '4' ∧ o.type = '2')) := by
      simp [h4]
    rw [processOrder_fok h4, if_neg fun hlt => hkill ⟨h4, hlt⟩, if_neg hrest, reported,
      total_restedQty_fills, total_tifCancelledQty_fills]
    ring
  · by_cases h3 : o.tif = '3'
    · rw [processOrder_ioc h3]
      simp only [reported, total_append, total_restedQty_fills, total_tifCancelledQty_fills, h3,
        true_or, and_true, gt_iff_lt]
      split_ifs <;> simp [filledQty, Callback.restedQty, tifCancelledQty]
    · rw [processOrder_rest h4 h3]
      simp only [reported, total_append, total_restedQty_fills, total_tifCancelledQty_fills, h3, h4,
        ne_eq, false_or, not_false_eq_true, true_and, gt_iff_lt]
      split_ifs <;> simp [filledQty, Callback.restedQty, tifCancelledQty]

lemma reported_of_killed (h4 : o.tif = '4') (hkill : b.availableToFill o < o.qty) :
    reported (processOrder b o).2 = o.qty := by
  rw [processOrder_fok h4, if_pos hkill]
  simp [reported, filledQty, Callback.restedQty, tifCancelledQty]

lemma fillCallbacks_in_range {symbol : String} {seq : ℕ} {ts : List Trade} :
    (∀ maker taker, Callback.onFill maker taker ∈ fillCallbacks (fillsOf symbol seq ts) →
      taker.leavesQty ≤ maxInt) ↔ TradesInRange ts := by
  have hreports := fillsOf_reports symbol seq ts
  constructor
  · intro h t ht
    obtain ⟨f, hf, hrep⟩ := exists_of_forall₂ hreports.flip ht
    rw [← hrep.takerLeaves]
    exact h f.maker f.taker (mem_fillCallbacks.mpr ⟨f, hf, rfl⟩)
  · intro h maker taker hmem
    obtain ⟨f, hf, heq⟩ := mem_fillCallbacks.mp hmem
    obtain ⟨-, rfl⟩ := Callback.onFill.inj heq
    obtain ⟨t, ht, hrep⟩ := exists_of_forall₂ hreports hf
    rw [hrep.takerLeaves]
    exact h t ht

/-- The fills that are reported about an order that is not killed. -/
lemma onFill_mem_processOrder (hkill : ¬ (o.tif = '4' ∧ b.availableToFill o < o.qty))
    {maker taker : Fill} : .onFill maker taker ∈ (processOrder b o).2 ↔
      .onFill maker taker ∈ fillCallbacks (b.add o).fills := by
  by_cases h4 : o.tif = '4'
  · rw [processOrder_fok h4, if_neg fun hlt => hkill ⟨h4, hlt⟩]
  · by_cases h3 : o.tif = '3'
    · rw [processOrder_ioc h3, List.mem_append]
      split_ifs <;> simp
    · rw [processOrder_rest h4 h3, List.mem_append]
      split_ifs <;> simp

/-- **When every share is accounted for.**  An order is exhausted by the orders that it reaches; or
it trades with all of them, and is one whose rest is cancelled or rests and is announced; and what
is left of it stays an `int` on the way.  Or it is killed by the pre-check. -/
theorem accountsFor_iff (h : b.Wf) (hk : b.Keyed) (hfresh : b.Fresh o.exchangeId)
    (hq : 0 < o.qty) :
    b.AccountsFor o ↔ (o.withLeaves o.qty).AbsorbedInRange (b.toFlat.opposite o) ∨
      StaysInt o.qty (o.reachable (b.toFlat.opposite o)) ∧
        (o.tif = '3' ∨ o.tif ≠ '4' ∧ o.type = '2') ∨
      o.tif = '4' ∧ b.availableToFill o < o.qty := by
  obtain ⟨htaker, hrested⟩ := reports_true h hk hfresh
  -- all that matters is whether the totals add up, in the range
  have hiff : b.AccountsFor o ↔ o.qty = reported (processOrder b o).2 ∧
      ∀ maker taker, .onFill maker taker ∈ (processOrder b o).2 → taker.leavesQty ≤ maxInt :=
    ⟨fun hacc => ⟨hacc.total, hacc.in_range⟩, fun hall => ⟨hall.1, htaker, hrested, hall.2⟩⟩
  rw [hiff]
  by_cases hkill : o.tif = '4' ∧ b.availableToFill o < o.qty
  · refine iff_of_true ⟨(reported_of_killed hkill.1 hkill.2).symm, ?_⟩ (Or.inr (Or.inr hkill))
    rw [processOrder_fok hkill.1, if_pos hkill.2]
    simp
  obtain ⟨habsorbed, hran_out, hout⟩ := matchList_ends (o := o.withLeaves o.qty)
    (l := b.toFlat.opposite o) hq.le
  have hfilled := add_filled h o
  simp only [onFill_mem_processOrder hkill, add_fillsOf h, fillCallbacks_in_range]
  rw [reported_processOrder hkill, hfilled]
  rw [← add_value_eq h] at habsorbed hran_out
  simp only [Order.withLeaves_leavesQty, Order.reachable_withLeaves] at habsorbed hran_out hout
  by_cases ha : (o.withLeaves o.qty).AbsorbedInRange (b.toFlat.opposite o)
  · obtain ⟨hvalue, hrange⟩ := habsorbed ha
    refine iff_of_true ⟨?_, hrange⟩ (Or.inl ha)
    rw [hvalue, if_neg (by simp)]
    ring
  by_cases hs : StaysInt o.qty (o.reachable (b.toFlat.opposite o))
  · -- all reached orders are traded away, and something is left
    obtain ⟨hpos, hrange⟩ := hran_out ha hs
    simp only [ha, hs, hkill, hpos, hrange, true_and, and_true, false_or, or_false]
    split_ifs with hrest
    · exact iff_of_true (by ring) hrest
    · exact iff_of_false (by omega) hrest
  · exact iff_of_false (fun hall => hout ha hs hall.2) (by simp [ha, hs, hkill])

end OrderBook

end FixExchange
