/-
# Books that trade alike

Two orders are alike when they differ in what matching does not look at: the client's id, the
client, and how much of the order has been filled.  Books whose orders are alike, one by one,
answer the same requests with the same values and the same trades (`run_alike`).
-/
import FixExchange.Engine.BookOps

namespace FixExchange

/-- Orders that trade alike. -/
structure Order.Alike (o o' : Order) : Prop where
  exchangeId : o.exchangeId = o'.exchangeId
  side : o.side = o'.side
  type : o.type = o'.type
  price : o.price = o'.price
  leavesQty : o.leavesQty = o'.leavesQty
  /-- Either both can rest or none. -/
  tif : o.tif = '3' ↔ o'.tif = '3'

/-- Trades of orders that are alike. -/
structure Trade.Alike (t t' : Trade) : Prop where
  maker : t.maker.Alike t'.maker
  taker : t.taker.Alike t'.taker
  price : t.price = t'.price
  qty : t.qty = t'.qty

/-- Reports about the same orders, the same price and the same quantities. -/
structure FillPair.Alike (f f' : FillPair) : Prop where
  makerId : f.maker.exchangeId = f'.maker.exchangeId
  takerId : f.taker.exchangeId = f'.taker.exchangeId
  price : f.maker.price = f'.maker.price
  qty : f.maker.qty = f'.maker.qty
  makerLeaves : f.maker.leavesQty = f'.maker.leavesQty
  takerLeaves : f.taker.leavesQty = f'.taker.leavesQty

namespace Order.Alike

variable {o o' m m' : Order}

lemma refl (o : Order) : o.Alike o := ⟨rfl, rfl, rfl, rfl, rfl, Iff.rfl⟩

lemma withLeaves (h : o.Alike o') (n : ℤ) : (o.withLeaves n).Alike (o'.withLeaves n) :=
  ⟨h.exchangeId, h.side, h.type, h.price, rfl, h.tif⟩

lemma reaches (h : o.Alike o') (p : Price) : o.Reaches p ↔ o'.Reaches p := by
  rw [Order.Reaches, Order.Reaches, h.type, h.side, h.price]

lemma rests (h : o.Alike o') : FlatBook.Rests o ↔ FlatBook.Rests o' := by
  simp only [FlatBook.Rests, h.leavesQty, h.type, ne_eq, h.tif]

lemma trade (ho : o.Alike o') (hm : m.Alike m') : (Trade.of o m).Alike (Trade.of o' m') := by
  simp only [Trade.of, ho.leavesQty, hm.leavesQty, hm.price]
  exact ⟨hm.withLeaves _, ho.withLeaves _, rfl, rfl⟩

end Order.Alike

/-- What matching alike orders leaves. -/
structure Matched.Alike (d d' : Matched) : Prop where
  taker : d.taker.Alike d'.taker
  rest : List.Forall₂ Order.Alike d.rest d'.rest
  trades : List.Forall₂ Trade.Alike d.trades d'.trades

/-- **Alike orders are matched alike.** -/
theorem matchList_alike {l l' : List Order} (hl : List.Forall₂ Order.Alike l l') {o o' : Order}
    (ho : o.Alike o') : (matchList o l).Alike (matchList o' l') := by
  induction hl generalizing o o' with
  | nil => exact ⟨ho, List.Forall₂.nil, List.Forall₂.nil⟩
  | @cons m m' l l' hm hl ih =>
    have ht := ho.trade hm
    by_cases hgo : 0 < o.leavesQty ∧ o.Reaches m.price
    · have hgo' : 0 < o'.leavesQty ∧ o'.Reaches m'.price := by
        rw [← ho.leavesQty, ← hm.price, ← ho.reaches]
        exact hgo
      by_cases h0 : (Trade.of o m).maker.leavesQty = 0
      · have h0' : (Trade.of o' m').maker.leavesQty = 0 := ht.maker.leavesQty.symm.trans h0
        rw [matchList_pop hgo h0, matchList_pop hgo' h0']
        have hrest := ih ht.taker
        exact ⟨hrest.taker, hrest.rest, List.Forall₂.cons ht hrest.trades⟩
      · have h0' : (Trade.of o' m').maker.leavesQty ≠ 0 := ht.maker.leavesQty.symm ▸ h0
        rw [matchList_last hgo h0, matchList_last hgo' h0']
        exact ⟨ht.taker, List.Forall₂.cons ht.maker hl, List.Forall₂.cons ht List.Forall₂.nil⟩
    · have hgo' : ¬(0 < o'.leavesQty ∧ o'.Reaches m'.price) := by
        rw [← ho.leavesQty, ← hm.price, ← ho.reaches]
        exact hgo
      rw [matchList_stop hgo, matchList_stop hgo']
      exact ⟨ho, List.Forall₂.cons hm hl, List.Forall₂.nil⟩

/-- An order goes to the same place among alike orders. -/
lemma orderedInsert_alike {r : Price → Price → Prop} [DecidableRel r] {l l' : List Order}
    (hl : List.Forall₂ Order.Alike l l') {o o' : Order} (ho : o.Alike o') :
    List.Forall₂ Order.Alike (l.orderedInsert (fun x y => r x.price y.price) o)
      (l'.orderedInsert (fun x y => r x.price y.price) o') := by
  induction hl with
  | nil => exact List.Forall₂.cons ho List.Forall₂.nil
  | @cons m m' l l' hm hl ih =>
    rw [List.orderedInsert_cons, List.orderedInsert_cons, ho.price, hm.price]
    split_ifs
    · exact List.Forall₂.cons ho (List.Forall₂.cons hm hl)
    · exact List.Forall₂.cons hm ih

namespace FlatBook

/-- The same queues, of alike orders. -/
structure Alike (b b' : FlatBook) : Prop where
  bids : List.Forall₂ Order.Alike b.bids b'.bids
  asks : List.Forall₂ Order.Alike b.asks b'.asks

namespace Alike

variable {b b' : FlatBook} {o o' : Order}

lemma orders (h : b.Alike b') : List.Forall₂ Order.Alike b.orders b'.orders :=
  List.rel_append h.bids h.asks

lemma place (h : b.Alike b') (ho : o.Alike o') : (b.place o).Alike (b'.place o') := by
  rw [FlatBook.place, FlatBook.place, ho.side]
  split_ifs
  · exact ⟨orderedInsert_alike (r := (· > ·)) h.bids ho, h.asks⟩
  · exact ⟨h.bids, orderedInsert_alike (r := (· < ·)) h.asks ho⟩

lemma matchIn (h : b.Alike b') (ho : o.Alike o') :
    (b.matchIn o).1.Alike (b'.matchIn o').1 ∧ (b.matchIn o).2.Alike (b'.matchIn o').2 := by
  rw [FlatBook.matchIn, FlatBook.matchIn, ho.side]
  split_ifs
  · have hd := matchList_alike h.asks ho
    exact ⟨⟨h.bids, hd.rest⟩, hd⟩
  · have hd := matchList_alike h.bids ho
    exact ⟨⟨hd.rest, h.asks⟩, hd⟩

/-- Results that are alike. -/
structure OfResults (x x' : Result) : Prop where
  book : x.book.Alike x'.book
  value : x.value = x'.value
  trades : List.Forall₂ Trade.Alike x.trades x'.trades

lemma add (h : b.Alike b') (ho : (o.withLeaves o.qty).Alike (o'.withLeaves o'.qty)) :
    OfResults (b.add o) (b'.add o') := by
  obtain ⟨hbook, hd⟩ := h.matchIn ho
  refine ⟨?_, hd.taker.leavesQty, hd.trades⟩
  simp only [FlatBook.add, hd.taker.rests]
  split_ifs
  · exact hbook.place hd.taker
  · exact hbook

lemma delete (h : b.Alike b') (id : String) : (b.delete id).Alike (b'.delete id) := by
  have hfilter : ∀ {l l' : List Order}, List.Forall₂ Order.Alike l l' → List.Forall₂ Order.Alike
      (l.filter fun o => o.exchangeId ≠ id) (l'.filter fun o => o.exchangeId ≠ id) :=
    fun hl => List.rel_filter (fun _ _ ho => by simp [ho.exchangeId]) hl
  exact ⟨hfilter h.bids, hfilter h.asks⟩

lemma find? (h : b.Alike b') (id : String) :
    (b.find? id = none ∧ b'.find? id = none) ∨
      ∃ o o', b.find? id = some o ∧ b'.find? id = some o' ∧ o.Alike o' := by
  have hl := h.orders
  rw [FlatBook.find?, FlatBook.find?]
  generalize b.orders = l, b'.orders = l' at hl
  induction hl with
  | nil => exact Or.inl ⟨rfl, rfl⟩
  | @cons m m' l l' hm hl ih =>
    rw [List.find?_cons, List.find?_cons, hm.exchangeId]
    by_cases hid : m'.exchangeId = id
    · rw [decide_eq_true hid]
      exact Or.inr ⟨m, m', rfl, rfl, hm⟩
    · rw [decide_eq_false hid]
      exact ih

lemma shrinkAt (h : b.Alike b') (id : String) (q : ℤ) :
    (b.shrinkAt id q).Alike (b'.shrinkAt id q) := by
  have hmap : ∀ {l l' : List Order}, List.Forall₂ Order.Alike l l' → List.Forall₂ Order.Alike
      (l.map fun o => if o.exchangeId = id then shrink q o else o)
      (l'.map fun o => if o.exchangeId = id then shrink q o else o) := by
    refine fun hl => List.rel_map (fun o o' ho => ?_) hl
    rw [ho.exchangeId]
    split_ifs
    · exact ⟨rfl.trans ho.exchangeId, ho.side, ho.type, ho.price, rfl, ho.tif⟩
    · exact ho
  exact ⟨hmap h.bids, hmap h.asks⟩

lemma replace (h : b.Alike b') (id : String) (p : Price) (q : ℤ) :
    OfResults (b.replace id p q) (b'.replace id p q) := by
  rcases h.find? id with ⟨hnone, hnone'⟩ | ⟨o, o', ho, ho', halike⟩
  · rw [FlatBook.replace, FlatBook.replace, hnone, hnone']
    exact ⟨h, rfl, List.Forall₂.nil⟩
  · rw [FlatBook.replace, FlatBook.replace, ho, ho']
    dsimp only
    rw [halike.price, halike.leavesQty]
    split_ifs
    · exact ⟨h.shrinkAt id q, rfl, List.Forall₂.nil⟩
    · refine (h.delete id).add ?_
      exact ⟨halike.exchangeId, halike.side, halike.type, rfl, rfl, halike.tif⟩

/-- **A request has the same result on alike books.** -/
theorem apply (h : b.Alike b') (op : BookOp) :
    (b.apply op).1.Alike (b'.apply op).1 ∧ (b.apply op).2.1 = (b'.apply op).2.1 ∧
      List.Forall₂ Trade.Alike (b.apply op).2.2 (b'.apply op).2.2 := by
  cases op with
  | restore o => exact ⟨h.place (.refl o), rfl, List.Forall₂.nil⟩
  | add o =>
    have hr := h.add (Order.Alike.refl (o.withLeaves o.qty))
    exact ⟨hr.book, congrArg OpValue.leaves hr.value, hr.trades⟩
  | cancel id =>
    refine ⟨h.delete id, congrArg OpValue.found ?_, List.Forall₂.nil⟩
    rcases h.find? id with ⟨hnone, hnone'⟩ | ⟨o, o', ho, ho', -⟩
    · rw [FlatBook.cancel, FlatBook.cancel, hnone, hnone']
    · rw [FlatBook.cancel, FlatBook.cancel, ho, ho']
      rfl
  | replace id p q =>
    have hr := h.replace id p q
    exact ⟨hr.book, congrArg OpValue.leaves hr.value, hr.trades⟩

end Alike

end FlatBook

namespace OrderBook

variable {b b' : OrderBook}

/-- The same value, and reports of the same trades. -/
def AlikeOutput (x y : OpValue × List FillPair) : Prop :=
  x.1 = y.1 ∧ List.Forall₂ FillPair.Alike x.2 y.2

/-- Reports of alike trades are alike. -/
lemma fills_alike {fs fs' : List FillPair} {ts ts' : List Trade}
    (h : List.Forall₂ FillPair.Reports fs ts) (h' : List.Forall₂ FillPair.Reports fs' ts')
    (ht : List.Forall₂ Trade.Alike ts ts') : List.Forall₂ FillPair.Alike fs fs' := by
  induction ht generalizing fs fs' with
  | nil =>
    cases h
    cases h'
    exact List.Forall₂.nil
  | cons ht _ ih =>
    cases h with
    | cons hf h =>
      cases h' with
      | cons hf' h' =>
        refine List.Forall₂.cons ⟨?_, ?_, ?_, ?_, ?_, ?_⟩ (ih h h')
        · rw [hf.makerId, hf'.makerId, ht.maker.exchangeId]
        · rw [hf.takerId, hf'.takerId, ht.taker.exchangeId]
        · rw [hf.makerPrice, hf'.makerPrice, ht.price]
        · rw [hf.makerQty, hf'.makerQty, ht.qty]
        · rw [hf.makerLeaves, hf'.makerLeaves, ht.maker.leavesQty]
        · rw [hf.takerLeaves, hf'.takerLeaves, ht.taker.leavesQty]

/-- A request on two books with alike orders. -/
lemma apply_alike (h : b.Inv) (h' : b'.Inv) (halike : b.toFlat.Alike b'.toFlat) (op : BookOp) :
    (b.apply op).1.toFlat.Alike (b'.apply op).1.toFlat ∧
      AlikeOutput (b.apply op).2 (b'.apply op).2 := by
  obtain ⟨hbook, hvalue, hfills⟩ := h.simulates op
  obtain ⟨hbook', hvalue', hfills'⟩ := h'.simulates op
  obtain ⟨hflat, hsame, htrades⟩ := halike.apply op
  refine ⟨?_, ?_, fills_alike hfills hfills' htrades⟩
  · rw [hbook, hbook']
    exact hflat
  · rw [hvalue, hvalue', hsame]

/-- The same operations are admissible on books with alike orders. -/
lemma Admissible.alike {op : BookOp} (h : b.Admissible op) (halike : b.toFlat.Alike b'.toFlat) :
    b'.Admissible op := by
  have hfresh : ∀ {id}, b.Fresh id → b'.Fresh id := by
    intro id hf n hn hid
    have hmem : n.order ∈ b'.toFlat.orders := mem_orders_toFlat.mpr ⟨n, hn, rfl⟩
    obtain ⟨m, hm, hmn⟩ := exists_of_forall₂ halike.orders.flip hmem
    obtain ⟨n₀, hn₀, rfl⟩ := mem_orders_toFlat.mp hm
    exact hf n₀ hn₀ (Order.Alike.exchangeId hmn |>.trans hid)
  cases op with
  | restore o => exact ⟨h.1, h.2.1, h.2.2.1, hfresh h.2.2.2⟩
  | add o => exact ⟨h.1, hfresh h.2⟩
  | cancel id => trivial
  | replace id p q => exact h

/-- **Books with alike orders trade alike**: the same requests have the same results and make
the same trades. -/
theorem run_alike (h : b.Inv) (h' : b'.Inv) (halike : b.toFlat.Alike b'.toFlat)
    {ops : List BookOp} (hops : b.AdmissibleRun ops) :
    List.Forall₂ AlikeOutput (b.run ops).2 (b'.run ops).2 := by
  induction ops generalizing b b' with
  | nil => exact List.Forall₂.nil
  | cons op ops ih =>
    obtain ⟨hflat, hout⟩ := apply_alike h h' halike op
    exact List.Forall₂.cons hout
      (ih (h.apply hops.1) (h'.apply (hops.1.alike halike)) hflat hops.2)

end OrderBook

end FixExchange
