/-
# Operations of the order book and their runs

One lemma for each operation of the book says that it is the operation of the same name on
the flat lists and that it keeps the representation invariant; runs of operations follow by
induction.  The operations that may be applied to a book (`Admissible`) are the ones its
callers apply: restored and new orders have ids that are not in the book, and quantities
are positive.
-/
import FixExchange.Engine.BookInv

namespace FixExchange

/-- An operation of the order book. -/
inductive BookOp
  | restore (o : Order)
  | add (o : Order)
  | cancel (id : String)
  | replace (id : String) (newPrice : Price) (newQty : ℤ)
deriving DecidableEq, Repr

/-- What an operation of the order book returns. -/
inductive OpValue
  | unit
  | leaves (n : ℤ)
  | found (b : Bool)
deriving DecidableEq, Repr

/-- A reported fill describes a trade: the order of both parties, the price, the quantity
and both open quantities. -/
structure FillPair.Reports (f : FillPair) (t : Trade) : Prop where
  makerId : f.maker.exchangeId = t.maker.exchangeId
  takerId : f.taker.exchangeId = t.taker.exchangeId
  makerPrice : f.maker.price = t.price
  takerPrice : f.taker.price = t.price
  makerQty : f.maker.qty = t.qty
  takerQty : f.taker.qty = t.qty
  makerLeaves : f.maker.leavesQty = t.maker.leavesQty
  takerLeaves : f.taker.leavesQty = t.taker.leavesQty

lemma fillsOf_reports (symbol : String) (seq : ℕ) (ts : List Trade) :
    List.Forall₂ FillPair.Reports (fillsOf symbol seq ts) ts := by
  induction ts generalizing seq with
  | nil => exact List.Forall₂.nil
  | cons t ts ih => exact List.Forall₂.cons ⟨rfl, rfl, rfl, rfl, rfl, rfl, rfl, rfl⟩ (ih _)

namespace FlatBook

/-- Apply an operation to the flat lists. -/
def apply (b : FlatBook) : BookOp → FlatBook × OpValue × List Trade
  | .restore o => (b.place o, .unit, [])
  | .add o => ((b.add o).book, .leaves (b.add o).value, (b.add o).trades)
  | .cancel id => ((b.cancel id).1, .found (b.cancel id).2, [])
  | .replace id p q =>
    ((b.replace id p q).book, .leaves (b.replace id p q).value, (b.replace id p q).trades)

/-- Apply operations in order; the outputs of the operations come along. -/
def run (b : FlatBook) : List BookOp → FlatBook × List (OpValue × List Trade)
  | [] => (b, [])
  | op :: ops =>
    let rest := (b.apply op).1.run ops
    (rest.1, (b.apply op).2 :: rest.2)

end FlatBook

namespace OrderBook

/-- Apply an operation to the order book. -/
def apply (b : OrderBook) : BookOp → OrderBook × OpValue × List FillPair
  | .restore o => (b.restore o, .unit, [])
  | .add o => ((b.add o).book, .leaves (b.add o).value, (b.add o).fills)
  | .cancel id => ((b.cancel id).1, .found (b.cancel id).2, [])
  | .replace id p q =>
    ((b.replace id p q).book, .leaves (b.replace id p q).value, (b.replace id p q).fills)

/-- Apply operations in order; the outputs of the operations come along. -/
def run (b : OrderBook) : List BookOp → OrderBook × List (OpValue × List FillPair)
  | [] => (b, [])
  | op :: ops =>
    let rest := (b.apply op).1.run ops
    (rest.1, (b.apply op).2 :: rest.2)

/-- No resting order has this id. -/
def Fresh (b : OrderBook) (id : String) : Prop := ∀ n ∈ b.nodes, n.order.exchangeId ≠ id

instance (b : OrderBook) (id : String) : Decidable (b.Fresh id) := by
  unfold Fresh; infer_instance

/-- The operations the callers of the book apply to it. -/
def Admissible (b : OrderBook) : BookOp → Prop
  | .restore o => o.type = '2' ∧ o.leavesQty = o.qty ∧ 0 < o.qty ∧ b.Fresh o.exchangeId
  | .add o => 0 < o.qty ∧ b.Fresh o.exchangeId
  | .cancel _ => True
  | .replace _ _ newQty => 0 < newQty

instance (b : OrderBook) (op : BookOp) : Decidable (b.Admissible op) := by
  cases op <;> unfold Admissible <;> infer_instance

/-- Every operation of a run is admissible when it is applied. -/
def AdmissibleRun (b : OrderBook) : List BookOp → Prop
  | [] => True
  | op :: ops => b.Admissible op ∧ (b.apply op).1.AdmissibleRun ops

instance decidableAdmissibleRun (b : OrderBook) (ops : List BookOp) :
    Decidable (b.AdmissibleRun ops) :=
  match ops with
  | [] => isTrue trivial
  | op :: ops =>
    have := decidableAdmissibleRun (b.apply op).1 ops
    inferInstanceAs (Decidable (b.Admissible op ∧ (b.apply op).1.AdmissibleRun ops))

/-- Every resting order has a positive open quantity, within its quantity. -/
def Positive (b : OrderBook) : Prop :=
  ∀ n ∈ b.nodes, 0 < n.order.leavesQty ∧ n.order.leavesQty ≤ n.order.qty

variable {b : OrderBook} {o : Order}

/-! ## Adding an order -/

lemma matchIn_taker (b : FlatBook) (o : Order) :
    (b.matchIn o).2.taker = o.withLeaves (o.leavesQty - traded (b.matchIn o).2.trades) := by
  by_cases hs : o.side = '1'
  · simpa [FlatBook.matchIn, hs] using matchList_taker o b.asks
  · simpa [FlatBook.matchIn, hs] using matchList_taker o b.bids

/-- **`add` is `add` on the flat lists.** -/
theorem add_toFlat (h : b.Wf) (o : Order) :
    (b.add o).book.toFlat = (b.toFlat.add o).book ∧
      (b.add o).value = (b.toFlat.add o).value ∧
      (b.add o).fills = fillsOf b.symbol b.execSeq (b.toFlat.add o).trades := by
  obtain ⟨hbook, htaker, hfills⟩ := tryMatch_toFlat h (o.withLeaves o.qty)
  have hwf := h.tryMatch (o.withLeaves o.qty)
  simp only [OrderBook.add, FlatBook.add, FlatBook.Rests, htaker, gt_iff_lt]
  split_ifs
  · exact ⟨by rw [pushOrder_flat hwf, hbook], rfl, hfills⟩
  · exact ⟨hbook, rfl, hfills⟩

lemma Wf.add (h : b.Wf) (o : Order) : (b.add o).book.Wf := by
  have hwf := h.tryMatch (o.withLeaves o.qty)
  simp only [OrderBook.add]
  split_ifs with hrest
  · exact hwf.pushOrder hrest.2.1
  · exact hwf

/-- The ids in the book after matching were in the book before. -/
lemma tryMatch_ids (h : b.Wf) (o : Order) {n : Node} (hn : n ∈ (b.tryMatch o).book.nodes) :
    ∃ m ∈ b.nodes, n.order.LeftOf m.order := by
  by_cases hs : o.side = '1'
  · simp only [tryMatch, if_pos hs] at hn
    rcases List.mem_append.mp hn with hn | hn
    · exact ⟨n, mem_nodes.mpr (Or.inl hn), Or.inl rfl⟩
    · obtain ⟨m, hm, hleft⟩ := mem_matchAgainst _ h.asks_leveled (by simp [hs]) hn
      exact ⟨m, mem_nodes.mpr (Or.inr hm), hleft⟩
  · simp only [tryMatch, if_neg hs] at hn
    rcases List.mem_append.mp hn with hn | hn
    · obtain ⟨m, hm, hleft⟩ := mem_matchAgainst _ h.bids_leveled (by simp [hs]) hn
      exact ⟨m, mem_nodes.mpr (Or.inl hm), hleft⟩
    · exact ⟨n, mem_nodes.mpr (Or.inr hn), Or.inl rfl⟩

lemma Keyed.add (hk : b.Keyed) (h : b.Wf) (hfresh : b.Fresh o.exchangeId) :
    (b.add o).book.Keyed := by
  have hwf := h.tryMatch (o.withLeaves o.qty)
  have htaker := (tryMatch_toFlat h (o.withLeaves o.qty)).2.1
  rw [matchIn_taker] at htaker
  simp only [OrderBook.add]
  split_ifs
  · refine (hk.tryMatch _).pushOrder hwf fun n hn => ?_
    obtain ⟨m, hm, hleft⟩ := tryMatch_ids h _ hn
    rw [htaker, hleft.eq_withLeaves]
    exact hfresh m hm
  · exact hk.tryMatch _

/-- What is left of an order with a positive open quantity has one too. -/
lemma positive_leftOf {m' m : Order} (h : m'.LeftOf m)
    (hm : 0 < m.leavesQty ∧ m.leavesQty ≤ m.qty) : 0 < m'.leavesQty ∧ m'.leavesQty ≤ m'.qty := by
  rcases h with rfl | ⟨x, rfl, hx⟩
  · exact hm
  · obtain ⟨h0, hle⟩ := hx hm.1
    exact ⟨h0, hle.trans hm.2⟩

lemma matchIn_traded_nonneg (hp : b.Positive) (o : Order) :
    0 ≤ traded (b.toFlat.matchIn o).2.trades := by
  by_cases hs : o.side = '1'
  · simp only [FlatBook.matchIn, if_pos hs]
    refine traded_nonneg fun m hm => ?_
    obtain ⟨n, hn, rfl⟩ := List.mem_map.mp hm
    exact (hp n (mem_nodes.mpr (Or.inr hn))).1
  · simp only [FlatBook.matchIn, if_neg hs]
    refine traded_nonneg fun m hm => ?_
    obtain ⟨n, hn, rfl⟩ := List.mem_map.mp hm
    exact (hp n (mem_nodes.mpr (Or.inl hn))).1

lemma Positive.add (hp : b.Positive) (h : b.Wf) (o : Order) : (b.add o).book.Positive := by
  have hwf := h.tryMatch (o.withLeaves o.qty)
  have htaker := (tryMatch_toFlat h (o.withLeaves o.qty)).2.1
  rw [matchIn_taker] at htaker
  have hleft : ∀ n ∈ (b.tryMatch (o.withLeaves o.qty)).book.nodes,
      0 < n.order.leavesQty ∧ n.order.leavesQty ≤ n.order.qty := by
    intro n hn
    obtain ⟨m, hm, hleft⟩ := tryMatch_ids h _ hn
    exact positive_leftOf hleft (hp m hm)
  simp only [OrderBook.add]
  split_ifs with hrest
  · intro n hn
    rcases List.mem_cons.mp ((pushOrder_nodes_perm hwf _).mem_iff.mp hn) with rfl | hn
    · refine ⟨hrest.1, ?_⟩
      have hnonneg := matchIn_traded_nonneg hp (o.withLeaves o.qty)
      simp only [htaker, Order.withLeaves_leavesQty, Order.withLeaves_qty]
      omega
    · exact hleft n hn
  · exact hleft

/-! ## Finding an order -/

lemma find?_toFlat (hk : b.Keyed) {n : Node} (hn : n ∈ b.nodes) :
    b.toFlat.find? n.order.exchangeId = some n.order := by
  rw [FlatBook.find?, orders_toFlat, List.find?_map]
  rcases hf : b.nodes.find? (fun m => decide (m.order.exchangeId = n.order.exchangeId)) with _ | m
  · have hne := List.find?_eq_none.mp hf n hn
    simp at hne
  · have hm : m.order.exchangeId = n.order.exchangeId := by simpa using List.find?_some hf
    have hf' : b.nodes.find? ((fun o : Order => decide (o.exchangeId = n.order.exchangeId))
        ∘ Node.order) = some m := hf
    rw [hf', hk.eq_of_id (List.mem_of_find?_eq_some hf) hn hm]
    rfl

lemma find?_toFlat_eq_none {id : String} (hid : ∀ n ∈ b.nodes, n.order.exchangeId ≠ id) :
    b.toFlat.find? id = none := by
  rw [FlatBook.find?, orders_toFlat]
  refine List.find?_eq_none.mpr fun o ho => ?_
  obtain ⟨n, hn, rfl⟩ := List.mem_map.mp ho
  simpa using hid n hn

/-! ## Cancelling an order -/

/-- A cancel finds no iterator, or unlinks the order that the iterator designates. -/
lemma Wf.cancel_eq (h : b.Wf) (id : String) :
    (b.orderIndex.lookup id = none ∧ b.cancel id = (b, false)) ∨
      ∃ n ∈ b.nodes, n.order.exchangeId = id ∧
        b.cancel id = (b.unlink id n.addr n.order.price n.order.side, true) := by
  rcases hl : b.orderIndex.lookup id with _ | it
  · exact Or.inl ⟨rfl, by simp [OrderBook.cancel, hl]⟩
  · obtain ⟨n, hn, rfl, hid, hderef⟩ := h.node_of_lookup hl
    exact Or.inr ⟨n, hn, hid, by simp [OrderBook.cancel, hl, hderef]⟩

/-- **`cancel` is `cancel` on the flat lists.** -/
theorem cancel_toFlat (hk : b.Keyed) (h : b.Wf) (id : String) :
    (b.cancel id).1.toFlat = (b.toFlat.cancel id).1 ∧
      (b.cancel id).2 = (b.toFlat.cancel id).2 := by
  rcases h.cancel_eq id with ⟨hl, hc⟩ | ⟨n, hn, rfl, hc⟩
  · have hid := (hk.lookup_eq_none_iff h).mp hl
    rw [hc, FlatBook.cancel, find?_toFlat_eq_none hid]
    refine ⟨?_, rfl⟩
    have hkeep : ∀ ns : List Node, (∀ n ∈ ns, n ∈ b.nodes) →
        (ns.map Node.order).filter (fun o => o.exchangeId ≠ id) = ns.map Node.order := by
      intro ns hns
      refine List.filter_eq_self.mpr fun o ho => ?_
      obtain ⟨n, hn, rfl⟩ := List.mem_map.mp ho
      simpa using hid n (hns n hn)
    simp only [FlatBook.delete, toFlat]
    rw [hkeep _ fun n hn => mem_nodes.mpr (Or.inl hn),
      hkeep _ fun n hn => mem_nodes.mpr (Or.inr hn)]
  · rw [hc, FlatBook.cancel, find?_toFlat hk hn, unlink_toFlat hk h hn]
    exact ⟨rfl, rfl⟩

lemma Wf.cancel (h : b.Wf) (id : String) : (b.cancel id).1.Wf := by
  rcases h.cancel_eq id with ⟨-, hc⟩ | ⟨n, hn, rfl, hc⟩
  · rw [hc]; exact h
  · rw [hc]; exact h.unlink hn

lemma Keyed.cancel (hk : b.Keyed) (h : b.Wf) (id : String) : (b.cancel id).1.Keyed := by
  rcases h.cancel_eq id with ⟨-, hc⟩ | ⟨n, hn, rfl, hc⟩
  · rw [hc]; exact hk
  · rw [hc]; exact hk.unlink h hn

lemma Positive.unlink (hp : b.Positive) (h : b.Wf) {n : Node} (hn : n ∈ b.nodes) (id : String) :
    (b.unlink id n.addr n.order.price n.order.side).Positive := by
  intro m hm
  rw [unlink_nodes h hn] at hm
  exact hp m (List.mem_of_mem_filter hm)

lemma Positive.cancel (hp : b.Positive) (h : b.Wf) (id : String) : (b.cancel id).1.Positive := by
  rcases h.cancel_eq id with ⟨-, hc⟩ | ⟨n, hn, rfl, hc⟩
  · rw [hc]; exact hp
  · rw [hc]; exact hp.unlink h hn _

/-! ## Replacing an order -/

/-- A replace finds no iterator, or shrinks the designated order in place, or unlinks it and
adds it again. -/
lemma Wf.replace_eq (h : b.Wf) (id : String) (p : Price) (q : ℤ) :
    (b.orderIndex.lookup id = none ∧ b.replace id p q = ⟨b, -1, []⟩) ∨
      ∃ n ∈ b.nodes, n.order.exchangeId = id ∧
        ((p = n.order.price ∧ q < n.order.leavesQty ∧ b.replace id p q =
            ⟨b.modify n.addr fun o => { o with qty := q, leavesQty := q }, q, []⟩) ∨
          (¬(p = n.order.price ∧ q < n.order.leavesQty) ∧ b.replace id p q =
            (b.unlink id n.addr n.order.price n.order.side).add
              { n.order with price := p, qty := q })) := by
  rcases hl : b.orderIndex.lookup id with _ | it
  · exact Or.inl ⟨rfl, by simp [OrderBook.replace, hl]⟩
  · obtain ⟨n, hn, rfl, hid, hderef⟩ := h.node_of_lookup hl
    refine Or.inr ⟨n, hn, hid, ?_⟩
    by_cases hq : p = n.order.price ∧ q < n.order.leavesQty
    · refine Or.inl ⟨hq.1, hq.2, ?_⟩
      simp only [OrderBook.replace, hl, hderef]
      exact if_pos hq
    · refine Or.inr ⟨hq, ?_⟩
      simp only [OrderBook.replace, hl, hderef]
      exact if_neg hq

/-- **`replace` is `replace` on the flat lists.** -/
theorem replace_toFlat (hk : b.Keyed) (h : b.Wf) (id : String) (p : Price) (q : ℤ) :
    (b.replace id p q).book.toFlat = (b.toFlat.replace id p q).book ∧
      (b.replace id p q).value = (b.toFlat.replace id p q).value ∧
      (b.replace id p q).fills
        = fillsOf b.symbol b.execSeq (b.toFlat.replace id p q).trades := by
  rcases h.replace_eq id p q with ⟨hl, hr⟩ | ⟨n, hn, rfl, hr⟩
  · have hid := (hk.lookup_eq_none_iff h).mp hl
    rw [hr, FlatBook.replace, find?_toFlat_eq_none hid]
    exact ⟨rfl, rfl, rfl⟩
  · rw [FlatBook.replace, find?_toFlat hk hn]
    rcases hr with ⟨hp, hq, hr⟩ | ⟨hne, hr⟩
    · rw [hr]
      dsimp only
      rw [if_pos (And.intro hp hq)]
      exact ⟨modify_toFlat hk h hn q, rfl, rfl⟩
    · rw [hr]
      dsimp only
      rw [if_neg hne]
      obtain ⟨h1, h2, h3⟩ := add_toFlat (h.unlink hn) { n.order with price := p, qty := q }
      rw [unlink_toFlat hk h hn] at h1 h2 h3
      refine ⟨h1, h2, ?_⟩
      have hsym : (b.unlink n.order.exchangeId n.addr n.order.price n.order.side).symbol = b.symbol
          ∧ (b.unlink n.order.exchangeId n.addr n.order.price n.order.side).execSeq
            = b.execSeq := by
        by_cases hs : n.order.side = '1' <;> simp [OrderBook.unlink, hs]
      rw [h3, hsym.1, hsym.2]

lemma Wf.replace (h : b.Wf) (id : String) (p : Price) (q : ℤ) : (b.replace id p q).book.Wf := by
  rcases h.replace_eq id p q with ⟨-, hr⟩ | ⟨n, hn, rfl, ⟨-, -, hr⟩ | ⟨-, hr⟩⟩
  · rw [hr]; exact h
  · rw [hr]
    exact h.modify (f := fun o => { o with qty := q, leavesQty := q })
      (fun _ => rfl) (fun _ => rfl) (fun _ => rfl) fun _ => rfl
  · rw [hr]; exact (h.unlink hn).add _

/-- An unlinked id is fresh. -/
lemma Keyed.fresh_unlink (hk : b.Keyed) (h : b.Wf) {n : Node} (hn : n ∈ b.nodes) :
    (b.unlink n.order.exchangeId n.addr n.order.price n.order.side).Fresh n.order.exchangeId := by
  intro m hm hid
  rw [unlink_nodes h hn] at hm
  obtain ⟨hm, ha⟩ := List.mem_filter.mp hm
  rw [hk.eq_of_id hm hn hid] at ha
  simp at ha

lemma Keyed.replace (hk : b.Keyed) (h : b.Wf) (id : String) (p : Price) (q : ℤ) :
    (b.replace id p q).book.Keyed := by
  rcases h.replace_eq id p q with ⟨-, hr⟩ | ⟨n, hn, rfl, ⟨-, -, hr⟩ | ⟨-, hr⟩⟩
  · rw [hr]; exact hk
  · rw [hr]
    exact hk.modify (f := fun o => { o with qty := q, leavesQty := q }) fun _ => rfl
  · rw [hr]; exact (hk.unlink h hn).add (h.unlink hn) (hk.fresh_unlink h hn)

lemma Positive.replace (hp : b.Positive) (h : b.Wf) (id : String) (p : Price) {q : ℤ}
    (hq : 0 < q) : (b.replace id p q).book.Positive := by
  rcases h.replace_eq id p q with ⟨-, hr⟩ | ⟨n, hn, rfl, ⟨-, -, hr⟩ | ⟨-, hr⟩⟩
  · rw [hr]; exact hp
  · rw [hr]
    intro m hm
    rw [modify_nodes] at hm
    obtain ⟨m', hm', rfl⟩ := List.mem_map.mp hm
    split_ifs
    · exact ⟨hq, le_refl _⟩
    · exact hp m' hm'
  · rw [hr]; exact (hp.unlink h hn _).add (h.unlink hn) _

/-! ## Runs -/

/-- The three parts of the representation invariant. -/
structure Inv (b : OrderBook) : Prop where
  wf : b.Wf
  keyed : b.Keyed
  positive : b.Positive

lemma inv_init (symbol : String) : (init symbol).Inv :=
  ⟨wf_init symbol, keyed_init symbol, by simp [Positive, init, nodes]⟩

/-- An admissible operation keeps the representation invariant. -/
lemma Inv.apply (h : b.Inv) {op : BookOp} (hop : b.Admissible op) : (b.apply op).1.Inv := by
  cases op with
  | restore o =>
    obtain ⟨ht, hl, hq, hfresh⟩ := hop
    refine ⟨h.wf.pushOrder ht, h.keyed.pushOrder h.wf hfresh, fun n hn => ?_⟩
    rcases List.mem_cons.mp ((pushOrder_nodes_perm h.wf o).mem_iff.mp hn) with rfl | hn
    · exact ⟨by rw [hl]; exact hq, hl.le⟩
    · exact h.positive n hn
  | add o =>
    exact ⟨h.wf.add o, h.keyed.add h.wf hop.2, h.positive.add h.wf o⟩
  | cancel id =>
    exact ⟨h.wf.cancel id, h.keyed.cancel h.wf id, h.positive.cancel h.wf id⟩
  | replace id p q =>
    exact ⟨h.wf.replace id p q, h.keyed.replace h.wf id p q, h.positive.replace h.wf id p hop⟩

/-- Every admissible run keeps the representation invariant. -/
lemma Inv.run (h : b.Inv) {ops : List BookOp} (hops : b.AdmissibleRun ops) :
    (b.run ops).1.Inv := by
  induction ops generalizing b with
  | nil => exact h
  | cons op ops ih => exact ih (h.apply hops.1) hops.2

/-- The outputs of an operation on the book and on the flat lists agree: same returned
value, and every reported fill describes the trade made. -/
def SameOutput (x : OpValue × List FillPair) (y : OpValue × List Trade) : Prop :=
  x.1 = y.1 ∧ List.Forall₂ FillPair.Reports x.2 y.2

/-- One operation on the book simulates the operation on the flat lists. -/
lemma Inv.simulates (h : b.Inv) (op : BookOp) :
    (b.apply op).1.toFlat = (b.toFlat.apply op).1 ∧
      SameOutput (b.apply op).2 (b.toFlat.apply op).2 := by
  cases op with
  | restore o => exact ⟨pushOrder_flat h.wf o, rfl, List.Forall₂.nil⟩
  | add o =>
    obtain ⟨h1, h2, h3⟩ := add_toFlat h.wf o
    exact ⟨h1, congrArg OpValue.leaves h2, by
      rw [OrderBook.apply, h3]; exact fillsOf_reports _ _ _⟩
  | cancel id =>
    obtain ⟨h1, h2⟩ := cancel_toFlat h.keyed h.wf id
    exact ⟨h1, congrArg OpValue.found h2, List.Forall₂.nil⟩
  | replace id p q =>
    obtain ⟨h1, h2, h3⟩ := replace_toFlat h.keyed h.wf id p q
    exact ⟨h1, congrArg OpValue.leaves h2, by
      rw [OrderBook.apply, h3]; exact fillsOf_reports _ _ _⟩

/-- An admissible run on the book simulates the run on the flat lists. -/
lemma Inv.run_simulates (h : b.Inv) {ops : List BookOp} (hops : b.AdmissibleRun ops) :
    (b.run ops).1.toFlat = (b.toFlat.run ops).1 ∧
      List.Forall₂ SameOutput (b.run ops).2 (b.toFlat.run ops).2 := by
  induction ops generalizing b with
  | nil => exact ⟨rfl, List.Forall₂.nil⟩
  | cons op ops ih =>
    obtain ⟨hbook, hout⟩ := h.simulates op
    obtain ⟨h1, h2⟩ := ih (h.apply hops.1) hops.2
    rw [hbook] at h1 h2
    exact ⟨h1, List.Forall₂.cons hout h2⟩

end OrderBook

end FixExchange
