/-
# The order book keeps price-time priority

The main results about one order book: every run of it is a run of the flat lists
(`run_refines_flat`), its levels, nodes and index always fit together (`run_represents`), so
that a cancel removes exactly the order it names, and its two sides never meet
(`run_uncrossed`).
-/
import FixExchange.Engine.BookOps

namespace FixExchange

/-- The operations that client requests lead to: all but `restore`. -/
def BookOp.IsRequest : BookOp → Prop
  | .restore _ => False
  | _ => True

instance (op : BookOp) : Decidable op.IsRequest :=
  match op with
  | .restore _ => isFalse False.elim
  | .add _ | .cancel _ | .replace _ _ _ => isTrue trivial

namespace OrderBook

variable {b : OrderBook}

/-! ## Refinement -/

/-- **Price-time priority.**  After any sequence of operations the concatenation of the price
levels is the flat book that the same operations lead to, and every operation has returned
the same value and reported the same trades. -/
theorem run_refines_flat (symbol : String) (ops : List BookOp)
    (h : (init symbol).AdmissibleRun ops) :
    ((init symbol).run ops).1.toFlat = (FlatBook.empty.run ops).1 ∧
      List.Forall₂ SameOutput ((init symbol).run ops).2 (FlatBook.empty.run ops).2 :=
  (inv_init symbol).run_simulates h

/-- An order of the example runs below. -/
def sampleOrder (id : String) (side type tif : Char) (price : Price) (qty : ℤ) : Order where
  clordId := "C" ++ id
  exchangeId := id
  clientId := "A"
  symbol := "X"
  side := side
  type := type
  price := price
  qty := qty
  leavesQty := qty
  tif := tif

/-- Two sell orders, a buy order that sweeps the first, a replace, and a cancel. -/
def sampleOps : List BookOp :=
  [.add (sampleOrder "1" '2' '2' '0' 10 5), .add (sampleOrder "2" '2' '2' '0' 11 5),
    .add (sampleOrder "3" '1' '2' '0' 10 7), .replace "2" 10 4, .cancel "2"]

theorem run_refines_flat_sample :
    (init "X").AdmissibleRun sampleOps ∧
      ((init "X").run sampleOps).1.toFlat = (FlatBook.empty.run sampleOps).1 ∧
      List.Forall₂ SameOutput ((init "X").run sampleOps).2 (FlatBook.empty.run sampleOps).2 :=
  ⟨by decide, run_refines_flat "X" sampleOps (by decide)⟩

/-! ## Representation -/

/-- What a side of the book stores under a price: at least one order, and only open limit
orders with this price, of the right side. -/
def LevelsOk {r : Price → Price → Prop} (side : BookSide r) (ok : Char → Prop) : Prop :=
  ∀ e ∈ side.entries, e.2 ≠ [] ∧ ∀ n ∈ e.2, n.order.price = e.1 ∧ n.order.type = '2' ∧
    ok n.order.side ∧ 0 < n.order.leavesQty ∧ n.order.leavesQty ≤ n.order.qty

/-- The representation invariant of the book, spelled out. -/
structure Represents (b : OrderBook) : Prop where
  /-- The keys of the index are the ids of the resting orders. -/
  index_keys : ∀ id, id ∈ b.orderIndex ↔ ∃ n ∈ b.nodes, n.order.exchangeId = id
  /-- No id rests twice. -/
  ids_nodup : (b.nodes.map fun n => n.order.exchangeId).Nodup
  /-- No two list nodes share an address. -/
  addrs_nodup : (b.nodes.map Node.addr).Nodup
  /-- An iterator in the index designates the order with the id it is filed under. -/
  index_designates : ∀ id it, b.orderIndex.lookup id = some it →
    ∃ o, b.deref it = some o ∧ o.exchangeId = id
  bids_ok : LevelsOk b.bids fun side => side = '1'
  asks_ok : LevelsOk b.asks fun side => side ≠ '1'

/-- What a cancel does to the book: it succeeds when an order with the id rests, and drops
that order from its level and from the index, and nothing else. -/
structure CancelsExactly (b : OrderBook) (id : String) : Prop where
  found_iff : (b.cancel id).2 = true ↔ ∃ n ∈ b.nodes, n.order.exchangeId = id
  bids : ∀ p, (b.cancel id).1.bids.findD p []
    = (b.bids.findD p []).filter fun n => n.order.exchangeId ≠ id
  asks : ∀ p, (b.cancel id).1.asks.findD p []
    = (b.asks.findD p []).filter fun n => n.order.exchangeId ≠ id
  index : ∀ id', (b.cancel id).1.orderIndex.lookup id'
    = if id' = id then none else b.orderIndex.lookup id'

lemma Inv.represents (h : b.Inv) : b.Represents where
  index_keys id := by
    rw [← AList.lookup_isSome, Option.isSome_iff_ne_none, ne_eq, h.keyed.lookup_eq_none_iff h.wf]
    push Not
    rfl
  ids_nodup := by
    have := h.keyed.keys_nodup
    rwa [keys, List.map_map] at this
  addrs_nodup := by
    have := h.wf.index_sound.addr_nodup
    rwa [keys, List.map_map] at this
  index_designates id it hit := by
    obtain ⟨n, -, -, hid, hderef⟩ := h.wf.node_of_lookup hit
    exact ⟨n.order, hderef, hid⟩
  bids_ok e he := by
    obtain ⟨hne, hprice⟩ := h.wf.bids_leveled e he
    refine ⟨hne, fun n hn => ?_⟩
    have hflat := SortedMap.mem_flat.mpr ⟨e, he, hn⟩
    have hnode := mem_nodes.mpr (Or.inl hflat)
    exact ⟨hprice n hn, h.wf.limit n hnode, h.wf.bids_side n hflat, h.positive n hnode⟩
  asks_ok e he := by
    obtain ⟨hne, hprice⟩ := h.wf.asks_leveled e he
    refine ⟨hne, fun n hn => ?_⟩
    have hflat := SortedMap.mem_flat.mpr ⟨e, he, hn⟩
    have hnode := mem_nodes.mpr (Or.inr hflat)
    exact ⟨hprice n hn, h.wf.limit n hnode, h.wf.asks_side n hflat, h.positive n hnode⟩

/-- The levels of a side whose flat list has been filtered. -/
lemma findD_of_flat_filter {r : Price → Price → Prop} [DecidableRel r]
    [IsStrictTotalOrder Price r] {side side' : BookSide r} (h : side.Leveled Node.price)
    (h' : side'.Leveled Node.price) {f : Node → Bool} (hf : side'.flat = side.flat.filter f)
    (p : Price) : side'.findD p [] = (side.findD p []).filter f := by
  rw [h.findD_eq_filter, h'.findD_eq_filter, hf, List.filter_comm]

lemma Inv.cancelsExactly (h : b.Inv) (id : String) : b.CancelsExactly id := by
  have hwf := h.wf.cancel id
  rcases h.wf.cancel_eq id with ⟨hl, hc⟩ | ⟨n, hn, rfl, hc⟩
  · -- no order has this id: filtering it out changes nothing
    have hid := (h.keyed.lookup_eq_none_iff h.wf).mp hl
    have hkeep : ∀ ns : List Node, (∀ n ∈ ns, n ∈ b.nodes) →
        ns = ns.filter fun n => n.order.exchangeId ≠ id := fun ns hns =>
      (List.filter_eq_self.mpr fun n hn => by simpa using hid n (hns n hn)).symm
    rw [hc] at hwf
    refine ⟨?_, fun p => ?_, fun p => ?_, fun id' => ?_⟩
    · simp only [hc, Bool.false_eq_true, false_iff]
      rintro ⟨n, hn, hnid⟩
      exact hid n hn hnid
    · rw [hc]
      exact findD_of_flat_filter hwf.bids_leveled hwf.bids_leveled
        (hkeep _ fun n hn => mem_nodes.mpr (Or.inl hn)) p
    · rw [hc]
      exact findD_of_flat_filter hwf.asks_leveled hwf.asks_leveled
        (hkeep _ fun n hn => mem_nodes.mpr (Or.inr hn)) p
    · rw [hc]
      by_cases hid' : id' = id
      · rw [if_pos hid', hid', hl]
      · rw [if_neg hid']
  · obtain ⟨hbids, hasks⟩ := unlink_flat_id h.keyed h.wf hn
    rw [hc] at hwf
    refine ⟨?_, fun p => ?_, fun p => ?_, fun id' => ?_⟩
    · rw [hc]
      exact iff_of_true rfl ⟨n, hn, rfl⟩
    · rw [hc]
      exact findD_of_flat_filter h.wf.bids_leveled hwf.bids_leveled hbids p
    · rw [hc]
      exact findD_of_flat_filter h.wf.asks_leveled hwf.asks_leveled hasks p
    · rw [hc, (unlink_index b _ _ _ _).1]
      by_cases hid' : id' = n.order.exchangeId
      · rw [if_pos hid', hid', AList.lookup_erase]
      · rw [if_neg hid', AList.lookup_erase_ne hid']

/-- **The representation invariant.**  After any sequence of operations the index, the levels
and the orders of the book fit together, and a cancel removes exactly the order it names. -/
theorem run_represents (symbol : String) (ops : List BookOp)
    (h : (init symbol).AdmissibleRun ops) :
    ((init symbol).run ops).1.Represents ∧
      ∀ id, ((init symbol).run ops).1.CancelsExactly id := by
  have hinv := (inv_init symbol).run h
  exact ⟨hinv.represents, hinv.cancelsExactly⟩

theorem run_represents_sample :
    (init "X").AdmissibleRun (.restore (sampleOrder "0" '1' '2' '0' 9 3) :: sampleOps) ∧
      ((init "X").run (.restore (sampleOrder "0" '1' '2' '0' 9 3) :: sampleOps)).1.Represents ∧
      ∀ id, ((init "X").run
        (.restore (sampleOrder "0" '1' '2' '0' 9 3) :: sampleOps)).1.CancelsExactly id :=
  ⟨by decide, run_represents "X" _ (by decide)⟩

/-! ## The two sides never meet -/

/-- Every resting buy price is strictly below every resting sell price. -/
def Uncrossed (b : OrderBook) : Prop :=
  ∀ n ∈ b.bids.flat, ∀ m ∈ b.asks.flat, n.order.price < m.order.price

/-- Matching takes nothing to the other side, and changes no price. -/
lemma Uncrossed.tryMatch (hu : b.Uncrossed) (h : b.Wf) (o : Order) :
    (b.tryMatch o).book.Uncrossed := by
  by_cases hs : o.side = '1'
  · simp only [OrderBook.tryMatch, if_pos hs]
    intro n hn m hm
    obtain ⟨m', hm', hleft⟩ := mem_matchAgainst _ h.asks_leveled (by simp [hs]) hm
    exact hleft.of_forall (P := fun x => n.order.price < x.price) fun _ => hu n hn m' hm'
  · simp only [OrderBook.tryMatch, if_neg hs]
    intro n hn m hm
    obtain ⟨n', hn', hleft⟩ := mem_matchAgainst _ h.bids_leveled (by simp [hs]) hn
    exact hleft.of_forall (P := fun x => x.price < m.order.price) fun _ => hu n' hn' m hm

/-- Beyond the head of a side the prices are no better. -/
lemma not_reaches_of_head {r : Price → Price → Prop} [IsStrictTotalOrder Price r]
    {side : BookSide r} (hl : side.Leveled Node.price) {P : Price → Prop}
    (hP : ∀ p q, ¬ r q p → P p → P q)
    (hhead : ∀ m ∈ (side.flat.map Node.order).head?, P m.price) :
    ∀ m ∈ side.flat, P m.order.price := by
  have hsorted := hl.flat_sorted
  cases hf : side.flat with
  | nil => simp
  | cons n ns =>
    rw [hf] at hsorted hhead
    obtain ⟨hall, -⟩ := List.pairwise_cons.mp hsorted
    have hn : P n.order.price := hhead n.order (by simp)
    intro m hm
    rcases List.mem_cons.mp hm with rfl | hm
    · exact hn
    · exact hP _ _ (hall m hm) hn

/-- What is still open after matching does not reach the orders that are left. -/
lemma tryMatch_exit (h : b.Wf) (o : Order) (hopen : 0 < (b.tryMatch o).value.leavesQty) :
    (o.side = '1' → ∀ m ∈ (b.tryMatch o).book.asks.flat, ¬ o.Reaches m.order.price) ∧
      (o.side ≠ '1' → ∀ m ∈ (b.tryMatch o).book.bids.flat, ¬ o.Reaches m.order.price) := by
  obtain ⟨hbook, htaker, -⟩ := tryMatch_toFlat h o
  have hwf := h.tryMatch o
  rw [htaker] at hopen
  constructor
  · intro hs
    have hasks : (b.tryMatch o).book.asks.flat.map Node.order
        = (matchList o (b.asks.flat.map Node.order)).rest := by
      have := congrArg FlatBook.asks hbook
      rwa [FlatBook.matchIn, if_pos hs] at this
    rw [FlatBook.matchIn, if_pos hs] at hopen
    refine not_reaches_of_head hwf.asks_leveled (P := fun p => ¬ o.Reaches p) ?_ ?_
    · rintro p q hpq hp (ht | hq)
      · exact hp (Or.inl ht)
      · rw [if_pos hs] at hq
        exact hp (Or.inr (by rw [if_pos hs]; exact (not_lt.mp hpq).trans hq))
    · rw [hasks]
      exact (matchList_exit o _).resolve_left (not_le.mpr hopen)
  · intro hs
    have hbids : (b.tryMatch o).book.bids.flat.map Node.order
        = (matchList o (b.bids.flat.map Node.order)).rest := by
      have := congrArg FlatBook.bids hbook
      rwa [FlatBook.matchIn, if_neg hs] at this
    rw [FlatBook.matchIn, if_neg hs] at hopen
    refine not_reaches_of_head hwf.bids_leveled (P := fun p => ¬ o.Reaches p) ?_ ?_
    · rintro p q hpq hp (ht | hq)
      · exact hp (Or.inl ht)
      · rw [if_neg hs] at hq
        exact hp (Or.inr (by rw [if_neg hs]; exact hq.trans (not_lt.mp hpq)))
    · rw [hbids]
      exact (matchList_exit o _).resolve_left (not_le.mpr hopen)

/-- Appending an order that does not reach the other side. -/
lemma Uncrossed.pushOrder (hu : b.Uncrossed) (h : b.Wf) {o : Order}
    (hasks : o.side = '1' → ∀ m ∈ b.asks.flat, o.price < m.order.price)
    (hbids : o.side ≠ '1' → ∀ m ∈ b.bids.flat, m.order.price < o.price) :
    (b.pushOrder o).Uncrossed := by
  have hprice : Node.price ⟨b.nextAddr, o⟩ = o.price := rfl
  by_cases hs : o.side = '1'
  · have hpush := h.bids_leveled.flat_pushBack ⟨b.nextAddr, o⟩
    rw [hprice] at hpush
    simp only [Uncrossed, OrderBook.pushOrder, if_pos hs, hpush, List.mem_orderedInsert]
    rintro n (rfl | hn) m hm
    · exact hasks hs m hm
    · exact hu n hn m hm
  · have hpush := h.asks_leveled.flat_pushBack ⟨b.nextAddr, o⟩
    rw [hprice] at hpush
    simp only [Uncrossed, OrderBook.pushOrder, if_neg hs, hpush, List.mem_orderedInsert]
    rintro n hn m (rfl | hm)
    · exact hbids hs n hn
    · exact hu n hn m hm

lemma Uncrossed.add (hu : b.Uncrossed) (h : b.Wf) (o : Order) : (b.add o).book.Uncrossed := by
  have htaker := (tryMatch_toFlat h (o.withLeaves o.qty)).2.1
  rw [matchIn_taker] at htaker
  have hmatch := hu.tryMatch h (o.withLeaves o.qty)
  simp only [OrderBook.add]
  split_ifs with hrest
  · obtain ⟨hbuy, hsell⟩ := tryMatch_exit h (o.withLeaves o.qty) hrest.1
    rw [htaker] at hrest ⊢
    have hlimit : o.type ≠ '1' := by
      have ht : o.type = '2' := hrest.2.1
      rw [ht]; decide
    refine hmatch.pushOrder (h.tryMatch _) (fun hs m hm => ?_) fun hs m hm => ?_
    · have hs : o.side = '1' := hs
      have := hbuy hs m hm
      simp only [Order.Reaches, Order.withLeaves_type, hlimit, Order.withLeaves_side, hs] at this
      simpa using this
    · have hs : o.side ≠ '1' := hs
      have := hsell hs m hm
      simp only [Order.Reaches, Order.withLeaves_type, hlimit, Order.withLeaves_side, hs] at this
      simpa using this
  · exact hmatch

lemma Uncrossed.unlink (hu : b.Uncrossed) (h : b.Wf) {n : Node} (hn : n ∈ b.nodes) (id : String) :
    (b.unlink id n.addr n.order.price n.order.side).Uncrossed := by
  obtain ⟨hbids, hasks⟩ := unlink_flat h hn id
  rw [Uncrossed, hbids, hasks]
  exact fun n hn m hm => hu n (List.mem_of_mem_filter hn) m (List.mem_of_mem_filter hm)

lemma Uncrossed.modify (hu : b.Uncrossed) {it : ℕ} {f : Order → Order}
    (hf : ∀ o, (f o).price = o.price) : (b.modify it f).Uncrossed := by
  obtain ⟨hbids, hasks⟩ := modify_flat b it f
  have hsame : ∀ m : Node, (if m.addr = it then (⟨m.addr, f m.order⟩ : Node) else m).order.price
      = m.order.price := by
    intro m
    split_ifs
    · exact hf _
    · rfl
  rw [Uncrossed, hbids, hasks]
  intro n' hn' m' hm'
  obtain ⟨n, hn, rfl⟩ := List.mem_map.mp hn'
  obtain ⟨m, hm, rfl⟩ := List.mem_map.mp hm'
  rw [hsame, hsame]
  exact hu n hn m hm

lemma Uncrossed.apply (hu : b.Uncrossed) (h : b.Wf) {op : BookOp} (hop : op.IsRequest) :
    (b.apply op).1.Uncrossed := by
  cases op with
  | restore o => exact hop.elim
  | add o => exact hu.add h o
  | cancel id =>
    rcases h.cancel_eq id with ⟨-, hc⟩ | ⟨n, hn, rfl, hc⟩
    · rw [OrderBook.apply, hc]; exact hu
    · rw [OrderBook.apply, hc]; exact hu.unlink h hn _
  | replace id p q =>
    rcases h.replace_eq id p q with ⟨-, hr⟩ | ⟨n, hn, rfl, ⟨-, -, hr⟩ | ⟨-, hr⟩⟩
    · rw [OrderBook.apply, hr]; exact hu
    · rw [OrderBook.apply, hr]; exact hu.modify fun _ => rfl
    · rw [OrderBook.apply, hr]; exact (hu.unlink h hn _).add (h.unlink hn) _

lemma Wf.apply (h : b.Wf) {op : BookOp} (hop : op.IsRequest) : (b.apply op).1.Wf := by
  cases op with
  | restore o => exact hop.elim
  | add o => exact h.add o
  | cancel id => exact h.cancel id
  | replace id p q => exact h.replace id p q

lemma Uncrossed.run (hu : b.Uncrossed) (h : b.Wf) {ops : List BookOp}
    (hops : ∀ op ∈ ops, op.IsRequest) : (b.run ops).1.Uncrossed := by
  induction ops generalizing b with
  | nil => exact hu
  | cons op ops ih =>
    have hop := hops op List.mem_cons_self
    exact ih (hu.apply h hop) (h.apply hop) fun op' hop' =>
      hops op' (List.mem_cons_of_mem _ hop')

/-- Restored limit orders fill a well-formed book, and nothing but them is in it. -/
lemma restore_all (h : b.Wf) (os : List Order) (hlimit : ∀ o ∈ os, o.type = '2') :
    (os.foldl restore b).Wf ∧
      ∀ n ∈ (os.foldl restore b).nodes, n ∈ b.nodes ∨ n.order ∈ os := by
  induction os generalizing b with
  | nil => exact ⟨h, fun n hn => Or.inl hn⟩
  | cons o os ih =>
    have hpush := h.pushOrder (hlimit o List.mem_cons_self)
    obtain ⟨hwf, hmem⟩ := ih hpush fun o' ho' => hlimit o' (List.mem_cons_of_mem _ ho')
    refine ⟨hwf, fun n hn => ?_⟩
    rcases hmem n hn with hn | hn
    · rcases List.mem_cons.mp ((pushOrder_nodes_perm h o).mem_iff.mp hn) with rfl | hn
      · exact Or.inr List.mem_cons_self
      · exact Or.inl hn
    · exact Or.inr (List.mem_cons_of_mem _ hn)

/-- **The book is never crossed or locked**, whatever it is asked to do, when it starts from
restored limit orders whose buy prices are below their sell prices. -/
theorem run_uncrossed (symbol : String) (restored : List Order) (ops : List BookOp)
    (hlimit : ∀ o ∈ restored, o.type = '2')
    (hprices : ∀ o ∈ restored, ∀ o' ∈ restored, o.side = '1' → o'.side ≠ '1' →
      o.price < o'.price)
    (hops : ∀ op ∈ ops, op.IsRequest) :
    ((restored.foldl restore (init symbol)).run ops).1.Uncrossed := by
  obtain ⟨hwf, hmem⟩ := restore_all (wf_init symbol) restored hlimit
  have hrestored : ∀ n ∈ (restored.foldl restore (init symbol)).nodes, n.order ∈ restored :=
    fun n hn => (hmem n hn).resolve_left (by simp [init, nodes])
  refine Uncrossed.run (fun n hn m hm => ?_) hwf hops
  exact hprices _ (hrestored n (mem_nodes.mpr (Or.inl hn))) _
    (hrestored m (mem_nodes.mpr (Or.inr hm))) (hwf.bids_side n hn) (hwf.asks_side m hm)

theorem run_uncrossed_sample :
    (([sampleOrder "8" '1' '2' '0' 9 3, sampleOrder "9" '2' '2' '0' 12 3].foldl restore
      (init "X")).run sampleOps).1.Uncrossed :=
  run_uncrossed "X" _ sampleOps (by decide) (by decide) (by decide)


end OrderBook

end FixExchange
