/-
# The representation invariant of the order book

`OrderBook.Wf` relates the two ordered maps of lists, the iterators and the index of a book
to each other; it holds whatever the ids of the orders are.  When ids are not reused the
index is moreover complete (`OrderBook.Keyed`), and when quantities are positive every
resting order has a positive open quantity (`OrderBook.Positive`).  The operations of the
book are put together from four primitives -- appending an order, unlinking a node, writing
through an iterator, and the match loop -- and each primitive has one lemma here that says
what it does to the flat lists and that it keeps the invariant.
-/
import FixExchange.Engine.FlatMatch
import FixExchange.Engine.Matching

namespace FixExchange

namespace OrderBook

/-- The abstract view of a book: the concatenation of its price levels. -/
def toFlat (b : OrderBook) : FlatBook := ⟨b.bids.flat.map Node.order, b.asks.flat.map Node.order⟩

/-- The nodes of the book as the index sees them. -/
def keys (b : OrderBook) : List (ℕ × String) := b.nodes.map Node.key

/-- The levels, the nodes and the index of a book fit together. -/
structure Wf (b : OrderBook) : Prop where
  bids_leveled : b.bids.Leveled Node.price
  asks_leveled : b.asks.Leveled Node.price
  index_sound : IndexSound b.orderIndex b.nextAddr b.keys
  bids_side : ∀ n ∈ b.bids.flat, n.order.side = '1'
  asks_side : ∀ n ∈ b.asks.flat, n.order.side ≠ '1'
  limit : ∀ n ∈ b.nodes, n.order.type = '2'

/-- Every resting order is indexed, and no two resting orders have the same id. -/
def Keyed (b : OrderBook) : Prop := IndexComplete b.orderIndex b.keys

lemma wf_init (symbol : String) : (init symbol).Wf :=
  ⟨SortedMap.leveled_empty, SortedMap.leveled_empty, indexSound_empty, by simp [init],
    by simp [init], by simp [init, nodes]⟩

lemma keyed_init (symbol : String) : (init symbol).Keyed := indexComplete_empty

lemma mem_nodes {b : OrderBook} {n : Node} :
    n ∈ b.nodes ↔ n ∈ b.bids.flat ∨ n ∈ b.asks.flat := List.mem_append

lemma mem_orders_toFlat {b : OrderBook} {o : Order} :
    o ∈ b.toFlat.orders ↔ ∃ n ∈ b.nodes, n.order = o := by
  simp only [FlatBook.orders, toFlat, ← List.map_append, List.mem_map]
  rfl

lemma orders_toFlat (b : OrderBook) : b.toFlat.orders = b.nodes.map Node.order :=
  List.map_append.symm

/-! ## Appending an order -/

variable {b : OrderBook} {o : Order}

lemma pushOrder_flat (h : b.Wf) (o : Order) : (b.pushOrder o).toFlat = b.toFlat.place o := by
  have key : ∀ (r : Price → Price → Prop) [DecidableRel r] [IsStrictTotalOrder Price r]
      {side : BookSide r}, side.Leveled Node.price →
      (side.pushBack o.price ⟨b.nextAddr, o⟩).flat.map Node.order
        = (side.flat.map Node.order).orderedInsert (fun x y => r x.price y.price) o := by
    intro r _ _ side hl
    have hpush := hl.flat_pushBack ⟨b.nextAddr, o⟩
    have hprice : Node.price ⟨b.nextAddr, o⟩ = o.price := rfl
    rw [hprice] at hpush
    rw [hpush]
    exact List.map_orderedInsert _ (fun x y : Order => r x.price y.price) Node.order _ _
      (fun _ _ => Iff.rfl) fun _ _ => Iff.rfl
  by_cases hs : o.side = '1'
  · simp only [pushOrder, FlatBook.place, toFlat, if_pos hs]
    rw [key _ h.bids_leveled]
  · simp only [pushOrder, FlatBook.place, toFlat, if_neg hs]
    rw [key _ h.asks_leveled]

/-- The nodes after an order has been appended, up to their order. -/
lemma pushOrder_nodes_perm (h : b.Wf) (o : Order) :
    (b.pushOrder o).nodes.Perm (⟨b.nextAddr, o⟩ :: b.nodes) := by
  have hprice : Node.price ⟨b.nextAddr, o⟩ = o.price := rfl
  by_cases hs : o.side = '1'
  · have hpush := h.bids_leveled.flat_pushBack ⟨b.nextAddr, o⟩
    rw [hprice] at hpush
    simp only [pushOrder, nodes, if_pos hs]
    rw [hpush]
    exact (List.perm_orderedInsert _ _ _).append_right _
  · have hpush := h.asks_leveled.flat_pushBack ⟨b.nextAddr, o⟩
    rw [hprice] at hpush
    simp only [pushOrder, nodes, if_neg hs]
    rw [hpush]
    exact ((List.perm_orderedInsert _ _ _).append_left _).trans List.perm_middle

lemma pushOrder_index (b : OrderBook) (o : Order) :
    (b.pushOrder o).orderIndex = b.orderIndex.insert o.exchangeId b.nextAddr ∧
      (b.pushOrder o).nextAddr = b.nextAddr + 1 := by
  by_cases hs : o.side = '1' <;> simp [pushOrder, hs]

lemma mem_pushOrder_side (h : b.Wf) (o : Order) :
    (∀ n ∈ (b.pushOrder o).bids.flat, n.order.side = '1') ∧
      ∀ n ∈ (b.pushOrder o).asks.flat, n.order.side ≠ '1' := by
  have hprice : Node.price ⟨b.nextAddr, o⟩ = o.price := rfl
  by_cases hs : o.side = '1'
  · have hpush := h.bids_leveled.flat_pushBack ⟨b.nextAddr, o⟩
    rw [hprice] at hpush
    simp only [pushOrder, if_pos hs, hpush, List.mem_orderedInsert]
    refine ⟨?_, h.asks_side⟩
    rintro n (rfl | hn)
    · exact hs
    · exact h.bids_side n hn
  · have hpush := h.asks_leveled.flat_pushBack ⟨b.nextAddr, o⟩
    rw [hprice] at hpush
    simp only [pushOrder, if_neg hs, hpush, List.mem_orderedInsert]
    refine ⟨h.bids_side, ?_⟩
    rintro n (rfl | hn)
    · exact hs
    · exact h.asks_side n hn

lemma pushOrder_leveled (h : b.Wf) (o : Order) :
    (b.pushOrder o).bids.Leveled Node.price ∧ (b.pushOrder o).asks.Leveled Node.price := by
  by_cases hs : o.side = '1'
  · simp only [pushOrder, if_pos hs]
    exact ⟨h.bids_leveled.pushBack ⟨b.nextAddr, o⟩, h.asks_leveled⟩
  · simp only [pushOrder, if_neg hs]
    exact ⟨h.bids_leveled, h.asks_leveled.pushBack ⟨b.nextAddr, o⟩⟩

lemma Wf.pushOrder (h : b.Wf) (ht : o.type = '2') : (b.pushOrder o).Wf where
  bids_leveled := (pushOrder_leveled h o).1
  asks_leveled := (pushOrder_leveled h o).2
  index_sound := by
    obtain ⟨hindex, hnext⟩ := pushOrder_index b o
    rw [hindex, hnext]
    exact (h.index_sound.push o.exchangeId).perm ((pushOrder_nodes_perm h o).map Node.key).symm
  bids_side := (mem_pushOrder_side h o).1
  asks_side := (mem_pushOrder_side h o).2
  limit n hn := by
    rcases List.mem_cons.mp ((pushOrder_nodes_perm h o).mem_iff.mp hn) with rfl | hn
    · exact ht
    · exact h.limit n hn

lemma Keyed.pushOrder (hk : b.Keyed) (h : b.Wf)
    (hfresh : ∀ n ∈ b.nodes, n.order.exchangeId ≠ o.exchangeId) : (b.pushOrder o).Keyed := by
  rw [Keyed, (pushOrder_index b o).1]
  refine (IndexComplete.push hk (k := o.exchangeId) ?_ b.nextAddr).perm
    ((pushOrder_nodes_perm h o).map Node.key).symm
  intro k hk'
  obtain ⟨n, hn, rfl⟩ := List.mem_map.mp hk'
  exact hfresh n hn

/-! ## Dereferencing an iterator -/

/-- Nodes with one address are one node. -/
lemma Wf.eq_of_addr (h : b.Wf) {n n' : Node} (hn : n ∈ b.nodes) (hn' : n' ∈ b.nodes)
    (ha : n.addr = n'.addr) : n = n' := by
  have hnodup : (b.nodes.map Node.addr).Nodup := by
    have := h.index_sound.addr_nodup
    rwa [keys, List.map_map] at this
  exact List.inj_on_of_nodup_map hnodup hn hn' ha

lemma Wf.deref_of_mem (h : b.Wf) {n : Node} (hn : n ∈ b.nodes) :
    b.deref n.addr = some n.order := by
  rw [deref]
  rcases hf : b.nodes.find? (fun m => m.addr = n.addr) with _ | m
  · have hne := List.find?_eq_none.mp hf n hn
    simp at hne
  · have hm : m.addr = n.addr := by simpa using List.find?_some hf
    rw [hf, h.eq_of_addr (List.mem_of_find?_eq_some hf) hn hm]
    rfl

/-- An entry of the index designates a resting order with the id of the entry. -/
lemma Wf.node_of_lookup (h : b.Wf) {id : String} {it : ℕ}
    (hl : b.orderIndex.lookup id = some it) :
    ∃ n ∈ b.nodes, n.addr = it ∧ n.order.exchangeId = id ∧ b.deref it = some n.order := by
  obtain ⟨n, hn, hkey⟩ := List.mem_map.mp (h.index_sound.sound id it hl)
  obtain ⟨rfl, rfl⟩ := Prod.mk.inj hkey
  exact ⟨n, hn, rfl, rfl, h.deref_of_mem hn⟩

/-- In a keyed book an id is indexed exactly when an order with it rests. -/
lemma Keyed.lookup_eq_none_iff (hk : b.Keyed) (h : b.Wf) {id : String} :
    b.orderIndex.lookup id = none ↔ ∀ n ∈ b.nodes, n.order.exchangeId ≠ id := by
  constructor
  · rintro hnone n hn rfl
    have := hk.complete n.key (List.mem_map_of_mem hn)
    rw [Node.key, hnone] at this
    exact absurd this (by simp)
  · intro hall
    rcases hl : b.orderIndex.lookup id with _ | it
    · rfl
    · obtain ⟨n, hn, -, hid, -⟩ := h.node_of_lookup hl
      exact absurd hid (hall n hn)

/-- In a keyed book the node with an id is unique. -/
lemma Keyed.eq_of_id (hk : b.Keyed) {n n' : Node} (hn : n ∈ b.nodes) (hn' : n' ∈ b.nodes)
    (hid : n.order.exchangeId = n'.order.exchangeId) : n = n' := by
  have hnodup : (b.nodes.map fun n => n.order.exchangeId).Nodup := by
    have := hk.keys_nodup
    rwa [keys, List.map_map] at this
  exact List.inj_on_of_nodup_map hnodup hn hn' hid

/-! ## Unlinking a node -/

/-- Unlinking a node filters it out of both sides. -/
lemma unlink_flat (h : b.Wf) {n : Node} (hn : n ∈ b.nodes) (id : String) :
    (b.unlink id n.addr n.order.price n.order.side).bids.flat
        = b.bids.flat.filter (fun m => !(m.addr == n.addr)) ∧
      (b.unlink id n.addr n.order.price n.order.side).asks.flat
        = b.asks.flat.filter (fun m => !(m.addr == n.addr)) := by
  -- a node with this address is `n`, so the other side has none and the level is right
  have hsame : ∀ m ∈ b.nodes, (m.addr == n.addr) = true → m = n :=
    fun m hm ha => h.eq_of_addr hm hn (by simpa using ha)
  by_cases hs : n.order.side = '1'
  · simp only [unlink, if_pos hs]
    refine ⟨h.bids_leveled.flat_removeAt fun m hm ha => ?_, ?_⟩
    · rw [hsame m (mem_nodes.mpr (Or.inl hm)) ha]
      rfl
    · refine (List.filter_eq_self.mpr fun m hm => ?_).symm
      rw [Bool.not_eq_true']
      refine Bool.eq_false_iff.mpr fun ha => ?_
      have hside := h.asks_side m hm
      rw [hsame m (mem_nodes.mpr (Or.inr hm)) ha] at hside
      exact hside hs
  · simp only [unlink, if_neg hs]
    refine ⟨?_, h.asks_leveled.flat_removeAt fun m hm ha => ?_⟩
    · refine (List.filter_eq_self.mpr fun m hm => ?_).symm
      rw [Bool.not_eq_true']
      refine Bool.eq_false_iff.mpr fun ha => ?_
      have hside := h.bids_side m hm
      rw [hsame m (mem_nodes.mpr (Or.inl hm)) ha] at hside
      exact hs hside
    · rw [hsame m (mem_nodes.mpr (Or.inr hm)) ha]
      rfl

lemma unlink_nodes (h : b.Wf) {n : Node} (hn : n ∈ b.nodes) (id : String) :
    (b.unlink id n.addr n.order.price n.order.side).nodes
      = b.nodes.filter (fun m => !(m.addr == n.addr)) := by
  obtain ⟨hbids, hasks⟩ := unlink_flat h hn id
  rw [nodes, hbids, hasks, nodes, List.filter_append]

lemma unlink_index (b : OrderBook) (id : String) (it : ℕ) (p : Price) (c : Char) :
    (b.unlink id it p c).orderIndex = b.orderIndex.erase id ∧
      (b.unlink id it p c).nextAddr = b.nextAddr := by
  by_cases hs : c = '1' <;> simp [unlink, hs]

lemma Wf.unlink (h : b.Wf) {n : Node} (hn : n ∈ b.nodes) :
    (b.unlink n.order.exchangeId n.addr n.order.price n.order.side).Wf := by
  obtain ⟨hbids, hasks⟩ := unlink_flat h hn n.order.exchangeId
  have hnodes := unlink_nodes h hn n.order.exchangeId
  obtain ⟨hindex, hnext⟩ := unlink_index b n.order.exchangeId n.addr n.order.price n.order.side
  refine ⟨?_, ?_, ?_, ?_, ?_, ?_⟩
  · by_cases hs : n.order.side = '1'
    · simp only [OrderBook.unlink, if_pos hs]
      exact h.bids_leveled.removeAt _ _
    · simp only [OrderBook.unlink, if_neg hs]
      exact h.bids_leveled
  · by_cases hs : n.order.side = '1'
    · simp only [OrderBook.unlink, if_pos hs]
      exact h.asks_leveled
    · simp only [OrderBook.unlink, if_neg hs]
      exact h.asks_leveled.removeAt _ _
  · rw [hindex, hnext, keys, hnodes]
    refine h.index_sound.drop (List.filter_sublist.map _) fun k hk hne => ?_
    obtain ⟨m, hm, rfl⟩ := List.mem_map.mp hk
    refine List.mem_map_of_mem (List.mem_filter.mpr ⟨hm, ?_⟩)
    rw [Bool.not_eq_true']
    refine Bool.eq_false_iff.mpr fun ha => hne ?_
    rw [h.eq_of_addr hm hn (by simpa using ha)]
    rfl
  · rw [hbids]
    exact fun m hm => h.bids_side m (List.mem_of_mem_filter hm)
  · rw [hasks]
    exact fun m hm => h.asks_side m (List.mem_of_mem_filter hm)
  · rw [hnodes]
    exact fun m hm => h.limit m (List.mem_of_mem_filter hm)

/-- In a keyed book the node with the address of `n` is the one with its id. -/
lemma Keyed.filter_addr (hk : b.Keyed) (h : b.Wf) {n : Node} (hn : n ∈ b.nodes)
    {ns : List Node} (hns : ∀ m ∈ ns, m ∈ b.nodes) :
    (ns.filter fun m => !(m.addr == n.addr))
      = ns.filter fun m => m.order.exchangeId ≠ n.order.exchangeId := by
  refine List.filter_congr fun m hm => ?_
  by_cases hid : m.order.exchangeId = n.order.exchangeId
  · rw [hk.eq_of_id (hns m hm) hn hid]
    simp
  · have hne : m.addr ≠ n.addr := fun ha => hid (by rw [h.eq_of_addr (hns m hm) hn ha])
    simp [hid, hne]

/-- Unlinking, by the id of the order. -/
lemma unlink_flat_id (hk : b.Keyed) (h : b.Wf) {n : Node} (hn : n ∈ b.nodes) :
    (b.unlink n.order.exchangeId n.addr n.order.price n.order.side).bids.flat
        = b.bids.flat.filter (fun m => m.order.exchangeId ≠ n.order.exchangeId) ∧
      (b.unlink n.order.exchangeId n.addr n.order.price n.order.side).asks.flat
        = b.asks.flat.filter (fun m => m.order.exchangeId ≠ n.order.exchangeId) := by
  obtain ⟨hbids, hasks⟩ := unlink_flat h hn n.order.exchangeId
  rw [hbids, hasks, hk.filter_addr h hn fun m hm => mem_nodes.mpr (Or.inl hm),
    hk.filter_addr h hn fun m hm => mem_nodes.mpr (Or.inr hm)]
  exact ⟨rfl, rfl⟩

lemma unlink_toFlat (hk : b.Keyed) (h : b.Wf) {n : Node} (hn : n ∈ b.nodes) :
    (b.unlink n.order.exchangeId n.addr n.order.price n.order.side).toFlat
      = b.toFlat.delete n.order.exchangeId := by
  obtain ⟨hbids, hasks⟩ := unlink_flat_id hk h hn
  simp only [toFlat, hbids, hasks, FlatBook.delete, List.filter_map]
  rfl

lemma Keyed.unlink (hk : b.Keyed) (h : b.Wf) {n : Node} (hn : n ∈ b.nodes) :
    (b.unlink n.order.exchangeId n.addr n.order.price n.order.side).Keyed := by
  rw [Keyed, (unlink_index b _ _ _ _).1, keys, unlink_nodes h hn]
  refine IndexComplete.drop hk (List.filter_sublist.map _) fun k hk' hid => ?_
  obtain ⟨m, hm, rfl⟩ := List.mem_map.mp hk'
  obtain ⟨hm, ha⟩ := List.mem_filter.mp hm
  rw [hk.eq_of_id hm hn hid] at ha
  simp at ha

/-! ## Writing through an iterator -/

/-- Writing to the node `n` changes the order of this node. -/
lemma modify_flat (b : OrderBook) (it : ℕ) (f : Order → Order) :
    (b.modify it f).bids.flat
        = b.bids.flat.map (fun m => if m.addr = it then ⟨m.addr, f m.order⟩ else m) ∧
      (b.modify it f).asks.flat
        = b.asks.flat.map (fun m => if m.addr = it then ⟨m.addr, f m.order⟩ else m) :=
  ⟨SortedMap.flat_mapElems _ _, SortedMap.flat_mapElems _ _⟩

lemma modify_nodes (b : OrderBook) (it : ℕ) (f : Order → Order) :
    (b.modify it f).nodes
      = b.nodes.map (fun m => if m.addr = it then ⟨m.addr, f m.order⟩ else m) := by
  obtain ⟨hbids, hasks⟩ := modify_flat b it f
  rw [nodes, hbids, hasks, nodes, List.map_append]

/-- A write that keeps id, price, side and type keeps the book well formed, and its index. -/
lemma modify_keys {it : ℕ} {f : Order → Order}
    (hf : ∀ o, (f o).exchangeId = o.exchangeId) : (b.modify it f).keys = b.keys := by
  rw [keys, modify_nodes, List.map_map, keys]
  refine List.map_congr_left fun m _ => ?_
  by_cases hm : m.addr = it <;> simp [Node.key, hm, hf]

lemma Wf.modify (h : b.Wf) {it : ℕ} {f : Order → Order}
    (hid : ∀ o, (f o).exchangeId = o.exchangeId) (hprice : ∀ o, (f o).price = o.price)
    (hside : ∀ o, (f o).side = o.side) (htype : ∀ o, (f o).type = o.type) :
    (b.modify it f).Wf := by
  obtain ⟨hbids, hasks⟩ := modify_flat b it f
  refine ⟨?_, ?_, ?_, ?_, ?_, ?_⟩
  · refine h.bids_leveled.mapElems fun m _ => ?_
    by_cases hm : m.addr = it <;> simp [Node.price, hm, hprice]
  · refine h.asks_leveled.mapElems fun m _ => ?_
    by_cases hm : m.addr = it <;> simp [Node.price, hm, hprice]
  · rw [modify_keys hid]
    exact h.index_sound
  · rw [hbids]
    intro n hn
    obtain ⟨m, hm, rfl⟩ := List.mem_map.mp hn
    split_ifs
    · exact (hside m.order).trans (h.bids_side m hm)
    · exact h.bids_side m hm
  · rw [hasks]
    intro n hn
    obtain ⟨m, hm, rfl⟩ := List.mem_map.mp hn
    split_ifs
    · exact fun hs => h.asks_side m hm ((hside m.order).symm.trans hs)
    · exact h.asks_side m hm
  · rw [modify_nodes]
    intro n hn
    obtain ⟨m, hm, rfl⟩ := List.mem_map.mp hn
    split_ifs
    · exact (htype m.order).trans (h.limit m hm)
    · exact h.limit m hm

lemma Keyed.modify (hk : b.Keyed) {it : ℕ} {f : Order → Order}
    (hid : ∀ o, (f o).exchangeId = o.exchangeId) : (b.modify it f).Keyed := by
  rw [Keyed, modify_keys hid]
  exact hk

lemma modify_toFlat (hk : b.Keyed) (h : b.Wf) {n : Node} (hn : n ∈ b.nodes) (q : ℤ) :
    (b.modify n.addr fun o => { o with qty := q, leavesQty := q }).toFlat
      = b.toFlat.shrinkAt n.order.exchangeId q := by
  have key : ∀ ns : List Node, (∀ m ∈ ns, m ∈ b.nodes) →
      (ns.map fun m => if m.addr = n.addr then
          (⟨m.addr, { m.order with qty := q, leavesQty := q }⟩ : Node) else m).map Node.order
        = (ns.map Node.order).map fun o =>
            if o.exchangeId = n.order.exchangeId then FlatBook.shrink q o else o := by
    intro ns hns
    rw [List.map_map, List.map_map]
    refine List.map_congr_left fun m hm => ?_
    simp only [Function.comp_apply]
    by_cases hid : m.order.exchangeId = n.order.exchangeId
    · rw [hk.eq_of_id (hns m hm) hn hid]
      simp [FlatBook.shrink]
    · have hne : m.addr ≠ n.addr := fun ha => hid (by rw [h.eq_of_addr (hns m hm) hn ha])
      simp [hid, hne]
  obtain ⟨hbids, hasks⟩ := modify_flat b n.addr fun o => { o with qty := q, leavesQty := q }
  rw [toFlat, hbids, hasks, key _ fun m hm => mem_nodes.mpr (Or.inl hm),
    key _ fun m hm => mem_nodes.mpr (Or.inr hm)]
  rfl

/-! ## Matching -/

/-- **Matching is matching on the flat lists**, and keeps the book well formed. -/
lemma tryMatch_toFlat (h : b.Wf) (o : Order) :
    (b.tryMatch o).book.toFlat = (b.toFlat.matchIn o).1 ∧
      (b.tryMatch o).value = (b.toFlat.matchIn o).2.taker ∧
      (b.tryMatch o).fills = fillsOf b.symbol b.execSeq (b.toFlat.matchIn o).2.trades := by
  by_cases hs : o.side = '1'
  · obtain ⟨-, h2, h3, h4, -⟩ := matchLoop_flat b.symbol true
      (s := ⟨o, b.asks, b.orderIndex, b.execSeq, []⟩) h.asks_leveled (by simp [hs])
    simp only [tryMatch, if_pos hs, FlatBook.matchIn, toFlat, matchAgainst]
    exact ⟨by rw [h3], h2, by simpa using h4⟩
  · obtain ⟨-, h2, h3, h4, -⟩ := matchLoop_flat b.symbol false
      (s := ⟨o, b.bids, b.orderIndex, b.execSeq, []⟩) h.bids_leveled (by simp [hs])
    simp only [tryMatch, if_neg hs, FlatBook.matchIn, toFlat, matchAgainst]
    exact ⟨by rw [h3], h2, by simpa using h4⟩

/-- The orders left on the opposite side after matching are left of resting orders. -/
lemma mem_matchAgainst (symbol : String) {r : Price → Price → Prop} [DecidableRel r]
    [IsStrictTotalOrder Price r] {s : MatchState r} {isBuy : Bool} (hl : s.opposite.Leveled Node.price)
    (hbuy : isBuy = (s.aggressor.side == '1')) {n : Node}
    (hn : n ∈ (matchAgainst symbol isBuy s).opposite.flat) :
    ∃ m ∈ s.opposite.flat, n.order.LeftOf m.order := by
  obtain ⟨-, -, hrest, -⟩ := matchLoop_flat symbol isBuy hl hbuy
  have hmem : n.order ∈ (matchList s.aggressor (s.opposite.flat.map Node.order)).rest := by
    rw [← hrest]
    exact List.mem_map_of_mem hn
  obtain ⟨o, ho, hleft⟩ := mem_matchList_rest hmem
  obtain ⟨m, hm, rfl⟩ := List.mem_map.mp ho
  exact ⟨m, hm, hleft⟩

lemma Wf.tryMatch (h : b.Wf) (o : Order) : (b.tryMatch o).book.Wf := by
  have hlimit : ∀ {n m : Node}, m ∈ b.nodes → n.order.LeftOf m.order → n.order.type = '2' :=
    fun hm hleft => hleft.of_forall (P := fun o => o.type = '2') fun _ => h.limit _ hm
  by_cases hs : o.side = '1'
  · simp only [OrderBook.tryMatch, if_pos hs]
    have hbuy : true = (o.side == '1') := by simp [hs]
    have hmem := fun n => mem_matchAgainst b.symbol (n := n)
      (s := ⟨o, b.asks, b.orderIndex, b.execSeq, []⟩) h.asks_leveled hbuy
    refine ⟨h.bids_leveled, (matchLoop_flat _ _ h.asks_leveled hbuy).1, ?_, h.bids_side, ?_, ?_⟩
    · rw [keys, nodes, List.map_append]
      refine (matchLoop_indexSound (b.bids.flat.map Node.key) ?_ _).perm
        List.perm_append_comm
      refine h.index_sound.perm ?_
      rw [keys, nodes, List.map_append]
      exact List.perm_append_comm
    · intro n hn
      obtain ⟨m, hm, hleft⟩ := hmem n hn
      exact hleft.of_forall (P := fun o => o.side ≠ '1') fun _ => h.asks_side m hm
    · intro n hn
      rcases List.mem_append.mp hn with hn | hn
      · exact h.limit n (mem_nodes.mpr (Or.inl hn))
      · obtain ⟨m, hm, hleft⟩ := hmem n hn
        exact hlimit (mem_nodes.mpr (Or.inr hm)) hleft
  · simp only [OrderBook.tryMatch, if_neg hs]
    have hbuy : false = (o.side == '1') := by simp [hs]
    have hmem := fun n => mem_matchAgainst b.symbol (n := n)
      (s := ⟨o, b.bids, b.orderIndex, b.execSeq, []⟩) h.bids_leveled hbuy
    refine ⟨(matchLoop_flat _ _ h.bids_leveled hbuy).1, h.asks_leveled, ?_, ?_, h.asks_side, ?_⟩
    · rw [keys, nodes, List.map_append]
      refine matchLoop_indexSound (b.asks.flat.map Node.key) ?_ _
      rw [← List.map_append]
      exact h.index_sound
    · intro n hn
      obtain ⟨m, hm, hleft⟩ := hmem n hn
      exact hleft.of_forall (P := fun o => o.side = '1') fun _ => h.bids_side m hm
    · intro n hn
      rcases List.mem_append.mp hn with hn | hn
      · obtain ⟨m, hm, hleft⟩ := hmem n hn
        exact hlimit (mem_nodes.mpr (Or.inl hm)) hleft
      · exact h.limit n (mem_nodes.mpr (Or.inr hn))

lemma Keyed.tryMatch (hk : b.Keyed) (o : Order) : (b.tryMatch o).book.Keyed := by
  by_cases hs : o.side = '1'
  · simp only [OrderBook.tryMatch, if_pos hs, Keyed, keys, nodes, List.map_append]
    refine (matchLoop_indexComplete (b.bids.flat.map Node.key) ?_ _).perm
      List.perm_append_comm
    refine IndexComplete.perm hk ?_
    rw [keys, nodes, List.map_append]
    exact List.perm_append_comm
  · simp only [OrderBook.tryMatch, if_neg hs, Keyed, keys, nodes, List.map_append]
    refine matchLoop_indexComplete (b.asks.flat.map Node.key) ?_ _
    rw [← List.map_append]
    exact hk

lemma tryMatch_nextAddr (b : OrderBook) (o : Order) :
    (b.tryMatch o).book.nextAddr = b.nextAddr ∧ (b.tryMatch o).book.symbol = b.symbol := by
  by_cases hs : o.side = '1' <;> simp [OrderBook.tryMatch, hs]

end OrderBook

end FixExchange
