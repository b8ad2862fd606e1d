/-
# The place of an order in its queue

What a replace does to the place of its order (`keepsPlace_replace`, `sentBack_replace`): the
order keeps it when it is shrunk at its price, and when it is the last one of its queue and
stays at its price; else it goes to the end of the queue of its new price.
-/
import FixExchange.Engine.Queues

namespace FixExchange

namespace OrderBook

variable {b b' : OrderBook} {n : Node} {o : Order} {side : Char} {p newPrice : Price}
  {newQty : ℤ}

/-- The order has the same place in the same queue in both books. -/
def KeepsPlaceOf (b b' : OrderBook) (o : Order) : Prop :=
  o.exchangeId ∈ b'.queue o.side o.price ∧
    (b'.queue o.side o.price).idxOf o.exchangeId = (b.queue o.side o.price).idxOf o.exchangeId

/-- The order is at the end of a queue, and had another place before. -/
def SentBack (b b' : OrderBook) (o : Order) : Prop :=
  ¬ KeepsPlaceOf b b' o ∧ ∃ p, (b'.queue o.side p).getLast? = some o.exchangeId

/-- The order is the last one of its queue. -/
def IsLast (b : OrderBook) (o : Order) : Prop :=
  (b.queue o.side o.price).getLast? = some o.exchangeId

instance (b : OrderBook) (o : Order) : Decidable (b.IsLast o) :=
  inferInstanceAs (Decidable (_ = _))

lemma mem_queue_self (h : b.Wf) (hn : n ∈ b.nodes) :
    n.order.exchangeId ∈ b.queue n.order.side n.order.price :=
  (mem_queue h).mpr ⟨n, hn, Iff.rfl, rfl, rfl⟩

/-- No id is twice in a queue. -/
lemma Keyed.nodup_queue (hk : b.Keyed) (h : b.Wf) (side : Char) (p : Price) :
    (b.queue side p).Nodup := by
  have hids : ((b.toFlat.bids ++ b.toFlat.asks).map Order.exchangeId).Nodup := by
    have hnodup := hk.nodup
    rwa [getOrders, nodes, List.map_append] at hnodup
  rw [queue_toFlat h]
  split_ifs
  · exact hids.sublist ((List.filter_sublist.trans (List.sublist_append_left _ _)).map _)
  · exact hids.sublist ((List.filter_sublist.trans (List.sublist_append_right _ _)).map _)

/-- The queue of an order that is taken out. -/
lemma queue_unlink_eq (hk : b.Keyed) (h : b.Wf) (hn : n ∈ b.nodes) (side : Char) (p : Price) :
    (b.unlink n.order.exchangeId n.addr n.order.price n.order.side).queue side p
      = (b.queue side p).filter fun id => id ≠ n.order.exchangeId := by
  have hfilter : ∀ l : List Order,
      queueAt (l.filter fun o => o.exchangeId ≠ n.order.exchangeId) p
        = (queueAt l p).filter fun id => id ≠ n.order.exchangeId := by
    intro l
    rw [queueAt, queueAt, List.filter_map, List.filter_filter, List.filter_filter]
    exact congrArg _ (List.filter_congr fun o _ => Bool.and_comm _ _)
  rw [queue_toFlat (h.unlink hn), queue_toFlat h, unlink_toFlat hk h hn, FlatBook.delete]
  split_ifs
  · exact hfilter _
  · exact hfilter _

/-- Matching takes nothing out of the queues of the side of the order. -/
lemma queue_tryMatch_own (h : b.Wf) (o : Order) (hside : o.side = '1' ↔ side = '1') (p : Price) :
    (b.tryMatch o).book.queue side p = b.queue side p := by
  rw [queue_toFlat (h.tryMatch o), queue_toFlat h, (tryMatch_toFlat h o).1, FlatBook.matchIn]
  by_cases ho : o.side = '1'
  · simp only [ho, hside.mp ho, if_true]
  · simp only [ho, mt hside.mpr ho, if_false]

/-- The queues of its side after an order that comes to rest. -/
lemma queue_add_own (h : b.Wf) (o : Order) (hside : o.side = '1' ↔ side = '1') (p : Price) :
    (b.add o).book.queue side p = b.queue side p ∨
      o.price = p ∧ (b.add o).book.queue side p = b.queue side p ++ [o.exchangeId] := by
  have htaker := (tryMatch_toFlat h (o.withLeaves o.qty)).2.1
  rw [matchIn_taker] at htaker
  have hown := queue_tryMatch_own h (o.withLeaves o.qty) hside p
  simp only [add]
  split_ifs
  · rw [queue_pushOrder, htaker]
    split_ifs with hjoin
    · exact Or.inr ⟨hjoin.2, congrArg (· ++ [o.exchangeId]) hown⟩
    · exact Or.inl hown
  · exact Or.inl hown

/-- **The queues of its side after a replace** that is not done in place, when the order stays in
the book. -/
theorem queue_requeue (h : b.Wf) (hk : b.Keyed) (hn : n ∈ b.nodes)
    (hout : ¬(newPrice = n.order.price ∧ newQty < n.order.leavesQty))
    (hstay : ∃ m ∈ (b.replace n.order.exchangeId newPrice newQty).book.nodes,
      m.order.exchangeId = n.order.exchangeId) (p : Price) :
    (b.replace n.order.exchangeId newPrice newQty).book.queue n.order.side p
      = ((b.queue n.order.side p).filter fun id => id ≠ n.order.exchangeId)
        ++ if newPrice = p then [n.order.exchangeId] else [] := by
  have hwf' := h.replace n.order.exchangeId newPrice newQty
  rcases h.replace_eq n.order.exchangeId newPrice newQty with
    ⟨hnone, -⟩ | ⟨m, hm, hid, hcases⟩
  · exact absurd rfl ((hk.lookup_eq_none_iff h).mp hnone n hn)
  obtain rfl := hk.eq_of_id hn hm hid.symm
  rcases hcases with ⟨hprice, hqty, -⟩ | ⟨-, hr⟩
  · exact absurd ⟨hprice, hqty⟩ hout
  rw [hr] at hstay hwf' ⊢
  have hwf := h.unlink hn
  have hfresh := hk.fresh_unlink h hn
  have hgone : ∀ side p, n.order.exchangeId ∉
      (b.unlink n.order.exchangeId n.addr n.order.price n.order.side).queue side p := by
    intro side p hmem
    obtain ⟨m, hm, -, -, hmid⟩ := (mem_queue hwf).mp hmem
    exact hfresh m hm hmid
  -- the order is in the queue of its new price
  have hjoined : n.order.exchangeId ∈ ((b.unlink n.order.exchangeId n.addr n.order.price
      n.order.side).add { n.order with price := newPrice, qty := newQty }).book.queue
        n.order.side newPrice := by
    obtain ⟨m, hm', hmid⟩ := hstay
    have hmem := mem_queue_self hwf' hm'
    obtain ⟨q, hq, hsame | ⟨hside, hprice, -⟩⟩ := queue_add hwf
      { n.order with price := newPrice, qty := newQty } m.order.side m.order.price
    · rw [hsame, hmid] at hmem
      exact absurd (hq.subset hmem) (hgone _ _)
    · exact (mem_queue hwf').mpr ⟨m, hm', hside.symm, hprice.symm, hmid⟩
  have hown := queue_add_own hwf { n.order with price := newPrice, qty := newQty } Iff.rfl p
  rw [queue_unlink_eq hk h hn] at hown
  split_ifs with hp
  · subst hp
    rcases hown with hsame | ⟨-, hconcat⟩
    · rw [hsame] at hjoined
      simp at hjoined
    · exact hconcat
  · rcases hown with hsame | ⟨hprice, -⟩
    · rw [hsame, List.append_nil]
    · exact absurd hprice hp

lemma queue_congr {side' : Char} (hside : side' = '1' ↔ side = '1') :
    b.queue side' p = b.queue side p := by
  simp only [queue, hside]

/-- The queues after a replace that is not done in place: the order goes to the end of one, or
to none. -/
lemma queue_replace_out (h : b.Wf) (hk : b.Keyed) (hn : n ∈ b.nodes)
    (hout : ¬(newPrice = n.order.price ∧ newQty < n.order.leavesQty)) (side : Char) (p : Price) :
    ∃ q, q.Sublist ((b.queue side p).filter fun id => id ≠ n.order.exchangeId) ∧
      ((b.replace n.order.exchangeId newPrice newQty).book.queue side p = q ∨
        (n.order.side = '1' ↔ side = '1') ∧ newPrice = p ∧
          (b.replace n.order.exchangeId newPrice newQty).book.queue side p
            = q ++ [n.order.exchangeId]) := by
  rcases h.replace_eq n.order.exchangeId newPrice newQty with
    ⟨hnone, -⟩ | ⟨m, hm, hid, hcases⟩
  · exact absurd rfl ((hk.lookup_eq_none_iff h).mp hnone n hn)
  obtain rfl := hk.eq_of_id hn hm hid.symm
  rcases hcases with ⟨hprice, hqty, -⟩ | ⟨-, hr⟩
  · exact absurd ⟨hprice, hqty⟩ hout
  · obtain ⟨q, hq, hcases⟩ := queue_add (h.unlink hn)
      { n.order with price := newPrice, qty := newQty } side p
    rw [queue_unlink_eq hk h hn] at hq
    rw [hr]
    exact ⟨q, hq, hcases⟩

/-- The queues after a replace that shrinks its order in place. -/
lemma queue_shrink (h : b.Wf) (hk : b.Keyed) (hn : n ∈ b.nodes)
    (hqty : newQty < n.order.leavesQty) (side : Char) (p : Price) :
    (b.replace n.order.exchangeId n.order.price newQty).book.queue side p = b.queue side p := by
  rcases h.replace_eq n.order.exchangeId n.order.price newQty with
    ⟨hnone, -⟩ | ⟨m, hm, hid, hcases⟩
  · exact absurd rfl ((hk.lookup_eq_none_iff h).mp hnone n hn)
  obtain rfl := hk.eq_of_id hn hm hid.symm
  rcases hcases with ⟨-, -, hr⟩ | ⟨hout, -⟩
  · have hwf : (b.modify n.addr fun o => { o with qty := newQty, leavesQty := newQty }).Wf :=
      h.modify (fun _ => rfl) (fun _ => rfl) (fun _ => rfl) fun _ => rfl
    rw [hr]
    exact queue_modify h hwf (fun _ => rfl) (fun _ => rfl) side p
  · exact absurd ⟨rfl, hqty⟩ hout

/-- An order that is shrunk keeps its place. -/
lemma keepsPlaceOf_shrink (h : b.Wf) (hk : b.Keyed) (hn : n ∈ b.nodes)
    (hqty : newQty < n.order.leavesQty) :
    KeepsPlaceOf b (b.replace n.order.exchangeId n.order.price newQty).book n.order := by
  rw [KeepsPlaceOf, queue_shrink h hk hn hqty]
  exact ⟨mem_queue_self h hn, rfl⟩

/-- **When a replace keeps the place of its order.** -/
theorem keepsPlaceOf_replace (h : b.Wf) (hk : b.Keyed) (hn : n ∈ b.nodes)
    (hstay : ∃ m ∈ (b.replace n.order.exchangeId newPrice newQty).book.nodes,
      m.order.exchangeId = n.order.exchangeId) :
    KeepsPlaceOf b (b.replace n.order.exchangeId newPrice newQty).book n.order ↔
      newPrice = n.order.price ∧ (newQty < n.order.leavesQty ∨ b.IsLast n.order) := by
  by_cases hin : newPrice = n.order.price ∧ newQty < n.order.leavesQty
  · obtain ⟨rfl, hqty⟩ := hin
    exact iff_of_true (keepsPlaceOf_shrink h hk hn hqty) ⟨rfl, Or.inl hqty⟩
  · have hqueue := queue_requeue h hk hn hin hstay n.order.price
    have hnodup := hk.nodup_queue h n.order.side n.order.price
    have hmem := mem_queue_self h hn
    rw [KeepsPlaceOf, hqueue, IsLast]
    by_cases hprice : newPrice = n.order.price
    · have hnot : ¬ newQty < n.order.leavesQty := fun hqty => hin ⟨hprice, hqty⟩
      simp only [hprice, hnot, if_true, true_and, false_or]
      rw [Sublists.idxOf_filter_concat hnodup hmem]
      exact and_iff_right (by simp)
    · simp [hprice]

/-- **When a replace sends its order back.** -/
theorem sentBack_replace (h : b.Wf) (hk : b.Keyed) (hn : n ∈ b.nodes)
    (hstay : ∃ m ∈ (b.replace n.order.exchangeId newPrice newQty).book.nodes,
      m.order.exchangeId = n.order.exchangeId) :
    SentBack b (b.replace n.order.exchangeId newPrice newQty).book n.order ↔
      ¬(newPrice = n.order.price ∧ (newQty < n.order.leavesQty ∨ b.IsLast n.order)) := by
  rw [SentBack, keepsPlaceOf_replace h hk hn hstay]
  refine ⟨And.left, fun hnot => ⟨hnot, newPrice, ?_⟩⟩
  have hin : ¬(newPrice = n.order.price ∧ newQty < n.order.leavesQty) := fun hin =>
    hnot ⟨hin.1, Or.inl hin.2⟩
  rw [queue_requeue h hk hn hin hstay, if_pos rfl, List.getLast?_concat]

end OrderBook

end FixExchange
