/-
# The queues of a book

The orders at one price of one side trade in the order in which they are queued.  Matching
and cancelling only take orders out of the queues, a new order joins the end of one
(`queue_add`), and a replace that is not done in place takes its order to the end of the queue
of the new price (`queue_replace`).  Books with the same queues of alike orders trade alike
(`alike_of_queues`).
-/
import FixExchange.Engine.Alike
import FixExchange.Engine.LastFill
import FixExchange.Lib.Sublists

namespace FixExchange

/-- The ids of the orders of a list with a price. -/
def queueAt (l : List Order) (p : Price) : List String :=
  (l.filter fun o => o.price = p).map Order.exchangeId

lemma mem_queueAt {l : List Order} {p : Price} {id : String} :
    id ∈ queueAt l p ↔ ∃ o ∈ l, o.price = p ∧ o.exchangeId = id := by
  simp only [queueAt, List.mem_map, List.mem_filter, decide_eq_true_eq, and_assoc]

lemma queueAt_sublist {l l' : List Order} (h : l'.Sublist l) (p : Price) :
    (queueAt l' p).Sublist (queueAt l p) := (h.filter _).map _

/-- Orders that keep their price and their id keep their places. -/
lemma queueAt_congr {l l' : List Order}
    (h : (l.map fun o => (o.price, o.exchangeId)) = l'.map fun o => (o.price, o.exchangeId))
    (p : Price) : queueAt l p = queueAt l' p := by
  have hqueue : ∀ l : List Order, queueAt l p
      = ((l.map fun o => (o.price, o.exchangeId)).filter fun x => x.1 = p).map Prod.snd := by
    intro l
    rw [List.filter_map, List.map_map]
    rfl
  rw [hqueue, hqueue, h]

/-- Matching takes orders out of the front. -/
lemma queueAt_matchList (o : Order) (l : List Order) (p : Price) :
    (queueAt (matchList o l).rest p).Sublist (queueAt l p) := by
  refine matchList_induction (P := fun _ l d => (queueAt d.rest p).Sublist (queueAt l p))
    (fun o => List.Sublist.refl _) (fun o m l _ => List.Sublist.refl _) ?_ ?_ o l
  · intro o m l _ _ _
    have hsame : queueAt ((Trade.of o m).maker :: l) p = queueAt (m :: l) p := by
      refine queueAt_congr ?_ p
      rfl
    rw [hsame]
  · intro o m l d _ _ _ _ ih
    exact ih.trans (queueAt_sublist (List.sublist_cons_self m l) p)

namespace OrderBook

variable {b : OrderBook} {o : Order} {side : Char} {p : Price}

/-- The ids of the orders that are queued at a price of a side, in the order in which they
trade. -/
def queue (b : OrderBook) (side : Char) (p : Price) : List String :=
  if side = '1' then (b.bids.findD p []).map fun n => n.order.exchangeId
  else (b.asks.findD p []).map fun n => n.order.exchangeId

lemma queue_toFlat (h : b.Wf) (side : Char) (p : Price) : b.queue side p
    = if side = '1' then queueAt b.toFlat.bids p else queueAt b.toFlat.asks p := by
  rw [queue, h.bids_leveled.findD_eq_filter, h.asks_leveled.findD_eq_filter]
  simp only [queueAt, toFlat, List.filter_map, List.map_map]
  rfl

/-- What is queued rests at the price, on the side. -/
lemma mem_queue (h : b.Wf) {id : String} : id ∈ b.queue side p ↔ ∃ n ∈ b.nodes,
    (n.order.side = '1' ↔ side = '1') ∧ n.order.price = p ∧ n.order.exchangeId = id := by
  rw [queue_toFlat h]
  by_cases hs : side = '1'
  · rw [if_pos hs, mem_queueAt]
    simp only [toFlat, hs, iff_true, mem_nodes]
    constructor
    · rintro ⟨o, ho, hp, hid⟩
      obtain ⟨n, hn, rfl⟩ := List.mem_map.mp ho
      exact ⟨n, Or.inl hn, h.bids_side n hn, hp, hid⟩
    · rintro ⟨n, hn | hn, hside, hp, hid⟩
      · exact ⟨n.order, List.mem_map_of_mem hn, hp, hid⟩
      · exact absurd hside (h.asks_side n hn)
  · rw [if_neg hs, mem_queueAt]
    simp only [toFlat, hs, iff_false, mem_nodes]
    constructor
    · rintro ⟨o, ho, hp, hid⟩
      obtain ⟨n, hn, rfl⟩ := List.mem_map.mp ho
      exact ⟨n, Or.inr hn, h.asks_side n hn, hp, hid⟩
    · rintro ⟨n, hn | hn, hside, hp, hid⟩
      · exact absurd (h.bids_side n hn) hside
      · exact ⟨n.order, List.mem_map_of_mem hn, hp, hid⟩

@[simp] lemma queue_init (symbol : String) (side : Char) (p : Price) :
    (init symbol).queue side p = [] := by
  rw [queue]
  split_ifs <;> rfl

/-- **An order that is put into the book** joins the end of the queue of its price. -/
theorem queue_pushOrder (b : OrderBook) (o : Order) (side : Char) (p : Price) :
    (b.pushOrder o).queue side p = if (o.side = '1' ↔ side = '1') ∧ o.price = p then
      b.queue side p ++ [o.exchangeId] else b.queue side p := by
  have hpush : ∀ {r : Price → Price → Prop} [DecidableRel r] [IsStrictTotalOrder Price r]
      (levels : BookSide r), (levels.pushBack o.price ⟨b.nextAddr, o⟩).findD p []
        = if o.price = p then levels.findD p [] ++ [⟨b.nextAddr, o⟩] else levels.findD p [] := by
    intro r _ _ levels
    rw [SortedMap.pushBack, SortedMap.findD, SortedMap.find?_insert]
    by_cases hp : o.price = p
    · rw [if_pos hp.symm, if_pos hp, hp]
      rfl
    · rw [if_neg (Ne.symm hp), if_neg hp]
      rfl
  by_cases ho : o.side = '1' <;> by_cases hs : side = '1' <;>
    simp only [queue, pushOrder, ho, hs, if_true, if_false, hpush, true_iff, false_iff, true_and,
      not_true_eq_false, false_and]
  all_goals split_ifs <;> simp

/-- Matching only takes orders out of the queues. -/
lemma queue_tryMatch (h : b.Wf) (o : Order) (side : Char) (p : Price) :
    ((b.tryMatch o).book.queue side p).Sublist (b.queue side p) := by
  rw [queue_toFlat (h.tryMatch o), queue_toFlat h, (tryMatch_toFlat h o).1, FlatBook.matchIn]
  by_cases ho : o.side = '1' <;> by_cases hs : side = '1' <;>
    simp only [ho, hs, if_true, if_false, List.Sublist.refl, queueAt_matchList]

/-- Taking an order out takes it out of its queue. -/
lemma queue_unlink (h : b.Wf) {n : Node} (hn : n ∈ b.nodes) (side : Char) (p : Price) :
    ((b.unlink n.order.exchangeId n.addr n.order.price n.order.side).queue side p).Sublist
      (b.queue side p) := by
  obtain ⟨hbids, hasks⟩ := unlink_flat h hn n.order.exchangeId
  rw [queue_toFlat (h.unlink hn), queue_toFlat h, toFlat, hbids, hasks]
  split_ifs
  · exact queueAt_sublist (List.filter_sublist.map _) p
  · exact queueAt_sublist (List.filter_sublist.map _) p

lemma queue_cancel (h : b.Wf) (id : String) (side : Char) (p : Price) :
    ((b.cancel id).1.queue side p).Sublist (b.queue side p) := by
  rcases h.cancel_eq id with ⟨-, hc⟩ | ⟨n, hn, rfl, hc⟩
  · rw [hc]
  · rw [hc]
    exact queue_unlink h hn side p

/-- A change that keeps the price and the id of an order keeps its place. -/
lemma queue_modify (h : b.Wf) {it : ℕ} {f : Order → Order} (hwf : (b.modify it f).Wf)
    (hprice : ∀ o, (f o).price = o.price) (hid : ∀ o, (f o).exchangeId = o.exchangeId)
    (side : Char) (p : Price) : (b.modify it f).queue side p = b.queue side p := by
  obtain ⟨hbids, hasks⟩ := modify_flat b it f
  have hsame : ∀ ns : List Node,
      queueAt ((ns.map fun m => if m.addr = it then ⟨m.addr, f m.order⟩ else m).map Node.order) p
        = queueAt (ns.map Node.order) p := by
    intro ns
    refine queueAt_congr ?_ p
    rw [List.map_map, List.map_map, List.map_map]
    refine List.map_congr_left fun m _ => ?_
    simp only [Function.comp_apply]
    split_ifs
    · rw [hprice, hid]
    · rfl
  rw [queue_toFlat hwf, queue_toFlat h, toFlat, hbids, hasks]
  dsimp only
  rw [hsame, hsame]
  rfl

/-- **The queues after a new order**: orders are taken out, and the order may join the end of
one. -/
theorem queue_add (h : b.Wf) (o : Order) (side : Char) (p : Price) :
    ∃ q : List String, q.Sublist (b.queue side p) ∧ ((b.add o).book.queue side p = q ∨
      ((o.side = '1' ↔ side = '1') ∧ o.price = p ∧
        (b.add o).book.queue side p = q ++ [o.exchangeId])) := by
  refine ⟨_, queue_tryMatch h (o.withLeaves o.qty) side p, ?_⟩
  have htaker := (tryMatch_toFlat h (o.withLeaves o.qty)).2.1
  rw [matchIn_taker] at htaker
  simp only [add]
  split_ifs
  · rw [queue_pushOrder, htaker]
    split_ifs with hjoin
    · exact Or.inr ⟨hjoin.1, hjoin.2, rfl⟩
    · exact Or.inl rfl
  · exact Or.inl rfl

/-- **The queues after a replace**: orders are taken out, and an order that is not shrunk in
place may go to the end of the queue of its new price. -/
theorem queue_replace (h : b.Wf) (hk : b.Keyed) (id : String) (newPrice : Price) (newQty : ℤ)
    (side : Char) (p : Price) :
    ((b.replace id newPrice newQty).book.queue side p).Sublist (b.queue side p) ∨
      ∃ n ∈ b.nodes, n.order.exchangeId = id ∧
        ¬(newPrice = n.order.price ∧ newQty < n.order.leavesQty) ∧
        (n.order.side = '1' ↔ side = '1') ∧ newPrice = p ∧
        ∃ q : List String, q.Sublist (b.queue side p) ∧ id ∉ q ∧
          (b.replace id newPrice newQty).book.queue side p = q ++ [id] := by
  rcases h.replace_eq id newPrice newQty with ⟨-, hr⟩ | ⟨n, hn, rfl, ⟨-, -, hr⟩ | ⟨hne, hr⟩⟩
  · rw [hr]
    exact Or.inl (List.Sublist.refl _)
  · rw [hr]
    have hwf : (b.modify n.addr fun o => { o with qty := newQty, leavesQty := newQty }).Wf :=
      h.modify (fun _ => rfl) (fun _ => rfl) (fun _ => rfl) fun _ => rfl
    have hsame := queue_modify h hwf (fun _ => rfl) (fun _ => rfl) side p
    exact Or.inl (hsame ▸ List.Sublist.refl _)
  · rw [hr]
    have hunlink := queue_unlink h hn side p
    obtain ⟨q, hq, hsame | ⟨hside, hprice, hconcat⟩⟩ := queue_add (h.unlink hn)
      { n.order with price := newPrice, qty := newQty } side p
    · exact Or.inl (hsame ▸ hq.trans hunlink)
    · refine Or.inr ⟨n, hn, rfl, hne, hside, hprice, q, hq.trans hunlink, fun hid => ?_, hconcat⟩
      obtain ⟨m, hm, -, -, hmid⟩ := (mem_queue (h.unlink hn)).mp (hq.subset hid)
      exact hk.fresh_unlink h hn m hm hmid

/-! ## Books with the same queues -/

/-- Lists with the same values of `f`, one by one, whose elements with equal values are
related. -/
lemma forall₂_of_map_eq {α β : Type*} {R : α → α → Prop} {f : α → β} {l l' : List α}
    (h : l.map f = l'.map f) (hR : ∀ a ∈ l, ∀ a' ∈ l', f a = f a' → R a a') :
    List.Forall₂ R l l' := by
  have hf : List.Forall₂ (fun a a' => f a = f a') l l' := by
    rw [← List.forall₂_map_right_iff, ← List.forall₂_map_left_iff, h]
    exact List.forall₂_same.mpr fun _ _ => rfl
  obtain ⟨hlength, hzip⟩ := List.forall₂_iff_zip.mp hf
  refine List.forall₂_iff_zip.mpr ⟨hlength, fun {a a'} hmem => ?_⟩
  obtain ⟨ha, ha'⟩ := List.of_mem_zip hmem
  exact hR a ha a' ha' (hzip hmem)

/-- The levels of a side with the same ids. -/
lemma levels_alike {r : Price → Price → Prop} [IsStrictTotalOrder Price r] {m m' : BookSide r}
    (h : m.Leveled Node.price) (h' : m'.Leveled Node.price)
    (hqueues : ∀ p, ((m.findD p []).map fun n => n.order.exchangeId)
      = (m'.findD p []).map fun n => n.order.exchangeId)
    (hsame : ∀ n ∈ m.flat, ∀ n' ∈ m'.flat, n.order.exchangeId = n'.order.exchangeId →
      n.order.Alike n'.order) :
    List.Forall₂ Order.Alike (m.flat.map Node.order) (m'.flat.map Node.order) := by
  -- a side is the list of its prices and ids, sorted by price
  have hparts : ∀ {m : BookSide r}, m.Leveled Node.price → ∀ p,
      ((m.flat.map fun n => (n.order.price, n.order.exchangeId)).filter fun x => x.1 = p)
        = ((m.findD p []).map fun n => n.order.exchangeId).map fun id => (p, id) := by
    intro m h p
    rw [h.findD_eq_filter, List.filter_map, List.map_map]
    refine List.map_congr_left fun n hn => ?_
    have hp : n.order.price = p := of_decide_eq_true (List.mem_filter.mp hn).2
    rw [Function.comp_apply, hp]
  have hsorted : ∀ {m : BookSide r}, m.Leveled Node.price →
      (m.flat.map fun n => (n.order.price, n.order.exchangeId)).Pairwise
        fun x y => ¬ r y.1 x.1 := fun h => List.pairwise_map.mpr h.flat_sorted
  have heq : (m.flat.map fun n => (n.order.price, n.order.exchangeId))
      = m'.flat.map fun n => (n.order.price, n.order.exchangeId) := by
    refine Sublists.eq_of_filter_eq (hsorted h) (hsorted h') fun p => ?_
    rw [hparts h, hparts h', hqueues]
  rw [List.forall₂_map_left_iff, List.forall₂_map_right_iff]
  exact forall₂_of_map_eq heq fun n hn n' hn' hkey => hsame n hn n' hn' (congrArg Prod.snd hkey)

/-- **Books with the same queues** of alike orders are alike. -/
theorem alike_of_queues {b' : OrderBook} (h : b.Wf) (h' : b'.Wf)
    (hqueues : ∀ side p, b.queue side p = b'.queue side p)
    (hsame : ∀ n ∈ b.nodes, ∀ n' ∈ b'.nodes, n.order.exchangeId = n'.order.exchangeId →
      n.order.Alike n'.order) : b.toFlat.Alike b'.toFlat := by
  refine ⟨levels_alike h.bids_leveled h'.bids_leveled (hqueues '1') fun n hn n' hn' => ?_,
    levels_alike h.asks_leveled h'.asks_leveled (hqueues '2') fun n hn n' hn' => ?_⟩
  · exact hsame n (mem_nodes.mpr (Or.inl hn)) n' (mem_nodes.mpr (Or.inl hn'))
  · exact hsame n (mem_nodes.mpr (Or.inr hn)) n' (mem_nodes.mpr (Or.inr hn'))

/-- The queues after orders have been restored. -/
lemma queue_restore (b : OrderBook) (orders : List Order) (side : Char) (p : Price) :
    (orders.foldl restore b).queue side p = b.queue side p ++ (orders.filter fun o =>
      (o.side = '1' ↔ side = '1') ∧ o.price = p).map Order.exchangeId := by
  induction orders generalizing b with
  | nil => exact (List.append_nil _).symm
  | cons o orders ih =>
    rw [List.foldl_cons, ih, restore, queue_pushOrder, List.filter_cons]
    simp only [decide_eq_true_eq]
    split_ifs
    · rw [List.map_cons, List.append_assoc]
      rfl
    · rfl

end OrderBook

end FixExchange
