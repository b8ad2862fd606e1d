/-
# A subscriber that keeps queues

A subscriber of the feed that is interested in the time priority of the orders: it keeps, for
every level, the orders in the order in which they have joined it.  A new order joins the end
of a queue, and so does one that is announced by the second packet of a replace; an order
leaves its queue when it is gone, and keeps its place when it is replaced in place.
-/
import FixExchange.Ui.Reflects

namespace FixExchange

/-- A level of the feed. -/
structure FeedLevel where
  symbol : String
  side : Char
  price : Price
deriving DecidableEq

/-- The orders that a subscriber knows, with their levels, in the order in which they have
joined the queues of their levels. -/
abbrev LevelQueues := List (String × FeedLevel)

namespace LevelQueues

/-- The queue of a level. -/
def queueOf (q : LevelQueues) (level : FeedLevel) : List String :=
  (q.filter fun e => e.2 = level).map Prod.fst

/-- The ids of all orders that are queued. -/
def keys (q : LevelQueues) : List String := q.map Prod.fst

/-- An order leaves its queue. -/
def leave (q : LevelQueues) (id : String) : LevelQueues := q.filter fun e => e.1 ≠ id

/-- An order joins the end of a queue. -/
def join (q : LevelQueues) (id : String) (level : FeedLevel) : LevelQueues :=
  q.leave id ++ [(id, level)]

/-- What a packet says about the queues. -/
def applyMd (q : LevelQueues) (evt : EventType) (side : Char) (symbol : String) (price : Price)
    (qty : ℤ) (exchangeId : String) : LevelQueues :=
  match evt with
  | .NewOrder | .ReplaceNew => q.join exchangeId ⟨symbol, side, price⟩
  | .Cancel | .ReplaceDelete => q.leave exchangeId
  | .FillResting => if qty = 0 then q.leave exchangeId else q
  | .Trade | .ReplaceInPlace => q

/-- A packet of the feed is unpacked and applied, unless unpacking it fails. -/
def receive (q : LevelQueues) (pkt : MdPacket) : LevelQueues :=
  match Subscriber.decode pkt.symbol, Subscriber.decode pkt.exchangeId with
  | some symbol, some exchangeId =>
    q.applyMd pkt.eventType pkt.side symbol pkt.price pkt.qty exchangeId
  | _, _ => q

variable {q : LevelQueues} {id id' : String} {level level' : FeedLevel}

lemma receive_of_fits (q : LevelQueues) (seq : ℕ) (evt : EventType) (side : Char)
    {symbol id : String} (price : Price) (qty : ℤ) (hsymbol : TextFits 8 symbol)
    (hid : TextFits 16 id) :
    q.receive ⟨seq, evt, side, fillFixed 8 symbol, price, qty, fillFixed 16 id⟩
      = q.applyMd evt side symbol price qty id := by
  simp only [receive, decode_fillFixed hsymbol, decode_fillFixed hid]

lemma mem_leave : (id', level') ∈ q.leave id ↔ (id', level') ∈ q ∧ id' ≠ id := by
  simp [leave]

lemma mem_join :
    (id', level') ∈ q.join id level ↔ if id' = id then level' = level else (id', level') ∈ q := by
  rw [join, List.mem_append, mem_leave]
  split_ifs with hid
  · simp [hid]
  · simp [hid]

lemma keys_leave (q : LevelQueues) (id : String) :
    (q.leave id).keys = q.keys.filter fun id' => id' ≠ id := by
  rw [keys, keys, leave, List.filter_map]
  rfl

lemma keys_join (q : LevelQueues) (id : String) (level : FeedLevel) :
    (q.join id level).keys = (q.keys.filter fun id' => id' ≠ id) ++ [id] := by
  rw [join, keys, List.map_append, ← keys_leave]
  rfl

lemma nodup_leave (h : q.keys.Nodup) (id : String) : (q.leave id).keys.Nodup := by
  rw [keys_leave]
  exact h.filter _

lemma nodup_join (h : q.keys.Nodup) (id : String) (level : FeedLevel) :
    (q.join id level).keys.Nodup := by
  rw [keys_join, ← List.concat_eq_append]
  exact (h.filter _).concat (by simp)

lemma mem_queueOf : id ∈ q.queueOf level ↔ (id, level) ∈ q := by
  simp [queueOf]

lemma queueOf_sublist (q : LevelQueues) (level : FeedLevel) :
    (q.queueOf level).Sublist q.keys := List.filter_sublist.map _

end LevelQueues

/-- The level of an order. -/
def Order.feedLevel (o : Order) : FeedLevel :=
  ⟨o.symbol, MarketDataPublisher.packetSide o.side, o.price⟩

/-- The queues hold the orders of a ledger, each at its level. -/
structure Queues (q : LevelQueues) (L : OrderLedger) : Prop where
  orders : ∀ id o, L id = some o → o.exchangeId = id ∧ o.TextsFit
  nodup : q.keys.Nodup
  mem : ∀ id level, (id, level) ∈ q ↔ ∃ o, L id = some o ∧ o.feedLevel = level

namespace Queues

variable {q : LevelQueues} {L : OrderLedger} {id : String} {o o' : Order}

lemma leave (h : Queues q L) (id : String) : Queues (q.leave id) (L.drop id) := by
  refine ⟨fun id' o' ho' => ?_, LevelQueues.nodup_leave h.nodup id, fun id' level => ?_⟩
  · exact h.orders id' o' (Ledger.of_drop_eq_some ho')
  · rw [LevelQueues.mem_leave, h.mem]
    by_cases hid : id' = id
    · simp [hid, Ledger.drop_self]
    · simp [hid, Ledger.drop_of_ne hid]

lemma join (h : Queues q L) (hid : o.exchangeId = id) (hfits : o.TextsFit) :
    Queues (q.join id o.feedLevel) (L.put id o) := by
  refine ⟨fun id' o' ho' => ?_, LevelQueues.nodup_join h.nodup id _, fun id' level => ?_⟩
  · by_cases hid' : id' = id
    · rw [hid', Ledger.put_self] at ho'
      obtain rfl := Option.some.inj ho'
      exact ⟨hid.trans hid'.symm, hfits⟩
    · rw [Ledger.put_of_ne hid'] at ho'
      exact h.orders id' o' ho'
  · rw [LevelQueues.mem_join]
    split_ifs with hid'
    · simp [hid', Ledger.put_self, eq_comm]
    · rw [h.mem, Ledger.put_of_ne hid']

/-- A change that keeps the level of an order. -/
lemma keep (h : Queues q L) (ho : L id = some o) (hid : o'.exchangeId = o.exchangeId)
    (hlevel : o'.feedLevel = o.feedLevel) : Queues q (L.put id o') := by
  have hsymbol : o'.symbol = o.symbol := congrArg FeedLevel.symbol hlevel
  refine ⟨fun id' o'' ho'' => ?_, h.nodup, fun id' level => ?_⟩
  · by_cases hid' : id' = id
    · rw [hid', Ledger.put_self] at ho''
      obtain rfl := Option.some.inj ho''
      obtain ⟨hoid, hfits⟩ := h.orders id o ho
      refine ⟨by rw [hid, hoid, hid'], ?_⟩
      rw [Order.TextsFit, hid, hsymbol]
      exact hfits
    · rw [Ledger.put_of_ne hid'] at ho''
      exact h.orders id' o'' ho''
  · rw [h.mem]
    by_cases hid' : id' = id
    · simp [hid', Ledger.put_self, ho, hlevel]
    · rw [Ledger.put_of_ne hid']

end Queues

/-! ## Notices -/

/-- The queues after the packets of a notice. -/
def Notice.enqueue (q : LevelQueues) (n : Notice) : LevelQueues :=
  (n.publish MarketDataPublisher.init).sent.foldl LevelQueues.receive q

/-- The queues after a notice, whatever has been sent before. -/
lemma Notice.foldl_publish_queues (n : Notice) (m : MarketDataPublisher) (q : LevelQueues) :
    (n.publish m).sent.foldl LevelQueues.receive q
      = n.enqueue (m.sent.foldl LevelQueues.receive q) :=
  n.foldl_sent (fun _ _ _ => rfl) m q

/-- What a notice says about the queues. -/
def Notice.move (q : LevelQueues) : Notice → LevelQueues
  | .filled maker _ => if maker.leavesQty = 0 then q.leave maker.exchangeId else q
  | .cancelled id _ => q.leave id
  | .replaced req _ oldPrice =>
    if oldPrice = req.newPrice then q
    else q.join req.origOrderId
      ⟨req.symbol, MarketDataPublisher.packetSide req.side, req.newPrice⟩
  | .rested order _ => q.join order.exchangeId order.feedLevel

/-- The packets of a notice that fits say what the notice says. -/
lemma Queues.enqueue_eq {q : LevelQueues} {L : OrderLedger} (h : Queues q L) {n : Notice}
    (hfits : n.Fits L) (htexts : ∀ o k, n = .rested o k → o.TextsFit) :
    n.enqueue q = n.move q := by
  cases n with
  | filled maker taker =>
    obtain ⟨-, o, ho, hsymbol, -⟩ := hfits
    obtain ⟨hid, hidfits, hsymfits⟩ := h.orders _ o ho
    rw [hid] at hidfits
    rw [hsymbol] at hsymfits
    simp only [Notice.enqueue, Notice.publish, MarketDataPublisher.onFill,
      MarketDataPublisher.send, MarketDataPublisher.init, List.nil_append, List.singleton_append,
      List.foldl_cons, List.foldl_nil, LevelQueues.receive_of_fits _ _ _ _ _ _ hsymfits hidfits,
      LevelQueues.applyMd, Notice.move]
  | cancelled id order =>
    obtain ⟨rfl, hidfits, hsymfits⟩ := h.orders id order hfits
    simp only [Notice.enqueue, Notice.publish, MarketDataPublisher.onCancel,
      MarketDataPublisher.send, MarketDataPublisher.init, List.nil_append, List.foldl_cons,
      List.foldl_nil, LevelQueues.receive_of_fits _ _ _ _ _ _ hsymfits hidfits,
      LevelQueues.applyMd, Notice.move]
  | replaced req newLeavesQty oldPrice =>
    obtain ⟨-, o, ho, -, hsymbol, -⟩ := hfits
    obtain ⟨hid, hidfits, hsymfits⟩ := h.orders _ o ho
    rw [hid] at hidfits
    rw [hsymbol] at hsymfits
    by_cases hsame : oldPrice = req.newPrice
    · simp only [Notice.enqueue, Notice.publish, MarketDataPublisher.onReplace, if_pos hsame,
        MarketDataPublisher.send, MarketDataPublisher.init, List.nil_append, List.foldl_cons,
        List.foldl_nil, LevelQueues.receive_of_fits _ _ _ _ _ _ hsymfits hidfits,
        LevelQueues.applyMd, Notice.move]
    · simp only [Notice.enqueue, Notice.publish, MarketDataPublisher.onReplace, if_neg hsame,
        MarketDataPublisher.send, MarketDataPublisher.init, List.nil_append,
        List.singleton_append, List.foldl_cons, List.foldl_nil,
        LevelQueues.receive_of_fits _ _ _ _ _ _ hsymfits hidfits, LevelQueues.applyMd,
        Notice.move]
      simp [LevelQueues.join, LevelQueues.leave]
  | rested order leavesQty =>
    obtain ⟨hidfits, hsymfits⟩ := htexts order leavesQty rfl
    simp only [Notice.enqueue, Notice.publish, MarketDataPublisher.onNewOrder,
      MarketDataPublisher.send, MarketDataPublisher.init, List.nil_append, List.foldl_cons,
      List.foldl_nil, LevelQueues.receive_of_fits _ _ _ _ _ _ hsymfits hidfits,
      LevelQueues.applyMd, Notice.move, Order.feedLevel]

/-- **The packets of a notice** put the orders at their levels. -/
theorem Queues.enqueue {q : LevelQueues} {L : OrderLedger} (h : Queues q L) {n : Notice}
    (hfits : n.Fits L) (htexts : ∀ o k, n = .rested o k → o.TextsFit) :
    Queues (n.enqueue q) (n.post L) := by
  rw [h.enqueue_eq hfits htexts]
  cases n with
  | filled maker taker =>
    obtain ⟨-, o, ho, -⟩ := hfits
    rw [Notice.post, Notice.move, OrderLedger.setOpen, Ledger.setAmount]
    split_ifs with hzero
    · exact h.leave _
    · rw [Ledger.adjust_of_some ho]
      exact h.keep ho rfl rfl
  | cancelled id order => exact h.leave id
  | replaced req newLeavesQty oldPrice =>
    obtain ⟨-, o, ho, rfl, hsymbol, hside⟩ := hfits
    obtain ⟨hid, htext⟩ := h.orders _ o ho
    rw [Notice.post, Notice.move, Ledger.adjust_of_some ho]
    split_ifs with hsame
    · refine h.keep ho rfl ?_
      simp only [Order.feedLevel, FixGateway.replaced, hsame]
    · rw [← hsymbol, ← hside]
      exact h.join (o := FixGateway.replaced o req newLeavesQty) hid htext
  | rested order leavesQty =>
    exact h.join (o := order.withLeaves leavesQty) rfl (htexts order leavesQty rfl)

/-! ## The order of the ids -/

namespace LevelQueues

/-- The ids when one of them has gone to the end, or none. -/
def sendBack (keys : List String) : Option String → List String
  | none => keys
  | some id => (keys.filter fun id' => id' ≠ id) ++ [id]

lemma nodup_sendBack {keys : List String} (h : keys.Nodup) (back : Option String) :
    (sendBack keys back).Nodup := by
  cases back with
  | none => exact h
  | some id =>
    rw [sendBack, ← List.concat_eq_append]
    exact (h.filter _).concat (by simp)

lemma sublist_sendBack {keys keys' : List String} (h : keys.Sublist keys')
    (back : Option String) : (sendBack keys back).Sublist (sendBack keys' back) := by
  cases back with
  | none => exact h
  | some id => exact (h.filter _).append (List.Sublist.refl _)

end LevelQueues

/-- The order that a notice puts at the end of a queue. -/
def Notice.joins : Notice → Option String
  | .filled _ _ | .cancelled _ _ => none
  | .replaced req _ oldPrice => if oldPrice = req.newPrice then none else some req.origOrderId
  | .rested order _ => some order.exchangeId

/-- A notice moves no id but the one that it puts at the end. -/
lemma Notice.keys_move (q : LevelQueues) (n : Notice) :
    (n.move q).keys.Sublist (LevelQueues.sendBack q.keys n.joins) := by
  have hleave : ∀ id, (q.leave id).keys.Sublist q.keys := fun id => by
    rw [LevelQueues.keys_leave]
    exact List.filter_sublist
  cases n with
  | filled maker taker =>
    rw [Notice.move]
    split_ifs
    · exact hleave _
    · exact List.Sublist.refl _
  | cancelled id order => exact hleave id
  | replaced req newLeavesQty oldPrice =>
    rw [Notice.move, Notice.joins]
    split_ifs
    · exact List.Sublist.refl _
    · rw [LevelQueues.keys_join]
      exact List.Sublist.refl _
  | rested order leavesQty =>
    rw [Notice.move, LevelQueues.keys_join]
    exact List.Sublist.refl _

/-- The ids after fills and at most one other notice. -/
lemma Notice.keys_moves (fs : List FillPair) (last : Option Notice) (q : LevelQueues) :
    ((fs.map (fun f => Notice.filled f.maker f.taker) ++ last.toList).foldl Notice.move q).keys.Sublist
      (LevelQueues.sendBack q.keys (last.bind Notice.joins)) := by
  have hfills : ∀ fs : List FillPair,
      ((fs.map fun f => Notice.filled f.maker f.taker).foldl Notice.move q).keys.Sublist q.keys := by
    intro fs
    induction fs using List.reverseRecOn with
    | nil => exact List.Sublist.refl _
    | append_singleton fs f ih =>
      rw [List.map_append, List.foldl_append]
      exact (Notice.keys_move _ (.filled f.maker f.taker)).trans ih
  rw [List.foldl_append]
  cases last with
  | none => exact hfills fs
  | some n => exact (Notice.keys_move _ n).trans (LevelQueues.sublist_sendBack (hfills fs) n.joins)

/-- The packets of notices that follow a ledger say what the notices say. -/
lemma Queues.foldl_enqueue {q : LevelQueues} {L L' : OrderLedger} {ns : List Notice}
    (h : Follows L ns L') (hq : Queues q L) (htexts : ∀ o k, .rested o k ∈ ns → o.TextsFit) :
    ns.foldl (fun q n => n.enqueue q) q = ns.foldl Notice.move q := by
  induction h generalizing q with
  | nil => rfl
  | @cons L L' n ns fits rest ih =>
    have hone : ∀ o k, n = .rested o k → o.TextsFit := fun o k hn =>
      htexts o k (hn ▸ List.mem_cons_self)
    rw [List.foldl_cons, List.foldl_cons, ← hq.enqueue_eq fits hone]
    exact ih (hq.enqueue fits hone) fun o k hmem => htexts o k (List.mem_cons_of_mem _ hmem)

end FixExchange
