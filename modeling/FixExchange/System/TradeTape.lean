/-
# The tape

The engine thread tells the risk engine, the feed and the persistence layer about a trade in one
section of `onFill`, after the trade has been made and reported.  All of them have the trades in the
order in which they have been made, each once: the feed prints them; the price collar is around the
last one; and `loadHistoricalTrades` answers with the last ones that have been written, of all
processes that have used the database (`one_tape`).
-/
import FixExchange.System.RiskRestart
import FixExchange.Ui.Snapshot
import Mathlib.Data.List.DropRight

namespace FixExchange

open FixClient (HistoricalTrade)

/-! ## What the feed prints -/

/-- What a packet prints about a trade. -/
structure Print where
  symbol : FixedText 8
  price : Price
  qty : ℤ
  exchangeId : FixedText 16
deriving DecidableEq

/-- The trade of a packet. -/
def MdPacket.print (pkt : MdPacket) : Option Print :=
  if pkt.side = '2' then some ⟨pkt.symbol, pkt.price, pkt.qty, pkt.exchangeId⟩ else none

/-- The print of a trade, given the fill of the resting order. -/
def Fill.print (maker : Fill) : Print :=
  ⟨fillFixed 8 maker.symbol, maker.price, maker.qty, fillFixed 16 maker.exchangeId⟩

namespace MarketDataPublisher

variable {m : MarketDataPublisher}

/-- The trades that have been printed. -/
def prints (m : MarketDataPublisher) : List Print := m.sent.filterMap MdPacket.print

/-- The packets are numbered without gaps. -/
def Numbered (m : MarketDataPublisher) : Prop := m.sent.map MdPacket.seq = List.range' 1 m.seq

lemma Numbered.send (h : m.Numbered) (eventType : EventType) (side : Char) (symbol : String)
    (price : Price) (qty : ℤ) (exchangeId : String) :
    (m.send eventType side symbol price qty exchangeId).Numbered := by
  show (m.sent ++ [_]).map MdPacket.seq = List.range' 1 (m.seq + 1)
  rw [List.map_append, h, List.range'_1_concat, List.map_singleton, Nat.add_comm 1]

lemma prints_send (eventType : EventType) {side : Char} (hside : side ≠ '2') (symbol : String)
    (price : Price) (qty : ℤ) (exchangeId : String) :
    (m.send eventType side symbol price qty exchangeId).prints = m.prints := by
  show (m.sent ++ [_]).filterMap MdPacket.print = _
  have hnone : MdPacket.print ⟨m.seq + 1, eventType, side, fillFixed 8 symbol, price, qty,
      fillFixed 16 exchangeId⟩ = none := if_neg hside
  rw [List.filterMap_append, List.filterMap_cons_none hnone, List.filterMap_nil, List.append_nil,
    prints]

lemma packetSide_ne (side : Char) : packetSide side ≠ '2' := by
  rw [packetSide]
  split_ifs <;> decide

lemma prints_onFill (maker : Fill) : (m.onFill maker).prints = m.prints ++ [maker.print] := by
  rw [onFill, prints, send, List.filterMap_append]
  show (m.send _ _ _ _ _ _).prints ++ _ = _
  rw [prints_send _ (packetSide_ne _)]
  rfl

lemma prints_onReplace (req : ReplaceRequest) (newLeavesQty : ℤ) (oldPrice : Price) :
    (m.onReplace req newLeavesQty oldPrice).prints = m.prints := by
  rw [onReplace]
  split_ifs
  · exact prints_send _ (packetSide_ne _) _ _ _ _
  · rw [prints_send _ (packetSide_ne _), prints_send _ (packetSide_ne _)]

lemma Numbered.onReplace (h : m.Numbered) (req : ReplaceRequest) (newLeavesQty : ℤ)
    (oldPrice : Price) : (m.onReplace req newLeavesQty oldPrice).Numbered := by
  rw [MarketDataPublisher.onReplace]
  split_ifs
  · exact h.send _ _ _ _ _ _
  · exact (h.send _ _ _ _ _ _).send _ _ _ _ _ _

end MarketDataPublisher

/-- A task prints its trade. -/
lemma FixGateway.runTask_prints (g : FixGateway) (t : Task) (h : g.publisher.Numbered) :
    (g.runTask t).1.publisher.Numbered ∧
      (g.runTask t).1.publisher.prints = g.publisher.prints ++ t.trades.map Fill.print := by
  have hsame : g.publisher.Numbered ∧ g.publisher.prints = g.publisher.prints ++ [] :=
    ⟨h, (List.append_nil _).symm⟩
  cases t with
  | fillRouting fill =>
    simp only [runTask, fillRouting]
    cases g.orderSessions.lookup fill.exchangeId with
    | none => exact hsame
    | some session =>
      dsimp only
      split_ifs <;> exact hsame
  | fillOrders fill session => exact hsame
  | fillDone maker taker =>
    refine ⟨?_, MarketDataPublisher.prints_onFill maker⟩
    exact (h.send _ _ _ _ _ _).send _ _ _ _ _ _
  | onCancel req found =>
    simp only [runTask, onCancel]
    split
    · split_ifs
      · refine ⟨h.send _ _ _ _ _ _, ?_⟩
        exact (MarketDataPublisher.prints_send _ (MarketDataPublisher.packetSide_ne _) _ _ _ _).trans
          (List.append_nil _).symm
      · exact hsame
    · exact hsame
  | onTIFCancel order =>
    simp only [runTask, onTIFCancel]
    split <;> exact hsame
  | onReplace req found newLeavesQty =>
    simp only [runTask, onReplace]
    split
    · rename_i session existing _ _
      cases found with
      | false => exact hsame
      | true =>
        exact ⟨h.onReplace req newLeavesQty existing.price,
          (MarketDataPublisher.prints_onReplace req newLeavesQty existing.price).trans
            (List.append_nil _).symm⟩
    · exact hsame
  | onOrderRested order leavesQty =>
    refine ⟨h.send _ _ _ _ _ _, ?_⟩
    exact (MarketDataPublisher.prints_send _ (MarketDataPublisher.packetSide_ne _) _ _ _ _).trans
      (List.append_nil _).symm

/-! ## What the database has -/

/-- The trade that an event records. -/
def PersistenceEvent.trade : PersistenceEvent → Option Fill
  | .fill maker => some maker
  | .rested _ _ | .takerFill _ | .cancel _ _ | .replace _ _ | .symbol _ => none

/-- What the database has about a trade. -/
structure TapeEntry where
  symbol : Option String
  price : Price
  qty : ℤ
deriving DecidableEq

/-- The entry of a trade. -/
def Fill.entry (maker : Fill) : TapeEntry := ⟨some maker.symbol, maker.price, maker.qty⟩

/-- The entry of a row. -/
def EventRow.entry (row : EventRow) : TapeEntry := ⟨row.symbol, row.price.getD 0, row.qty.getD 0⟩

/-- The rows of trades. -/
def Database.tape (db : Database) : List TapeEntry :=
  (db.events.filter fun row => row.type = "fill").map EventRow.entry

lemma Database.tape_applyEvent (db : Database) (evt : PersistenceEvent) :
    (db.applyEvent evt).tape = db.tape ++ (evt.trade.map Fill.entry).toList := by
  have hinsert : ∀ (db' : Database) (row : EventRow), db'.events = db.events →
      (db'.insertEvent row).tape
        = db.tape ++ if row.type = "fill" then [row.entry] else [] := by
    intro db' row hdb
    rw [tape, insertEvent, hdb, List.filter_append, List.map_append]
    by_cases h : row.type = "fill" <;> simp [tape, h]
  cases evt with
  | rested o leavesQty => exact hinsert _ _ rfl
  | fill f =>
    rw [applyEvent]
    split_ifs <;> exact hinsert _ _ rfl
  | takerFill f => exact hinsert _ _ rfl
  | cancel id o => exact hinsert _ _ rfl
  | replace req leavesQty =>
    rw [applyEvent]
    split_ifs <;> exact hinsert _ _ rfl
  | symbol symbol =>
    rw [applyEvent]
    split_ifs <;> exact (List.append_nil _).symm

lemma Task.trades_pushes (t : Task) (g : FixGateway) :
    (t.pushes g).filterMap PersistenceEvent.trade = t.trades := by
  cases t with
  | fillDone maker taker => rfl
  | fillRouting fill | fillOrders fill session | onTIFCancel order | onOrderRested o leavesQty => rfl
  | onCancel req found | onReplace req found newLeavesQty =>
    simp only [Task.pushes, Task.trades]
    split
    · split_ifs <;> rfl
    · rfl

/-! ## The history of a symbol -/

/-- A row of the table `events`, with its time. -/
structure StampedRow where
  ts : ℤ
  row : EventRow

/-- The row is a trade of the symbol. -/
def StampedRow.IsTradeIn (symbol : String) (r : StampedRow) : Prop :=
  r.row.type = "fill" ∧ r.row.symbol = some symbol

instance (symbol : String) (r : StampedRow) : Decidable (r.IsTradeIn symbol) :=
  inferInstanceAs (Decidable (_ ∧ _))

/-- The columns that are selected. -/
def StampedRow.trade (r : StampedRow) : HistoricalTrade :=
  ⟨r.row.price.getD 0, r.row.qty.getD 0, r.ts⟩

/-- `PersistenceLayer::loadHistoricalTrades`: `ORDER BY seq DESC LIMIT ?` on the trades of the
symbol, and `ORDER BY ts ASC` on what that selects. -/
def loadHistoricalTrades (rows : List StampedRow) (symbol : String) (limit : ℕ) :
    List HistoricalTrade :=
  (((rows.filter fun r => r.IsTradeIn symbol).reverse.take limit).map StampedRow.trade).insertionSort
    fun t t' => t.ts ≤ t'.ts

/-- Sorting by a key that increases along a list puts the list right again. -/
lemma insertionSort_reverse {α β : Type*} [LinearOrder β] (key : α → β) {l : List α}
    (h : l.Pairwise (key · < key ·)) :
    l.reverse.insertionSort (fun x y => key x ≤ key y) = l := by
  have hperm : (l.reverse.insertionSort fun x y => key x ≤ key y).Perm l :=
    (List.perm_insertionSort _ _).trans (List.reverse_perm l)
  have hsorted : (l.reverse.insertionSort fun x y => key x ≤ key y).Pairwise (key · ≤ key ·) :=
    List.pairwise_insertionSort (fun x y => key x ≤ key y) _
  refine hperm.eq_of_pairwise (fun x y hx hy hxy hyx => ?_) hsorted (h.imp le_of_lt)
  -- elements with the same key are the same
  have hinj : (l.map key).Nodup := (List.pairwise_map.mpr h).imp ne_of_lt
  exact List.inj_on_of_nodup_map hinj (hperm.subset hx) hy (le_antisymm hxy hyx)

/-- When the clock has advanced from row to row, the order of the times is the one of the rows. -/
theorem loadHistoricalTrades_eq {rows : List StampedRow} (hclock : rows.Pairwise (·.ts < ·.ts))
    (symbol : String) (limit : ℕ) :
    loadHistoricalTrades rows symbol limit
      = ((rows.filter fun r => r.IsTradeIn symbol).map StampedRow.trade).rtake limit := by
  have hreverse : ((rows.filter fun r => r.IsTradeIn symbol).reverse.take limit).map
      StampedRow.trade
        = (((rows.filter fun r => r.IsTradeIn symbol).map StampedRow.trade).rtake limit).reverse := by
    rw [List.rtake_eq_reverse_take_reverse, List.reverse_reverse, ← List.map_reverse, List.map_take]
  have hlt : (((rows.filter fun r => r.IsTradeIn symbol).map StampedRow.trade).rtake
      limit).Pairwise (·.ts < ·.ts) := by
    refine List.Pairwise.sublist (List.drop_sublist _ _) (List.pairwise_map.mpr ?_)
    exact (hclock.sublist List.filter_sublist).imp fun h => h
  rw [loadHistoricalTrades, hreverse]
  exact insertionSort_reverse HistoricalTrade.ts hlt

/-- What the history of a symbol has of a tape. -/
def tapeOf (symbol : String) (tape : List TapeEntry) : List (Price × ℤ) :=
  (tape.filter fun e => e.symbol = some symbol).map fun e => (e.price, e.qty)

lemma tape_of_rows {rows : List StampedRow} {db : Database}
    (hrows : rows.map StampedRow.row = db.events) (symbol : String) :
    ((rows.filter fun r => r.IsTradeIn symbol).map StampedRow.trade).map
        (fun t => (t.price, t.qty)) = tapeOf symbol db.tape := by
  rw [tapeOf, Database.tape, ← hrows]
  simp only [List.filter_map, List.map_map, List.filter_filter]
  refine congrArg₂ _ rfl (List.filter_congr fun r _ => ?_)
  rw [Bool.eq_iff_iff, Bool.and_eq_true]
  exact decide_eq_true_iff.trans
    (and_comm.trans (and_congr decide_eq_true_iff.symm decide_eq_true_iff.symm))

/-- The rows, with a clock that advances from row to row. -/
def stamped (events : List EventRow) : List StampedRow := events.zipIdx.map fun r => ⟨r.2, r.1⟩

lemma stamped_row (events : List EventRow) : (stamped events).map StampedRow.row = events := by
  rw [stamped, List.map_map]
  exact List.zipIdx_map_fst 0 events

namespace System

variable {cfg : Config} {db : Database} {ok : System → Action → Prop} {s s' s₀ : System}
  {as : List Action} {a : Action}

/-! ## All runs -/

/-- The trades that a step passes on. -/
def passesOn (s : System) : Action → List Fill
  | .engine =>
    match s.tasks with
    | t :: _ => t.trades
    | [] => []
  | _ => []

/-- The trades that a run has passed on. -/
def passedOn (s : System) (as : List Action) : List Fill := Transition.collect step passesOn s as

/-- What everybody knows of the trades that have been passed on, of a process that has started on a
database with a tape. -/
structure OneTape (tape : List TapeEntry) (told : List Fill) (s : System) : Prop where
  numbered : s.gateway.publisher.Numbered
  prints : s.gateway.publisher.prints = told.map Fill.print
  risk : ∀ symbol, s.gateway.risk.lastPrice.lookup symbol = lastTrade symbol told
  database : ∀ p ∈ s.gateway.persistence,
    tape ++ told.map Fill.entry
      = p.db.tape ++ (p.queue.filterMap PersistenceEvent.trade).map Fill.entry

variable {tape : List TapeEntry} {told : List Fill}

/-- The trades that a step passes on are recorded. -/
lemma trades_pushes (s : System) (a : Action) :
    (s.pushes a).filterMap PersistenceEvent.trade = s.passesOn a := by
  cases a with
  | engine =>
    cases ht : s.tasks with
    | nil => simp [pushes, passesOn, ht]
    | cons t ts => simpa [pushes, passesOn, ht] using t.trades_pushes s.gateway
  | message | logon | handle | persist | registerSymbol symbol => rfl

/-- The part about the database. -/
lemma OneTape.database_step (h : s.OneTape tape told) (hstep : s.step a = some s') :
    ∀ p ∈ s'.gateway.persistence, tape ++ (told ++ s.passesOn a).map Fill.entry
      = p.db.tape ++ (p.queue.filterMap PersistenceEvent.trade).map Fill.entry := by
  intro p' hp'
  rw [← trades_pushes, List.map_append, ← List.append_assoc]
  rcases persistence_step hstep with hpush | ⟨p, p₁, hp, happly, hp₁, hnil⟩
  · rw [hpush] at hp'
    obtain ⟨p, hp, rfl⟩ := Option.map_eq_some_iff.mp hp'
    rw [h.database p hp, List.filterMap_append, List.map_append, List.append_assoc]
  · obtain rfl := Option.some.inj (hp₁.symm.trans hp')
    obtain ⟨evt, hq, hdb⟩ := PersistenceLayer.applyNext_eq_some happly
    rw [hnil, h.database p hp, hq, hdb, Database.tape_applyEvent, List.filterMap_nil, List.map_nil,
      List.append_nil, List.append_assoc, List.filterMap_cons]
    cases evt.trade <;> rfl

/-- **One step** passes on its trades to all. -/
theorem OneTape.step (h : s.OneTape tape told) (hstep : s.step a = some s') :
    s'.OneTape tape (told ++ s.passesOn a) := by
  have hother : s.passesOn a = [] → s'.gateway.publisher = s.gateway.publisher →
      s'.gateway.risk = s.gateway.risk → s'.OneTape tape (told ++ s.passesOn a) := by
    intro hnone hpublisher hrisk
    refine ⟨hpublisher ▸ h.numbered, ?_, ?_, h.database_step hstep⟩
    · rw [hnone, List.append_nil, hpublisher, h.prints]
    · rw [hnone, List.append_nil, hrisk]
      exact h.risk
  cases a with
  | message msg session =>
    obtain ⟨-, rfl⟩ := step_message hstep
    have hsame : (s.onMessage session msg).1.publisher = s.gateway.publisher ∧
        (s.onMessage session msg).1.risk = s.gateway.risk := by
      rcases onMessage_cases s session msg with ⟨seq, sent, heq, -⟩ | ⟨m, o, -, -, heq⟩ |
          ⟨m, req, -, -, heq⟩ | ⟨m, req, -, -, heq⟩ <;>
        rw [heq] <;> exact ⟨rfl, rfl⟩
    exact hother rfl hsame.1 hsame.2
  | logon session =>
    obtain ⟨-, rfl⟩ := step_logon hstep
    exact hother rfl rfl rfl
  | handle =>
    rcases handle_cases hstep with ⟨o, session, -, rfl⟩ | ⟨o, session, -, rfl⟩ | ⟨item, -, rfl⟩ <;>
      exact hother rfl rfl rfl
  | engine =>
    have hdatabase := h.database_step hstep
    rcases engineStep_cases hstep with ⟨t, ts, ht, rfl⟩ | ⟨ht, item, queue, b, hq, hb, rfl⟩
    · have hpasses : s.passesOn .engine = t.trades := by rw [passesOn, ht]
      obtain ⟨hnumbered, hprints⟩ := s.gateway.runTask_prints t h.numbered
      obtain ⟨-, -, hlast⟩ := s.gateway.runTask_risk t
      refine ⟨hnumbered, ?_, fun symbol => ?_, hdatabase⟩
      · rw [hpasses, List.map_append, ← h.prints]
        exact hprints
      · rw [hpasses, lastTrade_append, ← h.risk]
        exact hlast symbol
    · exact hother (by rw [passesOn, ht]) rfl rfl
  | persist =>
    obtain ⟨p, p', -, -, rfl⟩ := step_persist hstep
    exact hother rfl rfl rfl
  | registerSymbol symbol =>
    obtain ⟨e, -, rfl⟩ := step_registerSymbol hstep
    exact hother rfl rfl rfl

lemma StartsOn.oneTape (h : StartsOn cfg db s) : s.OneTape db.tape [] := by
  have hnone : ∀ symbol, (∅ : StrMap Price).lookup symbol = lastTrade symbol [] := fun _ => rfl
  cases h with
  | fresh =>
    refine ⟨rfl, rfl, hnone, fun p hp => ?_⟩
    simp only [start, FixGateway.init] at hp
    split_ifs at hp
    · obtain rfl := Option.some.inj hp
      rfl
    · exact absurd hp (by simp)
  | recovered =>
    refine ⟨rfl, rfl, hnone, fun p hp => ?_⟩
    obtain rfl := Option.some.inj hp
    rfl

lemma oneTape_of_run (hstart : StartsOn cfg db s₀) (h : Transition.Reaches step ok s₀ as s) :
    s.OneTape db.tape (s₀.passedOn as) := by
  refine h.invariant_history (I := fun as s => s.OneTape db.tape (s₀.passedOn as))
    hstart.oneTape fun as t a u hrun ht _ hstep => ?_
  rw [passedOn, hrun.collect_snoc]
  exact ht.step hstep

/-- The trades that have been made have been passed on, or are about to be. -/
lemma trades_of_run (hstart : StartsOn cfg db s₀) (h : Transition.Reaches step ok s₀ as s) :
    s₀.trades as = s₀.passedOn as ++ s.tasks.flatMap Task.trades := by
  refine h.invariant_history
    (I := fun as s => s₀.trades as = s₀.passedOn as ++ s.tasks.flatMap Task.trades) ?_ ?_
  · cases hstart <;> rfl
  intro as t a u hrun ih _ hstep
  rw [trades, passedOn, hrun.collect_snoc, hrun.collect_snoc]
  show s₀.trades as ++ t.makes a = s₀.passedOn as ++ t.passesOn a ++ u.tasks.flatMap Task.trades
  have hother : a ≠ .engine → u.tasks = t.tasks →
      s₀.trades as ++ t.makes a
        = s₀.passedOn as ++ t.passesOn a ++ u.tasks.flatMap Task.trades := by
    intro ha htasks
    have hnone : t.makes a = [] ∧ t.passesOn a = [] := by
      cases a with
      | engine => exact absurd rfl ha
      | _ => exact ⟨rfl, rfl⟩
    rw [hnone.1, hnone.2, List.append_nil, List.append_nil, htasks, ih]
  cases a with
  | message msg session =>
    obtain ⟨-, rfl⟩ := step_message hstep
    exact hother (by simp) rfl
  | logon session =>
    obtain ⟨-, rfl⟩ := step_logon hstep
    exact hother (by simp) rfl
  | handle =>
    rcases handle_cases hstep with ⟨o, session, -, rfl⟩ | ⟨o, session, -, rfl⟩ | ⟨item, -, rfl⟩ <;>
      exact hother (by simp) rfl
  | engine =>
    rcases engineStep_cases hstep with ⟨task, ts, ht, rfl⟩ | ⟨ht, item, queue, b, hq, hb, rfl⟩
    · -- a task passes on its trade
      obtain ⟨-, hmore, -⟩ := t.gateway.runTask_risk task
      have hmakes : t.makes .engine = [] := by simp [makes, ht]
      have hpasses : t.passesOn .engine = task.trades := by rw [passesOn, ht]
      rw [hmakes, hpasses, ih, ht, List.flatMap_append, hmore, List.append_nil, List.nil_append,
        List.flatMap_cons, List.append_assoc]
    · -- the trades of an item are to be passed on
      have hprocess := MatchingEngine.process_eq_some.mpr ⟨b, hb, rfl, rfl⟩
      have hmakes : t.makes .engine
          = ((processIn b item).2.flatMap Callback.tasks).flatMap Task.trades := by
        simp [makes, ht, hq, hprocess, List.flatMap_assoc, Callback.trades_tasks]
      have hpasses : t.passesOn .engine = [] := by rw [passesOn, ht]
      rw [hmakes, hpasses, ih, ht, List.flatMap_nil, List.append_nil]
  | persist =>
    obtain ⟨p, p', -, -, rfl⟩ := step_persist hstep
    exact hother (by simp) rfl
  | registerSymbol symbol =>
    obtain ⟨e, -, rfl⟩ := step_registerSymbol hstep
    exact hother (by simp) rfl

/-- **One tape for all.**  In every run of a process that starts on any database, the trades that
have been passed on are those that have been made, but for the ones that the engine thread is still
to pass on.  The feed, whose packets are numbered without gaps, has printed exactly them, in their
order; the price collar of each symbol is around the last of them; and the database has recorded
them behind the trades that it had, but for the ones in the queue.  When the clock has advanced from
row to row, the history of a symbol is the last part of what the database has recorded of it, from
the oldest to the newest. -/
theorem one_tape (hstart : StartsOn cfg db s₀) (h : Transition.Reaches step ok s₀ as s) :
    s₀.trades as = s₀.passedOn as ++ s.tasks.flatMap Task.trades ∧
      s.gateway.publisher.Numbered ∧
      s.gateway.publisher.prints = (s₀.passedOn as).map Fill.print ∧
      (∀ symbol, s.gateway.risk.lastPrice.lookup symbol = lastTrade symbol (s₀.passedOn as)) ∧
      ∀ p ∈ s.gateway.persistence,
        db.tape ++ (s₀.passedOn as).map Fill.entry
          = p.db.tape ++ (p.queue.filterMap PersistenceEvent.trade).map Fill.entry ∧
        ∀ rows : List StampedRow, rows.map StampedRow.row = p.db.events →
          rows.Pairwise (·.ts < ·.ts) → ∀ symbol limit,
            (loadHistoricalTrades rows symbol limit).map (fun t => (t.price, t.qty))
              = (tapeOf symbol p.db.tape).rtake limit := by
  have htape := oneTape_of_run hstart h
  refine ⟨trades_of_run hstart h, htape.numbered, htape.prints, htape.risk,
    fun p hp => ⟨htape.database p hp, fun rows hrows hclock symbol limit => ?_⟩⟩
  rw [loadHistoricalTrades_eq hclock, ← tape_of_rows hrows]
  simp only [List.rtake, List.map_drop, List.length_map]

/-- The table of a process before, with one trade. -/
def tapeDatabase : Database :=
  { Database.empty with
    events := [Database.fillRow "fill" ⟨"X-1", "z", "EXCH-1", "A", "X", '1', 12, 2, 0, 2, '2', 12⟩] }

/-- An order rests and trades twice, and the second trade is still to be written. -/
def tapeRun : List Action :=
  Sample.submit (Sample.limit "a" '2' 5 10) Sample.alice ++ Sample.engine 2
    ++ Sample.submit (Sample.limit "b" '1' 3 10) Sample.bob ++ Sample.engine 6
    ++ List.replicate 3 .persist
    ++ Sample.submit (Sample.limit "c" '1' 1 10) Sample.bob ++ Sample.engine 6

theorem one_tape_sample :
    ∃ s, Transition.Reaches step Any (recover Sample.config tapeDatabase) tapeRun s ∧
      s.gateway.publisher.prints = [⟨fillFixed 8 "X", 10, 3, fillFixed 16 "EXCH-1"⟩,
        ⟨fillFixed 8 "X", 10, 1, fillFixed 16 "EXCH-1"⟩] ∧
      ∃ p ∈ s.gateway.persistence,
        [⟨some "X", 12, 2⟩, ⟨some "X", 10, 3⟩, ⟨some "X", 10, 1⟩]
          = p.db.tape ++ (p.queue.filterMap PersistenceEvent.trade).map Fill.entry ∧
        (loadHistoricalTrades (stamped p.db.events) "X" 1).map (fun t => (t.price, t.qty))
          = [(10, 3)] := by
  have hreach : ∃ s, Transition.Reaches step Any (recover Sample.config tapeDatabase) tapeRun s ∧
      ∃ p ∈ s.gateway.persistence, p.db.tape = [⟨some "X", 12, 2⟩, ⟨some "X", 10, 3⟩] ∧
        (stamped p.db.events).Pairwise (·.ts < ·.ts) :=
    Transition.exists_reaches (by decide +kernel) (by decide +kernel)
  obtain ⟨s, hrun, p, hp, htape, hclock⟩ := hreach
  obtain ⟨-, -, hprints, -, hdatabase⟩ := one_tape (.recovered tapeDatabase) hrun
  obtain ⟨hrecorded, hhistory⟩ := hdatabase p hp
  refine ⟨s, hrun, hprints.trans (by decide +kernel), p, hp, ?_, ?_⟩
  · rw [← hrecorded]
    decide +kernel
  · rw [hhistory _ (stamped_row _) hclock, htape]
    decide +kernel

end System

end FixExchange
