/-
# The database is the book

The table `resting_orders`, read by its key, follows the resting orders: each event makes one
change of it, and the events of a notice make the change that the notice is about.  When
every event has been applied, the table has exactly the rows of the resting orders, in every run
in which no replace fills its order completely, and their client ids unless one of these has a NUL
(`resting_table_is_book_iff`).  The row of an order that such a replace fills stays
(`filled_row_stays`).
-/
import FixExchange.System.Follower

namespace FixExchange

/-- The row of an order, given the gateway's copy of it. -/
def Order.row (o : Order) : RestingRow :=
  ⟨o.exchangeId, boundText o.clordId, o.clientId, o.symbol, o.side, o.price, o.leavesQty⟩

/-- The rows of `resting_orders` after an event. -/
def Database.restingAfter (rows : List RestingRow) (evt : PersistenceEvent) : List RestingRow :=
  (Database.applyEvent ⟨rows, [], []⟩ evt).restingOrders

/-- What an event does to the table does not depend on the others. -/
lemma Database.restingOrders_applyEvent (db : Database) (evt : PersistenceEvent) :
    (db.applyEvent evt).restingOrders = Database.restingAfter db.restingOrders evt := by
  cases evt with
  | rested o leavesQty => rfl
  | fill f =>
    simp only [restingAfter, applyEvent]
    split_ifs <;> rfl
  | takerFill f => rfl
  | cancel id o => rfl
  | replace req leavesQty =>
    simp only [restingAfter, applyEvent]
    split_ifs <;> rfl
  | symbol symbol =>
    simp only [restingAfter, applyEvent]
    split_ifs <;> rfl

/-- The rows of `resting_orders` after the events of a notice. -/
def Notice.tabulate (rows : List RestingRow) (n : Notice) : List RestingRow :=
  n.events.foldl Database.restingAfter rows

lemma restingOrders_pushEvents (p : PersistenceLayer) (evts : List PersistenceEvent) :
    (FixGateway.pushEvents p evts).flushed.restingOrders
      = evts.foldl Database.restingAfter p.flushed.restingOrders := by
  induction evts generalizing p with
  | nil => rfl
  | cons evt evts ih =>
    rw [List.foldl_cons, ← Database.restingOrders_applyEvent, ← PersistenceLayer.flushed_push]
    exact ih (p.push evt)

/-- The rows are those of the orders of a ledger, each once. -/
structure Tabulates (rows : List RestingRow) (L : OrderLedger) : Prop where
  single : (rows.map RestingRow.exchangeId).Nodup
  rows : Ledger.ofList RestingRow.exchangeId rows = Ledger.map Order.row L

namespace Tabulates

variable {rows : List RestingRow} {L : OrderLedger} {id : String}

lemma deleted (h : Tabulates rows L) (id : String) :
    Tabulates (rows.filter fun row => row.exchangeId ≠ id) (L.drop id) := by
  refine ⟨h.single.sublist (List.filter_sublist.map _), ?_⟩
  rw [Ledger.ofList_filter_ne, h.rows, Ledger.map_drop]

lemma updated (h : Tabulates rows L) (id : String) {f : RestingRow → RestingRow}
    {g : Order → Order} (hkey : ∀ row, (f row).exchangeId = row.exchangeId)
    (hf : ∀ o, f o.row = (g o).row) :
    Tabulates (rows.map fun row => if row.exchangeId = id then f row else row)
      (L.adjust id g) := by
  refine ⟨?_, ?_⟩
  · have hkeys : (rows.map fun row => if row.exchangeId = id then f row else row).map
        RestingRow.exchangeId = rows.map RestingRow.exchangeId := by
      rw [List.map_map]
      refine List.map_congr_left fun row _ => ?_
      simp only [Function.comp_apply]
      split_ifs
      · exact hkey row
      · rfl
    rw [hkeys]
    exact h.single
  · rw [Ledger.ofList_map_if hkey, h.rows, Ledger.map_adjust]
    exact fun o => (hf o).symm

lemma inserted (h : Tabulates rows L) {o : Order} (hid : L o.exchangeId = none) :
    Tabulates ((rows.filter fun row => row.exchangeId ≠ o.exchangeId) ++ [o.row])
      (L.put o.exchangeId o) := by
  have hdeleted := h.deleted o.exchangeId
  refine ⟨?_, ?_⟩
  · rw [List.map_append, List.nodup_append]
    refine ⟨hdeleted.single, by simp, fun id hmem id' hid' => ?_⟩
    obtain ⟨row, hrow, rfl⟩ := List.mem_map.mp hmem
    rw [List.mem_singleton.mp hid']
    exact of_decide_eq_true (List.mem_filter.mp hrow).2
  · rw [Ledger.ofList_append, hdeleted.rows, Ledger.drop_of_none hid, Ledger.map_put,
      Ledger.ofList_cons, Ledger.ofList_nil]
    refine (Ledger.orElse_comm fun id' => ?_).trans Ledger.orElse_put
    by_cases hid' : id' = o.exchangeId
    · exact Or.inl (by rw [hid', Ledger.map_apply, hid]; rfl)
    · exact Or.inr (Ledger.put_of_ne hid')

/-- The orders that have a row are those that rest, when all of these are open. -/
lemma mem_iff {A R : OrderLedger} (h : Tabulates rows (Ledger.restrict A R))
    (hA : ∀ id, R id ≠ none → A id ≠ none) : id ∈ rows.map RestingRow.exchangeId ↔ R id ≠ none := by
  have hkey : id ∈ rows.map RestingRow.exchangeId ↔
      Ledger.ofList RestingRow.exchangeId rows id ≠ none := by
    rw [ne_eq, Ledger.ofList_eq_none, not_forall, List.mem_map]
    simp only [not_forall, not_not, exists_prop]
  rw [hkey, h.rows, Ledger.map_apply, ne_eq, Option.map_eq_none_iff, Ledger.restrict_eq_none,
    not_or]
  exact ⟨And.right, fun hid => ⟨hA id hid, hid⟩⟩

/-- **A notice keeps the table in step** with the ledger it is about. -/
theorem tabulate (h : Tabulates rows L) {n : Notice} (hfits : n.Fits L) :
    Tabulates (n.tabulate rows) (n.post L) := by
  cases n with
  | filled maker taker =>
    obtain ⟨hnonneg, -⟩ := hfits
    have htable : (Notice.filled maker taker).tabulate rows
        = Database.restingAfter rows (.fill maker) := rfl
    rw [htable, Notice.post, OrderLedger.setOpen, Ledger.setAmount, Database.restingAfter,
      Database.applyEvent]
    by_cases h0 : maker.leavesQty = 0
    · rw [if_pos h0, if_neg (by omega)]
      exact h.deleted maker.exchangeId
    · rw [if_neg h0, if_pos (by omega)]
      exact h.updated maker.exchangeId (fun _ => rfl) fun _ => rfl
  | cancelled id order => exact h.deleted id
  | replaced req newLeavesQty oldPrice =>
    obtain ⟨hpos, -⟩ := hfits
    have htable : (Notice.replaced req newLeavesQty oldPrice).tabulate rows
        = Database.restingAfter rows (.replace req (max 0 newLeavesQty)) := rfl
    rw [htable, Notice.post, Database.restingAfter, Database.applyEvent, if_pos (by omega)]
    exact h.updated req.origOrderId (fun _ => rfl) fun _ => rfl
  | rested order leavesQty => exact h.inserted (o := order.withLeaves leavesQty) hfits.2

end Tabulates

/-- The table `resting_orders`, as it will be once every event has been applied, is a copy of
the book. -/
def restingTable : Follower (fun _ => True) (Option (List RestingRow)) where
  read _ p := p.map fun p => p.flushed.restingOrders
  apply c n := c.map fun rows => n.tabulate rows
  shows c L := ∀ rows, c = some rows → Tabulates rows L
  read_notice _ p n := by
    rw [Option.map_map, Option.map_map]
    exact congrArg (fun f => p.map f) (funext fun p => restingOrders_pushEvents p n.events)
  read_applyNext _ p p' h := by
    rw [Option.map_some, Option.map_some, PersistenceLayer.flushed_applyNext h]
  read_symbol _ p symbol := by
    rw [Option.map_map]
    refine congrArg (fun f => p.map f) (funext fun p => ?_)
    rw [Function.comp_apply, PersistenceLayer.flushed_push, Database.restingOrders_applyEvent,
      Database.restingAfter, Database.applyEvent]
    split_ifs <;> rfl
  shows_start p h rows hrows := by
    rcases h with rfl | rfl
    · exact absurd hrows (by simp)
    · rw [← Option.some.inj hrows]
      exact ⟨List.nodup_nil, rfl⟩
  shows_notice c L n hc hfits _ rows hrows := by
    obtain ⟨rows', hrows', rfl⟩ := Option.map_eq_some_iff.mp hrows
    exact (hc rows' hrows').tabulate hfits

namespace System

variable {s : System}

/-- The table `resting_orders` is the book, but for what a client id has after a NUL. -/
structure TableHolds (s : System) (db : Database) : Prop where
  single : (db.restingOrders.map RestingRow.exchangeId).Nodup
  keys : ∀ id, id ∈ db.restingOrders.map RestingRow.exchangeId ↔
    ∃ sym b, s.engine.books.lookup sym = some b ∧ ∃ n ∈ b.nodes, n.order.exchangeId = id
  fields : ∀ sym b, s.engine.books.lookup sym = some b → ∀ n ∈ b.nodes,
    ∃ row ∈ db.restingOrders, row.exchangeId = n.order.exchangeId ∧
      row.symbol = n.order.symbol ∧ row.side = n.order.side ∧ row.price = n.order.price ∧
      row.leavesQty = n.order.leavesQty ∧
      ∃ a, s.gateway.activeOrders.lookup n.order.exchangeId = some a ∧
        row.clordId = boundText a.clordId

/-- The table `resting_orders` is the book. -/
structure TableIsBook (s : System) (db : Database) : Prop where
  /-- No order has two rows. -/
  single : (db.restingOrders.map RestingRow.exchangeId).Nodup
  /-- The orders that have a row are those that rest. -/
  keys : ∀ id, id ∈ db.restingOrders.map RestingRow.exchangeId ↔
    ∃ sym b, s.engine.books.lookup sym = some b ∧ ∃ n ∈ b.nodes, n.order.exchangeId = id
  /-- The row of an order is about the order. -/
  fields : ∀ sym b, s.engine.books.lookup sym = some b → ∀ n ∈ b.nodes,
    ∃ row ∈ db.restingOrders, row.exchangeId = n.order.exchangeId ∧
      row.symbol = n.order.symbol ∧ row.side = n.order.side ∧ row.price = n.order.price ∧
      row.leavesQty = n.order.leavesQty ∧
      ∃ a, s.gateway.activeOrders.lookup n.order.exchangeId = some a ∧ row.clordId = a.clordId

/-- Each row is about an order that rests. -/
lemma TableHolds.row {db : Database} (h : s.TableHolds db) {row : RestingRow}
    (hrow : row ∈ db.restingOrders) : ∃ sym b, s.engine.books.lookup sym = some b ∧
      ∃ n ∈ b.nodes, row.exchangeId = n.order.exchangeId ∧ row.symbol = n.order.symbol ∧
        row.side = n.order.side ∧ row.price = n.order.price ∧
        row.leavesQty = n.order.leavesQty := by
  obtain ⟨sym, b, hb, n, hn, hid⟩ := (h.keys _).mp (List.mem_map_of_mem hrow)
  obtain ⟨row', hrow', hid', hsymbol, hside, hprice, hleaves, -⟩ := h.fields sym b hb n hn
  obtain rfl := List.inj_on_of_nodup_map h.single hrow hrow' (hid.symm.trans hid'.symm)
  exact ⟨sym, b, hb, n, hn, hid', hsymbol, hside, hprice, hleaves⟩

/-- No client id of a resting order has a NUL. -/
def IdsWhole (s : System) : Prop := ∀ sym b, s.engine.books.lookup sym = some b → ∀ n ∈ b.nodes,
  ∀ a ∈ s.gateway.activeOrders.lookup n.order.exchangeId, '\x00' ∉ a.clordId.toList

instance (s : System) : Decidable s.IdsWhole :=
  decidable_of_iff (∀ kv ∈ s.engine.books.entries, ∀ n ∈ kv.2.nodes,
      ∀ a ∈ s.gateway.activeOrders.lookup n.order.exchangeId, '\x00' ∉ a.clordId.toList)
    ⟨fun h sym b hb => h ⟨sym, b⟩ (AList.mem_lookup_iff.mp hb),
      fun h kv hkv => h kv.1 kv.2 (AList.mem_lookup_iff.mpr hkv)⟩

/-- A table that holds the book is the book when the client ids are whole. -/
lemma TableHolds.tableIsBook_iff {db : Database} (h : s.TableHolds db) :
    s.TableIsBook db ↔ s.IdsWhole := by
  constructor
  · intro hbook sym b hb n hn a ha
    obtain ⟨row, hrow, hid, -, -, -, -, a', ha', hclord⟩ := hbook.fields sym b hb n hn
    obtain ⟨row', hrow', hid', -, -, -, -, a'', ha'', hbound⟩ := h.fields sym b hb n hn
    obtain rfl := List.inj_on_of_nodup_map h.single hrow hrow' (hid.trans hid'.symm)
    obtain rfl := Option.some.inj (ha'.symm.trans ha)
    obtain rfl := Option.some.inj (ha''.symm.trans ha)
    exact boundText_eq_iff.mp (hbound.symm.trans hclord)
  · intro hwhole
    refine ⟨h.single, h.keys, fun sym b hb n hn => ?_⟩
    obtain ⟨row, hrow, hid, hsymbol, hside, hprice, hleaves, a, ha, hbound⟩ := h.fields sym b hb n hn
    exact ⟨row, hrow, hid, hsymbol, hside, hprice, hleaves, a, ha,
      hbound.trans (boundText_eq_iff.mpr (hwhole sym b hb n hn a ha))⟩

/-- The database as it will be holds the book whenever the engine thread is between two items. -/
lemma flushed_table_holds {cfg : Config} {as : List Action}
    (h : RunTo cfg (Followed fun _ => True) as s) (ht : s.tasks = []) {p : PersistenceLayer}
    (hp : s.gateway.persistence = some p) : s.TableHolds p.flushed := by
  have hs := sound_of_run h
  have hsync := synced_of_run (fun _ _ h => forwardsPositive_of_replacesPositive h.positive) h
  have hagrees := hsync.active_agrees ht
  have hcopy : s.copy restingTable = some p.flushed.restingOrders := by
    rw [copy, ht, noticesOf_nil, List.foldl_nil, hp]
    rfl
  have hbook : s.openBook = Ledger.restrict s.gateway.active (restingLedger s.engine.books) := by
    rw [openBook, openOrders_of_no_tasks ht]
  obtain ⟨hsingle, hrows⟩ : Tabulates p.flushed.restingOrders
      (Ledger.restrict s.gateway.active (restingLedger s.engine.books)) := by
    rw [← hbook]
    exact following_of_run (F := restingTable) h _ hcopy
  refine ⟨hsingle, fun id => ?_, fun sym b hb n hn => ?_⟩
  · rw [← hs.founded.resting_iff]
    refine Tabulates.mem_iff ⟨hsingle, hrows⟩ fun id hid => ?_
    obtain ⟨o, ho⟩ := Option.ne_none_iff_exists'.mp hid
    obtain ⟨a, ha, -⟩ := hagrees id o ho
    exact ne_of_eq_of_ne ha (by simp)
  · have hresting := hs.books.resting_eq_some.mpr ⟨sym, b, hb, n, hn, rfl, rfl⟩
    obtain ⟨a, ha, hmirrors⟩ := hagrees _ _ hresting
    have hrow : Ledger.ofList RestingRow.exchangeId p.flushed.restingOrders n.order.exchangeId
        = some a.row := by
      rw [hrows, Ledger.map_apply, Ledger.restrict_eq_some.mpr ⟨ha, by rw [hresting]; rfl⟩]
      rfl
    obtain ⟨hmem, hkey⟩ := Ledger.key_of_ofList hrow
    exact ⟨a.row, hmem, hkey, hmirrors.symbol, hmirrors.side, hmirrors.price, hmirrors.leavesQty,
      a, ha, rfl⟩

/-- The database holds the book once every event has been applied. -/
lemma resting_table_holds {cfg : Config} {as : List Action}
    (h : RunTo cfg (Followed fun _ => True) as s) (ht : s.tasks = []) {p : PersistenceLayer}
    (hp : s.gateway.persistence = some p) (hq : p.queue = []) : s.TableHolds p.db := by
  have hflushed : p.flushed = p.db := by rw [PersistenceLayer.flushed, hq, List.foldl_nil]
  rw [← hflushed]
  exact flushed_table_holds h ht hp

/-- **When the database is the book**, once every event has been applied and the engine thread is
between two items, drained queue or not: when the client ids of the resting orders are whole. -/
theorem resting_table_is_book_iff {cfg : Config} {as : List Action}
    (h : RunTo cfg (Followed fun _ => True) as s) (ht : s.tasks = []) {p : PersistenceLayer}
    (hp : s.gateway.persistence = some p) (hq : p.queue = []) : s.TableIsBook p.db ↔ s.IdsWhole :=
  (resting_table_holds h ht hp hq).tableIsBook_iff

/-- A sell order and a buy order that rest, a fill of part of the sell order by a replace of
the buy order, and all events. -/
def sampleTableRun : List Action :=
  Sample.submit (Sample.limit "a" '2' 5 10) Sample.alice ++ Sample.engine 2
    ++ Sample.submit (Sample.limit "b" '1' 3 9) Sample.bob ++ Sample.engine 2
    ++ Sample.forward (Sample.replace "c" "b" '1' 7 10) Sample.bob ++ Sample.engine 7
    ++ List.replicate 5 .persist

theorem resting_table_is_book_iff_sample :
    ∃ s p, RunTo Sample.config (Followed fun _ => True) sampleTableRun s ∧ s.Drained ∧
      s.gateway.persistence = some p ∧ p.queue = [] ∧ s.TableIsBook p.db := by
  have hreach : ∃ s, RunTo Sample.config (Followed fun _ => True) sampleTableRun s ∧
      (s.Drained ∧ s.IdsWhole ∧ s.gateway.persistence.map PersistenceLayer.queue = some []) :=
    Transition.exists_reaches (by decide +kernel) (by decide +kernel)
  obtain ⟨s, hrun, hd, hwhole, hp⟩ := hreach
  obtain ⟨p, hp, hq⟩ := Option.map_eq_some_iff.mp hp
  exact ⟨s, p, hrun, hd, hp, hq, (resting_table_is_book_iff hrun hd.tasks hp hq).mpr hwhole⟩

/-- A sell order and a buy order that rest, a replace of the buy order that fills it, and all
events. -/
def filledReplaceRun : List Action :=
  Sample.submit (Sample.limit "a" '2' 5 10) Sample.alice ++ Sample.engine 2
    ++ Sample.submit (Sample.limit "b" '1' 3 9) Sample.bob ++ Sample.engine 2
    ++ Sample.forward (Sample.replace "c" "b" '1' 3 10) Sample.bob ++ Sample.engine 7
    ++ List.replicate 4 .persist

/-- The row of an order that a replace fills stays. -/
theorem filled_row_stays :
    ∃ s p, RunTo Sample.config (fun _ a => a.ReplacesPositive) filledReplaceRun s ∧ s.Drained ∧
      s.gateway.persistence = some p ∧ p.queue = [] ∧ ¬ s.TableIsBook p.db := by
  have hreach : ∃ s, RunTo Sample.config (fun _ a => a.ReplacesPositive) filledReplaceRun s ∧
      (s.Drained ∧ s.gateway.persistence.map PersistenceLayer.queue = some [] ∧
        (∃ p ∈ s.gateway.persistence,
          "EXCH-2" ∈ p.db.restingOrders.map RestingRow.exchangeId) ∧
        ∀ o ∈ restingOrders s.engine.books, o.exchangeId ≠ "EXCH-2") :=
    Transition.exists_reaches (by decide +kernel) (by decide +kernel)
  obtain ⟨s, hrun, hd, hp, ⟨p', hp', hrow⟩, hrest⟩ := hreach
  obtain ⟨p, hp, hq⟩ := Option.map_eq_some_iff.mp hp
  obtain rfl := Option.some.inj (hp'.symm.trans hp)
  refine ⟨s, p', hrun, hd, hp, hq, fun h => ?_⟩
  obtain ⟨sym, b, hb, n, hn, hid⟩ := (h.keys _).mp hrow
  exact hrest n.order (mem_restingOrders.mpr ⟨sym, b, hb, n, hn, rfl⟩) hid

end System

end FixExchange
