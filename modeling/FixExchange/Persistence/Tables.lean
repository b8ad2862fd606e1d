/-
# What an event leaves in the tables

The rows of `resting_orders` after an event are changed versions of the rows before it, and
the row of an order that has come to rest; no two rows have the same key.  Rows of `events`
are only ever added.
-/
import FixExchange.Persistence.PersistenceLayer

namespace FixExchange

namespace Database

variable {db : Database} {evt : PersistenceEvent}

lemma mem_deleteResting {id : String} {row : RestingRow}
    (h : row ∈ (db.deleteResting id).restingOrders) : row ∈ db.restingOrders :=
  List.mem_of_mem_filter h

/-- An update keeps the key of every row. -/
lemma mem_updateResting {id : String} {f : RestingRow → RestingRow} {row : RestingRow}
    (h : row ∈ (db.updateResting id f).restingOrders) :
    ∃ row₀ ∈ db.restingOrders, row = row₀ ∨ (row₀.exchangeId = id ∧ row = f row₀) := by
  obtain ⟨row₀, hrow₀, rfl⟩ := List.mem_map.mp h
  refine ⟨row₀, hrow₀, ?_⟩
  split_ifs with hid
  · exact Or.inr ⟨hid, rfl⟩
  · exact Or.inl rfl

/-- **Where the rows come from**: a row belongs to the order of a row before, with the same
client, symbol and side, or to an order that has come to rest. -/
theorem mem_applyEvent {row : RestingRow} (h : row ∈ (db.applyEvent evt).restingOrders) :
    (∃ row₀ ∈ db.restingOrders, row.exchangeId = row₀.exchangeId ∧
        row.clientId = row₀.clientId ∧ row.symbol = row₀.symbol ∧ row.side = row₀.side) ∨
      ∃ o leavesQty, evt = .rested o leavesQty ∧
        row = ⟨o.exchangeId, boundText o.clordId, o.clientId, o.symbol, o.side, o.price,
          leavesQty⟩ := by
  have hsame : ∀ {row}, row ∈ db.restingOrders → ∃ row₀ ∈ db.restingOrders,
      row.exchangeId = row₀.exchangeId ∧ row.clientId = row₀.clientId ∧
        row.symbol = row₀.symbol ∧ row.side = row₀.side := fun h => ⟨_, h, rfl, rfl, rfl, rfl⟩
  cases evt with
  | rested o leavesQty =>
    rcases List.mem_append.mp h with h | h
    · exact Or.inl (hsame (List.mem_of_mem_filter h))
    · exact Or.inr ⟨o, leavesQty, rfl, List.mem_singleton.mp h⟩
  | fill f =>
    simp only [applyEvent, insertEvent] at h
    split_ifs at h
    · obtain ⟨row₀, hrow₀, rfl | ⟨-, rfl⟩⟩ := mem_updateResting h
      · exact Or.inl (hsame hrow₀)
      · exact Or.inl ⟨row₀, hrow₀, rfl, rfl, rfl, rfl⟩
    · exact Or.inl (hsame (mem_deleteResting h))
  | takerFill f => exact Or.inl (hsame h)
  | cancel id o => exact Or.inl (hsame (mem_deleteResting h))
  | replace req leavesQty =>
    simp only [applyEvent, insertEvent] at h
    split_ifs at h
    · obtain ⟨row₀, hrow₀, rfl | ⟨-, rfl⟩⟩ := mem_updateResting h
      · exact Or.inl (hsame hrow₀)
      · exact Or.inl ⟨row₀, hrow₀, rfl, rfl, rfl, rfl⟩
    · exact Or.inl (hsame (mem_deleteResting h))
  | symbol symbol =>
    simp only [applyEvent] at h
    split_ifs at h <;> exact Or.inl (hsame h)

lemma nodup_updateResting (h : (db.restingOrders.map RestingRow.exchangeId).Nodup) {id : String}
    {f : RestingRow → RestingRow} (hf : ∀ row, (f row).exchangeId = row.exchangeId) :
    ((db.updateResting id f).restingOrders.map RestingRow.exchangeId).Nodup := by
  have hmap : (db.updateResting id f).restingOrders.map RestingRow.exchangeId
      = db.restingOrders.map RestingRow.exchangeId := by
    rw [updateResting, List.map_map]
    refine List.map_congr_left fun row _ => ?_
    simp only [Function.comp_apply]
    split_ifs
    · exact hf row
    · rfl
  rw [hmap]
  exact h

/-- **No two rows have the same key.** -/
theorem nodup_applyEvent (h : (db.restingOrders.map RestingRow.exchangeId).Nodup) :
    ((db.applyEvent evt).restingOrders.map RestingRow.exchangeId).Nodup := by
  have hfilter : ∀ p : RestingRow → Bool,
      ((db.restingOrders.filter p).map RestingRow.exchangeId).Nodup :=
    fun p => h.sublist (List.filter_sublist.map _)
  cases evt with
  | rested o leavesQty =>
    refine (List.map_append (f := RestingRow.exchangeId)).symm ▸
      List.nodup_append.mpr ⟨hfilter _, List.nodup_singleton _, ?_⟩
    intro id hid id' hid' heq
    obtain ⟨row, hrow, rfl⟩ := List.mem_map.mp hid
    rw [List.map_singleton, List.mem_singleton] at hid'
    have hne := (List.mem_filter.mp hrow).2
    rw [decide_eq_true_eq] at hne
    exact hne (heq.trans hid')
  | fill f =>
    simp only [applyEvent, insertEvent]
    split_ifs
    · exact nodup_updateResting h fun _ => rfl
    · exact hfilter _
  | takerFill f => exact h
  | cancel id o => exact hfilter _
  | replace req leavesQty =>
    simp only [applyEvent, insertEvent]
    split_ifs
    · exact nodup_updateResting h fun _ => rfl
    · exact hfilter _
  | symbol symbol =>
    simp only [applyEvent]
    split_ifs <;> exact h

/-- The rows that an event adds to `events`. -/
def recorded : PersistenceEvent → List EventRow
  | .rested o leavesQty => [orderRow "rested" o.exchangeId o leavesQty]
  | .fill f => [fillRow "fill" f]
  | .takerFill f => [fillRow "taker_fill" f]
  | .cancel id o => [orderRow "cancel" id o 0]
  | .replace req leavesQty =>
    [{ type := "replace"
       exchangeId := req.origOrderId
       clordId := some (boundText req.newClordId)
       price := some req.newPrice
       qty := some req.newQty
       leavesQty := some leavesQty }]
  | .symbol _ => []

/-- **Rows of `events` are only added.** -/
theorem events_applyEvent (db : Database) (evt : PersistenceEvent) :
    (db.applyEvent evt).events = db.events ++ recorded evt := by
  cases evt with
  | rested o leavesQty => rfl
  | fill f =>
    simp only [applyEvent, recorded]
    split_ifs <;> rfl
  | takerFill f => rfl
  | cancel id o => rfl
  | replace req leavesQty =>
    simp only [applyEvent, recorded]
    split_ifs <;> rfl
  | symbol symbol =>
    simp only [applyEvent, recorded, List.append_nil]
    split_ifs <;> rfl

end Database

end FixExchange
