/-
# Symbols do not interfere

The loop of `MatchingEngine::run` on a sequence of work items.  An item finds and changes the
book of the symbol that it names and no other, so that the book of a symbol and the calls made
for its items depend on the items that name it only.
-/
import FixExchange.Engine.MatchingEngine

namespace FixExchange

/-- The calls that are made for a sequence of items. -/
abbrev CallLog := List (WorkItem × List Callback)

/-- Whether an item names a symbol. -/
def WorkItem.names (sym : String) (item : WorkItem) : Bool := item.symbol = sym

/-- The calls for the items that name a symbol. -/
def CallLog.of (log : CallLog) (sym : String) : CallLog := log.filter fun x => x.1.names sym

namespace MatchingEngine

/-- `MatchingEngine::run` on the items that it pops one after the other. -/
def run (e : MatchingEngine) : List WorkItem → Option (MatchingEngine × CallLog)
  | [] => some (e, [])
  | item :: items =>
    (e.process item).bind fun (e', callbacks) =>
      (run e' items).map fun (e'', log) => (e'', (item, callbacks) :: log)

/-- One book on a sequence of items. -/
def runBook (book : OrderBook) : List WorkItem → OrderBook × CallLog
  | [] => (book, [])
  | item :: items =>
    let (book', callbacks) := processIn book item
    ((runBook book' items).1, (item, callbacks) :: (runBook book' items).2)

variable {e e' : MatchingEngine} {item : WorkItem} {items : List WorkItem} {sym : String}
  {log : CallLog}

lemma run_cons {cbs : List Callback} (h : e.process item = some (e', cbs)) :
    e.run (item :: items) = (e'.run items).map fun r => (r.1, (item, cbs) :: r.2) := by
  rw [run, h]
  rfl

/-- **An item changes the book of its symbol only.** -/
lemma lookup_process {cbs : List Callback} (h : e.process item = some (e', cbs)) :
    e'.books.lookup sym =
      if item.names sym then (e.books.lookup sym).map fun book => (processIn book item).1
      else e.books.lookup sym := by
  obtain ⟨book, hbook, -, rfl⟩ := process_eq_some.mp h
  by_cases hs : item.symbol = sym
  · subst hs
    rw [if_pos (by simp [WorkItem.names]), hbook]
    exact AList.lookup_insert _
  · rw [if_neg (by simp [WorkItem.names, hs])]
    exact AList.lookup_insert_ne (Ne.symm hs)

lemma mem_books_process {cbs : List Callback} (h : e.process item = some (e', cbs))
    (hsym : sym ∈ e.books) : sym ∈ e'.books := by
  obtain ⟨book, -, -, rfl⟩ := process_eq_some.mp h
  exact (AList.mem_insert _).mpr (Or.inr hsym)

/-- Items for which there are books are processed to the end. -/
lemma exists_run (h : ∀ item ∈ items, item.symbol ∈ e.books) :
    ∃ e' log, e.run items = some (e', log) := by
  induction items generalizing e with
  | nil => exact ⟨e, [], rfl⟩
  | cons item items ih =>
    obtain ⟨book, hbook⟩ := Option.isSome_iff_exists.mp
      (AList.lookup_isSome.mpr (h item List.mem_cons_self))
    have hprocess := process_eq_some.mpr ⟨book, hbook, rfl, rfl⟩
    obtain ⟨e', log, hrun⟩ :=
      ih fun i hi => mem_books_process hprocess (h i (List.mem_cons_of_mem _ hi))
    exact ⟨e', (item, (processIn book item).2) :: log, by rw [run_cons hprocess, hrun]; rfl⟩

lemma run_items (h : e.run items = some (e', log)) : log.map Prod.fst = items := by
  induction items generalizing e log with
  | nil =>
    obtain ⟨rfl, rfl⟩ := Prod.mk.inj (Option.some.inj h)
    rfl
  | cons item items ih =>
    obtain ⟨⟨e₁, cbs⟩, -, h⟩ := Option.bind_eq_some_iff.mp h
    obtain ⟨⟨e₂, log₁⟩, hrun, heq⟩ := Option.map_eq_some_iff.mp h
    obtain ⟨rfl, rfl⟩ := Prod.mk.inj heq
    rw [List.map_cons, ih hrun]

/-- The book of a symbol after a sequence of items is what the items that name the symbol make
of it, and the calls for these are those that the book alone makes. -/
lemma run_book (sym : String) (h : e.run items = some (e', log)) :
    e'.books.lookup sym =
      (e.books.lookup sym).map (fun book => (runBook book (items.filter (·.names sym))).1) ∧
    log.of sym =
      ((e.books.lookup sym).map fun book =>
        (runBook book (items.filter (·.names sym))).2).getD [] := by
  induction items generalizing e log with
  | nil =>
    obtain ⟨rfl, rfl⟩ := Prod.mk.inj (Option.some.inj h)
    cases hb : e.books.lookup sym <;> exact ⟨rfl, rfl⟩
  | cons item items ih =>
    obtain ⟨⟨e₁, cbs⟩, hprocess, h⟩ := Option.bind_eq_some_iff.mp h
    obtain ⟨⟨e₂, log₁⟩, hrun, heq⟩ := Option.map_eq_some_iff.mp h
    obtain ⟨rfl, rfl⟩ := Prod.mk.inj heq
    obtain ⟨hbook, hlog⟩ := ih hrun
    rw [hbook, lookup_process hprocess]
    rw [lookup_process hprocess] at hlog
    rw [CallLog.of] at hlog ⊢
    cases hn : item.names sym with
    | false =>
      -- the item is of another book
      rw [List.filter_cons_of_neg (by simp [hn]), List.filter_cons_of_neg (by simp [hn])]
      rw [hn] at hlog
      exact ⟨rfl, hlog⟩
    | true =>
      rw [List.filter_cons_of_pos (by simp [hn]), List.filter_cons_of_pos (by simp [hn])]
      rw [hn] at hlog
      obtain ⟨book, hb, hcbs, -⟩ := process_eq_some.mp hprocess
      obtain rfl : item.symbol = sym := by simpa [WorkItem.names] using hn
      rw [hb] at hlog ⊢
      rw [hlog, hcbs]
      exact ⟨rfl, rfl⟩

/-- **Symbols do not interfere**: when the engine processes items over symbols that have books,
the book of each symbol and the calls for the items that name it are those of a run on these
items alone; so another order of the items that keeps the items of each symbol in order gives
the same books and, for each symbol, the same calls. -/
theorem symbols_do_not_interfere (h : ∀ item ∈ items, item.symbol ∈ e.books) :
    ∃ e' log, e.run items = some (e', log) ∧
      (∀ sym, ∃ e₁ log₁, e.run (items.filter (·.names sym)) = some (e₁, log₁) ∧
        e'.books.lookup sym = e₁.books.lookup sym ∧ log.of sym = log₁) ∧
      ∀ items', (∀ sym, items'.filter (·.names sym) = items.filter (·.names sym)) →
        ∃ e₂ log₂, e.run items' = some (e₂, log₂) ∧
          ∀ sym, e₂.books.lookup sym = e'.books.lookup sym ∧ log₂.of sym = log.of sym := by
  obtain ⟨e', log, hrun⟩ := exists_run h
  refine ⟨e', log, hrun, fun sym => ?_, fun items' hsame => ?_⟩
  · have hnamed : ∀ item ∈ items.filter (·.names sym), item.symbol ∈ e.books :=
      fun item hi => h item (List.mem_of_mem_filter hi)
    obtain ⟨e₁, log₁, hrun₁⟩ := exists_run hnamed
    obtain ⟨hbook, hlog⟩ := run_book sym hrun
    obtain ⟨hbook₁, hlog₁⟩ := run_book sym hrun₁
    simp only [List.filter_filter, Bool.and_self] at hbook₁ hlog₁
    refine ⟨e₁, log₁, hrun₁, hbook.trans hbook₁.symm, hlog.trans (hlog₁.symm.trans ?_)⟩
    -- every item of the run names the symbol
    refine List.filter_eq_self.mpr fun x hx => ?_
    have hx' := List.mem_map_of_mem (f := Prod.fst) hx
    rw [run_items hrun₁] at hx'
    exact (List.mem_filter.mp hx').2
  · have hmem : ∀ item ∈ items', item.symbol ∈ e.books := by
      intro item hi
      have hi' : item ∈ items'.filter (·.names item.symbol) :=
        List.mem_filter.mpr ⟨hi, by simp [WorkItem.names]⟩
      rw [hsame] at hi'
      exact h item (List.mem_of_mem_filter hi')
    obtain ⟨e₂, log₂, hrun₂⟩ := exists_run hmem
    refine ⟨e₂, log₂, hrun₂, fun sym => ?_⟩
    obtain ⟨hbook, hlog⟩ := run_book sym hrun
    obtain ⟨hbook₂, hlog₂⟩ := run_book sym hrun₂
    rw [hsame] at hbook₂ hlog₂
    exact ⟨hbook₂.trans hbook.symm, hlog₂.trans hlog.symm⟩

/-- A limit order of a client `A`. -/
def sampleOrder (id sym : String) (side : Char) : WorkItem :=
  .order
    { clordId := id, exchangeId := id, clientId := "A", symbol := sym, side := side, type := '2'
      price := 10, qty := 5, leavesQty := 5 }

/-- The theorem for two orders that trade, between which a cancel request for another symbol is
processed or not. -/
theorem symbols_do_not_interfere_sample :
    ∃ e' log e₂ log₂,
      (init ["X", "Y"]).run
        [sampleOrder "a" "X" '2', .cancel ⟨"a", "A", "Y"⟩, sampleOrder "b" "X" '1']
          = some (e', log) ∧
      (init ["X", "Y"]).run
        [sampleOrder "a" "X" '2', sampleOrder "b" "X" '1', .cancel ⟨"a", "A", "Y"⟩]
          = some (e₂, log₂) ∧
      ∀ sym, e₂.books.lookup sym = e'.books.lookup sym ∧ log₂.of sym = log.of sym := by
  have hmem : ∀ item ∈ [sampleOrder "a" "X" '2', .cancel ⟨"a", "A", "Y"⟩,
      sampleOrder "b" "X" '1'], item.symbol ∈ (init ["X", "Y"]).books := by
    decide
  obtain ⟨e', log, hrun, -, hother⟩ := symbols_do_not_interfere hmem
  obtain ⟨e₂, log₂, hrun₂, hsame⟩ := hother [sampleOrder "a" "X" '2', sampleOrder "b" "X" '1',
    .cancel ⟨"a", "A", "Y"⟩] (fun sym => by
      by_cases hX : "X" = sym
      · subst hX
        rfl
      · simp [List.filter_cons, WorkItem.names, WorkItem.symbol, sampleOrder, hX])
  exact ⟨e', log, e₂, log₂, hrun, hrun₂, hsame⟩

end MatchingEngine

end FixExchange
