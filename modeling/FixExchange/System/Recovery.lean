/-
# Recovery

How `src/main.cpp` starts the exchange on an existing database: the symbols and the resting
orders are read back, the gateway gets the orders without sessions, and each order goes back
into the book of its symbol, when there is one.  On a database whose rows have ids of the
exchange, no two of them the same, the recovered exchange has what every run is founded on
(`founded_recover`).
-/
import FixExchange.System.Resting
import Mathlib.Data.List.TakeWhile

namespace FixExchange

/-- The rows of resting orders have ids of the exchange, and no two of them the same id. -/
structure Database.Sound (db : Database) : Prop where
  nodup : (db.restingOrders.map RestingRow.exchangeId).Nodup
  ids : ∀ row ∈ db.restingOrders, ∃ k, row.exchangeId = exchangeId k

namespace MatchingEngine

/-- Register symbols one after the other; the ones that are refused are skipped. -/
def registerSymbols (e : MatchingEngine) (symbols : List String) : MatchingEngine :=
  symbols.foldl (fun e symbol => (e.registerSymbol symbol).getD e) e

/-- An engine before the first order: all books are empty, and every valid symbol has one. -/
structure Blank (e : MatchingEngine) : Prop where
  books : ∀ sym b, e.books.lookup sym = some b → b = OrderBook.init sym
  symbols : ∀ sym ∈ e.validSymbols, sym ∈ e.books

lemma blank_init (symbols : List String) : (init symbols).Blank := by
  refine ⟨fun sym b hb => ?_, fun sym hsym => ?_⟩
  · rw [System.lookup_init_books] at hb
    split_ifs at hb
    exact (Option.some.inj hb).symm
  · have hmem : sym ∈ symbols := List.mem_toFinset.mp hsym
    refine AList.lookup_isSome.mp ?_
    rw [System.lookup_init_books, if_pos hmem]
    rfl

lemma Blank.registerSymbol {e e' : MatchingEngine} (h : e.Blank) {symbol : String}
    (he : e.registerSymbol symbol = some e') : e'.Blank := by
  obtain ⟨hlookup, hvalid, hbooks⟩ := registerSymbol_books he
  refine ⟨fun sym b hb => ?_, fun sym hsym => ?_⟩
  · rcases hlookup sym with hsame | ⟨rfl, -, hnew⟩
    · exact h.books sym b (hsame.symm.trans hb)
    · exact Option.some.inj (hb.symm.trans hnew)
  · rw [hvalid, Finset.mem_insert] at hsym
    exact hbooks sym (hsym.symm.imp_left (h.symbols sym))

lemma Blank.registerSymbols {e : MatchingEngine} (h : e.Blank) (symbols : List String) :
    (e.registerSymbols symbols).Blank := by
  induction symbols generalizing e with
  | nil => exact h
  | cons symbol symbols ih =>
    refine ih ?_
    dsimp only
    cases he : e.registerSymbol symbol with
    | none => exact h
    | some e' => exact h.registerSymbol he

end MatchingEngine

namespace System

/-- The exchange after its start on an existing database. -/
def recover (cfg : Config) (db : Database) : System :=
  let persistence := PersistenceLayer.load db
  let orders := persistence.loadRestingOrders
  { gateway := (FixGateway.init cfg.risk (some persistence)).restoreOrders orders
      persistence.loadMaxOrderSeq
    engine := orders.foldl MatchingEngine.restoreOrder
      ((MatchingEngine.init cfg.symbols).registerSymbols persistence.loadSymbols)
    queue := []
    tasks := []
    handler := .idle }

/-- `RunFrom cfg db ok as s`: the actions `as`, each of them allowed by `ok`, lead from the
recovery to `s`. -/
abbrev RunFrom (cfg : Config) (db : Database) (ok : System → Action → Prop) (as : List Action)
    (s : System) : Prop :=
  Transition.Reaches step ok (recover cfg db) as s

/-! ## The order counter -/

/-- The number of an exchange id is read back. -/
lemma castInteger_exchangeId (n : ℕ) : castInteger ((exchangeId n).toList.drop 5) = n := by
  have htext : (exchangeId n).toList.drop 5 = Nat.toDigits 10 n := by
    have hid : exchangeId n = "EXCH-" ++ n.repr := rfl
    rw [hid, String.toList_append, Nat.toList_repr]
    rfl
  have hdigits : ∀ c ∈ Nat.toDigits 10 n, c.isDigit = true := fun c hc =>
    Nat.isDigit_of_mem_toDigits (by decide) (by decide) hc
  have htake : (Nat.toDigits 10 n).takeWhile Char.isDigit = Nat.toDigits 10 n :=
    List.takeWhile_eq_self_iff.mpr hdigits
  rw [htext, castInteger]
  have hspace : (Nat.toDigits 10 n).dropWhile Char.isWhitespace = Nat.toDigits 10 n := by
    cases hcs : Nat.toDigits 10 n with
    | nil => rfl
    | cons c cs =>
      have hc := hdigits c (by rw [hcs]; exact List.mem_cons_self)
      refine List.dropWhile_cons_of_neg ?_
      intro hw
      simp only [Char.isWhitespace, Bool.or_eq_true, decide_eq_true_eq] at hw
      rcases hw with ((rfl | rfl) | rfl) | rfl <;> exact absurd hc (by decide)
  rw [hspace]
  split
  · rename_i cs hcs
    exact absurd (hdigits '-' (by rw [hcs]; exact List.mem_cons_self)) (by decide)
  · rename_i cs hcs
    exact absurd (hdigits '+' (by rw [hcs]; exact List.mem_cons_self)) (by decide)
  · dsimp only
    rw [htake, Nat.ofDigitChars_toDigits (by decide) (by decide)]

lemma le_loadMaxOrderSeq {db : Database} {row : RestingRow} (hrow : row ∈ db.restingOrders)
    {k : ℕ} (hk : row.exchangeId = exchangeId k) :
    (k : ℤ) ≤ (PersistenceLayer.load db).loadMaxOrderSeq := by
  have hmem : (k : ℤ) ∈ db.restingOrders.map
      fun row => castInteger (row.exchangeId.toList.drop 5) :=
    List.mem_map.mpr ⟨row, hrow, by rw [hk, castInteger_exchangeId]⟩
  rw [PersistenceLayer.loadMaxOrderSeq, PersistenceLayer.load]
  cases hmax : (db.restingOrders.map
      fun row => castInteger (row.exchangeId.toList.drop 5)).max? with
  | none =>
    rw [List.max?_eq_none_iff.mp hmax] at hmem
    exact absurd hmem List.not_mem_nil
  | some m => exact (List.max?_eq_some_iff.mp hmax).2 _ hmem

/-- The counter starts behind the ids of the resting orders. -/
lemma issued_recover {cfg : Config} {db : Database} (h : db.Sound) {row : RestingRow}
    (hrow : row ∈ db.restingOrders) :
    Issued (recover cfg db).gateway.orderSeq row.exchangeId := by
  obtain ⟨k, hk⟩ := h.ids row hrow
  have hle := le_loadMaxOrderSeq hrow hk
  refine ⟨k, ?_, hk⟩
  simp only [recover, FixGateway.restoreOrders]
  split_ifs with hpos
  · omega
  · omega

/-! ## The maps of the gateway -/

/-- An entry of a map after a sequence of `emplace`s was there before, or is one of theirs. -/
lemma lookup_foldl_emplace {α β : Type} {f : β → String} {g : β → α} {l : List β}
    {m : StrMap α} {k : String} {v : α}
    (h : (l.foldl (fun m x => StrMap.emplace m (f x) (g x)) m).lookup k = some v) :
    m.lookup k = some v ∨ ∃ x ∈ l, f x = k ∧ g x = v := by
  induction l generalizing m with
  | nil => exact Or.inl h
  | cons x l ih =>
    rcases ih h with h | ⟨y, hy, hkv⟩
    · rcases StrMap.lookup_emplace h with h | ⟨rfl, rfl⟩
      · exact Or.inl h
      · exact Or.inr ⟨x, List.mem_cons_self, rfl, rfl⟩
    · exact Or.inr ⟨y, List.mem_cons_of_mem _ hy, hkv⟩

/-- The open orders after a recovery are the orders of the rows. -/
lemma active_recover {cfg : Config} {db : Database} {id : String} {o : Order}
    (h : (recover cfg db).gateway.active id = some o) :
    ∃ row ∈ db.restingOrders, row.exchangeId = id ∧ o = PersistenceLayer.restoredOrder row := by
  rcases lookup_foldl_emplace (f := Order.exchangeId) (g := fun o => o) h with
    h | ⟨o', ho', hid, rfl⟩
  · simp [FixGateway.init] at h
  · obtain ⟨row, hrow, rfl⟩ := List.mem_map.mp ho'
    exact ⟨row, hrow, hid, rfl⟩

/-! ## The books -/

section

variable {e : MatchingEngine} {known : String → Prop}

lemma BooksSound.blank (h : e.Blank) : BooksSound e.books known := by
  have hnone : ∀ sym b, e.books.lookup sym = some b → ∀ n, n ∉ b.nodes := by
    intro sym b hb
    rw [h.books sym b hb]
    simp [OrderBook.init, OrderBook.nodes]
  refine ⟨fun sym b hb => ?_, fun sym b hb => ?_, fun sym b hb => ?_,
    fun sym b hb n hn => absurd hn (hnone sym b hb n),
    fun sym b sym' b' hb _ n hn => absurd hn (hnone sym b hb n),
    fun sym b hb n hn => absurd hn (hnone sym b hb n)⟩
  · rw [h.books sym b hb]
    exact OrderBook.wf_init sym
  · rw [h.books sym b hb]
    exact OrderBook.keyed_init sym
  · rw [h.books sym b hb]
    rfl

/-- The books after an order has been restored. -/
lemma restoreOrder_cases {o : Order} {sym : String} {b : OrderBook}
    (hb : (e.restoreOrder o).books.lookup sym = some b) :
    e.books.lookup sym = some b ∨
      ∃ b₀, e.books.lookup sym = some b₀ ∧ sym = o.symbol ∧ b = b₀.pushOrder o := by
  simp only [MatchingEngine.restoreOrder] at hb
  split at hb
  · exact Or.inl hb
  · rename_i b₀ hb₀
    rcases lookup_processed hb with ⟨rfl, rfl⟩ | ⟨-, hb⟩
    · exact Or.inr ⟨b₀, hb₀, rfl, rfl⟩
    · exact Or.inl hb

/-- The orders in the books after an order has been restored. -/
lemma mem_restoreOrder (hwf : ∀ sym b, e.books.lookup sym = some b → b.Wf) {o : Order}
    {sym : String} {b : OrderBook}
    (hb : (e.restoreOrder o).books.lookup sym = some b) {n : Node} (hn : n ∈ b.nodes) :
    (n.order = o ∧ sym = o.symbol) ∨ ∃ b₀, e.books.lookup sym = some b₀ ∧ n ∈ b₀.nodes := by
  rcases restoreOrder_cases hb with hb | ⟨b₀, hb₀, hsym, rfl⟩
  · exact Or.inr ⟨b, hb, hn⟩
  · rcases List.mem_cons.mp
      ((OrderBook.pushOrder_nodes_perm (hwf _ b₀ hb₀) o).mem_iff.mp hn) with rfl | hn
    · exact Or.inl ⟨rfl, hsym⟩
    · exact Or.inr ⟨b₀, hb₀, hn⟩

/-- The book of a symbol after orders have been restored: the orders of the symbol have been
restored into it. -/
lemma lookup_restoreOrders (e : MatchingEngine) (orders : List Order) (sym : String) :
    (orders.foldl MatchingEngine.restoreOrder e).books.lookup sym
      = (e.books.lookup sym).map fun b =>
          (orders.filter fun o => o.symbol = sym).foldl OrderBook.restore b := by
  induction orders generalizing e with
  | nil => exact Option.map_id'.symm
  | cons o orders ih =>
    rw [List.foldl_cons, ih, List.filter_cons]
    have hone : (e.restoreOrder o).books.lookup sym
        = (e.books.lookup sym).map fun b => if o.symbol = sym then b.restore o else b := by
      simp only [MatchingEngine.restoreOrder]
      split
      · rename_i hnone
        by_cases hsym : o.symbol = sym
        · rw [← hsym, hnone]
          rfl
        · simp [hsym]
      · rename_i b₀ hb₀
        by_cases hsym : o.symbol = sym
        · rw [← hsym, AList.lookup_insert, hb₀, Option.map_some, if_pos rfl]
        · rw [AList.lookup_insert_ne (Ne.symm hsym)]
          simp [hsym]
    rw [hone, Option.map_map]
    by_cases hsym : o.symbol = sym
    · simp [hsym, Function.comp_def]
    · simp [hsym, Function.comp_def]

/-- The orders in a book after orders have been restored into it. -/
lemma restore_orders_perm {b : OrderBook} (h : b.Wf) {orders : List Order}
    (ht : ∀ o ∈ orders, o.type = '2') :
    ((orders.foldl OrderBook.restore b).nodes.map Node.order).Perm
      (orders ++ b.nodes.map Node.order) := by
  induction orders generalizing b with
  | nil => exact .refl _
  | cons o orders ih =>
    have hpush := (OrderBook.pushOrder_nodes_perm h o).map Node.order
    refine (ih (h.pushOrder (ht o List.mem_cons_self)) fun o' ho' =>
      ht o' (List.mem_cons_of_mem _ ho')).trans ?_
    exact (List.Perm.append_left orders hpush).trans List.perm_middle

/-- Restoring an order with an id that does not rest keeps the books sound. -/
lemma BooksSound.restoreOrder (h : BooksSound e.books known) {o : Order} (ht : o.type = '2')
    (htif : o.tif ≠ '3') (hknown : known o.exchangeId)
    (hfresh : ∀ sym b, e.books.lookup sym = some b → b.Fresh o.exchangeId) :
    BooksSound (e.restoreOrder o).books known := by
  refine ⟨fun sym b hb => ?_, fun sym b hb => ?_, fun sym b hb => ?_, fun sym b hb n hn => ?_,
    fun sym b sym' b' hb hb' n hn n' hn' hid => ?_, fun sym b hb n hn => ?_⟩
  · rcases restoreOrder_cases hb with hb | ⟨b₀, hb₀, -, rfl⟩
    · exact h.wf sym b hb
    · exact (h.wf sym b₀ hb₀).pushOrder ht
  · rcases restoreOrder_cases hb with hb | ⟨b₀, hb₀, -, rfl⟩
    · exact h.keyed sym b hb
    · exact (h.keyed sym b₀ hb₀).pushOrder (h.wf sym b₀ hb₀) (hfresh sym b₀ hb₀)
  · rcases restoreOrder_cases hb with hb | ⟨b₀, hb₀, -, rfl⟩
    · exact h.symbol sym b hb
    · rw [OrderBook.pushOrder_symbol]
      exact h.symbol sym b₀ hb₀
  · rcases mem_restoreOrder h.wf hb hn with ⟨rfl, rfl⟩ | ⟨b₀, hb₀, hn⟩
    · exact ⟨rfl, hknown⟩
    · exact h.orders sym b₀ hb₀ n hn
  · rcases mem_restoreOrder h.wf hb hn with ⟨ho, rfl⟩ | ⟨b₀, hb₀, hn⟩
    · rcases mem_restoreOrder h.wf hb' hn' with ⟨-, rfl⟩ | ⟨b₀', hb₀', hn'⟩
      · rfl
      · exact absurd (hid.symm.trans (congrArg Order.exchangeId ho)) (hfresh sym' b₀' hb₀' n' hn')
    · rcases mem_restoreOrder h.wf hb' hn' with ⟨ho', rfl⟩ | ⟨b₀', hb₀', hn'⟩
      · exact absurd (hid.trans (congrArg Order.exchangeId ho')) (hfresh sym b₀ hb₀ n hn)
      · exact h.apart sym b₀ sym' b₀' hb₀ hb₀' n hn n' hn' hid
  · rcases mem_restoreOrder h.wf hb hn with ⟨rfl, -⟩ | ⟨b₀, hb₀, hn⟩
    · exact htif
    · exact h.patient sym b₀ hb₀ n hn

/-- Restoring orders with distinct ids that do not rest keeps the books sound. -/
lemma BooksSound.restoreOrders (h : BooksSound e.books known) {orders : List Order}
    (hnodup : (orders.map Order.exchangeId).Nodup)
    (horders : ∀ o ∈ orders, o.type = '2' ∧ o.tif ≠ '3' ∧ known o.exchangeId)
    (hfresh : ∀ o ∈ orders, ∀ sym b, e.books.lookup sym = some b → b.Fresh o.exchangeId) :
    BooksSound (orders.foldl MatchingEngine.restoreOrder e).books known := by
  induction orders generalizing e with
  | nil => exact h
  | cons o orders ih =>
    obtain ⟨hne, hnodup⟩ := List.nodup_cons.mp hnodup
    obtain ⟨ht, htif, hknown⟩ := horders o List.mem_cons_self
    refine ih (h.restoreOrder ht htif hknown (hfresh o List.mem_cons_self)) hnodup
      (fun o' ho' => horders o' (List.mem_cons_of_mem _ ho')) fun o' ho' sym b hb n hn => ?_
    rcases mem_restoreOrder h.wf hb hn with ⟨rfl, -⟩ | ⟨b₀, hb₀, hn⟩
    · exact fun hid => hne (List.mem_map.mpr ⟨o', ho', hid.symm⟩)
    · exact hfresh o' (List.mem_cons_of_mem _ ho') sym b₀ hb₀ n hn

end

/-- Restoring orders keeps the symbols. -/
lemma restoreOrders_symbols (e : MatchingEngine) (orders : List Order) :
    (orders.foldl MatchingEngine.restoreOrder e).validSymbols = e.validSymbols ∧
      ∀ sym, sym ∈ (orders.foldl MatchingEngine.restoreOrder e).books ↔ sym ∈ e.books := by
  induction orders generalizing e with
  | nil => exact ⟨rfl, fun _ => Iff.rfl⟩
  | cons o orders ih =>
    obtain ⟨hvalid, hbooks⟩ := ih (e.restoreOrder o)
    have hone : (e.restoreOrder o).validSymbols = e.validSymbols ∧
        ∀ sym, sym ∈ (e.restoreOrder o).books ↔ sym ∈ e.books := by
      simp only [MatchingEngine.restoreOrder]
      split
      · exact ⟨rfl, fun _ => Iff.rfl⟩
      · rename_i b hb
        refine ⟨rfl, fun sym => ?_⟩
        have hmem : o.symbol ∈ e.books := AList.lookup_isSome.mp (by rw [hb]; rfl)
        rw [AList.mem_insert]
        exact ⟨fun h => h.elim (fun h => h ▸ hmem) id, Or.inr⟩
    exact ⟨hvalid.trans hone.1, fun sym => (hbooks sym).trans (hone.2 sym)⟩

/-- The engine before the orders are restored. -/
lemma blank_registered (cfg : Config) (symbols : List String) :
    ((MatchingEngine.init cfg.symbols).registerSymbols symbols).Blank :=
  (MatchingEngine.blank_init cfg.symbols).registerSymbols symbols

/-- Every valid symbol has a book after a recovery. -/
lemma symbols_recover (cfg : Config) (db : Database) :
    ∀ sym ∈ (recover cfg db).engine.validSymbols, sym ∈ (recover cfg db).engine.books := by
  intro sym hsym
  obtain ⟨hvalid, hbooks⟩ := restoreOrders_symbols
    ((MatchingEngine.init cfg.symbols).registerSymbols (PersistenceLayer.load db).loadSymbols)
    (PersistenceLayer.load db).loadRestingOrders
  have hsym' : sym ∈ ((MatchingEngine.init cfg.symbols).registerSymbols
      (PersistenceLayer.load db).loadSymbols).validSymbols := by
    rw [← hvalid]
    exact hsym
  exact (hbooks sym).mpr ((blank_registered cfg _).symbols sym hsym')

/-- The orders of the rows of a symbol. -/
def restoredOrders (db : Database) (sym : String) : List Order :=
  (PersistenceLayer.load db).loadRestingOrders.filter fun o => o.symbol = sym

/-- **A recovered book** is a new one into which the orders of its symbol have been restored. -/
theorem book_recover {cfg : Config} {db : Database} {sym : String} {b : OrderBook}
    (hb : (recover cfg db).engine.books.lookup sym = some b) :
    b = (restoredOrders db sym).foldl OrderBook.restore (OrderBook.init sym) := by
  have hblank := blank_registered cfg (PersistenceLayer.load db).loadSymbols
  have hlookup := (lookup_restoreOrders _ _ sym).symm.trans hb
  obtain ⟨b₀, hb₀, rfl⟩ := Option.map_eq_some_iff.mp hlookup
  rw [hblank.books sym b₀ hb₀]
  rfl

/-- The orders in the recovered books are the orders of rows. -/
lemma mem_books_recover {cfg : Config} {db : Database} {sym : String} {b : OrderBook}
    (hb : (recover cfg db).engine.books.lookup sym = some b) {o : Order} :
    (∃ n ∈ b.nodes, n.order = o) ↔ ∃ row ∈ db.restingOrders, row.symbol = sym ∧
      PersistenceLayer.restoredOrder row = o := by
  have ht : ∀ o ∈ restoredOrders db sym, o.type = '2' := by
    intro o ho
    obtain ⟨row, -, rfl⟩ := List.mem_map.mp (List.mem_filter.mp ho).1
    rfl
  have hperm := restore_orders_perm (OrderBook.wf_init sym) ht
  rw [← book_recover hb] at hperm
  have hnil : (OrderBook.init sym).nodes.map Node.order = [] := rfl
  rw [hnil, List.append_nil] at hperm
  rw [← List.mem_map, hperm.mem_iff, restoredOrders, List.mem_filter, decide_eq_true_eq,
    PersistenceLayer.loadRestingOrders, List.mem_map]
  constructor
  · rintro ⟨⟨row, hrow, rfl⟩, hsym⟩
    exact ⟨row, hrow, hsym, rfl⟩
  · rintro ⟨row, hrow, hsym, rfl⟩
    exact ⟨⟨row, hrow, rfl⟩, hsym⟩

/-- **A recovery from a sound database** is a sound start. -/
theorem founded_recover (cfg : Config) {db : Database} (h : db.Sound) :
    (recover cfg db).Founded := by
  have hissued : ∀ row ∈ db.restingOrders,
      Issued (recover cfg db).gateway.orderSeq row.exchangeId := fun row hrow =>
    issued_recover h hrow
  have hknown : ∀ id, Issued (recover cfg db).gateway.orderSeq id → (recover cfg db).Known id :=
    fun id hid => ⟨hid, by simp [recover, Handler.pending]⟩
  refine ⟨?_, ⟨by simp [recover], by simp [recover, submittedIds], by simp [recover],
    by simp [recover]⟩, by simp [recover], ⟨by simp [recover, Handler.pending],
    by simp [recover, nextItem]⟩, ⟨fun c id hc => ?_, fun id o ho => ?_, by simp [recover]⟩,
    symbols_recover cfg db⟩
  · have hblank := blank_registered cfg (PersistenceLayer.load db).loadSymbols
    refine (BooksSound.blank hblank).restoreOrders ?_ (fun o ho => ?_) fun o ho sym b hb n hn => ?_
    · rw [PersistenceLayer.loadRestingOrders, List.map_map]
      exact h.nodup
    · obtain ⟨row, hrow, rfl⟩ := List.mem_map.mp ho
      exact ⟨rfl, by simp [PersistenceLayer.restoredOrder], hknown _ (hissued row hrow)⟩
    · rw [hblank.books sym b hb] at hn
      simp [OrderBook.init, OrderBook.nodes] at hn
  · rcases lookup_foldl_emplace (f := Order.clordId) (g := Order.exchangeId) hc with
      hc | ⟨o, ho, -, rfl⟩
    · simp [FixGateway.init] at hc
    · obtain ⟨row, hrow, rfl⟩ := List.mem_map.mp ho
      exact hissued row hrow
  · obtain ⟨row, hrow, rfl, rfl⟩ := active_recover ho
    exact ⟨rfl, Or.inl (hknown _ (hissued row hrow))⟩

theorem founded_of_recovery {cfg : Config} {db : Database} {ok : System → Action → Prop}
    {as : List Action} {s : System} (hdb : db.Sound) (h : RunFrom cfg db ok as s) : s.Founded :=
  h.invariant (founded_recover cfg hdb) fun _ _ _ _ _ hs _ hstep => hs.step hstep

end System

end FixExchange
