/-
# The resting orders of the exchange

The ledger of all books together.  No id rests in two books, so that it does not matter in
which order the books are looked through, and an item that is processed in one book changes
the ledger as it changes the ledger of that book (`Founded.processed`).
-/
import FixExchange.Engine.BookLedger
import FixExchange.System.Sound

namespace FixExchange

/-- The resting orders of all books. -/
def restingOrders (books : StrMap OrderBook) : List Order :=
  books.entries.flatMap fun kv => kv.2.getOrders

/-- The resting orders of all books, by exchange id. -/
def restingLedger (books : StrMap OrderBook) : OrderLedger :=
  Ledger.ofList Order.exchangeId (restingOrders books)

lemma mem_restingOrders {books : StrMap OrderBook} {o : Order} :
    o ∈ restingOrders books ↔
      ∃ sym b, books.lookup sym = some b ∧ ∃ n ∈ b.nodes, n.order = o := by
  simp only [restingOrders, List.mem_flatMap, OrderBook.getOrders, List.mem_map]
  constructor
  · rintro ⟨⟨sym, b⟩, hmem, n, hn, rfl⟩
    exact ⟨sym, b, AList.mem_lookup_iff.mpr hmem, n, hn, rfl⟩
  · rintro ⟨sym, b, hb, n, hn, rfl⟩
    exact ⟨⟨sym, b⟩, AList.mem_lookup_iff.mp hb, n, hn, rfl⟩

/-- A book that is put in takes the place of the one before it. -/
lemma restingLedger_insert (books : StrMap OrderBook) (sym : String) (b : OrderBook) :
    restingLedger (books.insert sym b) = Ledger.orElse b.ledger (restingLedger (books.erase sym)) := by
  rw [restingLedger, restingOrders, AList.entries_insert, List.flatMap_cons, Ledger.ofList_append]
  rfl

namespace System

namespace BooksSound

variable {books : StrMap OrderBook} {known : String → Prop}

/-- No id rests twice. -/
lemma nodup (h : BooksSound books known) :
    ((restingOrders books).map Order.exchangeId).Nodup := by
  rw [restingOrders, List.map_flatMap, List.nodup_flatMap]
  constructor
  · rintro ⟨sym, b⟩ hmem
    exact (h.keyed sym b (AList.mem_lookup_iff.mpr hmem)).nodup
  · refine (List.nodupKeys_iff_pairwise.mp books.nodupKeys).imp_of_mem ?_
    rintro ⟨sym, b⟩ ⟨sym', b'⟩ hmem hmem' hne id hid hid'
    obtain ⟨o, ho, rfl⟩ := List.mem_map.mp hid
    obtain ⟨o', ho', heq⟩ := List.mem_map.mp hid'
    obtain ⟨n, hn, rfl⟩ := List.mem_map.mp ho
    obtain ⟨n', hn', rfl⟩ := List.mem_map.mp ho'
    exact hne (h.apart sym b sym' b' (AList.mem_lookup_iff.mpr hmem)
      (AList.mem_lookup_iff.mpr hmem') n hn n' hn' heq.symm)

lemma resting_eq_some (h : BooksSound books known) {id : String} {o : Order} :
    restingLedger books id = some o ↔
      ∃ sym b, books.lookup sym = some b ∧ ∃ n ∈ b.nodes, n.order = o ∧ o.exchangeId = id := by
  rw [restingLedger, Ledger.ofList_eq_some h.nodup, mem_restingOrders]
  constructor
  · rintro ⟨⟨sym, b, hb, n, hn, ho⟩, hid⟩
    exact ⟨sym, b, hb, n, hn, ho, hid⟩
  · rintro ⟨sym, b, hb, n, hn, ho, hid⟩
    exact ⟨⟨sym, b, hb, n, hn, ho⟩, hid⟩

lemma erase (h : BooksSound books known) (sym : String) : BooksSound (books.erase sym) known := by
  have hsub : ∀ {sym' b}, (books.erase sym).lookup sym' = some b → books.lookup sym' = some b :=
    fun hb => lookup_of_lookup_erase hb
  exact ⟨fun sym' b hb => h.wf sym' b (hsub hb), fun sym' b hb => h.keyed sym' b (hsub hb),
    fun sym' b hb => h.symbol sym' b (hsub hb), fun sym' b hb => h.orders sym' b (hsub hb),
    fun sym₁ b₁ sym₂ b₂ hb₁ hb₂ => h.apart sym₁ b₁ sym₂ b₂ (hsub hb₁) (hsub hb₂),
    fun sym' b hb => h.patient sym' b (hsub hb)⟩

/-- An id that rests in one book does not rest in the others. -/
lemma resting_erase_eq_none (h : BooksSound books known) {sym : String} {b : OrderBook}
    (hb : books.lookup sym = some b) {id : String} (hid : b.ledger id ≠ none) :
    restingLedger (books.erase sym) id = none := by
  by_contra hne
  obtain ⟨o, ho⟩ := Option.ne_none_iff_exists'.mp hid
  obtain ⟨o', ho'⟩ := Option.ne_none_iff_exists'.mp hne
  obtain ⟨n, hn, rfl, hnid⟩ := (h.keyed sym b hb).ledger_eq_some.mp ho
  obtain ⟨sym', b', hb', n', hn', rfl, hnid'⟩ := (h.erase sym).resting_eq_some.mp ho'
  obtain rfl := h.apart sym' b' sym b (lookup_of_lookup_erase hb') hb n' hn' n hn
    (hnid'.trans hnid.symm)
  rw [AList.lookup_erase] at hb'
  exact absurd hb' (by simp)

/-- The resting orders are those of one book and those of the others. -/
lemma restingLedger_eq (h : BooksSound books known) {sym : String} {b : OrderBook}
    (hb : books.lookup sym = some b) :
    restingLedger books = Ledger.orElse b.ledger (restingLedger (books.erase sym)) := by
  funext id
  cases hid : b.ledger id with
  | some o =>
    obtain ⟨n, hn, ho⟩ := (h.keyed sym b hb).ledger_eq_some.mp hid
    rw [Ledger.orElse_of_some hid]
    exact h.resting_eq_some.mpr ⟨sym, b, hb, n, hn, ho⟩
  | none =>
    rw [Ledger.orElse, hid, Option.none_or]
    refine Option.ext fun o => ?_
    rw [h.resting_eq_some, (h.erase sym).resting_eq_some]
    constructor
    · rintro ⟨sym', b', hb', n, hn, ho, hnid⟩
      refine ⟨sym', b', ?_, n, hn, ho, hnid⟩
      rw [AList.lookup_erase_ne]
      · exact hb'
      · rintro rfl
        obtain rfl := Option.some.inj (hb.symm.trans hb')
        exact OrderBook.ledger_eq_none.mp hid n hn (by rw [ho, hnid])
    · rintro ⟨sym', b', hb', hn⟩
      exact ⟨sym', b', lookup_of_lookup_erase hb', hn⟩

end BooksSound

variable {s s' : System}

/-- The order with an id rests. -/
lemma Founded.resting_iff (h : s.Founded) {id : String} :
    restingLedger s.engine.books id ≠ none ↔
      ∃ sym b, s.engine.books.lookup sym = some b ∧ ∃ n ∈ b.nodes, n.order.exchangeId = id := by
  rw [Option.ne_none_iff_exists']
  constructor
  · rintro ⟨o, ho⟩
    obtain ⟨sym, b, hb, n, hn, rfl, hid⟩ := h.books.resting_eq_some.mp ho
    exact ⟨sym, b, hb, n, hn, hid⟩
  · rintro ⟨sym, b, hb, n, hn, hid⟩
    exact ⟨n.order, h.books.resting_eq_some.mpr ⟨sym, b, hb, n, hn, rfl, hid⟩⟩

/-- A book of open orders is as the engine keeps it. -/
lemma Founded.regular (h : s.Founded) {sym : String} {b : OrderBook}
    (hb : s.engine.books.lookup sym = some b) (hpos : b.Positive) : b.Regular :=
  ⟨⟨h.books.wf _ b hb, h.books.keyed _ b hb, hpos⟩, h.books.patient _ b hb, fun n hn =>
    (h.books.orders _ b hb n hn).1.trans (h.books.symbol _ b hb).symm⟩

/-- **An item that is processed in its book** is processed in the ledger of all books. -/
theorem Founded.processed (h : s.Founded) {item : WorkItem} (hi : item ∈ s.queue) {b : OrderBook}
    (hb : s.engine.books.lookup item.symbol = some b) (hpos : b.Positive)
    (hreq : ∀ req, item = .replace req → 0 < req.newQty) :
    Processed (restingLedger s.engine.books) item (processIn b item).2
      (restingLedger (s.engine.books.insert item.symbol (processIn b item).1)) := by
  have hregular := h.regular hb hpos
  have horder : ∀ o, item = .order o → b.Fresh o.exchangeId ∧ 0 ≤ o.qty := by
    rintro o rfl
    exact ⟨h.queue.fresh o hi _ b hb, (h.queue.qty o hi).2⟩
  have hbook := hregular.processIn_processed horder hreq
  rw [h.books.restingLedger_eq hb, restingLedger_insert]
  refine hbook.orElse (fun id hid => h.books.resting_erase_eq_none hb hid) ?_
  rintro o rfl
  by_contra hne
  obtain ⟨o', ho'⟩ := Option.ne_none_iff_exists'.mp hne
  obtain ⟨sym, b', hb', n, hn, rfl, hid⟩ := (h.books.erase _).resting_eq_some.mp ho'
  exact h.queue.fresh o hi sym b' (lookup_of_lookup_erase hb') n hn hid

/-- **Where the resting orders come from**: what is left of the orders that rested before, and
the order that the processed item names. -/
theorem Founded.mem_books_step (hs : s.Founded) {a : Action} (hstep : s.step a = some s') {sym : String}
    {b : OrderBook} (hb : s'.engine.books.lookup sym = some b) {n : Node} (hn : n ∈ b.nodes) :
    ∃ b₀, s.engine.books.lookup sym = some b₀ ∧ ((∃ m ∈ b₀.nodes, n.order.LeftOf m.order) ∨
      ∃ item queue, s.tasks = [] ∧ s.queue = item :: queue ∧ item.symbol = sym ∧
        b₀.Names item n.order) := by
  have hold : ∀ {b}, s.engine.books.lookup sym = some b → n ∈ b.nodes →
      ∃ b₀, s.engine.books.lookup sym = some b₀ ∧ ((∃ m ∈ b₀.nodes, n.order.LeftOf m.order) ∨
        ∃ item queue, s.tasks = [] ∧ s.queue = item :: queue ∧ item.symbol = sym ∧
          b₀.Names item n.order) := fun hb hn => ⟨_, hb, Or.inl ⟨n, hn, Or.inl rfl⟩⟩
  cases a with
  | message msg session =>
    obtain ⟨-, rfl⟩ := step_message hstep
    exact hold hb hn
  | logon session =>
    obtain ⟨-, rfl⟩ := step_logon hstep
    exact hold hb hn
  | handle =>
    rcases handle_cases hstep with ⟨o, session, -, rfl⟩ | ⟨o, session, -, rfl⟩ | ⟨item, -, rfl⟩ <;>
      exact hold hb hn
  | engine =>
    rcases engineStep_cases hstep with ⟨t, ts, -, rfl⟩ | ⟨ht, item, queue, b', hq, hb', rfl⟩
    · exact hold hb hn
    · rcases lookup_processed hb with ⟨rfl, rfl⟩ | ⟨-, hb⟩
      · refine ⟨b', hb', ?_⟩
        rcases OrderBook.mem_processIn (hs.books.wf _ b' hb') hn with hleft | hnames
        · exact Or.inl hleft
        · exact Or.inr ⟨item, queue, ht, hq, rfl, hnames⟩
      · exact hold hb hn
  | persist =>
    obtain ⟨p, p', -, -, rfl⟩ := step_persist hstep
    exact hold hb hn
  | registerSymbol symbol =>
    obtain ⟨e, he, rfl⟩ := step_registerSymbol hstep
    rcases (MatchingEngine.registerSymbol_books he).1 sym with hsame | ⟨-, -, hnew⟩
    · exact hold (hsame.symm.trans hb) hn
    · obtain rfl := Option.some.inj (hb.symm.trans hnew)
      exact absurd hn (by simp [OrderBook.init, OrderBook.nodes])

end System

end FixExchange
