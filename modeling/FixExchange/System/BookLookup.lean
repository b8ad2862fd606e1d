/-
# The books that the engine looks up

The engine takes the book of an item without looking whether there is one.  New orders are
checked for a valid symbol, and cancel and replace requests are not: in a run whose requests
name symbols that have a book, every item in the queue has one, after a recovery from any
database and with any configured symbols (`items_have_books`); a cancel request for a symbol
that has none makes the engine look up a missing book (`missing_book_looked_up`).
-/
import FixExchange.System.Incoming
import FixExchange.System.Recovery

namespace FixExchange

namespace System

variable {s s' : System} {a : Action}

/-- A request that names an order names a symbol that has a book. -/
def NamesBook (s : System) : Action → Prop
  | .message (.cancel msg) _ =>
    s.gateway.clordToExchange.lookup msg.origClOrdID ≠ none → msg.symbol ∈ s.engine.books
  | .message (.replace msg) _ =>
    ∀ id ∈ s.gateway.clordToExchange.lookup msg.origClOrdID,
      (∀ o ∈ s.gateway.activeOrders.lookup id, o.symbol = msg.symbol ∧ o.side = msg.side) →
        msg.price ≠ none → msg.symbol ∈ s.engine.books
  | _ => True

instance (s : System) (a : Action) : Decidable (s.NamesBook a) :=
  match a with
  | .message (.cancel _) _ => inferInstanceAs (Decidable (_ → _))
  | .message (.replace _) _ => Option.decidableForallMem _
  | .message (.newOrder _) _ | .logon _ | .handle | .engine | .persist | .registerSymbol _ =>
    isTrue trivial

/-! ## Books are never dropped -/

lemma mem_books_of_step (hstep : s.step a = some s') {sym : String}
    (h : sym ∈ s.engine.books) : sym ∈ s'.engine.books := by
  cases a with
  | message msg session =>
    obtain ⟨-, rfl⟩ := step_message hstep
    exact h
  | logon session =>
    obtain ⟨-, rfl⟩ := step_logon hstep
    exact h
  | handle =>
    rcases handle_cases hstep with ⟨o, session, -, rfl⟩ | ⟨o, session, -, rfl⟩ | ⟨item, -, rfl⟩ <;>
      exact h
  | engine =>
    rcases engineStep_cases hstep with ⟨t, ts, -, rfl⟩ | ⟨-, item, queue, b, -, -, rfl⟩
    · exact h
    · exact (AList.mem_insert _).mpr (Or.inr h)
  | persist =>
    obtain ⟨p, p', -, -, rfl⟩ := step_persist hstep
    exact h
  | registerSymbol symbol =>
    obtain ⟨e, he, rfl⟩ := step_registerSymbol hstep
    exact (MatchingEngine.registerSymbol_books he).2.2 sym (Or.inl h)

/-- Every valid symbol goes on having a book. -/
lemma symbols_step (hstep : s.step a = some s')
    (h : ∀ sym ∈ s.engine.validSymbols, sym ∈ s.engine.books) :
    ∀ sym ∈ s'.engine.validSymbols, sym ∈ s'.engine.books := by
  intro sym hsym
  cases a with
  | message msg session =>
    obtain ⟨-, rfl⟩ := step_message hstep
    exact h sym hsym
  | logon session =>
    obtain ⟨-, rfl⟩ := step_logon hstep
    exact h sym hsym
  | handle =>
    rcases handle_cases hstep with ⟨o, session, -, rfl⟩ | ⟨o, session, -, rfl⟩ | ⟨item, -, rfl⟩ <;>
      exact h sym hsym
  | engine =>
    rcases engineStep_cases hstep with ⟨t, ts, -, rfl⟩ | ⟨-, item, queue, b, -, -, rfl⟩
    · exact h sym hsym
    · exact (AList.mem_insert _).mpr (Or.inr (h sym hsym))
  | persist =>
    obtain ⟨p, p', -, -, rfl⟩ := step_persist hstep
    exact h sym hsym
  | registerSymbol symbol =>
    obtain ⟨e, he, rfl⟩ := step_registerSymbol hstep
    obtain ⟨-, hvalid, hbooks⟩ := MatchingEngine.registerSymbol_books he
    rw [hvalid, Finset.mem_insert] at hsym
    exact hbooks sym (hsym.symm.imp_left (h sym))

/-! ## Everything on its way to the engine has a book -/

/-- The orders and the requests that are to come name symbols that have a book. -/
structure HaveBooks (s : System) : Prop where
  symbols : ∀ sym ∈ s.engine.validSymbols, sym ∈ s.engine.books
  incoming : ∀ o, s.Incoming o → o.symbol ∈ s.engine.books
  coming : ∀ item ∈ s.coming, item.symbol ∈ s.engine.books

/-- An order among the items that are to come is incoming. -/
lemma incoming_of_coming {o : Order} (h : .order o ∈ s.coming) : s.Incoming o := by
  rcases List.mem_append.mp h with h | h
  · exact Or.inl h
  · rcases nextItem_cases (Option.mem_toList.mp h) with ⟨o', hh, heq⟩ | ⟨-, hne⟩
    · obtain rfl := WorkItem.order.inj heq
      exact Or.inr (by rw [hh]; rfl)
    · exact absurd rfl (hne o)

/-- A request that is passed on names a symbol that has a book. -/
lemma NamesBook.of_forwards (h : s.NamesBook a) {item : WorkItem} (hforward : s.Forwards a item) :
    item.symbol ∈ s.engine.books := by
  cases hforward with
  | cancel hreq =>
    rw [WorkItem.symbol, hreq.symbol]
    exact h (by rw [hreq.resolved]; simp)
  | replace hreq handler =>
    rw [WorkItem.symbol, hreq.symbol]
    refine h _ hreq.resolved (fun o ho => ?_) (by rw [hreq.price]; simp)
    rw [← hreq.symbol, ← hreq.side]
    exact hreq.same o ho

lemma HaveBooks.step (h : s.HaveBooks) (hok : s.NamesBook a) (hstep : s.step a = some s') :
    s'.HaveBooks := by
  have hincoming : ∀ o, s'.Incoming o → o.symbol ∈ s'.engine.books := by
    intro o ho
    refine mem_books_of_step hstep ?_
    rcases incoming_step hstep ho with ho | ⟨m, session, -, haccepts, -⟩
    · exact h.incoming o ho
    · exact h.symbols _ haccepts.validSymbol
  refine ⟨symbols_step hstep h.symbols, hincoming, fun item hi => ?_⟩
  rcases coming_step hstep hi with hi' | ⟨o, rfl⟩ | hforward
  · exact mem_books_of_step hstep (h.coming item hi')
  · exact hincoming o (incoming_of_coming hi)
  · exact mem_books_of_step hstep (hok.of_forwards hforward)

/-- **Every item that reaches the engine has a book**, after a recovery from any database, in
every run whose requests name symbols that have a book. -/
theorem items_have_books {cfg : Config} {db : Database} {as : List Action}
    (h : RunFrom cfg db NamesBook as s) :
    ∀ item ∈ s.queue, item.symbol ∈ s.engine.books ∧ (s.engine.process item).isSome = true := by
  have hbooks : s.HaveBooks := by
    refine h.invariant ⟨symbols_recover cfg db, by simp [recover, Incoming, Handler.pending],
      by simp [recover, System.coming, nextItem]⟩ fun _ _ _ _ _ hs hok hstep => hs.step hok hstep
  intro item hi
  have hmem := hbooks.coming item (mem_coming_of_queue hi)
  refine ⟨hmem, ?_⟩
  rw [MatchingEngine.process, Option.isSome_map]
  exact AList.lookup_isSome.mpr hmem

/-- A database with an order for a symbol that is not configured. -/
def sampleDatabase : Database :=
  ⟨[⟨"EXCH-4", "a", "A", "X", '1', 10, 5⟩, ⟨"EXCH-7", "b", "A", "Y", '1', 10, 5⟩], [], []⟩

/-- The client of the orders cancels one of them. -/
def sampleLookupRun : List Action :=
  .logon Sample.alice :: Sample.forward (Sample.cancel "a") Sample.alice

theorem items_have_books_sample :
    ∃ s, RunFrom Sample.config sampleDatabase NamesBook sampleLookupRun s ∧
      s.queue = [.cancel ⟨"EXCH-4", "A", "X"⟩] ∧
      ∀ item ∈ s.queue, item.symbol ∈ s.engine.books ∧
        (s.engine.process item).isSome = true := by
  have hreach : ∃ s, RunFrom Sample.config sampleDatabase NamesBook sampleLookupRun s ∧
      s.queue = [.cancel ⟨"EXCH-4", "A", "X"⟩] :=
    Transition.exists_reaches (by decide +kernel) (by decide +kernel)
  obtain ⟨s, hrun, hq⟩ := hreach
  exact ⟨s, hrun, hq, items_have_books hrun⟩

/-- An order, and a cancel request that names it with another symbol. -/
def strangeSymbolRun : List Action :=
  Sample.submit (Sample.limit "a" '1' 5 10) Sample.alice ++ Sample.engine 2
    ++ Sample.forward (.cancel { origClOrdID := "a", symbol := "Z" }) Sample.alice

/-- The engine looks up a book that does not exist. -/
theorem missing_book_looked_up :
    ∃ s, RunFrom Sample.config Database.empty Any strangeSymbolRun s ∧ s.tasks = [] ∧
      ∃ item, s.queue = [item] ∧ item.symbol ∉ s.engine.books ∧ s.engine.process item = none := by
  have hreach : ∃ s, RunFrom Sample.config Database.empty Any strangeSymbolRun s ∧
      (s.tasks = [] ∧ s.queue = [.cancel ⟨"EXCH-1", "A", "Z"⟩] ∧
        s.engine.books.lookup "Z" = none) :=
    Transition.exists_reaches (by decide +kernel) (by decide +kernel)
  obtain ⟨s, hrun, ht, hq, hnone⟩ := hreach
  refine ⟨s, hrun, ht, _, hq, AList.lookup_eq_none.mp hnone, ?_⟩
  rw [MatchingEngine.process, WorkItem.symbol, hnone]
  rfl

end System

end FixExchange
