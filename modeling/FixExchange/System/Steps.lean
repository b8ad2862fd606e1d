/-
# What a step of the exchange does

One lemma for each kind of step lists everything that the step can do, guards included:
`onMessage_cases` for the first section of a message handler, `handle_cases` for its other
sections, and `engineStep_cases` for the engine thread.
-/
import FixExchange.System.Exchange

namespace FixExchange

/-- The item that a handler will push on the queue. -/
def Handler.item : Handler → Option WorkItem
  | .idle => none
  | .route order _ | .activate order _ | .submit order => some (.order order)
  | .cancel req => some (.cancel req)
  | .replace req => some (.replace req)

lemma exchangeId_injective : Function.Injective exchangeId := by
  intro m n h
  have hrepr : m.repr = n.repr := (String.append_right_inj "EXCH-").mp h
  have hdigits : Nat.toDigits 10 m = Nat.toDigits 10 n := by
    rw [← Nat.toList_repr, ← Nat.toList_repr, hrepr]
  have hvalue := congrArg (fun cs => Nat.ofDigitChars 10 cs 0) hdigits
  simpa [Nat.ofDigitChars_toDigits] using hvalue

namespace System

variable {s s' : System}

/-! ## Messages -/

/-- A new order that passes all checks. -/
structure Accepts (s : System) (msg : NewOrderSingle) (session : SessionID) (o : Order) : Prop where
  exchangeId : o.exchangeId = exchangeId (s.gateway.orderSeq + 1)
  clordId : o.clordId = msg.clOrdID
  clientId : o.clientId = session.targetCompID
  symbol : o.symbol = msg.symbol
  side : o.side = msg.side
  type : o.type = msg.ordType
  rawQty : 0 < msg.orderQty ∧ msg.orderQty ≤ 2147483647
  qty : o.qty = castInt msg.orderQty
  leavesQty : o.leavesQty = o.qty
  limit : o.type = '2' → msg.price = some o.price ∧ 0 < o.price
  market : o.type ≠ '2' → o.price = 0
  validSymbol : o.symbol ∈ s.engine.validSymbols
  risk : s.gateway.risk.check o.symbol o.type o.side o.qty o.price = ""

/-- A cancel request that is passed on to the engine. -/
structure ForwardsCancel (s : System) (msg : OrderCancelRequest) (session : SessionID)
    (req : CancelRequest) : Prop where
  resolved : s.gateway.clordToExchange.lookup msg.origClOrdID = some req.origOrderId
  clientId : req.clientId = session.targetCompID
  symbol : req.symbol = msg.symbol

/-- A replace request that is passed on to the engine. -/
structure ForwardsReplace (s : System) (msg : OrderCancelReplaceRequest) (session : SessionID)
    (req : ReplaceRequest) : Prop where
  resolved : s.gateway.clordToExchange.lookup msg.origClOrdID = some req.origOrderId
  clientId : req.clientId = session.targetCompID
  symbol : req.symbol = msg.symbol
  side : req.side = msg.side
  price : msg.price = some req.newPrice
  qty : req.newQty = castInt msg.orderQty
  same : ∀ o, s.gateway.activeOrders.lookup req.origOrderId = some o →
    o.symbol = req.symbol ∧ o.side = req.side

/-- The gateway with another order counter and other messages sent. -/
def bump (g : FixGateway) (seq : ℕ) (sent : List (SessionID × ClientMessage)) : FixGateway :=
  { g with orderSeq := seq, sent := sent }

lemma onNewOrderSingle_cases (s : System) (msg : NewOrderSingle) (session : SessionID) :
    (∃ sent, s.gateway.onNewOrderSingle s.engine msg session
        = (bump s.gateway (s.gateway.orderSeq + 1) sent, .idle)) ∨
      ∃ o, s.Accepts msg session o ∧ s.gateway.onNewOrderSingle s.engine msg session
        = (bump s.gateway (s.gateway.orderSeq + 1) s.gateway.sent, .route o session) := by
  simp only [FixGateway.onNewOrderSingle]
  split_ifs with hqty hmissing hprice hsymbol hrisk
  · exact Or.inl ⟨_, rfl⟩
  · exact Or.inl ⟨_, rfl⟩
  · exact Or.inl ⟨_, rfl⟩
  · exact Or.inl ⟨_, rfl⟩
  · exact Or.inl ⟨_, rfl⟩
  · refine Or.inr ⟨_, ?_, rfl⟩
    rw [not_or, not_le, not_lt] at hqty
    refine ⟨rfl, rfl, rfl, rfl, rfl, rfl, hqty, rfl, rfl, fun ht => ?_, fun ht => ?_, ?_, ?_⟩
    · have ht : msg.ordType = '2' := ht
      cases hp : msg.price with
      | none => exact absurd ⟨ht, hp⟩ hmissing
      | some p =>
        rw [hp, Option.getD_some] at hprice
        have hpos : 0 < p := not_le.mp fun hle => hprice ⟨ht, hle⟩
        simp [NewOrderSingle.limitPrice, hp, ht, hpos]
    · have ht : msg.ordType ≠ '2' := ht
      simp [NewOrderSingle.limitPrice, ht]
    · simpa [MatchingEngine.isValidSymbol] using hsymbol
    · exact not_not.mp hrisk

lemma onOrderCancelRequest_cases (s : System) (msg : OrderCancelRequest) (session : SessionID) :
    s.gateway.onOrderCancelRequest msg session = (s.gateway, .idle) ∨
      ∃ req, s.ForwardsCancel msg session req ∧
        s.gateway.onOrderCancelRequest msg session = (s.gateway, .cancel req) := by
  simp only [FixGateway.onOrderCancelRequest]
  split
  · exact Or.inl rfl
  · rename_i id hid
    exact Or.inr ⟨_, ⟨hid, rfl, rfl⟩, rfl⟩

lemma onOrderCancelReplaceRequest_cases (s : System) (msg : OrderCancelReplaceRequest)
    (session : SessionID) :
    (∃ sent, s.gateway.onOrderCancelReplaceRequest msg session
        = (bump s.gateway s.gateway.orderSeq sent, .idle)) ∨
      ∃ req, s.ForwardsReplace msg session req ∧
        s.gateway.onOrderCancelReplaceRequest msg session = (s.gateway, .replace req) := by
  simp only [FixGateway.onOrderCancelReplaceRequest]
  split
  · exact Or.inl ⟨_, rfl⟩
  · rename_i price hprice
    split
    · exact Or.inl ⟨_, rfl⟩
    · rename_i id hid
      split
      · rename_i hnone
        refine Or.inr ⟨{ FixGateway.replaceRequest msg price session with origOrderId := id },
          ⟨hid, rfl, rfl, rfl, hprice, rfl, fun o ho => ?_⟩, rfl⟩
        rw [hnone] at ho
        exact absurd ho (by simp)
      · rename_i existing hsome
        split_ifs with hsame
        · exact Or.inl ⟨_, rfl⟩
        · refine Or.inr ⟨{ FixGateway.replaceRequest msg price session with origOrderId := id },
            ⟨hid, rfl, rfl, rfl, hprice, rfl, fun o ho => ?_⟩, rfl⟩
          obtain rfl := Option.some.inj (hsome.symm.trans ho)
          rw [not_or, not_not, not_not] at hsame
          exact hsame

/-- **The first section of a handler**: the message is done with, or an order is accepted, or
a request is passed on. -/
theorem onMessage_cases (s : System) (session : SessionID) (msg : Message) :
    (∃ seq sent, s.onMessage session msg = (bump s.gateway seq sent, .idle) ∧
        s.gateway.orderSeq ≤ seq) ∨
      (∃ m o, msg = .newOrder m ∧ s.Accepts m session o ∧ s.onMessage session msg
        = (bump s.gateway (s.gateway.orderSeq + 1) s.gateway.sent, .route o session)) ∨
      (∃ m req, msg = .cancel m ∧ s.ForwardsCancel m session req ∧
        s.onMessage session msg = (s.gateway, .cancel req)) ∨
      ∃ m req, msg = .replace m ∧ s.ForwardsReplace m session req ∧
        s.onMessage session msg = (s.gateway, .replace req) := by
  cases msg with
  | newOrder m =>
    rcases onNewOrderSingle_cases s m session with ⟨sent, h⟩ | ⟨o, ho, h⟩
    · exact Or.inl ⟨_, sent, h, Nat.le_succ _⟩
    · exact Or.inr (Or.inl ⟨m, o, rfl, ho, h⟩)
  | cancel m =>
    rcases onOrderCancelRequest_cases s m session with h | ⟨req, hreq, h⟩
    · exact Or.inl ⟨s.gateway.orderSeq, s.gateway.sent, h, le_refl _⟩
    · exact Or.inr (Or.inr (Or.inl ⟨m, req, rfl, hreq, h⟩))
  | replace m =>
    rcases onOrderCancelReplaceRequest_cases s m session with ⟨sent, h⟩ | ⟨req, hreq, h⟩
    · exact Or.inl ⟨_, sent, h, le_refl _⟩
    · exact Or.inr (Or.inr (Or.inr ⟨m, req, rfl, hreq, h⟩))

/-! ## The other steps -/

lemma step_message {session : SessionID} {msg : Message}
    (h : s.step (.message msg session) = some s') :
    s.handler = .idle ∧
      s' = { s with
        gateway := (s.onMessage session msg).1
        handler := (s.onMessage session msg).2 } := by
  simp only [step] at h
  split_ifs at h with hidle
  exact ⟨hidle, (Option.some.inj h).symm⟩

lemma step_logon {session : SessionID} (h : s.step (.logon session) = some s') :
    s.handler = .idle ∧ s' = { s with gateway := s.gateway.onLogon session } := by
  simp only [step] at h
  split_ifs at h with hidle
  exact ⟨hidle, (Option.some.inj h).symm⟩

lemma push_eq_some {item : WorkItem} (h : s.push item = some s') :
    s' = { s with queue := s.queue ++ [item], handler := .idle } := by
  simp only [push] at h
  split_ifs at h
  exact (Option.some.inj h).symm

/-- The item that a handler pushes on the queue next. -/
def nextItem : Handler → Option WorkItem
  | .submit o => some (.order o)
  | .cancel req => some (.cancel req)
  | .replace req => some (.replace req)
  | _ => none

lemma item_of_nextItem {h : Handler} {item : WorkItem} (hi : nextItem h = some item) :
    h.item = some item := by
  cases h with
  | idle => exact absurd hi (by simp [nextItem])
  | route o session => exact absurd hi (by simp [nextItem])
  | activate o session => exact absurd hi (by simp [nextItem])
  | submit o => exact hi
  | cancel req => exact hi
  | replace req => exact hi

/-- **The later sections of a handler**: an order is entered in the maps, or an item is
pushed. -/
theorem handle_cases (h : s.handle = some s') :
    (∃ o session, s.handler = .route o session ∧ s' = { s with
        gateway := s.gateway.routeOrder o session
        handler := .activate o session }) ∨
      (∃ o session, s.handler = .activate o session ∧ s' = { s with
        gateway := (s.gateway.activateOrder o).ackOrder o session
        handler := .submit o }) ∨
      ∃ item, nextItem s.handler = some item ∧
        s' = { s with queue := s.queue ++ [item], handler := .idle } := by
  unfold handle at h
  split at h
  · exact absurd h (by simp)
  · rename_i o session hh
    exact Or.inl ⟨o, session, hh, (Option.some.inj h).symm⟩
  · rename_i o session hh
    exact Or.inr (Or.inl ⟨o, session, hh, (Option.some.inj h).symm⟩)
  · rename_i o hh
    exact Or.inr (Or.inr ⟨_, by rw [hh]; rfl, push_eq_some h⟩)
  · rename_i req hh
    exact Or.inr (Or.inr ⟨_, by rw [hh]; rfl, push_eq_some h⟩)
  · rename_i req hh
    exact Or.inr (Or.inr ⟨_, by rw [hh]; rfl, push_eq_some h⟩)

/-- **The engine thread** runs a task, or processes an item. -/
theorem engineStep_cases (h : s.engineStep = some s') :
    (∃ task tasks, s.tasks = task :: tasks ∧ s' = { s with
        gateway := (s.gateway.runTask task).1
        tasks := (s.gateway.runTask task).2 ++ tasks }) ∨
      (s.tasks = [] ∧ ∃ item queue book, s.queue = item :: queue ∧
        s.engine.books.lookup item.symbol = some book ∧ s' = { s with
          engine :=
            { s.engine with
              books := s.engine.books.insert item.symbol (processIn book item).1 }
          queue := queue
          tasks := (processIn book item).2.flatMap Callback.tasks }) := by
  unfold engineStep at h
  split at h
  · rename_i task tasks ht
    exact Or.inl ⟨task, tasks, ht, (Option.some.inj h).symm⟩
  · rename_i ht
    split at h
    · exact absurd h (by simp)
    · rename_i item queue hq
      obtain ⟨⟨e', cbs⟩, hprocess, hs'⟩ := Option.map_eq_some_iff.mp h
      obtain ⟨book, hbook, rfl, rfl⟩ := MatchingEngine.process_eq_some.mp hprocess
      exact Or.inr ⟨ht, item, queue, book, hq, hbook, hs'.symm⟩

lemma step_persist (h : s.step .persist = some s') :
    ∃ p p', s.gateway.persistence = some p ∧ p.applyNext = some p' ∧
      s' = { s with gateway := { s.gateway with persistence := some p' } } := by
  simp only [step] at h
  obtain ⟨p', hp', hs'⟩ := Option.map_eq_some_iff.mp h
  obtain ⟨p, hp, happly⟩ := Option.bind_eq_some_iff.mp hp'
  exact ⟨p, p', hp, happly, hs'.symm⟩

lemma step_registerSymbol {symbol : String} (h : s.step (.registerSymbol symbol) = some s') :
    ∃ engine, s.engine.registerSymbol symbol = some engine ∧
      s' = { s with engine := engine, gateway := s.gateway.persist (.symbol symbol) } := by
  simp only [step] at h
  obtain ⟨engine, hengine, hs'⟩ := Option.map_eq_some_iff.mp h
  exact ⟨engine, hengine, hs'.symm⟩

end System

/-- Registering a symbol adds an empty book, when there is none, and keeps all others. -/
lemma MatchingEngine.registerSymbol_books {e e' : MatchingEngine} {symbol : String}
    (h : e.registerSymbol symbol = some e') :
    (∀ sym, e'.books.lookup sym = e.books.lookup sym ∨
        (sym = symbol ∧ e.books.lookup sym = none ∧
          e'.books.lookup sym = some (OrderBook.init symbol))) ∧
      e'.validSymbols = insert symbol e.validSymbols ∧
      ∀ sym, sym ∈ e.books ∨ sym = symbol → sym ∈ e'.books := by
  simp only [registerSymbol] at h
  split_ifs at h with h1 h2 h3 h4
  · obtain rfl := Option.some.inj h
    refine ⟨fun sym => Or.inl rfl, rfl, ?_⟩
    rintro sym (hsym | rfl)
    · exact hsym
    · exact h4
  · obtain rfl := Option.some.inj h
    refine ⟨fun sym => ?_, rfl, ?_⟩
    · by_cases hsym : sym = symbol
      · subst hsym
        exact Or.inr ⟨rfl, AList.lookup_eq_none.mpr h4, AList.lookup_insert _⟩
      · exact Or.inl (AList.lookup_insert_ne hsym)
    · rintro sym (hsym | rfl)
      · exact (AList.mem_insert _).mpr (Or.inr hsym)
      · exact (AList.mem_insert _).mpr (Or.inl rfl)

end FixExchange
