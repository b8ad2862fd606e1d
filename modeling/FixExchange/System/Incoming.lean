/-
# What is to come

The orders that the gateway has accepted and the requests that it has passed on reach the
engine later, in steps of several threads.  One lemma for the orders (`incoming_step`) and one
for the items (`coming_step`) say where they come from; what holds of every order at the moment
when it is accepted then holds of every incoming order (`incoming_of_run`).
-/
import FixExchange.System.Sound

namespace FixExchange

namespace System

variable {s s' : System} {a : Action}

/-- An order that the gateway has accepted and the engine has yet to process. -/
def Incoming (s : System) (o : Order) : Prop := .order o ∈ s.queue ∨ o ∈ s.handler.pending

/-- The items that are in the queue or about to be pushed. -/
def coming (s : System) : List WorkItem := s.queue ++ (nextItem s.handler).toList

lemma mem_coming_of_queue {item : WorkItem} (h : item ∈ s.queue) : item ∈ s.coming :=
  List.mem_append_left _ h

lemma coming_of_idle (h : s.handler = .idle) : s.coming = s.queue := by
  rw [coming, h]
  exact List.append_nil _

/-- The message of a new order is accepted as the order. -/
def AcceptsAs (s : System) (a : Action) (o : Order) : Prop :=
  ∃ m session, a = .message (.newOrder m) session ∧ s.Accepts m session o ∧
    (s.onMessage session (.newOrder m)).2 = .route o session

/-- A request is passed on as the item. -/
inductive Forwards (s : System) : Action → WorkItem → Prop
  | cancel {m : OrderCancelRequest} {session : SessionID} {req : CancelRequest}
      (h : s.ForwardsCancel m session req) :
      Forwards s (.message (.cancel m) session) (.cancel req)
  | replace {m : OrderCancelReplaceRequest} {session : SessionID} {req : ReplaceRequest}
      (h : s.ForwardsReplace m session req)
      (handler : (s.onMessage session (.replace m)).2 = .replace req) :
      Forwards s (.message (.replace m) session) (.replace req)

/-- **Where the incoming orders come from.** -/
theorem incoming_step (hstep : s.step a = some s') {o : Order} (ho : s'.Incoming o) :
    s.Incoming o ∨ s.AcceptsAs a o := by
  cases a with
  | message msg session =>
    obtain ⟨-, rfl⟩ := step_message hstep
    rcases ho with ho | ho
    · exact Or.inl (Or.inl ho)
    · rcases onMessage_cases s session msg with ⟨seq, sent, heq, -⟩ | ⟨m, o', rfl, ho', heq⟩ |
          ⟨m, req, rfl, hreq, heq⟩ | ⟨m, req, rfl, hreq, heq⟩
      · simp [heq, Handler.pending] at ho
      · simp only [heq, Handler.pending, Option.mem_some_iff] at ho
        subst ho
        exact Or.inr ⟨m, session, rfl, ho', congrArg Prod.snd heq⟩
      · simp [heq, Handler.pending] at ho
      · simp [heq, Handler.pending] at ho
  | logon session =>
    obtain ⟨-, rfl⟩ := step_logon hstep
    exact Or.inl ho
  | handle =>
    refine Or.inl ?_
    rcases handle_cases hstep with ⟨o', session, hh, rfl⟩ | ⟨o', session, hh, rfl⟩ |
        ⟨item, hitem, rfl⟩
    · rw [Incoming, hh]
      exact ho
    · rw [Incoming, hh]
      exact ho
    · rcases ho with ho | ho
      · rcases List.mem_append.mp ho with ho | ho
        · exact Or.inl ho
        · rcases nextItem_cases hitem with ⟨o', hh, rfl⟩ | ⟨-, hne⟩
          · obtain rfl := WorkItem.order.inj (List.mem_singleton.mp ho)
            exact Or.inr (by rw [hh]; rfl)
          · exact absurd (List.mem_singleton.mp ho).symm (hne o)
      · exact absurd ho (by simp [Handler.pending])
  | engine =>
    refine Or.inl ?_
    rcases engineStep_cases hstep with ⟨t, ts, ht, rfl⟩ | ⟨ht, item, queue, b, hq, hb, rfl⟩
    · exact ho
    · rw [Incoming, hq]
      exact ho.imp_left (List.mem_cons_of_mem _)
  | persist =>
    obtain ⟨p, p', -, -, rfl⟩ := step_persist hstep
    exact Or.inl ho
  | registerSymbol symbol =>
    obtain ⟨e, -, rfl⟩ := step_registerSymbol hstep
    exact Or.inl ho

/-- **Where the items come from**: they were coming before, or are orders that are entered, or
requests that are passed on. -/
theorem coming_step (hstep : s.step a = some s') {item : WorkItem} (hi : item ∈ s'.coming) :
    item ∈ s.coming ∨ (∃ o, item = .order o) ∨ s.Forwards a item := by
  cases a with
  | message msg session =>
    obtain ⟨hidle, rfl⟩ := step_message hstep
    rw [coming_of_idle hidle]
    rcases List.mem_append.mp hi with hi | hi
    · exact Or.inl hi
    · rcases onMessage_cases s session msg with ⟨seq, sent, heq, -⟩ | ⟨m, o, rfl, ho, heq⟩ |
          ⟨m, req, rfl, hreq, heq⟩ | ⟨m, req, rfl, hreq, heq⟩
      · simp [heq, nextItem] at hi
      · simp [heq, nextItem] at hi
      · simp only [heq, nextItem, Option.toList_some] at hi
        rw [List.mem_singleton.mp hi]
        exact Or.inr (Or.inr (.cancel hreq))
      · simp only [heq, nextItem, Option.toList_some] at hi
        rw [List.mem_singleton.mp hi]
        exact Or.inr (Or.inr (.replace hreq (congrArg Prod.snd heq)))
  | logon session =>
    obtain ⟨-, rfl⟩ := step_logon hstep
    exact Or.inl hi
  | handle =>
    rcases handle_cases hstep with ⟨o, session, hh, rfl⟩ | ⟨o, session, hh, rfl⟩ |
        ⟨item', hitem, rfl⟩
    · refine Or.inl ?_
      simpa [coming, nextItem, hh] using hi
    · rcases List.mem_append.mp hi with hi | hi
      · exact Or.inl (List.mem_append_left _ hi)
      · exact Or.inr (Or.inl ⟨o, List.mem_singleton.mp hi⟩)
    · rw [coming_of_idle rfl] at hi
      rw [coming, hitem]
      exact Or.inl hi
  | engine =>
    refine Or.inl ?_
    rcases engineStep_cases hstep with ⟨t, ts, ht, rfl⟩ | ⟨ht, item', queue, b, hq, hb, rfl⟩
    · exact hi
    · rw [coming, hq]
      exact List.mem_cons_of_mem _ hi
  | persist =>
    obtain ⟨p, p', -, -, rfl⟩ := step_persist hstep
    exact Or.inl hi
  | registerSymbol symbol =>
    obtain ⟨e, -, rfl⟩ := step_registerSymbol hstep
    exact Or.inl hi

/-- **What holds of an order when it is accepted** holds of it as long as it is incoming. -/
theorem incoming_of_reaches {s₀ : System} {ok : System → Action → Prop} {as : List Action}
    {P : System → Order → Prop} (hinit : ∀ o, ¬ s₀.Incoming o)
    (hnew : ∀ s a s' o, ok s a → s.step a = some s' → s.AcceptsAs a o → P s' o)
    (hkeep : ∀ s a s' o, s.step a = some s' → P s o → P s' o)
    (h : Transition.Reaches step ok s₀ as s) : ∀ o, s.Incoming o → P s o := by
  refine h.invariant (I := fun s => ∀ o, s.Incoming o → P s o)
    (fun o ho => absurd ho (hinit o)) fun _ s a s' _ ih hok hstep o ho => ?_
  rcases incoming_step hstep ho with ho | ho
  · exact hkeep s a s' o hstep (ih o ho)
  · exact hnew s a s' o hok hstep ho

lemma incoming_of_run {cfg : Config} {ok : System → Action → Prop} {as : List Action}
    {P : System → Order → Prop}
    (hnew : ∀ s a s' o, ok s a → s.step a = some s' → s.AcceptsAs a o → P s' o)
    (hkeep : ∀ s a s' o, s.step a = some s' → P s o → P s' o)
    (h : RunTo cfg ok as s) : ∀ o, s.Incoming o → P s o :=
  incoming_of_reaches (by simp [Incoming, start, Handler.pending]) hnew hkeep h

/-- The new orders that are accepted have a property. -/
def Accepting (good : Order → Prop) (s : System) : Action → Prop
  | .message (.newOrder msg) session =>
    match (s.onMessage session (.newOrder msg)).2 with
    | .route o _ => good o
    | _ => True
  | _ => True

instance (good : Order → Prop) [DecidablePred good] (s : System) (a : Action) :
    Decidable (Accepting good s a) := by
  unfold Accepting
  split
  · split <;> infer_instance
  · infer_instance

lemma Accepting.of_acceptsAs {good : Order → Prop} (h : Accepting good s a) {o : Order}
    (ho : s.AcceptsAs a o) : good o := by
  obtain ⟨m, session, rfl, -, hroute⟩ := ho
  simp only [Accepting, hroute] at h
  exact h

lemma good_of_incoming {cfg : Config} {ok : System → Action → Prop} {as : List Action}
    {good : Order → Prop} (hok : ∀ s a, ok s a → Accepting good s a) (h : RunTo cfg ok as s) :
    ∀ o, s.Incoming o → good o :=
  incoming_of_run (P := fun _ => good) (fun s a _ _ hoka _ ho => (hok s a hoka).of_acceptsAs ho)
    (fun _ _ _ _ _ ho => ho) h

/-! ## The book of an order -/

lemma mem_validSymbols_step (hstep : s.step a = some s') {symbol : String}
    (h : symbol ∈ s.engine.validSymbols) : symbol ∈ s'.engine.validSymbols := by
  cases a with
  | message msg session =>
    obtain ⟨-, rfl⟩ := step_message hstep
    exact h
  | logon session =>
    obtain ⟨-, rfl⟩ := step_logon hstep
    exact h
  | handle =>
    rcases handle_cases hstep with ⟨o, session, -, rfl⟩ | ⟨o, session, -, rfl⟩ | ⟨item, -, rfl⟩ <;>
      exact h
  | engine =>
    rcases engineStep_cases hstep with ⟨t, ts, -, rfl⟩ | ⟨-, item, queue, b, -, -, rfl⟩ <;> exact h
  | persist =>
    obtain ⟨p, p', -, -, rfl⟩ := step_persist hstep
    exact h
  | registerSymbol sym =>
    obtain ⟨e, he, rfl⟩ := step_registerSymbol hstep
    rw [(MatchingEngine.registerSymbol_books he).2.1]
    exact Finset.mem_insert_of_mem h

end System

end FixExchange
