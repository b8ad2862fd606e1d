/-
# The messages and the events of a run

Each step adds messages to the log of the sent ones and events to the queue of the persistence
layer, and changes nothing else in them, except that the persistence thread applies the events
one after the other (`sent_step`, `persistence_step`).
-/
import FixExchange.Gateway.Reports
import FixExchange.System.Steps

namespace FixExchange

namespace System

variable {s s' : System} {a : Action}

/-- The messages that a step sends. -/
def sends (s : System) : Action → List (SessionID × ClientMessage)
  | .message msg session => (s.onMessage session msg).1.sent.drop s.gateway.sent.length
  | .logon session =>
    (s.gateway.statusReports session ++ s.gateway.historicalReports session).map fun report =>
      (session, .execReport report)
  | .handle =>
    match s.handler with
    | .activate o session => [(session, .execReport (makeExecReport o .New))]
    | _ => []
  | .engine =>
    match s.tasks with
    | [] => []
    | t :: _ => t.sends s.gateway
  | .persist => []
  | .registerSymbol _ => []

/-- A handler sends, at most, a reject to the session of the message. -/
lemma onMessage_sent (s : System) (session : SessionID) (msg : Message) :
    (s.onMessage session msg).1.sent = s.gateway.sent ++ s.sends (.message msg session) ∧
      (s.sends (.message msg session) = [] ∨
        (∃ m report, msg = .newOrder m ∧
          s.sends (.message msg session) = [(session, .execReport report)] ∧
          report.orderId = exchangeId (s.gateway.orderSeq + 1) ∧
          report.execType = ExecType.Rejected.char ∧ (s.onMessage session msg).2 = .idle) ∨
        ∃ m reject, msg = .replace m ∧
          s.sends (.message msg session) = [(session, .cancelReject reject)] ∧
          (s.onMessage session msg).2 = .idle) := by
  have hsame : (s.onMessage session msg).1.sent = s.gateway.sent →
      s.sends (.message msg session) = [] := by
    intro h
    rw [sends, h, List.drop_length]
  have hmore : ∀ {l}, (s.onMessage session msg).1.sent = s.gateway.sent ++ l →
      s.sends (.message msg session) = l := by
    intro l h
    rw [sends, h, List.drop_left]
  cases msg with
  | newOrder m =>
    rcases FixGateway.onNewOrderSingle_sent s.gateway s.engine m session with
      h | ⟨report, h, hid, htype, hidle⟩
    · exact ⟨by rw [hsame h, List.append_nil]; exact h, Or.inl (hsame h)⟩
    · exact ⟨by rw [hmore h]; exact h,
        Or.inr (Or.inl ⟨m, report, rfl, hmore h, hid, htype, hidle⟩)⟩
  | cancel m =>
    have h := FixGateway.onOrderCancelRequest_sent s.gateway m session
    exact ⟨by rw [hsame h, List.append_nil]; exact h, Or.inl (hsame h)⟩
  | replace m =>
    rcases FixGateway.onOrderCancelReplaceRequest_sent s.gateway m session with
      h | ⟨reject, h, hidle⟩
    · exact ⟨by rw [hsame h, List.append_nil]; exact h, Or.inl (hsame h)⟩
    · exact ⟨by rw [hmore h]; exact h, Or.inr (Or.inr ⟨m, reject, rfl, hmore h, hidle⟩)⟩

/-- **A step adds its messages to the sent ones.** -/
theorem sent_step (hstep : s.step a = some s') :
    s'.gateway.sent = s.gateway.sent ++ s.sends a := by
  cases a with
  | message msg session =>
    obtain ⟨-, rfl⟩ := step_message hstep
    exact (onMessage_sent s session msg).1
  | logon session =>
    obtain ⟨-, rfl⟩ := step_logon hstep
    rfl
  | handle =>
    rcases handle_cases hstep with ⟨o, session, hh, rfl⟩ | ⟨o, session, hh, rfl⟩ |
        ⟨item, hitem, rfl⟩
    · rw [sends, hh]
      exact (List.append_nil _).symm
    · rw [sends, hh]
      rfl
    · cases hh : s.handler <;> rw [hh] at hitem <;> simp [sends, hh, nextItem] at hitem ⊢
  | engine =>
    rcases engineStep_cases hstep with ⟨t, ts, ht, rfl⟩ | ⟨ht, item, queue, b, -, -, rfl⟩
    · rw [sends, ht]
      exact FixGateway.runTask_sent s.gateway t
    · rw [sends, ht]
      exact (List.append_nil _).symm
  | persist =>
    obtain ⟨p, p', -, -, rfl⟩ := step_persist hstep
    exact (List.append_nil _).symm
  | registerSymbol symbol =>
    obtain ⟨e, -, rfl⟩ := step_registerSymbol hstep
    exact (List.append_nil _).symm

/-- The events that a step pushes. -/
def pushes (s : System) : Action → List PersistenceEvent
  | .engine =>
    match s.tasks with
    | [] => []
    | t :: _ => t.pushes s.gateway
  | .registerSymbol symbol => [.symbol symbol]
  | .message _ _ | .logon _ | .handle | .persist => []

/-- **A step pushes its events**, or applies the next one. -/
theorem persistence_step (hstep : s.step a = some s') :
    (s'.gateway.persistence
        = s.gateway.persistence.map fun p => ⟨p.queue ++ s.pushes a, p.db⟩) ∨
      ∃ p p', s.gateway.persistence = some p ∧ p.applyNext = some p' ∧
        s'.gateway.persistence = some p' ∧ s.pushes a = [] := by
  have hsame : s.gateway.persistence
      = s.gateway.persistence.map fun p => (⟨p.queue ++ [], p.db⟩ : PersistenceLayer) := by
    cases s.gateway.persistence with
    | none => rfl
    | some p => simp
  cases a with
  | message msg session =>
    obtain ⟨-, rfl⟩ := step_message hstep
    refine Or.inl ?_
    rcases onMessage_cases s session msg with ⟨seq, sent, heq, -⟩ | ⟨m, o, -, -, heq⟩ |
        ⟨m, req, -, -, heq⟩ | ⟨m, req, -, -, heq⟩ <;>
      rw [heq] <;> exact hsame
  | logon session =>
    obtain ⟨-, rfl⟩ := step_logon hstep
    exact Or.inl hsame
  | handle =>
    rcases handle_cases hstep with ⟨o, session, -, rfl⟩ | ⟨o, session, -, rfl⟩ | ⟨item, -, rfl⟩ <;>
      exact Or.inl hsame
  | engine =>
    rcases engineStep_cases hstep with ⟨t, ts, ht, rfl⟩ | ⟨ht, item, queue, b, -, -, rfl⟩
    · refine Or.inl ?_
      rw [pushes, ht]
      dsimp only
      rw [FixGateway.runTask_persistence]
      simp only [FixGateway.pushEvents_eq]
    · refine Or.inl ?_
      rw [pushes, ht]
      exact hsame
  | persist =>
    obtain ⟨p, p', hp, happly, rfl⟩ := step_persist hstep
    exact Or.inr ⟨p, p', hp, happly, rfl, rfl⟩
  | registerSymbol symbol =>
    obtain ⟨e, -, rfl⟩ := step_registerSymbol hstep
    exact Or.inl rfl

end System

end FixExchange
