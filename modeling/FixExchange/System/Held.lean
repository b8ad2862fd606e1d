/-
# The orders that are held

The orders that the exchange holds anywhere: in the books, on their way to the engine, and
among the open orders.  A step keeps them, makes other versions of them, or brings in an order
that has just been accepted (`held_step`).
-/
import FixExchange.System.Incoming
import FixExchange.System.Resting

namespace FixExchange

namespace System

variable {s s' : System} {a : Action}

/-- The orders in the books, on their way to the engine, and in the open orders. -/
def heldOrders (s : System) : List Order :=
  restingOrders s.engine.books
    ++ (s.queue.filterMap fun | .order o => some o | _ => none)
    ++ s.handler.pending.toList
    ++ s.gateway.activeOrders.entries.map Sigma.snd

lemma mem_heldOrders {o : Order} :
    o ∈ s.heldOrders ↔
      (∃ sym b, s.engine.books.lookup sym = some b ∧ ∃ n ∈ b.nodes, n.order = o) ∨
        s.Incoming o ∨ ∃ id, s.gateway.active id = some o := by
  have hqueue : o ∈ (s.queue.filterMap fun | .order o => some o | _ => none) ↔
      .order o ∈ s.queue := by
    rw [List.mem_filterMap]
    constructor
    · rintro ⟨item, hi, ho⟩
      cases item with
      | order o' =>
        obtain rfl := Option.some.inj ho
        exact hi
      | cancel req => exact absurd ho (by simp)
      | replace req => exact absurd ho (by simp)
    · exact fun ho => ⟨.order o, ho, rfl⟩
  rw [heldOrders, List.mem_append, List.mem_append, List.mem_append, mem_restingOrders, hqueue,
    FixGateway.mem_activeOrders, Option.mem_toList, Incoming, Option.mem_def, or_assoc, or_assoc,
    or_assoc]

/-- A step keeps the orders that rest, or makes other versions of orders that were held. -/
lemma resting_step (hs : s.Founded) (hstep : s.step a = some s') {sym : String} {b : OrderBook}
    (hb : s'.engine.books.lookup sym = some b) {n : Node} (hn : n ∈ b.nodes) :
    ∃ o ∈ s.heldOrders, n.order.SameOrigin o := by
  obtain ⟨b₀, hb₀, ⟨m, hm, hleft⟩ | ⟨item, queue, -, hq, -, hnames⟩⟩ :=
    hs.mem_books_step hstep hb hn
  · exact ⟨m.order, mem_heldOrders.mpr (Or.inl ⟨_, b₀, hb₀, m, hm, rfl⟩), hleft.sameOrigin⟩
  · rcases hnames with ⟨o, rfl, ho, -⟩ | ⟨req, -, m, hm, -, ho⟩
    · refine ⟨o, mem_heldOrders.mpr (Or.inr (Or.inl (Or.inl ?_))), ?_⟩
      · rw [hq]
        exact List.mem_cons_self
      · rw [ho]
        exact o.sameOrigin_withLeaves _
    · refine ⟨m.order, mem_heldOrders.mpr (Or.inl ⟨_, b₀, hb₀, m, hm, rfl⟩), ?_⟩
      rw [ho]
      exact ⟨rfl, rfl, rfl, rfl, rfl⟩

/-- A step keeps the open orders, or makes other versions of orders that were held. -/
lemma active_step (hstep : s.step a = some s') {id : String} {o' : Order}
    (ho' : s'.gateway.active id = some o') : ∃ o ∈ s.heldOrders, o'.SameOrigin o := by
  have hold : ∀ {o}, s.gateway.active id = some o → o'.SameOrigin o →
      ∃ o ∈ s.heldOrders, o'.SameOrigin o := fun ho hsame =>
    ⟨_, mem_heldOrders.mpr (Or.inr (Or.inr ⟨id, ho⟩)), hsame⟩
  cases a with
  | message msg session =>
    obtain ⟨-, rfl⟩ := step_message hstep
    refine hold ?_ (.refl o')
    rcases onMessage_cases s session msg with ⟨seq, sent, heq, -⟩ | ⟨m, o, -, -, heq⟩ |
        ⟨m, req, -, -, heq⟩ | ⟨m, req, -, -, heq⟩ <;>
      rw [heq] at ho' <;> exact ho'
  | logon session =>
    obtain ⟨-, rfl⟩ := step_logon hstep
    exact hold ho' (.refl o')
  | handle =>
    rcases handle_cases hstep with ⟨o, session, -, rfl⟩ | ⟨o, session, hh, rfl⟩ | ⟨item, -, rfl⟩
    · exact hold ho' (.refl o')
    · rcases active_activateOrder ho' with ho' | ⟨-, rfl⟩
      · exact hold ho' (.refl o')
      · refine ⟨o', mem_heldOrders.mpr (Or.inr (Or.inl (Or.inr ?_))), .refl o'⟩
        rw [hh]
        rfl
    · exact hold ho' (.refl o')
  | engine =>
    rcases engineStep_cases hstep with ⟨t, ts, -, rfl⟩ | ⟨-, item, queue, b, -, -, rfl⟩
    · obtain ⟨o, ho, hsame⟩ := FixGateway.runTask_active_inv ho'
      exact hold ho hsame
    · exact hold ho' (.refl o')
  | persist =>
    obtain ⟨p, p', -, -, rfl⟩ := step_persist hstep
    exact hold ho' (.refl o')
  | registerSymbol symbol =>
    obtain ⟨e, -, rfl⟩ := step_registerSymbol hstep
    exact hold ho' (.refl o')

/-- **Where the held orders come from**: they are versions of orders that were held before,
or new. -/
theorem held_step (hs : s.Founded) (hstep : s.step a = some s') {o' : Order}
    (ho' : o' ∈ s'.heldOrders) :
    (∃ o ∈ s.heldOrders, o'.SameOrigin o) ∨ s.AcceptsAs a o' := by
  rcases mem_heldOrders.mp ho' with ⟨sym, b, hb, n, hn, rfl⟩ | ho' | ⟨id, ho'⟩
  · exact Or.inl (resting_step hs hstep hb hn)
  · refine (incoming_step hstep ho').imp_left fun ho => ?_
    exact ⟨o', mem_heldOrders.mpr (Or.inr (Or.inl ho)), .refl o'⟩
  · exact Or.inl (active_step hstep ho')

end System

end FixExchange
