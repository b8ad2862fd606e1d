/-
# The exchange comes to rest

Between two messages of its clients the exchange goes on by itself: the handler to the end of its
message, the engine thread through the queue and the callbacks, the persistence thread through the
events.  Whatever the order in which the threads take their turns, they are done after a bounded
number of sections, and none of them waits for another one for ever: a full queue makes the handler
wait, but then the engine has an item to take.  When nothing is possible any more, every item has
been processed and every event has been applied (`quiesces`).

A handler goes through at most three sections, each of which leaves the engine at most one item; a
section of the engine takes an item, or runs a task and leaves at most a smaller one; and only these
two make new events for the persistence thread.  So a measure in lexicographic order decreases.
-/
import FixExchange.Engine.RingBuffer
import FixExchange.Lib.Settling
import FixExchange.System.BookLookup
import FixExchange.System.Lives
import FixExchange.System.Owners

namespace FixExchange

/-- The sections that a handler has yet to go through. -/
def Handler.sections : Handler → ℕ
  | .idle => 0
  | .route _ _ => 3
  | .activate _ _ => 2
  | .submit _ | .cancel _ | .replace _ => 1

/-- The sections that a task stands for. -/
def Task.sections : Task → ℕ
  | .fillRouting _ => 2
  | .fillOrders _ _ | .fillDone _ _ | .onCancel _ _ | .onTIFCancel _ | .onReplace _ _ _
  | .onOrderRested _ _ => 1

/-- A section leaves fewer sections of its task. -/
lemma FixGateway.sections_runTask (g : FixGateway) (t : Task) :
    ((g.runTask t).2.map Task.sections).sum < t.sections := by
  cases t with
  | fillRouting fill =>
    simp only [runTask]
    split <;> simp [Task.sections]
  | _ => simp [runTask, Task.sections]

namespace System

variable {s s' s₀ : System} {a : Action} {as : List Action}

/-! ## The queue of the engine

The queue is a list with a bound.  The engine has a ring buffer of `kQueueSize` slots, which does
the same: a handler has to wait exactly when the buffer is full, and the engine takes the items in
the order in which they were pushed. -/

instance : NeZero queueSize := ⟨by decide⟩

/-- A handler pushes its item on the ring buffer. -/
theorem push_of_holds {q : RingBuffer WorkItem queueSize} (h : q.Holds s.queue)
    (item : WorkItem) :
    match q.push item with
    | none => s.push item = none
    | some q' => ∃ t, s.push item = some t ∧ q'.Holds t.queue := by
  have hpush := h.push item
  rw [System.push]
  cases hq : q.push item with
  | none =>
    rw [hq] at hpush
    exact if_neg (by omega)
  | some q' =>
    rw [hq] at hpush
    exact ⟨_, if_pos hpush.1, hpush.2⟩

/-- The engine pops the item that it takes. -/
theorem pop_of_holds {q : RingBuffer WorkItem queueSize} {moved : WorkItem → WorkItem}
    (h : q.Holds s.queue) (htasks : s.tasks = []) (hs : s.engineStep = some s') :
    ∃ item q', q.pop moved = some (item, q') ∧ s.queue = item :: s'.queue ∧ q'.Holds s'.queue := by
  have hpop := h.pop moved
  rw [engineStep, htasks] at hs
  cases hqueue : s.queue with
  | nil =>
    rw [hqueue] at hs
    exact absurd hs (by simp)
  | cons item queue =>
    rw [hqueue] at hs hpop
    obtain ⟨⟨engine, callbacks⟩, -, rfl⟩ := Option.map_eq_some_iff.mp hs
    cases hq : q.pop moved with
    | none =>
      rw [hq] at hpop
      exact absurd hpop (by simp)
    | some r =>
      obtain ⟨item', q'⟩ := r
      rw [hq] at hpop
      obtain ⟨rest, hrest, hholds⟩ := hpop
      obtain ⟨rfl, rfl⟩ := List.cons.inj hrest
      exact ⟨item, q', rfl, rfl, hholds⟩

/-! ## What is left to do -/

/-- A thread goes on with what it has: nothing comes in from outside. -/
def Internal (_ : System) (a : Action) : Prop := a ∈ [Action.handle, .engine, .persist]

instance (s : System) (a : Action) : Decidable (s.Internal a) :=
  inferInstanceAs (Decidable (_ ∈ _))

/-- The events that are still to be applied. -/
def eventsLeft (s : System) : ℕ :=
  (s.gateway.persistence.map fun p => p.queue.length).getD 0

/-- What the threads have left to do. -/
def workLeft (s : System) : ℕ ×ₗ ℕ ×ₗ ℕ ×ₗ ℕ :=
  toLex (s.handler.sections, toLex (s.queue.length,
    toLex ((s.tasks.map Task.sections).sum, s.eventsLeft)))

/-! ## Every section leaves less to do -/

lemma workLeft_handle (h : s.step .handle = some s') : s'.workLeft < s.workLeft := by
  refine Prod.Lex.left _ _ ?_
  rcases handle_cases h with ⟨o, session, hh, rfl⟩ | ⟨o, session, hh, rfl⟩ | ⟨item, hitem, rfl⟩
  · rw [hh]
    exact Nat.lt_succ_self 2
  · rw [hh]
    exact Nat.lt_succ_self 1
  · show 0 < s.handler.sections
    cases hh : s.handler with
    | idle =>
      rw [hh] at hitem
      exact absurd hitem (by simp [nextItem])
    | _ => simp [Handler.sections]

lemma workLeft_engine (h : s.step .engine = some s') : s'.workLeft < s.workLeft := by
  rcases engineStep_cases h with ⟨t, ts, ht, rfl⟩ | ⟨ht, item, queue, b, hq, hb, rfl⟩
  · -- the handler and the queue are as before
    refine Prod.Lex.right _ (Prod.Lex.right _ (Prod.Lex.left _ _ ?_))
    have hlt := s.gateway.sections_runTask t
    rw [ht, List.map_append, List.sum_append, List.map_cons, List.sum_cons]
    omega
  · refine Prod.Lex.right _ (Prod.Lex.left _ _ ?_)
    rw [hq]
    exact Nat.lt_succ_self _

lemma workLeft_persist (h : s.step .persist = some s') : s'.workLeft < s.workLeft := by
  obtain ⟨p, p', hp, happly, rfl⟩ := step_persist h
  obtain ⟨evt, hqueue, -⟩ := PersistenceLayer.applyNext_eq_some happly
  refine Prod.Lex.right _ (Prod.Lex.right _ (Prod.Lex.right _ ?_))
  simp [eventsLeft, hp, hqueue]

lemma Internal.namesBook (h : s.Internal a) : s.NamesBook a := by
  cases a with
  | message msg session => exact absurd h (by simp [Internal])
  | _ => trivial

/-- **Every section of a thread leaves less to do.** -/
theorem decreases_workLeft :
    Transition.Decreases step Internal HaveBooks (· < ·) workLeft := by
  intro s a s' hbooks hinternal hstep
  refine ⟨hbooks.step hinternal.namesBook hstep, ?_⟩
  cases a with
  | handle => exact workLeft_handle hstep
  | engine => exact workLeft_engine hstep
  | persist => exact workLeft_persist hstep
  | _ => exact absurd hinternal (by simp [Internal])

/-! ## When nothing is possible any more -/

/-- The engine stops when it has no tasks and the queue is empty. -/
lemma engineStep_eq_none (h : s.HaveBooks) (hnone : s.step .engine = none) :
    s.tasks = [] ∧ s.queue = [] := by
  cases ht : s.tasks with
  | cons t ts =>
    simp [step, engineStep, ht] at hnone
  | nil =>
    cases hq : s.queue with
    | nil => exact ⟨rfl, rfl⟩
    | cons item queue =>
      -- the item has a book, so that it is processed
      have hmem := h.coming item (mem_coming_of_queue (by rw [hq]; exact List.mem_cons_self))
      obtain ⟨book, hbook⟩ := Option.isSome_iff_exists.mp (AList.lookup_isSome.mpr hmem)
      simp [step, engineStep, ht, hq, MatchingEngine.process, hbook] at hnone

/-- A handler waits only for room in the queue. -/
lemma handle_eq_none (hqueue : s.queue = []) (hnone : s.step .handle = none) :
    s.handler = .idle := by
  have hroom : ∀ item, s.push item ≠ none := by
    intro item
    rw [push, hqueue, if_pos (by decide)]
    simp
  cases hh : s.handler with
  | idle => rfl
  | _ => simp [step, handle, hh, hroom] at hnone

lemma persist_eq_none (hnone : s.step .persist = none) : s.Flushed := by
  intro p hp
  cases hq : p.queue with
  | nil => rfl
  | cons evt queue =>
    simp [step, Option.mem_def.mp hp, PersistenceLayer.applyNext, hq] at hnone

/-- **Nothing is possible any more** when the queue is empty, no thread is in a section, and every
event has been applied, and only then. -/
theorem settled_iff (h : s.HaveBooks) :
    Transition.Settled step Internal s ↔ s.Drained ∧ s.Flushed := by
  constructor
  · intro hsettled
    obtain ⟨htasks, hqueue⟩ := engineStep_eq_none h (hsettled .engine (by simp [Internal]))
    exact ⟨⟨hqueue, htasks, handle_eq_none hqueue (hsettled .handle (by simp [Internal]))⟩,
      persist_eq_none (hsettled .persist (by simp [Internal]))⟩
  · rintro ⟨⟨hqueue, htasks, hhandler⟩, hflushed⟩ a ha
    cases a with
    | handle => simp [System.step, handle, hhandler]
    | engine => simp [System.step, engineStep, htasks, hqueue]
    | persist =>
      cases hp : s.gateway.persistence with
      | none => simp [System.step, hp]
      | some p => simp [System.step, hp, PersistenceLayer.applyNext, hflushed p hp]
    | _ => exact absurd ha (by simp [Internal])

/-- In a run whose requests name symbols that have a book, everything on its way to the engine has
one. -/
lemma haveBooks_of_run {cfg : Config} {db : Database} (hstart : StartsOn cfg db s₀)
    (h : Transition.Reaches step NamesBook s₀ as s) : s.HaveBooks := by
  refine h.invariant ?_ fun _ _ _ _ _ hs hok hstep => hs.step hok hstep
  cases hstart with
  | fresh =>
    refine ⟨(sound_start cfg).symbols, ?_, ?_⟩
    · simp [start, Incoming, Handler.pending]
    · simp [start, System.coming, nextItem]
  | recovered =>
    refine ⟨symbols_recover cfg db, ?_, ?_⟩
    · simp [recover, Incoming, Handler.pending]
    · simp [recover, System.coming, nextItem]

/-- **The exchange comes to rest.**  From every state of a run whose requests name symbols that
have a book, after a start on any database, the threads go on for a bounded number of sections,
whatever the order of their turns; they can go on until nothing is possible any more; and as long
as an item is to be processed, a section to be run or an event to be applied, one of them can. -/
theorem quiesces {cfg : Config} {db : Database} (hstart : StartsOn cfg db s₀)
    (h : Transition.Reaches step NamesBook s₀ as s) :
    (∃ n, ∀ bs t, Transition.Reaches step Internal s bs t → bs.length ≤ n) ∧
      (∃ bs t, Transition.Reaches step Internal s bs t ∧ t.Drained ∧ t.Flushed) ∧
      ∀ bs t, Transition.Reaches step Internal s bs t →
        (Transition.Settled step Internal t ↔ t.Drained ∧ t.Flushed) := by
  have hbooks := haveBooks_of_run hstart h
  have hall : ∀ bs t, Transition.Reaches step Internal s bs t → t.HaveBooks := fun bs t hrun =>
    hrun.invariant hbooks fun _ _ _ _ _ ht hinternal hstep => ht.step hinternal.namesBook hstep
  refine ⟨decreases_workLeft.exists_bound wellFounded_lt [.handle, .engine, .persist]
    (fun _ _ hinternal => hinternal) hbooks, ?_, fun bs t hrun => settled_iff (hall bs t hrun)⟩
  obtain ⟨bs, t, hrun, hsettled⟩ := decreases_workLeft.exists_settled wellFounded_lt hbooks
  exact ⟨bs, t, hrun, (settled_iff (hall bs t hrun)).mp hsettled⟩

/-- Two orders that trade, with the engine and the persistence thread behind. -/
def busyRun : List Action :=
  Sample.submit (Sample.limit "a" '2' 5 10) Sample.alice
    ++ Sample.submit (Sample.limit "b" '1' 5 10) Sample.bob ++ Sample.engine 4

theorem quiesces_sample :
    ∃ s, RunTo Sample.config NamesBook busyRun s ∧ ¬ s.Drained ∧
      ∃ bs t, Transition.Reaches step Internal s bs t ∧ t.Drained ∧ t.Flushed := by
  have hreach : ∃ s, RunTo Sample.config NamesBook busyRun s ∧ ¬ s.Drained :=
    Transition.exists_reaches (by decide +kernel) (by decide +kernel)
  obtain ⟨s, hrun, hbusy⟩ := hreach
  exact ⟨s, hrun, hbusy, (quiesces .fresh hrun).2.1⟩

end System

end FixExchange
