/-
# The threads of the persistence layer

`PersistenceLayer::run`, `flush`, `push` and the destructor, taken apart into the sections that
the mutex protects and, outside of them, the statements that `flush` executes.  Any thread may
push at any time; the persistence thread wakes up when it is notified or after its timeout, takes
all that is queued as one batch, and writes the batch in one transaction.  What is in the
database is what has been committed.
-/
import FixExchange.Persistence.PersistenceLayer
import FixExchange.Lib.Transition

namespace FixExchange

namespace PersistenceLayer

/-- Where the persistence thread is. -/
inductive Writer
  /-- It waits for the condition variable. -/
  | waiting
  /-- It has taken a batch. -/
  | flush (batch : List PersistenceEvent)
  /-- It has begun a transaction, which has the tables at `tx`; `rest` is left of the batch. -/
  | applying (batch rest : List PersistenceEvent) (tx : Database)
  /-- It has left its loop. -/
  | stopped

/-- The batch that has been taken and not yet committed. -/
def Writer.inHand : Writer → List (List PersistenceEvent)
  | .flush batch => [batch]
  | .applying batch _ _ => [batch]
  | _ => []

/-- The transaction has applied the first events of the batch to the database. -/
def Writer.Sound (db : Database) : Writer → Prop
  | .applying batch rest tx =>
    ∃ done, batch = done ++ rest ∧ tx = done.foldl Database.applyEvent db
  | _ => True

/-- Where the thread that destroys the layer is. -/
inductive Destructor
  | notCalled
  /-- It has not yet taken the mutex. -/
  | called
  /-- It has set `stop_` and waits for the persistence thread to end. -/
  | joining
  | joined

/-- The layer, and where its threads are. -/
structure Shared where
  queue : List PersistenceEvent
  stop : Bool
  db : Database
  writer : Writer
  destructor : Destructor

/-- A step of one of the threads. -/
inductive Section
  /-- `push`. -/
  | push (evt : PersistenceEvent)
  /-- The persistence thread wakes up: after the timeout, or because it has been notified. -/
  | wake (timeout : Bool)
  /-- The persistence thread executes the next statement of `flush`. -/
  | flush
  /-- The destructor is called. -/
  | destroy
  /-- The destructor sets `stop_`. -/
  | stop
  /-- The destructor's `join` returns. -/
  | join
deriving DecidableEq

namespace Shared

/-- The layer as it is constructed on a database. -/
def start (db : Database) : Shared where
  queue := []
  stop := false
  db := db
  writer := .waiting
  destructor := .notCalled

/-- The section of `run`: take all events, and leave the loop when there are none and `stop_` is
set.  A notification wakes the thread up only when there is something to do. -/
def wake (s : Shared) (timeout : Bool) : Option Shared :=
  match s.writer with
  | .waiting =>
    if timeout ∨ s.stop ∨ !s.queue.isEmpty then
      some { s with
        queue := []
        writer :=
          if s.queue.isEmpty then if s.stop then .stopped else .waiting else .flush s.queue }
    else none
  | _ => none

/-- `flush`: begin a transaction, apply the events of the batch, commit. -/
def flushStep (s : Shared) : Option Shared :=
  match s.writer with
  | .flush batch => some { s with writer := .applying batch batch s.db }
  | .applying batch (evt :: rest) tx =>
    some { s with writer := .applying batch rest (tx.applyEvent evt) }
  | .applying _ [] tx => some { s with db := tx, writer := .waiting }
  | _ => none

/-- One step. -/
def step (s : Shared) : Section → Option Shared
  | .push evt => some { s with queue := s.queue ++ [evt] }
  | .wake timeout => s.wake timeout
  | .flush => s.flushStep
  | .destroy =>
    match s.destructor with
    | .notCalled => some { s with destructor := .called }
    | _ => none
  | .stop =>
    match s.destructor with
    | .called => some { s with stop := true, destructor := .joining }
    | _ => none
  | .join =>
    match s.destructor, s.writer with
    | .joining, .stopped => some { s with destructor := .joined }
    | _, _ => none

/-- `RunTo db as s`: the steps `as` of the threads lead from a layer on the database `db` to
`s`. -/
abbrev RunTo (db : Database) (as : List Section) (s : Shared) : Prop :=
  Transition.Reaches step (fun _ _ => True) (start db) as s

/-! ## What is pushed, taken and committed -/

/-- The events that are pushed, in the order in which the mutex is taken. -/
def pushed (as : List Section) : List PersistenceEvent :=
  as.filterMap fun
    | .push evt => some evt
    | _ => none

@[simp] lemma pushed_append (as bs : List Section) : pushed (as ++ bs) = pushed as ++ pushed bs :=
  List.filterMap_append

/-- The batch that a step takes. -/
def takes (s : Shared) : Section → List (List PersistenceEvent)
  | .wake _ =>
    match s.writer with
    | .waiting => if s.queue.isEmpty then [] else [s.queue]
    | _ => []
  | _ => []

/-- The batch that a step commits. -/
def commits (s : Shared) : Section → List (List PersistenceEvent)
  | .flush =>
    match s.writer with
    | .applying batch [] _ => [batch]
    | _ => []
  | _ => []

/-- The batches that have been taken. -/
abbrev taken (db : Database) (as : List Section) : List (List PersistenceEvent) :=
  Transition.collect step takes (start db) as

/-- The batches that have been committed. -/
abbrev committed (db : Database) (as : List Section) : List (List PersistenceEvent) :=
  Transition.collect step commits (start db) as

/-! ## What a step does -/

variable {db : Database} {as : List Section} {s t : Shared}

lemma wake_cases {timeout : Bool} (h : s.wake timeout = some t) :
    s.writer = .waiting ∧
      ((s.queue = [] ∧ s.stop = false ∧ t = s) ∨
        (s.queue = [] ∧ s.stop = true ∧ t = { s with writer := .stopped }) ∨
        (s.takes (.wake timeout) = [s.queue] ∧
          t = { s with queue := [], writer := .flush s.queue })) := by
  obtain ⟨queue, stop, sdb, writer, destructor⟩ := s
  cases writer with
  | waiting =>
    obtain ⟨-, hs⟩ := Option.ite_none_right_eq_some.mp h
    obtain rfl := Option.some.inj hs
    refine ⟨rfl, ?_⟩
    cases queue with
    | nil =>
      cases stop with
      | false => exact .inl ⟨rfl, rfl, rfl⟩
      | true => exact .inr (.inl ⟨rfl, rfl, rfl⟩)
    | cons evt evts => exact .inr (.inr ⟨rfl, rfl⟩)
  | _ => simp [wake] at h

lemma flushStep_cases (h : s.flushStep = some t) :
    (∃ batch, s.writer = .flush batch ∧ t = { s with writer := .applying batch batch s.db }) ∨
    (∃ batch evt rest tx, s.writer = .applying batch (evt :: rest) tx ∧
      t = { s with writer := .applying batch rest (tx.applyEvent evt) }) ∨
    ∃ batch tx, s.writer = .applying batch [] tx ∧ t = { s with db := tx, writer := .waiting } := by
  rcases hw : s.writer with _ | batch | ⟨batch, _ | ⟨evt, rest⟩, tx⟩ | _ <;>
    simp only [flushStep, hw, reduceCtorEq, Option.some_inj] at h
  · exact .inl ⟨batch, rfl, h.symm⟩
  · exact .inr (.inr ⟨batch, tx, rfl, h.symm⟩)
  · exact .inr (.inl ⟨batch, evt, rest, tx, rfl, h.symm⟩)

/-- A step that is not the persistence thread's pushes an event, or changes nothing but the flag
and where the destructor is. -/
lemma step_cases {a : Section} (h : s.step a = some t) :
    (∃ timeout, a = .wake timeout ∧ s.wake timeout = some t) ∨
    (a = .flush ∧ s.flushStep = some t) ∨
    (t = { s with queue := s.queue ++ pushed [a], stop := t.stop, destructor := t.destructor } ∧
      s.takes a = [] ∧ s.commits a = []) := by
  cases a with
  | wake timeout => exact .inl ⟨timeout, rfl, h⟩
  | flush => exact .inr (.inl ⟨rfl, h⟩)
  | push evt =>
    obtain rfl := Option.some.inj h
    exact .inr (.inr ⟨rfl, rfl, rfl⟩)
  | destroy =>
    cases hd : s.destructor <;> simp only [step, hd, reduceCtorEq, Option.some_inj] at h
    subst h
    exact .inr (.inr ⟨by simp [pushed], rfl, rfl⟩)
  | stop =>
    cases hd : s.destructor <;> simp only [step, hd, reduceCtorEq, Option.some_inj] at h
    subst h
    exact .inr (.inr ⟨by simp [pushed], rfl, rfl⟩)
  | join =>
    cases hd : s.destructor <;> cases hw : s.writer <;>
      simp only [step, hd, hw, reduceCtorEq, Option.some_inj] at h
    subst h
    exact .inr (.inr ⟨by simp [pushed], rfl, rfl⟩)

/-! ## Where the events are -/

/-- What the database is after a list of batches. -/
def written (db : Database) (batches : List (List PersistenceEvent)) : Database :=
  batches.flatten.foldl Database.applyEvent db

lemma written_concat (db : Database) (batches : List (List PersistenceEvent))
    (batch : List PersistenceEvent) :
    written db (batches ++ [batch]) = batch.foldl Database.applyEvent (written db batches) := by
  rw [written, List.flatten_append, List.foldl_append, List.flatten_singleton]
  rfl

/-- Every event that has been pushed is in a batch that has been taken or in the queue, in order;
every batch that has been taken is committed or in hand. -/
structure Accounted (db : Database) (ps : List PersistenceEvent)
    (taken committed : List (List PersistenceEvent)) (s : Shared) : Prop where
  pushed : ps = taken.flatten ++ s.queue
  taken : taken = committed ++ s.writer.inHand
  db : s.db = written db committed
  sound : s.writer.Sound s.db

/-- Every step keeps account of the events. -/
lemma Accounted.step {a : Section} {ps : List PersistenceEvent}
    {tk cm : List (List PersistenceEvent)} (h : s.Accounted db ps tk cm)
    (hs : s.step a = some t) :
    t.Accounted db (ps ++ Shared.pushed [a]) (tk ++ s.takes a) (cm ++ s.commits a) := by
  rcases step_cases hs with ⟨timeout, rfl, hwake⟩ | ⟨rfl, hflush⟩ | ⟨ht, htakes, hcommits⟩
  · have hpushed : Shared.pushed [.wake timeout] = [] := rfl
    have hcommits : s.commits (.wake timeout) = [] := rfl
    rw [hpushed, hcommits, List.append_nil, List.append_nil]
    obtain ⟨hw, ⟨hq, -, rfl⟩ | ⟨hq, -, rfl⟩ | ⟨htakes, rfl⟩⟩ := wake_cases hwake
    · rw [takes, hw, hq, List.isEmpty_nil, if_pos rfl, List.append_nil]
      exact h
    · have htaken := h.taken
      rw [hw] at htaken
      rw [takes, hw, hq, List.isEmpty_nil, if_pos rfl, List.append_nil]
      exact ⟨by rw [h.pushed, hq], htaken, h.db, trivial⟩
    · rw [htakes]
      refine ⟨?_, ?_, h.db, trivial⟩
      · rw [h.pushed, List.flatten_append, List.flatten_singleton, List.append_nil]
      · rw [h.taken, hw, Writer.inHand]
        exact congrArg (· ++ _) (List.append_nil _)
  · have hpushed : Shared.pushed [.flush] = [] := rfl
    have htakes : s.takes .flush = [] := rfl
    rw [hpushed, htakes, List.append_nil, List.append_nil]
    have htaken := h.taken
    have hsound := h.sound
    rcases flushStep_cases hflush with ⟨batch, hw, rfl⟩ | ⟨batch, evt, rest, tx, hw, rfl⟩ |
      ⟨batch, tx, hw, rfl⟩ <;> rw [hw] at htaken hsound
    · rw [commits, hw, List.append_nil]
      exact ⟨h.pushed, htaken, h.db, [], rfl, rfl⟩
    · obtain ⟨done, hbatch, htx⟩ := hsound
      rw [commits, hw, List.append_nil]
      refine ⟨h.pushed, htaken, h.db, done ++ [evt], ?_, ?_⟩
      · rw [hbatch, List.append_assoc]
        rfl
      · rw [htx, List.foldl_append]
        rfl
    · -- the transaction has applied the whole batch
      obtain ⟨done, hbatch, htx⟩ := hsound
      rw [commits, hw]
      refine ⟨h.pushed, by rw [htaken]; exact (List.append_nil _).symm, ?_, trivial⟩
      show tx = _
      rw [written_concat, ← h.db, htx, hbatch, List.append_nil]
  · rw [htakes, hcommits, List.append_nil, List.append_nil, ht]
    exact ⟨by rw [h.pushed, List.append_assoc], h.taken, h.db, h.sound⟩

lemma accounted_of_run (h : RunTo db as s) :
    s.Accounted db (pushed as) (taken db as) (committed db as) := by
  induction h with
  | refl => exact ⟨rfl, rfl, rfl, trivial⟩
  | snoc h _ hstep ih =>
    rw [pushed_append, taken, committed, h.collect_snoc, h.collect_snoc]
    exact ih.step hstep

/-! ## The end of the thread -/

/-- The flag is set by the destructor, the thread ends only when it is set, and the destructor
waits for the end of the thread. -/
structure Ordered (s : Shared) : Prop where
  stop : s.stop = true → s.destructor ≠ .notCalled
  stopped : s.writer = .stopped → s.stop = true
  joined : s.destructor = .joined → s.writer = .stopped

lemma Ordered.step {a : Section} (h : s.Ordered) (hs : s.step a = some t) : t.Ordered := by
  cases a with
  | push evt =>
    obtain rfl := Option.some.inj hs
    exact ⟨h.stop, h.stopped, h.joined⟩
  | wake timeout =>
    obtain ⟨hw, ⟨-, -, rfl⟩ | ⟨-, hstop, rfl⟩ | ⟨-, rfl⟩⟩ := wake_cases hs
    · exact h
    · exact ⟨h.stop, fun _ => hstop, fun _ => rfl⟩
    · exact ⟨h.stop, fun hw' => by simp at hw', fun hd => by simpa [hw] using h.joined hd⟩
  | flush =>
    rcases flushStep_cases hs with ⟨batch, hw, rfl⟩ | ⟨batch, evt, rest, tx, hw, rfl⟩ |
      ⟨batch, tx, hw, rfl⟩ <;>
      exact ⟨h.stop, fun hw' => by simp at hw', fun hd => by simpa [hw] using h.joined hd⟩
  | destroy =>
    cases hd : s.destructor <;> simp only [Shared.step, hd, reduceCtorEq, Option.some_inj] at hs
    subst hs
    exact ⟨fun _ => by simp, h.stopped, fun hd' => by simp at hd'⟩
  | stop =>
    cases hd : s.destructor <;> simp only [Shared.step, hd, reduceCtorEq, Option.some_inj] at hs
    subst hs
    exact ⟨fun _ => by simp, fun _ => rfl, fun hd' => by simp at hd'⟩
  | join =>
    cases hd : s.destructor <;> cases hw : s.writer <;>
      simp only [Shared.step, hd, hw, reduceCtorEq, Option.some_inj] at hs
    subst hs
    exact ⟨fun _ => by simp, fun _ => h.stopped hw, fun _ => rfl⟩

lemma ordered_of_run (h : RunTo db as s) : s.Ordered :=
  h.invariant ⟨by simp [start], by simp [start], by simp [start]⟩
    fun _ _ _ _ _ hi _ hs => hi.step hs

/-- What has been pushed before the destructor is called has been committed when the thread has
ended. -/
lemma committed_of_stopped (h : RunTo db as s) (hw : s.writer = .stopped) :
    ∀ as₁ as₂, as = as₁ ++ .destroy :: as₂ → pushed as₁ <+: (committed db as).flatten := by
  induction h with
  | refl => exact absurd hw (by simp [start])
  | @snoc as u v a h _ hs ih =>
    intro as₁ as₂ has
    have hcommitted : committed db (as ++ [a]) = committed db as ++ u.commits a :=
      h.collect_snoc a
    -- the last step is the call of the destructor only when the flag is not set before it
    rcases List.eq_nil_or_concat as₂ with rfl | ⟨as₃, b, rfl⟩
    · obtain rfl : a = .destroy := List.singleton_inj.mp (List.append_inj' has rfl).2
      exfalso
      cases hd : u.destructor <;> simp only [step, hd, reduceCtorEq, Option.some_inj] at hs
      subst hs
      have hord := ordered_of_run h
      exact hord.stop (hord.stopped hw) hd
    · rw [List.concat_eq_append, ← List.cons_append, ← List.append_assoc] at has
      have has' : as = as₁ ++ .destroy :: as₃ := (List.append_inj' has rfl).1
      by_cases hu : u.writer = .stopped
      · rw [hcommitted, List.flatten_append]
        exact (ih hu as₁ as₃ has').trans (List.prefix_append _ _)
      · rcases step_cases hs with ⟨timeout, rfl, hwake⟩ | ⟨rfl, hflush⟩ | ⟨hv, -, -⟩
        · obtain ⟨hwait, ⟨-, -, rfl⟩ | ⟨hq, -, -⟩ | ⟨-, rfl⟩⟩ := wake_cases hwake
          · exact absurd hw hu
          · have hacc := accounted_of_run h
            have hall : pushed as = (committed db as).flatten := by
              have htaken := hacc.taken
              rw [hwait] at htaken
              rw [hacc.pushed, hq, List.append_nil, htaken, List.flatten_append]
              exact List.append_nil _
            rw [hcommitted, show u.commits (.wake timeout) = [] from rfl, List.append_nil, ← hall,
              has', pushed_append]
            exact List.prefix_append _ _
          · exact absurd hw (by simp)
        · rcases flushStep_cases hflush with ⟨_, -, rfl⟩ | ⟨_, _, _, _, -, rfl⟩ | ⟨_, _, -, rfl⟩ <;>
            exact absurd hw (by simp)
        · rw [hv] at hw
          exact absurd hw hu

/-- **Nothing that is pushed is lost or applied twice**: under every interleaving of the pushes,
the wake-ups of the persistence thread and the destructor, the database is what the committed
batches make of it, which are the first of the batches that the thread has taken; these are the
events in the order in which they were pushed.  When the destructor's `join` has returned, every
event that was pushed before the destructor was called is in a committed batch. -/
theorem applied_once_in_order (h : RunTo db as s) :
    s.db = written db (committed db as) ∧
    committed db as <+: taken db as ∧
    (taken db as).flatten <+: pushed as ∧
    (s.destructor = .joined → ∀ as₁ as₂, as = as₁ ++ .destroy :: as₂ →
      pushed as₁ <+: (committed db as).flatten) := by
  have hacc := accounted_of_run h
  refine ⟨hacc.db, ?_, ?_, fun hd => committed_of_stopped h ((ordered_of_run h).joined hd)⟩
  · have htaken := hacc.taken
    exact ⟨_, htaken.symm⟩
  · have hpushed := hacc.pushed
    exact ⟨_, hpushed.symm⟩

/-- The theorem where an event is pushed while a batch is being written and another after the
flag has been set. -/
theorem applied_once_in_order_sample :
    let evt (s : String) : PersistenceEvent := .symbol s
    let as₁ : List Section :=
      [.wake true, .push (evt "A"), .wake false, .flush, .push (evt "B"), .flush]
    let as₂ : List Section :=
      [.stop, .push (evt "C"), .flush, .wake false, .flush, .flush, .flush, .flush, .wake true, .join]
    pushed as₁ = [evt "A", evt "B"] ∧
      committed Database.empty (as₁ ++ .destroy :: as₂) = [[evt "A"], [evt "B", evt "C"]] ∧
      pushed as₁ <+: (committed Database.empty (as₁ ++ .destroy :: as₂)).flatten := by
  refine ⟨rfl, rfl, ?_⟩
  exact (applied_once_in_order (Transition.reaches_of_run rfl
    (Transition.allowed_of_forall (fun _ _ => trivial) _ _))).2.2.2 rfl _ _ rfl

/-! ## The queue and the database as the rest of the exchange sees them -/

/-- The events that are still to be applied, and the database. -/
def layer (s : Shared) : PersistenceLayer := ⟨s.writer.inHand.flatten ++ s.queue, s.db⟩

/-- A batch is applied event by event. -/
lemma applied_batch (batch queue : List PersistenceEvent) (db : Database) :
    Relation.ReflTransGen (fun p p' => applyNext p = some p') ⟨batch ++ queue, db⟩
      ⟨queue, batch.foldl Database.applyEvent db⟩ := by
  induction batch generalizing db with
  | nil => exact .refl
  | cons evt batch ih => exact .head rfl (ih _)

/-- **The threads implement the layer**: a push is `PersistenceLayer.push`, and every other step
applies some of the events that are next, in order. -/
theorem step_simulates {a : Section} {ps : List PersistenceEvent}
    {tk cm : List (List PersistenceEvent)} (h : s.Accounted db ps tk cm)
    (hs : s.step a = some t) :
    (∃ evt, a = .push evt ∧ t.layer = s.layer.push evt) ∨
      Relation.ReflTransGen (fun p p' => applyNext p = some p') s.layer t.layer := by
  rcases step_cases hs with ⟨timeout, rfl, hwake⟩ | ⟨rfl, hflush⟩ | ⟨ht, -, -⟩
  · obtain ⟨hw, ⟨-, -, rfl⟩ | ⟨hq, -, rfl⟩ | ⟨-, rfl⟩⟩ := wake_cases hwake <;>
      right
    · exact .refl
    · rw [layer, layer, hw]
      exact .refl
    · rw [layer, layer, hw]
      simp only [Writer.inHand, List.flatten_singleton, List.append_nil, List.flatten_nil,
        List.nil_append]
      exact .refl
  · right
    have hsound := h.sound
    rcases flushStep_cases hflush with ⟨batch, hw, rfl⟩ | ⟨batch, evt, rest, tx, hw, rfl⟩ |
      ⟨batch, tx, hw, rfl⟩ <;> rw [hw] at hsound <;> rw [layer, layer, hw]
    · exact .refl
    · exact .refl
    · obtain ⟨done, hbatch, htx⟩ := hsound
      rw [List.append_nil] at hbatch
      simp only [Writer.inHand, List.flatten_singleton, List.flatten_nil, List.nil_append, htx,
        ← hbatch]
      exact applied_batch batch s.queue s.db
  · rw [layer, layer, ht]
    cases a with
    | push evt =>
      left
      refine ⟨evt, rfl, ?_⟩
      simp [push, Shared.pushed]
    | _ =>
      right
      rw [show Shared.pushed [_] = [] from rfl, List.append_nil]

end Shared

end PersistenceLayer

end FixExchange
