/-
# The ids of several processes

Processes run one after the other on a database; each of them recovers from what the one
before has left.  The order counter is recovered from the orders that still rest, so that no
id is assigned twice as long as the order with the newest id rests at every stop
(`ids_never_reused`), and the next process assigns the ids of finished orders again otherwise
(`id_reused`).
-/
import FixExchange.System.Recovery

namespace FixExchange

namespace System

variable {s s' t : System} {a : Action} {as : List Action}

/-! ## The ids that a process assigns -/

/-- The exchange id that the handler of a new order assigns, with the client of the order; an
order that is refused has an id, too. -/
def assigns (s : System) : Action → List (String × String)
  | .message (.newOrder _) session => [(exchangeId (s.gateway.orderSeq + 1), session.targetCompID)]
  | _ => []

/-- The exchange ids that are assigned in a run, with the clients of the orders. -/
def assigned (s : System) : List Action → List (String × String)
  | [] => []
  | a :: as => s.assigns a ++ ((s.step a).map fun s' => s'.assigned as).getD []

/-- The first `n` exchange ids behind `m`. -/
def idsFrom (m n : ℕ) : List String := (List.range' (m + 1) n).map exchangeId

lemma idsFrom_append (m n k : ℕ) : idsFrom m n ++ idsFrom (m + n) k = idsFrom m (n + k) := by
  rw [idsFrom, idsFrom, idsFrom, ← List.map_append, Nat.add_right_comm, List.range'_append_1]

lemma mem_idsFrom {m n : ℕ} {id : String} :
    id ∈ idsFrom m n ↔ ∃ k, m < k ∧ k ≤ m + n ∧ id = exchangeId k := by
  rw [idsFrom, List.mem_map]
  constructor
  · rintro ⟨k, hk, rfl⟩
    obtain ⟨hle, hlt⟩ := List.mem_range'_1.mp hk
    exact ⟨k, by omega, by omega, rfl⟩
  · rintro ⟨k, hlt, hle, rfl⟩
    exact ⟨k, List.mem_range'_1.mpr ⟨by omega, by omega⟩, rfl⟩

lemma nodup_idsFrom (m n : ℕ) : (idsFrom m n).Nodup :=
  List.Nodup.map exchangeId_injective (List.nodup_range' ..)

/-- A step assigns the ids that the counter passes. -/
lemma assigns_step (hstep : s.step a = some s') :
    ∃ n, s'.gateway.orderSeq = s.gateway.orderSeq + n ∧
      (s.assigns a).map Prod.fst = idsFrom s.gateway.orderSeq n := by
  cases a with
  | message msg session =>
    obtain ⟨-, rfl⟩ := step_message hstep
    cases msg with
    | newOrder m =>
      refine ⟨1, ?_, by simp [assigns, idsFrom]⟩
      rcases onNewOrderSingle_cases s m session with ⟨sent, h⟩ | ⟨o, -, h⟩ <;>
        rw [onMessage, h] <;> rfl
    | cancel m =>
      refine ⟨0, ?_, rfl⟩
      rcases onOrderCancelRequest_cases s m session with h | ⟨req, -, h⟩ <;> rw [onMessage, h] <;> rfl
    | replace m =>
      refine ⟨0, ?_, rfl⟩
      rcases onOrderCancelReplaceRequest_cases s m session with ⟨sent, h⟩ | ⟨req, -, h⟩ <;>
        rw [onMessage, h] <;> rfl
  | logon session =>
    obtain ⟨-, rfl⟩ := step_logon hstep
    exact ⟨0, rfl, rfl⟩
  | handle =>
    rcases handle_cases hstep with ⟨o, session, -, rfl⟩ | ⟨o, session, -, rfl⟩ | ⟨item, -, rfl⟩ <;>
      exact ⟨0, rfl, rfl⟩
  | engine =>
    rcases engineStep_cases hstep with ⟨t, ts, -, rfl⟩ | ⟨-, item, queue, b, -, -, rfl⟩
    · exact ⟨0, FixGateway.runTask_orderSeq _ _, rfl⟩
    · exact ⟨0, rfl, rfl⟩
  | persist =>
    obtain ⟨p, p', -, -, rfl⟩ := step_persist hstep
    exact ⟨0, rfl, rfl⟩
  | registerSymbol symbol =>
    obtain ⟨e, -, rfl⟩ := step_registerSymbol hstep
    exact ⟨0, rfl, rfl⟩

/-- More actions assign what they assign after the run. -/
lemma assigned_append {ok : System → Action → Prop} (h : Transition.Reaches step ok s as t)
    (more : List Action) : s.assigned (as ++ more) = s.assigned as ++ t.assigned more := by
  induction h generalizing more with
  | refl => rfl
  | @snoc as t u a h hok hstep ih =>
    have hone : t.assigned [a] = t.assigns a := by
      rw [assigned, hstep]
      exact List.append_nil _
    rw [List.append_assoc, ih, ih, hone, List.singleton_append, assigned, hstep,
      List.append_assoc]
    rfl

lemma assigned_snoc {ok : System → Action → Prop} (h : Transition.Reaches step ok s as t)
    (hstep : t.step a = some s') : s.assigned (as ++ [a]) = s.assigned as ++ t.assigns a := by
  rw [assigned_append h, assigned, hstep]
  exact congrArg _ (List.append_nil _)

/-- **A run assigns the ids that the counter passes.** -/
lemma assigned_of_run {ok : System → Action → Prop} (h : Transition.Reaches step ok s as t) :
    ∃ n, t.gateway.orderSeq = s.gateway.orderSeq + n ∧
      (s.assigned as).map Prod.fst = idsFrom s.gateway.orderSeq n := by
  induction h with
  | refl => exact ⟨0, rfl, rfl⟩
  | @snoc as t u a h hok hstep ih =>
    obtain ⟨n, hseq, hids⟩ := ih
    obtain ⟨k, hk, hassigns⟩ := assigns_step hstep
    refine ⟨n + k, by omega, ?_⟩
    rw [assigned_snoc h hstep, List.map_append, hids, hassigns, hseq, idsFrom_append]

/-! ## Processes one after the other -/

/-- `Lives ok stop db₀ ids db`: processes that run on the database `db₀` one after the other
assign the ids `ids` and leave the database `db`.  Each process stops, or is stopped, in a state
that satisfies `stop`. -/
inductive Lives (ok : System → Action → Prop) (stop : System → Prop) (db₀ : Database) :
    List (String × String) → Database → Prop
  | none : Lives ok stop db₀ [] db₀
  | next {cfg : Config} {ids : List (String × String)} {db : Database} {as : List Action}
      {s : System} {p : PersistenceLayer} (h : Lives ok stop db₀ ids db)
      (hrun : RunFrom cfg db ok as s) (hp : s.gateway.persistence = some p) (hstop : stop s) :
      Lives ok stop db₀ (ids ++ (recover cfg db).assigned as) p.db

/-- Every event has been applied. -/
def Flushed (s : System) : Prop := ∀ p ∈ s.gateway.persistence, p.queue = []

/-- The order with the newest id rests, unless no id has been assigned. -/
def NewestRests (s : System) : Prop :=
  s.gateway.orderSeq = 0 ∨ ∀ p ∈ s.gateway.persistence,
    exchangeId s.gateway.orderSeq ∈ p.db.restingOrders.map RestingRow.exchangeId

/-- A clean stop, at which the order with the newest id rests. -/
def KeepsCounter (s : System) : Prop := s.Flushed ∧ s.NewestRests

instance (s : System) : Decidable s.Flushed := Option.decidableForallMem _

instance (s : System) : Decidable s.NewestRests := inferInstanceAs (Decidable (_ ∨ _))

instance (s : System) : Decidable s.KeepsCounter := inferInstanceAs (Decidable (_ ∧ _))

/-- The counter is recovered when the order with the newest id rests. -/
lemma NewestRests.recovered (h : s.NewestRests) {p : PersistenceLayer}
    (hp : s.gateway.persistence = some p) (cfg : Config) :
    s.gateway.orderSeq ≤ (recover cfg p.db).gateway.orderSeq := by
  rcases h with h | h
  · rw [h]
    exact Nat.zero_le _
  · obtain ⟨row, hrow, hid⟩ := List.mem_map.mp (h p hp)
    have hle := le_loadMaxOrderSeq hrow hid
    simp only [recover, FixGateway.restoreOrders]
    split_ifs with hpos
    · omega
    · omega

/-- **No exchange id is assigned twice**, in any sequence of processes in which the order with
the newest id rests at every stop. -/
theorem ids_never_reused {ok : System → Action → Prop} {ids : List (String × String)}
    {db : Database} (h : Lives ok KeepsCounter Database.empty ids db) :
    (ids.map Prod.fst).Nodup := by
  -- the next process starts behind all ids that have been assigned
  have hall : (ids.map Prod.fst).Nodup ∧
      ∀ cfg, ∀ id ∈ ids.map Prod.fst, Issued (recover cfg db).gateway.orderSeq id := by
    induction h with
    | none => exact ⟨List.nodup_nil, fun _ _ hid => absurd hid List.not_mem_nil⟩
    | @next cfg ids db as s p h hrun hp hstop ih =>
      obtain ⟨hnodup, hissued⟩ := ih
      obtain ⟨n, hseq, hnew⟩ := assigned_of_run hrun
      rw [List.map_append, hnew]
      refine ⟨List.nodup_append.mpr ⟨hnodup, nodup_idsFrom _ _, ?_⟩, fun cfg' id hid => ?_⟩
      · intro id hid id' hid' heq
        obtain ⟨k, hk, rfl⟩ := hissued cfg id hid
        obtain ⟨k', hk', -, rfl⟩ := mem_idsFrom.mp hid'
        have hkk := exchangeId_injective heq
        omega
      · refine Issued.mono ?_ (hstop.2.recovered hp cfg')
        rcases List.mem_append.mp hid with hid | hid
        · exact (hissued cfg id hid).mono (by omega)
        · obtain ⟨k, -, hk, rfl⟩ := mem_idsFrom.mp hid
          exact ⟨k, by omega, rfl⟩
  exact hall.1

/-- A process whose run has been carried out. -/
lemma Lives.run {ok : System → Action → Prop} {stop : System → Prop} [DecidablePred stop]
    {db₀ db db' : Database} {ids new : List (String × String)} (cfg : Config) (as : List Action)
    (h : Lives ok stop db₀ ids db) (hok : Transition.Allowed step ok (recover cfg db) as)
    (hrun : (Transition.run step (recover cfg db) as).any (fun s =>
      decide (s.gateway.persistence = some (PersistenceLayer.load db') ∧ stop s)) = true)
    (hids : (recover cfg db).assigned as = new) : Lives ok stop db₀ (ids ++ new) db' := by
  obtain ⟨s, hreach, hp, hstop⟩ := Transition.exists_reaches hrun hok
  rw [← hids]
  exact .next h hreach hp hstop

/-- An order rests when the process stops. -/
def restingLife (clOrdID : String) : List Action :=
  Sample.submit (Sample.limit clOrdID '1' 5 10) Sample.alice ++ Sample.engine 2 ++ [.persist]

/-- The tables after these orders have rested. -/
def restingDatabase (rows : List (String × String)) : Database where
  restingOrders := rows.map fun (id, clordId) => ⟨id, clordId, "A", "X", '1', 10, 5⟩
  events := rows.map fun (id, clordId) =>
    ⟨"rested", id, some clordId, some "A", some "X", some '1', some 10, some 5, some 5⟩
  symbols := []

theorem ids_never_reused_sample :
    Lives Any KeepsCounter Database.empty [("EXCH-1", "A"), ("EXCH-2", "A")]
        (restingDatabase [("EXCH-1", "a"), ("EXCH-2", "b")]) ∧
      ([("EXCH-1", "A"), ("EXCH-2", "A")].map Prod.fst).Nodup := by
  have hfirst : Lives Any KeepsCounter Database.empty [("EXCH-1", "A")]
      (restingDatabase [("EXCH-1", "a")]) :=
    Lives.run Sample.config (restingLife "a") .none (by decide +kernel) (by decide +kernel)
      (by decide +kernel)
  have hsecond : Lives Any KeepsCounter Database.empty [("EXCH-1", "A"), ("EXCH-2", "A")]
      (restingDatabase [("EXCH-1", "a"), ("EXCH-2", "b")]) :=
    hfirst.run Sample.config (restingLife "b") (by decide +kernel) (by decide +kernel)
      (by decide +kernel)
  exact ⟨hsecond, ids_never_reused hsecond⟩

/-- An order that is cancelled before the process stops. -/
def cancelledLife : List Action :=
  Sample.submit (Sample.limit "a" '1' 5 10) Sample.alice ++ Sample.engine 2
    ++ Sample.forward (Sample.cancel "a") Sample.alice ++ Sample.engine 2
    ++ List.replicate 2 .persist

/-- The tables after the cancel: no order rests. -/
def cancelledDatabase : Database where
  restingOrders := []
  events :=
    [⟨"rested", "EXCH-1", some "a", some "A", some "X", some '1', some 10, some 5, some 5⟩,
      ⟨"cancel", "EXCH-1", some "a", some "A", some "X", some '1', some 10, some 5, some 0⟩]
  symbols := []

/-- The next process assigns the id of a cancelled order again. -/
theorem id_reused :
    ∃ ids db, Lives Any Flushed Database.empty ids db ∧ ¬ (ids.map Prod.fst).Nodup := by
  have hfirst : Lives Any Flushed Database.empty [("EXCH-1", "A")] cancelledDatabase :=
    Lives.run Sample.config cancelledLife .none (by decide +kernel) (by decide +kernel)
      (by decide +kernel)
  have hsecond : Lives Any Flushed Database.empty [("EXCH-1", "A"), ("EXCH-1", "B")]
      cancelledDatabase :=
    hfirst.run Sample.config [.message (Sample.limit "b" '1' 5 9) Sample.bob] (by decide +kernel)
      (by decide +kernel) (by decide +kernel)
  exact ⟨_, _, hsecond, by decide⟩

end System

end FixExchange
