/-
# The gateway and the engine after a recovery

The restored orders are open in the gateway and rest in the books, but they have no session
until their clients log on, and a callback about an order without a session leaves the open
orders as they are.  In a run in which every order that is filled or cancelled has its session
the gateway and the engine go on agreeing on what is open (`restored_orders_agree`); an order
that trades before its client has logged on stays open (`traded_order_stays_open`).
-/
import FixExchange.System.OpenOrders
import FixExchange.System.Recovery

namespace FixExchange

/-- The order that a callback fills or cancels has a session when it is open. -/
def Task.Served (g : FixGateway) : Task → Prop
  | .fillRouting fill =>
    fill.exchangeId ∈ g.activeOrders → fill.exchangeId ∈ g.orderSessions
  | .onCancel req found =>
    found = true → req.origOrderId ∈ g.activeOrders → req.origOrderId ∈ g.orderSessions
  | .onTIFCancel order =>
    order.exchangeId ∈ g.activeOrders → order.exchangeId ∈ g.orderSessions
  | .onReplace req found _ =>
    found = true → req.origOrderId ∈ g.activeOrders → req.origOrderId ∈ g.orderSessions
  | .fillOrders _ _ | .fillDone _ _ | .onOrderRested _ _ => True

instance (g : FixGateway) (t : Task) : Decidable (t.Served g) :=
  match t with
  | .fillRouting _ => inferInstanceAs (Decidable (_ → _))
  | .onCancel _ _ => inferInstanceAs (Decidable (_ → _ → _))
  | .onTIFCancel _ => inferInstanceAs (Decidable (_ → _))
  | .onReplace _ _ _ => inferInstanceAs (Decidable (_ → _ → _))
  | .fillOrders _ _ | .fillDone _ _ | .onOrderRested _ _ => isTrue trivial

namespace FixGateway

variable {g : FixGateway} {t : Task}

/-- An order without a session that has to have one when it is open is not open. -/
lemma active_of_unserved {id : String} (h : id ∈ g.activeOrders → id ∈ g.orderSessions)
    (hs : g.orderSessions.lookup id = none) : g.active id = none := by
  by_contra hne
  have hmem : id ∈ g.activeOrders := AList.lookup_isSome.mp (Option.isSome_iff_ne_none.mpr hne)
  exact AList.lookup_eq_none.mp hs (h hmem)

/-- A callback about an order with a session does what it says, in one section. -/
lemma active_runTask (h : t.Served g) (ht : ∀ fill, t ≠ .fillRouting fill) :
    (g.runTask t).1.active = t.onActive g.active := by
  cases t with
  | fillRouting fill => exact absurd rfl (ht fill)
  | fillOrders fill session => exact active_setLeaves _ _ _
  | fillDone maker taker => rfl
  | onCancel req found =>
    cases found with
    | false =>
      simp only [runTask, onCancel, Task.onActive]
      split <;> rfl
    | true =>
      cases hs : g.orderSessions.lookup req.origOrderId with
      | none =>
        have hnone := active_of_unserved (h rfl) hs
        simp [runTask, onCancel, Task.onActive, hs, Ledger.drop_of_none hnone]
      | some session =>
        cases ha : g.activeOrders.lookup req.origOrderId with
        | none =>
          have hnone : g.active req.origOrderId = none := ha
          simp [runTask, onCancel, Task.onActive, ha, Ledger.drop_of_none hnone]
        | some o =>
          simp only [runTask, onCancel, hs, ha]
          exact Ledger.ofAList_erase _
  | onTIFCancel order =>
    cases hs : g.orderSessions.lookup order.exchangeId with
    | none =>
      have hnone := active_of_unserved h hs
      simp [runTask, onTIFCancel, Task.onActive, hs, Ledger.drop_of_none hnone]
    | some session =>
      simp only [runTask, onTIFCancel, hs]
      exact Ledger.ofAList_erase _
  | onReplace req found newLeavesQty =>
    cases found with
    | false =>
      simp only [runTask, onReplace, Task.onActive]
      split <;> rfl
    | true =>
      have hskip : g.active req.origOrderId = none →
          (Task.onReplace req true newLeavesQty).onActive g.active = g.active := by
        intro hnone
        simp only [Task.onActive, Ledger.drop_of_none hnone, Ledger.adjust_of_none hnone, ite_self]
      cases hs : g.orderSessions.lookup req.origOrderId with
      | none =>
        rw [hskip (active_of_unserved (h rfl) hs)]
        simp [runTask, onReplace, hs]
      | some session =>
        cases ha : g.activeOrders.lookup req.origOrderId with
        | none =>
          rw [hskip ha]
          simp [runTask, onReplace, ha]
        | some o =>
          have hsome : g.active req.origOrderId = some o := ha
          simp only [runTask, onReplace, hs, ha, Task.onActive, if_true]
          by_cases h0 : newLeavesQty = 0
          · simp only [if_pos h0]
            exact Ledger.ofAList_erase _
          · simp only [if_neg h0]
            rw [Ledger.adjust_of_some hsome]
            exact Ledger.ofAList_insert _
  | onOrderRested order leavesQty => rfl

/-- A callback about an order with a session does what it says, with the sections that are
left of it. -/
lemma settle_runTask (h : t.Served g) (ts : List Task) :
    settle ((g.runTask t).2 ++ ts) (g.runTask t).1.active = settle (t :: ts) g.active := by
  by_cases hroute : ∃ fill, t = .fillRouting fill
  · obtain ⟨fill, rfl⟩ := hroute
    cases hs : g.orderSessions.lookup fill.exchangeId with
    | none =>
      have hnone := active_of_unserved h hs
      simp [runTask, fillRouting, hs, Task.onActive, OrderLedger.setOpen_of_none hnone]
    | some session =>
      by_cases h0 : fill.leavesQty = 0 <;> simp [runTask, fillRouting, hs, h0] <;> rfl
  · rw [not_exists] at hroute
    have hrest : (g.runTask t).2 = [] := by
      cases t with
      | fillRouting fill => exact absurd rfl (hroute fill)
      | fillOrders | fillDone | onCancel | onTIFCancel | onReplace | onOrderRested => rfl
    rw [hrest, List.nil_append, active_runTask h hroute, settle_cons]

end FixGateway

/-- A step of a run of limit orders, cancels and logons. -/
def Action.LimitOrCancel : Action → Prop
  | .message (.newOrder msg) _ => msg.ordType = '2'
  | .message (.replace _) _ => False
  | _ => True

instance (a : Action) : Decidable a.LimitOrCancel :=
  match a with
  | .message (.newOrder msg) _ => inferInstanceAs (Decidable (msg.ordType = '2'))
  | .message (.replace _) _ => isFalse id
  | .message (.cancel _) _ | .logon _ | .handle | .engine | .persist | .registerSymbol _ =>
    isTrue trivial

namespace System

variable {s s' : System} {a : Action}

/-- The engine thread calls back about orders that have a session. -/
def Served (s : System) : Action → Prop
  | .engine => ∀ t ∈ s.tasks.head?, t.Served s.gateway
  | _ => True

instance (s : System) (a : Action) : Decidable (s.Served a) :=
  match a with
  | .engine => Option.decidableForallMem _
  | .message _ _ | .logon _ | .handle | .persist | .registerSymbol _ => isTrue trivial

lemma Served.taskSettles (h : s.Served a) : s.TaskSettles a := by
  cases a with
  | engine =>
    intro t ts ht
    exact FixGateway.settle_runTask (h t (by rw [ht]; rfl)) ts
  | message | logon | handle | persist | registerSymbol => trivial

/-! ## The restored orders -/

/-- The rows of a database are resting limit orders that are restored into a book. -/
structure Restores (cfg : Config) (db : Database) : Prop where
  sound : db.Sound
  positive : ∀ row ∈ db.restingOrders, 0 < row.leavesQty
  books : ∀ row ∈ db.restingOrders, row.symbol ∈ (recover cfg db).engine.books

/-- A key that is emplaced with others, no two of them the same, gets its own value. -/
lemma lookup_foldl_emplace_of_mem {α β : Type} {f : β → String} {g : β → α} {l : List β}
    {m : StrMap α} (hnodup : (l.map f).Nodup) (hm : ∀ x ∈ l, m.lookup (f x) = none) {x : β}
    (hx : x ∈ l) :
    (l.foldl (fun m x => StrMap.emplace m (f x) (g x)) m).lookup (f x) = some (g x) := by
  induction l generalizing m with
  | nil => exact absurd hx List.not_mem_nil
  | cons y l ih =>
    obtain ⟨hne, hnodup⟩ := List.nodup_cons.mp hnodup
    have hy : StrMap.emplace m (f y) (g y) = m.insert (f y) (g y) :=
      if_neg fun hmem => AList.lookup_eq_none.mp (hm y List.mem_cons_self) hmem
    have hother : ∀ z ∈ l, f z ≠ f y := fun z hz heq => hne (List.mem_map.mpr ⟨z, hz, heq⟩)
    rw [List.foldl_cons, hy]
    rcases List.mem_cons.mp hx with rfl | hx
    · -- the entry is kept by the keys behind it
      have hkeep : ∀ (l : List β) (m : StrMap α), m.lookup (f x) = some (g x) →
          (l.foldl (fun m x => StrMap.emplace m (f x) (g x)) m).lookup (f x) = some (g x) := by
        intro l
        induction l with
        | nil => exact fun _ h => h
        | cons z l ih => exact fun m h => ih _ (StrMap.lookup_emplace_of_some h)
      exact hkeep l _ (AList.lookup_insert _)
    · refine ih hnodup (fun z hz => ?_) hx
      rw [AList.lookup_insert_ne (hother z hz)]
      exact hm z (List.mem_cons_of_mem _ hz)

variable {cfg : Config} {db : Database}

/-- The orders of the rows are open after a recovery. -/
lemma active_recover_of_mem (h : db.Sound) {row : RestingRow} (hrow : row ∈ db.restingOrders) :
    (recover cfg db).gateway.active row.exchangeId
      = some (PersistenceLayer.restoredOrder row) := by
  refine lookup_foldl_emplace_of_mem (f := Order.exchangeId) (g := fun o => o)
    (x := PersistenceLayer.restoredOrder row) ?_ (by simp [FixGateway.init])
    (List.mem_map_of_mem hrow)
  rw [PersistenceLayer.loadRestingOrders, List.map_map]
  exact h.nodup

/-- The recovered books hold the orders of the rows. -/
lemma resting_recover (h : db.Sound) {id : String} {o : Order}
    (ho : restingLedger (recover cfg db).engine.books id = some o) :
    ∃ row ∈ db.restingOrders, row.exchangeId = id ∧ PersistenceLayer.restoredOrder row = o := by
  obtain ⟨sym, b, hb, n, hn, rfl, hid⟩ := (founded_recover cfg h).books.resting_eq_some.mp ho
  obtain ⟨row, hrow, -, heq⟩ := (mem_books_recover hb).mp ⟨n, hn, rfl⟩
  refine ⟨row, hrow, ?_, heq⟩
  rw [← hid, ← heq]
  rfl

lemma synced_recover (h : Restores cfg db) : (recover cfg db).Synced := by
  refine ⟨fun sym b hb n hn => ?_, fun id o ho => ?_, by simp [coming, recover, nextItem],
    by simp [coming, recover, nextItem]⟩
  · obtain ⟨row, hrow, -, heq⟩ := (mem_books_recover hb).mp ⟨n, hn, rfl⟩
    rw [← heq]
    exact ⟨h.positive row hrow, le_refl _⟩
  · obtain ⟨row, hrow, rfl, rfl⟩ := resting_recover h.sound ho
    exact ⟨_, active_recover_of_mem h.sound hrow, rfl⟩

lemma accounted_recover (h : Restores cfg db) : (recover cfg db).Accounted := by
  intro id hid
  obtain ⟨o, ho⟩ := Option.ne_none_iff_exists'.mp hid
  obtain ⟨row, hrow, rfl, rfl⟩ := active_recover ho
  obtain ⟨b, hb⟩ := Option.isSome_iff_exists.mp (AList.lookup_isSome.mpr (h.books row hrow))
  obtain ⟨n, hn, hno⟩ := (mem_books_recover hb).mpr ⟨row, hrow, rfl, rfl⟩
  refine Or.inl ((founded_recover cfg h.sound).resting_iff.mpr ⟨_, b, hb, n, hn, ?_⟩)
  rw [hno]
  rfl

/-! ## Runs after a recovery -/

/-- A step of a run of limit orders, cancels and logons; the accepted orders have a positive
quantity, and the engine thread calls back about orders that have a session. -/
structure ServedLimits (s : System) (a : Action) : Prop where
  kind : a.LimitOrCancel
  positive : Accepting (fun o => 0 < o.qty) s a
  served : s.Served a

instance (s : System) (a : Action) : Decidable (s.ServedLimits a) :=
  decidable_of_iff (a.LimitOrCancel ∧ Accepting (fun o => 0 < o.qty) s a ∧ s.Served a)
    ⟨fun ⟨hk, hp, hs⟩ => ⟨hk, hp, hs⟩, fun ⟨hk, hp, hs⟩ => ⟨hk, hp, hs⟩⟩

lemma ServedLimits.forwardsPositive (h : s.ServedLimits a) : s.ForwardsPositive a := by
  intro req hforward
  cases hforward with
  | replace hreq handler => exact absurd h.kind id

/-- **The gateway and the engine agree on what is open after a recovery**, in every run of
limit orders, cancels and logons in which the engine calls back about orders that have a
session. -/
theorem restored_orders_agree {as : List Action} (hdb : Restores cfg db)
    (h : RunFrom cfg db ServedLimits as s) (hd : s.Drained) : s.OpenAgree := by
  have hlimit : ∀ {t : System} {as}, RunFrom cfg db ServedLimits as t →
      ∀ o, t.Incoming o → o.type = '2' ∧ 0 < o.qty := by
    intro t as h
    refine incoming_of_reaches (P := fun _ o => o.type = '2' ∧ 0 < o.qty)
      (by simp [Incoming, recover, Handler.pending]) ?_ (fun _ _ _ _ _ ho => ho) h
    rintro s a s' o hok - haccepts
    have hpos := hok.positive.of_acceptsAs haccepts
    obtain ⟨m, session, rfl, hacc, -⟩ := haccepts
    exact ⟨hacc.type.trans hok.kind, hpos⟩
  have hboth : s.Synced ∧ s.Accounted := by
    refine h.invariant (I := fun s => s.Synced ∧ s.Accounted)
      ⟨synced_recover hdb, accounted_recover hdb⟩ ?_
    rintro as t a u hrun ⟨hsync, hacc⟩ hok hstep
    have hf := founded_of_recovery hdb.sound hrun
    have hset := hok.served.taskSettles
    exact ⟨hsync.step hf hset hok.forwardsPositive hstep,
      hacc.step hf hset (fun _ => hacc.take hf hsync (hlimit hrun)) hstep⟩
  exact hboth.2.openAgree (founded_of_recovery hdb.sound h) hboth.1 hd.queue hd.tasks
    (by simp [hd.handler])

/-- The owner of a restored order logs on, and another client trades with the order. -/
def servedRun : List Action :=
  .logon Sample.alice :: Sample.submit (Sample.limit "b" '2' 3 10) Sample.bob ++ Sample.engine 6

/-- The same, before the owner has logged on. -/
def unservedRun : List Action :=
  Sample.submit (Sample.limit "b" '2' 5 10) Sample.bob ++ Sample.engine 5

/-- A database with a resting buy order of 5. -/
def oneOrder : Database := ⟨[⟨"EXCH-1", "a", "A", "X", '1', 10, 5⟩], [], []⟩

lemma restores_oneOrder : Restores Sample.config oneOrder where
  sound := ⟨by decide, by simp [oneOrder]; exact ⟨1, by decide⟩⟩
  positive := by simp [oneOrder]
  books := by simp [oneOrder]; decide +kernel

theorem restored_orders_agree_sample :
    Restores Sample.config oneOrder ∧ ∃ s, RunFrom Sample.config oneOrder ServedLimits servedRun s ∧
      s.Drained ∧ s.OpenAgree := by
  have hreach : ∃ s, RunFrom Sample.config oneOrder ServedLimits servedRun s ∧ s.Drained :=
    Transition.exists_reaches (by decide +kernel) (by decide +kernel)
  obtain ⟨s, hrun, hd⟩ := hreach
  exact ⟨restores_oneOrder, s, hrun, hd, restored_orders_agree restores_oneOrder hrun hd⟩

/-- A restored order that trades before its owner has logged on stays open, and is reported to
the owner as open with all of its quantity. -/
theorem traded_order_stays_open :
    Restores Sample.config oneOrder ∧
      ∃ s, RunFrom Sample.config oneOrder (fun _ a => a.LimitOrCancel) unservedRun s ∧ s.Drained ∧
        ¬ s.OpenAgree ∧ restingOrders s.engine.books = [] ∧
        ((s.gateway.onLogon Sample.alice).sent.filterMap fun m => statusLine m.2)
          = [("EXCH-1", 5)] := by
  have hreach : ∃ s, RunFrom Sample.config oneOrder (fun _ a => a.LimitOrCancel) unservedRun s ∧
      (s.Drained ∧ s.gateway.activeOrders.lookup "EXCH-1" ≠ none ∧
        restingOrders s.engine.books = [] ∧
        ((s.gateway.onLogon Sample.alice).sent.filterMap fun m => statusLine m.2)
          = [("EXCH-1", 5)]) :=
    Transition.exists_reaches (by decide +kernel) (by decide +kernel)
  obtain ⟨s, hrun, hd, hopen, hempty, hstatus⟩ := hreach
  refine ⟨restores_oneOrder, s, hrun, hd, fun hagree => ?_, hempty, hstatus⟩
  have hmem : "EXCH-1" ∈ s.gateway.activeOrders :=
    AList.lookup_isSome.mp (Option.isSome_iff_ne_none.mpr hopen)
  obtain ⟨sym, b, hb, n, hn, -⟩ := (hagree.keys "EXCH-1").mp hmem
  have hrests := mem_restingOrders.mpr ⟨sym, b, hb, n, hn, rfl⟩
  rw [hempty] at hrests
  exact absurd hrests List.not_mem_nil

end System

end FixExchange
