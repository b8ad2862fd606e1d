/-
# Copies of the book

The database and the subscribers of the feed keep copies of the resting orders, which the
gateway updates by notices.  A *follower* is such a copy together with what a notice does to
it.  If every notice keeps a copy in step with the ledger it is about, the copy is in step
with the books in every run (`System.following_of_run`), as long as no replace fills its order
completely: the notice about that one is never given.
-/
import FixExchange.System.Synced

namespace FixExchange

/-- A replace that takes an order out of the book finds enough to fill it completely. -/
def OrderBook.FillsOnReplace (b : OrderBook) (req : ReplaceRequest) : Prop :=
  ∃ n ∈ b.nodes, n.order.exchangeId = req.origOrderId ∧
    ¬(req.newPrice = n.order.price ∧ req.newQty < n.order.leavesQty) ∧
    req.newQty ≤ b.availableExact { n.order with price := req.newPrice, qty := req.newQty }

instance (b : OrderBook) (req : ReplaceRequest) : Decidable (b.FillsOnReplace req) := by
  unfold OrderBook.FillsOnReplace; infer_instance

namespace OrderBook

variable {b : OrderBook}

/-- Taking an order out does not change what it could trade against. -/
lemma availableExact_unlink (id : String) (it : ℕ) (p : Price) {side : Char} {o : Order}
    (hside : o.side = side) :
    (b.unlink id it p side).availableExact o = b.availableExact o := by
  subst hside
  by_cases hs : o.side = '1' <;> simp [availableExact, addends, OrderBook.unlink, hs]

/-- **When a replace fills its order**, told before it is processed. -/
lemma Inv.fillsOnReplace (h : b.Inv) {req : ReplaceRequest} (hq : 0 < req.newQty)
    (hvalue : (b.replace req.origOrderId req.newPrice req.newQty).value = 0) :
    b.FillsOnReplace req := by
  rcases h.wf.replace_eq req.origOrderId req.newPrice req.newQty with
    ⟨-, hr⟩ | ⟨n, hn, hid, ⟨-, -, hr⟩ | ⟨hne, hr⟩⟩
  · rw [hr] at hvalue
    exact absurd hvalue (by simp)
  · rw [hr] at hvalue
    exact absurd hvalue hq.ne'
  · refine ⟨n, hn, hid, hne, ?_⟩
    have hinv : (b.unlink n.order.exchangeId n.addr n.order.price n.order.side).Inv :=
      ⟨h.wf.unlink hn, h.keyed.unlink h.wf hn, h.positive.unlink h.wf hn _⟩
    rw [hid] at hinv
    have hadd := add_value (o := { n.order with price := req.newPrice, qty := req.newQty }) hinv
      (Or.inr (h.wf.limit n hn)) hq.le
    rw [availableExact_unlink] at hadd
    · rw [hr, hadd] at hvalue
      exact sub_nonpos.mp (max_eq_left_iff.mp hvalue)
    · rfl

lemma onReplace_of_processOrder (b : OrderBook) (o : Order) (req : ReplaceRequest) (found : Bool)
    (n : ℤ) : .onReplace req found n ∉ (processOrder b o).2 := by
  obtain ⟨fs, last, -, hcbs, hlast⟩ := processOrder_calls b o
  rw [hcbs]
  intro hmem
  rcases List.mem_append.mp hmem with hmem | hmem
  · obtain ⟨f, -, heq⟩ := mem_fillCallbacks.mp hmem
    exact absurd heq (by simp)
  · rcases hlast _ hmem with h | h | ⟨h, -⟩ <;> exact absurd h (by simp)

/-- The call that reports a replaced order as filled. -/
lemma Inv.fillsOnReplace_of_mem (h : b.Inv) {item : WorkItem} {req : ReplaceRequest}
    (hq : ∀ req, item = .replace req → 0 < req.newQty)
    (hmem : .onReplace req true 0 ∈ (processIn b item).2) :
    ∃ req, item = .replace req ∧ b.FillsOnReplace req := by
  cases item with
  | order o => exact absurd hmem (onReplace_of_processOrder b o req true 0)
  | cancel req' => exact absurd (List.mem_singleton.mp hmem) (by simp)
  | replace req' =>
    rcases List.mem_append.mp hmem with hmem | hmem
    · obtain ⟨f, -, heq⟩ := mem_fillCallbacks.mp hmem
      exact absurd heq (by simp)
    · obtain ⟨-, -, hvalue⟩ := Callback.onReplace.inj (List.mem_singleton.mp hmem)
      exact ⟨req', rfl, h.fillsOnReplace (hq req' rfl) hvalue.symm⟩

end OrderBook

namespace System

/-- The engine does not process a replace that fills its order. -/
def Quiet (s : System) : Action → Prop
  | .engine =>
    match s.tasks, s.queue with
    | [], .replace req :: _ =>
      ∀ b ∈ s.engine.books.lookup req.symbol, ¬ b.FillsOnReplace req
    | _, _ => True
  | _ => True

instance (s : System) (a : Action) : Decidable (s.Quiet a) := by
  unfold Quiet
  split
  · split <;> infer_instance
  · infer_instance

/-- The steps of a run in which the copies of the book keep up. -/
structure Followed (good : Order → Prop) (s : System) (a : Action) : Prop where
  positive : a.ReplacesPositive
  quiet : s.Quiet a
  accepting : Accepting good s a

instance (good : Order → Prop) [DecidablePred good] (s : System) (a : Action) :
    Decidable (s.Followed good a) :=
  decidable_of_iff (a.ReplacesPositive ∧ s.Quiet a ∧ Accepting good s a)
    ⟨fun ⟨hp, hq, ha⟩ => ⟨hp, hq, ha⟩, fun ⟨hp, hq, ha⟩ => ⟨hp, hq, ha⟩⟩

/-- The resting orders, as the gateway has them. -/
def openBook (s : System) : OrderLedger :=
  Ledger.restrict s.openOrders (restingLedger s.engine.books)

end System

/-- A copy of the resting orders that is kept by notices. -/
structure Follower (good : Order → Prop) (σ : Type) where
  /-- The copy, given what the gateway has sent to those who keep it. -/
  read : MarketDataPublisher → Option PersistenceLayer → σ
  /-- What a notice does to the copy. -/
  apply : σ → Notice → σ
  /-- The copy is in step with a ledger. -/
  shows : σ → OrderLedger → Prop
  read_notice : ∀ m p n, read (n.publish m)
    (p.map fun p => FixGateway.pushEvents p n.events) = apply (read m p) n
  read_applyNext : ∀ m p p', PersistenceLayer.applyNext p = some p' →
    read m (some p') = read m (some p)
  read_symbol : ∀ m p symbol, read m (p.map fun p => p.push (.symbol symbol)) = read m p
  shows_start : ∀ p, p = none ∨ p = some PersistenceLayer.empty →
    shows (read MarketDataPublisher.init p) Ledger.empty
  shows_notice : ∀ c L n, shows c L → n.Fits L → (∀ o k, n = .rested o k → good o) →
    shows (apply c n) (n.post L)

namespace Follower

variable {good : Order → Prop} {σ : Type} (F : Follower good σ)

lemma read_notices (ns : List Notice) (m : MarketDataPublisher) (p : Option PersistenceLayer) :
    F.read (ns.foldl Notice.publish m)
        (p.map fun p => FixGateway.pushEvents p (ns.flatMap Notice.events))
      = ns.foldl F.apply (F.read m p) := by
  induction ns generalizing m p with
  | nil => cases p <;> rfl
  | cons n ns ih =>
    rw [List.foldl_cons, List.foldl_cons, ← F.read_notice, ← ih, Option.map_map]
    congr 2
    funext p'
    simp [FixGateway.pushEvents]

/-- Notices that follow the ledger keep the copy in step with it. -/
lemma shows_follows {c : σ} {L L' : OrderLedger} {ns : List Notice} (h : Follows L ns L')
    (hc : F.shows c L) (hgood : ∀ o k, .rested o k ∈ ns → good o) :
    F.shows (ns.foldl F.apply c) L' := by
  induction h generalizing c with
  | nil => exact hc
  | @cons L L' n ns fits rest ih =>
    refine ih (F.shows_notice c L n hc fits fun o k hn => hgood o k ?_) fun o k ho =>
      hgood o k (List.mem_cons_of_mem _ ho)
    rw [hn]
    exact List.mem_cons_self

end Follower

/-- What is announced as rested is the order of the item. -/
lemma Processed.eq_of_rested {A R R' : OrderLedger} {item : WorkItem} {cbs : List Callback}
    (h : Processed R item cbs R') {o : Order} {k : ℤ}
    (hmem : .rested o k ∈ noticesOf (cbs.flatMap Callback.tasks) A) : item = .order o := by
  have hfills : ∀ fs : List FillPair,
      .rested o k ∉ fs.map fun f => Notice.filled f.maker f.taker := by
    intro fs hmem
    obtain ⟨f, -, heq⟩ := List.mem_map.mp hmem
    exact absurd heq (by simp)
  cases h with
  | killed fresh => exact absurd hmem (by simp [Callback.tasks, Task.notices])
  | @matched o' left fs last L₁ R' fresh fills unfilled settled =>
    rw [noticesOf_calls, noticesOf_fillTasks] at hmem
    have hmem := (List.mem_append.mp hmem).resolve_left (hfills fs)
    cases settled with
    | silent h => exact absurd hmem List.not_mem_nil
    | cancelled h => exact absurd hmem (by simp [Callback.tasks, Task.notices])
    | rested hleft type tif =>
      obtain ⟨rfl, -⟩ := Notice.rested.inj (List.mem_singleton.mp hmem)
      rfl
  | notCancelled => exact absurd hmem (by simp [Callback.tasks, Task.notices])
  | cancelled hm => exact absurd hmem (by simp [Callback.tasks, Task.notices])
  | notReplaced => exact absurd hmem (by simp [Callback.tasks, Task.notices])
  | shrunk hm price positive => exact absurd hmem (by simp [Callback.tasks, Task.notices])
  | @requeued req m left fs L₁ hm fills unfilled positive nonneg =>
    rw [noticesOf_calls, noticesOf_fillTasks] at hmem
    have hmem := (List.mem_append.mp hmem).resolve_left (hfills fs)
    exact absurd hmem (by simp [Callback.tasks, Task.notices])

namespace System

variable {s s' : System} {good : Order → Prop} {σ : Type} (F : Follower good σ)

/-- A copy as it will be once the pending tasks have run. -/
def copy (s : System) : σ :=
  (noticesOf s.tasks s.gateway.active).foldl F.apply
    (F.read s.gateway.publisher s.gateway.persistence)

/-- A copy keeps up with the books. -/
def Following (s : System) : Prop := F.shows (s.copy F) s.openBook

variable {F}

lemma Following.start (cfg : Config) : (start cfg).Following F := by
  have hbook : (System.start cfg).openBook = Ledger.empty := by
    funext id
    exact Ledger.restrict_eq_none.mpr (Or.inl rfl)
  rw [Following, hbook]
  refine F.shows_start _ ?_
  simp only [System.start, FixGateway.init]
  split_ifs
  · exact Or.inr rfl
  · exact Or.inl rfl

/-- The step takes no item from the queue. -/
def TakesNothing (s : System) (a : Action) : Prop := a = .engine → s.tasks ≠ []

/-- A step that takes no item leaves the copies as they will be, and the open orders that
rest. -/
lemma kept_step (hs : s.Sound) {a : Action} (ha : s.TakesNothing a) (hstep : s.step a = some s') :
    s'.copy F = s.copy F ∧ s'.openBook = s.openBook := by
  cases a with
  | message msg session =>
    obtain ⟨-, rfl⟩ := step_message hstep
    rcases onMessage_cases s session msg with ⟨seq, sent, heq, -⟩ | ⟨m, o, rfl, ho, heq⟩ |
        ⟨m, req, rfl, hreq, heq⟩ | ⟨m, req, rfl, hreq, heq⟩ <;>
      rw [heq] <;> exact ⟨rfl, rfl⟩
  | logon session =>
    obtain ⟨-, rfl⟩ := step_logon hstep
    exact ⟨rfl, rfl⟩
  | handle =>
    rcases handle_cases hstep with ⟨o, session, hh, rfl⟩ | ⟨o, session, hh, rfl⟩ |
        ⟨item, hitem, rfl⟩
    · exact ⟨rfl, rfl⟩
    · obtain ⟨hsettle, hnotices⟩ := openOrders_activate hs.founded hh
      refine ⟨congrArg (List.foldl F.apply
        (F.read s.gateway.publisher s.gateway.persistence)) hnotices, ?_⟩
      -- the order does not rest yet
      refine (congrArg (fun A => Ledger.restrict A _) hsettle).trans ?_
      refine Ledger.restrict_congr fun id hid => Ledger.put_of_ne ?_
      rintro rfl
      obtain ⟨sym, b, hb, n, hn, hid⟩ := hs.founded.resting_iff.mp hid
      exact (hs.books.orders sym b hb n hn).2.2 o (by rw [hh]; rfl) hid
    · exact ⟨rfl, rfl⟩
  | engine =>
    rcases engineStep_cases hstep with ⟨t, ts, ht, rfl⟩ | ⟨ht, item, queue, b, hq, hb, rfl⟩
    · have hcov := hs.maps.covered
      rw [ht] at hcov
      have hruns := FixGateway.runTask_runsTo hcov
      refine ⟨?_, ?_⟩
      · rw [copy, copy, hruns.notices, hruns.publisher, hruns.persistence, F.read_notices, ht,
          noticesOf_cons, List.foldl_append]
      · rw [openBook, openBook, openOrders_task (hs.taskSettles _) ht]
    · exact absurd ht (ha rfl)
  | persist =>
    obtain ⟨p, p', hp, happly, rfl⟩ := step_persist hstep
    refine ⟨?_, rfl⟩
    rw [copy, copy, hp]
    exact congrArg (fun c => (noticesOf s.tasks s.gateway.active).foldl F.apply c)
      (F.read_applyNext _ p p' happly)
  | registerSymbol symbol =>
    have hledger := resting_registerSymbol hs.founded hstep
    obtain ⟨e, he, rfl⟩ := step_registerSymbol hstep
    exact ⟨congrArg (fun c => (noticesOf s.tasks s.gateway.active).foldl F.apply c)
      (F.read_symbol _ _ symbol), congrArg (Ledger.restrict _) hledger⟩

/-- No replace that the engine takes is reported as filled. -/
lemma Synced.onReplace_open (hsync : s.Synced) (hs : s.Sound) (hquiet : s.Quiet .engine)
    {item : WorkItem} {queue : List WorkItem} {b : OrderBook} (ht : s.tasks = [])
    (hq : s.queue = item :: queue) (hb : s.engine.books.lookup item.symbol = some b) :
    ∀ req, .onReplace req true 0 ∉ (processIn b item).2 := by
  intro req hcall
  have hmem : item ∈ s.queue := by rw [hq]; exact List.mem_cons_self
  have hinv : b.Inv := ⟨hs.books.wf _ b hb, hs.books.keyed _ b hb, hsync.positive _ b hb⟩
  obtain ⟨req', rfl, hfills⟩ := hinv.fillsOnReplace_of_mem (hsync.replace_positive hmem) hcall
  simp only [Quiet, ht, hq] at hquiet
  exact hquiet b hb hfills

/-- The notices for the item that the engine takes follow the open orders that rest. -/
lemma Synced.follows_take (hsync : s.Synced) (hs : s.Sound) (hquiet : s.Quiet .engine)
    {item : WorkItem} {queue : List WorkItem} {b : OrderBook} (ht : s.tasks = [])
    (hq : s.queue = item :: queue) (hb : s.engine.books.lookup item.symbol = some b) :
    Follows s.openBook
      (noticesOf ((processIn b item).2.flatMap Callback.tasks) s.gateway.active)
      ({ s with
        engine := { s.engine with books := s.engine.books.insert item.symbol (processIn b item).1 }
        queue := queue
        tasks := (processIn b item).2.flatMap Callback.tasks } : System).openBook := by
  have hmem : item ∈ s.queue := by rw [hq]; exact List.mem_cons_self
  have hprocessed := hsync.processed hs.founded hmem hb
  have hopen := hsync.onReplace_open hs hquiet ht hq hb
  rw [openBook, openOrders_of_no_tasks ht]
  exact hprocessed.follows (hsync.active_agrees ht) (hsync.order_open hs.founded ht hmem)
    (hsync.replace_same ht hmem) hopen

lemma Following.take (h : s.Following F) (hs : s.Sound) (hsync : s.Synced)
    (hquiet : s.Quiet .engine) (hgood : ∀ o, s.Incoming o → good o) {item : WorkItem}
    {queue : List WorkItem} {b : OrderBook} (ht : s.tasks = []) (hq : s.queue = item :: queue)
    (hb : s.engine.books.lookup item.symbol = some b) :
    ({ s with
      engine := { s.engine with books := s.engine.books.insert item.symbol (processIn b item).1 }
      queue := queue
      tasks := (processIn b item).2.flatMap Callback.tasks } : System).Following F := by
  have hmem : item ∈ s.queue := by rw [hq]; exact List.mem_cons_self
  rw [Following, copy, ht, noticesOf_nil, List.foldl_nil] at h
  refine F.shows_follows (hsync.follows_take hs hquiet ht hq hb) h fun o k hrested => hgood o ?_
  obtain rfl := (hsync.processed hs.founded hmem hb).eq_of_rested hrested
  exact Or.inl hmem

lemma Following.step (h : s.Following F) (hs : s.Sound) (hsync : s.Synced)
    (hgood : ∀ o, s.Incoming o → good o) {a : Action} (hquiet : s.Quiet a)
    (hstep : s.step a = some s') : s'.Following F := by
  by_cases ha : s.TakesNothing a
  · obtain ⟨hcopy, hbook⟩ := kept_step (F := F) hs ha hstep
    rw [Following, hcopy, hbook]
    exact h
  · obtain ⟨rfl, ht⟩ := Classical.not_imp.mp ha
    rcases engineStep_cases hstep with ⟨t, ts, ht', -⟩ | ⟨ht, item, queue, b, hq, hb, rfl⟩
    · exact absurd ht' (by rw [not_not.mp ht]; simp)
    · exact h.take hs hsync hquiet hgood ht hq hb

/-- **A copy kept by notices is in step with the books** in every run in which no replace fills
its order completely. -/
theorem following_of_run {cfg : Config} {as : List Action}
    (h : RunTo cfg (Followed good) as s) : s.Following F :=
  h.invariant (Following.start cfg) fun _ _ _ _ hrun hs hok hstep =>
    hs.step (sound_of_run hrun) (synced_of_run
      (fun _ _ h => forwardsPositive_of_replacesPositive h.positive) hrun)
      (good_of_incoming (fun _ _ h => h.accepting) hrun) hok.quiet hstep

end System

end FixExchange
