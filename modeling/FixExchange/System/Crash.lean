/-
# What a crash leaves

A crash may fall between any two events, also among the events of one item.  In every run of
new orders and cancels each prefix of the events that have been pushed leaves rows from which
no crossed book is recovered (`crash_never_crosses`): the fills and cancels of an item only
take something away from rows that do not cross, and the row of the new order comes last, when
the table is the book again.
-/
import FixExchange.Engine.LastFill
import FixExchange.Persistence.Tables
import FixExchange.System.Reports
import FixExchange.System.RestingTable

namespace FixExchange

/-! ## Events that only take something away -/

/-- Rows from which no crossed book is recovered; `had` tells the open quantities that an order
has had. -/
structure SafeRows (had : String → ℤ → Prop) (rows : List RestingRow) : Prop where
  /-- Every buy price is strictly below every sell price of the same symbol. -/
  uncrossed : ∀ bid ∈ rows, ∀ ask ∈ rows, bid.symbol = ask.symbol → bid.side = '1' →
    ask.side ≠ '1' → bid.price < ask.price
  positive : ∀ row ∈ rows, 0 < row.leavesQty
  had : ∀ row ∈ rows, had row.exchangeId row.leavesQty

/-- An event that adds no row, and changes open quantities to ones that the orders have had. -/
inductive PersistenceEvent.TakesAway (had : String → ℤ → Prop) : PersistenceEvent → Prop
  | fill {f : Fill} (h : 0 < f.leavesQty → had f.exchangeId f.leavesQty) : TakesAway had (.fill f)
  | takerFill (f : Fill) : TakesAway had (.takerFill f)
  | cancel (id : String) (o : Order) : TakesAway had (.cancel id o)
  | symbol (symbol : String) : TakesAway had (.symbol symbol)

namespace SafeRows

variable {had had' : String → ℤ → Prop} {rows rows' : List RestingRow} {db : Database}

lemma nil : SafeRows had [] := ⟨by simp, by simp, by simp⟩

lemma mono (h : SafeRows had rows) (himp : ∀ id q, had id q → had' id q) : SafeRows had' rows :=
  ⟨h.uncrossed, h.positive, fun row hrow => himp _ _ (h.had row hrow)⟩

/-- Rows for some of the orders, with open quantities that they have had. -/
lemma of_rows (h : SafeRows had rows)
    (hrows : ∀ row ∈ rows', (∃ row₀ ∈ rows, row.symbol = row₀.symbol ∧ row.side = row₀.side ∧
        row.price = row₀.price) ∧ 0 < row.leavesQty ∧ had row.exchangeId row.leavesQty) :
    SafeRows had rows' := by
  refine ⟨fun bid hbid ask hask hsymbol hbuy hsell => ?_, fun row hrow => (hrows row hrow).2.1,
    fun row hrow => (hrows row hrow).2.2⟩
  obtain ⟨⟨bid₀, hbid₀, hbsymbol, hbside, hbprice⟩, -⟩ := hrows bid hbid
  obtain ⟨⟨ask₀, hask₀, hasymbol, haside, haprice⟩, -⟩ := hrows ask hask
  rw [hbprice, haprice]
  refine h.uncrossed bid₀ hbid₀ ask₀ hask₀ ?_ (hbside ▸ hbuy) (haside ▸ hsell)
  rw [← hbsymbol, hsymbol, hasymbol]

lemma of_subset (h : SafeRows had rows) (hsub : ∀ row ∈ rows', row ∈ rows) : SafeRows had rows' :=
  h.of_rows fun row hrow => ⟨⟨row, hsub row hrow, rfl, rfl, rfl⟩, h.positive row (hsub row hrow),
    h.had row (hsub row hrow)⟩

/-- **An event that only takes something away** leaves safe rows. -/
theorem applyEvent (h : SafeRows had db.restingOrders) {evt : PersistenceEvent}
    (hevt : evt.TakesAway had) : SafeRows had (db.applyEvent evt).restingOrders := by
  cases hevt with
  | @fill f hfill =>
    simp only [Database.applyEvent, Database.insertEvent]
    split_ifs with hpos
    · refine h.of_rows fun row hrow => ?_
      obtain ⟨row₀, hrow₀, rfl⟩ := List.mem_map.mp hrow
      split_ifs with hid
      · refine ⟨⟨row₀, hrow₀, rfl, rfl, rfl⟩, hpos, ?_⟩
        rw [hid]
        exact hfill hpos
      · exact ⟨⟨row₀, hrow₀, rfl, rfl, rfl⟩, h.positive row₀ hrow₀, h.had row₀ hrow₀⟩
    · exact h.of_subset fun row hrow => Database.mem_deleteResting hrow
  | takerFill f => exact h
  | cancel id o => exact h.of_subset fun row hrow => Database.mem_deleteResting hrow
  | symbol symbol =>
    simp only [Database.applyEvent]
    split_ifs <;> exact h

end SafeRows

/-- The database after some events, from an empty one. -/
def Database.after (evts : List PersistenceEvent) : Database :=
  evts.foldl Database.applyEvent Database.empty

lemma Database.after_concat (evts : List PersistenceEvent) (evt : PersistenceEvent) :
    Database.after (evts ++ [evt]) = (Database.after evts).applyEvent evt := by
  rw [after, after, List.foldl_append]
  rfl

/-- Each prefix of a log of events leaves safe rows. -/
def SafeLog (had : String → ℤ → Prop) (log : List PersistenceEvent) : Prop :=
  ∀ evts, evts <+: log → SafeRows had (Database.after evts).restingOrders

namespace SafeLog

variable {had had' : String → ℤ → Prop} {log : List PersistenceEvent}

lemma nil : SafeLog had [] := by
  intro evts hevts
  rw [List.prefix_nil.mp hevts]
  exact .nil

lemma mono (h : SafeLog had log) (himp : ∀ id q, had id q → had' id q) : SafeLog had' log :=
  fun evts hevts => (h evts hevts).mono himp

lemma concat (h : SafeLog had log) {evt : PersistenceEvent}
    (hevt : SafeRows had (Database.after (log ++ [evt])).restingOrders) :
    SafeLog had (log ++ [evt]) := by
  intro evts hevts
  rcases List.prefix_concat_iff.mp hevts with rfl | hevts
  · exact hevt
  · exact h evts hevts

/-- Events that only take something away keep a log safe. -/
lemma append (h : SafeLog had log) {evts : List PersistenceEvent}
    (hevts : ∀ evt ∈ evts, evt.TakesAway had) : SafeLog had (log ++ evts) := by
  induction evts generalizing log with
  | nil =>
    rw [List.append_nil]
    exact h
  | cons evt evts ih =>
    rw [← List.concat_append, List.concat_eq_append]
    refine ih (h.concat ?_) fun evt' hevt' => hevts evt' (List.mem_cons_of_mem _ hevt')
    rw [Database.after_concat]
    exact (h log (List.prefix_refl log)).applyEvent (hevts evt List.mem_cons_self)

end SafeLog

/-! ## The tasks of an item -/

/-- The tasks of an item that is not a replace: the row of a new order is written by the last
of them, and what a fill leaves of a resting order is an open quantity that it has had. -/
structure SafeTasks (had : String → ℤ → Prop) (ts : List Task) : Prop where
  last : ts.Pairwise fun t _ => ∀ o leavesQty, t ≠ .onOrderRested o leavesQty
  fills : ∀ maker taker, .fillDone maker taker ∈ ts → 0 < maker.leavesQty →
    had maker.exchangeId maker.leavesQty
  unreplaced : ∀ req found leavesQty, .onReplace req found leavesQty ∉ ts

namespace SafeTasks

variable {had had' : String → ℤ → Prop} {t : Task} {ts : List Task} {g : FixGateway}

lemma nil : SafeTasks had [] := ⟨List.Pairwise.nil, by simp, by simp⟩

lemma mono (h : SafeTasks had ts) (himp : ∀ id q, had id q → had' id q) : SafeTasks had' ts :=
  ⟨h.last, fun maker taker ht hpos => himp _ _ (h.fills maker taker ht hpos), h.unreplaced⟩

/-- A task that is neither a fill nor about a new order or a replace. -/
lemma singleton (hfill : ∀ maker taker, t ≠ .fillDone maker taker)
    (hreplace : ∀ req found leavesQty, t ≠ .onReplace req found leavesQty) : SafeTasks had [t] :=
  ⟨List.pairwise_singleton _ _,
    fun maker taker ht => absurd (List.mem_singleton.mp ht).symm (hfill maker taker),
    fun req found n ht => absurd (List.mem_singleton.mp ht).symm (hreplace req found n)⟩

/-- Tasks behind tasks that are not about a new order. -/
lemma append (h : SafeTasks had ts) {ts' : List Task} (h' : SafeTasks had ts')
    (hrested : ∀ o leavesQty, .onOrderRested o leavesQty ∉ ts) : SafeTasks had (ts ++ ts') := by
  refine ⟨List.pairwise_append.mpr ⟨h.last, h'.last, ?_⟩, fun maker taker ht => ?_,
    fun req found n ht => ?_⟩
  · rintro t ht t' - o leavesQty rfl
    exact hrested o leavesQty ht
  · rcases List.mem_append.mp ht with ht | ht
    · exact h.fills maker taker ht
    · exact h'.fills maker taker ht
  · rcases List.mem_append.mp ht with ht | ht
    · exact h.unreplaced req found n ht
    · exact h'.unreplaced req found n ht

/-- The tasks that are left after a section. -/
lemma runTask (h : SafeTasks had (t :: ts)) : SafeTasks had ((g.runTask t).2 ++ ts) := by
  have hts : SafeTasks had ts := ⟨(List.pairwise_cons.mp h.last).2,
    fun maker taker ht => h.fills maker taker (List.mem_cons_of_mem _ ht),
    fun req found n ht => h.unreplaced req found n (List.mem_cons_of_mem _ ht)⟩
  cases t with
  | fillRouting fill =>
    simp only [FixGateway.runTask]
    split
    · exact hts
    · exact (singleton (by simp) (by simp)).append hts (by simp)
  | _ => exact hts

/-- The events of a task only take something away, unless a new order has come to rest; then no
task is left. -/
lemma pushes (h : SafeTasks had (t :: ts)) :
    (∀ evt ∈ t.pushes g, evt.TakesAway had) ∨
      ∃ o leavesQty, t = .onOrderRested o leavesQty ∧ ts = [] := by
  cases t with
  | fillRouting fill | fillOrders fill session | onTIFCancel o =>
    exact Or.inl fun evt hevt => absurd hevt List.not_mem_nil
  | fillDone maker taker =>
    refine Or.inl fun evt hevt => ?_
    rcases List.mem_pair.mp hevt with rfl | rfl
    · exact .fill (h.fills maker taker List.mem_cons_self)
    · exact .takerFill taker
  | onCancel req found =>
    refine Or.inl fun evt hevt => ?_
    simp only [Task.pushes] at hevt
    split at hevt
    · split_ifs at hevt
      · rw [List.mem_singleton.mp hevt]
        exact .cancel _ _
      · exact absurd hevt List.not_mem_nil
    · exact absurd hevt List.not_mem_nil
  | onReplace req found n => exact absurd List.mem_cons_self (h.unreplaced req found n)
  | onOrderRested o leavesQty =>
    refine Or.inr ⟨o, leavesQty, rfl, ?_⟩
    cases ts with
    | nil => rfl
    | cons t ts =>
      exact absurd rfl ((List.pairwise_cons.mp h.last).1 t List.mem_cons_self o leavesQty)

end SafeTasks

namespace OrderBook

variable {b : OrderBook} {had : String → ℤ → Prop}

/-- The tasks of fills that leave the open quantities of the book. -/
lemma safeTasks_fills {fs : List FillPair}
    (h : ∀ f ∈ fs, 0 < f.maker.leavesQty → had f.maker.exchangeId f.maker.leavesQty) :
    SafeTasks had (fillTasks fs) ∧ ∀ o leavesQty, .onOrderRested o leavesQty ∉ fillTasks fs := by
  have hmem : ∀ t ∈ fillTasks fs, ∃ f ∈ fs,
      t = .fillRouting f.maker ∨ t = .fillRouting f.taker ∨ t = .fillDone f.maker f.taker := by
    intro t ht
    obtain ⟨cb, hcb, ht⟩ := List.mem_flatMap.mp ht
    obtain ⟨f, hf, rfl⟩ := mem_fillCallbacks.mp hcb
    exact ⟨f, hf, by simpa [Callback.tasks] using ht⟩
  have hrested : ∀ t ∈ fillTasks fs, ∀ o leavesQty, t ≠ .onOrderRested o leavesQty := by
    intro t ht o leavesQty
    obtain ⟨f, -, rfl | rfl | rfl⟩ := hmem t ht <;> simp
  refine ⟨⟨?_, fun maker taker ht hpos => ?_, fun req found n ht => ?_⟩,
    fun o leavesQty ht => hrested _ ht o leavesQty rfl⟩
  · exact List.Pairwise.imp_of_mem (R := fun _ _ => True) (fun ht _ _ => hrested _ ht)
      (List.pairwise_of_forall fun _ _ => trivial)
  · obtain ⟨f, hf, heq | heq | heq⟩ := hmem _ ht
    · exact absurd heq (by simp)
    · exact absurd heq (by simp)
    · obtain ⟨rfl, rfl⟩ := Task.fillDone.inj heq
      exact h f hf hpos
  · obtain ⟨f, -, heq | heq | heq⟩ := hmem _ ht <;> exact absurd heq (by simp)

/-- **The tasks of an item** that is not a replace. -/
theorem safeTasks_processIn (h : b.Wf) {item : WorkItem} (hitem : ∀ req, item ≠ .replace req)
    (hhad : ∀ n ∈ (processIn b item).1.nodes, had n.order.exchangeId n.order.leavesQty) :
    SafeTasks had ((processIn b item).2.flatMap Callback.tasks) := by
  cases item with
  | order o =>
    rw [processIn] at hhad ⊢
    rcases processOrder_cases b o with hkill | ⟨last, hadd, hlast⟩
    · rw [hkill]
      exact .singleton (by simp) (by simp)
    · rw [hadd] at hhad ⊢
      have hfills : ∀ f ∈ (b.add o).fills, 0 < f.maker.leavesQty →
          had f.maker.exchangeId f.maker.leavesQty := by
        intro f hf hpos
        obtain ⟨n, hn, hid, hleaves⟩ := add_leaves_open h o f hf hpos.ne'
        rw [← hid, ← hleaves]
        exact hhad n hn
      obtain ⟨hsafe, hrested⟩ := safeTasks_fills hfills
      rw [List.flatMap_append]
      refine hsafe.append ?_ hrested
      rcases hlast with rfl | ⟨rfl, -⟩ | rfl
      · exact .nil
      · exact .singleton (by simp) (by simp)
      · exact .singleton (by simp) (by simp)
  | cancel req => exact .singleton (by simp) (by simp)
  | replace req => exact absurd rfl (hitem req)

/-- No item but a restored order takes a book across. -/
lemma Uncrossed.processIn (hu : b.Uncrossed) (h : b.Wf) (item : WorkItem) :
    (processIn b item).1.Uncrossed := by
  cases item with
  | order o =>
    rcases processOrder_book b o with hb | hb
    · rw [FixExchange.processIn, hb]
      exact hu
    · rw [FixExchange.processIn, hb]
      exact hu.add h o
  | cancel req =>
    have hop : (BookOp.cancel req.origOrderId).IsRequest := trivial
    exact hu.apply h hop
  | replace req =>
    have hop : (BookOp.replace req.origOrderId req.newPrice req.newQty).IsRequest := trivial
    exact hu.apply h hop

end OrderBook

/-- A message that is not a replace request. -/
def Action.NoReplace : Action → Prop
  | .message (.replace _) _ => False
  | .message (.newOrder _) _ | .message (.cancel _) _ | .logon _ | .handle | .engine | .persist
  | .registerSymbol _ => True

instance (a : Action) : Decidable a.NoReplace :=
  match a with
  | .message (.replace _) _ => instDecidableFalse
  | .message (.newOrder _) _ | .message (.cancel _) _ | .logon _ | .handle | .engine | .persist
  | .registerSymbol _ => instDecidableTrue

namespace System

variable {s s' : System} {a : Action} {as : List Action} {cfg : Config}

/-! ## Runs without replaces -/

/-- The runs of new orders and cancels. -/
abbrev NoReplace (_ : System) (a : Action) : Prop := a.NoReplace

lemma no_replace_coming (h : RunTo cfg NoReplace as s) :
    ∀ item ∈ s.coming, ∀ req, item ≠ .replace req := by
  refine h.invariant (I := fun s => ∀ item ∈ s.coming, ∀ req, item ≠ .replace req)
    (by simp [start, coming, nextItem]) ?_
  rintro as t a u - ih hok hstep item hitem req rfl
  rcases coming_step hstep hitem with hold | ⟨o, heq⟩ | hforward
  · exact ih _ hold req rfl
  · exact absurd heq (by simp)
  · cases hforward with
    | replace => exact hok

/-- In a run without replaces the database follows the book. -/
lemma followed_of_noReplace (h : RunTo cfg NoReplace as s) :
    RunTo cfg (Followed fun _ => True) as s := by
  refine h.mono_reached fun as t a hrun hok => ⟨?_, ?_, ?_⟩
  · cases a with
    | message msg session =>
      cases msg with
      | replace m => exact hok.elim
      | _ => trivial
    | _ => trivial
  · cases a with
    | engine =>
      rw [Quiet]
      split
      · rename_i req queue ht hq
        refine absurd rfl (no_replace_coming hrun (.replace req) (mem_coming_of_queue ?_) req)
        rw [hq]
        exact List.mem_cons_self
      · trivial
    | _ => trivial
  · cases a with
    | message msg session =>
      cases msg with
      | newOrder m =>
        rw [Accepting]
        split <;> trivial
      | _ => trivial
    | _ => trivial

/-- No book is crossed. -/
lemma uncrossed_of_run (h : RunTo cfg Any as s) :
    ∀ sym b, s.engine.books.lookup sym = some b → b.Uncrossed := by
  have hinit : ∀ sym, (OrderBook.init sym).Uncrossed := fun sym n hn => absurd hn List.not_mem_nil
  refine h.invariant (I := fun s => ∀ sym b, s.engine.books.lookup sym = some b → b.Uncrossed)
    (fun sym b hb => ?_) ?_
  · rw [start, lookup_init_books] at hb
    split_ifs at hb
    rw [← Option.some.inj hb]
    exact hinit sym
  · intro as t a u hrun ih _ hstep sym b hb
    cases a with
    | message msg session =>
      obtain ⟨-, rfl⟩ := step_message hstep
      exact ih sym b hb
    | logon session =>
      obtain ⟨-, rfl⟩ := step_logon hstep
      exact ih sym b hb
    | handle =>
      rcases handle_cases hstep with ⟨o, session, -, rfl⟩ | ⟨o, session, -, rfl⟩ | ⟨item, -, rfl⟩ <;>
        exact ih sym b hb
    | engine =>
      rcases engineStep_cases hstep with ⟨t, ts, -, rfl⟩ | ⟨-, item, queue, b', -, hb', rfl⟩
      · exact ih sym b hb
      · by_cases hsym : sym = item.symbol
        · subst hsym
          obtain rfl := Option.some.inj ((AList.lookup_insert _).symm.trans hb)
          exact (ih _ b' hb').processIn ((sound_of_run hrun).books.wf _ b' hb') item
        · exact ih sym b ((AList.lookup_insert_ne hsym).symm.trans hb)
    | persist =>
      obtain ⟨p, p', -, -, rfl⟩ := step_persist hstep
      exact ih sym b hb
    | registerSymbol symbol =>
      obtain ⟨e, he, rfl⟩ := step_registerSymbol hstep
      obtain ⟨hlookup, -, -⟩ := MatchingEngine.registerSymbol_books he
      rcases hlookup sym with hsame | ⟨-, -, hnew⟩
      · exact ih sym b (hsame.symm.trans hb)
      · obtain rfl := Option.some.inj (hb.symm.trans hnew)
        exact hinit symbol

/-! ## What has been pushed and what has been applied -/

/-- The events that a run pushes. -/
def pushed (s : System) (as : List Action) : List PersistenceEvent :=
  Transition.collect step pushes s as

/-- **The database has a prefix of the events**: those that are still in the queue come behind
the ones that have been applied. -/
theorem applied_of_run {ok : System → Action → Prop} (h : RunTo cfg ok as s) :
    ∀ p ∈ s.gateway.persistence, ∃ applied, (start cfg).pushed as = applied ++ p.queue ∧
      p.db = Database.after applied := by
  refine h.invariant_history (I := fun as s => ∀ p ∈ s.gateway.persistence, ∃ applied,
    (start cfg).pushed as = applied ++ p.queue ∧ p.db = Database.after applied) ?_ ?_
  · intro p hp
    simp only [start, FixGateway.init] at hp
    split_ifs at hp
    · obtain rfl := Option.some.inj hp
      exact ⟨[], rfl, rfl⟩
    · exact absurd hp (by simp)
  · intro as t a u hrun ih _ hstep p' hp'
    rw [pushed, hrun.collect_snoc]
    rcases persistence_step hstep with hpush | ⟨p, p₁, hp, happly, hp₁, hnil⟩
    · rw [hpush] at hp'
      obtain ⟨p, hp, rfl⟩ := Option.map_eq_some_iff.mp hp'
      obtain ⟨applied, hlog, hdb⟩ := ih p hp
      refine ⟨applied, ?_, hdb⟩
      rw [← List.append_assoc, ← hlog]
      rfl
    · obtain rfl := Option.some.inj (hp₁.symm.trans hp')
      obtain ⟨applied, hlog, hdb⟩ := ih p hp
      obtain ⟨evt, hq, hdb'⟩ := PersistenceLayer.applyNext_eq_some happly
      refine ⟨applied ++ [evt], ?_, by rw [hdb', hdb, Database.after_concat]⟩
      rw [hnil, List.append_nil, List.append_assoc, List.singleton_append, ← hq]
      exact hlog

lemma flushed_of_run {ok : System → Action → Prop} (h : RunTo cfg ok as s) {p : PersistenceLayer}
    (hp : s.gateway.persistence = some p) :
    p.flushed = Database.after ((start cfg).pushed as) := by
  obtain ⟨applied, hlog, hdb⟩ := applied_of_run h p hp
  rw [hlog, Database.after, List.foldl_append, PersistenceLayer.flushed, hdb]
  rfl

/-- The persistence layer stays. -/
lemma persistence_of_run {ok : System → Action → Prop} (h : RunTo cfg ok as s)
    (hcfg : cfg.persistence = true) : ∃ p, s.gateway.persistence = some p := by
  refine h.invariant (I := fun s => ∃ p, s.gateway.persistence = some p) ?_ ?_
  · exact ⟨PersistenceLayer.empty, by simp [start, FixGateway.init, hcfg]⟩
  · rintro as t a u - ⟨p, hp⟩ - hstep
    rcases persistence_step hstep with hpush | ⟨-, p', -, -, hp', -⟩
    · rw [hpush, hp]
      exact ⟨_, rfl⟩
    · exact ⟨p', hp'⟩

/-! ## Moments of a run -/

/-- At some moment of the run the order rests with the open quantity. -/
def HadOpen (cfg : Config) (as : List Action) (id : String) (leavesQty : ℤ) : Prop :=
  ∃ bs t, bs <+: as ∧ RunTo cfg Any bs t ∧ ∃ sym b, t.engine.books.lookup sym = some b ∧
    ∃ n ∈ b.nodes, n.order.exchangeId = id ∧ n.order.leavesQty = leavesQty

lemma HadOpen.mono {id : String} {q : ℤ} (h : HadOpen cfg as id q) (more : List Action) :
    HadOpen cfg (as ++ more) id q := by
  obtain ⟨bs, t, hbs, hrun, hopen⟩ := h
  exact ⟨bs, t, hbs.trans (List.prefix_append as more), hrun, hopen⟩

/-- Each prefix of the pushed events leaves safe rows, and so will the tasks. -/
structure CrashSafe (cfg : Config) (as : List Action) (s : System) : Prop where
  log : SafeLog (HadOpen cfg as) ((start cfg).pushed as)
  tasks : SafeTasks (HadOpen cfg as) s.tasks

/-- The book, as the database has it, is safe. -/
lemma TableHolds.safe {db : Database} (h : s.TableHolds db) (hrun : RunTo cfg Any as s)
    (hpos : ∀ sym b, s.engine.books.lookup sym = some b → b.Positive) :
    SafeRows (HadOpen cfg as) db.restingOrders := by
  have hs := sound_of_run hrun
  refine ⟨fun bid hbid ask hask hsymbol hbuy hsell => ?_, fun row hmem => ?_, fun row hmem => ?_⟩
  · obtain ⟨sym, b, hb, n, hn, -, hnsymbol, hnside, hnprice, -⟩ := h.row hbid
    obtain ⟨sym', b', hb', m, hm, -, hmsymbol, hmside, hmprice, -⟩ := h.row hask
    have hsym : sym = sym' := by
      rw [← (hs.books.orders sym b hb n hn).1, ← (hs.books.orders sym' b' hb' m hm).1,
        ← hnsymbol, ← hmsymbol, hsymbol]
    subst hsym
    obtain rfl := Option.some.inj (hb.symm.trans hb')
    have hwf := hs.books.wf sym b hb
    rw [hnprice, hmprice]
    refine uncrossed_of_run hrun sym b hb n ?_ m ?_
    · rcases List.mem_append.mp hn with hn | hn
      · exact hn
      · exact absurd (hnside.symm.trans hbuy) (hwf.asks_side n hn)
    · rcases List.mem_append.mp hm with hm | hm
      · exact absurd (hmside.trans (hwf.bids_side m hm)) hsell
      · exact hm
  · obtain ⟨sym, b, hb, n, hn, -, -, -, -, hleaves⟩ := h.row hmem
    rw [hleaves]
    exact (hpos sym b hb n hn).1
  · obtain ⟨sym, b, hb, n, hn, hid, -, -, -, hleaves⟩ := h.row hmem
    exact ⟨as, s, List.prefix_refl as, hrun, sym, b, hb, n, hn, hid.symm, hleaves.symm⟩

/-- The log after one more step. -/
lemma CrashSafe.log_step (h : CrashSafe cfg as s) (hrun : RunTo cfg NoReplace as s)
    (hcfg : cfg.persistence = true) (hok : a.NoReplace) (hstep : s.step a = some s') :
    SafeLog (HadOpen cfg (as ++ [a])) ((start cfg).pushed (as ++ [a])) := by
  have hlog := h.log.mono fun id q hq => hq.mono [a]
  rw [pushed, hrun.collect_snoc]
  cases a with
  | engine =>
    rcases engineStep_cases hstep with ⟨t, ts, ht, rfl⟩ | ⟨ht, item, queue, b, -, -, rfl⟩
    · have htasks := h.tasks.mono fun id q (hq : HadOpen cfg as id q) => hq.mono [Action.engine]
      rw [ht] at htasks
      have hpushes : s.pushes .engine = t.pushes s.gateway := by rw [pushes, ht]
      rcases htasks.pushes (g := s.gateway) with htakes | ⟨o, leavesQty, rfl, rfl⟩
      · rw [hpushes]
        exact hlog.append htakes
      · -- the new order has come to rest: the table is the book again
        have hrun' := hrun.snoc hok hstep
        obtain ⟨p, hp⟩ := persistence_of_run hrun' hcfg
        have hpos := (synced_of_run (fun _ _ h => forwardsPositive_of_replacesPositive h.positive)
          (followed_of_noReplace hrun')).positive
        have hsafe := (flushed_table_holds (followed_of_noReplace hrun') rfl hp).safe
          (hrun'.mono fun _ _ _ => trivial) hpos
        rw [flushed_of_run hrun' hp, pushed, hrun.collect_snoc, hpushes] at hsafe
        rw [hpushes]
        exact hlog.concat hsafe
    · rw [pushes, ht, List.append_nil]
      exact hlog
  | registerSymbol symbol =>
    refine hlog.append fun evt hevt => ?_
    rw [List.mem_singleton.mp hevt]
    exact .symbol symbol
  | message | logon | handle | persist =>
    rw [pushes, List.append_nil]
    exact hlog

/-- The tasks after one more step. -/
lemma CrashSafe.tasks_step (h : CrashSafe cfg as s) (hrun : RunTo cfg NoReplace as s)
    (hok : a.NoReplace) (hstep : s.step a = some s') :
    SafeTasks (HadOpen cfg (as ++ [a])) s'.tasks := by
  have htasks := h.tasks.mono fun id q hq => hq.mono [a]
  cases a with
  | message msg session =>
    obtain ⟨-, rfl⟩ := step_message hstep
    exact htasks
  | logon session =>
    obtain ⟨-, rfl⟩ := step_logon hstep
    exact htasks
  | handle =>
    rcases handle_cases hstep with ⟨o, session, -, rfl⟩ | ⟨o, session, -, rfl⟩ | ⟨item, -, rfl⟩ <;>
      exact htasks
  | engine =>
    have hrun' : RunTo cfg Any (as ++ [.engine]) s' :=
      (hrun.snoc hok hstep).mono fun _ _ _ => trivial
    rcases engineStep_cases hstep with ⟨t, ts, ht, rfl⟩ | ⟨-, item, queue, b, hq, hb, rfl⟩
    · rw [ht] at htasks
      exact htasks.runTask
    · have hmem : item ∈ s.coming := mem_coming_of_queue (by rw [hq]; exact List.mem_cons_self)
      refine OrderBook.safeTasks_processIn ((sound_of_run hrun).books.wf _ b hb)
        (no_replace_coming hrun item hmem) fun n hn => ?_
      exact ⟨_, _, List.prefix_refl _, hrun', _, _, AList.lookup_insert _, n, hn, rfl, rfl⟩
  | persist =>
    obtain ⟨p, p', -, -, rfl⟩ := step_persist hstep
    exact htasks
  | registerSymbol symbol =>
    obtain ⟨e, -, rfl⟩ := step_registerSymbol hstep
    exact htasks

/-- **A crash never recovers a crossed book**: in every run of new orders and cancels, each
prefix of the events that have been pushed leaves rows of which every buy price is strictly
below every sell price of the same symbol, and all open quantities are positive and are ones
that the orders have had at some moment of the run; and the database has applied such a
prefix. -/
theorem crash_never_crosses (hcfg : cfg.persistence = true) (h : RunTo cfg NoReplace as s) :
    SafeLog (HadOpen cfg as) ((start cfg).pushed as) ∧
      ∀ p ∈ s.gateway.persistence, ∃ applied, applied <+: (start cfg).pushed as ∧
        p.db = Database.after applied := by
  refine ⟨?_, fun p hp => ?_⟩
  · have hsafe : CrashSafe cfg as s := by
      refine h.invariant_history (I := CrashSafe cfg) ⟨.nil, .nil⟩ ?_
      intro as t a u hrun ih hok hstep
      exact ⟨ih.log_step hrun hcfg hok hstep, ih.tasks_step hrun hok hstep⟩
    exact hsafe.log
  · obtain ⟨applied, hlog, hdb⟩ := applied_of_run h p hp
    exact ⟨applied, ⟨p.queue, hlog.symm⟩, hdb⟩

/-- A buy order sweeps two sell orders and rests; then another order is cancelled. -/
def sweepRun : List Action :=
  Sample.submit (Sample.limit "a" '2' 5 10) Sample.alice ++ Sample.engine 2
    ++ Sample.submit (Sample.limit "b" '2' 2 11) Sample.alice ++ Sample.engine 2
    ++ Sample.submit (Sample.limit "c" '2' 1 12) Sample.alice ++ Sample.engine 2
    ++ Sample.submit (Sample.limit "d" '1' 9 11) Sample.bob ++ Sample.engine 12
    ++ Sample.forward (Sample.cancel "c") Sample.alice ++ Sample.engine 2

theorem crash_never_crosses_sample :
    Sample.config.persistence = true ∧ ∃ s, RunTo Sample.config NoReplace sweepRun s ∧
      ((start Sample.config).pushed sweepRun).length = 9 ∧
      SafeLog (HadOpen Sample.config sweepRun) ((start Sample.config).pushed sweepRun) ∧
      ∀ p ∈ s.gateway.persistence, ∃ applied, applied <+: (start Sample.config).pushed sweepRun ∧
        p.db = Database.after applied := by
  have hreach : ∃ s, RunTo Sample.config NoReplace sweepRun s ∧ s.Drained :=
    Transition.exists_reaches (by decide +kernel) (by decide +kernel)
  obtain ⟨s, hrun, -⟩ := hreach
  exact ⟨rfl, s, hrun, by decide +kernel, crash_never_crosses rfl hrun⟩

end System

end FixExchange
