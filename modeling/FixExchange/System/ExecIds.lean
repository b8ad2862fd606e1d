/-
# Execution ids

The reports of fills have the ids that the books number, expiries have an id of their own, and
all other reports about an order -- that it is new, replaced, cancelled or refused -- have one
and the same id.  The reports of a process about changes of orders have different ids exactly as
long as no cancel or replace is answered for an order that has been acknowledged
(`exec_ids_distinct`).
-/
import FixExchange.Engine.ExecIds
import FixExchange.System.LiveReports

namespace FixExchange

/-- The ids of the fills that a task will report. -/
def Task.fillIds : Task → List String
  | .fillRouting fill | .fillOrders fill _ => [fill.execId]
  | _ => []

/-- The order whose cancel or replace a task answers. -/
def Task.answered : Task → Option String
  | .onCancel req found => if found then some req.origOrderId else none
  | .onReplace req found _ => if found then some req.origOrderId else none
  | _ => none

/-- A report that an order is new or replaced. -/
def ExecutionReport.Acknowledges (report : ExecutionReport) (id : String) : Prop :=
  report.orderId = id ∧
    (report.execType = ExecType.New.char ∨ report.execType = ExecType.Replaced.char)

instance (report : ExecutionReport) (id : String) : Decidable (report.Acknowledges id) :=
  instDecidableAnd

lemma execId_makeExecReport (o : Order) (execType : ExecType) :
    (makeExecReport o execType).execId = o.exchangeId ++ "-" ++ "ACK" := by
  rw [String.append_assoc]
  rfl

lemma execId_makeTifCancelReport (o : Order) :
    (makeTifCancelReport o).execId = o.exchangeId ++ "-" ++ "TIF" := by
  rw [String.append_assoc]
  rfl

/-- The ids of the fills among some reports. -/
def fillIdsOf (reports : List ExecutionReport) : List String :=
  (reports.filter fun report => report.lastShares.isSome).map ExecutionReport.execId

lemma fillIdsOf_append (l l' : List ExecutionReport) :
    fillIdsOf (l ++ l') = fillIdsOf l ++ fillIdsOf l' := by
  rw [fillIdsOf, List.filter_append, List.map_append]
  rfl

/-- The tasks of the calls of an item report the fills of the item. -/
lemma fillIds_tasks (cbs : List Callback) :
    (cbs.flatMap Callback.tasks).flatMap Task.fillIds = OrderBook.callIds cbs := by
  rw [List.flatMap_assoc, OrderBook.callIds]
  refine List.flatMap_congr fun cb _ => ?_
  cases cb <;> rfl

namespace System

variable {s s' : System} {a : Action} {as : List Action}

/-- The process has reported that an order is new or replaced. -/
def Acknowledged (s : System) (id : String) : Prop :=
  ∃ report ∈ executionReports s.gateway.sent, report.Acknowledges id

instance (s : System) (id : String) : Decidable (s.Acknowledged id) :=
  List.decidableBEx _ _

/-- A cancel or a replace is answered for an order that the process has not acknowledged: it has
been restored, and not been replaced since. -/
def AnswersFirst (s : System) : Action → Prop
  | .engine => ∀ t ∈ s.tasks.head?, ∀ id ∈ t.answered,
      s.gateway.orderSessions.lookup id ≠ none → s.gateway.active id ≠ none → ¬ s.Acknowledged id
  | _ => True

instance (s : System) (a : Action) : Decidable (s.AnswersFirst a) :=
  match a with
  | .engine =>
    have (t : Task) : Decidable (∀ id ∈ t.answered, s.gateway.orderSessions.lookup id ≠ none →
        s.gateway.active id ≠ none → ¬ s.Acknowledged id) := Option.decidableForallMem _
    inferInstanceAs (Decidable (∀ t ∈ s.tasks.head?, ∀ id ∈ t.answered,
      s.gateway.orderSessions.lookup id ≠ none → s.gateway.active id ≠ none →
        ¬ s.Acknowledged id))
  | .message _ _ | .logon _ | .handle | .persist | .registerSymbol _ => isTrue trivial

/-! ## The sent messages and the reports of the run -/

/-- A logon acknowledges nothing. -/
lemma not_acknowledges_logon {session : SessionID} {report : ExecutionReport} {id : String}
    (h : report ∈ executionReports (s.sends (.logon session))) : ¬ report.Acknowledges id := by
  obtain ⟨session', hm⟩ := mem_executionReports.mp h
  obtain ⟨r, hr, heq⟩ := List.mem_map.mp hm
  obtain rfl := ClientMessage.execReport.inj (Prod.mk.inj heq).2
  rintro ⟨-, hexec⟩
  rcases List.mem_append.mp hr with hr | hr
  · obtain ⟨o, -, rfl⟩ := List.mem_map.mp hr
    rcases hexec with hexec | hexec <;>
      exact absurd (show ExecType.OrderStatus.char = _ from hexec) (by decide)
  · rw [FixGateway.historicalReports] at hr
    split at hr
    · exact absurd hr List.not_mem_nil
    · obtain ⟨f, hf, rfl⟩ := List.mem_map.mp hr
      obtain ⟨row, -, hrow⟩ := List.mem_filterMap.mp hf
      split at hrow
      · exact absurd hrow (by simp)
      · rw [Option.ite_none_right_eq_some] at hrow
        obtain ⟨-, hrow⟩ := hrow
        obtain rfl := Option.some.inj hrow
        simp only [makeHistoricalFillReport] at hexec
        split_ifs at hexec <;> rcases hexec with hexec | hexec <;> exact absurd hexec (by decide)

lemma StartsOn.sent {cfg : Config} {db : Database} (h : StartsOn cfg db s) :
    s.gateway.sent = [] := by
  cases h with
  | fresh => rfl
  | recovered => rfl

/-- An order is acknowledged by a report of the run. -/
lemma acknowledged_iff {cfg : Config} {db : Database} {s₀ : System} {ok : System → Action → Prop}
    (hstart : StartsOn cfg db s₀) (h : Transition.Reaches step ok s₀ as s) (id : String) :
    s.Acknowledged id ↔ ∃ report ∈ s₀.liveReports as, report.Acknowledges id := by
  induction h with
  | refl =>
    rw [Acknowledged, hstart.sent]
    exact Iff.rfl
  | @snoc as t u a h _ hstep ih =>
    have hlog := liveReports_snoc h a
    have hsent : ∀ report, report ∈ executionReports u.gateway.sent ↔
        report ∈ executionReports t.gateway.sent ∨ report ∈ executionReports (t.sends a) := by
      intro report
      rw [sent_step hstep, executionReports_append, List.mem_append]
    have hnew : (∃ report ∈ executionReports (t.sends a), report.Acknowledges id) ↔
        ∃ report ∈ executionReports (t.liveSends a), report.Acknowledges id := by
      cases a with
      | logon session =>
        refine ⟨fun ⟨report, hr, hack⟩ => absurd hack (not_acknowledges_logon hr), ?_⟩
        rintro ⟨report, hr, -⟩
        exact absurd hr List.not_mem_nil
      | _ => exact Iff.rfl
    rw [hlog]
    simp only [List.mem_append, or_and_right, exists_or, ← hnew, ← ih]
    rw [Acknowledged]
    simp only [hsent, or_and_right, exists_or]
    exact Iff.rfl

/-! ## The ids of the reports so far -/

/-- The ids of the fills that are still to be reported. -/
def toReport (s : System) : List String := s.tasks.flatMap Task.fillIds

/-- The ids of the fills, reported and still to be reported, are ids that the books have given,
each of them once. -/
structure FillsNumbered (s : System) (reports : List ExecutionReport) : Prop where
  nodup : (fillIdsOf reports ++ s.toReport).Nodup
  given : ∀ id ∈ fillIdsOf reports ++ s.toReport, ∃ sym b n,
    s.engine.books.lookup sym = some b ∧ n ≤ b.execSeq ∧ id = fillId sym n

/-- What a task reports, it does not report again. -/
lemma toReport_task {t : Task} {ts : List Task} (ht : s.tasks = t :: ts) :
    fillIdsOf (executionReports (t.sends s.gateway)) ++ (s.gateway.runTask t).2.flatMap Task.fillIds
        = t.fillIds ∨
      fillIdsOf (executionReports (t.sends s.gateway)) ++
        (s.gateway.runTask t).2.flatMap Task.fillIds = [] := by
  cases t with
  | fillRouting fill =>
    simp only [FixGateway.runTask]
    split
    · exact Or.inr rfl
    · exact Or.inl rfl
  | fillOrders fill session => exact Or.inl rfl
  | fillDone maker taker => exact Or.inl rfl
  | onTIFCancel o =>
    refine Or.inl ?_
    simp only [Task.sends]
    split <;> rfl
  | onCancel req found =>
    refine Or.inl ?_
    simp only [Task.sends]
    split
    · split_ifs <;> rfl
    · rfl
  | onReplace req found newLeavesQty =>
    refine Or.inl ?_
    simp only [Task.sends]
    split
    · split_ifs <;> rfl
    · rfl
  | onOrderRested o leavesQty => exact Or.inl rfl

/-- A step that reports no fill, keeps the tasks, and takes no number from a book. -/
lemma FillsNumbered.of_same {reports more : List ExecutionReport} (h : s.FillsNumbered reports)
    (hmore : fillIdsOf more = []) (htasks : s'.tasks = s.tasks)
    (hbooks : ∀ sym b, s.engine.books.lookup sym = some b →
      ∃ b', s'.engine.books.lookup sym = some b' ∧ b.execSeq ≤ b'.execSeq) :
    s'.FillsNumbered (reports ++ more) := by
  have hsame : fillIdsOf (reports ++ more) ++ s'.toReport = fillIdsOf reports ++ s.toReport := by
    rw [fillIdsOf_append, hmore, List.append_nil, toReport, htasks, toReport]
  refine ⟨by rw [hsame]; exact h.nodup, fun id hid => ?_⟩
  rw [hsame] at hid
  obtain ⟨sym, b, n, hb, hn, rfl⟩ := h.given id hid
  obtain ⟨b', hb', hle⟩ := hbooks sym b hb
  exact ⟨sym, b', n, hb', hn.trans hle, rfl⟩

/-- **One step** keeps the ids of the fills apart: an item gets the next numbers of its book. -/
lemma FillsNumbered.step {reports : List ExecutionReport} (h : s.FillsNumbered reports)
    (hf : s.Founded) (hstep : s.step a = some s') :
    s'.FillsNumbered (reports ++ executionReports (s.liveSends a)) := by
  have hquiet : ∀ {l : List ExecutionReport}, (∀ report, s.LiveReport a report →
      report.lastShares = none) → executionReports (s.liveSends a) = l → fillIdsOf l = [] := by
    rintro l hnone rfl
    rcases executionReports_step s a with hnil | ⟨report, hone, hlive⟩
    · rw [hnil]
      rfl
    · rw [hone, fillIdsOf, List.filter_cons_of_neg (by simp [hnone report hlive])]
      rfl
  cases a with
  | message msg session =>
    obtain ⟨-, rfl⟩ := step_message hstep
    refine h.of_same (hquiet (fun report hlive => ?_) rfl) rfl fun _ b hb => ⟨b, hb, le_rfl⟩
    cases hlive
    rfl
  | logon session =>
    obtain ⟨-, rfl⟩ := step_logon hstep
    exact h.of_same rfl rfl fun _ b hb => ⟨b, hb, le_rfl⟩
  | handle =>
    have hnone : fillIdsOf (executionReports (s.liveSends .handle)) = [] := by
      refine hquiet (fun report hlive => ?_) rfl
      cases hlive
      rfl
    rcases handle_cases hstep with ⟨o, session, -, rfl⟩ | ⟨o, session, -, rfl⟩ | ⟨item, -, rfl⟩ <;>
      exact h.of_same hnone rfl fun _ b hb => ⟨b, hb, le_rfl⟩
  | engine =>
    rcases engineStep_cases hstep with ⟨t, ts, ht, rfl⟩ | ⟨ht, item, queue, b, hq, hb, rfl⟩
    · rw [liveSends_task ht]
      have hall : s.toReport = t.fillIds ++ ts.flatMap Task.fillIds := by
        rw [toReport, ht, List.flatMap_cons]
      -- the ids after the task are those before, or without those of the task
      have hsub : (fillIdsOf (reports ++ executionReports (t.sends s.gateway)) ++
          ((s.gateway.runTask t).2 ++ ts).flatMap Task.fillIds).Sublist
            (fillIdsOf reports ++ s.toReport) := by
        rw [fillIdsOf_append, List.flatMap_append, List.append_assoc, ← List.append_assoc _ _
          (ts.flatMap Task.fillIds), hall]
        refine (List.append_sublist_append_left _).mpr ?_
        rcases toReport_task ht with heq | heq <;> rw [heq]
        exact List.sublist_append_right _ _
      exact ⟨h.nodup.sublist hsub, fun id hid => h.given id (hsub.subset hid)⟩
    · rw [liveSends_take ht]
      have hnone : s.toReport = [] := by
        rw [toReport, ht]
        rfl
      obtain ⟨fs, hfs, hnum⟩ := OrderBook.processIn_numbered b item
      have hnew : (⟨s.gateway, { s.engine with
            books := s.engine.books.insert item.symbol (processIn b item).1 }, queue,
            (processIn b item).2.flatMap Callback.tasks, s.handler⟩ : System).toReport
          = FillPair.ids fs := by
        rw [toReport, fillIds_tasks, hfs]
      have hsym : b.symbol = item.symbol := hf.books.symbol _ b hb
      rw [hsym] at hnum
      have hnodup := h.nodup
      have hgiven := h.given
      rw [hnone, List.append_nil] at hnodup hgiven
      refine ⟨?_, fun id hid => ?_⟩
      · show (fillIdsOf (reports ++ []) ++ toReport _).Nodup
        rw [hnew, List.append_nil, List.nodup_append]
        refine ⟨hnodup, hnum.nodup, fun id hid id' hid' heq => ?_⟩
        -- an id that has been given has a number that the book has passed
        obtain ⟨sym, b', n, hb', hn, rfl⟩ := hgiven id hid
        obtain ⟨k, hk, -, rfl⟩ := hnum.ids id' hid'
        obtain ⟨rfl, rfl⟩ := fillId_inj heq
        rw [hb] at hb'
        obtain rfl := Option.some.inj hb'
        omega
      · change id ∈ fillIdsOf (reports ++ []) ++ toReport _ at hid
        rw [hnew, List.append_nil] at hid
        rcases List.mem_append.mp hid with hid | hid
        · obtain ⟨sym, b', n, hb', hn, rfl⟩ := hgiven id hid
          by_cases heq : sym = item.symbol
          · subst heq
            rw [hb] at hb'
            obtain rfl := Option.some.inj hb'
            exact ⟨_, _, n, AList.lookup_insert _, hn.trans hnum.le, rfl⟩
          · exact ⟨sym, b', n, (AList.lookup_insert_ne heq).trans hb', hn, rfl⟩
        · obtain ⟨k, -, hk, rfl⟩ := hnum.ids id hid
          exact ⟨_, _, k, AList.lookup_insert _, hk, rfl⟩
  | persist =>
    obtain ⟨p, p', -, -, rfl⟩ := step_persist hstep
    exact h.of_same rfl rfl fun _ b hb => ⟨b, hb, le_rfl⟩
  | registerSymbol symbol =>
    obtain ⟨e, he, rfl⟩ := step_registerSymbol hstep
    refine h.of_same rfl rfl fun sym b hb => ?_
    rcases (MatchingEngine.registerSymbol_books he).1 sym with hsame | ⟨rfl, hnone, -⟩
    · exact ⟨b, hsame.trans hb, le_rfl⟩
    · exact absurd (hnone.symm.trans hb) (by simp)

/-! ## The ids of the other reports -/

/-- What the id of a report is made of. -/
inductive ExecIdShape (report : ExecutionReport) : Prop
  | ack (hid : report.execId = report.orderId ++ "-" ++ "ACK") (hnone : report.lastShares = none)
  | expiry (hid : report.execId = report.orderId ++ "-" ++ "TIF") (hnone : report.lastShares = none)
      (hexec : report.execType = ExecType.Canceled.char)
  | fill {sym : String} {n : ℕ} (hid : report.execId = fillId sym n)
      (hsome : report.lastShares.isSome = true)
      (hexec : report.execType = ExecType.PartFill.char ∨ report.execType = ExecType.Fill.char)

/-- The id of a report that is no fill is no id of a fill. -/
lemma suffix_ne_fillId {id text sym : String} {n : ℕ} (htext : Dashless text)
    (hdigit : text.toList.all Char.isDigit = false) : id ++ "-" ++ text ≠ fillId sym n := by
  intro h
  obtain ⟨-, rfl⟩ := append_dash_inj htext (dashless_toString n) h
  have hdigits : (toString n).toList = Nat.toDigits 10 n := Nat.toList_repr
  rw [hdigits, List.all_eq_false] at hdigit
  obtain ⟨c, hc, hnot⟩ := hdigit
  exact hnot (Nat.isDigit_of_mem_toDigits (by decide) (by decide) hc)

/-- The reports of a run have different ids.  An order that has been reported as cancelled or
refused has ended. -/
structure IdsApart (reports : List ExecutionReport) (s : System) : Prop where
  fills : s.FillsNumbered reports
  nodup : (reports.map ExecutionReport.execId).Nodup
  shape : ∀ report ∈ reports, ExecIdShape report
  issued : ∀ report ∈ reports, report.lastShares = none →
    Issued s.gateway.orderSeq report.orderId ∧
      ∀ o ∈ unacked s.handler, o.exchangeId ≠ report.orderId
  ended : ∀ report ∈ reports, report.lastShares = none → ¬ report.Acknowledges report.orderId →
    s.Ended report.orderId

/-- The id of a report is made of the order or the fill that it is about. -/
lemma LiveReport.shape {report : ExecutionReport} {reports : List ExecutionReport}
    (h : s.LiveReport a report) (hfills : s.FillsNumbered reports) : ExecIdShape report := by
  cases h with
  | rejected hid hsends => exact .ack (execId_makeExecReport _ .Rejected) rfl
  | new hh => exact .ack (execId_makeExecReport _ .New) rfl
  | expired ht hs => exact .expiry (execId_makeTifCancelReport _) rfl rfl
  | canceled ht hs ho => exact .ack (execId_makeExecReport _ .Canceled) rfl
  | replaced ht hs ho => exact .ack (execId_makeExecReport _ .Replaced) rfl
  | @fill f session ts ht =>
    have hmem : f.execId ∈ s.toReport := by
      rw [toReport, ht]
      exact List.mem_cons_self
    obtain ⟨sym, -, n, -, -, hid⟩ := hfills.given _ (List.mem_append_right _ hmem)
    refine ExecIdShape.fill hid rfl ?_
    by_cases h0 : f.leavesQty = 0
    · rw [if_pos h0]
      exact Or.inr rfl
    · rw [if_neg h0]
      exact Or.inl rfl

/-- Nothing is known about the next id. -/
lemma ended_next (hf : s.Founded) (hidle : s.handler = .idle) {t : System}
    (hengine : t.engine = s.engine) (hqueue : t.queue = s.queue) (htasks : t.tasks = s.tasks)
    (hactive : t.gateway.active = s.gateway.active) (hpending : t.handler.pending = none)
    (hissued : Issued t.gateway.orderSeq (exchangeId (s.gateway.orderSeq + 1))) :
    t.Ended (exchangeId (s.gateway.orderSeq + 1)) := by
  have hne : ∀ {id}, s.Known id → id ≠ exchangeId (s.gateway.orderSeq + 1) := fun hk => hk.1.ne_next
  refine ⟨⟨hissued, by rw [hpending]; simp⟩, ?_, fun sym b hb n hn => ?_, fun o ho => ?_,
    fun t' ht' htells => ?_⟩
  · rw [hactive, Option.eq_none_iff_forall_ne_some]
    intro o ho
    rcases (hf.maps.active _ o ho).2 with hk | hh
    · exact hne hk rfl
    · rw [hidle] at hh
      exact absurd hh (by simp)
  · rw [hengine] at hb
    exact hne (hf.books.orders sym b hb n hn).2
  · rw [hqueue] at ho
    exact hne (hf.queue.known _ ho)
  · rw [htasks] at ht'
    refine hne (hf.tasks t' ht' _ ?_) rfl
    cases t' <;> first | exact List.mem_singleton.mpr (Option.some.inj htells).symm |
      exact absurd htells (by simp [Task.tells])

/-- **An order whose end is reported has ended.** -/
lemma LiveReport.ended {report : ExecutionReport} (h : s.LiveReport a report) (hf : s.Founded)
    (hc : s.Closing) (hstep : s.step a = some s') (hnone : report.lastShares = none)
    (hack : ¬ report.Acknowledges report.orderId) : s'.Ended report.orderId := by
  cases a with
  | engine =>
    have hmem := h.mem_sends
    have hcanceled : report.execType = ExecType.Canceled.char := by
      cases h with
      | fill ht => exact absurd hnone (by simp [makeFillReport])
      | expired ht hs => rfl
      | canceled ht hs ho => rfl
      | replaced ht hs ho => exact absurd ⟨rfl, Or.inr rfl⟩ hack
    rcases engineStep_cases hstep with ⟨t, ts, ht, rfl⟩ | ⟨ht, item, queue, b, hq, hb, rfl⟩
    · rw [liveSends_task ht] at hmem
      obtain ⟨session, hmem⟩ := mem_executionReports.mp hmem
      have hword : report.execType ∈ reportTypes report.orderId (t.sends s.gateway) :=
        List.mem_filterMap.mpr ⟨_, hmem, if_pos rfl⟩
      rcases reportTypes_task (fun id o ho => (hf.maps.active id o ho).1) t report.orderId with
        hnil | ⟨hid, -, c, hone, hkind⟩
      · rw [hnil] at hword
        exact absurd hword List.not_mem_nil
      · rw [hone] at hword
        obtain rfl := List.mem_singleton.mp hword
        have hrest : (s.gateway.runTask t).2 = [] := runTask_rest (List.ne_nil_of_mem hmem)
        rcases hkind with hmiddle | ⟨-, hcloses, hactive⟩
        · rw [hcanceled] at hmiddle
          rcases hmiddle with hmiddle | hmiddle <;> exact absurd hmiddle (by decide)
        · exact ended_of_task hf hc ht hid hrest hcloses hactive
    · rw [liveSends_take ht] at hmem
      exact absurd hmem List.not_mem_nil
  | handle =>
    cases h with
    | new hh => exact absurd ⟨rfl, Or.inl rfl⟩ hack
  | message msg session =>
    cases h with
    | @rejected m _ o text hid hsends =>
      have hreported : reportTypes (exchangeId (s.gateway.orderSeq + 1))
          (s.liveSends (.message (.newOrder m) session)) ≠ [] := by
        show reportTypes _ (s.sends (.message (.newOrder m) session)) ≠ []
        rw [hsends, reportTypes_report]
        exact fun hnil => absurd ((if_pos hid).symm.trans hnil) (by simp)
      have hissued := issued_of_reported hf hstep hreported
      obtain ⟨hidle, rfl⟩ := step_message hstep
      show System.Ended _ o.exchangeId
      rw [hid]
      have hpending : (s.onMessage session (.newOrder m)).2.pending = none := by
        rcases (onMessage_sent s session (.newOrder m)).2 with h | ⟨_, _, _, _, _, _, h⟩ |
            ⟨_, _, _, _, h⟩
        · rw [hsends] at h
          exact absurd h (by simp)
        all_goals rw [h]; rfl
      refine ended_next hf hidle rfl rfl rfl ?_ hpending hissued
      rcases onMessage_cases s session (.newOrder m) with ⟨seq, sent, heq, -⟩ | ⟨_, _, _, _, heq⟩ |
          ⟨_, _, _, _, heq⟩ | ⟨_, _, _, _, heq⟩ <;>
        rw [heq] <;> rfl
  | logon session => cases h
  | persist => cases h
  | registerSymbol symbol => cases h

/-- The id of a report is new, unless the step answers a cancel or a replace for an order that
has been acknowledged. -/
lemma IdsApart.fresh {reports : List ExecutionReport} {report : ExecutionReport}
    (h : IdsApart reports s) (hf : s.Founded) (hlive : s.LiveReport a report)
    (hok : s.AnswersFirst a)
    (hlog : ∀ r ∈ reports, r.Acknowledges r.orderId → s.Acknowledged r.orderId) :
    ∀ r ∈ reports, r.execId ≠ report.execId := by
  intro r hr heq
  -- a report with the id of an acknowledgement is about the same order
  have hack : ∀ o : Order, report.execId = o.exchangeId ++ "-" ++ "ACK" →
      r.orderId = o.exchangeId ∧ r.lastShares = none := by
    intro o ho
    rw [ho] at heq
    cases h.shape r hr with
    | ack hid hnone =>
      rw [hid] at heq
      exact ⟨(append_dash_inj (by decide) (by decide) heq).1, hnone⟩
    | expiry hid hnone hexec =>
      rw [hid] at heq
      exact absurd (append_dash_inj (by decide) (by decide) heq).2 (by decide)
    | fill hid _ _ =>
      rw [hid] at heq
      exact absurd heq.symm (suffix_ne_fillId (by decide) (by decide))
  -- an answer is about an order that is open and has not been acknowledged
  have hanswer : ∀ {t : Task} {ts : List Task} {id : String} {o : Order} {session : SessionID},
      a = .engine → s.tasks = t :: ts → t.answered = some id →
      s.gateway.orderSessions.lookup id = some session → s.gateway.active id = some o →
      r.orderId = id → r.lastShares = none → False := by
    rintro t ts id o session rfl ht hid hs ho rfl hnone
    by_cases hacked : r.Acknowledges r.orderId
    · exact hok t (by rw [ht]; rfl) _ hid (by rw [hs]; simp) (by rw [ho]; simp)
        (hlog r hr hacked)
    · exact absurd ((h.ended r hr hnone hacked).active.symm.trans ho) (by simp)
  cases hlive with
  | @rejected _ _ o _ hid hsends =>
    obtain ⟨hsame, hnone⟩ := hack o (execId_makeExecReport o .Rejected)
    exact (h.issued r hr hnone).1.ne_next (hsame.trans hid)
  | @new o session hh =>
    obtain ⟨hsame, hnone⟩ := hack o (execId_makeExecReport o .New)
    exact (h.issued r hr hnone).2 o (by rw [hh]; rfl) hsame.symm
  | @fill f session ts ht =>
    have hgiven := h.fills
    have hmem : f.execId ∈ s.toReport := by
      rw [toReport, ht]
      exact List.mem_cons_self
    obtain ⟨sym, -, n, -, -, hid⟩ := hgiven.given _ (List.mem_append_right _ hmem)
    have hexec : (makeFillReport f (if f.leavesQty = 0 then .Fill else .PartFill)).execId
        = f.execId := rfl
    rw [hexec] at heq
    cases h.shape r hr with
    | ack hid' _ =>
      rw [hid', hid] at heq
      exact suffix_ne_fillId (by decide) (by decide) heq
    | expiry hid' _ _ =>
      rw [hid', hid] at heq
      exact suffix_ne_fillId (by decide) (by decide) heq
    | fill hid' hsome _ =>
      have hmem' : r.execId ∈ fillIdsOf reports :=
        List.mem_map_of_mem (List.mem_filter.mpr ⟨hr, hsome⟩)
      exact (List.nodup_append.mp hgiven.nodup).2.2 _ hmem' _ hmem heq
  | @expired o session ts ht hs =>
    rw [execId_makeTifCancelReport] at heq
    cases h.shape r hr with
    | ack hid _ =>
      rw [hid] at heq
      exact absurd (append_dash_inj (by decide) (by decide) heq).2 (by decide)
    | expiry hid hnone hexec =>
      rw [hid] at heq
      have hsame := (append_dash_inj (by decide) (by decide) heq).1
      have hended := h.ended r hr hnone (by
        rintro ⟨-, hnew | hnew⟩ <;> rw [hexec] at hnew <;> exact absurd hnew (by decide))
      refine hended.tasks (.onTIFCancel o) (by rw [ht]; exact List.mem_cons_self) ?_
      rw [hsame]
      rfl
    | fill hid _ _ =>
      rw [hid] at heq
      exact suffix_ne_fillId (by decide) (by decide) heq.symm
  | @canceled req o session ts ht hs ho =>
    obtain ⟨hsame, hnone⟩ := hack o (execId_makeExecReport o .Canceled)
    have hid : o.exchangeId = req.origOrderId := (hf.maps.active _ o ho).1
    exact hanswer rfl ht rfl hs ho (hsame.trans hid) hnone
  | @replaced req n o session ts ht hs ho =>
    obtain ⟨hsame, hnone⟩ := hack o (execId_makeExecReport _ .Replaced)
    have hid : o.exchangeId = req.origOrderId := (hf.maps.active _ o ho).1
    exact hanswer rfl ht rfl hs ho (hsame.trans hid) hnone

/-- The counter and the handler after a step, for an order that has an id. -/
lemma issued_unacked_step (hstep : s.step a = some s') {id : String}
    (h : Issued s.gateway.orderSeq id ∧ ∀ o ∈ unacked s.handler, o.exchangeId ≠ id) :
    Issued s'.gateway.orderSeq id ∧ ∀ o ∈ unacked s'.handler, o.exchangeId ≠ id := by
  obtain ⟨hissued, hun⟩ := h
  obtain ⟨n, hn, -⟩ := assigns_step hstep
  refine ⟨hissued.mono (by omega), fun o ho => ?_⟩
  cases a with
  | message msg session =>
    obtain ⟨-, rfl⟩ := step_message hstep
    rcases onMessage_cases s session msg with ⟨seq, sent, heq, -⟩ | ⟨m, o', rfl, ho', heq⟩ |
        ⟨m, req, -, -, heq⟩ | ⟨m, req, -, -, heq⟩ <;>
      simp only [heq] at ho
    · exact absurd ho (by simp [unacked])
    · obtain rfl := Option.some.inj ho
      rw [ho'.exchangeId]
      exact hissued.ne_next.symm
    · exact absurd ho (by simp [unacked])
    · exact absurd ho (by simp [unacked])
  | logon session =>
    obtain ⟨-, rfl⟩ := step_logon hstep
    exact hun o ho
  | handle =>
    rcases handle_cases hstep with ⟨o', session, hh, rfl⟩ | ⟨o', session, hh, rfl⟩ |
        ⟨item, hitem, rfl⟩
    · exact hun o (by rw [hh]; exact ho)
    · exact absurd ho (by simp [unacked])
    · exact absurd ho (by simp [unacked])
  | engine =>
    rcases engineStep_cases hstep with ⟨t, ts, -, rfl⟩ | ⟨-, item, queue, b, -, -, rfl⟩ <;>
      exact hun o ho
  | persist =>
    obtain ⟨p, p', -, -, rfl⟩ := step_persist hstep
    exact hun o ho
  | registerSymbol symbol =>
    obtain ⟨e, -, rfl⟩ := step_registerSymbol hstep
    exact hun o ho

/-- The order of a report that is no fill has an id, and is not waiting to be acknowledged. -/
lemma LiveReport.issued {report : ExecutionReport} (h : s.LiveReport a report) (hf : s.Founded)
    (hstep : s.step a = some s') (hnone : report.lastShares = none) :
    Issued s'.gateway.orderSeq report.orderId ∧
      ∀ o ∈ unacked s'.handler, o.exchangeId ≠ report.orderId := by
  have hknown : ∀ {id}, s.Known id → Issued s.gateway.orderSeq id ∧
      ∀ o ∈ unacked s.handler, o.exchangeId ≠ id :=
    fun hk => ⟨hk.1, fun o ho => (hk.2 o (pending_of_unacked ho)).symm⟩
  have htask : ∀ {t : Task} {ts : List Task} {id : String}, s.tasks = t :: ts → id ∈ t.ids →
      Issued s'.gateway.orderSeq id ∧ ∀ o ∈ unacked s'.handler, o.exchangeId ≠ id :=
    fun ht hid => issued_unacked_step hstep
      (hknown (hf.tasks _ (by rw [ht]; exact List.mem_cons_self) _ hid))
  cases h with
  | @rejected m session o text hid hsends =>
    refine ⟨?_, ?_⟩
    · show Issued _ o.exchangeId
      rw [hid]
      refine issued_of_reported hf hstep ?_
      show reportTypes _ (s.sends (.message (.newOrder m) session)) ≠ []
      rw [hsends, reportTypes_report]
      exact fun hnil => absurd ((if_pos hid).symm.trans hnil) (by simp)
    · obtain ⟨-, rfl⟩ := step_message hstep
      intro o' ho'
      rcases (onMessage_sent s session (.newOrder m)).2 with h | ⟨_, _, _, _, _, _, h⟩ |
          ⟨_, _, _, _, h⟩
      · rw [hsends] at h
        exact absurd h (by simp)
      all_goals
        rw [h] at ho'
        exact absurd ho' (by simp [unacked])
  | @new o session hh =>
    rcases handle_cases hstep with ⟨o', session, hh', rfl⟩ | ⟨o', session, hh', rfl⟩ |
        ⟨item, hitem, rfl⟩
    · rw [hh] at hh'
      exact absurd hh' (by simp)
    · refine ⟨?_, by simp [unacked]⟩
      show Issued _ o.exchangeId
      rw [(hf.handler.pending o (by rw [hh]; rfl)).1]
      exact issued_self _
    · rw [hh] at hitem
      exact absurd hitem (by simp [nextItem])
  | fill ht => exact absurd hnone (by simp [makeFillReport])
  | @expired o session ts ht hs => exact htask ht (List.mem_singleton.mpr rfl)
  | @canceled req o session ts ht hs ho =>
    have hid : o.exchangeId = req.origOrderId := (hf.maps.active _ o ho).1
    exact htask ht (List.mem_singleton.mpr hid)
  | @replaced req n o session ts ht hs ho =>
    have hid : o.exchangeId = req.origOrderId := (hf.maps.active _ o ho).1
    exact htask ht (List.mem_singleton.mpr hid)

/-- **One step** keeps the ids of the reports apart. -/
lemma IdsApart.step {reports : List ExecutionReport} (h : IdsApart reports s) (hf : s.Founded)
    (hc : s.Closing) (hstep : s.step a = some s') (hok : s.AnswersFirst a)
    (hlog : ∀ r ∈ reports, r.Acknowledges r.orderId → s.Acknowledged r.orderId) :
    IdsApart (reports ++ executionReports (s.liveSends a)) s' := by
  have hfills := h.fills.step hf hstep
  have hold : ∀ r ∈ reports, r.lastShares = none →
      Issued s'.gateway.orderSeq r.orderId ∧ ∀ o ∈ unacked s'.handler, o.exchangeId ≠ r.orderId :=
    fun r hr hnone => issued_unacked_step hstep (h.issued r hr hnone)
  have hended : ∀ r ∈ reports, r.lastShares = none → ¬ r.Acknowledges r.orderId →
      s'.Ended r.orderId := fun r hr hnone hack => (h.ended r hr hnone hack).step hf hstep
  rcases executionReports_step s a with hnil | ⟨report, hone, hlive⟩
  · rw [hnil] at hfills ⊢
    rw [List.append_nil] at hfills ⊢
    exact ⟨hfills, h.nodup, h.shape, hold, hended⟩
  · rw [hone] at hfills ⊢
    have hfresh := h.fresh hf hlive hok hlog
    refine ⟨hfills, ?_, fun r hr => ?_, fun r hr hnone => ?_, fun r hr hnone hack => ?_⟩
    · rw [List.map_append, List.nodup_append]
      refine ⟨h.nodup, List.nodup_singleton _, fun x hx y hy => ?_⟩
      obtain ⟨r, hr, rfl⟩ := List.mem_map.mp hx
      rw [List.mem_singleton.mp hy]
      exact hfresh r hr
    all_goals rcases List.mem_append.mp hr with hr | hr
    · exact h.shape r hr
    · rw [List.mem_singleton.mp hr]
      exact hlive.shape h.fills
    · exact hold r hr hnone
    · obtain rfl := List.mem_singleton.mp hr
      exact hlive.issued hf hstep hnone
    · exact hended r hr hnone hack
    · obtain rfl := List.mem_singleton.mp hr
      exact hlive.ended hf hc hstep hnone hack

/-! ## All runs -/

/-- A run that answers no cancel or replace for an acknowledged order. -/
lemma idsApart_of_run {cfg : Config} {db : Database} {s₀ : System}
    (hstart : StartsOn cfg db s₀) (hdb : db.Sound)
    (h : Transition.Reaches step AnswersFirst s₀ as s) :
    IdsApart (s₀.liveReports as) s ∧ s.Founded ∧ s.Closing := by
  induction h with
  | refl =>
    have htasks : s₀.toReport = [] := by
      cases hstart with
      | fresh => rfl
      | recovered => rfl
    have hnone : ∀ report, report ∉ s₀.liveReports [] := fun _ h => absurd h List.not_mem_nil
    refine ⟨⟨⟨?_, fun id hid => ?_⟩, List.nodup_nil, fun r hr => absurd hr (hnone r),
      fun r hr => absurd hr (hnone r), fun r hr => absurd hr (hnone r)⟩, hstart.founded hdb,
      hstart.closing⟩
    · rw [htasks]
      exact List.nodup_nil
    · rw [htasks] at hid
      exact absurd hid List.not_mem_nil
  | @snoc as t u a h hok hstep ih =>
    obtain ⟨hids, hf, hc⟩ := ih
    refine ⟨?_, hf.step hstep, hc.step hf hstep⟩
    rw [liveReports_snoc h]
    exact hids.step hf hc hstep hok fun r hr hack =>
      (acknowledged_iff hstart h _).mpr ⟨r, hr, hack⟩

/-- The answer to a cancel or a replace has the id of the acknowledgement. -/
lemma not_nodup_of_answer {cfg : Config} {db : Database} {s₀ : System}
    {ok : System → Action → Prop} (hstart : StartsOn cfg db s₀)
    (h : Transition.Reaches step ok s₀ as s) (hf : s.Founded)
    (hshape : ∀ r ∈ s₀.liveReports as, ExecIdShape r) (hnot : ¬ s.AnswersFirst a) :
    ¬ ((s₀.liveReports (as ++ [a])).map ExecutionReport.execId).Nodup := by
  rw [liveReports_snoc h, List.map_append]
  intro hnodup
  have hdisjoint := (List.nodup_append.mp hnodup).2.2
  cases a with
  | engine =>
    simp only [AnswersFirst, Classical.not_forall] at hnot
    obtain ⟨t, ht, id, hid, hs, ho, hack⟩ := hnot
    rw [not_not, acknowledged_iff hstart h] at hack
    obtain ⟨r, hr, hrid, hexec⟩ := hack
    obtain ⟨session, hs⟩ := Option.ne_none_iff_exists'.mp hs
    obtain ⟨o, ho⟩ := Option.ne_none_iff_exists'.mp ho
    -- the acknowledgement has the id of an acknowledgement
    have hrack : r.execId = id ++ "-" ++ "ACK" := by
      cases hshape r hr with
      | ack hid' _ => rw [hid', hrid]
      | expiry _ _ hcanceled =>
        rw [hcanceled] at hexec
        rcases hexec with hexec | hexec <;> exact absurd hexec (by decide)
      | fill _ _ hfill =>
        rcases hfill with hfill | hfill <;> rw [hfill] at hexec <;>
          rcases hexec with hexec | hexec <;> exact absurd hexec (by decide)
    obtain ⟨ts, htasks⟩ : ∃ ts, s.tasks = t :: ts := by
      cases htasks : s.tasks with
      | nil =>
        rw [htasks] at ht
        exact absurd ht (by simp)
      | cons t' ts =>
        rw [htasks] at ht
        exact ⟨ts, by rw [Option.some.inj ht]⟩
    have hoid : o.exchangeId = id := (hf.maps.active _ o ho).1
    cases t with
    | onCancel req found =>
      simp only [Task.answered, Option.mem_def] at hid
      split_ifs at hid with hfound
      subst hfound
      obtain rfl := Option.some.inj hid
      have hlive := LiveReport.canceled htasks hs ho
      refine hdisjoint _ (List.mem_map_of_mem hr) _ (List.mem_map_of_mem hlive.mem_sends) ?_
      rw [hrack, execId_makeExecReport, hoid]
    | onReplace req found newLeavesQty =>
      simp only [Task.answered, Option.mem_def] at hid
      split_ifs at hid with hfound
      subst hfound
      obtain rfl := Option.some.inj hid
      have hlive := LiveReport.replaced htasks hs ho
      refine hdisjoint _ (List.mem_map_of_mem hr) _ (List.mem_map_of_mem hlive.mem_sends) ?_
      rw [hrack, ← hoid]
      exact (execId_makeExecReport (FixGateway.replaced o req newLeavesQty) .Replaced).symm
    | _ => exact absurd hid (by simp [Task.answered])
  | _ => exact hnot trivial

/-- **Execution ids identify the reports of a process** about changes of orders, however the
processes before it on the database have ended, exactly as long as no cancel or replace is
answered for an order that the process has acknowledged: the answer has the id of the
acknowledgement. -/
theorem exec_ids_distinct {cfg : Config} {ok : System → Action → Prop} {stop : System → Prop}
    {ids : List (String × String)} {db : Database} {s₀ : System}
    (hlives : Lives ok stop Database.empty ids db) (hstart : StartsOn cfg db s₀)
    (h : Transition.Reaches step Any s₀ as s) :
    ((s₀.liveReports as).map ExecutionReport.execId).Nodup ↔
      Transition.Reaches step AnswersFirst s₀ as s := by
  have hdb := hlives.owned.1
  refine ⟨fun hnodup => ?_, fun hfirst => (idsApart_of_run hstart hdb hfirst).1.nodup⟩
  induction h with
  | refl => exact .refl
  | @snoc as t u a h _ hstep ih =>
    have hbefore : ((s₀.liveReports as).map ExecutionReport.execId).Nodup := by
      rw [liveReports_snoc h, List.map_append] at hnodup
      exact (List.nodup_append.mp hnodup).1
    have hfirst := ih hbefore
    obtain ⟨hids, hf, -⟩ := idsApart_of_run hstart hdb hfirst
    refine hfirst.snoc ?_ hstep
    by_contra hnot
    exact not_nodup_of_answer hstart h hf hids.shape hnot hnodup

/-- Two orders trade, and what is left of the one that rests stays. -/
def quietRun : List Action :=
  Sample.submit (Sample.limit "a" '2' 5 10) Sample.alice ++ Sample.engine 2
    ++ Sample.submit (Sample.limit "b" '1' 3 10) Sample.bob ++ Sample.engine 6

theorem exec_ids_distinct_sample :
    ∃ s, Transition.Reaches step AnswersFirst (start Sample.config) quietRun s ∧
      ((start Sample.config).liveReports quietRun).map ExecutionReport.execId
        = ["EXCH-1-ACK", "EXCH-2-ACK", "X-2", "X-1"] ∧
      (((start Sample.config).liveReports quietRun).map ExecutionReport.execId).Nodup := by
  have hreach : ∃ s, Transition.Reaches step AnswersFirst (start Sample.config) quietRun s ∧
      s.tasks = [] :=
    Transition.exists_reaches (by decide +kernel) (by decide +kernel)
  obtain ⟨s, hrun, -⟩ := hreach
  exact ⟨s, hrun, by decide +kernel, (exec_ids_distinct
    (Lives.none : Lives Any (fun _ => True) _ _ _) .fresh (hrun.mono fun _ _ _ => trivial)).mpr
      hrun⟩

/-- An order that is acknowledged and cancelled: both reports have the same id. -/
theorem exec_id_reused :
    ∃ s, RunTo Sample.config Any (Sample.submit (Sample.limit "a" '2' 5 10) Sample.alice
        ++ Sample.forward (Sample.cancel "a") Sample.alice ++ Sample.engine 4) s ∧
      ((start Sample.config).liveReports (Sample.submit (Sample.limit "a" '2' 5 10) Sample.alice
          ++ Sample.forward (Sample.cancel "a") Sample.alice ++ Sample.engine 4)).map
        (fun report => (report.execTransType, report.execType, report.execId))
          = [('0', '0', "EXCH-1-ACK"), ('0', '4', "EXCH-1-ACK")] := by
  have hreach : ∃ s, RunTo Sample.config Any
      (Sample.submit (Sample.limit "a" '2' 5 10) Sample.alice
        ++ Sample.forward (Sample.cancel "a") Sample.alice ++ Sample.engine 4) s ∧ s.tasks = [] :=
    Transition.exists_reaches (by decide +kernel) (by decide +kernel)
  obtain ⟨s, hrun, -⟩ := hreach
  exact ⟨s, hrun, by decide +kernel⟩

end System

end FixExchange
