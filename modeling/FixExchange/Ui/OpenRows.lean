/-
# The open orders on the page

The page marks a row of the blotter as active from the acknowledgement of its order to the report of
its end.  As long as nobody replaces orders, what it concludes from the reports that a client has
been sent is right: in every run, and at every moment of it, the active rows are exactly the orders
of the client that the gateway has open (`blotter_shows_open_orders`).
-/
import FixExchange.System.ClOrdIds
import FixExchange.System.LiveReports
import FixExchange.Ui.Blotter

namespace FixExchange

/-! ## Reports on the page -/

/-- How the numbers in a message are written. -/
structure NumberText where
  qty : ℤ → String
  price : Price → String

/-- An execution report as `recv` returns it, without the header and the trailer. -/
def ExecutionReport.message (text : NumberText) (r : ExecutionReport) : ExecMessage :=
  ([⟨"37", r.orderId⟩, ⟨"17", r.execId⟩, ⟨"20", r.execTransType.toString⟩,
      ⟨"150", r.execType.toString⟩, ⟨"39", r.ordStatus.toString⟩, ⟨"55", r.symbol⟩,
      ⟨"54", r.side.toString⟩, ⟨"151", text.qty r.leavesQty⟩, ⟨"14", text.qty r.cumQty⟩,
      ⟨"6", text.price r.avgPx⟩, ⟨"11", r.clOrdId⟩, ⟨"38", text.qty r.orderQty⟩]
    ++ (r.price.map fun p => ⟨"44", text.price p⟩).toList
    ++ (r.lastShares.map fun q => ⟨"32", text.qty q⟩).toList
    ++ (r.origClOrdId.map fun id => ⟨"41", id⟩).toList
    ++ (r.text.map fun t => ⟨"58", t⟩).toList : List (Σ _ : String, String)).toAList

section

variable (text : NumberText) (r : ExecutionReport)

lemma ExecutionReport.clordId_message : (r.message text).clordId = some r.clOrdId := by
  rw [ExecMessage.clordId, message, List.toAList, AList.lookup, List.dlookup_dedupKeys]
  rfl

lemma ExecutionReport.execType_message :
    (r.message text).execType = some r.execType.toString := by
  rw [ExecMessage.execType, message, List.toAList, AList.lookup, List.dlookup_dedupKeys]
  rfl

end

/-- The execution reports that a client is sent. -/
def reportsTo (client : String) (messages : List (SessionID × ClientMessage)) :
    List ExecutionReport :=
  executionReports (messages.filter fun message => message.1.targetCompID = client)

/-- What a page makes of the reports that a client is sent. -/
def blotterOf {F : Type} (num : PageNumbers F) (text : NumberText) (client : String)
    (messages : List (SessionID × ClientMessage)) : Blotter F :=
  (reportsTo client messages).foldl (fun b r => b.onExec num (r.message text)) Blotter.init

namespace OrderLedger

variable {A : OrderLedger} {id client x : String} {o : Order}

/-- A client has an order open under a client id. -/
def OpenAs (A : OrderLedger) (client clordId : String) : Prop :=
  ∃ id o, A id = some o ∧ o.clientId = client ∧ o.clordId = clordId

/-- No two open orders have the same client id. -/
def OneEach (A : OrderLedger) : Prop :=
  ∀ id o id' o', A id = some o → A id' = some o' → o.clordId = o'.clordId → id = id'

lemma openAs_put_self : OpenAs (A.put id o) o.clientId o.clordId :=
  ⟨id, o, Ledger.put_self, rfl, rfl⟩

lemma openAs_put (hnone : A id = none) (hother : o.clientId = client → o.clordId ≠ x) :
    OpenAs (A.put id o) client x ↔ OpenAs A client x := by
  constructor
  · rintro ⟨id', o', ho', hclient, hx⟩
    by_cases hid : id' = id
    · rw [hid, Ledger.put_self] at ho'
      obtain rfl := Option.some.inj ho'
      exact absurd hx (hother hclient)
    · rw [Ledger.put_of_ne hid] at ho'
      exact ⟨id', o', ho', hclient, hx⟩
  · rintro ⟨id', o', ho', hopen⟩
    have hid : id' ≠ id := by
      rintro rfl
      exact absurd (hnone.symm.trans ho') (by simp)
    exact ⟨id', o', by rw [Ledger.put_of_ne hid]; exact ho', hopen⟩

lemma openAs_drop (ho : A id = some o) (hother : o.clientId = client → o.clordId ≠ x) :
    OpenAs (A.drop id) client x ↔ OpenAs A client x := by
  constructor
  · rintro ⟨id', o', ho', hopen⟩
    exact ⟨id', o', Ledger.of_drop_eq_some ho', hopen⟩
  · rintro ⟨id', o', ho', hclient, hx⟩
    have hid : id' ≠ id := by
      rintro rfl
      obtain rfl := Option.some.inj (ho.symm.trans ho')
      exact hother hclient hx
    exact ⟨id', o', by rw [Ledger.drop_of_ne hid]; exact ho', hclient, hx⟩

/-- An order that stays open is open under the same client id. -/
lemma openAs_setOpen {leavesQty : ℤ} (h0 : leavesQty ≠ 0) :
    OpenAs (A.setOpen id leavesQty) client x ↔ OpenAs A client x := by
  have hsame : ∀ id', A.setOpen id leavesQty id'
      = if id' = id then (A id).map fun o => o.withLeaves leavesQty else A id' := by
    intro id'
    split_ifs with hid
    · rw [hid, setOpen_self, if_neg h0]
    · exact setOpen_of_ne hid
  constructor
  · rintro ⟨id', o', ho', hclient, hx⟩
    rw [hsame] at ho'
    split_ifs at ho' with hid
    · obtain ⟨o, ho, rfl⟩ := Option.map_eq_some_iff.mp ho'
      exact ⟨id, o, ho, hclient, hx⟩
    · exact ⟨id', o', ho', hclient, hx⟩
  · rintro ⟨id', o', ho', hclient, hx⟩
    by_cases hid : id' = id
    · refine ⟨id', o'.withLeaves leavesQty, ?_, hclient, hx⟩
      rw [hsame, if_pos hid, ← hid, ho']
      rfl
    · exact ⟨id', o', by rw [hsame, if_neg hid]; exact ho', hclient, hx⟩

end OrderLedger

namespace Blotter

variable {F : Type} {num : PageNumbers F} {text : NumberText} {b : Blotter F} {client x : String}

/-- There is an active row for an order. -/
def Shows (b : Blotter F) (clordId : String) : Prop :=
  ∃ line ∈ b.lineOf (some clordId), line.active = true

/-- What a row of the order says of it for good. -/
def told (num : PageNumbers F) (text : NumberText) (o : Order) : OrderDetails F :=
  num.details ((makeExecReport o .New).message text)

/-- The active rows are the open orders of a client, and say of them what they are. -/
structure ShowsOpen (b : Blotter F) (num : PageNumbers F) (text : NumberText) (client : String)
    (A : OrderLedger) : Prop where
  active : ∀ x, b.Shows x ↔ A.OpenAs client x
  details : ∀ id o, A id = some o → o.clientId = client →
    ∀ line ∈ b.lineOf (some o.clordId), line.toOrderDetails = told num text o

variable {r : ExecutionReport}

lemma shows_of_ne (h : x ≠ r.clOrdId) :
    (b.onExec num (r.message text)).Shows x ↔ b.Shows x := by
  have hne : some x ≠ (r.message text).clordId := by
    rw [r.clordId_message]
    simpa using h
  rw [Shows, lineOf_onExec_of_ne b hne, Shows]

/-- What a report that tells no status does to the row of its order. -/
lemma lineOf_report {t : String} (ht : r.execType.toString = t)
    (hlist : t ∈ ["0", "1", "2", "4", "8"]) :
    (b.onExec num (r.message text)).lineOf (some r.clOrdId)
      = if t = "0" then some (num.line (r.message text))
        else
          match b.lineOf (some r.clOrdId) with
          | some l =>
            some { num.line (r.message text) with toOrderDetails := l.toOrderDetails }
          | none =>
            if t = "2" ∨ t = "4" then some (num.endedLine (r.message text)) else none := by
  have hid := r.clordId_message text
  have htype : (r.message text).execType = some t := by rw [r.execType_message, ht]
  have hstatus : ¬ (r.message text).IsStatus := by
    rw [ExecMessage.IsStatus, htype]
    rintro h
    rw [Option.some.inj h] at hlist
    exact absurd hlist (by decide)
  have hname : ¬ ∃ name ∈ (r.message text).execType, name ∈ Browser.inherited := by
    rw [htype]
    rintro ⟨name, hname, hmem⟩
    obtain rfl := Option.some.inj hname
    have hall : ∀ t ∈ ["0", "1", "2", "4", "8"], t ∉ Browser.inherited := by decide
    exact hall t hlist hmem
  rw [onExec, if_neg hstatus, if_neg hname, htype, hid]
  by_cases hnew : t = "0"
  · rw [if_pos (congrArg some hnew), if_pos hnew, lineOf_enter, if_pos rfl]
  rw [if_neg (by simpa using hnew), if_neg hnew]
  have hcloses : (r.message text).Closes ↔ t = "2" ∨ t = "4" := by
    rw [ExecMessage.Closes, htype, Option.some_inj, Option.some_inj]
  cases ho : b.orders.lookup (some r.clOrdId) with
  | some o =>
    have hline : b.lineOf (some r.clOrdId) = some o.line := by rw [lineOf, ho]; rfl
    dsimp only
    rw [lineOf_assign, if_pos rfl, hline]
  | none =>
    have hline : b.lineOf (some r.clOrdId) = none := by rw [lineOf, ho]; rfl
    dsimp only
    rw [hline]
    by_cases hc : t = "2" ∨ t = "4"
    · rw [if_pos (hcloses.mpr hc), if_pos hc, lineOf_enter, if_pos rfl]
    · rw [if_neg (mt hcloses.mp hc), if_neg hc, hline]

lemma active_line {t : String} (ht : r.execType.toString = t) :
    (num.line (r.message text)).active = decide (t ∉ ["2", "4", "8"]) := by
  show PageNumbers.active (r.message text).execType = _
  rw [r.execType_message, ht, PageNumbers.active]
  simp

lemma shows_new (h : r.execType = ExecType.New.char) :
    (b.onExec num (r.message text)).Shows r.clOrdId := by
  have ht : r.execType.toString = "0" := by rw [h]; decide
  refine ⟨_, lineOf_report ht (by decide), ?_⟩
  rw [active_line ht]
  decide

lemma shows_part (h : r.execType = ExecType.PartFill.char) (hb : b.Shows r.clOrdId) :
    (b.onExec num (r.message text)).Shows r.clOrdId := by
  have ht : r.execType.toString = "1" := by rw [h]; decide
  obtain ⟨l, hl, -⟩ := hb
  have hline : (b.onExec num (r.message text)).lineOf (some r.clOrdId) = _ :=
    lineOf_report ht (by decide)
  rw [Option.mem_def.mp hl] at hline
  refine ⟨_, hline, ?_⟩
  show (num.line (r.message text)).active = true
  rw [active_line ht]
  decide

lemma not_shows_end (h : IsTerminal r.execType ∨ r.execType = ExecType.Rejected.char) :
    ¬ (b.onExec num (r.message text)).Shows r.clOrdId := by
  obtain ⟨t, ht, hlist⟩ : ∃ t, r.execType.toString = t ∧ t ∈ ["2", "4", "8"] := by
    rcases h with (h | h) | h <;> rw [h] <;> exact ⟨_, rfl, by decide⟩
  have hall : ∀ t ∈ ["2", "4", "8"], t ∈ ["0", "1", "2", "4", "8"] ∧ t ≠ "0" := by decide
  rintro ⟨l, hl, hactive⟩
  have hinactive : (num.line (r.message text)).active = _ := active_line ht
  rw [decide_eq_false (not_not.mpr hlist)] at hinactive
  rw [lineOf_report ht (hall t hlist).1, if_neg (hall t hlist).2] at hl
  split at hl
  · rw [← Option.some.inj hl] at hactive
    exact absurd (hinactive.symm.trans hactive) (by decide)
  · split_ifs at hl
    · rw [← Option.some.inj hl] at hactive
      exact absurd hactive (by simp [PageNumbers.endedLine])
    · exact absurd hl (by simp)

/-! ## Reports about open orders -/

variable {A A' : OrderLedger} {id : String} {o : Order}

lemma lineOf_of_ne (h : x ≠ r.clOrdId) :
    (b.onExec num (r.message text)).lineOf (some x) = b.lineOf (some x) := by
  refine lineOf_onExec_of_ne b ?_
  rw [r.clordId_message]
  simpa using h

/-- A change that leaves the open orders of the client as they are. -/
lemma ShowsOpen.congr (h : b.ShowsOpen num text client A)
    (hsame : ∀ x, A'.OpenAs client x ↔ A.OpenAs client x)
    (horders : ∀ id o, A' id = some o → o.clientId = client → ∃ o', A id = some o' ∧
      o'.clientId = client ∧ o'.clordId = o.clordId ∧ told num text o' = told num text o) :
    b.ShowsOpen num text client A' := by
  refine ⟨fun x => (h.active x).trans (hsame x).symm, fun id o ho hclient line hline => ?_⟩
  obtain ⟨o', ho', hclient', hclord, htold⟩ := horders id o ho hclient
  rw [← htold]
  exact h.details id o' ho' hclient' line (by rw [hclord]; exact hline)

/-- An order of somebody else is entered. -/
lemma ShowsOpen.put_other (h : b.ShowsOpen num text client A) (hnone : A id = none)
    (hother : o.clientId ≠ client) : b.ShowsOpen num text client (A.put id o) := by
  refine h.congr (fun x => OrderLedger.openAs_put hnone fun hoc => absurd hoc hother)
    fun id' o' ho' hclient => ?_
  by_cases hid : id' = id
  · rw [hid, Ledger.put_self] at ho'
    obtain rfl := Option.some.inj ho'
    exact absurd hclient hother
  · rw [Ledger.put_of_ne hid] at ho'
    exact ⟨o', ho', hclient, rfl, rfl⟩

/-- An order of somebody else ends. -/
lemma ShowsOpen.drop_other (h : b.ShowsOpen num text client A) (ho : A id = some o)
    (hother : o.clientId ≠ client) : b.ShowsOpen num text client (A.drop id) :=
  h.congr (fun _ => OrderLedger.openAs_drop ho fun hoc => absurd hoc hother)
    fun _ o' ho' hclient => ⟨o', Ledger.of_drop_eq_some ho', hclient, rfl, rfl⟩

/-- An order is filled, and stays open. -/
lemma ShowsOpen.setOpen (h : b.ShowsOpen num text client A) {leavesQty : ℤ} (h0 : leavesQty ≠ 0) :
    b.ShowsOpen num text client (A.setOpen id leavesQty) := by
  refine h.congr (fun _ => OrderLedger.openAs_setOpen h0) fun id' o' ho' hclient => ?_
  by_cases hid : id' = id
  · rw [hid, OrderLedger.setOpen_self, if_neg h0] at ho'
    obtain ⟨o, ho, rfl⟩ := Option.map_eq_some_iff.mp ho'
    exact ⟨o, by rw [hid]; exact ho, hclient, rfl, rfl⟩
  · rw [OrderLedger.setOpen_of_ne hid] at ho'
    exact ⟨o', ho', hclient, rfl, rfl⟩

/-- A report that is right about its order, when the other orders are shown as they are. -/
lemma ShowsOpen.report (h : b.ShowsOpen num text client A')
    (hsame : ∀ x, x ≠ r.clOrdId → (A.OpenAs client x ↔ A'.OpenAs client x))
    (horders : ∀ id o, A id = some o → o.clordId ≠ r.clOrdId → A' id = some o)
    (hright : (b.onExec num (r.message text)).Shows r.clOrdId ↔ A.OpenAs client r.clOrdId)
    (hdetails : ∀ id o, A id = some o → o.clientId = client → o.clordId = r.clOrdId →
      ∀ line ∈ (b.onExec num (r.message text)).lineOf (some r.clOrdId),
        line.toOrderDetails = told num text o) :
    (b.onExec num (r.message text)).ShowsOpen num text client A := by
  refine ⟨fun x => ?_, fun id o ho hclient line hline => ?_⟩
  · by_cases hx : x = r.clOrdId
    · rw [hx]
      exact hright
    · rw [shows_of_ne hx, h.active x, hsame x hx]
  · by_cases hx : o.clordId = r.clOrdId
    · rw [hx] at hline
      exact hdetails id o ho hclient hx line hline
    · rw [lineOf_of_ne hx] at hline
      exact h.details id o (horders id o ho hx) hclient line hline

/-- A new order is acknowledged. -/
lemma ShowsOpen.ack (h : b.ShowsOpen num text client A) (hnone : A id = none)
    (hnew : ∀ id o', A id = some o' → o'.clordId ≠ o.clordId) (ho : o.clientId = client) :
    (b.onExec num ((makeExecReport o .New).message text)).ShowsOpen num text client
      (A.put id o) := by
  refine h.report (fun x hx => OrderLedger.openAs_put hnone fun _ heq => hx heq.symm)
    (fun id' o' ho' hne => ?_) ?_ fun id' o' ho' _ hx line hline => ?_
  · by_cases hid : id' = id
    · rw [hid, Ledger.put_self] at ho'
      exact absurd (congrArg Order.clordId (Option.some.inj ho').symm) hne
    · rwa [Ledger.put_of_ne hid] at ho'
  · have hopen : OrderLedger.OpenAs (A.put id o) client o.clordId :=
      ho ▸ OrderLedger.openAs_put_self
    exact ⟨fun _ => hopen, fun _ => shows_new rfl⟩
  · have heq : o' = o := by
      by_cases hid : id' = id
      · rw [hid, Ledger.put_self] at ho'
        exact (Option.some.inj ho').symm
      · rw [Ledger.put_of_ne hid] at ho'
        exact absurd hx (hnew id' o' ho')
    have htype : (makeExecReport o .New).execType.toString = "0" :=
      congrArg Char.toString (rfl : (makeExecReport o .New).execType = '0')
    rw [lineOf_report htype (by decide), if_pos rfl] at hline
    rw [← Option.some.inj hline, heq]
    rfl

/-- The end of an order is reported. -/
lemma ShowsOpen.ends (h : b.ShowsOpen num text client A) (hone : A.OneEach) (ho : A id = some o)
    (hid : r.clOrdId = o.clordId) (hend : IsTerminal r.execType) :
    (b.onExec num (r.message text)).ShowsOpen num text client (A.drop id) := by
  have hgone : ∀ id' o', (A.drop id) id' = some o' → o'.clordId ≠ r.clOrdId := by
    intro id' o' ho' hx
    have heq := hone id' o' id o (Ledger.of_drop_eq_some ho') ho (hx.trans hid)
    rw [heq, Ledger.drop_self] at ho'
    exact absurd ho' (by simp)
  refine h.report (fun x hx => OrderLedger.openAs_drop ho fun _ heq => hx ?_)
    (fun _ _ ho' _ => Ledger.of_drop_eq_some ho') ?_ fun id' o' ho' _ hx => ?_
  · rw [hid, heq]
  · refine iff_of_false (not_shows_end (Or.inl hend)) ?_
    rintro ⟨id', o', ho', -, hx⟩
    exact hgone id' o' ho' hx
  · exact absurd hx (hgone id' o' ho')

/-- A fill is reported of an order that stays open. -/
lemma ShowsOpen.part (h : b.ShowsOpen num text client A)
    (hopen : A.OpenAs client r.clOrdId) (htype : r.execType = ExecType.PartFill.char) :
    (b.onExec num (r.message text)).ShowsOpen num text client A := by
  have ht : r.execType.toString = "1" := by rw [htype]; decide
  refine h.report (fun _ _ => Iff.rfl) (fun _ _ ho _ => ho) ?_
    fun id o ho hclient hx line hline => ?_
  · exact ⟨fun _ => hopen, fun _ => shows_part htype ((h.active _).mpr hopen)⟩
  · obtain ⟨l, hl, -⟩ := (h.active _).mpr hopen
    rw [lineOf_report ht (by decide), if_neg (by decide), Option.mem_def.mp hl] at hline
    rw [← Option.some.inj hline]
    exact h.details id o ho hclient l (by rw [hx]; exact hl)

/-- A new order is refused. -/
lemma ShowsOpen.refuse (h : b.ShowsOpen num text client A)
    (hnot : ∀ id o, A id = some o → o.clordId ≠ r.clOrdId)
    (htype : r.execType = ExecType.Rejected.char) :
    (b.onExec num (r.message text)).ShowsOpen num text client A := by
  refine h.report (fun _ _ => Iff.rfl) (fun _ _ ho _ => ho) ?_ fun id o ho _ hx =>
    absurd hx (hnot id o ho)
  refine iff_of_false (not_shows_end (Or.inr htype)) ?_
  rintro ⟨id, o, ho, -, hx⟩
  exact hnot id o ho hx

end Blotter

/-! ## What a client is sent -/

section

variable {F : Type} {num : PageNumbers F} {text : NumberText} {client : String}
  {messages more : List (SessionID × ClientMessage)} {session : SessionID}

lemma blotterOf_nil : blotterOf num text client [] = Blotter.init := rfl

lemma blotterOf_others (h : ∀ m ∈ more, m.1.targetCompID ≠ client) :
    blotterOf num text client (messages ++ more) = blotterOf num text client messages := by
  have hnone : more.filter (fun m => m.1.targetCompID = client) = [] :=
    List.filter_eq_nil_iff.mpr fun m hm => by simpa using h m hm
  rw [blotterOf, reportsTo, List.filter_append, hnone, List.append_nil, blotterOf, reportsTo]

lemma blotterOf_report {r : ExecutionReport} (h : session.targetCompID = client) :
    blotterOf num text client (messages ++ [(session, .execReport r)])
      = (blotterOf num text client messages).onExec num (r.message text) := by
  have hone : [(session, ClientMessage.execReport r)].filter
      (fun m => m.1.targetCompID = client) = [(session, .execReport r)] := by simp [h]
  rw [blotterOf, reportsTo, List.filter_append, hone, executionReports_append, List.foldl_append]
  rfl

end

/-- The section of a fill on the routing maps leaves the open orders alone. -/
lemma FixGateway.active_fillRouting (g : FixGateway) (fill : Fill) :
    (g.runTask (.fillRouting fill)).1.active = g.active := by
  simp only [runTask, fillRouting]
  split
  · rfl
  · split_ifs <;> rfl

/-- A new order that is refused: the report has the client's id of the order. -/
lemma FixGateway.onNewOrderSingle_refuses (g : FixGateway) (engine : MatchingEngine)
    (msg : NewOrderSingle) (session : SessionID) :
    (g.onNewOrderSingle engine msg session).1.sent = g.sent ∨
      ∃ r : ExecutionReport, r.clOrdId = msg.clOrdID ∧ r.execType = ExecType.Rejected.char ∧
        (g.onNewOrderSingle engine msg session).1.sent = g.sent ++ [(session, .execReport r)] := by
  simp only [onNewOrderSingle]
  split_ifs
  · exact Or.inr ⟨_, rfl, rfl, rfl⟩
  · exact Or.inl rfl
  · exact Or.inr ⟨_, rfl, rfl, rfl⟩
  · exact Or.inr ⟨_, rfl, rfl, rfl⟩
  · exact Or.inr ⟨_, rfl, rfl, rfl⟩
  · exact Or.inl rfl

namespace System

variable {s s' : System} {a : Action} {as : List Action} {client : String}

/-! ## Runs without replaces -/

/-- Nobody replaces orders, and the client logs on while there is nothing to tell it only. -/
def Watched (client : String) (s : System) : Action → Prop
  | .message (.replace _) _ => False
  | .logon session => session.targetCompID = client →
      s.gateway.statusReports session ++ s.gateway.historicalReports session = []
  | _ => True

instance (client : String) (s : System) (a : Action) : Decidable (s.Watched client a) :=
  match a with
  | .message (.replace _) _ => isFalse id
  | .logon _ => inferInstanceAs (Decidable (_ → _))
  | .message (.newOrder _) _ | .message (.cancel _) _ | .handle | .engine | .persist
  | .registerSymbol _ => isTrue trivial

/-- No replace is on its way. -/
structure ReplaceFree (s : System) : Prop where
  coming : ∀ req, .replace req ∉ s.coming
  tasks : ∀ req found n, .onReplace req found n ∉ s.tasks

lemma ReplaceFree.notices (h : s.ReplaceFree) (req : ReplaceRequest) (n : ℤ) (p : Price) :
    .replaced req n p ∉ noticesOf s.tasks s.gateway.active :=
  fun hmem => h.tasks _ _ _ (mem_of_replaced hmem)

lemma ReplaceFree.step (h : s.ReplaceFree) (hf : s.Founded) (hok : s.Watched client a)
    (hstep : s.step a = some s') : s'.ReplaceFree := by
  refine ⟨fun req hreq => ?_, fun req found n ht => ?_⟩
  · rcases coming_step hstep hreq with hreq | ⟨o, ho⟩ | hforward
    · exact h.coming req hreq
    · exact absurd ho (by simp)
    · cases hforward
      exact hok
  · cases a with
    | message msg session =>
      obtain ⟨-, rfl⟩ := step_message hstep
      exact h.tasks req found n ht
    | logon session =>
      obtain ⟨-, rfl⟩ := step_logon hstep
      exact h.tasks req found n ht
    | handle =>
      rcases handle_cases hstep with ⟨o, session, -, rfl⟩ | ⟨o, session, -, rfl⟩ |
          ⟨item, -, rfl⟩ <;>
        exact h.tasks req found n ht
    | engine =>
      rcases engineStep_cases hstep with ⟨t, ts, ht', rfl⟩ | ⟨-, item, queue, b, hq, hb, rfl⟩
      · rcases List.mem_append.mp ht with ht | ht
        · exact absurd (runTask_closes ht).2.1 (by
            cases t with
            | fillRouting fill => simp [Task.tells]
            | _ => exact absurd ht List.not_mem_nil)
        · exact h.tasks req found n (by rw [ht']; exact List.mem_cons_of_mem _ ht)
      · -- the item that has been taken is no replace
        obtain ⟨cb, hcb, ht⟩ := List.mem_flatMap.mp ht
        have hcalls := OrderBook.calls_processIn (hf.books.wf _ b hb) hcb
        cases hcalls with
        | replaced req' =>
          refine h.coming req' (mem_coming_of_queue ?_)
          rw [hq]
          exact List.mem_cons_self
        | added | matched | killed | rested | canceled => simp [Callback.tasks] at ht
    | persist =>
      obtain ⟨p, p', -, -, rfl⟩ := step_persist hstep
      exact h.tasks req found n ht
    | registerSymbol symbol =>
      obtain ⟨e, -, rfl⟩ := step_registerSymbol hstep
      exact h.tasks req found n ht

/-- The tasks report about open orders. -/
def Telling (s : System) : Prop :=
  ∀ t ∈ s.tasks, ∀ id, t.tells = some id → s.gateway.active id ≠ none

/-- A task leaves open what the tasks behind it report about. -/
lemma Telling.task (h : s.Telling) (hc : s.Closing) (hu : s.ReplaceFree) {t : Task} {ts : List Task}
    (ht : s.tasks = t :: ts) :
    ({ s with
      gateway := (s.gateway.runTask t).1
      tasks := (s.gateway.runTask t).2 ++ ts } : System).Telling := by
  have hmem : t ∈ s.tasks := by rw [ht]; exact List.mem_cons_self
  intro t' ht' id hid
  rcases List.mem_append.mp ht' with ht' | ht'
  · have hopen := h t hmem id (by rw [← (runTask_closes ht').2.1]; exact hid)
    cases t with
    | fillRouting fill =>
      rw [FixGateway.active_fillRouting]
      exact hopen
    | _ => exact absurd ht' List.not_mem_nil
  · have hopen := h t' (by rw [ht]; exact List.mem_cons_of_mem _ ht') id hid
    have hbefore := hc.before
    rw [ht] at hbefore
    intro hnone
    rcases FixGateway.runTask_active s.gateway t with hsame | hsame
    · rw [hsame] at hnone
      exact hopen hnone
    · rw [hsame] at hnone
      rcases Task.closes_of_onActive hnone hopen with hcloses | ⟨req, rfl, -⟩
      · exact (List.pairwise_cons.mp hbefore).1 t' ht' id hcloses hid
      · exact hu.tasks _ _ _ hmem

lemma Telling.step (h : s.Telling) (hf : s.Founded) (hc : s.Closing) (hsync : s.Synced)
    (hu : s.ReplaceFree) (hstep : s.step a = some s') : s'.Telling := by
  cases a with
  | message msg session =>
    obtain ⟨-, rfl⟩ := step_message hstep
    rcases onMessage_cases s session msg with ⟨seq, sent, heq, -⟩ | ⟨m, o, -, -, heq⟩ |
        ⟨m, req, -, -, heq⟩ | ⟨m, req, -, -, heq⟩ <;>
      rw [heq] <;> exact h
  | logon session =>
    obtain ⟨-, rfl⟩ := step_logon hstep
    exact h
  | handle =>
    rcases handle_cases hstep with ⟨o, session, -, rfl⟩ | ⟨o, session, hh, rfl⟩ | ⟨item, -, rfl⟩
    · exact h
    · intro t ht id hid hnone
      obtain ⟨o', ho'⟩ := Option.ne_none_iff_exists'.mp (h t ht id hid)
      exact absurd (hnone.symm.trans (StrMap.lookup_emplace_of_some ho')) (by simp)
    · exact h
  | engine =>
    rcases engineStep_cases hstep with ⟨t, ts, ht, rfl⟩ | ⟨ht, item, queue, b, hq, hb, rfl⟩
    · exact h.task hc hu ht
    · -- the engine reports about the order that it has taken, and about resting ones
      have hmem : item ∈ s.queue := by rw [hq]; exact List.mem_cons_self
      intro t htask id hid
      show s.gateway.active id ≠ none
      rw [← openOrders_of_no_tasks ht]
      rcases tells_processIn (hf.books.wf _ b hb) htask hid with ⟨o, rfl, rfl⟩ | ⟨m, hm, rfl⟩
      · rw [hsync.orders o (mem_coming_of_queue hmem)]
        simp
      · obtain ⟨o, ho⟩ := Option.ne_none_iff_exists'.mp
          (hf.resting_iff.mpr ⟨item.symbol, b, hb, m, hm, rfl⟩)
        obtain ⟨o', ho', -⟩ := hsync.agrees _ o ho
        rw [ho']
        simp
  | persist =>
    obtain ⟨p, p', -, -, rfl⟩ := step_persist hstep
    exact h
  | registerSymbol symbol =>
    obtain ⟨e, -, rfl⟩ := step_registerSymbol hstep
    exact h

/-! ## The page and the gateway -/

variable {F : Type} {num : PageNumbers F} {text : NumberText} {own clients : Set (String × String)}

/-- What is known of the two ids of the orders, and of their clients. -/
structure Traced (s : System) (own clients : Set (String × String)) : Prop where
  founded : s.Founded
  named : s.Named own
  distinct : Distinct own
  owned : s.Owned clients clients
  single : ∀ x ∈ clients, ∀ y ∈ clients, x.1 = y.1 → x = y
  telling : s.Telling
  replaceFree : s.ReplaceFree

namespace Traced

variable {id : String} {o : Order}

lemma clordId (h : s.Traced own clients) (ho : s.gateway.active id = some o) {c : String}
    (hc : (id, c) ∈ own) : o.clordId = c :=
  congrArg Prod.snd (h.distinct _ (h.named.active id o ho) _ hc
    (Or.inl (h.founded.maps.active id o ho).1))

lemma clientId (h : s.Traced own clients) (ho : s.gateway.active id = some o) {c : String}
    (hc : (id, c) ∈ clients) : o.clientId = c :=
  congrArg Prod.snd (h.single _ (h.owned.active ho) _ hc (h.founded.maps.active id o ho).1)

lemma oneEach (h : s.Traced own clients) : s.gateway.active.OneEach := by
  intro id o id' o' ho ho' hsame
  rw [← (h.founded.maps.active id o ho).1, ← (h.founded.maps.active id' o' ho').1]
  exact congrArg Prod.fst
    (h.distinct _ (h.named.active id o ho) _ (h.named.active id' o' ho') (Or.inr hsame))

/-- The report of a task is right about its order. -/
lemma task (h : s.Traced own clients)
    (hshown : (blotterOf num text client s.gateway.sent).ShowsOpen num text client
      s.gateway.active)
    {t : Task} {ts : List Task} (ht : s.tasks = t :: ts) :
    (blotterOf num text client (s.gateway.runTask t).1.sent).ShowsOpen num text client
      (s.gateway.runTask t).1.active := by
  have hmem : t ∈ s.tasks := by rw [ht]; exact List.mem_cons_self
  -- the end of an order that is open
  have hends : ∀ {id o session} {r : ExecutionReport}, s.gateway.active id = some o →
      r.clOrdId = o.clordId → IsTerminal r.execType → session.targetCompID = o.clientId →
      (blotterOf num text client (s.gateway.sent ++ [(session, .execReport r)])).ShowsOpen num text
        client (s.gateway.active.drop id) := by
    intro id o session r ho hid hend hclient
    by_cases hc : session.targetCompID = client
    · rw [blotterOf_report hc]
      exact hshown.ends h.oneEach ho hid hend
    · rw [blotterOf_others (by simpa using hc)]
      exact hshown.drop_other ho fun hoc => hc (hclient.trans hoc)
  have hsent := FixGateway.runTask_sent s.gateway t
  rw [hsent]
  cases t with
  | fillRouting fill =>
    rw [FixGateway.active_fillRouting, Task.sends, List.append_nil]
    exact hshown
  | fillOrders fill session =>
    obtain ⟨o, ho⟩ := Option.ne_none_iff_exists'.mp (h.telling _ hmem _ rfl)
    have hclord : o.clordId = fill.clordId := h.clordId ho (h.named.tasks _ hmem)
    have hclient : o.clientId = session.targetCompID := h.clientId ho (h.owned.tasks _ hmem)
    have hactive : (s.gateway.runTask (.fillOrders fill session)).1.active
        = s.gateway.active.setOpen fill.exchangeId fill.leavesQty :=
      FixGateway.active_setLeaves _ _ _
    rw [hactive, Task.sends]
    by_cases h0 : fill.leavesQty = 0
    · have hdrop : s.gateway.active.setOpen fill.exchangeId fill.leavesQty
          = s.gateway.active.drop fill.exchangeId := by
        rw [OrderLedger.setOpen, Ledger.setAmount, if_pos h0]
      rw [hdrop, if_pos h0]
      exact hends ho hclord.symm (Or.inl rfl) hclient.symm
    · rw [if_neg h0]
      by_cases hc : session.targetCompID = client
      · rw [blotterOf_report hc]
        exact (hshown.setOpen h0).part ((OrderLedger.openAs_setOpen h0).mpr
          ⟨_, o, ho, hclient.trans hc, hclord⟩) rfl
      · rw [blotterOf_others (by simpa using hc)]
        exact hshown.setOpen h0
  | fillDone maker taker =>
    rw [Task.sends, List.append_nil]
    exact hshown
  | onCancel req found =>
    cases hs : s.gateway.orderSessions.lookup req.origOrderId with
    | none =>
      simp only [Task.sends, FixGateway.runTask, FixGateway.onCancel, hs, List.append_nil]
      exact hshown
    | some session =>
      cases ha : s.gateway.activeOrders.lookup req.origOrderId with
      | none =>
        simp only [Task.sends, FixGateway.runTask, FixGateway.onCancel, hs, ha, List.append_nil]
        exact hshown
      | some o =>
        cases found with
        | false =>
          simp only [Task.sends, FixGateway.runTask, FixGateway.onCancel, hs, ha,
            Bool.false_eq_true, if_false, List.append_nil]
          exact hshown
        | true =>
          have ho : s.gateway.active req.origOrderId = some o := ha
          have hclient := h.clientId ho (h.owned.sessions _ _ hs)
          have hactive : (s.gateway.runTask (.onCancel req true)).1.active
              = s.gateway.active.drop req.origOrderId := by
            simp only [FixGateway.runTask, FixGateway.onCancel, hs, ha]
            exact Ledger.ofAList_erase _
          rw [hactive]
          simp only [Task.sends, hs, ha, if_true]
          exact hends ho rfl (Or.inr rfl) hclient.symm
  | onTIFCancel order =>
    cases hs : s.gateway.orderSessions.lookup order.exchangeId with
    | none =>
      simp only [Task.sends, FixGateway.runTask, FixGateway.onTIFCancel, hs, List.append_nil]
      exact hshown
    | some session =>
      obtain ⟨o, ho⟩ := Option.ne_none_iff_exists'.mp (h.telling _ hmem _ rfl)
      have hclord : o.clordId = order.clordId := h.clordId ho (h.named.tasks _ hmem)
      have hclient := h.clientId ho (h.owned.sessions _ _ hs)
      have hactive : (s.gateway.runTask (.onTIFCancel order)).1.active
          = s.gateway.active.drop order.exchangeId := by
        simp only [FixGateway.runTask, FixGateway.onTIFCancel, hs]
        exact Ledger.ofAList_erase _
      rw [hactive]
      simp only [Task.sends, hs]
      exact hends ho hclord.symm (Or.inr rfl) hclient.symm
  | onReplace req found n => exact absurd hmem (h.replaceFree.tasks req found n)
  | onOrderRested o leavesQty =>
    rw [Task.sends, List.append_nil]
    exact hshown

/-- **One step** keeps the active rows of a client in agreement with its open orders. -/
theorem shown_step (h : s.Traced own clients)
    (hshown : (blotterOf num text client s.gateway.sent).ShowsOpen num text client
      s.gateway.active)
    (hok : s.Watched client a) (hnew : ∀ x ∈ own, x.2 ∉ a.clOrdIds)
    (hstep : s.step a = some s') :
    (blotterOf num text client s'.gateway.sent).ShowsOpen num text client s'.gateway.active := by
  cases a with
  | message msg session =>
    obtain ⟨-, rfl⟩ := step_message hstep
    have hactive : (s.onMessage session msg).1.active = s.gateway.active := by
      rcases onMessage_cases s session msg with ⟨seq, sent, heq, -⟩ | ⟨m, o, -, -, heq⟩ |
          ⟨m, req, -, -, heq⟩ | ⟨m, req, -, -, heq⟩ <;>
        rw [heq] <;> rfl
    show (blotterOf num text client (s.onMessage session msg).1.sent).ShowsOpen num text client
      (s.onMessage session msg).1.active
    rw [hactive]
    cases msg with
    | newOrder m =>
      rcases s.gateway.onNewOrderSingle_refuses s.engine m session with
        hsent | ⟨r, hid, htype, hsent⟩
      · rw [onMessage, hsent]
        exact hshown
      · rw [onMessage, hsent]
        by_cases hc : session.targetCompID = client
        · rw [blotterOf_report hc]
          refine hshown.refuse (fun id o ho hx => ?_) htype
          -- no order has the new id
          refine hnew _ (h.named.active id o ho) ?_
          rw [show o.name.2 = m.clOrdID from hx.trans hid]
          exact List.mem_cons_self
        · rw [blotterOf_others (by simpa using hc)]
          exact hshown
    | cancel m =>
      rw [onMessage, s.gateway.onOrderCancelRequest_sent m session]
      exact hshown
    | replace m => exact hok.elim
  | logon session =>
    obtain ⟨-, rfl⟩ := step_logon hstep
    show (blotterOf num text client (s.gateway.sent ++ _)).ShowsOpen num text client
      s.gateway.active
    rw [blotterOf_others fun m hm => ?_]
    · exact hshown
    · obtain ⟨r, hr, rfl⟩ := List.mem_map.mp hm
      intro hclient
      rw [hok hclient] at hr
      exact absurd hr List.not_mem_nil
  | handle =>
    rcases handle_cases hstep with ⟨o, session, -, rfl⟩ | ⟨o, session, hh, rfl⟩ | ⟨item, -, rfl⟩
    · exact hshown
    · have hclosed := h.founded.active_pending (o := o) (by rw [hh]; rfl) (by rw [hh]; simp)
      have hclient := h.owned.handler o session (Or.inr hh)
      have hactive : ((s.gateway.activateOrder o).ackOrder o session).active
          = s.gateway.active.put o.exchangeId o := by
        have hinsert : StrMap.emplace s.gateway.activeOrders o.exchangeId o
            = s.gateway.activeOrders.insert o.exchangeId o :=
          if_neg fun hmem => AList.lookup_eq_none.mp hclosed hmem
        exact (congrArg Ledger.ofAList hinsert).trans (Ledger.ofAList_insert _)
      show (blotterOf num text client (s.gateway.sent
        ++ [(session, .execReport (makeExecReport o .New))])).ShowsOpen num text client
          ((s.gateway.activateOrder o).ackOrder o session).active
      rw [hactive]
      by_cases hc : session.targetCompID = client
      · rw [blotterOf_report hc]
        refine hshown.ack hclosed (fun id o' ho' heq => ?_) (hclient.symm.trans hc)
        -- an open order with the same client id would be this one
        have hname : o.name ∈ own := h.named.incoming o (Or.inr (by rw [hh]; rfl))
        have hid := (h.founded.maps.active id o' ho').1
        have hsame := h.distinct _ (h.named.active id o' ho') _ hname (Or.inr heq)
        rw [← hid, show o'.exchangeId = o.exchangeId from congrArg Prod.fst hsame, hclosed] at ho'
        exact absurd ho' (by simp)
      · rw [blotterOf_others (by simpa using hc)]
        exact hshown.put_other hclosed fun hoc => hc (hclient.trans hoc)
    · exact hshown
  | engine =>
    rcases engineStep_cases hstep with ⟨t, ts, ht, rfl⟩ | ⟨-, item, queue, b, -, -, rfl⟩
    · exact h.task hshown ht
    · exact hshown
  | persist =>
    obtain ⟨p, p', -, -, rfl⟩ := step_persist hstep
    exact hshown
  | registerSymbol symbol =>
    obtain ⟨e, -, rfl⟩ := step_registerSymbol hstep
    exact hshown

end Traced

/-! ## All runs -/

lemma replaceFree_start (cfg : Config) : (start cfg).ReplaceFree :=
  ⟨by simp [coming, start, nextItem], by simp [start]⟩

lemma replaceFree_of_run {cfg : Config} (h : RunTo cfg (Watched client) as s) : s.ReplaceFree :=
  h.invariant (replaceFree_start cfg) fun _ _ _ _ hrun hu hok hstep =>
    hu.step (sound_of_run hrun).founded hok hstep

lemma closing_of_run {cfg : Config} {ok : System → Action → Prop} (h : RunTo cfg ok as s) :
    s.Closing :=
  (reported_of_run .fresh ⟨List.nodup_nil, by simp [Database.empty]⟩ h).closing

lemma synced_of_watched {cfg : Config} (h : RunTo cfg (Watched client) as s) : s.Synced :=
  synced_of_run (fun s a hok req hforward => by cases hforward; exact hok.elim) h

lemma telling_of_run {cfg : Config} (h : RunTo cfg (Watched client) as s) : s.Telling := by
  refine h.invariant (I := Telling) (by simp [Telling, start]) ?_
  intro as t a u hrun ht _ hstep
  exact ht.step (sound_of_run hrun).founded (closing_of_run hrun) (synced_of_watched hrun)
    (replaceFree_of_run hrun) hstep

lemma tracked_of_watched {cfg : Config} (h : RunTo cfg (Watched client) as s)
    (hnodup : (as.flatMap Action.clOrdIds).Nodup) : Tracked (start cfg) as s := by
  revert hnodup
  refine h.invariant_history (I := fun as s => (as.flatMap Action.clOrdIds).Nodup →
    Tracked (start cfg) as s) (fun _ => tracked_start cfg) ?_
  intro as t a u hrun ih _ hstep hnodup
  refine (ih ?_).step hrun (sound_of_run hrun).founded (replaceFree_of_run hrun).notices hstep hnodup
  rw [List.flatMap_append] at hnodup
  exact (List.nodup_append.mp hnodup).1

lemma traced_of_run {cfg : Config} (h : RunTo cfg (Watched client) as s)
    (hnodup : (as.flatMap Action.clOrdIds).Nodup) :
    s.Traced ((start cfg).names as) {x | x ∈ (start cfg).assigned as} := by
  have htracked := tracked_of_watched h hnodup
  have hkeys := nodup_owners .fresh ⟨List.nodup_nil, by simp [Database.empty]⟩ h
  refine ⟨(sound_of_run h).founded, htracked.named, htracked.distinct, (owned_of_fresh h).2, ?_,
    telling_of_run h, replaceFree_of_run h⟩
  exact fun x hx y hy heq => List.inj_on_of_nodup_map hkeys hx hy heq

/-- The active rows of the page, at every moment. -/
lemma shown_of_run (num : PageNumbers F) (text : NumberText) {cfg : Config}
    (h : RunTo cfg (Watched client) as s) (hnodup : (as.flatMap Action.clOrdIds).Nodup) :
    (blotterOf num text client s.gateway.sent).ShowsOpen num text client s.gateway.active := by
  revert hnodup
  refine h.invariant_history (I := fun as s => (as.flatMap Action.clOrdIds).Nodup →
    (blotterOf num text client s.gateway.sent).ShowsOpen num text client
    s.gateway.active) ?_ ?_
  · have hnone : ∀ id o, (start cfg).gateway.active id ≠ some o := by
      intro id o ho
      simp [start, FixGateway.active, FixGateway.init] at ho
    refine fun _ => ⟨fun x => iff_of_false ?_ ?_, fun id o ho => absurd ho (hnone id o)⟩
    · rintro ⟨line, hline, -⟩
      exact absurd hline (by simp [start, FixGateway.init, blotterOf_nil, Blotter.lineOf,
        Blotter.init])
    · rintro ⟨id, o, ho, -⟩
      exact hnone id o ho
  · intro as t a u hrun ih hok hstep hnodup
    rw [List.flatMap_append, List.flatMap_cons, List.flatMap_nil, List.append_nil] at hnodup
    obtain ⟨hbefore, -, hne⟩ := List.nodup_append.mp hnodup
    refine (traced_of_run hrun hbefore).shown_step (ih hbefore) hok (fun x hx hmem => ?_) hstep
    exact hne _ ((tracked_of_watched hrun hbefore).brought x hx) _ hmem rfl

/-- What rests between two items of the engine has an active row. -/
lemma shows_of_rests (num : PageNumbers F) (text : NumberText) {cfg : Config}
    (h : RunTo cfg (Watched client) as s) (hnodup : (as.flatMap Action.clOrdIds).Nodup)
    (ht : s.tasks = []) {sym : String} {b : OrderBook} (hb : s.engine.books.lookup sym = some b)
    {n : Node} (hn : n ∈ b.nodes) (hclient : n.order.clientId = client) :
    (blotterOf num text client s.gateway.sent).Shows n.order.clordId := by
  refine ((shown_of_run num text h hnodup).active _).mpr ?_
  -- what rests is open, under the client id that it has in the book
  have htraced := traced_of_run h hnodup
  have hsync := synced_of_watched h
  have hrests := htraced.founded.books.resting_eq_some.mpr ⟨sym, b, hb, n, hn, rfl, rfl⟩
  obtain ⟨o, ho, hmirrors⟩ := hsync.agrees _ _ hrests
  rw [openOrders_of_no_tasks ht] at ho
  refine ⟨_, o, ho, ?_, htraced.clordId ho (htraced.named.resting sym b hb n hn)⟩
  rw [← hclient, hmirrors]

/-- **The page shows the open orders.**  In every run in which nobody replaces orders, and whose
messages bring different client ids, the active rows that a page makes of the reports that a client
has been sent are those of the orders that the gateway has open for the client, with their symbols,
sides, quantities and prices; so between two items of the engine no order of the client rests
without an active row. -/
theorem blotter_shows_open_orders (num : PageNumbers F) (text : NumberText) {cfg : Config}
    (h : RunTo cfg (Watched client) as s) (hnodup : (as.flatMap Action.clOrdIds).Nodup) :
    (blotterOf num text client s.gateway.sent).ShowsOpen num text client s.gateway.active ∧
      (s.tasks = [] → ∀ sym b, s.engine.books.lookup sym = some b → ∀ n ∈ b.nodes,
        n.order.clientId = client →
          (blotterOf num text client s.gateway.sent).Shows n.order.clordId) :=
  ⟨shown_of_run num text h hnodup, fun ht _ _ hb _ hn => shows_of_rests num text h hnodup ht hb hn⟩

/-- An order of the client is refused, one trades with an order of somebody else and is open, and
one is cancelled. -/
def watchedRun : List Action :=
  [.logon Sample.alice, .message (Sample.limit "a" '1' 0 10) Sample.alice]
    ++ Sample.submit (Sample.limit "b" '1' 5 10) Sample.alice ++ Sample.engine 2
    ++ Sample.submit (Sample.limit "c" '1' 5 9) Sample.alice ++ Sample.engine 2
    ++ Sample.submit (Sample.limit "d" '2' 3 10) Sample.bob ++ Sample.engine 6
    ++ Sample.forward (Sample.cancel "c") Sample.alice ++ Sample.engine 2

theorem blotter_shows_open_orders_sample :
    ∃ s, RunTo Sample.config (Watched "A") watchedRun s ∧
      (watchedRun.flatMap Action.clOrdIds).Nodup ∧ s.gateway.active.OpenAs "A" "b" ∧
      (blotterOf BlotterServer.sampleNumbers ⟨toString, toString⟩ "A" s.gateway.sent).Shows "b" := by
  have hreach : ∃ s, RunTo Sample.config (Watched "A") watchedRun s ∧
      ∃ o ∈ s.gateway.activeOrders.lookup "EXCH-2", o.clientId = "A" ∧ o.clordId = "b" :=
    Transition.exists_reaches (by decide +kernel) (by decide +kernel)
  have hnodup : (watchedRun.flatMap Action.clOrdIds).Nodup := by decide +kernel
  obtain ⟨s, hrun, o, ho, hopen⟩ := hreach
  have hopens : s.gateway.active.OpenAs "A" "b" := ⟨_, o, ho, hopen⟩
  exact ⟨s, hrun, hnodup, hopens,
    ((blotter_shows_open_orders _ _ hrun hnodup).1.active _).mpr hopens⟩

end System

end FixExchange
