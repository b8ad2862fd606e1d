/-
# The blotter of the page

The server keeps all execution reports that it has received in `exec_log`.  A page that connects is
replayed the whole log, and is sent a copy of every report that is received from then on, too: the
loop of `websocket_endpoint` and the tasks of `_fix_reader` take turns, so that a page hears recent
reports twice, and old ones behind new ones.  Connections break, and what is on its way is lost;
pages are loaded again, or connect again with the rows that they have.  Once the replay is over and
nothing is on its way any more, the rows of the page are nevertheless those that a page would have
that processed every report of the log once, in its order (`blotter_converges`).
-/
import FixExchange.Lib.Replay
import FixExchange.Lib.Transition
import FixExchange.Ui.Browser

namespace FixExchange

/-- An execution report as the page gets it: the fields by tag. -/
abbrev ExecMessage := StrMap String

namespace ExecMessage

/-- `msg['11']`. -/
def clordId (msg : ExecMessage) : Option String := msg.lookup "11"

/-- `msg['150']`. -/
def execType (msg : ExecMessage) : Option String := msg.lookup "150"

/-- A status report, which the exchange sends on a logon. -/
def IsStatus (msg : ExecMessage) : Prop := msg.execType = some "I"

/-- A report about the end of an order. -/
def Closes (msg : ExecMessage) : Prop := msg.execType = some "2" ∨ msg.execType = some "4"

instance (msg : ExecMessage) : Decidable msg.IsStatus := inferInstanceAs (Decidable (_ = _))

instance (msg : ExecMessage) : Decidable msg.Closes := inferInstanceAs (Decidable (_ ∨ _))

/-- Reports that change a row, and enter none. -/
def Updates (msg : ExecMessage) : Prop :=
  ¬ msg.IsStatus ∧ msg.execType ≠ some "0" ∧ ¬ msg.Closes

instance (msg : ExecMessage) : Decidable msg.Updates := inferInstanceAs (Decidable (_ ∧ _))

end ExecMessage

/-- The numbers that the page makes of fields, which may be missing. -/
structure PageNumbers (F : Type) where
  /-- `parseInt(x || 0)`. -/
  parseInt : Option String → F
  /-- `parseFloat(x || 0)`. -/
  parseFloat : Option String → F
  zero : F
  /-- `x > 0`. -/
  positive : F → Bool

/-- What a row says of its order, for good. -/
structure OrderDetails (F : Type) where
  symbol : Option String
  side : String
  qty : F
  price : F
deriving DecidableEq

/-- A row of the blotter, but for its number. -/
structure OrderLine (F : Type) extends OrderDetails F where
  leavesQty : F
  statusText : Option String
  statusClass : String
  active : Bool
deriving DecidableEq

/-- A row of the blotter. -/
structure BlotterRow (F : Type) where
  n : ℕ
  line : OrderLine F
deriving DecidableEq

/-- What the page keeps of orders: `orders` and `orderSeq`. -/
structure Blotter (F : Type) where
  orders : AList fun _ : Option String => BlotterRow F
  orderSeq : ℕ

namespace PageNumbers

variable {F : Type} (num : PageNumbers F)

/-- The fields that `onExec` reads first. -/
def details (msg : ExecMessage) : OrderDetails F where
  symbol := msg.lookup "55"
  side := if msg.lookup "54" = some "1" then "buy" else "sell"
  qty := num.parseInt (msg.lookup "38")
  price := num.parseFloat (msg.lookup "44")

/-- The open quantity that a report tells. -/
def leavesQty (msg : ExecMessage) : F := num.parseInt (msg.lookup "151")

/-- `statusMap[execType] || [execType, '']`. -/
def status (execType : Option String) : Option String × String :=
  match execType with
  | some "0" => (some "New", "st-new")
  | some "1" => (some "Partial", "st-partial")
  | some "2" => (some "Filled", "st-filled")
  | some "4" => (some "Canceled", "st-canceled")
  | some "5" => (some "Replaced", "st-new")
  | some "8" => (some "Rejected", "st-rejected")
  | t => (t, "")

/-- `!['2', '4', '8'].includes(execType)`. -/
def active (execType : Option String) : Bool :=
  decide (execType ∉ [some "2", some "4", some "8"])

/-- The line that a report tells. -/
def line (msg : ExecMessage) : OrderLine F where
  toOrderDetails := num.details msg
  leavesQty := num.leavesQty msg
  statusText := (status msg.execType).1
  statusClass := (status msg.execType).2
  active := active msg.execType

/-- The line of an order that ends before the page has heard of it. -/
def endedLine (msg : ExecMessage) : OrderLine F :=
  { num.line msg with leavesQty := num.zero, active := false }

/-- The line that a status report tells. -/
def statusLine (msg : ExecMessage) : OrderLine F where
  toOrderDetails := num.details msg
  leavesQty := num.leavesQty msg
  statusText := some "New"
  statusClass := "st-new"
  active := true

end PageNumbers

namespace Blotter

variable {F : Type} (num : PageNumbers F)

/-- The page when it has been loaded. -/
def init : Blotter F := ⟨∅, 0⟩

/-- `orderSeq++` and `orders.set(clordId, ...)`. -/
def enter (b : Blotter F) (clordId : Option String) (line : OrderLine F) : Blotter F where
  orders := b.orders.insert clordId ⟨b.orderSeq + 1, line⟩
  orderSeq := b.orderSeq + 1

/-- `Object.assign(o, ...)`: the row keeps its number, and what it says of its order for good. -/
def assign (b : Blotter F) (clordId : Option String) (o : BlotterRow F) (line : OrderLine F) :
    Blotter F :=
  { b with
    orders := b.orders.insert clordId
      ⟨o.n, { line with toOrderDetails := o.line.toOrderDetails }⟩ }

/-- `onExec`, as far as it is about the rows.  A name that every object has makes it fail: what
`statusMap` has under such a name cannot be taken apart. -/
def onExec (b : Blotter F) (msg : ExecMessage) : Blotter F :=
  if msg.IsStatus then
    if msg.clordId ∉ b.orders ∧ num.positive (num.leavesQty msg) then
      b.enter msg.clordId (num.statusLine msg)
    else b
  else if ∃ name ∈ msg.execType, name ∈ Browser.inherited then b
  else if msg.execType = some "0" then b.enter msg.clordId (num.line msg)
  else
    match b.orders.lookup msg.clordId with
    | some o => b.assign msg.clordId o (num.line msg)
    | none =>
      if msg.Closes then
        b.enter msg.clordId (num.endedLine msg)
      else b

/-- The line of an order. -/
def lineOf (b : Blotter F) (id : Option String) : Option (OrderLine F) :=
  (b.orders.lookup id).map BlotterRow.line

lemma lineOf_enter (b : Blotter F) (clordId id : Option String) (line : OrderLine F) :
    (b.enter clordId line).lineOf id = if id = clordId then some line else b.lineOf id := by
  by_cases h : id = clordId
  · subst h
    rw [if_pos rfl, lineOf, enter, AList.lookup_insert]
    rfl
  · rw [if_neg h, lineOf, enter, AList.lookup_insert_ne h]
    rfl

lemma lineOf_assign (b : Blotter F) (clordId id : Option String) (o : BlotterRow F)
    (line : OrderLine F) :
    (b.assign clordId o line).lineOf id
      = if id = clordId then some { line with toOrderDetails := o.line.toOrderDetails }
        else b.lineOf id := by
  by_cases h : id = clordId
  · subst h
    rw [if_pos rfl, lineOf, assign, AList.lookup_insert]
    rfl
  · rw [if_neg h, lineOf, assign, AList.lookup_insert_ne h]
    rfl

/-! ## Reports as effects -/

/-- What a report does to the line of an order. -/
def effect (id : Option String) (msg : ExecMessage) : Replay.Effect (OrderLine F) :=
  if msg.clordId ≠ id then .skip
  else if msg.IsStatus then
    if num.positive (num.leavesQty msg) then .create (num.statusLine msg) else .skip
  else if ∃ name ∈ msg.execType, name ∈ Browser.inherited then .skip
  else if msg.execType = some "0" then .enter (num.line msg) (num.line msg)
  else if msg.Closes then .enter (num.endedLine msg) (num.line msg)
  else .update (num.line msg)

/-- A report behind which the page has a row for its order. -/
def Enters (msg : ExecMessage) : Prop :=
  msg.execType = some "0" ∨ msg.Closes ∨
    (msg.IsStatus ∧ num.positive (num.leavesQty msg) = true)

instance (msg : ExecMessage) : Decidable (Enters num msg) :=
  inferInstanceAs (Decidable (_ ∨ _ ∨ _ ∧ _))

/-- The reports of a log fit together: the ones about an order agree on what a row says of it for
good; a status report about an order comes before all reports that change its row; and a report
about the end of an order that tells an open quantity comes behind one that has entered a row. -/
structure Coherent (log : List ExecMessage) : Prop where
  details : ∀ m ∈ log, ∀ m' ∈ log, m.clordId = m'.clordId → num.details m = num.details m'
  status : ∀ m ∈ log, ∀ m' ∈ log, m.clordId = m'.clordId → m.IsStatus → m'.IsStatus →
    num.leavesQty m = num.leavesQty m'
  first : log.Pairwise fun m m' => m.clordId = m'.clordId → m.Updates → ¬ m'.IsStatus
  closed : ∀ k < log.length, ∀ m ∈ log[k]?, m.Closes → num.leavesQty m ≠ num.zero →
    ∃ m' ∈ log.take k, m'.clordId = m.clordId ∧ Enters num m'

instance [DecidableEq F] (log : List ExecMessage) : Decidable (Coherent num log) :=
  decidable_of_iff
    ((∀ m ∈ log, ∀ m' ∈ log, m.clordId = m'.clordId → num.details m = num.details m') ∧
      (∀ m ∈ log, ∀ m' ∈ log, m.clordId = m'.clordId → m.IsStatus → m'.IsStatus →
        num.leavesQty m = num.leavesQty m') ∧
      (log.Pairwise fun m m' => m.clordId = m'.clordId → m.Updates → ¬ m'.IsStatus) ∧
      ∀ k < log.length, ∀ m ∈ log[k]?, m.Closes → num.leavesQty m ≠ num.zero →
        ∃ m' ∈ log.take k, m'.clordId = m.clordId ∧ Enters num m')
    ⟨fun ⟨hd, hs, hf, hc⟩ => ⟨hd, hs, hf, hc⟩, fun ⟨hd, hs, hf, hc⟩ => ⟨hd, hs, hf, hc⟩⟩

/-- Every row says of its order what a report of the log says. -/
def Described (log : List ExecMessage) (b : Blotter F) : Prop :=
  ∀ id line, b.lineOf id = some line →
    ∃ m ∈ log, m.clordId = id ∧ line.toOrderDetails = num.details m

variable {num} {log : List ExecMessage} {b : Blotter F} {msg : ExecMessage} {id : Option String}

lemma clordId_of_effect (h : effect num id msg ≠ .skip) : msg.clordId = id := by
  by_contra hne
  exact h (if_pos hne)

lemma effect_eq_create {line : OrderLine F} (h : effect num id msg = .create line) :
    msg.clordId = id ∧ msg.IsStatus ∧ line = num.statusLine msg := by
  have hid := clordId_of_effect (by rw [h]; simp)
  simp only [effect, hid, ne_eq, not_true_eq_false, if_false] at h
  split_ifs at h with hstatus
  exact ⟨hid, hstatus, (Replay.Effect.create.inj h).symm⟩

lemma effect_eq_update {line : OrderLine F} (h : effect num id msg = .update line) :
    msg.clordId = id ∧ msg.Updates ∧ line = num.line msg := by
  have hid := clordId_of_effect (by rw [h]; simp)
  simp only [effect, hid, ne_eq, not_true_eq_false, if_false] at h
  split_ifs at h with hstatus _ hname hnew hcloses
  exact ⟨hid, ⟨hstatus, hnew, hcloses⟩, (Replay.Effect.update.inj h).symm⟩

lemma effect_eq_enter {fresh known : OrderLine F} (h : effect num id msg = .enter fresh known) :
    msg.clordId = id ∧ known = num.line msg ∧
      (fresh = num.line msg ∨ (msg.Closes ∧ fresh = num.endedLine msg)) := by
  have hid := clordId_of_effect (by rw [h]; simp)
  simp only [effect, hid, ne_eq, not_true_eq_false, if_false] at h
  split_ifs at h with hstatus _ hname hnew hcloses
  · obtain ⟨rfl, rfl⟩ := Replay.Effect.enter.inj h
    exact ⟨hid, rfl, Or.inl rfl⟩
  · obtain ⟨rfl, rfl⟩ := Replay.Effect.enter.inj h
    exact ⟨hid, rfl, Or.inr ⟨hcloses, rfl⟩⟩

/-- A report that enters a row does so in its effect. -/
lemma enters_effect (h : Enters num msg) : (effect num msg.clordId msg).Enters := by
  rw [effect, if_neg (not_not.mpr rfl)]
  by_cases hstatus : msg.IsStatus
  · rw [if_pos hstatus]
    rcases h with hnew | hcloses | ⟨-, hpos⟩
    · exact absurd (hnew.symm.trans hstatus) (by decide)
    · rcases hcloses with hc | hc <;> exact absurd (hc.symm.trans hstatus) (by decide)
    · rw [if_pos hpos]
      trivial
  · have hname : ∀ t, msg.execType = some t → t ∉ Browser.inherited →
        ¬ ∃ name ∈ msg.execType, name ∈ Browser.inherited := by
      rintro t ht hnot ⟨name, hname, hmem⟩
      obtain rfl := Option.some.inj (ht.symm.trans hname)
      exact hnot hmem
    rw [if_neg hstatus]
    rcases h with hnew | hcloses | ⟨hstatus', -⟩
    · rw [if_neg (hname _ hnew (by decide)), if_pos hnew]
      trivial
    · rcases hcloses with hc | hc
      all_goals
        rw [if_neg (hname _ hc (by decide)), if_neg (by rw [hc]; decide), if_pos]
        · trivial
        · first | exact Or.inl hc | exact Or.inr hc
    · exact absurd hstatus' hstatus

/-- **The reports of a log that fit together** can be replayed. -/
lemma Coherent.tidy (h : Coherent num log) (id : Option String) :
    Replay.Tidy (effect num id) log := by
  refine ⟨h.first.imp fun {m m'} hfirst line line' hm hm' => ?_,
    fun m hm m' hm' line line' hc hc' => ?_, fun k m hm fresh known he hne => ?_⟩
  · obtain ⟨hid, hupdates, -⟩ := effect_eq_update hm
    obtain ⟨hid', hstatus, -⟩ := effect_eq_create hm'
    exact hfirst (hid.trans hid'.symm) hupdates hstatus
  · obtain ⟨hid, hstatus, rfl⟩ := effect_eq_create hc
    obtain ⟨hid', hstatus', rfl⟩ := effect_eq_create hc'
    have hsame := hid.trans hid'.symm
    rw [PageNumbers.statusLine, PageNumbers.statusLine, h.details m hm m' hm' hsame,
      h.status m hm m' hm' hsame hstatus hstatus']
  · -- the row of an order that ends unheard of differs when the report tells an open quantity
    obtain ⟨hid, rfl, rfl | ⟨hcloses, rfl⟩⟩ := effect_eq_enter he
    · exact absurd rfl hne
    have hleaves : num.leavesQty m ≠ num.zero := by
      intro hzero
      have hactive : PageNumbers.active m.execType = false := by
        rcases hcloses with hc | hc <;> rw [hc] <;> rfl
      refine hne ?_
      rw [PageNumbers.endedLine, PageNumbers.line, hzero, hactive]
    obtain ⟨hlt, -⟩ := List.getElem?_eq_some_iff.mp hm
    obtain ⟨m', hm', hid', henters⟩ := h.closed k hlt m hm hcloses hleaves
    refine ⟨m', hm', ?_⟩
    rw [← hid, ← hid']
    exact enters_effect henters

lemma mem_orders_iff : id ∈ b.orders ↔ b.lineOf id ≠ none := by
  rw [← AList.lookup_isSome, lineOf, Option.isSome_iff_ne_none, ne_eq, ne_eq, Option.map_eq_none_iff]

/-- A report leaves the rows of other orders alone. -/
lemma lineOf_onExec_of_ne (b : Blotter F) (h : id ≠ msg.clordId) :
    (b.onExec num msg).lineOf id = b.lineOf id := by
  rw [onExec]
  cases b.orders.lookup msg.clordId <;> split_ifs <;>
    simp only [lineOf_enter, lineOf_assign, if_neg h]

/-- **A report does to a row what its effect says.** -/
lemma lineOf_onExec (hlog : Coherent num log) (hb : Described num log b) (hmsg : msg ∈ log)
    (id : Option String) :
    (b.onExec num msg).lineOf id = (effect num id msg).apply (b.lineOf id) := by
  by_cases hid : msg.clordId = id
  swap
  · have hskip : effect num id msg = .skip := if_pos hid
    rw [hskip]
    exact lineOf_onExec_of_ne b (Ne.symm hid)
  subst hid
  have heffect : effect num msg.clordId msg
      = if msg.IsStatus then
          if num.positive (num.leavesQty msg) then .create (num.statusLine msg) else .skip
        else if ∃ name ∈ msg.execType, name ∈ Browser.inherited then .skip
        else if msg.execType = some "0" then .enter (num.line msg) (num.line msg)
        else if msg.Closes then .enter (num.endedLine msg) (num.line msg)
        else .update (num.line msg) := if_neg (not_not.mpr rfl)
  rw [heffect, onExec]
  by_cases hstatus : msg.IsStatus
  · rw [if_pos hstatus, if_pos hstatus]
    by_cases hpos : num.positive (num.leavesQty msg) = true
    · rw [if_pos hpos]
      by_cases hmem : msg.clordId ∈ b.orders
      · rw [if_neg fun hand => hand.1 hmem]
        obtain ⟨line, hline⟩ := Option.ne_none_iff_exists'.mp (mem_orders_iff.mp hmem)
        rw [hline]
        rfl
      · rw [if_pos ⟨hmem, hpos⟩, lineOf_enter, if_pos rfl]
        have hnone : b.lineOf msg.clordId = none := by
          by_contra hne
          exact hmem (mem_orders_iff.mpr hne)
        rw [hnone]
        rfl
    · rw [if_neg hpos, if_neg fun hand => hpos hand.2]
      rfl
  rw [if_neg hstatus, if_neg hstatus]
  by_cases hname : ∃ name ∈ msg.execType, name ∈ Browser.inherited
  · rw [if_pos hname, if_pos hname]
    rfl
  rw [if_neg hname, if_neg hname]
  by_cases hnew : msg.execType = some "0"
  · rw [if_pos hnew, if_pos hnew, lineOf_enter, if_pos rfl]
    cases b.lineOf msg.clordId <;> rfl
  rw [if_neg hnew, if_neg hnew]
  cases ho : b.orders.lookup msg.clordId with
  | some o =>
    -- the row says of its order what the report says
    have hline : b.lineOf msg.clordId = some o.line := by rw [lineOf, ho]; rfl
    obtain ⟨m, hm, hmid, hdetails⟩ := hb _ _ hline
    have hsame : o.line.toOrderDetails = (num.line msg).toOrderDetails :=
      hdetails.trans (hlog.details m hm msg hmsg hmid)
    dsimp only
    rw [lineOf_assign, if_pos rfl, hsame, hline]
    split_ifs <;> rfl
  | none =>
    have hline : b.lineOf msg.clordId = none := by rw [lineOf, ho]; rfl
    dsimp only
    by_cases hcloses : msg.Closes
    · rw [if_pos hcloses, if_pos hcloses, lineOf_enter, if_pos rfl, hline]
      rfl
    · rw [if_neg hcloses, if_neg hcloses, hline]
      rfl

/-- A row says of its order what it has said before, or what the report says. -/
lemma details_of_effect {x : Option (OrderLine F)} {line : OrderLine F}
    (h : (effect num id msg).apply x = some line) :
    x = some line ∨ (msg.clordId = id ∧ line.toOrderDetails = num.details msg) := by
  cases he : effect num id msg with
  | skip =>
    rw [he] at h
    exact Or.inl h
  | create line' =>
    rw [he] at h
    obtain ⟨hid, -, rfl⟩ := effect_eq_create he
    cases x with
    | none =>
      obtain rfl := Option.some.inj h
      exact Or.inr ⟨hid, rfl⟩
    | some line' => exact Or.inl h
  | enter fresh known =>
    rw [he] at h
    obtain ⟨hid, rfl, hfresh⟩ := effect_eq_enter he
    refine Or.inr ⟨hid, ?_⟩
    cases x with
    | none =>
      rw [← Option.some.inj h]
      rcases hfresh with rfl | ⟨-, rfl⟩ <;> rfl
    | some line' =>
      rw [← Option.some.inj h]
      rfl
  | update line' =>
    rw [he] at h
    obtain ⟨hid, -, rfl⟩ := effect_eq_update he
    obtain ⟨y, -, rfl⟩ := Option.map_eq_some_iff.mp h
    exact Or.inr ⟨hid, rfl⟩

lemma Described.onExec (hlog : Coherent num log) (hb : Described num log b) (hmsg : msg ∈ log) :
    Described num log (b.onExec num msg) := by
  intro id line hline
  rw [lineOf_onExec hlog hb hmsg] at hline
  rcases details_of_effect hline with hline | ⟨hid, hdetails⟩
  · exact hb id line hline
  · exact ⟨msg, hmsg, hid, hdetails⟩

lemma described_init (log : List ExecMessage) : Described num log (init : Blotter F) :=
  fun _ _ hline => absurd hline (by simp [lineOf, init])

/-- **Processing reports of a log** folds their effects. -/
lemma lineOf_foldl_onExec (hlog : Coherent num log) (hb : Described num log b)
    {msgs : List ExecMessage} (hmsgs : ∀ m ∈ msgs, m ∈ log) (id : Option String) :
    (msgs.foldl (fun b m => b.onExec num m) b).lineOf id
      = Replay.fold (effect num id) (b.lineOf id) msgs := by
  induction msgs generalizing b with
  | nil => rfl
  | cons m msgs ih =>
    have hm := hmsgs m List.mem_cons_self
    rw [List.foldl_cons, ih (hb.onExec hlog hm) fun m' hm' => hmsgs m' (List.mem_cons_of_mem _ hm'),
      lineOf_onExec hlog hb hm]
    rfl

end Blotter

/-! ## The server and a page -/

/-- The connection of a page, as the server serves it. -/
structure Connection where
  /-- The entry of the log that is replayed next; none when the loop has ended. -/
  next : Option ℕ
  /-- The reports that the tasks of `_fix_reader` have yet to send. -/
  inbox : List ExecMessage
  /-- The reports that have been sent, and that the page has not processed yet. -/
  wire : List ExecMessage
deriving DecidableEq

/-- `exec_log`, and a page with its connection. -/
structure BlotterServer (F : Type) where
  log : List ExecMessage
  page : Blotter F
  connection : Option Connection

/-- A step of the server or of the page. -/
inductive BlotterAction
  /-- `_fix_reader` receives an execution report. -/
  | report (msg : ExecMessage)
  /-- The page connects. -/
  | connect
  /-- The loop of `websocket_endpoint` goes on. -/
  | replay
  /-- A task of `_fix_reader` sends its report. -/
  | fanOut
  /-- The page processes a report. -/
  | process
  /-- The connection breaks. -/
  | disconnect
  /-- The page is loaded again. -/
  | reload
deriving DecidableEq

namespace BlotterServer

variable {F : Type} (num : PageNumbers F)

/-- The server behind the logon, which keeps three types of reports in `order_statuses`. -/
def start (F : Type) (statuses : List ExecMessage) : BlotterServer F where
  log := statuses.filter fun m => m.execType ∈ [some "I", some "2", some "4"]
  page := .init
  connection := none

/-- The server serves a connection of the page, as long as there is one. -/
def serve (s : BlotterServer F) (f : Connection → Option Connection) : Option (BlotterServer F) :=
  (s.connection.bind f).map fun c => { s with connection := some c }

/-- One step. -/
def step (s : BlotterServer F) : BlotterAction → Option (BlotterServer F)
  | .report msg =>
    some { s with
      log := s.log ++ [msg]
      connection := s.connection.map fun c => { c with inbox := c.inbox ++ [msg] } }
  | .connect =>
    if s.connection = none then some { s with connection := some ⟨some 0, [], []⟩ } else none
  | .replay =>
    s.serve fun c => c.next.map fun i =>
      match s.log[i]? with
      | some msg => { c with next := some (i + 1), wire := c.wire ++ [msg] }
      | none => { c with next := none }
  | .fanOut =>
    s.serve fun c =>
      match c.inbox with
      | [] => none
      | msg :: inbox => some { c with inbox := inbox, wire := c.wire ++ [msg] }
  | .process =>
    s.connection.bind fun c =>
      match c.wire with
      | [] => none
      | msg :: wire =>
        some { s with page := s.page.onExec num msg, connection := some { c with wire := wire } }
  | .disconnect => s.connection.map fun _ => { s with connection := none }
  | .reload => some { s with page := .init, connection := none }

/-- The replay is over, and nothing is on its way. -/
def Quiet (s : BlotterServer F) : Prop := s.connection = some ⟨none, [], []⟩

/-- A report fits the ones that have been received before. -/
def Fits (s : BlotterServer F) : BlotterAction → Prop
  | .report msg => Blotter.Coherent num (s.log ++ [msg])
  | .connect | .replay | .fanOut | .process | .disconnect | .reload => True

instance [DecidableEq F] (s : BlotterServer F) (a : BlotterAction) : Decidable (s.Fits num a) :=
  match a with
  | .report _ => inferInstanceAs (Decidable (Blotter.Coherent num _))
  | .connect | .replay | .fanOut | .process | .disconnect | .reload => isTrue trivial

instance (s : BlotterServer F) : Decidable s.Quiet := inferInstanceAs (Decidable (_ = _))

/-- What the connection has to do with the log: `i` entries have been replayed, and of the first
`j` ones nothing is left to be sent. -/
structure Serves (log : List ExecMessage) (page : Blotter F) (c : Connection) (i j : ℕ) : Prop where
  inbox : c.inbox = log.drop j
  next : c.next = some i ∨ (c.next = none ∧ j ≤ i)
  wire : ∀ m ∈ c.wire, m ∈ log
  follows : ∀ id, Replay.Follows (Blotter.effect num id) log i j
    (Replay.fold (Blotter.effect num id) (page.lineOf id) c.wire)

/-- What holds in every reachable state. -/
structure Kept (s : BlotterServer F) : Prop where
  coherent : Blotter.Coherent num s.log
  described : Blotter.Described num s.log s.page
  partly : ∀ id, Replay.Partly (Blotter.effect num id) s.log (s.page.lineOf id)
  serves : ∀ c ∈ s.connection, ∃ i j, Serves num s.log s.page c i j

variable {num} {s s' : BlotterServer F} {a : BlotterAction} {c : Connection} {i j : ℕ}

lemma partly_init (log : List ExecMessage) (id : Option String) :
    Replay.Partly (Blotter.effect num id) log ((Blotter.init : Blotter F).lineOf id) :=
  ⟨fun hne => absurd rfl hne, fun _ => Or.inl rfl⟩

lemma kept_start {statuses : List ExecMessage}
    (h : Blotter.Coherent num (start F statuses).log) : (start F statuses).Kept num :=
  ⟨h, Blotter.described_init _, partly_init _, by simp [start]⟩

lemma serve_eq_some {f : Connection → Option Connection} (h : s.serve f = some s') :
    ∃ c c', s.connection = some c ∧ f c = some c' ∧ s' = { s with connection := some c' } := by
  obtain ⟨c', hc', rfl⟩ := Option.map_eq_some_iff.mp h
  obtain ⟨c, hc, hf⟩ := Option.bind_eq_some_iff.mp hc'
  exact ⟨c, c', hc, hf, rfl⟩

/-- A report of the log is sent. -/
lemma Serves.sent {log : List ExecMessage} {page : Blotter F} {msg : ExecMessage} {c' : Connection}
    {i' j' : ℕ} (h : Serves num log page c i j) (hmsg : msg ∈ log)
    (hwire : c'.wire = c.wire ++ [msg]) (hinbox : c'.inbox = log.drop j')
    (hnext : c'.next = some i' ∨ (c'.next = none ∧ j' ≤ i'))
    (hfollows : ∀ id x, Replay.Follows (Blotter.effect num id) log i j x →
      Replay.Follows (Blotter.effect num id) log i' j' ((Blotter.effect num id msg).apply x)) :
    Serves num log page c' i' j' := by
  refine ⟨hinbox, hnext, fun m hm => ?_, fun id => ?_⟩
  · rw [hwire] at hm
    rcases List.mem_append.mp hm with hm | hm
    · exact h.wire m hm
    · rw [List.mem_singleton.mp hm]
      exact hmsg
  · rw [hwire, Replay.fold_append]
    exact hfollows id _ (h.follows id)

/-- **The loop of the endpoint** sends the next entry of the log, or ends behind the last one. -/
lemma Serves.replay {log : List ExecMessage} {page : Blotter F} {i₀ : ℕ}
    (hlog : Blotter.Coherent num log) (h : Serves num log page c i j) (hnext : c.next = some i₀) :
    ∃ i' j', Serves num log page
      (match log[i₀]? with
        | some msg => { c with next := some (i₀ + 1), wire := c.wire ++ [msg] }
        | none => { c with next := none }) i' j' := by
  obtain rfl : i₀ = i := by
    rcases h.next with hi | ⟨hnone, -⟩
    · exact Option.some.inj (hnext.symm.trans hi)
    · exact absurd (hnext.symm.trans hnone) (by simp)
  cases hm : log[i₀]? with
  | some msg =>
    exact ⟨i₀ + 1, j, h.sent (List.mem_of_getElem? hm) rfl h.inbox (Or.inl rfl)
      fun id _ hx => hx.replay (hlog.tidy id) hm⟩
  | none =>
    have hlen : log.length ≤ i₀ := List.getElem?_eq_none_iff.mp hm
    exact ⟨i₀, j, h.inbox, Or.inr ⟨rfl, (h.follows none).heard.trans hlen⟩, h.wire, h.follows⟩

/-- **A task of the reader** sends the report that has waited longest. -/
lemma Serves.fanOut {log : List ExecMessage} {page : Blotter F} {msg : ExecMessage}
    {inbox : List ExecMessage} (hlog : Blotter.Coherent num log) (h : Serves num log page c i j)
    (hinbox : c.inbox = msg :: inbox) :
    ∃ i' j', Serves num log page { c with inbox := inbox, wire := c.wire ++ [msg] } i' j' := by
  have hdrop := h.inbox.symm.trans hinbox
  have hlt : j < log.length := by
    by_contra hle
    rw [List.drop_eq_nil_of_le (not_lt.mp hle)] at hdrop
    exact absurd hdrop (by simp)
  rw [List.drop_eq_getElem_cons hlt] at hdrop
  obtain ⟨hmsg, hrest⟩ := List.cons.inj hdrop
  have hm : log[j]? = some msg := by rw [List.getElem?_eq_getElem hlt, hmsg]
  have hmem := List.mem_of_getElem? hm
  rcases h.next with hnext | ⟨hnext, hle⟩
  · exact ⟨i, j + 1, h.sent hmem rfl hrest.symm (Or.inl hnext)
      fun id _ hx => hx.hear (hlog.tidy id) hm⟩
  · rcases hle.lt_or_eq with hlt' | rfl
    · exact ⟨i, j + 1, h.sent hmem rfl hrest.symm (Or.inr ⟨hnext, hlt'⟩)
        fun id _ hx => hx.hear (hlog.tidy id) hm⟩
    · -- the replay has ended behind the reports before this one
      exact ⟨j + 1, j + 1, h.sent hmem rfl hrest.symm (Or.inr ⟨hnext, le_refl _⟩)
        fun id _ hx => hx.hear_alone (hlog.tidy id) hm⟩

/-- A report is received. -/
lemma Serves.report {log : List ExecMessage} {page : Blotter F} (h : Serves num log page c i j)
    (msg : ExecMessage) :
    Serves num (log ++ [msg]) page { c with inbox := c.inbox ++ [msg] } i j := by
  refine ⟨?_, h.next, fun m hm => List.mem_append_left _ (h.wire m hm), fun id =>
    (h.follows id).append msg⟩
  rw [List.drop_append_of_le_length (h.follows none).heard, ← h.inbox]

/-- **Every step keeps the page on its way to the rows of the log.** -/
theorem Kept.step (h : s.Kept num) (hok : s.Fits num a) (hstep : s.step num a = some s') :
    s'.Kept num := by
  cases a with
  | report msg =>
    obtain rfl := Option.some.inj hstep
    refine ⟨hok, fun id line hline => ?_, fun id => (h.partly id).append msg, fun c hc => ?_⟩
    · obtain ⟨m, hm, hm'⟩ := h.described id line hline
      exact ⟨m, List.mem_append_left _ hm, hm'⟩
    · obtain ⟨c₀, hc₀, rfl⟩ := Option.map_eq_some_iff.mp hc
      obtain ⟨i, j, hserves⟩ := h.serves c₀ hc₀
      exact ⟨i, j, hserves.report msg⟩
  | connect =>
    simp only [BlotterServer.step] at hstep
    split_ifs at hstep
    obtain rfl := Option.some.inj hstep
    refine ⟨h.coherent, h.described, h.partly, fun c hc => ?_⟩
    obtain rfl := Option.some.inj hc
    exact ⟨0, s.log.length, by simp, Or.inl rfl, by simp, fun id => .begin (h.partly id)⟩
  | replay =>
    obtain ⟨c, c', hc, hc', rfl⟩ := serve_eq_some hstep
    obtain ⟨i, hnext, rfl⟩ := Option.map_eq_some_iff.mp hc'
    refine ⟨h.coherent, h.described, h.partly, fun c' hc' => ?_⟩
    obtain rfl := Option.some.inj hc'
    obtain ⟨i', j, hserves⟩ := h.serves c hc
    exact hserves.replay h.coherent hnext
  | fanOut =>
    obtain ⟨c, c', hc, hc', rfl⟩ := serve_eq_some hstep
    refine ⟨h.coherent, h.described, h.partly, fun c'' hc'' => ?_⟩
    obtain rfl := Option.some.inj hc''
    obtain ⟨i, j, hserves⟩ := h.serves c hc
    cases hinbox : c.inbox with
    | nil => simp [hinbox] at hc'
    | cons msg inbox =>
      simp only [hinbox] at hc'
      obtain rfl := Option.some.inj hc'
      exact hserves.fanOut h.coherent hinbox
  | process =>
    obtain ⟨c, hc, hprocess⟩ := Option.bind_eq_some_iff.mp hstep
    obtain ⟨i, j, hserves⟩ := h.serves c hc
    cases hwire : c.wire with
    | nil => simp [hwire] at hprocess
    | cons msg wire =>
      simp only [hwire] at hprocess
      obtain rfl := Option.some.inj hprocess
      have hmsg : msg ∈ s.log := hserves.wire msg (by rw [hwire]; exact List.mem_cons_self)
      have hline := Blotter.lineOf_onExec h.coherent h.described hmsg
      refine ⟨h.coherent, h.described.onExec h.coherent hmsg, fun id => ?_, fun c' hc' => ?_⟩
      · rw [hline]
        exact (h.partly id).apply (h.coherent.tidy id) hmsg
      · obtain rfl := Option.some.inj hc'
        refine ⟨i, j, hserves.inbox, hserves.next, fun m hm => ?_, fun id => ?_⟩
        · exact hserves.wire m (by rw [hwire]; exact List.mem_cons_of_mem _ hm)
        · have hfollows := hserves.follows id
          rw [hwire] at hfollows
          rw [hline]
          exact hfollows
  | disconnect =>
    obtain ⟨c, -, rfl⟩ := Option.map_eq_some_iff.mp hstep
    exact ⟨h.coherent, h.described, h.partly, by simp⟩
  | reload =>
    obtain rfl := Option.some.inj hstep
    exact ⟨h.coherent, Blotter.described_init _, partly_init _, by simp⟩

/-- **The blotter converges.**  In every run of the server and a page, with any interleaving of the
replay, the reports that are received, what is sent and what the page processes, and with any
connections that break and pages that are loaded again, the rows of a page are, but for their
numbers, those of a page that processes each report of the log once, in its order, whenever the
replay is over and nothing is on its way: provided that the reports fit together. -/
theorem blotter_converges {statuses : List ExecMessage} {as : List BlotterAction}
    (hlog : Blotter.Coherent num (start F statuses).log)
    (h : Transition.Reaches (step num) (Fits num) (start F statuses) as s) (hquiet : s.Quiet)
    (id : Option String) :
    s.page.lineOf id = (s.log.foldl (fun b m => b.onExec num m) Blotter.init).lineOf id := by
  have hkept : s.Kept num := h.invariant (kept_start hlog) fun _ _ _ _ _ hs hok hstep =>
    hs.step hok hstep
  obtain ⟨i, j, hserves⟩ := hkept.serves _ hquiet
  have hfollows := hserves.follows id
  -- both the replay and the tasks of the reader are at the end of the log
  have hj : s.log.length ≤ j := List.drop_eq_nil_iff.mp hserves.inbox.symm
  have hij : j ≤ i := by
    rcases hserves.next with hnext | ⟨-, hle⟩
    · exact absurd hnext (by simp)
    · exact hle
  obtain rfl : i = s.log.length := le_antisymm hfollows.replayed (hj.trans hij)
  obtain rfl : j = s.log.length := le_antisymm hfollows.heard hj
  rw [Blotter.lineOf_foldl_onExec hkept.coherent (Blotter.described_init _) (fun _ hm => hm)]
  exact hfollows.eq_fold

/-- The numbers of the example reports. -/
def sampleNumbers : PageNumbers ℤ where
  parseInt x := if x = some "5" then 5 else if x = some "2" then 2 else 0
  parseFloat x := if x = some "10" then 10 else 0
  zero := 0
  positive x := decide (0 < x)

/-- A report about an order to buy five shares. -/
def sampleReport (clordId execType leavesQty : String) : ExecMessage :=
  [⟨"11", clordId⟩, ⟨"150", execType⟩, ⟨"55", "X"⟩, ⟨"54", "1"⟩, ⟨"38", "5"⟩, ⟨"44", "10"⟩,
    ⟨"151", leavesQty⟩].toAList

/-- An order is cancelled while the page is replayed the log: the page hears of the end first. -/
def lateReplay : List BlotterAction :=
  [.report (sampleReport "b" "0" "5"), .connect, .report (sampleReport "b" "1" "2"),
    .report (sampleReport "b" "4" "5"), .fanOut, .fanOut, .process, .process, .replay, .replay,
    .process, .disconnect, .connect, .report (sampleReport "a" "2" "0"), .replay, .replay, .replay,
    .fanOut, .replay, .replay, .replay] ++ List.replicate 6 .process

theorem blotter_converges_sample :
    ∃ s, Transition.Reaches (step sampleNumbers) (Fits sampleNumbers)
        (start ℤ [sampleReport "a" "I" "5"]) lateReplay s ∧ s.Quiet ∧
      (s.page.lineOf (some "b")).map OrderLine.statusText = some (some "Canceled") ∧
      s.page.lineOf (some "b")
        = (s.log.foldl (fun b m => b.onExec sampleNumbers m) Blotter.init).lineOf (some "b") := by
  have hreach : ∃ s, Transition.Reaches (step sampleNumbers) (Fits sampleNumbers)
      (start ℤ [sampleReport "a" "I" "5"]) lateReplay s ∧ (s.Quiet ∧
        (s.page.lineOf (some "b")).map OrderLine.statusText = some (some "Canceled")) :=
    Transition.exists_reaches (by decide +kernel) (by decide +kernel)
  obtain ⟨s, hrun, hquiet, hcanceled⟩ := hreach
  exact ⟨s, hrun, hquiet, hcanceled, blotter_converges (by decide +kernel) hrun hquiet _⟩

end BlotterServer

end FixExchange
