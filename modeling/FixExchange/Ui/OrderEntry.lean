/-
# From the page to the exchange

The buttons of the page send commands to its server, which makes FIX messages of them and numbers
them.  It makes up the client ids, too: of its session, the time at which it has been started, and a
count, so that ids are never used twice, whatever fails meanwhile and however often servers are
started (`clordIds_nodup`).  The button of an active row asks for the cancel of the order of the
row; that works, however late the page is (`cancel_button_works`).
-/
import FixExchange.Engine.ExecIds
import FixExchange.System.Cancels
import FixExchange.Ui.FixClient
import FixExchange.Ui.OpenRows

namespace FixExchange

/-! ## The page -/

/-- A command that a page sends, but for its type. -/
inductive PageCommand (F : Type) where
  | newOrder (symbol side : String) (qty price : F)
  /-- The key `symbol` is left out when it is undefined. -/
  | cancel (origClordId : String) (symbol : Option String) (side : String) (qty : F)

/-- `cancelOrder`, while the page is connected. -/
def Blotter.cancelOrder {F : Type} (b : Blotter F) (clordId : String) : Option (PageCommand F) :=
  (b.lineOf (some clordId)).map fun o => .cancel clordId o.symbol o.side o.qty

/-! ## The server -/

/-- A message that has been sent, without what all messages start and end with. -/
structure FixOut where
  msgType : String
  /-- Its sequence number. -/
  seq : ℕ
  body : List (String × String)
deriving DecidableEq, Repr

/-- What the server has for its FIX session: its own ids, and what the session has sent. -/
structure OrderServer where
  compId : String
  /-- `_session_ts`. -/
  sessionTs : ℕ
  seqCounter : ℕ := 0
  seq : ℕ := 1
  sent : List FixOut := []
deriving DecidableEq, Repr

/-- What makes the server send: it starts and ends its session, asks for market data, answers a test
request, or gets a command of a page. -/
inductive ServerEvent (F : Type) where
  | logon
  | logout
  | mdRequest (syms : List String)
  | testRequest (id : Option String)
  | command (c : PageCommand F)

namespace OrderServer

variable {F : Type}

/-- `AsyncFixSession.send` at the time `ts`, which fails on what `build_message` fails on. -/
def send (s : OrderServer) (ts msgType : String) (body : List (String × String)) : OrderServer :=
  match FixClient.buildMessage msgType.toList s.seq
      (body.map fun field => (field.1.toList, field.2.toList)) s.compId.toList ts.toList with
  | some _ => { s with seq := s.seq + 1, sent := s.sent ++ [⟨msgType, s.seq, body⟩] }
  | none => s

/-- The client id with a number. -/
def clordId (compId : String) (sessionTs n : ℕ) : String :=
  compId ++ "-" ++ toString sessionTs ++ "-" ++ toString n

/-- `"1" if data["side"] == "buy" else "2"`. -/
def fixSide (side : String) : String := if side = "buy" then "1" else "2"

/-- The loop of `websocket_endpoint` on a command.  The number is used up even when the message
cannot be sent, because a key is missing or a text cannot be encoded. -/
def onCommand (str : F → String) (s : OrderServer) (ts : String) (c : PageCommand F) :
    OrderServer :=
  let s := { s with seqCounter := s.seqCounter + 1 }
  let id := clordId s.compId s.sessionTs s.seqCounter
  match c with
  | .newOrder symbol side qty price =>
    s.send ts "D" [("11", id), ("21", "1"), ("55", symbol), ("54", fixSide side), ("40", "2"),
      ("44", str price), ("38", str qty), ("60", ts)]
  | .cancel origClordId (some symbol) side qty =>
    s.send ts "F" [("41", origClordId), ("11", id), ("55", symbol), ("54", fixSide side),
      ("38", str qty), ("60", ts)]
  | .cancel _ none _ _ => s

/-- The server on an event at the time `ts`. -/
def on (str : F → String) (s : OrderServer) (ts : String) : ServerEvent F → OrderServer
  | .logon => s.send ts "A" [("98", "0"), ("108", "30")]
  | .logout => s.send ts "5" [("58", "Normal logout")]
  | .mdRequest syms =>
    s.send ts "V" ([("262", "INIT"), ("263", "0"), ("264", "0"), ("267", "2"), ("269", "0"),
      ("269", "1"), ("146", toString syms.length)] ++ syms.map fun sym => ("55", sym))
  | .testRequest id => s.send ts "0" [("112", id.getD "")]
  | .command c => s.onCommand str ts c

end OrderServer

/-- The client id that a message has, if it has one. -/
def FixOut.clOrdId (m : FixOut) : Option String := m.body.lookup "11"

/-- A cancel request as the gateway gets it. -/
def FixOut.orderCancelRequest (m : FixOut) : Option OrderCancelRequest :=
  if m.msgType = "F" then
    (m.body.lookup "41").bind fun origClOrdID =>
      (m.body.lookup "55").map fun symbol => { origClOrdID, symbol }
  else none

/-! ## Client ids -/

namespace OrderServer

variable {F : Type} {str : F → String} {s : OrderServer}

lemma clordId_inj {compId compId' : String} {ts ts' n n' : ℕ}
    (h : clordId compId ts n = clordId compId' ts' n') :
    compId = compId' ∧ ts = ts' ∧ n = n' := by
  obtain ⟨hsession, hn⟩ := fillId_inj h
  obtain ⟨hcomp, hts⟩ := fillId_inj hsession
  exact ⟨hcomp, hts, hn⟩

lemma send_cases (s : OrderServer) (ts msgType : String) (body : List (String × String)) :
    s.send ts msgType body = s ∨
      s.send ts msgType body
        = { s with seq := s.seq + 1, sent := s.sent ++ [⟨msgType, s.seq, body⟩] } := by
  unfold send
  split
  · exact Or.inr rfl
  · exact Or.inl rfl

/-- What an event does: it may use up a number, and it may send a message, which has the client id
with that number if it has one. -/
inductive Does (s : OrderServer) : OrderServer → Prop
  | nothing : Does s s
  | sends {m : FixOut} (hseq : m.seq = s.seq) (hid : m.clOrdId = none) :
      Does s { s with seq := s.seq + 1, sent := s.sent ++ [m] }
  | counts : Does s { s with seqCounter := s.seqCounter + 1 }
  | orders {m : FixOut} (hseq : m.seq = s.seq)
      (hid : m.clOrdId = some (clordId s.compId s.sessionTs (s.seqCounter + 1))) :
      Does s { s with seqCounter := s.seqCounter + 1, seq := s.seq + 1, sent := s.sent ++ [m] }

/-- A message without a client id. -/
lemma does_send {ts msgType : String} {body : List (String × String)}
    (hid : body.lookup "11" = none) : s.Does (s.send ts msgType body) := by
  rcases s.send_cases ts msgType body with heq | heq <;> rw [heq]
  · exact .nothing
  · exact .sends rfl hid

/-- A message with a new client id. -/
lemma does_order {ts msgType : String} {body : List (String × String)}
    (hid : body.lookup "11" = some (clordId s.compId s.sessionTs (s.seqCounter + 1))) :
    s.Does (({ s with seqCounter := s.seqCounter + 1 } : OrderServer).send ts msgType body) := by
  rcases ({ s with seqCounter := s.seqCounter + 1 } : OrderServer).send_cases ts msgType body with
    heq | heq <;> rw [heq]
  · exact .counts
  · exact .orders rfl hid

lemma does_on (s : OrderServer) (ts : String) (e : ServerEvent F) : s.Does (s.on str ts e) := by
  cases e with
  | logon => exact does_send rfl
  | logout => exact does_send rfl
  | mdRequest syms =>
    refine does_send ?_
    have hsyms : (syms.map fun sym => ("55", sym)).lookup "11" = none := by
      induction syms with
      | nil => rfl
      | cons sym syms ih => exact ih
    exact hsyms
  | testRequest id => exact does_send rfl
  | command c =>
    cases c with
    | newOrder symbol side qty price => exact does_order rfl
    | cancel origClordId symbol side qty =>
      cases symbol with
      | none => exact .counts
      | some symbol => exact does_order rfl

/-- The messages are numbered without gaps, and their client ids have increasing numbers. -/
structure Counts (s : OrderServer) : Prop where
  seqs : s.sent.map FixOut.seq = List.range' 1 s.sent.length
  seq : s.seq = s.sent.length + 1
  ids : ∃ ns : List ℕ, ns.Pairwise (· < ·) ∧ (∀ n ∈ ns, n ≤ s.seqCounter) ∧
    s.sent.filterMap FixOut.clOrdId = ns.map (clordId s.compId s.sessionTs)

/-- A message that has been sent has the next number. -/
lemma Counts.seqs_snoc (h : s.Counts) {m : FixOut} (hm : m.seq = s.seq) :
    (s.sent ++ [m]).map FixOut.seq = List.range' 1 (s.sent ++ [m]).length := by
  rw [List.map_append, h.seqs, List.map_singleton, hm, h.seq, List.length_append,
    List.length_singleton, List.range'_1_concat, Nat.add_comm 1]

lemma Counts.step {s' : OrderServer} (h : s.Counts) (hdoes : s.Does s') :
    s'.Counts ∧ s'.compId = s.compId ∧ s'.sessionTs = s.sessionTs := by
  obtain ⟨ns, hlt, hle, hids⟩ := h.ids
  cases hdoes with
  | nothing => exact ⟨h, rfl, rfl⟩
  | @sends m hseq hid =>
    refine ⟨⟨h.seqs_snoc hseq, by simp [h.seq], ns, hlt, hle, ?_⟩, rfl, rfl⟩
    rw [List.filterMap_append, hids, List.filterMap_cons_none hid, List.filterMap_nil,
      List.append_nil]
  | counts => exact ⟨⟨h.seqs, h.seq, ns, hlt, fun n hn => (hle n hn).trans (by simp), hids⟩, rfl, rfl⟩
  | @orders m hseq hid =>
    refine ⟨⟨h.seqs_snoc hseq, by simp [h.seq], ns ++ [s.seqCounter + 1], ?_, ?_, ?_⟩, rfl, rfl⟩
    · refine List.pairwise_append.mpr ⟨hlt, List.pairwise_singleton _ _, fun n hn n' hn' => ?_⟩
      rw [List.mem_singleton.mp hn']
      exact Nat.lt_succ_of_le (hle n hn)
    · intro n hn
      rcases List.mem_append.mp hn with hn | hn
      · exact (hle n hn).trans (Nat.le_succ _)
      · rw [List.mem_singleton.mp hn]
    · rw [List.filterMap_append, hids, List.filterMap_cons_some hid, List.filterMap_nil,
        List.map_append, List.map_singleton]

end OrderServer

/-- The life of a server: what it has been started with, and its events with their times. -/
structure ServerLife (F : Type) where
  compId : String
  sessionTs : ℕ
  events : List (String × ServerEvent F)

namespace ServerLife

variable {F : Type} (str : F → String)

/-- The server behind its events. -/
def server (life : ServerLife F) : OrderServer :=
  life.events.foldl (fun s e => s.on str e.1 e.2)
    { compId := life.compId, sessionTs := life.sessionTs }

/-- The client ids that the server has sent. -/
def clOrdIds (life : ServerLife F) : List String := (life.server str).sent.filterMap FixOut.clOrdId

lemma counts_server (life : ServerLife F) :
    (life.server str).Counts ∧ (life.server str).compId = life.compId ∧
      (life.server str).sessionTs = life.sessionTs := by
  obtain ⟨compId, sessionTs, events⟩ := life
  rw [server]
  induction events using List.reverseRecOn with
  | nil => exact ⟨⟨rfl, rfl, [], .nil, by simp, rfl⟩, rfl, rfl⟩
  | append_singleton events e ih =>
    obtain ⟨hcounts, hcomp, hts⟩ := ih
    rw [List.foldl_append, List.foldl_cons, List.foldl_nil]
    obtain ⟨hcounts', hcomp', hts'⟩ := hcounts.step (@OrderServer.does_on F str _ e.1 e.2)
    exact ⟨hcounts', hcomp'.trans hcomp, hts'.trans hts⟩

lemma mem_clOrdIds {life : ServerLife F} {id : String} (h : id ∈ life.clOrdIds str) :
    ∃ n, id = OrderServer.clordId life.compId life.sessionTs n := by
  obtain ⟨⟨-, -, ns, -, -, hids⟩, hcomp, hts⟩ := life.counts_server str
  rw [clOrdIds, hids, hcomp, hts] at h
  obtain ⟨n, -, rfl⟩ := List.mem_map.mp h
  exact ⟨n, rfl⟩

lemma nodup_clOrdIds (life : ServerLife F) : (life.clOrdIds str).Nodup := by
  obtain ⟨⟨-, -, ns, hlt, -, hids⟩, -, -⟩ := life.counts_server str
  rw [clOrdIds, hids]
  exact (hlt.imp fun h => h.ne).map _ fun n n' hne heq => hne (OrderServer.clordId_inj heq).2.2

/-- No two lives have a session and a time in common. -/
def Apart (lives : List (ServerLife F)) : Prop :=
  (lives.map fun life => (life.compId, life.sessionTs)).Nodup

instance (lives : List (ServerLife F)) : Decidable (Apart lives) :=
  inferInstanceAs (Decidable (List.Nodup _))

lemma Apart.nodup {lives : List (ServerLife F)} (h : Apart lives) :
    (lives.flatMap (clOrdIds str)).Nodup := by
  refine List.nodup_flatMap.mpr ⟨fun life _ => life.nodup_clOrdIds str, ?_⟩
  refine (List.pairwise_map.mp h).imp fun hne => ?_
  rintro id hid hid'
  obtain ⟨n, rfl⟩ := mem_clOrdIds str hid
  obtain ⟨n', heq⟩ := mem_clOrdIds str hid'
  obtain ⟨hcomp, hts, -⟩ := OrderServer.clordId_inj heq
  exact hne (Prod.ext hcomp hts)

end ServerLife

/-- **Client ids are not used twice.**  However often servers are started, as long as no two of
them have the session and the time of their start in common, and whatever pages send them and
whatever fails meanwhile, all orders and cancel requests that they send have different client ids;
and each server numbers its messages without gaps. -/
theorem clordIds_nodup {F : Type} (str : F → String) (lives : List (ServerLife F))
    (h : ServerLife.Apart lives) :
    (lives.flatMap (ServerLife.clOrdIds str)).Nodup ∧
      ∀ life ∈ lives, (life.server str).sent.map FixOut.seq
        = List.range' 1 (life.server str).sent.length :=
  ⟨h.nodup str, fun life _ => (life.counts_server str).1.seqs⟩

/-- A server with commands of pages. -/
def sampleLife (compId : String) (cs : List (PageCommand ℤ)) : ServerLife ℤ where
  compId := compId
  sessionTs := 7
  events := cs.map fun c => ("20240102-03:04:05", .command c)

/-- Two servers. -/
def sampleLives : List (ServerLife ℤ) :=
  [sampleLife "A" [.newOrder "X" "sell" 5 10], sampleLife "B" [.newOrder "X" "buy" 3 10]]

/-- A server is started, sends an order, fails to send one whose symbol is no ASCII, cancels the first
one, fails to send a cancel without a symbol, and sends another order; it is started again later,
while a second server sends orders, too. -/
def failingLives : List (ServerLife ℤ) :=
  [{ compId := "A", sessionTs := 7, events :=
      [("t1", .logon), ("t2", .command (.newOrder "X" "sell" 5 10)),
        ("t3", .command (.newOrder "Ü" "sell" 5 10)),
        ("t4", .command (.cancel "A-7-1" (some "X") "sell" 5)),
        ("t5", .command (.cancel "A-7-1" none "sell" 5)),
        ("t6", .command (.newOrder "X" "buy" 1 9))] },
    sampleLife "B" [.newOrder "X" "buy" 3 10, .newOrder "X" "buy" 3 10],
    { sampleLife "A" [.newOrder "X" "sell" 5 10] with sessionTs := 8 }]

theorem clordIds_nodup_sample :
    failingLives.flatMap (ServerLife.clOrdIds toString)
        = ["A-7-1", "A-7-3", "A-7-5", "B-7-1", "B-7-2", "A-8-1"] ∧
      (failingLives.flatMap (ServerLife.clOrdIds toString)).Nodup ∧
      ∀ life ∈ failingLives, (life.server toString).sent.map FixOut.seq
        = List.range' 1 (life.server toString).sent.length := by
  obtain ⟨hnodup, hseqs⟩ := clordIds_nodup toString failingLives (by decide)
  exact ⟨by decide +kernel, hnodup, hseqs⟩

/-! ## The button of a row -/

lemma Blotter.symbol_told {F : Type} (num : PageNumbers F) (text : NumberText) (o : Order) :
    (told num text o).symbol = some o.symbol := by
  show ((makeExecReport o .New).message text).lookup "55" = _
  rw [ExecutionReport.message, List.toAList, AList.lookup, List.dlookup_dedupKeys]
  rfl

/-- What the server sends for a cancel of the page. -/
lemma OrderServer.request_of_cancel {F : Type} {str : F → String} {server : OrderServer}
    {ts x symbol side : String} {qty : F} {out : FixOut} {m : OrderCancelRequest}
    (hsent : (server.onCommand str ts (.cancel x (some symbol) side qty)).sent
      = server.sent ++ [out])
    (hread : out.orderCancelRequest = some m) : m = { origClOrdID := x, symbol } := by
  have hcancel := ({ server with seqCounter := server.seqCounter + 1 } : OrderServer).send_cases ts
    "F" [("41", x), ("11", clordId server.compId server.sessionTs (server.seqCounter + 1)),
      ("55", symbol), ("54", fixSide side), ("38", str qty), ("60", ts)]
  rcases hcancel with heq | heq
  · have hnone : server.sent = server.sent ++ [out] := (congrArg sent heq).symm.trans hsent
    exact absurd hnone (by simp)
  · have hone := (congrArg sent heq).symm.trans hsent
    obtain rfl := List.singleton_inj.mp (List.append_cancel_left hone)
    exact (Option.some.inj hread).symm

namespace System

variable {s t : System} {as bs cs : List Action} {client x : String}

lemma mem_names_append {s₀ : System} {ok : System → Action → Prop}
    (h : Transition.Reaches step ok s₀ as s) (more : List Action) {y : String × String}
    (hy : y ∈ s₀.names as) : y ∈ s₀.names (as ++ more) := by
  show y ∈ (s₀.accepted (as ++ more)).map Order.name
  rw [accepted, h.collect_append, List.map_append]
  exact List.mem_append_left _ hy

/-- A cancel request for the client id of an open order sends the order away, even when the gateway
does not resolve the id any more. -/
lemma leaving_of_clOrdId {o : Order} {id : String} {m : OrderCancelRequest} {session : SessionID}
    (hf : s.Founded) (hrouted : s.Routed) (hclosing : s.Closing) (hknown : s.Known id)
    (hopen : s.gateway.active id = some o) (hclord : o.clordId = m.origClOrdID)
    (hstep : s.step (.message (.cancel m) session) = some t) : t.Leaving id m.symbol := by
  rcases hrouted.routed id o hopen with hresolved | ⟨fill, session', htask, hid, h0⟩
  · rw [hclord] at hresolved
    exact leaving_of_message hresolved hstep
  · -- the last fill of the order is still to be reported
    have hcloses : (Task.fillOrders fill session').closes = some id := by
      rw [Task.closes, if_pos h0, hid]
    exact .departed (Departed.step ⟨hknown, hclosing.gone _ htask id hcloses,
      hclosing.queued _ htask id hcloses⟩ hf hstep)

/-- A cancel request that names an order by the client id and the symbol that the order had once
has closed it whenever nothing is left to be done. -/
lemma closed_of_request {cfg : Config} {ok : System → Action → Prop} {o : Order} {id : String}
    {m : OrderCancelRequest} {session : SessionID}
    (hlimit : ∀ s a, ok s a → s.LimitOrders a) (hwatched : ∀ s a, ok s a → s.Watched client a)
    (h : RunTo cfg ok as s) (hopen : s.gateway.active id = some o)
    (hm : m = { origClOrdID := o.clordId, symbol := o.symbol })
    (hrest : Transition.Reaches step ok s (bs ++ .message (.cancel m) session :: cs) t)
    (hnodup : ((as ++ (bs ++ .message (.cancel m) session :: cs)).flatMap Action.clOrdIds).Nodup)
    (hd : t.Drained) : t.gateway.active id = none := by
  obtain ⟨u, hbs, hrest⟩ := hrest.append_cases
  obtain ⟨hnil, -⟩ | ⟨a, v, cs', heq, hok, hstep, hcs⟩ := hrest.head_cases
  · exact absurd hnil (by simp)
  obtain ⟨rfl, rfl⟩ := List.cons.inj heq
  rw [← List.append_assoc, List.flatMap_append] at hnodup
  have hbefore := (List.nodup_append.mp hnodup).1
  have hs := (sound_of_run h).founded
  have hsync := synced_of_watched (h.mono hwatched)
  -- the order keeps its symbol, and its id has been issued
  have hnodups : (as.flatMap Action.clOrdIds).Nodup := by
    rw [List.flatMap_append] at hbefore
    exact (List.nodup_append.mp hbefore).1
  have htracked := tracked_of_watched (h.mono hwatched) hnodups
  have hissued : Issued s.gateway.orderSeq id := by
    rw [← (hs.maps.active id o hopen).1]
    exact htracked.issued _ (htracked.named.active id o hopen)
  have hu := h.trans hbs
  have huf := (sound_of_run hu).founded
  have hutracked := tracked_of_watched (hu.mono hwatched) hbefore
  have hidle : u.handler = .idle := (step_message hstep).1
  have hname : (id, o.clordId) ∈ (start cfg).names (as ++ bs) := by
    rw [← (hs.maps.active id o hopen).1]
    exact mem_names_append h bs (htracked.named.active id o hopen)
  have hknown : u.Known id := ⟨hutracked.issued _ hname, by simp [hidle, Handler.pending]⟩
  have hlabel : u.Labelled id o.symbol := by
    refine (hbs.invariant (I := fun w => w.Labelled id o.symbol ∧ Issued w.gateway.orderSeq id)
      ⟨labelled_of_open hs hsync hopen, hissued⟩ ?_).1
    rintro ds w a w' hrun ⟨hw, hid⟩ - hstep
    exact ⟨hw.step (sound_of_run (h.trans hrun)).founded hid hstep, hid.mono (orderSeq_le hstep)⟩
  have hlast : Transition.Reaches step LimitOrders v cs t := hcs.mono hlimit
  cases hactive : u.gateway.active id with
  | none =>
    -- the order has ended before the request comes
    have hclosed := closed_step hknown hactive hstep
    refine (hcs.invariant (I := fun w => w.Known id ∧ w.gateway.active id = none)
      ⟨hknown.step hstep, hclosed⟩ ?_).2
    rintro ds w a w' - ⟨hk, hw⟩ - hstep
    exact ⟨hk.step hstep, closed_step hk hw hstep⟩
  | some o' =>
    have hclord : o'.clordId = o.clordId := by
      have hname' := hutracked.named.active id o' hactive
      refine congrArg Prod.snd (hutracked.distinct _ hname' _ hname (Or.inl ?_))
      exact (huf.maps.active id o' hactive).1
    have hleaving := leaving_of_clOrdId huf hutracked.routed (closing_of_run hu) hknown hactive
      (m := m) (by rw [hclord, hm]) hstep
    rw [hm] at hleaving
    exact (closed_of_leaving ((hu.mono hlimit).snoc (hlimit _ _ hok) hstep) (hknown.step hstep)
      (hlabel.step huf hknown.1 hstep) hleaving hlast hd).1

/-- There are limit orders only, nobody replaces them, and the client logs on while there is nothing
to tell it only. -/
structure WatchedLimits (client : String) (s : System) (a : Action) : Prop where
  limit : s.LimitOrders a
  watched : s.Watched client a

instance (client : String) (s : System) (a : Action) : Decidable (s.WatchedLimits client a) :=
  decidable_of_iff (s.LimitOrders a ∧ s.Watched client a)
    ⟨fun ⟨hl, hw⟩ => ⟨hl, hw⟩, fun ⟨hl, hw⟩ => ⟨hl, hw⟩⟩

/-- **The button of a row works.**  In a run of limit orders whose client ids are ones that servers
have sent, each at most once, a page has an active row and its button is pressed; the server sends a
message for that, and the gateway gets it, at any later time.  Whenever nothing is left to be done
then, the row is not active any more, and no order of the client rests under the client id. -/
theorem cancel_button_works {F : Type} (num : PageNumbers F) (text : NumberText) (str : F → String)
    {cfg : Config} {lives : List (ServerLife F)} {server : OrderServer} {ts : String}
    {c : PageCommand F} {out : FixOut} {m : OrderCancelRequest} {session : SessionID}
    (hlives : ServerLife.Apart lives)
    (h : RunTo cfg (WatchedLimits client) as s)
    (hrest : Transition.Reaches step (WatchedLimits client) s
      (bs ++ .message (.cancel m) session :: cs) t)
    (hserved : ((as ++ (bs ++ .message (.cancel m) session :: cs)).flatMap Action.clOrdIds).Subperm
      (lives.flatMap (ServerLife.clOrdIds str)))
    (hshows : (blotterOf num text client s.gateway.sent).Shows x)
    (hclick : (blotterOf num text client s.gateway.sent).cancelOrder x = some c)
    (hsent : (server.onCommand str ts c).sent = server.sent ++ [out])
    (hread : out.orderCancelRequest = some m) (hd : t.Drained) :
    ¬ (blotterOf num text client t.gateway.sent).Shows x ∧
      ∀ sym b, t.engine.books.lookup sym = some b → ∀ n ∈ b.nodes,
        n.order.clientId = client → n.order.clordId ≠ x := by
  have hwatched : ∀ s a, WatchedLimits client s a → s.Watched client a := fun _ _ h => h.watched
  have hnodup : ((as ++ (bs ++ .message (.cancel m) session :: cs)).flatMap
      Action.clOrdIds).Nodup := by
    obtain ⟨ids, hperm, hsub⟩ := hserved
    exact hperm.nodup_iff.mp ((hlives.nodup str).sublist hsub)
  have hfirst : (as.flatMap Action.clOrdIds).Nodup := by
    rw [List.flatMap_append] at hnodup
    exact (List.nodup_append.mp hnodup).1
  -- the row is about an open order, and the request is about that
  have hshown := shown_of_run num text (h.mono hwatched) hfirst
  obtain ⟨id, o, ho, hclient, rfl⟩ := (hshown.active x).mp hshows
  obtain ⟨line, hline, -⟩ := hshows
  have hsymbol : line.symbol = some o.symbol := by
    rw [hshown.details id o ho hclient line hline, Blotter.symbol_told]
  rw [Blotter.cancelOrder, Option.mem_def.mp hline, Option.map_some, hsymbol] at hclick
  obtain rfl := Option.some.inj hclick
  have hm := OrderServer.request_of_cancel hsent hread
  have hclosed := closed_of_request (fun _ _ h => h.limit) hwatched h ho hm hrest hnodup hd
  -- no other order has the client id
  have hall := h.trans hrest
  have hnot : ¬ (blotterOf num text client t.gateway.sent).Shows o.clordId := by
    rw [(shown_of_run num text (hall.mono hwatched) hnodup).active]
    rintro ⟨id', o', ho', -, hsame⟩
    have htracked := tracked_of_watched (hall.mono hwatched) hnodup
    have hname := mem_names_append h (bs ++ .message (.cancel m) session :: cs)
      ((tracked_of_watched (h.mono hwatched) hfirst).named.active id o ho)
    have heq := htracked.distinct _ (htracked.named.active id' o' ho') _ hname (Or.inr hsame)
    have hid : o'.exchangeId = o.exchangeId := congrArg Prod.fst heq
    rw [((sound_of_run hall).founded.maps.active id' o' ho').1,
      ((sound_of_run h).founded.maps.active id o ho).1] at hid
    rw [hid, hclosed] at ho'
    exact absurd ho' (by simp)
  refine ⟨hnot, fun sym b hb n hn hclient hx => hnot ?_⟩
  rw [← hx]
  exact shows_of_rests num text (hall.mono hwatched) hnodup hd.tasks hb hn hclient

/-- An order rests, and has a row; its button is pressed, while another order trades with a part of
the order. -/
def clickedRun : List Action :=
  .logon Sample.alice :: Sample.submit (Sample.limit "A-7-1" '2' 5 10) Sample.alice
    ++ Sample.engine 2

/-- What happens until the request has been processed. -/
def clickedRest : List Action :=
  Sample.submit (Sample.limit "B-7-1" '1' 3 10) Sample.bob
    ++ .message (Sample.cancel "A-7-1") Sample.alice :: (.handle :: Sample.engine 8)

theorem cancel_button_works_sample :
    ∃ s t, RunTo Sample.config (WatchedLimits "A") clickedRun s ∧
      Transition.Reaches step (WatchedLimits "A") s clickedRest t ∧
      (blotterOf BlotterServer.sampleNumbers ⟨toString, toString⟩ "A" s.gateway.sent).Shows "A-7-1" ∧
      ¬ (blotterOf BlotterServer.sampleNumbers ⟨toString, toString⟩ "A" t.gateway.sent).Shows
        "A-7-1" := by
  have hreach : ∃ s, RunTo Sample.config (WatchedLimits "A") clickedRun s ∧
      ((blotterOf BlotterServer.sampleNumbers ⟨toString, toString⟩ "A" s.gateway.sent).lineOf
        (some "A-7-1")).map (fun l => (l.symbol, l.side, l.qty, l.active))
          = some (some "X", "sell", 5, true) ∧
      (Transition.run step s clickedRest).any (fun t => decide t.Drained) = true ∧
      Transition.Allowed step (WatchedLimits "A") s clickedRest :=
    Transition.exists_reaches (by decide +kernel) (by decide +kernel)
  obtain ⟨s, hrun, hrow, hmore, hallowed⟩ := hreach
  obtain ⟨line, hline, hfields⟩ := Option.map_eq_some_iff.mp hrow
  obtain ⟨t, hrest, hd⟩ := Transition.exists_reaches hmore hallowed
  obtain ⟨hsymbol, hside, hqty, hactive⟩ : line.symbol = some "X" ∧ line.side = "sell" ∧
      line.qty = 5 ∧ line.active = true := by simpa using hfields
  have hclick : (blotterOf BlotterServer.sampleNumbers ⟨toString, toString⟩ "A"
      s.gateway.sent).cancelOrder "A-7-1" = some (.cancel "A-7-1" (some "X") "sell" 5) := by
    rw [Blotter.cancelOrder, hline, Option.map_some, hsymbol, hside, hqty]
  have hserved : ((clickedRun ++ clickedRest).flatMap Action.clOrdIds).Subperm
      (sampleLives.flatMap (ServerLife.clOrdIds toString)) := by
    rw [show (clickedRun ++ clickedRest).flatMap Action.clOrdIds
      = sampleLives.flatMap (ServerLife.clOrdIds toString) by decide +kernel]
  have hshows : (blotterOf BlotterServer.sampleNumbers ⟨toString, toString⟩ "A"
      s.gateway.sent).Shows "A-7-1" := ⟨line, hline, hactive⟩
  have hsent : (OrderServer.onCommand toString
      { compId := "A", sessionTs := 7, seqCounter := 1, seq := 2 } "20240102-03:04:06"
      (.cancel "A-7-1" (some "X") "sell" 5)).sent
        = [⟨"F", 2, [("41", "A-7-1"), ("11", "A-7-2"), ("55", "X"), ("54", "2"), ("38", "5"),
          ("60", "20240102-03:04:06")]⟩] := by decide +kernel
  have hworks := cancel_button_works BlotterServer.sampleNumbers ⟨toString, toString⟩ toString
    (by decide) hrun hrest hserved hshows hclick hsent rfl hd
  exact ⟨s, t, hrun, hrest, hshows, hworks.1⟩

end System

end FixExchange
