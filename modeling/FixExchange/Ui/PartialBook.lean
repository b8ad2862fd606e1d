/-
# A subscriber that knows a part of the book

A subscriber that has not heard of every order may still have the whole book of some symbols.
It keeps it: an event either finds the order in the same state as the one that has heard
everything does, or it is about an order of another symbol (`Holds.receive`).  What the packets
of other symbols change can be left out (`Same.receive`).  Both rely on packets that name an
order together with its symbol (`Coherent`), as those of the exchange do (`coherent_feed`).
-/
import FixExchange.System.Feed
import FixExchange.Ui.Browser

namespace FixExchange

namespace Subscriber

/-! ## What an event does -/

/-- What an event makes of an order in the state `prev`: its new entry, and the change of the
level at a price. -/
def mdMove (evt : EventType) (side : Char) (symbol : String) (price : Price) (qty : ℤ)
    (prev : Option OrderState) : Option (Option OrderState × Price × ℤ) :=
  if side ≠ '0' ∧ side ≠ '1' then none
  else
    match evt with
    | .NewOrder | .ReplaceNew => some (some ⟨price, qty, symbol, side⟩, price, qty)
    | .Cancel | .ReplaceDelete => prev.map fun st => (none, st.price, -st.qty)
    | .FillResting => prev.map fun st =>
      (if qty = 0 then none else some { st with qty := qty }, st.price, -(st.qty - qty))
    | .Trade => none
    | .ReplaceInPlace => prev.map fun st =>
      (some { st with qty := qty }, st.price, -(st.qty - qty))

/-- A level that is changed; it is left out when nothing is open. -/
def shift (level : Option ℤ) (delta : ℤ) : Option ℤ :=
  if level.getD 0 + delta ≤ 0 then none else some (level.getD 0 + delta)

section Event

variable {evt : EventType} {side : Char} {symbol : String} {price : Price} {qty : ℤ}
  {e : Option OrderState} {p : Price} {d : ℤ}

lemma side_of_mdMove {prev : Option OrderState}
    (h : mdMove evt side symbol price qty prev = some (e, p, d)) : side = '0' ∨ side = '1' := by
  by_contra hside
  rw [not_or] at hside
  simp only [mdMove, if_pos hside] at h
  exact absurd h (by simp)

/-- An event does nothing to an order that is not known, or the same to every order. -/
lemma mdMove_none_or (prev : Option OrderState) :
    mdMove evt side symbol price qty none = none ∨
      mdMove evt side symbol price qty prev = mdMove evt side symbol price qty none := by
  by_cases hside : side ≠ '0' ∧ side ≠ '1'
  · simp [mdMove, if_pos hside]
  · simp only [mdMove, if_neg hside]
    cases evt <;> simp

/-- The symbol of an order is that of the event, or stays. -/
lemma symbol_of_mdMove {prev : Option OrderState} {st : OrderState}
    (h : mdMove evt side symbol price qty prev = some (some st, p, d)) :
    st.symbol = symbol ∨ ∃ st', prev = some st' ∧ st.symbol = st'.symbol := by
  have hside : ¬(side ≠ '0' ∧ side ≠ '1') := by
    rcases side_of_mdMove h with hside | hside <;> simp [hside]
  simp only [mdMove, if_neg hside] at h
  cases evt with
  | NewOrder | ReplaceNew =>
    obtain ⟨hentry, -⟩ := Prod.mk.inj (Option.some.inj h)
    obtain rfl := Option.some.inj hentry
    exact Or.inl rfl
  | Cancel | ReplaceDelete =>
    obtain ⟨st', -, hmove⟩ := Option.map_eq_some_iff.mp h
    exact absurd (Prod.mk.inj hmove).1 (by simp)
  | FillResting =>
    obtain ⟨st', hprev, hmove⟩ := Option.map_eq_some_iff.mp h
    obtain ⟨hentry, -⟩ := Prod.mk.inj hmove
    split_ifs at hentry
    obtain rfl := Option.some.inj hentry
    exact Or.inr ⟨st', hprev, rfl⟩
  | Trade => exact absurd h (by simp)
  | ReplaceInPlace =>
    obtain ⟨st', hprev, hmove⟩ := Option.map_eq_some_iff.mp h
    obtain ⟨hentry, -⟩ := Prod.mk.inj hmove
    obtain rfl := Option.some.inj hentry
    exact Or.inr ⟨st', hprev, rfl⟩

variable (s : Subscriber) (id : String)

/-- **What an event does**: it enters the symbol, changes the order that it names, and a
level. -/
lemma applyMd_eq :
    s.applyMd evt side symbol price qty id =
      match mdMove evt side symbol price qty (s.orderState.lookup id) with
      | none => s.enterSymbol symbol
      | some (e, p, d) =>
        { (s.enterSymbol symbol).addToLevel symbol side p d with
          orderState := e.elim (s.orderState.erase id) (s.orderState.insert id) } := by
  have henter := s.orderState_enterSymbol symbol
  by_cases hside : side ≠ '0' ∧ side ≠ '1'
  · simp only [applyMd, mdMove, if_pos hside]
  · rw [← henter]
    simp only [applyMd, mdMove, if_neg hside]
    cases evt with
    | NewOrder | ReplaceNew | Trade => rfl
    | Cancel | ReplaceDelete | ReplaceInPlace =>
      cases (s.enterSymbol symbol).orderState.lookup id <;> rfl
    | FillResting =>
      cases (s.enterSymbol symbol).orderState.lookup id with
      | none => rfl
      | some prev =>
        dsimp only [Option.map_some]
        split_ifs <;> rfl

/-- The order that an event names has a new entry, and no other has. -/
lemma lookup_applyMd (id' : String) :
    (s.applyMd evt side symbol price qty id).orderState.lookup id' =
      if id' = id then
        ((mdMove evt side symbol price qty (s.orderState.lookup id)).map Prod.fst).getD
          (s.orderState.lookup id)
      else s.orderState.lookup id' := by
  rw [applyMd_eq]
  cases mdMove evt side symbol price qty (s.orderState.lookup id) with
  | none =>
    rw [s.orderState_enterSymbol]
    split_ifs with hid
    · rw [hid]
      rfl
    · rfl
  | some move =>
    obtain ⟨e, p, d⟩ := move
    by_cases hid : id' = id
    · subst hid
      rw [if_pos rfl]
      cases e with
      | none => exact AList.lookup_erase _ _
      | some st => exact AList.lookup_insert _
    · rw [if_neg hid]
      cases e with
      | none => exact AList.lookup_erase_ne hid
      | some st => exact AList.lookup_insert_ne hid

/-- An event changes one level of its symbol. -/
lemma lookup_levels_applyMd {side' : Char} (hside' : side' = '0' ∨ side' = '1')
    (symbol' : String) (price' : Price) :
    ((s.applyMd evt side symbol price qty id).levels symbol' side').lookup price' =
      match mdMove evt side symbol price qty (s.orderState.lookup id) with
      | none => (s.levels symbol' side').lookup price'
      | some (_, p, d) =>
        if symbol' = symbol ∧ side' = side ∧ price' = p then
          shift ((s.levels symbol side).lookup p) d
        else (s.levels symbol' side').lookup price' := by
  have henter : ∀ symbol' side', (s.enterSymbol symbol).levels symbol' side' =
      s.levels symbol' side' := by
    intro symbol' side'
    rw [levels, levels, s.bookOf_enterSymbol]
  rw [applyMd_eq]
  cases hmove : mdMove evt side symbol price qty (s.orderState.lookup id) with
  | none => exact congrArg (AList.lookup price') (henter symbol' side')
  | some move =>
    obtain ⟨e, p, d⟩ := move
    have hadd := @lookup_addToLevel (s.enterSymbol symbol) symbol symbol' side side' p price' d
      (side_of_mdMove hmove) hside'
    rw [henter, henter] at hadd
    exact hadd

/-- The levels of other symbols stay. -/
lemma lookup_levels_of_ne {side' : Char} (hside' : side' = '0' ∨ side' = '1') {symbol' : String}
    (hsymbol : symbol' ≠ symbol) (price' : Price) :
    ((s.applyMd evt side symbol price qty id).levels symbol' side').lookup price' =
      (s.levels symbol' side').lookup price' := by
  rw [lookup_levels_applyMd s id hside']
  split
  · rfl
  · exact if_neg fun hat => hsymbol hat.1

/-- The symbol of the order that an event names is that of the event, or stays. -/
lemma symbol_of_lookup_applyMd {st : OrderState}
    (h : (s.applyMd evt side symbol price qty id).orderState.lookup id = some st) :
    st.symbol = symbol ∨
      ∃ prev, s.orderState.lookup id = some prev ∧ st.symbol = prev.symbol := by
  rw [lookup_applyMd, if_pos rfl] at h
  cases hmove : mdMove evt side symbol price qty (s.orderState.lookup id) with
  | none =>
    rw [hmove] at h
    exact Or.inr ⟨st, h, rfl⟩
  | some move =>
    obtain ⟨e, p, d⟩ := move
    rw [hmove] at h
    obtain rfl : e = some st := h
    exact symbol_of_mdMove hmove

end Event

/-! ## A part of the book -/

/-- The packet names no order of another symbol than its own. -/
def Names (s : Subscriber) (pkt : MdPacket) : Prop :=
  ∀ symbol id, decode pkt.symbol = some symbol → decode pkt.exchangeId = some id →
    ∀ st, s.orderState.lookup id = some st → st.symbol = symbol

/-- The packet is about a symbol of `D`. -/
def About (D : String → Prop) (pkt : MdPacket) : Prop :=
  ∃ symbol, decode pkt.symbol = some symbol ∧ D symbol

/-- `s` knows of the book of `t` what there is of the symbols of `D`, and nothing that `t` does
not know. -/
structure Holds (D : String → Prop) (s t : Subscriber) : Prop where
  known : ∀ id st, s.orderState.lookup id = some st → t.orderState.lookup id = some st
  all : ∀ id st, t.orderState.lookup id = some st → D st.symbol → s.orderState.lookup id = some st
  levels : ∀ symbol side price, D symbol → side = '0' ∨ side = '1' →
    (s.levels symbol side).lookup price = (t.levels symbol side).lookup price

/-- The same is known of the symbols of `D`. -/
structure Same (D : String → Prop) (s t : Subscriber) : Prop where
  orders : ∀ id st, D st.symbol →
    (s.orderState.lookup id = some st ↔ t.orderState.lookup id = some st)
  levels : ∀ symbol side price, D symbol → side = '0' ∨ side = '1' →
    (s.levels symbol side).lookup price = (t.levels symbol side).lookup price

variable {D E : String → Prop} {s t u : Subscriber} {pkt : MdPacket}

lemma Same.refl : Same D s s := ⟨fun _ _ _ => Iff.rfl, fun _ _ _ _ _ => rfl⟩

lemma Same.symm (h : Same D s t) : Same D t s :=
  ⟨fun id st hst => (h.orders id st hst).symm, fun symbol side price hsym hside =>
    (h.levels symbol side price hsym hside).symm⟩

lemma Same.trans (h : Same D s t) (h' : Same D t u) : Same D s u :=
  ⟨fun id st hst => (h.orders id st hst).trans (h'.orders id st hst),
    fun symbol side price hsym hside =>
      (h.levels symbol side price hsym hside).trans (h'.levels symbol side price hsym hside)⟩

/-- What other symbols have gone through does not matter. -/
lemma Holds.of_same (h : Holds D s t) (hsame : Same E t u) (hDE : ∀ symbol, D symbol → E symbol)
    (honly : ∀ id st, s.orderState.lookup id = some st → E st.symbol) : Holds D s u :=
  ⟨fun id st hst => (hsame.orders id st (honly id st hst)).mp (h.known id st hst),
    fun id st hst hsym =>
      h.all id st ((hsame.orders id st (hDE _ hsym)).mpr hst) hsym,
    fun symbol side price hsym hside => (h.levels symbol side price hsym hside).trans
      (hsame.levels symbol side price (hDE _ hsym) hside)⟩

/-- **A packet about another symbol** changes nothing of the symbols of `D`. -/
theorem Same.receive (hnames : t.Names pkt) (habout : ¬ About D pkt) :
    Same D t (t.receive pkt) := by
  rw [Subscriber.receive]
  split
  · rename_i symbol id hsymbol hid
    have hnot : ¬ D symbol := fun h => habout ⟨symbol, hsymbol, h⟩
    refine ⟨fun id' st hst => ?_, fun symbol' side price hsym hside => ?_⟩
    · by_cases heq : id' = id
      · subst heq
        -- the order is of another symbol, before the packet and after it
        have hbefore : ∀ prev, t.orderState.lookup id' = some prev → prev.symbol = symbol :=
          hnames symbol id' hsymbol hid
        refine ⟨fun h => absurd (hbefore st h ▸ hst) hnot, fun h => absurd hst ?_⟩
        rcases symbol_of_lookup_applyMd t id' h with heq | ⟨prev, hprev, heq⟩
        · rw [heq]
          exact hnot
        · rw [heq, hbefore prev hprev]
          exact hnot
      · rw [lookup_applyMd, if_neg heq]
    · have hne : symbol' ≠ symbol := fun heq => hnot (heq ▸ hsym)
      exact (lookup_levels_of_ne t id hside hne price).symm
  · exact Same.refl

section Named

variable {evt : EventType} {side : Char} {symbol : String} {price : Price} {qty : ℤ} {id : String}

/-- An event about an order that both find as it is. -/
lemma Holds.applyMd_of_eq (h : Holds D s t)
    (hlookup : s.orderState.lookup id = t.orderState.lookup id) :
    Holds D (s.applyMd evt side symbol price qty id) (t.applyMd evt side symbol price qty id) := by
  refine ⟨fun id' st => ?_, fun id' st => ?_, fun symbol' side' price' hsym hside' => ?_⟩
  · rw [lookup_applyMd, lookup_applyMd, hlookup]
    split_ifs
    · exact fun hst => hst
    · exact h.known id' st
  · rw [lookup_applyMd, lookup_applyMd, hlookup]
    split_ifs
    · exact fun hst _ => hst
    · exact h.all id' st
  · rw [lookup_levels_applyMd s id hside', lookup_levels_applyMd t id hside', hlookup]
    cases hmove : mdMove evt side symbol price qty (t.orderState.lookup id) with
    | none => exact h.levels symbol' side' price' hsym hside'
    | some move =>
      obtain ⟨e, p, d⟩ := move
      dsimp only
      split_ifs with hat
      · rw [h.levels symbol side p (hat.1 ▸ hsym) (side_of_mdMove hmove)]
      · exact h.levels symbol' side' price' hsym hside'

/-- An event about an order of another symbol, which only `t` knows. -/
lemma Holds.applyMd_of_none (h : Holds D s t) {prev : OrderState}
    (hs : s.orderState.lookup id = none) (ht : t.orderState.lookup id = some prev)
    (hprev : prev.symbol = symbol) (hnot : ¬ D symbol) :
    Holds D (s.applyMd evt side symbol price qty id) (t.applyMd evt side symbol price qty id) := by
  refine ⟨fun id' st => ?_, fun id' st hst hsym => ?_,
    fun symbol' side' price' hsym hside' => ?_⟩
  · rw [lookup_applyMd, lookup_applyMd, hs, ht]
    split_ifs
    · -- `s` learns of the order only when it does not matter that it did not know it
      have hmoves : mdMove evt side symbol price qty none = none ∨
          mdMove evt side symbol price qty (some prev)
            = mdMove evt side symbol price qty none := mdMove_none_or (some prev)
      rcases hmoves with hmove | hmove
      · rw [hmove]
        exact fun hst => absurd hst (by simp)
      · rw [hmove]
        cases mdMove evt side symbol price qty none with
        | none => exact fun hst => absurd hst (by simp)
        | some move => exact fun hst => hst
    · exact h.known id' st
  · by_cases heq : id' = id
    · subst heq
      refine absurd hsym ?_
      rcases symbol_of_lookup_applyMd t id' hst with heq | ⟨prev', hprev', heq⟩
      · rw [heq]
        exact hnot
      · obtain rfl := Option.some.inj (ht.symm.trans hprev')
        rw [heq, hprev]
        exact hnot
    · rw [lookup_applyMd, if_neg heq] at hst ⊢
      exact h.all id' st hst hsym
  · have hne : symbol' ≠ symbol := fun heq => hnot (heq ▸ hsym)
    rw [lookup_levels_of_ne s id hside' hne, lookup_levels_of_ne t id hside' hne]
    exact h.levels symbol' side' price' hsym hside'

end Named

/-- **A packet keeps the part of the book** of the symbols of `D`. -/
theorem Holds.receive (h : Holds D s t) (hnames : t.Names pkt) :
    Holds D (s.receive pkt) (t.receive pkt) := by
  rw [Subscriber.receive, Subscriber.receive]
  split
  · rename_i symbol id hsymbol hid
    by_cases hlookup : s.orderState.lookup id = t.orderState.lookup id
    · exact h.applyMd_of_eq hlookup
    · have hs : s.orderState.lookup id = none := by
        cases hs : s.orderState.lookup id with
        | none => rfl
        | some st => exact absurd (hs.trans (h.known id st hs).symm) hlookup
      obtain ⟨prev, ht⟩ : ∃ prev, t.orderState.lookup id = some prev :=
        Option.ne_none_iff_exists'.mp fun ht => hlookup (hs.trans ht.symm)
      have hprev : prev.symbol = symbol := hnames symbol id hsymbol hid prev ht
      refine h.applyMd_of_none hs ht hprev fun hsym => hlookup ?_
      rw [← hprev] at hsym
      exact (h.all id prev ht hsym).trans ht.symm
  · exact h

/-! ## The packets of the exchange -/

/-- No packet names an order of another symbol than its own. -/
def Coherent : Subscriber → List MdPacket → Prop
  | _, [] => True
  | s, pkt :: pkts => s.Names pkt ∧ Coherent (s.receive pkt) pkts

lemma coherent_append {l l' : List MdPacket} :
    Coherent s (l ++ l') ↔ Coherent s l ∧ Coherent (l.foldl Subscriber.receive s) l' := by
  induction l generalizing s with
  | nil => exact (and_iff_right trivial).symm
  | cons pkt l ih => rw [List.cons_append, Coherent, Coherent, ih, and_assoc, List.foldl_cons]

/-- The next packet, after some have been received. -/
lemma Coherent.names {l : List MdPacket} (h : Coherent s l) {n : ℕ} (hn : l[n]? = some pkt) :
    ((l.take n).foldl Subscriber.receive s).Names pkt := by
  obtain ⟨hlt, rfl⟩ := List.getElem?_eq_some_iff.mp hn
  rw [← List.take_append_drop n l, List.drop_eq_getElem_cons hlt, coherent_append] at h
  exact h.2.1

/-- A packet does not change the symbol of the order that it names. -/
lemma Names.receive {pkt' : MdPacket} (h : s.Names pkt)
    (hid : pkt'.exchangeId = pkt.exchangeId) (hsymbol : pkt'.symbol = pkt.symbol) :
    (s.receive pkt).Names pkt' := by
  intro symbol id hsym heid st hst
  rw [hsymbol] at hsym
  rw [hid] at heid
  simp only [Subscriber.receive, hsym, heid] at hst
  rcases symbol_of_lookup_applyMd s id hst with heq | ⟨prev, hprev, heq⟩
  · exact heq
  · rw [heq]
    exact h symbol id hsym heid prev hprev

/-- Packets that name one order, by its symbol. -/
lemma coherent_of_texts {pkts : List MdPacket} (h : s.Names pkt)
    (htexts : ∀ pkt' ∈ pkts, pkt'.exchangeId = pkt.exchangeId ∧ pkt'.symbol = pkt.symbol) :
    Coherent s pkts := by
  induction pkts generalizing s with
  | nil => trivial
  | cons pkt' pkts ih =>
    obtain ⟨hid, hsymbol⟩ := htexts pkt' List.mem_cons_self
    have hnames : s.Names pkt' := by
      intro symbol id hsym heid
      rw [hsymbol] at hsym
      rw [hid] at heid
      exact h symbol id hsym heid
    exact ⟨hnames, ih (h := hnames.receive hid.symm hsymbol.symm) fun p hp =>
      htexts p (List.mem_cons_of_mem _ hp)⟩

end Subscriber

open Subscriber (Names Coherent decode)

/-- The packets of a notice name its order and its symbol. -/
lemma Notice.exists_publish (n : Notice) (m : MarketDataPublisher) :
    ∃ pkts, (n.publish m).sent = m.sent ++ pkts ∧ ∀ pkt ∈ pkts,
      pkt.exchangeId = fillFixed 16 n.subject ∧ pkt.symbol = fillFixed 8 n.symbol := by
  cases n with
  | filled maker taker => exact ⟨_, List.append_assoc _ _ _, by simp [subject, symbol]⟩
  | cancelled id order => exact ⟨_, rfl, by simp [subject, symbol]⟩
  | replaced req newLeavesQty oldPrice =>
    simp only [publish, MarketDataPublisher.onReplace]
    split_ifs
    · exact ⟨_, rfl, by simp [subject, symbol]⟩
    · exact ⟨_, List.append_assoc _ _ _, by simp [subject, symbol]⟩
  | rested order leavesQty => exact ⟨_, rfl, by simp [subject, symbol]⟩

/-- The packets of notices carry the symbols of these. -/
lemma Notice.exists_publishes (ns : List Notice) (m : MarketDataPublisher) :
    ∃ pkts, (ns.foldl Notice.publish m).sent = m.sent ++ pkts ∧ ∀ pkt ∈ pkts,
      ∃ n ∈ ns, pkt.symbol = fillFixed 8 n.symbol := by
  induction ns generalizing m with
  | nil => exact ⟨[], (List.append_nil _).symm, by simp⟩
  | cons n ns ih =>
    obtain ⟨pkts, hsent, hpkts⟩ := n.exists_publish m
    obtain ⟨pkts', hsent', hpkts'⟩ := ih (n.publish m)
    refine ⟨pkts ++ pkts', ?_, fun pkt hpkt => ?_⟩
    · rw [List.foldl_cons, hsent', hsent, List.append_assoc]
    · rcases List.mem_append.mp hpkt with hpkt | hpkt
      · exact ⟨n, List.mem_cons_self, (hpkts pkt hpkt).2⟩
      · obtain ⟨n', hn', hsymbol⟩ := hpkts' pkt hpkt
        exact ⟨n', List.mem_cons_of_mem _ hn', hsymbol⟩

/-- A subscriber that reflects the orders has the order of a notice under the symbol of the
notice. -/
lemma Reflects.names {s : Subscriber} {L : OrderLedger} (h : Reflects s L) {n : Notice}
    (hfits : n.Fits L) (htexts : ∀ o k, n = .rested o k → o.TextsFit) {pkt : MdPacket}
    (hid : pkt.exchangeId = fillFixed 16 n.subject) (hsymbol : pkt.symbol = fillFixed 8 n.symbol) :
    s.Names pkt := by
  -- an order that rests is named by its own texts
  have hresting : ∀ o, L n.subject = some o → o.symbol = n.symbol → s.Names pkt := by
    intro o ho hsym symbol id hdecode hdecodeId st hst
    obtain ⟨hoid, -, hidfits, hsymfits⟩ := h.orders _ o ho
    rw [hid, ← hoid, decode_fillFixed hidfits] at hdecodeId
    rw [hsymbol, ← hsym, decode_fillFixed hsymfits] at hdecode
    obtain rfl := Option.some.inj hdecodeId
    rw [h.lookup, hoid, ho] at hst
    rw [← Option.some.inj hst, ← Option.some.inj hdecode]
    rfl
  cases n with
  | filled maker taker =>
    obtain ⟨-, o, ho, hsym, -⟩ := hfits
    exact hresting o ho hsym
  | cancelled id order =>
    obtain ⟨hoid, -⟩ := h.orders id order hfits
    refine hresting order ?_ rfl
    rw [Notice.subject, hoid]
    exact hfits
  | replaced req newLeavesQty oldPrice =>
    obtain ⟨-, o, ho, -, hsym, -⟩ := hfits
    exact hresting o ho hsym
  | rested order leavesQty =>
    intro symbol id hdecode hdecodeId st hst
    rw [hid, Notice.subject, decode_fillFixed (htexts order leavesQty rfl).1] at hdecodeId
    rw [h.lookup, ← Option.some.inj hdecodeId, hfits.2] at hst
    exact absurd hst (by simp)

/-- The packets sent, for a subscriber with these symbols. -/
def namedFeed (symbols : List String) : Follower Order.TextsFit MarketDataPublisher where
  read := Function.const _
  apply := Notice.publish
  shows m L := Coherent (Subscriber.init symbols) m.sent ∧ Reflects (subscriber symbols m) L
  read_notice _ _ _ := rfl
  read_applyNext _ _ _ _ := rfl
  read_symbol _ _ _ := rfl
  shows_start _ _ := ⟨trivial, reflects_init symbols⟩
  shows_notice m L n h hfits htexts := by
    obtain ⟨hcoherent, hreflects⟩ := h
    obtain ⟨pkts, hsent, hpkts⟩ := n.exists_publish m
    refine ⟨?_, ?_⟩
    · rw [hsent, Subscriber.coherent_append]
      have hnames : (subscriber symbols m).Names
          ⟨0, .Trade, '2', fillFixed 8 n.symbol, 0, 0, fillFixed 16 n.subject⟩ :=
        hreflects.names hfits htexts rfl rfl
      exact ⟨hcoherent, Subscriber.coherent_of_texts hnames hpkts⟩
    · rw [subscriber, n.foldl_publish]
      exact hreflects.hear hfits htexts

/-- **The packets of the exchange** name orders by their symbols, in every run in which no
replace fills its order completely. -/
theorem System.coherent_feed {cfg : Config} {as : List Action} {s : System}
    (h : RunTo cfg Fed as s) (symbols : List String) :
    Coherent (Subscriber.init symbols) s.gateway.publisher.sent := by
  have hshows := following_of_run (F := namedFeed symbols) (h.mono fun _ _ h => h.textsFit)
  -- what is to be sent comes after what has been sent
  obtain ⟨pkts, hsent, -⟩ :=
    Notice.exists_publishes (noticesOf s.tasks s.gateway.active) s.gateway.publisher
  have hall : Coherent (Subscriber.init symbols)
      ((noticesOf s.tasks s.gateway.active).foldl Notice.publish s.gateway.publisher).sent :=
    hshows.1
  rw [hsent, Subscriber.coherent_append] at hall
  exact hall.1

end FixExchange
