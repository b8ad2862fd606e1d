/-
# The bytes of a packet

A packet of the feed is the packed struct `MdPacket` of `src/market_data/MarketDataEvent.h` in
memory, and `MdProtocol` of `ui/main.py` takes it apart with the format `<Q B B 8s d i 16s`.
The eight bytes of a `double` are a parameter.  What the publisher was given comes out again
unless the symbol does not fit in its field; symbols that are registered at runtime fit, while
those of the configuration are not checked (`decodes_iff`).
-/
import FixExchange.Lib.Bytes
import FixExchange.System.Owners
import FixExchange.System.Feed
import FixExchange.System.Priority

namespace FixExchange

/-! ## The two layouts -/

/-- The eight bytes of a `double`, as a number below 2 to the 64: what each of them stands for,
and the bytes of the numbers that are `double`s. -/
structure Double where
  value : ℕ → Price
  bits : Price → ℕ
  bits_lt : ∀ price, bits price < 256 ^ 8
  value_bits : ∀ n, n < 256 ^ 8 → value (bits (value n)) = value n

/-- The price is a `double`. -/
def Double.Has (d : Double) (price : Price) : Prop := ∃ n < 256 ^ 8, d.value n = price

/-- The value of `EventType` in a packet. -/
def EventType.code : EventType → ℕ
  | .NewOrder => 0
  | .Cancel => 1
  | .FillResting => 2
  | .Trade => 3
  | .ReplaceInPlace => 4
  | .ReplaceDelete => 5
  | .ReplaceNew => 6

/-- The byte that a character stands for. -/
def charByte (c : Char) : UInt8 := UInt8.ofNat c.toNat

/-- The bytes of a packet in memory, without padding. -/
def MdPacket.bytes (d : Double) (p : MdPacket) : List UInt8 :=
  Bytes.ofNat 8 p.seq ++ ([UInt8.ofNat p.eventType.code] ++ ([charByte p.side] ++
    (p.symbol.1.map charByte ++ (Bytes.ofNat 8 (d.bits p.price) ++
      (Bytes.ofNat 4 (Bytes.twos 32 p.qty) ++ p.exchangeId.1.map charByte)))))

/-- `MD_SIZE`. -/
def MD_SIZE : ℕ := 46

/-- What `datagram_received` gets out of a packet. -/
structure Datagram where
  seq : ℕ
  evt : ℕ
  side : ℕ
  symbol : String
  price : Price
  qty : ℤ
  exchangeId : String
deriving DecidableEq

/-- `rstrip(b"\x00").decode("ascii")`, which fails on other bytes than those of ASCII. -/
def decodeText (bs : List UInt8) : Option String :=
  let text := bs.rdropWhile fun b => b = 0
  if text.all fun b => b < 128 then some (String.ofList (text.map fun b => Char.ofNat b.toNat))
  else none

/-- `datagram_received` up to `_apply_md`: the fields at the offsets of `MD_FMT`. -/
def datagramReceived (d : Double) (data : List UInt8) : Option Datagram :=
  if data.length ≠ MD_SIZE then none
  else
    match decodeText (Bytes.slice data 10 8), decodeText (Bytes.slice data 30 16) with
    | some symbol, some exchangeId =>
      some
        { seq := Bytes.toNat (Bytes.slice data 0 8)
          evt := Bytes.toNat (Bytes.slice data 8 1)
          side := Bytes.toNat (Bytes.slice data 9 1)
          symbol := symbol
          price := d.value (Bytes.toNat (Bytes.slice data 18 8))
          qty := Bytes.signed 32 (Bytes.toNat (Bytes.slice data 26 4))
          exchangeId := exchangeId }
    | _, _ => none

/-! ## Events -/

/-- What the publisher tells in a packet. -/
structure MdEvent where
  type : EventType
  side : Char
  symbol : String
  price : Price
  qty : ℤ
  exchangeId : String

namespace MdEvent

/-- The packet of an event, with its number. -/
def packet (e : MdEvent) (seq : ℕ) : MdPacket :=
  ⟨seq, e.type, e.side, fillFixed 8 e.symbol, e.price, e.qty, fillFixed 16 e.exchangeId⟩

/-- What should come out of the packet. -/
def datagram (e : MdEvent) (seq : ℕ) : Datagram :=
  ⟨seq, e.type.code, e.side.toNat, e.symbol, e.price, e.qty, e.exchangeId⟩

/-- The numbers of the event have the types of the struct. -/
structure Typed (d : Double) (e : MdEvent) : Prop where
  price : d.Has e.price
  qty : WrapSum.Fits 32 e.qty

end MdEvent

open MarketDataPublisher (packetSide)

/-- The events of a notice, as the callbacks of the publisher build them. -/
def Notice.mdEvents : Notice → List MdEvent
  | .filled maker _ =>
    [⟨.FillResting, packetSide maker.side, maker.symbol, maker.price, maker.leavesQty,
        maker.exchangeId⟩,
      ⟨.Trade, '2', maker.symbol, maker.price, maker.qty, maker.exchangeId⟩]
  | .cancelled _ order =>
    [⟨.Cancel, packetSide order.side, order.symbol, order.price, 0, order.exchangeId⟩]
  | .replaced req newLeavesQty oldPrice =>
    if oldPrice = req.newPrice then
      [⟨.ReplaceInPlace, packetSide req.side, req.symbol, req.newPrice, newLeavesQty,
        req.origOrderId⟩]
    else
      [⟨.ReplaceDelete, packetSide req.side, req.symbol, oldPrice, 0, req.origOrderId⟩,
        ⟨.ReplaceNew, packetSide req.side, req.symbol, req.newPrice, newLeavesQty,
          req.origOrderId⟩]
  | .rested order leavesQty =>
    [⟨.NewOrder, packetSide order.side, order.symbol, order.price, leavesQty, order.exchangeId⟩]

/-! ## Reading what was written -/

section Layout

variable {d : Double}

lemma Double.read (d : Double) {price : Price} (h : d.Has price) :
    d.value (d.bits price) = price := by
  obtain ⟨n, hn, rfl⟩ := h
  exact d.value_bits n hn

lemma EventType.code_lt (t : EventType) : t.code < 256 := by cases t <;> decide

/-- The field of a text, cut out of the packet, is what the publisher filled in. -/
lemma MdPacket.slices (p : MdPacket) :
    (p.bytes d).length = 46 ∧
      Bytes.slice (p.bytes d) 0 8 = Bytes.ofNat 8 p.seq ∧
      Bytes.slice (p.bytes d) 8 1 = [UInt8.ofNat p.eventType.code] ∧
      Bytes.slice (p.bytes d) 9 1 = [charByte p.side] ∧
      Bytes.slice (p.bytes d) 10 8 = p.symbol.1.map charByte ∧
      Bytes.slice (p.bytes d) 18 8 = Bytes.ofNat 8 (d.bits p.price) ∧
      Bytes.slice (p.bytes d) 26 4 = Bytes.ofNat 4 (Bytes.twos 32 p.qty) ∧
      Bytes.slice (p.bytes d) 30 16 = p.exchangeId.1.map charByte := by
  have hsymbol : (p.symbol.1.map charByte).length = 8 := by
    rw [List.length_map]
    exact p.symbol.2
  have hid : (p.exchangeId.1.map charByte).length = 16 := by
    rw [List.length_map]
    exact p.exchangeId.2
  refine ⟨?_, ?_, ?_, ?_, ?_, ?_, ?_, ?_⟩
  · simp only [bytes, List.length_append, Bytes.length_ofNat, hsymbol, hid, List.length_singleton]
  all_goals
    simp (disch := simp [hsymbol, hid]) only [bytes, Bytes.slice_append_right,
      Bytes.slice_append_left, Bytes.slice_all, Bytes.length_ofNat, List.length_singleton,
      hsymbol, Nat.reduceSub]

lemma byte_toNat {n : ℕ} (h : n < 256) : Bytes.toNat [UInt8.ofNat n] = n := by
  rw [Bytes.toNat, Bytes.toNat, UInt8.toNat_ofNat', mul_zero, add_zero]
  exact Nat.mod_eq_of_lt h

lemma charByte_toNat {c : Char} (h : c.toNat < 128) : (charByte c).toNat = c.toNat := by
  rw [charByte, UInt8.toNat_ofNat']
  exact Nat.mod_eq_of_lt (by omega)

lemma charOfByte {c : Char} (h : c.toNat < 128) : Char.ofNat (charByte c).toNat = c := by
  rw [charByte_toNat h, Char.ofNat_toNat]

lemma charOfByte_toNat {b : UInt8} (h : b < 128) : (Char.ofNat b.toNat).toNat = b.toNat := by
  have hlt : b.toNat < 128 := h
  have hvalid : b.toNat.isValidChar := Or.inl (by omega)
  rw [Char.ofNat, dif_pos hvalid]
  rfl

/-- A text that comes out of a field of `n` bytes fits in it. -/
lemma textFits_of_decodeText {n : ℕ} {bs : List UInt8} {text : String} (hn : bs.length = n)
    (h : decodeText bs = some text) : TextFits n text := by
  rw [decodeText] at h
  split_ifs at h with hascii
  obtain rfl := Option.some.inj h
  rw [List.all_eq_true] at hascii
  refine ⟨?_, fun hlast => ?_, fun c hc => ?_⟩
  · rw [String.toList_ofList, List.length_map, ← hn]
    exact (List.rdropWhile_prefix _ _).length_le
  · rw [String.toList_ofList, List.getLast?_map] at hlast
    obtain ⟨b, hb, hnul⟩ := Option.map_eq_some_iff.mp hlast
    obtain ⟨hne, rfl⟩ := List.mem_getLast?_eq_getLast hb
    refine List.rdropWhile_last_not _ _ hne (decide_eq_true (UInt8.toNat_inj.mp ?_))
    have hlt : _ < 128 := of_decide_eq_true (hascii _ (List.getLast_mem hne))
    rw [← charOfByte_toNat hlt, hnul]
    rfl
  · rw [String.toList_ofList] at hc
    obtain ⟨b, hb, rfl⟩ := List.mem_map.mp hc
    have hlt : b < 128 := of_decide_eq_true (hascii b hb)
    rw [charOfByte_toNat hlt]
    exact hlt

lemma rdropWhile_append_replicate (l : List UInt8) (k : ℕ) :
    (l ++ List.replicate k 0).rdropWhile (fun b => b = 0) = l.rdropWhile fun b => b = 0 := by
  induction k with
  | zero => rw [List.replicate_zero, List.append_nil]
  | succ k ih =>
    rw [List.replicate_succ', ← List.append_assoc, List.rdropWhile_concat_pos _ _ _ (by simp), ih]

/-- A text is read from a field of `n` bytes as it was written exactly when it fits. -/
lemma decodeText_iff {n : ℕ} {text : String} :
    decodeText ((fillFixed n text).1.map charByte) = some text ↔ TextFits n text := by
  refine ⟨textFits_of_decodeText (by rw [List.length_map]; exact (fillFixed n text).2),
    fun h => ?_⟩
  have hfield : (fillFixed n text).1.map charByte =
      text.toList.map charByte ++ List.replicate (n - text.toList.length) 0 := by
    have htake : text.toList.take n = text.toList := List.take_of_length_le h.length
    simp only [fillFixed, htake, List.map_append, List.map_replicate]
    rfl
  have hstrip : (text.toList.map charByte).rdropWhile (fun b => b = 0) =
      text.toList.map charByte := by
    rw [List.rdropWhile_eq_self_iff]
    intro hne hlast
    have hne' : text.toList ≠ [] := by simpa using hne
    have hmem := List.getLast_mem hne'
    have hzero : charByte (text.toList.getLast hne') = 0 := by
      have hlast' := of_decide_eq_true hlast
      rwa [List.getLast_map] at hlast'
    refine h.padding ?_
    rw [List.getLast?_eq_some_getLast hne', ← charOfByte (h.ascii _ hmem), hzero]
    rfl
  have hascii : ((text.toList.map charByte).all fun b => b < 128) = true := by
    rw [List.all_map, List.all_eq_true]
    intro c hc
    refine decide_eq_true (UInt8.lt_iff_toNat_lt.mpr ?_)
    rw [charByte_toNat (h.ascii c hc)]
    exact h.ascii c hc
  have hback : (text.toList.map charByte).map (fun b => Char.ofNat b.toNat) = text.toList := by
    rw [List.map_map]
    conv_rhs => rw [← List.map_id text.toList]
    exact List.map_congr_left fun c hc => charOfByte (h.ascii c hc)
  rw [decodeText, hfield, rdropWhile_append_replicate, hstrip, if_pos hascii, hback,
    String.ofList_toList]

/-- **Packets of the feed are read as they were written** exactly when the texts fit. -/
theorem datagram_iff {e : MdEvent} {seq : ℕ} (he : e.Typed d) (hside : e.side.toNat < 128)
    (hseq : seq < 256 ^ 8) :
    datagramReceived d ((e.packet seq).bytes d) = some (e.datagram seq) ↔
      TextFits 8 e.symbol ∧ TextFits 16 e.exchangeId := by
  obtain ⟨hlength, h0, h8, h9, h10, h18, h26, h30⟩ := (e.packet seq).slices (d := d)
  have hqty : Bytes.twos 32 e.qty < 256 ^ 4 := Bytes.twos_lt 32 e.qty
  have hsize : ((e.packet seq).bytes d).length = MD_SIZE := hlength
  rw [datagramReceived, if_neg (not_not.mpr hsize), h0, h8, h9, h10, h18, h26, h30]
  simp only [MdEvent.packet, MdEvent.datagram]
  rw [Bytes.toNat_ofNat hseq, Bytes.toNat_ofNat (d.bits_lt _), Bytes.toNat_ofNat hqty,
    Bytes.signed_twos he.qty, d.read he.price, byte_toNat e.type.code_lt, charByte,
    byte_toNat (by omega), ← decodeText_iff, ← decodeText_iff]
  cases decodeText ((fillFixed 8 e.symbol).1.map charByte) with
  | none => simp
  | some symbol =>
    cases decodeText ((fillFixed 16 e.exchangeId).1.map charByte) with
    | none => simp
    | some id => simp

end Layout

/-! ## The symbols of the books -/

lemma length_le_utf8ByteSize (l : List Char) : l.length ≤ (String.ofList l).utf8ByteSize := by
  induction l with
  | nil => simp
  | cons c l ih =>
    have hcons : String.ofList (c :: l) = String.singleton c ++ String.ofList l := by
      rw [← String.toList_inj]
      simp
    have hpos := c.utf8Size_pos
    rw [hcons, String.utf8ByteSize_append, String.utf8ByteSize_singleton, List.length_cons]
    omega

lemma ascii_of_isAlphanum {c : Char} (h : c.isAlphanum = true) : c ≠ '\x00' ∧ c.toNat < 128 := by
  have hrange : c.toNat ≤ 122 ∧ 48 ≤ c.toNat := by
    have hval : c.toNat = c.val.toNat := rfl
    have hcases : (decide (65 ≤ c.val ∧ c.val ≤ 90) || (decide (97 ≤ c.val) && decide (c.val ≤ 122)) ||
        (decide (48 ≤ c.val) && decide (c.val ≤ 57))) = true := h
    simp [UInt32.le_iff_toNat_le] at hcases
    omega
  refine ⟨?_, by omega⟩
  rintro rfl
  revert hrange
  decide

/-- A symbol that may be registered fits in its field. -/
lemma textFits_of_isSymbol {symbol : String} (h : System.IsSymbol symbol) :
    TextFits 8 symbol := by
  obtain ⟨hsize, halnum⟩ := h
  have hchars : ∀ c ∈ symbol.toList, c ≠ '\x00' ∧ c.toNat < 128 := fun c hc =>
    ascii_of_isAlphanum (List.all_eq_true.mp halnum c hc)
  refine ⟨?_, fun hlast => ?_, fun c hc => (hchars c hc).2⟩
  · have hlength := length_le_utf8ByteSize symbol.toList
    rw [String.ofList_toList] at hlength
    have hle : ¬ symbol.utf8ByteSize > 8 := fun hgt => hsize (by simp [hgt])
    omega
  · exact (hchars _ (List.mem_of_getLast? hlast)).1 rfl

namespace System

variable {cfg : Config} {s s' s₀ : System}

/-- The books are those of the configuration and of symbols that fit. -/
def BooksAdmitted (cfg : Config) (e : MatchingEngine) : Prop :=
  ∀ sym ∈ e.books, sym ∈ cfg.symbols ∨ TextFits 8 sym

lemma BooksAdmitted.registerSymbol {e e' : MatchingEngine} {symbol : String}
    (h : BooksAdmitted cfg e) (he : e.registerSymbol symbol = some e') :
    BooksAdmitted cfg e' := by
  intro sym hsym
  rcases (MatchingEngine.registerSymbol_books he).1 sym with hsame | ⟨rfl, -⟩
  · refine h sym (AList.lookup_isSome.mp ?_)
    rw [← hsame]
    exact AList.lookup_isSome.mpr hsym
  · exact Or.inr (textFits_of_isSymbol (isSymbol_of_registerSymbol he))

lemma booksAdmitted_step {a : Action} (hstep : s.step a = some s')
    (h : BooksAdmitted cfg s.engine) : BooksAdmitted cfg s'.engine := by
  cases a with
  | message msg session =>
    obtain ⟨-, rfl⟩ := step_message hstep
    exact h
  | logon session =>
    obtain ⟨-, rfl⟩ := step_logon hstep
    exact h
  | handle =>
    rcases handle_cases hstep with ⟨o, session, -, rfl⟩ | ⟨o, session, -, rfl⟩ | ⟨item, -, rfl⟩ <;>
      exact h
  | engine =>
    rcases engineStep_cases hstep with ⟨t, ts, -, rfl⟩ | ⟨-, item, queue, b, -, hb, rfl⟩
    · exact h
    · intro sym hsym
      rcases (AList.mem_insert _).mp hsym with rfl | hsym
      · exact h _ (AList.lookup_isSome.mp (by rw [hb]; rfl))
      · exact h sym hsym
  | persist =>
    obtain ⟨p, p', -, -, rfl⟩ := step_persist hstep
    exact h
  | registerSymbol symbol =>
    obtain ⟨e, he, rfl⟩ := step_registerSymbol hstep
    exact h.registerSymbol he

lemma booksAdmitted_init (cfg : Config) :
    BooksAdmitted cfg (MatchingEngine.init cfg.symbols) := by
  intro sym hsym
  have hlookup := AList.lookup_isSome.mpr hsym
  rw [lookup_init_books] at hlookup
  split_ifs at hlookup with hmem
  · exact Or.inl hmem
  · simp at hlookup

lemma StartsOn.booksAdmitted {db : Database} (h : StartsOn cfg db s) :
    BooksAdmitted cfg s.engine := by
  cases h with
  | fresh => exact booksAdmitted_init cfg
  | recovered db =>
    have hregistered : ∀ (symbols : List String) (e : MatchingEngine), BooksAdmitted cfg e →
        BooksAdmitted cfg (e.registerSymbols symbols) := by
      intro symbols
      induction symbols with
      | nil => exact fun _ h => h
      | cons symbol symbols ih =>
        intro e he
        refine ih _ ?_
        dsimp only
        cases hregister : e.registerSymbol symbol with
        | none => exact he
        | some e' => exact he.registerSymbol hregister
    intro sym hsym
    refine hregistered (PersistenceLayer.load db).loadSymbols _ (booksAdmitted_init cfg) sym
      (AList.lookup_isSome.mp ?_)
    have hlookup := AList.lookup_isSome.mpr hsym
    rw [recover, lookup_restoreOrders, Option.isSome_map] at hlookup
    exact hlookup

/-! ## Every event of a book -/

/-- The event is about the symbol and an order whose id the gateway can assign. -/
def EventAbout (sym : String) (e : MdEvent) : Prop :=
  e.symbol = sym ∧ ∃ k, 1 ≤ k ∧ k ≤ 2147483647 ∧ e.exchangeId = exchangeId k

/-- Every packet about the symbol is read as it was written. -/
def Decodes (d : Double) (sym : String) : Prop :=
  ∀ n : Notice, ∀ e ∈ n.mdEvents, EventAbout sym e → e.Typed d → ∀ seq < 256 ^ 8,
    datagramReceived d ((e.packet seq).bytes d) = some (e.datagram seq)

lemma side_of_mem_mdEvents {n : Notice} {e : MdEvent} (h : e ∈ n.mdEvents) :
    e.side.toNat < 128 := by
  have hside : ∀ side : Char, (packetSide side).toNat < 128 := by
    intro side
    rw [packetSide]
    split_ifs <;> decide
  cases n with
  | filled maker taker =>
    simp only [Notice.mdEvents, List.mem_cons, List.not_mem_nil, or_false] at h
    rcases h with rfl | rfl
    · exact hside _
    · show Char.toNat '2' < 128
      decide
  | cancelled id order =>
    simp only [Notice.mdEvents, List.mem_singleton] at h
    subst h
    exact hside _
  | replaced req newLeavesQty oldPrice =>
    simp only [Notice.mdEvents] at h
    split_ifs at h
    · rw [List.mem_singleton] at h
      subst h
      exact hside _
    · simp only [List.mem_cons, List.not_mem_nil, or_false] at h
      rcases h with rfl | rfl <;> exact hside _
  | rested order leavesQty =>
    simp only [Notice.mdEvents, List.mem_singleton] at h
    subst h
    exact hside _

/-- **Packets decode to what was encoded**, for a symbol that has a book: exactly when it is not
a configured symbol that does not fit in its field. -/
theorem decodes_iff {ok : System → Action → Prop} {db : Database} {as : List Action}
    (hstart : StartsOn cfg db s₀) (h : Transition.Reaches step ok s₀ as s) (d : Double)
    {sym : String} (hsym : sym ∈ s.engine.books) :
    Decodes d sym ↔ (sym ∈ cfg.symbols → TextFits 8 sym) := by
  have hadmitted : BooksAdmitted cfg s.engine :=
    h.invariant (I := fun s => BooksAdmitted cfg s.engine) hstart.booksAdmitted
      fun _ _ _ _ _ hi _ hstep => booksAdmitted_step hstep hi
  constructor
  · intro hdecodes _
    -- a cancelled order with the id of the first order
    let o : Order := ⟨"", exchangeId 1, "", sym, '1', '2', d.value 0, 0, 0, '0'⟩
    have he : (⟨.Cancel, packetSide '1', sym, d.value 0, 0, exchangeId 1⟩ : MdEvent).Typed d :=
      ⟨⟨0, by decide, rfl⟩, by constructor <;> simp⟩
    have hread := hdecodes (.cancelled "" o) _ (List.mem_singleton.mpr rfl)
      ⟨rfl, 1, le_rfl, by decide, rfl⟩ he 0 (by decide)
    have hside : (packetSide '1').toNat < 128 := by decide
    exact ((datagram_iff he hside (by decide)).mp hread).1
  · intro hfits n e he habout htyped seq hseq
    have hsymbol : TextFits 8 sym := (hadmitted sym hsym).elim hfits id
    obtain ⟨rfl, k, -, hk, hid⟩ := habout
    refine (datagram_iff htyped (side_of_mem_mdEvents he) hseq).mpr ⟨hsymbol, ?_⟩
    rw [hid]
    exact textFits_exchangeId hk

end System

namespace Sample

/-- The bytes of 0 and of 10. -/
def double : Double where
  value n := if n = 0x4024000000000000 then 10 else 0
  bits price := if price = 10 then 0x4024000000000000 else 0
  bits_lt price := by split_ifs <;> decide
  value_bits n _ := by split_ifs <;> simp_all

/-- A new order, seen by the publisher. -/
def newOrderEvent (symbol : String) : MdEvent :=
  ⟨.NewOrder, '0', symbol, 10, 5, exchangeId 1⟩

end Sample

namespace System

/-- A configured symbol and one that is registered at runtime. -/
theorem decodes_iff_sample :
    ∃ s, RunTo Sample.config (fun _ _ => True) [.registerSymbol "ABCD1234"] s ∧
      Decodes Sample.double "X" ∧ Decodes Sample.double "ABCD1234" := by
  have hreach : ∃ s, RunTo Sample.config (fun _ _ => True) [.registerSymbol "ABCD1234"] s ∧
      "X" ∈ s.engine.books ∧ "ABCD1234" ∈ s.engine.books :=
    Transition.exists_reaches (by decide +kernel) (by decide +kernel)
  obtain ⟨s, hrun, hx, hy⟩ := hreach
  exact ⟨s, hrun, (decodes_iff .fresh hrun Sample.double hx).mpr fun _ => by decide +kernel,
    (decodes_iff .fresh hrun Sample.double hy).mpr fun hmem => by
      revert hmem
      decide +kernel⟩

/-- Two configured symbols with the same first eight characters: their packets have the same
bytes, and are read as packets about a third symbol. -/
theorem long_symbols_confused :
    "ABCDEFGHI" ∈ (start { Sample.config with symbols := ["ABCDEFGHI", "ABCDEFGHJ"] }).engine.books ∧
      "ABCDEFGHJ" ∈
        (start { Sample.config with symbols := ["ABCDEFGHI", "ABCDEFGHJ"] }).engine.books ∧
      ((Sample.newOrderEvent "ABCDEFGHI").packet 1).bytes Sample.double =
        ((Sample.newOrderEvent "ABCDEFGHJ").packet 1).bytes Sample.double ∧
      datagramReceived Sample.double
        (((Sample.newOrderEvent "ABCDEFGHI").packet 1).bytes Sample.double) =
          some ((Sample.newOrderEvent "ABCDEFGH").datagram 1) ∧
      ¬ Decodes Sample.double "ABCDEFGHI" := by
  have hread : datagramReceived Sample.double
      (((Sample.newOrderEvent "ABCDEFGHI").packet 1).bytes Sample.double) =
        some ((Sample.newOrderEvent "ABCDEFGH").datagram 1) := by decide +kernel
  refine ⟨by decide +kernel, by decide +kernel, by decide +kernel, hread, fun h => ?_⟩
  have hdecodes := h
    (.rested ⟨"", exchangeId 1, "", "ABCDEFGHI", '1', '2', 10, 5, 5, '0'⟩ 5)
    (Sample.newOrderEvent "ABCDEFGHI") (List.mem_singleton.mpr rfl)
    ⟨rfl, 1, le_rfl, by decide, rfl⟩
    ⟨⟨0x4024000000000000, by decide, rfl⟩, by constructor <;> decide⟩ 1 (by decide)
  rw [hread] at hdecodes
  revert hdecodes
  decide +kernel

end System

end FixExchange
