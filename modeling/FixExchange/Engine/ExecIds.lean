/-
# The execution ids of a book

A book counts its fills and numbers them; the two fills of a trade get two numbers.  The
execution id of a fill is the symbol of the book and the number, with a dash between them, so
that the fills of all books have different ids (`fillId_inj`).
-/
import FixExchange.Engine.Matching
import FixExchange.Engine.MatchingEngine

namespace FixExchange

/-! ## Ids with a dash -/

/-- What stands before and behind the last occurrence of a separator is determined. -/
lemma eq_of_last_separator {α : Type*} {c : α} {s s' t t' : List α} (ht : c ∉ t) (ht' : c ∉ t')
    (h : s ++ c :: t = s' ++ c :: t') : s = s' ∧ t = t' := by
  rcases List.append_eq_append_iff.mp h with ⟨a, rfl, ha⟩ | ⟨a, rfl, ha⟩ <;>
    rcases a with _ | ⟨c', a⟩
  · rw [List.nil_append, List.cons_inj_right] at ha
    exact ⟨(List.append_nil s).symm, ha⟩
  · -- the separator would occur behind the last one
    obtain ⟨-, rfl⟩ := List.cons.inj ha
    exact absurd (List.mem_append_right a List.mem_cons_self) ht
  · rw [List.nil_append, List.cons_inj_right] at ha
    exact ⟨List.append_nil s', ha.symm⟩
  · obtain ⟨-, rfl⟩ := List.cons.inj ha
    exact absurd (List.mem_append_right a List.mem_cons_self) ht'

/-- A text without a dash. -/
def Dashless (text : String) : Prop := '-' ∉ text.toList

instance (text : String) : Decidable (Dashless text) := instDecidableNot

lemma dashless_toString (n : ℕ) : Dashless (toString n) := by
  intro h
  have hdigits : (toString n).toList = Nat.toDigits 10 n := Nat.toList_repr
  rw [hdigits] at h
  exact absurd (Nat.isDigit_of_mem_toDigits (by decide) (by decide) h) (by decide)

lemma append_dash_inj {s s' t t' : String} (ht : Dashless t) (ht' : Dashless t')
    (h : s ++ "-" ++ t = s' ++ "-" ++ t') : s = s' ∧ t = t' := by
  have hlist : s.toList ++ '-' :: t.toList = s'.toList ++ '-' :: t'.toList := by
    have hlist := congrArg String.toList h
    rw [String.toList_append, String.toList_append, String.toList_append, String.toList_append,
      List.append_assoc, List.append_assoc] at hlist
    exact hlist
  obtain ⟨hs, ht⟩ := eq_of_last_separator ht ht' hlist
  exact ⟨String.toList_inj.mp hs, String.toList_inj.mp ht⟩

/-- The id of the `n`-th fill of the book of a symbol. -/
def fillId (sym : String) (n : ℕ) : String := sym ++ "-" ++ toString n

lemma fillId_inj {sym sym' : String} {n n' : ℕ} (h : fillId sym n = fillId sym' n') :
    sym = sym' ∧ n = n' := by
  obtain ⟨hsym, hn⟩ := append_dash_inj (dashless_toString n) (dashless_toString n') h
  have hdigits : Nat.toDigits 10 n = Nat.toDigits 10 n' := by
    rw [← Nat.toList_repr, ← Nat.toList_repr]
    exact congrArg String.toList hn
  have hvalue := congrArg (fun cs => Nat.ofDigitChars 10 cs 0) hdigits
  exact ⟨hsym, by simpa [Nat.ofDigitChars_toDigits] using hvalue⟩

/-! ## The fills of an operation -/

/-- The ids of the fills of a list of trades, in the order in which they are reported. -/
def FillPair.ids (fs : List FillPair) : List String :=
  fs.flatMap fun f => [f.maker.execId, f.taker.execId]

/-- The fills have different ids, with numbers behind `n` and up to `m`. -/
structure Numbered (sym : String) (n m : ℕ) (fs : List FillPair) : Prop where
  le : n ≤ m
  nodup : (FillPair.ids fs).Nodup
  ids : ∀ id ∈ FillPair.ids fs, ∃ k, n < k ∧ k ≤ m ∧ id = fillId sym k

namespace Numbered

variable {sym : String} {n m l : ℕ} {fs fs' : List FillPair}

lemma nil (sym : String) (n : ℕ) : Numbered sym n n [] :=
  ⟨le_rfl, List.nodup_nil, fun _ h => absurd h List.not_mem_nil⟩

lemma append (h : Numbered sym n m fs) (h' : Numbered sym m l fs') :
    Numbered sym n l (fs ++ fs') := by
  have hids : FillPair.ids (fs ++ fs') = FillPair.ids fs ++ FillPair.ids fs' :=
    List.flatMap_append
  refine ⟨h.le.trans h'.le, ?_, fun id hid => ?_⟩
  · rw [hids, List.nodup_append]
    refine ⟨h.nodup, h'.nodup, fun id hid id' hid' heq => ?_⟩
    obtain ⟨k, -, hk, rfl⟩ := h.ids id hid
    obtain ⟨k', hk', -, rfl⟩ := h'.ids id' hid'
    have := (fillId_inj heq).2
    omega
  · rw [hids, List.mem_append] at hid
    have := h.le
    have := h'.le
    rcases hid with hid | hid
    · obtain ⟨k, hlt, hk, rfl⟩ := h.ids id hid
      exact ⟨k, hlt, by omega, rfl⟩
    · obtain ⟨k, hlt, hk, rfl⟩ := h'.ids id hid
      exact ⟨k, by omega, hk, rfl⟩

lemma trade {f : FillPair} (htaker : f.taker.execId = fillId sym (n + 1))
    (hmaker : f.maker.execId = fillId sym (n + 2)) : Numbered sym n (n + 2) [f] := by
  have hids : FillPair.ids [f] = [fillId sym (n + 2), fillId sym (n + 1)] := by
    rw [← htaker, ← hmaker]
    rfl
  refine ⟨by omega, ?_, fun id hid => ?_⟩
  · rw [hids, List.nodup_cons, List.mem_singleton]
    refine ⟨fun heq => ?_, List.nodup_singleton _⟩
    have := (fillId_inj heq).2
    omega
  · rw [hids] at hid
    rcases List.mem_pair.mp hid with rfl | rfl
    · exact ⟨n + 2, by omega, by omega, rfl⟩
    · exact ⟨n + 1, by omega, by omega, rfl⟩

end Numbered

/-- The loop numbers the fills that it adds. -/
lemma matchLoop_numbered {r : Price → Price → Prop} [DecidableRel r]
    [IsStrictTotalOrder Price r] (sym : String) (isBuy : Bool) (fuel : ℕ) (s : MatchState r) :
    ∃ fs, (matchLoop sym isBuy fuel s).fills = s.fills ++ fs ∧
      Numbered sym s.execSeq (matchLoop sym isBuy fuel s).execSeq fs := by
  induction fuel generalizing s with
  | zero => exact ⟨[], (List.append_nil _).symm, .nil sym _⟩
  | succ fuel ih =>
    cases hstep : matchStep sym isBuy s with
    | none =>
      rw [matchLoop_of_none hstep]
      exact ⟨[], (List.append_nil _).symm, .nil sym _⟩
    | some s' =>
      obtain ⟨p, resting, q, levels, -, -, -, rfl⟩ := matchStep_eq_some hstep
      rw [matchLoop_of_some hstep]
      obtain ⟨fs, hfs, hnum⟩ := ih (s.trade sym p resting q)
      refine ⟨_, hfs.trans (List.append_assoc _ _ _), ?_⟩
      exact Numbered.append (Numbered.trade rfl rfl) hnum

namespace OrderBook

lemma tryMatch_numbered (b : OrderBook) (o : Order) :
    Numbered b.symbol b.execSeq (b.tryMatch o).book.execSeq (b.tryMatch o).fills := by
  by_cases hs : o.side = '1'
  · simp only [tryMatch, if_pos hs, matchAgainst]
    obtain ⟨fs, hfs, hnum⟩ := matchLoop_numbered b.symbol true b.asks.flat.length
      ⟨o, b.asks, b.orderIndex, b.execSeq, []⟩
    rw [hfs]
    exact hnum
  · simp only [tryMatch, if_neg hs, matchAgainst]
    obtain ⟨fs, hfs, hnum⟩ := matchLoop_numbered b.symbol false b.bids.flat.length
      ⟨o, b.bids, b.orderIndex, b.execSeq, []⟩
    rw [hfs]
    exact hnum

lemma pushOrder_execSeq (b : OrderBook) (o : Order) : (b.pushOrder o).execSeq = b.execSeq := by
  by_cases hs : o.side = '1' <;> simp [pushOrder, hs]

lemma unlink_execSeq (b : OrderBook) (id : String) (it : ℕ) (p : Price) (c : Char) :
    (b.unlink id it p c).execSeq = b.execSeq ∧ (b.unlink id it p c).symbol = b.symbol := by
  by_cases hs : c = '1' <;> simp [unlink, hs]

lemma add_numbered (b : OrderBook) (o : Order) :
    Numbered b.symbol b.execSeq (b.add o).book.execSeq (b.add o).fills := by
  have h := tryMatch_numbered b (o.withLeaves o.qty)
  simp only [OrderBook.add]
  split_ifs
  · rw [pushOrder_execSeq]
    exact h
  · exact h

lemma replace_numbered (b : OrderBook) (id : String) (p : Price) (q : ℤ) :
    Numbered b.symbol b.execSeq (b.replace id p q).book.execSeq (b.replace id p q).fills := by
  rw [OrderBook.replace]
  split
  · exact .nil _ _
  · rename_i it hit
    split
    · exact .nil _ _
    · rename_i o ho
      split_ifs
      · exact .nil _ _
      · obtain ⟨hseq, hsym⟩ := unlink_execSeq b id it o.price o.side
        have h := add_numbered (b.unlink id it o.price o.side) { o with price := p, qty := q }
        rwa [hseq, hsym] at h

/-- The ids of the fills of a sequence of calls. -/
def callIds (cbs : List Callback) : List String :=
  cbs.flatMap fun
    | .onFill maker taker => [maker.execId, taker.execId]
    | _ => []

lemma callIds_append (cbs cbs' : List Callback) :
    callIds (cbs ++ cbs') = callIds cbs ++ callIds cbs' := List.flatMap_append

lemma callIds_fillCallbacks (fs : List FillPair) : callIds (fillCallbacks fs) = FillPair.ids fs := by
  rw [callIds, fillCallbacks, List.flatMap_map]
  rfl

/-- **The fills of an item** have the next numbers of the book. -/
theorem processIn_numbered (b : OrderBook) (item : WorkItem) :
    ∃ fs, callIds (processIn b item).2 = FillPair.ids fs ∧
      Numbered b.symbol b.execSeq (processIn b item).1.execSeq fs := by
  cases item with
  | order o =>
    have hadd := add_numbered b o
    simp only [processIn, processOrder]
    split_ifs
    · exact ⟨[], rfl, .nil _ _⟩
    · exact ⟨_, callIds_fillCallbacks _, hadd⟩
    · refine ⟨_, ?_, hadd⟩
      rw [callIds_append, callIds_fillCallbacks]
      exact List.append_nil _
    · refine ⟨_, ?_, hadd⟩
      rw [callIds_append, callIds_fillCallbacks]
      exact List.append_nil _
    · exact ⟨_, callIds_fillCallbacks _, hadd⟩
  | cancel req =>
    refine ⟨[], rfl, ?_⟩
    simp only [processIn, processCancel, OrderBook.cancel]
    split
    · exact .nil _ _
    · split
      · exact .nil _ _
      · rw [(unlink_execSeq _ _ _ _ _).1]
        exact .nil _ _
  | replace req =>
    refine ⟨_, ?_, replace_numbered b req.origOrderId req.newPrice req.newQty⟩
    simp only [processIn, processReplace]
    rw [callIds_append, callIds_fillCallbacks]
    exact List.append_nil _

end OrderBook

end FixExchange
