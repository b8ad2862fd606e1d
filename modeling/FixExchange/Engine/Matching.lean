/-
# The match loop

`match_against` walks over price levels, lists, iterators and the index at once.  This file
says once what an iteration of it does (`matchStep_eq_some`) and derives from that the two
facts the rest of the development uses: read on the flat list of resting orders the loop is
`matchList`, and it keeps the index of the book in step with the list nodes.
-/
import FixExchange.Engine.FlatBook
import FixExchange.Lib.NodeIndex

namespace FixExchange

/-- The address and the exchange id of a node: what the index of the book is about. -/
def Node.key (n : Node) : ℕ × String := (n.addr, n.order.exchangeId)

/-- The price of the order in a node: the key of its level. -/
def Node.price (n : Node) : Price := n.order.price

/-- The fills reported for a list of trades, from a value of the execution counter on. -/
def fillsOf (symbol : String) : ℕ → List Trade → List FillPair
  | _, [] => []
  | seq, t :: ts =>
    ⟨makeFill symbol (seq + 2) t.maker t.price t.qty t.maker.leavesQty,
      makeFill symbol (seq + 1) t.taker t.price t.qty t.taker.leavesQty⟩
      :: fillsOf symbol (seq + 2) ts

/-- What a trade leaves of the node of the resting order. -/
def residue (taker : Order) (n : Node) : List Node :=
  if (Trade.of taker n.order).maker.leavesQty = 0 then []
  else [⟨n.addr, (Trade.of taker n.order).maker⟩]

lemma Trade.of_leaves (taker maker : Order) :
    (Trade.of taker maker).maker.leavesQty = 0 ∨ (Trade.of taker maker).taker.leavesQty = 0 := by
  simp only [Trade.of, Order.withLeaves_leavesQty]
  omega

lemma crosses_eq (o : Order) (p : Price) :
    crosses o (o.side == '1') p = decide (o.Reaches p) := by
  by_cases ht : o.type = '1' <;> by_cases hs : o.side = '1' <;>
    simp [crosses, Order.Reaches, ht, hs]

variable {r : Price → Price → Prop} [DecidableRel r] [IsStrictTotalOrder Price r]
variable {symbol : String} {isBuy : Bool}

/-- **One iteration of the loop**: the aggressor trades against the first order of the first
level. -/
lemma matchStep_eq_some {s s' : MatchState r} (h : matchStep symbol isBuy s = some s') :
    ∃ bestPrice resting q levels, s.opposite.entries = (bestPrice, resting :: q) :: levels ∧
      0 < s.aggressor.leavesQty ∧ crosses s.aggressor isBuy bestPrice = true ∧
      s' = s.trade symbol bestPrice resting q := by
  unfold matchStep at h
  split at h
  · rename_i hleaves
    split at h
    · simp at h
    · rename_i bestPrice level levels hentries
      split at h
      · rename_i hcross
        split at h
        · simp at h
        · exact ⟨_, _, _, _, hentries, hleaves, hcross, (Option.some.inj h).symm⟩
      · simp at h
  · simp at h

omit [DecidableRel r] [IsStrictTotalOrder Price r] in
/-- The first order of a non-empty side whose levels are in order. -/
lemma entries_of_flat {side : BookSide r} (hl : side.Leveled Node.price) {n : Node}
    {ns : List Node} (h : side.flat = n :: ns) :
    ∃ q levels, side.entries = (n.price, n :: q) :: levels ∧
      ns = q ++ levels.flatMap Prod.snd := by
  cases hside : side.entries with
  | nil =>
    rw [SortedMap.flat, hside] at h
    exact absurd h (by simp)
  | cons e levels =>
    have he := hl e (by rw [hside]; exact List.mem_cons_self)
    obtain ⟨p, level⟩ := e
    rw [SortedMap.flat_of_entries hside] at h
    cases level with
    | nil => exact absurd rfl he.1
    | cons m q =>
      rw [List.cons_append, List.cons.injEq] at h
      obtain ⟨rfl, rfl⟩ := h
      have hp : m.price = p := he.2 m List.mem_cons_self
      exact ⟨q, levels, by rw [hp], rfl⟩

/-- The opposite side after a trade. -/
lemma trade_flat (symbol : String) {s : MatchState r} {p : Price} {resting : Node} {q : List Node}
    {levels : List (Price × List Node)} (h : s.opposite.entries = (p, resting :: q) :: levels) :
    (s.trade symbol p resting q).opposite.flat
      = residue s.aggressor resting ++ (q ++ levels.flatMap Prod.snd) := by
  have h' : s.opposite.entries = [] ++ (p, resting :: q) :: levels := h
  rw [MatchState.trade, SortedMap.flat_setLevel h', residue]
  simp only [Trade.of, Order.withLeaves_leavesQty]
  by_cases h0 : resting.order.leavesQty
      - min s.aggressor.leavesQty resting.order.leavesQty = 0 <;> simp [h0]

lemma trade_leveled (symbol : String) {s : MatchState r} (hl : s.opposite.Leveled Node.price)
    {p : Price} {resting : Node} {q : List Node} {levels : List (Price × List Node)}
    (h : s.opposite.entries = (p, resting :: q) :: levels) :
    (s.trade symbol p resting q).opposite.Leveled Node.price := by
  have he := (hl (p, resting :: q) (by rw [h]; exact List.mem_cons_self)).2
  have hq : ∀ n ∈ q, n.price = p := fun n hn => he n (List.mem_cons_of_mem _ hn)
  refine hl.setLevel fun n hn => ?_
  split_ifs at hn
  · exact hq n hn
  · rcases List.mem_cons.mp hn with rfl | hn
    · exact he resting List.mem_cons_self
    · exact hq n hn

/-- One iteration, in terms of the first order of the opposite side. -/
lemma matchStep_of_entries (symbol : String) (isBuy : Bool) {s : MatchState r} {p : Price}
    {resting : Node} {q : List Node} {levels : List (Price × List Node)}
    (h : s.opposite.entries = (p, resting :: q) :: levels) :
    matchStep symbol isBuy s =
      if 0 < s.aggressor.leavesQty ∧ crosses s.aggressor isBuy p = true then
        some (s.trade symbol p resting q)
      else none := by
  simp only [matchStep, h, gt_iff_lt]
  by_cases h1 : 0 < s.aggressor.leavesQty <;>
    by_cases h2 : crosses s.aggressor isBuy p = true <;> simp [h1, h2]

/-- The aggressor and the fills after a trade. -/
lemma trade_eq (symbol : String) (s : MatchState r) (resting : Node) (q : List Node) :
    (s.trade symbol resting.price resting q).aggressor
        = (Trade.of s.aggressor resting.order).taker ∧
      (s.trade symbol resting.price resting q).fills
        = s.fills ++ fillsOf symbol s.execSeq [Trade.of s.aggressor resting.order] ∧
      (s.trade symbol resting.price resting q).execSeq = s.execSeq + 2 :=
  ⟨rfl, rfl, rfl⟩

lemma matchLoop_of_some {s s' : MatchState r} (h : matchStep symbol isBuy s = some s') (n : ℕ) :
    matchLoop symbol isBuy (n + 1) s = matchLoop symbol isBuy n s' := by
  rw [matchLoop, h]

lemma matchLoop_of_none {s : MatchState r} (h : matchStep symbol isBuy s = none) (n : ℕ) :
    matchLoop symbol isBuy n s = s := by
  cases n with
  | zero => rfl
  | succ n => rw [matchLoop, h]

/-- The loop stops at once on an exhausted aggressor. -/
lemma matchLoop_of_exhausted {s : MatchState r} (h : s.aggressor.leavesQty = 0) (n : ℕ) :
    matchLoop symbol isBuy n s = s := by
  exact matchLoop_of_none (by simp [matchStep, h]) n

/-- **The match loop on the flat list**: with enough iterations allowed, the loop leaves the
aggressor, the resting orders and the fills that `matchList` gives. -/
theorem matchLoop_flat (symbol : String) (isBuy : Bool) {s : MatchState r}
    (hl : s.opposite.Leveled Node.price) (hbuy : isBuy = (s.aggressor.side == '1')) :
    let d := matchList s.aggressor (s.opposite.flat.map Node.order)
    let s' := matchLoop symbol isBuy s.opposite.flat.length s
    s'.opposite.Leveled Node.price ∧ s'.aggressor = d.taker ∧
      s'.opposite.flat.map Node.order = d.rest ∧
      s'.fills = s.fills ++ fillsOf symbol s.execSeq d.trades ∧
      s'.execSeq = s.execSeq + 2 * d.trades.length := by
  generalize hflat : s.opposite.flat = ns
  induction ns generalizing s with
  | nil => simp [matchLoop, fillsOf, hflat, hl]
  | cons n ns ih =>
    obtain ⟨q, levels, hentries, hns⟩ := entries_of_flat hl hflat
    have hstep := matchStep_of_entries symbol isBuy hentries
    have hcross : crosses s.aggressor isBuy n.price = decide (s.aggressor.Reaches n.price) := by
      rw [hbuy, crosses_eq]
    simp only [hcross, decide_eq_true_eq] at hstep
    rw [List.map_cons, List.length_cons]
    by_cases hgo : 0 < s.aggressor.leavesQty ∧ s.aggressor.Reaches n.order.price
    · rw [matchLoop_of_some (hstep.trans (if_pos hgo))]
      have hl' := trade_leveled symbol hl hentries
      have hflat' := trade_flat symbol hentries
      obtain ⟨haggr, hfills, hseq⟩ := trade_eq symbol s n q
      rw [← hns] at hflat'
      by_cases h0 : (Trade.of s.aggressor n.order).maker.leavesQty = 0
      · -- the resting order is gone: the loop goes on with the next one
        rw [residue, if_pos h0, List.nil_append] at hflat'
        obtain ⟨h1, h2, h3, h4, h5⟩ := ih hl' (by rw [haggr]; exact hbuy) hflat'
        rw [haggr] at h2 h3 h4 h5
        rw [hfills, hseq, List.append_assoc] at h4
        rw [matchList_pop hgo h0]
        refine ⟨h1, h2, h3, h4, ?_⟩
        rw [h5, hseq, List.length_cons]
        omega
      · -- the aggressor is exhausted
        have hend := (Trade.of_leaves s.aggressor n.order).resolve_left h0
        rw [residue, if_neg h0] at hflat'
        rw [matchList_last hgo h0, matchLoop_of_exhausted (by rw [haggr]; exact hend)]
        exact ⟨hl', haggr, by rw [hflat']; rfl, hfills, hseq⟩
    · rw [matchLoop_of_none (hstep.trans (if_neg hgo)), matchList_stop hgo]
      exact ⟨hl, rfl, by rw [hflat]; rfl, by simp [fillsOf], by simp⟩

/-- What every iteration keeps, the whole loop keeps. -/
lemma matchLoop_induction {P : MatchState r → Prop}
    (hstep : ∀ s s', P s → matchStep symbol isBuy s = some s' → P s') (n : ℕ)
    {s : MatchState r} (hs : P s) : P (matchLoop symbol isBuy n s) := by
  induction n generalizing s with
  | zero => exact hs
  | succ n ih =>
    rw [matchLoop]
    split
    · exact hs
    · exact ih (hstep _ _ hs ‹_›)

/-! ## The index in the loop -/

/-- A trade either keeps the index and the keys of the nodes, or drops the first node
together with the entry of its key. -/
lemma trade_index (symbol : String) {s : MatchState r} {p : Price} {resting : Node} {q : List Node}
    {levels : List (Price × List Node)} (h : s.opposite.entries = (p, resting :: q) :: levels) :
    ((s.trade symbol p resting q).opposite.flat.map Node.key = s.opposite.flat.map Node.key ∧
        (s.trade symbol p resting q).orderIndex = s.orderIndex) ∨
      ∃ ks, s.opposite.flat.map Node.key = resting.key :: ks ∧
        (s.trade symbol p resting q).opposite.flat.map Node.key = ks ∧
        (s.trade symbol p resting q).orderIndex = s.orderIndex.erase resting.order.exchangeId := by
  have hflat := SortedMap.flat_of_entries h
  rw [trade_flat symbol h, hflat, residue]
  by_cases h0 : (Trade.of s.aggressor resting.order).maker.leavesQty = 0
  · right
    rw [if_pos h0]
    exact ⟨_, rfl, rfl, if_pos h0⟩
  · left
    rw [if_neg h0]
    exact ⟨rfl, if_neg h0⟩

/-- The match loop keeps the index sound for the nodes of the opposite side together with
any nodes outside of it. -/
lemma matchLoop_indexSound {s : MatchState r} {next : ℕ} (ks : List (ℕ × String))
    (hs : IndexSound s.orderIndex next (s.opposite.flat.map Node.key ++ ks)) (n : ℕ) :
    IndexSound (matchLoop symbol isBuy n s).orderIndex next
      ((matchLoop symbol isBuy n s).opposite.flat.map Node.key ++ ks) := by
  refine matchLoop_induction
    (P := fun s => IndexSound s.orderIndex next (s.opposite.flat.map Node.key ++ ks)) ?_ n hs
  intro s s' hP hstep
  obtain ⟨p, resting, q, levels, hentries, -, -, rfl⟩ := matchStep_eq_some hstep
  rcases trade_index symbol hentries with ⟨hkeys, hindex⟩ | ⟨ks', hk, hk', hindex⟩
  · rw [hkeys, hindex]
    exact hP
  · rw [hk', hindex]
    rw [hk] at hP
    refine hP.drop (List.sublist_cons_self _ _) fun n hn hne => ?_
    rcases List.mem_cons.mp hn with rfl | hn
    · exact absurd rfl hne
    · exact hn

/-- The match loop keeps the index complete. -/
lemma matchLoop_indexComplete {s : MatchState r} (ks : List (ℕ × String))
    (hs : IndexComplete s.orderIndex (s.opposite.flat.map Node.key ++ ks)) (n : ℕ) :
    IndexComplete (matchLoop symbol isBuy n s).orderIndex
      ((matchLoop symbol isBuy n s).opposite.flat.map Node.key ++ ks) := by
  refine matchLoop_induction
    (P := fun s => IndexComplete s.orderIndex (s.opposite.flat.map Node.key ++ ks)) ?_ n hs
  intro s s' hP hstep
  obtain ⟨p, resting, q, levels, hentries, -, -, rfl⟩ := matchStep_eq_some hstep
  rcases trade_index symbol hentries with ⟨hkeys, hindex⟩ | ⟨ks', hk, hk', hindex⟩
  · rw [hkeys, hindex]
    exact hP
  · rw [hk', hindex]
    rw [hk] at hP
    refine hP.drop (List.sublist_cons_self _ _) fun n hn hne => ?_
    have hnodup := hP.keys_nodup
    rw [List.cons_append, List.map_cons, List.nodup_cons] at hnodup
    exact hnodup.1 (List.mem_map.mpr ⟨n, hn, hne⟩)

end FixExchange
