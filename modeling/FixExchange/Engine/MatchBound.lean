/-
# The match loop stops

The open quantity of the aggressor is no measure for the loop of `match_against`: trading with
an order that has nothing open, or less than nothing, does not bring it down.  What goes down is
the number of resting orders: an iteration that does not exhaust the aggressor removes the
order that it has traded with (`matchStep_progress`).  The loop therefore stops after at most
one iteration for each order, whatever their quantities are (`match_against_stops`).
-/
import FixExchange.Engine.PriceTime

namespace FixExchange

variable {r : Price → Price → Prop} {symbol : String} {isBuy : Bool}

/-- Every level of a side has an order, so that `q.front()` is defined. -/
def NoEmptyLevel (side : BookSide r) : Prop := ∀ e ∈ side.entries, e.2 ≠ []

instance (side : BookSide r) : Decidable (NoEmptyLevel side) := List.decidableBAll _ _

variable [DecidableRel r] [IsStrictTotalOrder Price r] {s s' t : MatchState r}

/-- `Iterations symbol isBuy k s t`: after `k` iterations of the loop, `s` has become `t`. -/
inductive Iterations (symbol : String) (isBuy : Bool) : ℕ → MatchState r → MatchState r → Prop
  | zero (s : MatchState r) : Iterations symbol isBuy 0 s s
  | succ {k : ℕ} {s s' t : MatchState r} (step : matchStep symbol isBuy s = some s')
      (rest : Iterations symbol isBuy k s' t) : Iterations symbol isBuy (k + 1) s t

/-- What an iteration does: it calls `on_fill_` once, for the first resting order, and either
removes this order or exhausts the aggressor. -/
structure Progress (s s' : MatchState r) (n : Node) (ns : List Node) : Prop where
  first : s.opposite.flat = n :: ns
  fill : ∃ f : FillPair, s'.fills = s.fills ++ [f] ∧ f.maker.exchangeId = n.order.exchangeId
  measure : s'.opposite.flat = ns ∧ s'.orderIndex = s.orderIndex.erase n.order.exchangeId ∨
    s'.aggressor.leavesQty = 0 ∧ s'.opposite.flat.map Node.addr = s.opposite.flat.map Node.addr

lemma NoEmptyLevel.trade (h : NoEmptyLevel s.opposite) (p : Price) (n : Node) (q : List Node) :
    NoEmptyLevel (s.trade symbol p n q).opposite := by
  intro e he
  rcases SortedMap.mem_entries_setLevel he with ⟨rfl, hne⟩ | ⟨he, -⟩
  · exact hne
  · exact h e he

/-- **One iteration** makes progress, on any book. -/
theorem matchStep_progress (h : NoEmptyLevel s.opposite)
    (hstep : matchStep symbol isBuy s = some s') :
    NoEmptyLevel s'.opposite ∧ ∃ n ns, Progress s s' n ns := by
  obtain ⟨p, n, q, levels, hentries, -, -, rfl⟩ := matchStep_eq_some hstep
  have hflat := SortedMap.flat_of_entries hentries
  have hafter := trade_flat symbol hentries
  refine ⟨h.trade p n q, n, q ++ levels.flatMap Prod.snd, hflat, ⟨_, rfl, rfl⟩, ?_⟩
  rw [hafter, residue]
  by_cases h0 : (Trade.of s.aggressor n.order).maker.leavesQty = 0
  · rw [if_pos h0]
    exact Or.inl ⟨rfl, if_pos h0⟩
  · have hend := (Trade.of_leaves s.aggressor n.order).resolve_left h0
    rw [if_neg h0, hflat]
    exact Or.inr ⟨hend, rfl⟩

/-- Where there is no order the loop stops. -/
lemma matchStep_of_flat_nil (h : NoEmptyLevel s.opposite) (hnil : s.opposite.flat = []) :
    matchStep symbol isBuy s = none := by
  rw [Option.eq_none_iff_forall_ne_some]
  intro s' hstep
  obtain ⟨-, n, ns, hp⟩ := matchStep_progress h hstep
  rw [hp.first] at hnil
  exact absurd hnil (by simp)

/-- What is left of a run of the loop when it has stopped, after `k` iterations. -/
structure StopsAfter (symbol : String) (isBuy : Bool) (k : ℕ) (s t : MatchState r) : Prop where
  run : Iterations symbol isBuy k s t
  /-- There is no more iteration. -/
  stopped : matchStep symbol isBuy t = none
  bound : k ≤ s.opposite.flat.length
  levels : NoEmptyLevel t.opposite
  /-- The calls of `on_fill_` are about the first `k` resting orders, one each. -/
  fills : ∃ fs : List FillPair, t.fills = s.fills ++ fs ∧
    List.Forall₂ (fun f n => f.maker.exchangeId = n.order.exchangeId) fs
      (s.opposite.flat.take k)

lemma StopsAfter.of_none (h : NoEmptyLevel s.opposite) (hstep : matchStep symbol isBuy s = none) :
    StopsAfter symbol isBuy 0 s s :=
  ⟨.zero s, hstep, Nat.zero_le _, h, [], (List.append_nil _).symm, .nil⟩

/-- An iteration before a run of the loop. -/
lemma StopsAfter.cons {k : ℕ} (hstep : matchStep symbol isBuy s = some s') {n : Node}
    {ns : List Node} (hp : Progress s s' n ns) (hflat : k ≤ ns.length)
    (htake : s'.opposite.flat.take k = ns.take k) (h : StopsAfter symbol isBuy k s' t) :
    StopsAfter symbol isBuy (k + 1) s t := by
  obtain ⟨f, hf, hmaker⟩ := hp.fill
  obtain ⟨fs, hfs, hfills⟩ := h.fills
  refine ⟨.succ hstep h.run, h.stopped, ?_, h.levels, f :: fs, ?_, ?_⟩
  · rw [hp.first, List.length_cons]
    omega
  · rw [hfs, hf, List.append_assoc]
    rfl
  · rw [hp.first, List.take_succ_cons, ← htake]
    exact .cons hmaker hfills

/-- The loop stops when it may take as many iterations as there are orders. -/
lemma exists_stopsAfter {m : ℕ} (h : NoEmptyLevel s.opposite) (hm : s.opposite.flat.length ≤ m) :
    ∃ k, StopsAfter symbol isBuy k s (matchLoop symbol isBuy m s) := by
  induction m generalizing s with
  | zero =>
    have hnil : s.opposite.flat = [] := List.length_eq_zero_iff.mp (Nat.le_zero.mp hm)
    exact ⟨0, .of_none h (matchStep_of_flat_nil h hnil)⟩
  | succ m ih =>
    cases hstep : matchStep symbol isBuy s with
    | none =>
      rw [matchLoop_of_none hstep]
      exact ⟨0, .of_none h hstep⟩
    | some s' =>
      obtain ⟨h', n, ns, hp⟩ := matchStep_progress h hstep
      have hlen : ns.length ≤ m := by
        rw [hp.first, List.length_cons] at hm
        omega
      rw [matchLoop_of_some hstep]
      rcases hp.measure with ⟨hflat, -⟩ | ⟨hend, -⟩
      · -- the order is gone: the rest of the loop is about the others
        obtain ⟨k, hk⟩ := ih h' (by rw [hflat]; exact hlen)
        have hbound := hk.bound
        rw [hflat] at hbound
        exact ⟨k + 1, hk.cons hstep hp hbound (by rw [hflat])⟩
      · -- the aggressor is exhausted
        have hnone : matchStep symbol isBuy s' = none := by simp [matchStep, hend]
        rw [matchLoop_of_none hnone]
        exact ⟨1, (StopsAfter.of_none h' hnone).cons hstep hp (Nat.zero_le _) rfl⟩

/-- **The match loop stops on every book**, whatever is open of the orders and of the aggressor:
every iteration makes progress, and there are at most as many as there are resting orders. -/
theorem match_against_stops (symbol : String) (isBuy : Bool) {s : MatchState r}
    (h : NoEmptyLevel s.opposite) :
    (∃ k, StopsAfter symbol isBuy k s (matchAgainst symbol isBuy s)) ∧
      ∀ k u u', Iterations symbol isBuy k s u → matchStep symbol isBuy u = some u' →
        ∃ n ns, Progress u u' n ns := by
  refine ⟨exists_stopsAfter h le_rfl, fun k u u' hrun hstep => ?_⟩
  have hu : NoEmptyLevel u.opposite := by
    induction hrun with
    | zero s => exact h
    | succ hs _ ih => exact ih (matchStep_progress h hs).1 hstep
  exact (matchStep_progress hu hstep).2

/-- Three sell orders, of which the first one is replaced to nothing and the second one to less
than nothing. -/
def OrderBook.hollowOps : List BookOp :=
  [.add (sampleOrder "1" '2' '2' '0' 10 5), .add (sampleOrder "2" '2' '2' '0' 10 5),
    .add (sampleOrder "3" '2' '2' '0' 11 5), .replace "1" 10 0, .replace "2" 10 (-3)]

/-- A buy order that is matched against them. -/
def OrderBook.hollowMatch : MatchState (· < ·) :=
  let b := ((init "X").run hollowOps).1
  ⟨sampleOrder "4" '1' '2' '0' 11 4, b.asks, b.orderIndex, b.execSeq, []⟩

theorem match_against_stops_sample :
    (OrderBook.hollowMatch.opposite.flat.map fun n => n.order.leavesQty) = [0, -3, 5] ∧
      (matchAgainst "X" true OrderBook.hollowMatch).fills.length = 3 ∧
      ∃ k, StopsAfter "X" true k OrderBook.hollowMatch
        (matchAgainst "X" true OrderBook.hollowMatch) :=
  ⟨by decide +kernel, by decide +kernel,
    (match_against_stops "X" true (s := OrderBook.hollowMatch) (by decide +kernel)).1⟩

end FixExchange
