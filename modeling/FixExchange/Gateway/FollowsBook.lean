/-
# The gateway follows the book

The callbacks for a work item change the open orders of the gateway as the item changes the
resting orders, and pass on notices from which the resting orders can be reconstructed.  Both
are stated on ledgers: `Agrees` relates the open orders to the resting ones, and `Follows`
says that a sequence of notices is about the orders of a ledger, one change after the other.
-/
import FixExchange.Gateway.TaskEffects

namespace FixExchange

/-- The gateway's copy of an order of the book: the client may have given it a new id. -/
def Order.Mirrors (a o : Order) : Prop := o = { a with clordId := o.clordId }

lemma Order.Mirrors.refl (o : Order) : o.Mirrors o := rfl

lemma Order.Mirrors.symbol {a o : Order} (h : a.Mirrors o) : a.symbol = o.symbol := by rw [h]

lemma Order.Mirrors.side {a o : Order} (h : a.Mirrors o) : a.side = o.side := by rw [h]

lemma Order.Mirrors.price {a o : Order} (h : a.Mirrors o) : a.price = o.price := by rw [h]

lemma Order.Mirrors.leavesQty {a o : Order} (h : a.Mirrors o) : a.leavesQty = o.leavesQty := by
  rw [h]

lemma Order.Mirrors.clientId {a o : Order} (h : a.Mirrors o) : a.clientId = o.clientId := by rw [h]

lemma Order.Mirrors.withLeaves {a o : Order} (h : a.Mirrors o) (n : ℤ) :
    (a.withLeaves n).Mirrors (o.withLeaves n) := by
  rw [Order.Mirrors, Order.withLeaves, Order.withLeaves, h]

lemma Order.Mirrors.replaced {a o : Order} (h : a.Mirrors o) (req : ReplaceRequest) {n : ℤ}
    (hn : 0 ≤ n) : (FixGateway.replaced a req n).Mirrors (o.replacedBy req n) := by
  rw [Order.Mirrors, Order.replacedBy, FixGateway.replaced, max_eq_right hn, h]

/-- Every resting order of `R` is open in `A`, as it rests. -/
def Agrees (A R : OrderLedger) : Prop := ∀ id o, R id = some o → ∃ a, A id = some a ∧ a.Mirrors o

namespace Agrees

variable {A A' R : OrderLedger} {id : String}

/-- What happens to other orders than the resting ones does not matter. -/
lemma of_eq (h : Agrees A R) (hA : ∀ id, R id ≠ none → A' id = A id) : Agrees A' R := by
  intro id o ho
  rw [hA id (by rw [ho]; simp)]
  exact h id o ho

lemma setOpen (h : Agrees A R) (id : String) (n : ℤ) : Agrees (A.setOpen id n) (R.setOpen id n) := by
  intro id' o ho
  by_cases hid : id' = id
  · subst hid
    rw [OrderLedger.setOpen_self] at ho ⊢
    split_ifs at ho ⊢
    obtain ⟨o', ho', rfl⟩ := Option.map_eq_some_iff.mp ho
    obtain ⟨a, ha, hmirrors⟩ := h id' o' ho'
    exact ⟨_, by rw [ha]; rfl, hmirrors.withLeaves n⟩
  · rw [OrderLedger.setOpen_of_ne hid] at ho ⊢
    exact h id' o ho

lemma drop (h : Agrees A R) (id : String) : Agrees (A.drop id) (R.drop id) := by
  intro id' o ho
  by_cases hid : id' = id
  · rw [hid, Ledger.drop_self] at ho
    exact absurd ho (by simp)
  · rw [Ledger.drop_of_ne hid] at ho ⊢
    exact h id' o ho

/-- An order may leave the book and stay open. -/
lemma drop_right (h : Agrees A R) (id : String) : Agrees A (R.drop id) := by
  intro id' o ho
  by_cases hid : id' = id
  · rw [hid, Ledger.drop_self] at ho
    exact absurd ho (by simp)
  · rw [Ledger.drop_of_ne hid] at ho
    exact h id' o ho

lemma put (h : Agrees A R) (id : String) {a o : Order} (hmirrors : a.Mirrors o) :
    Agrees (A.put id a) (R.put id o) := by
  intro id' o' ho'
  by_cases hid : id' = id
  · subst hid
    rw [Ledger.put_self] at ho'
    obtain rfl := Option.some.inj ho'
    exact ⟨a, Ledger.put_self, hmirrors⟩
  · rw [Ledger.put_of_ne hid] at ho' ⊢
    exact h id' o' ho'

/-- An order that does not rest may be dropped. -/
lemma drop_left (h : Agrees A R) (hid : R id = none) : Agrees (A.drop id) R :=
  h.of_eq fun _ hr => Ledger.drop_of_ne fun heq => hr (by rw [heq, hid])

end Agrees

/-! ## Notices about a ledger -/

namespace Notice

/-- The ledger after a notice. -/
def post (L : OrderLedger) : Notice → OrderLedger
  | .filled maker _ => L.setOpen maker.exchangeId maker.leavesQty
  | .cancelled id _ => L.drop id
  | .replaced req newLeavesQty _ =>
    L.adjust req.origOrderId fun o => FixGateway.replaced o req newLeavesQty
  | .rested order leavesQty => L.put order.exchangeId (order.withLeaves leavesQty)

/-- A notice is about the orders of a ledger: what it says about the order as it was is
true. -/
def Fits (L : OrderLedger) : Notice → Prop
  | .filled maker _ => 0 ≤ maker.leavesQty ∧
    ∃ o, L maker.exchangeId = some o ∧ o.symbol = maker.symbol ∧ o.side = maker.side
  | .cancelled id order => L id = some order
  | .replaced req newLeavesQty oldPrice => 0 < newLeavesQty ∧
    ∃ o, L req.origOrderId = some o ∧ o.price = oldPrice ∧ o.symbol = req.symbol ∧ o.side = req.side
  | .rested order leavesQty => 0 < leavesQty ∧ L order.exchangeId = none

end Notice

/-- `Follows L ns L'`: the notices `ns` are about the orders of `L`, and lead to `L'`. -/
inductive Follows : OrderLedger → List Notice → OrderLedger → Prop
  | nil {L : OrderLedger} : Follows L [] L
  | cons {L L' : OrderLedger} {n : Notice} {ns : List Notice} (fits : n.Fits L)
      (rest : Follows (n.post L) ns L') : Follows L (n :: ns) L'

lemma Follows.append {L L' L'' : OrderLedger} {ns ns' : List Notice} (h : Follows L ns L')
    (h' : Follows L' ns' L'') : Follows L (ns ++ ns') L'' := by
  induction h with
  | nil => exact h'
  | cons fits _ ih => exact .cons fits (ih h')

/-! ## The tasks of fills -/

/-- The tasks of the callbacks for a list of fills. -/
def fillTasks (fs : List FillPair) : List Task := (fillCallbacks fs).flatMap Callback.tasks

/-- The open orders after the callback for a fill. -/
def afterFill (A : OrderLedger) (f : FillPair) : OrderLedger :=
  (A.setOpen f.maker.exchangeId f.maker.leavesQty).setOpen f.taker.exchangeId f.taker.leavesQty

lemma settle_fillTasks_cons (f : FillPair) (fs : List FillPair) (A : OrderLedger) :
    settle (fillTasks (f :: fs)) A = settle (fillTasks fs) (afterFill A f) := rfl

lemma noticesOf_fillTasks (fs : List FillPair) (A : OrderLedger) :
    noticesOf (fillTasks fs) A = fs.map fun f => .filled f.maker f.taker := by
  induction fs generalizing A with
  | nil => rfl
  | cons f fs ih =>
    rw [List.map_cons, ← ih (afterFill A f)]
    rfl

namespace Executes

variable {id : String} {left : ℤ} {A L L' : OrderLedger} {fs : List FillPair}

/-- The open order of the taker does not matter to the resting orders. -/
lemma afterFill_eq {f : FillPair} (htaker : f.taker.exchangeId = id) (hid : L id = none)
    {id' : String} (hid' : L id' ≠ none) :
    afterFill A f id' = A.setOpen f.maker.exchangeId f.maker.leavesQty id' := by
  refine OrderLedger.setOpen_of_ne ?_
  rw [htaker]
  rintro rfl
  exact hid' hid

/-- After the callbacks for the fills the open orders agree with what rests. -/
lemma agrees (h : Executes id left L fs L') (hid : L id = none) (hA : Agrees A L) :
    Agrees (settle (fillTasks fs) A) L' := by
  induction h generalizing A with
  | nil => exact hA
  | @cons L L' f fs m maker symbol side nonneg taker exhausted last rest ih =>
    rw [settle_fillTasks_cons]
    exact ih (OrderLedger.setOpen_eq_none hid _ _)
      ((hA.setOpen f.maker.exchangeId f.maker.leavesQty).of_eq fun id' hr =>
        afterFill_eq taker (OrderLedger.setOpen_eq_none hid _ _) hr)

/-- The notices of the fills follow the resting orders. -/
lemma follows (h : Executes id left L fs L') (hid : L id = none) (hA : Agrees A L) :
    Follows (Ledger.restrict A L) (noticesOf (fillTasks fs) A)
      (Ledger.restrict (settle (fillTasks fs) A) L') := by
  rw [noticesOf_fillTasks]
  induction h generalizing A with
  | nil => exact .nil
  | @cons L L' f fs m maker symbol side nonneg taker exhausted last rest ih =>
    have hid' := OrderLedger.setOpen_eq_none hid f.maker.exchangeId f.maker.leavesQty
    have hafter : ∀ id', L.setOpen f.maker.exchangeId f.maker.leavesQty id' ≠ none →
        afterFill A f id' = A.setOpen f.maker.exchangeId f.maker.leavesQty id' :=
      fun id' hr => afterFill_eq taker hid' hr
    obtain ⟨a, ha, hmirrors⟩ := hA _ _ maker
    refine .cons ⟨nonneg, a, Ledger.restrict_eq_some.mpr ⟨ha, by rw [maker]; rfl⟩,
      (hmirrors.symbol.trans symbol.symm), hmirrors.side.trans side.symm⟩ ?_
    have hpost : Ledger.restrict (afterFill A f)
          (L.setOpen f.maker.exchangeId f.maker.leavesQty)
        = Notice.post (Ledger.restrict A L) (.filled f.maker f.taker) := by
      rw [Ledger.restrict_congr hafter]
      exact Ledger.restrict_setAmount
    rw [← hpost, settle_fillTasks_cons]
    exact ih hid' ((hA.setOpen _ _).of_eq hafter)

/-- The open order of the taker after the callbacks for its fills. -/
lemma settle_taker (h : Executes id left L fs L') (hid : L id = none) (hne : fs ≠ []) :
    settle (fillTasks fs) A id
      = if left = 0 then none else (A id).map fun o => o.withLeaves left := by
  induction h generalizing A with
  | nil => exact absurd rfl hne
  | @cons L L' f fs m maker symbol side nonneg taker exhausted last rest ih =>
    have hmaker : id ≠ f.maker.exchangeId := by
      rintro rfl
      rw [maker] at hid
      exact absurd hid (by simp)
    have hafter : afterFill A f id = if f.taker.leavesQty = 0 then none
        else (A id).map fun o => o.withLeaves f.taker.leavesQty := by
      rw [afterFill, taker, OrderLedger.setOpen_self, OrderLedger.setOpen_of_ne hmaker]
    rw [settle_fillTasks_cons]
    by_cases hnil : fs = []
    · subst hnil
      rw [last rfl] at hafter
      exact hafter
    · rw [ih (OrderLedger.setOpen_eq_none hid _ _) hnil, hafter,
        if_neg fun h0 => hnil (exhausted h0), Option.map_map]
      rfl

lemma settle_taker_of_pos (h : Executes id left L fs L') (hid : L id = none) (hleft : 0 < left)
    {a : Order} (ha : A id = some a) : settle (fillTasks fs) A id
      = some (a.withLeaves (if fs = [] then a.leavesQty else left)) := by
  split_ifs with hnil
  · subst hnil
    exact ha
  · rw [h.settle_taker hid hnil, if_neg hleft.ne', ha]
    rfl

/-- The callbacks for fills leave the orders alone that do not rest. -/
lemma settle_of_none (h : Executes id left L fs L') {id' : String} (hid : L id' = none)
    (hne : id' ≠ id) : settle (fillTasks fs) A id' = A id' := by
  induction h generalizing A with
  | nil => rfl
  | @cons L L' f fs m maker symbol side nonneg taker exhausted last rest ih =>
    have hmaker : id' ≠ f.maker.exchangeId := by
      rintro rfl
      rw [maker] at hid
      exact absurd hid (by simp)
    rw [settle_fillTasks_cons, ih (OrderLedger.setOpen_eq_none hid _ _), afterFill,
      OrderLedger.setOpen_of_ne (by rw [taker]; exact hne), OrderLedger.setOpen_of_ne hmaker]

/-- The makers rest. -/
lemma maker_ne (h : Executes id left L fs L') (hid : L id = none) :
    ∀ f ∈ fs, f.maker.exchangeId ≠ id := by
  induction h with
  | nil => simp
  | @cons L L' f fs m maker symbol side nonneg taker exhausted last rest ih =>
    intro f' hf'
    rcases List.mem_cons.mp hf' with rfl | hf'
    · rintro rfl
      rw [maker] at hid
      exact absurd hid (by simp)
    · exact ih (OrderLedger.setOpen_eq_none hid _ _) f' hf'

end Executes

lemma settle_fillTasks_eq_none {A : OrderLedger} {id : String} (hid : A id = none)
    (fs : List FillPair) : settle (fillTasks fs) A id = none := by
  induction fs generalizing A with
  | nil => exact hid
  | cons f fs ih =>
    rw [settle_fillTasks_cons]
    exact ih (OrderLedger.setOpen_eq_none (OrderLedger.setOpen_eq_none hid _ _) _ _)

/-- An order that leaves the book when it is filled is not open any more. -/
lemma Executes.closes {id : String} {left : ℤ} {A L L' : OrderLedger} {fs : List FillPair}
    (h : Executes id left L fs L') (hid : L id = none) {id' : String} (hL : L id' ≠ none)
    (hA : settle (fillTasks fs) A id' ≠ none) : L' id' ≠ none := by
  induction h generalizing A with
  | nil => exact hL
  | @cons L L' f fs m maker symbol side nonneg taker exhausted last rest ih =>
    rw [settle_fillTasks_cons] at hA
    refine ih (OrderLedger.setOpen_eq_none hid _ _) (fun hn => hA ?_) hA
    refine settle_fillTasks_eq_none ?_ fs
    -- an order without open quantity is dropped on both sides
    by_cases hmaker : id' = f.maker.exchangeId
    · subst hmaker
      rw [OrderLedger.setOpen_self] at hn
      refine OrderLedger.setOpen_eq_none ?_ _ _
      rw [OrderLedger.setOpen_self]
      split_ifs at hn ⊢
      · rfl
      · exact absurd (Option.map_eq_none_iff.mp hn) hL
    · rw [OrderLedger.setOpen_of_ne hmaker] at hn
      exact absurd hn hL

/-- The notices of fills of other orders. -/
lemma Follows.put_of_fills {L L' : OrderLedger} {fs : List FillPair} {id : String} (a : Order)
    (h : Follows L (fs.map fun f => .filled f.maker f.taker) L')
    (hne : ∀ f ∈ fs, f.maker.exchangeId ≠ id) :
    Follows (Ledger.put L id a) (fs.map fun f => .filled f.maker f.taker)
      (Ledger.put L' id a) := by
  induction fs generalizing L with
  | nil =>
    cases h
    exact .nil
  | cons f fs ih =>
    cases h with
    | cons fits rest =>
      have hf := hne f List.mem_cons_self
      have hpost : Notice.post (Ledger.put L id a) (.filled f.maker f.taker)
          = Ledger.put (Notice.post L (.filled f.maker f.taker)) id a :=
        OrderLedger.setOpen_put hf a
      refine .cons ⟨fits.1, ?_⟩ ?_
      · rw [Ledger.put_of_ne hf]
        exact fits.2
      · rw [hpost]
        exact ih rest fun f' hf' => hne f' (List.mem_cons_of_mem _ hf')

/-! ## The calls for a work item -/

lemma settle_calls (fs : List FillPair) (last : List Callback) (A : OrderLedger) :
    settle ((fillCallbacks fs ++ last).flatMap Callback.tasks) A
      = settle (last.flatMap Callback.tasks) (settle (fillTasks fs) A) := by
  rw [List.flatMap_append, settle_append]
  rfl

lemma noticesOf_calls (fs : List FillPair) (last : List Callback) (A : OrderLedger) :
    noticesOf ((fillCallbacks fs ++ last).flatMap Callback.tasks) A
      = noticesOf (fillTasks fs) A
        ++ noticesOf (last.flatMap Callback.tasks) (settle (fillTasks fs) A) := by
  rw [List.flatMap_append, noticesOf_append]
  rfl

namespace Processed

variable {A R R' : OrderLedger} {item : WorkItem} {cbs : List Callback}

/-- **The open orders agree with the resting ones** after the calls for an item. -/
theorem agrees (h : Processed R item cbs R') (hA : Agrees A R)
    (horder : ∀ o, item = .order o → A o.exchangeId = some o ∧ o.leavesQty = o.qty) :
    Agrees (settle (cbs.flatMap Callback.tasks) A) R' := by
  cases h with
  | killed fresh => exact hA.drop_left fresh
  | @matched o left fs last L₁ R' fresh fills unfilled settled =>
    have hfills := fills.agrees fresh hA
    have hnone := fills.eq_none fresh
    rw [settle_calls]
    cases settled with
    | silent h => exact hfills
    | cancelled h => exact hfills.drop_left hnone
    | rested hleft type tif =>
      obtain ⟨ho, hqty⟩ := horder o rfl
      have htaker := fills.settle_taker_of_pos fresh hleft ho
      have hsame : (if fs = [] then o.leavesQty else left) = left := by
        split_ifs with hnil
        · rw [unfilled hnil, hqty]
        · rfl
      rw [hsame] at htaker
      have hput := hfills.put o.exchangeId (Order.Mirrors.refl (o.withLeaves left))
      rw [Ledger.put_eq_self htaker] at hput
      exact hput
  | notCancelled => exact hA
  | cancelled hm => exact hA.drop _
  | notReplaced => exact hA
  | @shrunk req m hm price positive =>
    obtain ⟨a, ha, hmirrors⟩ := hA _ _ hm
    have hactive : settle ([Callback.onReplace req true req.newQty].flatMap Callback.tasks) A
        = A.adjust req.origOrderId fun o => FixGateway.replaced o req req.newQty := if_neg positive.ne'
    rw [hactive, Ledger.adjust_of_some ha]
    exact hA.put _ (hmirrors.replaced req positive.le)
  | @requeued req m left fs L₁ hm fills unfilled positive nonneg =>
    obtain ⟨a, ha, hmirrors⟩ := hA _ _ hm
    have hnone := Ledger.drop_self (L := R) (k := req.origOrderId)
    have hfills := fills.agrees hnone (hA.drop_right req.origOrderId)
    rw [settle_calls]
    split_ifs with hleft
    · have htaker := fills.settle_taker_of_pos hnone hleft ha
      have hactive : settle ([Callback.onReplace req true left].flatMap Callback.tasks)
            (settle (fillTasks fs) A)
          = (settle (fillTasks fs) A).adjust req.origOrderId
              fun o => FixGateway.replaced o req left := if_neg hleft.ne'
      rw [hactive, Ledger.adjust_of_some htaker]
      exact hfills.put _ ((hmirrors.withLeaves _).replaced req nonneg)
    · have hzero : left = 0 := le_antisymm (not_lt.mp hleft) nonneg
      have hactive : settle ([Callback.onReplace req true left].flatMap Callback.tasks)
            (settle (fillTasks fs) A)
          = (settle (fillTasks fs) A).drop req.origOrderId := if_pos hzero
      rw [hactive]
      exact hfills.drop_left (fills.eq_none hnone)

/-- **The notices for an item follow the resting orders**, unless they are about a replace that
fills its order: that the order has left the book is then not passed on. -/
theorem follows (h : Processed R item cbs R') (hA : Agrees A R)
    (horder : ∀ o, item = .order o → A o.exchangeId = some o ∧ o.leavesQty = o.qty)
    (hreq : ∀ req, item = .replace req → ∀ a, A req.origOrderId = some a →
      a.symbol = req.symbol ∧ a.side = req.side)
    (hopen : ∀ req, .onReplace req true 0 ∉ cbs) :
    Follows (Ledger.restrict A R) (noticesOf (cbs.flatMap Callback.tasks) A)
      (Ledger.restrict (settle (cbs.flatMap Callback.tasks) A) R') := by
  cases h with
  | @killed o fresh =>
    have hsame : Ledger.restrict (Ledger.drop A o.exchangeId) R = Ledger.restrict A R :=
      Ledger.restrict_congr fun id hid => Ledger.drop_of_ne fun heq => hid (by rw [heq, fresh])
    have hactive : settle ([Callback.onTIFCancel (o.withLeaves o.qty)].flatMap Callback.tasks) A
        = Ledger.drop A o.exchangeId := rfl
    rw [hactive, hsame]
    exact .nil
  | @matched o left fs last L₁ R' fresh fills unfilled settled =>
    have hfills := fills.follows fresh hA
    have hnone := fills.eq_none fresh
    rw [settle_calls, noticesOf_calls]
    refine hfills.append ?_
    cases settled with
    | silent h => exact .nil
    | cancelled h =>
      have hsame : Ledger.restrict (Ledger.drop (settle (fillTasks fs) A) o.exchangeId) R'
          = Ledger.restrict (settle (fillTasks fs) A) R' :=
        Ledger.restrict_congr fun id hid => Ledger.drop_of_ne fun heq => hid (by rw [heq, hnone])
      have hactive : settle ([Callback.onTIFCancel (o.withLeaves left)].flatMap Callback.tasks)
            (settle (fillTasks fs) A)
          = Ledger.drop (settle (fillTasks fs) A) o.exchangeId := rfl
      rw [hactive, hsame]
      exact .nil
    | rested hleft type tif =>
      obtain ⟨ho, hqty⟩ := horder o rfl
      have htaker := fills.settle_taker_of_pos fresh hleft ho
      have hsame : (if fs = [] then o.leavesQty else left) = left := by
        split_ifs with hnil
        · rw [unfilled hnil, hqty]
        · rfl
      rw [hsame] at htaker
      have hrestrict : Ledger.restrict (settle (fillTasks fs) A)
            (Ledger.put L₁ o.exchangeId (o.withLeaves left))
          = Ledger.put (Ledger.restrict (settle (fillTasks fs) A) L₁) o.exchangeId
              (o.withLeaves left) := by
        rw [← Ledger.restrict_put, Ledger.put_eq_self htaker]
      exact .cons ⟨hleft, Ledger.restrict_eq_none.mpr (Or.inr hnone)⟩ (hrestrict ▸ .nil)
  | notCancelled => exact .nil
  | @cancelled req m hm =>
    obtain ⟨a, ha, -⟩ := hA _ _ hm
    have hnotices : noticesOf ([Callback.onCancel req true].flatMap Callback.tasks) A
        = [.cancelled req.origOrderId a] := by
      simp [Callback.tasks, Task.notices, ha]
    have hactive : Ledger.restrict
          (settle ([Callback.onCancel req true].flatMap Callback.tasks) A)
          (Ledger.drop R req.origOrderId)
        = Ledger.drop (Ledger.restrict A R) req.origOrderId := Ledger.restrict_drop
    rw [hnotices, hactive]
    exact .cons (Ledger.restrict_eq_some.mpr ⟨ha, by rw [hm]; rfl⟩) .nil
  | notReplaced => exact .nil
  | @shrunk req m hm price positive =>
    obtain ⟨a, ha, hmirrors⟩ := hA _ _ hm
    obtain ⟨hsymbol, hside⟩ := hreq req rfl a ha
    have hsome : Ledger.restrict A R req.origOrderId = some a :=
      Ledger.restrict_eq_some.mpr ⟨ha, by rw [hm]; rfl⟩
    have hnotices : noticesOf ([Callback.onReplace req true req.newQty].flatMap Callback.tasks) A
        = [.replaced req req.newQty a.price] := by
      simp [Callback.tasks, Task.notices, ha]
    have hactive : settle ([Callback.onReplace req true req.newQty].flatMap Callback.tasks) A
        = Ledger.adjust A req.origOrderId fun o => FixGateway.replaced o req req.newQty :=
      if_neg positive.ne'
    rw [hnotices, hactive, Ledger.adjust_of_some ha, Ledger.restrict_put]
    refine .cons ⟨positive, a, hsome, rfl, hsymbol, hside⟩ ?_
    rw [Notice.post, Ledger.adjust_of_some hsome]
    exact .nil
  | @requeued req m left fs L₁ hm fills unfilled positive nonneg =>
    obtain ⟨a, ha, hmirrors⟩ := hA _ _ hm
    obtain ⟨hsymbol, hside⟩ := hreq req rfl a ha
    have hnone := Ledger.drop_self (L := R) (k := req.origOrderId)
    have hleft : 0 < left := by
      refine lt_of_le_of_ne nonneg fun hzero => hopen req (List.mem_append_right _ ?_)
      rw [hzero]
      exact List.mem_singleton.mpr rfl
    -- the fills do not touch the order, which is still on record for those who get notices
    have hfills := fills.follows hnone (hA.drop_right req.origOrderId)
    rw [noticesOf_fillTasks] at hfills
    have hput := hfills.put_of_fills a (fills.maker_ne hnone)
    have hstart : Ledger.put (Ledger.restrict A (Ledger.drop R req.origOrderId)) req.origOrderId a
        = Ledger.restrict A R := by
      rw [← Ledger.restrict_put (w := m), Ledger.put_eq_self ha, Ledger.put_drop_self,
        Ledger.put_eq_self hm]
    have htaker := fills.settle_taker_of_pos hnone hleft ha
    set n := if fs = [] then a.leavesQty else left
    have hactive : settle ([Callback.onReplace req true left].flatMap Callback.tasks)
          (settle (fillTasks fs) A)
        = Ledger.adjust (settle (fillTasks fs) A) req.origOrderId
            fun o => FixGateway.replaced o req left := if_neg hleft.ne'
    have hnotices : noticesOf ([Callback.onReplace req true left].flatMap Callback.tasks)
          (settle (fillTasks fs) A) = [.replaced req left a.price] := by
      simp [Callback.tasks, Task.notices, htaker]
    rw [settle_calls, noticesOf_calls, noticesOf_fillTasks, hactive, hnotices, if_pos hleft,
      Ledger.adjust_of_some htaker, Ledger.restrict_put]
    rw [hstart] at hput
    refine hput.append (.cons ⟨hleft, a, Ledger.put_self, rfl, hsymbol, hside⟩ ?_)
    rw [Notice.post, Ledger.put_adjust_self]
    exact .nil

/-- Neither the calls for an item nor the item itself touch the orders that do not rest, other
than the one that the item submits. -/
theorem untouched (h : Processed R item cbs R') {id : String} (hid : R id = none)
    (hne : ∀ o, item = .order o → id ≠ o.exchangeId) :
    settle (cbs.flatMap Callback.tasks) A id = A id ∧ R' id = none := by
  have hne' : ∀ {id' : String} {m : Order}, R id' = some m → id ≠ id' := by
    rintro id' m hm rfl
    rw [hid] at hm
    exact absurd hm (by simp)
  cases h with
  | @killed o fresh => exact ⟨Ledger.drop_of_ne (hne o rfl), hid⟩
  | @matched o left fs last L₁ R' fresh fills unfilled settled =>
    have hfills := fills.settle_of_none (A := A) hid (hne o rfl)
    have hnone := fills.eq_none hid
    rw [settle_calls]
    cases settled with
    | silent h => exact ⟨hfills, hnone⟩
    | cancelled h => exact ⟨(Ledger.drop_of_ne (hne o rfl)).trans hfills, hnone⟩
    | rested hleft type tif => exact ⟨hfills, (Ledger.put_of_ne (hne o rfl)).trans hnone⟩
  | notCancelled => exact ⟨rfl, hid⟩
  | cancelled hm =>
    exact ⟨Ledger.drop_of_ne (hne' hm), (Ledger.drop_of_ne (hne' hm)).trans hid⟩
  | notReplaced => exact ⟨rfl, hid⟩
  | @shrunk req m hm price positive =>
    have hactive : settle ([Callback.onReplace req true req.newQty].flatMap Callback.tasks) A
        = Ledger.adjust A req.origOrderId fun o => FixGateway.replaced o req req.newQty :=
      if_neg positive.ne'
    rw [hactive]
    exact ⟨Ledger.adjust_of_ne (hne' hm), (Ledger.put_of_ne (hne' hm)).trans hid⟩
  | @requeued req m left fs L₁ hm fills unfilled positive nonneg =>
    have hdrop : Ledger.drop R req.origOrderId id = none := (Ledger.drop_of_ne (hne' hm)).trans hid
    have hfills := fills.settle_of_none (A := A) hdrop (hne' hm)
    have hnone := fills.eq_none hdrop
    rw [settle_calls]
    refine ⟨?_, ?_⟩
    · rw [← hfills]
      refine settle_of_notMem fun t ht => ?_
      rw [List.mem_singleton.mp ht]
      exact fun hmem => hne' hm (List.mem_singleton.mp hmem)
    · split_ifs
      · exact (Ledger.put_of_ne (hne' hm)).trans hnone
      · exact hnone

/-- **What the gateway still has open rests**: when the book does not keep an order after an
item, the gateway does not either. -/
theorem closes (h : Processed R item cbs R')
    (hlimit : ∀ o, item = .order o → o.type = '2' ∧ 0 < o.qty) {id : String}
    (hid : R id ≠ none ∨ ∃ o, item = .order o ∧ id = o.exchangeId)
    (hopen : settle (cbs.flatMap Callback.tasks) A id ≠ none) : R' id ≠ none := by
  cases h with
  | @killed o fresh =>
    rcases hid with hid | ⟨o', ho', rfl⟩
    · exact hid
    · obtain rfl := WorkItem.order.inj ho'
      exact absurd Ledger.drop_self hopen
  | @matched o left fs last L₁ R' fresh fills unfilled settled =>
    obtain ⟨htype, hqty⟩ := hlimit o rfl
    rw [settle_calls] at hopen
    by_cases heq : id = o.exchangeId
    · subst heq
      cases settled with
      | silent h =>
        -- the order has been filled
        have hleft := h.resolve_right (not_not.mpr htype)
        have hne : fs ≠ [] := fun hnil => hqty.ne' ((unfilled hnil).symm.trans hleft)
        exact absurd ((fills.settle_taker fresh hne).trans (if_pos hleft)) hopen
      | cancelled h => exact absurd Ledger.drop_self hopen
      | rested hleft type tif => rw [Ledger.put_self]; simp
    · have hR : R id ≠ none := by
        rcases hid with hid | ⟨o', ho', rfl⟩
        · exact hid
        · obtain rfl := WorkItem.order.inj ho'
          exact absurd rfl heq
      cases settled with
      | silent h => exact fills.closes fresh hR hopen
      | cancelled h => exact fills.closes fresh hR fun hn => hopen ((Ledger.drop_of_ne heq).trans hn)
      | rested hleft type tif =>
        rw [Ledger.put_of_ne heq]
        exact fills.closes fresh hR hopen
  | notCancelled => exact hid.resolve_right (by simp)
  | @cancelled req m hm =>
    have hR := hid.resolve_right (by simp)
    by_cases heq : id = req.origOrderId
    · subst heq
      exact absurd Ledger.drop_self hopen
    · rw [Ledger.drop_of_ne heq]
      exact hR
  | notReplaced => exact hid.resolve_right (by simp)
  | @shrunk req m hm price positive =>
    by_cases heq : id = req.origOrderId
    · rw [heq, Ledger.put_self]
      simp
    · rw [Ledger.put_of_ne heq]
      exact hid.resolve_right (by simp)
  | @requeued req m left fs L₁ hm fills unfilled positive nonneg =>
    have hR := hid.resolve_right (by simp)
    rw [settle_calls] at hopen
    by_cases heq : id = req.origOrderId
    · subst heq
      split_ifs with hleft
      · rw [Ledger.put_self]
        simp
      · have hzero : left = 0 := le_antisymm (not_lt.mp hleft) nonneg
        subst hzero
        exact absurd Ledger.drop_self hopen
    · have hL₁ := fills.closes (A := A) Ledger.drop_self
        (by rw [Ledger.drop_of_ne heq]; exact hR) fun hn => hopen (by
          rw [settle_of_notMem fun t ht => ?_, hn]
          rw [List.mem_singleton.mp ht]
          exact fun hmem => heq (List.mem_singleton.mp hmem))
      split_ifs
      · rw [Ledger.put_of_ne heq]
        exact hL₁
      · exact hL₁

end Processed

end FixExchange
