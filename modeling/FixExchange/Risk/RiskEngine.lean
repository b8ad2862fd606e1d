/-
# Pre-trade risk checks

A model of `src/risk/RiskEngine.cpp`: the quantity limit and the price collar around the last
trade, which is computed in `double`s and rounded after each operation.  A check returns the text
of the rejection, and the empty text when it passes.
-/
import FixExchange.Engine.Order
import FixExchange.Lib.Binary64

namespace FixExchange

open Binary64 (roundHalfEven)

/-- The text of a number under `std::fixed` and `std::setprecision(2)`. -/
def formatFixed2 (x : ℚ) : String :=
  let n := (roundHalfEven (|x| * 100)).toNat
  let cents := toString (n % 100)
  (if x < 0 then "-" else "") ++ toString (n / 100) ++ "."
    ++ (if cents.length < 2 then "0" ++ cents else cents)

/-- `risk::RiskConfig`: a zero disables the check. -/
structure RiskConfig where
  maxOrderQty : ℤ := 0
  priceCollarPct : ℚ := 0
deriving DecidableEq, Repr

/-- How far a price may be from the last trade: `last * cfg_.price_collar_pct / 100.0`. -/
def RiskConfig.limit (cfg : RiskConfig) (last : Price) : Binary64 :=
  ((Binary64.finite last).mul (.finite cfg.priceCollarPct)).div (.finite 100)

/-- A price is outside of the collar around a trade price: a buy too far above it, a sell too
far below. -/
def RiskConfig.Breached (cfg : RiskConfig) (side : Char) (price last : Price) : Prop :=
  (if side = '1' then ((Binary64.finite last).add (cfg.limit last)).lt (.finite price)
    else (Binary64.finite price).lt ((Binary64.finite last).sub (cfg.limit last))) = true

instance (cfg : RiskConfig) (side : Char) (price last : Price) :
    Decidable (cfg.Breached side price last) := instDecidableEqBool _ _

/-- `risk::RiskEngine`. -/
structure RiskEngine where
  cfg : RiskConfig
  /-- The price of the last trade of each symbol. -/
  lastPrice : StrMap Price

namespace RiskEngine

/-- `RiskEngine::check_qty`. -/
def checkQty (r : RiskEngine) (qty : ℤ) : String :=
  if r.cfg.maxOrderQty > 0 ∧ qty > r.cfg.maxOrderQty then
    "Order qty " ++ toString qty ++ " exceeds max " ++ toString r.cfg.maxOrderQty
  else ""

/-- `RiskEngine::check_price`: buys are risky when too far above the last trade, sells when
too far below. -/
def checkPrice (r : RiskEngine) (symbol : String) (side : Char) (price : Price) : String :=
  if price = 0 ∨ r.cfg.priceCollarPct ≤ 0 then ""
  else
    match r.lastPrice.lookup symbol with
    | none => ""
    | some last =>
      let limit := r.cfg.limit last
      let breached := if side = '1' then ((Binary64.finite last).add limit).lt (.finite price)
        else (Binary64.finite price).lt ((Binary64.finite last).sub limit)
      if breached then
        "Price " ++ formatFixed2 price ++ " deviates more than "
          ++ formatFixed2 r.cfg.priceCollarPct ++ "% from last trade " ++ formatFixed2 last
      else ""

/-- `RiskEngine::check`: the first failure, or the empty text. -/
def check (r : RiskEngine) (symbol : String) (type side : Char) (qty : ℤ) (price : Price) :
    String :=
  if r.checkQty qty ≠ "" then r.checkQty qty
  else r.checkPrice symbol side (if type = '2' then price else 0)

/-- `RiskEngine::on_trade`. -/
def onTrade (r : RiskEngine) (symbol : String) (price : Price) : RiskEngine :=
  { r with lastPrice := r.lastPrice.insert symbol price }

@[simp] lemma onTrade_cfg (r : RiskEngine) (symbol : String) (price : Price) :
    (r.onTrade symbol price).cfg = r.cfg := rfl

variable {r : RiskEngine}

lemma checkQty_eq_empty {qty : ℤ} :
    r.checkQty qty = "" ↔ (0 < r.cfg.maxOrderQty → qty ≤ r.cfg.maxOrderQty) := by
  rw [checkQty]
  split_ifs with h
  · refine iff_of_false (fun htext => ?_) fun hle => absurd (hle h.1) (not_le.mpr h.2)
    simp [String.append_eq_empty_iff] at htext
  · exact iff_of_true rfl fun hmax => not_lt.mp fun hqty => h ⟨hmax, hqty⟩

/-- An order that passes has a quantity within the limit, when there is one. -/
lemma le_max_of_checkQty {qty : ℤ} (h : r.checkQty qty = "") (hmax : 0 < r.cfg.maxOrderQty) :
    qty ≤ r.cfg.maxOrderQty :=
  checkQty_eq_empty.mp h hmax

/-- A price passes unless it is outside of the collar around the last trade. -/
lemma checkPrice_eq_empty {symbol : String} {side : Char} {price : Price} :
    r.checkPrice symbol side price = "" ↔
      (price ≠ 0 → 0 < r.cfg.priceCollarPct → ∀ last ∈ r.lastPrice.lookup symbol,
        ¬ r.cfg.Breached side price last) := by
  rw [checkPrice]
  by_cases hskip : price = 0 ∨ r.cfg.priceCollarPct ≤ 0
  · rw [if_pos hskip]
    refine iff_of_true rfl fun hprice hpct => ?_
    exact absurd hskip (not_or.mpr ⟨hprice, not_le.mpr hpct⟩)
  · rw [if_neg hskip]
    obtain ⟨hprice, hpct⟩ := not_or.mp hskip
    cases hlast : r.lastPrice.lookup symbol with
    | none => exact iff_of_true rfl fun _ _ last h => absurd h (by simp)
    | some last =>
      by_cases hb : r.cfg.Breached side price last
      · dsimp only
        rw [if_pos (show _ = true from hb)]
        refine iff_of_false (fun htext => ?_) fun h => h hprice (not_le.mp hpct) last rfl hb
        simp [String.append_eq_empty_iff] at htext
      · dsimp only
        rw [if_neg (show ¬ _ = true from hb)]
        refine iff_of_true rfl fun _ _ last' h => ?_
        obtain rfl := Option.some.inj h
        exact hb

/-- `check` passes when both checks pass. -/
lemma check_eq_empty {symbol : String} {type side : Char} {qty : ℤ} {price : Price} :
    r.check symbol type side qty price = "" ↔
      r.checkQty qty = "" ∧ r.checkPrice symbol side (if type = '2' then price else 0) = "" := by
  rw [check]
  by_cases h : r.checkQty qty = ""
  · simp [h]
  · simp [h]

end RiskEngine

end FixExchange
