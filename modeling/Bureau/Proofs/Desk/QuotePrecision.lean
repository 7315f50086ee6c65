import Bureau.Proofs.Desk.Standard
import Mathlib.Algebra.Order.Group.MinMax

/-!
How near the figures of a quote come to exact arithmetic. Below 10¹⁸ every product and sum keeps ten
places, so that shares, amounts at a rate and totals are off by 10⁻¹⁰ at most, and what is rounded to
whole units by half a unit more.
-/

set_option autoImplicit false

namespace Bureau

open Decimal

/-! ### Sizes -/

private theorem Currency.decimalPlaces_le (c : Currency) : c.decimalPlaces ≤ 3 := by
  unfold decimalPlaces
  split_ifs <;> decide

namespace Decimal

variable {a b c : Decimal}

private theorem exists_mul?_near (h : |a.value * b.value| ≤ 10 ^ 18 + 1) :
    ∃ c, a.mul? b = some c ∧ |c.value - a.value * b.value| ≤ 1 / 2 / 10 ^ 10 := by
  obtain ⟨c, hc⟩ := exists_mul? (a := a) (b := b) (by linarith)
  exact ⟨c, hc, (rounds_mul? hc).abs_sub_le_of_fits (by norm_num) (by linarith)⟩

private theorem exists_add?_near (h : |a.value + b.value| ≤ 3 * 10 ^ 18) :
    ∃ c, a.add? b = some c ∧ |c.value - (a.value + b.value)| ≤ 1 / 2 / 10 ^ 10 ∧
      ∀ n m : Int, a.value * 10 ^ 10 = n → b.value * 10 ^ 10 = m → c.value = a.value + b.value := by
  obtain ⟨c, hc⟩ := exists_add? (a := a) (b := b) (by linarith)
  have hfits : |a.value + b.value| * 10 ^ 10 ≤ 2 ^ 96 - 1 := by linarith
  refine ⟨c, hc, (rounds_add? hc).abs_sub_le_of_fits (by norm_num) hfits, fun n m hn hm => ?_⟩
  refine (rounds_add? hc).eq_of_units (k := n + m) (by norm_num) ?_ hfits
  push_cast
  rw [add_mul, hn, hm]

end Decimal

/-! ### Fees -/

namespace Corridor

variable {c : Corridor} {amount share : Decimal} {currency : Currency}

def exactShare (c : Corridor) (amount : Decimal) : ℚ :=
  amount.value * c.feePercentage.value / 100

/-- The exact fee for an amount, before it is rounded to whole units. -/
def exactFee (c : Corridor) (amount : Decimal) : ℚ :=
  Max.max (c.exactShare amount) c.feeMinimum.value.value

private theorem IsValid.exactShare_nonneg (hc : c.IsValid) (hamount : zero ≤ amount) :
    0 ≤ c.exactShare amount := by
  have hfee := zero_le_iff.mp hc.fee_nonneg
  have hpos := zero_le_iff.mp hamount
  unfold exactShare
  positivity

private theorem IsValid.exists_share_near (hc : c.IsValid) (hpos : zero ≤ amount)
    (hamount : amount.value < 10 ^ 18) (hshare : c.exactShare amount < 10 ^ 18) :
    ∃ share, c.share? amount = some share ∧
      |share.value - c.exactShare amount| ≤ 1 / 10 ^ 10 := by
  obtain ⟨factor, hfactor⟩ := c.feePercentage.exists_hundredth
  have hpos' := zero_le_iff.mp hpos
  have hfirst : |amount.value * factor.value - c.exactShare amount| ≤ 1 / 2 / 10 ^ 10 := by
    have hsplit : amount.value * factor.value - c.exactShare amount =
        amount.value * (factor.value - c.feePercentage.value / 100) := by
      unfold exactShare
      ring
    rw [hsplit, abs_mul, abs_of_nonneg hpos']
    calc amount.value * |factor.value - c.feePercentage.value / 100|
        ≤ 10 ^ 18 * (1 / 2 / 10 ^ 28) :=
          mul_le_mul hamount.le (abs_hundredth_sub_le hfactor) (abs_nonneg _) (by norm_num)
      _ = 1 / 2 / 10 ^ 10 := by norm_num
  have hsize : |amount.value * factor.value| ≤ 10 ^ 18 + 1 := by
    have hnear := abs_sub_abs_le_abs_sub (amount.value * factor.value) (c.exactShare amount)
    rw [abs_of_nonneg (hc.exactShare_nonneg hpos)] at hnear
    linarith
  obtain ⟨share, hmul, hsecond⟩ := exists_mul?_near hsize
  refine ⟨share, ?_, ?_⟩
  · rw [share?, hfactor]
    exact hmul
  · have htriangle := abs_sub_le share.value (amount.value * factor.value) (c.exactShare amount)
    linarith

private theorem abs_feeIn_sub_le (currency : Currency)
    (h : |share.value - c.exactShare amount| ≤ 1 / 10 ^ 10) :
    |(c.feeIn currency share).value - c.exactFee amount| ≤
      1 / 2 / 10 ^ currency.decimalPlaces + 1 / 10 ^ 10 := by
  have hround := abs_roundTo_sub_le (share.max c.feeMinimum.value) currency.decimalPlaces
  rw [value_max] at hround
  have hmax := abs_max_sub_max_le_abs share.value (c.exactShare amount) c.feeMinimum.value.value
  exact (abs_sub_le _ _ _).trans (add_le_add hround (hmax.trans h))

private theorem scale_feeIn_le : (c.feeIn currency share).scale ≤ currency.decimalPlaces :=
  scale_roundTo_le _ _

end Corridor

/-! ### Quotes -/

/-- A quote whose figures agree with exact arithmetic to half a unit of their currencies. -/
structure Quote.IsNear (q : Quote) (c : Corridor) (buyRate amount : Decimal) : Prop where
  fee : |q.fee.value.value - c.exactFee amount| ≤
    1 / 2 / 10 ^ c.sourceCurrency.decimalPlaces + 1 / 10 ^ 10
  target : |q.targetAmount.value.value - amount.value * buyRate.value| ≤
    1 / 2 / 10 ^ c.targetCurrency.decimalPlaces + 1 / 10 ^ 10
  total : |q.totalCost.value.value - (amount.value + q.fee.value.value)| ≤ 1 / 10 ^ 10
  /-- With at most ten decimals in the amount the total is exact. -/
  total_eq : (∃ n : Int, amount.value * 10 ^ 10 = n) →
    q.totalCost.value.value = amount.value + q.fee.value.value
  fee_scale : q.fee.value.scale ≤ c.sourceCurrency.decimalPlaces
  target_scale : q.targetAmount.value.scale ≤ c.targetCurrency.decimalPlaces
  fee_currency : q.fee.currency = c.sourceCurrency
  target_currency : q.targetAmount.currency = c.targetCurrency

structure Corridor.IsModerate (c : Corridor) (buyRate amount : Decimal) : Prop where
  amount_lt : amount.value < 10 ^ 18
  minimum_lt : |c.feeMinimum.value.value| < 10 ^ 18
  share_lt : c.exactShare amount < 10 ^ 18
  gross_lt : |amount.value * buyRate.value| < 10 ^ 18

private theorem Corridor.IsModerate.abs_add_fee_le {c : Corridor} {buyRate amount fee : Decimal}
    (h : c.IsModerate buyRate amount) (hc : c.IsValid) (hpos : zero ≤ amount)
    (hfee : |fee.value - c.exactFee amount| ≤
      1 / 2 / 10 ^ c.sourceCurrency.decimalPlaces + 1 / 10 ^ 10) :
    |amount.value + fee.value| ≤ 3 * 10 ^ 18 := by
  obtain ⟨hamount, hminimum, hshare, -⟩ := h
  have hpos' := zero_le_iff.mp hpos
  have hexact : |c.exactFee amount| ≤ 10 ^ 18 := by
    have hnonneg := hc.exactShare_nonneg hpos
    have hless := le_abs_self c.feeMinimum.value.value
    have hmax : 0 ≤ c.exactFee amount := hnonneg.trans (le_max_left _ _)
    rw [abs_of_nonneg hmax]
    exact max_le hshare.le (hless.trans hminimum.le)
  have hunit : (1 : ℚ) / 2 / 10 ^ c.sourceCurrency.decimalPlaces ≤ 1 / 2 :=
    div_le_self (by norm_num) (one_le_pow₀ (by norm_num))
  have htriangle := abs_sub_abs_le_abs_sub fee.value (c.exactFee amount)
  have hsum := abs_add_le amount.value fee.value
  rw [abs_of_nonneg hpos'] at hsum
  linarith

/-- Figures of moderate size can be written down, and come near to exact arithmetic. -/
theorem Figures.exists_near {c : Corridor} {shown : ExchangeRate} {amount : Decimal}
    (hc : c.IsValid) (hpos : zero ≤ amount) (hsize : c.IsModerate shown.buyRate amount) :
    ∃ x : Figures, x.Price c shown c.pair amount ∧
      ∀ id, (x.quote shown c.pair amount id).IsNear c shown.buyRate amount := by
  obtain ⟨share, hshare, hshareNear⟩ := hc.exists_share_near hpos hsize.amount_lt hsize.share_lt
  obtain ⟨gross, hgross, hgrossNear⟩ := exists_mul?_near (a := amount) (b := shown.buyRate) (by
    have hgross := hsize.gross_lt
    linarith)
  have hfee := Corridor.abs_feeIn_sub_le c.sourceCurrency hshareNear
  have hscale : (c.feeIn c.sourceCurrency share).scale ≤ c.sourceCurrency.decimalPlaces :=
    Corridor.scale_feeIn_le
  obtain ⟨total, htotal, htotalNear, hexact⟩ :=
    exists_add?_near (a := amount) (b := c.feeIn c.sourceCurrency share)
      (hsize.abs_add_fee_le hc hpos hfee)
  obtain ⟨m, hm⟩ := (c.feeIn c.sourceCurrency share).exists_units
    (hscale.trans ((Currency.decimalPlaces_le _).trans (by norm_num : 3 ≤ 10)))
  refine ⟨⟨share, _, gross, total⟩, ⟨hc.minimum_currency, hshare, rfl, hgross, htotal⟩, fun id => ?_⟩
  exact
    { fee := hfee
      target := by
        have hround := abs_roundTo_sub_le gross c.targetCurrency.decimalPlaces
        refine (abs_sub_le _ gross.value _).trans (add_le_add hround ?_)
        linarith
      total := by
        refine htotalNear.trans ?_
        norm_num
      total_eq := fun ⟨n, hn⟩ => hexact n m hn hm
      fee_scale := hscale
      target_scale := scale_roundTo_le _ _
      fee_currency := rfl
      target_currency := rfl }

namespace MarketDesk

variable {σ μ : Type} {H : Program.Handler (Attempt (RunState σ μ))} {d : Desk} {f g : RunState σ μ}

/-- Over a corridor that is in use an amount is quoted as soon as a rate is shown and the figures lie
below 10¹⁸, and the quote agrees with exact arithmetic to half a unit. -/
theorem exists_quote_near (hcrash : EndsOnCrash H) (hmints : Mints H) {corridors : List Corridor}
    (hregistry : Registry.ofList corridors = .ok d.registry) {c : Corridor}
    (hc : c ∈ d.registry.corridors) (henabled : c.enabled = true) {shown : ExchangeRate}
    (hrate : serveBy H (d.rate c.pair).run f = (.ok (.ok shown), g)) {amount : Decimal}
    (hpos : zero < amount) (hsize : c.IsModerate shown.buyRate amount) :
    ∃ q k, serveBy H (d.quote c.pair amount).run f = (.ok (.ok q), k) ∧
      q.IsNear c shown.buyRate amount := by
  have hvalid := Corridor.isValid_of_validate (Registry.isValid_ofList hregistry c hc)
  have hfind := (Registry.isIndexed_ofList hregistry).find?_of_mem c hc
  obtain ⟨x, hx, hnear⟩ := Figures.exists_near hvalid (Int.le_of_lt hpos) hsize
  obtain ⟨id, k, hid⟩ := hmints g
  refine ⟨_, k, (serveBy_quote_eq_ok_iff hcrash).mpr ⟨c, shown, g, x, id, ?_, hrate, hx, hid, rfl⟩,
    hnear id⟩
  exact Desk.corridorFor_eq_ok_iff.mpr ⟨hpos, hfind, henabled⟩

/-- A hundred euros over a corridor with a least fee of 2.99 euros. -/
theorem exists_quote_near_hundred :
    let minimum : Decimal := ⟨false, 299, 2, by decide, by decide⟩
    let d := Desk.euroDollar minimum
    ∃ q g, (ofProvider d).serve .epoch (d.quote .euroDollar hundred).run euroDollarState =
        (.ok (.ok q), g) ∧
      q.IsNear (.euroDollar minimum) ExchangeRate.euroDollar.buyRate hundred := by
  intro minimum d
  have hregistry : Registry.ofList [.euroDollar minimum] = .ok d.registry := rfl
  have hsize : (Corridor.euroDollar minimum).IsModerate ExchangeRate.euroDollar.buyRate hundred := by
    have hminimum : minimum.value = 299 / 100 := by norm_num [minimum, value, coefficient]
    have hfee : half.value = 1 / 2 := by norm_num [half, value, coefficient]
    have hbuy : ExchangeRate.euroDollar.buyRate.value = 997 / 1000 := by
      norm_num [ExchangeRate.euroDollar, value, coefficient]
    refine ⟨?_, ?_, ?_, ?_⟩
    · rw [value_hundred]
      norm_num
    · change |minimum.value| < 10 ^ 18
      rw [hminimum]
      norm_num
    · change hundred.value * half.value / 100 < 10 ^ 18
      rw [value_hundred, hfee]
      norm_num
    · rw [value_hundred, hbuy]
      norm_num
  obtain ⟨g, hrate⟩ := serve_rate_euroDollar minimum
  exact exists_quote_near (c := .euroDollar minimum) ((ofProvider d).endsOnCrash_handler _)
    ((ofProvider d).mints_handler _) hregistry List.mem_cons_self rfl hrate (by decide) hsize

end MarketDesk

end Bureau
