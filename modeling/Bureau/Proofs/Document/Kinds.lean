import Bureau.Corridor.Basic
import Bureau.Proofs.Document.RoundTrip
import Bureau.Rate.Quote

/-!
The kinds of documents that are kept. A value of each kind is read back from what was written for
it; only zeros lose a sign on the way.
-/

set_option autoImplicit false

namespace Bureau

open Text

/-! ### Identifiers -/

namespace Uuid

private theorem length_hexFixed (count n : Nat) : (hexFixed count n).length = count := by
  induction count generalizing n with
  | zero => rfl
  | succ count ih =>
      rw [hexFixed, List.length_append, ih]
      rfl

private theorem ofDigits?_hexFixed (u : Uuid) : ofDigits? (hexFixed 32 u.number) = some u := by
  have hfits : u.number < 16 ^ 32 := Nat.lt_of_lt_of_le u.number_lt (by decide)
  have hread : readHex? 0 (hexFixed 32 u.number) = some u.number := by
    rw [readHex?_hexFixed, Nat.mod_eq_of_lt hfits, Nat.zero_mul, Nat.zero_add]
  refine (bind_of_eq_some hread _).trans ?_
  exact dif_pos ⟨length_hexFixed 32 u.number, u.number_lt⟩

private theorem ofHyphenated?_groups {a b c d e : List Char} (ha : a.length = 8)
    (hb : b.length = 4) (hc : c.length = 4) (hd : d.length = 4) (he : e.length = 12) :
    ofHyphenated? (a ++ '-' :: (b ++ '-' :: (c ++ '-' :: (d ++ '-' :: e)))) =
      ofDigits? (a ++ b ++ c ++ d ++ e) := by
  unfold ofHyphenated?
  rw [if_pos]
  · simp [List.drop_append, List.drop_of_length_le, ha, hb, hc, hd]
  · constructor
    · simp [ha, hb, hc, hd, he]
    · simp [List.getElem?_append, ha, hb, hc, hd]

private theorem groups_append (ds : List Char) :
    ds.take 8 ++ (ds.drop 8).take 4 ++ (ds.drop 12).take 4 ++ (ds.drop 16).take 4 ++ ds.drop 20 =
      ds := by
  have hmiddle : ∀ n, (ds.drop n).take 4 ++ ds.drop (n + 4) = ds.drop n := by
    intro n
    rw [← List.drop_drop, List.take_append_drop]
  rw [List.append_assoc, hmiddle 16, List.append_assoc, hmiddle 12, List.append_assoc, hmiddle 8,
    List.take_append_drop]

theorem parse?_text (u : Uuid) : parse? u.text = some u := by
  have hlength := length_hexFixed 32 u.number
  have hchars : u.chars.length = 36 := by
    simp [chars, hlength]
  have hread : ofHyphenated? u.chars = some u := by
    have hgroups := ofHyphenated?_groups
      (a := (hexFixed 32 u.number).take 8) (b := ((hexFixed 32 u.number).drop 8).take 4)
      (c := ((hexFixed 32 u.number).drop 12).take 4) (d := ((hexFixed 32 u.number).drop 16).take 4)
      (e := (hexFixed 32 u.number).drop 20) (by simp [hlength]) (by simp [hlength])
      (by simp [hlength]) (by simp [hlength]) (by simp [hlength])
    rw [groups_append, ofDigits?_hexFixed] at hgroups
    simpa only [chars, List.append_assoc, List.cons_append] using hgroups
  have hshort : u.chars.length ≠ 32 := by omega
  rw [parse?, text, String.toList_ofList, ofChars?, if_neg hshort, if_pos hchars, hread]

end Uuid

/-! ### Sets of texts -/

namespace TextSet

private theorem eq_of_items_eq {s t : TextSet} (h : s.items = t.items) : s = t := by
  cases s
  cases t
  cases h
  rfl

private theorem insertItem_of_last {s : String} {items : List String} (hlast : ∀ t ∈ items, t < s) :
    insertItem s items = items ++ [s] := by
  induction items with
  | nil => rfl
  | cons t rest ih =>
      have hlt := hlast t List.mem_cons_self
      have hne : s ≠ t := fun heq => String.lt_irrefl t (heq ▸ hlt)
      rw [insertItem, if_neg hne, if_neg (String.lt_asymm hlt),
        ih fun u hu => hlast u (List.mem_cons_of_mem t hu), List.cons_append]

/-- Texts in ascending order are put one after the other, by induction on those to come. -/
private theorem items_foldl_insert (set : TextSet) {items : List String}
    (hascending : (set.items ++ items).Pairwise (· < ·)) :
    (items.foldl insert set).items = set.items ++ items := by
  induction items generalizing set with
  | nil => rw [List.foldl_nil, List.append_nil]
  | cons s rest ih =>
      have hlast : ∀ t ∈ set.items, t < s := by
        intro t ht
        exact (List.pairwise_append.mp hascending).2.2 t ht s List.mem_cons_self
      have hput : (set.insert s).items = set.items ++ [s] := insertItem_of_last hlast
      have hnext : ((set.insert s).items ++ rest).Pairwise (· < ·) := by
        rwa [hput, List.append_assoc, List.singleton_append]
      rw [List.foldl_cons, ih _ hnext, hput, List.append_assoc, List.singleton_append]

private theorem ofList_items (set : TextSet) : ofList set.items = set :=
  eq_of_items_eq (items_foldl_insert empty set.ascending)

end TextSet

/-! ### Values without signs on zeros -/

def Money.plain (m : Money) : Money := { m with value := m.value.plain }

def Quote.plain (q : Quote) : Quote :=
  { q with
    sourceAmount := q.sourceAmount.plain, targetAmount := q.targetAmount.plain
    exchangeRate := q.exchangeRate.plain, midMarketRate := q.midMarketRate.plain
    fee := q.fee.plain, totalCost := q.totalCost.plain }

def Corridor.plain (c : Corridor) : Corridor :=
  { c with
    feePercentage := c.feePercentage.plain, feeMinimum := c.feeMinimum.plain
    marginPercentage := c.marginPercentage.plain }

namespace Document

private theorem keeps_uuid (u : Uuid) : Keeps u u where
  isPlain := .text u.text
  decode_eq := by
    change (some u.text).bind Uuid.parse? = some u
    rw [Option.bind_some, Uuid.parse?_text]

theorem keeps_list {α : Type} [Document α] {f : α → α} (hkeeps : ∀ a, Keeps a (f a))
    (items : List α) : Keeps items (items.map f) where
  isPlain := by
    refine .array _ ?_
    intro j hj
    obtain ⟨a, -, rfl⟩ := List.mem_map.mp hj
    exact (hkeeps a).isPlain
  decode_eq := by
    change (items.map encode).mapM decode? = some (items.map f)
    induction items with
    | nil => rfl
    | cons a rest ih =>
        rw [List.map_cons, List.mapM_cons, (hkeeps a).decode_eq, ih]
        rfl

private theorem keeps_textSet (set : TextSet) : Keeps set set where
  isPlain := (keeps_list keeps_string set.items).isPlain
  decode_eq := by
    have hitems := (keeps_list keeps_string set.items).decode_eq
    rw [List.map_id'] at hitems
    change (decode? (encode set.items)).map TextSet.ofList = some set
    rw [hitems, Option.map_some, TextSet.ofList_items]

private theorem keeps_money (m : Money) : Keeps m m.plain where
  isPlain := by
    refine .record _ ?_
    intro j hj
    simp only [List.mem_cons, List.not_mem_nil, or_false] at hj
    rcases hj with rfl | rfl
    · exact (keeps_decimal m.value).isPlain
    · exact (keeps_currency m.currency).isPlain
  decode_eq := by
    have hfields : fields? ["value", "currency"] (encode m) =
        some [.present (encode m.value), .present (encode m.currency)] :=
      fields?_record [("value", _), ("currency", _)] (show ["value", "currency"].Nodup by decide)
        fun j hj => hj
    refine (bind_of_eq_some hfields _).trans ?_
    refine (bind_of_eq_some (keeps_decimal m.value).required?_eq _).trans ?_
    exact (bind_of_eq_some (keeps_currency m.currency).required?_eq _).trans rfl

private theorem keeps_exchangeRate (r : ExchangeRate) : Keeps r r.plain where
  isPlain := isPlain_exchangeRate r
  decode_eq := decodeWithin?_exchangeRate r (by decide)

private theorem keeps_quote (q : Quote) : Keeps q q.plain where
  isPlain := by
    refine .record _ ?_
    intro j hj
    simp only [List.mem_cons, List.not_mem_nil, or_false] at hj
    rcases hj with rfl | rfl | rfl | rfl | rfl | rfl | rfl | rfl | rfl | rfl
    · exact (keeps_uuid q.quoteId).isPlain
    · exact (keeps_currency q.sourceCurrency).isPlain
    · exact (keeps_currency q.targetCurrency).isPlain
    · exact (keeps_money q.sourceAmount).isPlain
    · exact (keeps_money q.targetAmount).isPlain
    · exact (keeps_decimal q.exchangeRate).isPlain
    · exact (keeps_decimal q.midMarketRate).isPlain
    · exact (keeps_money q.fee).isPlain
    · exact (keeps_money q.totalCost).isPlain
    · exact (keeps_timestamp q.validUntil).isPlain
  decode_eq := by
    have hfields : fields? Quote.fieldNames (encode q) = _ :=
      fields?_record [("quote_id", encode q.quoteId), ("source_currency", encode q.sourceCurrency),
        ("target_currency", encode q.targetCurrency), ("source_amount", encode q.sourceAmount),
        ("target_amount", encode q.targetAmount), ("exchange_rate", encode q.exchangeRate),
        ("mid_market_rate", encode q.midMarketRate), ("fee", encode q.fee),
        ("total_cost", encode q.totalCost), ("valid_until", encode q.validUntil)]
        (show Quote.fieldNames.Nodup by decide) fun j hj => hj
    refine (bind_of_eq_some hfields _).trans ?_
    refine (bind_of_eq_some (keeps_uuid q.quoteId).required?_eq _).trans ?_
    refine (bind_of_eq_some (keeps_currency q.sourceCurrency).required?_eq _).trans ?_
    refine (bind_of_eq_some (keeps_currency q.targetCurrency).required?_eq _).trans ?_
    refine (bind_of_eq_some (keeps_money q.sourceAmount).required?_eq _).trans ?_
    refine (bind_of_eq_some (keeps_money q.targetAmount).required?_eq _).trans ?_
    refine (bind_of_eq_some (keeps_decimal q.exchangeRate).required?_eq _).trans ?_
    refine (bind_of_eq_some (keeps_decimal q.midMarketRate).required?_eq _).trans ?_
    refine (bind_of_eq_some (keeps_money q.fee).required?_eq _).trans ?_
    refine (bind_of_eq_some (keeps_money q.totalCost).required?_eq _).trans ?_
    exact (bind_of_eq_some (keeps_timestamp q.validUntil).required?_eq _).trans rfl

theorem keeps_corridor (c : Corridor) : Keeps c c.plain where
  isPlain := by
    refine .record _ ?_
    intro j hj
    simp only [List.mem_cons, List.not_mem_nil, or_false] at hj
    rcases hj with rfl | rfl | rfl | rfl | rfl | rfl | rfl
    · exact (keeps_currency c.sourceCurrency).isPlain
    · exact (keeps_currency c.targetCurrency).isPlain
    · exact (keeps_bool c.enabled).isPlain
    · exact (keeps_decimal c.feePercentage).isPlain
    · exact (keeps_money c.feeMinimum).isPlain
    · exact (keeps_decimal c.marginPercentage).isPlain
    · exact (keeps_textSet c.allowedPayoutMethods).isPlain
  decode_eq := by
    have hfields : fields? Corridor.fieldNames (encode c) = _ :=
      fields?_record [("source_currency", encode c.sourceCurrency),
        ("target_currency", encode c.targetCurrency), ("enabled", encode c.enabled),
        ("fee_percentage", encode c.feePercentage), ("fee_minimum", encode c.feeMinimum),
        ("margin_percentage", encode c.marginPercentage),
        ("allowed_payout_methods", encode c.allowedPayoutMethods)]
        (show Corridor.fieldNames.Nodup by decide) fun j hj => hj
    have hmethods : Field.withDefault? TextSet.empty (.present (encode c.allowedPayoutMethods)) =
        some c.allowedPayoutMethods := (keeps_textSet c.allowedPayoutMethods).decode_eq
    refine (bind_of_eq_some hfields _).trans ?_
    refine (bind_of_eq_some (keeps_currency c.sourceCurrency).required?_eq _).trans ?_
    refine (bind_of_eq_some (keeps_currency c.targetCurrency).required?_eq _).trans ?_
    refine (bind_of_eq_some (keeps_bool c.enabled).required?_eq _).trans ?_
    refine (bind_of_eq_some (keeps_decimal c.feePercentage).required?_eq _).trans ?_
    refine (bind_of_eq_some (keeps_money c.feeMinimum).required?_eq _).trans ?_
    refine (bind_of_eq_some (keeps_decimal c.marginPercentage).required?_eq _).trans ?_
    exact (bind_of_eq_some hmethods _).trans rfl

/-! ### All kinds -/

inductive Kind where
  | rate
  | exchangeRate
  | lock
  | quote
  | corridor
  | money
  | pair
  | currency

namespace Kind

abbrev Value : Kind → Type
  | .rate => Rate
  | .exchangeRate => ExchangeRate
  | .lock => LockedRate
  | .quote => Quote
  | .corridor => Corridor
  | .money => Money
  | .pair => CurrencyPair
  | .currency => Currency

instance : (k : Kind) → Document k.Value
  | .rate => inferInstanceAs (Document Rate)
  | .exchangeRate => inferInstanceAs (Document ExchangeRate)
  | .lock => inferInstanceAs (Document LockedRate)
  | .quote => inferInstanceAs (Document Quote)
  | .corridor => inferInstanceAs (Document Corridor)
  | .money => inferInstanceAs (Document Money)
  | .pair => inferInstanceAs (Document CurrencyPair)
  | .currency => inferInstanceAs (Document Currency)

def plain : (k : Kind) → k.Value → k.Value
  | .rate, r => Rate.plain r
  | .exchangeRate, r => ExchangeRate.plain r
  | .lock, l => LockedRate.plain l
  | .quote, q => Quote.plain q
  | .corridor, c => Corridor.plain c
  | .money, m => Money.plain m
  | .pair, p => p
  | .currency, c => c

private def rateDecimals (r : Rate) : List Decimal := [r.mid, r.bid, r.ask, r.spreadPercent]

private def exchangeDecimals (r : ExchangeRate) : List Decimal :=
  rateDecimals r.rate ++ [r.buyRate, r.marginPercent]

def decimals : (k : Kind) → k.Value → List Decimal
  | .rate, r => rateDecimals r
  | .exchangeRate, r => exchangeDecimals r
  | .lock, l => (LockedRate.rate l).elim [] exchangeDecimals
  | .quote, q =>
      [Quote.sourceAmount q, Quote.targetAmount q, Quote.fee q, Quote.totalCost q].map (·.value) ++
        [Quote.exchangeRate q, Quote.midMarketRate q]
  | .corridor, c =>
      [Corridor.feePercentage c, (Corridor.feeMinimum c).value, Corridor.marginPercentage c]
  | .money, m => [Money.value m]
  | .pair, _ => []
  | .currency, _ => []

theorem keeps (k : Kind) (a : k.Value) : Keeps a (k.plain a) := by
  cases k with
  | rate => exact keeps_rate a
  | exchangeRate => exact keeps_exchangeRate a
  | lock => exact keeps_lock a
  | quote => exact keeps_quote a
  | corridor => exact keeps_corridor a
  | money => exact keeps_money a
  | pair => exact keeps_pair a
  | currency => exact keeps_currency a

/-- Of the decimals of a value only zeros lose something, and no more than their sign. -/
theorem decimals_plain (k : Kind) (a : k.Value) :
    k.decimals (k.plain a) = (k.decimals a).map (·.plain) := by
  cases k with
  | lock =>
      obtain ⟨id, rate, lockedAt, expiresAt, expired⟩ := (a : LockedRate)
      cases rate <;> rfl
  | _ => rfl

private theorem rate_plain_eq {r : Rate} (hplain : ∀ x ∈ rateDecimals r, x.plain = x) :
    r.plain = r := by
  simp only [rateDecimals, List.forall_mem_cons] at hplain
  obtain ⟨hmid, hbid, hask, hspread, -⟩ := hplain
  simp only [Rate.plain, hmid, hbid, hask, hspread]

private theorem exchangeRate_plain_eq {r : ExchangeRate}
    (hplain : ∀ x ∈ exchangeDecimals r, x.plain = x) : r.plain = r := by
  obtain ⟨hrate, hmargin⟩ := List.forall_mem_append.mp hplain
  simp only [List.forall_mem_cons] at hmargin
  obtain ⟨hbuy, hpercent, -⟩ := hmargin
  simp only [ExchangeRate.plain, rate_plain_eq hrate, hbuy, hpercent]

private theorem money_plain_eq {m : Money} (hplain : m.value.plain = m.value) : m.plain = m := by
  simp only [Money.plain, hplain]

theorem plain_eq_self (k : Kind) (a : k.Value) (hplain : ∀ x ∈ k.decimals a, x.plain = x) :
    k.plain a = a := by
  cases k with
  | rate => exact rate_plain_eq hplain
  | exchangeRate => exact exchangeRate_plain_eq hplain
  | lock =>
      obtain ⟨id, rate, lockedAt, expiresAt, expired⟩ := (a : LockedRate)
      cases rate with
      | none => rfl
      | some r =>
          have hrate : r.plain = r := exchangeRate_plain_eq hplain
          simp only [plain, LockedRate.plain, Option.map_some, hrate]
  | quote =>
      obtain ⟨hamounts, hrates⟩ := List.forall_mem_append.mp hplain
      simp only [List.map_cons, List.map_nil, List.forall_mem_cons] at hamounts hrates
      obtain ⟨hsource, htarget, hfee, htotal, -⟩ := hamounts
      obtain ⟨hexchange, hmid, -⟩ := hrates
      simp only [plain, Quote.plain, money_plain_eq hsource, money_plain_eq htarget,
        money_plain_eq hfee, money_plain_eq htotal, hexchange, hmid]
  | corridor =>
      simp only [decimals, List.forall_mem_cons] at hplain
      obtain ⟨hfee, hminimum, hmargin, -⟩ := hplain
      simp only [plain, Corridor.plain, hfee, money_plain_eq hminimum, hmargin]
  | money => exact money_plain_eq (hplain _ List.mem_cons_self)
  | pair => rfl
  | currency => rfl

theorem plain_plain (k : Kind) (a : k.Value) : k.plain (k.plain a) = k.plain a := by
  refine k.plain_eq_self (k.plain a) ?_
  intro x hx
  rw [decimals_plain] at hx
  obtain ⟨y, -, rfl⟩ := List.mem_map.mp hx
  exact y.plain_plain

end Kind

end Document

end Bureau
