import Bureau.Proofs.Decimal.Text
import Bureau.Proofs.Json.RoundTrip
import Bureau.Proofs.Time.Text
import Bureau.Rate.Lock

/-!
Rates and locks read back from their documents as they were written. Only a decimal zero loses its
sign on the way; `plain` is the value without such signs.
-/

set_option autoImplicit false

namespace Bureau

/-! ### Values without signs on zeros -/

def Rate.plain (r : Rate) : Rate :=
  { r with
    mid := r.mid.plain, bid := r.bid.plain, ask := r.ask.plain
    spreadPercent := r.spreadPercent.plain }

def ExchangeRate.plain (r : ExchangeRate) : ExchangeRate :=
  ⟨r.rate.plain, r.buyRate.plain, r.marginPercent.plain⟩

def LockedRate.plain (l : LockedRate) : LockedRate := { l with rate := l.rate.map (·.plain) }

theorem Rate.plain_plain (r : Rate) : r.plain.plain = r.plain := by
  simp only [Rate.plain, Decimal.plain_plain]

theorem ExchangeRate.plain_plain (r : ExchangeRate) : r.plain.plain = r.plain := by
  simp only [ExchangeRate.plain, Rate.plain_plain, Decimal.plain_plain]

theorem LockedRate.plain_plain (l : LockedRate) : l.plain.plain = l.plain := by
  obtain ⟨id, rate, lockedAt, expiresAt, expired⟩ := l
  cases rate with
  | none => rfl
  | some r => simp only [LockedRate.plain, Option.map_some, ExchangeRate.plain_plain]

namespace Document

open Text

/-! ### Fields of records -/

private theorem find_member {members : List (String × Json)}
    (hnodup : (members.map Prod.fst).Nodup) {name : String} {value : Json}
    (hmem : (name, value) ∈ members) :
    member? name (Json.named members) = some (.present value) := by
  induction members with
  | nil => cases hmem
  | cons m rest ih =>
      obtain ⟨key, first⟩ := m
      rw [List.map_cons, List.nodup_cons] at hnodup
      obtain ⟨hfresh, hrest⟩ := hnodup
      rw [Json.named, List.map_cons, member?]
      rcases List.mem_cons.mp hmem with heq | hlater
      · cases heq
        have halone : (Json.named rest).any (fun m => m.1 == some name) = false := by
          rw [List.any_eq_false]
          rintro ⟨other, v⟩ hother
          obtain ⟨⟨other, v⟩, hother, heq⟩ := List.mem_map.mp hother
          cases heq
          intro hsame
          have hsame : other = name := by simpa using hsame
          exact hfresh (hsame ▸ List.mem_map.mpr ⟨_, hother, rfl⟩)
        rw [if_pos rfl, ← Json.named, halone]
        rfl
      · have hne : some key ≠ some name := by
          intro heq
          cases heq
          exact hfresh (List.mem_map.mpr ⟨_, hlater, rfl⟩)
        rw [if_neg hne]
        exact ih hrest hlater

theorem fields?_record {members : List (String × Json)} (asked : List (String × Json))
    (hnodup : (members.map Prod.fst).Nodup) (hasked : ∀ m ∈ asked, m ∈ members) :
    fields? (asked.map Prod.fst) (.record members) = some (asked.map fun m => .present m.2) := by
  have hnamed : (Json.named members).all (fun m => m.1.isSome) = true := by
    simp [Json.named]
  have hfind : (asked.map Prod.fst).mapM (member? · (Json.named members)) =
      some (asked.map fun m => .present m.2) := by
    induction asked with
    | nil => rfl
    | cons m rest ih =>
        obtain ⟨name, value⟩ := m
        have hfirst := find_member hnodup (hasked _ List.mem_cons_self)
        have hrest := ih fun m hm => hasked m (List.mem_cons_of_mem _ hm)
        simp only [List.map_cons, List.mapM_cons, hfirst, hrest]
        rfl
  rw [Json.record, fields?]
  exact (if_pos hnamed).trans hfind

/-! ### Documents that keep a value -/

/-- A value is read from the document of another; what its text says is all of the document. -/
structure Keeps {α : Type} [Document α] (a b : α) : Prop where
  isPlain : (encode a).IsPlain
  decode_eq : decode? (encode a) = some b

theorem Keeps.read?_write {α : Type} [Document α] {a b : α} (h : Keeps a b) :
    read? (write a) = some b := by
  rw [read?, write, Json.parse?_write h.isPlain, Option.bind_some, h.decode_eq]

theorem keeps_string (s : String) : Keeps s s := ⟨.text s, rfl⟩

theorem keeps_bool (b : Bool) : Keeps b b := ⟨.bool b, rfl⟩

theorem keeps_decimal (a : Decimal) : Keeps a a.plain := ⟨.text a.text, Decimal.parse?_text a⟩

theorem keeps_timestamp (t : Timestamp) : Keeps t t where
  isPlain := .text t.text
  decode_eq := by
    change (some t.text).bind Timestamp.parse? = some t
    rw [Option.bind_some, Timestamp.parse?_text]

private theorem keeps_lockId (id : LockId) : Keeps id id := ⟨.text id.text, rfl⟩

theorem keeps_currency (c : Currency) : Keeps c c := ⟨.text c.code, rfl⟩

private theorem isPlain_encodeOption {α : Type} [Document α] (h : ∀ a : α, (encode a).IsPlain)
    (a? : Option α) : (encodeOption a?).IsPlain := by
  cases a? with
  | none => exact .null
  | some a => exact h a

theorem keeps_pair (p : CurrencyPair) : Keeps p p where
  isPlain := by
    refine .record _ ?_
    intro m hm
    simp only [List.mem_cons, List.not_mem_nil, or_false] at hm
    rcases hm with rfl | rfl
    · exact (keeps_currency p.source).isPlain
    · exact (keeps_currency p.target).isPlain
  decode_eq := by
    have hfields : fields? ["source", "target"] (encode p) =
        some [.present (encode p.source), .present (encode p.target)] :=
      fields?_record [("source", _), ("target", _)] (show ["source", "target"].Nodup by decide)
        fun m hm => hm
    have hdecode : ∀ j, fields? ["source", "target"] j =
        some [.present (encode p.source), .present (encode p.target)] → decode? j = some p := by
      intro j hj
      simp only [decode?, hj]
      rfl
    exact hdecode _ hfields

/-! ### Rates -/

theorem Keeps.required?_eq {α : Type} [Document α] {a b : α} (h : Keeps a b) :
    Field.required? (.present (encode a)) = some b :=
  h.decode_eq

private theorem decode?_rate (r : Rate) {members : List (String × Json)}
    (hnodup : (members.map Prod.fst).Nodup) (hmem : ∀ m ∈ r.members, m ∈ members) :
    decode? (.record members) = some r.plain := by
  have hfields : fields? Rate.fieldNames (.record members) = _ := fields?_record _ hnodup hmem
  refine (bind_of_eq_some hfields _).trans ?_
  refine (bind_of_eq_some (keeps_pair r.pair).required?_eq _).trans ?_
  refine (bind_of_eq_some (keeps_decimal r.mid).required?_eq _).trans ?_
  refine (bind_of_eq_some (keeps_decimal r.bid).required?_eq _).trans ?_
  refine (bind_of_eq_some (keeps_decimal r.ask).required?_eq _).trans ?_
  refine (bind_of_eq_some (keeps_decimal r.spreadPercent).required?_eq _).trans ?_
  refine (bind_of_eq_some (keeps_string r.source).required?_eq _).trans ?_
  refine (bind_of_eq_some (keeps_timestamp r.fetchedAt).required?_eq _).trans ?_
  exact (bind_of_eq_some (keeps_timestamp r.validUntil).required?_eq _).trans rfl

private theorem isPlain_rateMembers (r : Rate) : ∀ m ∈ r.members, m.2.IsPlain := by
  intro m hm
  simp only [Rate.members, List.mem_cons, List.not_mem_nil, or_false] at hm
  rcases hm with rfl | rfl | rfl | rfl | rfl | rfl | rfl | rfl
  · exact (keeps_pair r.pair).isPlain
  · exact (keeps_decimal r.mid).isPlain
  · exact (keeps_decimal r.bid).isPlain
  · exact (keeps_decimal r.ask).isPlain
  · exact (keeps_decimal r.spreadPercent).isPlain
  · exact (keeps_string r.source).isPlain
  · exact (keeps_timestamp r.fetchedAt).isPlain
  · exact (keeps_timestamp r.validUntil).isPlain

theorem keeps_rate (r : Rate) : Keeps r r.plain where
  isPlain := .record _ (isPlain_rateMembers r)
  decode_eq := decode?_rate r (show Rate.fieldNames.Nodup by decide) fun _ hm => hm

theorem isPlain_exchangeRate (r : ExchangeRate) : (encode r).IsPlain := by
  refine .record _ ?_
  intro m hm
  rcases List.mem_append.mp hm with hm | hm
  · exact isPlain_rateMembers r.rate m hm
  · simp only [List.mem_cons, List.not_mem_nil, or_false] at hm
    rcases hm with rfl | rfl
    · exact (keeps_decimal r.buyRate).isPlain
    · exact (keeps_decimal r.marginPercent).isPlain

theorem decodeWithin?_exchangeRate (r : ExchangeRate) {room : Nat} (hroom : 2 ≤ room) :
    ExchangeRate.decodeWithin? room (encode r) = some r.plain := by
  obtain ⟨room, rfl⟩ : ∃ n, room = n + 2 := ⟨room - 2, by omega⟩
  have hnodup : (Rate.fieldNames ++ ["buy_rate", "margin_percent"]).Nodup := by decide
  have hrate : decode? (encode r) = some r.rate.plain :=
    decode?_rate r.rate hnodup fun m hm => List.mem_append_left _ hm
  have hfields : fields? ["buy_rate", "margin_percent"] (encode r) =
      some [.present (encode r.buyRate), .present (encode r.marginPercent)] :=
    fields?_record [("buy_rate", _), ("margin_percent", _)] hnodup
      fun m hm => List.mem_append_right _ hm
  have hreadable : (!Json.membersReadable (room + 2) (Json.named (r.rate.members ++
      [("buy_rate", encode r.buyRate), ("margin_percent", encode r.marginPercent)]))) = false := by
    rfl
  refine (bind_of_eq_some hfields _).trans ?_
  refine (if_neg (Bool.eq_false_iff.mp hreadable)).trans ?_
  refine (bind_of_eq_some hrate _).trans ?_
  refine (bind_of_eq_some (keeps_decimal r.buyRate).required?_eq _).trans ?_
  exact (bind_of_eq_some (keeps_decimal r.marginPercent).required?_eq _).trans rfl

private theorem optional?_encodeOption {α : Type} [Document α] {read : Json → Option α} (a? : Option α)
    {f : α → α} (hread : ∀ a, read (encode a) = some (f a)) (hnull : ∀ a : α, encode a ≠ .null) :
    Field.optional? read (.present (encodeOption a?)) = some (a?.map f) := by
  cases a? with
  | none => rfl
  | some a =>
      change Field.optional? read (.present (encode a)) = _
      rw [Field.optional?, hread, Option.map_some, Option.map_some]
      exact hnull a

/-! ### Locks -/

theorem keeps_lock (l : LockedRate) : Keeps l l.plain where
  isPlain := by
    refine .record _ ?_
    intro m hm
    simp only [List.mem_cons, List.not_mem_nil, or_false] at hm
    rcases hm with rfl | rfl | rfl | rfl | rfl
    · exact (keeps_lockId l.lockId).isPlain
    · exact isPlain_encodeOption isPlain_exchangeRate l.rate
    · exact isPlain_encodeOption (fun t => (keeps_timestamp t).isPlain) l.lockedAt
    · exact isPlain_encodeOption (fun t => (keeps_timestamp t).isPlain) l.expiresAt
    · exact (keeps_bool l.expired).isPlain
  decode_eq := by
    have hfields : fields? LockedRate.fieldNames (encode l) =
        some [.present (encode l.lockId), .present (encodeOption l.rate),
          .present (encodeOption l.lockedAt), .present (encodeOption l.expiresAt),
          .present (encode l.expired)] :=
      fields?_record [("lock_id", _), ("rate", _), ("locked_at", _), ("expires_at", _),
        ("expired", _)] (show LockedRate.fieldNames.Nodup by decide) fun m hm => hm
    have hdepth : 2 ≤ ExchangeRate.depthLimit - 1 := by decide
    have hrate := optional?_encodeOption l.rate (fun r => decodeWithin?_exchangeRate r hdepth)
      (fun r => by rintro ⟨⟩)
    have htime : ∀ t? : Option Timestamp, Field.optional? decode? (.present (encodeOption t?)) =
        some t? := by
      intro t?
      have h := optional?_encodeOption t? (f := id)
        (fun t => (keeps_timestamp t).decode_eq) (fun t => by rintro ⟨⟩)
      rwa [Option.map_id] at h
    refine (bind_of_eq_some hfields _).trans ?_
    refine (bind_of_eq_some (keeps_lockId l.lockId).required?_eq _).trans ?_
    refine (bind_of_eq_some hrate _).trans ?_
    refine (bind_of_eq_some (htime l.lockedAt) _).trans ?_
    refine (bind_of_eq_some (htime l.expiresAt) _).trans ?_
    exact (bind_of_eq_some (keeps_bool l.expired).required?_eq _).trans rfl

end Document

end Bureau
