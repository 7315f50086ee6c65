import Bureau.Proofs.Document.Kinds
import Bureau.Proofs.Serving.Run
import Bureau.Proofs.Time.Instant

/-!
Documents in a store. What is saved while a store has room is found at the same time as it was
saved, and every kind of document reads back from its text.
-/

set_option autoImplicit false

namespace Bureau

open Attempt

private theorem Store.hasRoom_makeRoom {s : Store} {now : Instant}
    (hfree : (s.stats now).live < s.capacity) (key : String) :
    (s.makeRoom key now).hasRoom key = true := by
  unfold makeRoom
  by_cases hfull : s.capacity ≤ s.size ∧ !s.entries.contains key
  · have hpurged : (s.purge now).size < (s.purge now).capacity := hfree
    rw [if_pos hfull, hasRoom, decide_eq_true hpurged, Bool.true_or]
  · rw [if_neg hfull, hasRoom, Bool.or_eq_true, decide_eq_true_eq]
    by_cases hkey : s.entries.contains key = true
    · exact .inr hkey
    · have hsize : ¬ s.capacity ≤ s.size := by
        intro hle
        exact hfull ⟨hle, by rw [Bool.not_eq_true] at hkey; rw [hkey]; rfl⟩
      exact .inl (Nat.lt_of_not_le hsize)

namespace MarketDesk

variable {σ μ α : Type} [Shelf σ] [Document α] (now : Instant)

private theorem inquire_save_of_ok {key : String} {a : α} {ttl : Duration} {f g : RunState σ μ}
    (hset : call now (.set key (Document.write a) ttl) f = (.ok (.ok ()), g)) :
    inquire now (Records.save key a ttl).run f = (.ok (.ok ()), g) := by
  rw [Records.save, inquire_run_liftM_bind, inquire_ask, hset]
  rfl

private theorem inquire_find_of_text {key text : String} {a : α} {f g : RunState σ μ}
    (hget : call now (.get key) f = (.ok (.ok (some text)), g))
    (hread : Document.read? text = some a) :
    inquire now (Records.find key : ExceptT FxError Query (Option α)).run f =
      (.ok (.ok (some a)), g) := by
  rw [Records.find, inquire_run_bind, Records.findText, inquire_run_liftM_bind, inquire_ask, hget]
  simp only [andThen_ok]
  change andThen (.ok (.ok (some text)), g) (orError _) = _
  simp only [andThen_ok, orError_ok, hread]
  rfl

private theorem call_of_answer {f : RunState σ μ} {c : StoreCall} {a : c.Answer} {store : σ}
    (hanswer : (Shelf.answer now c).runOn f.store = (.ok (.ok a), store)) :
    call now c f = (.ok (.ok a), { f with store }) := by
  unfold call
  rw [hanswer]
  rfl

variable {f : RunState Store μ} {ttl : Duration} {expiry : Instant}

private theorem call_set_of_free (hfree : (f.store.stats now).live < f.store.capacity)
    (httl : Duration.zero < ttl) (hexpiry : now.add? ttl = some expiry) (key value : String) :
    call now (.set key value ttl) f =
      (.ok (.ok ()), { f with
        store := (f.store.makeRoom key now).insert key ⟨value, expiry⟩ }) := by
  have hroom := Store.hasRoom_makeRoom hfree key
  have hpositive : ¬ ttl ≤ Duration.zero := Int.not_le.mpr httl
  apply call_of_answer
  change (Store.answer (.ok now) (.set key value ttl)).runOn f.store = _
  simp only [Store.answer, if_neg hpositive]
  change (Store.put key value ttl now).runOn f.store = _
  rw [Store.runOn_put, if_pos hroom, hexpiry]

private theorem call_get_insert {e : Entry} (hlive : e.isLive now = true) (s : Store) (key : String) :
    call now (.get key) { f with store := s.insert key e } =
      (.ok (.ok (some e.value)), { f with store := s.insert key e }) := by
  have hentry : (s.insert key e).entries[key]? = some e := Std.HashMap.getElem?_insert_self
  apply call_of_answer
  change (do return Except.ok (← Store.get key now) : Attempt Store _).runOn (s.insert key e) = _
  rw [runOn_bind, Store.runOn_get, hentry]
  simp only [hlive, if_true]
  rfl

/-- What is saved for some time where there is room is found at the same time, as its document keeps
it. -/
theorem inquire_save_find (hfree : (f.store.stats now).live < f.store.capacity)
    (httl : Duration.zero < ttl) (hexpiry : now.add? ttl = some expiry) {a b : α}
    (hkeeps : Document.Keeps a b) (key : String) :
    ∃ g, inquire now (Records.save key a ttl).run f = (.ok (.ok ()), g) ∧
      inquire now (Records.find key : ExceptT FxError Query (Option α)).run g =
        (.ok (.ok (some b)), g) := by
  have hset := call_set_of_free now hfree httl hexpiry key (Document.write a)
  have hlive : (Entry.mk (Document.write a) expiry).isLive now = true := by
    rw [Entry.isLive_iff]
    rw [Instant.add?_eq_some_iff] at hexpiry
    change now.nanos < expiry.nanos
    change (0 : Int) < ttl.nanos at httl
    omega
  refine ⟨_, inquire_save_of_ok now hset, ?_⟩
  exact inquire_find_of_text now (call_get_insert now hlive _ key) hkeeps.read?_write

private theorem inquire_saveLock_of_ahead {lock : LockedRate} {later : Instant} {g : RunState Store μ}
    (hlock : lock.expiresAt = some ↑later) (hahead : now < later)
    (hsave : inquire now (Records.save (Records.lockKey lock.lockId) lock (later.since now)).run f =
      (.ok (.ok ()), g)) :
    inquire now (Records.saveLock lock).run f = (.ok (.ok ()), g) := by
  have hpositive : ¬ later.since now ≤ Duration.zero := by
    change ¬ later.nanos - now.nanos ≤ 0
    change now.nanos < later.nanos at hahead
    omega
  unfold Records.saveLock
  rw [hlock]
  simp only
  rw [inquire_run_liftM_bind, inquire_now, andThen_ok, Timestamp.since_ofInstant, if_neg hpositive]
  exact hsave

end MarketDesk

open MarketDesk in
/-- Every value reads back from its document as it was: only zeros lose a sign, so that each decimal
keeps its value and the places it is printed with. A text that can be read at all is read as the same
value once it has been written anew. With room in the store, what is saved is found at the same time: a
rate that is saved for some time that ends within the calendar, and a lock that expires later. -/
theorem documents_read_back :
    (∀ (k : Document.Kind) (a : k.Value),
      Document.read? (Document.write a) = some (k.plain a) ∧
      (k.decimals (k.plain a)).map (fun x => (x.coefficient, x.scale)) =
        (k.decimals a).map (fun x => (x.coefficient, x.scale)) ∧
      ((∀ x ∈ k.decimals a, x.isZero = true → x.negative = false) → k.plain a = a)) ∧
    (∀ (k : Document.Kind) (text : String) (a : k.Value), Document.read? text = some a →
      Document.read? (Document.write a) = some (k.plain a) ∧
      Document.read? (Document.write (k.plain a)) = some (k.plain a)) ∧
    ∀ (μ : Type) (f : RunState Store μ) (now : Instant),
      (f.store.stats now).live < f.store.capacity →
      (∀ (rate : Rate) (ttl : Duration), Duration.zero < ttl → (now.add? ttl).isSome →
        ∃ g, inquire now (Records.saveRate rate ttl).run f = (.ok (.ok ()), g) ∧
          inquire now (Records.findRate rate.pair).run g = (.ok (.ok (some rate.plain)), g)) ∧
      (∀ (lock : LockedRate) (later : Instant), lock.expiresAt = some ↑later → now < later →
        ∃ g, inquire now (Records.saveLock lock).run f = (.ok (.ok ()), g) ∧
          inquire now (Records.findLock lock.lockId).run g =
            (.ok (.ok (some lock.plain)), g)) := by
  refine ⟨?_, ?_, ?_⟩
  · intro k a
    refine ⟨(k.keeps a).read?_write, ?_, ?_⟩
    · rw [k.decimals_plain, List.map_map]
      refine List.map_congr_left ?_
      intro x _
      exact Prod.ext x.coefficient_plain x.scale_plain
    · intro hsigns
      exact k.plain_eq_self a fun x hx => Decimal.plain_of_unsigned (hsigns x hx)
  · intro k text a _
    have hagain := (k.keeps (k.plain a)).read?_write
    rw [k.plain_plain] at hagain
    exact ⟨(k.keeps a).read?_write, hagain⟩
  · intro μ f now hfree
    constructor
    · intro rate ttl httl hexpiry
      obtain ⟨expiry, hexpiry⟩ := Option.isSome_iff_exists.mp hexpiry
      exact inquire_save_find now hfree httl hexpiry (Document.keeps_rate rate) _
    · intro lock later hlock hahead
      have httl : Duration.zero < later.since now := by
        change 0 < later.nanos - now.nanos
        change now.nanos < later.nanos at hahead
        omega
      obtain ⟨g, hsave, hfind⟩ := inquire_save_find now hfree httl (Instant.add?_since later now)
        (Document.keeps_lock lock) (Records.lockKey lock.lockId)
      exact ⟨g, inquire_saveLock_of_ahead now hlock hahead hsave, hfind⟩

open MarketDesk in
/-- A rate with a signed zero for its spread loses that sign and nothing else, by itself as well as for
half a minute in an empty store. A code that is written with an escape is written without it. -/
theorem documents_read_back_signed_zero :
    let now : Instant := ⟨0, by decide⟩
    let f : RunState Store Unit := ⟨.empty 1, (), 0, []⟩
    let rate : Rate := ⟨⟨⟨"a"⟩, ⟨"\""⟩⟩, .one, .one, .one, ⟨true, 0, 2, by decide, by decide⟩, "par",
      now, now⟩
    let unsigned : Rate := { rate with spreadPercent := ⟨false, 0, 2, by decide, by decide⟩ }
    Document.read? (Document.write rate) = some unsigned ∧
      Document.read? (Document.write unsigned) = some unsigned ∧
      (Document.read? "\"\\u0041B\"" = some (Currency.mk "AB") ∧
        Document.write (Currency.mk "AB") = "\"AB\"" ∧
        Document.read? (Document.write (Currency.mk "AB")) = some (Currency.mk "AB")) ∧
      ∃ g, inquire now (Records.saveRate rate (Duration.ofMillis 30000)).run f = (.ok (.ok ()), g) ∧
        inquire now (Records.findRate rate.pair).run g = (.ok (.ok (some unsigned)), g) := by
  intro now f rate unsigned
  obtain ⟨hvalues, htexts, hsaved⟩ := documents_read_back
  have hfree : (f.store.stats now).live < f.store.capacity := by
    have hle := Store.size_purge_le f.store now
    have hnone : f.store.size = 0 := Std.HashMap.size_empty
    exact Nat.lt_of_le_of_lt hle (hnone ▸ Nat.one_pos)
  have hescaped : Document.read? "\"\\u0041B\"" = some (Currency.mk "AB") := by decide +kernel
  obtain ⟨hread, -, hsame⟩ := hvalues .rate unsigned
  have hplain : Document.Kind.rate.plain unsigned = unsigned := hsame (by decide)
  rw [hplain] at hread
  exact ⟨(hvalues .rate rate).1, hread,
    ⟨hescaped, by decide +kernel, (htexts .currency _ _ hescaped).1⟩,
    (hsaved Unit f now hfree).1 rate (Duration.ofMillis 30000) (by decide) (by decide)⟩

end Bureau
