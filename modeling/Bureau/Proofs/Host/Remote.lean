import Bureau.Proofs.Host.Serving
import Bureau.Proofs.Remote.Trouble

/-!
Hosts as desks with a remote store. A host whose store misbehaves, with nothing in the background,
serves a program as the desk does whose remote store is the store of the host; unless it crashes or
waits for an hour.
-/

set_option autoImplicit false

namespace Bureau

open Attempt

/-- What a clock shows at a tick. Nothing is done at a tick at which it cannot be read. -/
def Clock.shown (origin : Int) (tick : Nat) : Instant :=
  match (Clock.mk origin tick).read with
  | .ok now => now
  | .error _ => Instant.first

/-- A faulty store with a clock as a remote store. A request that goes slowly is made only if it gets
there by the limit. -/
def FaultyStore.remote (origin : Int) : Remote FaultyStore where
  respond s tick limit c :=
    match (FaultyStore.begin c (Clock.mk origin tick).read).runOn s with
    | (.ok (.answered reply), s) => (some (0, reply), s)
    | (.ok (.held wait reply), s) => (some (wait, reply), s)
    | (.ok (.asked wait), s) =>
        if tick + wait ≤ limit then
          match (FaultyStore.ask c (Clock.mk origin (tick + wait)).read).runOn s with
          | (.ok reply, s) => (some (wait, reply), s)
          | (.error _, s) => (none, s)
        else (none, s)
    | (.error _, s) => (none, s)

namespace FaultyStore

variable {clock : Clock} {s s' : FaultyStore} {c : StoreCall} {limit wait : Nat}

private theorem respond_answered {reply : c.Reply}
    (h : (begin c clock.read).runOn s = (.ok (.answered reply), s')) :
    (remote clock.origin).respond s clock.ticks limit c = (some (0, reply), s') := by
  simp only [remote]
  rw [h]

private theorem respond_held {reply : c.Reply}
    (h : (begin c clock.read).runOn s = (.ok (.held wait reply), s')) :
    (remote clock.origin).respond s clock.ticks limit c = (some (wait, reply), s') := by
  simp only [remote]
  rw [h]

private theorem respond_asked {reply : c.Reply} {s'' : FaultyStore}
    (h : (begin c clock.read).runOn s = (.ok (.asked wait), s')) (hlimit : clock.ticks + wait ≤ limit)
    (hask : (ask c (clock.setTicks (clock.ticks + wait)).read).runOn s' = (.ok reply, s'')) :
    (remote clock.origin).respond s clock.ticks limit c = (some (wait, reply), s'') := by
  simp only [remote]
  rw [h]
  simp only [if_pos hlimit]
  rw [show Clock.mk clock.origin (clock.ticks + wait) = clock.setTicks (clock.ticks + wait) from rfl,
    hask]

private theorem respond_not_asked (h : (begin c clock.read).runOn s = (.ok (.asked wait), s'))
    (hlimit : limit < clock.ticks + wait) :
    (remote clock.origin).respond s clock.ticks limit c = (none, s') := by
  simp only [remote]
  rw [h]
  simp only [if_neg (Nat.not_le.mpr hlimit)]

end FaultyStore

namespace Office

def runState (o : Office) (ledger : List Note) : RunState (Far FaultyStore) Provider :=
  ⟨⟨o.ticks, o.store⟩, o.provider, o.minted, ledger⟩

def remoteDesk (o : Office) (d : Desk) : RemoteDesk FaultyStore Provider Provider.Order :=
  .ofProvider d (FaultyStore.remote o.clock.origin) (Clock.shown o.clock.origin)

private theorem now_remoteDesk {o : Office} {d : Desk} {now : Instant} {ledger : List Note}
    (hread : o.clock.read = .ok now) : (o.remoteDesk d).now (o.runState ledger) = now := by
  change Clock.shown o.clock.origin o.clock.ticks = now
  unfold Clock.shown
  rw [show Clock.mk o.clock.origin o.clock.ticks = o.clock from rfl, hread]

theorem runOn_begin_eq (c : StoreCall) (o : Office) :
    (begin c).runOn o =
      (((FaultyStore.begin c o.clock.read).runOn o.store).1,
        { o with store := ((FaultyStore.begin c o.clock.read).runOn o.store).2 }) := by
  unfold begin
  rw [runOn_bind_ok (runOn_get o), runOn_onStore]

theorem runOn_ask (c : StoreCall) (o : Office) :
    (ask c).runOn o =
      (((FaultyStore.ask c o.clock.read).runOn o.store).1,
        { o with store := ((FaultyStore.ask c o.clock.read).runOn o.store).2 }) := by
  unfold ask
  rw [runOn_bind_ok (runOn_get o), runOn_onStore]

end Office

/-! ### Prices without a clock -/

namespace Provider

variable {clock : Except Crash Instant} {now : Instant} {p p' : Provider}

/-- A pair that is priced while the clock cannot be read is one that the provider does not deal in,
which it says at any time. -/
theorem runOn_price_of_shown (hnow : ∀ t, clock = .ok t → t = now) {pair : CurrencyPair}
    {reply : Except FxError Rate} (h : (price pair clock).runOn p = (.ok reply, p')) :
    (price pair (.ok now)).runOn p = (.ok reply, p') := by
  cases clock with
  | ok t =>
      rw [← hnow t rfl]
      exact h
  | error c =>
      cases p with
      | simulated m =>
          rw [runOn_price_simulated] at h ⊢
          have hcrash : ∀ route, m.settings.route? pair = some route →
              ((SimulatedMarket.price pair (.error c)).runOn m).1 = .error c := by
            intro route hroute
            unfold SimulatedMarket.price
            rw [runOn_bind_ok (runOn_get _)]
            simp only [hroute]
            rfl
          cases hroute : m.settings.route? pair with
          | some route =>
              rw [hcrash route hroute] at h
              cases h
          | none =>
              have hsame : (SimulatedMarket.price pair (.error c)).runOn m =
                  (SimulatedMarket.price pair (.ok now)).runOn m := by
                unfold SimulatedMarket.price
                rw [runOn_bind_ok (runOn_get _), runOn_bind_ok (runOn_get _)]
                simp only [hroute]
              rw [← hsame]
              exact h
      | scripted m =>
          rw [runOn_price_scripted] at h ⊢
          have hcrash : ∀ set, m.rates[pair]? = some set →
              ((ScriptedMarket.price pair (.error c)).runOn m).1 = .error c := by
            intro set hset
            unfold ScriptedMarket.price
            rw [runOn_bind_ok (runOn_modify _ _), runOn_bind_ok (runOn_get _)]
            simp only [hset]
            rfl
          cases hset : m.rates[pair]? with
          | some set =>
              rw [hcrash set hset] at h
              cases h
          | none =>
              have hsame : (ScriptedMarket.price pair (.error c)).runOn m =
                  (ScriptedMarket.price pair (.ok now)).runOn m := by
                unfold ScriptedMarket.price
                rw [runOn_bind_ok (runOn_modify _ _), runOn_bind_ok (runOn_get _),
                  runOn_bind_ok (runOn_modify _ _), runOn_bind_ok (runOn_get _)]
                simp only [hset]
              rw [← hsame]
              exact h

private theorem runOn_priceEach_of_shown (hnow : ∀ t, clock = .ok t → t = now)
    {pairs : List CurrencyPair} {rates : List Rate}
    (h : (priceEach clock pairs).runOn p = (.ok rates, p')) :
    (priceEach (.ok now) pairs).runOn p = (.ok rates, p') := by
  induction pairs generalizing p rates with
  | nil => exact h
  | cons pair rest ih =>
      unfold priceEach at h ⊢
      rw [runOn_bind] at h ⊢
      rcases hprice : (price pair clock).runOn p with ⟨c | e | rate, q⟩ <;> rw [hprice] at h
      · cases h
      · rw [runOn_price_of_shown hnow hprice]
        exact ih h
      · rw [runOn_price_of_shown hnow hprice]
        simp only at h ⊢
        rw [runOn_bind] at h ⊢
        rcases hrest : (priceEach clock rest).runOn q with ⟨c | others, q'⟩ <;> rw [hrest] at h
        · cases h
        · cases h
          rw [ih hrest]
          rfl

private theorem runOn_priceAll_of_shown (hnow : ∀ t, clock = .ok t → t = now)
    {pairs : List CurrencyPair} {rates : List Rate}
    (h : (priceAll pairs clock).runOn p = (.ok rates, p')) :
    (priceAll pairs (.ok now)).runOn p = (.ok rates, p') := by
  unfold priceAll at h ⊢
  rw [runOn_bind_ok (runOn_modify _ p)] at h ⊢
  exact runOn_priceEach_of_shown hnow h

end Provider

namespace Errand

variable {α β : Type} {host : Host}

private theorem of_run_bind {x : Errand α} {g : α → Errand β} {b : β} {next : Host}
    (h : (x >>= g).run.run host = (.ok b, next)) :
    ∃ a between, x.run.run host = (.ok a, between) ∧ (g a).run.run between = (.ok b, next) := by
  rw [run_bind] at h
  rcases hx : x.run.run host with ⟨e | a, between⟩ <;> rw [hx] at h
  · cases h
  · exact ⟨a, between, rfl, h⟩

private theorem of_run_onOffice (operation : Attempt Office α) {d : Desk} {o : Office} {a : α}
    (h : (onOffice operation).run.run (.quiet d o) = (.ok a, host)) :
    ∃ o', operation.runOn o = (.ok a, o') ∧ host = .quiet d o' := by
  rw [run_onOffice] at h
  change ((operation.runOn o).1.mapError Halt.crash, Host.quiet d (operation.runOn o).2) = _ at h
  rcases hrun : operation.runOn o with ⟨c | a', o'⟩ <;> rw [hrun] at h <;> cases h
  exact ⟨o', rfl, rfl⟩

private theorem of_run_waitUntil {limit tick : Nat} {d : Desk} {o : Office} (hle : o.ticks ≤ tick)
    {u : Unit} (h : (waitUntil limit tick).run.run (.quiet d o) = (.ok u, host)) :
    host = .quiet d (o.setTicks tick) := by
  unfold waitUntil at h
  split at h
  · have hadvance : (Except.ok (ε := Halt) (), (Host.quiet d o).advanceTo tick) = (.ok u, host) := h
    rw [Host.advanceTo_quiet d o hle] at hadvance
    cases hadvance
    rfl
  · cases h

private theorem of_run_waitInTime {limit deadline wait : Nat} {d : Desk} {o : Office} {inTime : Bool}
    (h : (waitInTime limit deadline wait).run.run (.quiet d o) = (.ok inTime, host)) :
    (inTime = true ∧ o.ticks + wait ≤ deadline ∧
        host = .quiet d (o.setTicks (o.ticks + wait))) ∨
      (inTime = false ∧ (deadline ≤ o.ticks ∨ deadline < o.ticks + wait) ∧
        host = .quiet d (o.setTicks (Nat.max o.ticks deadline))) := by
  unfold waitInTime at h
  rw [run_get_bind] at h
  change (if deadline ≤ o.ticks then (pure false : Errand Bool)
    else if o.ticks + wait ≤ deadline then do
      waitUntil limit (o.ticks + wait)
      return true
    else do
      waitUntil limit deadline
      return false).run.run (.quiet d o) = _ at h
  split_ifs at h with hpast htime
  · cases h
    have hmax : Nat.max o.ticks deadline = o.ticks := Nat.max_eq_left hpast
    rw [hmax]
    exact .inr ⟨rfl, .inl hpast, rfl⟩
  · obtain ⟨u, between, hwait, h⟩ := of_run_bind h
    cases h
    exact .inl ⟨rfl, htime, of_run_waitUntil (Nat.le_add_right _ _) hwait⟩
  · obtain ⟨u, between, hwait, h⟩ := of_run_bind h
    cases h
    have hlater : o.ticks ≤ deadline := Nat.le_of_not_le hpast
    have hmax : Nat.max o.ticks deadline = deadline := Nat.max_eq_right hlater
    rw [hmax]
    exact .inr ⟨rfl, .inr (Nat.not_le.mp htime), of_run_waitUntil hlater hwait⟩

private theorem of_run_begin {c : StoreCall} {d : Desk} {o : Office} {course : Course c}
    (h : (onOffice (Office.begin c)).run.run (.quiet d o) = (.ok course, host)) :
    ∃ store, (FaultyStore.begin c o.clock.read).runOn o.store = (.ok course, store) ∧
      host = .quiet d { o with store } := by
  obtain ⟨o', hrun, rfl⟩ := of_run_onOffice _ h
  rw [Office.runOn_begin_eq] at hrun
  rcases hstore : (FaultyStore.begin c o.clock.read).runOn o.store with ⟨outcome, store⟩
  rw [hstore] at hrun
  cases hrun
  exact ⟨store, rfl, rfl⟩

private theorem of_run_ask {c : StoreCall} {d : Desk} {o : Office} {reply : c.Reply}
    (h : (onOffice (Office.ask c)).run.run (.quiet d o) = (.ok reply, host)) :
    ∃ store, (FaultyStore.ask c o.clock.read).runOn o.store = (.ok reply, store) ∧
      host = .quiet d { o with store } := by
  obtain ⟨o', hrun, rfl⟩ := of_run_onOffice _ h
  rw [Office.runOn_ask] at hrun
  rcases hstore : (FaultyStore.ask c o.clock.read).runOn o.store with ⟨outcome, store⟩
  rw [hstore] at hrun
  cases hrun
  exact ⟨store, rfl, rfl⟩

private theorem of_run_call {limit deadline : Nat} {c : StoreCall} {d : Desk} {o : Office}
    {reply : Option c.Reply} (ledger : List Note)
    (h : (call limit deadline c).run.run (.quiet d o) = (.ok reply, host)) :
    ∃ o', host = .quiet d o' ∧ o'.clock.origin = o.clock.origin ∧
      (o.remoteDesk d).call deadline c (o.runState ledger) = (reply, o'.runState ledger) := by
  unfold call at h
  obtain ⟨course, between, hbegin, hcourse⟩ := of_run_bind h
  obtain ⟨store, hstore, rfl⟩ := of_run_begin hbegin
  have hreached : o.ticks ≤ Nat.max o.ticks deadline := Nat.le_max_left _ _
  cases course with
  | answered reply =>
      cases hcourse
      have hcall := (o.remoteDesk d).call_of_in_time (f := o.runState ledger)
        (FaultyStore.respond_answered hstore) hreached
      exact ⟨_, rfl, rfl, hcall⟩
  | held wait reply =>
      by_cases hwait : wait = 0
      · subst hwait
        cases hcourse
        have hcall := (o.remoteDesk d).call_of_in_time (f := o.runState ledger)
          (FaultyStore.respond_held hstore) hreached
        exact ⟨_, rfl, rfl, hcall⟩
      · simp only [if_neg hwait] at hcourse
        obtain ⟨inTime, later, hwaited, hcourse⟩ := of_run_bind hcourse
        rcases of_run_waitInTime hwaited with ⟨rfl, htime, rfl⟩ | ⟨rfl, hlate, rfl⟩ <;>
          cases hcourse
        · have hcall := (o.remoteDesk d).call_of_in_time (f := o.runState ledger)
            (FaultyStore.respond_held hstore) (Nat.le_trans htime (Nat.le_max_right _ _))
          exact ⟨_, rfl, rfl, hcall⟩
        · change deadline ≤ o.ticks ∨ deadline < o.ticks + wait at hlate
          have hpast : Nat.max o.ticks deadline < o.ticks + wait :=
            Nat.max_lt.mpr ⟨by omega, by omega⟩
          have hcall := (o.remoteDesk d).call_of_late (f := o.runState ledger)
            (FaultyStore.respond_held hstore) hpast
          exact ⟨_, rfl, rfl, hcall⟩
  | asked wait =>
      by_cases hwait : wait = 0
      · subst hwait
        simp only [if_true] at hcourse
        obtain ⟨reply, later, hasked, hcourse⟩ := of_run_bind hcourse
        obtain ⟨store', hask, rfl⟩ := of_run_ask hasked
        cases hcourse
        have hcall := (o.remoteDesk d).call_of_in_time (f := o.runState ledger)
          (FaultyStore.respond_asked hstore hreached hask) hreached
        exact ⟨_, rfl, rfl, hcall⟩
      · simp only [if_neg hwait] at hcourse
        obtain ⟨inTime, later, hwaited, hcourse⟩ := of_run_bind hcourse
        rcases of_run_waitInTime hwaited with ⟨rfl, htime, rfl⟩ | ⟨rfl, hlate, rfl⟩
        · simp only [if_true] at hcourse
          obtain ⟨reply, last, hasked, hcourse⟩ := of_run_bind hcourse
          obtain ⟨store', hask, rfl⟩ := of_run_ask hasked
          cases hcourse
          have hlimit := Nat.le_trans htime (Nat.le_max_right o.ticks deadline)
          have hcall := (o.remoteDesk d).call_of_in_time (f := o.runState ledger)
            (FaultyStore.respond_asked hstore hlimit hask) hlimit
          exact ⟨_, rfl, rfl, hcall⟩
        · cases hcourse
          change deadline ≤ o.ticks ∨ deadline < o.ticks + wait at hlate
          have hpast : Nat.max o.ticks deadline < o.ticks + wait :=
            Nat.max_lt.mpr ⟨by omega, by omega⟩
          have hcall := (o.remoteDesk d).call_of_silence (f := o.runState ledger)
            (FaultyStore.respond_not_asked hstore hpast)
          exact ⟨_, rfl, rfl, hcall⟩

/-- What a quiet host answers, its desk with a remote store answers, by induction on the steps of the
program. -/
private theorem of_run_program {limit : Nat} {d : Desk} {p : Program α} {o : Office} {a : α}
    (ledger : List Note) (h : (p.run (handler limit)).run.run (.quiet d o) = (.ok a, host)) :
    ∃ o' ledger', host = .quiet d o' ∧ o'.clock.origin = o.clock.origin ∧
      (o.remoteDesk d).serve p (o.runState ledger) = (.ok a, o'.runState ledger') := by
  have hshown : ∀ (o : Office) (ledger : List Note) t, o.clock.read = .ok t →
      t = (o.remoteDesk d).now (o.runState ledger) :=
    fun o ledger t hread => (Office.now_remoteDesk hread).symm
  induction p generalizing o ledger with
  | done b =>
      cases h
      exact ⟨o, ledger, rfl, rfl, rfl⟩
  | crash c => cases h
  | clock k ih =>
      obtain ⟨now, between, hclock, hrest⟩ := of_run_bind h
      obtain ⟨o₁, hrun, rfl⟩ := of_run_onOffice Office.readClock hclock
      have hread : (o.clock.read, o) = (.ok now, o₁) := hrun
      obtain ⟨hnow, rfl⟩ := Prod.mk.inj hread
      rw [RemoteDesk.serve_clock, ← hshown o ledger now hnow]
      exact ih now ledger hrest
  | deadline wait k ih =>
      obtain ⟨tick, between, hdeadline, hrest⟩ := of_run_bind h
      obtain ⟨o₁, hrun, rfl⟩ := of_run_onOffice (Office.deadline wait) hdeadline
      cases hrun
      exact ih _ ledger hrest
  | call tick c k ih =>
      obtain ⟨reply, between, hcall, hrest⟩ := of_run_bind h
      obtain ⟨o₁, rfl, horigin, hcall⟩ := of_run_call ledger hcall
      obtain ⟨o', ledger', rfl, horigin', hserve⟩ := ih reply ledger hrest
      refine ⟨o', ledger', rfl, horigin'.trans horigin, ?_⟩
      have hsame : o₁.remoteDesk d = o.remoteDesk d := by
        unfold Office.remoteDesk
        rw [horigin]
      rw [RemoteDesk.serve_call, hcall, ← hsame]
      exact hserve
  | price pair k ih =>
      obtain ⟨reply, between, hprice, hrest⟩ := of_run_bind h
      obtain ⟨o₁, hrun, rfl⟩ := of_run_onOffice (Office.price pair) hprice
      rw [Office.runOn_price] at hrun
      rcases hpriced : (Provider.price pair o.clock.read).runOn o.provider with ⟨outcome, provider⟩
      rw [hpriced] at hrun
      cases hrun
      have hask : (o.remoteDesk d).marketDesk.ask _ pair (o.runState ledger) = (.ok reply, _) :=
        MarketDesk.ask_of_ok (Provider.runOn_price_of_shown (hshown o ledger) hpriced)
      rw [RemoteDesk.serve_price, hask, andThen_ok]
      exact ih (o := { o with provider }) reply _ hrest
  | priceAll pairs k ih =>
      obtain ⟨rates, between, hprice, hrest⟩ := of_run_bind h
      obtain ⟨o₁, hrun, rfl⟩ := of_run_onOffice (Office.priceAll pairs) hprice
      rw [Office.runOn_priceAll] at hrun
      rcases hpriced : (Provider.priceAll pairs o.clock.read).runOn o.provider with
        ⟨outcome, provider⟩
      rw [hpriced] at hrun
      cases hrun
      have hask : (o.remoteDesk d).marketDesk.askAll _ pairs (o.runState ledger) = (.ok rates, _) :=
        MarketDesk.askAll_of_ok (Provider.runOn_priceAll_of_shown (hshown o ledger) hpriced)
      rw [RemoteDesk.serve_priceAll, hask, andThen_ok]
      exact ih (o := { o with provider }) rates _ hrest
  | mint k ih =>
      obtain ⟨id, between, hmint, hrest⟩ := of_run_bind h
      obtain ⟨o₁, hrun, rfl⟩ := of_run_onOffice Office.mint hmint
      cases hrun
      exact ih _ ledger hrest

end Errand

namespace Host

variable {d : Desk} {o : Office} {host : Host}

/-- What a quiet host answers, its desk with a remote store answers, and the host stays quiet. -/
theorem of_runOn_serve {α : Type} {p : Program α} {a : α} (ledger : List Note)
    (h : (Errand.serve p).runOn (quiet d o) = (.ok a, host)) :
    ∃ o' ledger', host = quiet d o' ∧
      (o.remoteDesk d).serve p (o.runState ledger) = (.ok a, o'.runState ledger') := by
  unfold Errand.runOn at h
  rcases hrun : (Errand.serve p).run.run (quiet d o) with ⟨outcome, next⟩
  rw [hrun] at h
  obtain ⟨rfl, rfl⟩ := Prod.mk.inj h
  unfold Errand.serve at hrun
  rw [Errand.run_get_bind] at hrun
  obtain ⟨o', ledger', rfl, -, hserve⟩ := Errand.of_run_program ledger hrun
  exact ⟨o', ledger', settle_of_ready_nil rfl, hserve⟩

theorem eq_unsupportedPair_of_rate (hvalid : d.IsValid) {pair : CurrencyPair} {e : FxError}
    (h : (Errand.serve (d.rate pair).run).runOn (quiet d o) = (.ok (.error e), host)) :
    e = .unsupportedPair pair := by
  obtain ⟨o', ledger', -, hserve⟩ := of_runOn_serve [] h
  exact RemoteDesk.eq_unsupportedPair_of_serve_rate (o := o.remoteDesk d) rfl hvalid hserve

end Host

end Bureau
