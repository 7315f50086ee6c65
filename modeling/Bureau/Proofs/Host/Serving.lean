import Bureau.Host.Basic
import Bureau.Proofs.Serving.Run
import Bureau.Proofs.Provider.Market
import Bureau.Proofs.Time.Clock

/-!
Hosts as desks with their markets. A host whose store has no faults serves a program as they do, at the
time that its clock shows; with nothing in the background this goes for one request after the other.
-/

set_option autoImplicit false

namespace Bureau

open Attempt

def MarketDesk.byClock (d : Desk) (clock : Clock) : MarketDesk Provider Provider.Order :=
  ⟨d, Provider.market, Uuid.numbered, clock.origin⟩

theorem MarketDesk.tick_byClock (d : Desk) {clock : Clock} {now : Instant}
    (hread : clock.read = .ok now) : (byClock d clock).tick now = clock.ticks := by
  have hnanos : now.nanos = clock.origin + clock.ticks * 1000000 := Clock.nanos_of_read hread
  change ((now.nanos - clock.origin) / 1000000).toNat = clock.ticks
  omega

/-- What an office without faults holds is what the state of a run holds. -/
structure Office.Stands (o : Office) (clock : Clock) (f : RunState Store Provider) : Prop where
  clock_eq : o.clock = clock
  faults_eq : o.store.faults = .const .none
  store_eq : o.store.store = f.store
  provider_eq : o.provider = f.market
  minted_eq : o.minted = f.minted

/-! ### Operations on the office -/

private theorem PerKind.of_const {α : Type} (a : α) (kind : CallKind) :
    (PerKind.const a).of kind = a := by
  cases kind <;> rfl

theorem FaultyStore.runOn_ask (c : StoreCall) (clock : Except Crash Instant) (s : FaultyStore) :
    (ask c clock).runOn s =
      (((Store.answer clock c).runOn s.store).1,
        { s with store := ((Store.answer clock c).runOn s.store).2 }) := by
  obtain ⟨store, faults, calls⟩ := s
  rfl

theorem FaultyStore.runOn_begin {s : FaultyStore} (hfaults : s.faults = .const .none)
    (c : StoreCall) (clock : Except Crash Instant) :
    (begin c clock).runOn s =
      (((Store.answer clock c).runOn s.store).1.map .answered,
        ⟨((Store.answer clock c).runOn s.store).2, s.faults, s.calls.update c.kind (· + 1)⟩) := by
  have hnone : s.faults.of c.kind = .none := by rw [hfaults, PerKind.of_const]
  unfold begin
  rw [runOn_bind_ok (runOn_modify _ _), runOn_bind_ok (runOn_get _)]
  simp only [hnone]
  rw [runOn_bind, runOn_ask]
  rcases (Store.answer clock c).runOn s.store with ⟨e | reply, store⟩ <;> rfl

theorem Office.runOn_onStore {α : Type} (operation : Attempt FaultyStore α) (o : Office) :
    (onStore operation).runOn o =
      ((operation.runOn o.store).1, { o with store := (operation.runOn o.store).2 }) := by
  obtain ⟨clock, store, provider, minted⟩ := o
  rfl

private theorem Office.runOn_onProvider {α : Type} (operation : Attempt Provider α) (o : Office) :
    (onProvider operation).runOn o =
      ((operation.runOn o.provider).1, { o with provider := (operation.runOn o.provider).2 }) := by
  obtain ⟨clock, store, provider, minted⟩ := o
  rfl

theorem Office.runOn_begin {o : Office} (hfaults : o.store.faults = .const .none) (c : StoreCall) :
    (begin c).runOn o =
      (((Store.answer o.clock.read c).runOn o.store.store).1.map .answered,
        { o with store :=
          ⟨((Store.answer o.clock.read c).runOn o.store.store).2, o.store.faults,
            o.store.calls.update c.kind (· + 1)⟩ }) := by
  unfold begin
  rw [runOn_bind_ok (runOn_get o), runOn_onStore, FaultyStore.runOn_begin hfaults]

theorem Office.runOn_price (pair : CurrencyPair) (o : Office) :
    (price pair).runOn o =
      (((Provider.price pair o.clock.read).runOn o.provider).1,
        { o with provider := ((Provider.price pair o.clock.read).runOn o.provider).2 }) := by
  unfold price
  rw [runOn_bind_ok (runOn_get o), runOn_onProvider]

theorem Office.runOn_priceAll (pairs : List CurrencyPair) (o : Office) :
    (priceAll pairs).runOn o =
      (((Provider.priceAll pairs o.clock.read).runOn o.provider).1,
        { o with provider := ((Provider.priceAll pairs o.clock.read).runOn o.provider).2 }) := by
  unfold priceAll
  rw [runOn_bind_ok (runOn_get o), runOn_onProvider]

/-! ### Errands -/

namespace Errand

variable {α β : Type}

theorem run_bind (x : Errand α) (g : α → Errand β) (host : Host) :
    (x >>= g).run.run host =
      match x.run.run host with
      | (.ok a, next) => (g a).run.run next
      | (.error e, next) => (.error e, next) := by
  simp only [ExceptT.run_bind, StateT.run_bind]
  rcases StateT.run (ExceptT.run x) host with ⟨e | a, next⟩ <;> rfl

theorem run_get_bind (g : Host → Errand α) (host : Host) :
    (get >>= g).run.run host = (g host).run.run host := rfl

theorem run_onOffice (operation : Attempt Office α) (host : Host) :
    (onOffice operation).run.run host =
      ((operation.runOn host.office).1.mapError .crash,
        { host with office := (operation.runOn host.office).2 }) := by
  obtain ⟨desk, office, feeds, crew, agenda, ready, journal⟩ := host
  unfold onOffice
  rw [run_get_bind]
  rcases hrun : operation.runOn office with ⟨c | a, next⟩ <;> simp only [hrun] <;> rfl

/-- What an errand does to a host is what was done to a state: they have the same outcome, nothing
but the office of the host has changed, and it holds what the state does. -/
structure Follows (x : Except Halt α × Host) (y : Except Crash α × RunState Store Provider)
    (host : Host) (clock : Clock) : Prop where
  outcome_eq : x.1 = y.1.mapError .crash
  host_eq : x.2 = { host with office := x.2.office }
  stands : x.2.office.Stands clock y.2

variable {host : Host} {clock : Clock} {now : Instant} {f : RunState Store Provider} {limit : Nat}

theorem Follows.bind {x : Errand α} {y : Except Crash α × RunState Store Provider}
    (hxy : Follows (x.run.run host) y host clock) {g : α → Errand β}
    {next : α → RunState Store Provider → Except Crash β × RunState Store Provider}
    (hnext : ∀ a (host' : Host) f', host'.office.Stands clock f' →
      Follows ((g a).run.run host') (next a f') host' clock) :
    Follows ((x >>= g).run.run host) (andThen y next) host clock := by
  rw [run_bind]
  rcases hrun : x.run.run host with ⟨outcome, host'⟩
  rw [hrun] at hxy
  obtain ⟨houtcome, hhost, hstands⟩ := hxy
  obtain ⟨c | a, f'⟩ := y <;> cases houtcome
  · exact ⟨rfl, hhost, hstands⟩
  · obtain ⟨houtcome', hhost', hstands'⟩ := hnext a host' f' hstands
    have hlast := congrArg
      (fun h : Host => { h with office := ((g a).run.run host').2.office }) hhost
    exact ⟨houtcome', hhost'.trans hlast, hstands'⟩

private theorem follows_onOffice {operation : Attempt Office α}
    {y : Except Crash α × RunState Store Provider} (houtcome : (operation.runOn host.office).1 = y.1)
    (hstands : (operation.runOn host.office).2.Stands clock y.2) :
    Follows ((onOffice operation).run.run host) y host clock := by
  rw [run_onOffice]
  exact ⟨congrArg (Except.mapError Halt.crash) houtcome, rfl, hstands⟩

private theorem follows_readClock (hread : clock.read = .ok now)
    (hstands : host.office.Stands clock f) :
    Follows ((onOffice Office.readClock).run.run host) (.ok now, f) host clock := by
  refine follows_onOffice ?_ ?_
  · change host.office.clock.read = .ok now
    rw [hstands.clock_eq, hread]
  · exact hstands

private theorem follows_call (hread : clock.read = .ok now) (hstands : host.office.Stands clock f)
    (tick : Nat) (c : StoreCall) :
    Follows ((call limit tick c).run.run host)
      (andThen (MarketDesk.call now c f) fun reply g => (.ok (some reply), g)) host clock := by
  have hcall : MarketDesk.call now c f = (((Store.answer (.ok now) c).runOn f.store).1,
      { f with
        store := ((Store.answer (.ok now) c).runOn f.store).2
        ledger := MarketDesk.noteReply ((Store.answer (.ok now) c).runOn f.store).1 f.ledger }) := rfl
  have hbegin := Office.runOn_begin hstands.faults_eq c
  rw [hstands.store_eq, hstands.clock_eq, hread] at hbegin
  unfold call
  rw [run_bind, run_onOffice, hbegin, hcall]
  rcases (Store.answer (.ok now) c).runOn f.store with ⟨e | reply, store⟩ <;>
    exact ⟨rfl, rfl, ⟨rfl, hstands.faults_eq, rfl, hstands.provider_eq, hstands.minted_eq⟩⟩

private theorem follows_price (d : Desk) (hread : clock.read = .ok now)
    (hstands : host.office.Stands clock f) (pair : CurrencyPair) :
    Follows ((onOffice (Office.price pair)).run.run host)
      ((MarketDesk.byClock d clock).ask now pair f) host clock := by
  have hprice : (MarketDesk.byClock d clock).market.price pair now = Provider.price pair (.ok now) := rfl
  unfold MarketDesk.ask
  rw [hprice, run_onOffice, Office.runOn_price, hstands.clock_eq, hread, hstands.provider_eq]
  rcases (Provider.price pair (.ok now)).runOn f.market with ⟨c | reply, market⟩ <;>
    exact ⟨rfl, rfl, ⟨rfl, hstands.faults_eq, hstands.store_eq, rfl, hstands.minted_eq⟩⟩

private theorem follows_priceAll (d : Desk) (hread : clock.read = .ok now)
    (hstands : host.office.Stands clock f) (pairs : List CurrencyPair) :
    Follows ((onOffice (Office.priceAll pairs)).run.run host)
      ((MarketDesk.byClock d clock).askAll now pairs f) host clock := by
  have hprices : (MarketDesk.byClock d clock).market.priceAll pairs now =
      Provider.priceAll pairs (.ok now) := rfl
  unfold MarketDesk.askAll
  rw [hprices, run_onOffice, Office.runOn_priceAll, hstands.clock_eq, hread, hstands.provider_eq]
  rcases (Provider.priceAll pairs (.ok now)).runOn f.market with ⟨c | rates, market⟩ <;>
    exact ⟨rfl, rfl, ⟨rfl, hstands.faults_eq, hstands.store_eq, rfl, hstands.minted_eq⟩⟩

private theorem follows_mint (d : Desk) (hstands : host.office.Stands clock f) :
    Follows ((onOffice Office.mint).run.run host) ((MarketDesk.byClock d clock).mint f) host clock := by
  refine follows_onOffice ?_ ?_
  · exact congrArg (fun n => Except.ok (Uuid.numbered n)) hstands.minted_eq
  · exact ⟨hstands.clock_eq, hstands.faults_eq, hstands.store_eq, hstands.provider_eq,
      congrArg (· + 1) hstands.minted_eq⟩

private theorem follows_deadline (d : Desk) (hread : clock.read = .ok now)
    (hstands : host.office.Stands clock f) (wait : Nat) :
    Follows ((onOffice (Office.deadline wait)).run.run host)
      (.ok ((MarketDesk.byClock d clock).tick now + wait), f) host clock := by
  rw [MarketDesk.tick_byClock d hread]
  refine follows_onOffice ?_ hstands
  exact congrArg (fun c : Clock => Except.ok (c.ticks + wait)) hstands.clock_eq

/-- A host serves a program as a desk with its market does, by induction on its steps. -/
private theorem follows_program (d : Desk) (hread : clock.read = .ok now) (p : Program α)
    (hstands : host.office.Stands clock f) :
    Follows ((p.run (handler limit)).run.run host) ((MarketDesk.byClock d clock).serve now p f) host
      clock := by
  induction p generalizing host f with
  | done a => exact ⟨rfl, rfl, hstands⟩
  | crash c => exact ⟨rfl, rfl, hstands⟩
  | clock k ih =>
      exact (follows_readClock hread hstands).bind fun time _ _ hnext => ih time hnext
  | deadline wait k ih =>
      exact (follows_deadline d hread hstands wait).bind fun tick _ _ hnext => ih tick hnext
  | call tick c k ih =>
      have hreply : Follows ((call limit tick c).run.run host) _ host clock :=
        follows_call hread hstands tick c
      have hcall := hreply.bind (g := fun reply => (k reply).run (handler limit))
        fun reply _ _ hnext => ih reply hnext
      rw [andThen_andThen] at hcall
      rw [MarketDesk.serve_call]
      exact hcall
  | price pair k ih =>
      rw [MarketDesk.serve_price]
      exact (follows_price d hread hstands pair).bind fun reply _ _ hnext => ih reply hnext
  | priceAll pairs k ih =>
      rw [MarketDesk.serve_priceAll]
      exact (follows_priceAll d hread hstands pairs).bind fun rates _ _ hnext => ih rates hnext
  | mint k ih =>
      rw [MarketDesk.serve_mint]
      exact (follows_mint d hstands).bind fun id _ _ hnext => ih id hnext

def take (now : Instant) : Move Provider.Order → Errand (Except FxError Answer)
  | .request r => do serve (r.task (← get).desk).run
  | .purge => do
      modify (·.mapStore (·.purge now))
      return .ok .done
  | .order o => do
      onOffice (Office.onProvider (Provider.obey now o))
      return .ok .done

private theorem follows_take (hread : clock.read = .ok now) (m : Move Provider.Order)
    (hstands : host.office.Stands clock f) :
    Follows ((take now m).run.run host) ((MarketDesk.byClock host.desk clock).step ⟨now, m⟩ f) host
      clock := by
  cases m with
  | request r =>
      unfold take serve
      rw [run_get_bind, run_get_bind]
      exact follows_program host.desk hread _ hstands
  | purge =>
      have hpurge : (take now .purge).run.run host =
          (.ok (.ok .done), host.mapStore (·.purge now)) := rfl
      rw [hpurge]
      exact ⟨rfl, rfl, hstands.clock_eq, hstands.faults_eq,
        congrArg (Store.purge · now) hstands.store_eq, hstands.provider_eq, hstands.minted_eq⟩
  | order o =>
      have hobey : (Provider.market.order o now) = Provider.obey now o := rfl
      unfold take MarketDesk.step MarketDesk.byClock
      simp only [hobey]
      rw [run_bind, run_onOffice, Office.runOn_onProvider, hstands.provider_eq]
      rcases (Provider.obey now o).runOn f.market with ⟨c | u, market⟩ <;>
        exact ⟨rfl, rfl, ⟨hstands.clock_eq, hstands.faults_eq, hstands.store_eq, rfl,
          hstands.minted_eq⟩⟩

end Errand

/-! ### Quiet hosts -/

namespace Host

variable {d : Desk} {o : Office} {clock : Clock} {f : RunState Store Provider}

theorem settle_of_ready_nil {host : Host} (hready : host.ready = []) : host.settle = host := by
  unfold settle
  cases host.turns with
  | zero => rfl
  | succ turns =>
      unfold performReady
      rw [hready]

theorem advanceTo_quiet (d : Desk) (o : Office) {tick : Nat} (hle : o.ticks ≤ tick) :
    (quiet d o).advanceTo tick = quiet d (o.setTicks tick) := by
  unfold advanceTo
  split
  · rename_i hreached
    have htick : tick = o.ticks := Nat.le_antisymm hreached hle
    rw [htick]
    rfl
  · unfold advanceUntil
    rw [settle_of_ready_nil rfl]
    rfl

/-- Serves visits, each at its time: what comes of them, and the host afterwards. -/
def attend : List (Visit Provider.Order) → Host →
    List (Except Halt (Except FxError Answer)) × Host
  | [], host => ([], host)
  | v :: rest, host =>
      let tick := (MarketDesk.byClock host.desk host.office.clock).tick v.time
      let (outcome, host) := (Errand.take v.time v.move).runOn (host.advanceTo tick)
      let (outcomes, host) := attend rest host
      (outcome :: outcomes, host)

private theorem attend_cons (v : Visit Provider.Order) (rest : List (Visit Provider.Order))
    (host : Host) :
    attend (v :: rest) host =
      let served := (Errand.take v.time v.move).runOn
        (host.advanceTo ((MarketDesk.byClock host.desk host.office.clock).tick v.time))
      (served.1 :: (attend rest served.2).1, (attend rest served.2).2) := rfl

private theorem stands_setTicks (hstands : o.Stands clock f) (tick : Nat) :
    (o.setTicks tick).Stands (clock.setTicks tick) f :=
  { hstands with clock_eq := congrArg (·.setTicks tick) hstands.clock_eq }

private theorem runOn_quiet {α : Type} {x : Errand α} {y : Except Crash α × RunState Store Provider}
    (hxy : Errand.Follows (x.run.run (quiet d o)) y (quiet d o) clock) :
    ∃ o', x.runOn (quiet d o) = (y.1.mapError .crash, quiet d o') ∧ o'.Stands clock y.2 := by
  rcases hrun : x.run.run (quiet d o) with ⟨outcome, host⟩
  rw [hrun] at hxy
  obtain ⟨houtcome, hhost, hstands⟩ := hxy
  have hquiet : host = quiet d host.office := hhost
  have hready : host.ready = [] := congrArg (·.ready) hquiet
  refine ⟨host.office, ?_, hstands⟩
  unfold Errand.runOn
  rw [hrun]
  exact Prod.ext houtcome ((settle_of_ready_nil hready).trans hquiet)

private theorem take_quiet (d : Desk) {now : Instant} (hread : clock.read = .ok now)
    (m : Move Provider.Order) (hstands : o.Stands clock f) :
    ∃ o', (Errand.take now m).runOn (quiet d o) =
        (((MarketDesk.byClock d clock).step ⟨now, m⟩ f).1.mapError .crash, quiet d o') ∧
      o'.Stands clock ((MarketDesk.byClock d clock).step ⟨now, m⟩ f).2 := by
  have hstands' : (quiet d o).office.Stands clock f := hstands
  exact runOn_quiet (Errand.follows_take hread m hstands')

/-- A quiet host attends to visits as a desk with its market does, by induction on the visits. -/
private theorem attend_quiet {visits : List (Visit Provider.Order)} (hstands : o.Stands clock f)
    (hread : ∀ v ∈ visits,
      (clock.setTicks ((MarketDesk.byClock d clock).tick v.time)).read = .ok v.time)
    (hstart : ∀ v ∈ visits, clock.ticks ≤ (MarketDesk.byClock d clock).tick v.time)
    (horder : Instant.Ascending (timesOf visits)) :
    ∃ o' later, attend visits (quiet d o) =
        (((MarketDesk.byClock d clock).run visits f).1.map (·.outcome.mapError .crash), quiet d o') ∧
      o'.Stands later ((MarketDesk.byClock d clock).run visits f).2 := by
  induction visits generalizing o clock f with
  | nil => exact ⟨o, clock, rfl, hstands⟩
  | cons v rest ih =>
      obtain ⟨hrest, hsorted⟩ := List.pairwise_cons.mp horder
      rw [List.forall_mem_map] at hrest
      have hticks : o.ticks = clock.ticks := congrArg Clock.ticks hstands.clock_eq
      have hadvance := advanceTo_quiet d o (hticks.le.trans (hstart v List.mem_cons_self))
      have hnow := stands_setTicks hstands ((MarketDesk.byClock d clock).tick v.time)
      obtain ⟨o', htake, hstands'⟩ := take_quiet d (hread v List.mem_cons_self) v.move hnow
      have hlater : ∀ w ∈ rest, (MarketDesk.byClock d clock).tick v.time ≤
          (MarketDesk.byClock d clock).tick w.time := by
        intro w hw
        have hle : v.time.nanos ≤ w.time.nanos := hrest w hw
        change ((v.time.nanos - clock.origin) / 1000000).toNat ≤
          ((w.time.nanos - clock.origin) / 1000000).toNat
        omega
      obtain ⟨o'', later, hattend, hlast⟩ := ih hstands'
        (fun w hw => hread w (List.mem_cons_of_mem v hw)) hlater hsorted
      have hserved : (Errand.take v.time v.move).runOn ((quiet d o).advanceTo
          ((MarketDesk.byClock (quiet d o).desk (quiet d o).office.clock).tick v.time)) =
            (((MarketDesk.byClock d clock).step v f).1.mapError .crash, quiet d o') := by
        change (Errand.take v.time v.move).runOn ((quiet d o).advanceTo
          ((MarketDesk.byClock d o.clock).tick v.time)) = _
        rw [hstands.clock_eq, hadvance, htake]
        rfl
      refine ⟨o'', later, ?_, hlast⟩
      rw [attend_cons, hserved]
      simp only [hattend]
      rfl

/-- A host with an empty store attends to visits as they go from an opening state. -/
theorem attend_opening (d : Desk) (clock : Clock) (capacity : Nat) (p : Provider)
    {visits : List (Visit Provider.Order)}
    (hread : ∀ v ∈ visits,
      (clock.setTicks ((MarketDesk.byClock d clock).tick v.time)).read = .ok v.time)
    (hstart : ∀ v ∈ visits, clock.ticks ≤ (MarketDesk.byClock d clock).tick v.time)
    (horder : Instant.Ascending (timesOf visits)) :
    (attend visits (quiet d ⟨clock, .sound (.empty capacity), p, 0⟩)).1 =
      ((MarketDesk.byClock d clock).run visits (RunState.opening (Store.empty capacity) p)).1.map
        (·.outcome.mapError .crash) := by
  have hstands : Office.Stands ⟨clock, .sound (.empty capacity), p, 0⟩ clock
      (RunState.opening (Store.empty capacity) p) := ⟨rfl, rfl, rfl, rfl, rfl⟩
  obtain ⟨o, later, hattend, -⟩ := attend_quiet (d := d) hstands hread hstart horder
  rw [hattend]

end Host

end Bureau
