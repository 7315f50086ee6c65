import Bureau.Office.Background
import Bureau.Proofs.Host.Serving

/-!
Background programs as they are served. In an office whose store has no faults a program does not
sleep: it comes to its end at once, as a desk with its market serves it.
-/

set_option autoImplicit false

namespace Bureau

open Attempt

def Progress.ofOutcome {α : Type} : Except Crash α → Progress α
  | .ok a => .finished a
  | .error _ => .crashed

namespace Office

variable {α : Type} {clock : Clock} {now : Instant}

/-- By induction on the steps of the program. -/
theorem perform_of_stands (d : Desk) (hread : clock.read = .ok now) (p : Program α) {o : Office}
    {f : RunState Store Provider} (hstands : o.Stands clock f) :
    ∃ o', o.perform p = (.ofOutcome ((MarketDesk.byClock d clock).serve now p f).1, o') ∧
      o'.Stands clock ((MarketDesk.byClock d clock).serve now p f).2 := by
  have hclock := hstands.clock_eq
  induction p generalizing o f with
  | done a => exact ⟨o, rfl, hstands⟩
  | crash c => exact ⟨o, rfl, hstands⟩
  | clock k ih =>
      unfold perform
      rw [hclock, hread, MarketDesk.serve_clock]
      exact ih now hstands hclock
  | deadline wait k ih =>
      have htick := MarketDesk.tick_byClock d hread
      have hticks : o.ticks = clock.ticks := congrArg Clock.ticks hclock
      unfold perform
      rw [MarketDesk.serve_deadline, htick, hticks]
      exact ih _ hstands hclock
  | call tick c k ih =>
      have hbegin := runOn_begin hstands.faults_eq c
      rw [hstands.store_eq, hclock, hread] at hbegin
      have hcall : MarketDesk.call now c f = (((Store.answer (.ok now) c).runOn f.store).1,
          { f with
            store := ((Store.answer (.ok now) c).runOn f.store).2
            ledger := MarketDesk.noteReply ((Store.answer (.ok now) c).runOn f.store).1 f.ledger }) :=
        rfl
      unfold perform
      rw [hbegin, MarketDesk.serve_call, hcall]
      rcases (Store.answer (.ok now) c).runOn f.store with ⟨e | reply, store⟩
      · exact ⟨_, rfl, rfl, hstands.faults_eq, rfl, hstands.provider_eq, hstands.minted_eq⟩
      · exact ih (some reply)
          ⟨rfl, hstands.faults_eq, rfl, hstands.provider_eq, hstands.minted_eq⟩ rfl
  | price pair k ih =>
      have hprice : (MarketDesk.byClock d clock).market.price pair now = Provider.price pair (.ok now) :=
        rfl
      unfold perform
      rw [MarketDesk.serve_price, MarketDesk.ask, hprice, runOn_price, hclock, hread,
        hstands.provider_eq]
      rcases (Provider.price pair (.ok now)).runOn f.market with ⟨e | reply, market⟩
      · exact ⟨_, rfl, rfl, hstands.faults_eq, hstands.store_eq, rfl, hstands.minted_eq⟩
      · exact ih reply
          ⟨rfl, hstands.faults_eq, hstands.store_eq, rfl, hstands.minted_eq⟩ rfl
  | priceAll pairs k ih =>
      have hprices : (MarketDesk.byClock d clock).market.priceAll pairs now =
          Provider.priceAll pairs (.ok now) := rfl
      unfold perform
      rw [MarketDesk.serve_priceAll, MarketDesk.askAll, hprices, runOn_priceAll, hclock, hread,
        hstands.provider_eq]
      rcases (Provider.priceAll pairs (.ok now)).runOn f.market with ⟨e | rates, market⟩
      · exact ⟨_, rfl, rfl, hstands.faults_eq, hstands.store_eq, rfl, hstands.minted_eq⟩
      · exact ih rates
          ⟨rfl, hstands.faults_eq, hstands.store_eq, rfl, hstands.minted_eq⟩ rfl
  | mint k ih =>
      have hmint : mint.runOn o = (.ok (Uuid.numbered f.minted), { o with minted := o.minted + 1 }) :=
        congrArg (fun n => (Except.ok (Uuid.numbered n), { o with minted := o.minted + 1 }))
          hstands.minted_eq
      unfold perform
      rw [hmint, MarketDesk.serve_mint]
      exact ih (Uuid.numbered f.minted) ⟨hclock, hstands.faults_eq, hstands.store_eq,
        hstands.provider_eq, congrArg (· + 1) hstands.minted_eq⟩ hclock

theorem perform_of_sound (d : Desk) {o : Office} (hread : o.clock.read = .ok now)
    (hfaults : o.store.faults = .const .none) (p : Program α) :
    ∃ outcome o', o.perform p = (.ofOutcome outcome, o') := by
  have hstands : o.Stands o.clock ⟨o.store.store, o.provider, o.minted, []⟩ :=
    ⟨rfl, hfaults, rfl, rfl, rfl⟩
  obtain ⟨o', hperform, -⟩ := perform_of_stands d hread p hstands
  exact ⟨_, o', hperform⟩

end Office

end Bureau
