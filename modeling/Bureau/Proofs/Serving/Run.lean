import Bureau.Proofs.Serving.Basic
import Bureau.Proofs.Store.TimedMap

/-!
Runs: requests, purges and orders to the market at times that never go back. A run on
a store goes as it does on the plain map behind the store, so what is shown of plain runs holds of
all.
-/

set_option autoImplicit false

namespace Bureau

/-! ### Requests -/

inductive Request where
  | rate (pair : CurrencyPair)
  | rates (pairs : List CurrencyPair)
  | quote (pair : CurrencyPair) (amount : Decimal)
  | lock (pair : CurrencyPair) (seconds : Int)
  | findLock (id : LockId)
  | deleteLock (id : LockId)
  | extendLock (id : LockId) (grace : Duration)
  | health

inductive Answer where
  | rate (rate : ExchangeRate)
  | rates (rates : List ExchangeRate)
  | quote (quote : Quote)
  | lock (lock : LockedRate)
  | done

def Request.task (d : Desk) : Request → ExceptT FxError Program Answer
  | .rate pair => do return .rate (← d.rate pair)
  | .rates pairs => do return .rates (← ExceptT.lift (d.rates pairs))
  | .quote pair amount => do return .quote (← d.quote pair amount)
  | .lock pair seconds => do return .lock (← d.lock pair seconds)
  | .findLock id => do return .lock (← d.findLock id)
  | .deleteLock id => do
      d.deleteLock id
      return .done
  | .extendLock id grace => do return .lock (← d.extendLock id grace)
  | .health => do
      d.health
      return .done

inductive Move (κ : Type) where
  | request (r : Request)
  | purge
  | order (o : κ)

structure Visit (κ : Type) where
  time : Instant
  move : Move κ

abbrev Outcome : Type := Except Crash (Except FxError Answer)

structure Episode (κ : Type) where
  visit : Visit κ
  outcome : Outcome

namespace RunState

def opening {σ μ : Type} (store : σ) (market : μ) : RunState σ μ := ⟨store, market, 0, []⟩

/-- A state whose ledger goes on from that of another. -/
def GoesOn {σ μ : Type} (f g : RunState σ μ) : Prop := f.ledger <:+ g.ledger

theorem GoesOn.trans {σ μ : Type} (f g k : RunState σ μ) (hfg : f.GoesOn g) (hgk : g.GoesOn k) :
    f.GoesOn k :=
  List.IsSuffix.trans hfg hgk

end RunState

namespace MarketDesk

variable {σ μ κ : Type} [Shelf σ] (h : MarketDesk μ κ)

def step (v : Visit κ) (f : RunState σ μ) : Outcome × RunState σ μ :=
  match v.move with
  | .request r => h.serve v.time (r.task h.desk).run f
  | .purge => (.ok (.ok .done), { f with store := Shelf.purge v.time f.store })
  | .order o =>
      let (outcome, market) := (h.market.order o v.time).runOn f.market
      (outcome.map fun _ => .ok .done, { f with market })

def run : List (Visit κ) → RunState σ μ → List (Episode κ) × RunState σ μ
  | [], f => ([], f)
  | v :: rest, f =>
      let (outcome, f) := h.step v f
      let (episodes, f) := run rest f
      (⟨v, outcome⟩ :: episodes, f)

theorem run_cons (v : Visit κ) (rest : List (Visit κ)) (f : RunState σ μ) :
    h.run (v :: rest) f =
      (⟨v, (h.step v f).1⟩ :: (h.run rest (h.step v f).2).1, (h.run rest (h.step v f).2).2) := rfl

theorem run_append (past rest : List (Visit κ)) (f : RunState σ μ) :
    h.run (past ++ rest) f =
      ((h.run past f).1 ++ (h.run rest (h.run past f).2).1, (h.run rest (h.run past f).2).2) := by
  induction past generalizing f with
  | nil => rfl
  | cons v past ih => rw [List.cons_append, run_cons, ih, run_cons]; rfl

theorem run_visits (visits : List (Visit κ)) (f : RunState σ μ) :
    (h.run visits f).1.map (·.visit) = visits := by
  induction visits generalizing f with
  | nil => rfl
  | cons v rest ih => rw [run_cons, List.map_cons, ih]

/-! ### The ledger grows -/

private theorem goesOn_call (now : Instant) (c : StoreCall) (f : RunState σ μ) :
    f.GoesOn (call now c f).2 := by
  unfold call noteReply
  rcases (Shelf.answer now c).runOn f.store with ⟨_ | e | a, store⟩
  · exact List.suffix_refl _
  · exact List.suffix_cons _ _
  · exact List.suffix_refl _

omit [Shelf σ] in
private theorem goesOn_ask (now : Instant) (pair : CurrencyPair) (f : RunState σ μ) :
    f.GoesOn (h.ask now pair f).2 := by
  unfold ask
  rcases (h.market.price pair now).runOn f.market with ⟨c | reply, market⟩
  · exact List.suffix_refl _
  · exact List.suffix_cons _ _

omit [Shelf σ] in
private theorem goesOn_askAll (now : Instant) (pairs : List CurrencyPair) (f : RunState σ μ) :
    f.GoesOn (h.askAll now pairs f).2 := by
  unfold askAll
  rcases (h.market.priceAll pairs now).runOn f.market with ⟨c | rates, market⟩
  · exact List.suffix_refl _
  · exact List.suffix_cons _ _

/-- A program only adds to the ledger, by induction on its steps. -/
theorem goesOn_serve {α : Type} (now : Instant) (p : Program α) (f : RunState σ μ) :
    f.GoesOn (h.serve now p f).2 := by
  induction p generalizing f with
  | done a => exact List.suffix_refl _
  | crash c => exact List.suffix_refl _
  | clock k ih => exact ih now f
  | deadline wait k ih => exact ih _ f
  | call tick c k ih =>
      rw [serve_call]
      exact Attempt.rel_andThen RunState.GoesOn.trans (goesOn_call now c f)
        fun reply g => ih (some reply) g
  | price pair k ih =>
      rw [serve_price]
      exact Attempt.rel_andThen RunState.GoesOn.trans (h.goesOn_ask now pair f)
        fun reply g => ih reply g
  | priceAll pairs k ih =>
      rw [serve_priceAll]
      exact Attempt.rel_andThen RunState.GoesOn.trans (h.goesOn_askAll now pairs f)
        fun rates g => ih rates g
  | mint k ih =>
      rw [serve_mint]
      exact ih (h.ids f.minted) f.minting

theorem goesOn_step (v : Visit κ) (f : RunState σ μ) : f.GoesOn (h.step v f).2 := by
  obtain ⟨now, r | _ | o⟩ := v
  · exact h.goesOn_serve now _ f
  · exact List.suffix_refl _
  · exact List.suffix_refl _

/-! ### Requests served -/

open Attempt

variable (now : Instant) (f : RunState σ μ)

theorem step_rate (pair : CurrencyPair) :
    h.step ⟨now, .request (.rate pair)⟩ f =
      andThen (h.serve now (h.desk.rate pair).run f)
        (orError fun rate g => (.ok (.ok (.rate rate)), g)) :=
  h.serve_run_bind now _ _ f

theorem step_rates (pairs : List CurrencyPair) :
    h.step ⟨now, .request (.rates pairs)⟩ f =
      andThen (h.serve now (h.desk.rates pairs) f) fun rates g => (.ok (.ok (.rates rates)), g) :=
  h.serve_run_lift_bind now _ _ f

theorem step_quote (pair : CurrencyPair) (amount : Decimal) :
    h.step ⟨now, .request (.quote pair amount)⟩ f =
      andThen (h.serve now (h.desk.quote pair amount).run f)
        (orError fun quote g => (.ok (.ok (.quote quote)), g)) :=
  h.serve_run_bind now _ _ f

theorem step_lock (pair : CurrencyPair) (seconds : Int) :
    h.step ⟨now, .request (.lock pair seconds)⟩ f =
      andThen (h.serve now (h.desk.lock pair seconds).run f)
        (orError fun lock g => (.ok (.ok (.lock lock)), g)) :=
  h.serve_run_bind now _ _ f

theorem step_findLock (id : LockId) :
    h.step ⟨now, .request (.findLock id)⟩ f =
      andThen (h.serve now (h.desk.findLock id).run f)
        (orError fun lock g => (.ok (.ok (.lock lock)), g)) :=
  h.serve_run_bind now _ _ f

theorem step_deleteLock (id : LockId) :
    h.step ⟨now, .request (.deleteLock id)⟩ f =
      andThen (h.serve now (h.desk.deleteLock id).run f)
        (orError fun _ g => (.ok (.ok .done), g)) :=
  h.serve_run_bind now _ _ f

theorem step_extendLock (id : LockId) (grace : Duration) :
    h.step ⟨now, .request (.extendLock id grace)⟩ f =
      andThen (h.serve now (h.desk.extendLock id grace).run f)
        (orError fun lock g => (.ok (.ok (.lock lock)), g)) :=
  h.serve_run_bind now _ _ f

theorem step_health :
    h.step ⟨now, .request .health⟩ f =
      andThen (h.serve now h.desk.health.run f) (orError fun _ g => (.ok (.ok .done), g)) :=
  h.serve_run_bind now _ _ f

end MarketDesk

/-! ### What a market keeps -/

/-- A property of the market that pricing keeps. -/
structure Market.KeepsPricing {μ κ : Type} (market : Market μ κ) (good : μ → Prop) : Prop where
  price : ∀ pair now s, good s → good ((market.price pair now).runOn s).2
  priceAll : ∀ pairs now s, good s → good ((market.priceAll pairs now).runOn s).2

/-- A property of the market that pricing and orders keep. -/
structure Market.Keeps {μ κ : Type} (market : Market μ κ) (good : μ → Prop) : Prop extends
    market.KeepsPricing good where
  order : ∀ o now s, good s → good ((market.order o now).runOn s).2

namespace MarketDesk

variable {σ μ κ : Type} [Shelf σ] {h : MarketDesk μ κ} {good : μ → Prop}

omit [Shelf σ] in
private theorem keeps_andThen {α β : Type} {x : Except Crash α × RunState σ μ}
    {next : α → RunState σ μ → Except Crash β × RunState σ μ} (hx : good x.2.market)
    (hnext : ∀ a g, good g.market → good (next a g).2.market) :
    good (Attempt.andThen x next).2.market := by
  rcases x with ⟨c | a, g⟩
  · exact hx
  · exact hnext a g hx

/-- A program keeps what each pricing keeps, by induction on its steps. -/
theorem keeps_serve (hkeeps : h.market.KeepsPricing good) {α : Type} (now : Instant) (p : Program α)
    (f : RunState σ μ) (hf : good f.market) : good (h.serve now p f).2.market := by
  induction p generalizing f with
  | done a => exact hf
  | crash c => exact hf
  | clock k ih => exact ih now f hf
  | deadline wait k ih => exact ih _ f hf
  | call tick c k ih =>
      rw [serve_call]
      exact keeps_andThen (x := call now c f) hf fun reply g => ih (some reply) g
  | price pair k ih =>
      have hasked : good (h.ask now pair f).2.market := by
        have hnext := hkeeps.price pair now f.market hf
        unfold ask
        rcases hprice : (h.market.price pair now).runOn f.market with ⟨c | reply, market⟩ <;>
          rwa [hprice] at hnext
      rw [serve_price]
      exact keeps_andThen hasked fun reply g => ih reply g
  | priceAll pairs k ih =>
      have hasked : good (h.askAll now pairs f).2.market := by
        have hnext := hkeeps.priceAll pairs now f.market hf
        unfold askAll
        rcases hprice : (h.market.priceAll pairs now).runOn f.market with ⟨c | rates, market⟩ <;>
          rwa [hprice] at hnext
      rw [serve_priceAll]
      exact keeps_andThen hasked fun rates g => ih rates g
  | mint k ih =>
      rw [serve_mint]
      exact ih (h.ids f.minted) f.minting hf

private theorem keeps_step (hkeeps : h.market.Keeps good) (v : Visit κ) (f : RunState σ μ)
    (hf : good f.market) : good (h.step v f).2.market := by
  obtain ⟨now, r | _ | o⟩ := v
  · exact keeps_serve hkeeps.toKeepsPricing now _ f hf
  · exact hf
  · exact hkeeps.order o now f.market hf

theorem keeps_run (hkeeps : h.market.Keeps good) (visits : List (Visit κ)) (f : RunState σ μ)
    (hf : good f.market) : good (h.run visits f).2.market := by
  induction visits generalizing f with
  | nil => exact hf
  | cons v rest ih => exact ih _ (keeps_step hkeeps v f hf)

end MarketDesk

def timesOf {κ : Type} (visits : List (Visit κ)) : List Instant := visits.map (·.time)

/-! ### Plain stores -/

/-- A plain map kept to a number of texts that can be read. -/
structure PlainStore where
  capacity : Nat
  map : TimedMap

noncomputable instance : Shelf PlainStore where
  answer now c := Attempt.ofRun fun s =>
    let (outcome, map) := s.map.answer s.capacity now c
    (outcome, { s with map })
  purge _ s := s

namespace RunState

/-- Two states in step: the store with the plain one, and the rest equal. -/
structure InStep {μ : Type} (f : RunState Store μ) (g : RunState PlainStore μ) (now : Instant) :
    Prop where
  tracks : f.store.Tracks g.store.capacity g.store.map now
  market_eq : f.market = g.market
  minted_eq : f.minted = g.minted
  ledger_eq : f.ledger = g.ledger

theorem inStep_opening {μ : Type} (capacity : Nat) (market : μ) (now : Instant) :
    (opening (Store.empty capacity) market).InStep (opening ⟨capacity, .empty⟩ market) now :=
  ⟨Store.tracks_empty capacity now, rfl, rfl, rfl⟩

theorem InStep.mono {μ : Type} {f : RunState Store μ} {g : RunState PlainStore μ} {now later : Instant}
    (h : f.InStep g now) (hle : now ≤ later) : f.InStep g later :=
  { h with tracks := h.tracks.mono hle }

end RunState

namespace MarketDesk

variable {μ κ α : Type} (h : MarketDesk μ κ) {now : Instant} {f : RunState Store μ}
  {g : RunState PlainStore μ}

/-- Two results in step: the same outcome, and states in step. -/
def Matches {α : Type} (x : Except Crash α × RunState Store μ)
    (y : Except Crash α × RunState PlainStore μ) (now : Instant) : Prop :=
  x.1 = y.1 ∧ x.2.InStep y.2 now

theorem Matches.andThen {β : Type} {x : Except Crash α × RunState Store μ}
    {y : Except Crash α × RunState PlainStore μ} (hxy : Matches x y now)
    {next : α → RunState Store μ → Except Crash β × RunState Store μ}
    {next' : α → RunState PlainStore μ → Except Crash β × RunState PlainStore μ}
    (hnext : ∀ a f g, f.InStep g now → Matches (next a f) (next' a g) now) :
    Matches (Attempt.andThen x next) (Attempt.andThen y next') now := by
  obtain ⟨outcome, f⟩ := x
  obtain ⟨outcome', g⟩ := y
  obtain ⟨rfl, hstep⟩ := hxy
  cases outcome with
  | ok a => exact hnext a f g hstep
  | error c => exact ⟨rfl, hstep⟩

private theorem matches_call (c : StoreCall) (hstep : f.InStep g now) :
    Matches (call now c f) (call now c g) now := by
  obtain ⟨hreply, htracks⟩ := hstep.tracks.answer c
  exact ⟨hreply, ⟨htracks, hstep.market_eq, hstep.minted_eq,
    congrArg₂ noteReply hreply hstep.ledger_eq⟩⟩

private theorem matches_ask (pair : CurrencyPair) (hstep : f.InStep g now) :
    Matches (h.ask now pair f) (h.ask now pair g) now := by
  unfold ask
  rw [hstep.market_eq, hstep.ledger_eq]
  rcases (h.market.price pair now).runOn g.market with ⟨c | reply, market⟩ <;>
    exact ⟨rfl, ⟨hstep.tracks, rfl, hstep.minted_eq, rfl⟩⟩

private theorem matches_askAll (pairs : List CurrencyPair) (hstep : f.InStep g now) :
    Matches (h.askAll now pairs f) (h.askAll now pairs g) now := by
  unfold askAll
  rw [hstep.market_eq, hstep.ledger_eq]
  rcases (h.market.priceAll pairs now).runOn g.market with ⟨c | rates, market⟩ <;>
    exact ⟨rfl, ⟨hstep.tracks, rfl, hstep.minted_eq, rfl⟩⟩

private theorem matches_mint (hstep : f.InStep g now) : Matches (h.mint f) (h.mint g) now := by
  unfold mint RunState.minting
  rw [hstep.minted_eq]
  exact ⟨rfl, ⟨hstep.tracks, hstep.market_eq, rfl, hstep.ledger_eq⟩⟩

/-- States in step serve a program alike, by induction on its steps. -/
theorem matches_serve (p : Program α) (hstep : f.InStep g now) :
    Matches (h.serve now p f) (h.serve now p g) now := by
  induction p generalizing f g with
  | done a => exact ⟨rfl, hstep⟩
  | crash c => exact ⟨rfl, hstep⟩
  | clock k ih => exact ih now hstep
  | deadline wait k ih => exact ih _ hstep
  | call tick c k ih =>
      simp only [serve_call]
      exact (matches_call c hstep).andThen fun reply _ _ hnext => ih (some reply) hnext
  | price pair k ih =>
      simp only [serve_price]
      exact (h.matches_ask pair hstep).andThen fun reply _ _ hnext => ih reply hnext
  | priceAll pairs k ih =>
      simp only [serve_priceAll]
      exact (h.matches_askAll pairs hstep).andThen fun rates _ _ hnext => ih rates hnext
  | mint k ih =>
      simp only [serve_mint]
      exact (h.matches_mint hstep).andThen fun id _ _ hnext => ih id hnext

theorem matches_step (v : Visit κ) (hstep : f.InStep g v.time) :
    Matches (h.step v f) (h.step v g) v.time := by
  obtain ⟨now, r | _ | o⟩ := v
  · exact h.matches_serve _ hstep
  · exact ⟨rfl, ⟨hstep.tracks.purge, hstep.market_eq, hstep.minted_eq, hstep.ledger_eq⟩⟩
  · simp only [step, hstep.market_eq]
    exact ⟨rfl, ⟨hstep.tracks, rfl, hstep.minted_eq, hstep.ledger_eq⟩⟩

/-- States in step stay so over a run and its episodes are the same, by induction on the visits. -/
private theorem matches_run {visits : List (Visit κ)} (hstep : f.InStep g now)
    (hstart : ∀ v ∈ visits, now ≤ v.time) (horder : Instant.Ascending (timesOf visits))
    {later : Instant} (hnow : now ≤ later) (hend : ∀ v ∈ visits, v.time ≤ later) :
    (h.run visits f).1 = (h.run visits g).1 ∧
      (h.run visits f).2.InStep (h.run visits g).2 later := by
  induction visits generalizing f g now with
  | nil => exact ⟨rfl, hstep.mono hnow⟩
  | cons v rest ih =>
      obtain ⟨hrest, hsorted⟩ := List.pairwise_cons.mp horder
      rw [List.forall_mem_map] at hrest
      have hv := hstep.mono (hstart v List.mem_cons_self)
      obtain ⟨houtcome, hnext⟩ := h.matches_step v hv
      obtain ⟨hepisodes, hfinal⟩ := ih hnext hrest hsorted (hend v List.mem_cons_self)
        fun w hw => hend w (List.mem_cons_of_mem v hw)
      rw [run_cons, run_cons, houtcome, hepisodes]
      exact ⟨rfl, hfinal⟩

/-- A run from an opening state goes on a store as on the plain store, up to any time after it. -/
theorem matches_opening (capacity : Nat) (market : μ) {visits : List (Visit κ)} {now : Instant}
    (horder : Instant.Ascending (timesOf visits ++ [now])) :
    (h.run visits (RunState.opening (Store.empty capacity) market)).1 =
        (h.run visits (RunState.opening (PlainStore.mk capacity .empty) market)).1 ∧
      (h.run visits (RunState.opening (Store.empty capacity) market)).2.InStep
        (h.run visits (RunState.opening (PlainStore.mk capacity .empty) market)).2 now := by
  obtain ⟨hsorted, -, hend⟩ := List.pairwise_append.mp horder
  have hlast : ∀ v ∈ visits, v.time ≤ now := by
    intro v hv
    exact hend v.time (List.mem_map.mpr ⟨v, hv, rfl⟩) now List.mem_cons_self
  exact h.matches_run (RunState.inStep_opening capacity market Instant.first)
    (fun v _ => v.time.first_le) hsorted now.first_le hlast

theorem episodes_opening (capacity : Nat) (market : μ) {visits : List (Visit κ)}
    (horder : Instant.Ascending (timesOf visits)) :
    (h.run visits (RunState.opening (Store.empty capacity) market)).1 =
      (h.run visits (RunState.opening (PlainStore.mk capacity .empty) market)).1 := by
  let last : Instant := ⟨calendarEnd, by decide⟩
  exact (h.matches_run (RunState.inStep_opening capacity market Instant.first)
    (fun v _ => v.time.first_le) horder last.first_le fun v _ => v.time.inCalendar.2).1

end MarketDesk

end Bureau
