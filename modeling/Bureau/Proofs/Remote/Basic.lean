import Bureau.Proofs.Serving.Basic
import Mathlib.Tactic.SplitIfs

/-!
The desk at work with a remote store that it cannot rely on. A call is answered with anything, after
any time or never, and meanwhile the store can change in any way. A call that is not answered by its
deadline is given up at the deadline. Time stands still while the desk does its own work.
-/

set_option autoImplicit false

namespace Bureau

structure Remote (σ : Type) where
  /-- What a call comes to that is made at a tick and given up at a limit: an answer after a number of
  milliseconds, or none. -/
  respond : σ → (tick limit : Nat) → (c : StoreCall) → Option (Nat × c.Reply) × σ

/-- A remote store as it stands at a tick. -/
structure Far (σ : Type) where
  tick : Nat
  state : σ

/-- A desk with its market, a remote store, and what its clock shows at each tick. -/
structure RemoteDesk (σ μ κ : Type) where
  marketDesk : MarketDesk μ κ
  remote : Remote σ
  reading : Nat → Instant

namespace RemoteDesk

variable {σ μ κ α β : Type} (o : RemoteDesk σ μ κ)

def now (f : RunState (Far σ) μ) : Instant := o.reading f.store.tick

/-- Makes a store call under a deadline; there is no reply to one that is not answered in time. -/
def call (deadline : Nat) (c : StoreCall) (f : RunState (Far σ) μ) :
    Option c.Reply × RunState (Far σ) μ :=
  let limit := Nat.max f.store.tick deadline
  match o.remote.respond f.store.state f.store.tick limit c with
  | (some (wait, reply), state) =>
      if f.store.tick + wait ≤ limit then
        (some reply, { f with store := ⟨f.store.tick + wait, state⟩ })
      else (none, { f with store := ⟨limit, state⟩ })
  | (none, state) => (none, { f with store := ⟨limit, state⟩ })

def handler : Program.Handler (Attempt (RunState (Far σ) μ)) where
  crash c := throw c
  clock := Attempt.ofRun fun f => (.ok (o.now f), f)
  deadline wait := Attempt.ofRun fun f => (.ok (f.store.tick + wait), f)
  call deadline c := Attempt.ofRun fun f => ((.ok (o.call deadline c f).1, (o.call deadline c f).2))
  price pair := Attempt.ofRun fun f => o.marketDesk.ask (o.now f) pair f
  priceAll pairs := Attempt.ofRun fun f => o.marketDesk.askAll (o.now f) pairs f
  mint := Attempt.ofRun o.marketDesk.mint

def serve (p : Program α) (f : RunState (Far σ) μ) : Except Crash α × RunState (Far σ) μ :=
  MarketDesk.serveBy o.handler p f

/-- Answers a query by a deadline, if every call of it is answered by then. -/
def inquire (deadline : Nat) : Query α → RunState (Far σ) μ → Option α × RunState (Far σ) μ
  | .done a, f => (some a, f)
  | .clock k, f => inquire deadline (k (o.now f)) f
  | .call c k, f =>
      match o.call deadline c f with
      | (some reply, g) => inquire deadline (k reply) g
      | (none, g) => (none, g)

/-! ### Calls -/

variable {f : RunState (Far σ) μ}

section Call

variable {deadline wait : Nat} {c : StoreCall} {reply : c.Reply} {state : σ}

theorem call_of_in_time
    (hrespond : o.remote.respond f.store.state f.store.tick (Nat.max f.store.tick deadline) c =
      (some (wait, reply), state))
    (htime : f.store.tick + wait ≤ Nat.max f.store.tick deadline) :
    o.call deadline c f = (some reply, { f with store := ⟨f.store.tick + wait, state⟩ }) := by
  simp only [call, hrespond, if_pos htime]

theorem call_of_late
    (hrespond : o.remote.respond f.store.state f.store.tick (Nat.max f.store.tick deadline) c =
      (some (wait, reply), state))
    (htime : Nat.max f.store.tick deadline < f.store.tick + wait) :
    o.call deadline c f = (none, { f with store := ⟨Nat.max f.store.tick deadline, state⟩ }) := by
  simp only [call, hrespond, if_neg (Nat.not_le.mpr htime)]

theorem call_of_silence
    (hrespond : o.remote.respond f.store.state f.store.tick (Nat.max f.store.tick deadline) c =
      (none, state)) :
    o.call deadline c f = (none, { f with store := ⟨Nat.max f.store.tick deadline, state⟩ }) := by
  simp only [call, hrespond]

end Call

/-- A store call moves nothing but the store and its time, which does not go back. -/
structure Waits (f g : RunState (Far σ) μ) : Prop where
  tick_le : f.store.tick ≤ g.store.tick
  market_eq : g.market = f.market
  minted_eq : g.minted = f.minted
  ledger_eq : g.ledger = f.ledger

theorem Waits.refl (f : RunState (Far σ) μ) : Waits f f := ⟨Nat.le_refl _, rfl, rfl, rfl⟩

theorem Waits.trans {f g k : RunState (Far σ) μ} (hfg : Waits f g) (hgk : Waits g k) : Waits f k :=
  ⟨Nat.le_trans hfg.tick_le hgk.tick_le, hgk.market_eq.trans hfg.market_eq,
    hgk.minted_eq.trans hfg.minted_eq, hgk.ledger_eq.trans hfg.ledger_eq⟩

theorem waits_call (deadline : Nat) (c : StoreCall) (f : RunState (Far σ) μ) :
    Waits f (o.call deadline c f).2 := by
  have hlimit : f.store.tick ≤ Nat.max f.store.tick deadline := Nat.le_max_left _ _
  simp only [call]
  rcases o.remote.respond f.store.state f.store.tick (Nat.max f.store.tick deadline) c with
    ⟨_ | ⟨wait, reply⟩, state⟩
  · exact ⟨hlimit, rfl, rfl, rfl⟩
  · simp only
    split_ifs with htime
    · exact ⟨Nat.le_add_right _ _, rfl, rfl, rfl⟩
    · exact ⟨hlimit, rfl, rfl, rfl⟩

/-! ### Programs -/

open Attempt MarketDesk

theorem endsOnCrash_handler : EndsOnCrash o.handler := fun _ => rfl

theorem mints_handler : Mints o.handler := fun f => ⟨o.marketDesk.ids f.minted, f.minting, rfl⟩

@[simp] theorem serve_done (a : α) (f : RunState (Far σ) μ) :
    o.serve (Program.done a) f = (.ok a, f) := rfl

@[simp] theorem serve_pure (a : α) (f : RunState (Far σ) μ) :
    o.serve (pure a : Program α) f = (.ok a, f) := rfl

@[simp] theorem serve_clock (k : Instant → Program α) (f : RunState (Far σ) μ) :
    o.serve (.clock k) f = o.serve (k (o.now f)) f :=
  runOn_bind_ok rfl _

@[simp] theorem serve_deadline (wait : Nat) (k : Nat → Program α) (f : RunState (Far σ) μ) :
    o.serve (.deadline wait k) f = o.serve (k (f.store.tick + wait)) f :=
  runOn_bind_ok rfl _

@[simp] theorem serve_call (deadline : Nat) (c : StoreCall) (k : Option c.Reply → Program α)
    (f : RunState (Far σ) μ) :
    o.serve (.call deadline c k) f =
      o.serve (k (o.call deadline c f).1) (o.call deadline c f).2 :=
  runOn_bind_ok rfl _

@[simp] theorem serve_price (pair : CurrencyPair) (k : Except FxError Rate → Program α)
    (f : RunState (Far σ) μ) :
    o.serve (.price pair k) f =
      andThen (o.marketDesk.ask (o.now f) pair f) fun reply g => o.serve (k reply) g :=
  runOn_bind_eq_andThen _ _ _

@[simp] theorem serve_priceAll (pairs : List CurrencyPair) (k : List Rate → Program α)
    (f : RunState (Far σ) μ) :
    o.serve (.priceAll pairs k) f =
      andThen (o.marketDesk.askAll (o.now f) pairs f) fun rates g => o.serve (k rates) g :=
  runOn_bind_eq_andThen _ _ _

@[simp] theorem serve_mint (k : Uuid → Program α) (f : RunState (Far σ) μ) :
    o.serve (.mint k) f = o.serve (k (o.marketDesk.ids f.minted)) f.minting :=
  runOn_bind_ok rfl _

theorem serve_bind (p : Program α) (g : α → Program β) (f : RunState (Far σ) μ) :
    o.serve (p >>= g) f = andThen (o.serve p f) fun a f => o.serve (g a) f :=
  serveBy_bind o.endsOnCrash_handler p g f

@[simp] theorem serve_lift (e : Except Crash α) (f : RunState (Far σ) μ) :
    o.serve (Program.lift e) f = (e, f) :=
  serveBy_lift o.endsOnCrash_handler e f

theorem serve_run_bind (t : ExceptT FxError Program α) (g : α → ExceptT FxError Program β)
    (f : RunState (Far σ) μ) :
    o.serve (t >>= g).run f =
      andThen (o.serve t.run f) (orError fun a f => o.serve (g a).run f) :=
  serveBy_run_bind o.endsOnCrash_handler t g f

@[simp] theorem serve_run_lift (p : Program α) (f : RunState (Far σ) μ) :
    o.serve (ExceptT.lift p : ExceptT FxError Program α).run f =
      andThen (o.serve p f) fun a f => (.ok (.ok a), f) :=
  serveBy_run_lift o.endsOnCrash_handler p f

theorem serve_run_lift_bind (p : Program α) (g : α → ExceptT FxError Program β)
    (f : RunState (Far σ) μ) :
    o.serve (ExceptT.lift p >>= g).run f =
      andThen (o.serve p f) fun a f => o.serve (g a).run f :=
  serveBy_run_lift_bind o.endsOnCrash_handler p g f

/-! ### Queries under a deadline -/

theorem serve_within (deadline : Nat) (q : Query α) (f : RunState (Far σ) μ) :
    o.serve (Program.within deadline q) f =
      (.ok (o.inquire deadline q f).1, (o.inquire deadline q f).2) := by
  induction q generalizing f with
  | done a => rfl
  | clock k ih =>
      rw [Program.within, serve_clock, ih]
      rfl
  | call c k ih =>
      rw [Program.within, serve_call, inquire]
      rcases o.call deadline c f with ⟨_ | reply, g⟩
      · rfl
      · exact ih reply g

def deadline (d : Desk) (f : RunState (Far σ) μ) : Nat :=
  f.store.tick + d.policy.storeTimeout.timerMillis

/-- What a consultation comes to. One that is not answered in time is an error. -/
def verdict (d : Desk) (operation : String) : Option (Except FxError α) → Except FxError α
  | some outcome => outcome
  | none => .error (.timeout s!"{operation} exceeded {d.policy.storeTimeout.wholeMillis}ms")

theorem serve_consult (d : Desk) (operation : String) (q : ExceptT FxError Query α)
    (f : RunState (Far σ) μ) :
    o.serve (d.consult operation q).run f =
      (.ok (verdict d operation (o.inquire (deadline d f) q.run f).1),
        (o.inquire (deadline d f) q.run f).2) := by
  rw [Desk.consult, serve_run_lift_bind, serve_deadline, serve_done, andThen_ok,
    serve_run_lift_bind, serve_within]
  change andThen (.ok (o.inquire (deadline d f) q.run f).1, (o.inquire (deadline d f) q.run f).2) _ = _
  rcases o.inquire (deadline d f) q.run f with ⟨_ | (e | a), g⟩ <;> rfl

end RemoteDesk

end Bureau
