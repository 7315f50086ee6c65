import Bureau.Desk.Basic
import Bureau.Proofs.Attempt

/-!
The desk at work with a store, a market and a source of identifiers, at a time that
stands still while a request is served. Stores and markets are of any kind. A ledger tells what the
market was asked and what the store refused; nothing reads it but the statements about runs.
-/

set_option autoImplicit false

namespace Bureau

structure Market (μ κ : Type) where
  /-- The rate of a pair at a time. -/
  price : CurrencyPair → Instant → Attempt μ (Except FxError Rate)
  /-- The rates of those of several pairs that can be priced. -/
  priceAll : List CurrencyPair → Instant → Attempt μ (List Rate)
  /-- Changes how the market prices. -/
  order : κ → Instant → Attempt μ Unit

/-- A kind of store: how it answers calls at a time, and what a purge leaves. -/
class Shelf (σ : Type) where
  answer : Instant → (c : StoreCall) → Attempt σ c.Reply
  purge : Instant → σ → σ

instance : Shelf Store where
  answer now := Store.answer (.ok now)
  purge now s := s.purge now

inductive Note where
  | asked (pair : CurrencyPair) (reply : Except FxError Rate)
  | askedAll (pairs : List CurrencyPair) (rates : List Rate)
  | refused (e : StoreError)

/-- The state of a run: what the requests to a desk deal with. -/
structure RunState (σ μ : Type) where
  store : σ
  market : μ
  /-- How many identifiers were made. -/
  minted : Nat
  /-- The notes, newest first. -/
  ledger : List Note

def RunState.minting {σ μ : Type} (f : RunState σ μ) : RunState σ μ := { f with minted := f.minted + 1 }

/-- A desk with the market it asks and the identifiers it gives out. -/
structure MarketDesk (μ κ : Type) where
  desk : Desk
  market : Market μ κ
  ids : Nat → Uuid
  /-- The nanosecond at which its clock started, counted from 1970. -/
  origin : Int

namespace MarketDesk

variable {σ μ κ α β : Type} (h : MarketDesk μ κ) (now : Instant)

/-! ### Steps -/

/-- The milliseconds since its clock started. -/
def tick : Nat := ((now.nanos - h.origin) / 1000000).toNat

def noteReply {c : StoreCall} (outcome : Except Crash c.Reply) (ledger : List Note) : List Note :=
  match outcome with
  | .ok (.error e) => .refused e :: ledger
  | _ => ledger

def ask (pair : CurrencyPair) (f : RunState σ μ) : Except Crash (Except FxError Rate) × RunState σ μ :=
  match (h.market.price pair now).runOn f.market with
  | (.ok reply, market) => (.ok reply, { f with market, ledger := .asked pair reply :: f.ledger })
  | (.error c, market) => (.error c, { f with market })

def askAll (pairs : List CurrencyPair) (f : RunState σ μ) :
    Except Crash (List Rate) × RunState σ μ :=
  match (h.market.priceAll pairs now).runOn f.market with
  | (.ok rates, market) =>
      (.ok rates, { f with market, ledger := .askedAll pairs rates :: f.ledger })
  | (.error c, market) => (.error c, { f with market })

section Inquiries

variable {h now} {f : RunState σ μ} {pair : CurrencyPair} {pairs : List CurrencyPair} {market : μ}

theorem ask_of_ok {reply : Except FxError Rate}
    (hprice : (h.market.price pair now).runOn f.market = (.ok reply, market)) :
    h.ask now pair f = (.ok reply, { f with market, ledger := .asked pair reply :: f.ledger }) := by
  rw [ask, hprice]

theorem ask_of_crash {c : Crash}
    (hprice : (h.market.price pair now).runOn f.market = (.error c, market)) :
    h.ask now pair f = (.error c, { f with market }) := by
  rw [ask, hprice]

theorem askAll_of_ok {rates : List Rate}
    (hprice : (h.market.priceAll pairs now).runOn f.market = (.ok rates, market)) :
    h.askAll now pairs f =
      (.ok rates, { f with market, ledger := .askedAll pairs rates :: f.ledger }) := by
  rw [askAll, hprice]

theorem askAll_of_crash {c : Crash}
    (hprice : (h.market.priceAll pairs now).runOn f.market = (.error c, market)) :
    h.askAll now pairs f = (.error c, { f with market }) := by
  rw [askAll, hprice]

end Inquiries

def mint (f : RunState σ μ) : Except Crash Uuid × RunState σ μ :=
  (.ok (h.ids f.minted), f.minting)

def orError (next : α → RunState σ μ → Except Crash (Except FxError β) × RunState σ μ) :
    Except FxError α → RunState σ μ → Except Crash (Except FxError β) × RunState σ μ
  | .ok a, f => next a f
  | .error e, f => (.ok (.error e), f)

@[simp] theorem orError_ok (next : α → RunState σ μ → Except Crash (Except FxError β) × RunState σ μ)
    (a : α) (f : RunState σ μ) : orError next (.ok a) f = next a f := rfl

@[simp] theorem orError_error
    (next : α → RunState σ μ → Except Crash (Except FxError β) × RunState σ μ) (e : FxError)
    (f : RunState σ μ) : orError next (.error e) f = (.ok (.error e), f) := rfl

open Attempt in
theorem andThen_orError_orError {γ : Type} (x : Except Crash (Except FxError α) × RunState σ μ)
    (next : α → RunState σ μ → Except Crash (Except FxError β) × RunState σ μ)
    (last : β → RunState σ μ → Except Crash (Except FxError γ) × RunState σ μ) :
    andThen (andThen x (orError next)) (orError last) =
      andThen x (orError fun a f => andThen (next a f) (orError last)) := by
  rcases x with ⟨c | e | a, f⟩ <;> rfl

open Attempt in
theorem andThen_orError_eq_ok_iff {x : Except Crash (Except FxError α) × RunState σ μ}
    {next : α → RunState σ μ → Except Crash (Except FxError β) × RunState σ μ} {b : β}
    {k : RunState σ μ} :
    andThen x (orError next) = (.ok (.ok b), k) ↔
      ∃ a g, x = (.ok (.ok a), g) ∧ next a g = (.ok (.ok b), k) := by
  rw [andThen_eq_ok_iff]
  constructor
  · rintro ⟨e | a, g, rfl, hnext⟩
    · cases hnext
    · exact ⟨a, g, rfl, hnext⟩
  · rintro ⟨a, g, rfl, hnext⟩
    exact ⟨.ok a, g, rfl, hnext⟩

open Attempt in
theorem rel_orError {R : RunState σ μ → RunState σ μ → Prop} (hrefl : ∀ f, R f f)
    (htrans : ∀ f g k, R f g → R g k → R f k) {f : RunState σ μ}
    {x : Except Crash (Except FxError α) × RunState σ μ} (hx : R f x.2)
    {next : α → RunState σ μ → Except Crash (Except FxError β) × RunState σ μ}
    (hnext : ∀ a g, R g (next a g).2) : R f (andThen x (orError next)).2 := by
  refine rel_andThen htrans hx ?_
  intro a g
  cases a with
  | ok a => exact hnext a g
  | error e => exact hrefl g

/-! ### Programs under any handler -/

open Attempt

section AnyHandler

variable {H : Program.Handler (Attempt (RunState σ μ))}

/-- Serves a program whose steps have a meaning: its result and the state after it. -/
def serveBy (H : Program.Handler (Attempt (RunState σ μ))) (p : Program α) (f : RunState σ μ) :
    Except Crash α × RunState σ μ :=
  (p.run H).runOn f

/-- A handler under which a crash ends a program. -/
def EndsOnCrash (H : Program.Handler (Attempt (RunState σ μ))) : Prop :=
  ∀ {α : Type} (c : Crash), (H.crash c : Attempt (RunState σ μ) α) = throw c

/-- A sequence of programs is served one after the other, by induction on the first. -/
theorem serveBy_bind (hcrash : EndsOnCrash H) (p : Program α) (g : α → Program β)
    (f : RunState σ μ) :
    serveBy H (p >>= g) f = andThen (serveBy H p f) fun a f => serveBy H (g a) f := by
  change serveBy H (p.bind g) f = _
  unfold serveBy
  induction p generalizing f with
  | done a => rfl
  | crash c =>
      simp only [Program.bind, Program.run, hcrash c]
      rfl
  | clock k ih | deadline wait k ih | call tick c k ih | price pair k ih | priceAll pairs k ih
  | mint k ih =>
      simp only [Program.bind, Program.run, runOn_bind_eq_andThen, andThen_andThen]
      congr 1
      funext reply f
      exact ih reply f

theorem serveBy_lift (hcrash : EndsOnCrash H) (e : Except Crash α) (f : RunState σ μ) :
    serveBy H (Program.lift e) f = (e, f) := by
  cases e with
  | error c =>
      change ((H.crash c : Attempt (RunState σ μ) α)).runOn f = _
      rw [hcrash c]
      rfl
  | ok a => rfl

theorem serveBy_run_bind (hcrash : EndsOnCrash H) (t : ExceptT FxError Program α)
    (g : α → ExceptT FxError Program β) (f : RunState σ μ) :
    serveBy H (t >>= g).run f =
      andThen (serveBy H t.run f) (orError fun a f => serveBy H (g a).run f) := by
  rw [ExceptT.run_bind, serveBy_bind hcrash]
  congr 1
  funext a f
  cases a <;> rfl

theorem serveBy_run_lift (hcrash : EndsOnCrash H) (p : Program α) (f : RunState σ μ) :
    serveBy H (ExceptT.lift p : ExceptT FxError Program α).run f =
      andThen (serveBy H p f) fun a f => (.ok (.ok a), f) := by
  change serveBy H (p >>= fun a => pure (Except.ok a)) f = _
  rw [serveBy_bind hcrash]
  rfl

theorem serveBy_run_lift_bind (hcrash : EndsOnCrash H) (p : Program α)
    (g : α → ExceptT FxError Program β) (f : RunState σ μ) :
    serveBy H (ExceptT.lift p >>= g).run f =
      andThen (serveBy H p f) fun a f => serveBy H (g a).run f := by
  rw [serveBy_run_bind hcrash, serveBy_run_lift hcrash, andThen_andThen]
  rfl

theorem serveBy_rate (hcrash : EndsOnCrash H) (d : Desk) (pair : CurrencyPair) (f : RunState σ μ) :
    serveBy H (d.rate pair).run f =
      andThen (serveBy H (d.marketRate pair).run f)
        (orError fun rate g => ((d.withMargin rate).map .ok, g)) := by
  rw [Desk.rate, serveBy_run_bind hcrash]
  refine congrArg (andThen _) (congrArg orError ?_)
  funext rate g
  rw [serveBy_run_lift hcrash, serveBy_lift hcrash]
  cases d.withMargin rate <;> rfl

theorem serveBy_quote (hcrash : EndsOnCrash H) (d : Desk) (pair : CurrencyPair) (amount : Decimal)
    (f : RunState σ μ) :
    serveBy H (d.quote pair amount).run f =
      match d.corridorFor pair amount with
      | .error e => (.ok (.error e), f)
      | .ok corridor =>
          andThen (serveBy H (d.rate pair).run f) (orError fun rate g =>
            andThen ((Desk.quoteAt corridor rate pair amount).run, g) (orError fun quote g =>
              andThen (serveBy H Program.fresh g) fun id g => (.ok (.ok (quote id)), g))) := by
  rw [Desk.quote, serveBy_run_bind hcrash]
  cases d.corridorFor pair amount with
  | error e => rfl
  | ok corridor =>
      change andThen (Except.ok (Except.ok corridor), f) _ = _
      rw [andThen_ok, orError_ok, serveBy_run_bind hcrash]
      refine congrArg (andThen _) (congrArg orError ?_)
      funext rate g
      rw [serveBy_run_bind hcrash, ExceptT.run_mk, serveBy_lift hcrash]
      refine congrArg (andThen _) (congrArg orError ?_)
      funext quote g
      rw [serveBy_run_lift_bind hcrash]
      rfl

/-- A handler under which an identifier can always be made. -/
def Mints (H : Program.Handler (Attempt (RunState σ μ))) : Prop :=
  ∀ f, ∃ id g, serveBy H Program.fresh f = (.ok id, g)

end AnyHandler

/-! ### Programs on a shelf -/

variable [Shelf σ]

def call (c : StoreCall) (f : RunState σ μ) : Except Crash c.Reply × RunState σ μ :=
  let (outcome, store) := (Shelf.answer now c).runOn f.store
  (outcome, { f with store, ledger := noteReply outcome f.ledger })

/-- What the steps of a program mean at a desk with its market. The store always answers in time. -/
def handler : Program.Handler (Attempt (RunState σ μ)) where
  crash c := throw c
  clock := return now
  deadline wait := return h.tick now + wait
  call _ c := do return some (← Attempt.ofRun (call now c))
  price pair := Attempt.ofRun (h.ask now pair)
  priceAll pairs := Attempt.ofRun (h.askAll now pairs)
  mint := Attempt.ofRun h.mint

def serve (p : Program α) (f : RunState σ μ) : Except Crash α × RunState σ μ :=
  (p.run (h.handler now)).runOn f

def inquire (q : Query α) (f : RunState σ μ) : Except Crash α × RunState σ μ :=
  (q.run (return now) fun c => Attempt.ofRun (call now c)).runOn f

@[simp] theorem serve_done (a : α) (f : RunState σ μ) :
    h.serve now (Program.done a) f = (.ok a, f) := rfl

@[simp] theorem serve_pure (a : α) (f : RunState σ μ) :
    h.serve now (pure a : Program α) f = (.ok a, f) := rfl

@[simp] theorem serve_crash (c : Crash) (f : RunState σ μ) :
    h.serve now (Program.crash c : Program α) f = (.error c, f) := rfl

@[simp] theorem serve_clock (k : Instant → Program α) (f : RunState σ μ) :
    h.serve now (.clock k) f = h.serve now (k now) f := rfl

@[simp] theorem serve_deadline (wait : Nat) (k : Nat → Program α) (f : RunState σ μ) :
    h.serve now (.deadline wait k) f = h.serve now (k (h.tick now + wait)) f := rfl

@[simp] theorem serve_call (tick : Nat) (c : StoreCall) (k : Option c.Reply → Program α)
    (f : RunState σ μ) :
    h.serve now (.call tick c k) f =
      andThen (call now c f) fun reply f => h.serve now (k (some reply)) f := by
  simp only [serve, Program.run, handler, bind_assoc, pure_bind]
  exact runOn_bind_eq_andThen _ _ _

@[simp] theorem serve_price (pair : CurrencyPair) (k : Except FxError Rate → Program α)
    (f : RunState σ μ) :
    h.serve now (.price pair k) f =
      andThen (h.ask now pair f) fun reply f => h.serve now (k reply) f :=
  runOn_bind_eq_andThen _ _ _

@[simp] theorem serve_priceAll (pairs : List CurrencyPair) (k : List Rate → Program α)
    (f : RunState σ μ) :
    h.serve now (.priceAll pairs k) f =
      andThen (h.askAll now pairs f) fun rates f => h.serve now (k rates) f :=
  runOn_bind_eq_andThen _ _ _

@[simp] theorem serve_mint (k : Uuid → Program α) (f : RunState σ μ) :
    h.serve now (.mint k) f = andThen (h.mint f) fun id f => h.serve now (k id) f :=
  runOn_bind_eq_andThen _ _ _

theorem endsOnCrash_handler : EndsOnCrash (h.handler now : Program.Handler (Attempt (RunState σ μ))) :=
  fun _ => rfl

theorem mints_handler : Mints (h.handler now : Program.Handler (Attempt (RunState σ μ))) :=
  fun f => ⟨h.ids f.minted, f.minting, rfl⟩

theorem serve_bind (p : Program α) (g : α → Program β) (f : RunState σ μ) :
    h.serve now (p >>= g) f = andThen (h.serve now p f) fun a f => h.serve now (g a) f :=
  serveBy_bind (h.endsOnCrash_handler now) p g f

@[simp] theorem serve_lift (e : Except Crash α) (f : RunState σ μ) :
    h.serve now (Program.lift e) f = (e, f) :=
  serveBy_lift (h.endsOnCrash_handler now) e f

@[simp] theorem serve_run_pure (a : α) (f : RunState σ μ) :
    h.serve now (pure a : ExceptT FxError Program α).run f = (.ok (.ok a), f) := rfl

@[simp] theorem serve_run_throw (e : FxError) (f : RunState σ μ) :
    h.serve now (throw e : ExceptT FxError Program α).run f = (.ok (.error e), f) := rfl

theorem serve_run_bind (t : ExceptT FxError Program α) (g : α → ExceptT FxError Program β)
    (f : RunState σ μ) :
    h.serve now (t >>= g).run f =
      andThen (h.serve now t.run f) (orError fun a f => h.serve now (g a).run f) :=
  serveBy_run_bind (h.endsOnCrash_handler now) t g f

@[simp] theorem serve_run_lift (p : Program α) (f : RunState σ μ) :
    h.serve now (ExceptT.lift p : ExceptT FxError Program α).run f =
      andThen (h.serve now p f) fun a f => (.ok (.ok a), f) :=
  serveBy_run_lift (h.endsOnCrash_handler now) p f

theorem serve_run_lift_bind (p : Program α) (g : α → ExceptT FxError Program β) (f : RunState σ μ) :
    h.serve now (ExceptT.lift p >>= g).run f =
      andThen (h.serve now p f) fun a f => h.serve now (g a).run f :=
  serveBy_run_lift_bind (h.endsOnCrash_handler now) p g f

/-! ### Queries -/

@[simp] theorem inquire_pure (a : α) (f : RunState σ μ) :
    inquire now (pure a : Query α) f = (.ok a, f) := rfl

@[simp] theorem inquire_now (f : RunState σ μ) : inquire now Query.now f = (.ok now, f) := rfl

@[simp] theorem inquire_ask (c : StoreCall) (f : RunState σ μ) :
    inquire now (Query.ask c) f = call now c f := by
  simp only [inquire, Query.ask, Query.run, bind_pure]
  rfl

private theorem inquire_bind (q : Query α) (g : α → Query β) (f : RunState σ μ) :
    inquire now (q >>= g) f = andThen (inquire now q f) fun a f => inquire now (g a) f := by
  change inquire now (q.bind g) f = _
  induction q generalizing f with
  | done a => rfl
  | clock k ih => exact ih now f
  | call c k ih =>
      simp only [Query.bind, inquire, Query.run, runOn_bind_eq_andThen, andThen_andThen]
      congr 1
      funext reply f
      exact ih reply f

theorem inquire_run_bind (q : ExceptT FxError Query α) (g : α → ExceptT FxError Query β)
    (f : RunState σ μ) :
    inquire now (q >>= g).run f =
      andThen (inquire now q.run f) (orError fun a f => inquire now (g a).run f) := by
  rw [ExceptT.run_bind, inquire_bind]
  congr 1
  funext a f
  cases a <;> rfl

theorem inquire_run_liftM_bind (q : Query α) (g : α → ExceptT FxError Query β) (f : RunState σ μ) :
    inquire now ((liftM q : ExceptT FxError Query α) >>= g).run f =
      andThen (inquire now q f) fun a f => inquire now (g a).run f := by
  rw [inquire_run_bind]
  change andThen (inquire now (q >>= fun a => pure (Except.ok a)) f) _ = _
  rw [inquire_bind, andThen_andThen]
  rfl

theorem serve_within (tick : Nat) (q : Query α) (f : RunState σ μ) :
    h.serve now (Program.within tick q) f =
      andThen (inquire now q f) fun a f => (.ok (some a), f) := by
  induction q generalizing f with
  | done a => rfl
  | clock k ih => exact ih now f
  | call c k ih =>
      simp only [Program.within, serve_call, inquire, Query.run, runOn_bind_eq_andThen,
        andThen_andThen]
      congr 1
      funext reply f
      exact ih reply f

/-- The records are consulted as they are queried: the store is never late. -/
theorem serve_consult (d : Desk) (operation : String) (q : ExceptT FxError Query α)
    (f : RunState σ μ) :
    h.serve now (d.consult operation q).run f = inquire now q.run f := by
  rw [Desk.consult, serve_run_lift_bind, serve_deadline, serve_done, andThen_ok,
    serve_run_lift_bind, serve_within, andThen_andThen]
  rcases inquire now q.run f with ⟨c | (e | a), f⟩ <;> rfl

end MarketDesk

end Bureau
