import Bureau.Program.Query
import Bureau.Provider.Basic

/-!
Programs: what the desk does on a request, as a tree of its dealings with the clock, the store, the
provider and the source of fresh identifiers. Store calls are made under a deadline.
-/

set_option autoImplicit false

namespace Bureau

/-- A computation of the desk. -/
inductive Program (α : Type) where
  | done (a : α)
  | crash (c : Crash)
  | clock (k : Instant → Program α)
  /-- Sets a deadline a number of milliseconds ahead and goes on with its tick. -/
  | deadline (wait : Nat) (k : Nat → Program α)
  /-- Calls the store; there is no reply when the deadline passes first. -/
  | call (deadline : Nat) (c : StoreCall) (k : Option c.Reply → Program α)
  | price (pair : CurrencyPair) (k : Except FxError Rate → Program α)
  | priceAll (pairs : List CurrencyPair) (k : List Rate → Program α)
  /-- Makes a fresh identifier. -/
  | mint (k : Uuid → Program α)

namespace Program

def bind {α β : Type} (p : Program α) (f : α → Program β) : Program β :=
  match p with
  | done a => f a
  | crash c => crash c
  | clock k => clock fun now => (k now).bind f
  | deadline wait k => deadline wait fun tick => (k tick).bind f
  | call tick c k => call tick c fun reply => (k reply).bind f
  | price pair k => price pair fun rate => (k rate).bind f
  | priceAll pairs k => priceAll pairs fun rates => (k rates).bind f
  | mint k => mint fun id => (k id).bind f

instance : Monad Program where
  pure := done
  bind := bind

theorem bind_done {α : Type} (p : Program α) : p.bind done = p := by
  induction p with
  | done a => rfl
  | crash c => rfl
  | clock k ih => simp only [bind, ih]
  | deadline wait k ih => simp only [bind, ih]
  | call tick c k ih => simp only [bind, ih]
  | price pair k ih => simp only [bind, ih]
  | priceAll pairs k ih => simp only [bind, ih]
  | mint k ih => simp only [bind, ih]

theorem bind_bind {α β γ : Type} (p : Program α) (f : α → Program β) (g : β → Program γ) :
    (p.bind f).bind g = p.bind fun a => (f a).bind g := by
  induction p with
  | done a => rfl
  | crash c => rfl
  | clock k ih => simp only [bind, ih]
  | deadline wait k ih => simp only [bind, ih]
  | call tick c k ih => simp only [bind, ih]
  | price pair k ih => simp only [bind, ih]
  | priceAll pairs k ih => simp only [bind, ih]
  | mint k ih => simp only [bind, ih]

instance : LawfulMonad Program :=
  LawfulMonad.mk' Program (fun p => bind_done p) (fun _ _ => rfl) (fun p f g => bind_bind p f g)

def lift {α : Type} : Except Crash α → Program α
  | .ok a => done a
  | .error c => crash c

instance : MonadLift (Except Crash) Program := ⟨lift⟩

def now : Program Instant := clock done

def rateOf (pair : CurrencyPair) : Program (Except FxError Rate) := price pair done

def ratesOf (pairs : List CurrencyPair) : Program (List Rate) := priceAll pairs done

def fresh : Program Uuid := mint done

/-- A query whose calls have to be answered by a deadline; it is given up at the first one that is
not. -/
def within {α : Type} (tick : Nat) : Query α → Program (Option α)
  | .done a => done (some a)
  | .clock k => clock fun now => within tick (k now)
  | .call c k => call tick c fun
      | some reply => within tick (k reply)
      | none => done none

/-- The meaning of the steps of a program in a monad. -/
structure Handler (m : Type → Type) where
  crash : {α : Type} → Crash → m α
  clock : m Instant
  deadline : (wait : Nat) → m Nat
  call : (deadline : Nat) → (c : StoreCall) → m (Option c.Reply)
  price : CurrencyPair → m (Except FxError Rate)
  priceAll : List CurrencyPair → m (List Rate)
  mint : m Uuid

def run {m : Type → Type} [Monad m] {α : Type} (h : Handler m) : Program α → m α
  | .done a => pure a
  | .crash c => h.crash c
  | .clock k => h.clock >>= fun now => (k now).run h
  | .deadline wait k => h.deadline wait >>= fun tick => (k tick).run h
  | .call tick c k => h.call tick c >>= fun reply => (k reply).run h
  | .price pair k => h.price pair >>= fun rate => (k rate).run h
  | .priceAll pairs k => h.priceAll pairs >>= fun rates => (k rates).run h
  | .mint k => h.mint >>= fun id => (k id).run h

end Program

end Bureau
