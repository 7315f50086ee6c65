import Bureau.Store.Call

/-!
Queries: what a client of a store does, as a tree of store calls and clock readings with every
possible reply. A query says nothing about how long a call takes or what comes back.
-/

set_option autoImplicit false

namespace Bureau

/-- A computation over a store and a clock. -/
inductive Query (α : Type) where
  | done (a : α)
  | clock (k : Instant → Query α)
  | call (c : StoreCall) (k : c.Reply → Query α)

namespace Query

def bind {α β : Type} (q : Query α) (f : α → Query β) : Query β :=
  match q with
  | done a => f a
  | clock k => clock fun now => (k now).bind f
  | call c k => call c fun reply => (k reply).bind f

instance : Monad Query where
  pure := done
  bind := bind

def now : Query Instant := clock done

def ask (c : StoreCall) : Query c.Reply := call c done

theorem bind_done {α : Type} (q : Query α) : q.bind done = q := by
  induction q with
  | done a => rfl
  | clock k ih => simp only [bind, ih]
  | call c k ih => simp only [bind, ih]

theorem bind_bind {α β γ : Type} (q : Query α) (f : α → Query β) (g : β → Query γ) :
    (q.bind f).bind g = q.bind fun a => (f a).bind g := by
  induction q with
  | done a => rfl
  | clock k ih => simp only [bind, ih]
  | call c k ih => simp only [bind, ih]

instance : LawfulMonad Query :=
  LawfulMonad.mk' Query (fun q => bind_done q) (fun _ _ => rfl) (fun q f g => bind_bind q f g)

def run {m : Type → Type} [Monad m] {α : Type} (clock : m Instant)
    (call : (c : StoreCall) → m c.Reply) : Query α → m α
  | .done a => pure a
  | .clock k => clock >>= fun now => (k now).run clock call
  | .call c k => call c >>= fun reply => (k reply).run clock call

end Query

end Bureau
