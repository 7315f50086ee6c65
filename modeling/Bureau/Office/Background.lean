import Bureau.Office.Basic

/-!
Programs in the background. Such a program runs until it ends or has to wait for the store; then it
sleeps until a tick and goes on from there.
-/

set_option autoImplicit false

namespace Bureau

/-- What a sleeping program does when it wakes: it makes a store call, or goes on without one. -/
inductive Wakening (α : Type) where
  | call (c : StoreCall) (k : Option c.Reply → Program α)
  | resume (p : Program α)

/-- How far a program has come. -/
inductive Progress (α : Type) where
  | finished (a : α)
  | crashed
  | asleep (wake : Nat) (next : Wakening α)

namespace Office

/-- A program that sleeps until its store call is answered, or until the deadline if that is
earlier. -/
def sleepUntil {α : Type} (deadline wake : Nat) (inTime late : Wakening α) : Progress α :=
  if wake ≤ deadline then .asleep wake inTime else .asleep deadline late

/-- Runs a program until it ends or sleeps. A wait of no length, or one whose deadline has been
reached, is no sleep. -/
def perform {α : Type} (o : Office) : Program α → Progress α × Office
  | .done a => (.finished a, o)
  | .crash _ => (.crashed, o)
  | .clock k =>
      match o.clock.read with
      | .ok now => o.perform (k now)
      | .error _ => (.crashed, o)
  | .deadline wait k => o.perform (k (o.ticks + wait))
  | .call tick c k =>
      match (begin c).runOn o with
      | (.error _, o) => (.crashed, o)
      | (.ok (.answered reply), o) => o.perform (k (some reply))
      | (.ok (.asked wait), o) =>
          if wait = 0 then
            match (ask c).runOn o with
            | (.error _, o) => (.crashed, o)
            | (.ok reply, o) => o.perform (k (some reply))
          else if tick ≤ o.ticks then o.perform (k none)
          else (sleepUntil tick (o.ticks + wait) (.call c k) (.resume (k none)), o)
      | (.ok (.held wait reply), o) =>
          if wait = 0 then o.perform (k (some reply))
          else if tick ≤ o.ticks then o.perform (k none)
          else (sleepUntil tick (o.ticks + wait) (.resume (k (some reply))) (.resume (k none)), o)
  | .price pair k =>
      match (price pair).runOn o with
      | (.error _, o) => (.crashed, o)
      | (.ok rate, o) => o.perform (k rate)
  | .priceAll pairs k =>
      match (priceAll pairs).runOn o with
      | (.error _, o) => (.crashed, o)
      | (.ok rates, o) => o.perform (k rates)
  | .mint k =>
      match mint.runOn o with
      | (.error _, o) => (.crashed, o)
      | (.ok id, o) => o.perform (k id)

def wake {α : Type} (o : Office) : Wakening α → Progress α × Office
  | .resume p => o.perform p
  | .call c k =>
      match (ask c).runOn o with
      | (.error _, o) => (.crashed, o)
      | (.ok reply, o) => o.perform (k (some reply))

end Office

end Bureau
