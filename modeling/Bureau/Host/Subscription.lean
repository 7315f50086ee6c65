import Bureau.Host.Basic

/-!
Subscriptions: what subscribers do with their feeds. A subscription has two ends, a receiver that
takes the rates and a handle that stops the feed; either can be given up.
-/

set_option autoImplicit false

namespace Bureau

/-- The end of a subscription that has been given up. -/
inductive MissingEnd where
  | receiver
  | handle
deriving DecidableEq

/-- How taking what is there comes to its end. -/
inductive DrainEnd where
  /-- As many rates as asked for were taken. -/
  | enough
  /-- The queue is empty and more may come. -/
  | empty
  /-- Nothing more will come. -/
  | closed
deriving DecidableEq

namespace Host

def received? (h : Host) (index : Nat) : Except MissingEnd Feed :=
  match h.feeds[index]? with
  | some f => if f.receiving then .ok f else .error .receiver
  | none => .error .receiver

def held? (h : Host) (index : Nat) : Except MissingEnd Feed :=
  match h.feeds[index]? with
  | some f => if f.held then .ok f else .error .handle
  | none => .error .handle

/-- The time between two batches: the one asked for if it is positive, else that of the policy. -/
def feedInterval (h : Host) (interval : Option Duration) : Duration :=
  (interval.filter fun i => Duration.zero < i).getD h.desk.policy.feedInterval

/-- Adds a feed whose first batch is due at once, and for the journal a task that reads it. -/
def addFeed (h : Host) (pairs : List CurrencyPair) (interval : Option Duration) (reader : Reader)
    (batchFirst : Nat → Bool) : Host :=
  let index := h.feeds.length
  let feed := Feed.start pairs (h.feedInterval interval) reader batchFirst h.ticks
  let h := { h with feeds := h.feeds ++ [feed] }.wake (.feed index)
  match reader with
  | .subscriber => h
  | .journal => { h with crew := h.crew.hire (.read index) }.wake (.read index)

def takeRates (h : Host) (index count : Nat) : Host :=
  h.updateFeed index (fun f => { f with queue := f.queue.drop count }) Feed.isBlocked

def dropReceiver (h : Host) (index : Nat) : Host :=
  h.updateFeed index (fun f => { f with receiving := false, queue := [] })
    fun f => f.isIdle || f.isBlocked

/-- Gives up the handle of a subscription, which tells the feed to stop. -/
def dropHandle (h : Host) (index : Nat) : Host :=
  h.updateFeed index (fun f => { f with held := false, stopping := true }) Feed.isIdle

end Host

namespace Errand

/-- Waits until something is true of a feed, or gives up after an hour. -/
def waitForFeed (index : Nat) (condition : Feed → Bool) : Errand Unit := do
  let stop := fun h : Host => (h.feeds[index]?).all condition
  modify fun h => h.advanceUntil stop (h.ticks + patience) h.ticks
  if !stop (← get) then throw .hang

/-- Starts a subscription; also its index. Unless something else is said its end comes before a batch
that is due at the same time. -/
def subscribe (pairs : List CurrencyPair) (interval : Option Duration)
    (batchFirst : Nat → Bool := fun _ => false) : Errand Nat := do
  let index := (← get).feeds.length
  modify (·.addFeed pairs interval .subscriber batchFirst)
  return index

/-- Waits for the next rate of a subscription; none when the feed has ended. -/
def receive (index : Nat) : Errand (Except MissingEnd (Option ExchangeRate)) := do
  match (← get).received? index with
  | .error e => return .error e
  | .ok _ =>
      waitForFeed index fun f => !f.queue.isEmpty || f.hasEnded
      match ((← get).feeds[index]?).bind (·.queue.head?) with
      | none => return .ok none
      | some rate =>
          modify (·.takeRates index 1)
          return .ok (some rate)

/-- Takes what is there of a subscription, up to a number of rates. -/
def drain (index most : Nat) : Errand (Except MissingEnd (List ExchangeRate × DrainEnd)) := do
  match (← get).received? index with
  | .error e => return .error e
  | .ok f =>
      let rates := f.queue.take most
      let reason : DrainEnd :=
        if most ≤ f.queue.length then .enough else if f.hasEnded then .closed else .empty
      modify (·.takeRates index most)
      return .ok (rates, reason)

def dropReceiver (index : Nat) : Errand (Except MissingEnd Unit) := do
  modify (·.dropReceiver index)
  return .ok ()

/-- Tells a feed to stop and waits until it has ended. The handle is used up. -/
def stopFeed (index : Nat) : Errand (Except MissingEnd Unit) := do
  match (← get).held? index with
  | .error e => return .error e
  | .ok _ =>
      modify (·.dropHandle index)
      waitForFeed index (·.hasEnded)
      return .ok ()

def dropHandle (index : Nat) : Errand (Except MissingEnd Unit) := do
  match (← get).held? index with
  | .error e => return .error e
  | .ok _ =>
      modify (·.dropHandle index)
      return .ok ()

def feedEnded (index : Nat) : Errand (Except MissingEnd Bool) := do
  return ((← get).held? index).map (·.hasEnded)

end Errand

end Bureau
