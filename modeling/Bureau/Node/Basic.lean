import Bureau.Host.Reaper
import Bureau.Host.Subscription
import Bureau.Node.Settings

/-!
Nodes: a host with a simulated market that is started and stopped. While it runs, a reaper and a
reporter look after the store; feeds for the journal can be added at any time. Stopping sends the tasks
in the background a signal and waits for those whose handles the node keeps.
-/

set_option autoImplicit false

namespace Bureau

/-- The stages in the life of a node. -/
inductive NodeState where
  | starting
  | running
  | shuttingDown
  | stopped
deriving DecidableEq

structure Node where
  settings : NodeSettings
  id : String
  state : NodeState
  host : Host
  /-- The tasks that the next stop waits for. -/
  handles : List Nat

/-- An action of the foreground on the state of a node, which can crash or hang. -/
abbrev NodeErrand (α : Type) := ExceptT Halt (StateM Node) α

namespace Node

def registry (settings : NodeSettings) (readFile : String → Except String String) :
    Except FxError Registry :=
  match settings.corridorsPath with
  | none => Registry.standard
  | some path =>
      match readFile path with
      | .ok text => Registry.ofText text
      | .error reason => .error (.invalidConfig s!"cannot read {path}: {reason}")

def make (settings : NodeSettings) (id : String) (readFile : String → Except String String)
    (clock : Clock) (entropy : UInt64) : Except FxError Node := do
  let registry ← registry settings readFile
  let market ← SimulatedMarket.make { MarketSettings.standard with seed := settings.seed } entropy
  let office : Office :=
    ⟨clock, .sound (.empty Store.standardCapacity), .simulated market, 0⟩
  return ⟨settings, id, .starting, .quiet ⟨registry, settings.policy⟩ office, []⟩

/-- Adds a reporter whose first count is due at once; there is none without time between counts. -/
def addReporter (h : Host) (interval : Duration) : Host :=
  if interval ≤ Duration.zero then h else h.employ (.report interval.timerNanos)

/-- The node with the tasks that have been added to its host, whose handles it keeps. -/
def adopt (n : Node) (h : Host) : Node :=
  { n with
    host := h
    handles := n.handles ++ List.range' n.host.crew.size (h.crew.size - n.host.crew.size) }

end Node

namespace NodeErrand

/-- The result of an errand, and the node once everything in its background waits again. -/
def runOn {α : Type} (errand : NodeErrand α) (n : Node) : Except Halt α × Node :=
  let (outcome, n) := errand.run.run n
  (outcome, { n with host := n.host.settle })

def onHost {α : Type} (errand : Errand α) : NodeErrand α := do
  let ⟨settings, id, state, host, handles⟩ ← get
  let (outcome, host) := errand.run.run host
  set (⟨settings, id, state, host, handles⟩ : Node)
  outcome

/-- Starts the background of a node, once the store answers. -/
def start : NodeErrand (Except FxError Unit) := do
  match ← onHost (Errand.serve (← get).host.desk.health.run) with
  | .error e => return .error e
  | .ok () =>
      modify fun n => { n.adopt (Node.addReporter (n.host.addReaper n.settings.reaperInterval)
          n.settings.statsInterval) with
        state := .running }
      return .ok ()

def addFeed (pairs : List CurrencyPair) (interval : Option Duration)
    (batchFirst : Nat → Bool := fun _ => false) : NodeErrand Unit :=
  modify fun n => n.adopt (n.host.addFeed pairs interval .journal batchFirst)

/-- Tells everything in the background to stop and waits until it has ended. -/
def stop : NodeErrand Unit := do
  modify fun n => { n with state := .shuttingDown, host := n.host.send true }
  let awaited := (← get).handles
  modify fun n => { n with handles := [] }
  onHost (Errand.join awaited)
  modify fun n => { n with state := .stopped }

def takeJournal : NodeErrand (List Event) :=
  modifyGet fun n => (n.host.journal.reverse, { n with host := { n.host with journal := [] } })

end NodeErrand

end Bureau
