import Bureau.Node.CommandLine
import Std.Time.DateTime.Timestamp

/-!
The command line program: it launches a node, lets it run in real time and prints its journal.
-/

set_option autoImplicit false

namespace Bureau

def knownVariables : List String :=
  ["RATE_CACHE_TTL_SECS", "RATE_LOCK_DEFAULT_SECS", "RATE_LOCK_MAX_SECS", "STORE_TIMEOUT_MS",
    "DEFAULT_MARGIN_PERCENT", "NODE_ID", "REAPER_INTERVAL_MS", "CORRIDORS_PATH", "RATE_SEED",
    "STREAM_PAIRS", "LOG_FORMAT"]

def processEnvironment : IO Environment := do
  let values ← knownVariables.mapM fun name => do return (name, ← IO.getEnv name)
  return fun name => (values.lookup name).join

def fileReason : IO.Error → String
  | .noFileOrDirectory _ code details => s!"{details} (os error {code})"
  | .inappropriateType _ code details => s!"{details} (os error {code})"
  | .permissionDenied _ code details => s!"{details} (os error {code})"
  | e => toString e

def readTable (path : String) : IO (Except String String) := do
  try
    return .ok (← IO.FS.readFile path)
  catch e =>
    return .error (fileReason e)

def machineClock : IO Clock := do
  let now ← Std.Time.Timestamp.now
  return ⟨now.toNanosecondsSinceUnixEpoch.val, 0⟩

def randomBelow (bound : Nat) : IO Nat := IO.rand 0 (bound - 1)

def randomUuid : IO Uuid := do
  let high ← randomBelow (twoTo 48)
  let middle ← randomBelow (twoTo 12)
  let low ← randomBelow (twoTo 62)
  let number := high * twoTo 80 + 4 * twoTo 76 + middle * twoTo 64 + twoTo 63 + low
  return if h : number < twoTo 128 then ⟨number, h⟩ else Uuid.numbered low

def eventLine (json : Bool) : Event → String
  | .rate r =>
      if json then Document.write r
      else s!"Rate pair={r.pair} mid={r.mid} bid={r.rate.bid} ask={r.rate.ask} buy={r.buyRate}"
  | .stats s =>
      if json then
        (Json.record [("live", .int s.live), ("expired", .int s.expired)]).write
      else s!"Store statistics live={s.live} expired={s.expired}"
  | .closed => if json then "null" else "Rate stream closed"

def flushJournal (n : Node) : IO Node := do
  let (events, n) := NodeErrand.takeJournal.runOn n
  if let .ok events := events then
    for event in events do
      IO.println (eventLine n.settings.jsonLogs event)
  (← IO.getStdout).flush
  return n

/-- Runs a node in real time until a number of milliseconds has passed, or without end. -/
partial def runNode (n : Node) (start : Nat) (limit : Option Nat) : IO Node := do
  let n ← flushJournal n
  let elapsed := (← IO.monoMsNow) - start
  if limit.any (· ≤ elapsed) then return n
  IO.sleep 10
  let target := (limit.map (Nat.min (elapsed + 10))).getD (elapsed + 10)
  runNode { n with host := n.host.advanceTo target } start limit

def launchNode (line : CommandLine) (env : Environment) : IO UInt32 := do
  let refuse := fun (r : Refusal) => do
    if let some message := r.message? then IO.eprintln message
    return r.status
  match line.settings env with
  | .error r => refuse r
  | .ok settings =>
      let table ← match settings.corridorsPath with
        | some path => readTable path
        | none => pure (.ok "")
      let entropy ← randomBelow (twoTo 64)
      match line.run settings (fun _ => table) (← machineClock) (.ofNat entropy) (← randomUuid) with
      | .error r => refuse r
      | .ok node =>
          let limit := (line.duration.filter (0 < ·)).map (1000 * ·)
          let node ← runNode node (← IO.monoMsNow) limit
          let _ ← flushJournal (NodeErrand.stop.runOn node).2
          return 0

def usage : String :=
  "Usage: node [--seed N] [--corridors FILE] [--pairs SRC/TGT,...] [--interval-ms N]\n" ++
    "            [--duration SECONDS] [--json]"

end Bureau

def main (args : List String) : IO UInt32 := do
  if args == ["--help"] || args == ["-h"] then
    IO.println Bureau.usage
    return 0
  match Bureau.CommandLine.read? {} args with
  | none =>
      IO.eprintln Bureau.usage
      return 2
  | some line => Bureau.launchNode line (← Bureau.processEnvironment)
