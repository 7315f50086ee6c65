import Bureau.Desk.Environment
import Bureau.Money.PairList

/-!
The settings of a node, and those that an environment asks for.
-/

set_option autoImplicit false

namespace Bureau

structure NodeSettings where
  nodeId : Option String
  policy : Policy
  /-- The time between two purges of the store. -/
  reaperInterval : Duration
  /-- The time between two counts of the store. -/
  statsInterval : Duration
  /-- The file with the table of corridors; the standard table serves without one. -/
  corridorsPath : Option String
  /-- The seed of the market. -/
  seed : Option UInt64
  /-- The pairs whose rates are noted in the journal. -/
  feedPairs : List CurrencyPair
  /-- Whether the journal is written as JSON. -/
  jsonLogs : Bool
deriving DecidableEq

namespace NodeSettings

def standard : NodeSettings where
  nodeId := none
  policy := Policy.standard
  reaperInterval := Duration.ofMillis 1000
  statsInterval := Duration.ofMillis 30000
  corridorsPath := none
  seed := none
  feedPairs := [CurrencyPair.ofCodes "SGD" "PHP", CurrencyPair.ofCodes "USD" "SGD"]
  jsonLogs := false

def parseSeed? (text : String) : Option UInt64 :=
  (Text.readNat? (twoTo 64) text.toList).map UInt64.ofNat

def isJson (text : String) : Bool := text.toList.map Char.toLower == ['j', 's', 'o', 'n']

/-- The settings that an environment asks for. A variable that cannot be read is ignored. -/
def ofEnvironment (env : Environment) : Except Crash NodeSettings := do
  let s := standard
  let policy ← Policy.ofEnvironment env
  let reaperMillis? := (env "REAPER_INTERVAL_MS").bind fun text => Text.readInt64? text.toList
  let reaperInterval ← Environment.lengthOf reaperMillis? Duration.millis? s.reaperInterval
  return { s with
    policy, reaperInterval
    nodeId := env "NODE_ID"
    corridorsPath := env "CORRIDORS_PATH"
    seed := (env "RATE_SEED").bind parseSeed?
    feedPairs := ((env "STREAM_PAIRS").bind fun text =>
      (CurrencyPair.parseList text).toOption).getD s.feedPairs
    jsonLogs := (env "LOG_FORMAT").any isJson }

def validate (s : NodeSettings) : Except String Unit := do
  if s.reaperInterval ≤ Duration.zero then throw "Reaper interval must be positive"
  if s.statsInterval ≤ Duration.zero then throw "Stats interval must be positive"
  match s.feedPairs.find? (·.isIdentity) with
  | some pair => throw s!"Stream pair {pair} maps a currency to itself"
  | none => s.policy.validate

end NodeSettings

end Bureau
