import Bureau.Node.Basic

/-!
The command line of a node: its options, and how a node is launched from them and an environment.
Options win over the environment, and each can be given once, except for the pairs.
-/

set_option autoImplicit false

namespace Bureau

/-- The options of the command line. -/
structure CommandLine where
  seed : Option UInt64 := none
  corridors : Option String := none
  pairs : List CurrencyPair := []
  /-- The milliseconds between two batches of rates. -/
  interval : Option Int := none
  /-- The seconds to run; without it until interrupted. -/
  duration : Option Nat := none
  json : Bool := false

inductive Refusal where
  /-- The command line makes no sense. -/
  | usage
  /-- The settings are not accepted. -/
  | settings (reason : String)
  /-- The node cannot be built or started. -/
  | node (error : FxError)
  | halt (halt : Halt)

namespace Refusal

def status : Refusal → UInt32
  | .usage => 2
  | .settings _ => 1
  | .node _ => 1
  | .halt _ => 101

def message? : Refusal → Option String
  | .usage => none
  | .settings reason => some ("Error: Configuration error: " ++ reason)
  | .node e => some ("Error: " ++ e.message)
  | .halt _ => none

end Refusal

namespace CommandLine

inductive Name where
  | seed
  | corridors
  | pairs
  | interval
  | duration
deriving DecidableEq

def Name.ofChars? (cs : List Char) : Option Name :=
  match String.ofList cs with
  | "seed" => some .seed
  | "corridors" => some .corridors
  | "pairs" => some .pairs
  | "interval-ms" => some .interval
  | "duration" => some .duration
  | _ => none

def once {α : Type} (old new : Option α) : Option (Option α) :=
  match old, new with
  | none, some a => some (some a)
  | _, _ => none

/-- The command line with one more option. Pairs are added to those before. -/
def set? (l : CommandLine) (name : Name) (value : List Char) : Option CommandLine :=
  match name with
  | .seed => do
      return { l with seed := ← once l.seed (NodeSettings.parseSeed? (String.ofList value)) }
  | .corridors => do
      let path := if value = [] then none else some (String.ofList value)
      return { l with corridors := ← once l.corridors path }
  | .pairs => do
      let pairs ← ((CurrencyPair.items ',' value).mapM CurrencyPair.parseChars).toOption
      return { l with pairs := l.pairs ++ pairs }
  | .interval => do
      return { l with interval := ← once l.interval (Text.readInt64? value) }
  | .duration => do
      return { l with duration := ← once l.duration (Text.readNat? (twoTo 64) value) }

/-- Whether an argument can be the value of the option before it. -/
def isValue (argument : String) : Bool :=
  match argument.toList with
  | '-' :: _ :: _ => false
  | _ => true

def read? (l : CommandLine) : List String → Option CommandLine
  | [] => some l
  | ["--"] => some l
  | argument :: rest =>
      match argument.toList with
      | '-' :: '-' :: option =>
          match option.dropWhile (· != '=') with
          | _ :: value => do
              let name ← Name.ofChars? (option.takeWhile (· != '='))
              (← l.set? name value).read? rest
          | [] =>
              if option = ['j', 's', 'o', 'n'] then
                if l.json then none else { l with json := true }.read? rest
              else
                match rest with
                | [] => none
                | value :: rest =>
                    if isValue value then do
                      (← l.set? (← Name.ofChars? option) value.toList).read? rest
                    else none
      | _ => none

def override (l : CommandLine) (s : NodeSettings) : NodeSettings :=
  { s with
    seed := l.seed.or s.seed
    corridorsPath := l.corridors.or s.corridorsPath
    feedPairs := if l.pairs.isEmpty then s.feedPairs else l.pairs
    jsonLogs := s.jsonLogs || l.json }

def settings (l : CommandLine) (env : Environment) : Except Refusal NodeSettings :=
  match NodeSettings.ofEnvironment env with
  | .error c => .error (.halt (.crash c))
  | .ok s =>
      let s := l.override s
      match s.validate with
      | .error reason => .error (.settings reason)
      | .ok () => .ok s

/-- The name of a node: the one in its settings, or one made from a UUID. -/
def nodeId (s : NodeSettings) (fresh : Uuid) : String :=
  s.nodeId.getD ("ratedesk-" ++ fresh.text)

def launch (l : CommandLine) (n : Node) : Except Refusal Node :=
  match NodeErrand.start.runOn n with
  | (.error halt, _) => .error (.halt halt)
  | (.ok (.error e), _) => .error (.node e)
  | (.ok (.ok ()), n) =>
      match l.interval.mapM fun ms => Crash.duration.unless (Duration.millis? ms) with
      | .error c => .error (.halt (.crash c))
      | .ok interval => .ok ((NodeErrand.addFeed n.settings.feedPairs interval).runOn n).2

def run (l : CommandLine) (s : NodeSettings) (readFile : String → Except String String)
    (clock : Clock) (entropy : UInt64) (fresh : Uuid) : Except Refusal Node :=
  match Node.make s (nodeId s fresh) readFile clock entropy with
  | .error e => .error (.node e)
  | .ok n => l.launch n

end CommandLine

end Bureau
