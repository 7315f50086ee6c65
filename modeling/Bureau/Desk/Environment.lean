import Bureau.Desk.Policy
import Bureau.Text.Blank

/-!
Environments, and the policy that one asks for. A variable that cannot be read as its type is
ignored; a length of time that has no representation is a crash.
-/

set_option autoImplicit false

namespace Bureau

abbrev Environment := String → Option String

namespace Environment

/-- A variable with white space around it taken off, as far as it can be read. -/
def read? {α : Type} (env : Environment) (parse : List Char → Option α) (name : String) :
    Option α :=
  (env name).bind fun text => parse (Text.trim text.toList)

/-- The length of time that a number stands for, or the default without a number. -/
def lengthOf (number? : Option Int) (measure : Int → Option Duration) (default : Duration) :
    Except Crash Duration :=
  match number? with
  | some n => Crash.duration.unless (measure n)
  | none => .ok default

def length (env : Environment) (measure : Int → Option Duration) (name : String)
    (default : Duration) : Except Crash Duration :=
  lengthOf (env.read? Text.readInt64? name) measure default

end Environment

def Policy.ofEnvironment (env : Environment) : Except Crash Policy := do
  let p := Policy.standard
  let rateLife ← env.length Duration.seconds? "RATE_CACHE_TTL_SECS" p.rateLife
  let defaultLength ←
    env.length Duration.seconds? "RATE_LOCK_DEFAULT_SECS" p.lockTerms.defaultLength
  let maxLength ← env.length Duration.seconds? "RATE_LOCK_MAX_SECS" p.lockTerms.maxLength
  let storeTimeout ← env.length Duration.millis? "STORE_TIMEOUT_MS" p.storeTimeout
  let margin := env.read? Decimal.ofChars? "DEFAULT_MARGIN_PERCENT"
  return { p with
    rateLife, storeTimeout
    defaultMargin := margin.getD p.defaultMargin
    lockTerms := { p.lockTerms with defaultLength, maxLength } }

end Bureau
