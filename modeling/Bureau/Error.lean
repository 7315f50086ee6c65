import Bureau.Money.Amount

/-!
What can go wrong: errors that an operation reports, and crashes that end it. A crash comes from
arithmetic or a date out of range where no error is foreseen.
-/

set_option autoImplicit false

namespace Bureau

/-- What a key-value store reports. -/
inductive StoreError where
  | unavailable (detail : String)
  | expired (detail : String)
deriving DecidableEq

def StoreError.message : StoreError → String
  | .unavailable detail => "store unavailable: " ++ detail
  | .expired detail => "key expired: " ++ detail

/-- The errors of quoting, caching and locking. -/
inductive FxError where
  | unsupportedPair (pair : CurrencyPair)
  | corridorNotFound (pair : CurrencyPair)
  | corridorDisabled (pair : CurrencyPair)
  | invalidAmount (detail : String)
  | invalidConfig (detail : String)
  | storeUnavailable (detail : String)
  | timeout (detail : String)
  | unreadable (detail : String)
  | currencyMismatch (mismatch : CurrencyMismatch)
deriving DecidableEq

namespace FxError

def ofStore (e : StoreError) : FxError := .storeUnavailable e.message

def message : FxError → String
  | .unsupportedPair pair => s!"Rate not available for {pair}"
  | .corridorNotFound pair => s!"No corridor configured for {pair}"
  | .corridorDisabled pair => s!"Corridor {pair} is disabled"
  | .invalidAmount detail => "Invalid amount: " ++ detail
  | .invalidConfig detail => "Invalid configuration: " ++ detail
  | .storeUnavailable detail => "Store unavailable: " ++ detail
  | .timeout detail => "Operation timed out: " ++ detail
  | .unreadable detail => "Serialization error: " ++ detail
  | .currencyMismatch mismatch => mismatch.message

def code : FxError → String
  | .unsupportedPair _ => "RATE_NOT_AVAILABLE"
  | .corridorNotFound _ => "CORRIDOR_NOT_FOUND"
  | .corridorDisabled _ => "CORRIDOR_DISABLED"
  | .invalidAmount _ => "INVALID_AMOUNT"
  | .invalidConfig _ => "INVALID_CONFIG"
  | .storeUnavailable _ => "STORE_UNAVAILABLE"
  | .timeout _ => "TIMEOUT"
  | .unreadable _ => "SERIALIZATION_ERROR"
  | .currencyMismatch _ => "CURRENCY_MISMATCH"

def isClientError : FxError → Bool
  | .unsupportedPair _ | .corridorNotFound _ | .corridorDisabled _ | .invalidAmount _
  | .currencyMismatch _ => true
  | _ => false

/-- Whether the same call may succeed later with the same settings. -/
def isRetryable : FxError → Bool
  | .storeUnavailable _ | .timeout _ => true
  | _ => false

end FxError

/-- What ends an operation without an error: a number or a time out of range. -/
inductive Crash where
  | arithmetic
  | calendar
  | duration
deriving DecidableEq

def Crash.unless {α : Type} (crash : Crash) : Option α → Except Crash α
  | some a => .ok a
  | none => .error crash

/-- An operation on a state that may crash. What it has done to the state by then stays done. -/
abbrev Attempt (σ α : Type) := ExceptT Crash (StateM σ) α

def Attempt.runOn {σ α : Type} (operation : Attempt σ α) (state : σ) : Except Crash α × σ :=
  operation.run.run state

end Bureau
