import Bureau.Money.Currency

/-!
Pairs as people type them: two codes with a slash between them, and lists of such pairs with commas
between them. White space around codes does not count, and neither do blank items of a list.
-/

set_option autoImplicit false

namespace Bureau

/-- What is wrong with a typed pair. -/
inductive PairError where
  | noSlash (raw : String)
  | badCode (error : InvalidCode)

def PairError.message : PairError → String
  | .noSlash raw => "expected SRC/TGT, got " ++ Text.quoted raw
  | .badCode error => error.message

namespace CurrencyPair

def parseCode (cs : List Char) : Except PairError Currency :=
  (Currency.parse (String.ofList cs)).mapError .badCode

def parseChars (cs : List Char) : Except PairError CurrencyPair := do
  let inner := Text.trim cs
  match inner.dropWhile (· != '/') with
  | [] => throw (.noSlash (String.ofList cs))
  | _ :: target => return ⟨← parseCode (inner.takeWhile (· != '/')), ← parseCode target⟩

def parse (text : String) : Except PairError CurrencyPair := parseChars text.toList

def items (separator : Char) : List Char → List (List Char)
  | [] => [[]]
  | c :: cs =>
      if c = separator then [] :: items separator cs
      else
        match items separator cs with
        | [] => [[c]]
        | item :: rest => (c :: item) :: rest

def parseList (text : String) : Except PairError (List CurrencyPair) :=
  ((items ',' text.toList).filter fun item => !(Text.trim item).isEmpty).mapM parseChars

end CurrencyPair

end Bureau
