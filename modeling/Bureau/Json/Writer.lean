import Bureau.Json.Basic
import Bureau.Text.Hex

/-!
JSON text without white space. Strings escape quotes, backslashes and control characters only.
-/

set_option autoImplicit false

namespace Bureau.Json

open Bureau.Text

def escapedChar (c : Char) : List Char :=
  match c with
  | '"' => ['\\', '"']
  | '\\' => ['\\', '\\']
  | '\n' => ['\\', 'n']
  | '\r' => ['\\', 'r']
  | '\t' => ['\\', 't']
  | '\x08' => ['\\', 'b']
  | '\x0c' => ['\\', 'f']
  | _ =>
      if c.toNat < 32 then
        '\\' :: 'u' :: hexFixed 4 c.toNat
      else [c]

def stringChars (s : String) : List Char :=
  '"' :: s.toList.flatMap escapedChar ++ ['"']

def textChars : Option String → List Char
  | some s => stringChars s
  | none => ['"', '\\', 'u', 'd', '8', '0', '0', '"']

def numeralChars (n : Numeral) : List Char :=
  (if n.negative then ['-'] else []) ++ digits n.whole ++
    (if n.places.isEmpty then [] else '.' :: n.places.map digitChar) ++
    match n.exponent with
    | some e => 'e' :: intChars e
    | none => []

mutual

def chars : Json → List Char
  | .null => ['n', 'u', 'l', 'l']
  | .bool true => ['t', 'r', 'u', 'e']
  | .bool false => ['f', 'a', 'l', 's', 'e']
  | .number n => numeralChars n
  | .text t => textChars t
  | .array items => '[' :: itemChars items
  | .object members => '\x7b' :: memberChars members

def itemChars : List Json → List Char
  | [] => [']']
  | [item] => item.chars ++ [']']
  | item :: rest => item.chars ++ ',' :: itemChars rest

def memberChars : List (Option String × Json) → List Char
  | [] => ['\x7d']
  | [(name, value)] => textChars name ++ ':' :: value.chars ++ ['\x7d']
  | (name, value) :: rest => textChars name ++ ':' :: value.chars ++ ',' :: memberChars rest

end

def write (j : Json) : String := String.ofList j.chars

end Bureau.Json
