import ContractFuzz.Binary64.Shortest
import ContractFuzz.Text.Quoted
import ContractFuzz.Text.Numeral
/-!
# Typed values

The values that are passed as call arguments. Integers, addresses and byte strings are texts in a
canonical form; the other shapes arise only when a caller supplies them.

## Main definitions

* `Value`: truth values, texts, and everything else that fits into a structured document.
* `Value.serialized`: the text under which a value is stored as part of a seed.
-/

namespace ContractFuzz

/-- A typed value. -/
inductive Value where
  | null
  | bool (b : Bool)
  | integer (n : Int)
  /-- A finite floating-point number, which may have the value of an integer. -/
  | real (x : Binary64)
  | text (s : String)
  | list (items : List Value)
  /-- Named fields, in ascending order of the names. -/
  | record (fields : List (String × Value))
deriving Inhabited

namespace Value

/-- The text, of a value that is one. -/
def text? : Value → Option String
  | .text s => some s
  | _ => none

/-- The truth value, of a value that is one. -/
def bool? : Value → Option Bool
  | .bool b => some b
  | _ => none

/-- How a character is written inside a document: quotes, backslashes and controls are escaped. -/
def documentChar (c : Char) : List Char :=
  if c = '"' then ['\\', '"']
  else if c = '\\' then ['\\', '\\']
  else if c = '\x08' then ['\\', 'b']
  else if c = '\x0c' then ['\\', 'f']
  else if c = '\n' then ['\\', 'n']
  else if c = '\r' then ['\\', 'r']
  else if c = '\t' then ['\\', 't']
  else if c.toNat < 16 then ['\\', 'u', '0', '0', '0'] ++ Text.hexDigits c.toNat
  else if c.toNat < 32 then ['\\', 'u', '0', '0'] ++ Text.hexDigits c.toNat
  else [c]

/-- A text as it is written inside a document. -/
def documentText (s : String) : List Char :=
  '"' :: s.toList.flatMap documentChar ++ ['"']

mutual

/-- A value written as a document without blanks. -/
def document : Value → List Char
  | .null => ['n', 'u', 'l', 'l']
  | .bool true => ['t', 'r', 'u', 'e']
  | .bool false => ['f', 'a', 'l', 's', 'e']
  | .integer n => Text.decimalInt n
  | .real x => x.document
  | .text s => documentText s
  | .list [] => ['[', ']']
  | .list (v :: vs) => '[' :: (document v ++ documentItems vs)
  | .record [] => ['\x7b', '\x7d']
  | .record ((name, v) :: fs) =>
    '\x7b' :: (documentText name ++ ':' :: (document v ++ documentFields fs))

/-- The items of a list after its first one. -/
def documentItems : List Value → List Char
  | [] => [']']
  | v :: vs => ',' :: (document v ++ documentItems vs)

/-- The fields of a record after its first one. -/
def documentFields : List (String × Value) → List Char
  | [] => ['\x7d']
  | (name, v) :: fs =>
    ',' :: (documentText name ++ ':' :: (document v ++ documentFields fs))

end

/-- The serialized form: a text is its own, all other values are written as documents. -/
def serialized : Value → String
  | .text s => s
  | v => String.ofList v.document

end Value

end ContractFuzz
