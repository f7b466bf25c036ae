import ContractFuzz.Text.Numeral
/-!
# JSON documents

The syntax of JSON texts, strictly by the standard. The members of an object stay in their written
order, repetitions included; what they mean is for the reader of the document to say.

## Main definitions

* `Json`: documents. A `Number` is kept as it is written.
* `Json.parse`: the document that a text consists of.
-/

namespace ContractFuzz.Text

/-- A number as it is written. -/
structure Number where
  /-- Whether there is a minus sign. -/
  negative : Bool
  /-- The digits before the point. -/
  whole : List Nat
  /-- The digits after the point, none if there is no point. -/
  fraction : List Nat
  /-- The power of ten by which the digits count, if it is given. -/
  power : Option Int

/-- A JSON document. -/
inductive Json where
  | null
  | bool (b : Bool)
  | number (n : Number)
  /-- A string, if its escapes stand for characters: one half of a surrogate pair does not. -/
  | string (s : Option String)
  | array (items : List Json)
  | object (members : List (Option String × Json))
deriving Inhabited

namespace Json

/-- Leave out the blanks between the tokens. -/
def skipBlanks (cs : List Char) : List Char :=
  cs.dropWhile fun c => c == ' ' || c == '\t' || c == '\n' || c == '\r'

/-- What the character after a backslash stands for. -/
def escaped? : Char → Option Nat
  | '"' => some 34
  | '\\' => some 92
  | '/' => some 47
  | 'b' => some 8
  | 'f' => some 12
  | 'n' => some 10
  | 'r' => some 13
  | 't' => some 9
  | _ => none

/-- The code points and halves of surrogate pairs that the rest of a string stands for, and the
text after its closing quote. -/
def units : List Char → Option (List Nat × List Char)
  | [] => none
  | '"' :: r => some ([], r)
  | '\\' :: 'u' :: a :: b :: c :: d :: r => do
    let unit ← readDigits 16 [a, b, c, d]
    let (us, r) ← units r
    return (unit :: us, r)
  | '\\' :: c :: r => do
    let unit ← escaped? c
    let (us, r) ← units r
    return (unit :: us, r)
  | c :: r =>
    if c.toNat < 32 then none
    else do
      let (us, r) ← units r
      return (c.toNat :: us, r)

/-- The first halves of surrogate pairs. -/
def isHigh (u : Nat) : Bool := 0xD800 ≤ u && u < 0xDC00

/-- The second halves of surrogate pairs. -/
def isLow (u : Nat) : Bool := 0xDC00 ≤ u && u < 0xE000

/-- The characters of a string, if every half of a pair stands beside the other half. -/
def joinPairs : List Nat → Option (List Char)
  | [] => some []
  | [u] => if isHigh u || isLow u then none else some [Char.ofNat u]
  | u :: v :: r =>
    if isHigh u && isLow v then
      (joinPairs r).map (Char.ofNat (0x10000 + (u - 0xD800) * 0x400 + (v - 0xDC00)) :: ·)
    else if isHigh u || isLow u then none
    else (joinPairs (v :: r)).map (Char.ofNat u :: ·)

/-- The rest of a string, after its opening quote. -/
def stringRest (cs : List Char) : Option (Option String × List Char) :=
  (units cs).map fun (us, r) => ((joinPairs us).map String.ofList, r)

/-- One or more digits, and what follows them. -/
def digits (cs : List Char) : Option (List Nat × List Char) :=
  let ds := cs.takeWhile Char.isDigit
  if ds.isEmpty then none
  else some (ds.map fun c => c.toNat - 48, cs.dropWhile Char.isDigit)

/-- The digits before the point: a zero, or digits that start with another. -/
def wholeDigits : List Char → Option (List Nat × List Char)
  | '0' :: r => some ([0], r)
  | cs => digits cs

/-- The digits after the point, none if there is no point. -/
def fractionDigits : List Char → Option (List Nat × List Char)
  | '.' :: r => digits r
  | cs => some ([], cs)

/-- The power of ten, if there is one. -/
def power (cs : List Char) : Option (Option Int × List Char) :=
  match cs with
  | c :: r =>
    if c == 'e' || c == 'E' then
      let (negative, r) := match r with
        | '-' :: r => (true, r)
        | '+' :: r => (false, r)
        | _ => (false, r)
      (digits r).map fun (ds, r) =>
        let n : Int := valueOf 10 ds
        (some (if negative then -n else n), r)
    else some (none, cs)
  | [] => some (none, [])

/-- A number, and what follows it. -/
def readNumber (cs : List Char) : Option (Number × List Char) := do
  let (negative, r) := match cs with
    | '-' :: r => (true, r)
    | _ => (false, cs)
  let (whole, r) ← wholeDigits r
  let (fraction, r) ← fractionDigits r
  let (power, r) ← power r
  return (⟨negative, whole, fraction, power⟩, r)

mutual

/-- Read one document. The first argument bounds the number of nested calls. -/
def value : Nat → List Char → Option (Json × List Char)
  | 0, _ => none
  | n + 1, cs =>
    match skipBlanks cs with
    | 'n' :: 'u' :: 'l' :: 'l' :: r => some (null, r)
    | 't' :: 'r' :: 'u' :: 'e' :: r => some (bool true, r)
    | 'f' :: 'a' :: 'l' :: 's' :: 'e' :: r => some (bool false, r)
    | '"' :: r => (stringRest r).map fun (s, r) => (string s, r)
    | '[' :: r =>
      match skipBlanks r with
      | ']' :: r => some (array [], r)
      | r => (items n r).map fun (vs, r) => (array vs, r)
    | '\x7b' :: r =>
      match skipBlanks r with
      | '\x7d' :: r => some (object [], r)
      | r => (members n r).map fun (ms, r) => (object ms, r)
    | r => (readNumber r).map fun (n, r) => (number n, r)

/-- Read the items of an array that has some. -/
def items : Nat → List Char → Option (List Json × List Char)
  | 0, _ => none
  | n + 1, cs => do
    let (v, r) ← value n cs
    match skipBlanks r with
    | ']' :: r => some ([v], r)
    | ',' :: r => (items n r).map fun (vs, r) => (v :: vs, r)
    | _ => none

/-- Read the members of an object that has some. -/
def members : Nat → List Char → Option (List (Option String × Json) × List Char)
  | 0, _ => none
  | n + 1, cs =>
    match skipBlanks cs with
    | '"' :: r => do
      let (name, r) ← stringRest r
      match skipBlanks r with
      | ':' :: r => do
        let (v, r) ← value n r
        match skipBlanks r with
        | '\x7d' :: r => some ([(name, v)], r)
        | ',' :: r => (members n r).map fun (ms, r) => ((name, v) :: ms, r)
        | _ => none
      | _ => none
    | _ => none

end

/-- The document that a text consists of, blanks apart. Every call of the reader but one in two
consumes a character. -/
def parse (s : String) : Option Json := do
  let cs := s.toList
  let (v, r) ← value (2 * cs.length + 2) cs
  if (skipBlanks r).isEmpty then some v else none

end Json

end ContractFuzz.Text
