import ContractFuzz.Text.Numeral
/-!
# Quoted text in TOML documents

Text between double quotes, in which a backslash starts an escape, or between apostrophes, in which
it does not; between triple ones the text may have several lines.

## Main definitions

* `Toml.isPlain`: the characters that may stand for themselves.
* `Toml.quotedRest`, `Toml.literalRest`: the rest of a text on one line.
* `Toml.quotedBlock`, `Toml.literalBlock`: the rest of a text on several lines.
* `Toml.quotation`: any text, with its quotes.
-/

namespace ContractFuzz.Text.Toml

/-- The characters that may stand for themselves: all but the controls, of which only the tabulator
may. -/
def isPlain (c : Char) : Bool := c == '\t' || (32 ≤ c.toNat && c.toNat != 127)

/-- What the character after a backslash stands for. -/
def escaped? : Char → Option Char
  | 'b' => some '\x08'
  | 't' => some '\t'
  | 'n' => some '\n'
  | 'f' => some '\x0c'
  | 'r' => some '\r'
  | '"' => some '"'
  | '\\' => some '\\'
  | _ => none

/-- The character whose number hexadecimal digits give. -/
def numbered? (digits : List Char) : Option Char := do
  let n ← readDigits 16 digits
  if n.isValidChar then some (Char.ofNat n) else none

/-- Put a character, if there is one, in front of the text that was read. -/
def attach (c : Option Char) (read : Option (List Char × List Char)) :
    Option (List Char × List Char) := do
  let (cs, r) ← read
  return ((← c) :: cs, r)

/-- The rest of a text between double quotes, and what follows it. -/
def quotedRest : List Char → Option (List Char × List Char)
  | [] => none
  | '"' :: r => some ([], r)
  | '\\' :: 'u' :: a :: b :: c :: d :: r => attach (numbered? [a, b, c, d]) (quotedRest r)
  | '\\' :: 'U' :: a :: b :: c :: d :: e :: f :: g :: h :: r =>
    attach (numbered? [a, b, c, d, e, f, g, h]) (quotedRest r)
  | '\\' :: c :: r => attach (escaped? c) (quotedRest r)
  | c :: r => if isPlain c then attach c (quotedRest r) else none

/-- The rest of a text between apostrophes, and what follows it. -/
def literalRest : List Char → Option (List Char × List Char)
  | [] => none
  | '\'' :: r => some ([], r)
  | c :: r => if isPlain c then attach c (literalRest r) else none

/-- What follows three closing quotes: up to two quotes before them belong to the text. -/
def closeBlock (quote : Char) (cs : List Char) : List Char × List Char :=
  let extra := (cs.take 2).takeWhile (· == quote)
  (extra, cs.drop extra.length)

/-- Whether nothing but blanks is left of the line. -/
def isLineEnd (cs : List Char) : Bool :=
  match cs.dropWhile fun c => c == ' ' || c == '\t' with
  | '\n' :: _ => true
  | '\r' :: '\n' :: _ => true
  | _ => false

/-- The rest of a text between three double quotes, and what follows it. A backslash at the end of
a line joins the lines: after it, blanks are left out up to the next other character. -/
def quotedBlock (joining : Bool) : List Char → Option (List Char × List Char)
  | [] => none
  | '"' :: '"' :: '"' :: r => some (closeBlock '"' r)
  | '\\' :: 'u' :: a :: b :: c :: d :: r => attach (numbered? [a, b, c, d]) (quotedBlock false r)
  | '\\' :: 'U' :: a :: b :: c :: d :: e :: f :: g :: h :: r =>
    attach (numbered? [a, b, c, d, e, f, g, h]) (quotedBlock false r)
  | '\\' :: c :: r =>
    if c == '\n' || (c == ' ' || c == '\t' || c == '\r') && isLineEnd (c :: r) then
      quotedBlock true r
    else attach (escaped? c) (quotedBlock false r)
  | '\r' :: '\n' :: r => if joining then quotedBlock true r else attach '\n' (quotedBlock false r)
  | c :: r =>
    if joining && (c == ' ' || c == '\t' || c == '\n') then quotedBlock true r
    else if c == '\n' || isPlain c then attach c (quotedBlock false r)
    else none

/-- The rest of a text between three apostrophes, and what follows it. -/
def literalBlock : List Char → Option (List Char × List Char)
  | [] => none
  | '\'' :: '\'' :: '\'' :: r => some (closeBlock '\'' r)
  | '\r' :: '\n' :: r => attach '\n' (literalBlock r)
  | c :: r => if c == '\n' || isPlain c then attach c (literalBlock r) else none

/-- Leave out a line break at the start of a block. -/
def skipBreak : List Char → List Char
  | '\n' :: r => r
  | '\r' :: '\n' :: r => r
  | cs => cs

/-- Text on one line, with its quotes, and what follows it. -/
def lineQuotation (cs : List Char) : Option (String × List Char) :=
  let read := match cs with
    | '"' :: r => quotedRest r
    | '\'' :: r => literalRest r
    | _ => none
  read.map fun (cs, r) => (String.ofList cs, r)

/-- Text on one line or on several, with its quotes, and what follows it. -/
def quotation (cs : List Char) : Option (String × List Char) :=
  match cs with
  | '"' :: '"' :: '"' :: r =>
    (quotedBlock false (skipBreak r)).map fun (cs, r) => (String.ofList cs, r)
  | '\'' :: '\'' :: '\'' :: r =>
    (literalBlock (skipBreak r)).map fun (cs, r) => (String.ofList cs, r)
  | _ => lineQuotation cs

end ContractFuzz.Text.Toml
