import ContractFuzz.Text.Toml.Bare
import ContractFuzz.Text.Toml.Quotation
/-!
# The syntax of TOML documents

## Main definitions

* `Toml.keyPath`, `Toml.value`: keys and values.
* `Toml.statements`: the lines of a document.
* `Toml.parse`: the table that a document describes.
-/

namespace ContractFuzz.Text.Toml

/-- How many keys a path may have, and how many brackets and braces may be open at a time. -/
def nestingLimit : Nat := 79

/-! ### Blanks and comments -/

/-- Leave out the blanks on the line. -/
def skipBlanks (cs : List Char) : List Char := cs.dropWhile fun c => c == ' ' || c == '\t'

/-- Leave out blanks, line breaks and comments. A comment ends with its line. -/
def skipLines (inComment : Bool) : List Char → List Char
  | [] => []
  | '\n' :: r => skipLines false r
  | '\r' :: '\n' :: r => skipLines false r
  | c :: r =>
    if inComment then
      if isPlain c then skipLines true r else c :: r
    else if c == ' ' || c == '\t' then skipLines false r
    else if c == '#' then skipLines true r
    else c :: r

/-- What is left after the end of a line, before which a comment may stand. -/
def lineEnd (cs : List Char) : Option (List Char) :=
  let r := match skipBlanks cs with
    | '#' :: r => r.dropWhile isPlain
    | r => r
  match r with
  | [] => some []
  | '\n' :: r => some r
  | '\r' :: '\n' :: r => some r
  | _ => none

/-! ### Keys -/

/-- The characters of keys that are not quoted. -/
def isKeyChar (c : Char) : Bool := c.isAlphanum || c == '_' || c == '-'

/-- A key without dots, and what follows it. -/
def simpleKey (cs : List Char) : Option (String × List Char) :=
  match cs with
  | '"' :: _ => lineQuotation cs
  | '\'' :: _ => lineQuotation cs
  | _ =>
    let key := cs.takeWhile isKeyChar
    if key.isEmpty then none else some (String.ofList key, cs.dropWhile isKeyChar)

/-- Keys with dots between them, as many as are allowed, and what follows after blanks. -/
def keyPath : (limit : Nat) → List Char → Option (KeyPath × List Char)
  | 0, _ => none
  | limit + 1, cs => do
    let (key, r) ← simpleKey (skipBlanks cs)
    match skipBlanks r with
    | '.' :: r =>
      let (path, r) ← keyPath limit r
      return (⟨key :: path.above, path.last⟩, r)
    | r => return (⟨[], key⟩, r)

/-- A key, the sign after it and the blanks after that. -/
def keyAndSign (cs : List Char) : Option (KeyPath × List Char) := do
  let (path, r) ← keyPath nestingLimit cs
  match r with
  | '=' :: r => some (path, skipBlanks r)
  | _ => none

/-! ### Values -/

/-- The rest of a list in brackets, of at most so many items, and what follows it. -/
def items (item : List Char → Option (Toml × List Char)) :
    Nat → List Char → Option (List Toml × List Char)
  | 0, _ => none
  | n + 1, cs =>
    match skipLines false cs with
    | ']' :: r => some ([], r)
    | r => do
      let (v, r) ← item r
      match skipLines false r with
      | ']' :: r => some ([v], r)
      | ',' :: r =>
        let (vs, r) ← items item n r
        return (v :: vs, r)
      | _ => none

/-- The rest of at least one and at most so many pairs in braces, and what follows it. -/
def pairs (item : List Char → Option (Toml × List Char)) :
    Nat → List Char → Option (List (KeyPath × Toml) × List Char)
  | 0, _ => none
  | n + 1, cs => do
    let (path, r) ← keyAndSign cs
    let (v, r) ← item r
    match skipBlanks r with
    | '\x7d' :: r => some ([(path, v)], r)
    | ',' :: r =>
      let (ps, r) ← pairs item n r
      return ((path, v) :: ps, r)
    | _ => none

/-- The rest of a table in braces, and what follows it. -/
def braces (item : List Char → Option (Toml × List Char)) (cs : List Char) :
    Option (Toml × List Char) := do
  match skipBlanks cs with
  | '\x7d' :: r => return (← ofPairs [], r)
  | _ =>
    let (ps, r) ← pairs item cs.length cs
    return (← ofPairs ps, r)

/-- A value without brackets and braces, and what follows it. -/
def scalar (cs : List Char) : Option (Toml × List Char) :=
  match cs with
  | '"' :: _ => (quotation cs).map fun (s, r) => (.text s, r)
  | '\'' :: _ => (quotation cs).map fun (s, r) => (.text s, r)
  | _ => bare cs

/-- A value with as many brackets and braces inside each other as are allowed, and what follows
it. -/
def value : (limit : Nat) → List Char → Option (Toml × List Char)
  | 0, cs => scalar cs
  | limit + 1, cs =>
    match cs with
    | '[' :: r => (items (value limit) r.length r).map fun (vs, r) => (.array vs, r)
    | '\x7b' :: r => braces (value limit) r
    | _ => scalar cs

/-! ### Lines -/

/-- What a line says, which may be nothing, and what follows up to its end. -/
def statement (cs : List Char) : Option (List Statement × List Char) := do
  match skipBlanks cs with
  | '[' :: '[' :: r =>
    let (path, r) ← keyPath nestingLimit r
    match r with
    | ']' :: ']' :: r => some ([.element path], r)
    | _ => none
  | '[' :: r =>
    let (path, r) ← keyPath nestingLimit r
    match r with
    | ']' :: r => some ([.header path], r)
    | _ => none
  | r =>
    if (lineEnd r).isSome then some ([], r)
    else
      let (path, r) ← keyAndSign r
      let (v, r) ← value nestingLimit r
      return ([.pair path v], r)

/-- What at most so many lines say. -/
def statements : Nat → List Char → Option (List Statement)
  | 0, cs => if cs.isEmpty then some [] else none
  | n + 1, cs =>
    if cs.isEmpty then some []
    else do
      let (said, r) ← statement cs
      return said ++ (← statements n (← lineEnd r))

/-- The table that a document describes. A mark of the byte order may stand in front. -/
def parse (document : String) : Option Toml := do
  let cs := match document.toList with
    | '\ufeff' :: r => r
    | cs => cs
  ofStatements (← statements cs.length cs)

end ContractFuzz.Text.Toml
