import ContractFuzz.Abi.Codec
import ContractFuzz.Sorted.Map
import ContractFuzz.Text.Json
/-!
# Interface definitions

What can be called of a contract: its constructor and its functions, each with the parameters it
takes. A definition is a JSON list of entries; functions that share a name are told apart by a
number after it.

## Main definitions

* `AbiParam`, `AbiMethod`, `AbiDefinition`.
* `AbiEntry`: an entry as written. `AbiEntry.readAll?` reads a document.
* `AbiDefinition.ofEntries`, `AbiDefinition.parse`.
* `deserializeAll`, `serializeAll`: texts and typed values for a list of parameters.
-/

namespace ContractFuzz

/-- A parameter. -/
structure AbiParam where
  /-- Its name, which may be empty. -/
  name : String
  /-- The name of its type. -/
  type : String
deriving DecidableEq

/-- Something that can be called. -/
structure AbiMethod where
  /-- The name under which it is known; a constructor has none. -/
  name : String
  /-- Its parameters. -/
  inputs : List AbiParam
  /-- Whether it accepts payments. -/
  payable : Bool
deriving DecidableEq

/-- An entry of a written definition. -/
structure AbiEntry where
  /-- What it describes. -/
  kind : String
  /-- Its name, which may be empty. -/
  name : String
  /-- Its parameters. -/
  inputs : List AbiParam
  /-- How it uses the state of the contract, if that is given. -/
  mutability : Option String
  /-- Whether it accepts payments, if that is given. -/
  payable : Option Bool
deriving DecidableEq

namespace AbiEntry

open Text (Json)

/-- Whether the entry accepts payments, by either way to say so. -/
def isPayable (e : AbiEntry) : Bool := e.payable.getD false || e.mutability == some "payable"

/-- The value of a member of an object: none if it is absent. A name that is repeated, or that
stands for no text, spoils the object. -/
def member? (members : List (Option String × Json)) (name : String) : Option (Option Json) :=
  match members.filter (·.1 == some name) with
  | [] => some none
  | [(_, v)] => some (some v)
  | _ => none

/-- A text. -/
def readText : Json → Option String
  | .string s => s
  | _ => none

/-- A text, or nothing. -/
def readTextOrNull : Json → Option (Option String)
  | .null => some none
  | .string (some s) => some (some s)
  | _ => none

/-- A truth value, or nothing. -/
def readBoolOrNull : Json → Option (Option Bool)
  | .null => some none
  | .bool b => some (some b)
  | _ => none

/-- Read a value that is there, and take the default for one that is not. -/
def orDefault {α : Type} (read : Json → Option α) (default : α) : Option Json → Option α
  | some v => read v
  | none => some default

/-- Whether all names of an object are texts. -/
def namesAreTexts (members : List (Option String × Json)) : Bool := members.all (·.1.isSome)

/-- A parameter: an object, or the list of its name and type. -/
def readParam : Json → Option AbiParam
  | .object ms => do
    guard (namesAreTexts ms)
    let name ← orDefault readText "" (← member? ms "name")
    let type ← readText (← (← member? ms "type"))
    return ⟨name, type⟩
  | .array [name, type] => do return ⟨← readText name, ← readText type⟩
  | _ => none

/-- A list of parameters. -/
def readParams : Json → Option (List AbiParam)
  | .array ps => ps.mapM readParam
  | _ => none

/-- An entry of the values of its fields, those that are given. -/
def ofFields (kind name inputs mutability payable : Option Json) : Option AbiEntry := do
  return {
    kind := ← orDefault readText "function" kind
    name := ← orDefault readText "" name
    inputs := ← orDefault readParams [] inputs
    mutability := ← orDefault readTextOrNull none mutability
    payable := ← orDefault readBoolOrNull none payable }

/-- An entry: an object, or the list of its fields as far as they are given. -/
def read : Json → Option AbiEntry
  | .object ms => do
    guard (namesAreTexts ms)
    ofFields (← member? ms "type") (← member? ms "name") (← member? ms "inputs")
      (← member? ms "stateMutability") (← member? ms "payable")
  | .array fields =>
    if fields.length ≤ 5 then ofFields fields[0]? fields[1]? fields[2]? fields[3]? fields[4]?
    else none
  | _ => none

/-- The entries of a written definition. -/
def readAll? (document : String) : Option (List AbiEntry) := do
  match ← Json.parse document with
  | .array entries => entries.mapM read
  | _ => none

end AbiEntry

/-- What can be called of a contract. -/
structure AbiDefinition where
  /-- The constructor, if it is declared. -/
  constructor? : Option AbiMethod
  /-- The functions, by the names under which they are known. -/
  methods : SortedMap String AbiMethod

namespace AbiDefinition

/-- The definition that declares nothing. -/
def empty : AbiDefinition := ⟨none, .empty⟩

instance : Inhabited AbiDefinition := ⟨empty⟩

/-- The name after the one in use: the declared name followed by a number. -/
def numbered (name : String) (number : Nat) : String :=
  name ++ String.ofList (Text.decimal number)

/-- The first of the names `name0`, `name1`, … from a number on that is not taken. -/
def nextName (taken : SortedMap String AbiMethod) (name : String) : (tries : Nat) → Nat → String
  | 0, number => numbered name number
  | tries + 1, number =>
    if taken.contains (numbered name number) then nextName taken name tries (number + 1)
    else numbered name number

/-- The name under which a further function is known: its own, or the first numbered one that is
not taken. There are at most as many names to skip as functions. -/
def freeName (taken : SortedMap String AbiMethod) (name : String) : String :=
  if taken.contains name then nextName taken name taken.size 0 else name

/-- Take up an entry: the last constructor counts, functions add up, all else is passed over. -/
def addEntry (d : AbiDefinition) (e : AbiEntry) : Except Failure AbiDefinition :=
  if e.kind = "constructor" then
    .ok { d with constructor? := some ⟨"", e.inputs, e.isPayable⟩ }
  else if e.kind = "function" then
    if e.name = "" then .error (.malformedAbi .unnamedFunction)
    else
      let name := freeName d.methods e.name
      .ok { d with methods := d.methods.insert name ⟨name, e.inputs, e.isPayable⟩ }
  else .ok d

/-- The definition of a list of entries. -/
def ofEntries (entries : List AbiEntry) : Except Failure AbiDefinition :=
  entries.foldlM addEntry empty

/-- The definition that a document describes. -/
def parse (document : String) : Except Failure AbiDefinition :=
  match AbiEntry.readAll? document with
  | some entries => ofEntries entries
  | none => .error (.malformedAbi .unreadable)

/-- The function known under a name. -/
def method (d : AbiDefinition) (name : String) : Except Failure AbiMethod :=
  match d.methods.get? name with
  | some m => .ok m
  | none => .error (.malformedAbi (.noMethod name))

/-- The parameters of the constructor; one that is not declared has none. -/
def constructorInputs (d : AbiDefinition) : List AbiParam := d.constructor?.elim [] (·.inputs)

end AbiDefinition

/-- The typed value of one parameter's text. -/
def deserializeOne (p : AbiParam) (raw : String) : Except Failure Value := do
  (← AbiType.named p.type).deserialize raw

/-- The text of one parameter's typed value. -/
def serializeOne (p : AbiParam) (v : Value) : Except Failure String := do
  let _ ← AbiType.named p.type
  return v.serialized

/-- The typed values of a seed that has one text for each parameter. -/
def deserializeAll (inputs : List AbiParam) (seed : List String) : Except Failure (List Value) :=
  if seed.length = inputs.length then
    (inputs.zip seed).mapM fun (p, raw) => deserializeOne p raw
  else .error (.seedArity inputs.length seed.length)

/-- The seed of typed values, one for each parameter. -/
def serializeAll (inputs : List AbiParam) (values : List Value) : Except Failure (List String) :=
  if values.length = inputs.length then
    (inputs.zip values).mapM fun (p, v) => serializeOne p v
  else .error (.seedArity inputs.length values.length)

end ContractFuzz
