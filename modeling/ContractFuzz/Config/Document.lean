import ContractFuzz.Config
import ContractFuzz.Text.Toml.Parser
/-!
# Configurations as documents

A configuration is written as a TOML document. What is not given has its default, and names that
are not known are passed over. A section is a table of its fields or the list of their values in
order.

## Main definitions

* `Config.read`: the configuration that a document's table describes.
* `Config.parse`: the configuration of a text, checked.
-/

namespace ContractFuzz

open Text (Toml)

namespace Config

/-- The values of a section's fields, those that are given. A date has none of them. -/
def given (fields : List String) : Toml → Option (String → Option Toml)
  | .table _ es => some fun field => es.lookup field
  | .array items => some fun field => items[fields.idxOf field]?
  | .tables elements =>
    some fun field => elements[fields.idxOf field]?.map (.table .header)
  | .moment => some fun _ => none
  | _ => none

/-- Read a value that is given, and take the default for one that is not. -/
def readOr {α : Type} (read : Toml → Option α) (default : α) : Option Toml → Option α
  | some v => read v
  | none => some default

/-- A text. -/
def readText : Toml → Option String
  | .text s => some s
  | _ => none

/-- A natural number. -/
def readCount : Toml → Option Nat
  | .integer n => if 0 ≤ n then some n.toNat else none
  | _ => none

/-- A number of any kind. -/
def readReal : Toml → Option Binary64
  | .real x => some x
  | .integer n => some (.ofDecimal (n < 0) n.natAbs 0)
  | _ => none

/-- A list. -/
def readList {α : Type} (read : Toml → Option α) : Toml → Option (List α)
  | .array items => items.mapM read
  | .tables elements => elements.mapM fun es => read (.table .header es)
  | _ => none

/-- Whether a value holds nothing, as beside a name it must. -/
def isHollow : Toml → Bool
  | .array items => items.isEmpty
  | .table _ es => es.isEmpty
  | .tables elements => elements.isEmpty
  | _ => false

/-- Something that has a name: the name, or a table with the name and nothing beside it. -/
def readNamed {α : Type} (ofName? : String → Option α) : Toml → Option α
  | .text s => ofName? s
  | .table _ [(name, v)] => if isHollow v then ofName? name else none
  | _ => none

/-- Values for the types of parameters. -/
def readCorpus : Toml → Option SeedCorpus
  | .table _ es => do
    return .ofList (← es.mapM fun (type, v) => do return (type, ← readList readText v))
  | _ => none

/-- A policy, told by its kind. -/
def readPolicy : Toml → Option ScorePolicy
  | .table _ es => do
    match ← readText (← es.lookup "kind") with
    | "max" => return .max
    | "weighted_sum" =>
      return .weightedSum (← readReal (← es.lookup "hits"))
        (← readReal (← es.lookup "coverage")) (← readReal (← es.lookup "distance"))
    | _ => none
  | .array [.text "max"] => some .max
  | .array [.text "weighted_sum", hits, coverage, distance] => do
    return .weightedSum (← readReal hits) (← readReal coverage) (← readReal distance)
  | _ => none

/-- A selection rule. -/
def readRule (v : Toml) : Option SelectionRule := do
  let rule := SelectionRule.default
  let field ← given ["first_range", "second_range", "first_limit", "second_limit"] v
  let real (v : Toml) : Option Float := (readReal v).map Binary64.toFloat
  return {
    firstRange := ← readOr real rule.firstRange (field "first_range")
    secondRange := ← readOr real rule.secondRange (field "second_range")
    firstLimit := ← readOr real rule.firstLimit (field "first_limit")
    secondLimit := ← readOr real rule.secondLimit (field "second_limit") }

/-- How inputs are generated. -/
def readFuzzing (v : Toml) : Option FuzzingConfig := do
  let config := FuzzingConfig.default
  let field ← given ["seeds_size", "batch_size", "critical_instructions", "seeds", "score_policy",
    "selection", "enabled_fuzzers", "rng_seed"] v
  return {
    seedsSize := ← readOr readCount config.seedsSize (field "seeds_size")
    batchSize := ← readOr readCount config.batchSize (field "batch_size")
    critical := ← readOr (readList readText) config.critical (field "critical_instructions")
    seeds := ← readOr readCorpus config.seeds (field "seeds")
    policy := ← readOr readPolicy config.policy (field "score_policy")
    selection := ← readOr readRule config.selection (field "selection")
    enabled := ← readOr (readList (readNamed Strategy.ofName?)) config.enabled
      (field "enabled_fuzzers")
    randomSeed := ← readOr (fun v => (readCount v).map some) config.randomSeed
      (field "rng_seed") }

/-- A configuration. -/
def read (v : Toml) : Option Config := do
  let config := Config.default
  let field ← given ["fuzzer", "oracles", "transaction_timeout_secs"] v
  return {
    fuzzing := ← readOr readFuzzing config.fuzzing (field "fuzzer")
    oracles := ← readOr (readList (readNamed Oracle.ofName?)) config.oracles (field "oracles")
    timeoutSeconds := ← readOr readCount config.timeoutSeconds
      (field "transaction_timeout_secs") }

/-- The configuration that a document describes, if it meets the conditions. -/
def parse (document : String) : Except Failure Config := do
  match (Toml.parse document).bind read with
  | none => throw (.config .unreadable)
  | some config =>
    config.validate
    return config

end Config

end ContractFuzz
