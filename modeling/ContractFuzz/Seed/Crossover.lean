/-!
# Crossover

Two seeds are recombined field by field by exchanging every other character.

## Main definitions

* `Seed`: the serialized arguments of one call.
* `exchange`: the characters of two fields, those at even places exchanged.
* `crossover`: the two children of two seeds.
-/

namespace ContractFuzz

/-- The serialized arguments of one call, one text for each parameter. -/
abbrev Seed := List String

/-- Exchange the characters of two fields at this place, if `now`, and at every second one after
it. The rest of the longer field is lost. -/
def exchange (now : Bool) : List Char → List Char → List Char × List Char
  | a :: as, b :: bs =>
    let (x, y) := exchange (!now) as bs
    if now then (b :: x, a :: y) else (a :: x, b :: y)
  | _, _ => ([], [])

/-- The children's fields of two fields. If either is empty, both stay as they are. -/
def crossField (a b : String) : String × String :=
  if a.isEmpty || b.isEmpty then (a, b)
  else
    let (x, y) := exchange true a.toList b.toList
    (String.ofList x, String.ofList y)

/-- The children of two seeds with the same number of fields. -/
def crossover (first second : Seed) : Option (Seed × Seed) :=
  if first.length = second.length then some (List.zipWith crossField first second).unzip
  else none

end ContractFuzz
