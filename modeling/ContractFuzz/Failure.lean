import ContractFuzz.RecordId
/-!
# Failures

What can go wrong while a campaign runs. Every failure concerns the one task, transaction or event
in hand; the campaign goes on with the next.

## Main definitions

* `Failure`: the causes.
* `Failure.message`: the text of each.
* `Failure.isRetryable`: whether trying again may help.
-/

namespace ContractFuzz

/-- The ways to generate inputs. -/
inductive Strategy where
  | blackbox
  | greybox
  | directedGreybox
  | otherDirectedGreybox
  | geneticAlgorithm
deriving DecidableEq, Inhabited

namespace Strategy

/-- All strategies, in their order. -/
def all : List Strategy :=
  [.blackbox, .greybox, .directedGreybox, .otherDirectedGreybox, .geneticAlgorithm]

/-- The name of a strategy. -/
def name : Strategy → String
  | .blackbox => "blackbox"
  | .greybox => "greybox"
  | .directedGreybox => "directed_greybox"
  | .otherDirectedGreybox => "other_directed_greybox"
  | .geneticAlgorithm => "genetic_algorithm"

/-- The strategy of a name. -/
def ofName? (name : String) : Option Strategy := all.find? (·.name == name)

end Strategy

/-- A record that was looked for in vain. -/
inductive MissingRecord where
  | task (id : TaskId)
  | contract (id : ContractId)
  | contractOfTask (id : TaskId)
  | function (id : FunctionId)
  | constructorOf (id : ContractId)
  | transaction (id : TransactionId)
  | transactionWithHash (hash : String)
deriving DecidableEq

namespace MissingRecord

/-- What was looked for and by which key. -/
def text : MissingRecord → String
  | task id => "task " ++ id.text
  | contract id => "contract " ++ id.text
  | contractOfTask id => "contract of task " ++ id.text
  | function id => "function " ++ id.text
  | constructorOf id => "constructor of contract " ++ id.text
  | transaction id => "transaction " ++ id.text
  | transactionWithHash hash => "transaction with hash " ++ hash

end MissingRecord

/-- What is wrong with an interface definition. -/
inductive AbiFault where
  /-- It is not a list of entries. -/
  | unreadable
  /-- An entry describes a function that has no name. -/
  | unnamedFunction
  /-- It has no function of this name. -/
  | noMethod (name : String)
deriving DecidableEq

/-- What is wrong with a configuration. -/
inductive ConfigFault where
  /-- The document does not describe a configuration. -/
  | unreadable
  | timeoutNotPositive
  | seedsSizeNotPositive
  | batchSizeNotPositive
  | rangesOutOfOrder
  | limitsOutOfOrder
deriving DecidableEq

namespace ConfigFault

/-- The condition that does not hold; of an unreadable document nothing is said. -/
def text : ConfigFault → String
  | unreadable => "unreadable document"
  | timeoutNotPositive => "transaction_timeout_secs must be positive"
  | seedsSizeNotPositive => "seeds_size must be positive"
  | batchSizeNotPositive => "batch_size must be positive"
  | rangesOutOfOrder =>
    "selection ranges must satisfy 0 <= first_range <= second_range <= 1"
  | limitsOutOfOrder =>
    "selection limits must satisfy 0 <= first_limit <= second_limit <= 1"

end ConfigFault

/-- The systems outside a campaign. -/
inductive ExternalService where
  | chainClient
  | decompiler
  | reportSink
deriving DecidableEq

/-- The name of a service in messages. -/
def ExternalService.name : ExternalService → String
  | chainClient => "chain client"
  | decompiler => "decompiler"
  | reportSink => "report sink"

/-- The causes of failure. -/
inductive Failure where
  /-- A record is missing. -/
  | notFound (what : MissingRecord)
  /-- The interface definition of a contract cannot be used. -/
  | malformedAbi (fault : AbiFault)
  /-- A text of the recovered control flow is not a program counter. -/
  | malformedGraph (raw : String)
  /-- A seed does not have one field for each parameter. -/
  | seedArity (expected found : Nat)
  /-- A text is not a value of the type. -/
  | invalidValue (type value : String)
  /-- Values of the type cannot be generated. -/
  | unsupportedType (name : String)
  /-- The corpus has no value of the type. -/
  | missingSeeds (type : String)
  /-- The contract has no function to call. -/
  | noCandidateFunction (contract : String)
  /-- The strategy is not enabled. -/
  | strategyNotFound (strategy : Strategy)
  /-- A service failed for a reason of its own. -/
  | external (service : ExternalService) (reason : String)
  /-- The configuration cannot be used. -/
  | config (fault : ConfigFault)
deriving DecidableEq

namespace Failure

/-- The text of a failure. -/
def message : Failure → String
  | notFound what => what.text ++ " not found"
  | malformedAbi .unreadable => "malformed ABI definition"
  | malformedAbi .unnamedFunction => "malformed ABI definition: function entry without a name"
  | malformedAbi (.noMethod name) => "malformed ABI definition: no method named " ++ name
  | malformedGraph raw =>
    "malformed control flow graph: invalid program counter " ++ Text.quoted raw
  | seedArity expected found =>
    "seeds list is invalid: expected " ++ toString expected ++ " fields, found " ++ toString found
  | invalidValue type value => "value " ++ Text.quoted value ++ " is not a valid " ++ type
  | unsupportedType name => "unsupported ABI type " ++ name
  | missingSeeds type => "no pre-configured seeds for type " ++ type
  | noCandidateFunction contract =>
    "contract " ++ contract ++ " has no candidate function to fuzz"
  | strategyNotFound strategy => "fuzzing strategy " ++ strategy.name ++ " not found"
  | external service reason => service.name ++ " failed: " ++ reason
  | config fault => "invalid configuration: " ++ fault.text

/-- Whether the same event may succeed when it is tried again: services recover, the rest fails
every time. -/
def isRetryable : Failure → Bool
  | external _ _ => true
  | _ => false

end Failure

end ContractFuzz
