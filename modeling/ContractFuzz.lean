import ContractFuzz.Sorted.Set
import ContractFuzz.Sorted.Map
import ContractFuzz.Text.Blank
import ContractFuzz.Text.Quoted
import ContractFuzz.Text.Numeral
import ContractFuzz.Text.Hex
import ContractFuzz.Binary64.Decimal
import ContractFuzz.Binary64.Shortest
import ContractFuzz.Time.Calendar
import ContractFuzz.Random.Source
import ContractFuzz.Graph.Distance
import ContractFuzz.Graph.Coverage
import ContractFuzz.Abi.Value.Reader
import ContractFuzz.Abi.Argument
import ContractFuzz.Abi.Definition
import ContractFuzz.Config.Document
import ContractFuzz.Store
import ContractFuzz.Topic
import ContractFuzz.Oracle
import ContractFuzz.Report
import ContractFuzz.Seed.Generation
import ContractFuzz.Simulation.World
import ContractFuzz.Proofs.Graph.ShortestWalk
import ContractFuzz.Proofs.Abi.Canonical
import ContractFuzz.Proofs.Random.Always
import ContractFuzz.Proofs.Abi.Mutation
import ContractFuzz.Proofs.Abi.Handling
import ContractFuzz.Proofs.Numeral.Grammar
import ContractFuzz.Proofs.Abi.Reading
import ContractFuzz.Proofs.Abi.Overloads
import ContractFuzz.Proofs.Store.Archive
import ContractFuzz.Proofs.Outcome
import ContractFuzz.Proofs.Abi.Accepted
import ContractFuzz.Proofs.Seed.Batch
import ContractFuzz.Proofs.Seed.Crossing
import ContractFuzz.Proofs.Seed.Recorded
import ContractFuzz.Proofs.Campaign.Ledger
import ContractFuzz.Proofs.Campaign.Sound
import ContractFuzz.Proofs.Campaign.Recording
import ContractFuzz.Proofs.Campaign.Checking
import ContractFuzz.Proofs.Campaign.Deployment
import ContractFuzz.Proofs.Campaign.Submission
import ContractFuzz.Proofs.Campaign.Reachable
import ContractFuzz.Proofs.Chronology
import ContractFuzz.Proofs.Time.Saturation
import ContractFuzz.Proofs.Replay
import ContractFuzz.Proofs.Replay.Order
import ContractFuzz.Proofs.Campaign.Aggregate
import ContractFuzz.Proofs.Campaign.Progress
import ContractFuzz.Proofs.Campaign.Versions
import ContractFuzz.Proofs.Campaign.LifeCycle
import ContractFuzz.Proofs.Interleaving.Pool
import ContractFuzz.Proofs.Interleaving.Conduct
import ContractFuzz.Proofs.Interleaving.Safety
import ContractFuzz.Proofs.Interleaving.Recorder
import ContractFuzz.Proofs.Interleaving.Submitter
import ContractFuzz.Proofs.Interleaving.NoLostUpdate
import ContractFuzz.Proofs.Seed.History
import ContractFuzz.Proofs.Seed.Provenance
import ContractFuzz.Proofs.Campaign.ServiceCalls
import ContractFuzz.Proofs.Campaign.Reporting
import ContractFuzz.Proofs.Campaign.CheckRound
import ContractFuzz.Proofs.Campaign.Filing
import ContractFuzz.Proofs.Campaign.CheckExact
import ContractFuzz.Proofs.Campaign.Redrive
import ContractFuzz.Proofs.Campaign.CallbackOrder
import ContractFuzz.Proofs.Campaign.DeploymentRecord
import ContractFuzz.Proofs.Campaign.LatestDeployment
import ContractFuzz.Proofs.Graph.Index
import ContractFuzz.Proofs.Graph.Scale
import ContractFuzz.Proofs.Campaign.LaterWith
import ContractFuzz.Proofs.Campaign.Signals
import ContractFuzz.Proofs.Seed.Fitting
import ContractFuzz.Proofs.Campaign.FittingHistory
import ContractFuzz.Proofs.Campaign.Registration
import ContractFuzz.Proofs.Campaign.InputRequest
import ContractFuzz.Proofs.Campaign.Frame
import ContractFuzz.Proofs.Campaign.Analysis
import ContractFuzz.Proofs.Campaign.Books
import ContractFuzz.Proofs.Campaign.TaskCycle
import ContractFuzz.Proofs.Seed.Window
import ContractFuzz.Proofs.Seed.Ranked
import ContractFuzz.Proofs.Campaign.RecordedOnce
import ContractFuzz.Proofs.Campaign.RecorderCalls
import ContractFuzz.Proofs.Abi.Word
import ContractFuzz.Proofs.Abi.Correspondence
import ContractFuzz.Proofs.Graph.Nearest
import ContractFuzz.Proofs.Abi.WordChange
import ContractFuzz.Proofs.Topic.History
import ContractFuzz.Proofs.Topic.Queues
import ContractFuzz.Proofs.Graph.Decompiled
import ContractFuzz.Proofs.Oracle.Weakness
import ContractFuzz.Proofs.Seed.Selected
