import CxxDead.Lib.Throwing
import CxxDead.Lib.Triple
import CxxDead.Lib.Additions
import CxxDead.Lib.Walk
import CxxDead.Lib.Extract
import CxxDead.Lib.Sorting
import CxxDead.Lib.Folds
import CxxDead.Lib.Groups
import CxxDead.Lib.Tables
import CxxDead.Lib.Prefixed
import CxxDead.Lib.Search
import CxxDead.Lib.Worklist
import CxxDead.Lib.Tarjan
import CxxDead.Lib.DepthFirst
import CxxDead.Lib.Inclusion
import CxxDead.Lib.Utf8
import CxxDead.Bytes
import CxxDead.Path
import CxxDead.Graph
import CxxDead.Growth
import CxxDead.Invariant
import CxxDead.Canonical
import CxxDead.NormalForm
import CxxDead.Merge
import CxxDead.MergeOrder
import CxxDead.Declarations
import CxxDead.ArrivalOrder
import CxxDead.VirtualDispatch
import CxxDead.BaseNames
import CxxDead.Generic
import CxxDead.Reachability
import CxxDead.Components
import CxxDead.Condensation
import CxxDead.Report
import CxxDead.Accounting
import CxxDead.FindingOrder
import CxxDead.Suppressions
import CxxDead.Lib.Intervals
import CxxDead.LineEstimate
import CxxDead.Provenance
import CxxDead.ByKey
import CxxDead.ReportPaths
import CxxDead.Json
import CxxDead.JsonText
import CxxDead.JsonGrammar
import CxxDead.JsonTokens
import CxxDead.JsonTermination
import CxxDead.JsonParse
import CxxDead.JsonUtf8
import CxxDead.Lib.Loop
import CxxDead.RunProcess
import CxxDead.Lib.Checked
import CxxDead.TimeLimits
import CxxDead.StableKey
import CxxDead.Cache
import CxxDead.CacheRoundTrip
import CxxDead.CacheTruncation
import CxxDead.Sha256
import CxxDead.Index
import CxxDead.Collect
import CxxDead.References
import CxxDead.Provider
import CxxDead.PolicyFacts
import CxxDead.CompileDatabase
import CxxDead.ShellWords
import CxxDead.ResponseFiles
import CxxDead.RemovedArguments
import CxxDead.BuildModel
import CxxDead.TargetClosure
import CxxDead.CacheKey
import CxxDead.KeyInputs
import CxxDead.CommandInputs
import CxxDead.MakeDependencies
import CxxDead.WrittenDependencies
import CxxDead.Ast
import CxxDead.TypeNames
import CxxDead.Location
import CxxDead.PathContainment
import CxxDead.Staging
import CxxDead.CacheLookup
import CxxDead.IndexRun
import CxxDead.JsonDocuments
import CxxDead.Uses
import CxxDead.ObservedCalls
import CxxDead.Sight
import CxxDead.Excluded
import CxxDead.Unseen
import CxxDead.LocationRecovery
import CxxDead.RunOutcome
import CxxDead.Artifact
import CxxDead.ArtifactValue
import CxxDead.ArtifactRoundTrip
import CxxDead.ArtifactAcceptance
import CxxDead.Differential
import CxxDead.Comparison
import CxxDead.ReportWriter
import CxxDead.SarifText
import CxxDead.WrittenJson
import CxxDead.BuildMetadata
import CxxDead.Database
import CxxDead.DifferentialConfig
import CxxDead.GateHistory
import CxxDead.HumanReport
import CxxDead.IndexReturn
import CxxDead.Manifest
import CxxDead.ProviderConfig
import CxxDead.Program
