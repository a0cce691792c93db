import Lionden.Lib.Word
import Lionden.Js.Text
import Lionden.Redact.Basic
import Lionden.Redact.Emission
import Lionden.Redact.Secrecy
import Lionden.Redact.Chunking
import Lionden.Js.Number
import Lionden.Js.Double
import Lionden.Codegen.Abi
import Lionden.Codegen.Generator
import Lionden.Codegen.Splitter
import Lionden.Codegen.Literal
import Lionden.Codegen.Leaf
import Lionden.Codegen.Deserializer
import Lionden.Lib.Fallible
import Lionden.Codegen.Zero
import Lionden.Codegen.Normalize
import Lionden.Codegen.Serializer
import Lionden.Codegen.Roundtrip
import Lionden.Codegen.Lenient
import Lionden.Codegen.Acceptance
import Lionden.Codegen.WellFormed
import Lionden.Codegen.Record
import Lionden.Deploy.State
import Lionden.Deploy.Manager
import Lionden.Deploy.Tasks
import Lionden.Deploy.Provenance
import Lionden.Deploy.History
import Lionden.Deploy.Snapshots
import Lionden.Deploy.Metadata
import Lionden.Js.Json
import Lionden.Js.NumberString
import Lionden.Js.Stringify
import Lionden.Network.Confirmation
import Lionden.Network.Connection
import Lionden.Network.Egress
import Lionden.Compiler.Resolver
import Lionden.Targets.Closure
import Lionden.Targets.LeoArgv
import Lionden.Targets.Preflight
import Lionden.Lib.Precedence
import Lionden.Targets.DeployAction
import Lionden.Compiler.AbiParser
import Lionden.Compiler.AbiVersions
import Lionden.Compiler.AbiAgreement
import Lionden.Build.Scrubber
import Lionden.Build.Artifacts
import Lionden.Build.UnitHash
import Lionden.Build.Disk
import Lionden.Build.Pipeline
import Lionden.Build.Prepared
import Lionden.Lib.Merkle
import Lionden.Build.Plans
import Lionden.Build.Inputs
import Lionden.Deploy.AtomicWrite
import Lionden.Network.KeyCache
import Lionden.Network.SdkObjects
import Lionden.Network.SdkSound
import Lionden.Network.SdkAccounts
import Lionden.Network.SdkRetry
import Lionden.Network.SdkServed
import Lionden.Network.Manager
import Lionden.Network.ManagerSound
import Lionden.Network.ManagerRuns
import Lionden.Network.ManagerFinal
import Lionden.Network.Devnode
import Lionden.Network.DevnodeRuns
import Lionden.Compiler.AbiIdempotent
import Lionden.Compiler.AbiNormalForm
import Lionden.Compiler.AbiStored
import Lionden.Codegen.Names
import Lionden.Lib.Fresh
import Lionden.Lib.InsertionMap
import Lionden.Codegen.Bindings
import Lionden.Build.HashStream
import Lionden.Core.PluginLoader
import Lionden.Redact.Retained
import Lionden.Network.ProgramImports
import Lionden.Network.ImportClosure
import Lionden.Network.ImportSeeds
import Lionden.Targets.LeoOutcome
import Lionden.Targets.LeoRunner
import Lionden.Targets.LeoBackend
import Lionden.Network.Platform
import Lionden.Network.Redirects
import Lionden.Core.ArgNames
import Lionden.Core.TaskBuilder
import Lionden.Core.PreparedArgs
import Lionden.Core.PrepareAgain
import Lionden.Core.RunSuper
import Lionden.Cli.Segments
import Lionden.Cli.Arrangement
import Lionden.Cli.Mistaken
import Lionden.Cli.PositionIndependence
import Lionden.Core.HookSystem
import Lionden.Core.Resolutions
import Lionden.Core.Dispatches
import Lionden.Core.LazyHooks
import Lionden.Build.Lexing
import Lionden.Build.Rename
import Lionden.Network.Mutex
import Lionden.Network.MutexRuns
import Lionden.Cli.Validation
import Lionden.Network.ConsoleSuppression
import Lionden.Codegen.Projection
import Lionden.Codegen.Matchers
import Lionden.Codegen.Resolution
import Lionden.Js.Pretty
import Lionden.Lib.Processes
import Lionden.Network.CreditsAgreement
import Lionden.Network.CreditsRuns
import Lionden.Build.Targeted
import Lionden.Codegen.Aliases
import Lionden.Codegen.Declarations
import Lionden.Build.Ownership
import Lionden.Build.Histories
import Lionden.Network.RingBuffer
import Lionden.Codegen.StateKeys
import Lionden.Codegen.Typechain
import Lionden.Build.KeyStems
import Lionden.Lib.Paths
import Lionden.Network.SidecarKeys
import Lionden.Codegen.Methods
import Lionden.Codegen.ParamNames
import Lionden.Testing.Fixtures
import Lionden.Build.RejectedRename
import Lionden.Lib.Window
import Lionden.Network.SdkCalls
import Lionden.Build.Discovery
import Lionden.Build.ImportParser
import Lionden.Build.Sources
import Lionden.Testing.TestContext
import Lionden.Js.Indented
import Lionden.Network.KeyArtifacts
import Lionden.Targets.ArtifactProvenance
import Lionden.Network.KeyMetadata
import Lionden.Network.RuntimeImports
import Lionden.Network.TrapCapture
