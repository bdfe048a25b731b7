import Abuild.Library.Precedence
import Abuild.Library.DepthFirst
import Abuild.DependencyGraph
import Abuild.DependencyGraph.Traversal
import Abuild.DependencyGraph.Check
import Abuild.DependencyGraph.Build
import Abuild.DependencyEvaluator
import Abuild.DependencyEvaluator.Evaluate
import Abuild.DependencyEvaluator.Propagate
import Abuild.DependencyEvaluator.NoPropagation
import Abuild.WorkerPool
import Abuild.WorkerPool.Invariant
import Abuild.DependencyRunner
import Abuild.DependencyRunner.Run
import Abuild.Basic
import Abuild.Interface
import Abuild.Interface.Variable
import Abuild.Interface.LinkOrder
import Abuild.Platform
import Abuild.BuildForest
import Abuild.Library.Inheritance
import Abuild.BuildForest.Backing
import Abuild.BuildForest.Resolve
import Abuild.Library.OptionalDependency
import Abuild.BuildForest.Expand
import Abuild.BuildForest.Validate
import Abuild.BuildForest.Validated
import Abuild.BuildForest.Assertions
import Abuild.BuildForest.Integrity
import Abuild.Interface.Entries
import Abuild.Interface.Scalar
import Abuild.Interface.SharedFiles
import Abuild.Buildset
import Abuild.Buildset.Expansion
import Abuild.Buildset.Passes
import Abuild.Buildset.Total
import Abuild.Buildset.References
import Abuild.JavaBuilder
import Abuild.JavaBuilder.Decode
import Abuild.JavaBuilder.Connection
import Abuild.JavaBuilder.Restart
import Abuild.JavaBuilder.Threads
import Abuild.JavaBuilder.Startup
import Abuild.JavaBuilder.Pending
import Abuild.JavaBuilder.Responder
import Abuild.JavaBuilder.ResponseOrder
import Abuild.DependencyGraph.Errors
import Abuild.DependencyGraph.IndependentSets
import Abuild.DependencyGraph.Recheck
import Abuild.DependencyGraph.Groovy
import Abuild.DependencyGraph.Port
import Abuild.InterfaceParser
import Abuild.WorkerPool.Interleaving
import Abuild.InterfaceParser.Unevaluated
import Abuild.InterfaceParser.Conditions
import Abuild.Library.PathResolution
import Abuild.Util
import Abuild.Util.Canonicalize
import Abuild.KeyVal
import Abuild.KeyVal.Match
import Abuild.KeyVal.Pieces
import Abuild.KeyVal.RoundTrip
import Abuild.DependencyGraph.Components
import Abuild.Util.RelativePath
import Abuild.PlatformTables
import Abuild.Library.Chain
import Abuild.PlatformTables.Graph
import Abuild.PlatformTables.Recheck
import Abuild.BuildState
import Abuild.BuildState.Events
import Abuild.BuildState.RunTarget
import Abuild.BuildState.Calls
import Abuild.CodegenWrapper
import Abuild.CodegenWrapper.Cache
import Abuild.JavaBuilder.OutputHandlerStream
import Abuild.Util.CanonicalPath
import Abuild.Library.Ancestor
import Abuild.Upgrade.ForestRoot
import Abuild.KeyVal.Lossless
import Abuild.PlatformTables.Selection
import Abuild.PlatformTables.Declarations
import Abuild.PlatformTables.Additions
import Abuild.Library.Xml
import Abuild.Interface.Dump
import Abuild.Upgrade.UpgradeData
import Abuild.Upgrade.UpgradeLines
import Abuild.Upgrade.ReadBack
import Abuild.Upgrade.RoundTrip
import Abuild.Upgrade.Lossy
import Abuild.Library.OnePass
import Abuild.PlatformTypes
import Abuild.PlatformTypes.Update
import Abuild.PlatformTypes.Checked
import Abuild.PlatformSelector
import Abuild.PlatformSelector.Grammar
import Abuild.ItemConfig
import Abuild.ItemConfig.VisibleTo
import Abuild.ItemConfig.Children
import Abuild.ItemConfig.Deps
import Abuild.BuildForest.TreeDeps
import Abuild.OptionParser
import Abuild.OptionParser.Parse
import Abuild.Library.LineBuffer
import Abuild.Logger
import Abuild.Logger.Lines
import Abuild.InterfaceParser.TargetTypes
import Abuild.Library.Locks
import Abuild.Logger.Locks
import Abuild.Logger.Deadlock
import Abuild.Logger.Talk
import Abuild.Library.Decimal
import Abuild.Logger.Queue
import Abuild.Util.Digits
import Abuild.PlatformTables.Load
import Abuild.BuildGraph
import Abuild.BuildGraph.Prefixes
import Abuild.BuildGraph.Nodes
import Abuild.BuildState.Parameters
import Abuild.Library.XmlElements
import Abuild.DumpData
import Abuild.DumpData.Records
import Abuild.DumpData.Texts
import Abuild.DumpData.Items
import Abuild.DumpData.Forests
import Abuild.DumpData.Accepted
import Abuild.Library.Contiguous
import Abuild.Logger.Output
import Abuild.Logger.Marks
import Abuild.BuildGraph.Closed
import Abuild.BuildRun
import Abuild.BuildRun.Monitor
import Abuild.Traverse
import Abuild.Traverse.Gathered
import Abuild.Traverse.Backing
import Abuild.Traverse.Items
import Abuild.Traverse.Merged
