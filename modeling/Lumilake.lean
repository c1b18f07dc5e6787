import Lumilake.Library.Dict
import Lumilake.Library.Runs
import Lumilake.Library.RoundRobin
import Lumilake.Value
import Lumilake.RuntimeGraph
import Lumilake.Protocol
import Lumilake.Capacity
import Lumilake.JobManager.PartitionRotation
import Lumilake.Server.SliceReassembly
import Lumilake.Routes.TerminalStatus
import Lumilake.Optimizer.DedupeSound
import Lumilake.RuntimeManager.CredentialConfinement
import Lumilake.Library.Cuts
import Lumilake.JobManager.BatchContents
import Lumilake.JobManager.CohortPack
import Lumilake.JobManager.PolicyRegistry
import Lumilake.JobManager.QueueGuarantees
import Lumilake.JobManager.Starvation
import Lumilake.RuntimeManager.ShardRewrite
import Lumilake.Server.ClaimAgreement
import Lumilake.Server.FinalResult
import Lumilake.Server.WorkerRelease
import Lumilake.RuntimeManager.ResponseArchive
import Lumilake.RuntimeManager.Submit
import Lumilake.Runtime.Redaction
import Lumilake.Server.ExecutionRelease
import Lumilake.Server.CancelTogether
import Lumilake.Utils.OutputLocations
import Lumilake.Utils.IndexRefinement
import Lumilake.Server.FailureIsolation
import Lumilake.Optimizer.ReferenceClosure
import Lumilake.Dynamic.ForwardSound
import Lumilake.Routes.DurableCancel
import Lumilake.Routes.ChainCancel
import Lumilake.Routes.RecoveryCompleteness
import Lumilake.Server.ArtifactIntegrity
import Lumilake.Server.PlanCache
import Lumilake.Graphs.AnyListing
import Lumilake.Library.Regex
import Lumilake.Library.Ranking
import Lumilake.Parser.YamlReferences
import Lumilake.JobManager.CohortHistory
import Lumilake.JobManager.UnsatisfiableDwell
import Lumilake.JobManager.UserTurns
import Lumilake.DispatchClaims
import Lumilake.JobManager.DefaultFairness
import Lumilake.JobManager.CohortUnits
import Lumilake.Server.ChatHistories
import Lumilake.ListLambdas
import Lumilake.Routes.SubmittedSlices
import Lumilake.Server.Grouping
import Lumilake.RuntimeManager.RewriteHint
import Lumilake.Dynamic.ResolveAgain
import Lumilake.Runtime.Reshape
import Lumilake.Parser.SelectBinds
import Lumilake.Server.Apportionment
import Lumilake.Runtime.QueueDelivery
import Lumilake.Runtime.S3LockStep
import Lumilake.Routes.TemplateIdentity
import Lumilake.RuntimeManager.GeneratedHint
import Lumilake.Optimizer.HaloBound
