import PhenixConductor.Contract.Inference
import PhenixConductor.Observable.Interleaving
import PhenixConductor.Component.Providers
import PhenixConductor.Events.Reentry
import PhenixConductor.Harness.PluginSet
import PhenixConductor.Runtime.Retention
import PhenixConductor.Runtime.Recursion
import PhenixConductor.Runtime.OneShot
import PhenixConductor.Execution.Binding
import PhenixConductor.Execution.ReviewRuns
import PhenixConductor.Context.Agreement
import PhenixConductor.Context.Loading
import PhenixConductor.Client.Correspondence
import PhenixConductor.Client.ToolAdmissions
import PhenixConductor.Language.Providers
import PhenixConductor.Repository.Selection
import PhenixConductor.Provider.ToolCalls
import PhenixConductor.Workspace.Batch
import PhenixConductor.Language.Evidence
import PhenixConductor.Application.OneStory
import PhenixConductor.Application.Follows
import PhenixConductor.StepRunner.Retries
import PhenixConductor.StepRunner.Closing
import PhenixConductor.Jobs.Lifetimes
import PhenixConductor.Sessions.Integrity
import PhenixConductor.Artifacts.Cache
import PhenixConductor.Frontend.Exclusivity
import PhenixConductor.Models.Freshness
import PhenixConductor.Sdk.Deliveries
import PhenixConductor.Events.Completion
import PhenixConductor.Harness.Lifecycle
import PhenixConductor.Observable.Tries
import PhenixConductor.Persistence.Ownership
import PhenixConductor.Persistence.Bootstrap
import PhenixConductor.Backend.Cancellation
import PhenixConductor.Backend.History
import PhenixConductor.Lua.Callbacks
import PhenixConductor.Lua.Agreement
import PhenixConductor.Observable.Recovery
import PhenixConductor.Sdk.Derive
import PhenixConductor.Execution.Exactness
import PhenixConductor.Execution.Dependencies
import PhenixConductor.Execution.AttemptRuns
import PhenixConductor.Models.Selection
import PhenixConductor.Context.CountedOnce
import PhenixConductor.Memory.Atomicity
import PhenixConductor.Memory.Lifecycle
import PhenixConductor.Memory.Associations
