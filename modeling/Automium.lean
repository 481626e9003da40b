import Automium.Effect.Exec
import Automium.Effect.Triple
import Automium.Effect.Runs
import Automium.Effect.Pool
import Automium.Effect.Sum
import Automium.Effect.Watch
import Automium.Effect.Loop
import Automium.Data.Table
import Automium.Data.SliceSort
import Automium.Data.ReplicaSet
import Automium.Go.Strings
import Automium.Go.Url
import Automium.Go.Json
import Automium.Go.Marshal
import Automium.Api.Server
import Automium.Api.World
import Automium.Api.Versions
import Automium.Api.Collect
import Automium.Utils.Module
import Automium.Utils.Service
import Automium.Utils.Node
import Automium.Controller.Node
import Automium.Controller.Application
import Automium.Proofs.ServiceCalls
import Automium.Proofs.Creations
import Automium.Proofs.ModuleCalls
import Automium.Proofs.NodeNames
import Automium.Proofs.Action
import Automium.Proofs.PodNames
import Automium.Proofs.ModuleFidelity
import Automium.Proofs.Extras
import Automium.Proofs.Replicas
import Automium.Proofs.ReplicaRuns
import Automium.Proofs.Marks
import Automium.Proofs.Hostnames
import Automium.Proofs.ExtrasErrors
import Automium.Proofs.ExtrasAgain
import Automium.Proofs.ExtrasPhase
import Automium.Proofs.JobGuard
import Automium.Proofs.Completed
import Automium.Proofs.JobFidelity
import Automium.Proofs.Annotations
import Automium.Proofs.Ownership
import Automium.Proofs.Machines
import Automium.Proofs.Recreated
import Automium.Proofs.NodeStatus
import Automium.Proofs.NodeWrites
import Automium.Proofs.FailedLookups
import Automium.Proofs.ExternalID
import Automium.Proofs.Deployments
import Automium.Proofs.Listing
import Automium.Proofs.Events
import Automium.Proofs.AppServer
import Automium.Proofs.Addons
import Automium.Proofs.Notifications
import Automium.Proofs.Variables
import Automium.Proofs.ScaleDown
import Automium.Proofs.ScaleUp
import Automium.Proofs.Choice
import Automium.Proofs.OwnChanges
import Automium.Proofs.Settling
import Automium.Proofs.LastOutcome
import Automium.Proofs.Panics
import Automium.Proofs.ClusterName
import Automium.Proofs.DerivedNames
import Automium.Proofs.AtRest
import Automium.Proofs.ModuleAtRest
import Automium.Proofs.OwnersAtRest
import Automium.Proofs.Delivery
import Automium.Proofs.RolloutRuns
import Automium.Proofs.Webhook
