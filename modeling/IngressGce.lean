import IngressGce.Program.Runs
import IngressGce.Program.Iteration
import IngressGce.Program.Sorting
import IngressGce.Program.Stateful
import IngressGce.Program.MapLoops
import IngressGce.Program.SetUpdates
import IngressGce.Program.Respects
import IngressGce.Program.Interleaved
import IngressGce.Program.ListMap
import IngressGce.Program.WorkQueue
import IngressGce.Program.Worker
import IngressGce.Program.Reconcile
import IngressGce.Program.Loop
import IngressGce.Naming.GoString
import IngressGce.Naming.Namer
import IngressGce.Naming.Decimal
import IngressGce.Naming.LoadBalancerNames
import IngressGce.Naming.NEGNames
import IngressGce.Naming.Parse
import IngressGce.Naming.CertificateNames
import IngressGce.Naming.Lengths
import IngressGce.Cloud.Errors
import IngressGce.Cloud.Resource
import IngressGce.Cloud.Store
import IngressGce.Cloud.Owned
import IngressGce.Cloud.TwoRuns
import IngressGce.Kube.Objects
import IngressGce.LoadBalancer.State
import IngressGce.LoadBalancer.Calls
import IngressGce.LoadBalancer.EdgeHop
import IngressGce.LoadBalancer.Cleanup
import IngressGce.LoadBalancer.Pool
import IngressGce.LoadBalancer.Manages
import IngressGce.LoadBalancer.Proxies
import IngressGce.LoadBalancer.Rules
import IngressGce.LoadBalancer.Certificates
import IngressGce.LoadBalancer.Collect
import IngressGce.LoadBalancer.Entries
import IngressGce.LoadBalancer.Teardown
import IngressGce.LoadBalancer.Hop
import IngressGce.LoadBalancer.Rotation
import IngressGce.LoadBalancer.Tracked
import IngressGce.LoadBalancer.Frontend
import IngressGce.LoadBalancer.CertOwnership
import IngressGce.LoadBalancer.Leak
import IngressGce.LoadBalancer.AddressSource
import IngressGce.LoadBalancer.CertLeak
import IngressGce.LoadBalancer.SharedIP
import IngressGce.Backends.Names
import IngressGce.Backends.HealthChecks
import IngressGce.Backends.Keys
import IngressGce.Backends.Pool
import IngressGce.Backends.Tracking
import IngressGce.Backends.Stepwise
import IngressGce.Backends.HealthCheckSync
import IngressGce.Backends.Relisting
import IngressGce.Backends.Linking
import IngressGce.Backends.Migration
import IngressGce.Backends.StrayNames
import IngressGce.Backends.Serving
import IngressGce.Routing.RuleMap
import IngressGce.Routing.Update
import IngressGce.Routing.Preserves
import IngressGce.Routing.Unchanged
import IngressGce.Routing.Fronts
import IngressGce.Instances.Pool
import IngressGce.Instances.Membership
import IngressGce.Instances.NamedPorts
import IngressGce.NetworkEndpointGroup.Manager
import IngressGce.NetworkEndpointGroup.Lifecycle
import IngressGce.NetworkEndpointGroup.Endpoints
import IngressGce.NetworkEndpointGroup.Interleaving
import IngressGce.NetworkEndpointGroup.Accepted
import IngressGce.NetworkEndpointGroup.GarbageCollection
import IngressGce.NetworkEndpointGroup.Batching
import IngressGce.NetworkEndpointGroup.Converge
import IngressGce.NetworkEndpointGroup.IngressPorts
import IngressGce.Firewalls.Sync
import IngressGce.Storage.Vault
import IngressGce.Storage.ClusterUID
import IngressGce.Storage.VaultMap
import IngressGce.Controller.Probes
import IngressGce.Controller.Translator
import IngressGce.Controller.ClusterManager
import IngressGce.Controller.Firewall
import IngressGce.Controller.Sync
import IngressGce.Controller.Reports
import IngressGce.Controller.Traversals
import IngressGce.Controller.KeptBackends
import IngressGce.Controller.NodePorts
import IngressGce.Controller.TrackedIngresses
import IngressGce.Controller.TaskQueue
import IngressGce.Controller.Informers
import IngressGce.Controller.Events
import IngressGce.Controller.Deployment
import IngressGce.Controller.Rounds
import IngressGce.Controller.DataPlane
import IngressGce.NetworkEndpointGroup.Controller
import IngressGce.NetworkEndpointGroup.Reconciling
import IngressGce.NetworkEndpointGroup.SyncLoop
