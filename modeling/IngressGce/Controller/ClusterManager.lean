import IngressGce.Backends.Names
import IngressGce.Cloud.Errors
import IngressGce.LoadBalancer.State
import IngressGce.Program.Iteration
import IngressGce.Program.Stateful

/-! # The cluster manager

The checkpoint and the collection over the pools they call. What a pool does to the
state and what it answers is left open here; the order in which the pools are called, and
what becomes of their errors, is the manager's.
-/
namespace IngressGce
open Prog

structure InstanceGroup where
  name : Str
  zone : Str
  deriving DecidableEq, Repr

/-- The errors of a checkpoint. Only the firewall pool returns errors of the first kind,
which leave it to the user to change the firewall. -/
inductive CheckpointError
  | firewallSync (message : Str)
  | other (e : GoError)
  deriving DecidableEq, Repr

/-- The ports without repetition, the last one counts. -/
def uniq (o : Iteration Backends.ServicePort) (nodePorts : List Backends.ServicePort) : List Backends.ServicePort :=
  let portMap : AList (fun _ : ℤ => Backends.ServicePort) := nodePorts.foldl (fun m p => m.insert p.port p) ∅
  o.range (portMap.entries.map Sigma.snd)

/-- The pools, with states in `σ` and load balancers in `L`. -/
structure ClusterManager (σ L : Type) where
  defaultBackendNodePort : Backends.ServicePort
  portOrder : Iteration Backends.ServicePort
  ensureInstanceGroupsAndPorts : List ℤ → Prog σ GoError (List InstanceGroup)
  syncInstances : List Str → Prog σ GoError Unit
  deleteInstanceGroup : Prog σ GoError Unit
  ensureBackends : List Backends.ServicePort → List InstanceGroup → Prog σ GoError Unit
  linkBackend : Backends.ServicePort → List Str → Prog σ GoError Unit
  gcBackends : List Backends.ServicePort → Prog σ GoError Unit
  syncL7s : List L7RuntimeInfo → Prog σ GoError Unit
  getL7 : Str → Prog σ GoError L
  gcL7s : List Str → Prog σ GoError Unit
  syncFirewall : List ℤ → List Str → Prog σ CheckpointError Unit

structure CheckpointInput where
  lbs : List L7RuntimeInfo
  nodeNames : List Str
  backendServicePorts : List Backends.ServicePort
  namedPorts : List Backends.ServicePort
  firewallPorts : List ℤ

structure Checkpoint where
  igs : List InstanceGroup
  err : Option CheckpointError
  deriving DecidableEq, Repr

namespace ClusterManager
variable {σ L : Type} (c : ClusterManager σ L)

def syncPools (input : CheckpointInput) (igs : List InstanceGroup) : Prog σ CheckpointError Unit := do
  mapFailure .other (c.ensureBackends (uniq c.portOrder input.backendServicePorts) igs)
  mapFailure .other (c.syncInstances input.nodeNames)
  mapFailure .other (c.syncL7s input.lbs)
  c.syncFirewall input.firewallPorts input.nodeNames

def checkpoint {ε : Type} (input : CheckpointInput) : Prog σ ε Checkpoint := do
  let namedPorts := uniq c.portOrder
    (if input.namedPorts.isEmpty then [] else input.namedPorts ++ [c.defaultBackendNodePort])
  match ← attempt (c.ensureInstanceGroupsAndPorts (namedPorts.map (fun p => p.port))) with
  | .error e => pure ⟨[],some (.other e)⟩
  | .ok igs =>
    match ← attempt (c.syncPools input igs) with
    | .error e => pure ⟨igs,some e⟩
    | .ok _ => pure ⟨igs,none⟩

/-- The backends are collected also when the load balancers could not be. -/
def gc (lbNames : List Str) (nodePorts : List Backends.ServicePort) : Prog σ GoError Unit := do
  let lbErr ← attempt (c.gcL7s lbNames)
  let beErr ← attempt (c.gcBackends nodePorts)
  match lbErr, beErr with
  | .error e, _ => fail e
  | .ok _, .error e => fail e
  | .ok _, .ok _ => onlyIf lbNames.isEmpty c.deleteInstanceGroup

end ClusterManager
end IngressGce
