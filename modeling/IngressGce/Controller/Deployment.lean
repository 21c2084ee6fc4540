import IngressGce.Backends.Serving
import IngressGce.Controller.KeptBackends
import IngressGce.Controller.NodePorts
import IngressGce.Controller.Reports
import IngressGce.Controller.TrackedIngresses
import IngressGce.Instances.NamedPorts
import IngressGce.Naming.Lengths
import IngressGce.Routing.Fronts

/-! # The controller on its pools

The pools of instance groups, of backends and of load balancers in one state, as
`NewClusterManager` puts them together. The default backend has a pool of its own, with a
record of its own and the same cloud. Every sync finds other Ingresses, Services, nodes and
zones. What members the instance groups have, the firewall, the objects of the cluster and
what load balancers have besides url maps are the rest, on which programs run that may fail.
-/
namespace IngressGce
open Kube Prog Routing

/-- What does not change. The cloud makes links from names, and finds a backend service by
its link. -/
structure Cluster where
  namer : Namer
  defaultBackendNodePort : Backends.ServicePort
  defaultHealthCheckPath : Str
  healthCheckLink : Str → Str
  serviceLink : Str → Str
  serviceName : Str → Str
  groupLink : Str → Str → Str
  md5 : Str → Str
  negMD5 : MD5
  serviceName_serviceLink : ∀ name, serviceName (serviceLink name) = name
  default_isInt64 : IsInt64 defaultBackendNodePort.port
  isInstanceGroup_groupLink : ∀ name zone, Backends.IsInstanceGroup (groupLink name zone)

structure Pools (ρ : Type) where
  groups : GroupPool
  backends : Backends.Pool
  defaults : List Str
  fronts : Fronts Backends.BackendService ρ

/-- What one sync finds, and what it does to the rest. -/
structure Round (ρ : Type) where
  store : IngressStore
  key : Str
  svcLister : Str → Option Service
  unmarshal : Str → AList (fun _ : Str => Str) × Option Str
  negEnabled : Bool
  hasSynced : Bool
  readyNodeNames : Except GoError (List Str)
  zones : Except GoError (List Str)
  getProbe : Backends.ServicePort → Except GoError (Option Backends.Probe)
  getNetworkEndpointGroup : Str → Str → Except GoError Str
  isInUsedByError : GoError → Bool
  portOrder : Iteration Backends.ServicePort
  backendOrder : Iteration Str
  frontOrder : Iteration Str
  firewallOrder : Iteration ℤ
  urlMapOrders : Orders Backends.BackendService
  loadTLS : Ingress → Option TLSCerts
  endpointLister : Str → Option Endpoints
  marshal : List InstanceGroup → Str
  syncInstances : List Str → List Str → Prog ρ GoError Unit
  syncFirewall : List ℤ → List Str → Prog ρ CheckpointError Unit
  hops : L7RuntimeInfo → Prog ρ GoError Unit
  dispose : Str → Prog ρ GoError Unit
  getAnnotations : Str → Str → Prog ρ GoError Annotations
  putAnnotations : Str → Str → Annotations → Prog ρ GoError Unit
  updateIngressStatus : Ref → Ingress → Prog ρ GoError Unit

namespace Pools
variable {ρ ε α : Type}

def onGroups (m : GroupM α) : Prog (Pools ρ) GoError α := onPart Pools.groups (fun g w => { w with groups := g }) m

def onBackends (m : Backends.PoolM α) : Prog (Pools ρ) GoError α :=
  onPart Pools.backends (fun p w => { w with backends := p }) m

/-- Run a program of the default backend's pool. -/
def onDefaults (m : Backends.PoolM α) : Prog (Pools ρ) GoError α :=
  onPart (fun w => { w.backends with snapshotter := w.defaults })
    (fun p w => { w with backends := { p with snapshotter := w.backends.snapshotter }, defaults := p.snapshotter }) m

def onFronts (m : Prog (Fronts Backends.BackendService ρ) ε α) : Prog (Pools ρ) ε α :=
  onPart Pools.fronts (fun f w => { w with fronts := f }) m

def onRest (m : Prog ρ ε α) : Prog (Pools ρ) ε α :=
  onPart (fun w => w.fronts.rest) (fun r w => { w with fronts := { w.fronts with rest := r } }) m

def setDefaultBackend (be : Option Backends.BackendService) : Prog (Pools ρ) GoError Unit :=
  onFronts (update (fun f => { f with glbcDefaultBackend := be }))

end Pools

namespace Cluster
variable (c : Cluster)

def backendPool : Backends where
  healthChecker := { namer := c.namer, defaultPath := c.defaultHealthCheckPath, links := c.healthCheckLink }
  links := c.serviceLink
  ignorePorts := [c.defaultBackendNodePort.port]

def defaultBackendPool : Backends where
  healthChecker := { namer := c.namer, defaultPath := "/healthz".toList, links := c.healthCheckLink }
  links := c.serviceLink
  ignorePorts := []

/-- The name of the url map of an Ingress. -/
def urlMap (key : Str) : Str := Namer.urlMap (c.namer.loadBalancer key)

end Cluster

namespace Round
variable {ρ : Type} (c : Cluster) (r : Round ρ)

def ensureInstanceGroupsAndPorts (ports : List ℤ) : Prog (Pools ρ) GoError (List InstanceGroup) := do
  let igs ← Pools.onGroups (Instances.ensureInstanceGroupsAndPorts r.zones c.namer.instanceGroup ports)
  pure (igs.map (fun ig => { name := ig.name, zone := ig.zone }))

/-- The instance groups for `Ensure`: without any, the list is nil and they are ensured
once more. -/
def instanceGroupsFor (svcPorts : List Backends.ServicePort) (igs : List InstanceGroup) :
    Prog (Pools ρ) GoError (List InstanceGroup) :=
  if igs.isEmpty then r.ensureInstanceGroupsAndPorts c (svcPorts.map (fun p => p.port)) else pure igs

def surroundings (igs : List InstanceGroup) (prober : Option (Backends.ServicePort → Except GoError (Option Backends.Probe))) :
    Backends.Surroundings where
  instanceGroups := .ok (igs.map (fun ig => c.groupLink ig.name ig.zone))
  prober := prober

def ensureBackends (svcPorts : List Backends.ServicePort) (igs : List InstanceGroup) : Prog (Pools ρ) GoError Unit := do
  let igs ← r.instanceGroupsFor c svcPorts igs
  Pools.onBackends (c.backendPool.ensure svcPorts (surroundings c igs (some r.getProbe)))

/-- The pool of the default backend has no prober. -/
def ensureDefaultBackend : Prog (Pools ρ) GoError Unit := do
  let igs ← r.instanceGroupsFor c [c.defaultBackendNodePort] []
  Pools.onDefaults (c.defaultBackendPool.ensure [c.defaultBackendNodePort] (surroundings c igs none))

/-- The default backend is made when there are load balancers. -/
def syncL7s (lbs : List L7RuntimeInfo) : Prog (Pools ρ) GoError Unit := do
  onlyIf (!lbs.isEmpty) (do
    r.ensureDefaultBackend c
    let defaultBackend ← Pools.onDefaults (c.defaultBackendPool.get c.defaultBackendNodePort.port)
    Pools.setDefaultBackend (some defaultBackend))
  forEach (fun ri => Pools.onFronts (Fronts.add c.namer (fun be => be.selfLink) r.hops ri)) lbs

def getL7 (key : Str) : Prog (Pools ρ) GoError Ref := Pools.onFronts (Fronts.get c.namer key)

/-- The default backend is deleted when there are no more load balancers. -/
def gcL7s (names : List Str) : Prog (Pools ρ) GoError Unit := do
  Pools.onFronts (Fronts.deleteUnknown c.namer r.dispose r.frontOrder names)
  onlyIf names.isEmpty (do
    Pools.onDefaults (c.defaultBackendPool.delete c.defaultBackendNodePort.port)
    Pools.setDefaultBackend none)

def manager : ClusterManager (Pools ρ) Ref where
  defaultBackendNodePort := c.defaultBackendNodePort
  portOrder := r.portOrder
  ensureInstanceGroupsAndPorts := r.ensureInstanceGroupsAndPorts c
  syncInstances nodes := do
    let w ← state
    Pools.onRest (r.syncInstances w.groups.snapshotter nodes)
  deleteInstanceGroup :=
    Pools.onGroups (Instances.deleteInstanceGroup r.isInUsedByError r.zones c.namer.instanceGroup)
  ensureBackends := r.ensureBackends c
  linkBackend port zones := Pools.onBackends (c.backendPool.link c.negMD5 r.getNetworkEndpointGroup port zones)
  gcBackends svcPorts := Pools.onBackends (c.backendPool.gc r.backendOrder svcPorts)
  syncL7s := r.syncL7s c
  getL7 := getL7 c
  gcL7s := r.gcL7s c
  syncFirewall ports nodes := Pools.onRest (r.syncFirewall ports nodes)

def translator : GCETranslator (Pools ρ) Backends.BackendService where
  svcLister := r.svcLister
  unmarshal := r.unmarshal
  negEnabled := r.negEnabled
  backendPool port := Pools.onBackends (c.backendPool.get port)

def updateUrlMap (lb : Ref) (urlMap : GCEURLMap Backends.BackendService) : Prog (Pools ρ) GoError Unit :=
  mapFailure Failure.toError (Pools.onFronts
    (Fronts.updateUrlMap (fun be => be.selfLink) c.md5 r.urlMapOrders lb urlMap))

def controller : LoadBalancerController (Pools ρ) Ref Backends.BackendService where
  manager := r.manager c
  translator := r.translator c
  hasSynced := r.hasSynced
  negEnabled := r.negEnabled
  getReadyNodeNames := r.readyNodeNames
  listZones := r.zones
  loadTLS := r.loadTLS
  endpointLister := r.endpointLister
  firewallOrder := r.firewallOrder
  marshal := r.marshal
  getAnnotations name namespaced := Pools.onRest (r.getAnnotations name namespaced)
  putAnnotations name namespaced annotations := Pools.onRest (r.putAnnotations name namespaced annotations)
  updateUrlMap := r.updateUrlMap c
  updateIngressStatus lb ing := Pools.onRest (r.updateIngressStatus lb ing)

/-- The sync of the round's key, and how it ends. -/
def sync (w : Pools ρ) : Except SyncError Unit × Pools ρ :=
  let (result,j) := (r.controller c).sync r.store r.key (Journal.start w)
  (result,j.world)

def step (w : Pools ρ) (r : Round ρ) : Pools ρ := (r.sync c w).2

end Round

/-! ## What a sync respects -/

namespace LoadBalancerController
variable {σ L β : Type} (lbc : LoadBalancerController σ L β) (R : σ → σ → Prop)

/-- The calls of a sync respect the relation, with all that a sync may pass to them. -/
structure Respected (store : IngressStore) (key : Str) : Prop where
  ensureGroups : ∀ ports : List ℤ, ports.Nodup → Respects R (lbc.manager.ensureInstanceGroupsAndPorts ports)
  ensureBackends : ∀ igs, Respects R (lbc.manager.ensureBackends
    (uniq lbc.manager.portOrder (lbc.translator.toNodePorts store.listGCEIngresses)) igs)
  syncInstances : ∀ nodeNames, Respects R (lbc.manager.syncInstances nodeNames)
  syncL7s : Respects R (lbc.manager.syncL7s (lbc.toRuntimeInfo store.listGCEIngresses))
  syncFirewall : ∀ ports nodeNames, Respects R (lbc.manager.syncFirewall ports nodeNames)
  annotations : ∀ ing igs, Respects R (lbc.publishInstanceGroups ing igs)
  link : ∀ ing, store.getByKey key = some ing → ∀ sp ∈ lbc.translator.ingressToNodePorts ing, sp.negEnabled = true →
    ∀ zones, Respects R (lbc.manager.linkBackend sp zones)
  updateL7 : ∀ ing, store.getByKey key = some ing → ∀ earlier, Respects (Journal.Advances R) (lbc.updateL7 earlier key ing)
  gcL7s : Respects R (lbc.manager.gcL7s store.listKeys)
  gcBackends : Respects R (lbc.manager.gcBackends (lbc.translator.toNodePorts store.listAll))
  deleteGroup : store.listKeys.isEmpty = true → Respects R lbc.manager.deleteInstanceGroup

theorem nodup_ports_uniq {o : Iteration Backends.ServicePort} {nodePorts : List Backends.ServicePort} :
    ((uniq o nodePorts).map (fun p => p.port)).Nodup :=
  List.Nodup.map_on (fun _ hsp _ hsp' hport => eq_of_mem_uniq hsp hsp' hport) nodup_uniq

variable {lbc R} [IsPreorder σ R] {store : IngressStore} {key : Str}

/-- The part of a checkpoint after the backends. -/
theorem respects_syncFronts (h : lbc.Respected R store key) (nodeNames : List Str) :
    Respects R (do
      mapFailure .other (lbc.manager.syncInstances nodeNames)
      mapFailure .other (lbc.manager.syncL7s (lbc.toRuntimeInfo store.listGCEIngresses))
      lbc.manager.syncFirewall (lbc.checkpointInput store nodeNames).firewallPorts nodeNames) := by
  apply ((h.syncInstances nodeNames).mapFailure _).bind
  intro _
  apply (h.syncL7s.mapFailure _).bind
  intro _
  exact h.syncFirewall _ _

theorem respects_makeCheckpoint (h : lbc.Respected R store key) (nodeNames : List Str) :
    Respects R (lbc.makeCheckpoint store nodeNames) := by
  apply (h.ensureGroups _ nodup_ports_uniq).attempt.bind
  intro r
  cases r with
  | error e => exact respects_pure _
  | ok igs =>
    have hpools : Respects R (lbc.manager.syncPools (lbc.checkpointInput store nodeNames) igs) :=
      ((h.ensureBackends igs).mapFailure _).bind fun _ => respects_syncFronts h nodeNames
    apply hpools.attempt.bind
    intro r
    cases r with
    | error e => exact respects_pure _
    | ok _ => exact respects_pure _

theorem respects_linkPorts (h : lbc.Respected R store key) {ing : Ingress} (hing : store.getByKey key = some ing) :
    Respects (Journal.Advances R) (lbc.linkPorts ing) := by
  apply Respects.onlyIf
  apply Respects.forEach
  intro sp hsp
  have hmem : sp ∈ lbc.translator.ingressToNodePorts ing := by
    simpa [GCETranslator.toNodePorts] using hsp
  unfold linkPort
  cases hneg : sp.negEnabled with
  | false => exact respects_pure ()
  | true =>
    have hzones : Respects R (fun s => (lbc.listZones,s) : Prog σ GoError (List Str)) := fun s => refl_of R s
    rw [if_pos rfl]
    apply ((Journal.advances_run hzones _).mapFailure _).bind
    intro zones
    exact (Journal.advances_run (h.link ing hing sp hmem hneg zones) _).mapFailure _

theorem respects_syncIngress (h : lbc.Respected R store key) (result : Checkpoint) :
    Respects (Journal.Advances R) (lbc.syncIngress store key result) := by
  unfold syncIngress
  cases hing : store.getByKey key with
  | none => exact respects_pure _
  | some ing =>
    dsimp only
    apply Respects.ite
    · have hannotate : Respects (Journal.Advances R) (lbc.annotate ing result.igs) :=
        (Journal.advances_note _).bind fun _ => (Journal.advances_run (h.annotations ing result.igs) _).mapFailure _
      apply hannotate.attempt.bind
      intro r
      cases r with
      | error e => exact respects_pure _
      | ok _ => exact respects_pure _
    · apply (respects_linkPorts h hing).attempt.bind
      intro r
      cases r with
      | error e => exact respects_pure _
      | ok _ =>
        apply (h.updateL7 ing hing _).attempt.bind
        intro r
        cases r with
        | error e => exact respects_pure _
        | ok _ => exact respects_pure _

theorem respects_collectGarbage (h : lbc.Respected R store key) : Respects R (lbc.collectGarbage store) := by
  unfold collectGarbage ClusterManager.gc
  apply h.gcL7s.attempt.bind
  intro lbErr
  apply h.gcBackends.attempt.bind
  intro beErr
  cases lbErr with
  | error e => exact respects_fail e
  | ok _ =>
    cases beErr with
    | error e => exact respects_fail e
    | ok _ =>
      cases hkeys : store.listKeys.isEmpty with
      | true => exact h.deleteGroup hkeys
      | false => exact respects_pure ()

theorem respects_finish (h : lbc.Respected R store key) (exit : Exit) :
    Respects (Journal.Advances R) (lbc.finish store exit) := by
  unfold finish
  apply ((Journal.advances_run (respects_collectGarbage h) _).mapFailure _).bind
  intro _
  cases exit.err with
  | none => exact respects_pure ()
  | some e => exact respects_fail e

/-- A sync respects what its calls respect, wherever it ends. -/
theorem respects_sync (h : lbc.Respected R store key) : Respects (Journal.Advances R) (lbc.sync store key) := by
  unfold sync
  cases lbc.hasSynced with
  | false => exact respects_fail _
  | true =>
    rw [if_pos rfl]
    cases lbc.getReadyNodeNames with
    | error e => exact respects_fail _
    | ok nodeNames =>
      apply Respects.bind
      · apply Respects.bind
        · exact (respects_makeCheckpoint h nodeNames).onPart fun _ _ hR => ⟨hR,fun _ he => he⟩
        · exact fun result => (Journal.advances_note _).bind fun _ => respects_syncIngress h result
      · exact respects_finish h

end LoadBalancerController
end IngressGce
