import IngressGce.Controller.ClusterManager
import IngressGce.Controller.Firewall
import IngressGce.Controller.Translator

/-! # The sync of an Ingress

One sync makes a checkpoint of all pools, then brings the url map and the status of one
Ingress up to date, and at last collects what is no longer wanted. It writes down which
of its calls failed, what the checkpoint returned and when it wrote the instance groups
into the annotations of the Ingress.
-/
namespace IngressGce
open Kube Prog

/-- The store of Ingresses, which has one object for a key. -/
structure IngressStore where
  items : List Ingress
  distinct : (items.map Ingress.key).Nodup

namespace IngressStore
variable (store : IngressStore)

def listAll : List Ingress := store.items.filter (fun ing => ing.isGCEIngress || ing.isGCEMultiClusterIngress)

def listGCEIngresses : List Ingress := store.items.filter Ingress.isGCEIngress

/-- The keys of all objects, of whatever class. -/
def listKeys : List Str := store.items.map Ingress.key

def getByKey (key : Str) : Option Ingress := store.items.find? (fun ing => ing.key = key)

end IngressStore

/-! ## What a sync writes down -/

/-- The calls of a sync that can fail, the checkpoint apart. -/
inductive SyncCall
  | updateAnnotations
  | listZones
  | link
  | getL7
  | toURLMap
  | updateUrlMap
  | updateIngressStatus
  | gc
  deriving DecidableEq, Repr

inductive SyncEvent
  | checkpoint (result : Checkpoint)
  | annotate (igs : List InstanceGroup)
  | failed (call : SyncCall)
  deriving DecidableEq, Repr

/-- The failures of a sync. An error of the firewall pool is not one of them. -/
def SyncEvent.isFailure : SyncEvent → Bool
  | .checkpoint ⟨_,some (.other _)⟩ => true
  | .checkpoint ⟨_,some (.firewallSync _)⟩ => false
  | .checkpoint ⟨_,none⟩ => false
  | .annotate _ => false
  | .failed _ => true

theorem isFailure_checkpoint (result : Checkpoint) :
    (SyncEvent.checkpoint result).isFailure = false ↔ ∀ e, result.err ≠ some (.other e) := by
  obtain ⟨igs,err⟩ := result
  match err with
  | none => simp [SyncEvent.isFailure]
  | some (.firewallSync _) => simp [SyncEvent.isFailure]
  | some (.other e) => simp [SyncEvent.isFailure]

/-- A state with what has been written down so far, the latest first. -/
structure Journal (σ : Type) where
  world : σ
  events : List SyncEvent

namespace Journal
variable {σ ε α : Type}

def start (s : σ) : Journal σ := { world := s, events := [] }

/-- The events after a call that ended with `r`. -/
def noted (call : SyncCall) (r : Except ε α) (events : List SyncEvent) : List SyncEvent :=
  match r with
  | .ok _ => events
  | .error _ => .failed call :: events

/-- Make a call, and write down when it fails. -/
def run (call : SyncCall) (m : Prog σ ε α) : Prog (Journal σ) ε α := fun j =>
  match m j.world with
  | (r,s) => (r,{ world := s, events := noted call r j.events })

def note (e : SyncEvent) : Prog (Journal σ) ε Unit := update (fun j => { j with events := e :: j.events })

@[simp] theorem ensures_run (call : SyncCall) (m : Prog σ ε α) (j : Journal σ) (Q : Except ε α → Journal σ → Prop) :
    Ensures (run call m) j Q ↔
      Ensures m j.world (fun r s => Q r { world := s, events := noted call r j.events }) := Iff.rfl

@[simp] theorem ensures_note (e : SyncEvent) (j : Journal σ) (Q : Except ε Unit → Journal σ → Prop) :
    Ensures (note e) j Q ↔ Q (.ok ()) { j with events := e :: j.events } := Iff.rfl

end Journal

/-! ## The controller -/

/-- What a sync may return. An error that has come after another one carries it. -/
inductive SyncError
  | storesNotSynced
  | returned (e : GoError)
  | withoutIngress (e : GoError)
  | getL7 (earlier : Option SyncError) (e : GoError)
  | toURLMap (earlier : Option SyncError) (e : TranslateError)
  | updateUrlMap (earlier : Option SyncError) (e : GoError)
  | updateIngressStatus (earlier : Option SyncError) (e : GoError)
  | gc (earlier : Option SyncError) (e : GoError)

/-- The controller: its pools, its listers and the client of the cluster. -/
structure LoadBalancerController (σ L β : Type) where
  manager : ClusterManager σ L
  translator : GCETranslator σ β
  hasSynced : Bool
  negEnabled : Bool
  getReadyNodeNames : Except GoError (List Str)
  listZones : Except GoError (List Str)
  loadTLS : Ingress → Option TLSCerts
  endpointLister : Str → Option Endpoints
  firewallOrder : Iteration ℤ
  marshal : List InstanceGroup → Str
  getAnnotations : Str → Str → Prog σ GoError Annotations
  putAnnotations : Str → Str → Annotations → Prog σ GoError Unit
  updateUrlMap : L → GCEURLMap β → Prog σ GoError Unit
  updateIngressStatus : L → Ingress → Prog σ GoError Unit

namespace LoadBalancerController
variable {σ L β : Type} (lbc : LoadBalancerController σ L β)

/-- Certificates that can not be loaded count as none. -/
def toRuntimeInfo (ings : List Ingress) : List L7RuntimeInfo :=
  ings.map (fun ing =>
    { name := ing.key
      tls := if ing.annotations.useNamedTLS = [] then lbc.loadTLS ing else none
      tlsName := ing.annotations.useNamedTLS
      allowHTTP := ing.annotations.allowHTTP
      staticIPName := ing.annotations.staticIPName })

def gatherFirewallPorts (svcPorts : List Backends.ServicePort) (includeDefaultBackend : Bool) : List ℤ :=
  IngressGce.gatherFirewallPorts lbc.endpointLister lbc.manager.defaultBackendNodePort lbc.firewallOrder svcPorts
    includeDefaultBackend

def checkpointInput (store : IngressStore) (nodeNames : List Str) : CheckpointInput :=
  let gceNodePorts := lbc.translator.toNodePorts store.listGCEIngresses
  let lbs := lbc.toRuntimeInfo store.listGCEIngresses
  { lbs
    nodeNames
    backendServicePorts := gceNodePorts
    namedPorts := lbc.translator.toNodePorts store.listAll
    firewallPorts := lbc.gatherFirewallPorts gceNodePorts (!lbs.isEmpty) }

def setInstanceGroupsAnnotation (existing : Annotations) (igs : List InstanceGroup) : Annotations :=
  existing.insert instanceGroupsAnnotationKey (lbc.marshal igs)

def updateAnnotations (name namespaced : Str) (annotations : Annotations) : Prog σ GoError Unit := do
  let current ← lbc.getAnnotations name namespaced
  onlyIf (!decide (current.entries.Perm annotations.entries)) (lbc.putAnnotations name namespaced annotations)

def makeCheckpoint (store : IngressStore) (nodeNames : List Str) : Prog σ SyncError Checkpoint :=
  lbc.manager.checkpoint (lbc.checkpointInput store nodeNames)

def publishInstanceGroups (ing : Ingress) (igs : List InstanceGroup) : Prog σ GoError Unit :=
  lbc.updateAnnotations ing.name ing.namespaced (lbc.setInstanceGroupsAnnotation ing.annotations igs)

/-- The branch for multi-cluster Ingresses. The annotations written to are those of the
object in the store, which `ing` shares with it. -/
def annotate (ing : Ingress) (igs : List InstanceGroup) : Prog (Journal σ) SyncError Unit := do
  Journal.note (.annotate igs)
  mapFailure .returned (Journal.run .updateAnnotations (lbc.publishInstanceGroups ing igs))

def linkPort (svcPort : Backends.ServicePort) : Prog (Journal σ) SyncError Unit :=
  if svcPort.negEnabled then do
    let zones ← mapFailure .returned (Journal.run .listZones (fun s => (lbc.listZones,s)))
    mapFailure .returned (Journal.run .link (lbc.manager.linkBackend svcPort zones))
  else pure ()

def linkPorts (ing : Ingress) : Prog (Journal σ) SyncError Unit :=
  onlyIf lbc.negEnabled (forEach lbc.linkPort (lbc.translator.toNodePorts [ing]))

/-- Bring the url map and the status up to date, after the error `earlier`. -/
def updateL7 (earlier : Option SyncError) (key : Str) (ing : Ingress) : Prog (Journal σ) SyncError Unit := do
  let l7 ← mapFailure (.getL7 earlier) (Journal.run .getL7 (lbc.manager.getL7 key))
  let urlMap ← mapFailure (.toURLMap earlier) (Journal.run .toURLMap (lbc.translator.toURLMap ing))
  mapFailure (.updateUrlMap earlier) (Journal.run .updateUrlMap (lbc.updateUrlMap l7 urlMap))
  mapFailure (.updateIngressStatus earlier) (Journal.run .updateIngressStatus (lbc.updateIngressStatus l7 ing))

/-- The values of `syncError` and of the named result when the body returns. -/
structure Exit where
  syncError : Option SyncError
  err : Option SyncError

/-- The value of `syncError` after the checkpoint: an error of the firewall pool only
raises an event. -/
def afterCheckpoint (ingExists : Bool) : Option CheckpointError → Option SyncError
  | none => none
  | some (.firewallSync _) => none
  | some (.other e) => some (if ingExists then .returned e else .withoutIngress e)

/-- The body of a sync from the checkpoint's return to its own. -/
def syncIngress (store : IngressStore) (key : Str) (result : Checkpoint) : Prog (Journal σ) SyncError Exit :=
  let syncError := afterCheckpoint (store.getByKey key).isSome result.err
  match store.getByKey key with
  | none => pure ⟨syncError,syncError⟩
  | some ing =>
    if ing.isGCEMultiClusterIngress then do
      match ← attempt (lbc.annotate ing result.igs) with
      | .error e => pure ⟨syncError,some e⟩
      | .ok _ => pure ⟨syncError,none⟩
    else do
      match ← attempt (lbc.linkPorts ing) with
      | .error e => pure ⟨syncError,some e⟩
      | .ok _ =>
        match ← attempt (lbc.updateL7 syncError key ing) with
        | .error e => pure ⟨some e,some e⟩
        | .ok _ => pure ⟨syncError,syncError⟩

/-- The body of a sync, what is deferred not included. -/
def syncBody (store : IngressStore) (key : Str) (nodeNames : List Str) : Prog (Journal σ) SyncError Exit := do
  let result ← onPart Journal.world (fun s j => { j with world := s }) (lbc.makeCheckpoint store nodeNames)
  Journal.note (.checkpoint result)
  lbc.syncIngress store key result

def collectGarbage (store : IngressStore) : Prog σ GoError Unit :=
  lbc.manager.gc store.listKeys (lbc.translator.toNodePorts store.listAll)

/-- The collection, which is deferred. Its error replaces the one of the body. -/
def finish (store : IngressStore) (exit : Exit) : Prog (Journal σ) SyncError Unit := do
  mapFailure (.gc exit.syncError) (Journal.run .gc (lbc.collectGarbage store))
  match exit.err with
  | none => pure ()
  | some e => fail e

def sync (store : IngressStore) (key : Str) : Prog (Journal σ) SyncError Unit :=
  if lbc.hasSynced then
    match lbc.getReadyNodeNames with
    | .error e => fail (.returned e)
    | .ok nodeNames => do
      let exit ← lbc.syncBody store key nodeNames
      lbc.finish store exit
  else fail .storesNotSynced

section Run
variable {store : IngressStore} {key : Str} {nodeNames : List Str} {s s₁ : σ} {result : Checkpoint}

theorem checkpoint_returns (store : IngressStore) (nodeNames : List Str) (s : σ) :
    ∃ result s', lbc.makeCheckpoint store nodeNames s = (.ok result,s') := by
  have h : Returns (lbc.makeCheckpoint store nodeNames) s (fun _ _ => True) := by
    unfold makeCheckpoint ClusterManager.checkpoint
    rw [returns_bind,returns_attempt]
    refine (ensures_run _ _).mono ?_
    intro r s₁ _
    cases r with
    | error e => exact (returns_pure _ _ _).mpr trivial
    | ok igs =>
      dsimp only
      rw [returns_bind,returns_attempt]
      refine (ensures_run _ _).mono ?_
      intro r s₂ _
      cases r with
      | error e => exact (returns_pure _ _ _).mpr trivial
      | ok _ => exact (returns_pure _ _ _).mpr trivial
  obtain ⟨result,hresult,_⟩ := h
  exact ⟨result,_,Prod.ext hresult rfl⟩

variable {lbc}

theorem ensures_syncBody (hcheckpoint : lbc.makeCheckpoint store nodeNames s = (.ok result,s₁))
    (Q : Except SyncError Exit → Journal σ → Prop) :
    Ensures (lbc.syncBody store key nodeNames) (Journal.start s) Q ↔
      Ensures (lbc.syncIngress store key result) { world := s₁, events := [.checkpoint result] } Q := by
  have hworld : (Journal.start s).world = s := rfl
  rw [syncBody,ensures_bind,ensures_onPart,hworld,ensures_of_eq hcheckpoint,afterwards_ok,ensures_bind,
    Journal.ensures_note]
  rfl

theorem ensures_sync (hsynced : lbc.hasSynced = true) (hnodes : lbc.getReadyNodeNames = .ok nodeNames)
    (hcheckpoint : lbc.makeCheckpoint store nodeNames s = (.ok result,s₁))
    (Q : Except SyncError Unit → Journal σ → Prop) :
    Ensures (lbc.sync store key) (Journal.start s) Q ↔
      Ensures (lbc.syncIngress store key result) { world := s₁, events := [.checkpoint result] }
        (afterwards (lbc.finish store) Q) := by
  unfold sync
  rw [if_pos hsynced,hnodes]
  dsimp only
  rw [ensures_bind,ensures_syncBody hcheckpoint]

end Run
end LoadBalancerController

/-- What the worker does with a key. -/
inductive QueueOp
  | addRateLimited (key : Str)
  | forget (key : Str)
  | done (key : Str)
  deriving DecidableEq, Repr

/-- The operations on the queue after the sync of a key. -/
def worker {ε : Type} (key : Str) : Except ε Unit → List QueueOp
  | .error _ => [.addRateLimited key,.done key]
  | .ok _ => [.forget key,.done key]

end IngressGce
