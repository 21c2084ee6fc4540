import IngressGce.Backends.HealthChecks
import IngressGce.LoadBalancer.State
import IngressGce.Program.Iteration

/-! # The pool of backend services

The pool keeps the ports it has worked on, by their numerals, so that it can delete later
what it may have created for them. A port is put on record after the work on it, whether
that has failed or not, and is taken off the record when its backend service and its
health check are known to be gone.
-/
namespace IngressGce
open Prog

namespace Backends

inductive BalancingMode
  | rate
  | utilization
  deriving DecidableEq, Repr

/-- The entry of a backend service for an instance group. -/
structure Backend where
  group : Str
  balancingMode : BalancingMode
  maxRatePerInstance : ℤ
  deriving DecidableEq

structure BackendService extends IngressGce.BackendService where
  name : Str
  description : Str
  protocol : Str
  healthChecks : List Str
  port : ℤ
  portName : Str
  backends : List Backend
  deriving DecidableEq

def ServicePort.description (sp : ServicePort) : Str :=
  if sp.svcPort.text = [] then []
  else "\x7b\"kubernetes.io/service-name\":\"".toList ++ sp.svcNamespace ++ "/".toList ++ sp.svcName ++
    "\",\"kubernetes.io/service-port\":\"".toList ++ sp.svcPort.text ++ "\"\x7d".toList

/-- What the pool records, and the cloud. -/
structure Pool where
  snapshotter : List Str
  services : Store Str (Owned BackendService)
  health : HealthChecks

abbrev PoolM (α : Type) := Prog Pool GoError α

/-- What a call of `ensure` learns elsewhere: the instance groups, unless the caller
passes them, and the readiness probes, if there is a prober. -/
structure Surroundings where
  instanceGroups : Except GoError (List Str)
  prober : Option (ServicePort → Except GoError (Option Probe))

def Pool.track (w : Pool) (key : Str) : Pool := { w with snapshotter := w.snapshotter.insert key }

def Pool.untrack (w : Pool) (key : Str) : Pool := { w with snapshotter := w.snapshotter.filter (· ≠ key) }

end Backends

/-- What does not change about a pool. The cloud makes the link of a backend service from
its name. -/
structure Backends where
  healthChecker : Backends.HealthChecker
  links : Str → Str
  ignorePorts : List ℤ

namespace Backends
variable (b : Backends)

/-- The namer is shared with the health checker. -/
def namer : Namer := b.healthChecker.namer

def ignoredPorts : List Str := b.ignorePorts.map portKey

def onServices {α : Type} (m : Prog (Store Str (Owned BackendService)) GoError α) : PoolM α :=
  onPart Pool.services (fun c w => { w with services := c }) m

def onHealth {α : Type} (m : HealthM α) : PoolM α := onPart Pool.health (fun h w => { w with health := h }) m

def updateGlobalBackendService (be : BackendService) : PoolM Unit := onServices (Store.replaceObject be.name be)

/-- The cloud adds the name and the link when a backend service is read. -/
def view (name : Str) (be : BackendService) : BackendService := { be with name := name, selfLink := b.links name }

def get (port : ℤ) : PoolM BackendService := do
  let be ← onServices (Store.readObject (b.namer.backend port) (b.view (b.namer.backend port)))
  update (fun w => w.track (portKey port))
  pure be

/-- The settings of a new health check, unless there is a legacy one. -/
def probeSettings (prober : Option (ServicePort → Except GoError (Option Probe))) (sp : ServicePort) (hc : HealthCheck) :
    Except GoError HealthCheck :=
  match prober with
  | none => .ok hc
  | some getProbe =>
    match getProbe sp with
    | .error e => .error e
    | .ok none => .ok hc
    | .ok (some probe) => .ok (hc.applyProbeSettings probe)

/-- `ensureHealthCheck` once it has looked for a legacy health check. -/
def syncHealthCheck (prober : Option (ServicePort → Except GoError (Option Probe))) (sp : ServicePort) (hc : HealthCheck) :
    Except GoError HttpHealthCheck → PoolM Str
  | .ok existingLegacyHC => onHealth (b.healthChecker.sync (hc.applyLegacyHC existingLegacyHC))
  | .error e =>
    if isHTTPErrorCode e statusNotFound then
      match probeSettings prober sp hc with
      | .error e => fail e
      | .ok hc => onHealth (b.healthChecker.sync hc)
    else fail e

def ensureHealthCheck (prober : Option (ServicePort → Except GoError (Option Probe))) (sp : ServicePort) : PoolM Str := do
  let existingLegacyHC ← attempt (onHealth (b.healthChecker.getLegacy sp.port))
  b.syncHealthCheck prober sp (HealthCheck.new b.namer sp.port sp.protocol sp.negEnabled) existingLegacyHC

theorem probeSettings_cases {prober : Option (ServicePort → Except GoError (Option Probe))} {sp : ServicePort}
    {hc hc' : HealthCheck} (h : probeSettings prober sp hc = .ok hc') :
    hc' = hc ∨ ∃ probe, hc' = hc.applyProbeSettings probe := by
  unfold probeSettings at h
  split at h
  · exact Or.inl (Except.ok.inj h).symm
  · split at h
    · cases h
    · exact Or.inl (Except.ok.inj h).symm
    · exact Or.inr ⟨_,(Except.ok.inj h).symm⟩

/-- All that is done about the health check of a port is a sync under its name. -/
theorem respects_ensureHealthCheck_of {R : Pool → Pool → Prop} [IsPreorder Pool R]
    (prober : Option (ServicePort → Except GoError (Option Probe))) (sp : ServicePort)
    (hlegacy : Respects R (onHealth (b.healthChecker.getLegacy sp.port)))
    (hsync : ∀ hc : HealthCheck, hc.name = b.namer.backend sp.port → Respects R (onHealth (b.healthChecker.sync hc))) :
    Respects R (b.ensureHealthCheck prober sp) := by
  refine hlegacy.attempt.bind fun found => ?_
  cases found with
  | ok existing => exact hsync _ rfl
  | error e =>
    refine Respects.ite ?_ (respects_fail e)
    cases hprobe : probeSettings prober sp (HealthCheck.new b.namer sp.port sp.protocol sp.negEnabled) with
    | error e => exact respects_fail e
    | ok hc =>
      rcases probeSettings_cases hprobe with rfl | ⟨probe,rfl⟩
      · exact hsync _ rfl
      · exact hsync _ rfl

def create (portName hcLink : Str) (sp : ServicePort) (name : Str) : PoolM BackendService := do
  onServices (Store.createObject name {
    selfLink := b.links name
    name := name
    description := sp.description
    protocol := sp.protocol
    healthChecks := [hcLink]
    port := sp.port
    portName := portName
    backends := [] })
  b.get sp.port

def getBackendsForIGs (igs : List Str) (bm : BalancingMode) : List Backend :=
  igs.map (fun ig => {
    group := ig
    balancingMode := bm
    maxRatePerInstance :=
      match bm with
      | .rate => 1
      | .utilization => 0 })

/-- The error when every mode was a bad request. -/
def updateErrors (errs : List Str) : GoError :=
  .text ("received errors when updating backend service: ".toList ++ List.intercalate "\n".toList errs)

/-- The modes are tried in turn, the next one after a bad request. -/
def tryModes (be : BackendService) (originalIGBackends : List Backend) (addIGs : List Str) :
    List Str → List BalancingMode → PoolM Unit
  | errs,[] => fail (updateErrors errs)
  | errs,bm :: modes =>
    rescue (updateGlobalBackendService { be with backends := originalIGBackends ++ getBackendsForIGs addIGs bm })
      (fun e =>
        if isHTTPErrorCode e statusBadRequest then tryModes be originalIGBackends addIGs (errs ++ [e.error]) modes
        else fail e)

def edgeHop (be : BackendService) (igs : List Str) : PoolM Unit :=
  let beIGs := be.backends.map Backend.group
  if igs.all (fun ig => ig ∈ beIGs) then pure ()
  else tryModes be (be.backends.filter (fun backend => "instanceGroups".toList <:+: backend.group))
    (igs.filter (fun ig => ig ∉ beIGs)) [] [.rate,.utilization]

/-- An instance group is added by updates of the backend service with other backends. -/
theorem respects_edgeHop_of {R : Pool → Pool → Prop} [IsPreorder Pool R] {be : BackendService}
    (hupdate : ∀ backends, Respects R (updateGlobalBackendService { be with backends := backends })) (igs : List Str) :
    Respects R (edgeHop be igs) := by
  have htry : ∀ (original : List Backend) (addIGs errs : List Str) (modes : List BalancingMode),
      Respects R (tryModes be original addIGs errs modes) := by
    intro original addIGs errs modes
    induction modes generalizing errs with
    | nil => exact respects_fail _
    | cons bm modes ih => exact (hupdate _).rescue fun e => Respects.ite (ih _) (respects_fail e)
  exact (respects_pure ()).ite (htry _ _ _ _)

/-- The link of the health check of a backend service, which has to be the only one. -/
def existingHCLink (be : BackendService) : Str :=
  match be.healthChecks with
  | [link] => link
  | _ => []

def retrieveObjectName (url : Str) : Str := Str.lastToken "/".toList url

/-- The backend service as `ensureBackendService` wants it. -/
def wanted (be : BackendService) (p : ServicePort) (hcLink : Str) : BackendService :=
  { be with protocol := p.protocol, healthChecks := [hcLink], description := p.description }

def outdated (be : BackendService) (p : ServicePort) (hcLink : Str) : Bool :=
  be.protocol ≠ p.protocol ∨ retrieveObjectName (existingHCLink be) ≠ retrieveObjectName hcLink ∨
    be.description ≠ p.description

/-- The read whose error is discarded, and the creation if it has returned nothing. -/
def getOrCreate (p : ServicePort) (hcLink : Str) : PoolM BackendService := do
  let be ← orNil (b.get p.port)
  match be with
  | some be => pure be
  | none => b.create (Namer.namedPort p.port) hcLink p (b.namer.backend p.port)

def refresh (be : BackendService) (p : ServicePort) (hcLink : Str) : PoolM BackendService :=
  if outdated be p hcLink then do
    updateGlobalBackendService (wanted be p hcLink)
    pure (wanted be p hcLink)
  else pure be

/-- A legacy health check is deleted, and nothing is made of it if that fails. -/
def dropLegacy (be : BackendService) (p : ServicePort) (hcLink : Str) : PoolM Unit :=
  onlyIf (existingHCLink be ≠ hcLink ∧ "/httpHealthChecks/".toList <:+: existingHCLink be)
    (rescue (onHealth (b.healthChecker.deleteLegacy p.port)) (fun _ => pure ()))

def ensureBackendService (prober : Option (ServicePort → Except GoError (Option Probe))) (igs : List Str)
    (p : ServicePort) : PoolM Unit :=
  deferring
    (do
      let hcLink ← b.ensureHealthCheck prober p
      let be ← b.getOrCreate p hcLink
      let be' ← refresh be p hcLink
      b.dropLegacy be p hcLink
      onlyIf (!igs.isEmpty && !p.negEnabled) (edgeHop be' igs))
    (fun w => w.track (portKey p.port))

def ensure (svcPorts : List ServicePort) (around : Surroundings) : PoolM Unit :=
  match around.instanceGroups with
  | .error e => fail e
  | .ok igs => forEach (b.ensureBackendService around.prober igs) svcPorts

/-- Not found is no error. -/
def ignoringNotFound (m : PoolM Unit) : PoolM Unit :=
  rescue m (fun e => if isHTTPErrorCode e statusNotFound then pure () else fail e)

/-- What the deferred function of `Delete` makes of the error: not found is none, and
without an error the port is taken off the record. -/
def settle (port : ℤ) (m : PoolM Unit) : PoolM Unit := do
  ignoringNotFound m
  update (fun w => w.untrack (portKey port))

def delete (port : ℤ) : PoolM Unit :=
  settle port (do
    ignoringNotFound (onServices (Store.deleteObject (b.namer.backend port)))
    onHealth (b.healthChecker.delete port))

/-- One round of the loop of `GC`. -/
def collect (knownPorts : List Str) (key : Str) : PoolM Unit :=
  match Decimal.parseUint 16 key with
  | .error e => fail (.text (Decimal.parseUintError key e))
  | .ok nodePort =>
    if portKey nodePort ∈ knownPorts ∨ portKey nodePort ∈ b.ignoredPorts then pure ()
    else ignoringNotFound (b.delete nodePort)

def gc (o : Iteration Str) (svcNodePorts : List ServicePort) : PoolM Unit := do
  let w ← state
  forEach (b.collect (svcNodePorts.map (fun p => portKey p.port))) (o.range w.snapshotter)

/-- The listing of the cloud in the background only adds to the record. -/
def replenish (keys : List Str) : PoolM Unit := update (fun w => keys.foldl Pool.track w)

end Backends
end IngressGce
