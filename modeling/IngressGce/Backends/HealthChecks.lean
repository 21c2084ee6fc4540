import IngressGce.Backends.Names
import IngressGce.Cloud.Owned
import IngressGce.Program.Respects

/-! # Health checks of the backends

A health check is named after the port it is made for. `sync` looks for an existing one
under the port that the settings carry, which settings taken over from a legacy health
check may have changed. The two versions of the API have the same resources; the older
one does not know the port specification.
-/
namespace IngressGce.Backends
open Prog

def useServingPortSpecification : Str := "USE_SERVING_PORT".toList

structure HealthCheck where
  name : Str
  selfLink : Str
  description : Str
  type : Str
  checkIntervalSec : ℤ
  timeoutSec : ℤ
  healthyThreshold : ℤ
  unhealthyThreshold : ℤ
  host : Str
  port : ℤ
  portSpecification : Str
  requestPath : Str
  forNEG : Bool
  deriving DecidableEq

/-- A legacy health check. -/
structure HttpHealthCheck where
  description : Str
  checkIntervalSec : ℤ
  timeoutSec : ℤ
  healthyThreshold : ℤ
  unhealthyThreshold : ℤ
  host : Str
  port : ℤ
  requestPath : Str
  deriving DecidableEq

/-- The readiness probe of a pod. -/
structure Probe where
  path : Str
  host : Str
  httpHeaders : List (Str × Str)
  timeoutSeconds : Int32
  periodSeconds : Int32
  deriving DecidableEq

def defaultHealthCheckInterval : ℤ := 60
def defaultNEGHealthCheckInterval : ℤ := 15

def defaultHealthCheck (port : ℤ) (protocol : Str) : HealthCheck where
  name := []
  selfLink := []
  description := "Default kubernetes L7 Loadbalancing health check.".toList
  type := protocol
  checkIntervalSec := defaultHealthCheckInterval
  timeoutSec := 60
  healthyThreshold := 1
  unhealthyThreshold := 10
  host := []
  port := port
  portSpecification := []
  requestPath := []
  forNEG := false

def defaultNEGHealthCheck (protocol : Str) : HealthCheck where
  name := []
  selfLink := []
  description := "Default kubernetes L7 Loadbalancing health check for NEG.".toList
  type := protocol
  checkIntervalSec := defaultNEGHealthCheckInterval
  timeoutSec := 15
  healthyThreshold := 1
  unhealthyThreshold := 2
  host := []
  port := 0
  portSpecification := useServingPortSpecification
  requestPath := []
  forNEG := true

namespace HealthCheck

def new (namer : Namer) (port : ℤ) (protocol : Str) (enableNEG : Bool) : HealthCheck :=
  { (if enableNEG then defaultNEGHealthCheck protocol else defaultHealthCheck port protocol) with
    name := namer.backend port
    port := port }

def applyLegacyHC (existing : HttpHealthCheck) (hc : HealthCheck) : HealthCheck :=
  { hc with
    description := existing.description
    checkIntervalSec := existing.checkIntervalSec
    healthyThreshold := existing.healthyThreshold
    host := existing.host
    port := existing.port
    requestPath := existing.requestPath
    timeoutSec := existing.timeoutSec
    unhealthyThreshold := existing.unhealthyThreshold }

def applyProbeSettings (p : Probe) (hc : HealthCheck) : HealthCheck :=
  { hc with
    requestPath := if "/".toList.isPrefixOf p.path then p.path else '/' :: p.path
    host :=
      match p.httpHeaders.find? (fun header => header.1 = "Host".toList) with
      | some header => header.2
      | none => p.host
    description := "Kubernetes L7 health check generated with readiness probe settings.".toList
    timeoutSec := p.timeoutSeconds.toInt
    checkIntervalSec :=
      if hc.forNEG then p.periodSeconds.toInt else p.periodSeconds.toInt + defaultHealthCheckInterval }

/-- The settings that the older version of the API transports. -/
def toComputeHealthCheck (hc : HealthCheck) : HealthCheck := { hc with portSpecification := [] }

/-- A port and a port specification can not both be given. -/
def toAlphaComputeHealthCheck (hc : HealthCheck) : HealthCheck :=
  if hc.portSpecification = [] then hc else { hc with port := 0 }

def toCompute (hc : HealthCheck) : HealthCheck :=
  if hc.forNEG then hc.toAlphaComputeHealthCheck else hc.toComputeHealthCheck

/-- A health check as it is read through one of the versions of the API. -/
def view (alpha : Bool) (hc : HealthCheck) : HealthCheck :=
  { (if alpha then hc else hc.toComputeHealthCheck) with forNEG := false }

def needToUpdate (old new : HealthCheck) : Bool :=
  old.type ≠ new.type ∨ old.portSpecification ≠ new.portSpecification

def mergeHealthcheckForNEG (oldHC newHC : HealthCheck) : HealthCheck :=
  { newHC with host := oldHC.host, requestPath := oldHC.requestPath, port := 0 }

@[simp] theorem new_name (namer : Namer) (port : ℤ) (protocol : Str) (enableNEG : Bool) :
    (new namer port protocol enableNEG).name = namer.backend port := rfl
@[simp] theorem applyLegacyHC_name (existing : HttpHealthCheck) (hc : HealthCheck) :
    (applyLegacyHC existing hc).name = hc.name := rfl
@[simp] theorem applyProbeSettings_name (p : Probe) (hc : HealthCheck) : (applyProbeSettings p hc).name = hc.name := rfl

end HealthCheck

/-- The health checks of the cloud, of both kinds. -/
structure HealthChecks where
  checks : Store Str (Owned HealthCheck)
  legacy : Store Str HttpHealthCheck

abbrev HealthM (α : Type) := Prog HealthChecks GoError α

/-- The checker does not change. The cloud makes the link of a health check from its name. -/
structure HealthChecker where
  namer : Namer
  defaultPath : Str
  links : Str → Str

namespace HealthChecker
variable (c : HealthChecker)

def onChecks {α : Type} (m : Prog (Store Str (Owned HealthCheck)) GoError α) : HealthM α :=
  onPart HealthChecks.checks (fun s h => { h with checks := s }) m

def onLegacy {α : Type} (m : Prog (Store Str HttpHealthCheck) GoError α) : HealthM α :=
  onPart HealthChecks.legacy (fun s h => { h with legacy := s }) m

def get (port : ℤ) (alpha : Bool) : HealthM HealthCheck :=
  onChecks (Store.readObject (c.namer.backend port) (HealthCheck.view alpha))

def create (hc : HealthCheck) : HealthM Unit :=
  onChecks (Store.createObject hc.name { hc.toCompute with selfLink := c.links hc.name })

def replace (oldHC newHC : HealthCheck) : HealthM Unit :=
  let hc := (if newHC.forNEG then HealthCheck.mergeHealthcheckForNEG oldHC newHC else newHC).toCompute
  onChecks (Store.replaceObject hc.name { hc with selfLink := c.links hc.name })

def getHealthCheckLink (port : ℤ) : HealthM Str := do
  let hc ← c.get port false
  pure hc.selfLink

/-- `Sync` once it has looked for the health check. -/
def syncFound (hc : HealthCheck) : Except GoError HealthCheck → HealthM Str
  | .error e =>
    if isHTTPErrorCode e statusNotFound then do
      c.create hc
      c.getHealthCheckLink hc.port
    else fail e
  | .ok existingHC => do
    onlyIf (HealthCheck.needToUpdate existingHC hc) (c.replace existingHC hc)
    pure existingHC.selfLink

def withPath (hc : HealthCheck) : HealthCheck :=
  if hc.requestPath = [] then { hc with requestPath := c.defaultPath } else hc

def sync (hc : HealthCheck) : HealthM Str := do
  let hc := c.withPath hc
  let existingHC ← attempt (c.get hc.port hc.forNEG)
  c.syncFound hc existingHC

def delete (port : ℤ) : HealthM Unit := onChecks (Store.deleteObject (c.namer.backend port))

def getLegacy (port : ℤ) : HealthM HttpHealthCheck :=
  onLegacy (Store.onItem (c.namer.backend port) (fun hc => (hc,some hc)))

def deleteLegacy (port : ℤ) : HealthM Unit := onLegacy (Store.onItem (c.namer.backend port) (fun _ => ((),none)))

@[simp] theorem withPath_name (hc : HealthCheck) : (c.withPath hc).name = hc.name := by
  unfold withPath
  split <;> rfl

/-- A sync respects what its calls for the health check respect. -/
theorem respects_sync_of {R : HealthChecks → HealthChecks → Prop} [IsPreorder HealthChecks R] (hc : HealthCheck)
    (hget : ∀ port alpha, Respects R (c.get port alpha)) (hcreate : ∀ hc', hc'.name = hc.name → Respects R (c.create hc'))
    (hreplace : ∀ oldHC hc', hc'.name = hc.name → Respects R (c.replace oldHC hc')) : Respects R (c.sync hc) := by
  have hname : (c.withPath hc).name = hc.name := c.withPath_name hc
  refine (hget _ _).attempt.bind fun found => ?_
  cases found with
  | error e =>
    refine Respects.ite ?_ (respects_fail e)
    exact (hcreate _ hname).bind fun _ => (hget _ _).bind fun _ => respects_pure _
  | ok existingHC => exact (hreplace existingHC _ hname).onlyIf.bind fun _ => respects_pure _

end HealthChecker
end IngressGce.Backends
