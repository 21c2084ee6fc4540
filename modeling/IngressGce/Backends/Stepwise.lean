import IngressGce.Backends.Pool
import IngressGce.Program.Interleaved

/-! # The pool of backend services, step by step

Every call to the cloud and every access to the record is a step of its own. The record
has a lock, which the listing in the background keeps from before it lists the cloud until
it has inserted what it has found. When the operations start and return is noted in a
trace, for the specification alone.
-/
namespace IngressGce.Backends
open Prog

inductive Event
  /-- An `Ensure` or a `Get` of these ports starts. -/
  | uses (ports : List ℤ)
  /-- An `Ensure` of these ports returns without error. -/
  | ensured (ports : List ℤ)
  | deletes (port : ℤ)
  /-- A `Delete` returns without error. -/
  | deleted (port : ℤ)
  /-- The cloud answers an update of `edgeHop` with a bad request. -/
  | rejected (bm : BalancingMode)
  deriving DecidableEq

/-- What `ReplenishPool` is at. It is not running, or it has the lock and has not listed
the cloud yet, or it has still to insert what has these names. -/
inductive Relister
  | idle
  | locked
  | inserting (names : List Str)

structure World where
  pool : Pool
  relister : Relister
  trace : List Event

abbrev WorldM (α : Type) := Steps World GoError α

def onPool {α : Type} (m : PoolM α) : Prog World GoError α := onPart World.pool (fun p w => { w with pool := p }) m

/-- A call to the cloud. -/
def call {α : Type} (m : PoolM α) : WorldM α := Steps.atom false (onPool m)

/-- An access to the record, which takes the lock. -/
def access {α : Type} (m : PoolM α) : WorldM α := Steps.atom true (onPool m)

def note (e : Event) : WorldM Unit := Steps.atom false (update (fun w => { w with trace := e :: w.trace }))

namespace Stepwise
variable (b : Backends)

def get (port : ℤ) : WorldM BackendService := do
  let be ← call (onServices (Store.readObject (b.namer.backend port) (b.view (b.namer.backend port))))
  access (update (fun w => w.track (portKey port)))
  pure be

def syncFound (hc : HealthCheck) : Except GoError HealthCheck → WorldM Str
  | .error e =>
    if isHTTPErrorCode e statusNotFound then do
      call (onHealth (b.healthChecker.create hc))
      call (onHealth (b.healthChecker.getHealthCheckLink hc.port))
    else Steps.fail e
  | .ok existingHC => do
    Steps.onlyIf (HealthCheck.needToUpdate existingHC hc) (call (onHealth (b.healthChecker.replace existingHC hc)))
    pure existingHC.selfLink

def sync (hc : HealthCheck) : WorldM Str := do
  let existingHC ← Steps.attempt
    (call (onHealth (b.healthChecker.get (b.healthChecker.withPath hc).port (b.healthChecker.withPath hc).forNEG)))
  syncFound b (b.healthChecker.withPath hc) existingHC

def syncHealthCheck (prober : Option (ServicePort → Except GoError (Option Probe))) (sp : ServicePort) (hc : HealthCheck) :
    Except GoError HttpHealthCheck → WorldM Str
  | .ok existingLegacyHC => sync b (hc.applyLegacyHC existingLegacyHC)
  | .error e =>
    if isHTTPErrorCode e statusNotFound then
      match probeSettings prober sp hc with
      | .error e => Steps.fail e
      | .ok hc => sync b hc
    else Steps.fail e

def ensureHealthCheck (prober : Option (ServicePort → Except GoError (Option Probe))) (sp : ServicePort) : WorldM Str := do
  let existingLegacyHC ← Steps.attempt (call (onHealth (b.healthChecker.getLegacy sp.port)))
  syncHealthCheck b prober sp (HealthCheck.new b.namer sp.port sp.protocol sp.negEnabled) existingLegacyHC

/-- A new backend service. -/
def newService (portName hcLink : Str) (sp : ServicePort) (name : Str) : BackendService where
  selfLink := b.links name
  name := name
  description := sp.description
  protocol := sp.protocol
  healthChecks := [hcLink]
  port := sp.port
  portName := portName
  backends := []

def create (portName hcLink : Str) (sp : ServicePort) (name : Str) : WorldM BackendService := do
  call (onServices (Store.createObject name (newService b portName hcLink sp name)))
  get b sp.port

def tryModes (be : BackendService) (originalIGBackends : List Backend) (addIGs : List Str) :
    List Str → List BalancingMode → WorldM Unit
  | errs,[] => Steps.fail (updateErrors errs)
  | errs,bm :: modes =>
    Steps.rescue
      (call (updateGlobalBackendService { be with backends := originalIGBackends ++ getBackendsForIGs addIGs bm }))
      (fun e =>
        if isHTTPErrorCode e statusBadRequest then do
          note (.rejected bm)
          tryModes be originalIGBackends addIGs (errs ++ [e.error]) modes
        else Steps.fail e)

def edgeHop (be : BackendService) (igs : List Str) : WorldM Unit :=
  if igs.all (fun ig => ig ∈ be.backends.map Backend.group) then pure ()
  else tryModes be (be.backends.filter (fun backend => "instanceGroups".toList <:+: backend.group))
    (igs.filter (fun ig => ig ∉ be.backends.map Backend.group)) [] [.rate,.utilization]

def getOrCreate (p : ServicePort) (hcLink : Str) : WorldM BackendService := do
  let be ← Steps.orNil (get b p.port)
  match be with
  | some be => pure be
  | none => create b (Namer.namedPort p.port) hcLink p (b.namer.backend p.port)

def refresh (be : BackendService) (p : ServicePort) (hcLink : Str) : WorldM BackendService :=
  if outdated be p hcLink then do
    call (updateGlobalBackendService (wanted be p hcLink))
    pure (wanted be p hcLink)
  else pure be

def dropLegacy (be : BackendService) (p : ServicePort) (hcLink : Str) : WorldM Unit :=
  Steps.onlyIf (existingHCLink be ≠ hcLink ∧ "/httpHealthChecks/".toList <:+: existingHCLink be)
    (Steps.rescue (call (onHealth (b.healthChecker.deleteLegacy p.port))) (fun _ => pure ()))

def ensureBackendService (prober : Option (ServicePort → Except GoError (Option Probe))) (igs : List Str)
    (p : ServicePort) : WorldM Unit :=
  Steps.deferring
    (do
      let hcLink ← ensureHealthCheck b prober p
      let be ← getOrCreate b p hcLink
      let be' ← refresh be p hcLink
      dropLegacy b be p hcLink
      Steps.onlyIf (!igs.isEmpty && !p.negEnabled) (edgeHop be' igs))
    (access (update (fun w => w.track (portKey p.port))))

def ensurePorts (svcPorts : List ServicePort) (around : Surroundings) : WorldM Unit :=
  match around.instanceGroups with
  | .error e => Steps.fail e
  | .ok igs => Steps.forEach (ensureBackendService b around.prober igs) svcPorts

def ensure (svcPorts : List ServicePort) (around : Surroundings) : WorldM Unit := do
  note (.uses (svcPorts.map ServicePort.port))
  ensurePorts b svcPorts around
  note (.ensured (svcPorts.map ServicePort.port))

def ignoringNotFound (m : WorldM Unit) : WorldM Unit :=
  Steps.rescue m (fun e => if isHTTPErrorCode e statusNotFound then pure () else Steps.fail e)

def settle (port : ℤ) (m : WorldM Unit) : WorldM Unit := do
  ignoringNotFound m
  access (update (fun w => w.untrack (portKey port)))

def delete (port : ℤ) : WorldM Unit := do
  note (.deletes port)
  settle port (do
    ignoringNotFound (call (onServices (Store.deleteObject (b.namer.backend port))))
    call (onHealth (b.healthChecker.delete port)))
  note (.deleted port)

def collect (knownPorts : List Str) (key : Str) : WorldM Unit :=
  match Decimal.parseUint 16 key with
  | .error e => Steps.fail (.text (Decimal.parseUintError key e))
  | .ok nodePort =>
    if portKey nodePort ∈ knownPorts ∨ portKey nodePort ∈ b.ignoredPorts then pure ()
    else ignoringNotFound (delete b nodePort)

def gc (o : Iteration Str) (svcNodePorts : List ServicePort) : WorldM Unit := do
  let w ← access state
  Steps.forEach (collect b (svcNodePorts.map (fun p => portKey p.port))) (o.range w.snapshotter)

end Stepwise

/-- What no call about health checks changes, the work on the health check of a port does
not change. -/
theorem keeps_ensureHealthCheck {o : Others World} {I : World → Prop} {A : Assertion o I}
    (h : ∀ (α : Type) (m : HealthM α), Steps.Keeps A (call (onHealth m))) (b : Backends)
    (prober : Option (ServicePort → Except GoError (Option Probe))) (sp : ServicePort) :
    Steps.Keeps A (Stepwise.ensureHealthCheck b prober sp) := by
  have hsync : ∀ hc, Steps.Keeps A (Stepwise.sync b hc) := by
    intro hc
    refine (h _ _).attempt.bind fun found => ?_
    cases found with
    | error e => exact ((h _ _).bind fun _ => h _ _).ite (Steps.keeps_fail e)
    | ok existingHC => exact (h _ _).onlyIf.bind fun _ => Steps.keeps_pure _
  refine (h _ _).attempt.bind fun found => ?_
  cases found with
  | ok existing => exact hsync _
  | error e =>
    refine Steps.Keeps.ite ?_ (Steps.keeps_fail e)
    cases probeSettings prober sp (HealthCheck.new b.namer sp.port sp.protocol sp.negEnabled) with
    | error e => exact Steps.keeps_fail e
    | ok hc => exact hsync hc

/-! ## The steps add up to the operations -/

section Refinement
variable (b : Backends)

theorem refines_call {α : Type} (m : PoolM α) : Steps.Refines World.pool (call m) m :=
  Steps.refines_atom (fun _ _ => rfl) m

theorem refines_access {α : Type} (m : PoolM α) : Steps.Refines World.pool (access m) m :=
  Steps.refines_atom (fun _ _ => rfl) m

theorem refines_note (e : Event) : Steps.Refines World.pool (note e) (pure ()) := fun _ => ⟨rfl,rfl⟩

/-- A note before a program is no part of it. -/
theorem refines_note_bind {α : Type} (e : Event) {p : WorldM α} {m : PoolM α} (h : Steps.Refines World.pool p m) :
    Steps.Refines World.pool (do note e; p) m := (refines_note e).bind fun _ => h

/-- Neither is one after it. -/
theorem refines_bind_note (e : Event) {p : WorldM Unit} {m : PoolM Unit} (h : Steps.Refines World.pool p m) :
    Steps.Refines World.pool (do p; note e) m := by
  refine (h.bind fun _ => refines_note e).of_eq ?_
  funext w
  change andThen m (fun _ => pure ()) w = m w
  unfold andThen
  rcases m w with ⟨r | r,w'⟩ <;> rfl

theorem onHealth_bind {α β : Type} (m : HealthM α) (f : α → HealthM β) :
    onHealth (m >>= f) = (do let a ← onHealth m; onHealth (f a)) := by
  funext w
  change onPart _ _ (andThen m f) w = andThen (onHealth m) (fun a => onHealth (f a)) w
  unfold onHealth onPart andThen
  dsimp only
  rcases m w.health with ⟨r | a,h⟩ <;> rfl

theorem refines_get (port : ℤ) : Steps.Refines World.pool (Stepwise.get b port) (b.get port) :=
  (refines_call _).bind fun be => (refines_access _).bind fun _ => Steps.refines_pure be

theorem refines_syncFound (hc : HealthCheck) (found : Except GoError HealthCheck) :
    Steps.Refines World.pool (Stepwise.syncFound b hc found) (onHealth (b.healthChecker.syncFound hc found)) := by
  cases found with
  | error e =>
    rw [Stepwise.syncFound,HealthChecker.syncFound]
    split
    · rw [onHealth_bind]
      exact (refines_call _).bind fun _ => refines_call _
    · exact Steps.refines_fail e
  | ok existingHC =>
    rw [Stepwise.syncFound,HealthChecker.syncFound,onHealth_bind]
    refine Steps.Refines.bind ?_ fun _ => Steps.refines_pure _
    cases HealthCheck.needToUpdate existingHC hc with
    | true => exact refines_call _
    | false => exact Steps.refines_pure ()

theorem refines_sync (hc : HealthCheck) :
    Steps.Refines World.pool (Stepwise.sync b hc) (onHealth (b.healthChecker.sync hc)) := by
  have hsync : onHealth (b.healthChecker.sync hc) = (do
      let found ← attempt (onHealth (b.healthChecker.get (b.healthChecker.withPath hc).port
        (b.healthChecker.withPath hc).forNEG))
      onHealth (b.healthChecker.syncFound (b.healthChecker.withPath hc) found)) := onHealth_bind _ _
  rw [hsync]
  exact (refines_call _).attempt.bind fun found => refines_syncFound b _ found

theorem refines_ensureHealthCheck (prober : Option (ServicePort → Except GoError (Option Probe))) (sp : ServicePort) :
    Steps.Refines World.pool (Stepwise.ensureHealthCheck b prober sp) (b.ensureHealthCheck prober sp) := by
  refine (refines_call _).attempt.bind fun found => ?_
  cases found with
  | ok existing => exact refines_sync b _
  | error e =>
    refine Steps.Refines.ite ?_ (Steps.refines_fail e)
    cases probeSettings prober sp (HealthCheck.new b.namer sp.port sp.protocol sp.negEnabled) with
    | error e => exact Steps.refines_fail e
    | ok hc => exact refines_sync b hc

theorem refines_tryModes (be : BackendService) (original : List Backend) (addIGs errs : List Str)
    (modes : List BalancingMode) :
    Steps.Refines World.pool (Stepwise.tryModes be original addIGs errs modes) (tryModes be original addIGs errs modes) := by
  induction modes generalizing errs with
  | nil => exact Steps.refines_fail _
  | cons bm modes ih =>
    exact (refines_call _).rescue fun e => (refines_note_bind _ (ih _)).ite (Steps.refines_fail e)

theorem refines_getOrCreate (p : ServicePort) (hcLink : Str) :
    Steps.Refines World.pool (Stepwise.getOrCreate b p hcLink) (b.getOrCreate p hcLink) := by
  refine (refines_get b p.port).orNil.bind fun found => ?_
  cases found with
  | some be => exact Steps.refines_pure be
  | none => exact (refines_call _).bind fun _ => refines_get b p.port

theorem refines_ensureBackendService (prober : Option (ServicePort → Except GoError (Option Probe))) (igs : List Str)
    (p : ServicePort) :
    Steps.Refines World.pool (Stepwise.ensureBackendService b prober igs p) (b.ensureBackendService prober igs p) := by
  refine Steps.Refines.deferring ?_ (refines_access _)
  refine (refines_ensureHealthCheck b prober p).bind fun hcLink => (refines_getOrCreate b p hcLink).bind fun be => ?_
  refine Steps.Refines.bind ?_ fun be' => Steps.Refines.bind ?_ fun _ => Steps.Refines.onlyIf ?_
  · exact ((refines_call _).bind fun _ => Steps.refines_pure _).ite (Steps.refines_pure be)
  · exact ((refines_call _).rescue fun _ => Steps.refines_pure ()).onlyIf
  · exact (Steps.refines_pure ()).ite (refines_tryModes _ _ _ _ _)

theorem refines_ensure (svcPorts : List ServicePort) (around : Surroundings) :
    Steps.Refines World.pool (Stepwise.ensure b svcPorts around) (b.ensure svcPorts around) := by
  refine refines_note_bind _ (refines_bind_note _ ?_)
  unfold Stepwise.ensurePorts ensure
  cases around.instanceGroups with
  | error e => exact Steps.refines_fail e
  | ok igs => exact Steps.Refines.forEach (refines_ensureBackendService b around.prober igs) svcPorts

theorem refines_ignoringNotFound {p : WorldM Unit} {m : PoolM Unit} (h : Steps.Refines World.pool p m) :
    Steps.Refines World.pool (Stepwise.ignoringNotFound p) (ignoringNotFound m) :=
  h.rescue fun e => (Steps.refines_pure ()).ite (Steps.refines_fail e)

theorem refines_delete (port : ℤ) : Steps.Refines World.pool (Stepwise.delete b port) (b.delete port) := by
  refine refines_note_bind _ (refines_bind_note _ ?_)
  refine (refines_ignoringNotFound ?_).bind fun _ => refines_access _
  exact (refines_ignoringNotFound (refines_call _)).bind fun _ => refines_call _

theorem refines_gc (o : Iteration Str) (svcNodePorts : List ServicePort) :
    Steps.Refines World.pool (Stepwise.gc b o svcNodePorts) (b.gc o svcNodePorts) := by
  refine (refines_access _).bind fun w => Steps.Refines.forEach (fun key => ?_) _
  unfold Stepwise.collect collect
  cases Decimal.parseUint 16 key with
  | error _ => exact Steps.refines_fail _
  | ok nodePort => exact (Steps.refines_pure ()).ite (refines_ignoringNotFound (refines_delete b nodePort))

end Refinement
end IngressGce.Backends
