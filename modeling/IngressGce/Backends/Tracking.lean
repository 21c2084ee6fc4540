import IngressGce.Backends.Pool

/-! # The pool keeps track of what it has created

What the pool has created and what still exists is on record under its port, after any
sequence of operations and failures. A collection that returns without error therefore
leaves of it only what belongs to a known port, and no collection touches a known port.
-/
namespace IngressGce.Backends
open Prog

/-- Only certain names are created. -/
def HealthChecks.Keeps (creates : Str → Prop) (h h' : HealthChecks) : Prop :=
  ∀ name, h'.checks.Ours name → h.checks.Ours name ∨ creates name

instance (creates : Str → Prop) : IsPreorder HealthChecks (HealthChecks.Keeps creates) where
  refl _ _ h := Or.inl h
  trans _ _ _ h h' name hname := (h' name hname).elim (h name) Or.inr

namespace HealthChecker
variable {creates : Str → Prop} (c : HealthChecker)

theorem respects_onChecks {α : Type} {m : Prog (Store Str (Owned HealthCheck)) GoError α}
    (hm : Respects (fun s s' => ∀ name, s'.Ours name → s.Ours name ∨ creates name) m) :
    Respects (HealthChecks.Keeps creates) (onChecks m) :=
  hm.onPart fun _ _ h => h

theorem respects_onLegacy {α : Type} (m : Prog (Store Str HttpHealthCheck) GoError α) :
    Respects (HealthChecks.Keeps creates) (onLegacy m) :=
  Respects.onPart (S := fun _ _ => True) (fun _ => trivial) fun _ _ _ _ h => Or.inl h

theorem respects_get (port : ℤ) (alpha : Bool) : Respects (HealthChecks.Keeps creates) (c.get port alpha) :=
  respects_onChecks fun _ =>
    (Store.readObject_ensures _).mono fun _ _ h _ hours => Or.inl ((Store.ours_of_items h).mp hours)

theorem respects_create (hc : HealthCheck) (h : creates hc.name) : Respects (HealthChecks.Keeps creates) (c.create hc) := by
  refine respects_onChecks fun s => (Store.createObject_ensures _).mono fun _ s' hkept name hours => ?_
  rcases hkept name hours with hours | rfl
  · exact Or.inl hours
  · exact Or.inr h

theorem respects_replace (oldHC newHC : HealthCheck) : Respects (HealthChecks.Keeps creates) (c.replace oldHC newHC) :=
  respects_onChecks fun _ =>
    (Store.replaceObject_ensures _).mono fun _ _ hkept name hours => Or.inl (hkept name hours)

theorem respects_sync (hc : HealthCheck) (h : creates hc.name) : Respects (HealthChecks.Keeps creates) (c.sync hc) :=
  c.respects_sync_of hc c.respects_get (fun hc' hname => c.respects_create hc' (hname ▸ h))
    (fun oldHC hc' _ => c.respects_replace oldHC hc')

end HealthChecker

/-- The pool has created a backend service or a health check of this name, which exists. -/
def Pool.Ours (w : Pool) (name : Str) : Prop := w.services.Ours name ∨ w.health.checks.Ours name

/-- Nothing is taken off the record, and only certain names are created. -/
structure Pool.Keeps (creates : Str → Prop) (w w' : Pool) : Prop where
  tracked : ∀ key ∈ w.snapshotter, key ∈ w'.snapshotter
  ours : ∀ name, w'.Ours name → w.Ours name ∨ creates name

instance (creates : Str → Prop) : IsPreorder Pool (Pool.Keeps creates) where
  refl _ := ⟨fun _ h => h,fun _ h => Or.inl h⟩
  trans _ _ _ h h' :=
    ⟨fun key hkey => h'.tracked key (h.tracked key hkey),fun name hname => (h'.ours name hname).elim (h.ours name) Or.inr⟩

/-- Of every name, the pool after has what the pool before had, or nothing. -/
def Pool.Shrinks (w w' : Pool) : Prop := ∀ name,
  (w'.services.items name = w.services.items name ∨ w'.services.items name = none) ∧
  (w'.health.checks.items name = w.health.checks.items name ∨ w'.health.checks.items name = none)

theorem Pool.not_ours {w : Pool} {name : Str} (hservice : w.services.items name = none)
    (hcheck : w.health.checks.items name = none) : ¬w.Ours name := by
  rintro (⟨x,hx,_⟩ | ⟨x,hx,_⟩)
  · rw [hservice] at hx
    cases hx
  · rw [hcheck] at hx
    cases hx

namespace Pool.Shrinks
variable {w w₁ w₂ : Pool} {name : Str}

theorem refl (w : Pool) : w.Shrinks w := fun _ => ⟨Or.inl rfl,Or.inl rfl⟩

theorem trans (h : w.Shrinks w₁) (h' : w₁.Shrinks w₂) : w.Shrinks w₂ := by
  intro name
  obtain ⟨hservices,hchecks⟩ := h name
  obtain ⟨hservices',hchecks'⟩ := h' name
  constructor
  · rcases hservices' with heq | heq
    · rw [heq]
      exact hservices
    · exact Or.inr heq
  · rcases hchecks' with heq | heq
    · rw [heq]
      exact hchecks
    · exact Or.inr heq

theorem absent (h : w.Shrinks w₁) (hservice : w.services.items name = none) (hcheck : w.health.checks.items name = none) :
    w₁.services.items name = none ∧ w₁.health.checks.items name = none := by
  obtain ⟨hservices,hchecks⟩ := h name
  exact ⟨hservices.elim (·.trans hservice) id,hchecks.elim (·.trans hcheck) id⟩

theorem ours (h : w.Shrinks w₁) (hours : w₁.Ours name) : w.Ours name := by
  obtain ⟨hservices,hchecks⟩ := h name
  rcases hours with ⟨x,hx,hmark⟩ | ⟨x,hx,hmark⟩
  · rcases hservices with heq | heq
    · exact Or.inl ⟨x,heq ▸ hx,hmark⟩
    · rw [heq] at hx
      cases hx
  · rcases hchecks with heq | heq
    · exact Or.inr ⟨x,heq ▸ hx,hmark⟩
    · rw [heq] at hx
      cases hx

end Pool.Shrinks

theorem Pool.mem_track {w : Pool} {key key' : Str} :
    key' ∈ (w.track key).snapshotter ↔ key' = key ∨ key' ∈ w.snapshotter := List.mem_insert_iff

section Keeping
variable {creates : Str → Prop} (b : Backends)

theorem respects_onServices {α : Type} {m : Prog (Store Str (Owned BackendService)) GoError α}
    (hm : Respects (fun s s' => ∀ name, s'.Ours name → s.Ours name ∨ creates name) m) :
    Respects (Pool.Keeps creates) (onServices m) := by
  refine hm.onPart fun w s h => ⟨fun _ hkey => hkey,?_⟩
  rintro name (hname | hname)
  · exact (h name hname).imp_left Or.inl
  · exact Or.inl (Or.inr hname)

theorem respects_onHealth {α : Type} {m : HealthM α} (hm : Respects (HealthChecks.Keeps creates) m) :
    Respects (Pool.Keeps creates) (onHealth m) := by
  refine hm.onPart fun w s h => ⟨fun _ hkey => hkey,?_⟩
  rintro name (hname | hname)
  · exact Or.inl (Or.inl hname)
  · exact (h name hname).imp_left Or.inr

theorem respects_track (key : Str) : Respects (Pool.Keeps creates) (update (fun w => w.track key) : PoolM Unit) :=
  fun _ => ⟨fun _ hkey => Pool.mem_track.mpr (Or.inr hkey),fun _ h => Or.inl h⟩

theorem respects_get (port : ℤ) : Respects (Pool.Keeps creates) (b.get port) := by
  refine (respects_onServices fun _ => ?_).bind fun be => (respects_track _).bind fun _ => respects_pure be
  exact (Store.readObject_ensures _).mono fun _ _ h _ hours => Or.inl ((Store.ours_of_items h).mp hours)

theorem respects_updateGlobalBackendService (be : BackendService) :
    Respects (Pool.Keeps creates) (updateGlobalBackendService be) :=
  respects_onServices fun _ => (Store.replaceObject_ensures be).mono fun _ _ hkept name hours => Or.inl (hkept name hours)

theorem respects_ensureHealthCheck (prober : Option (ServicePort → Except GoError (Option Probe))) (sp : ServicePort)
    (h : creates (b.namer.backend sp.port)) : Respects (Pool.Keeps creates) (b.ensureHealthCheck prober sp) :=
  b.respects_ensureHealthCheck_of prober sp (respects_onHealth (HealthChecker.respects_onLegacy _))
    (fun hc hname => respects_onHealth (b.healthChecker.respects_sync hc (hname ▸ h)))

theorem respects_create (portName hcLink : Str) (sp : ServicePort) {name : Str} (h : creates name) :
    Respects (Pool.Keeps creates) (b.create portName hcLink sp name) := by
  refine (respects_onServices fun _ => ?_).bind fun _ => b.respects_get sp.port
  refine (Store.createObject_ensures _).mono fun _ _ hkept name' hours => ?_
  rcases hkept name' hours with hours | rfl
  · exact Or.inl hours
  · exact Or.inr h

/-- The work on a port creates nothing but what is named after the port, and puts the port
on record. -/
theorem ensureBackendService_ensures (prober : Option (ServicePort → Except GoError (Option Probe)))
    (igs : List Str) (p : ServicePort) (w : Pool) :
    Ensures (b.ensureBackendService prober igs p) w (fun _ w' =>
      Pool.Keeps (· = b.namer.backend p.port) w w' ∧ portKey p.port ∈ w'.snapshotter) := by
  have hgetOrCreate : ∀ hcLink, Respects (Pool.Keeps (· = b.namer.backend p.port)) (b.getOrCreate p hcLink) := by
    intro hcLink
    refine (b.respects_get p.port).orNil.bind fun found => ?_
    cases found with
    | some be => exact respects_pure be
    | none => exact b.respects_create _ hcLink p rfl
  have hrefresh : ∀ be hcLink, Respects (Pool.Keeps (· = b.namer.backend p.port)) (refresh be p hcLink) :=
    fun be hcLink => ((respects_updateGlobalBackendService _).bind fun _ => respects_pure _).ite (respects_pure be)
  have hdrop : ∀ be hcLink, Respects (Pool.Keeps (· = b.namer.backend p.port)) (b.dropLegacy be p hcLink) :=
    fun be hcLink => ((respects_onHealth (HealthChecker.respects_onLegacy _)).rescue fun _ => respects_pure ()).onlyIf
  have hedgeHop : ∀ be, Respects (Pool.Keeps (· = b.namer.backend p.port)) (edgeHop be igs) :=
    fun be => respects_edgeHop_of (fun _ => respects_updateGlobalBackendService _) igs
  have hhealth : Respects (Pool.Keeps (· = b.namer.backend p.port)) (b.ensureHealthCheck prober p) :=
    b.respects_ensureHealthCheck prober p rfl
  have hbody := hhealth.bind fun hcLink =>
    (hgetOrCreate hcLink).bind fun be => (hrefresh be hcLink).bind fun be' =>
      (hdrop be hcLink).bind fun _ => (hedgeHop be').onlyIf (c := !igs.isEmpty && !p.negEnabled)
  rw [ensureBackendService,ensures_deferring]
  refine (hbody w).mono ?_
  intro r w' hkept
  exact ⟨trans_of (Pool.Keeps _) hkept (respects_track _ w'),Pool.mem_track.mpr (Or.inl rfl)⟩

end Keeping

/-- What the pool has created and what still exists is on record. -/
def Tracked (b : Backends) (w : Pool) : Prop :=
  ∀ port, IsInt64 port → w.Ours (b.namer.backend port) → portKey port ∈ w.snapshotter

section Operations
variable {b : Backends} {w : Pool}

theorem Tracked.of_keeps (h : b.Tracked w) {w' : Pool} (hkept : Pool.Keeps (fun _ => False) w w') : b.Tracked w' := by
  intro port hport hours
  rcases hkept.ours _ hours with hours | hfalse
  · exact hkept.tracked _ (h port hport hours)
  · exact hfalse.elim

theorem ensureBackendService_tracked {prober : Option (ServicePort → Except GoError (Option Probe))} {igs : List Str}
    {p : ServicePort} (hp : IsInt64 p.port) (h : b.Tracked w) :
    Ensures (b.ensureBackendService prober igs p) w (fun _ w' => b.Tracked w') := by
  refine (b.ensureBackendService_ensures prober igs p w).mono ?_
  rintro r w' ⟨hkept,htracked⟩ port hport hours
  rcases hkept.ours _ hours with hours | hname
  · exact hkept.tracked _ (h port hport hours)
  · rwa [b.namer.backend_injective hport hp hname]

theorem ensure_tracked {svcPorts : List ServicePort} {around : Surroundings} (hports : ∀ p ∈ svcPorts, IsInt64 p.port)
    (h : b.Tracked w) : Ensures (b.ensure svcPorts around) w (fun _ w' => b.Tracked w') := by
  unfold ensure
  split
  · exact h
  · exact forEach_invariant _ b.Tracked (fun p hp w hw => ensureBackendService_tracked (hports p hp) hw) h

/-- The answer to a deletion, or that there is nothing to delete. -/
def Answered (r : Except GoError Unit) : Prop := r = .ok () ∨ r = .error (.api statusNotFound)

theorem ignoringNotFound_ensures {m : PoolM Unit} {Q : Except GoError Unit → Pool → Prop}
    (h : Ensures m w (fun r w' => (Answered r → Q (.ok ()) w') ∧
      ∀ e, r = .error e → isHTTPErrorCode e statusNotFound = false → Q (.error e) w')) :
    Ensures (ignoringNotFound m) w Q := by
  rw [ignoringNotFound,ensures_rescue]
  refine h.mono ?_
  rintro r w' ⟨hok,herror⟩
  cases r with
  | ok _ => exact hok (Or.inl rfl)
  | error e =>
    rw [rescued_error,ensures_ite]
    refine ⟨fun he => hok (Or.inr (by rw [eq_of_isHTTPErrorCode he])),fun he => herror e rfl ?_⟩
    exact Bool.eq_false_iff.mpr he

/-- What is known after a deletion: it has touched one name, and if there is no error what
had this name is gone and the port is off the record. -/
structure Deleted (b : Backends) (port : ℤ) (w : Pool) (r : Except GoError Unit) (w' : Pool) : Prop where
  services : w'.services.items = w.services.items ∨
    w'.services.items = Function.update w.services.items (b.namer.backend port) none
  checks : w'.health.checks.items = w.health.checks.items ∨
    w'.health.checks.items = Function.update w.health.checks.items (b.namer.backend port) none
  gone : r = .ok () → w'.services.items (b.namer.backend port) = none ∧
    w'.health.checks.items (b.namer.backend port) = none
  untracked : r = .ok () → w'.snapshotter = w.snapshotter.filter (· ≠ portKey port)
  tracked : ∀ e, r = .error e → w'.snapshotter = w.snapshotter
  found : ¬r = .error (.api statusNotFound)

theorem not_notFound {e : GoError} (h : isHTTPErrorCode e statusNotFound = false) :
    ¬(.error e : Except GoError Unit) = .error (.api statusNotFound) := by
  intro he
  rw [Except.error.inj he,isHTTPErrorCode_api] at h
  cases h

theorem delete_ensures (b : Backends) (port : ℤ) (w : Pool) : Ensures (b.delete port) w (Deleted b port w) := by
  rw [delete,settle,ensures_bind]
  refine ignoringNotFound_ensures ?_
  rw [ensures_bind]
  refine ignoringNotFound_ensures ?_
  rw [onServices,ensures_onPart]
  refine Store.deleteObject_ensures.mono ?_
  rintro r s ⟨hitems,hgone⟩
  refine ⟨fun hanswered => ?_,fun e _ he => ?_⟩
  · rw [afterwards_ok,onHealth,ensures_onPart,HealthChecker.delete,HealthChecker.onChecks,ensures_onPart]
    refine Store.deleteObject_ensures.mono ?_
    rintro r' s' ⟨hitems',hgone'⟩
    refine ⟨fun hanswered' => ?_,fun e' _ he' => ?_⟩
    · exact ⟨hitems,hitems',fun _ => ⟨hgone hanswered,hgone' hanswered'⟩,fun _ => rfl,nofun,nofun⟩
    · exact ⟨hitems,hitems',nofun,nofun,fun _ _ => rfl,not_notFound he'⟩
  · refine ⟨fun hanswered => ?_,fun e' heq he' => ?_⟩
    · rcases hanswered with heq | heq
      · cases heq
      · exact absurd heq (not_notFound he)
    · exact ⟨hitems,Or.inl rfl,nofun,nofun,fun _ _ => rfl,not_notFound he'⟩

namespace Deleted
variable {port : ℤ} {r : Except GoError Unit} {w' : Pool}

theorem items_of_ne (h : Deleted b port w r w') {name : Str} (hne : name ≠ b.namer.backend port) :
    w'.services.items name = w.services.items name ∧ w'.health.checks.items name = w.health.checks.items name := by
  constructor
  · rcases h.services with heq | heq
    · rw [heq]
    · rw [heq,Function.update_of_ne hne]
  · rcases h.checks with heq | heq
    · rw [heq]
    · rw [heq,Function.update_of_ne hne]

theorem shrinks (h : Deleted b port w r w') : Pool.Shrinks w w' := by
  intro name
  by_cases hname : name = b.namer.backend port
  · subst hname
    refine ⟨?_,?_⟩
    · rcases h.services with heq | heq
      · exact Or.inl (by rw [heq])
      · exact Or.inr (by rw [heq,Function.update_self])
    · rcases h.checks with heq | heq
      · exact Or.inl (by rw [heq])
      · exact Or.inr (by rw [heq,Function.update_self])
  · obtain ⟨hservices,hchecks⟩ := h.items_of_ne hname
    exact ⟨Or.inl hservices,Or.inl hchecks⟩

theorem keepsTrack (h : Deleted b port w r w') (hw : b.Tracked w) : b.Tracked w' := by
  intro port' hport' hours
  have hkey := hw port' hport' (h.shrinks.ours hours)
  cases r with
  | error e =>
    rw [h.tracked e rfl]
    exact hkey
  | ok _ =>
    obtain ⟨hservice,hcheck⟩ := h.gone rfl
    rw [h.untracked rfl]
    refine List.mem_filter.mpr ⟨hkey,decide_eq_true ?_⟩
    intro heq
    obtain rfl := Decimal.itoa_injective heq
    exact Pool.not_ours hservice hcheck hours

end Deleted

/-- The port is one of those that a collection is to keep. -/
def Known (b : Backends) (svcPorts : List ServicePort) (port : ℤ) : Prop :=
  (∃ p ∈ svcPorts, p.port = port) ∨ port ∈ b.ignorePorts

theorem known_iff {svcPorts : List ServicePort} {port : ℤ} :
    portKey port ∈ svcPorts.map (fun p => portKey p.port) ∨ portKey port ∈ b.ignoredPorts ↔ b.Known svcPorts port := by
  have hkey : ∀ port', portKey port' = portKey port ↔ port' = port := fun port' =>
    ⟨fun heq => Decimal.itoa_injective heq,fun heq => heq ▸ rfl⟩
  simp only [Known,ignoredPorts,List.mem_map,hkey]
  simp

/-- One round of a collection keeps a known port, and deletes another one. -/
theorem collect_ensures (svcPorts : List ServicePort) (key : Str) :
    Ensures (b.collect (svcPorts.map (fun p => portKey p.port)) key) w (fun r w' =>
      (w' = w ∧ (r = .ok () → ∃ n : ℕ, Decimal.parseUint 16 key = .ok n ∧ b.Known svcPorts n)) ∨
      ∃ n : ℕ, Decimal.parseUint 16 key = .ok n ∧ ¬b.Known svcPorts n ∧ Deleted b n w r w') := by
  unfold collect
  split
  · exact Or.inl ⟨rfl,nofun⟩
  · rename_i n hn
    rw [ensures_ite]
    refine ⟨fun hknown => Or.inl ⟨rfl,fun _ => ⟨n,hn,known_iff.mp hknown⟩⟩,fun hunknown => ?_⟩
    have hunknown' : ¬b.Known svcPorts n := fun hknown => hunknown (known_iff.mpr hknown)
    refine ignoringNotFound_ensures ((b.delete_ensures n w).mono ?_)
    intro r w' hdeleted
    refine ⟨?_,?_⟩
    · rintro (rfl | rfl)
      · exact Or.inr ⟨n,hn,hunknown',hdeleted⟩
      · exact absurd rfl hdeleted.found
    · rintro e rfl _
      exact Or.inr ⟨n,hn,hunknown',hdeleted⟩

/-- What a collection preserves, from the pool it has started with. -/
structure Collecting (b : Backends) (svcPorts : List ServicePort) (w w' : Pool) : Prop where
  shrinks : Pool.Shrinks w w'
  untouched : ∀ port, IsInt64 port → b.Known svcPorts port →
    w'.services.items (b.namer.backend port) = w.services.items (b.namer.backend port) ∧
    w'.health.checks.items (b.namer.backend port) = w.health.checks.items (b.namer.backend port)

theorem Collecting.delete {svcPorts : List ServicePort} {w₁ w₂ : Pool} {key : Str} {n : ℕ} {r : Except GoError Unit}
    (h : b.Collecting svcPorts w w₁) (hn : Decimal.parseUint 16 key = .ok n) (hunknown : ¬b.Known svcPorts n)
    (hdeleted : Deleted b n w₁ r w₂) : b.Collecting svcPorts w w₂ := by
  refine ⟨h.shrinks.trans hdeleted.shrinks,?_⟩
  intro port hport hknown
  have hint : IsInt64 n := by
    have hlt := Decimal.parseUint_lt hn
    constructor
    · omega
    · omega
  have hne : b.namer.backend port ≠ b.namer.backend n := by
    intro heq
    exact hunknown (b.namer.backend_injective hport hint heq ▸ hknown)
  obtain ⟨hservices,hchecks⟩ := hdeleted.items_of_ne hne
  obtain ⟨hservices',hchecks'⟩ := h.untouched port hport hknown
  exact ⟨hservices.trans hservices',hchecks.trans hchecks'⟩

/-- The key has been dealt with: its port is known, or what is named after it is gone. -/
def Clean (b : Backends) (svcPorts : List ServicePort) (key : Str) (w : Pool) : Prop :=
  ∃ n : ℕ, Decimal.parseUint 16 key = .ok n ∧ (b.Known svcPorts n ∨
    w.services.items (b.namer.backend n) = none ∧ w.health.checks.items (b.namer.backend n) = none)

theorem Clean.shrinks {svcPorts : List ServicePort} {key : Str} {w' : Pool} (h : b.Clean svcPorts key w)
    (hw' : Pool.Shrinks w w') : b.Clean svcPorts key w' := by
  obtain ⟨n,hn,hknown | ⟨hservices,hchecks⟩⟩ := h
  · exact ⟨n,hn,Or.inl hknown⟩
  · exact ⟨n,hn,Or.inr (hw'.absent hservices hchecks)⟩

theorem gc_tracked (o : Iteration Str) (svcPorts : List ServicePort) (h : b.Tracked w) :
    Ensures (b.gc o svcPorts) w (fun _ w' => b.Tracked w') := by
  rw [gc,ensures_bind,ensures_state,afterwards_ok]
  refine forEach_invariant _ b.Tracked (fun key _ w₁ hw₁ => ?_) h
  refine (collect_ensures svcPorts key).mono ?_
  rintro r w₂ (⟨rfl,_⟩ | ⟨n,_,_,hdeleted⟩)
  · exact hw₁
  · exact hdeleted.keepsTrack hw₁

theorem gc_ensures (b : Backends) (o : Iteration Str) (svcPorts : List ServicePort) (w : Pool) :
    Ensures (b.gc o svcPorts) w (fun r w' => b.Collecting svcPorts w w' ∧
      (r = .ok () → ∀ key ∈ w.snapshotter, b.Clean svcPorts key w')) := by
  rw [gc,ensures_bind,ensures_state,afterwards_ok]
  refine (forEach_rule (b.collect (svcPorts.map (fun p => portKey p.port)))
    (fun rest w' => b.Collecting svcPorts w w' ∧ ∀ key ∈ w.snapshotter, key ∈ rest ∨ b.Clean svcPorts key w')
    (b.Collecting svcPorts w) ?_ (o.range w.snapshotter)
    ⟨⟨Pool.Shrinks.refl w,fun _ _ _ => ⟨rfl,rfl⟩⟩,fun key hkey => Or.inl (Iteration.mem_range.mpr hkey)⟩).mono ?_
  · rintro key rest w₁ ⟨hcollecting,hclean⟩
    refine (collect_ensures svcPorts key).mono ?_
    intro r w₂ hround
    have hnext : b.Collecting svcPorts w w₂ ∧ Pool.Shrinks w₁ w₂ ∧ (r = .ok () → b.Clean svcPorts key w₂) := by
      rcases hround with ⟨rfl,hknown⟩ | ⟨n,hn,hunknown,hdeleted⟩
      · refine ⟨hcollecting,Pool.Shrinks.refl _,fun hok => ?_⟩
        obtain ⟨n,hn,hknown⟩ := hknown hok
        exact ⟨n,hn,Or.inl hknown⟩
      · exact ⟨hcollecting.delete hn hunknown hdeleted,hdeleted.shrinks,fun hok => ⟨n,hn,Or.inr (hdeleted.gone hok)⟩⟩
    obtain ⟨hcollecting',hshrinks,hdone⟩ := hnext
    refine ⟨fun hok => ⟨hcollecting',fun key' hkey' => ?_⟩,fun _ _ => hcollecting'⟩
    rcases hclean key' hkey' with hmem | hclean'
    · rcases List.mem_cons.mp hmem with rfl | hmem
      · exact Or.inr (hdone hok)
      · exact Or.inl hmem
    · exact Or.inr (hclean'.shrinks hshrinks)
  · rintro r w' ⟨hok,herror⟩
    cases r with
    | ok _ =>
      obtain ⟨hcollecting,hclean⟩ := hok rfl
      exact ⟨hcollecting,fun _ key hkey => (hclean key hkey).resolve_left List.not_mem_nil⟩
    | error e => exact ⟨herror e rfl,nofun⟩

/-- After a collection without error only known ports have anything left. -/
theorem known_of_clean {svcPorts : List ServicePort} {w' : Pool} {port : ℤ} (hport : IsInt64 port) (h : b.Tracked w)
    (hshrinks : Pool.Shrinks w w') (hclean : ∀ key ∈ w.snapshotter, b.Clean svcPorts key w')
    (hours : w'.Ours (b.namer.backend port)) : b.Known svcPorts port := by
  obtain ⟨n,hn,hcase⟩ := hclean _ (h port hport (hshrinks.ours hours))
  obtain rfl : port = n := Decimal.eq_of_parseUint_itoa hn
  rcases hcase with hknown | ⟨hservice,hcheck⟩
  · exact hknown
  · exact absurd hours (Pool.not_ours hservice hcheck)

end Operations

/-- The operations on the pool, with all that the environment decides. -/
inductive Op
  | ensure (svcPorts : List ServicePort) (around : Surroundings)
  | get (port : ℤ)
  | delete (port : ℤ)
  | gc (o : Iteration Str) (svcPorts : List ServicePort)
  | replenish (keys : List Str)

def Op.Valid : Op → Prop
  | .ensure svcPorts _ => ∀ p ∈ svcPorts, IsInt64 p.port
  | _ => True

def run (b : Backends) : Op → PoolM Unit
  | .ensure svcPorts around => b.ensure svcPorts around
  | .get port => do
    let _ ← b.get port
    pure ()
  | .delete port => b.delete port
  | .gc o svcPorts => b.gc o svcPorts
  | .replenish keys => replenish keys

def step (b : Backends) (w : Pool) (op : Op) : Pool := (b.run op w).2

theorem step_tracked {b : Backends} {w : Pool} {op : Op} (hop : op.Valid) (h : b.Tracked w) : b.Tracked (b.step w op) := by
  cases op with
  | ensure svcPorts around => exact ensure_tracked hop h
  | get port =>
    have hkept : Respects (Pool.Keeps (fun _ => False)) (b.run (.get port)) :=
      (b.respects_get port).bind fun _ => respects_pure ()
    exact h.of_keeps (hkept w)
  | delete port => exact (b.delete_ensures port w).keepsTrack h
  | gc o svcPorts => exact gc_tracked o svcPorts h
  | replenish keys =>
    have hkept : ∀ (keys : List Str) (w' : Pool), Pool.Keeps (fun _ => False) w w' → Pool.Keeps (fun _ => False) w (keys.foldl Pool.track w') := by
      intro keys
      induction keys with
      | nil => exact fun _ hw' => hw'
      | cons key keys ih => exact fun w' hw' => ih _ (trans_of (Pool.Keeps _) hw' (respects_track key w'))
    exact h.of_keeps (hkept keys w (refl_of _ w))

theorem final_tracked {b : Backends} {w : Pool} {ops : List Op} (hops : ∀ op ∈ ops, op.Valid) (h : b.Tracked w) :
    b.Tracked (Runs.final b.step w ops) := by
  induction ops generalizing w with
  | nil => exact h
  | cons op rest ih =>
    exact ih (fun op hop => hops op (List.mem_cons_of_mem _ hop)) (step_tracked (hops op List.mem_cons_self) h)

/-- After every run, what the pool has created and what still exists is on record; a
collection that returns without error leaves of it only what belongs to known ports, and
no collection touches what belongs to a known port. -/
theorem run_tracks_created (b : Backends) {w : Pool} (hnew : ∀ name, ¬w.Ours name) {ops : List Op}
    (hops : ∀ op ∈ ops, op.Valid) :
    (∀ port, IsInt64 port → (Runs.final b.step w ops).Ours (b.namer.backend port) →
      portKey port ∈ (Runs.final b.step w ops).snapshotter) ∧
    ∀ o svcPorts, Ensures (b.gc o svcPorts) (Runs.final b.step w ops) (fun r w' =>
      (r = .ok () → ∀ port, IsInt64 port → w'.Ours (b.namer.backend port) → b.Known svcPorts port) ∧
      ∀ port, IsInt64 port → b.Known svcPorts port →
        w'.services.items (b.namer.backend port) = (Runs.final b.step w ops).services.items (b.namer.backend port) ∧
        w'.health.checks.items (b.namer.backend port) =
          (Runs.final b.step w ops).health.checks.items (b.namer.backend port)) := by
  have htracked := final_tracked (b := b) hops (fun port _ hours => absurd hours (hnew _))
  refine ⟨htracked,?_⟩
  intro o svcPorts
  refine (b.gc_ensures o svcPorts _).mono ?_
  rintro r w' ⟨hcollecting,hclean⟩
  exact ⟨fun hok port hport => known_of_clean hport htracked hcollecting.shrinks (hclean hok),hcollecting.untouched⟩

/-- A pool of a cluster with a UID, that keeps one port. -/
def onePool : Backends where
  healthChecker := { namer := Namer.setUID "uid".toList, defaultPath := "/".toList, links := fun name => "healthChecks/".toList ++ name }
  links := fun name => "backendServices/".toList ++ name
  ignorePorts := [30000]

def emptyPool : Pool where
  snapshotter := []
  services := { items := fun _ => none, faults := fun _ => none, clock := 0 }
  health :=
    { checks := { items := fun _ => none, faults := fun _ => none, clock := 0 }
      legacy := { items := fun _ => none, faults := fun _ => none, clock := 0 } }

def webPort : ServicePort where
  port := 30080
  protocol := Kube.protocolHTTP
  svcNamespace := "default".toList
  svcName := "web".toList
  svcPort := .int 80
  svcTargetPort := "8080".toList
  negEnabled := false

/-- The pool after work on one port. -/
def ensureWeb : List Op := [.ensure [webPort] { instanceGroups := .ok [], prober := none }]

theorem run_tracks_created_web : (Runs.final onePool.step emptyPool ensureWeb).Ours (onePool.namer.backend 30080) ∧
    portKey 30080 ∈ (Runs.final onePool.step emptyPool ensureWeb).snapshotter := by
  have hours : (Runs.final onePool.step emptyPool ensureWeb).Ours (onePool.namer.backend 30080) :=
    Or.inl ⟨_,rfl,rfl⟩
  have hnew : ∀ name, ¬emptyPool.Ours name := fun name => Pool.not_ours rfl rfl
  have hops : ∀ op ∈ ensureWeb, op.Valid := by
    simp [ensureWeb,Op.Valid,webPort,IsInt64]
  exact ⟨hours,(run_tracks_created onePool hnew hops).1 30080 (by simp [IsInt64]) hours⟩

end IngressGce.Backends
