import IngressGce.Backends.Keys
import IngressGce.Backends.Stepwise
import IngressGce.Backends.Tracking

/-! # Relisting the cloud in the background

`ReplenishPool` puts on record what it finds in the cloud, in the midst of the other
operations. A deletion takes the port off the record after the backend service is gone and
while nothing is being relisted, so that a list made earlier has been inserted by then, and
a list made later does not have the backend service.
-/
namespace IngressGce.Backends
open Prog Proc

/-- A `Delete` of the port has returned without error, and no `Ensure` or `Get` of it has
started since. -/
def SinceDelete : List Event → ℤ → Prop
  | [], _ => False
  | .deleted p :: before, port => port = p ∨ SinceDelete before port
  | .uses ports :: before, port => port ∉ ports ∧ SinceDelete before port
  | _ :: before, port => SinceDelete before port

/-- An `Ensure` of the port has returned without error, and no `Delete` of it has started
since. -/
def SinceEnsure : List Event → ℤ → Prop
  | [], _ => False
  | .ensured ports :: before, port => port ∈ ports ∨ SinceEnsure before port
  | .deletes p :: before, port => port ≠ p ∧ SinceEnsure before port
  | _ :: before, port => SinceEnsure before port

/-- Nothing that was deleted is on record, and nothing that was ensured is not. -/
structure Sound (w : World) : Prop where
  deleted : ∀ port, SinceDelete w.trace port → portKey port ∉ w.pool.snapshotter
  ensured : ∀ port, SinceEnsure w.trace port → portKey port ∈ w.pool.snapshotter

/-- The steps of `ReplenishPool`. The list has the names of what the cloud has at the
moment, and an entry that the key function does not accept is skipped. -/
inductive Relists (b : Backends) : World → World → Prop
  | acquire {w : World} (h : w.relister = .idle) : Relists b w { w with relister := .locked }
  | list {w : World} {names : List Str} (h : w.relister = .locked)
    (hnames : ∀ name, name ∈ names ↔ w.pool.services.items name ≠ none) :
    Relists b w { w with relister := .inserting names }
  | listFails {w : World} (h : w.relister = .locked) : Relists b w { w with relister := .idle }
  | insert {w : World} {name key : Str} {names : List Str} (h : w.relister = .inserting (name :: names))
    (hkey : b.namer.backendKey name = .ok key) :
    Relists b w { w with pool := w.pool.track key, relister := .inserting names }
  | skip {w : World} {name : Str} {names : List Str} {e : GoError} (h : w.relister = .inserting (name :: names))
    (hkey : b.namer.backendKey name = .error e) : Relists b w { w with relister := .inserting names }
  | release {w : World} (h : w.relister = .inserting []) : Relists b w { w with relister := .idle }

def relisting (b : Backends) : Others World where
  acts := Relists b
  free w := w.relister = .idle

/-- A backend service that the key function accepts has the name of the backend of a port. -/
def Own (b : Backends) (w : Pool) : Prop := ∀ name key, w.services.items name ≠ none →
  b.namer.backendKey name = .ok key → ∃ port, IsInt64 port ∧ name = b.namer.backend port

/-- The port is not on record, and will not be put there by a list. -/
structure Gone (b : Backends) (port : ℤ) (w : World) : Prop where
  absent : w.pool.services.items (b.namer.backend port) = none
  untracked : portKey port ∉ w.pool.snapshotter
  unlisted : ∀ names, w.relister = .inserting names → ∀ name ∈ names, b.namer.backendKey name ≠ .ok (portKey port)

/-- The invariant of all interleavings. -/
structure Inv (b : Backends) (w : World) : Prop where
  own : b.Own w.pool
  deleted : ∀ port, SinceDelete w.trace port → IsInt64 port ∧ b.Gone port w
  ensured : ∀ port, SinceEnsure w.trace port → portKey port ∈ w.pool.snapshotter

variable {b : Backends} {w w' : World} {port : ℤ}

/-- A note changes what is claimed, and nothing else. -/
theorem Inv.note (hw : b.Inv w) {e : Event}
    (hdeleted : ∀ port, SinceDelete (e :: w.trace) port → SinceDelete w.trace port ∨ IsInt64 port ∧ b.Gone port w)
    (hensured : ∀ port, SinceEnsure (e :: w.trace) port →
      SinceEnsure w.trace port ∨ portKey port ∈ w.pool.snapshotter) :
    b.Inv { w with trace := e :: w.trace } := by
  refine ⟨hw.own,?_,fun port hport => (hensured port hport).elim (hw.ensured port) id⟩
  intro port hport
  obtain ⟨hint,hgone⟩ := (hdeleted port hport).elim (hw.deleted port) id
  exact ⟨hint,hgone.absent,hgone.untracked,hgone.unlisted⟩

theorem Inv.sound (h : b.Inv w) : Sound w := ⟨fun port hport => (h.deleted port hport).2.untracked,h.ensured⟩

/-! ## What the listing does -/

/-- The only name with the key of a port is the name of its backend. -/
theorem Own.absent (h : b.Own w.pool) {name : Str} (hname : b.namer.backendKey name = .ok (portKey port))
    (habsent : w.pool.services.items (b.namer.backend port) = none) : w.pool.services.items name = none := by
  by_contra hitem
  obtain ⟨q,hq,rfl⟩ := h name _ hitem hname
  have hkey : portKey port = portKey q := Namer.eq_portKey_of_backendKey hq hname
  rw [Decimal.itoa_injective hkey] at habsent
  exact hitem habsent

theorem Relists.services (h : Relists b w w') : w'.pool.services = w.pool.services := by
  cases h <;> rfl

theorem Relists.trace (h : Relists b w w') : w'.trace = w.trace := by
  cases h <;> rfl

theorem Relists.tracked (h : Relists b w w') {key : Str} (hkey : key ∈ w.pool.snapshotter) :
    key ∈ w'.pool.snapshotter := by
  cases h with
  | insert _ _ => exact Pool.mem_track.mpr (Or.inr hkey)
  | _ => exact hkey

theorem Gone.relists (hgone : b.Gone port w) (hown : b.Own w.pool) (h : Relists b w w') : b.Gone port w' := by
  refine ⟨by rw [h.services,hgone.absent],?_,?_⟩
  · cases h with
    | @insert name key names hrelister hkey =>
      intro htracked
      rcases Pool.mem_track.mp htracked with heq | htracked
      · subst heq
        exact hgone.unlisted _ hrelister name List.mem_cons_self hkey
      · exact hgone.untracked htracked
    | _ => exact hgone.untracked
  · cases h with
    | list hrelister hnames =>
      rintro names ⟨⟩ name hname hkey
      exact (hnames name).mp hname (hown.absent hkey hgone.absent)
    | insert hrelister hkey =>
      rintro names ⟨⟩ name hname
      exact hgone.unlisted _ hrelister name (List.mem_cons_of_mem _ hname)
    | skip hrelister hkey =>
      rintro names ⟨⟩ name hname
      exact hgone.unlisted _ hrelister name (List.mem_cons_of_mem _ hname)
    | _ => nofun

theorem Inv.relists (hw : b.Inv w) (h : Relists b w w') : b.Inv w' := by
  refine ⟨?_,?_,?_⟩
  · unfold Own
    rw [h.services]
    exact hw.own
  · intro port hport
    rw [h.trace] at hport
    obtain ⟨hint,hgone⟩ := hw.deleted port hport
    exact ⟨hint,hgone.relists hw.own h⟩
  · intro port hport
    rw [h.trace] at hport
    exact h.tracked (hw.ensured port hport)

/-- A list that is inserted without interruption adds the keys that are accepted. -/
theorem relists_replenish (b : Backends) (w : World) (names : List Str) :
    Relation.ReflTransGen (Relists b) { w with relister := .inserting names }
      { w with pool := (replenish (names.filterMap fun name => (b.namer.backendKey name).toOption) w.pool).2,
               relister := .idle } := by
  induction names generalizing w with
  | nil => exact .single (.release rfl)
  | cons name names ih =>
    cases hkey : b.namer.backendKey name with
    | error e =>
      rw [List.filterMap_cons_none (by rw [hkey]; rfl)]
      exact .head (.skip rfl hkey) (ih w)
    | ok key =>
      rw [List.filterMap_cons_some (by rw [hkey]; rfl)]
      exact .head (.insert rfl hkey) (ih { w with pool := w.pool.track key })

/-! ## Assertions that the listing does not falsify -/

def inv (b : Backends) : Assertion b.relisting Sound where
  holds := b.Inv
  stable _ _ h hacts := h.relists hacts
  safe _ h := h.sound

/-- An `Ensure` or `Get` of some ports is running, and some of them are on record already. -/
def working (b : Backends) (ports tracked : List ℤ) : Assertion b.relisting Sound :=
  b.inv.also (fun w => (∀ p ∈ ports, ¬SinceDelete w.trace p) ∧ ∀ p ∈ tracked, portKey p ∈ w.pool.snapshotter) (by
    rintro w w' _ ⟨hports,htracked⟩ hacts
    have hrelists : Relists b w w' := hacts
    rw [hrelists.trace]
    exact ⟨hports,fun p hp => hrelists.tracked (htracked p hp)⟩)

/-- A `Delete` of the port is running. -/
def deleting (b : Backends) (port : ℤ) : Assertion b.relisting Sound :=
  b.inv.also (fun w => ¬SinceEnsure w.trace port) (by
    intro w w' _ h hacts
    have hrelists : Relists b w w' := hacts
    rwa [hrelists.trace])

/-- If a call of the `Delete` has been answered, the backend service is gone. -/
def answered (b : Backends) (port : ℤ) (r : Except GoError Unit) : Assertion b.relisting Sound :=
  (b.deleting port).also (fun w => Answered r → w.pool.services.items (b.namer.backend port) = none) (by
    intro w w' _ h hacts
    have hrelists : Relists b w w' := hacts
    rwa [hrelists.services])

def gone (b : Backends) (port : ℤ) : Assertion b.relisting Sound :=
  b.inv.also (b.Gone port) (fun _ _ hw hgone hacts => hgone.relists hw.own hacts)

/-! ## The steps of the operations -/

/-- Of the pool, what the work on some ports may do at a time. -/
structure Pool.Grows (b : Backends) (ports : List ℤ) (w w' : Pool) : Prop where
  services : ∀ name, w'.services.items name ≠ none →
    w.services.items name ≠ none ∨ ∃ p ∈ ports, name = b.namer.backend p
  tracked : ∀ key ∈ w.snapshotter, key ∈ w'.snapshotter
  added : ∀ key ∈ w'.snapshotter, key ∈ w.snapshotter ∨ ∃ p ∈ ports, key = portKey p

section Growing
variable {ports tracked : List ℤ}

theorem Pool.Grows.of_services {w w' : Pool} (hsnapshotter : w'.snapshotter = w.snapshotter)
    (hservices : ∀ name, w'.services.items name ≠ none →
      w.services.items name ≠ none ∨ ∃ p ∈ ports, name = b.namer.backend p) : Pool.Grows b ports w w' := by
  refine ⟨hservices,?_,?_⟩
  · intro key hkey
    rwa [hsnapshotter]
  · intro key hkey
    rw [hsnapshotter] at hkey
    exact Or.inl hkey

theorem grows_onHealth {α : Type} (m : HealthM α) : Respects (Pool.Grows b ports) (onHealth m) :=
  fun _ => Pool.Grows.of_services rfl fun _ h => Or.inl h

theorem grows_onServices {α : Type} {m : Prog (Store Str (Owned BackendService)) GoError α}
    (hm : Respects (fun s s' => ∀ name, s'.items name ≠ none →
      s.items name ≠ none ∨ ∃ p ∈ ports, name = b.namer.backend p) m) : Respects (Pool.Grows b ports) (onServices m) :=
  hm.onPart fun _ _ h => Pool.Grows.of_services rfl h

/-- Neither a read nor an update nor a deletion makes a new backend service. -/
theorem grows_onItem {α : Type} (name : Str) (f : Owned BackendService → α × Option (Owned BackendService)) :
    Respects (Pool.Grows b ports) (onServices (Store.onItem name f)) :=
  grows_onServices fun _ => (Store.onItem_served f).mono fun _ _ h _ hname => Or.inl (h.existed hname)

theorem grows_create (hport : port ∈ ports) (be : BackendService) :
    Respects (Pool.Grows b ports) (onServices (Store.createObject (b.namer.backend port) be)) := by
  refine grows_onServices fun s => (Store.insert_served _).mono ?_
  rintro r s' ⟨_,_,hitems,_⟩ name hname
  rcases hitems with hitems | ⟨_,hitems⟩
  · rw [hitems] at hname
    exact Or.inl hname
  · by_cases heq : name = b.namer.backend port
    · exact Or.inr ⟨port,hport,heq⟩
    · rw [hitems,Function.update_of_ne heq] at hname
      exact Or.inl hname

theorem grows_track (hport : port ∈ ports) :
    Respects (Pool.Grows b ports) (update (fun w => w.track (portKey port)) : PoolM Unit) := by
  intro w
  refine ⟨fun _ h => Or.inl h,fun _ hkey => Pool.mem_track.mpr (Or.inr hkey),?_⟩
  intro key hkey
  rcases Pool.mem_track.mp hkey with heq | hkey
  · exact Or.inr ⟨port,hport,heq⟩
  · exact Or.inl hkey

/-- The work on some ports keeps the invariant, as long as none of them counts as deleted. -/
theorem Inv.grows (hw : b.Inv w) (hports : ∀ p ∈ ports, IsInt64 p ∧ ¬SinceDelete w.trace p) {p : Pool}
    (h : Pool.Grows b ports w.pool p) : b.Inv { w with pool := p } := by
  have hapart : ∀ port q, SinceDelete w.trace port → q ∈ ports → port ≠ q := by
    rintro port q hport hq rfl
    exact (hports port hq).2 hport
  refine ⟨?_,?_,fun port hport => h.tracked _ (hw.ensured port hport)⟩
  · intro name key hname hkey
    rcases h.services name hname with hname | ⟨q,hq,rfl⟩
    · exact hw.own name key hname hkey
    · exact ⟨q,(hports q hq).1,rfl⟩
  · intro port hport
    obtain ⟨hint,hgone⟩ := hw.deleted port hport
    refine ⟨hint,?_,?_,hgone.unlisted⟩
    · by_contra hitem
      rcases h.services _ hitem with hitem | ⟨q,hq,heq⟩
      · exact hitem hgone.absent
      · exact hapart port q hport hq (b.namer.backend_injective hint (hports q hq).1 heq)
    · intro hkey
      rcases h.added _ hkey with hkey | ⟨q,hq,heq⟩
      · exact hgone.untracked hkey
      · exact hapart port q hport hq (Decimal.itoa_injective heq)

theorem keeps_atom {α : Type} {m : PoolM α} (locking : Bool) (hports : ∀ p ∈ ports, IsInt64 p)
    (hm : Respects (Pool.Grows b ports) m) :
    Steps.Keeps (b.working ports tracked) (Steps.atom locking (onPool m)) := by
  refine Steps.outline_atom fun w hw _ => ?_
  obtain ⟨hinv,hports',htracked⟩ := hw
  have hgrows : Pool.Grows b ports w.pool (m w.pool).2 := hm w.pool
  exact ⟨Inv.grows hinv (fun p hp => ⟨hports p hp,hports' p hp⟩) hgrows,hports',
    fun p hp => hgrows.tracked _ (htracked p hp)⟩

theorem keeps_note_rejected (bm : BalancingMode) : Steps.Keeps (b.working ports tracked) (note (.rejected bm)) :=
  Steps.outline_atom fun _ hw _ => ⟨hw.1.note (fun _ h => Or.inl h) (fun _ h => Or.inl h),hw.2⟩

variable (hports : ∀ p ∈ ports, IsInt64 p)
include hports

theorem keeps_health {α : Type} (m : HealthM α) : Steps.Keeps (b.working ports tracked) (call (onHealth m)) :=
  keeps_atom false hports (grows_onHealth m)

theorem keeps_get (hport : port ∈ ports) : Steps.Keeps (b.working ports tracked) (Stepwise.get b port) :=
  (keeps_atom false hports (grows_onItem _ _)).bind fun be =>
    (keeps_atom true hports (grows_track hport)).bind fun _ => Steps.keeps_pure be

theorem keeps_getOrCreate {sp : ServicePort} (hsp : sp.port ∈ ports) (hcLink : Str) :
    Steps.Keeps (b.working ports tracked) (Stepwise.getOrCreate b sp hcLink) := by
  refine (keeps_get hports hsp).orNil.bind fun found => ?_
  cases found with
  | some be => exact Steps.keeps_pure be
  | none => exact (keeps_atom false hports (grows_create hsp _)).bind fun _ => keeps_get hports hsp

theorem keeps_tryModes (be : BackendService) (original : List Backend) (addIGs errs : List Str)
    (modes : List BalancingMode) : Steps.Keeps (b.working ports tracked) (Stepwise.tryModes be original addIGs errs modes) := by
  induction modes generalizing errs with
  | nil => exact Steps.keeps_fail _
  | cons bm modes ih =>
    refine (keeps_atom false hports (grows_onItem _ _)).rescue fun e => Steps.Keeps.ite ?_ (Steps.keeps_fail e)
    exact (keeps_note_rejected bm).bind fun _ => ih _

/-- Whether it has failed or not, the work on a port ends with the port on record. -/
theorem outline_ensureBackendService (prober : Option (ServicePort → Except GoError (Option Probe))) (igs : List Str)
    {sp : ServicePort} (hsp : sp.port ∈ ports) :
    Outline (b.working ports tracked) (Stepwise.ensureBackendService b prober igs sp)
      (fun _ => b.working ports (sp.port :: tracked)) := by
  have hrefresh : ∀ be hcLink, Steps.Keeps (b.working ports tracked) (Stepwise.refresh be sp hcLink) := fun be hcLink =>
    ((keeps_atom false hports (grows_onItem _ _)).bind fun _ => Steps.keeps_pure _).ite (Steps.keeps_pure be)
  have hdrop : ∀ be hcLink, Steps.Keeps (b.working ports tracked) (Stepwise.dropLegacy b be sp hcLink) :=
    fun be hcLink => ((keeps_health hports _).rescue fun _ => Steps.keeps_pure ()).onlyIf
  have hedgeHop : ∀ be, Steps.Keeps (b.working ports tracked) (Stepwise.edgeHop be igs) :=
    fun be => (Steps.keeps_pure ()).ite (keeps_tryModes hports _ _ _ _ _)
  refine Steps.outline_deferring ((keeps_ensureHealthCheck (fun _ => keeps_health hports) b prober sp).bind fun hcLink =>
    (keeps_getOrCreate hports hsp hcLink).bind fun be => (hrefresh be hcLink).bind fun be' =>
      (hdrop be hcLink).bind fun _ => (hedgeHop be').onlyIf) fun r => ?_
  refine Steps.outline_atom fun w hw _ => ?_
  obtain ⟨hinv,hports',htracked⟩ := hw
  have hgrows : Pool.Grows b ports w.pool (w.pool.track (portKey sp.port)) := grows_track hsp w.pool
  refine ⟨Inv.grows hinv (fun p hp => ⟨hports p hp,hports' p hp⟩) hgrows,hports',?_⟩
  intro p hp
  rcases List.mem_cons.mp hp with rfl | hp
  · exact Pool.mem_track.mpr (Or.inl rfl)
  · exact hgrows.tracked _ (htracked p hp)

end Growing

/-- When an `Ensure` or `Get` starts, its ports no longer count as deleted. -/
theorem outline_uses (ports : List ℤ) : Outline b.inv (note (.uses ports)) (fun _ => b.working ports []) := by
  refine Steps.outline_atom fun w hw _ => ?_
  have hinv : b.Inv w := hw
  refine ⟨hinv.note (fun port hport => Or.inl hport.2) (fun _ h => Or.inl h),?_,by simp⟩
  intro p hp hdeleted
  exact hdeleted.1 hp

theorem keeps_getCall (hport : IsInt64 port) :
    Steps.Keeps b.inv (do note (.uses [port]); let _ ← Stepwise.get b port : WorldM Unit) := by
  have hget : Steps.Keeps (b.working [port] []) (Stepwise.get b port) :=
    keeps_get (by simpa using hport) List.mem_cons_self
  refine Steps.outline_bind (outline_uses [port]) (fun _ => ?_) (fun _ _ hw => hw.1)
  exact (hget.bind fun _ => Steps.keeps_pure ()).weaken (fun _ hw => hw) (fun _ _ hw => hw.1)

/-- After some rounds of the loop, the ports that do not come any more are on record. -/
theorem outline_ensurePorts {svcPorts : List ServicePort} (around : Surroundings)
    (hports : ∀ p ∈ svcPorts.map ServicePort.port, IsInt64 p) :
    Outline (b.working (svcPorts.map ServicePort.port) []) (Stepwise.ensurePorts b svcPorts around) (fun
      | .ok _ => b.working (svcPorts.map ServicePort.port) (svcPorts.map ServicePort.port)
      | .error _ => b.inv) := by
  set ports := svcPorts.map ServicePort.port
  unfold Stepwise.ensurePorts
  cases around.instanceGroups with
  | error e => exact Steps.outline_fail fun _ hw => hw.1
  | ok igs =>
    refine (Steps.outline_forEach
      (fun rest => b.working ports (ports.filter (· ∉ rest.map ServicePort.port))) ?_ ?_).weaken ?_ (fun _ _ hw => hw)
    · intro sp hsp rest
      refine (outline_ensureBackendService hports around.prober igs (List.mem_map_of_mem hsp)).weaken
        (fun _ hw => hw) ?_
      rintro r w ⟨hinv,hused,htracked⟩
      cases r with
      | error e => exact hinv
      | ok _ =>
        refine ⟨hinv,hused,?_⟩
        intro p hp
        obtain ⟨hp,hrest⟩ := List.mem_filter.mp hp
        apply htracked
        by_cases heq : p = sp.port
        · exact heq ▸ List.mem_cons_self
        · refine List.mem_cons_of_mem _ (List.mem_filter.mpr ⟨hp,?_⟩)
          simpa [heq] using hrest
    · rintro w ⟨hinv,hused,htracked⟩
      exact ⟨hinv,hused,by simpa using htracked⟩
    · rintro w ⟨hinv,hused,_⟩
      refine ⟨hinv,hused,?_⟩
      intro p hp
      obtain ⟨hp,hrest⟩ := List.mem_filter.mp hp
      exact absurd hp (of_decide_eq_true hrest)

theorem keeps_ensure {svcPorts : List ServicePort} (around : Surroundings) (hports : ∀ sp ∈ svcPorts, IsInt64 sp.port) :
    Steps.Keeps b.inv (Stepwise.ensure b svcPorts around) := by
  have hports' : ∀ p ∈ svcPorts.map ServicePort.port, IsInt64 p := by
    simpa using hports
  refine Steps.outline_bind (outline_uses (svcPorts.map ServicePort.port)) (fun _ => ?_) (fun _ _ hw => hw.1)
  refine Steps.outline_bind (outline_ensurePorts around hports') (fun _ => ?_) (fun _ _ hw => hw)
  refine Steps.outline_atom fun w hw _ => ?_
  obtain ⟨hinv,_,htracked⟩ := hw
  exact hinv.note (fun _ h => Or.inl h) (fun port hport => hport.symm.imp_right (htracked port))

theorem outline_ignoringNotFound {P : Assertion b.relisting Sound} {m : WorldM Unit}
    (hm : Outline P m (b.answered port)) : Outline P (Stepwise.ignoringNotFound m) (b.answered port) := by
  refine Steps.outline_rescue hm (fun _ _ hw => hw) fun e => ?_
  split
  · rename_i he
    rw [eq_of_isHTTPErrorCode he]
    exact Steps.outline_pure fun w hw => ⟨hw.1,fun _ => hw.2 (Or.inr rfl)⟩
  · exact Steps.outline_fail fun _ hw => hw

theorem outline_deleteService :
    Outline (b.deleting port) (call (onServices (Store.deleteObject (b.namer.backend port)))) (b.answered port) := by
  refine Steps.outline_atom fun w hw _ => ?_
  obtain ⟨hinv,hnot⟩ := hw
  have hgrows : Pool.Grows b [] w.pool _ := grows_onItem (b.namer.backend port) (fun _ => ((),none)) w.pool
  exact ⟨⟨Inv.grows hinv (by simp) hgrows,hnot⟩,Store.deleteObject_ensures.2⟩

theorem outline_deleteCheck :
    Outline (b.answered port (.ok ())) (call (onHealth (b.healthChecker.delete port))) (b.answered port) := by
  refine Steps.outline_atom fun w hw _ => ?_
  obtain ⟨⟨hinv,hnot⟩,habsent⟩ := hw
  have hgrows : Pool.Grows b [] w.pool _ := grows_onHealth (b.healthChecker.delete port) w.pool
  exact ⟨⟨Inv.grows hinv (by simp) hgrows,hnot⟩,fun _ => habsent (Or.inl rfl)⟩

/-- While nothing is being relisted, taking the port off the record is final. -/
theorem outline_untrack : Outline (b.answered port (.ok ())) (access (update (fun w => w.untrack (portKey port))))
    (fun _ => b.gone port) := by
  refine Steps.outline_atom fun w hw hfree => ?_
  obtain ⟨⟨hinv,hnot⟩,habsent⟩ := hw
  have hidle : w.relister = .idle := hfree rfl
  have hgone : ∀ p, (b.Gone p w ∨ p = port) → b.Gone p { w with pool := w.pool.untrack (portKey port) } := by
    rintro p hp
    refine ⟨?_,?_,by simp [hidle]⟩
    · rcases hp with hp | rfl
      · exact hp.absent
      · exact habsent (Or.inl rfl)
    · intro hkey
      obtain ⟨hkey,hne⟩ := List.mem_filter.mp hkey
      rcases hp with hp | rfl
      · exact hp.untracked hkey
      · exact of_decide_eq_true hne rfl
  refine ⟨⟨hinv.own,?_,?_⟩,hgone port (Or.inr rfl)⟩
  · intro p hp
    obtain ⟨hint,hp⟩ := hinv.deleted p hp
    exact ⟨hint,hgone p (Or.inl hp)⟩
  · intro p hp
    refine List.mem_filter.mpr ⟨hinv.ensured p hp,decide_eq_true ?_⟩
    intro heq
    rw [Decimal.itoa_injective heq] at hp
    exact hnot hp

theorem keeps_delete (hport : IsInt64 port) : Steps.Keeps b.inv (Stepwise.delete b port) := by
  have hstart : Outline b.inv (note (.deletes port)) (fun _ => b.deleting port) :=
    Steps.outline_atom fun w hw _ => ⟨Inv.note hw (fun _ h => Or.inl h) (fun _ h => Or.inl h.2),fun h => h.1 rfl⟩
  have hend : Outline (b.gone port) (note (.deleted port)) (fun _ => b.inv) := by
    refine Steps.outline_atom fun w hw _ => Inv.note hw.1 ?_ (fun _ h => Or.inl h)
    rintro p (rfl | hp)
    · exact Or.inr ⟨hport,hw.2⟩
    · exact Or.inl hp
  have hbody : Outline (b.deleting port) (do
      Stepwise.ignoringNotFound (call (onServices (Store.deleteObject (b.namer.backend port))))
      call (onHealth (b.healthChecker.delete port)) : WorldM Unit) (b.answered port) :=
    Steps.outline_bind (outline_ignoringNotFound outline_deleteService) (fun _ => outline_deleteCheck)
      (fun _ _ hw => hw)
  refine Steps.outline_bind hstart (fun _ => ?_) (fun _ _ hw => hw.1)
  refine Steps.outline_bind (R := fun
    | .ok _ => b.gone port
    | .error _ => b.inv) ?_ (fun _ => hend) (fun _ _ hw => hw)
  refine Steps.outline_bind (outline_ignoringNotFound hbody) (fun _ => ?_) (fun _ _ hw => hw.1.1)
  refine outline_untrack.weaken (fun _ hw => hw) (fun r w hw => ?_)
  cases r with
  | ok _ => exact hw
  | error _ => exact hw.1

theorem keeps_gc (o : Iteration Str) (svcNodePorts : List ServicePort) :
    Steps.Keeps b.inv (Stepwise.gc b o svcNodePorts) := by
  have hsnapshot : Steps.Keeps b.inv (access state) := Steps.outline_atom fun _ hw _ => hw
  refine hsnapshot.bind fun w => Steps.Keeps.forEach fun key _ => ?_
  unfold Stepwise.collect
  split
  · exact Steps.keeps_fail _
  · rename_i nodePort hport
    have hlt := Decimal.parseUint_lt hport
    have hint : IsInt64 (nodePort : ℤ) := ⟨by omega,by omega⟩
    refine (Steps.keeps_pure ()).ite ?_
    exact (keeps_delete hint).rescue fun e => (Steps.keeps_pure ()).ite (Steps.keeps_fail e)

/-! ## Any number of operations -/

/-- An operation of the pool that the controller calls. -/
inductive Call
  | get (port : ℤ)
  | ensure (svcPorts : List ServicePort) (around : Surroundings)
  | delete (port : ℤ)
  | gc (o : Iteration Str) (svcNodePorts : List ServicePort)

namespace Call

def steps (b : Backends) : Call → WorldM Unit
  | get port => do
    note (.uses [port])
    let _ ← Stepwise.get b port
  | ensure svcPorts around => Stepwise.ensure b svcPorts around
  | delete port => Stepwise.delete b port
  | gc o svcNodePorts => Stepwise.gc b o svcNodePorts

/-- The ports have 64 bits. -/
def InRange : Call → Prop
  | get port => IsInt64 port
  | ensure svcPorts _ => ∀ sp ∈ svcPorts, IsInt64 sp.port
  | delete port => IsInt64 port
  | gc _ _ => True

end Call

/-- The controller makes its calls one after another, whether they fail or not. -/
def session (b : Backends) (calls : List Call) : WorldM Unit :=
  Steps.forEach (fun c => do let _ ← (Steps.attempt (c.steps b) : WorldM (Except GoError Unit))) calls

/-- Nothing has been called yet and nothing is being relisted. -/
structure Fresh (b : Backends) (w : World) : Prop where
  trace : w.trace = []
  relister : w.relister = .idle
  own : b.Own w.pool

theorem Fresh.inv (h : b.Fresh w) : b.Inv w := by
  refine ⟨h.own,?_,?_⟩
  · intro port hport
    rw [h.trace] at hport
    exact hport.elim
  · intro port hport
    rw [h.trace] at hport
    exact hport.elim

theorem Call.keeps {c : Call} (hc : c.InRange) : Steps.Keeps b.inv (c.steps b) := by
  cases c with
  | get port => exact keeps_getCall hc
  | ensure svcPorts around => exact keeps_ensure around hc
  | delete port => exact keeps_delete hc
  | gc o svcNodePorts => exact keeps_gc o svcNodePorts

/-- However the listing in the background is interleaved with the calls of the controller,
no port that was deleted is on record, and every port that was ensured is. -/
theorem relisting_sound {calls : List Call} (hcalls : ∀ c ∈ calls, c.InRange) (hw : b.Fresh w) {p : WorldM Unit}
    (h : Reaches b.relisting (b.session calls,w) (p,w')) : Sound w' := by
  have hsession : Steps.Keeps b.inv (b.session calls) :=
    Steps.Keeps.forEach fun c hc => (Call.keeps (hcalls c hc)).attempt.bind fun _ => Steps.keeps_pure ()
  exact (hsession w hw.inv p w' h).1

def webService : BackendService :=
  Stepwise.newService onePool (Namer.namedPort 30080) [] webPort (onePool.namer.backend 30080)

/-- The cloud has a backend service that is on record. -/
def oneTracked : World where
  pool :=
    { emptyPool with
      snapshotter := [portKey 30080]
      services :=
        { items := fun name => if name = onePool.namer.backend 30080 then some ⟨webService,true⟩ else none
          faults := fun _ => none
          clock := 0 } }
  relister := .idle
  trace := []

theorem oneTracked_names (name : Str) :
    name ∈ [onePool.namer.backend 30080] ↔ oneTracked.pool.services.items name ≠ none := by
  rw [List.mem_singleton]
  by_cases heq : name = onePool.namer.backend 30080
  · simp [oneTracked,heq]
  · simp [oneTracked,heq]

/-- The backend service is deleted after it has been listed and before it is inserted. -/
theorem relisting_sound_overtaken : ∃ (p : WorldM Unit) (w : World),
    Reaches onePool.relisting (onePool.session [.delete 30080],oneTracked) (p,w) ∧
    SinceDelete w.trace 30080 ∧ portKey 30080 ∉ w.pool.snapshotter := by
  have hfresh : onePool.Fresh oneTracked := by
    refine ⟨rfl,rfl,?_⟩
    intro name key hname _
    exact ⟨30080,⟨by omega,by omega⟩,List.mem_singleton.mp ((oneTracked_names name).mpr hname)⟩
  have hrun : ∃ (p : WorldM Unit) (w : World), w.trace = [.deleted 30080,.deletes 30080] ∧
      Reaches onePool.relisting (onePool.session [.delete 30080],oneTracked) (p,w) := by
    refine ⟨?process,?world,?trace,?reach⟩
    case reach =>
      refine .head (.other (.acquire rfl)) ?_
      refine .head (.other (.list rfl oneTracked_names)) ?_
      refine .head (.own nofun) ?_
      refine .head (.own nofun) ?_
      refine .head (.other (.insert rfl rfl)) ?_
      refine .head (.other (.release rfl)) ?_
      refine .head (.own nofun) ?_
      refine .head (.own fun _ => rfl) ?_
      refine .head (.own nofun) ?_
      exact .refl
    case trace => rfl
  obtain ⟨p,w,htrace,hreach⟩ := hrun
  have hdeleted : SinceDelete w.trace 30080 := by
    rw [htrace]
    exact Or.inl rfl
  have hsound : Sound w := relisting_sound (by simp [Call.InRange,IsInt64]) hfresh hreach
  exact ⟨p,w,hreach,hdeleted,hsound.deleted 30080 hdeleted⟩

end IngressGce.Backends
