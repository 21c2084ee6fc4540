import IngressGce.Backends.Pool
import IngressGce.Cloud.TwoRuns

/-! # Which health check a port gets, and in which mode

A health check is looked up under the port that its settings carry and is written under
its name. `new` makes the two agree, and the settings of a legacy health check may set
them apart. Whether an existing check has to be written is decided by what one version of
the API shows of it.
-/
namespace IngressGce
open Prog
namespace Backends

/-- The port specification of a check, which only the checks of NEGs have. -/
def wantedSpecification (enableNEG : Bool) : Str := if enableNEG then useServingPortSpecification else []

namespace HealthCheck

/-- The check is of the wanted type and in the wanted mode. -/
def InMode (hc : HealthCheck) (protocol : Str) (enableNEG : Bool) : Prop :=
  hc.type = protocol ∧ hc.portSpecification = wantedSpecification enableNEG

variable (namer : Namer) (port : ℤ) (protocol : Str) (enableNEG : Bool)

theorem new_inMode : (new namer port protocol enableNEG).InMode protocol enableNEG := by
  cases enableNEG <;> exact ⟨rfl,rfl⟩

@[simp] theorem new_forNEG : (new namer port protocol enableNEG).forNEG = enableNEG := by cases enableNEG <;> rfl

variable {protocol enableNEG}

/-- A check is seen to be in the wanted mode, but for a port specification that the older
version does not show. -/
theorem needToUpdate_view {x hc : HealthCheck} (hmode : hc.InMode protocol enableNEG) :
    (x.view enableNEG).needToUpdate hc = false ↔
      x.type = protocol ∧ (enableNEG = true → x.portSpecification = wantedSpecification enableNEG) := by
  obtain ⟨htype,hspec⟩ := hmode
  unfold needToUpdate
  rw [htype,hspec,decide_eq_false_iff_not,not_or,not_not,not_not]
  cases enableNEG with
  | false => exact and_congr_right fun _ => iff_of_true rfl nofun
  | true => exact and_congr_right fun _ => ⟨fun h _ => h,fun h => h rfl⟩

end HealthCheck

/-- Every health check has the link that the cloud makes from its name. -/
def HealthChecker.Linked (c : HealthChecker) (h : HealthChecks) : Prop :=
  ∀ name x, h.checks.items name = some x → x.object.selfLink = c.links name

/-- The states agree on one health check and on the legacy ones. -/
def HealthChecks.AgreeAt (name : Str) (h h' : HealthChecks) : Prop :=
  h.checks.AgreeAt name h'.checks ∧ h.legacy = h'.legacy

/-- All health checks but one are as before. -/
def HealthChecks.SameBut (name : Str) (h h' : HealthChecks) : Prop :=
  (∀ k, k ≠ name → h'.checks.items k = h.checks.items k) ∧ h'.legacy.items = h.legacy.items

instance (name : Str) : IsPreorder HealthChecks (HealthChecks.SameBut name) where
  refl _ := ⟨fun _ _ => rfl,rfl⟩
  trans _ _ _ h h' := ⟨fun k hk => (h'.1 k hk).trans (h.1 k hk),h'.2.trans h.2⟩

namespace HealthChecker
variable {c : HealthChecker} {h h' : HealthChecks} {hc : HealthCheck}

@[simp] theorem withPath_port (hc : HealthCheck) : (c.withPath hc).port = hc.port := by
  unfold withPath
  split <;> rfl
@[simp] theorem withPath_type (hc : HealthCheck) : (c.withPath hc).type = hc.type := by
  unfold withPath
  split <;> rfl
@[simp] theorem withPath_portSpecification (hc : HealthCheck) :
    (c.withPath hc).portSpecification = hc.portSpecification := by
  unfold withPath
  split <;> rfl
@[simp] theorem withPath_forNEG (hc : HealthCheck) : (c.withPath hc).forNEG = hc.forNEG := by
  unfold withPath
  split <;> rfl

/-! ## What a call does to the health checks -/

@[simp] theorem written_name (oldHC newHC : HealthCheck) :
    ((if newHC.forNEG then HealthCheck.mergeHealthcheckForNEG oldHC newHC else newHC).toCompute).name = newHC.name := by
  unfold HealthCheck.toCompute HealthCheck.toAlphaComputeHealthCheck
  repeat' split
  all_goals rfl

/-- What `create` makes. -/
def made (c : HealthChecker) (hc : HealthCheck) : HealthCheck := { hc.toCompute with selfLink := c.links hc.name }

/-- What `replace` writes. -/
def written (c : HealthChecker) (oldHC newHC : HealthCheck) : HealthCheck :=
  { (if newHC.forNEG then HealthCheck.mergeHealthcheckForNEG oldHC newHC else newHC).toCompute with
    name := newHC.name
    selfLink := c.links newHC.name }

theorem replace_eq (oldHC newHC : HealthCheck) :
    c.replace oldHC newHC = onChecks (Store.replaceObject newHC.name (c.written oldHC newHC)) := by
  unfold replace
  dsimp only
  rw [written_name]
  rfl

theorem get_served (port : ℤ) (alpha : Bool) : Ensures (c.get port alpha) h (fun r h' => h'.legacy = h.legacy ∧
    Store.ServedItem (c.namer.backend port) (fun x => (x.object.view alpha,some x)) h.checks r h'.checks) := by
  rw [get,onChecks,ensures_onPart]
  exact (Store.onItem_served _).mono fun _ _ hserved => ⟨rfl,hserved⟩

theorem replace_served (oldHC newHC : HealthCheck) : Ensures (c.replace oldHC newHC) h (fun r h' => h'.legacy = h.legacy ∧
    Store.ServedItem newHC.name (fun x => ((),some { x with object := c.written oldHC newHC })) h.checks r h'.checks) := by
  rw [replace_eq,onChecks,ensures_onPart]
  exact (Store.onItem_served _).mono fun _ _ hserved => ⟨rfl,hserved⟩

/-- The state afterwards is that before, or has the new check as well. -/
theorem create_served (hc : HealthCheck) : Ensures (c.create hc) h (fun _ h' => h'.legacy = h.legacy ∧
    (h'.checks.items = h.checks.items ∨ h'.checks.items = Function.update h.checks.items hc.name
      (some ⟨c.made hc,true⟩))) := by
  rw [create,onChecks,ensures_onPart]
  refine (Store.insert_served _).mono ?_
  rintro _ checks ⟨_,_,hitems,_⟩
  exact ⟨rfl,hitems.imp_right And.right⟩

/-! ## What is read and what is written -/

theorem get_alike {name : Str} (hagree : HealthChecks.AgreeAt name h h') {port : ℤ} (hport : c.namer.backend port = name)
    (alpha : Bool) : Alike (HealthChecks.AgreeAt name) (c.get port alpha) h h' := by
  subst hport
  exact Alike.onPart (Store.call_alike hagree.1 _) fun _ _ hchecks => ⟨hchecks,hagree.2⟩

theorem create_alike {name : Str} (hagree : HealthChecks.AgreeAt name h h') (hname : hc.name = name) :
    Alike (HealthChecks.AgreeAt name) (c.create hc) h h' := by
  subst hname
  exact Alike.onPart (Store.call_alike hagree.1 _) fun _ _ hchecks => ⟨hchecks,hagree.2⟩

theorem replace_alike {name : Str} (hagree : HealthChecks.AgreeAt name h h') (oldHC : HealthCheck) (hname : hc.name = name) :
    Alike (HealthChecks.AgreeAt name) (c.replace oldHC hc) h h' := by
  subst hname
  rw [replace_eq]
  exact Alike.onPart (Store.call_alike hagree.1 _) fun _ _ hchecks => ⟨hchecks,hagree.2⟩

/-- A check that is looked up under its own name is synced without a look at any other. -/
theorem sync_alike (hagree : HealthChecks.AgreeAt hc.name h h') (hport : c.namer.backend hc.port = hc.name) :
    Alike (HealthChecks.AgreeAt hc.name) (c.sync hc) h h' := by
  have hport' : c.namer.backend (c.withPath hc).port = hc.name := by rw [withPath_port,hport]
  have hname : (c.withPath hc).name = hc.name := withPath_name c hc
  refine (get_alike hagree hport' _).attempt.bind ?_
  intro found h h' _ hagree
  cases found with
  | error e =>
    rw [syncFound]
    split
    · refine (create_alike hagree hname).bind fun _ _ _ _ hagree => ?_
      exact (get_alike hagree hport' _).bind fun _ _ _ _ hagree => alike_pure _ hagree
    · exact alike_fail e hagree
  | ok existingHC =>
    exact ((replace_alike hagree existingHC hname).onlyIf _ hagree).bind fun _ _ _ _ hagree => alike_pure _ hagree

theorem sameBut_of_update {name : Str} {x : Option (Owned HealthCheck)} (hlegacy : h'.legacy = h.legacy)
    (hitems : h'.checks.items = h.checks.items ∨ h'.checks.items = Function.update h.checks.items name x) :
    HealthChecks.SameBut name h h' := by
  refine ⟨fun k hk => ?_,by rw [hlegacy]⟩
  rcases hitems with hitems | hitems
  · rw [hitems]
  · rw [hitems,Function.update_of_ne hk]

theorem sameBut_get (name : Str) (port : ℤ) (alpha : Bool) : Respects (HealthChecks.SameBut name) (c.get port alpha) := by
  intro h
  refine (get_served port alpha).mono ?_
  rintro r h' ⟨hlegacy,hserved⟩
  exact sameBut_of_update (x := none) hlegacy (Or.inl hserved.unchanged)

theorem sameBut_create {name : Str} (hname : hc.name = name) : Respects (HealthChecks.SameBut name) (c.create hc) := by
  subst hname
  intro h
  refine (create_served hc).mono ?_
  rintro r h' ⟨hlegacy,hitems⟩
  exact sameBut_of_update hlegacy hitems

theorem sameBut_replace {name : Str} (oldHC : HealthCheck) (hname : hc.name = name) :
    Respects (HealthChecks.SameBut name) (c.replace oldHC hc) := by
  subst hname
  intro h
  refine (replace_served oldHC hc).mono ?_
  rintro r h' ⟨hlegacy,hserved⟩
  rcases hserved.items with hitems | ⟨_,_,hitems⟩
  · exact sameBut_of_update (x := none) hlegacy (Or.inl hitems)
  · exact sameBut_of_update hlegacy (Or.inr hitems)

theorem sameBut_sync (hc : HealthCheck) : Respects (HealthChecks.SameBut hc.name) (c.sync hc) :=
  c.respects_sync_of hc (sameBut_get hc.name) (fun _ hname => sameBut_create hname)
    (fun oldHC _ hname => sameBut_replace oldHC hname)

/-! ## Links -/

theorem Linked.of_items (hlinked : c.Linked h) (hitems : h'.checks.items = h.checks.items) : c.Linked h' := by
  intro name x hx
  rw [hitems] at hx
  exact hlinked name x hx

theorem Linked.update (hlinked : c.Linked h) {name : Str} {x : Owned HealthCheck} (hx : x.object.selfLink = c.links name)
    (hitems : h'.checks.items = Function.update h.checks.items name (some x)) : c.Linked h' := by
  intro name' x' hx'
  rw [hitems] at hx'
  by_cases hname : name' = name
  · subst hname
    rw [Function.update_self] at hx'
    cases hx'
    exact hx
  · rw [Function.update_of_ne hname] at hx'
    exact hlinked name' x' hx'

theorem get_linked (hlinked : c.Linked h) (port : ℤ) (alpha : Bool) : Ensures (c.get port alpha) h (fun r h' =>
    c.Linked h' ∧ ∀ found, r = .ok found → found.selfLink = c.links (c.namer.backend port)) := by
  refine (get_served port alpha).mono ?_
  rintro r h' ⟨_,hserved⟩
  refine ⟨hlinked.of_items hserved.unchanged,?_⟩
  rintro found rfl
  obtain ⟨x,hx,rfl,_⟩ := hserved.answer found rfl
  have hlink := hlinked _ x hx
  unfold HealthCheck.view
  split
  · exact hlink
  · exact hlink

theorem create_linked (hlinked : c.Linked h) (hc : HealthCheck) : Ensures (c.create hc) h (fun _ h' => c.Linked h') := by
  refine (create_served hc).mono ?_
  rintro _ h' ⟨_,hitems⟩
  rcases hitems with hitems | hitems
  · exact hlinked.of_items hitems
  · exact hlinked.update rfl hitems

theorem replace_linked (hlinked : c.Linked h) (oldHC newHC : HealthCheck) :
    Ensures (c.replace oldHC newHC) h (fun _ h' => c.Linked h') := by
  refine (replace_served oldHC newHC).mono ?_
  rintro _ h' ⟨_,hserved⟩
  rcases hserved.items with hitems | ⟨_,_,hitems⟩
  · exact hlinked.of_items hitems
  · exact hlinked.update rfl hitems

/-- The link that is returned is that of the check which is looked up. -/
theorem sync_linked (hlinked : c.Linked h) (hc : HealthCheck) : Ensures (c.sync hc) h (fun r h' =>
    c.Linked h' ∧ ∀ link, r = .ok link → link = c.links (c.namer.backend hc.port)) := by
  unfold sync
  dsimp only
  rw [ensures_bind,ensures_attempt,withPath_port]
  refine (get_linked hlinked _ _).mono ?_
  rintro found h₁ ⟨hlinked,hfound⟩
  rw [afterwards_ok]
  cases found with
  | error e =>
    rw [syncFound,ensures_ite]
    refine ⟨fun _ => ?_,fun _ => ⟨hlinked,nofun⟩⟩
    rw [ensures_bind]
    refine (create_linked hlinked _).mono ?_
    intro r h₂ hlinked
    cases r with
    | error e => exact ⟨hlinked,nofun⟩
    | ok _ =>
      rw [afterwards_ok,getHealthCheckLink,ensures_bind,withPath_port]
      refine (get_linked hlinked _ _).mono ?_
      rintro r h₃ ⟨hlinked,hread⟩
      cases r with
      | error e => exact ⟨hlinked,nofun⟩
      | ok hc' =>
        refine ⟨hlinked,?_⟩
        rintro link ⟨⟩
        exact hread hc' rfl
  | ok existingHC =>
    rw [syncFound,ensures_bind,ensures_onlyIf]
    have hlink := hfound existingHC rfl
    refine ⟨fun _ => ?_,fun _ => ⟨hlinked,?_⟩⟩
    · refine (replace_linked hlinked _ _).mono ?_
      intro r h₂ hlinked
      cases r with
      | error e => exact ⟨hlinked,nofun⟩
      | ok _ =>
        refine ⟨hlinked,?_⟩
        rintro link ⟨⟩
        exact hlink
    · rintro link ⟨⟩
      exact hlink

/-! ## Runs without failures -/

theorem get_returns (hreliable : h.checks.Reliable) {port : ℤ} {x : Owned HealthCheck}
    (hx : h.checks.items (c.namer.backend port) = some x) (alpha : Bool) : Returns (c.get port alpha) h (fun found h' =>
      found = x.object.view alpha ∧ h'.legacy = h.legacy ∧ h'.checks.faults = h.checks.faults ∧
      h'.checks.items = h.checks.items) := by
  obtain ⟨found,hrun,hfaults,hfound,hitems⟩ := Store.onItem_reads (f := fun x : Owned HealthCheck => x.object.view alpha)
    hreliable hx
  exact ⟨found,hrun,hfound,rfl,hfaults,hitems⟩

theorem get_absent (hreliable : h.checks.Reliable) {port : ℤ} (hx : h.checks.items (c.namer.backend port) = none)
    (alpha : Bool) : Ensures (c.get port alpha) h (fun r h' => r = .error (.api statusNotFound) ∧ h'.legacy = h.legacy ∧
      h'.checks.faults = h.checks.faults ∧ h'.checks.items = h.checks.items) := by
  obtain ⟨hr,hfaults,hitems⟩ := Store.onItem_absent (f := fun x : Owned HealthCheck => (x.object.view alpha,some x))
    hreliable hx
  exact ⟨hr,rfl,hfaults,hitems⟩

theorem create_returns (hreliable : h.checks.Reliable) (hx : h.checks.items hc.name = none) :
    Returns (c.create hc) h (fun _ h' => h'.legacy = h.legacy ∧ h'.checks.faults = h.checks.faults ∧
      h'.checks.items = Function.update h.checks.items hc.name (some ⟨c.made hc,true⟩)) := by
  obtain ⟨_,hrun,hfaults,hitems⟩ := Store.insert_returns hreliable hx
  exact ⟨(),hrun,rfl,hfaults,hitems⟩

theorem replace_returns (hreliable : h.checks.Reliable) {x : Owned HealthCheck} (hx : h.checks.items hc.name = some x)
    (oldHC : HealthCheck) : Returns (c.replace oldHC hc) h (fun _ h' => h'.legacy = h.legacy ∧
      h'.checks.faults = h.checks.faults ∧
      h'.checks.items = Function.update h.checks.items hc.name (some { x with object := c.written oldHC hc })) := by
  rw [replace_eq]
  obtain ⟨_,hrun,hfaults,_,hitems⟩ := Store.onItem_returns
    (f := fun x : Owned HealthCheck => ((),some { x with object := c.written oldHC hc })) hreliable hx
  exact ⟨(),hrun,rfl,hfaults,hitems⟩

/-- A check that is looked up under its own name is there afterwards. -/
theorem sync_returns (hreliable : h.checks.Reliable) (hport : c.namer.backend hc.port = hc.name) :
    Returns (c.sync hc) h (fun _ h' => h'.legacy = h.legacy ∧ h'.checks.faults = h.checks.faults ∧
      ∃ x, h'.checks.items hc.name = some x) := by
  have hport' : c.namer.backend (c.withPath hc).port = hc.name := by rw [withPath_port,hport]
  have hname : (c.withPath hc).name = hc.name := withPath_name c hc
  unfold sync
  dsimp only
  rw [returns_bind,returns_attempt]
  cases hx : h.checks.items hc.name with
  | none =>
    rw [← hport'] at hx
    refine (get_absent hreliable hx _).mono ?_
    rintro _ h₁ ⟨rfl,hlegacy₁,hfaults₁,hitems₁⟩
    rw [syncFound,if_pos (isHTTPErrorCode_api _),returns_bind]
    have hreliable₁ := hreliable.of_faults hfaults₁
    have hx₁ : h₁.checks.items (c.withPath hc).name = none := by rw [hitems₁,hname,← hport',hx]
    refine (create_returns hreliable₁ hx₁).mono ?_
    rintro _ h₂ ⟨hlegacy₂,hfaults₂,hitems₂⟩
    rw [getHealthCheckLink,returns_bind]
    have hx₂ : h₂.checks.items (c.namer.backend (c.withPath hc).port) = some ⟨c.made (c.withPath hc),true⟩ := by
      rw [hitems₂,hport',hname,Function.update_self]
    refine (get_returns (hreliable₁.of_faults hfaults₂) hx₂ _).mono ?_
    rintro _ h₃ ⟨_,hlegacy₃,hfaults₃,hitems₃⟩
    rw [returns_pure]
    rw [hport'] at hx₂
    exact ⟨hlegacy₃.trans (hlegacy₂.trans hlegacy₁),hfaults₃.trans (hfaults₂.trans hfaults₁),_,by rw [hitems₃,hx₂]⟩
  | some x =>
    rw [← hport'] at hx
    refine Ensures.mono (get_returns hreliable hx _) ?_
    rintro _ h₁ ⟨_,rfl,rfl,hlegacy₁,hfaults₁,hitems₁⟩
    rw [syncFound,returns_bind]
    have hx₁ := hx
    rw [← hitems₁,hport',← hname] at hx₁
    unfold onlyIf
    rw [returns_ite]
    constructor
    · intro _
      refine (replace_returns (hreliable.of_faults hfaults₁) hx₁ _).mono ?_
      rintro _ h₂ ⟨hlegacy₂,hfaults₂,hitems₂⟩
      rw [returns_pure]
      rw [hname] at hitems₂
      exact ⟨hlegacy₂.trans hlegacy₁,hfaults₂.trans hfaults₁,_,(congrFun hitems₂ _).trans (Function.update_self ..)⟩
    · intro _
      rw [returns_pure,returns_pure]
      rw [hname] at hx₁
      exact ⟨hlegacy₁,hfaults₁,x,hx₁⟩

/-- A new check that is looked up under another name is made and not found. -/
theorem sync_strays (hreliable : h.checks.Reliable) (hport : c.namer.backend hc.port ≠ hc.name)
    (habsent : ∀ name, h.checks.items name = none) :
    Ensures (c.sync hc) h (fun r _ => r = .error (.api statusNotFound)) := by
  unfold sync
  dsimp only
  rw [ensures_bind,ensures_attempt]
  refine (get_absent hreliable (habsent _) _).mono ?_
  rintro _ h₁ ⟨rfl,_,hfaults₁,hitems₁⟩
  rw [afterwards_ok,syncFound,if_pos (isHTTPErrorCode_api _),ensures_bind]
  have hreliable₁ := hreliable.of_faults hfaults₁
  have habsent₁ : h₁.checks.items (c.withPath hc).name = none := by rw [hitems₁,habsent]
  obtain ⟨_,hrun,_,hfaults₂,hitems₂⟩ := create_returns (c := c) hreliable₁ habsent₁
  unfold Ensures
  rw [hrun,afterwards_ok,getHealthCheckLink,ensures_bind]
  have habsent₂ : (c.create (c.withPath hc) h₁).2.checks.items (c.namer.backend (c.withPath hc).port) = none := by
    rw [hitems₂,withPath_port,withPath_name,Function.update_of_ne hport,hitems₁,habsent]
  refine (get_absent (hreliable₁.of_faults hfaults₂) habsent₂ _).mono ?_
  rintro _ h₃ ⟨rfl,_,_,_⟩
  rfl

end HealthChecker
end Backends

/-! ## The health check of a port -/

namespace Backends
variable {b : Backends} {prober : Option (ServicePort → Except GoError (Option Probe))} {sp : ServicePort} {w : Pool}

/-- No probe fails to be looked up. -/
def ProbesServed (prober : Option (ServicePort → Except GoError (Option Probe))) : Prop :=
  ∀ getProbe, prober = some getProbe → ∀ sp, ∃ probe, getProbe sp = .ok probe

/-- The settings are for the health check of the port, and carry the given port. -/
structure SettingsFor (b : Backends) (sp : ServicePort) (port : ℤ) (hc : HealthCheck) : Prop where
  name : hc.name = b.namer.backend sp.port
  port : hc.port = port
  mode : hc.InMode sp.protocol sp.negEnabled
  forNEG : hc.forNEG = sp.negEnabled

theorem settingsFor_new (b : Backends) (sp : ServicePort) :
    SettingsFor b sp sp.port (HealthCheck.new b.namer sp.port sp.protocol sp.negEnabled) :=
  ⟨rfl,rfl,HealthCheck.new_inMode ..,HealthCheck.new_forNEG ..⟩

theorem SettingsFor.applyLegacyHC {port : ℤ} {hc : HealthCheck} (h : SettingsFor b sp port hc) (l : HttpHealthCheck) :
    SettingsFor b sp l.port (hc.applyLegacyHC l) :=
  ⟨h.name,rfl,h.mode,h.forNEG⟩

theorem SettingsFor.probeSettings {port : ℤ} {hc hc' : HealthCheck} (h : SettingsFor b sp port hc)
    (hok : probeSettings prober sp hc = .ok hc') : SettingsFor b sp port hc' := by
  rcases probeSettings_cases hok with rfl | ⟨probe,rfl⟩
  · exact h
  · exact ⟨h.name,h.port,h.mode,h.forNEG⟩

theorem probeSettings_served (h : ProbesServed prober) (sp : ServicePort) (hc : HealthCheck) :
    ∃ hc', probeSettings prober sp hc = .ok hc' := by
  unfold probeSettings
  split
  · exact ⟨hc,rfl⟩
  · rename_i getProbe
    obtain ⟨probe,hprobe⟩ := h getProbe rfl sp
    rw [hprobe]
    cases probe with
    | none => exact ⟨hc,rfl⟩
    | some probe => exact ⟨hc.applyProbeSettings probe,rfl⟩

/-- The port that the settings carry: that of the legacy health check, if there is one. -/
def checkedPort (sp : ServicePort) (legacy : Option HttpHealthCheck) : ℤ := (legacy.map HttpHealthCheck.port).getD sp.port

/-- A port is given up, or its own health check is synced, with the settings found. -/
theorem syncHealthCheck_cases (b : Backends) (prober : Option (ServicePort → Except GoError (Option Probe)))
    (sp : ServicePort) (found : Except GoError HttpHealthCheck) :
    (∃ e, b.syncHealthCheck prober sp (HealthCheck.new b.namer sp.port sp.protocol sp.negEnabled) found = fail e ∧
      ((∃ e', found = .error e' ∧ isHTTPErrorCode e' statusNotFound = false) ∨ ¬ProbesServed prober)) ∨
    ∃ hc, SettingsFor b sp (checkedPort sp found.toOption) hc ∧
      (∀ e, found = .error e → isHTTPErrorCode e statusNotFound = true) ∧
      b.syncHealthCheck prober sp (HealthCheck.new b.namer sp.port sp.protocol sp.negEnabled) found =
        onHealth (b.healthChecker.sync hc) := by
  cases found with
  | ok l => exact Or.inr ⟨_,(settingsFor_new b sp).applyLegacyHC l,nofun,rfl⟩
  | error e =>
    rw [syncHealthCheck]
    by_cases hkind : isHTTPErrorCode e statusNotFound = true
    · rw [if_pos hkind]
      cases hsettings : probeSettings prober sp (HealthCheck.new b.namer sp.port sp.protocol sp.negEnabled) with
      | error e =>
        refine Or.inl ⟨e,rfl,Or.inr ?_⟩
        intro hserved
        obtain ⟨hc,hok⟩ := probeSettings_served hserved sp (HealthCheck.new b.namer sp.port sp.protocol sp.negEnabled)
        rw [hsettings] at hok
        cases hok
      | ok hc =>
        refine Or.inr ⟨hc,(settingsFor_new b sp).probeSettings hsettings,?_,rfl⟩
        rintro e' ⟨⟩
        exact hkind
    · rw [if_neg hkind]
      exact Or.inl ⟨e,rfl,Or.inl ⟨e,rfl,Bool.eq_false_iff.mpr hkind⟩⟩

/-- Without failures a port is not given up. -/
theorem syncHealthCheck_served (b : Backends) (hprobes : ProbesServed prober) {found : Except GoError HttpHealthCheck}
    (hfound : ∀ e, found = .error e → isHTTPErrorCode e statusNotFound = true) :
    ∃ hc, SettingsFor b sp (checkedPort sp found.toOption) hc ∧
      b.syncHealthCheck prober sp (HealthCheck.new b.namer sp.port sp.protocol sp.negEnabled) found =
        onHealth (b.healthChecker.sync hc) := by
  rcases syncHealthCheck_cases b prober sp found with ⟨_,_,hcause⟩ | ⟨hc,hsettings,_,heq⟩
  · rcases hcause with ⟨e,he,hkind⟩ | hprobes'
    · rw [hfound e he] at hkind
      cases hkind
    · exact absurd hprobes hprobes'
  · exact ⟨hc,hsettings,heq⟩

/-- What is known once the legacy health check has been looked for. -/
structure LegacyRead (b : Backends) (sp : ServicePort) (w : Pool) (found : Except GoError HttpHealthCheck) (w' : Pool) :
    Prop where
  services : w'.services = w.services
  snapshotter : w'.snapshotter = w.snapshotter
  checks : w'.health.checks = w.health.checks
  faults : w'.health.legacy.faults = w.health.legacy.faults
  items : w'.health.legacy.items = w.health.legacy.items
  read : (∀ e, found = .error e → isHTTPErrorCode e statusNotFound = true) →
    found.toOption = w.health.legacy.items (b.namer.backend sp.port)
  reliable : w.health.legacy.Reliable → ∀ e, found = .error e → isHTTPErrorCode e statusNotFound = true

theorem getLegacy_ensures (b : Backends) (sp : ServicePort) (w : Pool) :
    Ensures (onHealth (b.healthChecker.getLegacy sp.port)) w (LegacyRead b sp w) := by
  rw [onHealth,ensures_onPart,HealthChecker.getLegacy,HealthChecker.onLegacy,ensures_onPart]
  refine ((Store.onItem_served _).and (ensures_run _ _)).mono ?_
  rintro found legacy ⟨hserved,hrun⟩
  refine ⟨rfl,rfl,rfl,hserved.faults,hserved.unchanged,?_,?_⟩
  · intro hkind
    cases found with
    | ok l =>
      obtain ⟨l',hl',rfl,_⟩ := hserved.answer l rfl
      exact hl'.symm
    | error e =>
      have hnone := hserved.notFound (by rw [eq_of_isHTTPErrorCode (hkind e rfl)])
      exact hnone.symm
  · rintro hreliable e rfl
    cases hitem : w.health.legacy.items (b.namer.backend sp.port) with
    | none =>
      have habsent := Store.onItem_absent (f := fun l : HttpHealthCheck => (l,some l)) hreliable hitem
      unfold Ensures at habsent
      rw [show Store.onItem (b.namer.backend sp.port) (fun l : HttpHealthCheck => (l,some l)) w.health.legacy = _ from hrun]
        at habsent
      rw [Except.error.inj habsent.1]
      exact isHTTPErrorCode_api _
    | some l =>
      have hok := hserved.reliable hreliable l hitem
      cases hok

/-- The pools agree on one health check and on the legacy ones. -/
def Pool.AgreeAt (name : Str) (w w' : Pool) : Prop := HealthChecks.AgreeAt name w.health w'.health

/-- All health checks but one are as before. -/
def Pool.SameBut (name : Str) (w w' : Pool) : Prop := HealthChecks.SameBut name w.health w'.health

instance (name : Str) : IsPreorder Pool (Pool.SameBut name) where
  refl w := refl_of (HealthChecks.SameBut name) w.health
  trans _ _ _ h h' := trans_of (HealthChecks.SameBut name) h h'

theorem ensureHealthCheck_alike {w' : Pool} (hagree : Pool.AgreeAt (b.namer.backend sp.port) w w')
    (hlegacy : b.namer.backend (checkedPort sp (w.health.legacy.items (b.namer.backend sp.port))) = b.namer.backend sp.port) :
    Alike (Pool.AgreeAt (b.namer.backend sp.port)) (b.ensureHealthCheck prober sp) w w' := by
  have hread : Alike (Pool.AgreeAt (b.namer.backend sp.port)) (onHealth (b.healthChecker.getLegacy sp.port)) w w' := by
    obtain ⟨hchecks,hsame⟩ := hagree
    refine Alike.onPart (S := HealthChecks.AgreeAt _) ?_ fun _ _ h => h
    unfold Alike HealthChecker.getLegacy HealthChecker.onLegacy onPart
    rw [hsame]
    exact ⟨rfl,hchecks,rfl⟩
  refine hread.attempt.bind ?_
  intro found t t' hfound hagree
  obtain rfl : (onHealth (b.healthChecker.getLegacy sp.port) w).1 = found := Except.ok.inj hfound
  rcases syncHealthCheck_cases b prober sp (onHealth (b.healthChecker.getLegacy sp.port) w).1 with
    ⟨e,heq,_⟩ | ⟨hc,hsettings,hkind,heq⟩
  · rw [heq]
    exact alike_fail e hagree
  · rw [heq]
    rw [← (getLegacy_ensures b sp w).read hkind,← hsettings.port,← hsettings.name] at hlegacy
    rw [← hsettings.name] at hagree ⊢
    exact Alike.onPart (HealthChecker.sync_alike hagree hlegacy) fun _ _ h => h

theorem ensureHealthCheck_sameBut :
    Respects (Pool.SameBut (b.namer.backend sp.port)) (b.ensureHealthCheck prober sp) := by
  refine b.respects_ensureHealthCheck_of prober sp ?_ ?_
  · intro w
    refine (getLegacy_ensures b sp w).mono ?_
    intro _ w' hread
    exact ⟨fun _ _ => by rw [hread.checks],hread.items⟩
  · intro hc hname
    rw [← hname]
    exact Respects.onPart (HealthChecker.sameBut_sync hc) fun _ _ h => h

/-- The link returned is that of the check which is looked up. -/
theorem ensureHealthCheck_linked (hlinked : b.healthChecker.Linked w.health) :
    Ensures (b.ensureHealthCheck prober sp) w (fun r w' => b.healthChecker.Linked w'.health ∧
      ∀ link, r = .ok link → link = b.healthChecker.links
        (b.namer.backend (checkedPort sp (w.health.legacy.items (b.namer.backend sp.port))))) := by
  unfold ensureHealthCheck
  rw [ensures_bind,ensures_attempt]
  refine (getLegacy_ensures b sp w).mono ?_
  intro found w₁ hread
  rw [afterwards_ok]
  have hlinked₁ : b.healthChecker.Linked w₁.health := hlinked.of_items (by rw [hread.checks])
  rcases syncHealthCheck_cases b prober sp found with ⟨e,heq,_⟩ | ⟨hc,hsettings,hkind,heq⟩
  · rw [heq]
    exact ⟨hlinked₁,nofun⟩
  · rw [heq,← hread.read hkind,← hsettings.port,onHealth,ensures_onPart]
    exact HealthChecker.sync_linked hlinked₁ hc

/-- Without failures the check is there afterwards, if its settings carry its own port. -/
theorem ensureHealthCheck_returns (hprobes : ProbesServed prober) (hchecks : w.health.checks.Reliable)
    (hreliable : w.health.legacy.Reliable)
    (hlegacy : b.namer.backend (checkedPort sp (w.health.legacy.items (b.namer.backend sp.port))) = b.namer.backend sp.port) :
    Returns (b.ensureHealthCheck prober sp) w (fun _ w' => w'.health.checks.Reliable ∧ w'.health.legacy.Reliable ∧
      w'.health.legacy.items = w.health.legacy.items ∧ ∃ x, w'.health.checks.items (b.namer.backend sp.port) = some x) := by
  unfold ensureHealthCheck
  rw [returns_bind,returns_attempt]
  refine (getLegacy_ensures b sp w).mono ?_
  intro found w₁ hread
  obtain ⟨hc,hsettings,heq⟩ := syncHealthCheck_served b hprobes (hread.reliable hreliable)
  rw [← hread.read (hread.reliable hreliable),← hsettings.port,← hsettings.name] at hlegacy
  have hchecks₁ : w₁.health.checks.Reliable := by rwa [hread.checks]
  rw [heq,← hsettings.name]
  obtain ⟨link,hrun,hlegacy₂,hfaults₂,hx⟩ := HealthChecker.sync_returns (c := b.healthChecker) hchecks₁ hlegacy
  refine ⟨link,hrun,hchecks₁.of_faults hfaults₂,?_,?_,hx⟩
  · change (b.healthChecker.sync hc w₁.health).2.legacy.Reliable
    rw [hlegacy₂]
    exact hreliable.of_faults hread.faults
  · change (b.healthChecker.sync hc w₁.health).2.legacy.items = w.health.legacy.items
    rw [hlegacy₂,hread.items]

/-- Otherwise a new check is made and not found. -/
theorem ensureHealthCheck_strays (hprobes : ProbesServed prober) (hchecks : w.health.checks.Reliable)
    (hreliable : w.health.legacy.Reliable) (habsent : ∀ name, w.health.checks.items name = none)
    (hlegacy : b.namer.backend (checkedPort sp (w.health.legacy.items (b.namer.backend sp.port))) ≠ b.namer.backend sp.port) :
    Ensures (b.ensureHealthCheck prober sp) w (fun r _ => r = .error (.api statusNotFound)) := by
  unfold ensureHealthCheck
  rw [ensures_bind,ensures_attempt]
  refine (getLegacy_ensures b sp w).mono ?_
  intro found w₁ hread
  rw [afterwards_ok]
  obtain ⟨hc,hsettings,heq⟩ := syncHealthCheck_served b hprobes (hread.reliable hreliable)
  rw [← hread.read (hread.reliable hreliable),← hsettings.port,← hsettings.name] at hlegacy
  rw [heq,onHealth,ensures_onPart]
  rw [← hread.checks] at hchecks habsent
  exact HealthChecker.sync_strays hchecks hlegacy habsent

/-- The port's own health check is the only one that is looked at or changed, its link is
returned, and it can be ensured once more. -/
structure OwnCheck (b : Backends) (prober : Option (ServicePort → Except GoError (Option Probe))) (sp : ServicePort)
    (w : Pool) : Prop where
  reads : ∀ w', Pool.AgreeAt (b.namer.backend sp.port) w w' →
    Alike (Pool.AgreeAt (b.namer.backend sp.port)) (b.ensureHealthCheck prober sp) w w'
  writes : Pool.SameBut (b.namer.backend sp.port) w (b.ensureHealthCheck prober sp w).2
  returns : ProbesServed prober → w.health.checks.Reliable → w.health.legacy.Reliable →
    Returns (b.ensureHealthCheck prober sp) w (fun link w' => link = b.healthChecker.links (b.namer.backend sp.port) ∧
      ∃ x, w'.health.checks.items (b.namer.backend sp.port) = some x ∧ x.object.selfLink = link)
  again : ProbesServed prober → w.health.checks.Reliable → w.health.legacy.Reliable →
    Returns (b.ensureHealthCheck prober sp) w (fun _ w' => ∃ link, (b.ensureHealthCheck prober sp w').1 = .ok link)

/-- A port keeps to its own health check exactly if a legacy check, if there is one, has a
port with the same name. -/
theorem ownCheck_iff (b : Backends) (sp : ServicePort) (legacy : Option HttpHealthCheck) :
    (∀ prober w, w.health.legacy.items (b.namer.backend sp.port) = legacy → b.healthChecker.Linked w.health →
      OwnCheck b prober sp w) ↔ b.namer.backend (checkedPort sp legacy) = b.namer.backend sp.port := by
  constructor
  · intro h
    by_contra hne
    -- a cloud without health checks, but for the legacy one
    let w : Pool := ⟨[],⟨fun _ => none,fun _ => none,0⟩,⟨fun _ => none,fun _ => none,0⟩,⟨fun _ => legacy,fun _ => none,0⟩⟩
    have hprobes : ProbesServed none := nofun
    obtain ⟨link,hlink,_⟩ := (h none w rfl nofun).returns hprobes (fun _ => rfl) (fun _ => rfl)
    have herror : (b.ensureHealthCheck none sp w).1 = .error (.api statusNotFound) :=
      ensureHealthCheck_strays hprobes (fun _ => rfl) (fun _ => rfl) (fun _ => rfl) hne
    rw [hlink] at herror
    cases herror
  · rintro hport prober w rfl hlinked
    refine ⟨fun w' hagree => ensureHealthCheck_alike hagree hport,ensureHealthCheck_sameBut w,?_,?_⟩
    · intro hprobes hchecks hreliable
      obtain ⟨link,hrun,_,_,_,x,hx⟩ := ensureHealthCheck_returns hprobes hchecks hreliable hport
      have hensures : Ensures (b.ensureHealthCheck prober sp) w _ := ensureHealthCheck_linked hlinked
      obtain ⟨hlinked',hlink⟩ := hensures
      have hlink := hlink link hrun
      rw [hport] at hlink
      exact ⟨link,hrun,hlink,x,hx,(hlinked' _ x hx).trans hlink.symm⟩
    · intro hprobes hchecks hreliable
      obtain ⟨link,hrun,hchecks',hreliable',hlegacy',_⟩ := ensureHealthCheck_returns hprobes hchecks hreliable hport
      rw [← hlegacy'] at hport
      obtain ⟨link',hrun',_⟩ := ensureHealthCheck_returns hprobes hchecks' hreliable' hport
      exact ⟨link,hrun,link',hrun'⟩

/-- A pool without a cluster name. -/
def unnamedCluster : Backends where
  healthChecker := ⟨⟨[],by decide⟩,"/".toList,fun name => "projects/p/global/healthChecks/".toList ++ name⟩
  links name := "projects/p/global/backendServices/".toList ++ name
  ignorePorts := []

def webOn30080 : ServicePort := ⟨30080,Kube.protocolHTTP,"default".toList,"web".toList,.int 80,"8080".toList,false⟩

/-- The legacy check of the port 30080 checks the port 80. -/
def legacyOnPort80 : Pool where
  snapshotter := []
  services := ⟨fun _ => none,fun _ => none,0⟩
  health := ⟨⟨fun _ => none,fun _ => none,0⟩,
    ⟨fun _ => some ⟨"".toList,60,60,1,10,"".toList,80,"/healthz".toList⟩,fun _ => none,0⟩⟩

/-- The check of the port 30080 is made, that of the port 80 is not found; from then on the
first one is in the way. -/
theorem legacyOnPort80_fails : ¬OwnCheck unnamedCluster none webOn30080 legacyOnPort80 ∧
    (unnamedCluster.ensureHealthCheck none webOn30080 legacyOnPort80).1 = .error (.api statusNotFound) ∧
    (unnamedCluster.ensureHealthCheck none webOn30080
      (unnamedCluster.ensureHealthCheck none webOn30080 legacyOnPort80).2).1 = .error (.api statusConflict) := by
  have herror : (unnamedCluster.ensureHealthCheck none webOn30080 legacyOnPort80).1 = .error (.api statusNotFound) := rfl
  refine ⟨?_,herror,rfl⟩
  intro h
  obtain ⟨link,hlink,_⟩ := h.returns nofun (fun _ => rfl) (fun _ => rfl)
  rw [herror] at hlink
  cases hlink

/-! ## The mode of a health check -/

namespace HealthChecker
variable {c : HealthChecker} {h : HealthChecks} {hc : HealthCheck} {protocol : Str} {enableNEG : Bool}

theorem withPath_inMode (hmode : hc.InMode protocol enableNEG) : (c.withPath hc).InMode protocol enableNEG := by
  unfold HealthCheck.InMode
  rw [withPath_type,withPath_portSpecification]
  exact hmode

theorem written_inMode (oldHC : HealthCheck) (hmode : hc.InMode protocol enableNEG) (hneg : hc.forNEG = enableNEG) :
    (c.written oldHC hc).InMode protocol enableNEG := by
  obtain ⟨htype,hspec⟩ := hmode
  unfold written
  cases enableNEG with
  | false =>
    have hold : ¬hc.forNEG = true := by rw [hneg]; decide
    rw [if_neg hold,HealthCheck.toCompute,if_neg hold]
    exact ⟨htype,rfl⟩
  | true =>
    have hmerged : (HealthCheck.mergeHealthcheckForNEG oldHC hc).forNEG = true := hneg
    rw [if_pos hneg,HealthCheck.toCompute,if_pos hmerged,HealthCheck.toAlphaComputeHealthCheck]
    split
    · exact ⟨htype,hspec⟩
    · exact ⟨htype,hspec⟩

/-- An existing check is read, and what follows depends on what is seen of it. -/
theorem sync_existing {x : Owned HealthCheck} (hx : h.checks.items (c.namer.backend hc.port) = some x)
    {Q : Except GoError Str → HealthChecks → Prop}
    (hQ : ∀ h₁, h₁.checks.items = h.checks.items → h₁.checks.clock = h.checks.clock + 1 → h₁.legacy = h.legacy →
      (∀ e, Q (.error e) h₁) ∧ Ensures (c.syncFound (c.withPath hc) (.ok (x.object.view hc.forNEG))) h₁ Q) :
    Ensures (c.sync hc) h Q := by
  unfold sync
  dsimp only
  rw [ensures_bind,ensures_attempt,withPath_port,withPath_forNEG]
  have hclock : Ensures (c.get hc.port hc.forNEG) h (fun _ h' => h'.checks.clock = h.checks.clock + 1) := by
    rw [get,onChecks,ensures_onPart]
    exact Store.call_clock _
  refine ((get_served hc.port hc.forNEG).and hclock).mono ?_
  rintro found h₁ ⟨⟨hlegacy,hserved⟩,hclock⟩
  obtain ⟨hfail,hfound⟩ := hQ h₁ hserved.unchanged hclock hlegacy
  rw [afterwards_ok]
  cases found with
  | error e =>
    have hkind : ¬isHTTPErrorCode e statusNotFound = true := by
      intro hkind
      have hnone := hserved.notFound (by rw [eq_of_isHTTPErrorCode hkind])
      rw [hx] at hnone
      cases hnone
    rw [syncFound,if_neg hkind]
    exact hfail e
  | ok existingHC =>
    obtain ⟨x',hx',rfl,_⟩ := hserved.answer existingHC rfl
    obtain rfl : x = x' := Option.some.inj (hx.symm.trans hx')
    exact hfound

/-- A check that is seen to be in the wanted mode is read and nothing else. -/
theorem sync_settled {x : Owned HealthCheck} (hx : h.checks.items (c.namer.backend hc.port) = some x)
    (hseen : (x.object.view hc.forNEG).needToUpdate (c.withPath hc) = false) :
    Ensures (c.sync hc) h (fun _ h' => h'.checks.items = h.checks.items ∧ h'.checks.clock = h.checks.clock + 1 ∧
      h'.legacy = h.legacy) := by
  refine sync_existing hx ?_
  intro h₁ hitems hclock hlegacy
  rw [syncFound,hseen]
  exact ⟨fun _ => ⟨hitems,hclock,hlegacy⟩,hitems,hclock,hlegacy⟩

theorem sync_found {x : Owned HealthCheck} (hreliable : h.checks.Reliable)
    (hx : h.checks.items (c.namer.backend hc.port) = some x)
    (hseen : (x.object.view hc.forNEG).needToUpdate (c.withPath hc) = false) :
    Returns (c.sync hc) h (fun link _ => link = x.object.selfLink) := by
  unfold sync
  dsimp only
  rw [returns_bind,returns_attempt,withPath_port,withPath_forNEG]
  refine Ensures.mono (get_returns hreliable hx _) ?_
  rintro _ h₁ ⟨_,rfl,rfl,_⟩
  rw [syncFound,hseen]
  refine ⟨_,rfl,?_⟩
  unfold HealthCheck.view
  split
  · rfl
  · rfl

/-- Any other check is written. -/
theorem sync_written {x : Owned HealthCheck} (hx : h.checks.items (c.namer.backend hc.port) = some x)
    (hmode : hc.InMode protocol enableNEG) (hneg : hc.forNEG = enableNEG)
    (hseen : (x.object.view hc.forNEG).needToUpdate (c.withPath hc) = true) :
    Ensures (c.sync hc) h (fun r h' => ∀ link, r = .ok link →
      ∃ x', h'.checks.items hc.name = some x' ∧ x'.object.InMode protocol enableNEG) := by
  refine sync_existing hx ?_
  intro h₁ _ _ _
  refine ⟨fun _ => nofun,?_⟩
  rw [syncFound,hseen,ensures_bind]
  refine (replace_served _ (c.withPath hc)).mono ?_
  rintro r h₂ ⟨_,hreplaced⟩
  cases r with
  | error e => exact nofun
  | ok _ =>
    obtain ⟨y,_,_,hitems⟩ := hreplaced.answer () rfl
    intro _ _
    rw [withPath_name] at hitems
    refine ⟨_,(congrFun hitems _).trans (Function.update_self ..),?_⟩
    exact written_inMode _ (withPath_inMode hmode) ((withPath_forNEG hc).trans hneg)

end HealthChecker

/-- A check that is in the wanted mode is found. -/
theorem ensureHealthCheck_found (hprobes : ProbesServed prober) (hchecks : w.health.checks.Reliable)
    (hreliable : w.health.legacy.Reliable) {x : Owned HealthCheck}
    (hx : w.health.checks.items (b.namer.backend (checkedPort sp (w.health.legacy.items (b.namer.backend sp.port)))) = some x)
    (hmode : x.object.InMode sp.protocol sp.negEnabled) :
    Returns (b.ensureHealthCheck prober sp) w (fun link _ => link = x.object.selfLink) := by
  unfold ensureHealthCheck
  rw [returns_bind,returns_attempt]
  refine (getLegacy_ensures b sp w).mono ?_
  intro found w₁ hread
  obtain ⟨hc,hsettings,heq⟩ := syncHealthCheck_served b hprobes (hread.reliable hreliable)
  rw [← hread.read (hread.reliable hreliable),← hsettings.port,← hread.checks] at hx
  rw [← hread.checks] at hchecks
  have hseen : (x.object.view hc.forNEG).needToUpdate (b.healthChecker.withPath hc) = false := by
    rw [hsettings.forNEG]
    apply (HealthCheck.needToUpdate_view (HealthChecker.withPath_inMode hsettings.mode)).mpr
    exact ⟨hmode.1,fun _ => hmode.2⟩
  rw [heq]
  exact HealthChecker.sync_found (c := b.healthChecker) hchecks hx hseen

/-- When a sync returns, the check is in the wanted mode, and a further sync reads it and
nothing else. -/
structure SettlesInMode (c : HealthChecker) (port : ℤ) (protocol : Str) (enableNEG : Bool) (h : HealthChecks) : Prop where
  reached : ∀ link h', c.sync (HealthCheck.new c.namer port protocol enableNEG) h = (.ok link,h') →
    ∃ x, h'.checks.items (c.namer.backend port) = some x ∧ x.object.InMode protocol enableNEG
  settled : ∀ link h', c.sync (HealthCheck.new c.namer port protocol enableNEG) h = (.ok link,h') →
    Ensures (c.sync (HealthCheck.new c.namer port protocol enableNEG)) h' (fun _ h'' =>
      h''.checks.items = h'.checks.items ∧ h''.checks.clock = h'.checks.clock + 1 ∧ h''.legacy = h'.legacy)

/-- An existing check gets into the wanted mode, but for the port specification of a check
that is of the wanted type and no longer for NEGs. -/
theorem settlesInMode_iff (c : HealthChecker) (port : ℤ) (protocol : Str) (enableNEG : Bool) (x : Owned HealthCheck) :
    (∀ h, h.checks.items (c.namer.backend port) = some x → SettlesInMode c port protocol enableNEG h) ↔
      ¬(enableNEG = false ∧ x.object.type = protocol ∧ x.object.portSpecification ≠ []) := by
  have hmode := HealthCheck.new_inMode c.namer port protocol enableNEG
  have hseen : ∀ x : HealthCheck, (x.view (HealthCheck.new c.namer port protocol enableNEG).forNEG).needToUpdate
        (c.withPath (HealthCheck.new c.namer port protocol enableNEG)) = false ↔
      x.type = protocol ∧ (enableNEG = true → x.portSpecification = wantedSpecification enableNEG) := by
    intro x
    rw [HealthCheck.new_forNEG]
    exact HealthCheck.needToUpdate_view (HealthChecker.withPath_inMode hmode)
  constructor
  · rintro hreaches ⟨rfl,htype,hspec⟩
    let h : HealthChecks := ⟨⟨fun _ => some x,fun _ => none,0⟩,⟨fun _ => none,fun _ => none,0⟩⟩
    have hsame := HealthChecker.sync_settled (c := c) (h := h) rfl ((hseen x.object).mpr ⟨htype,nofun⟩)
    have hreturns : Returns (c.sync (HealthCheck.new c.namer port protocol false)) h _ :=
      HealthChecker.sync_returns (fun _ => rfl) rfl
    obtain ⟨link,hrun,_⟩ := hreturns
    obtain ⟨x',hx',hmode'⟩ := (hreaches h rfl).reached link _ (Prod.ext hrun rfl)
    rw [hsame.1] at hx'
    obtain rfl : x = x' := Option.some.inj hx'
    exact hspec hmode'.2
  · intro hne h hx
    have hreached : ∀ link h', c.sync (HealthCheck.new c.namer port protocol enableNEG) h = (.ok link,h') →
        ∃ x, h'.checks.items (c.namer.backend port) = some x ∧ x.object.InMode protocol enableNEG := by
      intro link h' hrun
      by_cases hupdate : (x.object.view (HealthCheck.new c.namer port protocol enableNEG).forNEG).needToUpdate
          (c.withPath (HealthCheck.new c.namer port protocol enableNEG)) = true
      · have hwritten : Ensures (c.sync (HealthCheck.new c.namer port protocol enableNEG)) h _ :=
          HealthChecker.sync_written hx hmode (HealthCheck.new_forNEG ..) hupdate
        rw [ensures_of_eq hrun] at hwritten
        exact hwritten link rfl
      · have hfalse := Bool.eq_false_iff.mpr hupdate
        have hsame : Ensures (c.sync (HealthCheck.new c.namer port protocol enableNEG)) h _ :=
          HealthChecker.sync_settled hx hfalse
        rw [ensures_of_eq hrun] at hsame
        obtain ⟨htype,hspec⟩ := (hseen x.object).mp hfalse
        refine ⟨x,by rw [hsame.1,hx],htype,?_⟩
        cases enableNEG with
        | true => exact hspec rfl
        | false => exact not_not.mp fun hspec => hne ⟨rfl,htype,hspec⟩
    refine ⟨hreached,?_⟩
    intro link h' hrun
    obtain ⟨x',hx',htype,hspec⟩ := hreached link h' hrun
    exact HealthChecker.sync_settled hx' ((hseen x'.object).mpr ⟨htype,fun _ => hspec⟩)

/-- The check of a port that was for NEGs. -/
def onServingPort : HealthChecks where
  checks := ⟨fun _ => some ⟨{ defaultNEGHealthCheck Kube.protocolHTTP with name := "k8s-be-30080".toList },true⟩,fun _ => none,0⟩
  legacy := ⟨fun _ => none,fun _ => none,0⟩

/-- The older version of the API does not show that it still is. -/
theorem onServingPort_kept :
    ¬SettlesInMode unnamedCluster.healthChecker 30080 Kube.protocolHTTP false onServingPort ∧
    (unnamedCluster.healthChecker.sync (HealthCheck.new ⟨[],by decide⟩ 30080 Kube.protocolHTTP false) onServingPort).1 =
      .ok [] ∧
    ((unnamedCluster.healthChecker.sync (HealthCheck.new ⟨[],by decide⟩ 30080 Kube.protocolHTTP false)
      onServingPort).2.checks.items "k8s-be-30080".toList).map (fun x => x.object.portSpecification) =
        some useServingPortSpecification := by
  have hkept : (unnamedCluster.healthChecker.sync (HealthCheck.new ⟨[],by decide⟩ 30080 Kube.protocolHTTP false)
      onServingPort).2.checks.items "k8s-be-30080".toList =
        some ⟨{ defaultNEGHealthCheck Kube.protocolHTTP with name := "k8s-be-30080".toList },true⟩ := rfl
  refine ⟨?_,rfl,by rw [hkept]; rfl⟩
  intro h
  obtain ⟨x,hx,_,hspec⟩ := h.reached [] _ rfl
  obtain rfl := Option.some.inj (hkept.symm.trans hx)
  cases hspec

end Backends
end IngressGce
