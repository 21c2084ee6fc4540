import IngressGce.Backends.HealthCheckSync

/-! # Leaving the legacy health checks behind

A backend service that still has a legacy health check is to get a new one before the old
one is deleted. The link of the new check is compared with that in the cloud by the name
alone, since links also tell the version of the API, and the legacy check has the same
name.
-/
namespace IngressGce
open Prog

/-- The kind of resource that a link leads to, which stands before the name. -/
def collection (link : Str) : Str := (Str.split "/".toList link).dropLast.getLast?.getD []

def healthChecksCollection : Str := "healthChecks".toList
def httpHealthChecksCollection : Str := "httpHealthChecks".toList

namespace Backends
variable (b : Backends)

/-- `ensureBackendService` up to the point where a legacy health check may be deleted. -/
def prepare (prober : Option (ServicePort → Except GoError (Option Probe))) (p : ServicePort) :
    PoolM (Str × BackendService × BackendService) := do
  let hcLink ← b.ensureHealthCheck prober p
  let be ← b.getOrCreate p hcLink
  let be' ← refresh be p hcLink
  pure (hcLink,be,be')

def dropsLegacy (be : BackendService) (hcLink : Str) : Prop :=
  existingHCLink be ≠ hcLink ∧ "/httpHealthChecks/".toList <:+: existingHCLink be

variable {b} {prober : Option (ServicePort → Except GoError (Option Probe))} {igs : List Str} {p : ServicePort}

theorem ensureBackendService_eq : b.ensureBackendService prober igs p = deferring
    (do
      let (hcLink,be,be') ← b.prepare prober p
      b.dropLegacy be p hcLink
      onlyIf (!igs.isEmpty && !p.negEnabled) (edgeHop be' igs))
    (fun w => w.track (portKey p.port)) := by
  unfold ensureBackendService prepare
  rw [andThen_assoc]
  congr 1
  refine bind_congr fun hcLink => ?_
  rw [andThen_assoc]
  refine bind_congr fun be => ?_
  rw [andThen_assoc]
  rfl

/-! ## What becomes of the links -/

def Attached (name : Str) (hcs : List Str) (w : Pool) : Prop :=
  ∃ y, w.services.items name = some y ∧ y.object.healthChecks = hcs

variable {w : Pool} {name : Str} {hcs : List Str}

theorem ensureHealthCheck_services : (b.ensureHealthCheck prober p w).2.services = w.services := by
  have hhealth : ∀ {α : Type} (m : HealthM α), Respects (Unmoved Pool.services) (onHealth m) := fun m _ => rfl
  exact b.respects_ensureHealthCheck_of prober p (hhealth _) (fun _ _ => hhealth _) w

theorem update_attached (be : BackendService) (hname : be.name = name) (hcs_eq : be.healthChecks = hcs)
    (h : Attached name hcs w) : Ensures (updateGlobalBackendService be) w (fun _ w' => Attached name hcs w') := by
  subst hname
  rw [updateGlobalBackendService,onServices,ensures_onPart]
  refine (Store.onItem_served _).mono ?_
  intro r services hserved
  rcases hserved.items with hitems | ⟨y,_,hitems⟩
  · obtain ⟨y,hy,hhcs⟩ := h
    exact ⟨y,by rw [← hy]; exact congrFun hitems be.name,hhcs⟩
  · exact ⟨_,(congrFun hitems be.name).trans (Function.update_self ..),hcs_eq⟩

theorem edgeHop_attached {be : BackendService} (hname : be.name = name) (hcs_eq : be.healthChecks = hcs)
    (h : Attached name hcs w) : Ensures (edgeHop be igs) w (fun _ w' => Attached name hcs w') := by
  have hupdate : ∀ backends, Respects (Lasting (Attached name hcs))
      (updateGlobalBackendService { be with backends := backends }) :=
    fun backends _ h => update_attached { be with backends := backends } hname hcs_eq h
  exact respects_edgeHop_of hupdate igs w h

theorem dropLegacy_services (be : BackendService) (hcLink : Str) :
    Ensures (b.dropLegacy be p hcLink) w (fun r w' => r = .ok () ∧ w'.services = w.services) := by
  unfold dropLegacy
  rw [ensures_onlyIf,ensures_rescue]
  refine ⟨fun _ => ?_,fun _ => ⟨rfl,rfl⟩⟩
  refine (ensures_run _ _).mono ?_
  rintro r w' hrun
  have hservices : w'.services = w.services := congrArg (fun s => s.2.services) hrun.symm
  cases r with
  | ok _ => exact ⟨rfl,hservices⟩
  | error e => exact ⟨rfl,hservices⟩

theorem ensureBackendService_attached (igs : List Str) {P : Str → List Str → Prop}
    (hprepare : Ensures (b.prepare prober p) w (fun r w' => ∀ hcLink be be', r = .ok (hcLink,be,be') →
      be'.name = name ∧ Attached name be'.healthChecks w' ∧ P hcLink be'.healthChecks)) :
    Ensures (b.ensureBackendService prober igs p) w (fun r w' => r = .ok () →
      ∃ hcLink hcs, P hcLink hcs ∧ Attached name hcs w') := by
  rw [ensureBackendService_eq,ensures_deferring,ensures_bind]
  refine hprepare.mono ?_
  intro r w₁ hr
  cases r with
  | error e => exact nofun
  | ok prepared =>
    obtain ⟨hcLink,be,be'⟩ := prepared
    obtain ⟨hname,hattached,hP⟩ := hr hcLink be be' rfl
    rw [afterwards_ok,ensures_bind]
    refine (dropLegacy_services be hcLink).mono ?_
    rintro _ w₂ ⟨rfl,hservices⟩
    have hattached₂ : Attached name be'.healthChecks w₂ := by
      unfold Attached
      rw [hservices]
      exact hattached
    rw [afterwards_ok,ensures_onlyIf]
    refine ⟨fun _ => ?_,fun _ _ => ⟨hcLink,_,hP,hattached₂⟩⟩
    refine (edgeHop_attached hname rfl hattached₂).mono ?_
    exact fun _ _ hattached _ => ⟨hcLink,_,hP,hattached⟩

theorem get_ensures (port : ℤ) : Ensures (b.get port) w (fun r w' => w'.services.items = w.services.items ∧
    (∀ be, r = .ok be → ∃ y, w.services.items (b.namer.backend port) = some y ∧
      be = b.view (b.namer.backend port) y.object) ∧
    (w.services.Reliable → ∀ y, w.services.items (b.namer.backend port) = some y →
      r = .ok (b.view (b.namer.backend port) y.object))) := by
  unfold get
  rw [ensures_bind,onServices,ensures_onPart]
  refine (Store.onItem_served _).mono ?_
  intro r services hserved
  cases r with
  | error e => exact ⟨hserved.unchanged,nofun,fun hreliable y hy => absurd (hserved.reliable hreliable y hy) nofun⟩
  | ok be =>
    obtain ⟨y,hy,rfl,_⟩ := hserved.answer be rfl
    refine ⟨hserved.unchanged,?_,?_⟩
    · rintro be ⟨⟩
      exact ⟨y,hy,rfl⟩
    · intro _ y' hy'
      obtain rfl : y = y' := Option.some.inj (hy.symm.trans hy')
      rfl

/-- What `getOrCreate` returns is in the cloud. It was there before, or has been made with
the link. -/
theorem getOrCreate_ensures (hcLink : Str) : Ensures (b.getOrCreate p hcLink) w (fun r w' =>
    (∀ be, r = .ok be →
      ∃ y, w'.services.items (b.namer.backend p.port) = some y ∧ be = b.view (b.namer.backend p.port) y.object ∧
        (w.services.items (b.namer.backend p.port) = some y ∨ y.object.healthChecks = [hcLink])) ∧
    (w.services.Reliable → ∀ y, w.services.items (b.namer.backend p.port) = some y →
      r = .ok (b.view (b.namer.backend p.port) y.object) ∧ w'.services.items = w.services.items)) := by
  unfold getOrCreate
  rw [ensures_bind,ensures_orNil]
  refine (get_ensures p.port).mono ?_
  rintro r w₁ ⟨hitems₁,hread,hreliable⟩
  rw [afterwards_ok]
  cases r with
  | ok be =>
    refine ⟨?_,fun hw y hy => ⟨hreliable hw y hy,hitems₁⟩⟩
    rintro be ⟨⟩
    obtain ⟨y,hy,rfl⟩ := hread be rfl
    exact ⟨y,(congrFun hitems₁ _).trans hy,rfl,Or.inl hy⟩
  | error e =>
    change Ensures (b.create _ _ _ _) _ _
    unfold create
    rw [ensures_bind,onServices,ensures_onPart]
    refine (Store.insert_served _).mono ?_
    rintro r services ⟨_,hmade,_,_⟩
    cases r with
    | error e => exact ⟨nofun,fun hw y hy => absurd (hreliable hw y hy) nofun⟩
    | ok _ =>
      obtain ⟨_,hitems⟩ := hmade rfl
      rw [afterwards_ok]
      refine (get_ensures p.port).mono ?_
      rintro r w₂ ⟨hitems₂,hread,_⟩
      refine ⟨?_,fun hw y hy => absurd (hreliable hw y hy) nofun⟩
      rintro be rfl
      obtain ⟨y,hy,rfl⟩ := hread be rfl
      refine ⟨y,by rw [hitems₂]; exact hy,rfl,Or.inr ?_⟩
      have hnew := (congrFun hitems (b.namer.backend p.port)).symm.trans hy
      rw [Function.update_self] at hnew
      rw [← Option.some.inj hnew]

theorem refresh_ensures {be : BackendService} {hcLink : Str} (hname : be.name = name) (h : Attached name be.healthChecks w) :
    Ensures (refresh be p hcLink) w (fun r w' => ∀ be', r = .ok be' → be'.name = name ∧
      Attached name be'.healthChecks w' ∧
      (be'.healthChecks = [hcLink] ∨ be' = be ∧ outdated be p hcLink = false)) := by
  subst hname
  unfold refresh
  rw [ensures_ite]
  constructor
  · intro _
    rw [ensures_bind,updateGlobalBackendService,onServices,ensures_onPart]
    refine (Store.onItem_served _).mono ?_
    intro r services hserved
    cases r with
    | error e => exact nofun
    | ok _ =>
      obtain ⟨y,_,_,hitems⟩ := hserved.answer () rfl
      rintro be' ⟨⟩
      exact ⟨rfl,⟨_,(congrFun hitems be.name).trans (Function.update_self ..),rfl⟩,Or.inl rfl⟩
  · rintro hcurrent be' ⟨⟩
    exact ⟨rfl,h,Or.inr ⟨rfl,Bool.eq_false_iff.mpr hcurrent⟩⟩

/-- A prepared port has the new link, or the backend service was found to be current. -/
structure Prepared (b : Backends) (p : ServicePort) (w : Pool) (hcLink : Str) (be' : BackendService) (w' : Pool) :
    Prop where
  link : hcLink = b.healthChecker.links
    (b.namer.backend (checkedPort p (w.health.legacy.items (b.namer.backend p.port))))
  name : be'.name = b.namer.backend p.port
  attached : Attached (b.namer.backend p.port) be'.healthChecks w'
  current : be'.healthChecks = [hcLink] ∨ ∃ y, w.services.items (b.namer.backend p.port) = some y ∧
    be' = b.view (b.namer.backend p.port) y.object ∧ outdated y.object p hcLink = false

theorem prepare_ensures (hlinked : b.healthChecker.Linked w.health) : Ensures (b.prepare prober p) w (fun r w' =>
    ∀ hcLink be be', r = .ok (hcLink,be,be') →
      (b.ensureHealthCheck prober p w).1 = .ok hcLink ∧ Prepared b p w hcLink be' w') := by
  have hensured : Ensures (b.ensureHealthCheck prober p) w _ := ensureHealthCheck_linked hlinked
  have hservices : Ensures (b.ensureHealthCheck prober p) w (fun _ w' => w'.services = w.services) :=
    ensureHealthCheck_services
  unfold prepare
  rw [ensures_bind]
  refine ((hensured.and hservices).and (ensures_run _ _)).mono ?_
  rintro r w₁ ⟨⟨⟨_,hlink⟩,hservices⟩,hrun⟩
  cases r with
  | error e => exact nofun
  | ok hcLink =>
    have hlink := hlink hcLink rfl
    rw [afterwards_ok,ensures_bind]
    refine (getOrCreate_ensures hcLink).mono ?_
    rintro r w₂ ⟨hbe,_⟩
    cases r with
    | error e => exact nofun
    | ok be =>
      obtain ⟨y,hy,hbe,hknown⟩ := hbe be rfl
      have hattached : Attached (b.namer.backend p.port) be.healthChecks w₂ := ⟨y,hy,by rw [hbe]; rfl⟩
      rw [afterwards_ok,ensures_bind]
      refine (refresh_ensures (by rw [hbe]; rfl) hattached).mono ?_
      intro r w₃ hbe'
      cases r with
      | error e => exact nofun
      | ok be' =>
        obtain ⟨hname,hattached,hcurrent⟩ := hbe' be' rfl
        rintro _ _ _ ⟨⟩
        refine ⟨by rw [hrun],hlink,hname,hattached,?_⟩
        rcases hcurrent with hcurrent | ⟨rfl,hcurrent⟩
        · exact Or.inl hcurrent
        · rcases hknown with hknown | hnew
          · rw [hservices] at hknown
            rw [hbe] at hcurrent
            exact Or.inr ⟨y,hknown,hbe,hcurrent⟩
          · left
            rw [hbe]
            exact hnew

/-- The backend service differs from what is wanted in more than the kind of its health
check, or its health check is of the new kind already. -/
def Detaches (b : Backends) (p : ServicePort) (x : Option (Owned BackendService)) (legacy : Option HttpHealthCheck) : Prop :=
  ∀ y, x = some y → y.object.protocol ≠ p.protocol ∨ y.object.description ≠ p.description ∨
    collection (existingHCLink y.object) = healthChecksCollection ∨
    retrieveObjectName (existingHCLink y.object) ≠
      retrieveObjectName (b.healthChecker.links (b.namer.backend (checkedPort p legacy)))

theorem Prepared.attached_new {hcLink : Str} {be' : BackendService} {w' : Pool} (h : Prepared b p w hcLink be' w')
    (hlinks : ∀ port, collection (b.healthChecker.links (b.namer.backend port)) = healthChecksCollection)
    (hdetaches : Detaches b p (w.services.items (b.namer.backend p.port)) (w.health.legacy.items (b.namer.backend p.port))) :
    ∃ link, be'.healthChecks = [link] ∧ retrieveObjectName link = retrieveObjectName hcLink ∧
      collection link = healthChecksCollection := by
  rcases h.current with hnew | ⟨y,hy,rfl,hcurrent⟩
  · exact ⟨hcLink,hnew,rfl,by rw [h.link,hlinks]⟩
  · unfold outdated at hcurrent
    rw [decide_eq_false_iff_not,not_or,not_or,not_not,not_not,not_not] at hcurrent
    obtain ⟨hprotocol,hname,hdescription⟩ := hcurrent
    have hcollection : collection (existingHCLink y.object) = healthChecksCollection := by
      rcases hdetaches y hy with hne | hne | hcollection | hne
      · exact absurd hprotocol hne
      · exact absurd hdescription hne
      · exact hcollection
      · rw [h.link] at hname
        exact absurd hname hne
    -- the link is the only one, since the empty link is of no kind
    have honly : y.object.healthChecks = [existingHCLink y.object] := by
      unfold existingHCLink at hcollection ⊢
      split
      · assumption
      · rename_i hother
        split at hcollection
        · rename_i link hlink
          exact absurd hlink (hother link)
        · cases hcollection
    exact ⟨existingHCLink y.object,honly,hname,hcollection⟩

/-- A legacy health check is detached before it is deleted, and the new one is attached
when the port has been ensured. -/
structure Migrates (b : Backends) (prober : Option (ServicePort → Except GoError (Option Probe))) (igs : List Str)
    (p : ServicePort) (w : Pool) : Prop where
  detached : ∀ hcLink be be' w', b.prepare prober p w = (.ok (hcLink,be,be'),w') → dropsLegacy be hcLink →
    ∀ y, w'.services.items (b.namer.backend p.port) = some y →
      ∀ link ∈ y.object.healthChecks, collection link ≠ httpHealthChecksCollection
  attached : ∀ w', b.ensureBackendService prober igs p w = (.ok (),w') →
    ∃ hcLink link, (b.ensureHealthCheck prober p w).1 = .ok hcLink ∧ Attached (b.namer.backend p.port) [link] w' ∧
      retrieveObjectName link = retrieveObjectName hcLink ∧ collection link = collection hcLink ∧
      collection link ≠ httpHealthChecksCollection

theorem migrates_of_detaches
    (hlinks : ∀ port, collection (b.healthChecker.links (b.namer.backend port)) = healthChecksCollection)
    (hdetaches : Detaches b p (w.services.items (b.namer.backend p.port)) (w.health.legacy.items (b.namer.backend p.port)))
    (hlinked : b.healthChecker.Linked w.health) : Migrates b prober igs p w := by
  have hprepare : Ensures (b.prepare prober p) w _ := prepare_ensures hlinked
  have hne : healthChecksCollection ≠ httpHealthChecksCollection := by decide
  constructor
  · intro hcLink be be' w' hrun _ y hy link hlink
    rw [ensures_of_eq hrun] at hprepare
    obtain ⟨_,hprepared⟩ := hprepare hcLink be be' rfl
    obtain ⟨link',honly,_,hcollection⟩ := hprepared.attached_new hlinks hdetaches
    obtain ⟨y',hy',hattached⟩ := hprepared.attached
    obtain rfl : y = y' := Option.some.inj (hy.symm.trans hy')
    rw [hattached,honly] at hlink
    rw [List.mem_singleton.mp hlink,hcollection]
    exact hne
  · intro w' hrun
    have hensured := ensureBackendService_attached igs
      (P := fun hcLink hcs => (b.ensureHealthCheck prober p w).1 = .ok hcLink ∧
        collection hcLink = healthChecksCollection ∧ ∃ link, hcs = [link] ∧
          retrieveObjectName link = retrieveObjectName hcLink ∧ collection link = healthChecksCollection)
      (hprepare.mono fun r w' h hcLink be be' hr => by
        obtain ⟨hlink,hprepared⟩ := h hcLink be be' hr
        refine ⟨hprepared.name,hprepared.attached,hlink,?_,hprepared.attached_new hlinks hdetaches⟩
        rw [hprepared.link,hlinks])
    rw [ensures_of_eq hrun] at hensured
    obtain ⟨hcLink,_,⟨hlink,hnew,link,rfl,hname,hcollection⟩,hattached⟩ := hensured rfl
    exact ⟨hcLink,link,hlink,hattached,hname,hcollection.trans hnew.symm,hcollection ▸ hne⟩

theorem ensureBackendService_current {hcLink : Str} {y : Owned BackendService}
    (hcheck : (b.ensureHealthCheck prober p w).1 = .ok hcLink) (hreliable : w.services.Reliable)
    (hy : w.services.items (b.namer.backend p.port) = some y) (hcurrent : outdated y.object p hcLink = false) :
    Ensures (b.ensureBackendService prober [] p) w (fun r w' => r = .ok () ∧ w'.services.items = w.services.items) := by
  have hservices : Ensures (b.ensureHealthCheck prober p) w (fun _ w' => w'.services = w.services) :=
    ensureHealthCheck_services
  unfold ensureBackendService
  rw [ensures_deferring,ensures_bind]
  refine (hservices.and (ensures_run _ _)).mono ?_
  rintro r w₁ ⟨hservices,hrun⟩
  rw [hrun] at hcheck
  obtain rfl : r = .ok hcLink := hcheck
  rw [afterwards_ok,ensures_bind]
  refine (getOrCreate_ensures hcLink).mono ?_
  rintro r w₂ ⟨_,hread⟩
  rw [hservices] at hread
  obtain ⟨rfl,hitems₂⟩ := hread hreliable y hy
  have hkept : ¬outdated (b.view (b.namer.backend p.port) y.object) p hcLink = true := by
    rw [show outdated (b.view (b.namer.backend p.port) y.object) p hcLink = false from hcurrent]
    decide
  rw [afterwards_ok,ensures_bind,refresh,if_neg hkept,ensures_pure,afterwards_ok,ensures_bind]
  refine (dropLegacy_services _ hcLink).mono ?_
  rintro _ w₃ ⟨rfl,hservices₃⟩
  refine ⟨rfl,?_⟩
  change w₃.services.items = w.services.items
  rw [hservices₃,hitems₂]

theorem detaches_of_migrates {x : Option (Owned BackendService)} {legacy : Option HttpHealthCheck}
    (hlinks : ∀ port, collection (b.healthChecker.links (b.namer.backend port)) = healthChecksCollection)
    (h : ∀ w, w.services.items (b.namer.backend p.port) = x → w.health.legacy.items (b.namer.backend p.port) = legacy →
      b.healthChecker.Linked w.health → Migrates b none [] p w) : Detaches b p x legacy := by
  rintro y rfl
  by_contra hcurrent
  rw [not_or,not_or,not_or,not_not,not_not,not_not] at hcurrent
  obtain ⟨hprotocol,hdescription,hcollection,hname⟩ := hcurrent
  -- a cloud in which every health check is in the wanted mode
  let hc : Str → HealthCheck := fun name =>
    { HealthCheck.new b.namer p.port p.protocol p.negEnabled with selfLink := b.healthChecker.links name }
  let w : Pool := ⟨[],⟨fun _ => some y,fun _ => none,0⟩,⟨fun name => some ⟨hc name,true⟩,fun _ => none,0⟩,
    ⟨fun _ => legacy,fun _ => none,0⟩⟩
  have hlinked : b.healthChecker.Linked w.health := by
    rintro name _ ⟨⟩
    rfl
  have hcheck : (b.ensureHealthCheck none p w).1 =
      .ok (b.healthChecker.links (b.namer.backend (checkedPort p legacy))) := by
    have hprobes : ProbesServed none := nofun
    have hfound : Returns (b.ensureHealthCheck none p) w _ :=
      ensureHealthCheck_found hprobes (fun _ => rfl) (fun _ => rfl) rfl (HealthCheck.new_inMode b.namer p.port _ _)
    obtain ⟨link,hrun,rfl⟩ := hfound
    exact hrun
  have houtdated : outdated y.object p (b.healthChecker.links (b.namer.backend (checkedPort p legacy))) = false := by
    unfold outdated
    rw [hprotocol,hdescription,hname]
    simp
  obtain ⟨hok,hitems⟩ := ensureBackendService_current hcheck (fun _ => rfl) rfl houtdated
  obtain ⟨hcLink,link,hlink,⟨y',hy',hattached⟩,_,hkind,_⟩ := (h w rfl rfl hlinked).attached _ (Prod.ext hok rfl)
  rw [hitems] at hy'
  obtain rfl : y = y' := Option.some.inj hy'
  obtain rfl := Except.ok.inj (hcheck.symm.trans hlink)
  apply hcollection
  rw [existingHCLink,hattached]
  exact hkind.trans (hlinks _)

/-- A legacy health check is left behind exactly if the backend service has to be updated
for another reason. -/
theorem migrates_iff
    (hlinks : ∀ port, collection (b.healthChecker.links (b.namer.backend port)) = healthChecksCollection)
    (x : Option (Owned BackendService)) (legacy : Option HttpHealthCheck) :
    (∀ prober igs w, w.services.items (b.namer.backend p.port) = x →
      w.health.legacy.items (b.namer.backend p.port) = legacy → b.healthChecker.Linked w.health →
      Migrates b prober igs p w) ↔ Detaches b p x legacy := by
  constructor
  · intro h
    exact detaches_of_migrates hlinks (h none [])
  · rintro h prober igs w rfl rfl hlinked
    exact migrates_of_detaches hlinks h hlinked

theorem collection_unnamedCluster (port : ℤ) :
    collection (unnamedCluster.healthChecker.links (unnamedCluster.namer.backend port)) = healthChecksCollection := by
  have hslash : ¬"/".toList <:+: unnamedCluster.namer.backend port := by
    intro hinfix
    have hmem : '/' ∈ backendPrefix ++ '-' :: Decimal.itoa port := hinfix.subset List.mem_cons_self
    rcases List.mem_append.mp hmem with hmem | hmem
    · exact absurd hmem (by decide)
    · rcases List.mem_cons.mp hmem with heq | hmem
      · cases heq
      · rcases Decimal.mem_itoa hmem with hdigit | heq
        · exact absurd hdigit (by decide)
        · cases heq
  have hsplit : Str.split "/".toList (unnamedCluster.healthChecker.links (unnamedCluster.namer.backend port)) =
      ["projects","p","global","healthChecks"].map String.toList ++
        Str.splitFrom "/".toList 0 (unnamedCluster.namer.backend port) := rfl
  unfold collection
  rw [hsplit,Str.splitFrom_of_no_sep hslash]
  rfl

/-- The backend service has the legacy health check of the same name, and is as wanted
otherwise. -/
def onLegacyCheck : Owned BackendService where
  object := {
    selfLink := "projects/p/global/backendServices/k8s-be-30080".toList
    name := "k8s-be-30080".toList
    description := webOn30080.description
    protocol := Kube.protocolHTTP
    healthChecks := ["projects/p/global/httpHealthChecks/k8s-be-30080".toList]
    port := 30080
    portName := "port30080".toList
    backends := [] }
  ours := true

/-- It is migrated when its protocol changes. -/
theorem migrates_to_https :
    Migrates unnamedCluster none [] { webOn30080 with protocol := Kube.protocolHTTPS }
      ⟨[],⟨fun _ => some onLegacyCheck,fun _ => none,0⟩,⟨fun _ => none,fun _ => none,0⟩,⟨fun _ => none,fun _ => none,0⟩⟩ := by
  refine (migrates_iff (b := unnamedCluster) collection_unnamedCluster (some onLegacyCheck) none).mpr ?_ none [] _ rfl rfl nofun
  rintro y ⟨⟩
  exact Or.inl (by decide)

def withLegacyCheck : Pool where
  snapshotter := []
  services := ⟨fun _ => some onLegacyCheck,fun _ => none,0⟩
  health := ⟨⟨fun _ => none,fun _ => none,0⟩,
    ⟨fun _ => some ⟨"".toList,60,60,1,10,"".toList,30080,"/healthz".toList⟩,fun _ => none,0⟩⟩

/-- It is not when nothing else does: the legacy check is deleted and stays attached. -/
theorem withLegacyCheck_dangles :
    ¬Migrates unnamedCluster none [] webOn30080 withLegacyCheck ∧
    (unnamedCluster.ensureBackendService none [] webOn30080 withLegacyCheck).1 = .ok () ∧
    ((unnamedCluster.ensureBackendService none [] webOn30080 withLegacyCheck).2.health.legacy.items
      "k8s-be-30080".toList) = none ∧
    Attached "k8s-be-30080".toList ["projects/p/global/httpHealthChecks/k8s-be-30080".toList]
      (unnamedCluster.ensureBackendService none [] webOn30080 withLegacyCheck).2 := by
  have hok : (unnamedCluster.ensureBackendService none [] webOn30080 withLegacyCheck).1 = .ok () := rfl
  have hservice : (unnamedCluster.ensureBackendService none [] webOn30080 withLegacyCheck).2.services.items
      "k8s-be-30080".toList = some onLegacyCheck := rfl
  refine ⟨?_,hok,rfl,onLegacyCheck,hservice,rfl⟩
  intro h
  obtain ⟨_,link,_,⟨y,hy,hattached⟩,_,_,hkind⟩ := h.attached _ (Prod.ext hok rfl)
  obtain rfl : onLegacyCheck = y := Option.some.inj (hservice.symm.trans hy)
  obtain rfl := (List.cons.inj hattached).1
  exact hkind (by decide)

end Backends
end IngressGce
