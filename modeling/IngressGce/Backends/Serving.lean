import IngressGce.Backends.Linking

/-! # What backend services keep

A backend service sends its requests to a named port of its instance groups. The name is
given when the backend service is made, and the instance groups are added one update after
the other. Updates are made from what was read before; none of them loses the name or an
instance group, whatever fails, except those of `Link` and the deletions.
-/
namespace IngressGce.Backends
open Prog

/-- `Link` as a whole. -/
def link (b : Backends) (md5 : MD5) (getNetworkEndpointGroup : Str → Str → Except GoError Str) (port : ServicePort)
    (zones : List Str) : PoolM Unit :=
  if !port.negEnabled then pure ()
  else
    match b.namer.neg md5 ⟨port.svcNamespace,port.svcName,port.svcTargetPort⟩ with
    | none => fail (.text "slice bounds out of range".toList)
    | some negName =>
      match zones.mapM (getNetworkEndpointGroup negName) with
      | .error e => fail e
      | .ok negs => do
        let backendService ← onServices (Store.readObject (b.namer.backend port.port) (b.view (b.namer.backend port.port)))
        onlyIf (!sameSet (backendService.backends.map Backend.group) ((getBackendsForNEGs negs).map Backend.group))
          (updateGlobalBackendService { backendService with backends := getBackendsForNEGs negs })

theorem refines_link (b : Backends) (md5 : MD5) (getNetworkEndpointGroup : Str → Str → Except GoError Str)
    (port : ServicePort) (zones : List Str) :
    Steps.Refines World.pool (Stepwise.link b md5 getNetworkEndpointGroup port zones)
      (b.link md5 getNetworkEndpointGroup port zones) := by
  unfold Stepwise.link link
  refine (Steps.refines_pure ()).ite ?_
  cases b.namer.neg md5 ⟨port.svcNamespace,port.svcName,port.svcTargetPort⟩ with
  | none => exact Steps.refines_fail _
  | some negName =>
    dsimp only
    cases zones.mapM (getNetworkEndpointGroup negName) with
    | error e => exact Steps.refines_fail e
    | ok negs => exact (refines_call _).bind fun _ => (refines_call _).onlyIf

def BackendService.groups (be : BackendService) : List Str := be.backends.map Backend.group

/-- A backend service that is named after a port names the port. -/
def Pool.Named (b : Backends) (w : Pool) : Prop := ∀ port x, IsInt64 port →
  w.services.items (b.namer.backend port) = some x → x.object.portName = Namer.namedPort port

/-- The backend services of certain names may be lost, the others keep their named port and
their instance groups. -/
structure Pool.Evolves (b : Backends) (loses : Str → Prop) (w w' : Pool) : Prop where
  kept : ∀ name x, ¬loses name → w.services.items name = some x → ∃ x', w'.services.items name = some x' ∧
    x'.object.portName = x.object.portName ∧ ∀ g ∈ x.object.groups, IsInstanceGroup g → g ∈ x'.object.groups
  named : w.Named b → w'.Named b

/-- The backend service exists and has the instance groups. -/
def Pool.HasGroups (w : Pool) (name : Str) (igs : List Str) : Prop :=
  ∃ x, w.services.items name = some x ∧ ∀ ig ∈ igs, ig ∈ x.object.groups

section Evolves
variable {b : Backends} {loses : Str → Prop} {w w' : Pool}

instance (b : Backends) (loses : Str → Prop) : IsPreorder Pool (Pool.Evolves b loses) where
  refl _ := ⟨fun _ x _ h => ⟨x,h,rfl,fun _ hg _ => hg⟩,id⟩
  trans _ _ _ h h' := by
    constructor
    · intro name x hname hx
      obtain ⟨x₁,hx₁,hport₁,hgroups₁⟩ := h.kept name x hname hx
      obtain ⟨x₂,hx₂,hport₂,hgroups₂⟩ := h'.kept name x₁ hname hx₁
      exact ⟨x₂,hx₂,hport₂.trans hport₁,fun g hg hig => hgroups₂ g (hgroups₁ g hg hig) hig⟩
    · exact fun hw => h'.named (h.named hw)

theorem Pool.Evolves.mono {loses' : Str → Prop} (h : w.Evolves b loses w') (hsub : ∀ name, loses name → loses' name) :
    w.Evolves b loses' w' := ⟨fun name x hname => h.kept name x fun hl => hname (hsub name hl),h.named⟩

theorem evolves_of_items (h : w'.services.items = w.services.items) : w.Evolves b loses w' := by
  constructor
  · intro name x _ hx
    exact ⟨x,(congrFun h name).trans hx,rfl,fun _ hg _ => hg⟩
  · intro hw port x hport hx
    exact hw port x hport ((congrFun h _).symm.trans hx)

theorem Pool.HasGroups.evolves {name : Str} {igs : List Str} (h : w.HasGroups name igs) (hw : w.Evolves b loses w')
    (hname : ¬loses name) (higs : ∀ ig ∈ igs, IsInstanceGroup ig) : w'.HasGroups name igs := by
  obtain ⟨x,hx,hgroups⟩ := h
  obtain ⟨x',hx',_,hkept⟩ := hw.kept name x hname hx
  exact ⟨x',hx',fun ig hig => hkept ig (hgroups ig hig) (higs ig hig)⟩

theorem Pool.HasGroups.named {port : ℤ} {igs : List Str} (h : w.HasGroups (b.namer.backend port) igs) (hw : w.Named b)
    (hport : IsInt64 port) : ∃ x, w.services.items (b.namer.backend port) = some x ∧
      x.object.portName = Namer.namedPort port ∧ ∀ ig ∈ igs, ig ∈ x.object.groups := by
  obtain ⟨x,hx,hgroups⟩ := h
  exact ⟨x,hx,hw port x hport hx,hgroups⟩

/-- What does not touch backend services keeps them. -/
theorem evolves_onHealth {α : Type} (m : HealthM α) : Respects (Pool.Evolves b loses) (onHealth m) :=
  fun _ => evolves_of_items rfl

end Evolves

/-! ## Updates -/

/-- The backend service names this port, and has no instance groups but these. -/
def Pool.Within (w : Pool) (name portName : Str) (gs : List Str) : Prop :=
  ∃ x, w.services.items name = some x ∧ x.object.portName = portName ∧ ∀ g ∈ x.object.groups, IsInstanceGroup g → g ∈ gs

/-- The cloud has the backend service as it was read or written last. -/
structure Pool.Holds (b : Backends) (port : ℤ) (be : BackendService) (w : Pool) : Prop where
  name : be.name = b.namer.backend port
  item : ∃ x, w.services.items (b.namer.backend port) = some x ∧ x.object.portName = be.portName ∧
    x.object.backends = be.backends

section Updates
variable {b : Backends} {loses : Str → Prop} {w : Pool} {port : ℤ}

theorem Pool.Holds.within {be : BackendService} (h : w.Holds b port be) {gs : List Str}
    (hgs : ∀ g ∈ be.groups, IsInstanceGroup g → g ∈ gs) : w.Within be.name be.portName gs := by
  obtain ⟨hname,x,hx,hport,hbackends⟩ := h
  refine ⟨x,hname ▸ hx,hport,?_⟩
  rw [BackendService.groups,hbackends]
  exact hgs

/-- An update replaces a backend service that is there, or nothing. -/
theorem update_cases (be : BackendService) (w : Pool) : Ensures (updateGlobalBackendService be) w (fun r w' =>
    (w'.services.items = w.services.items ∨ ∃ x, w.services.items be.name = some x ∧
      w'.services.items = Function.update w.services.items be.name (some { x with object := be })) ∧
    (r = .ok () → ∃ x, w'.services.items be.name = some x ∧ x.object = be)) := by
  rw [updateGlobalBackendService,onServices,ensures_onPart]
  refine (Store.onItem_served _).mono ?_
  intro r s hserved
  refine ⟨hserved.items,?_⟩
  intro hok
  obtain ⟨x,_,_,hitems⟩ := hserved.answer () hok
  exact ⟨_,(congrFun hitems _).trans (Function.update_self _ _ _),rfl⟩

theorem evolves_of_update {w' : Pool} {be : BackendService} {x : Owned BackendService} (hx : w.services.items be.name = some x)
    (hport : x.object.portName = be.portName)
    (hgroups : ¬loses be.name → ∀ g ∈ x.object.groups, IsInstanceGroup g → g ∈ be.groups)
    (hitems : w'.services.items = Function.update w.services.items be.name (some { x with object := be })) :
    w.Evolves b loses w' := by
  have hself : w'.services.items be.name = some { x with object := be } := by rw [hitems,Function.update_self]
  have hother : ∀ name, name ≠ be.name → w'.services.items name = w.services.items name := by
    intro name hname
    rw [hitems,Function.update_of_ne hname]
  constructor
  · intro name y hkept hy
    by_cases hname : name = be.name
    · subst hname
      obtain rfl := Option.some.inj (hx.symm.trans hy)
      exact ⟨_,hself,hport.symm,hgroups hkept⟩
    · exact ⟨y,(hother name hname).trans hy,rfl,fun _ hg _ => hg⟩
  · intro hnamed port y hint hy
    by_cases hname : b.namer.backend port = be.name
    · obtain rfl := Option.some.inj (hself.symm.trans (hname ▸ hy))
      exact hport.symm.trans (hnamed port x hint (hname ▸ hx))
    · exact hnamed port y hint ((hother _ hname).symm.trans hy)

/-- An update that names the port and has the instance groups there are. -/
theorem update_evolves (b : Backends) (loses : Str → Prop) {be : BackendService} (h : w.Within be.name be.portName be.groups) :
    Ensures (updateGlobalBackendService be) w (fun r w' => w.Evolves b loses w' ∧
      w'.Within be.name be.portName be.groups ∧
      (r = .ok () → ∃ x, w'.services.items be.name = some x ∧ x.object = be)) := by
  obtain ⟨x,hx,hport,hgroups⟩ := h
  refine (update_cases be w).mono ?_
  rintro r w' ⟨hcases,hok⟩
  rcases hcases with hitems | ⟨y,hy,hitems⟩
  · exact ⟨evolves_of_items hitems,⟨x,(congrFun hitems _).trans hx,hport,hgroups⟩,hok⟩
  · obtain rfl := Option.some.inj (hx.symm.trans hy)
    have hself : w'.services.items be.name = some { x with object := be } := by rw [hitems,Function.update_self]
    exact ⟨evolves_of_update hx hport (fun _ => hgroups) hitems,⟨_,hself,rfl,fun _ hg _ => hg⟩,hok⟩

theorem read_holds (b : Backends) (port : ℤ) (w : Pool) :
    Ensures (onServices (Store.readObject (b.namer.backend port) (b.view (b.namer.backend port)))) w (fun r w' =>
      w'.services.items = w.services.items ∧ ∀ be, r = .ok be → w'.Holds b port be) := by
  rw [onServices,ensures_onPart]
  refine (Store.onItem_served _).mono ?_
  intro r s hserved
  have hitems : s.items = w.services.items :=
    Store.ServedItem.unchanged (f := fun x : Owned BackendService => b.view (b.namer.backend port) x.object) hserved
  refine ⟨hitems,?_⟩
  intro be hbe
  obtain ⟨x,hx,rfl,_⟩ := hserved.answer be hbe
  exact ⟨rfl,x,(congrFun hitems _).trans hx,rfl,rfl⟩

theorem get_holds (b : Backends) (port : ℤ) (w : Pool) : Ensures (b.get port) w (fun r w' =>
    w'.services.items = w.services.items ∧ ∀ be, r = .ok be → w'.Holds b port be) := by
  rw [get,ensures_bind]
  refine (read_holds b port w).mono ?_
  rintro r w' ⟨hitems,hholds⟩
  cases r with
  | error e => exact ⟨hitems,nofun⟩
  | ok be =>
    refine ⟨hitems,?_⟩
    rintro be' ⟨⟩
    obtain ⟨hname,hitem⟩ := hholds be rfl
    exact ⟨hname,hitem⟩

theorem evolves_get (b : Backends) (port : ℤ) : Respects (Pool.Evolves b loses) (b.get port) :=
  fun w => (get_holds b port w).mono fun _ _ h => evolves_of_items h.1

/-- A new backend service names the port that it is named after. -/
theorem create_evolves (loses : Str → Prop) {p : ServicePort} (hint : IsInt64 p.port) (hcLink : Str) (w : Pool) :
    Ensures (b.create (Namer.namedPort p.port) hcLink p (b.namer.backend p.port)) w (fun r w' =>
      w.Evolves b loses w' ∧ ∀ be, r = .ok be → w'.Holds b p.port be) := by
  rw [create,ensures_bind,onServices,ensures_onPart]
  refine (Store.insert_served _).mono ?_
  rintro r s ⟨_,_,hitems,_⟩
  have hcreated : w.Evolves b loses { w with services := s } := by
    rcases hitems with hitems | ⟨hnone,hitems⟩
    · exact evolves_of_items hitems
    · have hother : ∀ name, name ≠ b.namer.backend p.port → s.items name = w.services.items name := by
        intro name hname
        rw [hitems,Function.update_of_ne hname]
      constructor
      · intro name x _ hx
        have hname : name ≠ b.namer.backend p.port := by
          rintro rfl
          cases hnone.symm.trans hx
        exact ⟨x,(hother name hname).trans hx,rfl,fun _ hg _ => hg⟩
      · intro hnamed port x hport hx
        by_cases heq : port = p.port
        · subst heq
          have hself : s.items (b.namer.backend p.port) = some _ := (congrFun hitems _).trans (Function.update_self _ _ _)
          obtain rfl := Option.some.inj (hself.symm.trans hx)
          rfl
        · exact hnamed port x hport ((hother _ fun h => heq (b.namer.backend_injective hport hint h)).symm.trans hx)
  cases r with
  | error e =>
    refine ⟨hcreated,?_⟩
    intro be hbe
    cases hbe
  | ok _ =>
    rw [afterwards_ok]
    refine (get_holds b p.port _).mono ?_
    rintro r w' ⟨hsame,hholds⟩
    exact ⟨trans_of _ hcreated (evolves_of_items hsame),hholds⟩

theorem getOrCreate_evolves (loses : Str → Prop) {p : ServicePort} (hint : IsInt64 p.port) (hcLink : Str) (w : Pool) :
    Ensures (b.getOrCreate p hcLink) w (fun r w' => w.Evolves b loses w' ∧ ∀ be, r = .ok be → w'.Holds b p.port be) := by
  rw [getOrCreate,ensures_bind,ensures_orNil]
  refine (get_holds b p.port w).mono ?_
  rintro r w₁ ⟨hsame,hholds⟩
  have hread : w.Evolves b loses w₁ := evolves_of_items hsame
  cases r with
  | ok be =>
    refine ⟨hread,?_⟩
    rintro be' ⟨⟩
    exact hholds be rfl
  | error e =>
    rw [afterwards_ok]
    refine (create_evolves loses hint hcLink w₁).mono ?_
    rintro r w₂ ⟨hcreated,hholds₂⟩
    exact ⟨trans_of _ hread hcreated,hholds₂⟩

theorem refresh_evolves (loses : Str → Prop) {be : BackendService} (h : w.Holds b port be) (p : ServicePort) (hcLink : Str) :
    Ensures (refresh be p hcLink) w (fun r w' => w.Evolves b loses w' ∧ ∀ be', r = .ok be' → w'.Holds b port be') := by
  rw [refresh,ensures_ite]
  constructor
  · intro _
    have hwithin : w.Within (wanted be p hcLink).name (wanted be p hcLink).portName (wanted be p hcLink).groups :=
      h.within fun _ hg _ => hg
    rw [ensures_bind]
    refine (update_evolves b loses hwithin).mono ?_
    rintro r w' ⟨hevolves,_,hwritten⟩
    cases r with
    | error e => exact ⟨hevolves,nofun⟩
    | ok _ =>
      refine ⟨hevolves,?_⟩
      rintro be' ⟨⟩
      obtain ⟨x,hx,hobject⟩ := hwritten rfl
      have hname : (wanted be p hcLink).name = b.namer.backend port := h.name
      exact ⟨hname,x,hname ▸ hx,by rw [hobject],by rw [hobject]⟩
  · intro _
    refine ⟨refl_of _ w,?_⟩
    rintro be' ⟨⟩
    exact h

end Updates

/-! ## Instance groups -/

section Groups
variable {b : Backends} {loses : Str → Prop} {w : Pool} {port : ℤ}

/-- The groups after `edgeHop`, which are the same in all modes. -/
theorem groups_getBackendsForIGs (igs : List Str) (bm : BalancingMode) :
    (getBackendsForIGs igs bm).map Backend.group = igs := by
  unfold getBackendsForIGs
  rw [List.map_map]
  exact List.map_id _

theorem tryModes_evolves (b : Backends) (loses : Str → Prop) {be : BackendService} {original : List Backend} {addIGs : List Str}
    (h : w.Within be.name be.portName (original.map Backend.group ++ addIGs)) (errs : List Str) (modes : List BalancingMode) :
    Ensures (tryModes be original addIGs errs modes) w (fun r w' => w.Evolves b loses w' ∧
      (r = .ok () → w'.HasGroups be.name (original.map Backend.group ++ addIGs))) := by
  induction modes generalizing w errs with
  | nil => exact ⟨refl_of _ w,nofun⟩
  | cons bm modes ih =>
    have hgroups : ({ be with backends := original ++ getBackendsForIGs addIGs bm } : BackendService).groups =
        original.map Backend.group ++ addIGs := by
      rw [BackendService.groups,List.map_append,groups_getBackendsForIGs]
    rw [tryModes,ensures_rescue]
    rw [← hgroups] at h
    refine (update_evolves b loses h).mono ?_
    rintro r w₁ ⟨hevolves,hwithin,hwritten⟩
    rw [hgroups] at hwithin
    cases r with
    | ok _ =>
      refine ⟨hevolves,fun _ => ?_⟩
      obtain ⟨x,hx,hobject⟩ := hwritten rfl
      refine ⟨x,hx,fun ig hig => ?_⟩
      rw [hobject,hgroups]
      exact hig
    | error e =>
      rw [rescued_error,ensures_ite]
      refine ⟨fun _ => ?_,fun _ => ⟨hevolves,nofun⟩⟩
      refine (ih hwithin _).mono ?_
      rintro r w₂ ⟨hevolves',hok⟩
      exact ⟨trans_of _ hevolves hevolves',hok⟩

theorem edgeHop_evolves (loses : Str → Prop) {be : BackendService} (h : w.Holds b port be) {igs : List Str}
    (higs : ∀ ig ∈ igs, IsInstanceGroup ig) : Ensures (edgeHop be igs) w (fun r w' => w.Evolves b loses w' ∧
      (r = .ok () → w'.HasGroups (b.namer.backend port) igs)) := by
  rw [edgeHop,ensures_ite]
  constructor
  · intro hall
    refine ⟨refl_of _ w,fun _ => ?_⟩
    obtain ⟨_,x,hx,_,hbackends⟩ := h
    refine ⟨x,hx,fun ig hig => ?_⟩
    rw [BackendService.groups,hbackends]
    exact of_decide_eq_true (List.all_eq_true.mp hall ig hig)
  · intro _
    have horiginal : ∀ g ∈ be.groups, IsInstanceGroup g →
        g ∈ (be.backends.filter (fun backend => "instanceGroups".toList <:+: backend.group)).map Backend.group := by
      intro g hg hig
      obtain ⟨x,hx,rfl⟩ := List.mem_map.mp hg
      exact List.mem_map_of_mem (List.mem_filter.mpr ⟨hx,decide_eq_true hig⟩)
    refine (tryModes_evolves b loses (h.within fun g hg hig => List.mem_append_left _ (horiginal g hg hig)) _ _).mono ?_
    rintro r w' ⟨hevolves,hok⟩
    refine ⟨hevolves,fun hr => ?_⟩
    obtain ⟨x,hx,hgroups⟩ := hok hr
    refine ⟨x,h.name ▸ hx,fun ig hig => hgroups ig ?_⟩
    -- An instance group that is there already is kept as one of the original ones.
    by_cases hthere : ig ∈ be.backends.map Backend.group
    · exact List.mem_append_left _ (horiginal ig hthere (higs ig hig))
    · exact List.mem_append_right _ (List.mem_filter.mpr ⟨hig,decide_eq_true hthere⟩)

theorem evolves_ensureHealthCheck (b : Backends) (loses : Str → Prop) (prober : Option (ServicePort → Except GoError (Option Probe)))
    (sp : ServicePort) : Respects (Pool.Evolves b loses) (b.ensureHealthCheck prober sp) :=
  b.respects_ensureHealthCheck_of prober sp (evolves_onHealth _) fun _ _ => evolves_onHealth _

theorem ensureBackendService_evolves (b : Backends) (loses : Str → Prop) (prober : Option (ServicePort → Except GoError (Option Probe))) {igs : List Str}
    (higs : ∀ ig ∈ igs, IsInstanceGroup ig) {p : ServicePort} (hint : IsInt64 p.port) (w : Pool) :
    Ensures (b.ensureBackendService prober igs p) w (fun r w' => w.Evolves b loses w' ∧
      (r = .ok () → igs ≠ [] → p.negEnabled = false → w'.HasGroups (b.namer.backend p.port) igs)) := by
  rw [ensureBackendService,ensures_deferring,ensures_bind]
  refine (evolves_ensureHealthCheck b loses prober p w).mono ?_
  intro r w₁ h₁
  have htracked : ∀ w' : Pool, w.Evolves b loses w' → w.Evolves b loses (w'.track (portKey p.port)) := by
    intro w' h
    have htrack : w'.Evolves b loses (w'.track (portKey p.port)) := evolves_of_items rfl
    exact trans_of _ h htrack
  cases r with
  | error e => exact ⟨htracked w₁ h₁,fun h => by cases h⟩
  | ok hcLink =>
    rw [afterwards_ok,ensures_bind]
    refine (getOrCreate_evolves loses hint hcLink w₁).mono ?_
    rintro r w₂ ⟨h₂,hholds₂⟩
    cases r with
    | error e => exact ⟨htracked w₂ (trans_of _ h₁ h₂),fun h => by cases h⟩
    | ok be =>
      rw [afterwards_ok,ensures_bind]
      refine (refresh_evolves loses (hholds₂ be rfl) p hcLink).mono ?_
      rintro r w₃ ⟨h₃,hholds₃⟩
      cases r with
      | error e => exact ⟨htracked w₃ (trans_of _ (trans_of _ h₁ h₂) h₃),fun h => by cases h⟩
      | ok be' =>
        have hholds := hholds₃ be' rfl
        have hsofar := trans_of (Pool.Evolves b loses) (trans_of _ h₁ h₂) h₃
        have hdrop : Respects (Unmoved Pool.services) (b.dropLegacy be p hcLink) :=
          Respects.onlyIf (Respects.rescue (fun _ => rfl) fun _ => respects_pure ())
        rw [afterwards_ok,ensures_bind]
        refine (hdrop w₃).mono ?_
        intro r w₄ h₄
        have h₄' : w.Evolves b loses w₄ := trans_of _ hsofar (evolves_of_items (congrArg Store.items h₄))
        cases r with
        | error e => exact ⟨htracked w₄ h₄',fun h => by cases h⟩
        | ok _ =>
          have hholds₄ : w₄.Holds b p.port be' := by
            obtain ⟨hname,x,hx,hrest⟩ := hholds
            exact ⟨hname,x,by rw [h₄]; exact hx,hrest⟩
          rw [afterwards_ok,ensures_onlyIf]
          constructor
          · intro _
            refine (edgeHop_evolves loses hholds₄ higs).mono ?_
            rintro r w₅ ⟨h₅,hok⟩
            exact ⟨htracked w₅ (trans_of _ h₄' h₅),fun hr _ _ => hok hr⟩
          · intro hskip
            refine ⟨htracked w₄ h₄',fun _ hne hneg => ?_⟩
            cases igs with
            | nil => exact absurd rfl hne
            | cons ig igs => simp [hneg] at hskip

theorem evolves_ensure {svcPorts : List ServicePort} (hports : ∀ p ∈ svcPorts, IsInt64 p.port) {around : Surroundings}
    (higs : ∀ igs, around.instanceGroups = .ok igs → ∀ ig ∈ igs, IsInstanceGroup ig) :
    Respects (Pool.Evolves b loses) (b.ensure svcPorts around) := by
  unfold ensure
  cases hgroups : around.instanceGroups with
  | error e => exact respects_fail e
  | ok igs =>
    apply Respects.forEach
    intro p hp w
    exact (ensureBackendService_evolves b loses around.prober (higs igs hgroups) (hports p hp) w).mono fun _ _ h => h.1

/-- Without an error, the backend services of all ports have the instance groups. -/
theorem ensure_hasGroups {svcPorts : List ServicePort} (hports : ∀ p ∈ svcPorts, IsInt64 p.port) {around : Surroundings}
    {igs : List Str} (hgroups : around.instanceGroups = .ok igs) (higs : ∀ ig ∈ igs, IsInstanceGroup ig) (hne : igs ≠ [])
    (w : Pool) : Ensures (b.ensure svcPorts around) w (fun r w' => r = .ok () → ∀ p ∈ svcPorts, p.negEnabled = false →
      w'.HasGroups (b.namer.backend p.port) igs) := by
  rw [ensure,hgroups]
  dsimp only
  apply forEach_all
  · intro p hp w
    exact (ensureBackendService_evolves b (fun _ => False) around.prober higs (hports p hp) w).mono
      fun _ _ h hr => h.2 hr hne
  · intro p hp q w hq hneg
    exact (hq hneg).evolves (ensureBackendService_evolves b (fun _ => False) around.prober higs (hports p hp) w).1
      id higs

end Groups

/-! ## Operations that lose backend services -/

section Losses
variable {b : Backends} {w : Pool}

theorem evolves_of_shrinks {loses : Str → Prop} {w' : Pool} (h : w.Shrinks w')
    (hkept : ∀ name, ¬loses name → w'.services.items name = w.services.items name) : w.Evolves b loses w' := by
  constructor
  · intro name x hname hx
    exact ⟨x,(hkept name hname).trans hx,rfl,fun _ hg _ => hg⟩
  · intro hnamed port x hport hx
    rcases (h (b.namer.backend port)).1 with hsame | hnone
    · exact hnamed port x hport (hsame.symm.trans hx)
    · cases hnone.symm.trans hx

theorem evolves_delete (b : Backends) (port : ℤ) : Respects (Pool.Evolves b (· = b.namer.backend port)) (b.delete port) := by
  intro w
  refine (b.delete_ensures port w).mono ?_
  intro r w' h
  exact evolves_of_shrinks h.shrinks fun name hname => (h.items_of_ne hname).1

/-- A collection may lose every backend service but those of the known ports. -/
theorem evolves_gc (b : Backends) (o : Iteration Str) (svcPorts : List ServicePort) :
    Respects (Pool.Evolves b (fun name => ∀ port, IsInt64 port → b.Known svcPorts port → name ≠ b.namer.backend port))
      (b.gc o svcPorts) := by
  intro w
  refine (b.gc_ensures o svcPorts w).mono ?_
  rintro r w' ⟨h,_⟩
  apply evolves_of_shrinks h.shrinks
  intro name hname
  push Not at hname
  obtain ⟨port,hport,hknown,rfl⟩ := hname
  exact (h.untouched port hport hknown).1

/-- `Link` loses the instance groups of the port's backend service. -/
theorem evolves_link (b : Backends) (md5 : MD5) (getNetworkEndpointGroup : Str → Str → Except GoError Str)
    (port : ServicePort) (zones : List Str) :
    Respects (Pool.Evolves b (fun name => port.negEnabled = true ∧ name = b.namer.backend port.port))
      (b.link md5 getNetworkEndpointGroup port zones) := by
  unfold link
  cases hneg : port.negEnabled with
  | false => exact respects_pure ()
  | true =>
    simp only [Bool.not_true,Bool.false_eq_true,if_false,true_and]
    cases b.namer.neg md5 ⟨port.svcNamespace,port.svcName,port.svcTargetPort⟩ with
    | none => exact respects_fail _
    | some negName =>
      dsimp only
      cases zones.mapM (getNetworkEndpointGroup negName) with
      | error e => exact respects_fail e
      | ok negs =>
        intro w
        rw [ensures_bind]
        refine (read_holds b port.port w).mono ?_
        rintro r w₁ ⟨hsame,hholds⟩
        have hread : w.Evolves b (· = b.namer.backend port.port) w₁ := evolves_of_items hsame
        cases r with
        | error e => exact hread
        | ok be =>
          obtain ⟨hname,x,hx,hport,_⟩ := hholds be rfl
          rw [afterwards_ok,ensures_onlyIf]
          refine ⟨fun _ => ?_,fun _ => hread⟩
          refine (update_cases { be with backends := getBackendsForNEGs negs } w₁).mono ?_
          rintro r w₂ ⟨hcases,_⟩
          apply trans_of _ hread
          rcases hcases with hitems | ⟨y,hy,hitems⟩
          · exact evolves_of_items hitems
          · have hsame' : x = y := Option.some.inj (hx.symm.trans (hname ▸ hy))
            exact evolves_of_update hy (hsame' ▸ hport) (fun hkept => absurd hname hkept) hitems

end Losses
end IngressGce.Backends
