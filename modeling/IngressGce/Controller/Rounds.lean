import IngressGce.Controller.Deployment

/-! # What a sync keeps

Syncs of other Ingresses work on the same pools. What is to be kept is said in advance:
instance groups, backend services and what certain url maps have to say. A round keeps it,
wherever it fails, if nothing of it is collected, taken over by a network endpoint group or
rewritten in this round.
-/
namespace IngressGce
open Kube Prog Routing

/-- What is to be kept: instance groups and backend services by name, and for url maps what
they have to say. -/
structure Concern where
  groups : Str → Prop
  services : Str → Prop
  routes : Str → Routing.UrlMap → Prop

/-- What is to be kept is kept, and the pools stay sound. -/
structure Pools.Keeps {ρ : Type} (c : Cluster) (keys : Str → Prop) (k : Concern) (w w' : Pools ρ) : Prop where
  groups : w.groups.Moves (fun name => ¬k.groups name) w'.groups
  backends : w.backends.Evolves c.backendPool (fun name => ¬k.services name) w'.backends
  sound : w.fronts.Sound c.namer keys → w'.fronts.Sound c.namer keys
  routed : w.fronts.Sound c.namer keys → ∀ name um, w.fronts.urlMaps.items name = some um → k.routes name um →
    ∃ um', w'.fronts.urlMaps.items name = some um' ∧ k.routes name um'

namespace Pools
variable {ρ ε α : Type} {c : Cluster} {keys : Str → Prop} {k : Concern}

instance (c : Cluster) (keys : Str → Prop) (k : Concern) : IsPreorder (Pools ρ) (Keeps c keys k) where
  refl w := ⟨refl_of _ w.groups,refl_of _ w.backends,id,fun _ _ um hum hroutes => ⟨um,hum,hroutes⟩⟩
  trans w w₁ w₂ h h' := by
    refine ⟨trans_of _ h.groups h'.groups,trans_of _ h.backends h'.backends,fun hs => h'.sound (h.sound hs),?_⟩
    intro hs name um hum hroutes
    obtain ⟨um₁,hum₁,hroutes₁⟩ := h.routed hs name um hum hroutes
    exact h'.routed (h.sound hs) name um₁ hum₁ hroutes₁

theorem keeps_onGroups {m : GroupM α} (hm : Respects (GroupPool.Moves (fun name => ¬k.groups name)) m) :
    Respects (Keeps c keys k) (onGroups m : Prog (Pools ρ) GoError α) :=
  hm.onPart fun w _ h => ⟨h,refl_of _ w.backends,id,fun _ _ um hum hroutes => ⟨um,hum,hroutes⟩⟩

theorem keeps_onBackends {m : Backends.PoolM α}
    (hm : Respects (Backends.Pool.Evolves c.backendPool (fun name => ¬k.services name)) m) :
    Respects (Keeps c keys k) (onBackends m : Prog (Pools ρ) GoError α) :=
  hm.onPart fun w _ h => ⟨refl_of _ w.groups,h,id,fun _ _ um hum hroutes => ⟨um,hum,hroutes⟩⟩

/-- The pool of the default backend has the same namer and the same services. -/
theorem keeps_onDefaults {m : Backends.PoolM α}
    (hm : Respects (Backends.Pool.Evolves c.defaultBackendPool (fun name => ¬k.services name)) m) :
    Respects (Keeps c keys k) (onDefaults m : Prog (Pools ρ) GoError α) :=
  hm.onPart fun w _ h =>
    ⟨refl_of _ w.groups,⟨h.kept,h.named⟩,id,fun _ _ um hum hroutes => ⟨um,hum,hroutes⟩⟩

theorem keeps_onFronts {m : Prog (Fronts Backends.BackendService ρ) ε α} {touched : Str → Prop}
    (hm : Respects (Fronts.Moves c.namer keys touched) m) (htouched : ∀ name, touched name → ∀ um, ¬k.routes name um) :
    Respects (Keeps c keys k) (onFronts m) := by
  apply hm.onPart
  intro w f h
  refine ⟨refl_of _ w.groups,refl_of _ w.backends,h.sound,?_⟩
  intro hs name um hum hroutes
  exact ⟨um,h.kept hs name um (fun ht => htouched name ht um hroutes) hum,hroutes⟩

theorem keeps_onRest (m : Prog ρ ε α) : Respects (Keeps c keys k) (onRest m) := by
  intro w
  have hfronts : w.fronts.Moves c.namer keys (fun _ => False) { w.fronts with rest := (m w.fronts.rest).2 } :=
    ⟨fun hs => ⟨hs.stored,hs.entries⟩,fun _ _ _ _ hum => hum⟩
  exact ⟨refl_of _ w.groups,refl_of _ w.backends,hfronts.sound,fun _ _ um hum hroutes => ⟨um,hum,hroutes⟩⟩

theorem keeps_setDefaultBackend (be : Option Backends.BackendService) :
    Respects (Keeps c keys k) (setDefaultBackend be : Prog (Pools ρ) GoError Unit) :=
  fun w => ⟨refl_of _ w.groups,refl_of _ w.backends,fun hs => ⟨hs.stored,hs.entries⟩,
    fun _ _ um hum hroutes => ⟨um,hum,hroutes⟩⟩

end Pools

namespace Round
variable {ρ : Type} {c : Cluster} {keys : Str → Prop} {k : Concern} {r : Round ρ}

/-- The url map is one that the round makes for the Ingress, for some answers of the pool. -/
def Renders (c : Cluster) (r : Round ρ) (ing : Ingress) (um : Routing.UrlMap) : Prop :=
  ∃ s g s' old link um', (r.translator c).toURLMap ing s = (.ok g,s') ∧
    render c.md5 (fun be => be.selfLink) r.urlMapOrders old g.getDefaultBackend.2 link = some um' ∧
    mapsEqual um um' = true

/-- What the round may lose is not to be kept. -/
structure Harmless (c : Cluster) (keys : Str → Prop) (k : Concern) (r : Round ρ) : Prop where
  known : ∀ ing ∈ r.store.items, keys ing.key
  groups : r.store.items = [] → ¬k.groups c.namer.instanceGroup
  default : r.store.items = [] → ¬k.services (c.namer.backend c.defaultBackendNodePort.port)
  negs : ∀ ing ∈ r.store.items, ∀ sp ∈ (r.translator c).ingressToNodePorts ing, sp.negEnabled = true →
    ¬k.services (c.namer.backend sp.port)
  services : ∀ name, k.services name → ∃ port, IsInt64 port ∧
    c.backendPool.Known ((r.translator c).toNodePorts r.store.listAll) port ∧ name = c.namer.backend port
  routes : ∀ key um, keys key → k.routes (c.urlMap key) um →
    c.namer.loadBalancer key ∈ r.store.listKeys.map c.namer.loadBalancer
  updates : ∀ ing um old, r.store.getByKey r.key = some ing → k.routes (c.urlMap r.key) old → r.Renders c ing um →
    k.routes (c.urlMap r.key) um

theorem keeps_ensureInstanceGroupsAndPorts {ports : List ℤ} (hports : ports.Nodup) :
    Respects (Pools.Keeps c keys k) (r.ensureInstanceGroupsAndPorts c ports) :=
  (Pools.keeps_onGroups (Instances.respects_ensureInstanceGroupsAndPorts hports r.zones c.namer.instanceGroup)).bind
    fun _ => respects_pure _

theorem keeps_instanceGroupsFor {svcPorts : List Backends.ServicePort} (hports : (svcPorts.map (fun p => p.port)).Nodup)
    (igs : List InstanceGroup) : Respects (Pools.Keeps c keys k) (r.instanceGroupsFor c svcPorts igs) :=
  Respects.ite (keeps_ensureInstanceGroupsAndPorts hports) (respects_pure igs)

theorem isInstanceGroup_surroundings (igs : List InstanceGroup)
    (prober : Option (Backends.ServicePort → Except GoError (Option Backends.Probe))) {links : List Str}
    (h : (surroundings c igs prober).instanceGroups = .ok links) : ∀ ig ∈ links, Backends.IsInstanceGroup ig := by
  obtain rfl := Except.ok.inj h
  intro link hlink
  obtain ⟨ig,_,rfl⟩ := List.mem_map.mp hlink
  exact c.isInstanceGroup_groupLink ig.name ig.zone

theorem keeps_ensureBackends {svcPorts : List Backends.ServicePort} (hports : (svcPorts.map (fun p => p.port)).Nodup)
    (hint : ∀ p ∈ svcPorts, IsInt64 p.port) (igs : List InstanceGroup) :
    Respects (Pools.Keeps c keys k) (r.ensureBackends c svcPorts igs) := by
  apply (keeps_instanceGroupsFor hports igs).bind
  intro igs'
  apply Pools.keeps_onBackends
  exact Backends.evolves_ensure hint fun _ => isInstanceGroup_surroundings igs' _

theorem keeps_syncL7s (hkeys : Fronts.Settled c.namer keys) {lbs : List L7RuntimeInfo} (hlbs : ∀ ri ∈ lbs, keys ri.name) :
    Respects (Pools.Keeps c keys k) (r.syncL7s c lbs) := by
  have hdefault : Respects (Pools.Keeps c keys k) (r.ensureDefaultBackend c) := by
    have hnodup : ([c.defaultBackendNodePort].map (fun p => p.port)).Nodup := List.nodup_singleton _
    apply (keeps_instanceGroupsFor hnodup []).bind
    intro igs
    apply Pools.keeps_onDefaults
    apply Backends.evolves_ensure
    · intro p hp
      rw [List.mem_singleton.mp hp]
      exact c.default_isInt64
    · exact fun _ => isInstanceGroup_surroundings igs _
  apply Respects.bind
  · apply Respects.onlyIf
    apply hdefault.bind
    intro _
    apply (Pools.keeps_onDefaults (Backends.evolves_get _ _)).bind
    intro be
    exact Pools.keeps_setDefaultBackend (some be)
  · intro _
    apply Respects.forEach
    intro ri hri
    exact Pools.keeps_onFronts (Fronts.add_moves (fun _ => False) hkeys (hlbs ri hri) _ r.hops) fun _ => False.elim

theorem keeps_gcL7s (hkeys : Fronts.Settled c.namer keys) (h : r.Harmless c keys k) :
    Respects (Pools.Keeps c keys k) (r.gcL7s c r.store.listKeys) := by
  apply Respects.bind
  · apply Pools.keeps_onFronts (Fronts.deleteUnknown_moves hkeys r.dispose r.frontOrder _)
    rintro name ⟨key,hkey,hunknown,rfl⟩ um hroutes
    exact hunknown (h.routes key um hkey hroutes)
  · intro _
    unfold onlyIf
    split
    · rename_i hempty
      have hitems : r.store.items = [] := List.map_eq_nil_iff.mp (List.isEmpty_iff.mp hempty)
      have hdelete : Respects (Pools.Keeps c keys k)
          (Pools.onDefaults (c.defaultBackendPool.delete c.defaultBackendNodePort.port) : Prog (Pools ρ) GoError Unit) := by
        apply Pools.keeps_onDefaults
        intro w
        refine (Backends.evolves_delete c.defaultBackendPool _ w).mono fun _ _ hevolves => hevolves.mono ?_
        rintro name rfl
        exact h.default hitems
      exact hdelete.bind fun _ => Pools.keeps_setDefaultBackend none
    · exact respects_pure ()

section Update
variable {key : Str} {ing : Ingress}

/-- The url map of the load balancer is put, or all is as before. -/
theorem updateUrlMap_keeps {w : Pools ρ} {lb : Ref} {g : GCEURLMap Backends.BackendService} {s s' : Pools ρ}
    (hg : (r.translator c).toURLMap ing s = (.ok g,s'))
    (hlb : w.fronts.Sound c.namer keys → Fronts.Carries (c.namer.loadBalancer key) lb w.fronts)
    (hupdates : ∀ um old, k.routes (c.urlMap key) old → r.Renders c ing um → k.routes (c.urlMap key) um) :
    Ensures (r.updateUrlMap c lb g) w (fun res w' => w.Keeps c keys k w' ∧
      (res = .ok () → w.fronts.Sound c.namer keys →
        ∃ um, w'.fronts.urlMaps.items (c.urlMap key) = some um ∧ r.Renders c ing um)) := by
  by_cases hs : w.fronts.Sound c.namer keys
  · rw [updateUrlMap,ensures_mapFailure,Pools.onFronts,ensures_onPart]
    refine (Fronts.updateUrlMap_ensures c.md5 (fun be => be.selfLink) r.urlMapOrders g (hlb hs)).mono ?_
    rintro res f ⟨hsteps,hitems,hok⟩
    have hmoves : w.fronts.Moves c.namer keys (· = c.urlMap key) f := hsteps.moves
    refine ⟨⟨refl_of _ w.groups,refl_of _ w.backends,hmoves.sound,?_⟩,?_⟩
    · intro _ name um hum hroutes
      by_cases hname : name = c.urlMap key
      · subst hname
        rcases hitems with hsame | ⟨old,um',link,hrender,hitem⟩
        · exact ⟨um,hsame.trans hum,hroutes⟩
        · refine ⟨um',hitem,hupdates um' um hroutes ⟨s,g,s',old,link,um',hg,hrender,?_⟩⟩
          exact (mapsEqual_iff um' um').mpr ⟨rfl,rfl,rfl⟩
      · exact ⟨um,hmoves.kept hs name um hname hum,hroutes⟩
    · intro hres _
      cases res with
      | error e => cases hres
      | ok _ =>
        obtain ⟨old,um',link,m,hrender,hm,hsame⟩ := hok rfl
        exact ⟨m,hm,s,g,s',old,link,um',hg,hrender,hsame⟩
  · exact ⟨⟨refl_of _ w.groups,refl_of _ w.backends,fun h => absurd h hs,fun h => absurd h hs⟩,fun _ h => absurd h hs⟩

theorem getL7_ensures (c : Cluster) (keys : Str → Prop) (key : Str) (w : Pools ρ) :
    Ensures (getL7 c key) w (fun res w' => w' = w ∧ ∀ lb, res = .ok lb →
      w.fronts.Sound c.namer keys → Fronts.Carries (c.namer.loadBalancer key) lb w.fronts) := by
  rw [getL7,Pools.onFronts,ensures_onPart]
  refine (Fronts.get_ensures c.namer key w.fronts).mono ?_
  rintro res f ⟨rfl,hlookup⟩
  exact ⟨rfl,fun lb hlb hs => (hs.entries _ lb (hlookup lb hlb)).2⟩

/-- The translation does not touch the load balancers. -/
theorem toURLMap_ensures (c : Cluster) (keys : Str → Prop) (k : Concern) (r : Round ρ) (ing : Ingress) (w : Pools ρ) :
    Ensures ((r.translator c).toURLMap ing) w (fun res w' =>
      w.Keeps c keys k w' ∧ w'.fronts = w.fronts ∧ (r.translator c).toURLMap ing w = (res,w')) := by
  have hkeeps : Respects (Pools.Keeps c keys k) ((r.translator c).toURLMap ing) := by
    apply GCETranslator.toURLMap_respects
    exact fun port => Pools.keeps_onBackends (Backends.evolves_get c.backendPool port)
  have hfronts : Respects (Unmoved Pools.fronts) ((r.translator c).toURLMap ing) := by
    apply GCETranslator.toURLMap_respects
    exact fun port w => rfl
  exact (hkeeps w).and ((hfronts w).and (ensures_run _ w))

theorem updateL7_ensures (keys : Str → Prop)
    (hupdates : ∀ um old, k.routes (c.urlMap key) old → r.Renders c ing um → k.routes (c.urlMap key) um)
    (earlier : Option SyncError) (j : Journal (Pools ρ)) :
    Ensures ((r.controller c).updateL7 earlier key ing) j (fun res j' => j.world.Keeps c keys k j'.world ∧
      (res = .ok () → j.world.fronts.Sound c.namer keys →
        ∃ um, j'.world.fronts.urlMaps.items (c.urlMap key) = some um ∧ r.Renders c ing um)) := by
  unfold LoadBalancerController.updateL7
  rw [ensures_bind,ensures_mapFailure,Journal.ensures_run]
  refine (getL7_ensures c keys key j.world).mono ?_
  rintro res w₁ ⟨rfl,hlb⟩
  cases res with
  | error e => exact ⟨refl_of _ j.world,nofun⟩
  | ok lb =>
    unfold Except.mapError
    rw [afterwards_ok,ensures_bind,ensures_mapFailure,Journal.ensures_run]
    refine (toURLMap_ensures c keys k r ing j.world).mono ?_
    rintro res w₂ ⟨h₂,hfronts,hrun⟩
    cases res with
    | error e => exact ⟨h₂,nofun⟩
    | ok g =>
      unfold Except.mapError
      rw [afterwards_ok,ensures_bind,ensures_mapFailure,Journal.ensures_run]
      rw [← hfronts] at hlb
      refine (updateUrlMap_keeps hrun (hlb lb rfl) hupdates).mono ?_
      rintro res w₃ ⟨h₃,hput⟩
      have h₂₃ : j.world.Keeps c keys k w₃ := trans_of _ h₂ h₃
      cases res with
      | error e => exact ⟨h₂₃,nofun⟩
      | ok _ =>
        unfold Except.mapError
        rw [afterwards_ok,ensures_mapFailure,Journal.ensures_run]
        refine ⟨trans_of _ h₂₃ (Pools.keeps_onRest (r.updateIngressStatus lb ing) w₃),?_⟩
        intro _ hs
        exact hput rfl (h₂.sound hs)

end Update

theorem isInt64_of_mem_toNodePorts {ings : List Ingress} {sp : Backends.ServicePort}
    (hsp : sp ∈ (r.translator c).toNodePorts ings) : IsInt64 sp.port := by
  obtain ⟨ing,_,hmem⟩ := List.mem_flatMap.mp hsp
  exact GCETranslator.isInt64_of_mem_ports hmem

/-- A harmless round keeps what is to be kept, with each of its calls. -/
theorem respected (hkeys : Fronts.Settled c.namer keys) (h : r.Harmless c keys k) :
    (r.controller c).Respected (Pools.Keeps c keys k) r.store r.key where
  ensureGroups _ hports := keeps_ensureInstanceGroupsAndPorts hports
  ensureBackends igs := by
    apply keeps_ensureBackends LoadBalancerController.nodup_ports_uniq
    intro sp hsp
    exact isInt64_of_mem_toNodePorts (lastWith_spec (mem_uniq.mp hsp)).1
  syncInstances nodeNames w := Pools.keeps_onRest (r.syncInstances w.groups.snapshotter nodeNames) w
  syncL7s := by
    apply keeps_syncL7s hkeys
    intro ri hri
    obtain ⟨ing,hing,rfl⟩ := List.mem_map.mp hri
    exact h.known ing (List.mem_filter.mp hing).1
  syncFirewall ports nodeNames := Pools.keeps_onRest _
  annotations ing igs := (Pools.keeps_onRest _).bind fun _ => (Pools.keeps_onRest _).onlyIf
  link ing hing sp hsp hneg zones := by
    apply Pools.keeps_onBackends
    intro w
    refine (Backends.evolves_link c.backendPool c.negMD5 r.getNetworkEndpointGroup sp zones w).mono
      fun _ _ hevolves => hevolves.mono ?_
    rintro name ⟨_,rfl⟩
    exact h.negs ing (List.mem_of_find?_eq_some hing) sp hsp hneg
  updateL7 ing hing earlier j := by
    have hworld := updateL7_ensures keys (fun um old => h.updates ing um old hing) earlier j
    refine (hworld.and ((r.controller c).open_updateL7 earlier r.key ing j)).mono ?_
    rintro res j' ⟨⟨hkeeps,_⟩,calls,hevents,_⟩
    refine ⟨hkeeps,?_⟩
    intro e he
    rw [hevents]
    exact List.mem_append_right _ he
  gcL7s := keeps_gcL7s hkeys h
  gcBackends := by
    apply Pools.keeps_onBackends
    intro w
    refine (Backends.evolves_gc c.backendPool r.backendOrder _ w).mono fun _ _ hevolves => hevolves.mono ?_
    intro name hlost hservices
    obtain ⟨port,hint,hknown,hname⟩ := h.services name hservices
    exact hlost port hint hknown hname
  deleteGroup hempty := by
    apply Pools.keeps_onGroups
    intro w
    refine (Instances.respects_deleteInstanceGroup r.isInUsedByError r.zones c.namer.instanceGroup w).mono
      fun _ _ hmoves => hmoves.mono ?_
    rintro name rfl
    exact h.groups (List.map_eq_nil_iff.mp (List.isEmpty_iff.mp hempty))

/-- A harmless round keeps what is to be kept. -/
theorem step_keeps (hkeys : Fronts.Settled c.namer keys) (h : r.Harmless c keys k) (w : Pools ρ) :
    w.Keeps c keys k (step c w r) :=
  (LoadBalancerController.respects_sync (respected hkeys h) (Journal.start w)).1

theorem run_keeps (hkeys : Fronts.Settled c.namer keys) {rounds : List (Round ρ)}
    (h : ∀ r ∈ rounds, r.Harmless c keys k) (w : Pools ρ) : w.Keeps c keys k (Runs.final (step c) w rounds) := by
  induction rounds generalizing w with
  | nil => exact refl_of _ w
  | cons r rest ih =>
    apply trans_of _ (step_keeps hkeys (h r List.mem_cons_self) w)
    exact ih (fun r hr => h r (List.mem_cons_of_mem _ hr)) _

end Round
end IngressGce
