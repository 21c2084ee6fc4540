import IngressGce.Controller.Rounds

/-! # Where requests arrive

A request for a host and a path of an Ingress goes through the url map to a backend service,
from there to an instance group of a zone, and in it to the port that has the name the
backend service asks for. All three are made by different calls of a sync, from different
reads of the Ingress and its Services. If one sync has gone through then requests arrive at
the node port of the Service, also while later syncs fail and work on other Ingresses.
-/
namespace IngressGce
open Kube Prog Routing

/-- The service that a url map has for a path of a host. -/
def Routing.UrlMap.serviceFor (um : Routing.UrlMap) (host path : Str) : Str :=
  match um.hostRules.find? (fun hr => host ∈ hr.hosts) with
  | none => um.defaultService
  | some hr =>
    match um.pathMatchers.find? (fun pm => pm.name = hr.pathMatcher) with
    | none => um.defaultService
    | some pm =>
      match pm.pathRules.find? (fun pr => path ∈ pr.paths) with
      | none => pm.defaultService
      | some pr => pr.service

/-- The port that the Ingress has for a path of a host: the last rule of the host counts,
and in it the last path that resolves. -/
def GCETranslator.portFor {σ β : Type} (t : GCETranslator σ β) (ing : Ingress) (host path : Str) :
    Option Backends.ServicePort := do
  let (_,rule) ← GCETranslator.lastRule ing host
  let (_,p) ← t.lastPath ing.namespaced rule.paths path
  (t.getServiceNodePort p.backend ing.namespaced).toOption

/-- The node port at which requests for a path of an Ingress arrive in a zone. -/
def Pools.deliver {ρ : Type} (c : Cluster) (w : Pools ρ) (key host path zone : Str) : Option ℤ := do
  let um ← w.fronts.urlMaps.items (c.urlMap key)
  let be ← w.backends.services.items (c.serviceName (um.serviceFor host path))
  let ports ← w.groups.groups.items (c.namer.instanceGroup,zone)
  if c.groupLink c.namer.instanceGroup zone ∈ be.object.groups then
    (ports.find? (fun np => np.name = be.object.portName)).map NamedPort.port
  else none

theorem find?_of_filter {α : Type} {p : α → Bool} {xs : List α} {x : α} (h : xs.filter p = [x]) : xs.find? p = some x := by
  rw [← List.head?_filter,h]
  rfl

/-! ## What a url map has to say -/

section Routed
variable {σ β ρ : Type} {t : GCETranslator σ β} {selfLink : β → Str} {ing : Ingress} {host path : Str}
  {sp : Backends.ServicePort}

theorem GCETranslator.exists_of_portFor (h : t.portFor ing host path = some sp) :
    ∃ before rule before' p, GCETranslator.lastRule ing host = some (before,rule) ∧
      t.lastPath ing.namespaced rule.paths path = some (before',p) ∧ t.getServiceNodePort p.backend ing.namespaced = .ok sp := by
  obtain ⟨⟨before,rule⟩,hrule,h⟩ := Option.bind_eq_some_iff.mp h
  obtain ⟨⟨before',p⟩,hp,h⟩ := Option.bind_eq_some_iff.mp h
  refine ⟨before,rule,before',p,hrule,hp,?_⟩
  dsimp only at h
  cases hsp : t.getServiceNodePort p.backend ing.namespaced with
  | error e =>
    rw [hsp] at h
    cases h
  | ok sp' =>
    rw [hsp] at h
    rw [Option.some.inj h]

theorem GCETranslator.mem_of_portFor (h : t.portFor ing host path = some sp) : sp ∈ t.ingressToNodePorts ing := by
  obtain ⟨before,rule,before',p,hrule,hp,hsp⟩ := exists_of_portFor h
  apply List.mem_append_right
  apply List.mem_flatMap.mpr ⟨rule,(lastWrite_spec hrule).1,_⟩
  exact List.mem_flatMap.mpr ⟨p,(lastWrite_spec hp).1,mem_portOf.mpr hsp⟩

/-- A path is sent to the backend that the pool has for its port. -/
theorem Routing.Routes.serviceFor {s : σ} {defaultService : Str} {um : Routing.UrlMap}
    (h : Routes t selfLink ing s defaultService um) (hport : t.portFor ing host path = some sp) :
    ∃ be s₁ s₂, t.backendPool sp.port s₁ = (.ok be,s₂) ∧ um.serviceFor host path = selfLink be := by
  obtain ⟨before,rule,before',p,hrule,hp,hsp⟩ := GCETranslator.exists_of_portFor hport
  obtain ⟨hr,pm,hhost,_,hmatcher,hpaths⟩ := h.host host before rule hrule
  obtain ⟨be,hanswer,hrules⟩ := hpaths.backend path before' p hp
  obtain ⟨sp',hsp',s₂,hpool⟩ := GCETranslator.answered_of_toGCEBackend hanswer
  obtain rfl : sp' = sp := Except.ok.inj ((GCETranslator.mem_portOf.mp hsp').symm.trans hsp)
  refine ⟨be,_,s₂,hpool,?_⟩
  unfold Routing.UrlMap.serviceFor
  rw [find?_of_filter hhost]
  dsimp only
  rw [find?_of_filter hmatcher]
  dsimp only
  rw [find?_of_filter hrules]

/-- The url map sends the paths to the backend services of their ports. -/
def Routed (c : Cluster) (ports : Str → Str → Option Backends.ServicePort) (um : Routing.UrlMap) : Prop :=
  ∀ host path sp, ports host path = some sp → um.serviceFor host path = c.serviceLink (c.namer.backend sp.port)

theorem Round.Renders.routed {c : Cluster} {r : Round ρ} {um : Routing.UrlMap} (h : r.Renders c ing um)
    (hmd5 : Distinguishes c.md5 ing) : Routed c ((r.translator c).portFor ing) um := by
  obtain ⟨s,g,s',old,link,um',hg,hrender,hsame⟩ := h
  have hroutes := (routes_of_render (GCETranslator.toURLMap_translates hg) hmd5 hrender).of_mapsEqual hsame
  intro host path sp hport
  obtain ⟨be,s₁,s₂,hpool,hservice⟩ := hroutes.serviceFor hport
  rw [hservice]
  have hanswer : (c.backendPool.get sp.port s₁.backends).1 = .ok be := (congrArg Prod.fst hpool :)
  exact (Backends.get_named (Prod.ext hanswer rfl)).2

end Routed

/-! ## What requests rest on -/

section Requests
variable {ρ : Type} {c : Cluster} {keys : Str → Prop} {ing : Ingress} {ports : Str → Str → Option Backends.ServicePort}
  {r : Round ρ} {zones : List Str}

/-- A path that has a port of this number, on the nodes. -/
def OnNodes (ports : Str → Str → Option Backends.ServicePort) (port : ℤ) : Prop :=
  ∃ host path sp, ports host path = some sp ∧ sp.negEnabled = false ∧ port = sp.port

/-- What is to be kept for the requests of an Ingress with these ports. -/
def Concern.ofRequests (c : Cluster) (ing : Ingress) (ports : Str → Str → Option Backends.ServicePort) : Concern where
  groups name := name = c.namer.instanceGroup
  services name := ∃ port, OnNodes ports port ∧ name = c.namer.backend port
  routes name um := name = c.urlMap ing.key ∧ Routed c ports um

/-- The Ingresses have names that are told apart from this one's, and the hash tells its
hosts apart. -/
structure Cluster.Serves (c : Cluster) (keys : Str → Prop) (ing : Ingress) : Prop where
  settled : Fronts.Settled c.namer keys
  apart : ∀ key, keys key → c.urlMap key = c.urlMap ing.key → key = ing.key
  distinguishes : Distinguishes c.md5 ing
  gce : ing.isGCEIngress = true

/-- The round finds the Ingress, with these ports. No network endpoint group takes over one
of its ports on the nodes. -/
structure Round.Suits (c : Cluster) (keys : Str → Prop) (ing : Ingress) (ports : Str → Str → Option Backends.ServicePort)
    (r : Round ρ) : Prop where
  known : ∀ ing' ∈ r.store.items, keys ing'.key
  ingress : ing ∈ r.store.items
  found : (r.translator c).portFor ing = ports
  negs : ∀ ing' ∈ r.store.items, ∀ sp ∈ (r.translator c).ingressToNodePorts ing', sp.negEnabled = true →
    ¬OnNodes ports sp.port

theorem Round.Suits.mem (h : r.Suits c keys ing ports) {host path : Str} {sp : Backends.ServicePort}
    (hport : ports host path = some sp) : sp ∈ (r.translator c).ingressToNodePorts ing := by
  rw [← h.found] at hport
  exact GCETranslator.mem_of_portFor hport

theorem Round.Suits.isInt64 (h : r.Suits c keys ing ports) {port : ℤ} (hport : OnNodes ports port) : IsInt64 port := by
  obtain ⟨host,path,sp,hsp,_,rfl⟩ := hport
  exact GCETranslator.isInt64_of_mem_ports (h.mem hsp)

theorem IngressStore.eq_of_key {store : IngressStore} {ing ing' : Ingress} (hing : ing ∈ store.items)
    (hing' : ing' ∈ store.items) (hkey : ing'.key = ing.key) : ing' = ing :=
  List.inj_on_of_nodup_map store.distinct hing' hing hkey

/-- A round that finds the Ingress as it was does not harm its requests. -/
theorem Round.Suits.harmless (h : r.Suits c keys ing ports) (hing : c.Serves keys ing) :
    r.Harmless c keys (Concern.ofRequests c ing ports) where
  known := h.known
  groups hempty := by
    have hmem := h.ingress
    rw [hempty] at hmem
    cases hmem
  default hempty := by
    have hmem := h.ingress
    rw [hempty] at hmem
    cases hmem
  negs ing' hing' sp hsp hneg := by
    rintro ⟨port,hport,hname⟩
    obtain rfl := c.namer.backend_injective (GCETranslator.isInt64_of_mem_ports hsp) (h.isInt64 hport) hname
    exact h.negs ing' hing' sp hsp hneg hport
  services name := by
    rintro ⟨port,hport,rfl⟩
    refine ⟨port,h.isInt64 hport,?_,rfl⟩
    obtain ⟨host,path,sp,hsp,_,rfl⟩ := hport
    have hlisted : ing ∈ r.store.listAll := List.mem_filter.mpr ⟨h.ingress,by rw [hing.gce]; rfl⟩
    exact Or.inl ⟨sp,List.mem_flatMap.mpr ⟨ing,hlisted,h.mem hsp⟩,rfl⟩
  routes key um hkey := by
    rintro ⟨hname,_⟩
    rw [hing.apart key hkey hname]
    exact List.mem_map_of_mem (List.mem_map_of_mem h.ingress)
  updates ing' um old hget := by
    rintro ⟨hname,_⟩ hrenders
    have hmem := List.mem_of_find?_eq_some hget
    have hkey : ing'.key = r.key := by simpa using List.find?_some hget
    have hsame : r.key = ing.key := hing.apart r.key (hkey ▸ h.known ing' hmem) hname
    obtain rfl := IngressStore.eq_of_key h.ingress hmem (hkey.trans hsame)
    have hrouted := hrenders.routed hing.distinguishes
    rw [h.found] at hrouted
    exact ⟨hname,hrouted⟩

/-- The backend services of the ports have the instance groups of the zones, and these name
the ports. -/
structure Backed (c : Cluster) (ports : Str → Str → Option Backends.ServicePort) (zones : List Str) (w : Pools ρ) : Prop where
  backends : ∀ port, OnNodes ports port → ∀ zone ∈ zones,
    w.backends.HasGroups (c.namer.backend port) [c.groupLink c.namer.instanceGroup zone]
  groups : ∀ port, OnNodes ports port → ∀ zone ∈ zones, w.groups.Has (c.namer.instanceGroup,zone) [port]

theorem Backed.keeps {w w' : Pools ρ} (h : Backed c ports zones w) (hkeeps : w.Keeps c keys (Concern.ofRequests c ing ports) w') :
    Backed c ports zones w' where
  backends port hport zone hzone := by
    apply (h.backends port hport zone hzone).evolves hkeeps.backends
    · exact not_not.mpr ⟨port,hport,rfl⟩
    · intro ig hig
      rw [List.mem_singleton.mp hig]
      exact c.isInstanceGroup_groupLink _ zone
  groups port hport zone hzone := (h.groups port hport zone hzone).moves hkeeps.groups (not_not.mpr rfl)

/-- What holds of the pools at any time. -/
structure Pools.Sound (c : Cluster) (keys : Str → Prop) (w : Pools ρ) : Prop where
  groups : w.groups.Proper
  backends : w.backends.Named c.backendPool
  fronts : w.fronts.Sound c.namer keys

theorem Pools.Sound.keeps {w w' : Pools ρ} {k : Concern} (h : w.Sound c keys) (hkeeps : w.Keeps c keys k w') :
    w'.Sound c keys := ⟨hkeeps.groups.proper h.groups,hkeeps.backends.named h.backends,hkeeps.sound h.fronts⟩

/-- Url map, backend service and instance group together deliver a request. -/
theorem deliver_of_backed {w : Pools ρ} (hw : w.Sound c keys) (hbacked : Backed c ports zones w) {um : Routing.UrlMap}
    (hum : w.fronts.urlMaps.items (c.urlMap ing.key) = some um) (hrouted : Routed c ports um) {host path : Str}
    {sp : Backends.ServicePort} (hport : ports host path = some sp) (hneg : sp.negEnabled = false)
    (hint : IsInt64 sp.port) {zone : Str} (hzone : zone ∈ zones) : w.deliver c ing.key host path zone = some sp.port := by
  have hon : OnNodes ports sp.port := ⟨host,path,sp,hport,hneg,rfl⟩
  obtain ⟨be,hbe,hname,hgroups⟩ := (hbacked.backends _ hon zone hzone).named (b := c.backendPool) hw.backends hint
  obtain ⟨g,hg,hresolves⟩ := hw.groups.resolves (hbacked.groups _ hon zone hzone)
  have hservice : c.serviceName (um.serviceFor host path) = c.backendPool.namer.backend sp.port := by
    rw [hrouted host path sp hport,c.serviceName_serviceLink]
    rfl
  have hfind := find?_of_filter (hresolves sp.port List.mem_cons_self)
  unfold Pools.deliver
  rw [hum,Option.bind_eq_bind,Option.bind_some,hservice,hbe,Option.bind_eq_bind,Option.bind_some,hg,Option.bind_eq_bind,
    Option.bind_some,if_pos (hgroups _ List.mem_cons_self),hname,hfind]
  rfl

/-! ## What a sync brings about -/

theorem ensureGroups_ensures {portNumbers : List ℤ} (hports : portNumbers.Nodup) (hzones : r.zones = .ok zones) (w : Pools ρ) :
    Ensures (r.ensureInstanceGroupsAndPorts c portNumbers) w (fun res w' => ∀ igs, res = .ok igs →
      igs = zones.map (fun zone => { name := c.namer.instanceGroup, zone := zone }) ∧
      ∀ zone ∈ zones, w'.groups.Has (c.namer.instanceGroup,zone) portNumbers) := by
  rw [Round.ensureInstanceGroupsAndPorts,ensures_bind,Pools.onGroups,ensures_onPart,hzones]
  refine (Instances.ensureInstanceGroupsAndPorts_ensures hports zones c.namer.instanceGroup w.groups).mono ?_
  intro res g hensured
  cases res with
  | error e => exact nofun
  | ok igs =>
    obtain ⟨hnames,hhas⟩ := hensured igs rfl
    rintro igs' ⟨⟩
    refine ⟨?_,hhas⟩
    have hpairs := congrArg (List.map (fun e : Str × Str => InstanceGroup.mk e.1 e.2)) hnames
    rw [List.map_map,List.map_map] at hpairs
    exact hpairs

theorem ensureBackends_ensures {svcPorts : List Backends.ServicePort} (hint : ∀ p ∈ svcPorts, IsInt64 p.port)
    {igs : List InstanceGroup} (hne : igs ≠ []) (w : Pools ρ) :
    Ensures (r.ensureBackends c svcPorts igs) w (fun res w' => res = .ok () → ∀ p ∈ svcPorts, p.negEnabled = false →
      w'.backends.HasGroups (c.namer.backend p.port) (igs.map (fun ig => c.groupLink ig.name ig.zone))) := by
  have hgroups : r.instanceGroupsFor c svcPorts igs = pure igs := by
    unfold Round.instanceGroupsFor
    rw [if_neg (by simpa using hne)]
  rw [Round.ensureBackends,hgroups,ensures_bind,ensures_pure,afterwards_ok,Pools.onBackends,ensures_onPart]
  apply Backends.ensure_hasGroups hint rfl
  · exact Round.isInstanceGroup_surroundings igs none rfl
  · simpa using hne

/-- For a port of the list there is one of this number without repetition. -/
theorem exists_mem_uniq {o : Iteration Backends.ServicePort} {nodePorts : List Backends.ServicePort}
    {sp : Backends.ServicePort} (hsp : sp ∈ nodePorts) : ∃ sp' ∈ uniq o nodePorts, sp'.port = sp.port := by
  obtain ⟨sp',hlast⟩ : ∃ sp', lastWith Backends.ServicePort.port sp.port nodePorts = some sp' := lastWith_isSome hsp
  have hport := (lastWith_spec hlast).2
  rw [← hport] at hlast
  exact ⟨sp',mem_uniq.mpr hlast,hport⟩

/-- A port on the nodes is among those for which there are to be backend services. -/
theorem Round.Suits.exists_backendPort (h : r.Suits c keys ing ports) (hing : c.Serves keys ing)
    (o : Iteration Backends.ServicePort) {port : ℤ} (hport : OnNodes ports port) :
    ∃ sp ∈ uniq o ((r.translator c).toNodePorts r.store.listGCEIngresses), sp.port = port ∧ sp.negEnabled = false := by
  obtain ⟨host,path,sp,hsp,_,hnumber⟩ := id hport
  have hlisted : ing ∈ r.store.listGCEIngresses := List.mem_filter.mpr ⟨h.ingress,hing.gce⟩
  have hmem : sp ∈ (r.translator c).toNodePorts r.store.listGCEIngresses := List.mem_flatMap.mpr ⟨ing,hlisted,h.mem hsp⟩
  obtain ⟨sp',hsp',hsame⟩ := exists_mem_uniq (o := o) hmem
  rw [← hnumber] at hsame
  refine ⟨sp',hsp',hsame,?_⟩
  by_contra hneg
  obtain ⟨ing',hing',hport'⟩ := List.mem_flatMap.mp (lastWith_spec (mem_uniq.mp hsp')).1
  apply h.negs ing' (List.mem_filter.mp hing').1 sp' hport' (by simpa using hneg)
  rw [hsame]
  exact hport

/-- A port on the nodes is among those that the instance groups are to name. -/
theorem Round.Suits.mem_namedPorts (h : r.Suits c keys ing ports) (hing : c.Serves keys ing)
    (o : Iteration Backends.ServicePort) {port : ℤ} (hport : OnNodes ports port) :
    port ∈ (uniq o (if ((r.translator c).toNodePorts r.store.listAll).isEmpty then []
      else (r.translator c).toNodePorts r.store.listAll ++ [c.defaultBackendNodePort])).map (fun p => p.port) := by
  obtain ⟨host,path,sp,hsp,_,rfl⟩ := hport
  have hlisted : ing ∈ r.store.listAll := List.mem_filter.mpr ⟨h.ingress,by rw [hing.gce]; rfl⟩
  have hmem : sp ∈ (r.translator c).toNodePorts r.store.listAll := List.mem_flatMap.mpr ⟨ing,hlisted,h.mem hsp⟩
  rw [if_neg (by simpa using List.ne_nil_of_mem hmem)]
  obtain ⟨sp',hsp',hsame⟩ := exists_mem_uniq (o := o) (List.mem_append_left [c.defaultBackendNodePort] hmem)
  exact List.mem_map.mpr ⟨sp',hsp',hsame⟩

theorem syncPools_backed (hing : c.Serves keys ing) (h : r.Suits c keys ing ports) (hne : zones ≠ []) (nodeNames : List Str)
    {w : Pools ρ} (hhas : ∀ port, OnNodes ports port → ∀ zone ∈ zones, w.groups.Has (c.namer.instanceGroup,zone) [port]) :
    Ensures ((r.controller c).manager.syncPools ((r.controller c).checkpointInput r.store nodeNames)
      (zones.map (fun zone => { name := c.namer.instanceGroup, zone := zone }))) w (fun res w' =>
        (∀ e, res ≠ .error (.other e)) → Backed c ports zones w') := by
  have hrespected := Round.respected hing.settled (h.harmless hing)
  have hint : ∀ p ∈ uniq r.portOrder ((r.translator c).toNodePorts r.store.listGCEIngresses), IsInt64 p.port :=
    fun p hp => Round.isInt64_of_mem_toNodePorts (lastWith_spec (mem_uniq.mp hp)).1
  have higs : zones.map (fun zone => InstanceGroup.mk c.namer.instanceGroup zone) ≠ [] := by simpa using hne
  apply LoadBalancerController.ensures_other_bind
  refine ((hrespected.ensureBackends _ w).and (ensureBackends_ensures hint higs w)).mono ?_
  rintro res w₁ ⟨hkeeps,hok⟩ _ hres
  have hbacked : Backed c ports zones w₁ := by
    constructor
    · intro port hport zone hzone
      obtain ⟨sp,hsp,rfl,hneg⟩ := h.exists_backendPort hing r.portOrder hport
      obtain ⟨x,hx,hgroups⟩ := hok hres sp hsp hneg
      refine ⟨x,hx,?_⟩
      intro link hlink
      rw [List.mem_singleton.mp hlink]
      exact hgroups _ (List.mem_map_of_mem (List.mem_map_of_mem hzone))
    · intro port hport zone hzone
      exact (hhas port hport zone hzone).moves hkeeps.groups (not_not.mpr rfl)
  exact (LoadBalancerController.respects_syncFronts hrespected nodeNames w₁).mono fun _ _ h' _ => hbacked.keeps h'

/-- A checkpoint that has not failed has made the backend services and named the ports. -/
theorem checkpoint_backed (hing : c.Serves keys ing) (h : r.Suits c keys ing ports) (hzones : r.zones = .ok zones)
    (nodeNames : List Str) (w : Pools ρ) :
    Ensures ((r.controller c).makeCheckpoint r.store nodeNames) w (fun res w' => ∀ result, res = .ok result →
      (∀ e, result.err ≠ some (.other e)) → Backed c ports zones w') := by
  cases zones with
  | nil => exact (ensures_run _ w).mono fun _ _ _ _ _ _ => ⟨nofun,nofun⟩
  | cons zone rest =>
    unfold LoadBalancerController.makeCheckpoint ClusterManager.checkpoint
    rw [ensures_bind,ensures_attempt]
    refine (ensureGroups_ensures LoadBalancerController.nodup_ports_uniq hzones w).mono ?_
    intro res w₁ hgroups
    cases res with
    | error e =>
      rintro result ⟨⟩ hnot
      exact absurd rfl (hnot e)
    | ok igs =>
      obtain ⟨rfl,hhas⟩ := hgroups igs rfl
      rw [afterwards_ok,ensures_bind,ensures_attempt]
      refine (syncPools_backed hing h (List.cons_ne_nil zone rest) nodeNames ?_).mono ?_
      · intro port hport zone hzone
        apply (hhas zone hzone).mono
        intro p hp
        rw [List.mem_singleton.mp hp]
        exact h.mem_namedPorts hing r.portOrder hport
      · intro res w₂ hbacked
        cases res with
        | error e =>
          rintro result ⟨⟩ hnot
          exact hbacked fun e' he' => hnot e' (congrArg some (Except.error.inj he'))
        | ok _ => exact fun _ _ _ => hbacked nofun

theorem Round.Suits.getByKey (h : r.Suits c keys ing ports) (hkey : r.key = ing.key) : r.store.getByKey r.key = some ing := by
  obtain ⟨ing',hing'⟩ : ∃ ing', r.store.getByKey r.key = some ing' := by
    apply Option.isSome_iff_exists.mp
    exact List.find?_isSome.mpr ⟨ing,h.ingress,by simp [hkey]⟩
  have hsame : ing'.key = r.key := by simpa using List.find?_some hing'
  rw [hing',IngressStore.eq_of_key h.ingress (List.mem_of_find?_eq_some hing') (hsame.trans hkey)]

theorem syncIngress_routed (hing : c.Serves keys ing) (h : r.Suits c keys ing ports) (hkey : r.key = ing.key)
    (result : Checkpoint) {j : Journal (Pools ρ)} (hs : j.world.fronts.Sound c.namer keys) :
    Ensures ((r.controller c).syncIngress r.store r.key result) j (fun res j' => ∀ exit, res = .ok exit → exit.err = none →
      (∀ e, result.err ≠ some (.other e)) ∧
      ∃ um, j'.world.fronts.urlMaps.items (c.urlMap ing.key) = some um ∧ Routed c ports um) := by
  have hrespected := Round.respected hing.settled (h.harmless hing)
  have hget := h.getByKey hkey
  have hsingle := Ingress.not_multi_of_gce hing.gce
  unfold LoadBalancerController.syncIngress
  rw [hget]
  dsimp only
  rw [hsingle,if_neg Bool.false_ne_true,ensures_bind,ensures_attempt]
  refine (LoadBalancerController.respects_linkPorts hrespected hget j).mono ?_
  intro res j₁ h₁
  cases res with
  | error e =>
    rintro exit ⟨⟩ hnone
    cases hnone
  | ok _ =>
    rw [afterwards_ok]
    dsimp only
    rw [ensures_bind,ensures_attempt]
    refine (Round.updateL7_ensures keys (fun um old => (h.harmless hing).updates ing um old hget) _ j₁).mono ?_
    rintro res j₂ ⟨_,hrendered⟩
    cases res with
    | error e =>
      rintro exit ⟨⟩ hnone
      cases hnone
    | ok _ =>
      rintro exit ⟨⟩ hnone
      obtain ⟨um,hum,hrenders⟩ := hrendered rfl (h₁.1.sound hs)
      have hrouted := hrenders.routed hing.distinguishes
      rw [h.found] at hrouted
      rw [hkey] at hum
      exact ⟨(isFailure_checkpoint result).mp (LoadBalancerController.afterCheckpoint_eq_none hnone),um,hum,hrouted⟩

/-- If the sync of the Ingress goes through then its requests are served in all zones. -/
theorem sync_serves (hing : c.Serves keys ing) (h : r.Suits c keys ing ports) (hkey : r.key = ing.key)
    (hzones : r.zones = .ok zones) {w : Pools ρ} (hw : w.Sound c keys) (hok : (r.sync c w).1 = .ok ()) :
    Backed c ports zones (Round.step c w r) ∧
    ∃ um, (Round.step c w r).fronts.urlMaps.items (c.urlMap ing.key) = some um ∧ Routed c ports um := by
  have hrespected := Round.respected hing.settled (h.harmless hing)
  have hsync : Ensures ((r.controller c).sync r.store r.key) (Journal.start w) (fun res j => res = .ok () →
      Backed c ports zones j.world ∧ ∃ um, j.world.fronts.urlMaps.items (c.urlMap ing.key) = some um ∧ Routed c ports um) := by
    refine (r.controller c).ensures_sync_ok ?_
    intro _ nodeNames result w₁ _ hcheckpoint
    have hbacked := checkpoint_backed hing h hzones nodeNames w
    have hkeeps := LoadBalancerController.respects_makeCheckpoint hrespected nodeNames w
    rw [ensures_of_eq hcheckpoint] at hbacked hkeeps
    have hroutes := syncIngress_routed hing h hkey result (j := { world := w₁, events := [.checkpoint result] })
      (hkeeps.sound hw.fronts)
    refine ((LoadBalancerController.respects_syncIngress hrespected result _).and hroutes).mono ?_
    rintro res j ⟨hbody,hrouted⟩ exit hexit hnone
    obtain ⟨hnot,um,hum,hroute⟩ := hrouted exit hexit hnone
    refine (LoadBalancerController.respects_finish hrespected exit j).mono ?_
    intro _ j' hfinish
    refine ⟨((hbacked result rfl hnot).keeps hbody.1).keeps hfinish.1,?_⟩
    have hs : j.world.fronts.Sound c.namer keys := hbody.1.sound (hkeeps.sound hw.fronts)
    obtain ⟨um',hum',_,hroute'⟩ := hfinish.1.routed hs _ um hum ⟨rfl,hroute⟩
    exact ⟨um',hum',hroute'⟩
  exact hsync hok

/-! ## Runs -/

/-- Nothing is to be kept. -/
def Concern.nothing : Concern where
  groups _ := False
  services _ := False
  routes _ _ := False

theorem Round.harmless_nothing (h : ∀ ing ∈ r.store.items, keys ing.key) : r.Harmless c keys Concern.nothing :=
  ⟨h,fun _ => id,fun _ => id,fun _ _ _ _ _ => id,nofun,nofun,nofun⟩

/-- Let the names of the Ingresses be told apart from this one's and the hosts by their hash,
and start with pools that are in order. Once the sync of the Ingress has gone through, in
whatever state the syncs before it have left the pools, requests for its paths arrive at the
node ports of their Services in all zones there were. They still do after any further syncs
of these Ingresses, whatever fails in them, as long as the Ingress is there with the same
ports and no network endpoint group takes over one of them. -/
theorem requests_arrive (hing : c.Serves keys ing) {before after : List (Round ρ)}
    (hbefore : ∀ r ∈ before, ∀ ing ∈ r.store.items, keys ing.key) (h : r.Suits c keys ing ports)
    (hafter : ∀ r ∈ after, r.Suits c keys ing ports) (hkey : r.key = ing.key) (hzones : r.zones = .ok zones)
    {w : Pools ρ} (hw : w.Sound c keys) (hok : (r.sync c (Runs.final (Round.step c) w before)).1 = .ok ())
    {host path : Str} {sp : Backends.ServicePort} (hport : ports host path = some sp) (hneg : sp.negEnabled = false)
    {zone : Str} (hzone : zone ∈ zones) :
    (Runs.final (Round.step c) w (before ++ r :: after)).deliver c ing.key host path zone = some sp.port := by
  rw [Runs.final_append,Runs.final]
  have hw₀ : (Runs.final (Round.step c) w before).Sound c keys :=
    hw.keeps (Round.run_keeps hing.settled (fun r hr => Round.harmless_nothing (hbefore r hr)) w)
  have hw₁ := hw₀.keeps (Round.step_keeps hing.settled (h.harmless hing) _)
  obtain ⟨hbacked,um,hum,hrouted⟩ := sync_serves hing h hkey hzones hw₀ hok
  have hkeeps := Round.run_keeps hing.settled (fun r hr => (hafter r hr).harmless hing)
    (Round.step c (Runs.final (Round.step c) w before) r)
  obtain ⟨um',hum',_,hrouted'⟩ := hkeeps.routed hw₁.fronts _ um hum ⟨rfl,hrouted⟩
  exact deliver_of_backed (hw₁.keeps hkeeps) (hbacked.keeps hkeeps) hum' hrouted' hport hneg
    (GCETranslator.isInt64_of_mem_ports (h.mem hport)) hzone

end Requests

/-! ## An Ingress of one Service -/

def webCluster : Cluster where
  namer := Namer.setUID "uid".toList
  defaultBackendNodePort := { Backends.webPort with port := 30000, svcName := "default-http-backend".toList }
  defaultHealthCheckPath := "/".toList
  healthCheckLink name := "healthChecks/".toList ++ name
  serviceLink name := "backendServices/".toList ++ name
  serviceName link := link.drop "backendServices/".toList.length
  groupLink name zone := "instanceGroups".toList ++ ('/' :: zone ++ '/' :: name)
  md5 := id
  negMD5 := Namer.paddedText
  serviceName_serviceLink _ := List.drop_left
  default_isInt64 := by simp [IsInt64]
  isInstanceGroup_groupLink _ _ := (List.prefix_append _ _).isInfix

/-- A round that finds the Ingress and its Service in a cluster of these zones. -/
def webRound (zones : Except GoError (List Str)) : Round Unit where
  store := { items := [Routing.threeRules], distinct := List.nodup_singleton _ }
  key := Routing.threeRules.key
  svcLister := Routing.oneService.svcLister
  unmarshal := Routing.oneService.unmarshal
  negEnabled := false
  hasSynced := true
  readyNodeNames := .ok []
  zones := zones
  getProbe _ := .ok none
  getNetworkEndpointGroup _ _ := .ok []
  isInUsedByError _ := false
  portOrder := .inOrder
  backendOrder := .inOrder
  frontOrder := .inOrder
  firewallOrder := .inOrder
  urlMapOrders := { hosts := .backwards, paths := fun _ => .inOrder }
  loadTLS _ := none
  endpointLister _ := none
  marshal _ := []
  syncInstances _ _ := pure ()
  syncFirewall _ _ := pure ()
  hops _ := pure ()
  dispose _ := pure ()
  getAnnotations _ _ := pure ∅
  putAnnotations _ _ _ := pure ()
  updateIngressStatus _ _ := pure ()

def webPools : Pools Unit where
  groups := emptyGroups
  backends := Backends.emptyPool
  defaults := []
  fronts :=
    { snapshotter := ∅
      heap := fun _ => { name := [], um := none, glbcDefaultBackend := none }
      glbcDefaultBackend := none
      urlMaps := { items := fun _ => none, faults := fun _ => none, clock := 0 }
      rest := () }

theorem webPools_sound : webPools.Sound webCluster (· = Routing.threeRules.key) := by
  refine ⟨?_,?_,?_,?_⟩
  · intro k g hg
    cases hg
  · intro port x _ hx
    cases hx
  · intro name um hum
    cases hum
  · intro name lb hlookup
    cases hlookup

theorem webCluster_serves : webCluster.Serves (· = Routing.threeRules.key) Routing.threeRules where
  settled := by
    rintro key rfl
    decide +kernel
  apart _ hkey _ := hkey
  distinguishes := ⟨by decide +kernel,fun _ _ _ _ _ _ _ _ h => h⟩
  gce := by decide +kernel

theorem webRound_suits (zones : Except GoError (List Str)) : (webRound zones).Suits webCluster (· = Routing.threeRules.key)
    Routing.threeRules (Routing.oneService.portFor Routing.threeRules) where
  known := by
    intro ing hing
    rw [List.mem_singleton.mp hing]
  ingress := List.mem_cons_self
  found := rfl
  negs := by
    intro ing hing sp hsp hneg
    rw [List.mem_singleton.mp hing] at hsp
    have hoff : ∀ sp ∈ Routing.oneService.ingressToNodePorts Routing.threeRules, sp.negEnabled = false := by decide +kernel
    cases (hoff sp hsp).symm.trans hneg

/-- The first round fails with a timeout, and the last one can not list the zones. -/
theorem requests_arrive_web : (Runs.final (Round.step webCluster) webPools
    ([webRound (.ok ["a".toList])] ++ webRound (.ok ["a".toList,"b".toList]) ::
      [webRound (.error (.text "no zones".toList))])).deliver webCluster Routing.threeRules.key "*".toList
        "/*".toList "b".toList = some 30080 := by
  have hsuits : ∀ r ∈ [webRound (.error (.text "no zones".toList))], r.Suits webCluster (· = Routing.threeRules.key)
      Routing.threeRules (Routing.oneService.portFor Routing.threeRules) := by
    intro r hr
    rw [List.mem_singleton.mp hr]
    exact webRound_suits _
  have hbefore : ∀ r ∈ [webRound (.ok ["a".toList])], ∀ ing ∈ r.store.items, ing.key = Routing.threeRules.key := by
    intro r hr
    rw [List.mem_singleton.mp hr]
    exact (webRound_suits _).known
  have hok : ((webRound (.ok ["a".toList,"b".toList])).sync webCluster
      (Runs.final (Round.step webCluster) webPools [webRound (.ok ["a".toList])])).1 = .ok () := by
    have hreturns : ((webRound (.ok ["a".toList,"b".toList])).sync webCluster
        (Runs.final (Round.step webCluster) webPools [webRound (.ok ["a".toList])])).1.toOption = some () := by decide +kernel
    cases hr : ((webRound (.ok ["a".toList,"b".toList])).sync webCluster
        (Runs.final (Round.step webCluster) webPools [webRound (.ok ["a".toList])])).1 with
    | error e =>
      rw [hr] at hreturns
      cases hreturns
    | ok _ => rfl
  have hport : Routing.oneService.portFor Routing.threeRules "*".toList "/*".toList = some Backends.webPort := by decide +kernel
  exact requests_arrive webCluster_serves hbefore (webRound_suits _) hsuits rfl rfl webPools_sound hok hport rfl
    (by decide)

end IngressGce
