import IngressGce.Cloud.Store
import IngressGce.LoadBalancer.State
import IngressGce.Program.MapLoops
import IngressGce.Routing.RuleMap

/-! # From rule maps to url maps

`updateUrlMap` replaces the whole url map of a load balancer by the one made from a rule
map: for each host a host rule and a path matcher of the same name, and in the path
matcher a path rule for each path. The maps of Go are visited in the orders given. The
cloud is written only if the map it has differs.
-/
namespace IngressGce.Routing
open Prog

structure HostRule where
  description : Str
  hosts : List Str
  pathMatcher : Str
  deriving DecidableEq

structure PathRule where
  paths : List Str
  service : Str
  deriving DecidableEq

structure PathMatcher where
  name : Str
  description : Str
  defaultService : Str
  pathRules : List PathRule
  deriving DecidableEq

structure UrlMap where
  name : Str
  defaultService : Str
  hostRules : List HostRule
  pathMatchers : List PathMatcher
  deriving DecidableEq

/-- The comparison of two slices: of their lengths, then position by position. -/
def sliceEqual {α : Type} (eq : α → α → Bool) (a b : List α) : Bool :=
  a.length == b.length && (a.zip b).all (fun p => eq p.1 p.2)

def hostRulesEqual (a b : HostRule) : Bool :=
  a.description == b.description && sliceEqual (· == ·) a.hosts b.hosts && a.pathMatcher == b.pathMatcher

def pathRulesEqual (a b : PathRule) : Bool :=
  sliceEqual (· == ·) a.paths b.paths && a.service == b.service

def pathMatchersEqual (a b : PathMatcher) : Bool :=
  a.defaultService == b.defaultService && a.description == b.description && a.name == b.name &&
    sliceEqual pathRulesEqual a.pathRules b.pathRules

def mapsEqual (a b : UrlMap) : Bool :=
  a.defaultService == b.defaultService && sliceEqual hostRulesEqual a.hostRules b.hostRules &&
    sliceEqual pathMatchersEqual a.pathMatchers b.pathMatchers

/-- The orders in which one call visits the hosts, and the paths of each host. -/
structure Orders (β : Type) where
  hosts : Iteration (Sigma fun _ : Str => PathMap β)
  paths : Str → Iteration (Sigma fun _ : Str => Option β)

/-- What `UpdateUrlMap` uses of a load balancer, and the cloud. The calls that write a
url map to the cloud are recorded. -/
structure Balancer (β : Type) where
  um : Option UrlMap
  glbcDefaultBackend : Option β
  cloud : Store Str UrlMap
  updates : List UrlMap

variable {β : Type} (md5 : Str → Str) (selfLink : β → Str)

def hostRulePrefix : Str := "host".toList

/-- The name is the MD5 sum of the host in hexadecimal, after a fixed word. -/
def getNameForPathMatcher (hostRule : Str) : Str := hostRulePrefix ++ md5 hostRule

/-- One round of the inner loop; it panics if the backend is nil. -/
def pathRule (entry : Sigma fun _ : Str => Option β) : Option PathRule :=
  entry.2.map (fun be => { paths := [entry.1], service := selfLink be })

def hostRule (hostname : Str) : HostRule :=
  { description := [], hosts := [hostname], pathMatcher := getNameForPathMatcher md5 hostname }

def pathMatcher (o : Orders β) (defaultService : Str) (entry : Sigma fun _ : Str => PathMap β) :
    Option PathMatcher := do
  let pathRules ← ((o.paths entry.1).range entry.2.entries).mapM (pathRule selfLink)
  pure {
    name := getNameForPathMatcher md5 entry.1
    description := []
    defaultService := defaultService
    pathRules := pathRules }

/-- The link of the default service, unless the pointer to it is nil. -/
def defaultLink (defaultBackend glbcDefaultBackend : Option β) : Option Str :=
  match defaultBackend with
  | some d => some (selfLink d)
  | none => glbcDefaultBackend.map selfLink

/-- The url map made from the rules, `none` if a backend is nil. -/
def render (o : Orders β) (um : UrlMap) (rules : GCEURLMap β) (defaultService : Str) : Option UrlMap := do
  let entries := o.hosts.range rules.entries
  let pathMatchers ← entries.mapM (pathMatcher md5 selfLink o defaultService)
  pure {
    name := um.name
    defaultService := defaultService
    hostRules := entries.map (fun entry => hostRule md5 entry.1)
    pathMatchers := pathMatchers }

/-- The first part of `UpdateUrlMap`, up to the first call to the cloud. -/
def buildUrlMap (o : Orders β) (ingressRules : GCEURLMap β) : Prog (Balancer β) Failure UrlMap := do
  let w ← state
  match w.um with
  | none => fail (.returned (.text "cannot add url without an urlmap".toList))
  | some um =>
    let (defaultBackend,rules) := ingressRules.getDefaultBackend
    match (defaultLink selfLink defaultBackend w.glbcDefaultBackend).bind (render md5 selfLink o um rules) with
    | none => fail .panicked
    | some um => do
      update (fun w => { w with um := some um })
      pure um

/-- A call to the cloud. -/
def cloudCall {α : Type} (m : Prog (Store Str UrlMap) GoError α) : Prog (Balancer β) Failure α :=
  onPart Balancer.cloud (fun c w => { w with cloud := c }) (mapFailure .returned m)

def getUrlMap (name : Str) : Prog (Balancer β) Failure UrlMap := cloudCall (Store.onItem name (fun um => (um,some um)))

def cloudUpdateUrlMap (um : UrlMap) : Prog (Balancer β) Failure Unit := do
  update (fun w => { w with updates := um :: w.updates })
  cloudCall (Store.onItem um.name (fun _ => ((),some um)))

/-- The url map is known to be as wanted. -/
def unchanged (um : UrlMap) : Option UrlMap → Bool
  | none => false
  | some oldMap => mapsEqual oldMap um

/-- The second part of `UpdateUrlMap`. -/
def pushUrlMap (um : UrlMap) : Prog (Balancer β) Failure Unit := do
  let oldMap ← orNil (getUrlMap um.name)
  if unchanged um oldMap then pure () else do
    cloudUpdateUrlMap um
    let um ← getUrlMap um.name
    update (fun w => { w with um := some um })

def updateUrlMap (o : Orders β) (ingressRules : GCEURLMap β) : Prog (Balancer β) Failure Unit := do
  let um ← buildUrlMap md5 selfLink o ingressRules
  pushUrlMap um

/-- The links of the backend services that a url map refers to. -/
def UrlMap.services (um : UrlMap) : List Str :=
  um.defaultService :: um.pathMatchers.flatMap (fun pm => pm.defaultService :: pm.pathRules.map PathRule.service)

/-! ## The comparison -/

theorem sliceEqual_iff {α : Type} {eq : α → α → Bool} (heq : ∀ a b, eq a b = true ↔ a = b) {as bs : List α} :
    sliceEqual eq as bs = true ↔ as = bs := by
  induction as generalizing bs with
  | nil => cases bs <;> simp [sliceEqual]
  | cons a as ih =>
    cases bs with
    | nil => simp [sliceEqual]
    | cons b bs =>
      have hrest : sliceEqual eq (a :: as) (b :: bs) = (eq a b && sliceEqual eq as bs) := by
        simp [sliceEqual,Bool.and_left_comm]
      rw [hrest,Bool.and_eq_true,heq,ih,List.cons.injEq]

theorem hostRulesEqual_iff (a b : HostRule) : hostRulesEqual a b = true ↔ a = b := by
  cases a
  cases b
  simp [hostRulesEqual,sliceEqual_iff,and_assoc]

theorem pathRulesEqual_iff (a b : PathRule) : pathRulesEqual a b = true ↔ a = b := by
  cases a
  cases b
  simp [pathRulesEqual,sliceEqual_iff]

theorem pathMatchersEqual_iff (a b : PathMatcher) : pathMatchersEqual a b = true ↔ a = b := by
  cases a
  cases b
  simp [pathMatchersEqual,sliceEqual_iff pathRulesEqual_iff]
  tauto

/-- The comparison is of everything but the name. -/
theorem mapsEqual_iff (a b : UrlMap) : mapsEqual a b = true ↔
    a.defaultService = b.defaultService ∧ a.hostRules = b.hostRules ∧ a.pathMatchers = b.pathMatchers := by
  simp [mapsEqual,sliceEqual_iff hostRulesEqual_iff,sliceEqual_iff pathMatchersEqual_iff,and_assoc]

theorem services_of_mapsEqual {a b : UrlMap} (h : mapsEqual a b = true) : a.services = b.services := by
  obtain ⟨hdefault,_,hmatchers⟩ := (mapsEqual_iff a b).mp h
  rw [UrlMap.services,UrlMap.services,hdefault,hmatchers]

/-! ## The map that is built -/

/-- The hosts that a call visits, each with its paths, in the order of the visit. -/
def visited (o : Orders β) (rules : GCEURLMap β) : List (Str × List Str) :=
  (o.hosts.range rules.entries).map (fun entry => (entry.1,((o.paths entry.1).range entry.2.entries).keys))

/-- The link under a host and a path, empty if there is none. -/
def linkAt (meaning : Str → Option (Str → Option (Option β))) (host path : Str) : Str :=
  match (meaning host).bind (fun paths => paths path) with
  | some (some be) => selfLink be
  | _ => []

/-- The path matcher of a host with the paths in the order of a visit. -/
def matcherOf (defaultService : Str) (link : Str → Str → Str) (visit : Str × List Str) : PathMatcher where
  name := getNameForPathMatcher md5 visit.1
  description := []
  defaultService := defaultService
  pathRules := visit.2.map (fun path => { paths := [path], service := link visit.1 path })

section Built
variable {md5 selfLink} {o : Orders β} {rules : GCEURLMap β} {defaultService : Str}

theorem lookup_of_mem_range {γ : Type} {o : Iteration (Sigma fun _ : Str => γ)} {m : AList (fun _ : Str => γ)}
    {entry : Sigma fun _ : Str => γ} (h : entry ∈ o.range m.entries) : m.lookup entry.1 = some entry.2 :=
  AList.mem_lookup_iff.mpr (Iteration.mem_range.mp h)

theorem pathMatcher_eq {entry : Sigma fun _ : Str => PathMap β} (hentry : entry ∈ o.hosts.range rules.entries)
    {pm : PathMatcher} (h : pathMatcher md5 selfLink o defaultService entry = some pm) :
    pm = matcherOf md5 defaultService (linkAt selfLink rules.meaning)
      (entry.1,((o.paths entry.1).range entry.2.entries).keys) := by
  obtain ⟨pathRules,hrules,hpm⟩ := Option.bind_eq_some_iff.mp h
  cases hpm
  have hmap := eq_map_of_mapM (r := fun e => ⟨[e.1],linkAt selfLink rules.meaning entry.1 e.1⟩) hrules ?_
  · unfold matcherOf
    rw [hmap,List.keys,List.map_map]
    rfl
  · intro e he rule hrule
    obtain ⟨be,hbe,rfl⟩ := Option.map_eq_some_iff.mp hrule
    have hread : entry.2.read e.1 = some (some be) := hbe ▸ lookup_of_mem_range he
    simp [linkAt,GCEURLMap.meaning,lookup_of_mem_range hentry,hread]

/-- The map depends on the meaning of the rules and on the order of the visits alone. -/
theorem render_eq {um um' : UrlMap} (h : render md5 selfLink o um rules defaultService = some um') :
    um' = {
      name := um.name
      defaultService := defaultService
      hostRules := (visited o rules).map (fun visit => hostRule md5 visit.1)
      pathMatchers := (visited o rules).map (matcherOf md5 defaultService (linkAt selfLink rules.meaning)) } := by
  obtain ⟨pathMatchers,hmatchers,hum⟩ := Option.bind_eq_some_iff.mp h
  cases hum
  rw [eq_map_of_mapM hmatchers (fun entry hentry _ hpm => pathMatcher_eq hentry hpm)]
  simp [visited,Function.comp_def]

theorem pathMatcher_returns_iff {entry : Sigma fun _ : Str => PathMap β} :
    (∃ pm, pathMatcher md5 selfLink o defaultService entry = some pm) ↔ ∀ path, entry.2.read path ≠ some none := by
  have hrules : (∃ pm, pathMatcher md5 selfLink o defaultService entry = some pm) ↔
      ∃ prs, ((o.paths entry.1).range entry.2.entries).mapM (pathRule selfLink) = some prs := by
    unfold pathMatcher
    cases ((o.paths entry.1).range entry.2.entries).mapM (pathRule selfLink) <;> simp
  rw [hrules,mapM_returns_iff]
  constructor
  · intro h path hpath
    obtain ⟨pr,hpr⟩ := h ⟨path,none⟩ (Iteration.mem_range.mpr (AList.mem_lookup_iff.mp hpath))
    cases hpr
  · intro h e he
    cases hbe : e.2 with
    | none => exact absurd (hbe ▸ lookup_of_mem_range he) (h e.1)
    | some be => exact ⟨_,by rw [pathRule,hbe]; rfl⟩

/-- Exactly the maps without nil backends can be built. -/
theorem render_returns_iff (um : UrlMap) : (∃ um', render md5 selfLink o um rules defaultService = some um') ↔
    ∀ host paths path, rules.meaning host = some paths → paths path ≠ some none := by
  have hmatchers : (∃ um', render md5 selfLink o um rules defaultService = some um') ↔
      ∃ pms, (o.hosts.range rules.entries).mapM (pathMatcher md5 selfLink o defaultService) = some pms := by
    unfold render
    cases hpms : (o.hosts.range rules.entries).mapM (pathMatcher md5 selfLink o defaultService) <;> simp [hpms]
  rw [hmatchers,mapM_returns_iff]
  constructor
  · intro h host paths path hpaths
    obtain ⟨m,hm,rfl⟩ := Option.map_eq_some_iff.mp hpaths
    exact pathMatcher_returns_iff.mp (h ⟨host,m⟩ (Iteration.mem_range.mpr (AList.mem_lookup_iff.mp hm))) path
  · intro h entry hentry
    refine pathMatcher_returns_iff.mpr fun path => h entry.1 _ path ?_
    rw [GCEURLMap.meaning,lookup_of_mem_range hentry]
    rfl

theorem visited_hosts (o : Orders β) (rules : GCEURLMap β) : ((visited o rules).map Prod.fst).Nodup ∧
    ∀ host, host ∈ (visited o rules).map Prod.fst ↔ rules.meaning host ≠ none := by
  have hkeys : (visited o rules).map Prod.fst = (o.hosts.range rules.entries).keys := by
    rw [visited,List.map_map]
    rfl
  have hperm : ((o.hosts.range rules.entries).keys).Perm rules.keys := (o.hosts.perm rules.entries).map Sigma.fst
  refine ⟨?_,?_⟩
  · rw [hkeys]
    exact hperm.nodup_iff.mpr rules.keys_nodup
  · intro host
    rw [hkeys,hperm.mem_iff,← AList.mem_keys,ne_eq,GCEURLMap.meaning_eq_none,not_not]

theorem visited_paths {host : Str} {paths : List Str} (h : (host,paths) ∈ visited o rules) :
    paths.Nodup ∧ ∃ table, rules.meaning host = some table ∧ ∀ path, path ∈ paths ↔ table path ≠ none := by
  obtain ⟨entry,hentry,heq⟩ := List.mem_map.mp h
  obtain ⟨rfl,rfl⟩ := Prod.mk.inj heq
  have hperm : (((o.paths entry.1).range entry.2.entries).keys).Perm entry.2.keys :=
    ((o.paths entry.1).perm entry.2.entries).map Sigma.fst
  refine ⟨hperm.nodup_iff.mpr entry.2.keys_nodup,entry.2.read,?_,?_⟩
  · rw [GCEURLMap.meaning,lookup_of_mem_range hentry]
    rfl
  · intro path
    rw [hperm.mem_iff,← AList.mem_keys,PathMap.read,ne_eq,AList.lookup_eq_none,not_not]

end Built

/-- The map refers to the default service and to backends of the rules. -/
theorem services_render {md5 : Str → Str} {selfLink : β → Str} {o : Orders β} {rules : GCEURLMap β} {um um' : UrlMap}
    {defaultService link : Str} (h : render md5 selfLink o um rules defaultService = some um')
    (hlink : link ∈ um'.services) : link = defaultService ∨ ∃ be, rules.Has be ∧ link = selfLink be := by
  have hnil := (render_returns_iff um).mp ⟨um',h⟩
  rw [render_eq h,UrlMap.services] at hlink
  rcases List.mem_cons.mp hlink with hlink | hlink
  · exact Or.inl hlink
  · obtain ⟨pm,hpm,hlink⟩ := List.mem_flatMap.mp hlink
    obtain ⟨⟨host,paths⟩,hvisit,rfl⟩ := List.mem_map.mp hpm
    rcases List.mem_cons.mp hlink with hlink | hlink
    · exact Or.inl hlink
    · obtain ⟨pr,hpr,rfl⟩ := List.mem_map.mp hlink
      obtain ⟨path,hpath,rfl⟩ := List.mem_map.mp hpr
      obtain ⟨_,table,htable,hmem⟩ := visited_paths hvisit
      have hentry := (hmem path).mp hpath
      cases hread : table path with
      | none => exact absurd hread hentry
      | some x =>
        cases x with
        | none => exact absurd hread (hnil host table path htable)
        | some be => exact Or.inr ⟨be,⟨host,table,path,htable,hread⟩,by simp [linkAt,htable,hread]⟩

/-! ## The calls to the cloud -/

section Pushed
variable {md5 selfLink} {o : Orders β} {g : GCEURLMap β} {w : Balancer β}

theorem getUrlMap_ensures (name : Str) : Ensures (getUrlMap name) w (fun r w' =>
    w'.cloud.items = w.cloud.items ∧ w'.um = w.um ∧ w'.glbcDefaultBackend = w.glbcDefaultBackend ∧
    w'.updates = w.updates ∧
    ∀ um, r = .ok um ↔ w.cloud.items name = some um ∧ w.cloud.faults w.cloud.clock = none) := by
  rw [getUrlMap,cloudCall,ensures_onPart,ensures_mapFailure]
  refine ((Store.onItem_served _).and (ensures_run _ _)).mono ?_
  rintro r c ⟨hserved,hrun⟩
  refine ⟨hserved.unchanged,rfl,rfl,rfl,?_⟩
  intro um
  have hread := Store.onItem_ok_iff (k := name) (w := w.cloud) (f := fun um => (um,some um)) (a := um)
  rw [hrun] at hread
  have hok : r.mapError Failure.returned = .ok um ↔ r = .ok um := by
    cases r <;> simp [Except.mapError]
  rw [hok,hread]
  constructor
  · rintro ⟨g,hg,hfault,rfl⟩
    exact ⟨hg,hfault⟩
  · rintro ⟨hum,hfault⟩
    exact ⟨um,hum,hfault,rfl⟩

theorem cloudUpdateUrlMap_ensures (um : UrlMap) : Ensures (cloudUpdateUrlMap um) w (fun r w' =>
    w'.um = w.um ∧ w'.glbcDefaultBackend = w.glbcDefaultBackend ∧ w'.updates = um :: w.updates ∧
    (r = .ok () → w'.cloud.items um.name = some um)) := by
  rw [cloudUpdateUrlMap,ensures_bind,ensures_update,afterwards_ok,cloudCall,ensures_onPart,ensures_mapFailure]
  refine (Store.onItem_served _).mono ?_
  intro r c hserved
  refine ⟨rfl,rfl,rfl,?_⟩
  intro hok
  cases r with
  | error e => cases hok
  | ok _ =>
    obtain ⟨old,_,_,hitems⟩ := hserved.answer () rfl
    change c.items um.name = some um
    rw [hitems,Function.update_self]

/-- After a push without error the cloud has the map, and the cloud is written exactly
if it is not seen to have the map already. -/
structure Pushed (um : UrlMap) (w : Balancer β) (r : Except Failure Unit) (w' : Balancer β) : Prop where
  cloud : r = .ok () → ∃ m, w'.cloud.items um.name = some m ∧ mapsEqual m um = true
  name : w.um = some um → ∃ m, w'.um = some m ∧ m.name = um.name
  default : w'.glbcDefaultBackend = w.glbcDefaultBackend
  updates : w'.updates = w.updates ↔
    ∃ old, w.cloud.items um.name = some old ∧ w.cloud.faults w.cloud.clock = none ∧ mapsEqual old um = true

theorem pushUrlMap_ensures (um : UrlMap) : Ensures (pushUrlMap um) w (Pushed um w) := by
  rw [pushUrlMap,ensures_bind,ensures_orNil]
  refine (getUrlMap_ensures um.name).mono ?_
  rintro r w₁ ⟨hitems₁,hum₁,hdefault₁,hupdates₁,hread⟩
  rw [afterwards_ok,ensures_ite]
  refine ⟨?_,?_⟩
  · intro hsame
    cases r with
    | error e => cases hsame
    | ok old =>
      obtain ⟨hold,hfault⟩ := (hread old).mp rfl
      rw [ensures_pure]
      refine ⟨fun _ => ⟨old,by rw [hitems₁]; exact hold,hsame⟩,fun h => ⟨um,hum₁.trans h,rfl⟩,hdefault₁,?_⟩
      rw [hupdates₁]
      exact ⟨fun _ => ⟨old,hold,hfault,hsame⟩,fun _ => rfl⟩
  · intro hdiffers
    have hno : ¬∃ old, w.cloud.items um.name = some old ∧ w.cloud.faults w.cloud.clock = none ∧ mapsEqual old um = true := by
      rintro ⟨old,hold,hfault,hsame⟩
      rw [(hread old).mpr ⟨hold,hfault⟩] at hdiffers
      exact hdiffers hsame
    have hgrown : ∀ updates : List UrlMap, updates = um :: w.updates → (updates = w.updates ↔
        ∃ old, w.cloud.items um.name = some old ∧ w.cloud.faults w.cloud.clock = none ∧ mapsEqual old um = true) := by
      intro updates hupdates
      refine ⟨fun h => ?_,fun h => absurd h hno⟩
      exact absurd (hupdates.symm.trans h) (List.cons_ne_self _ _)
    rw [ensures_bind]
    refine (cloudUpdateUrlMap_ensures um).mono ?_
    rintro r w₂ ⟨hum₂,hdefault₂,hupdates₂,hstored⟩
    cases r with
    | error e =>
      exact ⟨nofun,fun h => ⟨um,(hum₂.trans hum₁).trans h,rfl⟩,hdefault₂.trans hdefault₁,
        hgrown _ (by rw [hupdates₂,hupdates₁])⟩
    | ok _ =>
      have hitem₂ := hstored rfl
      rw [afterwards_ok,ensures_bind]
      refine (getUrlMap_ensures um.name).mono ?_
      rintro r w₃ ⟨hitems₃,hum₃,hdefault₃,hupdates₃,hread₃⟩
      have hgrown₃ := hgrown w₃.updates (by rw [hupdates₃,hupdates₂,hupdates₁])
      have hdefault : w₃.glbcDefaultBackend = w.glbcDefaultBackend :=
        (hdefault₃.trans hdefault₂).trans hdefault₁
      cases r with
      | error e => exact ⟨nofun,fun h => ⟨um,((hum₃.trans hum₂).trans hum₁).trans h,rfl⟩,hdefault,hgrown₃⟩
      | ok m =>
        obtain ⟨hm,_⟩ := (hread₃ m).mp rfl
        obtain rfl : um = m := Option.some.inj (hitem₂.symm.trans hm)
        refine ⟨fun _ => ⟨um,?_,?_⟩,fun _ => ⟨um,rfl,rfl⟩,hdefault,hgrown₃⟩
        · exact (congrFun hitems₃ um.name).trans hitem₂
        · exact (mapsEqual_iff um um).mpr ⟨rfl,rfl,rfl⟩

/-- The build of a map, if it succeeds. -/
theorem buildUrlMap_ensures : Ensures (buildUrlMap md5 selfLink o g) w (fun r w' => ∀ um', r = .ok um' →
    ∃ um link, w.um = some um ∧
      defaultLink selfLink g.getDefaultBackend.1 w.glbcDefaultBackend = some link ∧
      render md5 selfLink o um g.getDefaultBackend.2 link = some um' ∧
      w' = { w with um := some um' }) := by
  rw [buildUrlMap,ensures_bind,ensures_state,afterwards_ok]
  split
  · exact nofun
  · rename_i um hum
    dsimp only
    split
    · exact nofun
    · rename_i um' hum'
      obtain ⟨link,hlink,hrender⟩ := Option.bind_eq_some_iff.mp hum'
      rintro m ⟨⟩
      exact ⟨um,link,hum,hlink,hrender,rfl⟩

theorem buildUrlMap_returns (md5 : Str → Str) (o : Orders β) {um : UrlMap} {link : Str} (hum : w.um = some um)
    (hlink : defaultLink selfLink g.getDefaultBackend.1 w.glbcDefaultBackend = some link)
    (hnil : ∀ host paths path, g.getDefaultBackend.2.meaning host = some paths → paths path ≠ some none) :
    Returns (buildUrlMap md5 selfLink o g) w (fun um' w' =>
      render md5 selfLink o um g.getDefaultBackend.2 link = some um' ∧ w' = { w with um := some um' }) := by
  have hrenders : ∃ um', render md5 selfLink o um g.getDefaultBackend.2 link = some um' :=
    (render_returns_iff um).mpr hnil
  obtain ⟨um',hrender⟩ := hrenders
  have hbuild : (defaultLink selfLink g.getDefaultBackend.1 w.glbcDefaultBackend).bind
      (render md5 selfLink o um g.getDefaultBackend.2) = some um' := by
    rw [hlink]
    exact hrender
  rw [buildUrlMap,returns_bind,returns_state]
  simp only [hum,hbuild]
  simp [hrender]

/-- The state after a call that has returned without error. -/
theorem updateUrlMap_ok (md5 : Str → Str) (selfLink : β → Str) (o : Orders β) (g : GCEURLMap β) (w : Balancer β) :
    Ensures (updateUrlMap md5 selfLink o g) w (fun r w' => r = .ok () → ∃ um um' m link,
      w.um = some um ∧ w'.glbcDefaultBackend = w.glbcDefaultBackend ∧
      defaultLink selfLink g.getDefaultBackend.1 w.glbcDefaultBackend = some link ∧
      render md5 selfLink o um g.getDefaultBackend.2 link = some um' ∧
      (∃ m', w'.um = some m' ∧ m'.name = um'.name) ∧
      w'.cloud.items um'.name = some m ∧ mapsEqual m um' = true) := by
  rw [updateUrlMap,ensures_bind]
  refine buildUrlMap_ensures.mono ?_
  intro r w₁ hbuild
  cases r with
  | error e => exact nofun
  | ok um' =>
    obtain ⟨um,link,hum,hlink,hrender,rfl⟩ := hbuild um' rfl
    rw [afterwards_ok]
    refine (pushUrlMap_ensures um').mono ?_
    intro r w' hpushed hok
    obtain ⟨m,hm,heq⟩ := hpushed.cloud hok
    exact ⟨um,um',m,link,hum,hpushed.default,hlink,hrender,hpushed.name rfl,hm,heq⟩

end Pushed

end IngressGce.Routing
