import IngressGce.Controller.Translator
import IngressGce.Routing.Update

/-! # The url map routes as the Ingress says

A url map leads from a host over the name of a path matcher to path rules. What it says
about a host and a path is compared with the last HTTP rule of the host and the last of
its paths that resolves.
-/
namespace IngressGce.Routing
open Kube Prog
variable {σ β : Type}

/-- The path matcher routes the paths of the rule. -/
structure RoutesPaths (t : GCETranslator σ β) (selfLink : β → Str) (namespaced : Str) (s : σ)
    (rule : IngressRule) (pm : PathMatcher) : Prop where
  path : ∀ path, (∃ pr ∈ pm.pathRules, path ∈ pr.paths) ↔
    ∃ p ∈ rule.paths, p.pathOrDefault = path ∧ t.Resolves namespaced p
  backend : ∀ path before p, t.lastPath namespaced rule.paths path = some (before,p) →
    ∃ be, t.answer namespaced s before p = some be ∧
      pm.pathRules.filter (fun pr => path ∈ pr.paths) = [{ paths := [path], service := selfLink be }]

/-- The url map routes the hosts of the Ingress, and no others. -/
structure Routes (t : GCETranslator σ β) (selfLink : β → Str) (ing : Ingress) (s : σ) (defaultService : Str)
    (um : UrlMap) : Prop where
  default : um.defaultService = defaultService
  matcherDefault : ∀ pm ∈ um.pathMatchers, pm.defaultService = defaultService
  host : ∀ host before rule, GCETranslator.lastRule ing host = some (before,rule) →
    ∃ hr pm, um.hostRules.filter (fun hr => host ∈ hr.hosts) = [hr] ∧ hr.hosts = [host] ∧
      um.pathMatchers.filter (fun pm => pm.name = hr.pathMatcher) = [pm] ∧
      RoutesPaths t selfLink ing.namespaced (t.askedRules ing.namespaced before s) rule pm
  otherHost : ∀ host, (∀ rule ∈ ing.rules, rule.httpHost ≠ some host) → ∀ hr ∈ um.hostRules, host ∉ hr.hosts

variable {t : GCETranslator σ β} {md5 : Str → Str} {selfLink : β → Str} {ing : Ingress} {s : σ}

theorem Routes.of_mapsEqual {defaultService : Str} {um um' : UrlMap} (h : Routes t selfLink ing s defaultService um)
    (heq : mapsEqual um' um = true) : Routes t selfLink ing s defaultService um' := by
  obtain ⟨hdefault,hhosts,hmatchers⟩ := (mapsEqual_iff um' um).mp heq
  refine ⟨hdefault.trans h.default,?_,?_,?_⟩
  · rw [hmatchers]
    exact h.matcherDefault
  · rw [hhosts,hmatchers]
    exact h.host
  · rw [hhosts]
    exact h.otherHost

theorem lastPath_ne_none {namespaced : Str} {paths : List HTTPIngressPath} {path : Str} :
    t.lastPath namespaced paths path ≠ none ↔ ∃ p ∈ paths, p.pathOrDefault = path ∧ t.Resolves namespaced p := by
  rw [ne_eq,GCETranslator.lastPath,lastWrite_eq_none]
  push Not
  refine exists_congr fun p => and_congr_right fun _ => ?_
  unfold GCETranslator.target
  split
  · rename_i h
    simp [h]
  · rename_i h
    simp [h]

theorem routesPaths_matcherOf {namespaced : Str} {rule : IngressRule} {host : Str} {paths : List Str}
    {defaultService : Str} {link : Str → Str → Str} (hnodup : paths.Nodup)
    (hmem : ∀ path, path ∈ paths ↔ t.pathTable namespaced s rule.paths path ≠ none)
    (hlink : ∀ path be, t.pathTable namespaced s rule.paths path = some (some be) → link host path = selfLink be)
    (hnotNil : ∀ path, t.pathTable namespaced s rule.paths path ≠ some none) :
    RoutesPaths t selfLink namespaced s rule (matcherOf md5 defaultService link (host,paths)) := by
  have hlast : ∀ path, t.pathTable namespaced s rule.paths path ≠ none ↔ t.lastPath namespaced rule.paths path ≠ none := by
    intro path
    rw [ne_eq,GCETranslator.pathTable,Option.map_eq_none_iff]
  refine ⟨?_,?_⟩
  · intro path
    rw [← lastPath_ne_none,← hlast,← hmem]
    simp [matcherOf]
  · intro path before p hp
    have htable : t.pathTable namespaced s rule.paths path = some (t.answer namespaced s before p) := by
      rw [GCETranslator.pathTable,hp]
      rfl
    have hpath : path ∈ paths := (hmem path).mpr (by rw [htable]; exact nofun)
    cases hanswer : t.answer namespaced s before p with
    | none => exact absurd (hanswer ▸ htable) (hnotNil path)
    | some be =>
      refine ⟨be,rfl,?_⟩
      rw [matcherOf,filter_map_of_nodup hnodup path (by simp [eq_comm]),if_pos hpath,hlink path be (hanswer ▸ htable)]

/-- The reserved word is not a host of the Ingress, and the names of path matchers tell
its hosts apart. -/
structure Distinguishes (md5 : Str → Str) (ing : Ingress) : Prop where
  reserved : ∀ rule ∈ ing.rules, rule.httpHost ≠ some defaultBackendKey
  injective : ∀ rule ∈ ing.rules, ∀ rule' ∈ ing.rules, ∀ host host', rule.httpHost = some host →
    rule'.httpHost = some host' → md5 host = md5 host' → host = host'

section Rendered
variable {g : GCEURLMap β} {o : Orders β} {defaultService : Str}

/-- Without the reserved word, what the rule map says about a host is what the last rule of
the host says. -/
theorem meaning_of_translates (hg : t.Translates ing s g) (hmd5 : Distinguishes md5 ing) (host : Str) :
    g.getDefaultBackend.2.meaning host =
      (GCETranslator.lastRule ing host).map (fun e => t.rulePaths ing.namespaced s e.1 e.2) := by
  rw [GCEURLMap.meaning_getDefaultBackend]
  by_cases hreserved : host = defaultBackendKey
  · subst hreserved
    rw [if_pos rfl,GCETranslator.lastRule,lastWrite_eq_none.mpr hmd5.reserved]
    rfl
  · rw [if_neg hreserved]
    exact hg.hosts host hreserved

theorem mem_visited_iff (hg : t.Translates ing s g) (hmd5 : Distinguishes md5 ing) (o : Orders β) (host : Str) :
    host ∈ (visited o g.getDefaultBackend.2).map Prod.fst ↔ ∃ rule ∈ ing.rules, rule.httpHost = some host := by
  rw [(visited_hosts o g.getDefaultBackend.2).2,meaning_of_translates hg hmd5,ne_eq,Option.map_eq_none_iff,
    GCETranslator.lastRule,lastWrite_eq_none]
  push Not
  rfl

theorem hostRules_of_host {host : Str} (hhost : host ∈ (visited o g).map Prod.fst) :
    ((visited o g).map (fun visit => hostRule md5 visit.1)).filter (fun hr => host ∈ hr.hosts) =
      [hostRule md5 host] := by
  have hmap : (visited o g).map (fun visit => hostRule md5 visit.1) =
      ((visited o g).map Prod.fst).map (hostRule md5) := by
    rw [List.map_map]
    rfl
  rw [hmap,filter_map_of_nodup (visited_hosts o g).1 host (by simp [hostRule,eq_comm]),if_pos hhost]

/-- The visits are told apart by their hosts, and the hosts by the names of their path
matchers. -/
theorem pathMatchers_of_host (hg : t.Translates ing s g) (hmd5 : Distinguishes md5 ing) {link : Str → Str → Str}
    {visit : Str × List Str} (hvisit : visit ∈ visited o g.getDefaultBackend.2) :
    ((visited o g.getDefaultBackend.2).map (matcherOf md5 defaultService link)).filter
      (fun pm => pm.name = (hostRule md5 visit.1).pathMatcher) = [matcherOf md5 defaultService link visit] := by
  have hnodup := (visited_hosts o g.getDefaultBackend.2).1
  rw [filter_map_of_nodup (List.Nodup.of_map _ hnodup) visit ?_,if_pos hvisit]
  intro other hother
  rw [decide_eq_true_iff]
  constructor
  · intro hname
    obtain ⟨rule,hmem,hhost⟩ := (mem_visited_iff hg hmd5 o visit.1).mp (List.mem_map_of_mem hvisit)
    obtain ⟨rule',hmem',hhost'⟩ := (mem_visited_iff hg hmd5 o other.1).mp (List.mem_map_of_mem hother)
    have hfst := hmd5.injective rule' hmem' rule hmem other.1 visit.1 hhost' hhost (List.append_cancel_left hname)
    exact List.inj_on_of_nodup_map hnodup hother hvisit hfst
  · rintro rfl
    rfl

theorem routesPaths_of_visit (hg : t.Translates ing s g) (hmd5 : Distinguishes md5 ing) {host : Str}
    {before : List IngressRule} {rule : IngressRule} (hlast : GCETranslator.lastRule ing host = some (before,rule))
    {paths : List Str} (hvisit : (host,paths) ∈ visited o g.getDefaultBackend.2) :
    RoutesPaths t selfLink ing.namespaced (t.askedRules ing.namespaced before s) rule
      (matcherOf md5 defaultService (linkAt selfLink g.getDefaultBackend.2.meaning) (host,paths)) := by
  obtain ⟨hpaths,table,htable,hmemPaths⟩ := visited_paths hvisit
  obtain rfl : table = t.rulePaths ing.namespaced s before rule := by
    rw [meaning_of_translates hg hmd5,hlast] at htable
    exact (Option.some.inj htable).symm
  refine routesPaths_matcherOf hpaths hmemPaths ?_ ?_
  · intro path be hbe
    simp [linkAt,htable,GCETranslator.rulePaths,hbe]
  · obtain ⟨hmem,hhost⟩ := lastWrite_spec hlast
    have hne : host ≠ defaultBackendKey := fun hr => hmd5.reserved rule hmem (hr ▸ hhost)
    rw [GCEURLMap.meaning_getDefaultBackend,if_neg hne] at htable
    exact hg.notNil host _ hne htable

/-- A map built from the translation of an Ingress routes as the Ingress says. -/
theorem routes_of_render {um um' : UrlMap} (hg : t.Translates ing s g) (hmd5 : Distinguishes md5 ing)
    (h : render md5 selfLink o um g.getDefaultBackend.2 defaultService = some um') :
    Routes t selfLink ing s defaultService um' := by
  obtain rfl := render_eq h
  refine ⟨rfl,?_,?_,?_⟩
  · intro pm hpm
    obtain ⟨visit,_,rfl⟩ := List.mem_map.mp hpm
    rfl
  · intro host before rule hlast
    obtain ⟨hmem,hhost⟩ := lastWrite_spec hlast
    have hvisited := (mem_visited_iff hg hmd5 o host).mpr ⟨rule,hmem,hhost⟩
    obtain ⟨⟨host',paths⟩,hvisit,rfl⟩ := List.mem_map.mp hvisited
    exact ⟨hostRule md5 host',_,hostRules_of_host hvisited,rfl,pathMatchers_of_host hg hmd5 hvisit,
      routesPaths_of_visit hg hmd5 hlast hvisit⟩
  · intro host hno hr hhr hhost
    obtain ⟨visit,hvisit,rfl⟩ := List.mem_map.mp hhr
    obtain rfl : host = visit.1 := List.mem_singleton.mp hhost
    obtain ⟨rule,hmem,hhost⟩ := (mem_visited_iff hg hmd5 o visit.1).mp (List.mem_map_of_mem hvisit)
    exact hno rule hmem hhost

end Rendered

/-- The link of the default service: that of the Ingress if it resolves, else that of the
controller. -/
def defaultServiceFor (t : GCETranslator σ β) (selfLink : β → Str) (ing : Ingress) (s : σ) (glbcDefaultBackend : β) : Str :=
  selfLink ((t.defaultFor ing s).getD glbcDefaultBackend)

theorem defaultLink_translates (selfLink : β → Str) {g : GCEURLMap β} (hg : t.Translates ing s g) (d : β) :
    defaultLink selfLink g.getDefaultBackend.1 (some d) = some (defaultServiceFor t selfLink ing s d) := by
  rw [hg.default,defaultServiceFor]
  cases t.defaultFor ing s with
  | none => rfl
  | some be => rfl

/-- The url map made from the translation of an Ingress routes as the Ingress says, and
so does the url map in the cloud once the update returns without error. -/
theorem updateUrlMap_routes {g : GCEURLMap β} {s' : σ} (htranslated : t.toURLMap ing s = (.ok g,s'))
    (hmd5 : Distinguishes md5 ing) (o : Orders β) {w : Balancer β} {um : UrlMap} {d : β} (hum : w.um = some um)
    (hdefault : w.glbcDefaultBackend = some d) :
    Returns (buildUrlMap md5 selfLink o g) w (fun um' _ =>
      um'.name = um.name ∧ Routes t selfLink ing s (defaultServiceFor t selfLink ing s d) um') ∧
    Ensures (updateUrlMap md5 selfLink o g) w (fun r w' => r = .ok () →
      ∃ um', w'.cloud.items um.name = some um' ∧ Routes t selfLink ing s (defaultServiceFor t selfLink ing s d) um') := by
  have hg := GCETranslator.toURLMap_translates htranslated
  have hlink := defaultLink_translates selfLink hg d
  rw [← hdefault] at hlink
  have hnil : ∀ host paths path, g.getDefaultBackend.2.meaning host = some paths → paths path ≠ some none := by
    intro host paths path hpaths
    rw [GCEURLMap.meaning_getDefaultBackend] at hpaths
    by_cases hreserved : host = defaultBackendKey
    · rw [if_pos hreserved] at hpaths
      cases hpaths
    · rw [if_neg hreserved] at hpaths
      exact hg.notNil host paths hreserved hpaths path
  have hbuilt := buildUrlMap_returns md5 o hum hlink hnil
  have hroutes : ∀ um', render md5 selfLink o um g.getDefaultBackend.2 (defaultServiceFor t selfLink ing s d) = some um' →
      um'.name = um.name ∧ Routes t selfLink ing s (defaultServiceFor t selfLink ing s d) um' :=
    fun um' h => ⟨by rw [render_eq h],routes_of_render hg hmd5 h⟩
  refine ⟨hbuilt.mono fun um' _ h => hroutes um' h.1,?_⟩
  rw [updateUrlMap,ensures_bind]
  refine Ensures.mono hbuilt ?_
  rintro _ w₁ ⟨um',rfl,hrender,_⟩
  obtain ⟨hname,hum'⟩ := hroutes um' hrender
  rw [afterwards_ok]
  refine (pushUrlMap_ensures um').mono ?_
  intro r w' hpushed hok
  obtain ⟨m,hm,heq⟩ := hpushed.cloud hok
  exact ⟨m,hname ▸ hm,hum'.of_mapsEqual heq⟩

/-- A store with one Service, and a pool that has a backend for every port. -/
def oneService : GCETranslator Unit Str where
  svcLister key := if key = "default/web".toList then
      some { annotations := ∅, ports := [{ name := "http".toList, port := 80, nodePort := 30080, targetPort := .int 8080 }] }
    else none
  unmarshal _ := (∅,none)
  negEnabled := false
  backendPool port := pure (Decimal.itoa port)

/-- An Ingress with two rules for all hosts and one for a host of its own. -/
def threeRules : Ingress where
  namespaced := "default".toList
  name := "web".toList
  annotations := ∅
  backend := none
  rules :=
    let web : IngressBackend := { serviceName := "web".toList, servicePort := .int 80 }
    let gone : IngressBackend := { serviceName := "gone".toList, servicePort := .int 80 }
    [{ host := [], http := some [{ path := "/a".toList, backend := web }] },
      { host := "foo.bar.com".toList, http := some [{ path := "/b".toList, backend := gone }] },
      { host := "*".toList, http := some [{ path := [], backend := web }, { path := [], backend := gone }] }]

def oneBalancer : Balancer Str where
  um := some { name := "um".toList, defaultService := [], hostRules := [], pathMatchers := [] }
  glbcDefaultBackend := some "30000".toList
  cloud := { items := fun _ => none, faults := fun _ => none, clock := 0 }
  updates := []

theorem updateUrlMap_routes_threeRules : ∃ g, oneService.toURLMap threeRules () = (.ok g,()) ∧
    Returns (buildUrlMap id id { hosts := .backwards, paths := fun _ => .inOrder } g) oneBalancer (fun um _ =>
      um.name = "um".toList ∧ Routes oneService id threeRules () "30000".toList um) := by
  refine ⟨_,rfl,?_⟩
  have hmd5 : Distinguishes id threeRules := ⟨by decide +kernel,fun _ _ _ _ _ _ _ _ h => h⟩
  exact (updateUrlMap_routes (show oneService.toURLMap threeRules () = (.ok _,()) from rfl) hmd5
    { hosts := .backwards, paths := fun _ => .inOrder } (w := oneBalancer) rfl rfl).1

end IngressGce.Routing
