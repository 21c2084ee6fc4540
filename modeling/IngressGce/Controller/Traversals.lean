import IngressGce.NetworkEndpointGroup.IngressPorts

/-! # What the traversals of an Ingress look at

Both controllers go through the rules of an Ingress several times: to find the Ingresses
of a Service that has changed, to translate them, and to gather what the NEGs need. They
ask for the Services that the Ingress refers to and for no other. Most of them pass over
a rule without an HTTP section.
-/
namespace IngressGce
open Kube NEG Prog

/-- A namespace, which is never empty and has no slash. -/
def IsNamespace (ns : Str) : Prop := ns ≠ [] ∧ '/' ∉ ns

theorem metaNamespaceKey_inj {ns ns' name name' : Str} (hns : IsNamespace ns) (hns' : IsNamespace ns')
    (h : metaNamespaceKey ns name = metaNamespaceKey ns' name') : ns = ns' ∧ name = name' := by
  rw [metaNamespaceKey,metaNamespaceKey,if_neg hns.1,if_neg hns'.1] at h
  have hfirst : ∀ {ns name : Str}, '/' ∉ ns → (ns ++ '/' :: name).takeWhile (· ≠ '/') = ns := by
    intro ns name hslash
    rw [List.takeWhile_append_of_pos (fun c hc => decide_eq_true (ne_of_mem_of_not_mem hc hslash))]
    simp
  have hsame : ns = ns' := by rw [← hfirst hns.2,h,hfirst hns'.2]
  subst hsame
  exact ⟨rfl,(List.cons.inj (List.append_cancel_left h)).2⟩

/-- The Ingresses that refer to the Service, and an error if there are none. -/
def getServiceIngress (store : List Ingress) (svc : NamedService) : List Ingress × Option Str :=
  let ings := store.filter (selects svc)
  (ings,if ings = [] then some ("no ingress for service ".toList ++ svc.name) else none)

namespace GCETranslator
variable {σ β : Type} {t t' : GCETranslator σ β} {ns : Str}

theorem toGCEBackend_congr (hpool : t.backendPool = t'.backendPool) {be : IngressBackend}
    (h : t.getServiceNodePort be ns = t'.getServiceNodePort be ns) :
    t.toGCEBackend (some be) ns = t'.toGCEBackend (some be) ns := by
  unfold toGCEBackend
  dsimp only
  rw [h,hpool]

theorem addPath_congr (hpool : t.backendPool = t'.backendPool) {p : HTTPIngressPath}
    (h : t.getServiceNodePort p.backend ns = t'.getServiceNodePort p.backend ns) (m : PathMap β) :
    t.addPath ns m p = t'.addPath ns m p := by
  unfold addPath
  rw [toGCEBackend_congr hpool h]

theorem addRule_congr (hpool : t.backendPool = t'.backendPool) {rule : IngressRule}
    (h : ∀ p ∈ rule.paths, t.getServiceNodePort p.backend ns = t'.getServiceNodePort p.backend ns) (g : GCEURLMap β) :
    t.addRule ns g rule = t'.addRule ns g rule := by
  unfold addRule
  cases hhttp : rule.http with
  | none => rfl
  | some paths =>
    have hpaths : rule.paths = paths := by rw [IngressRule.paths,hhttp]; rfl
    rw [hpaths] at h
    dsimp only
    rw [foldlM_congr fun p hp m => addPath_congr hpool (h p hp) m]

/-- The translations of an Ingress ask only for the Services that the Ingress refers to. -/
theorem translations_congr (hpool : t.backendPool = t'.backendPool) {ing : Ingress}
    (h : ∀ be ∈ ing.backends, t.getServiceNodePort be ing.namespaced = t'.getServiceNodePort be ing.namespaced) :
    t.ingressToNodePorts ing = t'.ingressToNodePorts ing ∧ t.toURLMap ing = t'.toURLMap ing := by
  have hpath : ∀ rule ∈ ing.rules, ∀ p ∈ rule.paths,
      t.getServiceNodePort p.backend ing.namespaced = t'.getServiceNodePort p.backend ing.namespaced := by
    intro rule hrule p hp
    apply h
    exact List.mem_append_right _ (List.mem_flatMap.mpr ⟨rule,hrule,List.mem_map_of_mem hp⟩)
  have hdefault : ∀ be ∈ ing.backend.toList,
      t.getServiceNodePort be ing.namespaced = t'.getServiceNodePort be ing.namespaced :=
    fun be hbe => h be (List.mem_append_left _ hbe)
  have hport : ∀ {be : IngressBackend}, t.getServiceNodePort be ing.namespaced = t'.getServiceNodePort be ing.namespaced →
      t.portOf ing.namespaced be = t'.portOf ing.namespaced be := by
    intro be hbe
    unfold portOf
    rw [hbe]
  constructor
  · unfold ingressToNodePorts
    rw [List.flatMap_congr fun be hbe => hport (hdefault be hbe)]
    congr 1
    refine List.flatMap_congr fun rule hrule => ?_
    exact List.flatMap_congr fun p hp => hport (hpath rule hrule p hp)
  · have hbackend : t.defaultBackend ing = t'.defaultBackend ing := by
      unfold defaultBackend
      cases hbe : ing.backend with
      | none => rfl
      | some be => rw [toGCEBackend_congr hpool (hdefault be (by rw [hbe]; exact List.mem_singleton_self be))]
    unfold toURLMap
    rw [foldlM_congr fun rule hrule g => addRule_congr hpool (hpath rule hrule) g,hbackend]

end GCETranslator

section Updates
variable {σ β : Type} {svc : NamedService}

/-- The stores have the same Services, but for this one, which was added, changed or removed. -/
def DifferOnlyIn (svc : NamedService) (svcs svcs' : Str → Option Service) : Prop :=
  ∀ key, key ≠ metaNamespaceKey svc.namespaced svc.name → svcs key = svcs' key

theorem getServiceNodePort_of_differOnlyIn {t : GCETranslator σ β} {svcs' : Str → Option Service}
    (hdiffer : DifferOnlyIn svc t.svcLister svcs') {be : IngressBackend} {ns : Str}
    (hkey : metaNamespaceKey ns be.serviceName ≠ metaNamespaceKey svc.namespaced svc.name) :
    t.getServiceNodePort be ns = { t with svcLister := svcs' }.getServiceNodePort be ns := by
  unfold GCETranslator.getServiceNodePort
  rw [hdiffer _ hkey]

/-- What is not enqueued for the Service is translated as before, and nothing is enqueued
twice. -/
theorem translations_without_service (t : GCETranslator σ β) (svcs' : Str → Option Service) (store : List Ingress)
    (hsvc : IsNamespace svc.namespaced) (hstore : ∀ ing ∈ store, IsNamespace ing.namespaced)
    (hdiffer : DifferOnlyIn svc t.svcLister svcs') :
    (∀ ing ∈ store, ing ∉ (getServiceIngress store svc).1 →
      t.ingressToNodePorts ing = { t with svcLister := svcs' }.ingressToNodePorts ing ∧
      t.toURLMap ing = { t with svcLister := svcs' }.toURLMap ing) ∧
    (getServiceIngress store svc).1.Sublist store := by
  refine ⟨?_,List.filter_sublist⟩
  intro ing hing hnot
  have hselects : selects svc ing ≠ true := fun h => hnot (List.mem_filter.mpr ⟨hing,h⟩)
  have hpool : t.backendPool = { t with svcLister := svcs' }.backendPool := rfl
  refine GCETranslator.translations_congr hpool ?_
  intro be hbe
  refine getServiceNodePort_of_differOnlyIn hdiffer ?_
  intro hkey
  obtain ⟨hns,hname⟩ := metaNamespaceKey_inj (hstore ing hing) hsvc hkey
  exact hselects (selects_iff.mpr ⟨hns,be,hbe,hname⟩)

/-- One Ingress refers to the Service that is removed, the other one does not. -/
theorem translations_without_web :
    oneService.ingressToNodePorts ⟨"default".toList,"b".toList,∅,some ⟨"api".toList,.int 80⟩,[]⟩ =
      { oneService with svcLister := fun _ => none }.ingressToNodePorts
        ⟨"default".toList,"b".toList,∅,some ⟨"api".toList,.int 80⟩,[]⟩ ∧
    oneService.ingressToNodePorts ⟨"default".toList,"a".toList,∅,some ⟨"web".toList,.int 80⟩,[]⟩ ≠
      { oneService with svcLister := fun _ => none }.ingressToNodePorts
        ⟨"default".toList,"a".toList,∅,some ⟨"web".toList,.int 80⟩,[]⟩ := by
  have hdiffer : DifferOnlyIn twoPorts oneService.svcLister (fun _ => none) := fun key hkey => if_neg hkey
  have hsame := (translations_without_service oneService (fun _ => none)
    [⟨"default".toList,"a".toList,∅,some ⟨"web".toList,.int 80⟩,[]⟩,
      ⟨"default".toList,"b".toList,∅,some ⟨"api".toList,.int 80⟩,[]⟩]
    ⟨by decide,by decide⟩ (by simp [IsNamespace]) hdiffer).1 _
    (List.mem_cons_of_mem _ List.mem_cons_self) (by decide +kernel)
  exact ⟨hsame.1,by decide +kernel⟩

end Updates

/-! ## Rules without an HTTP section -/

namespace Kube

/-- The Ingress without the rules that have no HTTP section. -/
def Ingress.httpOnly (ing : Ingress) : Ingress := { ing with rules := ing.rules.filter (fun rule => rule.http.isSome) }

theorem IngressRule.paths_of_no_http {rule : IngressRule} (h : ¬rule.http.isSome = true) : rule.paths = [] := by
  rw [IngressRule.paths,Option.not_isSome_iff_eq_none.mp h]
  rfl

theorem flatMap_http {α : Type} {f : IngressRule → List α} (hf : ∀ rule, rule.paths = [] → f rule = [])
    (rules : List IngressRule) : (rules.filter (fun rule => rule.http.isSome)).flatMap f = rules.flatMap f := by
  induction rules with
  | nil => rfl
  | cons rule rest ih =>
    rw [List.flatMap_cons,← ih]
    by_cases h : rule.http.isSome = true
    · rw [List.filter_cons,if_pos h,List.flatMap_cons]
    · rw [List.filter_cons,if_neg h,hf rule (IngressRule.paths_of_no_http h),List.nil_append]

theorem Ingress.backends_httpOnly (ing : Ingress) : ing.httpOnly.backends = ing.backends := by
  unfold Ingress.backends
  congr 1
  refine flatMap_http ?_ ing.rules
  intro rule hrule
  rw [hrule]
  rfl

theorem Ingress.httpOnly_eq_self {ing : Ingress} (h : ∀ rule ∈ ing.rules, rule.http.isSome) : ing.httpOnly = ing := by
  unfold Ingress.httpOnly
  rw [List.filter_eq_self.mpr h]

end Kube

namespace GCETranslator
variable {σ β : Type} (t : GCETranslator σ β)

theorem ingressToNodePorts_httpOnly (ing : Ingress) : t.ingressToNodePorts ing.httpOnly = t.ingressToNodePorts ing := by
  unfold ingressToNodePorts
  congr 1
  refine flatMap_http ?_ ing.rules
  intro rule hrule
  rw [hrule]
  rfl

theorem addRules_http (ns : Str) (rules : List IngressRule) (g : GCEURLMap β) :
    (rules.filter (fun rule => rule.http.isSome)).foldlM (t.addRule ns) g = rules.foldlM (t.addRule ns) g := by
  apply foldlM_filter
  intro rule _ hhttp g
  rw [addRule,Option.not_isSome_iff_eq_none.mp hhttp]

theorem toURLMap_httpOnly (ing : Ingress) : t.toURLMap ing.httpOnly = t.toURLMap ing := by
  unfold toURLMap
  rw [← t.addRules_http ing.namespaced ing.rules]
  rfl

end GCETranslator

namespace NEG
variable {svc : NamedService}

theorem selects_httpOnly (ing : Ingress) : selects svc ing.httpOnly = selects svc ing := by
  rw [Bool.eq_iff_iff,selects_iff,selects_iff,Ingress.backends_httpOnly]
  rfl

theorem filter_selects_httpOnly (store : List Ingress) :
    (store.map Ingress.httpOnly).filter (selects svc) = (store.filter (selects svc)).map Ingress.httpOnly := by
  rw [List.filter_map]
  congr 1
  exact List.filter_congr fun ing _ => selects_httpOnly ing

theorem pathBackends_returns_iff {rules : List IngressRule} :
    (∃ paths, pathBackends rules = some paths) ↔ ∀ rule ∈ rules, rule.http.isSome := by
  unfold pathBackends
  rw [← List.all_eq_true]
  split
  · rename_i hall
    simp [hall]
  · rename_i hall
    simp [hall]

theorem gather_returns_iff {ings : List Ingress} :
    (∃ ports, gatherSerivceTargetPortUsedByIngress ings svc = some ports) ↔ HTTPOnly ings := by
  have hrules : (∀ rule ∈ ings.flatMap Ingress.rules, rule.http.isSome) ↔ HTTPOnly ings := by
    constructor
    · intro h ing hing rule hrule
      exact h rule (List.mem_flatMap.mpr ⟨ing,hing,hrule⟩)
    · intro h rule hrule
      obtain ⟨ing,hing,hrule⟩ := List.mem_flatMap.mp hrule
      exact h ing hing rule hrule
  rw [← hrules,← pathBackends_returns_iff,gatherSerivceTargetPortUsedByIngress,referredPorts]
  cases pathBackends (ings.flatMap Ingress.rules) with
  | none => simp
  | some paths => simp

theorem mem_gatherIngressServiceKeys {ing : Ingress} (h : ∀ rule ∈ ing.rules, rule.http.isSome) :
    ∃ keys, gatherIngressServiceKeys ing = some keys ∧
      ∀ key, key ∈ keys ↔ ∃ be ∈ ing.backends, key = serviceKeyFunc ing.namespaced be.serviceName := by
  unfold gatherIngressServiceKeys pathBackends
  rw [if_pos (List.all_eq_true.mpr h)]
  refine ⟨_,rfl,?_⟩
  intro key
  rw [List.mem_dedup,List.mem_map]
  exact exists_congr fun be => and_congr_right fun _ => eq_comm

/-- All traversals come to an end, and a rule without an HTTP section adds nothing to what
they return. -/
structure Tolerated {σ β : Type} (t : GCETranslator σ β) (store : List Ingress) (svc : NamedService) (ing : Ingress) :
    Prop where
  keys : ∃ keys, gatherIngressServiceKeys ing = some keys ∧
    ∀ key, key ∈ keys ↔ ∃ be ∈ ing.backends, key = serviceKeyFunc ing.namespaced be.serviceName
  ports : ∃ ports, gatherSerivceTargetPortUsedByIngress (getIngressServicesFromStore store svc) svc = some ports ∧
    gatherSerivceTargetPortUsedByIngress (getIngressServicesFromStore (store.map Ingress.httpOnly) svc) svc = some ports
  selected : getIngressServicesFromStore (store.map Ingress.httpOnly) svc =
    (getIngressServicesFromStore store svc).map Ingress.httpOnly
  enqueued : (getServiceIngress (store.map Ingress.httpOnly) svc).1 = (getServiceIngress store svc).1.map Ingress.httpOnly
  urlMap : t.toURLMap ing.httpOnly = t.toURLMap ing
  nodePorts : t.ingressToNodePorts ing.httpOnly = t.ingressToNodePorts ing

/-- The traversals of the NEG controller come to an end exactly if they meet no rule
without an HTTP section. -/
theorem tolerated_iff {σ β : Type} (t : GCETranslator σ β) (store : List Ingress) (svc : NamedService) (ing : Ingress) :
    Tolerated t store svc ing ↔ (∀ rule ∈ ing.rules, rule.http.isSome) ∧
      ∀ i ∈ store, selects svc i = true → ∀ rule ∈ i.rules, rule.http.isSome := by
  have hselected : HTTPOnly (getIngressServicesFromStore store svc) ↔
      ∀ i ∈ store, selects svc i = true → ∀ rule ∈ i.rules, rule.http.isSome := by
    constructor
    · intro h i hi hselects
      exact h i (List.mem_filter.mpr ⟨hi,hselects⟩)
    · intro h i hi
      obtain ⟨hi,hselects⟩ := List.mem_filter.mp hi
      exact h i hi hselects
  rw [← hselected]
  constructor
  · intro h
    obtain ⟨keys,hkeys,_⟩ := h.keys
    obtain ⟨ports,hports,_⟩ := h.ports
    refine ⟨pathBackends_returns_iff.mp ?_,gather_returns_iff.mp ⟨ports,hports⟩⟩
    obtain ⟨paths,hpaths,_⟩ := Option.map_eq_some_iff.mp hkeys
    exact ⟨paths,hpaths⟩
  · rintro ⟨hing,hstore⟩
    obtain ⟨ports,hports⟩ := gather_returns_iff.mpr hstore
    have hsame : getIngressServicesFromStore (store.map Ingress.httpOnly) svc = getIngressServicesFromStore store svc := by
      refine (filter_selects_httpOnly store).trans ?_
      refine (List.map_congr_left fun i hi => ?_).trans (List.map_id _)
      exact Ingress.httpOnly_eq_self (hstore i hi)
    exact ⟨mem_gatherIngressServiceKeys hing,⟨ports,hports,hsame ▸ hports⟩,filter_selects_httpOnly store,
      filter_selects_httpOnly store,t.toURLMap_httpOnly ing,t.ingressToNodePorts_httpOnly ing⟩

/-- A default backend, and a rule that has a host and nothing else. -/
def hostOnly : Ingress where
  namespaced := "default".toList
  name := "a".toList
  annotations := ∅
  backend := some ⟨"web".toList,.int 80⟩
  rules := [⟨"example.com".toList,none⟩]

/-- The other traversals find the default backend. -/
theorem hostOnly_panics : ¬Tolerated oneService [hostOnly] twoPorts hostOnly ∧
    gatherIngressServiceKeys hostOnly = none ∧
    gatherSerivceTargetPortUsedByIngress (getIngressServicesFromStore [hostOnly] twoPorts) twoPorts = none ∧
    (getServiceIngress [hostOnly] twoPorts).1 = [hostOnly] ∧
    (oneService.ingressToNodePorts hostOnly).map (fun sp => sp.port) = [30080] := by
  have hnone : gatherIngressServiceKeys hostOnly = none := rfl
  refine ⟨?_,hnone,by decide +kernel,rfl,by decide +kernel⟩
  intro h
  obtain ⟨keys,hkeys,_⟩ := h.keys
  rw [hnone] at hkeys
  cases hkeys

end NEG
end IngressGce
