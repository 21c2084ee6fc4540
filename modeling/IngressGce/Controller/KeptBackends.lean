import IngressGce.Backends.Tracking
import IngressGce.Controller.Translator
import IngressGce.Routing.Preserves

/-! # A collection keeps the backends that url maps use

The translation of an Ingress to a rule map and the one to a list of ports find the ports
of backends in the same way. Every backend of a rule map therefore has its port in the
list that a collection of the backends is given.
-/
namespace IngressGce
open Kube Prog

namespace GCETranslator
variable {σ β : Type} {t : GCETranslator σ β} {ing : Ingress} {s : σ}

theorem mem_portOf {namespaced : Str} {be : IngressBackend} {sp : Backends.ServicePort} :
    sp ∈ t.portOf namespaced be ↔ t.getServiceNodePort be namespaced = .ok sp := by
  unfold portOf
  split
  · rename_i h
    simp [h]
  · rename_i h
    simp [h,eq_comm]

theorem answered_of_toGCEBackend {namespaced : Str} {be : IngressBackend} {x : β} {s : σ}
    (h : (t.toGCEBackend (some be) namespaced s).1.toOption.join = some x) :
    ∃ sp ∈ t.portOf namespaced be, ∃ s', t.backendPool sp.port s = (.ok x,s') := by
  have hspec := toGCEBackend_spec (t := t) namespaced s be
  unfold Ensures at hspec
  cases hr : (t.toGCEBackend (some be) namespaced s).1 with
  | error e =>
    rw [hr] at h
    cases h
  | ok y =>
    obtain ⟨sp,x',hsp,rfl,hpool⟩ := hspec.1 y hr
    rw [hr] at h
    obtain rfl : x' = x := Option.some.inj h
    exact ⟨sp,mem_portOf.mpr hsp,_,hpool⟩

/-- The two translations agree: what is in the rule map comes from a port of the list. -/
theorem port_of_has {g : GCEURLMap β} {s' : σ} (h : t.toURLMap ing s = (.ok g,s')) {x : β} (hx : g.Has x) :
    ∃ sp ∈ t.ingressToNodePorts ing, ∃ s₁ s₂, t.backendPool sp.port s₁ = (.ok x,s₂) := by
  have hg := toURLMap_translates h
  obtain ⟨host,table,path,htable,hread⟩ := hx
  by_cases hhost : host = defaultBackendKey
  · subst hhost
    rw [hg.reserved] at htable
    cases htable
    have hdefault : t.defaultFor ing s = some x := by
      by_cases hpath : path = defaultBackendKey
      · subst hpath
        rw [PathMap.read_singleton] at hread
        exact Option.some.inj hread
      · rw [PathMap.read_singleton_of_ne hpath] at hread
        cases hread
    unfold defaultFor at hdefault
    cases hbe : ing.backend with
    | none =>
      rw [hbe] at hdefault
      cases hdefault
    | some be =>
      rw [hbe] at hdefault
      obtain ⟨sp,hsp,s₂,hpool⟩ := answered_of_toGCEBackend hdefault
      refine ⟨sp,List.mem_append_left _ ?_,_,s₂,hpool⟩
      rw [hbe]
      simpa using hsp
  · rw [hg.hosts host hhost] at htable
    obtain ⟨⟨before,rule⟩,hrule,rfl⟩ := Option.map_eq_some_iff.mp htable
    obtain ⟨⟨before',p⟩,hp,hanswer⟩ := Option.map_eq_some_iff.mp hread
    obtain ⟨sp,hsp,s₂,hpool⟩ := answered_of_toGCEBackend hanswer
    refine ⟨sp,List.mem_append_right _ ?_,_,s₂,hpool⟩
    refine List.mem_flatMap.mpr ⟨rule,(lastWrite_spec hrule).1,List.mem_flatMap.mpr ⟨p,(lastWrite_spec hp).1,hsp⟩⟩

theorem isInt64_of_mem_portOf {namespaced : Str} {be : IngressBackend} {sp : Backends.ServicePort}
    (h : sp ∈ t.portOf namespaced be) : IsInt64 sp.port := by
  have hport : ∃ n : Int32, sp.port = n.toInt := by
    have hsp := mem_portOf.mp h
    unfold getServiceNodePort at hsp
    split at hsp
    · cases hsp
    · split at hsp
      · cases hsp
      · split at hsp
        · cases hsp
        · rename_i port _
          cases hsp
          exact ⟨port.nodePort,rfl⟩
  obtain ⟨n,hn⟩ := hport
  have hlow := n.le_toInt
  have hhigh := n.toInt_lt
  rw [hn]
  constructor
  · omega
  · omega

theorem isInt64_of_mem_ports {sp : Backends.ServicePort} (h : sp ∈ t.ingressToNodePorts ing) : IsInt64 sp.port := by
  rcases List.mem_append.mp h with h | h
  · obtain ⟨be,_,hbe⟩ := List.mem_flatMap.mp h
    exact isInt64_of_mem_portOf hbe
  · obtain ⟨rule,_,h⟩ := List.mem_flatMap.mp h
    obtain ⟨p,_,hp⟩ := List.mem_flatMap.mp h
    exact isInt64_of_mem_portOf hp

end GCETranslator

namespace Backends

theorem get_named {b : Backends} {port : ℤ} {w w' : Pool} {be : BackendService} (h : b.get port w = (.ok be,w')) :
    be.name = b.namer.backend port ∧ be.selfLink = b.links (b.namer.backend port) := by
  have hens : Ensures (b.get port) w (fun r _ => ∀ be, r = .ok be →
      be.name = b.namer.backend port ∧ be.selfLink = b.links (b.namer.backend port)) := by
    rw [get,ensures_bind,onServices,ensures_onPart]
    refine (Store.onItem_served _).mono ?_
    intro r s hserved
    cases r with
    | error e =>
      intro be hbe
      cases hbe
    | ok be =>
      obtain ⟨x,_,rfl,_⟩ := hserved.answer be rfl
      rintro be' ⟨⟩
      exact ⟨rfl,rfl⟩
  unfold Ensures at hens
  rw [h] at hens
  exact hens be rfl

end Backends

/-- The url map is what `UpdateUrlMap` has left in the cloud for the translation of the
Ingress. -/
def Current (t : GCETranslator Backends.Pool Backends.BackendService) (glbcDefaultBackend : Backends.BackendService)
    (ing : Ingress) (m : Routing.UrlMap) : Prop :=
  ∃ s g s' md5 o w w' um, t.toURLMap ing s = (.ok g,s') ∧ w.glbcDefaultBackend = some glbcDefaultBackend ∧
    w.um = some um ∧ Routing.updateUrlMap md5 (fun be => be.selfLink) o g w = (.ok (),w') ∧
    w'.cloud.items um.name = some m

/-- The links in a current url map are those of the controller's default backend and of
backends of the rule map. -/
theorem Current.services {t : GCETranslator Backends.Pool Backends.BackendService}
    {glbcDefaultBackend : Backends.BackendService} {ing : Ingress} {m : Routing.UrlMap}
    (h : Current t glbcDefaultBackend ing m) {link : Str} (hlink : link ∈ m.services) :
    link = glbcDefaultBackend.selfLink ∨
      ∃ s g s' be, t.toURLMap ing s = (.ok g,s') ∧ g.Has be ∧ link = be.selfLink := by
  obtain ⟨s,g,s',md5,o,w,w',um,hg,hdefault,hum,hupdate,hm⟩ := h
  have hok := Routing.updateUrlMap_ok md5 (fun be : Backends.BackendService => be.selfLink) o g w
  unfold Ensures at hok
  rw [hupdate] at hok
  obtain ⟨um₁,um',m',defaultService,hum₁,_,hdefaultLink,hrender,_,hm',hsame⟩ := hok rfl
  obtain rfl : um = um₁ := Option.some.inj (hum.symm.trans hum₁)
  have hname : um'.name = um.name := by rw [Routing.render_eq hrender]
  rw [hname] at hm'
  obtain rfl : m = m' := Option.some.inj (hm.symm.trans hm')
  rw [Routing.services_of_mapsEqual hsame] at hlink
  rcases Routing.services_render hrender hlink with rfl | ⟨be,hbe,heq⟩
  · rw [hdefault] at hdefaultLink
    cases hbackend : g.getDefaultBackend.1 with
    | none =>
      rw [hbackend] at hdefaultLink
      exact Or.inl (Option.some.inj hdefaultLink).symm
    | some be =>
      rw [hbackend] at hdefaultLink
      exact Or.inr ⟨s,g,s',be,hg,g.has_of_getDefaultBackend (Or.inl hbackend),(Option.some.inj hdefaultLink).symm⟩
  · exact Or.inr ⟨s,g,s',be,hg,g.has_of_getDefaultBackend (Or.inr hbe),heq⟩

/-- A collection with the ports of the Ingresses keeps every backend service that a url
map of one of them refers to: the backends of a rule map are named after ports of the
list, and the default backend of the controller has a port that is ignored. -/
theorem gc_keeps_referenced (b : Backends) (t : GCETranslator Backends.Pool Backends.BackendService)
    (hpool : t.backendPool = b.get) (hlinks : Function.Injective b.links) {defaultPort : ℤ}
    (hignored : defaultPort ∈ b.ignorePorts) (hport : IsInt64 defaultPort)
    {glbcDefaultBackend : Backends.BackendService}
    (hdefault : glbcDefaultBackend.selfLink = b.links (b.namer.backend defaultPort)) (ings : List Ingress) :
    (∀ ing ∈ ings, ∀ s g s', t.toURLMap ing s = (.ok g,s') → ∀ be, g.Has be →
      ∃ sp ∈ t.toNodePorts ings, be.name = b.namer.backend sp.port) ∧
    ∀ o w, Ensures (b.gc o (t.toNodePorts ings)) w (fun _ w' => ∀ name,
      (∃ ing ∈ ings, ∃ m, Current t glbcDefaultBackend ing m ∧ b.links name ∈ m.services) →
        w'.services.items name = w.services.items name) := by
  have hports : ∀ ing ∈ ings, ∀ s g s', t.toURLMap ing s = (.ok g,s') → ∀ be, g.Has be →
      ∃ sp ∈ t.toNodePorts ings, IsInt64 sp.port ∧ be.name = b.namer.backend sp.port ∧
        be.selfLink = b.links (b.namer.backend sp.port) := by
    intro ing hing s g s' hg be hbe
    obtain ⟨sp,hsp,s₁,s₂,hanswer⟩ := GCETranslator.port_of_has hg hbe
    rw [hpool] at hanswer
    obtain ⟨hname,hlink⟩ := Backends.get_named hanswer
    exact ⟨sp,List.mem_flatMap.mpr ⟨ing,hing,hsp⟩,GCETranslator.isInt64_of_mem_ports hsp,hname,hlink⟩
  refine ⟨fun ing hing s g s' hg be hbe => ?_,fun o w => ?_⟩
  · obtain ⟨sp,hsp,_,hname,_⟩ := hports ing hing s g s' hg be hbe
    exact ⟨sp,hsp,hname⟩
  · refine (b.gc_ensures o (t.toNodePorts ings) w).mono ?_
    rintro r w' ⟨hcollecting,_⟩ name ⟨ing,hing,m,hm,hlink⟩
    rcases hm.services hlink with heq | ⟨s,g,s',be,hg,hbe,heq⟩
    · rw [hdefault] at heq
      rw [hlinks heq]
      exact (hcollecting.untouched defaultPort hport (Or.inr hignored)).1
    · obtain ⟨sp,hsp,hint,_,hbelink⟩ := hports ing hing s g s' hg be hbe
      rw [hbelink] at heq
      rw [hlinks heq]
      exact (hcollecting.untouched sp.port hint (Or.inl ⟨sp,hsp,rfl⟩)).1

namespace Backends

def webTranslator : GCETranslator Pool BackendService where
  svcLister := Routing.oneService.svcLister
  unmarshal := Routing.oneService.unmarshal
  negEnabled := false
  backendPool := onePool.get

def webDefault : BackendService where
  selfLink := onePool.links (onePool.namer.backend 30000)
  name := onePool.namer.backend 30000
  description := []
  protocol := Kube.protocolHTTP
  healthChecks := []
  port := 30000
  portName := []
  backends := []

theorem onePool_links : Function.Injective onePool.links := fun _ _ h => List.append_cancel_left h

end Backends

open Backends in
theorem gc_keeps_referenced_web : ∃ g w be,
    webTranslator.toURLMap Routing.threeRules (Runs.final onePool.step emptyPool ensureWeb) = (.ok g,w) ∧ g.Has be ∧
    (∃ sp ∈ webTranslator.toNodePorts [Routing.threeRules], be.name = onePool.namer.backend sp.port) := by
  have hdefault : webDefault.selfLink = onePool.links (onePool.namer.backend 30000) := rfl
  have hkept := gc_keeps_referenced onePool webTranslator rfl onePool_links List.mem_cons_self (by simp [IsInt64])
    hdefault [Routing.threeRules]
  refine ⟨_,_,_,rfl,⟨"*".toList,_,"/*".toList,rfl,rfl⟩,?_⟩
  exact hkept.1 Routing.threeRules List.mem_cons_self (Runs.final onePool.step emptyPool ensureWeb) _ _ rfl _
    ⟨"*".toList,_,"/*".toList,rfl,rfl⟩

end IngressGce
