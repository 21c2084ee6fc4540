import IngressGce.Backends.Pool
import IngressGce.Controller.ClusterManager
import IngressGce.Controller.Traversals

/-! # Node ports as the identity of backends

Everything behind a load balancer is named after the node port: the backend service, its
health check, the named port of the instance groups. The ports come from the references
of the Ingresses to Services. What a reference stands for is looked up in the store, and
of several references to one node port the last one decides what the backend is like.
-/
namespace IngressGce
open Kube Prog

namespace GCETranslator
variable {σ β : Type} (t : GCETranslator σ β) (ns : Str)

/-- The port of a Service that a reference stands for. -/
structure Referred where
  service : Service
  protocols : AList (fun _ : Str => Str)
  port : ServicePort

def Referred.protocol (r : Referred) : Str := (r.protocols.lookup r.port.name).getD protocolHTTP

def referred (be : IngressBackend) : Option Referred := do
  let service ← t.svcLister (metaNamespaceKey ns be.serviceName)
  let protocols ← (service.annotations.applicationProtocols t.unmarshal).toOption
  let port ← service.ports.find? (matchesPort be.servicePort)
  pure ⟨service,protocols,port⟩

def Referred.servicePort (r : Referred) (be : IngressBackend) : Backends.ServicePort where
  port := r.port.nodePort.toInt
  protocol := r.protocol
  svcNamespace := ns
  svcName := be.serviceName
  svcPort := be.servicePort
  svcTargetPort := r.port.targetPort.text
  negEnabled := t.negEnabled && r.service.annotations.negEnabled

/-- The references of the Ingress that stand for a port. -/
def references (ing : Ingress) : List (IngressBackend × Referred) :=
  ing.backends.filterMap (fun be => (t.referred ing.namespaced be).map (fun r => (be,r)))

/-- The reference is to a port of a Service without a node port. -/
def portless (be : IngressBackend) : Bool :=
  ((t.svcLister (metaNamespaceKey ns be.serviceName)).bind
    (fun svc => svc.ports.find? (matchesPort be.servicePort))).any (fun port => port.nodePort = 0)

section References
variable {t ns}

theorem getServiceNodePort_toOption (be : IngressBackend) :
    (t.getServiceNodePort be ns).toOption = (t.referred ns be).map (fun r => r.servicePort t ns be) := by
  unfold getServiceNodePort referred
  cases t.svcLister (metaNamespaceKey ns be.serviceName) with
  | none => rfl
  | some svc =>
    rw [Option.bind_eq_bind,Option.bind_some]
    cases hprotocols : svc.annotations.applicationProtocols t.unmarshal with
    | error e => simp [hprotocols,Except.toOption]
    | ok protocols =>
      cases hfind : svc.ports.find? (matchesPort be.servicePort) with
      | none => simp [hprotocols,Except.toOption,hfind]
      | some port => simp [hprotocols,Except.toOption,hfind,Referred.servicePort,Referred.protocol]

theorem portOf_eq (be : IngressBackend) :
    t.portOf ns be = ((t.referred ns be).map (fun r => r.servicePort t ns be)).toList := by
  rw [← getServiceNodePort_toOption]
  unfold portOf
  cases t.getServiceNodePort be ns with
  | error e => rfl
  | ok port => rfl

theorem ingressToNodePorts_eq (ing : Ingress) :
    t.ingressToNodePorts ing = (t.references ing).map (fun e => e.2.servicePort t ing.namespaced e.1) := by
  have hbackends : t.ingressToNodePorts ing = ing.backends.flatMap (t.portOf ing.namespaced) := by
    rw [Ingress.backends,List.flatMap_append,List.flatMap_assoc]
    simp only [List.flatMap_map]
    rfl
  rw [hbackends,references,List.map_filterMap,List.filterMap_eq_flatMap_toList]
  refine List.flatMap_congr fun be _ => ?_
  rw [portOf_eq,Option.map_map]
  rfl

theorem mem_toNodePorts {ings : List Ingress} {sp : Backends.ServicePort} : sp ∈ t.toNodePorts ings ↔
    ∃ ing ∈ ings, ∃ be ∈ ing.backends, ∃ r, t.referred ing.namespaced be = some r ∧
      sp = r.servicePort t ing.namespaced be := by
  unfold toNodePorts
  simp only [List.mem_flatMap,ingressToNodePorts_eq,references,List.mem_map,List.mem_filterMap,Option.map_eq_some_iff]
  constructor
  · rintro ⟨ing,hing,_,⟨be,hbe,r,hr,rfl⟩,rfl⟩
    exact ⟨ing,hing,be,hbe,r,hr,rfl⟩
  · rintro ⟨ing,hing,be,hbe,r,hr,rfl⟩
    exact ⟨ing,hing,_,⟨be,hbe,r,hr,rfl⟩,rfl⟩

theorem referred_stored {be : IngressBackend} {r : Referred} (h : t.referred ns be = some r) :
    t.svcLister (metaNamespaceKey ns be.serviceName) = some r.service ∧
      r.service.ports.find? (matchesPort be.servicePort) = some r.port := by
  unfold referred at h
  obtain ⟨svc,hsvc,h⟩ := Option.bind_eq_some_iff.mp h
  obtain ⟨protocols,_,h⟩ := Option.bind_eq_some_iff.mp h
  obtain ⟨port,hport,h⟩ := Option.bind_eq_some_iff.mp h
  cases h
  exact ⟨hsvc,hport⟩

theorem portless_of_referred {be : IngressBackend} {r : Referred} (h : t.referred ns be = some r) :
    t.portless ns be = true ↔ r.port.nodePort = 0 := by
  obtain ⟨hsvc,hport⟩ := referred_stored h
  unfold portless
  rw [hsvc,Option.bind_some,hport,Option.any_some]
  exact decide_eq_true_iff

/-- For a port without a node port the lookup returns the port 0, or an error of another
kind. -/
theorem not_notFound_of_portless {be : IngressBackend} (h : t.portless ns be = true) {e : TranslateError}
    (herr : t.getServiceNodePort be ns = .error e) : e.isNodePortNotFound = false := by
  unfold portless at h
  unfold getServiceNodePort at herr
  cases hsvc : t.svcLister (metaNamespaceKey ns be.serviceName) with
  | none =>
    rw [hsvc] at h
    cases h
  | some svc =>
    rw [hsvc] at h herr
    dsimp only at herr
    split at herr
    · cases herr
      rfl
    · split at herr
      · rename_i hfind
        rw [Option.bind_some,hfind] at h
        cases h
      · cases herr

end References

/-! ## References without a node port -/

end GCETranslator

namespace Kube

/-- The Ingress without some of its references. The rules stay, also those without a path. -/
def Ingress.without (ing : Ingress) (drop : IngressBackend → Bool) : Ingress where
  namespaced := ing.namespaced
  name := ing.name
  annotations := ing.annotations
  backend := ing.backend.filter (fun be => !drop be)
  rules := ing.rules.map fun rule => { rule with http := rule.http.map (List.filter fun p => !drop p.backend) }

end Kube

namespace GCETranslator
variable {σ β : Type} {t : GCETranslator σ β}

/-- The lookup says that there is no node port. -/
def NotFound (t : GCETranslator σ β) (ns : Str) (be : IngressBackend) : Prop :=
  ∃ e, t.getServiceNodePort be ns = .error e ∧ e.isNodePortNotFound = true

theorem addPath_of_notFound {ns : Str} {p : HTTPIngressPath} (h : t.NotFound ns p.backend) (m : PathMap β) :
    t.addPath ns m p = pure m := by
  obtain ⟨e,herr,hkind⟩ := h
  unfold addPath toGCEBackend
  dsimp only
  rw [herr]
  change (if e.isNodePortNotFound = true then pure m else fail e) = _
  rw [if_pos hkind]

theorem defaultBackend_of_notFound {ing : Ingress} {be : IngressBackend} (hbe : ing.backend = some be)
    (h : t.NotFound ing.namespaced be) : t.defaultBackend ing = pure none := by
  obtain ⟨e,herr,_⟩ := h
  unfold defaultBackend toGCEBackend
  rw [hbe]
  dsimp only
  rw [herr]
  rfl

/-- A path for which there is no node port is dropped, and nothing else. -/
theorem toURLMap_without {ing : Ingress} {drop : IngressBackend → Bool}
    (h : ∀ be ∈ ing.backends, drop be = true → t.NotFound ing.namespaced be) :
    t.toURLMap (ing.without drop) = t.toURLMap ing := by
  have hrules : ∀ g, (ing.without drop).rules.foldlM (t.addRule ing.namespaced) g =
      ing.rules.foldlM (t.addRule ing.namespaced) g := by
    intro g
    rw [Ingress.without,List.foldlM_map]
    refine foldlM_congr ?_ g
    intro rule hrule g
    unfold addRule
    cases hhttp : rule.http with
    | none => rfl
    | some paths =>
      dsimp only [Option.map_some]
      congr 1
      apply foldlM_filter
      intro p hp hdrop m
      apply addPath_of_notFound
      apply h p.backend
      · have hpaths : p ∈ rule.paths := by
          rw [IngressRule.paths,hhttp]
          exact hp
        exact List.mem_append_right _ (List.mem_flatMap.mpr ⟨rule,hrule,List.mem_map_of_mem hpaths⟩)
      · simpa using hdrop
  have hdefault : t.defaultBackend (ing.without drop) = t.defaultBackend ing := by
    cases hbe : ing.backend with
    | none =>
      unfold defaultBackend
      rw [Ingress.without,hbe]
      rfl
    | some be =>
      by_cases hdrop : drop be = true
      · have hmem : be ∈ ing.backends := List.mem_append_left _ (by rw [hbe]; exact List.mem_singleton_self be)
        rw [defaultBackend_of_notFound hbe (h be hmem hdrop)]
        unfold defaultBackend
        rw [Ingress.without,hbe,Option.filter_some,if_neg (by simp [hdrop])]
        rfl
      · unfold defaultBackend
        rw [Ingress.without,hbe,Option.filter_some,if_pos (by simp [hdrop])]
  unfold toURLMap
  rw [hdefault]
  exact congrArg (fun m => m >>= _) (hrules ∅)

end GCETranslator

/-- No two Services have a node port in common. -/
def DistinctNodePorts (svcs : Str → Option Service) : Prop :=
  ∀ key key' svc svc' port port', svcs key = some svc → svcs key' = some svc' → port ∈ svc.ports → port' ∈ svc'.ports →
    port.nodePort = port'.nodePort → port.nodePort ≠ 0 → key = key'

/-- A port of a Service without a node port is passed over. -/
structure SkipsPortless {σ β : Type} (t : GCETranslator σ β) (ings : List Ingress) : Prop where
  nonzero : ∀ sp ∈ t.toNodePorts ings, sp.port ≠ 0
  notFound : ∀ ing ∈ ings, ∀ be ∈ ing.backends, t.portless ing.namespaced be = true → t.NotFound ing.namespaced be
  ownPath : ∀ ing ∈ ings, t.toURLMap (ing.without (t.portless ing.namespaced)) = t.toURLMap ing
  sameService : ∀ sp ∈ t.toNodePorts ings, ∀ sp' ∈ t.toNodePorts ings, sp.port = sp'.port →
    metaNamespaceKey sp.svcNamespace sp.svcName = metaNamespaceKey sp'.svcNamespace sp'.svcName

section Portless
variable {σ β : Type} {t : GCETranslator σ β} {ings : List Ingress}

/-- They are passed over exactly if there are none. -/
theorem skipsPortless_iff (hdistinct : DistinctNodePorts t.svcLister) :
    SkipsPortless t ings ↔ ∀ ing ∈ ings, ∀ be ∈ ing.backends, t.portless ing.namespaced be = false := by
  constructor
  · intro h ing hing be hbe
    rw [Bool.eq_false_iff]
    intro hportless
    obtain ⟨e,herr,hkind⟩ := h.notFound ing hing be hbe hportless
    rw [GCETranslator.not_notFound_of_portless hportless herr] at hkind
    cases hkind
  · intro h
    have hnotFound : ∀ ing ∈ ings, ∀ be ∈ ing.backends, t.portless ing.namespaced be = true →
        t.NotFound ing.namespaced be := by
      intro ing hing be hbe hportless
      rw [h ing hing be hbe] at hportless
      cases hportless
    have hnonzero : ∀ ing ∈ ings, ∀ be ∈ ing.backends, ∀ r, t.referred ing.namespaced be = some r →
        r.port.nodePort ≠ 0 := by
      intro ing hing be hbe r hr hzero
      have hportless := (GCETranslator.portless_of_referred hr).mpr hzero
      rw [h ing hing be hbe] at hportless
      cases hportless
    refine ⟨?_,hnotFound,fun ing hing => GCETranslator.toURLMap_without (hnotFound ing hing),?_⟩
    · intro sp hsp hzero
      obtain ⟨ing,hing,be,hbe,r,hr,rfl⟩ := GCETranslator.mem_toNodePorts.mp hsp
      exact hnonzero ing hing be hbe r hr (Int32.toInt_inj.mp hzero)
    · intro sp hsp sp' hsp' hport
      obtain ⟨ing,hing,be,hbe,r,hr,rfl⟩ := GCETranslator.mem_toNodePorts.mp hsp
      obtain ⟨ing',_,be',_,r',hr',rfl⟩ := GCETranslator.mem_toNodePorts.mp hsp'
      obtain ⟨hsvc,hfind⟩ := GCETranslator.referred_stored hr
      obtain ⟨hsvc',hfind'⟩ := GCETranslator.referred_stored hr'
      exact hdistinct _ _ _ _ _ _ hsvc hsvc' (List.mem_of_find?_eq_some hfind) (List.mem_of_find?_eq_some hfind')
        (Int32.toInt_inj.mp hport) (hnonzero ing hing be hbe r hr)

theorem skipsPortless_web :
    SkipsPortless NEG.oneService [⟨"default".toList,"a".toList,∅,some ⟨"web".toList,.int 80⟩,[]⟩] := by
  refine (skipsPortless_iff ?_).mpr (by decide +kernel)
  intro key key' svc svc' _ _ hsvc hsvc' _ _ _ _
  have hkey : ∀ {key svc}, NEG.oneService.svcLister key = some svc →
      key = metaNamespaceKey NEG.twoPorts.namespaced NEG.twoPorts.name := by
    intro key svc h
    by_contra hne
    have hnone : NEG.oneService.svcLister key = none := if_neg hne
    rw [hnone] at h
    cases h
  rw [hkey hsvc,hkey hsvc']

end Portless

/-- Two Services without node ports. -/
def clusterIPServices : GCETranslator Unit Unit where
  svcLister key :=
    if key ∈ ["default/web","default/api"].map String.toList then some ⟨∅,[⟨"http".toList,80,0,.int 8080⟩]⟩ else none
  unmarshal _ := (∅,none)
  negEnabled := false
  backendPool _ := pure ()

/-- They get one backend, that of the port 0. -/
theorem clusterIPServices_share :
    ¬SkipsPortless clusterIPServices [⟨"default".toList,"a".toList,∅,some ⟨"web".toList,.int 80⟩,
      [⟨[],some [⟨"/api".toList,⟨"api".toList,.int 80⟩⟩]⟩]⟩] ∧
    (clusterIPServices.toNodePorts [⟨"default".toList,"a".toList,∅,some ⟨"web".toList,.int 80⟩,
      [⟨[],some [⟨"/api".toList,⟨"api".toList,.int 80⟩⟩]⟩]⟩]).map (fun sp => (sp.port,sp.svcName)) =
        [(0,"web".toList),(0,"api".toList)] := by
  refine ⟨?_,by decide +kernel⟩
  intro h
  exact h.nonzero ⟨0,protocolHTTP,"default".toList,"web".toList,.int 80,"8080".toList,false⟩ List.mem_cons_self rfl

/-! ## The order of the Ingresses -/

/-- What decides whether a backend is left as it is. -/
def Backends.ServicePort.wanted (sp : Backends.ServicePort) : ℤ × Str × Str × Bool :=
  (sp.port,sp.protocol,sp.description,sp.negEnabled)

section Uniq
variable {o : Iteration Backends.ServicePort} {nodePorts : List Backends.ServicePort}

/-- The map of `uniq`. -/
theorem lookup_portMap (port : ℤ) :
    (nodePorts.foldl (fun m p => m.insert p.port p) (∅ : AList (fun _ : ℤ => Backends.ServicePort))).lookup port =
      lastWith Backends.ServicePort.port port nodePorts := by
  rw [lookup_foldl_insert]
  exact Option.or_none

theorem mem_portMap {port : ℤ} {sp : Backends.ServicePort} : (⟨port,sp⟩ : Sigma fun _ : ℤ => Backends.ServicePort) ∈
      (nodePorts.foldl (fun m p => m.insert p.port p) (∅ : AList (fun _ : ℤ => Backends.ServicePort))).entries ↔
    sp.port = port ∧ lastWith Backends.ServicePort.port sp.port nodePorts = some sp := by
  rw [← AList.mem_lookup_iff,lookup_portMap]
  constructor
  · intro h
    obtain rfl := (lastWith_spec h).2
    exact ⟨rfl,h⟩
  · rintro ⟨rfl,h⟩
    exact h

theorem mem_uniq {sp : Backends.ServicePort} :
    sp ∈ uniq o nodePorts ↔ lastWith Backends.ServicePort.port sp.port nodePorts = some sp := by
  unfold uniq
  rw [Iteration.mem_range,List.mem_map]
  constructor
  · rintro ⟨⟨port,sp⟩,hmem,rfl⟩
    exact (mem_portMap.mp hmem).2
  · intro h
    exact ⟨⟨sp.port,sp⟩,mem_portMap.mpr ⟨rfl,h⟩,rfl⟩

theorem nodup_uniq : (uniq o nodePorts).Nodup := by
  unfold uniq
  rw [Iteration.nodup_range]
  refine List.Nodup.map_on ?_ (AList.nodupKeys _).nodup
  rintro ⟨port,sp⟩ hsp ⟨port',sp'⟩ hsp' rfl
  rw [← (mem_portMap.mp hsp).1,← (mem_portMap.mp hsp').1]

theorem eq_of_mem_uniq {sp sp' : Backends.ServicePort} (hsp : sp ∈ uniq o nodePorts) (hsp' : sp' ∈ uniq o nodePorts)
    (hport : sp.port = sp'.port) : sp = sp' := by
  rw [mem_uniq] at hsp hsp'
  rw [hport,hsp'] at hsp
  exact (Option.some.inj hsp).symm

end Uniq

namespace GCETranslator
variable {σ β : Type} (t : GCETranslator σ β)

/-- The last reference of the Ingress to a node port. -/
def lastReference (ing : Ingress) (port : ℤ) : Option (IngressBackend × Referred) :=
  lastWith (fun e => e.2.port.nodePort.toInt) port (t.references ing)

/-- The last references of any two Ingresses to a node port ask for the same. -/
def AgreeOnPorts (ings : List Ingress) : Prop :=
  ∀ ing ∈ ings, ∀ ing' ∈ ings, ∀ port be r be' r', t.lastReference ing port = some (be,r) →
    t.lastReference ing' port = some (be',r') →
    r.protocol = r'.protocol ∧
    (r.servicePort t ing.namespaced be).description = (r'.servicePort t ing'.namespaced be').description ∧
    (t.negEnabled && r.service.annotations.negEnabled) = (t.negEnabled && r'.service.annotations.negEnabled)

variable {t} {o o' : Iteration Backends.ServicePort} {ings ings' : List Ingress}

theorem lastWith_ingressToNodePorts (ing : Ingress) (port : ℤ) :
    lastWith Backends.ServicePort.port port (t.ingressToNodePorts ing) =
      (t.lastReference ing port).map (fun e => e.2.servicePort t ing.namespaced e.1) := by
  rw [ingressToNodePorts_eq,lastWith_map]
  rfl

/-- What is wanted for a port is what the last reference of some Ingress asks for. -/
theorem exists_lastReference {sp : Backends.ServicePort} (h : sp ∈ uniq o (t.toNodePorts ings)) :
    ∃ ing ∈ ings, ∃ be r, t.lastReference ing sp.port = some (be,r) ∧ sp = r.servicePort t ing.namespaced be := by
  obtain ⟨ing,hing,hlast⟩ := lastWith_flatMap (mem_uniq.mp h)
  rw [lastWith_ingressToNodePorts] at hlast
  obtain ⟨⟨be,r⟩,hreference,rfl⟩ := Option.map_eq_some_iff.mp hlast
  exact ⟨ing,hing,be,r,hreference,rfl⟩

/-- The last Ingress decides for all ports that it refers to. -/
theorem mem_uniq_of_last {ing : Ingress} {port : ℤ} {be : IngressBackend} {r : Referred}
    (h : t.lastReference ing port = some (be,r)) :
    r.servicePort t ing.namespaced be ∈ uniq o (t.toNodePorts (ings ++ [ing])) := by
  have hport : r.port.nodePort.toInt = port := (lastWith_spec h).2
  subst hport
  have hlast := lastWith_ingressToNodePorts (t := t) ing r.port.nodePort.toInt
  rw [h] at hlast
  apply mem_uniq.mpr
  rw [toNodePorts,List.flatMap_append,lastWith_append,List.flatMap_singleton]
  exact Option.or_eq_some_iff.mpr (Or.inl hlast)

theorem wanted_mem_of_agree (hperm : ings'.Perm ings) (h : t.AgreeOnPorts ings) {sp : Backends.ServicePort}
    (hsp : sp ∈ uniq o (t.toNodePorts ings)) : ∃ sp' ∈ uniq o' (t.toNodePorts ings'), sp'.wanted = sp.wanted := by
  have hmem : sp ∈ t.toNodePorts ings' := by
    obtain ⟨hmem,_⟩ := lastWith_spec (mem_uniq.mp hsp)
    exact (hperm.symm.flatMap_right t.ingressToNodePorts).mem_iff.mp hmem
  obtain ⟨sp',hsp'⟩ : ∃ sp', lastWith Backends.ServicePort.port sp.port (t.toNodePorts ings') = some sp' :=
    lastWith_isSome hmem
  have hport : sp'.port = sp.port := (lastWith_spec hsp').2
  rw [← hport] at hsp'
  have hmem' : sp' ∈ uniq o' (t.toNodePorts ings') := mem_uniq.mpr hsp'
  refine ⟨sp',hmem',?_⟩
  obtain ⟨ing,hing,be,r,hlast,rfl⟩ := exists_lastReference hsp
  obtain ⟨ing',hing',be',r',hlast',rfl⟩ := exists_lastReference hmem'
  rw [hport] at hlast'
  obtain ⟨hprotocol,hdescription,hneg⟩ := h ing' (hperm.mem_iff.mp hing') ing hing _ _ _ _ _ hlast' hlast
  exact Prod.ext hport (Prod.ext hprotocol (Prod.ext hdescription hneg))

/-- Each Ingress may be the last one. -/
theorem wanted_of_mem {ing : Ingress} (hing : ing ∈ ings) {port : ℤ} {be : IngressBackend} {r : Referred}
    (hlast : t.lastReference ing port = some (be,r))
    (h : ∀ ings', ings'.Perm ings → ((uniq o (t.toNodePorts ings)).map Backends.ServicePort.wanted).Perm
      ((uniq o (t.toNodePorts ings')).map Backends.ServicePort.wanted)) :
    ∃ sp ∈ uniq o (t.toNodePorts ings), sp.wanted = (r.servicePort t ing.namespaced be).wanted := by
  obtain ⟨before,after,rfl⟩ := List.append_of_mem hing
  have hperm : (before ++ after ++ [ing]).Perm (before ++ ing :: after) :=
    (List.perm_append_singleton ing _).trans List.perm_middle.symm
  have hmem : r.servicePort t ing.namespaced be ∈ uniq o (t.toNodePorts (before ++ after ++ [ing])) :=
    mem_uniq_of_last hlast
  exact List.mem_map.mp ((h _ hperm).mem_iff.mpr (List.mem_map_of_mem hmem))

/-- What is wanted does not depend on the order of the Ingresses exactly if they agree. -/
theorem wanted_perm_iff (t : GCETranslator σ β) (ings : List Ingress) :
    (∀ ings', ings'.Perm ings → ∀ o o' : Iteration Backends.ServicePort,
      ((uniq o (t.toNodePorts ings)).map Backends.ServicePort.wanted).Perm
        ((uniq o' (t.toNodePorts ings')).map Backends.ServicePort.wanted)) ↔ t.AgreeOnPorts ings := by
  constructor
  · intro h ing hing ing' hing' port be r be' r' hlast hlast'
    have hsame := fun ings' hperm => h ings' hperm .inOrder .inOrder
    obtain ⟨sp,hsp,hwanted⟩ := wanted_of_mem hing hlast hsame
    obtain ⟨sp',hsp',hwanted'⟩ := wanted_of_mem hing' hlast' hsame
    have hport : r.port.nodePort.toInt = r'.port.nodePort.toInt := (lastWith_spec hlast).2.trans (lastWith_spec hlast').2.symm
    obtain rfl : sp = sp' := by
      apply eq_of_mem_uniq hsp hsp'
      exact (congrArg Prod.fst hwanted).trans (hport.trans (congrArg Prod.fst hwanted').symm)
    have hfields := Prod.ext_iff.mp (Prod.ext_iff.mp (hwanted.symm.trans hwanted')).2
    exact ⟨hfields.1,Prod.ext_iff.mp hfields.2⟩
  · intro h ings' hperm o o'
    have hagree : t.AgreeOnPorts ings' := fun ing hing ing' hing' =>
      h ing (hperm.mem_iff.mp hing) ing' (hperm.mem_iff.mp hing')
    have hinj : ∀ {o : Iteration Backends.ServicePort} {nodePorts}, ((uniq o nodePorts).map Backends.ServicePort.wanted).Nodup := by
      intro o nodePorts
      refine List.Nodup.map_on ?_ nodup_uniq
      intro sp hsp sp' hsp' hwanted
      exact eq_of_mem_uniq hsp hsp' (congrArg Prod.fst hwanted)
    refine (List.perm_ext_iff_of_nodup hinj hinj).mpr fun wanted => ?_
    constructor
    · intro hmem
      obtain ⟨sp,hsp,rfl⟩ := List.mem_map.mp hmem
      exact List.mem_map.mpr (wanted_mem_of_agree hperm h hsp)
    · intro hmem
      obtain ⟨sp,hsp,rfl⟩ := List.mem_map.mp hmem
      exact List.mem_map.mpr (wanted_mem_of_agree hperm.symm hagree hsp)

def byNumber : Ingress := ⟨"default".toList,"a".toList,∅,some ⟨"web".toList,.int 80⟩,[]⟩

def byName : Ingress := ⟨"default".toList,"b".toList,∅,some ⟨"web".toList,.str "http".toList⟩,[]⟩

/-- The Ingresses refer to one port by its number and by its name. Whichever is listed last
decides the description. -/
theorem byNumber_byName_differ :
    ¬(∀ ings', ings'.Perm [byNumber,byName] → ∀ o o' : Iteration Backends.ServicePort,
      ((uniq o (NEG.oneService.toNodePorts [byNumber,byName])).map Backends.ServicePort.wanted).Perm
        ((uniq o' (NEG.oneService.toNodePorts ings')).map Backends.ServicePort.wanted)) ∧
    (uniq .inOrder (NEG.oneService.toNodePorts [byNumber,byName])).map (fun sp => (sp.port,sp.description)) =
      [(30080,"\x7b\"kubernetes.io/service-name\":\"default/web\",\"kubernetes.io/service-port\":\"http\"\x7d".toList)] ∧
    (uniq .inOrder (NEG.oneService.toNodePorts [byName,byNumber])).map (fun sp => (sp.port,sp.description)) =
      [(30080,"\x7b\"kubernetes.io/service-name\":\"default/web\",\"kubernetes.io/service-port\":\"80\"\x7d".toList)] := by
  refine ⟨?_,by decide +kernel,by decide +kernel⟩
  intro h
  have hperm := h [byName,byNumber] (.swap _ _ _) .inOrder .inOrder
  exact absurd hperm (by decide +kernel)

end GCETranslator
end IngressGce
