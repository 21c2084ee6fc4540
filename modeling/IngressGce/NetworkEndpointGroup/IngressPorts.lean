import IngressGce.Controller.Translator
import IngressGce.NetworkEndpointGroup.GarbageCollection

/-! # The ports of a service that need NEGs

The controller of the NEGs gathers the target ports of a service that Ingresses refer to.
It compares the texts of the references, so a port that is named by a numeral is taken
for a number, which the translation of the same Ingress does not do. An update of an
Ingress concerns only the services that the old or the new one refers to.
-/
namespace IngressGce
open Kube

namespace Kube

/-- What the Ingress refers to, by default or in a path. -/
def Ingress.backends (ing : Ingress) : List IngressBackend :=
  ing.backend.toList ++ ing.rules.flatMap (fun rule => rule.paths.map HTTPIngressPath.backend)

end Kube

namespace NEG

structure NamedService where
  namespaced : Str
  name : Str
  service : Service

/-- The backends of the paths of all rules, which panics at a rule without an HTTP section. -/
def pathBackends (rules : List IngressRule) : Option (List IngressBackend) :=
  if rules.all (fun rule => rule.http.isSome) then
    some (rules.flatMap (fun rule => rule.paths.map HTTPIngressPath.backend))
  else none

/-- The ports of the service that the Ingresses refer to, as texts. -/
def referredPorts (ings : List Ingress) (svc : NamedService) : Option (List Str) :=
  (pathBackends (ings.flatMap Ingress.rules)).map (fun paths =>
    ((ings.flatMap (fun ing => ing.backend.toList) ++ paths).filter (fun be => be.serviceName = svc.name)).map
      (fun be => be.servicePort.text))

/-- A text that is no numeral is the name of a port. -/
def refersToPort (refSvcPort : Str) (svcPort : Kube.ServicePort) : Bool :=
  match Decimal.atoi refSvcPort with
  | (_,some _) => refSvcPort = svcPort.name
  | (port,none) => port = svcPort.port.toInt

def gatherSerivceTargetPortUsedByIngress (ings : List Ingress) (svc : NamedService) : Option (List Str) :=
  (referredPorts ings svc).map (fun servicePorts =>
    ((svc.service.ports.filter (fun svcPort => servicePorts.any (fun ref => refersToPort ref svcPort))).map
      (fun svcPort => svcPort.targetPort.text)).dedup)

def serviceKeyFunc (namespaced name : Str) : Str := namespaced ++ '/' :: name

def gatherIngressServiceKeys (ing : Ingress) : Option (List Str) :=
  (pathBackends ing.rules).map (fun paths =>
    ((ing.backend.toList ++ paths).map (fun be => serviceKeyFunc ing.namespaced be.serviceName)).dedup)

/-- The default backend is looked at first, then the paths of the rules that have any. -/
def selects (svc : NamedService) (ing : Ingress) : Bool :=
  ing.namespaced = svc.namespaced && (ing.backend.any (fun be => be.serviceName = svc.name) ||
    ing.rules.any (fun rule => rule.paths.any (fun p => p.backend.serviceName = svc.name)))

def getIngressServicesFromStore (store : List Ingress) (svc : NamedService) : List Ingress := store.filter (selects svc)

variable {svc : NamedService}

theorem selects_iff {ing : Ingress} : selects svc ing = true ↔
    ing.namespaced = svc.namespaced ∧ ∃ be ∈ ing.backends, be.serviceName = svc.name := by
  unfold selects Ingress.backends
  cases ing.backend <;> simp [List.mem_flatMap,or_and_right,exists_or,and_assoc]

theorem pathBackends_perm {rules rules' : List IngressRule} (h : rules.Perm rules') :
    (pathBackends rules = none ∧ pathBackends rules' = none) ∨
      ∃ paths paths', pathBackends rules = some paths ∧ pathBackends rules' = some paths' ∧ paths.Perm paths' := by
  have hall : rules.all (fun rule => rule.http.isSome) = rules'.all (fun rule => rule.http.isSome) := by
    rw [Bool.eq_iff_iff,List.all_eq_true,List.all_eq_true]
    exact forall_congr' fun rule => by rw [h.mem_iff]
  unfold pathBackends
  rw [← hall]
  split
  · exact Or.inr ⟨_,_,rfl,rfl,h.flatMap_right _⟩
  · exact Or.inl ⟨rfl,rfl⟩

theorem gather_perm {ings ings' : List Ingress} (h : ings.Perm ings') (svc : NamedService) :
    gatherSerivceTargetPortUsedByIngress ings svc = gatherSerivceTargetPortUsedByIngress ings' svc := by
  have hany : ∀ {refs refs' : List Str}, refs.Perm refs' → ∀ svcPort,
      refs.any (fun ref => refersToPort ref svcPort) = refs'.any (fun ref => refersToPort ref svcPort) := by
    intro refs refs' hrefs svcPort
    rw [Bool.eq_iff_iff,List.any_eq_true,List.any_eq_true]
    exact exists_congr fun ref => by rw [hrefs.mem_iff]
  unfold gatherSerivceTargetPortUsedByIngress referredPorts
  rcases pathBackends_perm (h.flatMap_right Ingress.rules) with ⟨hnone,hnone'⟩ | ⟨paths,paths',hpaths,hpaths',hperm⟩
  · rw [hnone,hnone']
    rfl
  · rw [hpaths,hpaths']
    have hrefs := (((h.flatMap_right (fun ing => ing.backend.toList)).append hperm).filter
      (fun be => be.serviceName = svc.name)).map (fun be => be.servicePort.text)
    simp only [Option.map_some,hany hrefs]

theorem not_selects {ing : Ingress} {keys : List Str} (hkeys : gatherIngressServiceKeys ing = some keys)
    (h : serviceKeyFunc svc.namespaced svc.name ∉ keys) : selects svc ing = false := by
  rw [Bool.eq_false_iff]
  intro hselects
  obtain ⟨hns,be,hbe,hname⟩ := selects_iff.mp hselects
  apply h
  unfold gatherIngressServiceKeys pathBackends at hkeys
  split at hkeys
  · obtain rfl := Option.some.inj hkeys
    rw [List.mem_dedup,← hns,← hname]
    exact List.mem_map_of_mem (f := fun be : IngressBackend => serviceKeyFunc ing.namespaced be.serviceName) hbe
  · cases hkeys

/-- When an Ingress is replaced, the ports of a service whose key neither the old nor the
new one has stay what they are. -/
theorem gather_replace {before after rest : List Ingress} {old cur : Ingress} {oldKeys curKeys : List Str}
    (hbefore : before.Perm (old :: rest)) (hafter : after.Perm (cur :: rest))
    (hold : gatherIngressServiceKeys old = some oldKeys) (hcur : gatherIngressServiceKeys cur = some curKeys)
    (hkey : serviceKeyFunc svc.namespaced svc.name ∉ oldKeys ++ curKeys) :
    gatherSerivceTargetPortUsedByIngress (getIngressServicesFromStore before svc) svc =
      gatherSerivceTargetPortUsedByIngress (getIngressServicesFromStore after svc) svc := by
  have hrest : ∀ {store : List Ingress} {ing : Ingress}, store.Perm (ing :: rest) → selects svc ing = false →
      (getIngressServicesFromStore store svc).Perm (rest.filter (selects svc)) := by
    intro store ing hstore hing
    have hfilter := hstore.filter (selects svc)
    rwa [List.filter_cons_of_neg (by rw [hing]; exact Bool.false_ne_true)] at hfilter
  obtain ⟨hkey,hkey'⟩ := not_or.mp (fun h => hkey (List.mem_append.mpr h))
  exact gather_perm ((hrest hbefore (not_selects hold hkey)).trans (hrest hafter (not_selects hcur hkey')).symm) svc

/-- A Service with two ports, the second of which is named like the number of the first. -/
def twoPorts : NamedService where
  namespaced := "default".toList
  name := "web".toList
  service := ⟨AList.singleton networkEndpointGroupAlphaAnnotation "true".toList,
    [⟨"http".toList,80,30080,.int 8080⟩,⟨"80".toList,8081,30081,.int 9090⟩]⟩

theorem gather_replace_elsewhere :
    gatherSerivceTargetPortUsedByIngress (getIngressServicesFromStore
      [⟨"default".toList,"a".toList,∅,some ⟨"api".toList,.int 80⟩,[]⟩] twoPorts) twoPorts =
    gatherSerivceTargetPortUsedByIngress (getIngressServicesFromStore
      [⟨"default".toList,"a".toList,∅,none,[⟨[],some [⟨[],⟨"auth".toList,.int 80⟩⟩]⟩]⟩] twoPorts) twoPorts :=
  gather_replace .rfl .rfl rfl rfl (by decide)

def HTTPOnly (ings : List Ingress) : Prop := ∀ ing ∈ ings, ∀ rule ∈ ing.rules, rule.http.isSome

theorem gather_returns (svc : NamedService) {ings : List Ingress} (h : HTTPOnly ings) :
    ∃ ports, gatherSerivceTargetPortUsedByIngress ings svc = some ports ∧
      ∀ t, t ∈ ports ↔ ∃ svcPort ∈ svc.service.ports, svcPort.targetPort.text = t ∧
        ∃ ing ∈ ings, ∃ be ∈ ing.backends, be.serviceName = svc.name ∧ refersToPort be.servicePort.text svcPort = true := by
  have hall : (ings.flatMap Ingress.rules).all (fun rule => rule.http.isSome) = true := by
    rw [List.all_eq_true]
    intro rule hrule
    obtain ⟨ing,hing,hrule⟩ := List.mem_flatMap.mp hrule
    exact h ing hing rule hrule
  unfold gatherSerivceTargetPortUsedByIngress referredPorts pathBackends
  rw [if_pos hall]
  refine ⟨_,rfl,?_⟩
  intro t
  have hrefs : ∀ be : IngressBackend, be ∈ ings.flatMap (fun ing => ing.backend.toList) ++
      (ings.flatMap Ingress.rules).flatMap (fun rule => rule.paths.map HTTPIngressPath.backend) ↔
        ∃ ing ∈ ings, be ∈ ing.backends := by
    intro be
    simp only [List.mem_append,List.mem_flatMap,Ingress.backends]
    constructor
    · rintro (⟨ing,hing,hbe⟩ | ⟨rule,⟨ing,hing,hrule⟩,hbe⟩)
      · exact ⟨ing,hing,Or.inl hbe⟩
      · exact ⟨ing,hing,Or.inr ⟨rule,hrule,hbe⟩⟩
    · rintro ⟨ing,hing,hbe | ⟨rule,hrule,hbe⟩⟩
      · exact Or.inl ⟨ing,hing,hbe⟩
      · exact Or.inr ⟨rule,⟨ing,hing,hrule⟩,hbe⟩
  simp only [List.mem_dedup,List.mem_map,List.mem_filter,List.any_eq_true]
  constructor
  · rintro ⟨svcPort,⟨hport,ref,⟨be,⟨hbe,hname⟩,rfl⟩,href⟩,rfl⟩
    obtain ⟨ing,hing,hbe⟩ := (hrefs be).mp hbe
    exact ⟨svcPort,hport,rfl,ing,hing,be,hbe,of_decide_eq_true hname,href⟩
  · rintro ⟨svcPort,hport,rfl,ing,hing,be,hbe,hname,href⟩
    exact ⟨svcPort,⟨hport,_,⟨be,⟨(hrefs be).mpr ⟨ing,hing,hbe⟩,decide_eq_true hname⟩,rfl⟩,href⟩,rfl⟩

/-- A port that is named by a numeral leads to the target port of the port with that
number. Other references are read alike by both controllers. -/
def Agrees (be : IngressBackend) (svc : Service) : Prop :=
  match be.servicePort with
  | .int _ => True
  | .str s => (Decimal.atoi s).2 = none → ∀ named, svc.ports.find? (fun p => p.name = s) = some named →
      ∃ numbered ∈ svc.ports, numbered.port.toInt = (Decimal.atoi s).1 ∧
        numbered.targetPort.text = named.targetPort.text

section Translation
variable {σ β : Type} {t : GCETranslator σ β} {be : IngressBackend} {sp : Backends.ServicePort}

theorem getServiceNodePort_target (hsvc : t.svcLister (metaNamespaceKey svc.namespaced svc.name) = some svc.service)
    (hname : be.serviceName = svc.name) (h : t.getServiceNodePort be svc.namespaced = .ok sp) :
    ∃ port, svc.service.ports.find? (GCETranslator.matchesPort be.servicePort) = some port ∧
      sp.svcNamespace = svc.namespaced ∧ sp.svcName = svc.name ∧ sp.svcTargetPort = port.targetPort.text := by
  unfold GCETranslator.getServiceNodePort at h
  rw [hname,hsvc] at h
  dsimp only at h
  split at h
  · cases h
  · split at h
    · cases h
    · rename_i port hport
      obtain rfl := Except.ok.inj h
      exact ⟨port,hport,rfl,rfl,rfl⟩

theorem refersToPort_int {n : Int32} {p : Kube.ServicePort} :
    refersToPort (IntOrString.int n).text p = true ↔ n.toInt = p.port.toInt := by
  have hatoi : Decimal.atoi (IntOrString.int n).text = (n.toInt,none) := by
    have hlow := Int32.le_toInt n
    have hhigh := Int32.toInt_lt n
    exact Decimal.atoi_itoa (by omega) (by omega)
  rw [refersToPort,hatoi]
  exact decide_eq_true_iff

theorem refersToPort_of_agrees {port : Kube.ServicePort}
    (hport : svc.service.ports.find? (GCETranslator.matchesPort be.servicePort) = some port)
    (h : Agrees be svc.service) : ∃ p ∈ svc.service.ports, p.targetPort.text = port.targetPort.text ∧
      refersToPort be.servicePort.text p = true := by
  have hmem := List.mem_of_find?_eq_some hport
  have hmatch := List.find?_some hport
  unfold Agrees at h
  cases hbe : be.servicePort with
  | int n =>
    rw [hbe] at hmatch
    refine ⟨port,hmem,rfl,refersToPort_int.mpr ?_⟩
    rw [of_decide_eq_true hmatch]
  | str s =>
    rw [hbe] at hmatch hport h
    unfold refersToPort IntOrString.text
    cases hatoi : (Decimal.atoi s) with
    | mk number err =>
      cases err with
      | some e =>
        have hname : port.name = s := of_decide_eq_true hmatch
        exact ⟨port,hmem,rfl,decide_eq_true hname.symm⟩
      | none =>
        obtain ⟨p,hp,hnumber,htarget⟩ := h (by rw [hatoi]) port hport
        rw [hatoi] at hnumber
        exact ⟨p,hp,htarget,decide_eq_true hnumber.symm⟩

theorem agrees_of_refersToPort {port p : Kube.ServicePort}
    (hport : svc.service.ports.find? (GCETranslator.matchesPort be.servicePort) = some port)
    (hp : p ∈ svc.service.ports) (htext : p.targetPort.text = port.targetPort.text)
    (href : refersToPort be.servicePort.text p = true) : Agrees be svc.service := by
  unfold Agrees
  cases hbe : be.servicePort with
  | int n => trivial
  | str s =>
    intro hnumeral named hnamed
    rw [hbe] at hport href
    obtain rfl : port = named := Option.some.inj (hport.symm.trans hnamed)
    unfold refersToPort IntOrString.text at href
    cases hatoi : Decimal.atoi s with
    | mk number err =>
      rw [hatoi] at hnumeral href
      subst hnumeral
      exact ⟨p,hp,(of_decide_eq_true href).symm,htext⟩

/-- The target port is one for which the manager has a NEG, and the NEG that `Link` asks for
stays as long as the manager has these ports on record. -/
structure Maintained (svc : NamedService) (ports : List Str) (sp : Backends.ServicePort) : Prop where
  gathered : sp.svcTargetPort ∈ ports
  kept : ∀ (n : Namer) (md5 : MD5) (w : Manager) (negName : Str),
    w.svcPortMap.lookup ⟨svc.namespaced,svc.name⟩ = some ports →
    n.neg md5 ⟨sp.svcNamespace,sp.svcName,sp.svcTargetPort⟩ = some negName →
    ∀ (o : Iteration Str) (aggregated : Except GoError ZoneNEGList) (cloud : Groups) (zone : Str),
      (garbageCollectNEG n md5 o aggregated w cloud).2.items (negName,zone) = cloud.items (negName,zone)

/-- In every store the target port that the translation finds for a reference is one that
the NEGs are maintained for, exactly if the reference is read alike. -/
theorem maintained_iff_agrees
    (hsvc : t.svcLister (metaNamespaceKey svc.namespaced svc.name) = some svc.service)
    (hname : be.serviceName = svc.name) (h : t.getServiceNodePort be svc.namespaced = .ok sp) :
    (∀ store, HTTPOnly store → ∀ ing ∈ store, ing.namespaced = svc.namespaced → be ∈ ing.backends →
      ∃ ports, gatherSerivceTargetPortUsedByIngress (getIngressServicesFromStore store svc) svc = some ports ∧
        Maintained svc ports sp) ↔ Agrees be svc.service := by
  obtain ⟨port,hport,hns,hsvcName,htarget⟩ := getServiceNodePort_target hsvc hname h
  constructor
  · intro hall
    -- A store with one Ingress that refers to nothing else.
    let ing : Ingress := ⟨svc.namespaced,[],∅,some be,[]⟩
    have hbackends : ing.backends = [be] := rfl
    have hselected : getIngressServicesFromStore [ing] svc = [ing] :=
      List.filter_eq_self.mpr (by simpa [selects_iff,hbackends] using ⟨rfl,hname⟩)
    have hhttp : HTTPOnly [ing] := by simp [HTTPOnly,ing]
    obtain ⟨ports,hgather,hmaintained⟩ := hall [ing] hhttp ing (by simp) rfl (by simp [hbackends])
    obtain ⟨ports',hgather',hmem⟩ := gather_returns svc hhttp
    rw [hselected,hgather'] at hgather
    obtain rfl := Option.some.inj hgather
    obtain ⟨p,hp,htext,_,hing,be',hbe',_,href⟩ := (hmem _).mp hmaintained.gathered
    obtain rfl := List.mem_singleton.mp hing
    rw [hbackends] at hbe'
    obtain rfl := List.mem_singleton.mp hbe'
    exact agrees_of_refersToPort hport hp (htext.trans htarget) href
  · intro hagrees store hhttp ing hing hingns hbe
    have hselected : ing ∈ getIngressServicesFromStore store svc :=
      List.mem_filter.mpr ⟨hing,selects_iff.mpr ⟨hingns,be,hbe,hname⟩⟩
    have hhttp' : HTTPOnly (getIngressServicesFromStore store svc) := fun i hi => hhttp i (List.mem_of_mem_filter hi)
    obtain ⟨ports,hgather,hmem⟩ := gather_returns svc hhttp'
    obtain ⟨p,hp,htext,href⟩ := refersToPort_of_agrees hport hagrees
    have hgathered : sp.svcTargetPort ∈ ports :=
      (hmem _).mpr ⟨p,hp,htext.trans htarget.symm,ing,hselected,be,hbe,hname,href⟩
    refine ⟨ports,hgather,hgathered,?_⟩
    intro n md5 w negName hports hneg
    rw [hns,hsvcName] at hneg
    exact Wanted.kept n md5 ⟨_,_,_,hports,hgathered,hneg⟩

def oneService : GCETranslator Unit Unit where
  svcLister key := if key = metaNamespaceKey twoPorts.namespaced twoPorts.name then some twoPorts.service else none
  unmarshal _ := (∅,none)
  negEnabled := true
  backendPool _ := Prog.fail (.text [])

theorem maintained_by_number :
    ∃ ports, gatherSerivceTargetPortUsedByIngress (getIngressServicesFromStore
        [⟨"default".toList,"a".toList,∅,some ⟨"web".toList,.int 80⟩,[]⟩] twoPorts) twoPorts = some ports ∧
      Maintained twoPorts ports ⟨30080,protocolHTTP,"default".toList,"web".toList,.int 80,"8080".toList,true⟩ := by
  have hport : oneService.getServiceNodePort ⟨"web".toList,.int 80⟩ twoPorts.namespaced =
      .ok ⟨30080,protocolHTTP,"default".toList,"web".toList,.int 80,"8080".toList,true⟩ := rfl
  have hsvc : oneService.svcLister (metaNamespaceKey twoPorts.namespaced twoPorts.name) = some twoPorts.service := rfl
  exact (maintained_iff_agrees hsvc rfl hport).mpr trivial _ (by simp [HTTPOnly]) _ List.mem_cons_self rfl List.mem_cons_self

/-- The port that is named like a number: the translation finds the port by its name, and
the NEGs are maintained for the port with the number. -/
theorem numeral_read_differently :
    (∃ sp, oneService.getServiceNodePort ⟨"web".toList,.str "80".toList⟩ twoPorts.namespaced = .ok sp ∧
      sp.negEnabled = true ∧ sp.svcTargetPort = "9090".toList) ∧
    gatherSerivceTargetPortUsedByIngress (getIngressServicesFromStore
      [⟨"default".toList,"a".toList,∅,some ⟨"web".toList,.str "80".toList⟩,[]⟩] twoPorts) twoPorts =
      some ["8080".toList] :=
  ⟨⟨_,rfl,by decide,by decide⟩,by decide +kernel⟩

end Translation

end NEG
end IngressGce
