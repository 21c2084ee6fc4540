import IngressGce.NetworkEndpointGroup.Converge
import IngressGce.Backends.Names

/-! # The ports that the firewall opens

With NEGs the requests go to the endpoints themselves, so that the firewall has to open
the ports of the endpoints. Which ports these are is read from the same Endpoints as the
NEGs are filled from, by other code.
-/
namespace IngressGce
open Kube

namespace Kube

def protocolTCP : Str := "TCP".toList

/-- A port of an Endpoints object, with the protocol, which the syncers do not look at. -/
structure EndpointPort extends NEG.EndpointPort where
  protocol : Str
  deriving DecidableEq

structure EndpointSubset where
  addresses : List NEG.EndpointAddress
  ports : List EndpointPort
  deriving DecidableEq

structure Endpoints where
  subsets : List EndpointSubset
  deriving DecidableEq

/-- What the syncers look at. -/
def EndpointSubset.forSyncer (subset : EndpointSubset) : NEG.EndpointSubset :=
  ⟨subset.addresses,subset.ports.map EndpointPort.toEndpointPort⟩

def Endpoints.forSyncer (ep : Endpoints) : NEG.Endpoints := ⟨ep.subsets.map EndpointSubset.forSyncer⟩

end Kube

/-- A target port that is a number is not looked up. -/
def listEndpointTargetPorts (endpointLister : Str → Option Endpoints) (ns name targetPort : Str) : List ℤ :=
  match Decimal.atoi targetPort with
  | (i,none) => [i]
  | (_,some _) =>
    match endpointLister (metaNamespaceKey ns name) with
    | none => []
    | some ep => ep.subsets.flatMap (fun subset =>
        (subset.ports.filter (fun port => port.protocol = protocolTCP ∧ port.name = targetPort)).map
          (fun port => port.port.toInt))

/-- The ports to be opened for one backend. -/
def firewallPortsOf (endpointLister : Str → Option Endpoints) (p : Backends.ServicePort) : List ℤ :=
  if p.negEnabled then listEndpointTargetPorts endpointLister p.svcNamespace p.svcName p.svcTargetPort else [p.port]

/-- The ports are the keys of a map, so that they come without repetition and in any order. -/
def gatherFirewallPorts (endpointLister : Str → Option Endpoints) (defaultBackendNodePort : Backends.ServicePort)
    (o : Iteration ℤ) (svcPorts : List Backends.ServicePort) (includeDefaultBackend : Bool) : List ℤ :=
  let svcPorts := if includeDefaultBackend then svcPorts ++ [defaultBackendNodePort] else svcPorts
  o.range (svcPorts.flatMap (firewallPortsOf endpointLister)).dedup

section Coverage
variable {endpointLister : Str → Option Endpoints}

theorem mem_gatherFirewallPorts {defaultBackendNodePort : Backends.ServicePort} {o : Iteration ℤ}
    {svcPorts : List Backends.ServicePort} {includeDefaultBackend : Bool} {sp : Backends.ServicePort} {port : ℤ}
    (hsp : sp ∈ svcPorts) (hport : port ∈ firewallPortsOf endpointLister sp) :
    port ∈ gatherFirewallPorts endpointLister defaultBackendNodePort o svcPorts includeDefaultBackend := by
  unfold gatherFirewallPorts
  rw [Iteration.mem_range,List.mem_dedup]
  refine List.mem_flatMap.mpr ⟨sp,?_,hport⟩
  split
  · exact List.mem_append_left _ hsp
  · exact hsp

/-- A target port: the decimal form of a port other than 0, or a name, which is no numeral. -/
def IsNonzeroTarget (t : Str) : Prop :=
  (∃ n : Int32, n ≠ 0 ∧ t = Decimal.itoa n.toInt) ∨ (Decimal.atoi t).2 = some .malformed

theorem mem_listEndpointTargetPorts {ns name t : Str} {ep : Endpoints}
    (hlister : endpointLister (metaNamespaceKey ns name) = some ep) (ht : IsNonzeroTarget t) {subset : EndpointSubset}
    (hsubset : subset ∈ ep.subsets) {p : EndpointPort} (hp : p ∈ subset.ports) (htcp : p.protocol = protocolTCP)
    (hmatch : NEG.matchOne t p.toEndpointPort ≠ []) :
    NEG.matchOne t p.toEndpointPort = Decimal.itoa p.port.toInt ∧
      p.port.toInt ∈ listEndpointTargetPorts endpointLister ns name t := by
  unfold NEG.matchOne at hmatch ⊢
  unfold listEndpointTargetPorts
  rcases ht with ⟨n,hne,rfl⟩ | hmalformed
  · have hlow := Int32.le_toInt n
    have hhigh := Int32.toInt_lt n
    have hatoi : Decimal.atoi (Decimal.itoa n.toInt) = (n.toInt,none) := Decimal.atoi_itoa (by omega) (by omega)
    have hnonzero : n.toInt ≠ 0 := fun h => hne (Int32.toInt_inj.mp h)
    rw [hatoi,if_pos hnonzero] at hmatch ⊢
    split at hmatch
    · rename_i hport
      rw [if_pos hport,hport]
      exact ⟨rfl,List.mem_singleton_self _⟩
    · exact absurd rfl hmatch
  · have hzero := Decimal.atoi_of_malformed hmalformed
    rw [hzero,if_neg (not_not.mpr rfl)] at hmatch ⊢
    split at hmatch
    · rename_i hname
      rw [if_pos hname,hlister]
      refine ⟨rfl,List.mem_flatMap.mpr ⟨subset,hsubset,?_⟩⟩
      refine List.mem_map_of_mem (f := fun port : EndpointPort => port.port.toInt) (List.mem_filter.mpr ⟨hp,?_⟩)
      exact decide_eq_true ⟨htcp,hname⟩
    · exact absurd rfl hmatch

/-- The text is that of an address of the Endpoints with a port among the given ones. -/
def IsOpened (ports : List ℤ) (ep : Endpoints) (enc : Str) : Prop :=
  ∃ subset ∈ ep.subsets, ∃ a ∈ subset.addresses, ∃ ne : NEG.NetworkEndpoint, enc = ne.encode ∧ ne.ipAddress = a.ip ∧
    a.nodeName = some ne.instanceName ∧ ne.port.toInt ∈ ports

theorem IsOpened.mono {ports ports' : List ℤ} {ep : Endpoints} {enc : Str} (h : IsOpened ports ep enc)
    (hports : ∀ port ∈ ports, port ∈ ports') : IsOpened ports' ep enc := by
  obtain ⟨subset,hsubset,a,ha,ne,hencode,hip,hnode,hport⟩ := h
  exact ⟨subset,hsubset,a,ha,ne,hencode,hip,hnode,hports _ hport⟩

theorem toZoneNetworkEndpointMap_opened {ns name t : Str} {ep : Endpoints} {E : NEG.Environment} {m : NEG.ZoneMap}
    (hlister : endpointLister (metaNamespaceKey ns name) = some ep) (ht : IsNonzeroTarget t)
    (htcp : ∀ subset ∈ ep.subsets, ∀ p ∈ subset.ports, p.protocol = protocolTCP)
    (hm : NEG.toZoneNetworkEndpointMap E t ep.forSyncer = .ok m) :
    ∀ zone, ∀ enc ∈ m.at zone, IsOpened (listEndpointTargetPorts endpointLister ns name t) ep enc := by
  refine NEG.toZoneNetworkEndpointMap_rule (I := fun m => ∀ zone, ∀ enc ∈ m.at zone, IsOpened _ ep enc) ?_ ?_ hm
  · intro zone enc henc
    cases henc
  intro subset' hsubset' hmatch a ha node zone hname _ m hm
  obtain ⟨subset,hsubset,rfl⟩ := List.mem_map.mp hsubset'
  obtain ⟨port,hport,heq,hne⟩ := NEG.matchPort_spec hmatch
  obtain ⟨p,hp,rfl⟩ := List.mem_map.mp hport
  obtain ⟨hitoa,hopened⟩ := mem_listEndpointTargetPorts hlister ht hsubset hp (htcp subset hsubset p hp) hne
  intro zone' enc henc
  rw [ListMap.at_insert] at henc
  split at henc
  · rcases List.mem_insert_iff.mp henc with rfl | henc
    · refine ⟨subset,hsubset,a,ha,⟨node,a.ip,p.port.toInt64⟩,?_,rfl,hname,?_⟩
      · rw [NEG.NetworkEndpoint.encode,Int32.toInt_toInt64,heq,hitoa]
      · rw [Int32.toInt_toInt64]
        exact hopened
    · exact hm zone enc henc
  · exact hm zone' enc henc

/-- The port of every endpoint that a NEG gets is opened. -/
theorem firewall_covers_endpoints {ep : Endpoints} {sp : Backends.ServicePort} {svcPorts : List Backends.ServicePort}
    {E : NEG.Environment} {m : NEG.ZoneMap} {zone enc : Str}
    (htcp : ∀ subset ∈ ep.subsets, ∀ p ∈ subset.ports, p.protocol = protocolTCP) (hneg : sp.negEnabled = true)
    (htarget : IsNonzeroTarget sp.svcTargetPort)
    (hlister : endpointLister (metaNamespaceKey sp.svcNamespace sp.svcName) = some ep) (hsp : sp ∈ svcPorts)
    (hm : NEG.toZoneNetworkEndpointMap E sp.svcTargetPort ep.forSyncer = .ok m) (henc : enc ∈ m.at zone)
    (defaultBackendNodePort : Backends.ServicePort) (o : Iteration ℤ) (includeDefaultBackend : Bool) :
    IsOpened (gatherFirewallPorts endpointLister defaultBackendNodePort o svcPorts includeDefaultBackend) ep enc := by
  apply (toZoneNetworkEndpointMap_opened hlister htarget htcp hm zone enc henc).mono
  intro port hport
  apply mem_gatherFirewallPorts hsp
  rw [firewallPortsOf,if_pos hneg]
  exact hport

/-- Two subsets with the same port name, for different ports. -/
def twoSubsets : Endpoints where
  subsets := [⟨[⟨"10.0.0.1".toList,some "node-1".toList⟩],[⟨⟨"http".toList,8080⟩,protocolTCP⟩]⟩,
    ⟨[⟨"10.0.0.2".toList,some "node-1".toList⟩],[⟨⟨"admin".toList,9000⟩,protocolTCP⟩,⟨⟨"http".toList,8081⟩,protocolTCP⟩]⟩]

def byPortName : Backends.ServicePort :=
  ⟨30080,protocolHTTP,"default".toList,"web".toList,.int 80,"http".toList,true⟩

theorem firewall_covers_twoSubsets :
    IsOpened (gatherFirewallPorts (fun _ => some twoSubsets) byPortName .inOrder [byPortName] true) twoSubsets
      "10.0.0.2||node-1||8081".toList ∧
    gatherFirewallPorts (fun _ => some twoSubsets) byPortName .inOrder [byPortName] true = [8080,8081] := by
  refine ⟨?_,by decide +kernel⟩
  cases hm : NEG.toZoneNetworkEndpointMap NEG.oneNode "http".toList twoSubsets.forSyncer with
  | error e => exact absurd hm (by rintro ⟨⟩)
  | ok m =>
    have henc : "10.0.0.2||node-1||8081".toList ∈ m.at "zone-a".toList := by
      obtain rfl := Except.ok.inj hm
      decide +kernel
    have hlister : (fun _ => some twoSubsets : Str → Option Endpoints)
      (metaNamespaceKey byPortName.svcNamespace byPortName.svcName) = some twoSubsets := rfl
    exact firewall_covers_endpoints (by decide) rfl (Or.inr (by decide +kernel)) hlister List.mem_cons_self hm henc
      byPortName .inOrder true

end Coverage
end IngressGce
