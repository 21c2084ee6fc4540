import IngressGce.Naming.Decimal
import Mathlib.Data.List.AList

/-! # Ingresses and Services

The parts of the API objects that the controller reads, and its reading of their
annotations.
-/
namespace IngressGce.Kube

inductive IntOrString
  | int (n : Int32)
  | str (s : Str)
  deriving DecidableEq

def IntOrString.text : IntOrString → Str
  | .int n => Decimal.itoa n.toInt
  | .str s => s

/-- The key of an object in a store. -/
def metaNamespaceKey (namespaced name : Str) : Str :=
  if namespaced = [] then name else namespaced ++ '/' :: name

abbrev Annotations := AList (fun _ : Str => Str)

structure IngressBackend where
  serviceName : Str
  servicePort : IntOrString
  deriving DecidableEq

structure HTTPIngressPath where
  path : Str
  backend : IngressBackend
  deriving DecidableEq

/-- A rule without paths of its own is not an HTTP rule. -/
structure IngressRule where
  host : Str
  http : Option (List HTTPIngressPath)
  deriving DecidableEq

structure Ingress where
  namespaced : Str
  name : Str
  annotations : Annotations
  backend : Option IngressBackend
  rules : List IngressRule
  deriving DecidableEq

structure ServicePort where
  name : Str
  port : Int32
  nodePort : Int32
  targetPort : IntOrString
  deriving DecidableEq

structure Service where
  annotations : Annotations
  ports : List ServicePort
  deriving DecidableEq

def serviceApplicationProtocolKey : Str := "service.alpha.kubernetes.io/app-protocols".toList
def ingressClassKey : Str := "kubernetes.io/ingress.class".toList
def gceIngressClass : Str := "gce".toList
def gceMultiIngressClass : Str := "gce-multi-cluster".toList
def allowHTTPKey : Str := "kubernetes.io/ingress.allow-http".toList
def staticIPNameKey : Str := "kubernetes.io/ingress.global-static-ip-name".toList
def preSharedCertKey : Str := "ingress.gcp.kubernetes.io/pre-shared-cert".toList
def instanceGroupsAnnotationKey : Str := "ingress.gcp.kubernetes.io/instance-groups".toList
def networkEndpointGroupAlphaAnnotation : Str := "alpha.cloud.google.com/load-balancer-neg".toList

def protocolHTTP : Str := "HTTP".toList
def protocolHTTPS : Str := "HTTPS".toList

/-- The truth values as Go reads them. -/
def parseBool (val : Str) : Option Bool :=
  if val ∈ ["1","t","T","TRUE","true","True"].map String.toList then some true
  else if val ∈ ["0","f","F","FALSE","false","False"].map String.toList then some false
  else none

namespace Annotations

def allowHTTP (a : Annotations) : Bool := ((a.lookup allowHTTPKey).bind parseBool).getD true

def useNamedTLS (a : Annotations) : Str := (a.lookup preSharedCertKey).getD []

def staticIPName (a : Annotations) : Str := (a.lookup staticIPNameKey).getD []

def ingressClass (a : Annotations) : Str := (a.lookup ingressClassKey).getD []

def negEnabled (a : Annotations) : Bool := a.lookup networkEndpointGroupAlphaAnnotation = some "true".toList

/-- The protocols by port name. What JSON makes of the annotation is a map, also when
it returns an error. -/
def applicationProtocols (unmarshal : Str → AList (fun _ : Str => Str) × Option Str) (a : Annotations) :
    Except Str (AList (fun _ : Str => Str)) :=
  match a.lookup serviceApplicationProtocolKey with
  | none => .ok ∅
  | some val =>
    let (portToProtos,err) := unmarshal val
    match portToProtos.entries.find? (fun e => e.2 ≠ protocolHTTP ∧ e.2 ≠ protocolHTTPS), err with
    | some e, _ => .error ("invalid port application protocol: ".toList ++ e.2)
    | none, some e => .error e
    | none, none => .ok portToProtos

end Annotations

namespace Ingress
variable (ing : Ingress)

def key : Str := metaNamespaceKey ing.namespaced ing.name

def isGCEIngress : Bool :=
  ing.annotations.ingressClass = [] ∨ ing.annotations.ingressClass = gceIngressClass

def isGCEMultiClusterIngress : Bool := ing.annotations.ingressClass = gceMultiIngressClass

variable {ing}

theorem not_multi_of_gce (h : ing.isGCEIngress = true) : ing.isGCEMultiClusterIngress = false := by
  have hclass : ing.annotations.ingressClass = [] ∨ ing.annotations.ingressClass = gceIngressClass := by
    simpa [isGCEIngress] using h
  have hne : ing.annotations.ingressClass ≠ gceMultiIngressClass := by
    rcases hclass with hclass | hclass <;> rw [hclass] <;> decide
  simp [isGCEMultiClusterIngress,hne]

end Ingress
end IngressGce.Kube
