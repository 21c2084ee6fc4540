import IngressGce.Naming.Namer
import Mathlib.Logic.Function.Basic

/-! # Resources of the cloud

The cloud keeps at most one resource of each kind under a name. What a request
writes is the body; the cloud adds the name and the self link when the resource
is read. Each stored resource remembers, for the specification alone, for which
load balancer it was created.
-/
namespace IngressGce

inductive Kind
  | urlMap
  | targetHttpProxy
  | targetHttpsProxy
  | forwardingRule
  | address
  | sslCertificate
  deriving DecidableEq, Repr

structure UrlMapBody where
  defaultService : Str
  deriving DecidableEq, Repr

structure TargetHttpProxyBody where
  urlMap : Str
  deriving DecidableEq, Repr

structure TargetHttpsProxyBody where
  urlMap : Str
  sslCertificates : List Str
  deriving DecidableEq, Repr

structure ForwardingRuleBody where
  ipAddress : Str
  target : Str
  portRange : Str
  ipProtocol : Str
  deriving DecidableEq, Repr

structure AddressBody where
  address : Str
  deriving DecidableEq, Repr

structure SslCertificateBody where
  certificate : Str
  privateKey : Str
  deriving DecidableEq, Repr

abbrev Body : Kind → Type
  | .urlMap => UrlMapBody
  | .targetHttpProxy => TargetHttpProxyBody
  | .targetHttpsProxy => TargetHttpsProxyBody
  | .forwardingRule => ForwardingRuleBody
  | .address => AddressBody
  | .sslCertificate => SslCertificateBody

/-- A resource as a read returns it. -/
structure Object (k : Kind) where
  name : Str
  selfLink : Str
  body : Body k

abbrev UrlMap := Object .urlMap
abbrev TargetHttpProxy := Object .targetHttpProxy
abbrev TargetHttpsProxy := Object .targetHttpsProxy
abbrev ForwardingRule := Object .forwardingRule
abbrev Address := Object .address
abbrev SslCertificate := Object .sslCertificate

/-- The name portion of a link, its last section. -/
def getResourceNameFromLink (link : Str) : Str := Str.lastToken "/".toList link

/-- `utils.CompareLinks`. -/
def compareLinks (l₁ l₂ : Str) : Bool := l₁ == l₂ && l₁ != []

/-- How the cloud forms self links: an injective function of the name for each
kind, never empty, and ending in the name after the last slash. -/
structure SelfLinks where
  link : Kind → Str → Str
  link_inj : ∀ k n n', link k n = link k n' → n = n'
  link_ne_nil : ∀ k n, link k n ≠ []
  link_name : ∀ k n, '/' ∉ n → getResourceNameFromLink (link k n) = n

def Kind.collection : Kind → Str
  | .urlMap => "urlMaps".toList
  | .targetHttpProxy => "targetHttpProxies".toList
  | .targetHttpsProxy => "targetHttpsProxies".toList
  | .forwardingRule => "forwardingRules".toList
  | .address => "addresses".toList
  | .sslCertificate => "sslCertificates".toList

/-- Self links made of the collection and the name. -/
def SelfLinks.byCollection : SelfLinks where
  link k n := k.collection ++ ("/".toList ++ n)
  link_inj k n n' h := List.append_cancel_left (List.append_cancel_left h)
  link_ne_nil k n := by simp
  link_name k n hn := by
    refine Str.lastToken_append_sep (by decide) ?_ ?_
    · intro t _ ht
      cases t with
      | nil => exact Or.inl rfl
      | cons c cs =>
        obtain ⟨rfl,hcs⟩ := List.cons_prefix_cons.mp ht
        exact Or.inr (by rw [List.prefix_nil.mp hcs]; rfl)
    · intro h
      exact hn (h.subset (by decide))

structure Stored (k : Kind) where
  body : Body k
  createdFor : Option Str

def Cloud : Type := (k : Kind) → Str → Option (Stored k)

namespace Cloud

def empty : Cloud := fun _ _ => none

def set (c : Cloud) (k : Kind) (n : Str) (v : Option (Stored k)) : Cloud :=
  Function.update c k (Function.update (c k) n v)

@[simp] theorem set_self (c : Cloud) (k : Kind) (n : Str) (v : Option (Stored k)) :
    c.set k n v k n = v :=
  (congrFun (Function.update_self k _ c) n).trans (Function.update_self n v (c k))

theorem set_name_ne (c : Cloud) (k : Kind) {n n' : Str} (h : n' ≠ n) (v : Option (Stored k)) :
    c.set k n v k n' = c k n' :=
  (congrFun (Function.update_self k _ c) n').trans (Function.update_of_ne h v (c k))

theorem set_kind_ne (c : Cloud) {k k' : Kind} (h : k' ≠ k) (n : Str) (v : Option (Stored k)) :
    c.set k n v k' = c k' := Function.update_of_ne h _ c

theorem set_of_ne (c : Cloud) {k k' : Kind} {n n' : Str} (h : ¬(k' = k ∧ n' = n))
    (v : Option (Stored k)) : c.set k n v k' n' = c k' n' := by
  by_cases hk : k' = k
  · subst hk
    exact set_name_ne c k' (fun hn => h ⟨rfl,hn⟩) v
  · rw [set_kind_ne c hk]

@[simp] theorem set_same (c : Cloud) (k : Kind) (n : Str) : c.set k n (c k n) = c :=
  (congrArg (Function.update c k) (Function.update_eq_self n (c k))).trans (Function.update_eq_self k c)

theorem set_of_eq {c : Cloud} {k : Kind} {n : Str} {v : Option (Stored k)} (h : c k n = v) :
    c.set k n v = c := h ▸ set_same c k n

/-- What is left after a deletion has been there before, and is not what was deleted. -/
theorem of_set_none {c : Cloud} {k k' : Kind} {n n' : Str} {s : Stored k'}
    (hs : c.set k n none k' n' = some s) : c k' n' = some s ∧ ¬(k' = k ∧ n' = n) := by
  by_cases h : k' = k ∧ n' = n
  · obtain ⟨rfl,rfl⟩ := h
    rw [set_self] at hs
    cases hs
  · rw [set_of_ne c h] at hs
    exact ⟨hs,h⟩

@[simp] theorem set_set (c : Cloud) (k : Kind) (n : Str) (v w : Option (Stored k)) :
    (c.set k n v).set k n w = c.set k n w := by
  funext k' n'
  by_cases h : k' = k ∧ n' = n
  · obtain ⟨rfl,rfl⟩ := h
    rw [set_self,set_self]
  · rw [set_of_ne _ h,set_of_ne _ h,set_of_ne _ h]

end Cloud

/-- The cloud allocates an address to a forwarding rule that names none. -/
def ForwardingRuleBody.allocate (ephemeral : Str) (b : ForwardingRuleBody) : ForwardingRuleBody :=
  { b with ipAddress := if b.ipAddress = [] then ephemeral else b.ipAddress }

/-- What the cloud stores for an inserted body. It never gives a private key back. -/
def storedBody (ephemeral : Str) : (k : Kind) → Body k → Body k
  | .forwardingRule, b => b.allocate ephemeral
  | .sslCertificate, b => { b with privateKey := [] }
  | .urlMap, b => b
  | .targetHttpProxy, b => b
  | .targetHttpsProxy, b => b
  | .address, b => b

end IngressGce
