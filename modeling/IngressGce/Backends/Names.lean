import IngressGce.Kube.Objects
import IngressGce.Naming.Namer

/-! # Ports of the backends and their names

A backend service and its health check are named after the node port. The name of the
cluster follows, and may be cut off, but the port never is.
-/
namespace IngressGce

def backendPrefix : Str := "k8s-be".toList

namespace Namer
variable (n : Namer)

def decorateName (name : Str) : Str :=
  if n.clusterName = [] then name else truncate (name ++ (clusterNameDelimiter ++ n.clusterName))

def backend (port : ℤ) : Str := n.decorateName (backendPrefix ++ ('-' :: Decimal.itoa port))

def namedPort (port : ℤ) : Str := "port".toList ++ Decimal.itoa port

end Namer

namespace Backends

/-- The port of a Service that an Ingress refers to, and its node port. -/
structure ServicePort where
  port : ℤ
  protocol : Str
  svcNamespace : Str
  svcName : Str
  svcPort : Kube.IntOrString
  svcTargetPort : Str
  negEnabled : Bool
  deriving DecidableEq

def portKey (port : ℤ) : Str := Decimal.itoa port

end Backends

/-- The numeral that a text begins with. -/
def numeralOf : Str → Str
  | '-' :: s => '-' :: s.takeWhile Char.isDigit
  | s => s.takeWhile Char.isDigit

theorem takeWhile_digits {digits rest : Str} (h : ∀ c ∈ digits, c.isDigit = true) :
    (digits ++ '-' :: rest).takeWhile Char.isDigit = digits := by
  rw [List.takeWhile_append_of_pos h,List.takeWhile_cons_of_neg (by decide),List.append_nil]

theorem numeralOf_itoa (port : ℤ) (rest : Str) : numeralOf (Decimal.itoa port ++ '-' :: rest) = Decimal.itoa port := by
  cases port with
  | ofNat m =>
    have hdigits : ∀ c ∈ Nat.toDigits 10 m, c.isDigit = true := fun c => Decimal.isDigit_toDigits
    cases hm : Nat.toDigits 10 m with
    | nil => exact absurd hm Nat.toDigits_ne_nil
    | cons c cs =>
      rw [hm] at hdigits
      have hc : c ≠ '-' := by
        rintro rfl
        exact absurd (hdigits '-' List.mem_cons_self) (by decide)
      rw [Decimal.itoa,hm,List.cons_append,numeralOf]
      · exact takeWhile_digits hdigits
      · rintro s' heq
        exact hc (List.cons.inj heq).1
  | negSucc m => exact congrArg ('-' :: ·) (takeWhile_digits fun c => Decimal.isDigit_toDigits)

/-- A numeral is not longer than those of the numbers with 64 bits. -/
def IsInt64 (port : ℤ) : Prop := -2 ^ 63 ≤ port ∧ port < 2 ^ 63

theorem IsInt64.length_itoa {port : ℤ} (h : IsInt64 port) : (Decimal.itoa port).length ≤ 20 := by
  obtain ⟨hlow,hhigh⟩ := h
  cases port with
  | ofNat m =>
    have hm : (m : ℤ) < 2 ^ 63 := hhigh
    apply (Nat.length_toDigits_le_iff (by omega) (by omega)).mpr
    omega
  | negSucc m =>
    have hdigits : (Nat.toDigits 10 (m + 1)).length ≤ 19 :=
      (Nat.length_toDigits_le_iff (by omega) (by omega)).mpr (by omega)
    exact Nat.succ_le_succ hdigits

/-- Truncation leaves the port and the delimiter after it. -/
theorem Namer.backend_split {u : Namer} {port : ℤ} (hport : IsInt64 port) (hu : u.clusterName ≠ []) :
    ∃ rest, u.backend port = "k8s-be-".toList ++ (Decimal.itoa port ++ (clusterNameDelimiter ++ rest)) := by
  have hlen := hport.length_itoa
  have hfront : ("k8s-be-".toList ++ (Decimal.itoa port ++ clusterNameDelimiter)).length ≤ nameLenLimit := by
    simp only [List.length_append]
    change 7 + ((Decimal.itoa port).length + 2) ≤ 62
    omega
  have hname : u.backend port =
      truncate (("k8s-be-".toList ++ (Decimal.itoa port ++ clusterNameDelimiter)) ++ u.clusterName) := by
    unfold Namer.backend Namer.decorateName
    rw [if_neg hu,List.append_assoc,List.append_assoc,List.append_assoc]
    rfl
  obtain ⟨rest,hrest⟩ : ("k8s-be-".toList ++ (Decimal.itoa port ++ clusterNameDelimiter)) <+: u.backend port := by
    rw [hname,List.prefix_iff_eq_take,truncate_take hfront,List.take_left]
  exact ⟨rest,by rw [← hrest,List.append_assoc,List.append_assoc]⟩

/-- Different ports have different names. -/
theorem Namer.backend_injective (n : Namer) {port port' : ℤ} (hport : IsInt64 port) (hport' : IsInt64 port')
    (h : n.backend port = n.backend port') : port = port' := by
  apply Decimal.itoa_injective
  by_cases hn : n.clusterName = []
  · unfold Namer.backend Namer.decorateName at h
    rw [if_pos hn,if_pos hn] at h
    exact (List.cons.inj (List.append_cancel_left h)).2
  · obtain ⟨rest,hname⟩ := Namer.backend_split hport hn
    obtain ⟨rest',hname'⟩ := Namer.backend_split hport' hn
    rw [hname,hname'] at h
    have htail : numeralOf (Decimal.itoa port ++ '-' :: ('-' :: rest)) =
        numeralOf (Decimal.itoa port' ++ '-' :: ('-' :: rest')) := congrArg numeralOf (List.append_cancel_left h)
    rwa [numeralOf_itoa,numeralOf_itoa] at htail

end IngressGce
