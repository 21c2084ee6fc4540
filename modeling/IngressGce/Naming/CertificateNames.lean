import IngressGce.Naming.LoadBalancerNames

/-! # Names of the certificates of a load balancer

A load balancer has two names for its certificates and uses them in turn. What marks the
second one can also be the beginning of the name of a load balancer, and truncation can
take away what sets the two apart.
-/
namespace IngressGce.Namer

def secondaryMark : Str := "1-".toList

def slotMark (isPrimary : Bool) : Str := if isPrimary then [] else secondaryMark

def certBeginning : Str := "k8s-ssl-".toList

def longCert (lbName : Str) (isPrimary : Bool) : Str := certBeginning ++ (slotMark isPrimary ++ lbName)

theorem sslCert_eq (lbName : Str) (isPrimary : Bool) : sslCert lbName isPrimary = truncate (longCert lbName isPrimary) := by
  cases isPrimary with
  | false => rfl
  | true => rfl

theorem length_longCert (lbName : Str) (isPrimary : Bool) :
    (longCert lbName isPrimary).length = 8 + ((slotMark isPrimary).length + lbName.length) := by
  have hbeginning : certBeginning.length = 8 := rfl
  rw [longCert,List.length_append,List.length_append,hbeginning]

/-- One of the load balancers is named like the other one after the mark. -/
def CertClash (a b : Str) (s t : Bool) : Prop :=
  (s = true ∧ t = false ∧ a = secondaryMark ++ b) ∨ (s = false ∧ t = true ∧ b = secondaryMark ++ a)

/-- The name is so long that both names of certificates are truncated, and up to there it
is the mark again and again. -/
def SlotClash (a : Str) : Prop := 54 < a.length ∧ a.take 54 = secondaryMark ++ a.take 52

variable {a b : Str} {s t : Bool}

theorem sslCert_eq_iff_of_fits (ha : (sslCert a s).length ≤ nameLenLimit) (hb : (sslCert b t).length ≤ nameLenLimit) :
    sslCert a s = sslCert b t ↔ slotMark s ++ a = slotMark t ++ b := by
  rw [sslCert_eq] at ha hb
  rw [sslCert_eq,sslCert_eq,truncate_of_fits ha,truncate_of_fits hb,longCert,longCert,List.append_cancel_left_eq]

theorem not_mark_append (a : Str) : a ≠ secondaryMark ++ a := by
  intro h
  have hlen := congrArg List.length h
  rw [List.length_append] at hlen
  change _ = 2 + _ at hlen
  omega

/-- Names that are not truncated are apart, but for a clash. -/
theorem sslCert_injective_iff (ha : (sslCert a s).length ≤ nameLenLimit) (hb : (sslCert b t).length ≤ nameLenLimit) :
    (sslCert a s = sslCert b t → a = b ∧ s = t) ↔ ¬CertClash a b s t := by
  rw [sslCert_eq_iff_of_fits ha hb,CertClash]
  cases s with
  | false =>
    cases t with
    | false => simp [slotMark]
    | true => simp [slotMark,eq_comm]
  | true =>
    cases t with
    | false => simp [slotMark]
    | true => simp [slotMark]

/-- The names of one load balancer are truncated alike, or they have different lengths. -/
theorem sslCert_slots_ne_iff (a : Str) : sslCert a true ≠ sslCert a false ↔ ¬SlotClash a := by
  have hprimary : (longCert a true).length = 8 + a.length := by
    rw [length_longCert]
    change 8 + (0 + a.length) = _
    omega
  have hsecondary : (longCert a false).length = 8 + (2 + a.length) := length_longCert a false
  rw [sslCert_eq,sslCert_eq,not_iff_not]
  by_cases hlong : 54 < a.length
  · -- Both are cut after 62 characters.
    have hcut : truncate (longCert a true) = (longCert a true).take 62 ++ alphaNumericChar :=
      if_pos (by rw [hprimary]; change 62 < _; omega)
    have hcut' : truncate (longCert a false) = (longCert a false).take 62 ++ alphaNumericChar :=
      if_pos (by rw [hsecondary]; change 62 < _; omega)
    have htake : (longCert a true).take 62 = certBeginning ++ a.take 54 := rfl
    have htake' : (longCert a false).take 62 = certBeginning ++ (secondaryMark ++ a.take 52) := rfl
    rw [hcut,hcut',List.append_cancel_right_eq,htake,htake',List.append_cancel_left_eq,SlotClash,and_iff_right hlong]
  · have hfits : truncate (longCert a true) = longCert a true :=
      if_neg (by rw [hprimary]; change ¬62 < _; omega)
    refine iff_of_false ?_ fun h => hlong h.1
    intro heq
    by_cases hcut : 52 < a.length
    · -- Only the second name is cut, and is the longer one.
      have hlen : (truncate (longCert a false)).length = 63 := by
        rw [truncate,if_pos (by rw [hsecondary]; change 62 < _; omega),List.length_append,List.length_take,hsecondary]
        change min 62 _ + 1 = 63
        omega
      rw [← heq,hfits,hprimary] at hlen
      omega
    · have hfits' : truncate (longCert a false) = longCert a false :=
        if_neg (by rw [hsecondary]; change ¬62 < _; omega)
      rw [hfits,hfits'] at heq
      exact not_mark_append a (List.append_cancel_left heq)

/-- Certificates of different load balancers, and the two of one of them, have different
names, but for the clashes. -/
theorem sslCert_distinct_iff (a b : Str) (s t : Bool) :
    ((sslCert a s).length ≤ nameLenLimit → (sslCert b t).length ≤ nameLenLimit →
      ((sslCert a s = sslCert b t → a = b ∧ s = t) ↔ ¬CertClash a b s t)) ∧
    (sslCert a true ≠ sslCert a false ↔ ¬SlotClash a) :=
  ⟨sslCert_injective_iff,sslCert_slots_ne_iff a⟩

/-- Ingresses of the namespaces `foo` and `1-foo` share the name of a certificate, and one
in a namespace of many dashes has one name for both of its own. -/
theorem shared_certificate_names : ∃ (n : Namer) (key key' long : Str),
    IngressKey key ∧ IngressKey key' ∧ IngressKey long ∧
    (sslCert (n.loadBalancer key) false).length ≤ nameLenLimit ∧
    (sslCert (n.loadBalancer key') true).length ≤ nameLenLimit ∧ n.loadBalancer key ≠ n.loadBalancer key' ∧
    sslCert (n.loadBalancer key) false = sslCert (n.loadBalancer key') true ∧
    sslCert (n.loadBalancer long) true = sslCert (n.loadBalancer long) false :=
  ⟨setUID "uid".toList,"foo/bar".toList,"1-foo/bar".toList,"1-1-1-1-1-1-1-1-1-1-1-1-1-1-1-1-1-1-1-1-1-1-1-1-1-1-1-1/a".toList,
    ⟨"foo".toList,"bar".toList,by decide⟩,⟨"1-foo".toList,"bar".toList,by decide⟩,
    ⟨"1-1-1-1-1-1-1-1-1-1-1-1-1-1-1-1-1-1-1-1-1-1-1-1-1-1-1-1".toList,"a".toList,by decide⟩,
    by decide,by decide,by decide,by decide,by decide⟩

end IngressGce.Namer
