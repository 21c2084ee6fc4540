import IngressGce.Backends.Names
import IngressGce.Naming.LoadBalancerNames
import IngressGce.Naming.NEGNames
import Mathlib.Data.Rat.Floor
import Mathlib.Tactic.FieldSimp

/-! # How long names get

A name of the cloud has at most 63 characters. Most names are truncated when they are
complete. The name of the firewall rule is truncated before its beginning is put in front
of it, and that of a NEG is made of parts that are trimmed together.
-/
namespace IngressGce

def maxNameLength : ℕ := 63

def igPrefix : Str := "k8s-ig".toList
def globalFirewallSuffix : Str := "l7".toList

def Namer.instanceGroup (n : Namer) : Str := n.decorateName igPrefix

/-- A namer, and the name that has been set for the firewall. -/
structure ClusterNamer extends Namer where
  firewallName : Str

namespace ClusterNamer

def newNamer (clusterName firewallName : Str) : ClusterNamer :=
  { Namer.setUID clusterName with firewallName := firewallName }

variable (n : ClusterNamer)

def firewall : Str := if n.firewallName = [] then n.clusterName else n.firewallName

def firewallRuleSuffix : Str :=
  if n.firewall = [] then globalFirewallSuffix
  else truncate (globalFirewallSuffix ++ clusterNameDelimiter ++ n.firewall)

def firewallRule : Str := "k8s-fw-".toList ++ n.firewallRuleSuffix

/-- The names of all the resources, except NEGs. -/
def gceNames (port : ℤ) (lbName : Str) (protocol : NamerProtocol) (isPrimary : Bool) : List Str :=
  [n.backend port,n.instanceGroup,n.firewallRule,Namer.targetProxy lbName protocol,Namer.sslCert lbName isPrimary,
    Namer.forwardingRule lbName protocol,Namer.urlMap lbName]

end ClusterNamer

theorem length_truncate_le (key : Str) : (truncate key).length ≤ maxNameLength := by
  by_cases hlong : nameLenLimit < key.length
  · rw [truncate,if_pos hlong,List.length_append,List.length_take]
    change min nameLenLimit key.length + 1 ≤ nameLenLimit + 1
    omega
  · exact (length_truncate_le_iff.mpr (not_lt.mp hlong)).trans (by decide)

namespace Namer
variable {n : Namer}

theorem length_decorateName_le {name : Str} (h : name.length ≤ maxNameLength) : (n.decorateName name).length ≤ maxNameLength := by
  unfold decorateName
  split
  · exact h
  · exact length_truncate_le _

theorem length_backend_le {port : ℤ} (hport : IsInt64 port) : (n.backend port).length ≤ maxNameLength := by
  apply length_decorateName_le
  have hlen := hport.length_itoa
  rw [List.length_append,List.length_cons]
  change 6 + ((Decimal.itoa port).length + 1) ≤ 63
  omega

theorem length_sslCert_le (lbName : Str) (isPrimary : Bool) : (sslCert lbName isPrimary).length ≤ maxNameLength := by
  cases isPrimary with
  | false => exact length_truncate_le _
  | true => exact length_truncate_le _

theorem length_targetProxy_le (lbName : Str) (protocol : NamerProtocol) :
    (targetProxy lbName protocol).length ≤ maxNameLength := by
  cases protocol with
  | http => exact length_truncate_le _
  | https => exact length_truncate_le _

theorem length_forwardingRule_le (lbName : Str) (protocol : NamerProtocol) :
    (forwardingRule lbName protocol).length ≤ maxNameLength := by
  cases protocol with
  | http => exact length_truncate_le _
  | https => exact length_truncate_le _

end Namer

namespace ClusterNamer
variable {n : ClusterNamer}

/-- What is put in front of the truncated part may make the name too long. -/
theorem length_firewallRule_le_iff : n.firewallRule.length ≤ maxNameLength ↔ n.firewall.length ≤ 52 := by
  have hname : n.firewallRule.length = 7 + n.firewallRuleSuffix.length := List.length_append
  have hlong : (globalFirewallSuffix ++ clusterNameDelimiter ++ n.firewall).length = 4 + n.firewall.length := by
    rw [List.length_append]
    rfl
  rw [hname,firewallRuleSuffix]
  change _ ≤ 63 ↔ _
  by_cases hnil : n.firewall = []
  · rw [if_pos hnil,hnil]
    decide
  · rw [if_neg hnil,truncate]
    by_cases hcut : nameLenLimit < (globalFirewallSuffix ++ clusterNameDelimiter ++ n.firewall).length
    · rw [if_pos hcut,List.length_append,List.length_take]
      rw [hlong] at hcut ⊢
      change 7 + (min 62 (4 + n.firewall.length) + 1) ≤ 63 ↔ _
      change 62 < _ at hcut
      omega
    · rw [if_neg hcut,hlong]
      omega

/-- All names fit, unless the name of the firewall, or the UID if there is none, has more
than 52 characters. -/
theorem gceNames_fit_iff (clusterName firewallName : Str) :
    (∀ port : ℤ, 0 ≤ port → port ≤ 65535 → ∀ lbName protocol isPrimary,
      ∀ name ∈ (newNamer clusterName firewallName).gceNames port lbName protocol isPrimary,
        name.length ≤ maxNameLength) ↔
      (if firewallName = [] then (Namer.setUID clusterName).clusterName else firewallName).length ≤ 52 := by
  change _ ↔ (newNamer clusterName firewallName).firewall.length ≤ 52
  rw [← length_firewallRule_le_iff]
  constructor
  · intro h
    exact h 0 le_rfl (by decide) [] .http true _ (by simp [gceNames])
  · intro hrule port hlow hhigh lbName protocol isPrimary
    have hport : IsInt64 port := ⟨by omega,by omega⟩
    simp only [gceNames,List.forall_mem_cons,List.not_mem_nil,false_imp_iff,implies_true,and_true]
    exact ⟨Namer.length_backend_le hport,Namer.length_decorateName_le (by decide),hrule,
      Namer.length_targetProxy_le lbName protocol,Namer.length_sslCert_le lbName isPrimary,
      Namer.length_forwardingRule_le lbName protocol,length_truncate_le _⟩

/-- A firewall name of 53 characters, which is no longer than a name may be. -/
theorem long_firewallRule : ∃ firewallName : Str, firewallName.length = 53 ∧
    (newNamer [] firewallName).firewallRule.length = 64 := ⟨List.replicate 53 'a',by decide,by decide⟩

end ClusterNamer

/-! ## NEGs -/

/-- The share of a field, rounded up. -/
theorem scaledLength_eq_ceil (max : ℤ) {total : ℤ} (htotal : 0 < total) (s : Str) :
    scaledLength max total s + 1 = ⌈(s.length * max / total : ℚ)⌉ := by
  have hpos : (0 : ℚ) < total := by exact_mod_cast htotal
  have hdiv := Int.mul_ediv_add_emod ((s.length : ℤ) * (total - max)) total
  have hlow := Int.emod_nonneg ((s.length : ℤ) * (total - max)) htotal.ne'
  have hhigh := Int.emod_lt_of_pos ((s.length : ℤ) * (total - max)) htotal
  generalize hq : (s.length : ℤ) * (total - max) / total = q at hdiv
  generalize (s.length : ℤ) * (total - max) % total = r at hdiv hlow hhigh
  have hshare : (s.length : ℤ) * max = total * (s.length - q) - r := by linarith
  have hscaled : scaledLength max total s + 1 = s.length - q := by
    rw [scaledLength,hq]
    ring
  rw [hscaled]
  symm
  rw [Int.ceil_eq_iff]
  constructor
  · rw [lt_div_iff₀ hpos]
    have hcast : ((s.length : ℤ) - q - 1) * total < (s.length : ℤ) * max := by linarith
    exact_mod_cast hcast
  · rw [div_le_iff₀ hpos]
    have hcast : (s.length : ℤ) * max ≤ ((s.length : ℤ) - q) * total := by linarith
    exact_mod_cast hcast

/-- What is left of the fields: as many prefixes, all of them if they are short together,
and otherwise the length allowed, in proportion. -/
structure Trimmed (max : ℤ) (fields trimmed : List Str) : Prop where
  prefixes : List.Forall₂ (fun s t => t <+: s) fields trimmed
  short : totalLength fields ≤ max → trimmed = fields
  total : max < totalLength fields → totalLength trimmed = max
  shares : max < totalLength fields → List.Forall₂ (fun s t =>
    (t.length : ℤ) = ⌈(s.length * max / totalLength fields : ℚ)⌉ ∨
    (t.length : ℤ) = ⌈(s.length * max / totalLength fields : ℚ)⌉ - 1) fields trimmed

theorem trimFieldsEvenly_trimmed {max : ℤ} {fields : List Str} (hmax : 0 < max) (hfields : ∀ s ∈ fields, s ≠ []) :
    ∃ trimmed, trimFieldsEvenly max fields = some trimmed ∧ Trimmed max fields trimmed := by
  by_cases hshort : totalLength fields ≤ max
  · refine ⟨fields,trimFieldsEvenly_of_short hshort,?_,fun _ => rfl,fun h => absurd hshort h.not_ge,
      fun h => absurd hshort h.not_ge⟩
    exact List.forall₂_same.mpr fun s _ => List.prefix_rfl
  · have hlong := not_le.mp hshort
    obtain ⟨trimmed,htrim,htotal,hforall⟩ := trimFieldsEvenly_of_long hmax hlong hfields
    refine ⟨trimmed,htrim,hforall.imp fun _ _ h => h.1,fun h => absurd h hshort,fun _ => htotal,fun _ => ?_⟩
    refine hforall.imp ?_
    rintro s t ⟨_,hlen⟩
    have hceil := scaledLength_eq_ceil max (hmax.trans hlong) s
    omega

theorem Trimmed.totalLength_le {max : ℤ} {fields trimmed : List Str} (h : Trimmed max fields trimmed) :
    totalLength trimmed ≤ max := by
  by_cases hshort : totalLength fields ≤ max
  · rwa [h.short hshort]
  · exact (h.total (not_le.mp hshort)).le

namespace Namer
variable {n : Namer} {f : NEGFields}

theorem length_neg_le (hn : n.clusterName.length ≤ 16) (md5 : MD5) (hf : ∀ s ∈ f.fields, s ≠ []) :
    ∃ name, n.neg md5 f = some name ∧ name.length ≤ maxNameLength := by
  have hmax : 0 < maxNEGDescriptiveLabel := by decide
  obtain ⟨trimmed,htrim,htrimmed⟩ := trimFieldsEvenly_trimmed hmax hf
  have hcount : trimmed.length = 3 := htrimmed.prefixes.length_eq.symm
  match trimmed,hcount with
  | [namespaced,name,port],_ =>
    have htotal : (namespaced.length : ℤ) + (name.length + (port.length + 0)) ≤ 30 := htrimmed.totalLength_le
    have hlabel : f.label = some (namespaced ++ '-' :: (name ++ '-' :: port)) := by
      rw [NEGFields.label,htrim]
    have hsuffix := length_negSuffix md5 f
    have hfront : n.negPrefix.length = 5 + n.clusterName.length := by
      simp only [negPrefix,List.length_append,List.length_cons]
      change 3 + (1 + (n.clusterName.length + 1)) = _
      omega
    refine ⟨_,by rw [neg,hlabel]; rfl,?_⟩
    simp only [List.length_append,List.length_cons,hsuffix,hfront]
    change _ ≤ 63
    omega

end Namer

/-- Trimming never panics on fields that are not empty, and keeps exactly what is allowed.
So the names of NEGs fit. -/
theorem trimFieldsEvenly_exact :
    (∀ max : ℤ, 0 < max → ∀ fields : List Str, (∀ s ∈ fields, s ≠ []) →
      ∃ trimmed, trimFieldsEvenly max fields = some trimmed ∧ Trimmed max fields trimmed) ∧
    ∀ (n : Namer) (md5 : MD5) (f : NEGFields), n.clusterName.length ≤ 16 → (∀ s ∈ f.fields, s ≠ []) →
      ∃ name, n.neg md5 f = some name ∧ name.length ≤ maxNameLength :=
  ⟨fun _ hmax _ hfields => trimFieldsEvenly_trimmed hmax hfields,fun _ md5 _ hn hf => Namer.length_neg_le hn md5 hf⟩

theorem trimFieldsEvenly_exact_threeFields :
    ∃ trimmed, trimFieldsEvenly 30 ["default".toList,List.replicate 30 'a',"http".toList] = some trimmed ∧
      Trimmed 30 ["default".toList,List.replicate 30 'a',"http".toList] trimmed :=
  trimFieldsEvenly_exact.1 30 (by decide) _ (by decide)

end IngressGce
