import IngressGce.Naming.GoString
import Mathlib.Data.List.Chain

/-! # Names of the resources of a load balancer

`Namer` holds the cluster UID, which never contains the delimiter because `setUID`
keeps the last token of what it is given. The names of the resources of one load
balancer depend on the load balancer's name alone.
-/
namespace IngressGce

def targetHTTPProxyPrefix : Str := "k8s-tp".toList
def targetHTTPSProxyPrefix : Str := "k8s-tps".toList
def sslCertPrefix : Str := "k8s-ssl".toList
def forwardingRulePrefix : Str := "k8s-fw".toList
def httpsForwardingRulePrefix : Str := "k8s-fws".toList
def urlMapPrefix : Str := "k8s-um".toList
def clusterNameDelimiter : Str := "--".toList
def alphaNumericChar : Str := "0".toList
def nameLenLimit : ℕ := 62

inductive NamerProtocol
  | http
  | https
  deriving DecidableEq, Repr

structure Namer where
  clusterName : Str
  noDelimiter : ¬clusterNameDelimiter <:+: clusterName

def truncate (key : Str) : Str :=
  if nameLenLimit < key.length then key.take nameLenLimit ++ alphaNumericChar else key

namespace Namer

def setUID (name : Str) : Namer where
  clusterName := if clusterNameDelimiter <:+: name then Str.lastToken clusterNameDelimiter name else name
  noDelimiter := by
    split
    · exact Str.lastToken_no_sep (by decide) name
    · assumption

def scrub (key : Str) : Str := Str.replaceAll '/' '-' key

def loadBalancer (n : Namer) (key : Str) : Str :=
  if n.clusterName = [] ∨ Str.lastToken clusterNameDelimiter key = n.clusterName then scrub key
  else truncate (scrub key ++ clusterNameDelimiter ++ n.clusterName)

def targetProxy (lbName : Str) : NamerProtocol → Str
  | .http => truncate (targetHTTPProxyPrefix ++ "-".toList ++ lbName)
  | .https => truncate (targetHTTPSProxyPrefix ++ "-".toList ++ lbName)

def isSSLCert (name : Str) : Bool := sslCertPrefix.isPrefixOf name

def sslCert (lbName : Str) (isPrimary : Bool) : Str :=
  if isPrimary then truncate (sslCertPrefix ++ "-".toList ++ lbName)
  else truncate (sslCertPrefix ++ "-1-".toList ++ lbName)

def forwardingRule (lbName : Str) : NamerProtocol → Str
  | .http => truncate (forwardingRulePrefix ++ "-".toList ++ lbName)
  | .https => truncate (httpsForwardingRulePrefix ++ "-".toList ++ lbName)

def urlMap (lbName : Str) : Str := truncate (urlMapPrefix ++ "-".toList ++ lbName)

end Namer

theorem truncate_take {key : Str} {i : ℕ} (hi : i ≤ nameLenLimit) :
    (truncate key).take i = key.take i := by
  unfold truncate
  split
  · rename_i h
    rw [List.take_append_of_le_length (by rw [List.length_take]; omega),List.take_take]
    congr 1
    omega
  · rfl

/-- A name that truncation has shortened is not shortened any further, whatever
is appended to it. -/
theorem truncate_append_of_long {key : Str} (h : nameLenLimit < key.length) (t : Str) :
    truncate (truncate key ++ t) = truncate key := by
  have hk : truncate key = key.take nameLenLimit ++ alphaNumericChar := if_pos h
  have hl : (truncate key).length = nameLenLimit + 1 := by
    rw [hk,List.length_append,List.length_take]
    change min nameLenLimit key.length + 1 = nameLenLimit + 1
    omega
  have hlong : nameLenLimit < (truncate key ++ t).length := by
    rw [List.length_append,hl]
    omega
  conv_lhs => rw [truncate]
  rw [if_pos hlong,List.take_append_of_le_length (by omega),truncate_take le_rfl,← hk]

theorem mem_truncate {c : Char} {key : Str} (h : c ∈ truncate key) : c ∈ key ∨ c ∈ alphaNumericChar := by
  unfold truncate at h
  split at h
  · rcases List.mem_append.mp h with h | h
    · exact Or.inl (List.mem_of_mem_take h)
    · exact Or.inr h
  · exact Or.inl h

/-- The key of an Ingress, its namespace and its name. Both are DNS labels or
subdomains, of which only this is used: neither has a slash, and no dash stands at
the end of the namespace or at an end of the name. -/
structure IngressKey (key : Str) : Prop where
  shape : ∃ ns name : Str, key = ns ++ '/' :: name ∧ '/' ∉ ns ∧ '/' ∉ name ∧ name ≠ [] ∧
    ns.getLast? ≠ some '-' ∧ name.head? ≠ some '-' ∧ name.getLast? ≠ some '-'

theorem scrub_of_no_slash {key : Str} (h : '/' ∉ key) : Namer.scrub key = key := Str.replaceAll_of_not_mem h

theorem no_slash_scrub (key : Str) : '/' ∉ Namer.scrub key := Str.not_mem_replaceAll (by decide) key

/-- No slash of the text touches a dash or another slash, so that replacing
slashes by dashes makes no new delimiter. -/
def SlashesApart (s : Str) : Prop :=
  s.IsChain (fun a b => ¬(a = '/' ∧ (b = '/' ∨ b = '-')) ∧ ¬(a = '-' ∧ b = '/'))

theorem slashesApart_of_no_slash {s : Str} (h : '/' ∉ s) : SlashesApart s := by
  induction s with
  | nil => exact .nil
  | cons c cs ih =>
    refine List.isChain_cons.mpr ⟨?_,ih fun hc => h (List.mem_cons_of_mem _ hc)⟩
    intro d hd
    have hc : c ≠ '/' := fun hc => h (hc ▸ List.mem_cons_self)
    have hd : d ≠ '/' := fun hd' => h (List.mem_cons_of_mem _ (hd' ▸ List.mem_of_mem_head? hd))
    exact ⟨fun h => hc h.1,fun h => hd h.2⟩

theorem IngressKey.slashesApart {key : Str} (h : IngressKey key) : SlashesApart key := by
  obtain ⟨ns,name,rfl,hns,hname,_,hlast,hhead,_⟩ := h.shape
  refine List.isChain_append.mpr ⟨slashesApart_of_no_slash hns,List.isChain_cons.mpr
    ⟨?_,slashesApart_of_no_slash hname⟩,?_⟩
  · intro d hd
    have hd' : d ≠ '/' := fun h => hname (h ▸ List.mem_of_mem_head? hd)
    refine ⟨?_,fun h => absurd h.1 (by decide)⟩
    rintro ⟨-,h | h⟩
    · exact hd' h
    · exact hhead (h ▸ hd)
  · intro c hc d hd
    obtain rfl : '/' = d := by simpa using hd
    have hc' : c ≠ '/' := fun h => hns (h ▸ List.mem_of_getLast? hc)
    refine ⟨fun h => hc' h.1,?_⟩
    rintro ⟨h,-⟩
    exact hlast (h ▸ hc)

theorem delimiter_prefix_scrub {s : Str} (h : SlashesApart s) :
    clusterNameDelimiter <+: Namer.scrub s ↔ clusterNameDelimiter <+: s := by
  match s with
  | [] => exact Iff.rfl
  | [c] => simp [clusterNameDelimiter,Namer.scrub]
  | c :: d :: rest =>
    have hcd := (List.isChain_cons_cons.mp h).1
    change ['-','-'] <+: (if c = '/' then '-' else c) :: (if d = '/' then '-' else d) :: _ ↔
      ['-','-'] <+: c :: d :: rest
    simp only [List.cons_prefix_cons,List.nil_prefix,and_true]
    constructor
    · rintro ⟨hc,hd⟩
      split at hc
      · split at hd
        · exact absurd ⟨‹c = '/'›,Or.inl ‹d = '/'›⟩ hcd.1
        · exact absurd ⟨‹c = '/'›,Or.inr hd.symm⟩ hcd.1
      · split at hd
        · exact absurd ⟨hc.symm,‹d = '/'›⟩ hcd.2
        · exact ⟨hc,hd⟩
    · rintro ⟨rfl,rfl⟩
      exact ⟨rfl,rfl⟩

theorem splitFrom_scrub {s : Str} (h : SlashesApart s) (skip : ℕ) :
    Str.splitFrom clusterNameDelimiter skip (Namer.scrub s) =
      (Str.splitFrom clusterNameDelimiter skip s).map Namer.scrub := by
  induction s generalizing skip with
  | nil => cases skip <;> rfl
  | cons c cs ih =>
    have hcs : SlashesApart cs := List.IsChain.of_cons h
    cases skip with
    | succ skip => exact ih hcs skip
    | zero =>
      have hpre := delimiter_prefix_scrub h
      unfold Namer.scrub at hpre ih ⊢
      rw [Str.replaceAll_cons] at hpre ⊢
      rw [Str.splitFrom,Str.splitFrom]
      by_cases hc : clusterNameDelimiter <+: c :: cs
      · rw [if_pos hc,if_pos (hpre.mpr hc),ih hcs]
        rfl
      · rw [if_neg hc,if_neg (fun h => hc (hpre.mp h)),ih hcs]
        cases hs : Str.splitFrom clusterNameDelimiter 0 cs with
        | nil => exact absurd hs (Str.splitFrom_ne_nil _ _ _)
        | cons t ts => rfl

theorem lastToken_scrub {s : Str} (h : SlashesApart s) :
    Str.lastToken clusterNameDelimiter (Namer.scrub s) =
      Namer.scrub (Str.lastToken clusterNameDelimiter s) := by
  unfold Str.lastToken Str.split
  rw [splitFrom_scrub h,List.getLast?_map]
  cases (Str.splitFrom clusterNameDelimiter 0 s).getLast? <;> rfl

theorem IngressKey.scrub_getLast {key : Str} (h : IngressKey key) : (Namer.scrub key).getLast? ≠ some '-' := by
  obtain ⟨ns,name,rfl,_,hname,hne,_,_,hlast⟩ := h.shape
  rw [Namer.scrub,Str.replaceAll_append,Str.replaceAll_cons,Str.replaceAll_of_not_mem hname]
  rwa [List.getLast?_append_of_ne_nil _ (by simp),List.getLast?_cons,
    List.getLast?_eq_some_getLast hne,Option.getD_some,← List.getLast?_eq_some_getLast hne]

/-- A delimiter appended to text that does not end in a dash is found there. -/
theorem lastToken_append_delimiter (n : Namer) {s : Str} (h : s.getLast? ≠ some '-') :
    Str.lastToken clusterNameDelimiter (s ++ (clusterNameDelimiter ++ n.clusterName)) = n.clusterName := by
  refine Str.lastToken_append_sep (by decide) ?_ n.noDelimiter
  intro t ht hp
  rcases List.eq_nil_or_concat t with rfl | ⟨t',c,rfl⟩
  · exact Or.inl rfl
  · exfalso
    have hc : c ∈ clusterNameDelimiter := hp.subset (by simp)
    obtain rfl : c = '-' := by simpa [clusterNameDelimiter] using hc
    obtain ⟨s',rfl⟩ := ht
    exact h (by simp)

/-- Renaming an Ingress key twice is renaming it once. -/
theorem loadBalancer_idem (n : Namer) {key : Str} (hkey : IngressKey key) (hu : '/' ∉ n.clusterName) :
    n.loadBalancer (n.loadBalancer key) = n.loadBalancer key := by
  have hscrub : Namer.scrub (Namer.scrub key) = Namer.scrub key := scrub_of_no_slash (no_slash_scrub key)
  by_cases hshort : n.clusterName = [] ∨ Str.lastToken clusterNameDelimiter key = n.clusterName
  · have hlb : n.loadBalancer key = Namer.scrub key := if_pos hshort
    rw [hlb,Namer.loadBalancer,if_pos,hscrub]
    refine hshort.imp_right fun htoken => ?_
    rw [lastToken_scrub hkey.slashesApart,htoken,scrub_of_no_slash hu]
  · have hlb : n.loadBalancer key = truncate (Namer.scrub key ++ clusterNameDelimiter ++ n.clusterName) :=
      if_neg hshort
    have hslash : '/' ∉ n.loadBalancer key := by
      intro h
      rw [hlb] at h
      rcases mem_truncate h with h | h
      · simp only [List.append_assoc,List.mem_append] at h
        rcases h with h | h | h
        · exact no_slash_scrub key h
        · exact absurd h (by decide)
        · exact hu h
      · exact absurd h (by decide)
    rw [Namer.loadBalancer,scrub_of_no_slash hslash]
    by_cases hlong : nameLenLimit < (Namer.scrub key ++ clusterNameDelimiter ++ n.clusterName).length
    · split
      · rfl
      · rw [List.append_assoc,hlb]
        exact truncate_append_of_long hlong _
    · refine if_pos (Or.inr ?_)
      rw [hlb,truncate,if_neg hlong,List.append_assoc]
      exact lastToken_append_delimiter n hkey.scrub_getLast

/-- The two forwarding rules of a load balancer have different names, however
long the load balancer's name is. -/
theorem forwardingRule_ne (lbName : Str) :
    Namer.forwardingRule lbName .http ≠ Namer.forwardingRule lbName .https := by
  intro h
  have ht := congrArg (List.take 7) h
  simp only [Namer.forwardingRule] at ht
  rw [truncate_take (by decide),truncate_take (by decide)] at ht
  have hlit : "k8s-fw-".toList = "k8s-fws".toList := ht
  exact absurd hlit (by decide)

theorem forwardingRule_ne_nil (lb : Str) : Namer.forwardingRule lb .http ≠ [] := by
  intro hnil
  have htake := congrArg (List.take 7) hnil
  simp only [Namer.forwardingRule] at htake
  rw [truncate_take (by decide)] at htake
  have hlit : "k8s-fw-".toList = [] := htake
  exact absurd hlit (by decide)

end IngressGce
