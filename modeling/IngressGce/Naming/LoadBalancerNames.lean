import IngressGce.Naming.Namer

/-! # Load balancers that share a name

The key of an Ingress is flattened when its slash becomes a dash, and the UID is not
appended to a key that already ends in it. Either can give two keys one name.
-/
namespace IngressGce
namespace Namer
variable (n : Namer)

/-- The key already ends in the UID. -/
def Tagged (key : Str) : Prop := n.clusterName ≠ [] ∧ Str.lastToken clusterNameDelimiter key = n.clusterName

/-- The name of a load balancer before it is truncated. -/
def longName (key : Str) : Str :=
  if n.clusterName = [] ∨ Str.lastToken clusterNameDelimiter key = n.clusterName then scrub key
  else scrub key ++ clusterNameDelimiter ++ n.clusterName

/-- The names of the url map, the proxies and the forwarding rules of a load balancer. -/
def resourceNames (lbName : Str) : List Str :=
  [urlMap lbName,targetProxy lbName .http,targetProxy lbName .https,
    forwardingRule lbName .http,forwardingRule lbName .https]

/-- Neither the name of the load balancer nor that of a resource of it is truncated. -/
structure Fits (key : Str) : Prop where
  loadBalancer : (n.longName key).length ≤ nameLenLimit
  resources : ∀ name ∈ resourceNames (n.loadBalancer key), name.length ≤ nameLenLimit

/-- The two load balancers are different entries of the pool, and no resource of one has
the name of a resource of the other. -/
structure Apart (key key' : Str) : Prop where
  loadBalancer : n.loadBalancer key ≠ n.loadBalancer key'
  resources : (resourceNames (n.loadBalancer key)).Disjoint (resourceNames (n.loadBalancer key'))

/-- The keys are the same but for the place of the slash, or one of them already has the
UID that the other one gets. -/
def Confused (key key' : Str) : Prop :=
  (scrub key = scrub key' ∧ (n.Tagged key ↔ n.Tagged key')) ∨
  (n.Tagged key ∧ ¬n.Tagged key' ∧ scrub key = scrub key' ++ clusterNameDelimiter ++ n.clusterName) ∨
  (n.Tagged key' ∧ ¬n.Tagged key ∧ scrub key' = scrub key ++ clusterNameDelimiter ++ n.clusterName)

variable {n} {key key' : Str}

theorem longName_of_no_uid (h : n.clusterName = []) : n.longName key = scrub key := if_pos (Or.inl h)

theorem longName_of_tagged (h : n.Tagged key) : n.longName key = scrub key := if_pos (Or.inr h.2)

theorem longName_of_untagged (hu : n.clusterName ≠ []) (h : ¬n.Tagged key) :
    n.longName key = scrub key ++ clusterNameDelimiter ++ n.clusterName := by
  apply if_neg
  rintro (hnil | htoken)
  · exact hu hnil
  · exact h ⟨hu,htoken⟩

theorem Fits.eq_longName (h : n.Fits key) : n.loadBalancer key = n.longName key := by
  have hfits := h.loadBalancer
  unfold Namer.loadBalancer Namer.longName at *
  split at hfits
  · rename_i hskip
    rw [if_pos hskip,if_pos hskip]
  · rename_i hskip
    rw [if_neg hskip,if_neg hskip,truncate,if_neg (Nat.not_lt.mpr hfits)]

theorem longName_eq_iff : n.longName key = n.longName key' ↔ n.Confused key key' := by
  unfold Confused
  by_cases hu : n.clusterName = []
  · have hnone : ∀ k, ¬n.Tagged k := fun _ h => h.1 hu
    simp [longName_of_no_uid hu,hnone]
  · by_cases h : n.Tagged key
    · by_cases h' : n.Tagged key'
      · simp [longName_of_tagged h,longName_of_tagged h',h,h']
      · simp [longName_of_tagged h,longName_of_untagged hu h',h,h']
    · by_cases h' : n.Tagged key'
      · simp [longName_of_untagged hu h,longName_of_tagged h',h,h',eq_comm]
      · simp [longName_of_untagged hu h,longName_of_untagged hu h',h,h']

end Namer

theorem length_truncate_le_iff {key : Str} : (truncate key).length ≤ nameLenLimit ↔ key.length ≤ nameLenLimit := by
  unfold truncate
  split
  · rename_i h
    have hlen : (key.take nameLenLimit ++ alphaNumericChar).length = nameLenLimit + 1 := by
      rw [List.length_append,List.length_take,Nat.min_eq_left (by omega)]
      rfl
    omega
  · rfl

theorem truncate_of_fits {key : Str} (h : (truncate key).length ≤ nameLenLimit) : truncate key = key :=
  if_neg (Nat.not_lt.mpr (length_truncate_le_iff.mp h))

namespace Namer
variable {n : Namer} {key key' : Str}

/-- What the names of the resources begin with, by their kind. -/
def resourceKinds : List Str :=
  [urlMapPrefix,targetHTTPProxyPrefix,targetHTTPSProxyPrefix,forwardingRulePrefix,httpsForwardingRulePrefix].map
    (fun kind => kind ++ "-".toList)

theorem resourceKinds_not_nested : ∀ kind ∈ resourceKinds, ∀ kind' ∈ resourceKinds, kind <+: kind' → kind = kind' := by
  decide

theorem resourceNames_of_fits {lb : Str} (h : ∀ name ∈ resourceNames lb, name.length ≤ nameLenLimit) :
    resourceNames lb = resourceKinds.map (· ++ lb) := by
  simp only [resourceNames,urlMap,targetProxy,forwardingRule,List.forall_mem_cons] at h ⊢
  rw [truncate_of_fits h.1,truncate_of_fits h.2.1,truncate_of_fits h.2.2.1,truncate_of_fits h.2.2.2.1,
    truncate_of_fits h.2.2.2.2.1]
  rfl

/-- The kind of a resource can be read from its name, and so can its load balancer. -/
theorem disjoint_resourceNames {lb lb' : Str} (hne : lb ≠ lb')
    (h : ∀ name ∈ resourceNames lb, name.length ≤ nameLenLimit)
    (h' : ∀ name ∈ resourceNames lb', name.length ≤ nameLenLimit) :
    (resourceNames lb).Disjoint (resourceNames lb') := by
  rw [resourceNames_of_fits h,resourceNames_of_fits h']
  intro name hname hname'
  obtain ⟨kind,hkind,rfl⟩ := List.mem_map.mp hname
  obtain ⟨kind',hkind',heq⟩ := List.mem_map.mp hname'
  have hpre : kind <+: kind ++ lb := List.prefix_append kind lb
  have hpre' : kind' <+: kind ++ lb := ⟨lb',heq⟩
  have hsame : kind' = kind := by
    rcases List.prefix_or_prefix_of_prefix hpre hpre' with hle | hle
    · exact (resourceKinds_not_nested kind hkind kind' hkind' hle).symm
    · exact resourceKinds_not_nested kind' hkind' kind hkind hle
  rw [hsame] at heq
  exact hne (List.append_cancel_left heq).symm

/-- Two load balancers whose names are not truncated share nothing, unless their keys are
confused. -/
theorem apart_iff (h : n.Fits key) (h' : n.Fits key') : n.Apart key key' ↔ ¬n.Confused key key' := by
  rw [← longName_eq_iff,← h.eq_longName,← h'.eq_longName]
  constructor
  · exact fun hapart => hapart.loadBalancer
  · exact fun hne => ⟨hne,disjoint_resourceNames hne h.resources h'.resources⟩

theorem apart_of_different_names :
    (setUID "uid".toList).Apart "default/web".toList "default/api".toList := by
  refine (apart_iff ⟨by decide,by decide⟩ ⟨by decide,by decide⟩).mpr ?_
  rintro (⟨hscrub,_⟩ | ⟨_,_,hscrub⟩ | ⟨_,_,hscrub⟩)
  · exact absurd hscrub (by decide)
  · exact absurd hscrub (by decide)
  · exact absurd hscrub (by decide)

/-- A dash of the namespace or of the name can take the place of the slash, and an Ingress
can be named after another one with the UID. -/
theorem shared_names : ∃ n : Namer, ∃ key key' key'' : Str,
    IngressKey key ∧ IngressKey key' ∧ IngressKey key'' ∧ key ≠ key' ∧ key ≠ key'' ∧
    n.Fits key ∧ n.Fits key' ∧ n.Fits key'' ∧
    n.loadBalancer key = n.loadBalancer key' ∧ n.loadBalancer key = n.loadBalancer key'' :=
  ⟨setUID "uid".toList,"a/b-c".toList,"a-b/c".toList,"a/b-c--uid".toList,
    ⟨"a".toList,"b-c".toList,by decide⟩,⟨"a-b".toList,"c".toList,by decide⟩,⟨"a".toList,"b-c--uid".toList,by decide⟩,
    by decide,by decide,⟨by decide,by decide⟩,⟨by decide,by decide⟩,⟨by decide,by decide⟩,by decide,by decide⟩

end Namer
end IngressGce
