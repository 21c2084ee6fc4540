import IngressGce.Kube.Objects
import IngressGce.Program.Sorting
import Mathlib.Data.Char
import Mathlib.Data.List.Lex
import Mathlib.Data.List.Sort
import Mathlib.Data.Prod.Lex

/-! # Readiness probes

The health check of a Service takes over the readiness probe of one of its pods. The pods
are sorted by age; two pods of different namespaces can have the same age and the same
name, and then come in any order.
-/
namespace IngressGce
namespace Kube

abbrev Labels := AList (fun _ : Str => Str)

structure HTTPGetAction where
  path : Str
  port : IntOrString
  host : Str
  scheme : Str
  httpHeaders : List (Str × Str)
  deriving DecidableEq

/-- A probe by another handler has no HTTP action. -/
structure Probe where
  httpGet : Option HTTPGetAction
  timeoutSeconds : Int32
  periodSeconds : Int32
  deriving DecidableEq

structure ContainerPort where
  name : Str
  containerPort : Int32
  deriving DecidableEq

structure Container where
  ports : List ContainerPort
  readinessProbe : Option Probe
  deriving DecidableEq

structure Pod (τ : Type) where
  namespaced : Str
  name : Str
  labels : Labels
  creationTimestamp : τ
  containers : List Container

structure SelectingService where
  namespaced : Str
  selector : Labels

/-- The requirements on the labels. Nothing is required if one of them is not valid. -/
def selectorFromSet (valid : Str → Str → Bool) (ls : Labels) : List (Str × Str) :=
  let requirements := ls.entries.map (fun e => (e.1,e.2))
  if requirements.all (fun r => valid r.1 r.2) then requirements else []

def selectorMatches (requirements : List (Str × Str)) (ls : Labels) : Bool :=
  requirements.all (fun r => ls.lookup r.1 = some r.2)

def IntOrString.matchesPort (port : IntOrString) (p : ContainerPort) : Bool :=
  match port with
  | .int n => n = p.containerPort
  | .str s => s = p.name

/-- Less in the order by creation time, with the name to decide between equal times. -/
def Pod.less {τ : Type} [LinearOrder τ] (a b : Pod τ) : Prop :=
  if a.creationTimestamp = b.creationTimestamp then a.name < b.name else a.creationTimestamp < b.creationTimestamp

end Kube
open Kube

def isSimpleHTTPProbe (probe : Option Probe) : Bool :=
  match probe.bind Probe.httpGet with
  | none => false
  | some httpGet => httpGet.host = [] &&
      match httpGet.httpHeaders with
      | [] => true
      | [header] => header.1 = "Host".toList
      | _ => false

def Kube.Container.httpProbe (targetPort : IntOrString) (protocol : Str) (c : Container) : Option Probe :=
  match c.readinessProbe.bind Probe.httpGet with
  | none => none
  | some httpGet =>
    if !isSimpleHTTPProbe c.readinessProbe || protocol ≠ httpGet.scheme then none
    else if c.ports.any (fun p => targetPort.matchesPort p && httpGet.port.matchesPort p) then c.readinessProbe else none

def Kube.Pod.httpProbe {τ : Type} (targetPort : IntOrString) (protocol : Str) (pod : Pod τ) : Option Probe :=
  pod.containers.findSome? (Container.httpProbe targetPort protocol)

section Probes
variable {τ : Type} [LinearOrder τ] (valid : Str → Str → Bool)

/-- The pods of all namespaces are listed and sorted. -/
def getHTTPProbe (s : Sorting (Pod.less (τ := τ))) (store : List (Pod τ)) (svc : SelectingService)
    (targetPort : IntOrString) (protocol : Str) : Option Probe :=
  let pl := store.filter (fun pod => selectorMatches (selectorFromSet valid svc.selector) pod.labels)
  (s.sort pl).findSome? fun pod => if pod.namespaced ≠ svc.namespaced then none else pod.httpProbe targetPort protocol

def Kube.Pod.age (pod : Pod τ) : τ ×ₗ Str := toLex (pod.creationTimestamp,pod.name)

theorem less_iff {a b : Pod τ} : a.less b ↔ a.age < b.age := by
  rw [Pod.age,Pod.age,Prod.Lex.toLex_lt_toLex,Pod.less]
  split
  · rename_i heq
    simp [heq]
  · rename_i hne
    simp [hne]

/-- The name of a pod is its own within its namespace. -/
def DistinctNames (store : List (Pod τ)) : Prop :=
  ∀ a ∈ store, ∀ b ∈ store, a.namespaced = b.namespaced → a.name = b.name → a = b

def IsPodOf (svc : SelectingService) (store : List (Pod τ)) (pod : Pod τ) : Prop :=
  pod ∈ store ∧ selectorMatches (selectorFromSet valid svc.selector) pod.labels = true ∧
    pod.namespaced = svc.namespaced

variable {valid} {store store' : List (Pod τ)} {svc : SelectingService} {targetPort : IntOrString} {protocol : Str}

/-- The probe is that of the oldest pod of the Service which has one. -/
theorem getHTTPProbe_isFirst (s : Sorting (Pod.less (τ := τ))) (hnames : DistinctNames store) :
    IsFirst Pod.less (Pod.httpProbe targetPort protocol) (IsPodOf valid svc store)
      (getHTTPProbe valid s store svc targetPort protocol) := by
  refine (s.isFirst_findSome? ?_).congr ?_
  · intro a ha b hb hfa hfb
    have hns : ∀ {pod : Pod τ}, (if pod.namespaced ≠ svc.namespaced then none else pod.httpProbe targetPort protocol) ≠ none →
        pod.namespaced = svc.namespaced := by
      intro pod hpod
      by_contra hne
      rw [if_pos hne] at hpod
      exact hpod rfl
    rcases lt_trichotomy a.age b.age with hlt | heq | hgt
    · exact Or.inr (Or.inl (less_iff.mpr hlt))
    · left
      apply hnames a (List.mem_of_mem_filter ha) b (List.mem_of_mem_filter hb)
      · rw [hns hfa,hns hfb]
      · exact (Prod.ext_iff.mp (toLex_inj.mp heq)).2
    · exact Or.inr (Or.inr (less_iff.mpr hgt))
  · intro pod probe
    rw [List.mem_filter]
    constructor
    · rintro ⟨⟨hmem,hselected⟩,hprobe⟩
      split at hprobe
      · cases hprobe
      · rename_i hns
        exact ⟨⟨hmem,hselected,not_not.mp hns⟩,hprobe⟩
    · rintro ⟨⟨hmem,hselected,hns⟩,hprobe⟩
      exact ⟨⟨hmem,hselected⟩,by rw [if_neg (not_not.mpr hns),hprobe]⟩

/-- Neither the order of the store, nor what the sort makes of ties, nor the pods of other
namespaces matter. -/
theorem getHTTPProbe_determined (s s' : Sorting (Pod.less (τ := τ))) (hnames : DistinctNames store)
    (hnames' : DistinctNames store') (hsame : ∀ pod, pod.namespaced = svc.namespaced → (pod ∈ store ↔ pod ∈ store')) :
    getHTTPProbe valid s store svc targetPort protocol = getHTTPProbe valid s' store' svc targetPort protocol ∧
    IsFirst Pod.less (Pod.httpProbe targetPort protocol) (IsPodOf valid svc store)
      (getHTTPProbe valid s store svc targetPort protocol) := by
  have hfirst : IsFirst Pod.less (Pod.httpProbe targetPort protocol) (IsPodOf valid svc store) _ :=
    getHTTPProbe_isFirst s hnames
  have hfirst' : IsFirst Pod.less (Pod.httpProbe targetPort protocol) (IsPodOf valid svc store') _ :=
    getHTTPProbe_isFirst s' hnames'
  refine ⟨hfirst.unique ?_ (hfirst'.congr ?_),hfirst⟩
  · intro a b hab hba
    exact lt_asymm (less_iff.mp hab) (less_iff.mp hba)
  · intro pod probe
    refine and_congr_left fun _ => ?_
    constructor
    · rintro ⟨hmem,hselected,hns⟩
      exact ⟨(hsame pod hns).mpr hmem,hselected,hns⟩
    · rintro ⟨hmem,hselected,hns⟩
      exact ⟨(hsame pod hns).mp hmem,hselected,hns⟩

def insertionSorting : Sorting (Pod.less (τ := τ)) where
  sort xs := xs.insertionSort (fun a b => a.age ≤ b.age)
  perm xs := List.perm_insertionSort _ xs
  sorted xs := by
    have htotal : Std.Total (fun a b : Pod τ => a.age ≤ b.age) := ⟨fun a b => le_total a.age b.age⟩
    have htrans : IsTrans (Pod τ) (fun a b => a.age ≤ b.age) := ⟨fun _ _ _ => le_trans⟩
    refine (List.pairwise_insertionSort _ xs).imp ?_
    intro a b hle hless
    exact not_lt_of_ge hle (less_iff.mp hless)

end Probes

def probed (ns : Str) (created : ℕ) (path : Str) : Pod ℕ where
  namespaced := ns
  name := "web".toList
  labels := AList.singleton "app".toList "web".toList
  creationTimestamp := created
  containers := [⟨[⟨"http".toList,8080⟩],some ⟨some ⟨path,.int 8080,[],"HTTP".toList,[]⟩,1,10⟩⟩]

/-- The older pod is of another namespace. -/
theorem getHTTPProbe_twoNamespaces :
    getHTTPProbe (fun _ _ => true) insertionSorting [probed "other".toList 1 "/other".toList,probed "default".toList 2 "/web".toList]
        ⟨"default".toList,AList.singleton "app".toList "web".toList⟩ (.str "http".toList) "HTTP".toList =
      getHTTPProbe (fun _ _ => true) insertionSorting [probed "default".toList 2 "/web".toList]
        ⟨"default".toList,AList.singleton "app".toList "web".toList⟩ (.str "http".toList) "HTTP".toList ∧
    getHTTPProbe (fun _ _ => true) insertionSorting [probed "default".toList 2 "/web".toList]
        ⟨"default".toList,AList.singleton "app".toList "web".toList⟩ (.str "http".toList) "HTTP".toList =
      some ⟨some ⟨"/web".toList,.int 8080,[],"HTTP".toList,[]⟩,1,10⟩ := by
  refine ⟨(getHTTPProbe_determined insertionSorting insertionSorting ?_ ?_ ?_).1,by decide +kernel⟩
  · intro a ha b hb hns _
    rw [List.mem_pair] at ha hb
    rcases ha with rfl | rfl
    · rcases hb with rfl | rfl
      · rfl
      · exact absurd hns (by decide)
    · rcases hb with rfl | rfl
      · exact absurd hns (by decide)
      · rfl
  · intro a ha b hb _ _
    rw [List.mem_singleton.mp ha,List.mem_singleton.mp hb]
  · intro pod hns
    have hother : pod ≠ probed "other".toList 1 "/other".toList := by
      rintro rfl
      exact absurd hns (by decide)
    rw [List.mem_cons,or_iff_right hother]

end IngressGce
