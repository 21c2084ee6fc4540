import IngressGce.LoadBalancer.Pool
import IngressGce.LoadBalancer.Cleanup
import IngressGce.Program.Runs

/-! # Collecting load balancers that are no longer wanted

`gc` visits the names of the pool and deletes those it does not know. The
deletion applies the namer to the name once more, so that under another cluster
UID than the one the name was made with it can reach another load balancer.
-/
namespace IngressGce
open Prog

namespace L7s
variable {G : SelfLinks}

/-- The load balancer is in the pool under a name that `gc names` keeps. -/
def Wanted (w : L7s) (names : List Str) (lb : Ref) : Prop :=
  ∃ key ∈ w.known names, w.lookup key = some lb

/-- What `gc names` may do, judged by the pool `w` it starts on: tear down the
entry under a name it does not keep, which is no wanted load balancer, and take
a name out of the pool that it does not keep. -/
def SafeEvent (w : L7s) (names : List Str) : PoolEvent → Prop
  | .cleanup name lb => name ∉ w.known names ∧ w.lookup name = some lb ∧ ¬w.Wanted names lb
  | .remove _ key => key ∈ w.known names → w.lookup key = none

/-- In whatever order `gc names` visits the pool and whatever the cloud answers, it
does only what it may do. -/
def SafeGC (w : L7s) (names : List Str) : Prop :=
  ∀ order backend, (order.map Prod.fst).Perm w.snapshotter.keys →
    Ensures (gc names order backend) w.reset (fun _ w' => ∀ e ∈ w'.trace, w.SafeEvent names e)

/-- From each name that `gc names` does not keep, the renaming done by the deletion
leads to the entry under that name, or to none. -/
def ReachesOwn (w : L7s) (names : List Str) : Prop :=
  ∀ key ∈ w.snapshotter.keys, key ∉ w.known names →
    ∀ lb, w.lookup (w.namer.loadBalancer (w.namer.loadBalancer key)) = some lb →
      w.lookup key = some lb ∧ ¬w.Wanted names lb ∧
        (w.namer.loadBalancer key ∈ w.known names → w.lookup (w.namer.loadBalancer key) = none)

/-- The pool during a collection: names have only been taken out, and all that was
done is safe. -/
structure Collecting (w : L7s) (names : List Str) (w' : L7s) : Prop where
  namer : w'.namer = w.namer
  shrinks : ∀ key lb, w'.lookup key = some lb → w.lookup key = some lb
  safe : ∀ e ∈ w'.trace, w.SafeEvent names e

theorem delete_collecting {w w' : L7s} {names : List Str} (hreach : w.ReachesOwn names)
    (hw : Collecting w names w') {key : Str} (hkey : key ∈ w.snapshotter.keys)
    (hunknown : key ∉ w.known names) (plan : Plan) :
    Ensures (delete key plan) w' (fun _ w'' => Collecting w names w'') := by
  refine ensures_delete (fun _ _ => hw) ?_
  intro lb hlb
  have hlb₀ := hw.shrinks _ lb hlb
  rw [hw.namer] at hlb₀
  obtain ⟨hown,hfree,hrenamed⟩ := hreach key hkey hunknown lb hlb₀
  have hclean : w.SafeEvent names (.cleanup key lb) := ⟨hunknown,hown,hfree⟩
  have hall : ∀ r h, Collecting w names (w'.afterCleanup key lb r h) := by
    intro r h
    cases r with
    | error e =>
      refine ⟨hw.namer,hw.shrinks,?_⟩
      intro e he
      rcases List.mem_cons.mp he with rfl | he
      · exact hclean
      · exact hw.safe e he
    | ok _ =>
      refine ⟨hw.namer,fun k lb' hk => hw.shrinks k lb' (afterCleanup_shrinks hk),?_⟩
      intro e he
      rcases List.mem_cons.mp he with rfl | he
      · rw [hw.namer]
        exact hrenamed
      · rcases List.mem_cons.mp he with rfl | he
        · exact hclean
        · exact hw.safe e he
  exact hall _ _

theorem safeGC_of_reachesOwn {w : L7s} {names : List Str} (hreach : w.ReachesOwn names) :
    w.SafeGC names := by
  intro order backend hperm
  simp only [gc,ensures_bind,ensures_state,afterwards_ok]
  have hloop : Ensures (forEach (deleteUnknown (w.reset.known names)) order) w.reset
      (fun _ w' => Collecting w names w') := by
    refine forEach_invariant _ (Collecting w names) ?_ ⟨rfl,fun _ _ h => h,by simp [reset]⟩
    intro e he w' hw'
    have hkey : e.1 ∈ w.snapshotter.keys := hperm.subset (List.mem_map_of_mem he)
    rw [deleteUnknown,ensures_ite,ensures_pure]
    exact ⟨fun _ => hw',fun hunknown => delete_collecting hreach hw' hkey hunknown e.2⟩
  refine hloop.mono ?_
  intro r w' hw'
  cases r with
  | error e => exact hw'.safe
  | ok _ =>
    rw [afterwards_ok]
    exact ensures_deleteDefaultBackend fun _ _ => hw'.safe

theorem delete_trace (key : Str) (plan : Plan) (w : L7s) :
    Ensures (delete key plan) w (fun _ w' => ∀ e ∈ w.trace, e ∈ w'.trace) := by
  refine ensures_delete (fun _ _ e he => he) ?_
  intro lb _
  have hall : ∀ r h, ∀ e ∈ w.trace, e ∈ (w.afterCleanup key lb r h).trace := by
    intro r h e he
    cases r with
    | error _ => exact List.mem_cons_of_mem _ he
    | ok _ => exact List.mem_cons_of_mem _ (List.mem_cons_of_mem _ he)
  exact hall _ _

/-- When the first name visited is not kept and leads to a load balancer, that load
balancer is torn down and the renamed name is taken out of the pool. -/
theorem gc_first {w : L7s} {names : List Str} {key : Str} (hunknown : key ∉ w.known names) {lb : Ref}
    (hlb : w.lookup (w.namer.loadBalancer (w.namer.loadBalancer key)) = some lb)
    (rest : List (Str × Plan)) (backend : DefaultBackend) :
    Ensures (gc names ((key,Plan.faultless) :: rest) backend) w.reset (fun _ w' =>
      .cleanup key lb ∈ w'.trace ∧ .remove key (w.namer.loadBalancer key) ∈ w'.trace) := by
  simp only [gc,ensures_bind,ensures_state,afterwards_ok,forEach]
  rw [deleteUnknown,ensures_ite]
  refine ⟨fun hk => absurd hk hunknown,fun _ => ?_⟩
  refine ensures_delete (fun hnone => absurd (hlb.symm.trans hnone) (by simp)) ?_
  intro lb' hlb'
  obtain rfl : lb = lb' := Option.some.inj (hlb.symm.trans hlb')
  refine (cleanup_completes Plan.faultless (fun _ => rfl) _).mono ?_
  rintro r h rfl
  rw [afterwards_ok]
  have hclean : .cleanup key lb ∈ (w.reset.afterCleanup key lb (.ok ()) h).trace :=
    List.mem_cons_of_mem _ List.mem_cons_self
  have hremove : .remove key (w.namer.loadBalancer key) ∈ (w.reset.afterCleanup key lb (.ok ()) h).trace :=
    List.mem_cons_self
  have hrest : Ensures (forEach (deleteUnknown (w.reset.known names)) rest)
      (w.reset.afterCleanup key lb (.ok ()) h) (fun _ w' =>
        .cleanup key lb ∈ w'.trace ∧ .remove key (w.namer.loadBalancer key) ∈ w'.trace) := by
    refine forEach_invariant _ (fun w' : L7s => .cleanup key lb ∈ w'.trace ∧
      .remove key (w.namer.loadBalancer key) ∈ w'.trace) ?_ ⟨hclean,hremove⟩
    intro e _ w' hw'
    rw [deleteUnknown,ensures_ite,ensures_pure]
    exact ⟨fun _ => hw',fun _ => (delete_trace e.1 e.2 w').mono fun _ _ hsub => ⟨hsub _ hw'.1,hsub _ hw'.2⟩⟩
  refine hrest.mono ?_
  intro r w' hw'
  cases r with
  | error e => exact hw'
  | ok _ =>
    rw [afterwards_ok]
    exact ensures_deleteDefaultBackend fun _ _ => hw'

theorem reachesOwn_of_safeGC {w : L7s} {names : List Str} (hsafe : w.SafeGC names) :
    w.ReachesOwn names := by
  intro key hkey hunknown lb hlb
  let rest : List (Str × Plan) := (w.snapshotter.keys.erase key).map (fun k => (k,Plan.faultless))
  let backend : DefaultBackend := { ensure := none, get := .error (.text []), delete := none }
  have hperm : (((key,Plan.faultless) :: rest).map Prod.fst).Perm w.snapshotter.keys := by
    have hrest : rest.map Prod.fst = w.snapshotter.keys.erase key := by simp [rest,Function.comp_def]
    rw [List.map_cons,hrest]
    exact (List.perm_cons_erase hkey).symm
  obtain ⟨htrace,hclean,hremove⟩ :=
    (hsafe _ backend hperm).and (gc_first hunknown hlb rest backend)
  obtain ⟨-,hown,hfree⟩ := htrace _ hclean
  exact ⟨hown,hfree,htrace _ hremove⟩

theorem safeGC_iff (w : L7s) (names : List Str) : w.SafeGC names ↔ w.ReachesOwn names :=
  ⟨reachesOwn_of_safeGC,safeGC_of_reachesOwn⟩

/-- The names `gc` is called with, if the operation is a call of it. -/
def Op.collects : Op → Option (List Str)
  | .gc names _ _ => some names
  | _ => none

/-- Along a run every collection is safe exactly if every collection finds a pool
in which the names it does not keep lead to their own entries. -/
theorem collections_safe_iff (w : L7s) (ops : List Op) :
    Runs.Along (step G) (fun w op => ∀ names, op.collects = some names → w.SafeGC names) w ops ↔
      Runs.Along (step G) (fun w op => ∀ names, op.collects = some names → w.ReachesOwn names) w ops :=
  Runs.along_congr (fun w _ => forall_congr' fun names => forall_congr' fun _ => safeGC_iff w names) w ops

section UIDChange

def testIngress : L7RuntimeInfo :=
  { name := "default/test".toList, tls := none, tlsName := [], allowHTTP := true, staticIPName := [] }

def testPlan : Plan := { fault := fun _ => none, ephemeral := fun _ => "203.0.113.1".toList }

/-- The load balancer is made while the cluster has no UID and again under a UID. -/
def uidChange : List Op :=
  [.sync [(testIngress,testPlan)] .ready,.setUID "uid1".toList,.sync [(testIngress,testPlan)] .ready]

def afterUIDChange : L7s :=
  Runs.final (step SelfLinks.byCollection) (start (Namer.setUID []) Cloud.empty) uidChange

theorem afterUIDChange_entries : afterUIDChange.snapshotter.entries =
    [⟨"default-test--uid1".toList,2⟩,⟨"default-test".toList,1⟩] := by decide

theorem afterUIDChange_lookup (key : Str) : afterUIDChange.lookup key =
    List.dlookup key [(⟨"default-test--uid1".toList,2⟩ : Sigma fun _ : Str => Ref),⟨"default-test".toList,1⟩] := by
  rw [lookup,AList.lookup,afterUIDChange_entries]

theorem collection_after_uidChange_unsafe : ¬Runs.Along (step SelfLinks.byCollection)
    (fun w op => ∀ names, op.collects = some names → w.SafeGC names) (start (Namer.setUID []) Cloud.empty)
    (uidChange ++ [.gc ["default/test".toList]
      [("default-test".toList,testPlan),("default-test--uid1".toList,testPlan)] .ready]) := by
  rintro ⟨-,-,-,hgc,-⟩
  have hreach := reachesOwn_of_safeGC (hgc _ rfl)
  change afterUIDChange.ReachesOwn ["default/test".toList] at hreach
  have hkey : "default-test".toList ∈ afterUIDChange.snapshotter.keys := by
    rw [AList.keys,afterUIDChange_entries]
    decide
  have hunknown : "default-test".toList ∉ afterUIDChange.known ["default/test".toList] := by
    change _ ∉ [(Namer.setUID "uid1".toList).loadBalancer "default/test".toList]
    decide
  have hother : afterUIDChange.lookup ((Namer.setUID "uid1".toList).loadBalancer
      ((Namer.setUID "uid1".toList).loadBalancer "default-test".toList)) = some 2 := by
    rw [afterUIDChange_lookup]
    decide
  obtain ⟨hown,-⟩ := hreach _ hkey hunknown 2 hother
  rw [afterUIDChange_lookup] at hown
  exact absurd hown (by decide)

end UIDChange

end L7s
end IngressGce
