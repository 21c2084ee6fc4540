import IngressGce.NetworkEndpointGroup.Endpoints
import IngressGce.Naming.NEGNames
import IngressGce.Program.MapLoops
import IngressGce.Program.Respects
import Mathlib.Data.List.Sort

/-! # Deleting the NEGs that no service needs

The collection takes every NEG of the project whose name begins like those of its own
cluster, and deletes those that no port of `svcPortMap` has. If it returns, they are gone
and all others are as they were. So it deletes the NEGs of another cluster whose UID
begins with the UID of this one.
-/
namespace IngressGce.NEG
open Prog

/-- The collection returns an error, or panics when it trims the fields of a name. -/
inductive CollectError
  | returned (e : GoError)
  | sliceBoundsOutOfRange
  deriving DecidableEq

abbrev CollectM (α : Type) := Prog Groups CollectError α

abbrev ZoneNEGList := AList (fun _ : Str => List Str)

def ensureDeleteNetworkEndpointGroup (name zone : Str) : CloudM Unit := do
  let neg ← attempt (getNetworkEndpointGroup name zone)
  match neg with
  | .error _ => pure ()
  | .ok _ => deleteNetworkEndpointGroup name zone

variable (n : Namer) (md5 : MD5)

def recognised (zoneNEGList : ZoneNEGList) : List Str :=
  ((zoneNEGList.entries.flatMap (fun list => list.2)).filter n.isNEG).dedup

def namesInUse (svcPortMap : AList (fun _ : ServiceKey => List Str)) : Option (List Str) :=
  (svcPortMap.entries.flatMap (fun svc => svc.2.map (fun port =>
    (⟨svc.1.namespaced,svc.1.name,port⟩ : NEGFields)))).mapM (n.neg md5)

def deletionFailed (name zone : Str) (e : GoError) : CollectError :=
  .returned (.wrapped ("failed to delete NEG \"".toList ++ name ++ "\" in \"".toList ++ zone ++ "\": ".toList) e)

/-- The order of texts by their bytes. -/
def textLe : Str → Str → Bool
  | [], _ => true
  | _ :: _, [] => false
  | a :: s, b :: t => if a = b then textLe s t else a.toNat < b.toNat

/-- The names are deleted in their order, in the zones of the list in any order. -/
def garbageCollectNEG (o : Iteration Str) (aggregated : Except GoError ZoneNEGList) (w : Manager) : CollectM Unit :=
  match aggregated with
  | .error e => fail (.returned (.wrapped "failed to retrieve aggregated NEG list: ".toList e))
  | .ok zoneNEGList =>
    match namesInUse n md5 w.svcPortMap with
    | none => fail .sliceBoundsOutOfRange
    | some used =>
      let negNames := ((recognised n zoneNEGList).filter (· ∉ used)).insertionSort (fun a b => textLe a b = true)
      forEach (fun zone => forEach (fun name =>
        mapFailure (deletionFailed name zone) (ensureDeleteNetworkEndpointGroup name zone)) negNames)
        (o.range zoneNEGList.keys)

def ChangedOnly (touched : Str × Str → Prop) (w w' : Groups) : Prop := ∀ k, ¬touched k → w'.items k = w.items k

instance (touched : Str × Str → Prop) : IsPreorder Groups (ChangedOnly touched) where
  refl _ _ _ := rfl
  trans _ _ _ h h' k hk := (h' k hk).trans (h k hk)

variable {touched : Str × Str → Prop}

theorem respects_onItem {α : Type} {k : Str × Str} (f : Group → α × Option Group) (hk : touched k) :
    Respects (ChangedOnly touched) (Store.onItem k f) := by
  intro w
  refine (Store.onItem_served f).mono ?_
  intro r w' h k' hk'
  have hne : k' ≠ k := by
    rintro rfl
    exact hk' hk
  rcases h.items with hitems | ⟨g,_,hitems⟩
  · rw [hitems]
  · rw [hitems,Function.update_of_ne hne]

theorem respects_ensureDelete {name zone : Str} (h : touched (name,zone)) :
    Respects (ChangedOnly touched) (ensureDeleteNetworkEndpointGroup name zone) := by
  refine Respects.bind (Respects.attempt (respects_onItem _ h)) ?_
  intro neg
  cases neg with
  | error e => exact respects_pure ()
  | ok g => exact respects_onItem _ h

/-- The zones and names at which the collection deletes, one after the other. -/
def sweep (o : Iteration Str) (zoneNEGList : ZoneNEGList) (used : List Str) : List (Str × Str) :=
  o.range zoneNEGList.keys ×ˢ
    ((recognised n zoneNEGList).filter (· ∉ used)).insertionSort (fun a b => textLe a b = true)

def deleteAt (p : Str × Str) : CollectM Unit :=
  mapFailure (deletionFailed p.2 p.1) (ensureDeleteNetworkEndpointGroup p.2 p.1)

theorem mem_sweep {o : Iteration Str} {zoneNEGList : ZoneNEGList} {used : List Str} {p : Str × Str} :
    p ∈ sweep n o zoneNEGList used ↔ p.1 ∈ zoneNEGList ∧
      (∃ list ∈ zoneNEGList.entries, p.2 ∈ list.2) ∧ n.isNEG p.2 = true ∧ p.2 ∉ used := by
  rw [sweep,List.mem_product,Iteration.mem_range,AList.mem_keys,List.mem_insertionSort,List.mem_filter,
    decide_eq_true_iff,recognised,List.mem_dedup,List.mem_filter,List.mem_flatMap,and_assoc]

/-- The collection is one loop over what there is to delete. -/
theorem garbageCollectNEG_eq {w : Manager} {used : List Str} (hused : namesInUse n md5 w.svcPortMap = some used)
    (o : Iteration Str) (zoneNEGList : ZoneNEGList) :
    garbageCollectNEG n md5 o (.ok zoneNEGList) w = forEach deleteAt (sweep n o zoneNEGList used) := by
  unfold garbageCollectNEG
  rw [hused,sweep,forEach_product]
  rfl

theorem respects_garbageCollectNEG (touched : Str × Str → Prop) (o : Iteration Str) (aggregated : Except GoError ZoneNEGList) (w : Manager)
    (h : ∀ used, namesInUse n md5 w.svcPortMap = some used → ∀ name, n.isNEG name = true → name ∉ used →
      ∀ zone, touched (name,zone)) :
    Respects (ChangedOnly touched) (garbageCollectNEG n md5 o aggregated w) := by
  cases aggregated with
  | error e => exact respects_fail _
  | ok zoneNEGList =>
    cases hused : namesInUse n md5 w.svcPortMap with
    | none =>
      unfold garbageCollectNEG
      rw [hused]
      exact respects_fail _
    | some used =>
      rw [garbageCollectNEG_eq n md5 hused]
      refine Respects.forEach ?_
      rintro ⟨zone,name⟩ hp
      obtain ⟨_,_,hseen,hunused⟩ := (mem_sweep n).mp hp
      exact Respects.mapFailure (respects_ensureDelete (h used hused name hseen hunused zone)) _

def Wanted (w : Manager) (name : Str) : Prop :=
  ∃ (key : ServiceKey) (ports : List Str) (port : Str), w.svcPortMap.lookup key = some ports ∧ port ∈ ports ∧
    n.neg md5 ⟨key.namespaced,key.name,port⟩ = some name

theorem mem_namesInUse {w : Manager} {used : List Str} (hused : namesInUse n md5 w.svcPortMap = some used) {name : Str} :
    name ∈ used ↔ Wanted n md5 w name := by
  rw [mem_mapM_iff hused]
  constructor
  · rintro ⟨f,hf,hname⟩
    obtain ⟨⟨key,ports⟩,hentry,hf⟩ := List.mem_flatMap.mp hf
    obtain ⟨port,hport,rfl⟩ := List.mem_map.mp hf
    exact ⟨key,ports,port,AList.mem_lookup_iff.mpr hentry,hport,hname⟩
  · rintro ⟨key,ports,port,hports,hport,hname⟩
    exact ⟨_,List.mem_flatMap.mpr ⟨⟨key,ports⟩,AList.mem_lookup_iff.mp hports,List.mem_map_of_mem hport⟩,hname⟩

theorem Wanted.kept {w : Manager} {name : Str} (hname : Wanted n md5 w name) (o : Iteration Str)
    (aggregated : Except GoError ZoneNEGList) (cloud : Groups) (zone : Str) :
    (garbageCollectNEG n md5 o aggregated w cloud).2.items (name,zone) = cloud.items (name,zone) := by
  refine respects_garbageCollectNEG n md5 (fun k => k.1 ≠ name) o aggregated w ?_ cloud (name,zone)
    (fun h => h rfl)
  rintro used hused name' _ hunused _ rfl
  exact hunused ((mem_namesInUse n md5 hused).mpr hname)

/-- A get fails only if there is no NEG. -/
def FindsGroup (w : Groups) (p : Str × Str) : Prop :=
  ∀ e, (getNetworkEndpointGroup p.2 p.1 w).1 = .error e → w.items p.swap = none

theorem deleteAt_served {w : Groups} (p : Str × Str) :
    Ensures (deleteAt p) w (fun r w' => w'.faults = w.faults ∧
      (FindsGroup w p → r = .ok () → w'.items = Function.update w.items p.swap none)) := by
  rw [deleteAt,ensures_mapFailure,ensureDeleteNetworkEndpointGroup,ensures_bind,ensures_attempt]
  refine ((Store.onItem_served _).and (ensures_run _ w)).mono ?_
  rintro neg w₁ ⟨hget,hrun⟩
  have hsame : w₁.items = w.items := hget.unchanged
  cases neg with
  | error e =>
    rw [afterwards_ok,ensures_pure]
    refine ⟨hget.faults,fun hfinds _ => ?_⟩
    have habsent := hfinds e (congrArg Prod.fst hrun)
    rw [hsame,← habsent,Function.update_eq_self]
  | ok g =>
    rw [afterwards_ok]
    refine (Store.onItem_served _).mono ?_
    intro r w' hdelete
    refine ⟨hdelete.faults.trans hget.faults,fun _ hr => ?_⟩
    cases r with
    | error e => cases hr
    | ok a =>
      obtain ⟨_,_,_,hitems⟩ := hdelete.answer a rfl
      rw [hitems,hsame]
      rfl

theorem findsGroup_of_reliable {w : Groups} (h : w.Reliable) (p : Str × Str) : FindsGroup w p := by
  intro e he
  cases hitem : w.items p.swap with
  | none => rfl
  | some g =>
    have hserved : Ensures (getNetworkEndpointGroup p.2 p.1) w _ := Store.onItem_served _
    have hok := hserved.reliable h g hitem
    rw [he] at hok
    cases hok

def swept (ps : List (Str × Str)) (items : Str × Str → Option Group) : Str × Str → Option Group :=
  fun k => if k.swap ∈ ps then none else items k

theorem swept_cons (p : Str × Str) (rest : List (Str × Str)) (items : Str × Str → Option Group) :
    swept (p :: rest) items = swept rest (Function.update items p.swap none) := by
  funext k
  by_cases hk : k = p.swap
  · subst hk
    simp [swept]
  · have hne : k.swap ≠ p := fun h => hk (by rw [← h,Prod.swap_swap])
    simp [swept,hne,Function.update_of_ne hk]

theorem forEach_deleteAt {ps : List (Str × Str)} {cloud : Groups}
    (h : Runs.Along (fun w p => (deleteAt p w).2) FindsGroup cloud ps) :
    Ensures (forEach deleteAt ps) cloud (fun r w => r = .ok () → w.items = swept ps cloud.items) := by
  -- What is left of the loop makes of the state what the whole makes of the first state.
  refine (forEach_rule deleteAt (fun rest w => Runs.Along (fun w p => (deleteAt p w).2) FindsGroup w rest ∧
    swept rest w.items = swept ps cloud.items) (fun _ => True) ?_ ps ⟨h,rfl⟩).mono ?_
  · rintro p rest w ⟨⟨hfinds,hrest⟩,hswept⟩
    refine ((deleteAt_served p).and (ensures_run _ w)).mono ?_
    rintro r w' ⟨⟨_,hitems⟩,hrun⟩
    have hnext : (deleteAt p w).2 = w' := congrArg Prod.snd hrun
    refine ⟨fun hr => ⟨?_,?_⟩,fun _ _ => trivial⟩
    · rwa [← hnext]
    · rw [hitems hfinds hr,← swept_cons,hswept]
  · rintro r w ⟨hok,_⟩ hr
    rw [← (hok hr).2]
    rfl

/-- A zone that is listed is listed with all of its NEGs. -/
def ListsGroups (zoneNEGList : ZoneNEGList) (cloud : Groups) : Prop :=
  ∀ zone names, zoneNEGList.lookup zone = some names → ∀ name, cloud.items (name,zone) ≠ none → name ∈ names

/-- Whenever the collection gets a NEG that exists, it is told so. -/
def FindsAll (o : Iteration Str) (zoneNEGList : ZoneNEGList) (w : Manager) (cloud : Groups) : Prop :=
  ∀ used, namesInUse n md5 w.svcPortMap = some used →
    Runs.Along (fun cloud p => (deleteAt p cloud).2) FindsGroup cloud (sweep n o zoneNEGList used)

theorem findsAll_of_reliable {cloud : Groups} (h : cloud.Reliable) (o : Iteration Str) (zoneNEGList : ZoneNEGList)
    (w : Manager) : FindsAll n md5 o zoneNEGList w cloud := by
  intro used _
  have htrue : Runs.Along (fun cloud p => (deleteAt p cloud).2) (fun _ _ => True) cloud (sweep n o zoneNEGList used) :=
    Runs.along_of_forall (fun _ _ _ => trivial) cloud
  refine htrue.strengthen ?_ h
  intro cloud p hreliable _
  exact ⟨hreliable.of_faults (deleteAt_served p).1,findsGroup_of_reliable hreliable p⟩

/-- The NEG is of a listed zone, looks like one of the cluster, and no port on record needs it. -/
def Unneeded (zoneNEGList : ZoneNEGList) (w : Manager) (name zone : Str) : Prop :=
  zone ∈ zoneNEGList ∧ n.isNEG name = true ∧ ¬Wanted n md5 w name

/-- However the collection ends, the NEGs that are needed are kept. If it returns, it has
deleted exactly those that are not. -/
theorem garbageCollectNEG_exact (o : Iteration Str) (aggregated : Except GoError ZoneNEGList) (w : Manager) (cloud : Groups) :
    Ensures (garbageCollectNEG n md5 o aggregated w) cloud (fun r cloud' =>
      (∀ name, Wanted n md5 w name → ∀ zone, cloud'.items (name,zone) = cloud.items (name,zone)) ∧
      (r = .ok () → ∃ zoneNEGList, aggregated = .ok zoneNEGList ∧
        (ListsGroups zoneNEGList cloud → FindsAll n md5 o zoneNEGList w cloud → ∀ name zone,
          (Unneeded n md5 zoneNEGList w name zone → cloud'.items (name,zone) = none) ∧
          (¬Unneeded n md5 zoneNEGList w name zone → cloud'.items (name,zone) = cloud.items (name,zone))))) := by
  refine Ensures.and (fun name hname zone => hname.kept n md5 o aggregated cloud zone) ?_
  cases aggregated with
  | error e => exact nofun
  | ok zoneNEGList =>
    cases hused : namesInUse n md5 w.svcPortMap with
    | none =>
      unfold garbageCollectNEG
      rw [hused]
      exact nofun
    | some used =>
      rw [garbageCollectNEG_eq n md5 hused]
      intro hr
      refine ⟨zoneNEGList,rfl,fun hlists hfinds name zone => ?_⟩
      have hitem : (forEach deleteAt (sweep n o zoneNEGList used) cloud).2.items (name,zone) =
          if (zone,name) ∈ sweep n o zoneNEGList used then none else cloud.items (name,zone) :=
        congrFun (forEach_deleteAt (hfinds used hused) hr) (name,zone)
      have hmem : (zone,name) ∈ sweep n o zoneNEGList used ↔ zone ∈ zoneNEGList ∧
          (∃ list ∈ zoneNEGList.entries, name ∈ list.2) ∧ n.isNEG name = true ∧ ¬Wanted n md5 w name := by
        rw [mem_sweep,mem_namesInUse n md5 hused]
      constructor
      · rintro ⟨hzone,hseen,hunwanted⟩
        -- A NEG that exists is in the list, so that the sweep meets it.
        by_cases hexists : cloud.items (name,zone) = none
        · rw [hitem,hexists,ite_self]
        · obtain ⟨names,hnames⟩ := Option.isSome_iff_exists.mp (AList.lookup_isSome.mpr hzone)
          have hlisted := hlists zone names hnames name hexists
          rw [hitem,if_pos (hmem.mpr ⟨hzone,⟨_,AList.mem_lookup_iff.mp hnames,hlisted⟩,hseen,hunwanted⟩)]
      · intro hneeded
        rw [hitem,if_neg fun h => hneeded ⟨(hmem.mp h).1,(hmem.mp h).2.2⟩]

/-- Two zones. The NEG `web` is in both, the NEG `api` and one of someone else in one of them. -/
def twoZones : Groups where
  items k := if k ∈ [("k8s1-uid-default-web-80-defaultw".toList,"zone-a".toList),
      ("k8s1-uid-default-web-80-defaultw".toList,"zone-b".toList),
      ("k8s1-uid-default-api-80-defaulta".toList,"zone-b".toList),("mine".toList,"zone-a".toList)]
    then some ⟨[],[],[]⟩ else none
  faults _ := none
  clock := 0

def twoZonesList : ZoneNEGList :=
  (AList.singleton "zone-a".toList ["k8s1-uid-default-web-80-defaultw".toList,"mine".toList]).insert
    "zone-b".toList ["k8s1-uid-default-web-80-defaultw".toList,"k8s1-uid-default-api-80-defaulta".toList]

def onlyWeb : Manager :=
  { newSyncerManager with
    svcPortMap := AList.singleton ⟨"default".toList,"web".toList⟩ ["80".toList] }

theorem twoZonesList_lists : ListsGroups twoZonesList twoZones := by
  intro zone names hnames name hexists
  have hmem := hexists
  simp only [twoZones,ne_eq,ite_eq_right_iff,reduceCtorEq,imp_false,not_not,List.mem_cons,Prod.mk.injEq,
    List.not_mem_nil,or_false] at hmem
  rcases hmem with ⟨rfl,rfl⟩ | ⟨rfl,rfl⟩ | ⟨rfl,rfl⟩ | ⟨rfl,rfl⟩ <;>
  · obtain rfl := Option.some.inj hnames
    decide

/-- The collection deletes the NEG `api`. It keeps `web`, which is needed, and the NEG of someone else. -/
theorem garbageCollectNEG_twoZones :
    Ensures (garbageCollectNEG (Namer.setUID "uid".toList) Namer.paddedText .inOrder (.ok twoZonesList) onlyWeb) twoZones
      (fun r cloud' => r = .ok () ∧ cloud'.items ("k8s1-uid-default-api-80-defaulta".toList,"zone-b".toList) = none ∧
        (∀ zone, cloud'.items ("k8s1-uid-default-web-80-defaultw".toList,zone) =
          twoZones.items ("k8s1-uid-default-web-80-defaultw".toList,zone)) ∧
        ∀ zone, cloud'.items ("mine".toList,zone) = twoZones.items ("mine".toList,zone)) := by
  have hok : (garbageCollectNEG (Namer.setUID "uid".toList) Namer.paddedText .inOrder (.ok twoZonesList) onlyWeb
      twoZones).1 = .ok () := by decide +kernel
  have hused : namesInUse (Namer.setUID "uid".toList) Namer.paddedText onlyWeb.svcPortMap =
      some ["k8s1-uid-default-web-80-defaultw".toList] := by decide
  obtain ⟨hkept,hexact⟩ := garbageCollectNEG_exact (Namer.setUID "uid".toList) Namer.paddedText .inOrder
    (.ok twoZonesList) onlyWeb twoZones
  obtain ⟨_,hlist,hitems⟩ := hexact hok
  obtain rfl := Except.ok.inj hlist
  have hfinds : FindsAll (Namer.setUID "uid".toList) Namer.paddedText .inOrder twoZonesList onlyWeb twoZones :=
    findsAll_of_reliable _ _ (fun _ => rfl) .inOrder twoZonesList onlyWeb
  have hitems := hitems twoZonesList_lists hfinds
  refine ⟨hok,(hitems _ _).1 ⟨by decide,by decide,?_⟩,hkept _ ?_,fun zone => (hitems _ zone).2 ?_⟩
  · rw [← mem_namesInUse _ _ hused]
    decide
  · exact (mem_namesInUse _ _ hused).mp List.mem_cons_self
  · rintro ⟨_,hseen,_⟩
    revert hseen
    decide

/-- The cluster `u` does not take the NEG that `v` has for a service port for its own, and
no collection by `u` touches it. -/
def Spares (u v : Namer) (f : NEGFields) : Prop :=
  ∀ name, v.neg md5 f = some name → u.isNEG name = false ∧ ∀ (o : Iteration Str)
    (aggregated : Except GoError ZoneNEGList) (w : Manager) (cloud : Groups) (zone : Str),
    (garbageCollectNEG u md5 o aggregated w cloud).2.items (name,zone) = cloud.items (name,zone)

/-- A NEG of another cluster is spared unless the UID of this cluster covers its name. -/
theorem spares_iff (u v : Namer) (f : NEGFields) : Spares md5 u v f ↔ ¬u.Covers v md5 f := by
  constructor
  · rintro h ⟨label,hlabel,hcovers⟩
    have hname : v.neg md5 f = some (v.negPrefix ++ '-' :: (label ++ '-' :: negSuffix md5 f)) := by
      rw [Namer.neg,hlabel,Option.map_some]
    have hseen := (Namer.isNEG_neg_iff hname).mpr ⟨label,hlabel,hcovers⟩
    rw [(h _ hname).1] at hseen
    cases hseen
  · intro h name hname
    have hunseen : ¬u.isNEG name = true := fun hseen => h ((Namer.isNEG_neg_iff hname).mp hseen)
    refine ⟨Bool.eq_false_iff.mpr hunseen,?_⟩
    intro o aggregated w cloud zone
    exact respects_garbageCollectNEG u md5 (fun k => u.isNEG k.1 = true) o aggregated w
      (fun _ _ _ hseen _ _ => hseen) cloud (name,zone) hunseen

/-- A cluster with the UID `prod` deletes a NEG that the cluster `prod-eu` needs. -/
theorem foreign_neg_deleted : ∃ (u v : Namer) (f : NEGFields) (name zone : Str) (cloud : Groups),
    u.clusterName ≠ v.clusterName ∧ v.neg Namer.paddedText f = some name ∧ u.isNEG name = true ∧
    (cloud.items (name,zone)).isSome ∧
    ((garbageCollectNEG u Namer.paddedText .inOrder (.ok (AList.singleton zone [name])) newSyncerManager cloud).1 =
      .ok ()) ∧
    ((garbageCollectNEG u Namer.paddedText .inOrder (.ok (AList.singleton zone [name])) newSyncerManager cloud).2.items
      (name,zone)).isNone :=
  ⟨Namer.setUID "prod".toList,Namer.setUID "prod-eu".toList,⟨"default".toList,"web".toList,"80".toList⟩,
    "k8s1-prod-eu-default-web-80-defaultw".toList,"zone-a".toList,⟨fun _ => some ⟨[],[],[]⟩,fun _ => none,0⟩,
    by decide,by decide,by decide,by decide,by decide +kernel,by decide +kernel⟩

end IngressGce.NEG
