import IngressGce.Instances.Pool

/-! # Which instances a sync leaves in the groups

The sync takes the difference between the instances of a group and the ready nodes, but
removes an instance only if the translator finds the zone of its node, and from the group
of that zone only. The translator finds the zones of ready nodes. An instance whose node
is gone or not ready is therefore never removed.
-/
namespace IngressGce
open Prog

namespace NodeStore
variable {s : NodeStore} {name : NodeName} {zone : Str}

theorem mem_ready {n : Node} : n ∈ s.ready ↔ n ∈ s.nodes ∧ getNodeReadyPredicate n = true := List.mem_filter

theorem eq_of_name {n n' : Node} (hn : n ∈ s.nodes) (hn' : n' ∈ s.nodes) (h : n.name = n'.name) : n = n' :=
  List.inj_on_of_nodup_map s.distinct hn hn' h

theorem getZoneForNode_eq_ok : s.getZoneForNode name = .ok zone ↔ ∃ n ∈ s.ready, n.name = name ∧ getZone n = zone := by
  unfold getZoneForNode
  constructor
  · intro h
    split at h
    · rename_i n hfind
      exact ⟨n,List.mem_of_find?_eq_some hfind,by simpa using List.find?_some hfind,Except.ok.inj h⟩
    · cases h
  · rintro ⟨n,hn,rfl,rfl⟩
    split
    · rename_i n' hfind
      have hname : n'.name = n.name := by simpa using List.find?_some hfind
      have hready := List.mem_of_find?_eq_some hfind
      rw [eq_of_name (mem_ready.mp hready).1 (mem_ready.mp hn).1 hname]
    · rename_i hfind
      have hnot := List.find?_eq_none.mp hfind n hn
      simp at hnot

theorem mem_listZones : zone ∈ s.listZones ↔ ∃ n ∈ s.ready, getZone n = zone := by
  simp [listZones]

theorem listed_of_found (h : s.getZoneForNode name = .ok zone) : zone ∈ s.listZones := by
  obtain ⟨n,hn,_,hzone⟩ := getZoneForNode_eq_ok.mp h
  exact mem_listZones.mpr ⟨n,hn,hzone⟩

theorem mem_getReadyNodeNames : name ∈ s.getReadyNodeNames ↔
    ∃ n ∈ s.ready, n.name = name ∧ n.unschedulable = false := by
  simp only [getReadyNodeNames,List.mem_map,List.mem_filter,Bool.not_eq_true']
  constructor
  · rintro ⟨n,⟨hn,hsched⟩,hname⟩
    exact ⟨n,hn,hname,hsched⟩
  · rintro ⟨n,hn,hname,hsched⟩
    exact ⟨n,⟨hn,hsched⟩,hname⟩

end NodeStore

namespace Instances
variable {i : Instances} {group : Str} {w w' : InstanceGroups}

theorem instanceOf_link (links : InstanceLinks) (zone : Str) (name : NodeName) : instanceOf (links.link zone name) = name :=
  Subtype.ext (links.link_name zone name)

theorem map_instanceOf (zone : Str) (names : List NodeName) :
    (i.toInstanceReferences zone names).map instanceOf = names := by
  induction names with
  | nil => rfl
  | cons name rest ih => exact List.cons_eq_cons.mpr ⟨instanceOf_link i.links zone name,ih⟩

theorem mem_addToZone {m : ListMap Str NodeName} {name first : NodeName} {zone : Str} :
    name ∈ (i.addToZone m first).at zone ↔
      name ∈ m.at zone ∨ (name = first ∧ i.zoneLister.getZoneForNode name = .ok zone) := by
  unfold addToZone
  cases hfirst : i.zoneLister.getZoneForNode first with
  | error e =>
    constructor
    · exact Or.inl
    · rintro (h | ⟨rfl,h⟩)
      · exact h
      · rw [hfirst] at h
        cases h
  | ok z =>
    rw [ListMap.at_insert]
    by_cases hz : zone = z
    · subst hz
      rw [if_pos rfl,List.mem_append,List.mem_singleton]
      constructor
      · rintro (h | rfl)
        · exact Or.inl h
        · exact Or.inr ⟨rfl,hfirst⟩
      · exact Or.imp_right And.left
    · rw [if_neg hz]
      constructor
      · exact Or.inl
      · rintro (h | ⟨rfl,h⟩)
        · exact h
        · rw [hfirst] at h
          exact absurd (Except.ok.inj h).symm hz

theorem mem_splitNodesByZone {names : List NodeName} {name : NodeName} {zone : Str} :
    name ∈ (i.splitNodesByZone names).at zone ↔ name ∈ names ∧ i.zoneLister.getZoneForNode name = .ok zone := by
  have hfold : ∀ (names : List NodeName) (m : ListMap Str NodeName), name ∈ ListMap.at (names.foldl i.addToZone m) zone ↔
      name ∈ m.at zone ∨ (name ∈ names ∧ i.zoneLister.getZoneForNode name = .ok zone) := by
    intro names
    induction names with
    | nil => simp
    | cons first rest ih =>
      intro m
      rw [List.foldl_cons,ih,mem_addToZone,List.mem_cons,or_and_right,or_assoc]
  simpa [splitNodesByZone] using hfold names ∅

theorem listed_of_mem_split {names : List NodeName} {zone : Str} (h : zone ∈ i.splitNodesByZone names) :
    zone ∈ i.zoneLister.listZones := by
  have hfold : ∀ (names : List NodeName) (m : ListMap Str NodeName), (∀ z ∈ m, z ∈ i.zoneLister.listZones) →
      ∀ z ∈ names.foldl i.addToZone m, z ∈ i.zoneLister.listZones := by
    intro names
    induction names with
    | nil => exact fun m hm => hm
    | cons name rest ih =>
      intro m hm
      apply ih
      intro z hz
      unfold addToZone at hz
      split at hz
      · exact hm z hz
      · rename_i zone' hfound
        rcases AList.mem_insert m |>.mp hz with rfl | hz
        · exact NodeStore.listed_of_found hfound
        · exact hm z hz
  exact hfold names ∅ (fun z hz => absurd hz (AList.notMem_empty z)) zone h

/-- The instances of a group in a zone. -/
def members (w : InstanceGroups) (group zone : Str) : List NodeName := (w.items (group,zone)).getD []

/-- The group exists in every zone. -/
def Present (zones : List Str) (group : Str) (w : InstanceGroups) : Prop :=
  ∀ zone ∈ zones, ∃ names, w.items (group,zone) = some names

/-- The name is in the group in some zone that is listed. -/
def InGroup (i : Instances) (w : InstanceGroups) (group : Str) (name : NodeName) : Prop :=
  ∃ zone ∈ i.zoneLister.listZones, name ∈ members w group zone

theorem Present.of_items {zones : List Str} (hp : Present zones group w) (h : w'.items = w.items) :
    Present zones group w' := by
  intro zone hzone
  rw [h]
  exact hp zone hzone

theorem mem_insertAll {links : List Str} {names : List NodeName} {name : NodeName} :
    name ∈ links.foldl (fun names link => names.insert (instanceOf link)) names ↔
      name ∈ names ∨ ∃ link ∈ links, instanceOf link = name := by
  induction links generalizing names with
  | nil => simp
  | cons link rest ih =>
    rw [List.foldl_cons,ih,List.mem_insert_iff]
    simp only [List.mem_cons,exists_eq_or_imp,eq_comm (a := name)]
    tauto

theorem list_spec (zones : List Str) (nodeNames : List NodeName) (hw : w.Reliable) (hp : Present zones group w) :
    Returns (i.listZonesOf group zones nodeNames) w (fun names w' => w'.faults = w.faults ∧ w'.items = w.items ∧
      ∀ name, name ∈ names ↔ name ∈ nodeNames ∨ ∃ zone ∈ zones, name ∈ members w group zone) := by
  induction zones generalizing nodeNames w with
  | nil => simp [listZonesOf]
  | cons zone rest ih =>
    obtain ⟨names,hnames⟩ := hp zone List.mem_cons_self
    have hmembers : members w group zone = names := by simp [members,hnames]
    rw [listZonesOf,returns_bind]
    refine (Store.onItem_reads hw hnames).mono ?_
    rintro links w₁ ⟨hfaults,rfl,hitems⟩
    have hrest : Present rest group w₁ :=
      Present.of_items (fun z hz => hp z (List.mem_cons_of_mem _ hz)) hitems
    refine (ih _ (hw.of_faults hfaults) hrest).mono ?_
    rintro names' w₂ ⟨hfaults',hitems',hmem⟩
    refine ⟨hfaults'.trans hfaults,hitems'.trans hitems,?_⟩
    intro name
    have hlinked : (∃ link ∈ names.map (i.links.link zone), instanceOf link = name) ↔ name ∈ names := by
      have hmap := map_instanceOf (i := i) zone names
      rw [← List.mem_map]
      exact iff_of_eq (congrArg (name ∈ ·) hmap)
    have hsame : ∀ z, members w₁ group z = members w group z := fun z => by rw [members,hitems,members]
    rw [hmem,mem_insertAll,hlinked]
    simp only [List.mem_cons,exists_eq_or_imp,hmembers,hsame,or_assoc]

/-- The instances of the names whose zones are found are added or removed in these
zones, and nothing else changes. -/
structure Moved (i : Instances) (op : SetOp) (names : List NodeName) (group : Str) (w w' : InstanceGroups) : Prop where
  faults : w'.faults = w.faults
  others : ∀ k, k.1 ≠ group → w'.items k = w.items k
  present : ∀ zones, Present zones group w → Present zones group w'
  mem_members : ∀ zone name, name ∈ members w' group zone ↔
    (op = .union ∧ name ∈ names ∧ i.zoneLister.getZoneForNode name = .ok zone) ∨
    (name ∈ members w group zone ∧
      ¬(op = .difference ∧ name ∈ names ∧ i.zoneLister.getZoneForNode name = .ok zone))

/-- After the calls for some of the zones. -/
structure Moving (op : SetOp) (group : Str) (done : List (Sigma fun _ : Str => List NodeName))
    (w w' : InstanceGroups) : Prop where
  faults : w'.faults = w.faults
  others : ∀ k, k.1 ≠ group → w'.items k = w.items k
  present : ∀ zones, Present zones group w → Present zones group w'
  members : members w' group = (ListMap.updates op done).foldl SetUpdate.apply (members w group)

theorem Moving.step {op : SetOp} {done : List (Sigma fun _ : Str => List NodeName)} {w₁ : InstanceGroups}
    (h : Moving op group done w w₁) (hw : w.Reliable) {zone : Str} (names : List NodeName)
    (hzone : ∃ old, w.items (group,zone) = some old) :
    Returns (changeInstances group zone op (i.toInstanceReferences zone names)) w₁
      (fun _ w₂ => Moving op group (done ++ [⟨zone,names⟩]) w w₂) := by
  obtain ⟨old,hold⟩ := h.present [zone] (fun z hz => List.mem_singleton.mp hz ▸ hzone) zone List.mem_cons_self
  refine (Store.onItem_returns (hw.of_faults h.faults) hold).mono ?_
  rintro _ w₂ ⟨hfaults,_,hitems⟩
  rw [map_instanceOf] at hitems
  refine ⟨hfaults.trans h.faults,?_,?_,?_⟩
  · intro k hk
    rw [hitems,Function.update_of_ne (fun heq => hk (by rw [heq])),h.others k hk]
  · intro zones hp z hz
    by_cases heq : z = zone
    · exact ⟨_,by rw [hitems,heq,Function.update_self]⟩
    · obtain ⟨old',hold'⟩ := h.present zones hp z hz
      exact ⟨old',by rw [hitems,Function.update_of_ne (fun h => heq (Prod.mk.inj h).2),hold']⟩
  · have hupdate : ListMap.updates op (done ++ [⟨zone,names⟩]) = ListMap.updates op done ++ [⟨op,zone,names⟩] := by
      simp [ListMap.updates]
    rw [hupdate,List.foldl_append,← h.members]
    funext z
    by_cases hz : z = zone
    · subst hz
      simp [Instances.members,SetUpdate.apply,hitems,hold]
    · have hne : (group,z) ≠ (group,zone) := fun heq => hz (Prod.mk.inj heq).2
      simp [Instances.members,SetUpdate.apply,hitems,hz]

theorem joined_nil : Returns (joined []) w (fun _ w' => w' = w) := by
  simp [joined]

theorem forZones_moved (op : SetOp) (o : Iteration (Sigma fun _ : Str => List NodeName)) (names : List NodeName)
    (hw : w.Reliable) (hp : Present i.zoneLister.listZones group w) :
    Returns (i.forZones o (fun zone nodeNames =>
      changeInstances group zone op (i.toInstanceReferences zone nodeNames)) names) w
      (fun _ w' => Moved i op names group w w') := by
  obtain ⟨hnodup,hlists⟩ := ListMap.listOf_range o (i.splitNodesByZone names)
  have hzones : ∀ entry ∈ o.range (i.splitNodesByZone names).entries, entry.1 ∈ i.zoneLister.listZones := by
    intro entry hentry
    refine listed_of_mem_split (?_ : entry.1 ∈ i.splitNodesByZone names)
    exact List.mem_keys_of_mem (Iteration.mem_range.mp hentry)
  have hstart : ([] : List GoError) = [] ∧ ∃ done, done ++ o.range (i.splitNodesByZone names).entries =
      o.range (i.splitNodesByZone names).entries ∧ Moving op group done w w :=
    ⟨rfl,[],rfl,rfl,fun _ _ => rfl,fun _ h => h,rfl⟩
  rw [forZones,returns_bind]
  refine (returns_collect _ (fun rest errs w' => errs = [] ∧ ∃ done, done ++ rest =
    o.range (i.splitNodesByZone names).entries ∧ Moving op group done w w') ?_ _ hstart).mono ?_
  · rintro ⟨zone,nodeNames⟩ rest errs w₁ ⟨rfl,done,hdone,hmoving⟩
    have hzone : zone ∈ i.zoneLister.listZones := hzones ⟨zone,nodeNames⟩ (by simp [← hdone])
    rw [returns_bind,returns_attempt]
    refine Ensures.mono (hmoving.step hw nodeNames (hp zone hzone)) ?_
    rintro r w₂ ⟨_,rfl,hmoving'⟩
    rw [returns_pure]
    exact ⟨rfl,_,by simpa using hdone,hmoving'⟩
  · rintro errs w₁ ⟨herrs,done,hdone,hmoving⟩
    obtain rfl : errs = [] := herrs
    obtain rfl : done = o.range (i.splitNodesByZone names).entries := by simpa using hdone
    refine joined_nil.mono ?_
    rintro _ w' rfl
    refine ⟨hmoving.faults,hmoving.others,hmoving.present,?_⟩
    intro zone name
    rw [hmoving.members,SetUpdate.mem_foldl_apply (ListMap.apart_updates op hnodup),
      ListMap.mentioned_updates hnodup,ListMap.mentioned_updates hnodup,hlists]
    cases op with
    | union => simp [mem_splitNodesByZone]
    | difference => simp [mem_splitNodesByZone]

theorem moved_nil {op : SetOp} : Moved i op [] group w w where
  faults := rfl
  others _ _ := rfl
  present _ h := h
  mem_members := by simp

theorem onlyIf_moved {op : SetOp} {names : List NodeName} {m : InstancesM Unit}
    (h : Returns m w (fun _ w' => Moved i op names group w w')) :
    Returns (onlyIf (names ≠ []) m) w (fun _ w' => Moved i op names group w w') := by
  unfold onlyIf
  split
  · exact h
  · rename_i hnil
    obtain rfl : names = [] := by simpa using hnil
    rw [returns_pure]
    exact moved_nil

/-- What a sync does to one group. -/
structure Synced (i : Instances) (nodes : List NodeName) (group : Str) (w w' : InstanceGroups) : Prop where
  faults : w'.faults = w.faults
  others : ∀ k, k.1 ≠ group → w'.items k = w.items k
  mem_members : ∀ zone name, name ∈ members w' group zone ↔
    (name ∈ nodes ∧ ¬InGroup i w group name ∧ i.zoneLister.getZoneForNode name = .ok zone) ∨
    (name ∈ members w group zone ∧
      ¬(InGroup i w group name ∧ name ∉ nodes ∧ i.zoneLister.getZoneForNode name = .ok zone))

theorem syncGroup_synced (o : Iteration (Sigma fun _ : Str => List NodeName)) (nodes : List NodeName)
    (hw : w.Reliable) (hp : Present i.zoneLister.listZones group w) :
    Returns (i.syncGroup o nodes group) w (fun _ w' => Synced i nodes group w w') := by
  rw [syncGroup,returns_bind]
  refine (list_spec _ [] hw hp).mono ?_
  rintro gceNodes w₁ ⟨hfaults,hitems,hgce⟩
  have hw₁ := hw.of_faults hfaults
  have hp₁ := hp.of_items hitems
  rw [returns_bind]
  refine (onlyIf_moved (forZones_moved .difference o _ hw₁ hp₁)).mono ?_
  intro _ w₂ hremoved
  refine (onlyIf_moved (forZones_moved .union o _ (hw₁.of_faults hremoved.faults) (hremoved.present _ hp₁))).mono ?_
  intro _ w₃ hadded
  have hsame : members w₁ group = members w group := by
    funext z
    simp only [members,hitems]
  refine ⟨hadded.faults.trans (hremoved.faults.trans hfaults),?_,?_⟩
  · intro k hk
    rw [hadded.others k hk,hremoved.others k hk,hitems]
  · intro zone name
    have hgce' : name ∈ gceNodes ↔ InGroup i w group name := by
      rw [hgce,InGroup]
      simp
    rw [hadded.mem_members,hremoved.mem_members,hsame]
    simp only [difference,List.mem_insertionSort,List.mem_filter,List.mem_dedup,hgce',decide_eq_true_eq,reduceCtorEq,false_and,true_and,
      not_false_eq_true,and_true,false_or,and_assoc]

/-- The loop over the groups, of which `rest` are still to come. -/
structure Syncing (i : Instances) (nodes : List NodeName) (w : InstanceGroups) (rest : List Str)
    (w' : InstanceGroups) : Prop where
  faults : w'.faults = w.faults
  nodup : rest.Nodup
  ahead : ∀ group ∈ rest, ∀ zone, w'.items (group,zone) = w.items (group,zone)
  done : ∀ group ∈ i.snapshotter, group ∈ rest ∨ ∃ w₁ w₂, Synced i nodes group w₁ w₂ ∧
    (∀ zone, w₁.items (group,zone) = w.items (group,zone)) ∧ ∀ zone, w'.items (group,zone) = w₂.items (group,zone)

theorem Syncing.step {nodes : List NodeName} {rest : List Str} {w₁ : InstanceGroups}
    (h : Syncing i nodes w (group :: rest) w₁) (o : Iteration (Sigma fun _ : Str => List NodeName)) (hw : w.Reliable)
    (hp : Present i.zoneLister.listZones group w) :
    Returns (i.syncGroup o nodes group) w₁ (fun _ w₂ => Syncing i nodes w rest w₂) := by
  obtain ⟨hgroup,hnodup⟩ := List.nodup_cons.mp h.nodup
  have hp₁ : Present i.zoneLister.listZones group w₁ := by
    intro zone hzone
    rw [h.ahead group List.mem_cons_self]
    exact hp zone hzone
  refine (syncGroup_synced o nodes (hw.of_faults h.faults) hp₁).mono ?_
  intro _ w₂ hsynced
  have hothers : ∀ group' zone, group' ≠ group → w₂.items (group',zone) = w₁.items (group',zone) :=
    fun group' zone hne => hsynced.others (group',zone) hne
  refine ⟨hsynced.faults.trans h.faults,hnodup,?_,?_⟩
  · intro group' hgroup' zone
    have hne : group' ≠ group := fun heq => hgroup (heq ▸ hgroup')
    rw [hothers group' zone hne,h.ahead group' (List.mem_cons_of_mem _ hgroup')]
  · intro group' hgroup'
    by_cases hne : group' = group
    · subst hne
      exact Or.inr ⟨w₁,w₂,hsynced,h.ahead group' List.mem_cons_self,fun _ => rfl⟩
    · rcases h.done group' hgroup' with hrest | ⟨w₃,w₄,hsynced',hbefore,hafter⟩
      · exact Or.inl ((List.mem_cons.mp hrest).resolve_left hne)
      · refine Or.inr ⟨w₃,w₄,hsynced',hbefore,?_⟩
        intro zone
        rw [hothers group' zone hne,hafter zone]

theorem sync_synced (o : Iteration (Sigma fun _ : Str => List NodeName)) (order : Iteration Str)
    (nodes : List NodeName) (hw : w.Reliable)
    (hp : ∀ group ∈ i.snapshotter, Present i.zoneLister.listZones group w) :
    Returns (i.sync o order nodes) w (fun _ w' => ∀ group ∈ i.snapshotter, ∃ w₁ w₂, Synced i nodes group w₁ w₂ ∧
      members w₁ group = members w group ∧ members w' group = members w₂ group) := by
  have hstart : Syncing i nodes w (order.range i.snapshotter.keys) w :=
    ⟨rfl,Iteration.nodup_range.mpr i.snapshotter.keys_nodup,fun _ _ _ => rfl,
      fun group hgroup => Or.inl (Iteration.mem_range.mpr hgroup)⟩
  have hloop : ∀ rest, (∀ group ∈ rest, group ∈ i.snapshotter) → ∀ w₁, Syncing i nodes w rest w₁ →
      Returns (forEach (i.syncGroup o nodes) rest) w₁ (fun _ w' => Syncing i nodes w [] w') := by
    intro rest
    induction rest with
    | nil =>
      intro _ w₁ h
      rw [forEach,returns_pure]
      exact h
    | cons group rest ih =>
      intro hmem w₁ h
      rw [forEach,returns_bind]
      refine (h.step o hw (hp group (hmem group List.mem_cons_self))).mono ?_
      intro _ w₂ h₂
      exact ih (fun g hg => hmem g (List.mem_cons_of_mem _ hg)) w₂ h₂
  refine ((hloop _ (fun group hgroup => Iteration.mem_range.mp hgroup) w hstart).mono ?_).rescue _
  intro _ w' hdone group hgroup
  obtain ⟨w₁,w₂,hsynced,hbefore,hafter⟩ := (hdone.done group hgroup).resolve_left (by simp)
  refine ⟨w₁,w₂,hsynced,?_,?_⟩
  · funext zone
    simp only [members,hbefore]
  · funext zone
    simp only [members,hafter]

/-- A node that is ready and can be scheduled on. -/
def ReadyNode (s : NodeStore) (name : NodeName) : Prop :=
  ∃ n ∈ s.nodes, n.name = name ∧ getNodeReadyPredicate n = true ∧ n.unschedulable = false

/-- Every instance of the group is to be kept, or the zone from which it is to be
removed can be found. -/
def Removable (i : Instances) (w : InstanceGroups) (group : Str) : Prop :=
  ∀ zone ∈ i.zoneLister.listZones, ∀ name ∈ members w group zone, ∃ n ∈ i.zoneLister.nodes,
    n.name = name ∧ getNodeReadyPredicate n = true ∧ (n.unschedulable = false ∨ getZone n = zone)

theorem readyNode_iff {s : NodeStore} {name : NodeName} : ReadyNode s name ↔ name ∈ s.getReadyNodeNames := by
  rw [NodeStore.mem_getReadyNodeNames]
  constructor
  · rintro ⟨n,hn,hname,hready,hsched⟩
    exact ⟨n,NodeStore.mem_ready.mpr ⟨hn,hready⟩,hname,hsched⟩
  · rintro ⟨n,hn,hname,hsched⟩
    exact ⟨n,(NodeStore.mem_ready.mp hn).1,hname,(NodeStore.mem_ready.mp hn).2,hsched⟩

/-- One group after a sync with the ready nodes. -/
theorem Synced.converged_iff (h : Synced i i.zoneLister.getReadyNodeNames group w w') :
    (∀ name, InGroup i w' group name ↔ ReadyNode i.zoneLister name) ↔ Removable i w group := by
  constructor
  · intro hconv zone hzone name hname
    by_cases hready : ReadyNode i.zoneLister name
    · obtain ⟨n,hn,hname,hready,hsched⟩ := hready
      exact ⟨n,hn,hname,hready,Or.inl hsched⟩
    · -- The instance is gone, and it can only have been removed from the zone of its node.
      have hgone : name ∉ members w' group zone := fun hin => hready ((hconv name).mp ⟨zone,hzone,hin⟩)
      have hremoved : i.zoneLister.getZoneForNode name = .ok zone := by
        by_contra hnot
        exact hgone ((h.mem_members zone name).mpr (Or.inr ⟨hname,fun hall => hnot hall.2.2⟩))
      obtain ⟨n,hn,hnname,hnzone⟩ := NodeStore.getZoneForNode_eq_ok.mp hremoved
      exact ⟨n,(NodeStore.mem_ready.mp hn).1,hnname,(NodeStore.mem_ready.mp hn).2,Or.inr hnzone⟩
  · intro hrem name
    constructor
    · rintro ⟨zone,hzone,hin⟩
      rcases (h.mem_members zone name).mp hin with ⟨hnode,_,_⟩ | ⟨hold,hkept⟩
      · exact readyNode_iff.mpr hnode
      · obtain ⟨n,hn,rfl,hready,hsched | hnzone⟩ := hrem zone hzone name hold
        · exact ⟨n,hn,rfl,hready,hsched⟩
        · by_contra hnot
          refine hkept ⟨⟨zone,hzone,hold⟩,fun hmem => hnot (readyNode_iff.mpr hmem),?_⟩
          exact NodeStore.getZoneForNode_eq_ok.mpr ⟨n,NodeStore.mem_ready.mpr ⟨hn,hready⟩,rfl,hnzone⟩
    · intro hready
      have hmem := readyNode_iff.mp hready
      by_cases hin : InGroup i w group name
      · obtain ⟨zone,hzone,hold⟩ := hin
        exact ⟨zone,hzone,(h.mem_members zone name).mpr (Or.inr ⟨hold,fun hall => hall.2.1 hmem⟩)⟩
      · obtain ⟨n,hn,rfl,hnready,_⟩ := hready
        have hfound : i.zoneLister.getZoneForNode n.name = .ok (getZone n) :=
          NodeStore.getZoneForNode_eq_ok.mpr ⟨n,NodeStore.mem_ready.mpr ⟨hn,hnready⟩,rfl,rfl⟩
        exact ⟨getZone n,NodeStore.listed_of_found hfound,
          (h.mem_members (getZone n) n.name).mpr (Or.inl ⟨hmem,hin,hfound⟩)⟩

/-- If no call fails the sync returns nil, and it leaves exactly the ready nodes in a
group if and only if every instance of the group was ready, or was cordoned and sat in
the zone of its node. -/
theorem sync_leaves_ready_iff (o : Iteration (Sigma fun _ : Str => List NodeName)) (order : Iteration Str)
    (hw : w.Reliable) (hp : ∀ group ∈ i.snapshotter, Present i.zoneLister.listZones group w) :
    Returns (i.sync o order i.zoneLister.getReadyNodeNames) w (fun _ w' => ∀ group ∈ i.snapshotter,
      (∀ name, InGroup i w' group name ↔ ReadyNode i.zoneLister name) ↔ Removable i w group) := by
  refine (sync_synced o order _ hw hp).mono ?_
  intro _ w' hsynced group hgroup
  obtain ⟨w₁,w₂,h,hbefore,hafter⟩ := hsynced group hgroup
  have hiff := h.converged_iff
  unfold InGroup Removable at hiff ⊢
  rwa [hbefore,← hafter] at hiff

def nodeNamed (name : Str) (h : '/' ∉ name) (status : ConditionStatus) : Node where
  name := ⟨name,h⟩
  zoneLabel := some "zone-a".toList
  conditions := [⟨.ready,status⟩]
  unschedulable := false

/-- Two nodes of one zone, the second of which has stopped being ready. -/
def oneReady : Instances where
  links := .byZone
  snapshotter := AList.singleton "k8s-ig".toList ()
  zoneLister := {
    nodes := [nodeNamed "node-1".toList (by decide) .isTrue,nodeNamed "node-2".toList (by decide) .isFalse]
    distinct := by decide }

/-- The group of the two nodes. -/
def groupWith (names : List NodeName) : InstanceGroups where
  items := fun k => if k = ("k8s-ig".toList,"zone-a".toList) then some names else none
  faults _ := none
  clock := 0

/-- The second node is ready, and cordoned. -/
def oneCordoned : Instances where
  links := .byZone
  snapshotter := AList.singleton "k8s-ig".toList ()
  zoneLister := {
    nodes := [nodeNamed "node-1".toList (by decide) .isTrue,
      { nodeNamed "node-2".toList (by decide) .isTrue with unschedulable := true }]
    distinct := by decide }

/-- The cordoned node leaves the group, and the other one comes in. -/
theorem sync_leaves_ready_oneCordoned :
    Returns (oneCordoned.sync .inOrder .inOrder oneCordoned.zoneLister.getReadyNodeNames)
      (groupWith [⟨"node-2".toList,by decide⟩]) (fun _ w' => ∀ group ∈ oneCordoned.snapshotter,
        ∀ name, InGroup oneCordoned w' group name ↔ ReadyNode oneCordoned.zoneLister name) := by
  have hpresent : ∀ group ∈ oneCordoned.snapshotter,
      Present oneCordoned.zoneLister.listZones group (groupWith [⟨"node-2".toList,by decide⟩]) := by
    intro group hgroup zone hzone
    obtain rfl : group = "k8s-ig".toList := List.mem_singleton.mp hgroup
    obtain rfl : zone = "zone-a".toList := List.mem_singleton.mp hzone
    exact ⟨_,rfl⟩
  refine (sync_leaves_ready_iff .inOrder .inOrder (fun _ => rfl) hpresent).mono ?_
  intro _ w' hiff group hgroup
  apply (hiff group hgroup).mpr
  obtain rfl : group = "k8s-ig".toList := List.mem_singleton.mp hgroup
  unfold Removable
  decide +kernel

/-- The node that is not ready stays in the group, though the sync returns nil. -/
theorem notReady_instance_stays :
    (oneReady.sync .inOrder .inOrder oneReady.zoneLister.getReadyNodeNames
      (groupWith [⟨"node-1".toList,by decide⟩,⟨"node-2".toList,by decide⟩])).1 = .ok () ∧
    ⟨"node-2".toList,by decide⟩ ∈ members (oneReady.sync .inOrder .inOrder oneReady.zoneLister.getReadyNodeNames
      (groupWith [⟨"node-1".toList,by decide⟩,⟨"node-2".toList,by decide⟩])).2 "k8s-ig".toList "zone-a".toList ∧
    "zone-a".toList ∈ oneReady.zoneLister.listZones ∧
    ∀ n ∈ oneReady.zoneLister.nodes, n.name.val = "node-2".toList → getNodeReadyPredicate n = false := by
  decide +kernel

end Instances
end IngressGce
