import IngressGce.Backends.Names
import IngressGce.Instances.Pool
import IngressGce.Program.MapLoops
import IngressGce.Program.Respects

/-! # Instance groups and their named ports

A backend service names the port that its instance groups serve it on. The groups are told
what the names mean: the pool reads the named ports of a group and writes them back with
those that are missing. No call adds to what the cloud has, the list is written as a whole.
-/
namespace IngressGce
open Prog

structure NamedPort where
  name : Str
  port : ℤ
  deriving DecidableEq

/-- An instance group as a read returns it. -/
structure NamedGroup where
  name : Str
  zone : Str
  namedPorts : List NamedPort
  deriving DecidableEq

/-- The named ports of the instance groups, by name and zone, and the names that the pool
has on record. -/
structure GroupPool where
  groups : Store (Str × Str) (List NamedPort)
  snapshotter : List Str

abbrev GroupM (α : Type) := Prog GroupPool GoError α

namespace GroupPool

def track (w : GroupPool) (name : Str) : GroupPool := { w with snapshotter := w.snapshotter.insert name }

def untrack (w : GroupPool) (name : Str) : GroupPool := { w with snapshotter := w.snapshotter.filter (· ≠ name) }

end GroupPool

namespace Instances

section Cloud
variable {α : Type} (name zone : Str)

def onGroups (m : Prog (Store (Str × Str) (List NamedPort)) GoError α) : GroupM α :=
  onPart GroupPool.groups (fun c w => { w with groups := c }) m

def getInstanceGroup : GroupM NamedGroup :=
  onGroups (Store.onItem (name,zone) (fun ports => ({ name, zone, namedPorts := ports },some ports)))

def createInstanceGroup : GroupM Unit := onGroups (Store.insert (name,zone) [])

def setNamedPortsOfInstanceGroup (ports : List NamedPort) : GroupM Unit :=
  onGroups (Store.onItem (name,zone) (fun _ => ((),some ports)))

def cloudDeleteInstanceGroup : GroupM Unit := onGroups (Store.onItem (name,zone) (fun _ => ((),none)))

end Cloud

def get (name zone : Str) : GroupM NamedGroup := do
  let ig ← getInstanceGroup name zone
  update (fun w => w.track name)
  pure ig

/-- That the group has been made by somebody else in the meantime is no error. -/
def tolerateConflict (m : GroupM Unit) : GroupM Unit :=
  rescue m (fun e => if isHTTPErrorCode e statusConflict then pure () else fail e)

/-- The group of a zone, which is made if it is not found. -/
def getOrCreate (name zone : Str) : GroupM NamedGroup := do
  match ← attempt (get name zone) with
  | .ok ig => pure ig
  | .error e =>
    if isHTTPErrorCode e statusNotFound then do
      tolerateConflict (createInstanceGroup name zone)
      getInstanceGroup name zone
    else fail e

/-- The ports that the group does not have, with their names. -/
def newNamedPorts (existing : List NamedPort) (ports : List ℤ) : List NamedPort :=
  (ports.filter (fun p => p ∉ existing.map NamedPort.port)).map (fun p => { name := Namer.namedPort p, port := p })

def ensureInstanceGroupAndPorts (name : Str) (ports : List ℤ) (zone : Str) : GroupM NamedGroup := do
  let ig ← getOrCreate name zone
  let new := newNamedPorts ig.namedPorts ports
  onlyIf (!new.isEmpty) (setNamedPortsOfInstanceGroup ig.name zone (ig.namedPorts ++ new))
  pure ig

/-- One group for each zone, until one fails. -/
def ensureZones (name : Str) (ports : List ℤ) (zones : List Str) : GroupM (List NamedGroup) :=
  Prog.collect (fun zone => do
    let ig ← ensureInstanceGroupAndPorts name ports zone
    pure [ig]) zones

/-- The name is put on record also when a zone fails. -/
def ensureInstanceGroupsAndPorts (listZones : Except GoError (List Str)) (name : Str) (ports : List ℤ) :
    GroupM (List NamedGroup) :=
  match listZones with
  | .error e => fail e
  | .ok zones => deferring (ensureZones name ports zones) (fun w => w.track name)

/-- The errors of a deletion that count. -/
def deletionErrors (isInUsedByError : GoError → Bool) (r : Except GoError Unit) : List GoError :=
  (errorOf r).filter (fun e => !(isHTTPErrorCode e statusNotFound || isInUsedByError e))

def deleteZones (isInUsedByError : GoError → Bool) (name : Str) : Except GoError (List Str) → GroupM Unit
  | .error e => fail e
  | .ok zones => do
    let errs ← Prog.collect (fun zone => do
      let r ← attempt (cloudDeleteInstanceGroup name zone)
      pure (deletionErrors isInUsedByError r)) zones
    joined errs

/-- Whatever becomes of the groups, their name is taken off the record. -/
def deleteInstanceGroup (isInUsedByError : GoError → Bool) (listZones : Except GoError (List Str)) (name : Str) : GroupM Unit :=
  deferring (deleteZones isInUsedByError name listZones) (fun w => w.untrack name)

end Instances

/-! ## What the named ports of a group may be -/

/-- The number is told from the name, and no number stands twice. -/
structure NamedPort.Proper (ports : List NamedPort) : Prop where
  named : ∀ np ∈ ports, np.name = Namer.namedPort np.port
  distinct : (ports.map NamedPort.port).Nodup

theorem Namer.namedPort_injective {p q : ℤ} (h : Namer.namedPort p = Namer.namedPort q) : p = q :=
  Decimal.itoa_injective (List.append_cancel_left h)

/-- Requests to the named port arrive at the port. -/
def NamedPort.Resolves (ports : List NamedPort) (p : ℤ) : Prop :=
  ports.filter (fun np => np.name = Namer.namedPort p) = [{ name := Namer.namedPort p, port := p }]

namespace Instances

/-- The list that is written for a group. -/
def withPorts (ports : List ℤ) (existing : List NamedPort) : List NamedPort := existing ++ newNamedPorts existing ports

section Lists
variable {existing : List NamedPort} {ports : List ℤ}

theorem port_newNamedPorts : (newNamedPorts existing ports).map NamedPort.port =
    ports.filter (fun p => p ∉ existing.map NamedPort.port) := by
  rw [newNamedPorts,List.map_map]
  exact List.map_id _

theorem mem_ports_withPorts {p : ℤ} : p ∈ (withPorts ports existing).map NamedPort.port ↔
    p ∈ existing.map NamedPort.port ∨ p ∈ ports := by
  rw [withPorts,List.map_append,port_newNamedPorts,List.mem_append,List.mem_filter,decide_eq_true_iff]
  tauto

theorem proper_withPorts (h : NamedPort.Proper existing) (hports : ports.Nodup) :
    NamedPort.Proper (withPorts ports existing) := by
  constructor
  · intro np hnp
    rcases List.mem_append.mp hnp with hnp | hnp
    · exact h.named np hnp
    · obtain ⟨p,_,rfl⟩ := List.mem_map.mp hnp
      rfl
  · rw [withPorts,List.map_append,port_newNamedPorts]
    apply h.distinct.append (hports.filter _)
    intro p hp hnew
    have hnot := (List.mem_filter.mp hnew).2
    exact of_decide_eq_true hnot hp

end Lists
end Instances

/-- A proper list is made of its numbers. -/
theorem NamedPort.Proper.eq_map {ports : List NamedPort} (h : NamedPort.Proper ports) :
    (ports.map NamedPort.port).map (fun p => { name := Namer.namedPort p, port := p }) = ports := by
  have hsame : ∀ np ∈ ports, ((fun p => NamedPort.mk (Namer.namedPort p) p) ∘ NamedPort.port) np = id np := by
    intro np hnp
    rw [Function.comp_apply,← h.named np hnp]
    rfl
  rw [List.map_map,List.map_congr_left hsame,List.map_id]

/-- A proper list resolves every port that it has. -/
theorem NamedPort.Proper.resolves {ports : List NamedPort} (h : NamedPort.Proper ports) {p : ℤ}
    (hp : p ∈ ports.map NamedPort.port) : NamedPort.Resolves ports p := by
  have hname : ∀ q ∈ ports.map NamedPort.port, decide (Namer.namedPort q = Namer.namedPort p) = true ↔ q = p := by
    intro q _
    rw [decide_eq_true_iff]
    exact ⟨Namer.namedPort_injective,congrArg Namer.namedPort⟩
  unfold NamedPort.Resolves
  rw [← h.eq_map,filter_map_of_nodup h.distinct p hname,if_pos hp]

/-! ## What the operations do to the groups -/

namespace GroupPool
variable {deleted : Str → Prop} {w w' : GroupPool} {k : Str × Str} {ports : List ℤ}

def Proper (w : GroupPool) : Prop := ∀ k g, w.groups.items k = some g → NamedPort.Proper g

/-- The group has the ports. -/
def Has (w : GroupPool) (k : Str × Str) (ports : List ℤ) : Prop :=
  ∃ g, w.groups.items k = some g ∧ ∀ p ∈ ports, p ∈ g.map NamedPort.port

/-- The groups of certain names may go, the others only get more ports. -/
structure Moves (deleted : Str → Prop) (w w' : GroupPool) : Prop where
  kept : ∀ k g, ¬deleted k.1 → w.groups.items k = some g → ∃ g', w'.groups.items k = some g' ∧ g <+: g'
  proper : w.Proper → w'.Proper

instance (deleted : Str → Prop) : IsPreorder GroupPool (Moves deleted) where
  refl _ := ⟨fun _ g _ h => ⟨g,h,List.prefix_rfl⟩,id⟩
  trans _ _ _ h h' := by
    constructor
    · intro k g hk hg
      obtain ⟨g₁,hg₁,hstart⟩ := h.kept k g hk hg
      obtain ⟨g₂,hg₂,hstart'⟩ := h'.kept k g₁ hk hg₁
      exact ⟨g₂,hg₂,hstart.trans hstart'⟩
    · exact fun hproper => h'.proper (h.proper hproper)

theorem Moves.mono {deleted' : Str → Prop} (h : Moves deleted w w') (hsub : ∀ name, deleted name → deleted' name) :
    Moves deleted' w w' := ⟨fun k g hk => h.kept k g fun hd => hk (hsub _ hd),h.proper⟩

theorem moves_of_items (h : w'.groups.items = w.groups.items) : Moves deleted w w' := by
  constructor
  · intro k g _ hg
    exact ⟨g,(congrFun h k).trans hg,List.prefix_rfl⟩
  · intro hproper k g hg
    exact hproper k g ((congrFun h k).symm.trans hg)

theorem Has.mono {ports' : List ℤ} (h : w.Has k ports) (hsub : ∀ p ∈ ports', p ∈ ports) : w.Has k ports' := by
  obtain ⟨g,hg,hports⟩ := h
  exact ⟨g,hg,fun p hp => hports p (hsub p hp)⟩

theorem Has.moves (h : w.Has k ports) (hmoves : Moves deleted w w') (hk : ¬deleted k.1) : w'.Has k ports := by
  obtain ⟨g,hg,hports⟩ := h
  obtain ⟨g',hg',hstart⟩ := hmoves.kept k g hk hg
  exact ⟨g',hg',fun p hp => (hstart.map NamedPort.port).subset (hports p hp)⟩

theorem Proper.resolves (hw : w.Proper) (h : w.Has k ports) :
    ∃ g, w.groups.items k = some g ∧ ∀ p ∈ ports, NamedPort.Resolves g p := by
  obtain ⟨g,hg,hports⟩ := h
  exact ⟨g,hg,fun p hp => (hw k g hg).resolves (hports p hp)⟩

end GroupPool

namespace Instances
variable {deleted : Str → Prop} {name zone : Str} {ports : List ℤ} {w : GroupPool}

/-- The group is there as before, or has just been made. -/
def Opened (k : Str × Str) (w w' : GroupPool) : Prop :=
  w'.groups.items = w.groups.items ∨
    w.groups.items k = none ∧ w'.groups.items = Function.update w.groups.items k (some [])

theorem getInstanceGroup_ensures (name zone : Str) (w : GroupPool) : Ensures (getInstanceGroup name zone) w (fun r w' =>
    w'.groups.items = w.groups.items ∧
    ∀ ig, r = .ok ig → ig.name = name ∧ ig.zone = zone ∧ w'.groups.items (name,zone) = some ig.namedPorts) := by
  rw [getInstanceGroup,onGroups,ensures_onPart]
  refine (Store.onItem_served _).mono ?_
  intro r c hserved
  have hitems := hserved.unchanged
  refine ⟨hitems,?_⟩
  intro ig hig
  obtain ⟨g,hg,rfl,_⟩ := hserved.answer ig hig
  exact ⟨rfl,rfl,(congrFun hitems _).trans hg⟩

theorem get_ensures (name zone : Str) (w : GroupPool) : Ensures (get name zone) w (fun r w' =>
    w'.groups.items = w.groups.items ∧
    ∀ ig, r = .ok ig → ig.name = name ∧ ig.zone = zone ∧ w'.groups.items (name,zone) = some ig.namedPorts) := by
  rw [get,ensures_bind]
  refine (getInstanceGroup_ensures name zone w).mono ?_
  rintro r w₁ ⟨hitems,hok⟩
  cases r with
  | error e => exact ⟨hitems,nofun⟩
  | ok ig =>
    refine ⟨hitems,?_⟩
    rintro ig' ⟨⟩
    exact hok ig rfl

theorem createInstanceGroup_opens (name zone : Str) (w : GroupPool) :
    Ensures (createInstanceGroup name zone) w (fun _ w' => Opened (name,zone) w w') := by
  rw [createInstanceGroup,onGroups,ensures_onPart]
  exact (Store.insert_served _).mono fun _ _ h => h.2.2.1

theorem getOrCreate_ensures (name zone : Str) (w : GroupPool) : Ensures (getOrCreate name zone) w (fun r w' =>
    Opened (name,zone) w w' ∧
    ∀ ig, r = .ok ig → ig.name = name ∧ ig.zone = zone ∧ w'.groups.items (name,zone) = some ig.namedPorts) := by
  rw [getOrCreate,ensures_bind,ensures_attempt]
  refine (get_ensures name zone w).mono ?_
  rintro r w₁ ⟨hitems,hok⟩
  cases r with
  | ok ig =>
    refine ⟨Or.inl hitems,?_⟩
    rintro ig' ⟨⟩
    exact hok ig rfl
  | error e =>
    rw [afterwards_ok,ensures_ite]
    refine ⟨fun _ => ?_,fun _ => ⟨Or.inl hitems,nofun⟩⟩
    have hopened : ∀ w₂, Opened (name,zone) w₁ w₂ → Opened (name,zone) w w₂ := by
      intro w₂ h
      unfold Opened at h ⊢
      rwa [hitems] at h
    rw [ensures_bind,tolerateConflict,ensures_rescue]
    refine (createInstanceGroup_opens name zone w₁).mono ?_
    intro r w₂ h₂
    have hread : Ensures (getInstanceGroup name zone) w₂ (fun r w' => Opened (name,zone) w w' ∧
        ∀ ig, r = .ok ig → ig.name = name ∧ ig.zone = zone ∧ w'.groups.items (name,zone) = some ig.namedPorts) := by
      refine (getInstanceGroup_ensures name zone w₂).mono ?_
      rintro r w₃ ⟨hitems₃,hok₃⟩
      refine ⟨?_,hok₃⟩
      have h := hopened w₂ h₂
      unfold Opened at h ⊢
      rwa [hitems₃]
    cases r with
    | ok _ => exact hread
    | error e =>
      rw [rescued_error,ensures_ite]
      exact ⟨fun _ => hread,fun _ => ⟨hopened w₂ h₂,nofun⟩⟩

/-- What the group of the zone may be afterwards: as before, new and empty, or with all
ports. Without an error it has all ports. -/
structure Ensured (k : Str × Str) (ports : List ℤ) (w : GroupPool) (r : Except GoError NamedGroup) (w' : GroupPool) : Prop where
  others : ∀ k', k' ≠ k → w'.groups.items k' = w.groups.items k'
  group : w'.groups.items k = w.groups.items k ∨ w.groups.items k = none ∧ w'.groups.items k = some [] ∨
    w'.groups.items k = some (withPorts ports ((w.groups.items k).getD []))
  ok : ∀ ig, r = .ok ig → (ig.name,ig.zone) = k ∧ w'.groups.items k = some (withPorts ports ((w.groups.items k).getD []))

theorem Opened.others {k k' : Str × Str} {w' : GroupPool} (h : Opened k w w') (hne : k' ≠ k) :
    w'.groups.items k' = w.groups.items k' := by
  rcases h with h | ⟨_,h⟩
  · rw [h]
  · rw [h,Function.update_of_ne hne]

/-- What is read of a group that has been opened is what it had. -/
theorem Opened.getD {k : Str × Str} {w' : GroupPool} (h : Opened k w w') {g : List NamedPort} (hg : w'.groups.items k = some g) :
    (w.groups.items k).getD [] = g := by
  rcases h with h | ⟨hnone,h⟩
  · rw [← h,hg]
    rfl
  · rw [h,Function.update_self] at hg
    rw [hnone]
    exact Option.some.inj hg

theorem Opened.group {k : Str × Str} {w' : GroupPool} (h : Opened k w w') : w'.groups.items k = w.groups.items k ∨
    w.groups.items k = none ∧ w'.groups.items k = some [] := by
  rcases h with h | ⟨hnone,h⟩
  · exact Or.inl (congrFun h k)
  · exact Or.inr ⟨hnone,by rw [h,Function.update_self]⟩

theorem Opened.ensured {k : Str × Str} {w' : GroupPool} (h : Opened k w w') {r : Except GoError NamedGroup}
    (hok : ∀ ig, r = .ok ig →
      (ig.name,ig.zone) = k ∧ w'.groups.items k = some (withPorts ports ((w.groups.items k).getD []))) :
    Ensured k ports w r w' :=
  ⟨fun _ => h.others,h.group.imp_right Or.inl,hok⟩

/-- The call may fail and have set the ports all the same. -/
theorem setNamedPorts_ensured (ports : List ℤ) {w₁ : GroupPool} {ig : NamedGroup} (h : Opened (ig.name,ig.zone) w w₁)
    (hread : w₁.groups.items (ig.name,ig.zone) = some ig.namedPorts) :
    Ensures (setNamedPortsOfInstanceGroup ig.name ig.zone (withPorts ports ig.namedPorts)) w₁
      (fun r w' => Ensured (ig.name,ig.zone) ports w (r.map fun _ => ig) w') := by
  rw [setNamedPortsOfInstanceGroup,onGroups,ensures_onPart]
  refine (Store.onItem_served _).mono ?_
  intro r c hserved
  have hwritten : c.items = Function.update w₁.groups.items (ig.name,ig.zone) (some (withPorts ports ig.namedPorts)) →
      c.items (ig.name,ig.zone) = some (withPorts ports ((w.groups.items (ig.name,ig.zone)).getD [])) := by
    intro hc
    rw [hc,Function.update_self,h.getD hread]
  constructor
  · intro k' hk'
    rcases hserved.items with hitems | ⟨_,_,hitems⟩
    · rw [hitems]
      exact h.others hk'
    · rw [hitems,Function.update_of_ne hk']
      exact h.others hk'
  · rcases hserved.items with hitems | ⟨_,_,hitems⟩
    · rw [hitems]
      exact h.group.imp_right Or.inl
    · exact Or.inr (Or.inr (hwritten hitems))
  · intro ig' hig'
    cases r with
    | error e => cases hig'
    | ok _ =>
      obtain rfl : ig = ig' := Except.ok.inj hig'
      obtain ⟨_,_,_,hitems⟩ := hserved.answer () rfl
      exact ⟨rfl,hwritten hitems⟩

theorem ensureInstanceGroupAndPorts_ensures (name : Str) (ports : List ℤ) (zone : Str) (w : GroupPool) :
    Ensures (ensureInstanceGroupAndPorts name ports zone) w (Ensured (name,zone) ports w) := by
  rw [ensureInstanceGroupAndPorts,ensures_bind]
  refine (getOrCreate_ensures name zone w).mono ?_
  rintro r w₁ ⟨hopened,hok⟩
  cases r with
  | error e => exact hopened.ensured fun _ h => by cases h
  | ok ig =>
    obtain ⟨rfl,rfl,hread⟩ := hok ig rfl
    rw [afterwards_ok,ensures_bind,ensures_onlyIf]
    constructor
    · intro _
      refine (setNamedPorts_ensured ports hopened hread).mono ?_
      intro r w' hensured
      cases r <;> exact hensured
    · intro hnone
      have hnil : newNamedPorts ig.namedPorts ports = [] := by simpa using hnone
      apply hopened.ensured
      rintro ig' ⟨⟩
      rw [hopened.getD hread,withPorts,hnil,List.append_nil]
      exact ⟨rfl,hread⟩

theorem Ensured.moves {k : Str × Str} {r : Except GoError NamedGroup} {w' : GroupPool} (h : Ensured k ports w r w')
    (deleted : Str → Prop) (hports : ports.Nodup) : w.Moves deleted w' := by
  constructor
  · intro k' g _ hg
    by_cases hk : k' = k
    · subst hk
      rcases h.group with hgroup | ⟨hnone,_⟩ | hgroup
      · exact ⟨g,hgroup.trans hg,List.prefix_rfl⟩
      · rw [hnone] at hg
        cases hg
      · rw [hg] at hgroup
        exact ⟨_,hgroup,List.prefix_append _ _⟩
    · exact ⟨g,(h.others k' hk).trans hg,List.prefix_rfl⟩
  · intro hproper k' g hg
    by_cases hk : k' = k
    · subst hk
      rcases h.group with hgroup | ⟨_,hgroup⟩ | hgroup
      · exact hproper k' g (hgroup.symm.trans hg)
      · obtain rfl := Option.some.inj (hgroup.symm.trans hg)
        exact ⟨nofun,List.nodup_nil⟩
      · obtain rfl := Option.some.inj (hgroup.symm.trans hg)
        apply proper_withPorts _ hports
        cases hold : w.groups.items k' with
        | none => exact ⟨nofun,List.nodup_nil⟩
        | some old => exact hproper k' old hold
    · exact hproper k' g ((h.others k' hk).symm.trans hg)

theorem Ensured.has {r : Except GoError NamedGroup} {w' : GroupPool} {k : Str × Str} {ig : NamedGroup}
    (h : Ensured k ports w r w') (hr : r = .ok ig) : w'.Has k ports :=
  ⟨_,(h.ok ig hr).2,fun _ hp => mem_ports_withPorts.mpr (Or.inr hp)⟩

theorem respects_ensureInstanceGroupAndPorts (hports : ports.Nodup) (name zone : Str) :
    Respects (GroupPool.Moves deleted) (ensureInstanceGroupAndPorts name ports zone) :=
  fun w => (ensureInstanceGroupAndPorts_ensures name ports zone w).mono fun _ _ h => h.moves deleted hports

theorem respects_ensureInstanceGroupsAndPorts (hports : ports.Nodup) (listZones : Except GoError (List Str)) (name : Str) :
    Respects (GroupPool.Moves deleted) (ensureInstanceGroupsAndPorts listZones name ports) := by
  unfold ensureInstanceGroupsAndPorts
  cases listZones with
  | error e => exact respects_fail e
  | ok zones =>
    refine Respects.deferring ?_ fun _ => GroupPool.moves_of_items rfl
    apply Respects.collect
    intro zone _
    exact (respects_ensureInstanceGroupAndPorts hports name zone).bind fun _ => respects_pure _

/-- There is a group for each zone, and it has the ports. -/
structure EnsuredZones (name : Str) (ports : List ℤ) (zones : List Str) (igs : List NamedGroup) (w : GroupPool) : Prop where
  names : igs.map (fun ig => (ig.name,ig.zone)) = zones.map (fun zone => (name,zone))
  has : ∀ zone ∈ zones, w.Has (name,zone) ports

theorem ensureInstanceGroupsAndPorts_ensures (hports : ports.Nodup) (zones : List Str) (name : Str) (w : GroupPool) :
    Ensures (ensureInstanceGroupsAndPorts (.ok zones) name ports) w (fun r w' =>
      ∀ igs, r = .ok igs → EnsuredZones name ports zones igs w') := by
  rw [ensureInstanceGroupsAndPorts,ensures_deferring]
  have hloop : Ensures (ensureZones name ports zones) w (fun r w' =>
      ∀ igs, r = .ok igs → EnsuredZones name ports zones igs w') := by
    apply collect_rule _ (EnsuredZones name ports)
    · rintro done zone igs w ⟨hnames,hhas⟩
      rw [ensures_bind]
      refine (ensureInstanceGroupAndPorts_ensures name ports zone w).mono ?_
      intro r w₁ hensured
      cases r with
      | error e => exact nofun
      | ok ig =>
        rintro igs' ⟨⟩
        obtain ⟨hname,_⟩ := hensured.ok ig rfl
        refine ⟨by simp [hnames,hname],?_⟩
        intro zone' hzone'
        rcases List.mem_append.mp hzone' with hdone | hlast
        · exact (hhas zone' hdone).moves (hensured.moves (fun _ => False) hports) id
        · rw [List.mem_singleton.mp hlast]
          exact hensured.has rfl
    · exact ⟨rfl,nofun⟩
  refine hloop.mono ?_
  intro r w' h igs higs
  obtain ⟨hnames,hhas⟩ := h igs higs
  exact ⟨hnames,hhas⟩

theorem respects_cloudDeleteInstanceGroup (name zone : Str) :
    Respects (GroupPool.Moves (· = name)) (cloudDeleteInstanceGroup name zone) := by
  intro w
  rw [cloudDeleteInstanceGroup,onGroups,ensures_onPart]
  refine (Store.onItem_served _).mono ?_
  intro r c hserved
  rcases hserved.items with hitems | ⟨g,_,hitems⟩
  · exact GroupPool.moves_of_items hitems
  · have hother : ∀ k, k ≠ (name,zone) → c.items k = w.groups.items k := by
      intro k hk
      rw [hitems,Function.update_of_ne hk]
    constructor
    · intro k g hk hg
      exact ⟨g,(hother k fun h => hk (congrArg Prod.fst h)).trans hg,List.prefix_rfl⟩
    · intro hproper k g hg
      by_cases hk : k = (name,zone)
      · have hgone : c.items k = none := by rw [hitems,hk,Function.update_self]
        cases hgone.symm.trans hg
      · exact hproper k g ((hother k hk).symm.trans hg)

theorem respects_deleteInstanceGroup (isInUsedByError : GoError → Bool) (listZones : Except GoError (List Str)) (name : Str) :
    Respects (GroupPool.Moves (· = name)) (deleteInstanceGroup isInUsedByError listZones name) := by
  refine Respects.deferring ?_ fun _ => GroupPool.moves_of_items rfl
  cases listZones with
  | error e => exact respects_fail e
  | ok zones =>
    apply Respects.bind
    · apply Respects.collect
      intro zone _
      exact (respects_cloudDeleteInstanceGroup name zone).attempt.bind fun _ => respects_pure _
    · exact fun _ => (respects_pure ()).ite (respects_fail _)

end Instances

/-! ## Runs -/

/-- What the controller asks of the pool, and the zones that the pool is told. -/
inductive GroupOp
  | ensure (listZones : Except GoError (List Str)) (name : Str) (ports : List ℤ)
  | delete (isInUsedByError : GoError → Bool) (listZones : Except GoError (List Str)) (name : Str)

namespace GroupOp

/-- The ports of a request have no repetition. -/
def Distinct : GroupOp → Prop
  | .ensure _ _ ports => ports.Nodup
  | .delete _ _ _ => True

def Deletes (name : Str) : GroupOp → Prop
  | .ensure _ _ _ => False
  | .delete _ _ name' => name' = name

def step (w : GroupPool) : GroupOp → GroupPool
  | .ensure listZones name ports => (Instances.ensureInstanceGroupsAndPorts listZones name ports w).2
  | .delete isInUsedByError listZones name => (Instances.deleteInstanceGroup isInUsedByError listZones name w).2

theorem step_moves {op : GroupOp} (h : op.Distinct) (deleted : Str → Prop) (hdeleted : ∀ name, op.Deletes name → deleted name)
    (w : GroupPool) : w.Moves deleted (step w op) := by
  cases op with
  | ensure listZones name ports => exact Instances.respects_ensureInstanceGroupsAndPorts h listZones name w
  | delete isInUsedByError listZones name =>
    have hmoves := Instances.respects_deleteInstanceGroup isInUsedByError listZones name w
    apply GroupPool.Moves.mono hmoves
    rintro name' rfl
    exact hdeleted name' rfl

theorem run_moves {ops : List GroupOp} (h : ∀ op ∈ ops, op.Distinct) (deleted : Str → Prop)
    (hdeleted : ∀ op ∈ ops, ∀ name, op.Deletes name → deleted name) (w : GroupPool) :
    w.Moves deleted (Runs.final step w ops) := by
  induction ops generalizing w with
  | nil => exact refl_of _ w
  | cons op rest ih =>
    have hfirst := step_moves (h op List.mem_cons_self) deleted (hdeleted op List.mem_cons_self) w
    have hrest := ih (fun op hop => h op (List.mem_cons_of_mem _ hop))
      (fun op hop => hdeleted op (List.mem_cons_of_mem _ hop)) (step w op)
    exact trans_of _ hfirst hrest

end GroupOp

/-- If the ports of each request are distinct, then whatever fails the named ports of a group
keep distinct numbers and the names that are made of them. A port that has once been ensured
is reached under its name, in every zone there was, until the group is to be deleted. -/
theorem named_ports_last {w : GroupPool} (hw : w.Proper) {ops : List GroupOp} (hops : ∀ op ∈ ops, op.Distinct) :
    (Runs.final GroupOp.step w ops).Proper ∧
    ∀ before zones name ports after igs, ops = before ++ .ensure (.ok zones) name ports :: after →
      (Instances.ensureInstanceGroupsAndPorts (.ok zones) name ports (Runs.final GroupOp.step w before)).1 = .ok igs →
      (∀ op ∈ after, ¬op.Deletes name) → ∀ zone ∈ zones, ∃ g,
        (Runs.final GroupOp.step w ops).groups.items (name,zone) = some g ∧ ∀ p ∈ ports, NamedPort.Resolves g p := by
  have hend : (Runs.final GroupOp.step w ops).Proper :=
    (GroupOp.run_moves hops (fun _ => True) (fun _ _ _ _ => trivial) w).proper hw
  refine ⟨hend,?_⟩
  rintro before zones name ports after igs rfl hok hkept zone hzone
  apply hend.resolves
  have hports : ports.Nodup := hops (.ensure (.ok zones) name ports) (by simp)
  have hensured := Instances.ensureInstanceGroupsAndPorts_ensures hports zones name (Runs.final GroupOp.step w before)
    igs hok
  have hafter : ∀ op ∈ after, op.Distinct := fun op hop => hops op (by simp [hop])
  have hmoves := GroupOp.run_moves hafter (· ≠ name)
    (fun op hop name' hname' heq => hkept op hop (heq ▸ hname')) (GroupOp.step (Runs.final GroupOp.step w before)
      (.ensure (.ok zones) name ports))
  rw [Runs.final_append,Runs.final]
  exact (hensured.has zone hzone).moves hmoves (not_not.mpr rfl)

/-- A cloud without instance groups, whose fourth call fails after it has taken effect. -/
def emptyGroups : GroupPool where
  groups := {
    items := fun _ => none
    faults := fun n => if n = 3 then some { error := .text "timeout".toList, applied := true, not_notFound := rfl } else none
    clock := 0 }
  snapshotter := []

def twoZoneOps : List GroupOp :=
  [.ensure (.ok ["a".toList]) "ig".toList [30081],.ensure (.ok ["a".toList,"b".toList]) "ig".toList [30080,30081],
    .delete (fun _ => false) (.ok ["a".toList]) "other".toList]

/-- The first request fails in its last call, the second one goes through. -/
theorem named_ports_last_twoZones : (Runs.final GroupOp.step emptyGroups twoZoneOps).Proper ∧
    ∃ g, (Runs.final GroupOp.step emptyGroups twoZoneOps).groups.items ("ig".toList,"a".toList) = some g ∧
      ∀ p ∈ ([30080,30081] : List ℤ), NamedPort.Resolves g p := by
  have hops : ∀ op ∈ twoZoneOps, op.Distinct := by simp [twoZoneOps,GroupOp.Distinct]
  have hafter : ∀ op ∈ [GroupOp.delete (fun _ => false) (.ok ["a".toList]) "other".toList],
      ¬op.Deletes "ig".toList := by
    intro op hop
    rw [List.mem_singleton.mp hop]
    have hother : "other".toList ≠ "ig".toList := by decide
    exact hother
  obtain ⟨hproper,hlast⟩ := named_ports_last (w := emptyGroups) nofun hops
  exact ⟨hproper,hlast [.ensure (.ok ["a".toList]) "ig".toList [30081]] ["a".toList,"b".toList] _ _ _ _ rfl rfl hafter
    "a".toList List.mem_cons_self⟩

end IngressGce
