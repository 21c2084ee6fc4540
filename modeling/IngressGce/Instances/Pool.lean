import IngressGce.Cloud.Store
import IngressGce.Program.ListMap
import Mathlib.Data.Char
import Mathlib.Data.List.Lex
import Mathlib.Data.List.Sort

/-! # Nodes of the cluster and the pool of instance groups

The zone lister of the pool is the translator of the controller, which looks at the
nodes that are ready. Instances and nodes share their names. The cloud lists the
instances of a group by their links, and takes links of instances to add and to remove.
-/
namespace IngressGce
open Prog

/-- The name of a node and of its instance, which has no slash. -/
abbrev NodeName := { name : Str // '/' ∉ name }

inductive ConditionType
  | ready
  | other (name : Str)
  deriving DecidableEq, Repr

inductive ConditionStatus
  | isTrue
  | isFalse
  | unknown
  deriving DecidableEq, Repr

structure NodeCondition where
  type : ConditionType
  status : ConditionStatus
  deriving DecidableEq, Repr

structure Node where
  name : NodeName
  zoneLabel : Option Str
  conditions : List NodeCondition
  unschedulable : Bool
  deriving DecidableEq

/-- The node lister, which has one node for a name. -/
structure NodeStore where
  nodes : List Node
  distinct : (nodes.map Node.name).Nodup

def defaultZone : Str := []

def getZone (n : Node) : Str := n.zoneLabel.getD defaultZone

/-- The first condition of type ready decides. -/
def getNodeReadyPredicate (n : Node) : Bool :=
  match n.conditions.find? (fun c => c.type = .ready) with
  | some c => c.status = .isTrue
  | none => false

namespace NodeStore
variable (s : NodeStore)

def ready : List Node := s.nodes.filter getNodeReadyPredicate

def getZoneForNode (name : NodeName) : Except GoError Str :=
  match s.ready.find? (fun n => n.name = name) with
  | some n => .ok (getZone n)
  | none => .error (.text ("node not found ".toList ++ name.val))

def listZones : List Str := (s.ready.map getZone).dedup.insertionSort (· ≤ ·)

/-- The names of the ready nodes that pods can be scheduled on. -/
def getReadyNodeNames : List NodeName := (s.ready.filter (fun n => !n.unschedulable)).map Node.name

end NodeStore

/-- How the cloud forms the link of an instance: it ends in the name. -/
structure InstanceLinks where
  link : Str → NodeName → Str
  link_name : ∀ zone name, Str.lastToken ['/'] (link zone name) = name.val

def InstanceLinks.byZone : InstanceLinks where
  link zone name := zone ++ (['/'] ++ name.val)
  link_name zone name := by
    apply Str.lastToken_append_sep (by decide)
    · intro t _ ht
      cases t with
      | nil => exact Or.inl rfl
      | cons c cs =>
        obtain ⟨rfl,hcs⟩ := List.cons_prefix_cons.mp ht
        exact Or.inr (by rw [List.prefix_nil.mp hcs])
    · exact fun h => name.property (h.subset List.mem_cons_self)

/-- The name of the instance that a link means, its last section. -/
def instanceOf (link : Str) : NodeName :=
  ⟨Str.lastToken ['/'] link,fun h => Str.lastToken_no_sep (by decide) link (Str.singleton_infix h)⟩

/-- Instance groups by name and zone. -/
abbrev InstanceGroups := Store (Str × Str) (List NodeName)

abbrev InstancesM (α : Type) := Prog InstanceGroups GoError α

/-- The pool, with the names of its groups. -/
structure Instances where
  links : InstanceLinks
  snapshotter : AList (fun _ : Str => Unit)
  zoneLister : NodeStore

namespace Instances
variable (i : Instances)

section Cloud
variable (name zone : Str)

def listInstancesInInstanceGroup : InstancesM (List Str) :=
  Store.onItem (name,zone) (fun members => (members.map (i.links.link zone),some members))

def toInstanceReferences (names : List NodeName) : List Str := names.map (i.links.link zone)

def changeInstances (op : SetOp) (refs : List Str) : InstancesM Unit :=
  Store.onItem (name,zone) (fun members => ((),some (SetUpdate.combine op members (refs.map instanceOf))))

def addInstancesToInstanceGroup (refs : List Str) : InstancesM Unit := changeInstances name zone .union refs

def removeInstancesFromInstanceGroup (refs : List Str) : InstancesM Unit := changeInstances name zone .difference refs

end Cloud

def listZonesOf (name : Str) : List Str → List NodeName → InstancesM (List NodeName)
  | [], nodeNames => pure nodeNames
  | zone :: rest, nodeNames => do
    let links ← i.listInstancesInInstanceGroup name zone
    listZonesOf name rest (links.foldl (fun names link => names.insert (instanceOf link)) nodeNames)

/-- All instances of a group, in all zones. -/
def list (name : Str) : InstancesM (List NodeName) := i.listZonesOf name i.zoneLister.listZones []

/-- A node whose zone is not found is skipped. -/
def addToZone (nodesByZone : ListMap Str NodeName) (name : NodeName) : ListMap Str NodeName :=
  match i.zoneLister.getZoneForNode name with
  | .error _ => nodesByZone
  | .ok zone => nodesByZone.insert zone (nodesByZone.at zone ++ [name])

def splitNodesByZone (names : List NodeName) : ListMap Str NodeName := names.foldl i.addToZone ∅

/-- The error made of a list of errors, which is no error of the cloud. -/
def joined {σ : Type} (errs : List GoError) : Prog σ GoError Unit :=
  if errs = [] then pure () else fail (.text (GoError.list errs))

/-- One call for each zone; the errors are put together at the end. -/
def forZones (o : Iteration (Sigma fun _ : Str => List NodeName)) (body : Str → List NodeName → InstancesM Unit)
    (names : List NodeName) : InstancesM Unit := do
  let errs ← collect (fun entry => do
    let r ← attempt (body entry.1 entry.2)
    pure (errorOf r)) (o.range (i.splitNodesByZone names).entries)
  joined errs

variable (o : Iteration (Sigma fun _ : Str => List NodeName))

def add (groupName : Str) (names : List NodeName) : InstancesM Unit :=
  i.forZones o (fun zone nodeNames =>
    addInstancesToInstanceGroup groupName zone (i.toInstanceReferences zone nodeNames)) names

def remove (groupName : Str) (names : List NodeName) : InstancesM Unit :=
  i.forZones o (fun zone nodeNames =>
    removeInstancesFromInstanceGroup groupName zone (i.toInstanceReferences zone nodeNames)) names

/-- The names that are not among the others, in the order of a set's `List`. -/
def difference (names others : List NodeName) : List NodeName :=
  (names.filter (fun name => name ∉ others)).insertionSort (fun a b => a.val ≤ b.val)

def syncGroup (nodes : List NodeName) (igName : Str) : InstancesM Unit := do
  let gceNodes ← i.list igName
  let kubeNodes := nodes.dedup
  let removeNodes := difference gceNodes kubeNodes
  let addNodes := difference kubeNodes gceNodes
  onlyIf (removeNodes ≠ []) (i.remove o igName removeNodes)
  onlyIf (addNodes ≠ []) (i.add o igName addNodes)

/-- An instance group that is not found is not an error: the pool only syncs nodes. -/
def sync (order : Iteration Str) (nodes : List NodeName) : InstancesM Unit :=
  rescue (forEach (i.syncGroup o nodes) (order.range i.snapshotter.keys)) (fun e =>
    if isHTTPErrorCode e statusNotFound then pure () else fail e)

end Instances
end IngressGce
