import IngressGce.Cloud.Store
import IngressGce.Naming.Decimal
import IngressGce.NetworkEndpointGroup.Manager
import IngressGce.Program.ListMap

/-! # Synchronising the network endpoints of a service port

One sync computes the endpoints that a service port should have in each zone, lists
those its NEGs have, and attaches and detaches the difference in batches. Each batch has
a goroutine of its own, so the batches take effect in any order. Endpoints are compared
as texts, from which the batches are decoded again.
-/
namespace IngressGce.NEG
open Prog

structure NetworkEndpoint where
  instanceName : Str
  ipAddress : Str
  port : Int64
  deriving DecidableEq

structure EndpointPort where
  name : Str
  port : Int32
  deriving DecidableEq

structure EndpointAddress where
  ip : Str
  nodeName : Option Str
  deriving DecidableEq

structure EndpointSubset where
  addresses : List EndpointAddress
  ports : List EndpointPort
  deriving DecidableEq

structure Endpoints where
  subsets : List EndpointSubset
  deriving DecidableEq

/-- A NEG of one zone. -/
structure Group where
  network : Str
  subnetwork : Str
  endpoints : List NetworkEndpoint
  deriving DecidableEq

/-- Endpoints to be attached to or detached from the NEG of a zone by one call. -/
abbrev Batch := SetUpdate Str NetworkEndpoint

/-- The cloud's NEGs by name and zone. -/
abbrev Groups := Store (Str × Str) Group

/-- The NEGs, and the batches that were executed, each with whether its call failed. -/
structure GroupCloud where
  store : Groups
  log : List (Batch × Bool)

/-- The endpoints of a NEG, none if there is no NEG. -/
def GroupCloud.endpoints (w : GroupCloud) (name zone : Str) : List NetworkEndpoint :=
  ((w.store.items (name,zone)).map Group.endpoints).getD []

abbrev CloudM (α : Type) := Prog Groups GoError α

section Calls
variable (name zone : Str)

def getNetworkEndpointGroup : CloudM Group := Store.onItem (name,zone) (fun g => (g,some g))

def deleteNetworkEndpointGroup : CloudM Unit := Store.onItem (name,zone) (fun _ => ((),none))

def createNetworkEndpointGroup (network subnetwork : Str) : CloudM Unit :=
  Store.insert (name,zone) { network, subnetwork, endpoints := [] }

def listNetworkEndpoints : CloudM (List NetworkEndpoint) := Store.onItem (name,zone) (fun g => (g.endpoints,some g))

def changeEndpoints (op : SetOp) (endpoints : List NetworkEndpoint) : CloudM Unit :=
  Store.onItem (name,zone) (fun g => ((),some { g with endpoints := SetUpdate.combine op g.endpoints endpoints }))

def attachNetworkEndpoints (endpoints : List NetworkEndpoint) : CloudM Unit :=
  changeEndpoints name zone .union endpoints

def detachNetworkEndpoints (endpoints : List NetworkEndpoint) : CloudM Unit :=
  changeEndpoints name zone .difference endpoints

/-- The call that executes a batch. -/
def syncFunc : SetOp → List NetworkEndpoint → CloudM Unit
  | .union => attachNetworkEndpoints name zone
  | .difference => detachNetworkEndpoints name zone

end Calls

def endpointSeparator : Str := "||".toList

def encodeEndpoint (ip instanceName port : Str) : Str :=
  ip ++ (endpointSeparator ++ (instanceName ++ (endpointSeparator ++ port)))

/-- The first three parts of the text; there is a panic if it has fewer. -/
def decodeEndpoint (s : Str) : Option (Str × Str × Str) :=
  match Str.split endpointSeparator s with
  | ip :: instanceName :: port :: _ => some (ip,instanceName,port)
  | _ => none

def NetworkEndpoint.encode (ne : NetworkEndpoint) : Str :=
  encodeEndpoint ne.ipAddress ne.instanceName (Decimal.itoa ne.port.toInt)

inductive SyncError
  | lister (text : Str)
  | zone (text : Str)
  | cloud (e : GoError)
  | aggregate (es : List GoError)
  | decode (enc : Str) (e : Decimal.NumError)
  | nilNodeName
  | indexOutOfRange
  deriving DecidableEq, Repr

abbrev SyncM (α : Type) := Prog GroupCloud SyncError α

/-- A call of the cloud, whose error is a value to the caller. -/
def onCloud {α : Type} (m : CloudM α) : SyncM (Except GoError α) :=
  attempt (onPart GroupCloud.store (fun store w => { w with store }) m)

/-- Sets of encoded endpoints by zone. -/
abbrev ZoneMap := ListMap Str Str

structure ZoneGetter where
  listZones : Except Str (List Str)
  getZoneForNode : Str → Except Str Str

/-- What a sync does not decide: the answers of the listers and of the zone getter, the
cluster's network, the order of ranges over maps and sets, and the order in which the
goroutines of the batches finish. -/
structure Environment where
  zoneGetter : ZoneGetter
  endpointLister : ServiceKey → Except Str (Option Endpoints)
  networkURL : Str
  subnetworkURL : Str
  zoneOrder : SetOp → Iteration (Sigma fun _ : Str => List Str)
  popOrder : SetOp → Str → Iteration Str
  finishing : Iteration Batch

def retrieveName (url : Str) : Str := Str.lastToken ['/'] url

/-- The error that `NewAggregate` makes of a list, or nil. -/
def newAggregate (es : List GoError) : SyncM Unit := if es = [] then pure () else fail (.aggregate es)

variable (E : Environment)

section Ensure
variable (negName : Str)

def createIn (zone : Str) : CloudM Unit := createNetworkEndpointGroup negName zone E.networkURL E.subnetworkURL

def ensureNetworkEndpointGroup (zone : Str) : SyncM (List GoError) := do
  let neg ← onCloud (getNetworkEndpointGroup negName zone)
  match neg with
  | .error _ => do
    let created ← onCloud (createIn E negName zone)
    pure (errorOf created)
  | .ok g =>
    if retrieveName g.network ≠ retrieveName E.networkURL ∨
        retrieveName g.subnetwork ≠ retrieveName E.subnetworkURL then do
      let deleted ← onCloud (deleteNetworkEndpointGroup negName zone)
      let created ← onCloud (createIn E negName zone)
      pure (errorOf deleted ++ errorOf created)
    else pure []

def ensureNetworkEndpointGroups : SyncM Unit :=
  match E.zoneGetter.listZones with
  | .error e => fail (.zone e)
  | .ok zones => do
    let errList ← collect (ensureNetworkEndpointGroup E negName) zones
    newAggregate errList

end Ensure

/-- The port as a text if the target port means it, or the empty text. -/
def matchOne (targetPort : Str) (port : EndpointPort) : Str :=
  if (Decimal.atoi targetPort).1 ≠ 0 then
    if port.port.toInt = (Decimal.atoi targetPort).1 then targetPort else []
  else if port.name = targetPort then Decimal.itoa port.port.toInt else []

/-- The first port of a subset that matches, or the empty text. -/
def matchPort (targetPort : Str) : List EndpointPort → Str
  | [] => []
  | port :: rest => if matchOne targetPort port ≠ [] then matchOne targetPort port else matchPort targetPort rest

def addAddress (port : Str) (m : ZoneMap) (address : EndpointAddress) : Except SyncError ZoneMap :=
  match address.nodeName with
  | none => .error .nilNodeName
  | some node =>
    match E.zoneGetter.getZoneForNode node with
    | .error e => .error (.zone e)
    | .ok zone => .ok (m.insert zone ((m.at zone).insert (encodeEndpoint address.ip node port)))

def addSubset (targetPort : Str) (m : ZoneMap) (subset : EndpointSubset) : Except SyncError ZoneMap :=
  if matchPort targetPort subset.ports = [] then .ok m
  else subset.addresses.foldlM (addAddress E (matchPort targetPort subset.ports)) m

def toZoneNetworkEndpointMap (targetPort : Str) (endpoints : Endpoints) : Except SyncError ZoneMap :=
  endpoints.subsets.foldlM (addSubset E targetPort) ∅

def encodings (nes : List NetworkEndpoint) : List Str := nes.foldl (fun set ne => set.insert ne.encode) []

def retrieveZones (negName : Str) : List Str → ZoneMap → SyncM ZoneMap
  | [], m => pure m
  | zone :: rest, m => do
    let listed ← onCloud (listNetworkEndpoints negName zone)
    match listed with
    | .error e => fail (.cloud e)
    | .ok nes => retrieveZones negName rest (m.insert zone (encodings nes))

def retrieveExistingZoneNetworkEndpointMap (negName : Str) : SyncM ZoneMap :=
  match E.zoneGetter.listZones with
  | .error e => fail (.zone e)
  | .ok zones => retrieveZones negName zones ∅

/-- For each zone what the first map has and the second lacks. A zone occurs once in a
map, so that the order of the range shows only in the order of the result's entries. -/
def missing (m other : ZoneMap) : ZoneMap :=
  m.entries.foldl (fun diffs entry =>
    if difference entry.2 (other.at entry.1) = [] then diffs
    else diffs.insert entry.1 (difference entry.2 (other.at entry.1))) ∅

def calculateDifference (targetMap currentMap : ZoneMap) : ZoneMap × ZoneMap :=
  (missing targetMap currentMap,missing currentMap targetMap)

def maxNetworkEndpointsPerBatch : ℕ := 500

/-- Fill a list of the given length from a set, and what is left of the set. -/
def popList (o : Iteration Str) : ℕ → List Str → List Str × List Str
  | 0, set => ([],set)
  | n + 1, set =>
    match o.popAny set with
    | none => (List.replicate (n + 1) [],set)
    | some (enc,rest) => (enc :: (popList o n rest).1,(popList o n rest).2)

def decodeNetworkEndpoint (enc : Str) : Except SyncError NetworkEndpoint :=
  match decodeEndpoint enc with
  | none => .error .indexOutOfRange
  | some (ip,instanceName,port) =>
    match Decimal.atoi port with
    | (_,some e) => .error (.decode enc e)
    | (portNum,none) => .ok { instanceName, ipAddress := ip, port := Int64.ofInt portNum }

/-- A batch, and what is left of the set. -/
def toNetworkEndpointBatch (o : Iteration Str) (set : List Str) :
    Except SyncError (List NetworkEndpoint) × List Str :=
  let (list,left) := popList o (min set.length maxNetworkEndpointsPerBatch) set
  (list.mapM decodeNetworkEndpoint,left)

theorem popList_length (o : Iteration Str) (n : ℕ) (set : List Str) :
    (popList o n set).2.length = set.length - n := by
  induction n generalizing set with
  | zero => rfl
  | succ n ih =>
    rw [popList]
    split
    · rename_i hpop
      simp [Iteration.popAny_eq_none.mp hpop]
    · rename_i enc rest hpop
      have hlen := (Iteration.popAny_perm hpop).length_eq
      rw [List.length_cons] at hlen
      simp only [ih rest]
      omega

/-- The batches of a set, up to the first that can not be decoded. -/
def issueBatches (op : SetOp) (zone : Str) (o : Iteration Str) (set : List Str) : List Batch × Option SyncError :=
  if _ : set = [] then ([],none)
  else
    match toNetworkEndpointBatch o set with
    | (.error e,_) => ([],some e)
    | (.ok networkEndpoints,_) =>
      let (batches,err) := issueBatches op zone o (toNetworkEndpointBatch o set).2
      (⟨op,zone,networkEndpoints⟩ :: batches,err)
  termination_by set.length
  decreasing_by
    have hpos : 0 < set.length := List.length_pos_iff.mpr ‹set ≠ []›
    have hmax : 0 < maxNetworkEndpointsPerBatch := by decide
    have hleft := popList_length o (min set.length maxNetworkEndpointsPerBatch) set
    change (popList o (min set.length maxNetworkEndpointsPerBatch) set).2.length < set.length
    omega

def issueZones (op : SetOp) : List (Sigma fun _ : Str => List Str) → List Batch × Option SyncError
  | [] => ([],none)
  | ⟨zone,set⟩ :: rest =>
    match issueBatches op zone (E.popOrder op zone) set with
    | (batches,some e) => (batches,some e)
    | (batches,none) => (batches ++ (issueZones op rest).1,(issueZones op rest).2)

/-- All batches, those that detach first. -/
def issue (addEndpoints removeEndpoints : ZoneMap) : List Batch × Option SyncError :=
  match issueZones E .difference ((E.zoneOrder .difference).range removeEndpoints.entries) with
  | (detached,some e) => (detached,some e)
  | (detached,none) =>
    let (attached,err) := issueZones E .union ((E.zoneOrder .union).range addEndpoints.entries)
    (detached ++ attached,err)

def operationInternal (negName : Str) (b : Batch) : SyncM (List GoError) := do
  let r ← onCloud (syncFunc negName b.key b.op b.items)
  update (fun w => { w with log := w.log ++ [(b,(errorOf r).isEmpty.not)] })
  pure (errorOf r)

/-- The batches issued before an error are executed as well, though the sync does not
wait for them. -/
def syncNetworkEndpoints (negName : Str) (addEndpoints removeEndpoints : ZoneMap) : SyncM Unit := do
  let (batches,err) := issue E addEndpoints removeEndpoints
  let errList ← collect (operationInternal negName) (E.finishing.range batches)
  match err with
  | some e => fail e
  | none => newAggregate errList

def liftError {α : Type} : Except SyncError α → SyncM α
  | .ok a => pure a
  | .error e => fail e

/-- The sync of one syncer. -/
def Syncer.sync (s : Syncer) (negName : Str) : SyncM Unit :=
  if s.stopped ∨ s.shuttingDown then pure ()
  else
    match E.endpointLister s.servicePort.service with
    | .error e => fail (.lister e)
    | .ok none => pure ()
    | .ok (some ep) => do
      ensureNetworkEndpointGroups E negName
      let targetMap ← liftError (toZoneNetworkEndpointMap E s.servicePort.targetPort ep)
      let currentMap ← retrieveExistingZoneNetworkEndpointMap E negName
      let (addEndpoints,removeEndpoints) := calculateDifference targetMap currentMap
      if addEndpoints.entries = [] ∧ removeEndpoints.entries = [] then pure ()
      else syncNetworkEndpoints E negName addEndpoints removeEndpoints

end IngressGce.NEG
