import IngressGce.Naming.GoString
import IngressGce.Program.Iteration
import IngressGce.Program.Stateful

/-! # The manager of the NEG syncers

Syncers live in a heap and are shared by reference: the manager finds them by service
port, and each running one has a goroutine of its own. A critical section of the
manager is a program. Before each of its accesses to a syncer the goroutines may take
any number of steps, which the `interference` of the section lists.
-/
namespace IngressGce.NEG
open Prog

structure ServiceKey where
  namespaced : Str
  name : Str
  deriving DecidableEq, Repr

structure ServicePort where
  service : ServiceKey
  targetPort : Str
  deriving DecidableEq, Repr

/-- The channel of a syncer, which buffers one signal. -/
structure SyncCh where
  closed : Bool
  buffered : Bool
  deriving DecidableEq, Repr

structure Syncer where
  servicePort : ServicePort
  stopped : Bool
  shuttingDown : Bool
  syncCh : Option SyncCh
  deriving DecidableEq, Repr

def newSyncer (svcPort : ServicePort) : Syncer :=
  { servicePort := svcPort, stopped := true, shuttingDown := false, syncCh := none }

/-- Where the goroutine of a syncer is in its loop: in `sync`, in the select, or past
the select that found the channel closed. -/
inductive Phase
  | syncing
  | waiting
  | stopping
  deriving DecidableEq, Repr

abbrev SyncerRef := ℕ

/-- A step of a goroutine, the `who`-th of the live ones that `start` has made for the
syncer. In its select it takes the retry timer or receives from the channel. -/
structure GoStep where
  syncer : SyncerRef
  who : ℕ
  retry : Bool
  deriving DecidableEq, Repr

/-- The state of the manager, of the syncers and of their goroutines. `live` has the
goroutines of each syncer, also of one that is no longer in `syncerMap`. -/
structure Manager where
  svcPortMap : AList (fun _ : ServiceKey => List Str)
  syncerMap : AList (fun _ : ServicePort => SyncerRef)
  heap : SyncerRef → Syncer
  next : SyncerRef
  live : SyncerRef → List Phase
  interference : List (List GoStep)

inductive Panic
  | closeOfNilChannel
  | closeOfClosedChannel
  | sendOnClosedChannel
  | nilSyncer
  deriving DecidableEq, Repr

abbrev ManagerM (α : Type) := Prog Manager Panic α

namespace Manager

def store (w : Manager) (r : SyncerRef) (s : Syncer) : Manager := { w with heap := Function.update w.heap r s }

def setLive (w : Manager) (r : SyncerRef) (gs : List Phase) : Manager :=
  { w with live := Function.update w.live r gs }

def syncerAt (w : Manager) (key : ServicePort) : Option SyncerRef := w.syncerMap.lookup key

/-- A new syncer at a reference of its own. -/
def addSyncer (w : Manager) (key : ServicePort) : Manager :=
  { w.store w.next (newSyncer key) with next := w.next + 1, syncerMap := w.syncerMap.insert key w.next }

/-- The ports of a service that need NEGs. -/
def ports (w : Manager) (key : ServiceKey) : List Str := (w.svcPortMap.lookup key).getD []

end Manager

def newSyncerManager : Manager where
  svcPortMap := ∅
  syncerMap := ∅
  heap _ := newSyncer ⟨⟨[],[]⟩,[]⟩
  next := 0
  live _ := []
  interference := []

/-- One step of the goroutine that `start` makes. -/
def goStep (w : Manager) (g : GoStep) : Manager :=
  match (w.live g.syncer)[g.who]? with
  | none => w
  | some .syncing => w.setLive g.syncer ((w.live g.syncer).set g.who .waiting)
  | some .waiting =>
    if g.retry then w.setLive g.syncer ((w.live g.syncer).set g.who .syncing)
    else match (w.heap g.syncer).syncCh with
      | none => w
      | some ch =>
        -- A closed channel still delivers what it has buffered.
        if ch.buffered then
          (w.store g.syncer { w.heap g.syncer with syncCh := some { ch with buffered := false } }).setLive g.syncer
            ((w.live g.syncer).set g.who .syncing)
        else if ch.closed then w.setLive g.syncer ((w.live g.syncer).set g.who .stopping)
        else w
  | some .stopping =>
    (w.store g.syncer { w.heap g.syncer with shuttingDown := false }).setLive g.syncer
      ((w.live g.syncer).eraseIdx g.who)

/-- The goroutines take the steps of the next batch. -/
def interfere : ManagerM Unit := update (fun w =>
  match w.interference with
  | [] => w
  | batch :: rest => batch.foldl goStep { w with interference := rest })

section Syncer
variable (r : SyncerRef)

def isStopped : ManagerM Bool := do
  interfere
  let w ← state
  pure (w.heap r).stopped

def isShuttingDown : ManagerM Bool := do
  interfere
  let w ← state
  pure (w.heap r).shuttingDown

def init : ManagerM Unit := do
  interfere
  update (fun w => w.store r { w.heap r with stopped := false, syncCh := some { closed := false, buffered := false } })

inductive StartError
  | alreadyRunning (svcPort : ServicePort)
  | shuttingDown (svcPort : ServicePort)
  deriving DecidableEq, Repr

def start : ManagerM (Option StartError) := do
  let w ← state
  let stopped ← isStopped r
  if !stopped then pure (some (.alreadyRunning (w.heap r).servicePort))
  else do
    let down ← isShuttingDown r
    if down then pure (some (.shuttingDown (w.heap r).servicePort))
    else do
      init r
      update (fun w => w.setLive r (w.live r ++ [.syncing]))
      pure none

def stop : ManagerM Unit := do
  interfere
  let w ← state
  if (w.heap r).stopped then pure ()
  else match (w.heap r).syncCh with
    | none => fail .closeOfNilChannel
    | some ch =>
      if ch.closed then fail .closeOfClosedChannel
      else update (fun w => w.store r
        { w.heap r with stopped := true, shuttingDown := true, syncCh := some { ch with closed := true } })

/-- Signal the syncer, unless a signal is buffered already. -/
def signal : ManagerM Bool := do
  let stopped ← isStopped r
  if stopped then pure false
  else do
    interfere
    let w ← state
    match (w.heap r).syncCh with
    | none => pure false
    | some ch =>
      if ch.closed then fail .sendOnClosedChannel
      else if ch.buffered then pure false
      else do
        update (fun w => w.store r { w.heap r with syncCh := some { ch with buffered := true } })
        pure true

end Syncer

section Sections
variable (key : ServiceKey)

def stopPort (port : Str) : ManagerM Unit := do
  let w ← state
  match w.syncerAt ⟨key,port⟩ with
  | none => pure ()
  | some r => stop r

/-- The syncer of a port, made if there is none. -/
def syncerFor (port : Str) : ManagerM SyncerRef := do
  let w ← state
  match w.syncerAt ⟨key,port⟩ with
  | some r => pure r
  | none => do
    update (fun w => w.addSyncer ⟨key,port⟩)
    pure w.next

def startPort (port : Str) : ManagerM (Option StartError) := do
  let r ← syncerFor key port
  let stopped ← isStopped r
  if stopped then start r else pure none

/-- Start the ports in turn and keep the errors. -/
def startPorts : List Str → ManagerM (List StartError)
  | [] => pure []
  | port :: rest => do
    let e ← startPort key port
    let errList ← startPorts rest
    pure (e.toList ++ errList)

/-- The ports of the first list that are not in the second, in the order of the list. -/
def difference (ports others : List Str) : List Str := ports.filter (fun p => p ∉ others)

def ensureSyncers (targetPorts : List Str) : ManagerM (List StartError) := do
  let w ← state
  let removes := difference (w.ports key) targetPorts
  let adds := difference targetPorts (w.ports key)
  update (fun w => { w with svcPortMap := w.svcPortMap.insert key targetPorts })
  forEach (stopPort key) removes
  startPorts key adds

def stopSyncer : ManagerM Unit := do
  let w ← state
  match w.svcPortMap.lookup key with
  | none => pure ()
  | some ports => do
    forEach (stopPort key) ports
    update (fun w => { w with svcPortMap := w.svcPortMap.erase key })

def signalPort (port : Str) : ManagerM Unit := do
  let w ← state
  match w.syncerAt ⟨key,port⟩ with
  | none => pure ()
  | some r => do
    let stopped ← isStopped r
    if stopped then pure ()
    else do
      let _ ← signal r
      pure ()

def sync : ManagerM Unit := do
  let w ← state
  forEach (signalPort key) (w.ports key)

end Sections

def shutDown (order : Iteration ServicePort) : ManagerM Unit := do
  let w ← state
  forEach (fun key => stopPort key.service key.targetPort) (order.range w.syncerMap.keys)

/-- The keys, among those given, whose syncers are stopped. -/
def stoppedAmong : List ServicePort → ManagerM (List ServicePort)
  | [] => pure []
  | key :: rest => do
    let w ← state
    match w.syncerAt key with
    | none => stoppedAmong rest
    | some r => do
      let stopped ← isStopped r
      let others ← stoppedAmong rest
      pure (if stopped then key :: others else others)

def getAllStoppedSyncerKeys (order : Iteration ServicePort) : ManagerM (List ServicePort) := do
  let w ← state
  stoppedAmong (order.range w.syncerMap.keys)

def garbageCollectSyncer (key : ServicePort) : ManagerM Unit := do
  let w ← state
  match w.syncerAt key with
  | none => fail .nilSyncer
  | some r => do
    let stopped ← isStopped r
    if !stopped then pure ()
    else do
      let down ← isShuttingDown r
      if down then pure ()
      else update (fun w => { w with syncerMap := w.syncerMap.erase key })

/-- The part of `GC` that is about syncers. -/
def gc (order : Iteration ServicePort) : ManagerM Unit := do
  let keys ← getAllStoppedSyncerKeys order
  forEach garbageCollectSyncer keys

end IngressGce.NEG
