import IngressGce.NetworkEndpointGroup.Lifecycle

/-! # Interleavings of the manager and the goroutines

The manager's lock makes its critical sections follow one another. A garbage collection
takes the lock once to list the stopped syncers and once more for each of them, and
other sections may come between.
-/
namespace IngressGce.NEG
open Prog

structure System where
  manager : Manager
  gcKeys : List ServicePort

inductive Op
  | ensureSyncers (key : ServiceKey) (targetPorts : List Str)
  | stopSyncer (key : ServiceKey)
  | sync (key : ServiceKey)
  | shutDown (order : Iteration ServicePort)
  | getAllStoppedSyncerKeys (order : Iteration ServicePort)
  | garbageCollectSyncer
  | goroutine (g : GoStep)

/-- A critical section, or a step of a goroutine, with the steps that goroutines take
while the section has the lock. -/
structure Turn where
  op : Op
  interference : List (List GoStep)

namespace System

/-- What an operation does. It returns the keys that are then left for the garbage
collection, of which there is one at a time. -/
def run (s : System) : Op → ManagerM (List ServicePort)
  | .ensureSyncers key targetPorts => do
    let _ ← ensureSyncers key targetPorts
    pure s.gcKeys
  | .stopSyncer key => do
    stopSyncer key
    pure s.gcKeys
  | .sync key => do
    NEG.sync key
    pure s.gcKeys
  | .shutDown order => do
    shutDown order
    pure s.gcKeys
  | .getAllStoppedSyncerKeys order => if s.gcKeys.isEmpty then getAllStoppedSyncerKeys order else pure s.gcKeys
  | .garbageCollectSyncer =>
    match s.gcKeys with
    | [] => pure []
    | key :: rest => do
      garbageCollectSyncer key
      pure rest
  | .goroutine g => do
    update (fun w => goStep w g)
    pure s.gcKeys

def outcome (s : System) (t : Turn) : Except Panic (List ServicePort) × Manager :=
  s.run t.op { s.manager with interference := t.interference }

def step (s : System) (t : Turn) : System where
  manager := (s.outcome t).2
  gcKeys := (s.outcome t).1.toOption.getD s.gcKeys

def start : System where
  manager := newSyncerManager
  gcKeys := []

def goroutinesOf (s : System) (key : ServicePort) : List Phase :=
  ((List.range s.manager.next).filter (fun r => (s.manager.heap r).servicePort = key)).flatMap s.manager.live

/-- No service port has two goroutines, a syncer that is not in `syncerMap` has none, and
every running syncer is for a port in `svcPortMap`. -/
structure Safe (s : System) : Prop where
  single : ∀ key, (s.goroutinesOf key).length ≤ 1
  removed : ∀ r, (∀ key, s.manager.syncerAt key ≠ some r) → s.manager.live r = []
  covered : ∀ r < s.manager.next, (s.manager.heap r).stopped = false →
    (s.manager.heap r).servicePort.targetPort ∈ s.manager.ports (s.manager.heap r).servicePort.service

/-- The invariant of all interleavings. -/
structure Inv (s : System) : Prop where
  orderly : Orderly s.gcKeys s.manager
  distinct : s.gcKeys.Nodup

variable {s : System}

theorem Inv.start : Inv start := ⟨newSyncerManager_orderly,List.nodup_nil⟩

theorem flatMap_live_length {w : Manager} (h : Sound w) (key : ServicePort) {rs : List SyncerRef} (hrs : rs.Nodup)
    (hkey : ∀ r ∈ rs, (w.heap r).servicePort = key) : (rs.flatMap w.live).length ≤ 1 := by
  induction rs with
  | nil => simp
  | cons r rest ih =>
    obtain ⟨hnot,hrest⟩ := List.nodup_cons.mp hrs
    have hih := ih hrest fun r' hr' => hkey r' (List.mem_cons_of_mem _ hr')
    by_cases hlive : w.live r = []
    · simpa [hlive] using hih
    · have hat := h.at_own hlive
      rw [hkey r List.mem_cons_self] at hat
      have hothers : rest.flatMap w.live = [] := by
        rw [List.flatMap_eq_nil_iff]
        intro r' hr'
        by_contra hlive'
        have hat' := h.at_own hlive'
        rw [hkey r' (List.mem_cons_of_mem _ hr'),hat] at hat'
        obtain rfl := Option.some.inj hat'
        exact hnot hr'
      simpa [hothers] using (h.ok hat).length_le

theorem Inv.safe (h : Inv s) : s.Safe where
  single key := by
    refine flatMap_live_length h.orderly.sound key (List.nodup_range.filter _) ?_
    intro r hr
    simpa using (List.mem_filter.mp hr).2
  removed r hr := (h.orderly.sound.gone hr).1
  covered r hlt hrun := by
    by_contra hnot
    by_cases hat : s.manager.syncerAt (s.manager.heap r).servicePort = some r
    · exact hnot (h.orderly.running hat hrun)
    · have hgone : ∀ key, s.manager.syncerAt key ≠ some r := by
        intro key hkey
        rw [(h.orderly.sound.named hkey).2] at hat
        exact hat hkey
      have hstopped := (h.orderly.sound.gone hgone).2 hlt
      simp [hrun] at hstopped

theorem run_orderly (h : Inv s) (op : Op) {w : Manager} (hw : Orderly s.gcKeys w) :
    Returns (s.run op) w (fun keys w' => Orderly keys w' ∧ keys.Nodup) := by
  have hkept : ∀ {α : Type} {m : ManagerM α}, Returns m w (fun _ w' => Orderly s.gcKeys w') →
      Returns (m >>= fun _ => pure s.gcKeys) w (fun keys w' => Orderly keys w' ∧ keys.Nodup) := by
    intro α m hm
    rw [returns_bind]
    exact hm.mono fun _ w' hw' => (returns_pure _ _ _).mpr ⟨hw',h.distinct⟩
  cases op with
  | ensureSyncers key targetPorts => exact hkept (ensureSyncers_orderly hw key targetPorts)
  | stopSyncer key => exact hkept (stopSyncer_orderly hw key)
  | sync key => exact hkept (sync_orderly hw key)
  | shutDown order => exact hkept (shutDown_orderly hw order)
  | getAllStoppedSyncerKeys order =>
    rw [run,returns_ite]
    refine ⟨fun _ => ?_,fun _ => (returns_pure _ _ _).mpr ⟨hw,h.distinct⟩⟩
    exact (getAllStoppedSyncerKeys_good hw order).mono fun keys w' hw' => ⟨hw'.1.orderly,hw'.2⟩
  | garbageCollectSyncer =>
    have hdistinct := h.distinct
    unfold run
    generalize s.gcKeys = keys at hw hdistinct ⊢
    cases keys with
    | nil => exact (returns_pure _ _ _).mpr ⟨hw,hdistinct⟩
    | cons key rest =>
      obtain ⟨hkey,hrest⟩ := List.nodup_cons.mp hdistinct
      simp only [returns_bind,returns_pure]
      exact (garbageCollectSyncer_good hw hkey).mono fun _ w' hw' => ⟨hw'.orderly,hrest⟩
  | goroutine g =>
    apply hkept
    rw [returns_update]
    obtain ⟨hsound,hi⟩ := goStep_sound hw.sound g
    exact (Good.interfered hw hsound hi).orderly

/-- No turn panics, and every turn keeps the invariant. -/
theorem Inv.step (h : Inv s) (t : Turn) : (s.outcome t).1.isOk ∧ Inv (s.step t) := by
  have hw : Orderly s.gcKeys { s.manager with interference := t.interference } :=
    ⟨⟨h.orderly.sound.named,h.orderly.sound.ok,h.orderly.sound.gone⟩,rfl,h.orderly.kept,h.orderly.running⟩
  obtain ⟨keys,hok,horderly,hdistinct⟩ := run_orderly h t.op hw
  have hout : (s.outcome t).1 = .ok keys := hok
  have hkeys : (s.step t).gcKeys = keys := by simp [System.step,hout,Except.toOption]
  refine ⟨by rw [hout]; rfl,?_,?_⟩
  · rw [hkeys]
    exact horderly
  · rw [hkeys]
    exact hdistinct

/-- In every interleaving, every turn completes without a panic and leaves a safe state. -/
theorem interleavings_safe (turns : List Turn) :
    Runs.Along step (fun s t => s.Safe ∧ (s.outcome t).1.isOk ∧ (s.step t).Safe) start turns := by
  have hall : Runs.Along step (fun _ _ => True) start turns := Runs.along_of_forall (fun _ _ _ => trivial) _
  refine hall.strengthen (I := Inv) ?_ Inv.start
  intro s t hI _
  obtain ⟨hok,hnext⟩ := hI.step t
  exact ⟨hnext,hI.safe,hok,hnext.safe⟩

end System
end IngressGce.NEG
