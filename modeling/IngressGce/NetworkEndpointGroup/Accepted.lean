import IngressGce.NetworkEndpointGroup.Lifecycle

/-! # Services whose sync was accepted

Here the critical sections are atomic and the steps of the goroutines come between
them. `ensureSyncers` records the ports it is asked for before it starts their syncers,
and starts only those that were not recorded before. A port whose start was refused is
therefore not started when the call is repeated.
-/
namespace IngressGce.NEG
open Prog

/-- What the manager sees of the syncer of a service port. -/
inductive Status
  | absent
  | idle
  | shuttingDown
  | running
  deriving DecidableEq, Repr

def Syncer.status (s : Syncer) : Status :=
  if s.stopped then (if s.shuttingDown then .shuttingDown else .idle) else .running

def Manager.status (w : Manager) (key : ServicePort) : Status :=
  match w.syncerAt key with
  | none => .absent
  | some r => (w.heap r).status

namespace Status

def stop : Status → Status
  | .running => .shuttingDown
  | st => st

def start : Status → Status
  | .shuttingDown => .shuttingDown
  | _ => .running

@[simp] theorem start_start (st : Status) : st.start.start = st.start := by
  cases st <;> rfl

@[simp] theorem stop_stop (st : Status) : st.stop.stop = st.stop := by
  cases st <;> rfl

theorem start_eq_running (st : Status) : st.start = .running ↔ st ≠ .shuttingDown := by
  cases st <;> decide

end Status

/-- A state between two atomic sections. -/
structure Quiet (w : Manager) : Prop where
  sound : Sound w
  quiet : w.interference = []

section Atomic
variable {w : Manager}

@[simp] theorem returns_interfere (h : w.interference = []) (Q : Unit → Manager → Prop) :
    Returns interfere w Q ↔ Q () w := by
  simp [interfere,h]

@[simp] theorem returns_isStopped (h : w.interference = []) (r : SyncerRef) (Q : Bool → Manager → Prop) :
    Returns (isStopped r) w Q ↔ Q (w.heap r).stopped w := by
  simp [isStopped,h]

@[simp] theorem returns_isShuttingDown (h : w.interference = []) (r : SyncerRef) (Q : Bool → Manager → Prop) :
    Returns (isShuttingDown r) w Q ↔ Q (w.heap r).shuttingDown w := by
  simp [isShuttingDown,h]

/-- The statuses of the keys among the ports of a service change by `f`, all others stay. -/
def Changes (f : Status → Status) (key : ServiceKey) (ports : List Str) (w w' : Manager) : Prop :=
  ∀ k : ServicePort, w'.status k = if k.service = key ∧ k.targetPort ∈ ports then f (w.status k) else w.status k

theorem status_change (h : Sound w) {key : ServicePort} {r : SyncerRef} (hr : w.syncerAt key = some r) (s : Syncer)
    (gs : List Phase) (k : ServicePort) :
    ((w.store r s).setLive r gs).status k = if k = key then s.status else w.status k := by
  by_cases hk : k = key
  · subst hk
    have hat : ((w.store r s).setLive r gs).syncerAt k = some r := hr
    rw [if_pos rfl,Manager.status,hat]
    simp [Manager.setLive,Manager.store]
  · rw [if_neg hk,Manager.status,Manager.status]
    have hat : ((w.store r s).setLive r gs).syncerAt k = w.syncerAt k := rfl
    rw [hat]
    cases hr' : w.syncerAt k with
    | none => rfl
    | some r' =>
      have hne : r' ≠ r := by
        intro he
        subst he
        exact hk ((h.named hr').2.symm.trans (h.named hr).2)
      simp [Manager.setLive,Manager.store,hne]

theorem status_store (h : Sound w) {key : ServicePort} {r : SyncerRef} (hr : w.syncerAt key = some r) (s : Syncer)
    (k : ServicePort) : (w.store r s).status k = if k = key then s.status else w.status k := by
  have hsame : (w.store r s).setLive r (w.live r) = w.store r s := by
    simp [Manager.setLive,Manager.store]
  rw [← hsame]
  exact status_change h hr s (w.live r) k

theorem status_of_at {key : ServicePort} {r : SyncerRef} (hr : w.syncerAt key = some r) :
    w.status key = (w.heap r).status := by
  rw [Manager.status,hr]

theorem changes_one {f : Status → Status} {key : ServiceKey} {port : Str} {w' : Manager}
    (h : ∀ k, w'.status k = if k = ⟨key,port⟩ then f (w.status k) else w.status k) : Changes f key [port] w w' := by
  rintro ⟨service,p⟩
  rw [h]
  simp

/-- Changes of two parts of a list of ports add up, if changing twice is changing once. -/
theorem Changes.append {f : Status → Status} {key : ServiceKey} {ports others : List Str} {w₁ w₂ : Manager}
    (hf : ∀ st, f (f st) = f st) (h : Changes f key ports w w₁) (h' : Changes f key others w₁ w₂) :
    Changes f key (ports ++ others) w w₂ := by
  intro k
  rw [h' k,h k]
  by_cases hs : k.service = key <;> by_cases hp : k.targetPort ∈ ports <;> by_cases ho : k.targetPort ∈ others <;>
    simp [hs,hp,ho,hf]

/-- What a part of a section does to the statuses, with all else it keeps. -/
def Acts (f : Status → Status) (key : ServiceKey) (ports : List Str) (w w' : Manager) : Prop :=
  Quiet w' ∧ w'.svcPortMap = w.svcPortMap ∧ Changes f key ports w w'

theorem Quiet.good (h : Quiet w) : Good w.svcPortMap [] (fun _ => True) w := ⟨h.sound,rfl,by simp,by simp⟩

theorem stop_status (h : Quiet w) {key : ServicePort} {r : SyncerRef} (hr : w.syncerAt key = some r) :
    Returns (stop r) w (fun _ w' => w'.interference = [] ∧
      ∀ k, w'.status k = if k = key then (w.status k).stop else w.status k) := by
  simp only [stop,returns_bind,returns_interfere h.quiet,returns_state,returns_ite,returns_pure]
  refine ⟨fun hstopped => ⟨h.quiet,?_⟩,fun hrun => ?_⟩
  · intro k
    split
    · rename_i hk
      rw [hk,status_of_at hr,Syncer.status,if_pos hstopped]
      split <;> rfl
    · rfl
  · have hok := h.sound.ok hr
    generalize hgs : w.live r = gs at hok
    cases hok with
    | shuttingDown stopped down => exact absurd stopped hrun
    | idle stopped up => exact absurd stopped hrun
    | running runs up channel opened looping =>
      simp only [channel,opened,Bool.false_eq_true,↓reduceIte,returns_update]
      refine ⟨h.quiet,fun k => ?_⟩
      rw [status_store h.sound hr]
      split
      · rename_i hk
        rw [hk,status_of_at hr]
        simp [Syncer.status,runs,Status.stop]
      · rfl

theorem stopPort_acts (h : Quiet w) (key : ServiceKey) (port : Str) :
    Returns (stopPort key port) w (fun _ w' => Acts .stop key [port] w w') := by
  have hstatus : Returns (stopPort key port) w (fun _ w' => w'.interference = [] ∧ Changes .stop key [port] w w') := by
    simp only [stopPort,returns_bind,returns_state]
    cases hr : w.syncerAt ⟨key,port⟩ with
    | some r => exact (stop_status h hr).mono fun _ w' hw' => ⟨hw'.1,changes_one hw'.2⟩
    | none =>
      refine (returns_pure _ _ _).mpr ⟨h.quiet,changes_one fun k => ?_⟩
      split
      · rename_i hk
        simp [hk,Manager.status,hr,Status.stop]
      · rfl
  exact ((stopPort_good h.good key port).and hstatus).mono fun _ w' hw' =>
    ⟨⟨hw'.1.sound,hw'.2.1⟩,hw'.1.svcPortMap,hw'.2.2⟩

theorem stopPorts_acts (h : Quiet w) (key : ServiceKey) (ports : List Str) :
    Returns (forEach (stopPort key) ports) w (fun _ w' => Acts .stop key ports w w') := by
  induction ports generalizing w with
  | nil => exact (returns_pure _ _ _).mpr ⟨h,rfl,fun k => by simp⟩
  | cons port rest ih =>
    rw [forEach,returns_bind]
    refine (stopPort_acts h key port).mono ?_
    rintro - w₁ ⟨h₁,hp₁,hc₁⟩
    refine (ih h₁).mono ?_
    rintro - w₂ ⟨h₂,hp₂,hc₂⟩
    exact ⟨h₂,hp₂.trans hp₁,hc₁.append Status.stop_stop hc₂⟩

theorem status_addSyncer (h : Sound w) (key k : ServicePort) :
    (w.addSyncer key).status k = if k = key then .idle else w.status k := by
  by_cases hk : k = key
  · have hat : (w.addSyncer key).syncerAt k = some w.next := by rw [syncerAt_addSyncer,if_pos hk]
    rw [status_of_at hat,if_pos hk]
    simp [Manager.addSyncer,Manager.store,newSyncer,Syncer.status]
  · have hat : (w.addSyncer key).syncerAt k = w.syncerAt k := by rw [syncerAt_addSyncer,if_neg hk]
    rw [if_neg hk,Manager.status,Manager.status,hat]
    cases hr : w.syncerAt k with
    | none => rfl
    | some r => simp only [heap_addSyncer_of_lt (h.named hr).1]

/-- Starting is refused exactly while the syncer is shutting down. -/
theorem startIfStopped_status (h : Quiet w) {key : ServicePort} {r : SyncerRef} (hr : w.syncerAt key = some r) :
    Returns (isStopped r >>= fun stopped => if stopped then start r else pure none) w (fun e w' =>
      w'.interference = [] ∧ (e = none ↔ w.status key ≠ .shuttingDown) ∧
      ∀ k, w'.status k = if k = key then (w.status k).start else w.status k) := by
  have hst := status_of_at hr
  have hsame : (w.status key).start = w.status key →
      ∀ k, w.status k = if k = key then (w.status k).start else w.status k := by
    intro hfix k
    split
    · rename_i hk
      rw [hk,hfix]
    · rfl
  simp only [start,init,returns_bind,returns_isStopped h.quiet,returns_isShuttingDown h.quiet,
    returns_interfere h.quiet,returns_state,returns_update,returns_ite,returns_pure]
  refine ⟨fun hstopped => ⟨fun hrun => ?_,fun _ => ⟨fun hdown => ?_,fun hup => ?_⟩⟩,fun hrun => ?_⟩
  · simp [hstopped] at hrun
  · have hdown' : w.status key = .shuttingDown := by simp [hst,Syncer.status,hstopped,hdown]
    exact ⟨h.quiet,by simp [hdown'],hsame (by rw [hdown']; rfl)⟩
  · have hidle : w.status key = .idle := by simp [hst,Syncer.status,hstopped,hup]
    refine ⟨h.quiet,by simp [hidle],fun k => ?_⟩
    rw [status_change h.sound hr]
    split
    · rename_i hk
      rw [hk,hidle]
      simp [Syncer.status,Status.start]
    · rfl
  · have hrunning : w.status key = .running := by simp [hst,Syncer.status,hrun]
    exact ⟨h.quiet,by simp [hrunning],hsame (by rw [hrunning]; rfl)⟩

theorem startPort_acts (h : Quiet w) (key : ServiceKey) (port : Str) : Returns (startPort key port) w
    (fun e w' => Acts .start key [port] w w' ∧ (e = none ↔ w.status ⟨key,port⟩ ≠ .shuttingDown)) := by
  have hstatus : Returns (startPort key port) w (fun e w' => w'.interference = [] ∧
      (e = none ↔ w.status ⟨key,port⟩ ≠ .shuttingDown) ∧ Changes .start key [port] w w') := by
    rw [startPort,returns_bind]
    simp only [syncerFor,returns_bind,returns_state]
    cases hr : w.syncerAt ⟨key,port⟩ with
    | some r =>
      rw [returns_pure,← returns_bind]
      exact (startIfStopped_status h hr).mono fun e w' hw' => ⟨hw'.1,hw'.2.1,changes_one hw'.2.2⟩
    | none =>
      have habsent : w.status ⟨key,port⟩ = .absent := by rw [Manager.status,hr]
      have hquiet : Quiet (w.addSyncer ⟨key,port⟩) := ⟨h.sound.addSyncer hr,h.quiet⟩
      have hat : (w.addSyncer ⟨key,port⟩).syncerAt ⟨key,port⟩ = some w.next := by
        rw [syncerAt_addSyncer,if_pos rfl]
      have hadded := status_addSyncer h.sound (⟨key,port⟩ : ServicePort)
      simp only [returns_bind,returns_update,returns_pure]
      rw [← returns_bind]
      refine (startIfStopped_status hquiet hat).mono ?_
      rintro e w' ⟨hq,he,hch⟩
      refine ⟨hq,by simpa [hadded,habsent] using he,changes_one fun k => ?_⟩
      rw [hch k,hadded k]
      split
      · rename_i hk
        rw [hk,habsent]
        rfl
      · rfl
  have hkept : Returns (startPort key port) w (fun _ w' => Good w.svcPortMap [] (fun _ => True) w') :=
    startPort_good h.good key trivial
  exact (hkept.and hstatus).mono fun e w' hw' =>
    ⟨⟨⟨hw'.1.sound,hw'.2.1⟩,hw'.1.svcPortMap,hw'.2.2.2⟩,hw'.2.2.1⟩

theorem Changes.of_not_mem {f : Status → Status} {key : ServiceKey} {ports : List Str} {w' : Manager}
    (h : Changes f key ports w w') {port : Str} (hport : port ∉ ports) : w'.status ⟨key,port⟩ = w.status ⟨key,port⟩ := by
  rw [h]
  simp [hport]

theorem startPorts_acts (h : Quiet w) (key : ServiceKey) (ports : List Str) : Returns (startPorts key ports) w
    (fun errList w' => Acts .start key ports w w' ∧
      (errList = [] ↔ ∀ p ∈ ports, w.status ⟨key,p⟩ ≠ .shuttingDown)) := by
  induction ports generalizing w with
  | nil => exact (returns_pure _ _ _).mpr ⟨⟨h,rfl,fun k => by simp⟩,by simp⟩
  | cons port rest ih =>
    simp only [startPorts,returns_bind,returns_pure]
    refine (startPort_acts h key port).mono ?_
    rintro e w₁ ⟨⟨h₁,hp₁,hc₁⟩,he₁⟩
    refine (ih h₁).mono ?_
    rintro errList w₂ ⟨⟨h₂,hp₂,hc₂⟩,he₂⟩
    refine ⟨⟨h₂,hp₂.trans hp₁,hc₁.append Status.start_start hc₂⟩,?_⟩
    -- A start changes no status into or out of shutting down.
    have hkept : ∀ p, w₁.status ⟨key,p⟩ ≠ .shuttingDown ↔ w.status ⟨key,p⟩ ≠ .shuttingDown := by
      intro p
      rw [hc₁ ⟨key,p⟩]
      split
      · cases w.status ⟨key,p⟩ <;> simp [Status.start]
      · rfl
    have hnone : e.toList = [] ↔ e = none := by cases e <;> simp
    simp only [List.append_eq_nil_iff,hnone,he₁,he₂,hkept,List.forall_mem_cons]

/-- The ports that `ensureSyncers` starts. -/
def Manager.adds (w : Manager) (key : ServiceKey) (targetPorts : List Str) : List Str :=
  difference targetPorts (w.ports key)

theorem mem_adds {key : ServiceKey} {targetPorts : List Str} {p : Str} :
    p ∈ w.adds key targetPorts ↔ p ∈ targetPorts ∧ p ∉ w.ports key := by
  simp [Manager.adds,difference]

/-- A wanted port that was recorded before keeps its status, and one that was not is started. -/
theorem ensureSyncers_acts (h : Quiet w) (key : ServiceKey) (targetPorts : List Str) :
    Returns (ensureSyncers key targetPorts) w (fun errList w' => Quiet w' ∧
      w'.svcPortMap = w.svcPortMap.insert key targetPorts ∧
      (errList = [] ↔ ∀ p ∈ w.adds key targetPorts, w.status ⟨key,p⟩ ≠ .shuttingDown) ∧
      (∀ k : ServicePort, k.service ≠ key → w'.status k = w.status k) ∧
      ∀ p ∈ targetPorts, w'.status ⟨key,p⟩ =
        if p ∈ w.ports key then w.status ⟨key,p⟩ else (w.status ⟨key,p⟩).start) := by
  simp only [ensureSyncers,returns_bind,returns_state,returns_update]
  have hquiet : Quiet { w with svcPortMap := w.svcPortMap.insert key targetPorts } :=
    ⟨⟨h.sound.named,h.sound.ok,h.sound.gone⟩,h.quiet⟩
  refine (stopPorts_acts hquiet key _).mono ?_
  rintro - w₁ ⟨h₁,hp₁,hc₁⟩
  refine (startPorts_acts h₁ key (w.adds key targetPorts)).mono ?_
  rintro errList w₂ ⟨⟨h₂,hp₂,hc₂⟩,he₂⟩
  -- The removed ports are unwanted, so stopping them leaves the wanted ones as they are.
  have hwanted : ∀ p ∈ targetPorts, w₁.status ⟨key,p⟩ = w.status ⟨key,p⟩ := by
    intro p hp
    refine hc₁.of_not_mem ?_
    simp [difference,hp]
  refine ⟨h₂,hp₂.trans hp₁,?_,?_,?_⟩
  · rw [he₂]
    refine forall₂_congr fun p hp => ?_
    rw [hwanted p (mem_adds.mp hp).1]
  · intro k hk
    have hstopped : w₁.status k = w.status k := (hc₁ k).trans (if_neg (by simp [hk]))
    rw [hc₂ k,hstopped]
    simp [hk]
  · intro p hp
    rw [hc₂ ⟨key,p⟩,hwanted p hp]
    by_cases hold : p ∈ w.ports key
    · simp [mem_adds,hold]
    · simp [mem_adds,hold,hp]

theorem stopSyncer_acts (h : Quiet w) (key : ServiceKey) : Returns (stopSyncer key) w (fun _ w' => Quiet w' ∧
    (∀ k : ServicePort, k.service ≠ key → w'.status k = w.status k) ∧
    ∀ k, w'.svcPortMap.lookup k = if k = key then none else w.svcPortMap.lookup k) := by
  simp only [stopSyncer,returns_bind,returns_state]
  cases hports : w.svcPortMap.lookup key with
  | none =>
    refine (returns_pure _ _ _).mpr ⟨h,fun _ _ => rfl,fun k => ?_⟩
    split
    · rename_i hk
      rw [hk,hports]
    · rfl
  | some ports =>
    simp only [returns_bind,returns_update]
    refine (stopPorts_acts h key ports).mono ?_
    rintro - w₁ ⟨h₁,hp₁,hc₁⟩
    refine ⟨⟨⟨h₁.sound.named,h₁.sound.ok,h₁.sound.gone⟩,h₁.quiet⟩,fun k hk => ?_,fun k => ?_⟩
    · have hsame : w₁.status k = w.status k := by
        rw [hc₁ k]
        simp [hk]
      exact hsame
    · split
      · rename_i hk
        rw [hk,AList.lookup_erase]
      · rename_i hk
        rw [AList.lookup_erase_ne hk,hp₁]

/-- What runs goes on running. -/
def KeepsRunning (w w' : Manager) : Prop := ∀ k, w.status k = .running → w'.status k = .running

theorem KeepsRunning.trans {w₁ w₂ : Manager} (h : KeepsRunning w w₁) (h' : KeepsRunning w₁ w₂) : KeepsRunning w w₂ :=
  fun k hk => h' k (h k hk)

theorem status_running_iff {key : ServicePort} :
    w.status key = .running ↔ ∃ r, w.syncerAt key = some r ∧ (w.heap r).stopped = false := by
  rw [Manager.status]
  cases hr : w.syncerAt key with
  | none => simp
  | some r =>
    cases hs : (w.heap r).stopped with
    | false => simp [Syncer.status,hs]
    | true => cases hd : (w.heap r).shuttingDown <;> simp [Syncer.status,hs,hd]

theorem goStep_interference (w : Manager) (g : GoStep) : (goStep w g).interference = w.interference := by
  unfold goStep
  cases (w.live g.syncer)[g.who]? with
  | none => rfl
  | some phase =>
    cases phase with
    | waiting =>
      simp only
      split
      · rfl
      · cases (w.heap g.syncer).syncCh with
        | none => rfl
        | some ch =>
          simp only
          split
          · rfl
          · split <;> rfl
    | _ => rfl

theorem Interfered.keepsRunning {w' : Manager} (h : Interfered w w') : KeepsRunning w w' := by
  intro k hk
  obtain ⟨r,hr,hrun⟩ := status_running_iff.mp hk
  exact status_running_iff.mpr ⟨r,by rw [h.syncerAt,hr],by rw [h.stopped,hrun]⟩

theorem stoppedAmong_atomic (h : w.interference = []) (keys : List ServicePort) :
    Returns (stoppedAmong keys) w (fun _ w' => w' = w) := by
  induction keys with
  | nil => exact (returns_pure _ _ _).mpr rfl
  | cons key rest ih =>
    simp only [stoppedAmong,returns_bind,returns_state]
    cases w.syncerAt key with
    | none => exact ih
    | some r =>
      simp only [returns_bind,returns_isStopped h,returns_pure]
      exact ih

theorem garbageCollectSyncer_running (h : Quiet w) {key : ServicePort} (hkey : (w.syncerAt key).isSome) :
    Returns (garbageCollectSyncer key) w (fun _ w' => w'.interference = [] ∧ KeepsRunning w w') := by
  obtain ⟨r,hr⟩ := Option.isSome_iff_exists.mp hkey
  simp only [garbageCollectSyncer,returns_bind,returns_state,hr,returns_isStopped h.quiet,
    returns_isShuttingDown h.quiet,returns_ite,returns_pure,returns_update]
  refine ⟨fun _ => ⟨h.quiet,fun _ hk => hk⟩,fun hstopped => ⟨fun _ => ⟨h.quiet,fun _ hk => hk⟩,fun _ => ⟨h.quiet,?_⟩⟩⟩
  intro k hk
  obtain ⟨r',hr',hrun⟩ := status_running_iff.mp hk
  have hne : k ≠ key := by
    intro he
    subst he
    obtain rfl := Option.some.inj (hr'.symm.trans hr)
    simp [hrun] at hstopped
  exact status_running_iff.mpr ⟨r',by rw [syncerAt_erase,if_neg hne,hr'],hrun⟩

theorem gc_acts (h : Quiet w) (order : Iteration ServicePort) :
    Returns (gc order) w (fun _ w' => Quiet w' ∧ KeepsRunning w w' ∧ w'.svcPortMap = w.svcPortMap) := by
  have hlist : Returns (getAllStoppedSyncerKeys order) w (fun _ w' => w' = w) := by
    simp only [getAllStoppedSyncerKeys,returns_bind,returns_state]
    exact stoppedAmong_atomic h.quiet _
  rw [gc,returns_bind]
  refine ((getAllStoppedSyncerKeys_good h.good order).and hlist).mono ?_
  rintro keys w₁ ⟨⟨hgood,hnodup⟩,rfl⟩
  have hloop := returns_forEach garbageCollectSyncer (s := w₁) (fun rest w' => rest.Nodup ∧
    Good w₁.svcPortMap rest (fun _ => True) w' ∧ w'.interference = [] ∧ KeepsRunning w₁ w') ?_ keys
    ⟨hnodup,hgood,h.quiet,fun _ hk => hk⟩
  · exact hloop.mono fun _ w' hw' => ⟨⟨hw'.2.1.sound,hw'.2.2.1⟩,hw'.2.2.2,hw'.2.1.svcPortMap⟩
  · rintro key rest w' ⟨hnodup',hgood',hq',hruns'⟩
    obtain ⟨hkey,hrest⟩ := List.nodup_cons.mp hnodup'
    have hone := garbageCollectSyncer_running ⟨hgood'.sound,hq'⟩ (hgood'.kept key List.mem_cons_self)
    refine ((garbageCollectSyncer_good hgood' hkey).and hone).mono ?_
    rintro - w'' ⟨hgood'',hq'',hruns''⟩
    exact ⟨hrest,hgood'',hq'',hruns'.trans hruns''⟩

end Atomic

/-- The operations on services, collections of stopped syncers and steps of goroutines.
A repeated call of `ensureSyncers` is one more operation. -/
inductive Act
  | ensureSyncers (key : ServiceKey) (targetPorts : List Str)
  | stopSyncer (key : ServiceKey)
  | gc (order : Iteration ServicePort)
  | goroutine (g : GoStep)

/-- The manager, and for each service the ports of the last operation on it if that was an
`ensureSyncers` that returned no error. -/
structure Watched where
  manager : Manager
  accepted : ServiceKey → Option (List Str)

namespace Watched

def step (s : Watched) : Act → Watched
  | .ensureSyncers key targetPorts =>
    match ensureSyncers key targetPorts s.manager with
    | (.ok [],w) => { manager := w, accepted := Function.update s.accepted key (some targetPorts) }
    | (_,w) => { manager := w, accepted := Function.update s.accepted key none }
  | .stopSyncer key =>
    { manager := (stopSyncer key s.manager).2, accepted := Function.update s.accepted key none }
  | .gc order => { s with manager := (gc order s.manager).2 }
  | .goroutine g => { s with manager := goStep s.manager g }

def start : Watched where
  manager := newSyncerManager
  accepted _ := none

/-- The syncer of a service port is there and neither stopped nor shutting down. -/
def Runs (w : Manager) (key : ServicePort) : Prop :=
  ∃ r, w.syncerAt key = some r ∧ (w.heap r).stopped = false ∧ (w.heap r).shuttingDown = false

/-- The syncer of a service port is stopped and its goroutine has not exited yet. -/
def ShutsDown (w : Manager) (key : ServicePort) : Prop :=
  ∃ r, w.syncerAt key = some r ∧ (w.heap r).stopped = true ∧ (w.heap r).shuttingDown = true

/-- Every port of an accepted service has a running syncer. -/
def AcceptedRun (s : Watched) : Prop :=
  ∀ key ports, s.accepted key = some ports → ∀ p ∈ ports, Runs s.manager ⟨key,p⟩

/-- Unless it is refused itself, the call finds the syncers of the recorded ports running. -/
def FindsRunning (s : Watched) : Act → Prop
  | .ensureSyncers key targetPorts =>
    (∃ p ∈ targetPorts, p ∉ s.manager.ports key ∧ ShutsDown s.manager ⟨key,p⟩) ∨
      ∀ p ∈ targetPorts, p ∈ s.manager.ports key → Runs s.manager ⟨key,p⟩
  | _ => True

variable {s : Watched} {w : Manager}

theorem runs_iff (h : Sound w) (key : ServicePort) : Runs w key ↔ w.status key = .running := by
  rw [status_running_iff]
  constructor
  · rintro ⟨r,hr,hrun,-⟩
    exact ⟨r,hr,hrun⟩
  · rintro ⟨r,hr,hrun⟩
    have hok := h.ok hr
    refine ⟨r,hr,hrun,?_⟩
    generalize w.live r = gs at hok
    cases hok with
    | running runs up channel opened looping => exact up
    | shuttingDown stopped down => simp [hrun] at stopped
    | idle stopped up => exact up

theorem shutsDown_iff (key : ServicePort) : ShutsDown w key ↔ w.status key = .shuttingDown := by
  rw [ShutsDown,Manager.status]
  cases hr : w.syncerAt key with
  | none => simp
  | some r => cases hs : (w.heap r).stopped <;> cases hd : (w.heap r).shuttingDown <;> simp [Syncer.status,hs,hd]

theorem step_ensureSyncers {key : ServiceKey} {targetPorts : List Str} {errList : List StartError}
    (h : (ensureSyncers key targetPorts s.manager).1 = .ok errList) :
    s.step (.ensureSyncers key targetPorts) =
      { manager := (ensureSyncers key targetPorts s.manager).2
        accepted := Function.update s.accepted key (if errList = [] then some targetPorts else none) } := by
  rw [step]
  generalize ensureSyncers key targetPorts s.manager = out at h ⊢
  obtain ⟨r,w⟩ := out
  cases h
  cases errList <;> rfl

/-- An operation keeps the services accepted that it is not about. -/
theorem AcceptedRun.of_others (h : s.AcceptedRun) (hs : Sound s.manager) (hw : Sound w) (key : ServiceKey)
    (hothers : ∀ k : ServicePort, k.service ≠ key → w.status k = s.manager.status k) {verdict : Option (List Str)}
    (hself : ∀ ports, verdict = some ports → ∀ p ∈ ports, Runs w ⟨key,p⟩) :
    AcceptedRun { manager := w, accepted := Function.update s.accepted key verdict } := by
  intro key' ports hacc p hp
  by_cases hkey : key' = key
  · subst hkey
    exact hself ports (by simpa using hacc) p hp
  · have hrun := h key' ports (by simpa [hkey] using hacc) p hp
    rw [runs_iff hw,hothers ⟨key',p⟩ hkey]
    exact (runs_iff hs _).mp hrun

theorem AcceptedRun.keeps (h : s.AcceptedRun) (hs : Sound s.manager) (hw : Sound w) (hk : KeepsRunning s.manager w) :
    AcceptedRun { s with manager := w } := by
  intro key ports hacc p hp
  rw [runs_iff hw]
  exact hk _ ((runs_iff hs _).mp (h key ports hacc p hp))

theorem step_quiet (h : Quiet s.manager) (a : Act) : Quiet (s.step a).manager := by
  cases a with
  | ensureSyncers key targetPorts =>
    obtain ⟨errList,hok,hquiet,-⟩ := ensureSyncers_acts h key targetPorts
    rw [step_ensureSyncers hok]
    exact hquiet
  | stopSyncer key =>
    obtain ⟨_,-,hquiet,-⟩ := stopSyncer_acts h key
    exact hquiet
  | gc order =>
    obtain ⟨_,-,hquiet,-⟩ := gc_acts h order
    exact hquiet
  | goroutine g => exact ⟨(goStep_sound h.sound g).1,goStep_interference s.manager g ▸ h.quiet⟩

/-- A port that is started unless it is recorded ends up running, if it runs already or
can be started. -/
theorem ite_start_eq_running {c : Prop} [Decidable c] {st : Status} :
    (if c then st else st.start) = .running ↔ (c → st = .running) ∧ (¬c → st ≠ .shuttingDown) := by
  by_cases hc : c <;> simp [hc,Status.start_eq_running]

/-- The errors of an `ensureSyncers` come from the ports that are refused. -/
theorem refused_iff {key : ServiceKey} {targetPorts : List Str} :
    (∃ p ∈ targetPorts, p ∉ w.ports key ∧ ShutsDown w ⟨key,p⟩) ↔
      ¬∀ p ∈ w.adds key targetPorts, w.status ⟨key,p⟩ ≠ .shuttingDown := by
  simp only [mem_adds,shutsDown_iff]
  push Not
  constructor
  · rintro ⟨p,hp,hnew,hdown⟩
    exact ⟨p,⟨hp,hnew⟩,hdown⟩
  · rintro ⟨p,⟨hp,hnew⟩,hdown⟩
    exact ⟨p,hp,hnew,hdown⟩

/-- After a step the accepted services run exactly if an `ensureSyncers` that is not
refused has found its recorded ports running. -/
theorem step_accepted_iff (h : Quiet s.manager) (hrun : s.AcceptedRun) (a : Act) :
    (s.step a).AcceptedRun ↔ s.FindsRunning a := by
  have hnext := (step_quiet h a).sound
  cases a with
  | stopSyncer key =>
    obtain ⟨_,-,-,hothers,-⟩ := stopSyncer_acts h key
    exact iff_of_true (hrun.of_others h.sound hnext key hothers (by simp)) trivial
  | gc order =>
    obtain ⟨_,-,-,hkeeps,-⟩ := gc_acts h order
    exact iff_of_true (hrun.keeps h.sound hnext hkeeps) trivial
  | goroutine g =>
    exact iff_of_true (hrun.keeps h.sound hnext (goStep_sound h.sound g).2.keepsRunning) trivial
  | ensureSyncers key targetPorts =>
    obtain ⟨errList,hok,hquiet,-,herr,hothers,hwanted⟩ := ensureSyncers_acts h key targetPorts
    rw [step_ensureSyncers hok] at hnext ⊢
    rw [FindsRunning,refused_iff,← herr]
    by_cases hnil : errList = []
    · rw [if_pos hnil]
      constructor
      · intro hafter
        refine Or.inr fun p hp hold => ?_
        have hp' := hafter key targetPorts (by simp) p hp
        rw [runs_iff hnext,hwanted p hp,ite_start_eq_running] at hp'
        exact (runs_iff h.sound _).mpr (hp'.1 hold)
      · intro hfinds
        refine hrun.of_others h.sound hnext key hothers ?_
        rintro ports hports p hp
        obtain rfl := Option.some.inj hports
        rw [runs_iff hnext,hwanted p hp,ite_start_eq_running]
        refine ⟨fun hold => ?_,fun hnew => ?_⟩
        · exact (runs_iff h.sound _).mp ((hfinds.resolve_left (by simp [hnil])) p hp hold)
        · exact herr.mp hnil p (mem_adds.mpr ⟨hp,hnew⟩)
    · rw [if_neg hnil]
      exact iff_of_true (hrun.of_others h.sound hnext key hothers (by simp)) (Or.inl hnil)

theorem accepted_services_run_iff (acts : List Act) :
    Runs.Along step (fun s a => (s.step a).AcceptedRun) start acts ↔ Runs.Along step FindsRunning start acts := by
  have hstart : Quiet start.manager ∧ start.AcceptedRun :=
    ⟨⟨newSyncerManager_orderly.sound,rfl⟩,fun _ _ hacc => by simp [start] at hacc⟩
  refine IngressGce.Runs.along_congr_of_invariant (I := fun s : Watched => Quiet s.manager ∧ s.AcceptedRun) ?_ ?_ hstart acts
  · rintro s a ⟨hquiet,hrun⟩
    exact step_accepted_iff hquiet hrun a
  · rintro s a ⟨hquiet,-⟩ hafter
    exact ⟨step_quiet hquiet a,hafter⟩

/-- No start is refused: no syncer that is to be started is shutting down. -/
def Unrefused (s : Watched) : Act → Prop
  | .ensureSyncers key targetPorts => ∀ p ∈ targetPorts, p ∉ s.manager.ports key → ¬ShutsDown s.manager ⟨key,p⟩
  | _ => True

/-- All recorded ports have running syncers. -/
def RecordedRun (w : Manager) : Prop := ∀ key : ServiceKey, ∀ p ∈ w.ports key, w.status ⟨key,p⟩ = .running

theorem RecordedRun.keeps (h : RecordedRun w) {w' : Manager} (hk : KeepsRunning w w')
    (hp : w'.svcPortMap = w.svcPortMap) : RecordedRun w' := by
  intro key p hport
  rw [Manager.ports,hp] at hport
  exact hk _ (h key p hport)

theorem RecordedRun.of_others (h : RecordedRun w) {w' : Manager} {key : ServiceKey} {ports : Option (List Str)}
    (hports : ∀ k, w'.svcPortMap.lookup k = if k = key then ports else w.svcPortMap.lookup k)
    (hothers : ∀ k : ServicePort, k.service ≠ key → w'.status k = w.status k)
    (hself : ∀ p ∈ ports.getD [], w'.status ⟨key,p⟩ = .running) : RecordedRun w' := by
  intro k p hp
  rw [Manager.ports,hports] at hp
  by_cases hk : k = key
  · subst hk
    exact hself p (by simpa using hp)
  · rw [hothers ⟨k,p⟩ hk]
    exact h k p (by simpa [Manager.ports,hk] using hp)

theorem step_recordedRun (h : Quiet s.manager) (hrec : RecordedRun s.manager) {a : Act} (ha : s.Unrefused a) :
    RecordedRun (s.step a).manager := by
  cases a with
  | ensureSyncers key targetPorts =>
    obtain ⟨errList,hok,-,hmap,-,hothers,hwanted⟩ := ensureSyncers_acts h key targetPorts
    rw [step_ensureSyncers hok]
    refine hrec.of_others (?_ : ∀ k, _ = if k = key then some targetPorts else _) hothers ?_
    · intro k
      rw [hmap]
      split
      · rename_i hk
        rw [hk,AList.lookup_insert]
      · rename_i hk
        exact AList.lookup_insert_ne hk
    · intro p hp
      rw [hwanted p hp,ite_start_eq_running]
      exact ⟨hrec key p,fun hnew => (shutsDown_iff _).not.mp (ha p hp hnew)⟩
  | stopSyncer key =>
    obtain ⟨_,-,-,hothers,hports⟩ := stopSyncer_acts h key
    exact hrec.of_others hports hothers (by simp)
  | gc order =>
    obtain ⟨_,-,-,hkeeps,hports⟩ := gc_acts h order
    exact hrec.keeps hkeeps hports
  | goroutine g =>
    obtain ⟨-,hi⟩ := goStep_sound h.sound g
    exact hrec.keeps hi.keepsRunning hi.svcPortMap

/-- Only a refused start leaves a recorded port without a running syncer. -/
theorem findsRunning_of_unrefused {acts : List Act} (h : Runs.Along step Unrefused start acts) :
    Runs.Along step FindsRunning start acts := by
  refine h.strengthen (I := fun s : Watched => Quiet s.manager ∧ RecordedRun s.manager) ?_ ?_
  · rintro s a ⟨hquiet,hrec⟩ ha
    refine ⟨⟨step_quiet hquiet a,step_recordedRun hquiet hrec ha⟩,?_⟩
    cases a with
    | ensureSyncers key targetPorts =>
      exact Or.inr fun p _ hold => (runs_iff hquiet.sound _).mpr (hrec key p hold)
    | _ => trivial
  · exact ⟨⟨newSyncerManager_orderly.sound,rfl⟩,fun _ _ hp => by cases hp⟩

section Repeated

def webService : ServiceKey := ⟨"default".toList,"web".toList⟩

/-- The service is turned off and on again before the goroutine of its syncer has exited,
so that the last call is refused. -/
def stopAndStart : List Act :=
  [.ensureSyncers webService ["80".toList],.stopSyncer webService,.ensureSyncers webService ["80".toList]]

theorem retried_service_not_running : ¬Runs.Along step (fun s a => (s.step a).AcceptedRun) start
    (stopAndStart ++ [.ensureSyncers webService ["80".toList]]) := by
  intro h
  obtain ⟨r,hr,hrun,-⟩ := h.at_end webService ["80".toList] (by decide +kernel) "80".toList (by simp)
  have hdown : ((Runs.final step start stopAndStart).step
      (.ensureSyncers webService ["80".toList])).manager.status ⟨webService,"80".toList⟩ = .shuttingDown := by
    decide +kernel
  rw [status_running_iff.mpr ⟨r,hr,hrun⟩] at hdown
  cases hdown

end Repeated
end Watched
end IngressGce.NEG
