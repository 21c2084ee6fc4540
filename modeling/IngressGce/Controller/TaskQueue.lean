import IngressGce.Kube.Objects
import IngressGce.Program.Worker

/-! # The task queues of the controller and how it stops

The controller has a queue of Ingresses and one of nodes, each with a worker of its own. A
key whose sync has failed is tried again, without a limit, after a delay.

A call of `Stop` closes the queues one after the other and waits for their workers. It is
called by the handler of a signal and by one for requests, so several calls may be going
on, and the workers and whoever adds to the queues go on meanwhile.
-/
namespace IngressGce
open Kube

abbrev TaskQueue := Worker Str

namespace TaskQueue

/-- The delays of the default rate limiter, in nanoseconds. -/
def defaultControllerRateLimiter : RateLimiter where
  baseDelay := 5000000
  maxDelay := 1000000000000

def policy : Worker.Policy where
  maxRetries := none
  limiter := defaultControllerRateLimiter
  exits := true

/-- The turn in which an object is put into the queue. -/
def enqueue (namespaced name : Str) : Worker.Turn Str := .add (metaNamespaceKey namespaced name)

def run (turns : List (Worker.Turn Str)) : TaskQueue := Runs.final (Worker.step policy) .start turns

theorem up_run (turns : List (Worker.Turn Str)) : (run turns).queue.base.shuttingDown = false :=
  Runs.final_invariant (I := fun t : TaskQueue => t.queue.base.shuttingDown = false)
    (fun _ turn h => (Worker.shuttingDown_step turn).trans h) rfl turns

/-- No request and no failure is lost: a key that somebody has asked for, or whose sync has
failed, is in the queue or on its way into it unless a sync of it has started since. When
the worker has nothing to do, nothing is due. -/
theorem keeps_work (turns : List (Worker.Turn Str)) :
    (∀ key, Worker.due (run turns).trace key = true →
      (run turns).queue.Pending key ∨ (run turns).phase = .returned key false) ∧
    ((run turns).Idle → ∀ key, Worker.due (run turns).trace key = false) ∧
    ∀ key, .dropped key ∉ (run turns).trace := by
  have hfaithful := Worker.faithful_final (p := policy) Worker.faithful_start turns (up_run turns)
  have hcounted := Worker.counted_final (p := policy) Worker.counted_start turns
  refine ⟨hfaithful,fun hidle key => ?_,Worker.not_dropped_of_patient rfl hcounted.patient⟩
  by_contra hdue
  exact hidle.not_remembers key (hfaithful key (Bool.eq_true_of_not_eq_false hdue))

-- an Ingress is changed while its sync is going on, and the sync fails
example : Worker.due (run [enqueue "ns".toList "a".toList,.poll,enqueue "ns".toList "a".toList,.finish false,.settle 0]).trace
    "ns/a".toList = true := by
  decide

end TaskQueue

/-! ## Stop -/

/-- A task queue with the loop that runs its worker, which calls it again after it has
returned unless the controller has been stopped. -/
structure TaskLoop where
  tasks : TaskQueue
  workerDone : Bool
  panicked : Bool

namespace TaskLoop

def start : TaskLoop := { tasks := .start, workerDone := false, panicked := false }

def exits (l : TaskLoop) (t : Worker.Turn Str) : Bool :=
  l.tasks.phase ≠ .exited ∧ (l.tasks.step TaskQueue.policy t).phase = .exited

/-- The worker closes `workerDone` when it exits. -/
def turn (l : TaskLoop) (t : Worker.Turn Str) : TaskLoop where
  tasks := l.tasks.step TaskQueue.policy t
  workerDone := l.workerDone || l.exits t
  panicked := l.panicked || l.workerDone && l.exits t

/-- The loop calls the worker again. -/
def again (l : TaskLoop) : TaskLoop :=
  if h : l.tasks.phase = .exited then
    { l with tasks := { l.tasks with phase := .polling, held := by rw [l.tasks.held,h]; rfl } }
  else l

/-- The queue is shut down, and with it the channel of its waiting loop. -/
def shutDown (l : TaskLoop) : TaskLoop :=
  { l with tasks := l.tasks.shutDown, panicked := l.panicked || l.tasks.queue.base.shuttingDown }

end TaskLoop

/-- How far the call of `Stop` has come that has the lock. -/
inductive StopPhase
  | locked
  | closed
  | ingClosing
  | ingDrained
  | nodeClosing
  | bothDrained
  | drained
  | deleting
  deriving DecidableEq

/-- The queues of the controller, and the calls of `Stop` with their argument: the one
that has the lock, and those that wait for it. -/
structure Lifetime where
  ing : TaskLoop
  node : TaskLoop
  stopCh : Bool
  shutdown : Bool
  holder : Option (StopPhase × Bool)
  waiting : List Bool
  panicked : Bool

namespace Lifetime

def start : Lifetime where
  ing := .start
  node := .start
  stopCh := false
  shutdown := false
  holder := none
  waiting := []
  panicked := false

inductive Turn
  | ing (t : Worker.Turn Str)
  | node (t : Worker.Turn Str)
  | ingAgain
  | nodeAgain
  | call (deleteAll : Bool)
  | lock (i : ℕ)
  | stop

/-- The next step of the call of `Stop` that has the lock. -/
def stop (s : Lifetime) : Lifetime :=
  match s.holder with
  | none => s
  | some (phase,deleteAll) =>
    match phase with
    | .locked =>
      if s.shutdown then { s with holder := some (.drained,deleteAll) }
      else { s with stopCh := true, panicked := s.panicked || s.stopCh, holder := some (.closed,deleteAll) }
    | .closed => { s with ing := s.ing.shutDown, holder := some (.ingClosing,deleteAll) }
    | .ingClosing => if s.ing.workerDone then { s with holder := some (.ingDrained,deleteAll) } else s
    | .ingDrained => { s with node := s.node.shutDown, holder := some (.nodeClosing,deleteAll) }
    | .nodeClosing => if s.node.workerDone then { s with holder := some (.bothDrained,deleteAll) } else s
    | .bothDrained => { s with shutdown := true, holder := some (.drained,deleteAll) }
    | .drained => if deleteAll then { s with holder := some (.deleting,deleteAll) } else { s with holder := none }
    | .deleting => { s with holder := none }

def step (s : Lifetime) : Turn → Lifetime
  | .ing t => { s with ing := s.ing.turn t }
  | .node t => { s with node := s.node.turn t }
  | .ingAgain => if s.stopCh then s else { s with ing := s.ing.again }
  | .nodeAgain => if s.stopCh then s else { s with node := s.node.again }
  | .call deleteAll => { s with waiting := s.waiting ++ [deleteAll] }
  | .lock i =>
    match s.holder,s.waiting[i]? with
    | none,some deleteAll => { s with holder := some (.locked,deleteAll), waiting := s.waiting.eraseIdx i }
    | _,_ => s
  | .stop => s.stop

end Lifetime

/-! ### What holds whichever call has the lock -/

/-- A loop whose worker closes its channel at most once: it is closed when the worker has
exited, which it does not do before the queue is shut down. -/
structure TaskLoop.Orderly (l : TaskLoop) : Prop where
  calm : l.panicked = false
  done_iff : l.workerDone = true ↔ l.tasks.phase = .exited
  down : l.tasks.phase = .exited → l.tasks.queue.base.shuttingDown = true

namespace TaskLoop.Orderly
variable {l : TaskLoop}

theorem turn (h : l.Orderly) (t : Worker.Turn Str) : (l.turn t).Orderly := by
  have hdown := Worker.shuttingDown_step (p := TaskQueue.policy) (w := l.tasks) t
  have hstays (hexited : l.tasks.phase = .exited) := (Worker.exited_step (p := TaskQueue.policy) hexited t).1
  refine ⟨?_,?_,fun hexited => ?_⟩
  · -- the channel is open as long as the worker has not exited
    have hopen : (l.workerDone && l.exits t) = false := by
      rw [Bool.and_eq_false_iff,or_iff_not_imp_left]
      intro hdone
      simp [TaskLoop.exits,h.done_iff.mp (Bool.eq_true_of_not_eq_false hdone)]
    simp [TaskLoop.turn,h.calm,hopen]
  · simp only [TaskLoop.turn,TaskLoop.exits,Bool.or_eq_true,h.done_iff,decide_eq_true_eq]
    constructor
    · exact fun hdone => hdone.elim hstays fun hexits => hexits.2
    · exact fun hexited => or_iff_not_imp_left.mpr fun hnot => ⟨hnot,hexited⟩
  · exact hdown.trans ((Worker.exited_or_down_of_step hexited).elim h.down id)

theorem shutDown (h : l.Orderly) (hup : l.tasks.queue.base.shuttingDown = false) : l.shutDown.Orderly where
  calm := by simp [TaskLoop.shutDown,h.calm,hup]
  done_iff := h.done_iff
  down _ := rfl

end TaskLoop.Orderly

/-- How much of the work of `Stop` a call has done that is in this phase. -/
def StopPhase.progress : StopPhase → ℕ
  | .locked => 0
  | .closed => 1
  | .ingClosing => 2
  | .ingDrained => 3
  | .nodeClosing => 4
  | .bothDrained => 5
  | .drained | .deleting => 6

namespace Lifetime

/-- How much of the work of `Stop` has been done, by whatever call. -/
def progress (s : Lifetime) : ℕ :=
  if s.shutdown then 6
  else
    match s.holder with
    | none => 0
    | some (phase,_) => phase.progress

/-- What has been closed, and who has exited, after so much of the work of `Stop`. -/
structure Reached (s : Lifetime) (n : ℕ) : Prop where
  ing : s.ing.Orderly
  node : s.node.Orderly
  calm : s.panicked = false
  stopCh : s.stopCh = decide (1 ≤ n)
  ingDown : s.ing.tasks.queue.base.shuttingDown = decide (2 ≤ n)
  ingExited : 3 ≤ n → s.ing.tasks.phase = .exited
  nodeDown : s.node.tasks.queue.base.shuttingDown = decide (4 ≤ n)
  nodeExited : 5 ≤ n → s.node.tasks.phase = .exited

/-- The call that has the lock knows whether the queues have been shut down, unless it has
only just got it. -/
structure Inv (s : Lifetime) : Prop where
  reached : s.Reached s.progress
  shutdown : ∀ phase deleteAll, s.holder = some (phase,deleteAll) → phase ≠ .locked →
    s.shutdown = decide (phase.progress = 6)

theorem inv_start : start.Inv where
  reached :=
    { ing := ⟨rfl,by decide,by decide⟩
      node := ⟨rfl,by decide,by decide⟩
      calm := rfl
      stopCh := rfl
      ingDown := rfl
      ingExited := fun h => absurd h (by decide)
      nodeDown := rfl
      nodeExited := fun h => absurd h (by decide) }
  shutdown _ _ h := absurd h (by simp [start])

variable {s : Lifetime}

/-- The workers do not move `Stop` on. -/
theorem Inv.ingTurn (h : s.Inv) (t : Worker.Turn Str) : { s with ing := s.ing.turn t }.Inv where
  reached :=
    { h.reached with
      ing := h.reached.ing.turn t
      ingDown := (Worker.shuttingDown_step t).trans h.reached.ingDown
      ingExited := fun hp => (Worker.exited_step (h.reached.ingExited hp) t).1 }
  shutdown := h.shutdown

theorem Inv.nodeTurn (h : s.Inv) (t : Worker.Turn Str) : { s with node := s.node.turn t }.Inv where
  reached :=
    { h.reached with
      node := h.reached.node.turn t
      nodeDown := (Worker.shuttingDown_step t).trans h.reached.nodeDown
      nodeExited := fun hp => (Worker.exited_step (h.reached.nodeExited hp) t).1 }
  shutdown := h.shutdown

/-- No loop calls its worker again: while the controller has not been stopped, none of
the workers has exited. -/
theorem Inv.again_eq (h : s.Inv) (hopen : s.stopCh = false) : s.ing.again = s.ing ∧ s.node.again = s.node := by
  have hprogress : s.progress = 0 := by simpa using h.reached.stopCh.symm.trans hopen
  have hing : s.ing.tasks.phase ≠ .exited := by
    intro hexited
    have hdown := h.reached.ingDown.symm.trans (h.reached.ing.down hexited)
    simp [hprogress] at hdown
  have hnode : s.node.tasks.phase ≠ .exited := by
    intro hexited
    have hdown := h.reached.nodeDown.symm.trans (h.reached.node.down hexited)
    simp [hprogress] at hdown
  exact ⟨dif_neg hing,dif_neg hnode⟩

theorem progress_of_up {s : Lifetime} {phase : StopPhase} {deleteAll : Bool} (hholder : s.holder = some (phase,deleteAll))
    (hup : s.shutdown = false) : s.progress = phase.progress := by
  simp [progress,hup,hholder]

theorem progress_of_down (hdown : s.shutdown = true) : s.progress = 6 := by simp [progress,hdown]

theorem inv_of_up (phase : StopPhase) {deleteAll : Bool} (hholder : s.holder = some (phase,deleteAll))
    (hup : s.shutdown = false) (hphase : phase.progress ≠ 6) (h : s.Reached phase.progress) : s.Inv := by
  refine ⟨by rwa [progress_of_up hholder hup],fun phase' _ hholder' _ => ?_⟩
  obtain ⟨rfl,_⟩ := Prod.mk.inj (Option.some.inj (hholder.symm.trans hholder'))
  rw [hup]
  exact (decide_eq_false hphase).symm

theorem inv_of_down (hdown : s.shutdown = true)
    (hholder : ∀ phase deleteAll, s.holder = some (phase,deleteAll) → phase.progress = 6) (h : s.Reached 6) : s.Inv := by
  refine ⟨by rwa [progress_of_down hdown],fun phase deleteAll hphase _ => ?_⟩
  rw [hdown]
  exact (decide_eq_true (hholder phase deleteAll hphase)).symm

theorem Inv.up (h : s.Inv) {phase : StopPhase} {deleteAll : Bool} (hholder : s.holder = some (phase,deleteAll))
    (hlocked : phase ≠ .locked) (hphase : phase.progress ≠ 6) : s.shutdown = false ∧ s.Reached phase.progress := by
  have hup := (h.shutdown phase deleteAll hholder hlocked).trans (decide_eq_false hphase)
  exact ⟨hup,progress_of_up hholder hup ▸ h.reached⟩

theorem Inv.down (h : s.Inv) {phase : StopPhase} {deleteAll : Bool} (hholder : s.holder = some (phase,deleteAll))
    (hlocked : phase ≠ .locked) (hphase : phase.progress = 6) : s.shutdown = true ∧ s.Reached 6 := by
  have hdown := (h.shutdown phase deleteAll hholder hlocked).trans (decide_eq_true hphase)
  exact ⟨hdown,progress_of_down hdown ▸ h.reached⟩

/-! ### One step of `Stop` after the other -/

section Stages
variable (holder : Option (StopPhase × Bool))

theorem Reached.close (h : s.Reached 0) :
    { s with stopCh := true, panicked := s.panicked || s.stopCh, holder }.Reached 1 :=
  { h with
    calm := by simp [h.calm,h.stopCh]
    stopCh := rfl
    ingExited := fun hp => absurd hp (by decide)
    nodeExited := fun hp => absurd hp (by decide) }

theorem Reached.shutDownIng (h : s.Reached 1) : { s with ing := s.ing.shutDown, holder }.Reached 2 :=
  { h with
    ing := h.ing.shutDown h.ingDown
    ingDown := rfl
    ingExited := fun hp => absurd hp (by decide)
    nodeExited := fun hp => absurd hp (by decide) }

theorem Reached.ingDrained (h : s.Reached 2) (hdone : s.ing.workerDone = true) : { s with holder }.Reached 3 :=
  { h with
    ingExited := fun _ => h.ing.done_iff.mp hdone
    nodeExited := fun hp => absurd hp (by decide) }

theorem Reached.shutDownNode (h : s.Reached 3) : { s with node := s.node.shutDown, holder }.Reached 4 :=
  { h with
    node := h.node.shutDown h.nodeDown
    ingExited := fun _ => h.ingExited (by decide)
    nodeDown := rfl
    nodeExited := fun hp => absurd hp (by decide) }

theorem Reached.nodeDrained (h : s.Reached 4) (hdone : s.node.workerDone = true) : { s with holder }.Reached 5 :=
  { h with
    ingExited := fun _ => h.ingExited (by decide)
    nodeExited := fun _ => h.node.done_iff.mp hdone }

theorem Reached.drained (h : s.Reached 5) : { s with shutdown := true, holder }.Reached 6 :=
  { h with
    ingExited := fun _ => h.ingExited (by decide)
    nodeExited := fun _ => h.nodeExited (by decide) }

theorem Reached.pass (h : s.Reached 6) : { s with holder }.Reached 6 := { h with }

end Stages

/-- A call that has got the lock closes the channel, unless the queues have been shut down. -/
theorem Inv.stopLocked (h : s.Inv) {deleteAll : Bool} (hholder : s.holder = some (.locked,deleteAll)) :
    (if s.shutdown then { s with holder := some (.drained,deleteAll) }
      else { s with
        stopCh := true, panicked := s.panicked || s.stopCh, holder := some (.closed,deleteAll) } : Lifetime).Inv := by
  split
  · next hdown =>
    have hsix := progress_of_down hdown ▸ h.reached
    exact inv_of_down hdown (by simp [StopPhase.progress]) (hsix.pass _)
  · next hup =>
    have hup := Bool.eq_false_iff.mpr hup
    have hzero : s.Reached StopPhase.locked.progress := progress_of_up hholder hup ▸ h.reached
    exact inv_of_up .closed rfl hup (by decide) (hzero.close _)

theorem Inv.stop (h : s.Inv) : s.stop.Inv := by
  unfold Lifetime.stop
  split
  · exact h
  · next phase deleteAll hholder =>
    cases phase <;> dsimp only
    case locked => exact h.stopLocked hholder
    case closed =>
      obtain ⟨hup,hone⟩ := h.up hholder (by decide) (by decide)
      exact inv_of_up .ingClosing rfl hup (by decide) (hone.shutDownIng _)
    case ingClosing =>
      obtain ⟨hup,htwo⟩ := h.up hholder (by decide) (by decide)
      split
      · next hdone => exact inv_of_up .ingDrained rfl hup (by decide) (htwo.ingDrained _ hdone)
      · exact h
    case ingDrained =>
      obtain ⟨hup,hthree⟩ := h.up hholder (by decide) (by decide)
      exact inv_of_up .nodeClosing rfl hup (by decide) (hthree.shutDownNode _)
    case nodeClosing =>
      obtain ⟨hup,hfour⟩ := h.up hholder (by decide) (by decide)
      split
      · next hdone => exact inv_of_up .bothDrained rfl hup (by decide) (hfour.nodeDrained _ hdone)
      · exact h
    case bothDrained =>
      obtain ⟨_,hfive⟩ := h.up hholder (by decide) (by decide)
      exact inv_of_down rfl (by simp [StopPhase.progress]) (hfive.drained _)
    case drained =>
      obtain ⟨hdown,hsix⟩ := h.down hholder (by decide) (by decide)
      split
      · exact inv_of_down hdown (by simp [StopPhase.progress]) (hsix.pass _)
      · exact inv_of_down hdown (by simp) (hsix.pass _)
    case deleting =>
      obtain ⟨hdown,hsix⟩ := h.down hholder (by decide) (by decide)
      exact inv_of_down hdown (by simp) (hsix.pass _)

theorem Inv.step (h : s.Inv) (t : Turn) : (s.step t).Inv := by
  cases t with
  | ing t => exact h.ingTurn t
  | node t => exact h.nodeTurn t
  | ingAgain =>
    simp only [Lifetime.step]
    split
    · exact h
    · next hopen => exact (h.again_eq (Bool.eq_false_iff.mpr hopen)).1.symm ▸ h
  | nodeAgain =>
    simp only [Lifetime.step]
    split
    · exact h
    · next hopen => exact (h.again_eq (Bool.eq_false_iff.mpr hopen)).2.symm ▸ h
  | call deleteAll => exact ⟨{ h.reached with },h.shutdown⟩
  | lock i =>
    simp only [Lifetime.step]
    split
    · next deleteAll hholder _ =>
      -- whoever has got the lock finds what the last call has left
      have hsame : s.progress = if s.shutdown then 6 else 0 := by simp [progress,hholder]
      refine ⟨?_,fun phase _ hlocked hne => ?_⟩
      · have hreached := hsame ▸ h.reached
        exact { hreached with }
      · exact absurd (Prod.mk.inj (Option.some.inj hlocked)).1.symm hne
    · exact h
  | stop => exact h.stop

def run (turns : List Turn) : Lifetime := Runs.final step start turns

theorem inv_run (turns : List Turn) : (run turns).Inv := Runs.final_invariant (fun _ t h => h.step t) inv_start turns

/-! ### The workers while the controller stops -/

/-- The turn is the next step of the worker of Ingresses. -/
def ingWorks (s : Lifetime) : Turn → Bool
  | .ing t => t.isNext s.ing.tasks.phase
  | _ => false

def nodeWorks (s : Lifetime) : Turn → Bool
  | .node t => t.isNext s.node.tasks.phase
  | _ => false

theorem Inv.stopped_of_ingDown (h : s.Inv) (hdown : s.ing.tasks.queue.base.shuttingDown = true) : s.stopCh = true := by
  have hprogress : 2 ≤ s.progress := of_decide_eq_true (h.reached.ingDown.symm.trans hdown)
  rw [h.reached.stopCh]
  exact decide_eq_true (by omega)

theorem Inv.stopped_of_nodeDown (h : s.Inv) (hdown : s.node.tasks.queue.base.shuttingDown = true) : s.stopCh = true := by
  have hprogress : 4 ≤ s.progress := of_decide_eq_true (h.reached.nodeDown.symm.trans hdown)
  rw [h.reached.stopCh]
  exact decide_eq_true (by omega)

/-- `Stop` leaves a queue alone that it has shut down. -/
theorem Inv.stop_ing (h : s.Inv) (hdown : s.ing.tasks.queue.base.shuttingDown = true) : s.stop.ing = s.ing := by
  unfold Lifetime.stop
  split
  · rfl
  · next phase deleteAll hholder =>
    cases phase <;> dsimp only
    case closed =>
      obtain ⟨_,hone⟩ := h.up hholder (by decide) (by decide)
      exact absurd (hone.ingDown.symm.trans hdown) (by decide)
    all_goals first | rfl | (split <;> rfl)

theorem Inv.stop_node (h : s.Inv) (hdown : s.node.tasks.queue.base.shuttingDown = true) : s.stop.node = s.node := by
  unfold Lifetime.stop
  split
  · rfl
  · next phase deleteAll hholder =>
    cases phase <;> dsimp only
    case ingDrained =>
      obtain ⟨_,hthree⟩ := h.up hholder (by decide) (by decide)
      exact absurd (hthree.nodeDown.symm.trans hdown) (by decide)
    all_goals first | rfl | (split <;> rfl)

/-- What a turn does to the queue of Ingresses once that has been shut down. -/
theorem Inv.ing_winds (h : s.Inv) (hdown : s.ing.tasks.queue.base.shuttingDown = true) (t : Turn) :
    Worker.Winds s.ing.tasks (s.step t).ing.tasks (s.ingWorks t) := by
  have hstay : Worker.Winds s.ing.tasks s.ing.tasks false := .refl hdown
  have hstopped := h.stopped_of_ingDown hdown
  cases t with
  | ing t => exact Worker.winds_step rfl hdown t
  | node t => exact hstay
  | ingAgain =>
    simp only [Lifetime.step,hstopped,if_true]
    exact hstay
  | nodeAgain =>
    simp only [Lifetime.step,hstopped,if_true]
    exact hstay
  | call deleteAll => exact hstay
  | lock i =>
    simp only [Lifetime.step]
    split <;> exact hstay
  | stop =>
    simp only [Lifetime.step,h.stop_ing hdown]
    exact hstay

theorem Inv.node_winds (h : s.Inv) (hdown : s.node.tasks.queue.base.shuttingDown = true) (t : Turn) :
    Worker.Winds s.node.tasks (s.step t).node.tasks (s.nodeWorks t) := by
  have hstay : Worker.Winds s.node.tasks s.node.tasks false := .refl hdown
  have hstopped := h.stopped_of_nodeDown hdown
  cases t with
  | node t => exact Worker.winds_step rfl hdown t
  | ing t => exact hstay
  | ingAgain =>
    simp only [Lifetime.step,hstopped,if_true]
    exact hstay
  | nodeAgain =>
    simp only [Lifetime.step,hstopped,if_true]
    exact hstay
  | call deleteAll => exact hstay
  | lock i =>
    simp only [Lifetime.step]
    split <;> exact hstay
  | stop =>
    simp only [Lifetime.step,h.stop_node hdown]
    exact hstay

/-- Both workers have exited, and have taken up nothing since `s₀`. -/
structure Over (s₀ s : Lifetime) : Prop where
  inv : s.Inv
  ingDown : s.ing.tasks.queue.base.shuttingDown = true
  nodeDown : s.node.tasks.queue.base.shuttingDown = true
  ing : s.ing.tasks.phase = .exited
  node : s.node.tasks.phase = .exited
  ingStarted : Worker.startedKeys s.ing.tasks.trace = Worker.startedKeys s₀.ing.tasks.trace
  nodeStarted : Worker.startedKeys s.node.tasks.trace = Worker.startedKeys s₀.node.tasks.trace

theorem Over.step {s₀ : Lifetime} (h : Over s₀ s) (t : Turn) : Over s₀ (s.step t) := by
  have hing := h.inv.ing_winds h.ingDown t
  have hnode := h.inv.node_winds h.nodeDown t
  obtain ⟨hingExited,hingStarted⟩ := hing.exited h.ing
  obtain ⟨hnodeExited,hnodeStarted⟩ := hnode.exited h.node
  exact ⟨h.inv.step t,hing.shuttingDown,hnode.shuttingDown,hingExited,hnodeExited,hingStarted.trans h.ingStarted,
    hnodeStarted.trans h.nodeStarted⟩

theorem run_append (turns more : List Turn) : run (turns ++ more) = Runs.final step (run turns) more :=
  Runs.final_append start turns more

/-- When a call of `Stop` deletes the resources of the cluster, both workers have exited,
and neither of them takes up another key, whatever happens afterwards. No channel is ever
closed twice, however many calls there are. -/
theorem stop_waits_for_workers (turns more : List Turn) :
    (run turns).panicked = false ∧ (run turns).ing.panicked = false ∧ (run turns).node.panicked = false ∧
    ∀ deleteAll, (run turns).holder = some (.deleting,deleteAll) →
      (run (turns ++ more)).ing.tasks.phase = .exited ∧ (run (turns ++ more)).node.tasks.phase = .exited ∧
      Worker.startedKeys (run (turns ++ more)).ing.tasks.trace = Worker.startedKeys (run turns).ing.tasks.trace ∧
      Worker.startedKeys (run (turns ++ more)).node.tasks.trace = Worker.startedKeys (run turns).node.tasks.trace := by
  have hinv := inv_run turns
  refine ⟨hinv.reached.calm,hinv.reached.ing.calm,hinv.reached.node.calm,fun deleteAll hholder => ?_⟩
  obtain ⟨_,hsix⟩ := hinv.down hholder (by decide) (by decide)
  have hover : Over (run turns) (run turns) :=
    ⟨hinv,hsix.ingDown,hsix.nodeDown,hsix.ingExited (by decide),hsix.nodeExited (by decide),rfl,rfl⟩
  have hlast : Over (run turns) (Runs.final step (run turns) more) :=
    Runs.final_invariant (fun _ t h => h.step t) hover more
  rw [run_append]
  exact ⟨hlast.ing,hlast.node,hlast.ingStarted,hlast.nodeStarted⟩

/-- A key is being synced when a call with `deleteAll` comes. -/
def stopTurns : List Turn :=
  [.ing (TaskQueue.enqueue "ns".toList "a".toList),.ing .poll,.call true,.lock 0,.stop,.stop,.stop,.ing (.finish true),
    .ing (.settle 0),.ing .done,.ing .poll,.stop,.stop,.node .poll,.stop,.stop,.stop]

theorem stop_waits_for_one_sync :
    (run stopTurns).holder = some (.deleting,true) ∧ (run (stopTurns ++ [.ing .poll])).ing.tasks.phase = .exited :=
  ⟨by decide,((stop_waits_for_workers stopTurns [.ing .poll]).2.2.2 true (by decide)).1⟩

/-- From `s` on the worker of a queue takes up at most the keys that are to be synced, and
it exits after a number of its own steps that is known beforehand. -/
structure Drains (loop : Lifetime → TaskLoop) (works : Lifetime → Turn → Bool) (s : Lifetime) (more : List Turn) :
    Prop where
  started : (Worker.startedKeys (loop (Runs.final step s more)).tasks.trace).length ≤
    (Worker.startedKeys (loop s).tasks.trace).length + (loop s).tasks.queue.base.dirty.card
  bounded : Runs.count step works s more ≤ (loop s).tasks.left
  exits : Runs.count step works s more = (loop s).tasks.left → (loop (Runs.final step s more)).tasks.phase = .exited

theorem drains_of_winds {loop : Lifetime → TaskLoop} {works : Lifetime → Turn → Bool}
    (hwinds : ∀ s : Lifetime, s.Inv → (loop s).tasks.queue.base.shuttingDown = true → ∀ t,
      Worker.Winds (loop s).tasks (loop (s.step t)).tasks (works s t))
    (h : s.Inv) (hdown : (loop s).tasks.queue.base.shuttingDown = true) (more : List Turn) : Drains loop works s more := by
  have hcount : (loop (Runs.final step s more)).tasks.left + Runs.count step works s more = (loop s).tasks.left := by
    apply Runs.count_add_potential (I := fun s => s.Inv ∧ (loop s).tasks.queue.base.shuttingDown = true)
      (μ := fun s => (loop s).tasks.left) _ ⟨h,hdown⟩
    intro s t hs
    have hw := hwinds s hs.1 hs.2 t
    exact ⟨⟨hs.1.step t,hw.shuttingDown⟩,hw.left⟩
  have hstarted := Runs.final_invariant (I := fun s' => s'.Inv ∧ (loop s').tasks.queue.base.shuttingDown = true ∧
      (Worker.startedKeys (loop s').tasks.trace).length + (loop s').tasks.queue.base.dirty.card =
        (Worker.startedKeys (loop s).tasks.trace).length + (loop s).tasks.queue.base.dirty.card)
    (fun s' t hs => ⟨hs.1.step t,(hwinds s' hs.1 hs.2.1 t).shuttingDown,(hwinds s' hs.1 hs.2.1 t).started.trans hs.2.2⟩)
    ⟨h,hdown,rfl⟩ more
  refine ⟨by omega,by omega,fun hall => ?_⟩
  apply Worker.Phase.eq_exited_of_left
  unfold Worker.left at hcount hall
  omega

/-- Once `Stop` has shut down a queue, its worker takes up at most the keys that were to be
synced then, and exits after as many steps of its own as are left at that moment, whatever
the others do and however many of the syncs fail. -/
theorem queues_drain (turns more : List Turn) :
    ((run turns).ing.tasks.queue.base.shuttingDown = true → Drains ing ingWorks (run turns) more) ∧
    ((run turns).node.tasks.queue.base.shuttingDown = true → Drains node nodeWorks (run turns) more) :=
  ⟨fun hdown => drains_of_winds (fun _ h hdown t => h.ing_winds hdown t) (inv_run turns) hdown more,
    fun hdown => drains_of_winds (fun _ h hdown t => h.node_winds hdown t) (inv_run turns) hdown more⟩

/-- Two keys are queued when the queue is shut down, and their syncs fail. -/
def drainTurns : List Turn :=
  [.ing (TaskQueue.enqueue "ns".toList "a".toList),.ing (TaskQueue.enqueue "ns".toList "b".toList),.call false,.lock 0,
    .stop,.stop]

theorem queues_drain_two : (run drainTurns).ing.tasks.left = 9 ∧
    (Runs.final step (run drainTurns)
      [.ing .poll,.ing (.finish false),.ing (.settle 0),.ing .done,.ing .poll,.ing (.finish false),.ing (.settle 0),
        .ing .done,.ing .poll]).ing.tasks.phase = .exited :=
  ⟨by decide,((queues_drain drainTurns _).1 (by decide)).exits (by decide)⟩

end Lifetime
end IngressGce
