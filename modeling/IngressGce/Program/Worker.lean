import IngressGce.Program.WorkQueue
import Mathlib.Data.Finset.Card

/-! # A worker and its queue

One worker takes the items out of a queue and works on them, while others add items and
the waiting loop of the queue does its part, in any order. The trace says what has
happened to the items, the latest event first; what is still due is read off it.
-/
namespace IngressGce

namespace Worker
variable {α : Type}

inductive Phase (α : Type)
  | polling
  | processing (key : α)
  | returned (key : α) (ok : Bool)
  | settled (key : α)
  | exited
  deriving DecidableEq

/-- The items the worker has and has not reported as done. -/
def Phase.keys : Phase α → Finset α
  | .processing key | .returned key _ | .settled key => {key}
  | .polling | .exited => ∅

inductive Event (α : Type)
  | added (key : α)
  | started (key : α)
  | returned (key : α) (ok : Bool)
  | retried (key : α) (delay : ℕ)
  | forgotten (key : α)
  | dropped (key : α)
  deriving DecidableEq

/-- What differs between workers: how often an item is tried again in a row, if there is a
limit, how long it has to wait, and whether the worker ends when the queue is shut down. -/
structure Policy where
  maxRetries : Option ℕ
  limiter : RateLimiter
  exits : Bool

def Policy.retries (p : Policy) (failures : ℕ) : Bool :=
  match p.maxRetries with
  | none => true
  | some limit => failures < limit

/-- A step of the worker, of the waiting loop, of the clock, or of somebody who adds to the
queue. -/
inductive Turn (α : Type)
  | add (key : α)
  | poll
  | finish (ok : Bool)
  | settle (bucket : ℕ)
  | done
  | receive
  | fire (entry : WaitFor α)
  | tick (d : ℕ)

/-- The turn is what the worker does next. -/
def Turn.isNext : Phase α → Turn α → Bool
  | .polling,.poll | .processing _,.finish _ | .returned _ _,.settle _ | .settled _,.done => true
  | _,_ => false

end Worker

/-- A queue, what its only worker is doing, and what has happened. -/
structure Worker (α : Type) [DecidableEq α] where
  queue : RateLimitingQueue α
  phase : Worker.Phase α
  trace : List (Worker.Event α)
  held : queue.base.processing = phase.keys

namespace Worker
variable {α : Type} [DecidableEq α] (p : Policy) (w : Worker α)

def start : Worker α where
  queue := .empty
  phase := .polling
  trace := []
  held := rfl

/-- Somebody else does something to the queue. -/
def onQueue (q : RateLimitingQueue α) (h : q.base.processing = w.queue.base.processing) : Worker α :=
  { w with queue := q, held := h.trans w.held }

def add (key : α) : Worker α :=
  { w.onQueue (w.queue.add key) (by simp) with trace := .added key :: w.trace }

def poll : Worker α :=
  if hphase : w.phase = .polling then
    match hget : w.queue.get with
    | some (key,queue) =>
      { queue := queue
        phase := .processing key
        trace := .started key :: w.trace
        held := by
          obtain ⟨⟨first,base⟩,hbase,heq⟩ := Option.map_eq_some_iff.mp hget
          obtain ⟨rfl,rfl⟩ := Prod.mk.inj heq
          rw [(WorkQueue.hands_of_get hbase).processing,w.held,hphase]
          rfl }
    | none =>
      if w.queue.base.shuttingDown = true ∧ p.exits = true then { w with phase := .exited, held := by rw [w.held,hphase]; rfl }
      else w
  else w

def finish (ok : Bool) : Worker α :=
  match hphase : w.phase with
  | .processing key =>
    { w with phase := .returned key ok, trace := .returned key ok :: w.trace, held := by rw [w.held,hphase]; rfl }
  | _ => w

/-- What the worker does with the outcome: an item is forgotten or tried again. -/
def settle (bucket : ℕ) : Worker α :=
  match hphase : w.phase with
  | .returned key true =>
    { queue := w.queue.forget key
      phase := .settled key
      trace := .forgotten key :: w.trace
      held := by rw [RateLimitingQueue.base_forget,w.held,hphase]; rfl }
  | .returned key false =>
    if p.retries (w.queue.numRequeues key) then
      { queue := w.queue.addRateLimited key p.limiter bucket
        phase := .settled key
        trace := .retried key (w.queue.delay key p.limiter bucket) :: w.trace
        held := by rw [RateLimitingQueue.processing_addRateLimited,w.held,hphase]; rfl }
    else
      { queue := w.queue.forget key
        phase := .settled key
        trace := .dropped key :: w.trace
        held := by rw [RateLimitingQueue.base_forget,w.held,hphase]; rfl }
  | _ => w

variable {w} in
theorem mem_processing_of_settled {key : α} (h : w.phase = .settled key) : key ∈ w.queue.base.processing := by
  rw [w.held,h]
  exact Finset.mem_singleton_self key

def done : Worker α :=
  match hphase : w.phase with
  | .settled key =>
    { w with
      queue := w.queue.done key (mem_processing_of_settled hphase)
      phase := .polling
      held := by
        rw [RateLimitingQueue.base_done,WorkQueue.processing_done,w.held,hphase]
        simp [Phase.keys] }
  | _ => w

def step : Turn α → Worker α
  | .add key => w.add key
  | .poll => w.poll p
  | .finish ok => w.finish ok
  | .settle bucket => w.settle p bucket
  | .done => w.done
  | .receive => w.onQueue w.queue.receive (by simp)
  | .fire entry => w.onQueue (w.queue.fire entry) (by simp)
  | .tick d => w.onQueue (w.queue.tick d) (by simp)

def shutDown : Worker α := w.onQueue w.queue.shutDown (by simp)

/-! ## The steps, case by case -/

variable {p w}

/-- What a poll can do. -/
theorem poll_cases : (Turn.isNext w.phase (.poll : Turn α) = false ∧ w.poll p = w) ∨
    (w.phase = .polling ∧ ∃ key, w.queue.get = some (key,(w.poll p).queue) ∧
      (w.poll p).phase = .processing key ∧ (w.poll p).trace = .started key :: w.trace) ∨
    (w.phase = .polling ∧ w.queue.get = none ∧ (w.poll p).queue = w.queue ∧ (w.poll p).trace = w.trace ∧
      (w.poll p).phase = if w.queue.base.shuttingDown = true ∧ p.exits = true then .exited else .polling) := by
  unfold poll
  split
  · next hphase =>
    split
    · next key queue hget => exact Or.inr (Or.inl ⟨hphase,key,hget,rfl,rfl⟩)
    · next hget =>
      refine Or.inr (Or.inr ⟨hphase,hget,?_⟩)
      split
      · exact ⟨rfl,rfl,rfl⟩
      · exact ⟨rfl,rfl,hphase⟩
  · next hphase =>
    refine Or.inl ⟨?_,rfl⟩
    cases hw : w.phase <;> simp_all [Turn.isNext]

theorem finish_cases (ok : Bool) : (Turn.isNext w.phase (.finish ok : Turn α) = false ∧ w.finish ok = w) ∨
    ∃ key, w.phase = .processing key ∧ (w.finish ok).phase = .returned key ok ∧
      (w.finish ok).trace = .returned key ok :: w.trace ∧ (w.finish ok).queue = w.queue := by
  unfold finish
  split
  · next key hphase => exact Or.inr ⟨key,hphase,rfl,rfl,rfl⟩
  · next hother =>
    refine Or.inl ⟨?_,rfl⟩
    cases hw : w.phase <;> simp_all [Turn.isNext]

theorem settle_cases (bucket : ℕ) : (Turn.isNext w.phase (.settle bucket : Turn α) = false ∧ w.settle p bucket = w) ∨
    ∃ key, (w.settle p bucket).phase = .settled key ∧
      (w.phase = .returned key true ∧ (w.settle p bucket).queue = w.queue.forget key ∧
          (w.settle p bucket).trace = .forgotten key :: w.trace ∨
        w.phase = .returned key false ∧ p.retries (w.queue.numRequeues key) = true ∧
          (w.settle p bucket).queue = w.queue.addRateLimited key p.limiter bucket ∧
          (w.settle p bucket).trace = .retried key (w.queue.delay key p.limiter bucket) :: w.trace ∨
        w.phase = .returned key false ∧ p.retries (w.queue.numRequeues key) = false ∧
          (w.settle p bucket).queue = w.queue.forget key ∧
          (w.settle p bucket).trace = .dropped key :: w.trace) := by
  unfold settle
  split
  · next key hphase => exact Or.inr ⟨key,rfl,Or.inl ⟨hphase,rfl,rfl⟩⟩
  · next key hphase =>
    split
    · next h => exact Or.inr ⟨key,rfl,Or.inr (Or.inl ⟨hphase,h,rfl,rfl⟩)⟩
    · next h => exact Or.inr ⟨key,rfl,Or.inr (Or.inr ⟨hphase,Bool.eq_false_iff.mpr h,rfl,rfl⟩)⟩
  · next hyes hno =>
    refine Or.inl ⟨?_,rfl⟩
    cases hw : w.phase with
    | returned key ok => cases ok <;> simp_all
    | _ => rfl

theorem done_cases : (Turn.isNext w.phase (.done : Turn α) = false ∧ w.done = w) ∨
    ∃ key, ∃ h : key ∈ w.queue.base.processing, w.phase = .settled key ∧
      w.done.phase = .polling ∧ w.done.trace = w.trace ∧ w.done.queue = w.queue.done key h := by
  unfold done
  split
  · next key hphase => exact Or.inr ⟨key,mem_processing_of_settled hphase,hphase,rfl,rfl,rfl⟩
  · next hother =>
    refine Or.inl ⟨?_,rfl⟩
    cases hw : w.phase <;> simp_all [Turn.isNext]

/-! ## Nothing that is due is lost -/

/-- Somebody has asked for the item, or the work on it has failed, and it has neither been
taken up since nor been given up. -/
def due : List (Event α) → α → Bool
  | [],_ => false
  | .added k :: rest,key => k = key || due rest key
  | .started k :: rest,key => k ≠ key && due rest key
  | .returned k ok :: rest,key => (k = key && !ok) || due rest key
  | .retried _ _ :: rest,key => due rest key
  | .forgotten _ :: rest,key => due rest key
  | .dropped k :: rest,key => k ≠ key && due rest key

/-- Where an item is that is due. -/
def Remembers (w : Worker α) (key : α) : Prop := w.queue.Pending key ∨ w.phase = .returned key false

def Faithful (w : Worker α) : Prop :=
  w.queue.base.shuttingDown = false → ∀ key, due w.trace key = true → w.Remembers key

theorem faithful_start : (start : Worker α).Faithful := fun _ _ h => absurd h (by simp [start,due])

theorem Faithful.onQueue (hw : w.Faithful) {q : RateLimitingQueue α} (h : q.base.processing = w.queue.base.processing)
    (hdown : q.base.shuttingDown = false → w.queue.base.shuttingDown = false)
    (hpending : w.queue.base.shuttingDown = false → ∀ key, w.queue.Pending key → q.Pending key) :
    (w.onQueue q h).Faithful :=
  fun hup key hdue => (hw (hdown hup) key hdue).imp_left (hpending (hdown hup) key)

theorem Faithful.add (hw : w.Faithful) (key : α) : (w.add key).Faithful := by
  intro hup b hdue
  have hup : w.queue.base.shuttingDown = false := by simpa [Worker.add,Worker.onQueue] using hup
  have hpending : (w.queue.add key).Pending b ↔ b = key ∨ w.queue.Pending b := RateLimitingQueue.pending_add hup
  rcases Bool.or_eq_true_iff.mp hdue with heq | hdue
  · exact Or.inl (hpending.mpr (Or.inl (of_decide_eq_true heq).symm))
  · exact (hw hup b hdue).imp_left fun h => hpending.mpr (Or.inr h)

theorem Faithful.poll (hw : w.Faithful) : (w.poll p).Faithful := by
  rcases poll_cases (w := w) (p := p) with ⟨_,heq⟩ | ⟨hphase,key,hget,hphase',htrace⟩ | ⟨hphase,_,hqueue,htrace,_⟩
  · rwa [heq]
  · intro hup b hdue
    obtain ⟨_,hrest⟩ := RateLimitingQueue.pending_get hget
    obtain ⟨⟨first,base⟩,hbase,heq⟩ := Option.map_eq_some_iff.mp hget
    have hdown := (WorkQueue.hands_of_get hbase).shuttingDown
    rw [htrace] at hdue
    obtain ⟨hne,hdue⟩ := Bool.and_eq_true_iff.mp hdue
    have hup' : w.queue.base.shuttingDown = false := by
      rw [← hdown,← hup,← (Prod.mk.inj heq).2]
    rcases hw hup' b hdue with h | h
    · exact Or.inl ((hrest b h).resolve_left (of_decide_eq_true hne).symm)
    · exact absurd (hphase.symm.trans h) (by simp)
  · intro hup b hdue
    rw [hqueue] at hup
    rw [htrace] at hdue
    rcases hw hup b hdue with h | h
    · exact Or.inl (hqueue ▸ h)
    · exact absurd (hphase.symm.trans h) (by simp)

theorem Faithful.finish (hw : w.Faithful) (ok : Bool) : (w.finish ok).Faithful := by
  rcases finish_cases (w := w) ok with ⟨_,heq⟩ | ⟨key,hphase,hphase',htrace,hqueue⟩
  · rwa [heq]
  · intro hup b hdue
    rw [hqueue] at hup
    rw [htrace] at hdue
    rcases Bool.or_eq_true_iff.mp hdue with hfailed | hdue
    · obtain ⟨heq,hok⟩ := Bool.and_eq_true_iff.mp hfailed
      obtain rfl : key = b := of_decide_eq_true heq
      obtain rfl : ok = false := by simpa using hok
      exact Or.inr hphase'
    · rcases hw hup b hdue with h | h
      · exact Or.inl (hqueue ▸ h)
      · exact absurd (hphase.symm.trans h) (by simp)

theorem Faithful.settle (hw : w.Faithful) (bucket : ℕ) : (w.settle p bucket).Faithful := by
  rcases settle_cases (w := w) (p := p) bucket with ⟨_,heq⟩ | ⟨key,_,h⟩
  · rwa [heq]
  · intro hup b hdue
    rcases h with ⟨hphase,hqueue,htrace⟩ | ⟨hphase,_,hqueue,htrace⟩ | ⟨hphase,_,hqueue,htrace⟩ <;>
      rw [hqueue] at hup <;> rw [htrace] at hdue
    · -- a success: whatever is due has come in meanwhile
      rcases hw hup b hdue with h | h
      · exact Or.inl (hqueue ▸ h)
      · exact absurd (hphase.symm.trans h) (by simp)
    · rw [RateLimitingQueue.shuttingDown_addRateLimited] at hup
      have hpending : (w.queue.addRateLimited key p.limiter bucket).Pending b ↔ b = key ∨ w.queue.Pending b :=
        RateLimitingQueue.pending_addRateLimited hup p.limiter bucket
      rcases hw hup b hdue with h | h
      · exact Or.inl (hqueue ▸ hpending.mpr (Or.inr h))
      · obtain ⟨rfl,_⟩ := Phase.returned.inj (hphase.symm.trans h)
        exact Or.inl (hqueue ▸ hpending.mpr (Or.inl rfl))
    · obtain ⟨hne,hdue⟩ := Bool.and_eq_true_iff.mp hdue
      rcases hw hup b hdue with h | h
      · exact Or.inl (hqueue ▸ h)
      · exact absurd (Phase.returned.inj (hphase.symm.trans h)).1 (of_decide_eq_true hne)

theorem Faithful.done (hw : w.Faithful) : w.done.Faithful := by
  rcases done_cases (w := w) with ⟨_,heq⟩ | ⟨key,hmem,hphase,_,htrace,hqueue⟩
  · rwa [heq]
  · intro hup b hdue
    rw [hqueue,RateLimitingQueue.base_done,WorkQueue.shuttingDown_done] at hup
    rw [htrace] at hdue
    rcases hw hup b hdue with h | h
    · exact Or.inl (hqueue ▸ (RateLimitingQueue.pending_done hmem).mpr h)
    · exact absurd (hphase.symm.trans h) (by simp)

theorem Faithful.step (hw : w.Faithful) (turn : Turn α) : (w.step p turn).Faithful := by
  cases turn with
  | add key => exact hw.add key
  | poll => exact hw.poll
  | finish ok => exact hw.finish ok
  | settle bucket => exact hw.settle bucket
  | done => exact hw.done
  | receive => exact hw.onQueue (by simp) (by simp) fun hup _ => (RateLimitingQueue.pending_receive hup).mpr
  | fire entry => exact hw.onQueue (by simp) (by simp) fun hup _ => (RateLimitingQueue.pending_fire hup entry).mpr
  | tick d => exact hw.onQueue rfl id fun _ _ => id

theorem faithful_final (hw : w.Faithful) (turns : List (Turn α)) : (Runs.final (step p) w turns).Faithful :=
  Runs.final_invariant (fun _ turn hw => hw.step turn) hw turns

/-- The worker waits for an item, and no entry waits to be added. -/
structure Idle (w : Worker α) : Prop where
  phase : w.phase = .polling
  queue : w.queue.base.queue = []
  channel : w.queue.waitingForAddCh = []
  heap : w.queue.waitingForQueue = []

theorem Idle.not_remembers (h : w.Idle) (key : α) : ¬ w.Remembers key := by
  have hprocessing : w.queue.base.processing = ∅ := by
    rw [w.held,h.phase]
    rfl
  rintro ((hdirty | hwaiting) | hphase)
  · have hmem := (w.queue.base.mem_queue key).mpr ⟨hdirty,by simp [hprocessing]⟩
    simp [h.queue] at hmem
  · simp [RateLimitingQueue.Waiting,RateLimitingQueue.entries,h.channel,h.heap] at hwaiting
  · exact absurd (h.phase.symm.trans hphase) (by simp)

/-! ## How often in a row an item is tried again -/

/-- How often the item has been tried again since it was last forgotten. -/
def consecutive : List (Event α) → α → ℕ
  | [],_ => 0
  | .retried k _ :: rest,key => if k = key then consecutive rest key + 1 else consecutive rest key
  | .forgotten k :: rest,key | .dropped k :: rest,key => if k = key then 0 else consecutive rest key
  | .added _ :: rest,key | .started _ :: rest,key | .returned _ _ :: rest,key => consecutive rest key

/-- Every retry has been asked for with the delay that is due to the failures before it,
there were fewer of them than are allowed, and an item is dropped only when there were as
many. How long the item then waits is said by `Defers`. -/
def Patient (p : Policy) : List (Event α) → Prop
  | [] => True
  | .retried key delay :: rest =>
    p.limiter.backoff (consecutive rest key) ≤ delay ∧ p.retries (consecutive rest key) = true ∧ Patient p rest
  | .dropped key :: rest => p.retries (consecutive rest key) = false ∧ Patient p rest
  | .added _ :: rest | .started _ :: rest | .returned _ _ :: rest | .forgotten _ :: rest => Patient p rest

theorem Patient.of_append {p : Policy} {later earlier : List (Event α)} (h : Patient p (later ++ earlier)) :
    Patient p earlier := by
  induction later with
  | nil => exact h
  | cons e rest ih =>
    cases e with
    | retried key delay => exact ih h.2.2
    | dropped key => exact ih h.2
    | added key => exact ih h
    | started key => exact ih h
    | returned key ok => exact ih h
    | forgotten key => exact ih h

/-- The rate limiter counts what the trace shows. -/
structure Counted (p : Policy) (w : Worker α) : Prop where
  failures : ∀ key, w.queue.failures key = consecutive w.trace key
  patient : Patient p w.trace

theorem counted_start : Counted p (start : Worker α) := ⟨fun _ => rfl,trivial⟩

theorem Counted.of_same {w' : Worker α} (hw : w.Counted p) (hfailures : w'.queue.failures = w.queue.failures)
    (htrace : w'.trace = w.trace) : w'.Counted p :=
  ⟨fun key => by rw [hfailures,htrace,hw.failures key],htrace ▸ hw.patient⟩

theorem Counted.forget {w' : Worker α} {key : α} (hw : w.Counted p) (hqueue : w'.queue = w.queue.forget key)
    {e : Event α} (he : ∀ b, consecutive (e :: w.trace) b = if key = b then 0 else consecutive w.trace b)
    (htrace : w'.trace = e :: w.trace) (hpatient : Patient p (e :: w.trace)) : w'.Counted p := by
  refine ⟨fun b => ?_,htrace ▸ hpatient⟩
  rw [hqueue,htrace,he,RateLimitingQueue.failures_forget,Function.update_apply,hw.failures b]
  simp only [eq_comm]

theorem Counted.poll (hw : w.Counted p) : (w.poll p).Counted p := by
  rcases poll_cases (w := w) (p := p) with ⟨_,heq⟩ | ⟨_,key,hget,_,htrace⟩ | ⟨_,_,hqueue,htrace,_⟩
  · rwa [heq]
  · obtain ⟨⟨first,base⟩,_,heq⟩ := Option.map_eq_some_iff.mp hget
    refine ⟨fun b => ?_,htrace ▸ hw.patient⟩
    rw [htrace,← (Prod.mk.inj heq).2]
    exact hw.failures b
  · exact hw.of_same (by rw [hqueue]) htrace

theorem Counted.settle (hw : w.Counted p) (bucket : ℕ) : (w.settle p bucket).Counted p := by
  rcases settle_cases (w := w) (p := p) bucket with ⟨_,heq⟩ | ⟨key,_,h⟩
  · rwa [heq]
  · have hcount : w.queue.numRequeues key = consecutive w.trace key := hw.failures key
    rcases h with ⟨_,hqueue,htrace⟩ | ⟨_,hretries,hqueue,htrace⟩ | ⟨_,hretries,hqueue,htrace⟩
    · exact hw.forget hqueue (fun _ => rfl) htrace hw.patient
    · rw [hcount] at hretries
      refine ⟨fun b => ?_,htrace ▸ ⟨?_,hretries,hw.patient⟩⟩
      · rw [hqueue,htrace,RateLimitingQueue.failures_addRateLimited,Function.update_apply]
        by_cases hb : key = b
        · subst hb
          simp [consecutive,hw.failures]
        · simp [consecutive,hb,Ne.symm hb,hw.failures]
      · rw [← hw.failures key]
        exact le_max_left _ _
    · rw [hcount] at hretries
      exact hw.forget hqueue (fun _ => rfl) htrace ⟨hretries,hw.patient⟩

theorem Counted.finish (hw : w.Counted p) (ok : Bool) : (w.finish ok).Counted p := by
  rcases finish_cases (w := w) ok with ⟨_,heq⟩ | ⟨key,_,_,htrace,hqueue⟩
  · rwa [heq]
  · exact ⟨fun b => by rw [hqueue,htrace]; exact hw.failures b,htrace ▸ hw.patient⟩

theorem Counted.done (hw : w.Counted p) : w.done.Counted p := by
  rcases done_cases (w := w) with ⟨_,heq⟩ | ⟨key,_,_,_,htrace,hqueue⟩
  · rwa [heq]
  · exact hw.of_same (by rw [hqueue]; rfl) htrace

theorem Counted.step (hw : w.Counted p) (turn : Turn α) : (w.step p turn).Counted p := by
  cases turn with
  | add key => exact ⟨hw.failures,hw.patient⟩
  | poll => exact hw.poll
  | finish ok => exact hw.finish ok
  | settle bucket => exact hw.settle bucket
  | done => exact hw.done
  | receive => exact hw.of_same (RateLimitingQueue.failures_receive _) rfl
  | fire entry => exact hw.of_same (RateLimitingQueue.failures_fire _ entry) rfl
  | tick d => exact hw.of_same rfl rfl

theorem counted_final (hw : w.Counted p) (turns : List (Turn α)) : (Runs.final (step p) w turns).Counted p :=
  Runs.final_invariant (fun _ turn hw => hw.step turn) hw turns

/-- No item is tried again more often in a row than is allowed. -/
theorem consecutive_le_of_patient {limit : ℕ} (hlimit : p.maxRetries = some limit) {trace : List (Event α)}
    (h : Patient p trace) (key : α) : consecutive trace key ≤ limit := by
  induction trace with
  | nil => exact Nat.zero_le limit
  | cons e rest ih =>
    cases e with
    | retried k delay =>
      have hretries := h.2.1
      simp only [Policy.retries,hlimit,decide_eq_true_eq] at hretries
      unfold consecutive
      split
      · next heq =>
        subst heq
        omega
      · exact ih h.2.2
    | dropped k =>
      unfold consecutive
      split
      · omega
      · exact ih h.2
    | forgotten k =>
      unfold consecutive
      split
      · omega
      · exact ih h
    | added k => exact ih h
    | started k => exact ih h
    | returned k ok => exact ih h

/-- Without a limit nothing is dropped. -/
theorem not_dropped_of_patient (hlimit : p.maxRetries = none) {trace : List (Event α)} (h : Patient p trace) (key : α) :
    .dropped key ∉ trace := by
  induction trace with
  | nil => simp
  | cons e rest ih =>
    rw [List.mem_cons,not_or]
    cases e with
    | retried k delay => exact ⟨nofun,ih h.2.2⟩
    | dropped k => exact absurd h.1 (by simp [Policy.retries,hlimit])
    | forgotten k => exact ⟨nofun,ih h⟩
    | added k => exact ⟨nofun,ih h⟩
    | started k => exact ⟨nofun,ih h⟩
    | returned k ok => exact ⟨nofun,ih h⟩

/-! ## How long an item waits before it is tried again -/

/-- The work on the item of the entry has just failed, and the entry is ready only when the
delay that is due to the failures has passed. -/
structure Defers (p : Policy) (w : Worker α) (e : WaitFor α) : Prop where
  failed : w.phase = .returned e.data false
  retries : p.retries (w.queue.failures e.data) = true
  delay : w.queue.now + p.limiter.backoff (w.queue.failures e.data) ≤ e.readyAt

theorem queue_finish (ok : Bool) : (w.finish ok).queue = w.queue := by
  rcases finish_cases (w := w) ok with ⟨_,heq⟩ | ⟨_,_,_,_,hqueue⟩
  · rw [heq]
  · exact hqueue

theorem entries_poll : (w.poll p).queue.entries = w.queue.entries := by
  rcases poll_cases (w := w) (p := p) with ⟨_,heq⟩ | ⟨_,_,hget,_⟩ | ⟨_,_,hqueue,_⟩
  · rw [heq]
  · obtain ⟨_,_,hpair⟩ := Option.map_eq_some_iff.mp hget
    rw [← (Prod.mk.inj hpair).2]
    rfl
  · rw [hqueue]

theorem entries_done : w.done.queue.entries = w.queue.entries := by
  rcases done_cases (w := w) with ⟨_,heq⟩ | ⟨_,_,_,_,_,hqueue⟩
  · rw [heq]
  · rw [hqueue]
    rfl

theorem mem_entries_of_settle {bucket : ℕ} {e : WaitFor α} (h : e ∈ (w.settle p bucket).queue.entries) :
    e ∈ w.queue.entries ∨ w.Defers p e := by
  rcases settle_cases (w := w) (p := p) bucket with
    ⟨_,heq⟩ | ⟨key,_,⟨_,hqueue,_⟩ | ⟨hphase,hretries,hqueue,_⟩ | ⟨_,_,hqueue,_⟩⟩
  · exact Or.inl (heq ▸ h)
  · rw [hqueue] at h
    exact Or.inl h
  · rw [hqueue] at h
    rcases RateLimitingQueue.mem_entries_of_addRateLimited h with hmem | rfl
    · exact Or.inl hmem
    · exact Or.inr ⟨hphase,hretries,Nat.add_le_add_left (Nat.le_max_left _ _) _⟩
  · rw [hqueue] at h
    exact Or.inl h

/-- An entry that waits is there because the work on its item has failed. -/
theorem mem_entries_of_step {turn : Turn α} {e : WaitFor α} (h : e ∈ (w.step p turn).queue.entries) :
    e ∈ w.queue.entries ∨ w.Defers p e := by
  cases turn with
  | add key => exact Or.inl h
  | poll => exact Or.inl (entries_poll (w := w) (p := p) ▸ h)
  | finish ok => exact Or.inl (queue_finish (w := w) ok ▸ h)
  | settle bucket => exact mem_entries_of_settle h
  | done => exact Or.inl (entries_done (w := w) ▸ h)
  | receive => exact Or.inl (RateLimitingQueue.mem_entries_of_receive h)
  | fire entry => exact Or.inl (RateLimitingQueue.mem_entries_of_fire h)
  | tick d => exact Or.inl h

theorem dirty_poll_subset : (w.poll p).queue.base.dirty ⊆ w.queue.base.dirty := by
  rcases poll_cases (w := w) (p := p) with ⟨_,heq⟩ | ⟨_,_,hget,_⟩ | ⟨_,_,hqueue,_⟩
  · rw [heq]
  · obtain ⟨_,hbase,hpair⟩ := Option.map_eq_some_iff.mp hget
    rw [← (Prod.mk.inj hpair).2]
    dsimp only
    rw [(WorkQueue.hands_of_get hbase).dirty]
    exact Finset.erase_subset _ _
  · rw [hqueue]

theorem dirty_settle (hpos : ∀ n, 0 < p.limiter.backoff n) (bucket : ℕ) :
    (w.settle p bucket).queue.base.dirty = w.queue.base.dirty := by
  rcases settle_cases (w := w) (p := p) bucket with
    ⟨_,heq⟩ | ⟨_,_,⟨_,hqueue,_⟩ | ⟨_,_,hqueue,_⟩ | ⟨_,_,hqueue,_⟩⟩
  · rw [heq]
  · rw [hqueue,RateLimitingQueue.base_forget]
  · rw [hqueue,RateLimitingQueue.base_addRateLimited (hpos _)]
  · rw [hqueue,RateLimitingQueue.base_forget]

theorem dirty_done : w.done.queue.base.dirty = w.queue.base.dirty := by
  rcases done_cases (w := w) with ⟨_,heq⟩ | ⟨_,_,_,_,_,hqueue⟩
  · rw [heq]
  · rw [hqueue,RateLimitingQueue.base_done,WorkQueue.dirty_done]

/-- An item that nobody adds is to be worked on again only when one of its entries is ready,
if every failure asks for some delay. -/
theorem ready_of_step (hpos : ∀ n, 0 < p.limiter.backoff n) {turn : Turn α} (hadd : ∀ key, turn ≠ .add key) {key : α}
    (h : key ∈ (w.step p turn).queue.base.dirty) : key ∈ w.queue.base.dirty ∨ w.queue.Ready key := by
  cases turn with
  | add key => exact absurd rfl (hadd key)
  | poll => exact Or.inl (dirty_poll_subset h)
  | finish ok => exact Or.inl (queue_finish (w := w) ok ▸ h)
  | settle bucket => exact Or.inl (dirty_settle (w := w) hpos bucket ▸ h)
  | done => exact Or.inl (dirty_done (w := w) ▸ h)
  | receive => exact RateLimitingQueue.ready_of_added w.queue.base_receive h
  | fire entry => exact RateLimitingQueue.ready_of_added (w.queue.base_fire entry) h
  | tick d => exact Or.inl h

/-! ## After the queue has been shut down -/

/-- How many steps the worker has left before it exits. -/
def Phase.left : Phase α → ℕ
  | .processing _ => 4
  | .returned _ _ => 3
  | .settled _ => 2
  | .polling => 1
  | .exited => 0

def left (w : Worker α) : ℕ := 4 * w.queue.base.dirty.card + w.phase.left

/-- The items that have been taken up. -/
def startedKeys (trace : List (Event α)) : List α :=
  trace.filterMap fun
    | .started key => some key
    | _ => none

/-- After the shutdown each step of the worker brings it one step nearer to its exit, and
the others do not add to what is left to do. -/
structure Winds (w w' : Worker α) (own : Bool) : Prop where
  shuttingDown : w'.queue.base.shuttingDown = true
  left : w'.left + own.toNat = w.left
  started : (startedKeys w'.trace).length + w'.queue.base.dirty.card =
    (startedKeys w.trace).length + w.queue.base.dirty.card
  exited : w.phase = .exited → w'.phase = .exited ∧ startedKeys w'.trace = startedKeys w.trace

omit [DecidableEq α] in
theorem Phase.eq_exited_of_left {phase : Phase α} (h : phase.left = 0) : phase = .exited := by
  cases phase <;> first | rfl | exact absurd h (by simp [Phase.left])

theorem Winds.of_same {w' : Worker α} {own : Bool} (hdown : w'.queue.base.shuttingDown = true)
    (hdirty : w'.queue.base.dirty = w.queue.base.dirty) (hphase : w'.phase.left + own.toNat = w.phase.left)
    (htrace : startedKeys w'.trace = startedKeys w.trace) : Winds w w' own := by
  refine ⟨hdown,?_,by rw [hdirty,htrace],fun hexited => ⟨Phase.eq_exited_of_left ?_,htrace⟩⟩
  · rw [Worker.left,Worker.left,hdirty]
    omega
  · rw [hexited] at hphase
    exact Nat.eq_zero_of_add_eq_zero_right hphase

theorem Winds.refl (hdown : w.queue.base.shuttingDown = true) : Winds w w false := .of_same hdown rfl rfl rfl

theorem Winds.poll (hexits : p.exits = true) (hdown : w.queue.base.shuttingDown = true) :
    Winds w (w.poll p) (Turn.isNext w.phase (.poll : Turn α)) := by
  rcases poll_cases (w := w) (p := p) with ⟨hother,heq⟩ | ⟨hphase,key,hget,hphase',htrace⟩ |
      ⟨hphase,hget,hqueue,htrace,hphase'⟩
  · rw [hother,heq]
    exact .refl hdown
  · obtain ⟨⟨first,base⟩,hbase,heq⟩ := Option.map_eq_some_iff.mp hget
    obtain ⟨rfl,hqueue⟩ := Prod.mk.inj heq
    have hhands := WorkQueue.hands_of_get hbase
    have hcard := Finset.card_erase_add_one hhands.mem_dirty
    have hdirty : (w.poll p).queue.base.dirty = w.queue.base.dirty.erase first := by rw [← hqueue,hhands.dirty]
    refine ⟨by rw [← hqueue]; exact hhands.shuttingDown.trans hdown,?_,?_,
      fun hexited => absurd (hphase.symm.trans hexited) (by simp)⟩
    · rw [Worker.left,Worker.left,hdirty,hphase',hphase]
      simp only [Phase.left,Turn.isNext,Bool.toNat_true]
      omega
    · rw [htrace,hdirty]
      change (startedKeys w.trace).length + 1 + _ = _
      omega
  · rw [if_pos ⟨hdown,hexits⟩] at hphase'
    exact .of_same (by rwa [hqueue]) (by rw [hqueue]) (by rw [hphase',hphase]; rfl) (by rw [htrace])

theorem Winds.finish (hdown : w.queue.base.shuttingDown = true) (ok : Bool) :
    Winds w (w.finish ok) (Turn.isNext w.phase (.finish ok : Turn α)) := by
  rcases finish_cases (w := w) ok with ⟨hother,heq⟩ | ⟨key,hphase,hphase',htrace,hqueue⟩
  · rw [hother,heq]
    exact .refl hdown
  · exact .of_same (by rwa [hqueue]) (by rw [hqueue]) (by rw [hphase',hphase]; rfl) (by rw [htrace]; rfl)

theorem Winds.settle (hdown : w.queue.base.shuttingDown = true) (bucket : ℕ) :
    Winds w (w.settle p bucket) (Turn.isNext w.phase (.settle bucket : Turn α)) := by
  have hlimited (key : α) : (w.queue.addRateLimited key p.limiter bucket).base = w.queue.base := by
    rw [RateLimitingQueue.addRateLimited,RateLimitingQueue.addAfter,if_pos hdown]
  rcases settle_cases (w := w) (p := p) bucket with ⟨hother,heq⟩ | ⟨key,hphase',h⟩
  · rw [hother,heq]
    exact .refl hdown
  · have hbase : (w.settle p bucket).queue.base = w.queue.base := by
      rcases h with ⟨_,hqueue,_⟩ | ⟨_,_,hqueue,_⟩ | ⟨_,_,hqueue,_⟩
      · rw [hqueue,RateLimitingQueue.base_forget]
      · rw [hqueue,hlimited]
      · rw [hqueue,RateLimitingQueue.base_forget]
    refine .of_same (by rwa [hbase]) (by rw [hbase]) ?_ ?_
    · rcases h with ⟨hphase,_⟩ | ⟨hphase,_⟩ | ⟨hphase,_⟩ <;> rw [hphase',hphase] <;> rfl
    · rcases h with ⟨_,_,htrace⟩ | ⟨_,_,_,htrace⟩ | ⟨_,_,_,htrace⟩ <;> rw [htrace] <;> rfl

theorem Winds.done (hdown : w.queue.base.shuttingDown = true) :
    Winds w w.done (Turn.isNext w.phase (.done : Turn α)) := by
  rcases done_cases (w := w) with ⟨hother,heq⟩ | ⟨key,_,hphase,hphase',htrace,hqueue⟩
  · rw [hother,heq]
    exact .refl hdown
  · exact .of_same (by simpa [hqueue] using hdown) (by simp [hqueue]) (by rw [hphase',hphase]; rfl) (by rw [htrace])

/-- Whoever else uses the queue finds it closed, and so does the waiting loop. -/
theorem Winds.onQueue {q : RateLimitingQueue α} (hq : q.base.processing = w.queue.base.processing)
    (hdown : q.base.shuttingDown = true) (hdirty : q.base.dirty = w.queue.base.dirty) {turn : Turn α}
    (hother : turn.isNext w.phase = false) : Winds w (w.onQueue q hq) (turn.isNext w.phase) := by
  rw [hother]
  exact .of_same hdown hdirty rfl rfl

theorem winds_step (hexits : p.exits = true) (hdown : w.queue.base.shuttingDown = true) (turn : Turn α) :
    Winds w (w.step p turn) (turn.isNext w.phase) := by
  cases turn with
  | add key =>
    have hother : Turn.isNext w.phase (.add key : Turn α) = false := by cases w.phase <;> rfl
    rw [hother]
    exact .of_same (by simpa [step,Worker.add,Worker.onQueue] using hdown)
      (by simp [step,Worker.add,Worker.onQueue,hdown]) rfl rfl
  | poll => exact .poll hexits hdown
  | finish ok => exact .finish hdown ok
  | settle bucket => exact .settle hdown bucket
  | done => exact .done hdown
  | receive =>
    exact .onQueue (by simp) (by simpa using hdown) (by rw [RateLimitingQueue.receive,if_pos hdown])
      (by cases w.phase <;> rfl)
  | fire entry =>
    exact .onQueue (by simp) (by simpa using hdown) (by rw [RateLimitingQueue.fire,if_neg (by simp [hdown])])
      (by cases w.phase <;> rfl)
  | tick d => exact .onQueue (q := w.queue.tick d) rfl hdown rfl (by cases w.phase <;> rfl)

/-! ## The exit -/

theorem shuttingDown_step (turn : Turn α) :
    (w.step p turn).queue.base.shuttingDown = w.queue.base.shuttingDown := by
  cases turn with
  | add key => exact WorkQueue.shuttingDown_add _ key
  | poll =>
    rcases poll_cases (w := w) (p := p) with ⟨_,heq⟩ | ⟨_,key,hget,_⟩ | ⟨_,_,hqueue,_⟩
    · exact congrArg (fun w : Worker α => w.queue.base.shuttingDown) heq
    · obtain ⟨⟨first,base⟩,hbase,heq⟩ := Option.map_eq_some_iff.mp hget
      exact (congrArg (fun q : RateLimitingQueue α => q.base.shuttingDown) (Prod.mk.inj heq).2.symm).trans
        (WorkQueue.hands_of_get hbase).shuttingDown
    · exact congrArg (fun q : RateLimitingQueue α => q.base.shuttingDown) hqueue
  | finish ok =>
    rcases finish_cases (w := w) ok with ⟨_,heq⟩ | ⟨key,_,_,_,hqueue⟩
    · exact congrArg (fun w : Worker α => w.queue.base.shuttingDown) heq
    · exact congrArg (fun q : RateLimitingQueue α => q.base.shuttingDown) hqueue
  | settle bucket =>
    rcases settle_cases (w := w) (p := p) bucket with ⟨_,heq⟩ | ⟨key,_,h⟩
    · exact congrArg (fun w : Worker α => w.queue.base.shuttingDown) heq
    · simp only [step]
      rcases h with ⟨_,hqueue,_⟩ | ⟨_,_,hqueue,_⟩ | ⟨_,_,hqueue,_⟩ <;> simp [hqueue]
  | done =>
    rcases done_cases (w := w) with ⟨_,heq⟩ | ⟨key,_,_,_,_,hqueue⟩
    · exact congrArg (fun w : Worker α => w.queue.base.shuttingDown) heq
    · simp [step,hqueue]
  | receive => exact RateLimitingQueue.shuttingDown_receive _
  | fire entry => exact RateLimitingQueue.shuttingDown_fire _ entry
  | tick d => rfl

/-- The worker exits only after the queue has been shut down. -/
theorem exited_or_down_of_step {turn : Turn α} (h : (w.step p turn).phase = .exited) :
    w.phase = .exited ∨ w.queue.base.shuttingDown = true := by
  cases turn with
  | poll =>
    rcases poll_cases (w := w) (p := p) with ⟨_,heq⟩ | ⟨_,key,_,hphase,_⟩ | ⟨_,_,_,_,hphase⟩
    · exact Or.inl (by rwa [step,heq] at h)
    · exact absurd (hphase.symm.trans h) (by simp)
    · right
      by_contra hup
      rw [if_neg fun hboth => hup hboth.1] at hphase
      exact absurd (hphase.symm.trans h) (by simp)
  | finish ok =>
    rcases finish_cases (w := w) ok with ⟨_,heq⟩ | ⟨key,_,hphase,_⟩
    · exact Or.inl (by rwa [step,heq] at h)
    · exact absurd (hphase.symm.trans h) (by simp)
  | settle bucket =>
    rcases settle_cases (w := w) (p := p) bucket with ⟨_,heq⟩ | ⟨key,hphase,_⟩
    · exact Or.inl (by rwa [step,heq] at h)
    · exact absurd (hphase.symm.trans h) (by simp)
  | done =>
    rcases done_cases (w := w) with ⟨_,heq⟩ | ⟨key,_,_,hphase,_⟩
    · exact Or.inl (by rwa [step,heq] at h)
    · exact absurd (hphase.symm.trans h) (by simp)
  | add key => exact Or.inl h
  | receive => exact Or.inl h
  | fire entry => exact Or.inl h
  | tick d => exact Or.inl h

/-- A worker that has exited takes nothing up any more. -/
theorem exited_step (h : w.phase = .exited) (turn : Turn α) :
    (w.step p turn).phase = .exited ∧ startedKeys (w.step p turn).trace = startedKeys w.trace := by
  cases turn with
  | poll =>
    rcases poll_cases (w := w) (p := p) with ⟨_,heq⟩ | ⟨hphase,_⟩ | ⟨hphase,_⟩
    · simp [step,heq,h]
    · exact absurd (hphase.symm.trans h) (by simp)
    · exact absurd (hphase.symm.trans h) (by simp)
  | finish ok =>
    rcases finish_cases (w := w) ok with ⟨_,heq⟩ | ⟨key,hphase,_⟩
    · simp [step,heq,h]
    · exact absurd (hphase.symm.trans h) (by simp)
  | settle bucket =>
    rcases settle_cases (w := w) (p := p) bucket with ⟨_,heq⟩ | ⟨key,_,hcases⟩
    · simp [step,heq,h]
    · simp [h] at hcases
  | done =>
    rcases done_cases (w := w) with ⟨_,heq⟩ | ⟨key,_,hphase,_⟩
    · simp [step,heq,h]
    · exact absurd (hphase.symm.trans h) (by simp)
  | add key => exact ⟨h,rfl⟩
  | receive => exact ⟨h,rfl⟩
  | fire entry => exact ⟨h,rfl⟩
  | tick d => exact ⟨h,rfl⟩

end Worker
end IngressGce
