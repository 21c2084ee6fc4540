import IngressGce.NetworkEndpointGroup.Accepted
import IngressGce.NetworkEndpointGroup.Controller
import IngressGce.NetworkEndpointGroup.Converge
import IngressGce.Program.Runs

/-! # The loop of a syncer

A syncer that was started has a goroutine, which syncs and then waits for a signal or for
the timer of a retry. The handler of the Endpoints signals through a channel that buffers
one signal and drops the others, and a signal does not say what has changed. While the
goroutine is between the steps of a sync the Endpoints may change, and the syncer may be
signalled or stopped.
-/
namespace IngressGce.NEG
open Prog

/-! ## Retries -/

/-- In seconds, as all times here. -/
def minRetryDelay : ℕ := 5
def maxRetryDelay : ℕ := 300

structure Retries where
  retryCount : ℕ
  lastRetryDelay : ℕ
  deriving DecidableEq

namespace Retries

def nextRetryDelay (r : Retries) : Retries where
  retryCount := r.retryCount + 1
  lastRetryDelay :=
    let delay := r.lastRetryDelay * 2
    if delay < minRetryDelay then minRetryDelay else if maxRetryDelay < delay then maxRetryDelay else delay

def resetRetryDelay : Retries := { retryCount := 0, lastRetryDelay := 0 }

/-- The delay after so many failures in a row. -/
def backoff (failures : ℕ) : ℕ := min (minRetryDelay * 2 ^ (failures - 1)) maxRetryDelay

/-- Nothing is counted any more when there is no retry. -/
def after (failures : ℕ) : Retries := nextRetryDelay^[min failures (maxRetries + 1)] resetRetryDelay

theorem backoff_pos (failures : ℕ) : 0 < backoff failures := by
  have hpow : 0 < 2 ^ (failures - 1) := Nat.two_pow_pos _
  simp only [backoff,minRetryDelay,maxRetryDelay]
  omega

/-- The delays double until they have reached the largest one. -/
theorem iterate_nextRetryDelay (n : ℕ) :
    nextRetryDelay^[n + 1] resetRetryDelay = { retryCount := n + 1, lastRetryDelay := backoff (n + 1) } := by
  induction n with
  | zero => rfl
  | succ n ih =>
    have hpow : 0 < 2 ^ n := Nat.two_pow_pos n
    rw [Function.iterate_succ_apply',ih,nextRetryDelay]
    simp only [backoff,minRetryDelay,maxRetryDelay,Nat.add_sub_cancel,pow_succ,Retries.mk.injEq,true_and]
    split
    · omega
    · split <;> omega

theorem retryCount_after (failures : ℕ) : (after failures).retryCount = min failures (maxRetries + 1) := by
  unfold after
  cases min failures (maxRetries + 1) with
  | zero => rfl
  | succ n => rw [iterate_nextRetryDelay]

/-- A failure that is retried. -/
theorem nextRetryDelay_after {failures : ℕ} (h : failures ≤ maxRetries) :
    (after failures).nextRetryDelay = after (failures + 1) ∧ (after (failures + 1)).lastRetryDelay = backoff (failures + 1) := by
  have hmin : min failures (maxRetries + 1) = failures := by omega
  have hmin' : min (failures + 1) (maxRetries + 1) = failures + 1 := by omega
  unfold after
  rw [hmin,hmin',iterate_nextRetryDelay]
  refine ⟨?_,rfl⟩
  rw [← Function.iterate_succ_apply' nextRetryDelay,iterate_nextRetryDelay]

theorem after_succ {failures : ℕ} (h : maxRetries < failures) : after (failures + 1) = after failures := by
  have hmin : min (failures + 1) (maxRetries + 1) = min failures (maxRetries + 1) := by omega
  unfold after
  rw [hmin]

end Retries

/-! ## Turns -/

/-- Where the goroutine is: before the sync, past the check that the syncer runs, past the
read of the Endpoints, in the select with the time of the retry, or past the select that
found the channel closed. -/
inductive Stage
  | top
  | checked
  | syncing (answer : Except Str (Option Endpoints))
  | waiting (retryAt : Option ℕ)
  | stopping

/-- The phase that the manager's model has for it. -/
def Stage.phase : Stage → Phase
  | .top | .checked | .syncing _ => .syncing
  | .waiting _ => .waiting
  | .stopping => .stopping

/-- A sync that was not skipped: what it read, what it started from, and what it returned. -/
structure Pass where
  env : Environment
  before : GroupCloud
  result : Except SyncError Unit

/-- A syncer with its goroutine. `unnotified` says that no handler has run since the
Endpoints last changed. `last`, `failures` and `endedAt` record the last sync that was not
skipped, the syncs that have failed since the last one that returned nil, and when the last
sync returned. -/
structure SyncLoop where
  syncer : Syncer
  stage : Option Stage
  retries : Retries
  now : ℕ
  world : Environment
  unnotified : Bool
  cloud : GroupCloud
  last : Option Pass
  failures : ℕ
  endedAt : ℕ

/-- The Endpoints of the service change, or something else that a sync reads; a handler of
the Endpoints runs; the manager starts or stops the syncer; the goroutine takes a step, with
its choice if both channels of the select are ready; or time passes. -/
inductive SyncTurn
  | endpoints (answer : Except Str (Option Endpoints))
  | elsewhere (E : Environment)
  | notify
  | start
  | stop
  | go (timer : Bool)
  | tick (d : ℕ)

/-- A running syncer of the port. -/
def ServicePort.running (svcPort : ServicePort) : Syncer :=
  { newSyncer svcPort with stopped := false }

namespace SyncLoop

def new (svcPort : ServicePort) (world : Environment) (cloud : GroupCloud) : SyncLoop where
  syncer := newSyncer svcPort
  stage := none
  retries := Retries.resetRetryDelay
  now := 0
  world := world
  unnotified := false
  cloud := cloud
  last := none
  failures := 0
  endedAt := 0

variable (w : SyncLoop)

def service : ServiceKey := w.syncer.servicePort.service

/-- What the lister has for the service. -/
def listed : Except Str (Option Endpoints) := w.world.endpointLister w.service

def signalled : Bool := w.syncer.syncCh.any SyncCh.buffered

/-- The world with another answer of the lister for the service. -/
def withAnswer (E : Environment) (answer : Except Str (Option Endpoints)) : Environment :=
  { E with endpointLister := Function.update E.endpointLister w.service answer }

/-- It returns an error unless the syncer is stopped, with its goroutine gone. -/
def start : SyncLoop :=
  if w.syncer.stopped && !w.syncer.shuttingDown then
    { w with
      syncer := { w.syncer with stopped := false, syncCh := some { closed := false, buffered := false } }
      stage := some .top }
  else w

def stop : SyncLoop :=
  if w.syncer.stopped then w
  else { w with
    syncer := { w.syncer with
      stopped := true
      shuttingDown := true
      syncCh := w.syncer.syncCh.map (fun ch => { ch with closed := true }) } }

/-- `Sync` of the source. -/
def signal : SyncLoop :=
  if w.syncer.stopped then w
  else { w with
    syncer := { w.syncer with syncCh := w.syncer.syncCh.map (fun ch => { ch with buffered := true }) } }

/-- What `start` does when a sync has returned. -/
def settle (r : Except SyncError Unit) : SyncLoop :=
  match r with
  | .ok _ =>
    { w with retries := Retries.resetRetryDelay, stage := some (.waiting none), failures := 0, endedAt := w.now }
  | .error _ =>
    if maxRetries < w.retries.retryCount then
      { w with stage := some (.waiting none), failures := w.failures + 1, endedAt := w.now }
    else
      { w with
        retries := w.retries.nextRetryDelay
        stage := some (.waiting (some (w.now + w.retries.nextRetryDelay.lastRetryDelay)))
        failures := w.failures + 1
        endedAt := w.now }

/-- The rest of a sync that has read the Endpoints. Whether the syncer is stopped is not
looked at again. -/
def outcome (negName : Str) (answer : Except Str (Option Endpoints)) : Except SyncError Unit × GroupCloud :=
  w.syncer.servicePort.running.sync (w.withAnswer w.world answer) negName w.cloud

def passed (negName : Str) (answer : Except Str (Option Endpoints)) : SyncLoop :=
  { w with
    cloud := (w.outcome negName answer).2
    last := some {
      env := w.withAnswer w.world answer
      before := w.cloud
      result := (w.outcome negName answer).1 } }

def pass (negName : Str) (answer : Except Str (Option Endpoints)) : SyncLoop :=
  (w.passed negName answer).settle (w.outcome negName answer).1

def due (retryAt : Option ℕ) : Bool := retryAt.any (fun t => t ≤ w.now)

def select (retryAt : Option ℕ) (timer : Bool) : SyncLoop :=
  match w.syncer.syncCh with
  | none => w
  | some ch =>
    if w.due retryAt && (timer || !(ch.buffered || ch.closed)) then { w with stage := some .top }
    -- A closed channel still delivers what it has buffered.
    else if ch.buffered then
      { w with syncer := { w.syncer with syncCh := some { ch with buffered := false } }, stage := some .top }
    else if ch.closed then { w with stage := some .stopping }
    else w

/-- One step of the goroutine. -/
def go (negName : Str) (timer : Bool) : SyncLoop :=
  match w.stage with
  | none => w
  | some .top =>
    if w.syncer.stopped || w.syncer.shuttingDown then w.settle (.ok ()) else { w with stage := some .checked }
  | some .checked => { w with stage := some (.syncing w.listed) }
  | some (.syncing answer) => w.pass negName answer
  | some (.waiting retryAt) => w.select retryAt timer
  | some .stopping => { w with syncer := { w.syncer with shuttingDown := false }, stage := none }

def step (negName : Str) (w : SyncLoop) : SyncTurn → SyncLoop
  | .endpoints answer => { w with world := w.withAnswer w.world answer, unnotified := true }
  | .elsewhere E => { w with world := w.withAnswer E w.listed }
  | .notify => { w.signal with unnotified := false }
  | .start => w.start
  | .stop => w.stop
  | .go timer => w.go negName timer
  | .tick d => { w with now := w.now + d }

/-! ## What a turn keeps -/

/-- The goroutine of a syncer that runs has the present answer of the lister, or is going
to read it. -/
def Current : Prop :=
  match w.stage with
  | some (.syncing answer) => answer = w.listed
  | some (.waiting _) => ∀ p ∈ w.last, p.env.endpointLister w.service = w.listed
  | none | some .top | some .checked | some .stopping => True

/-- The delay until the retry of a sync that is the last of so many failures in a row. -/
def retryAfter (failures : ℕ) : Option ℕ :=
  if failures = 0 ∨ maxRetries + 1 < failures then none else some (Retries.backoff failures)

/-- The cloud is as the last sync has left it, which is retried at the given time. -/
structure Recorded (negName : Str) (w : SyncLoop) (retryAt : Option ℕ) (p : Pass) : Prop where
  last : w.last = some p
  ran : w.syncer.servicePort.running.sync p.env negName p.before = (p.result,w.cloud)
  failing : w.failures = 0 ↔ p.result = .ok ()
  retried : retryAt = (retryAfter w.failures).map (fun d => w.endedAt + d)

structure Inv (negName : Str) (w : SyncLoop) : Prop where
  gone : w.stage = none → w.syncer.stopped = true ∧ w.syncer.shuttingDown = false
  alive : w.stage ≠ none → w.syncer.shuttingDown = w.syncer.stopped
  stopping : w.stage = some .stopping → w.syncer.stopped = true
  channel : w.syncer.stopped = false → ∃ buffered, w.syncer.syncCh = some { closed := false, buffered }
  counted : w.retries = Retries.after w.failures
  current : w.syncer.stopped = false → w.unnotified = false → w.signalled = false → w.Current
  recorded : w.syncer.stopped = false → ∀ retryAt, w.stage = some (.waiting retryAt) → ∃ p, Recorded negName w retryAt p

variable {w} {negName : Str}

theorem inv_new (svcPort : ServicePort) (world : Environment) (cloud : GroupCloud) :
    (new svcPort world cloud).Inv negName where
  gone _ := ⟨rfl,rfl⟩
  alive h := absurd rfl h
  stopping h := by cases h
  channel h := by cases h
  counted := rfl
  current h := by cases h
  recorded h := by cases h

theorem Inv.endpoints (h : w.Inv negName) (answer : Except Str (Option Endpoints)) :
    (step negName w (.endpoints answer)).Inv negName :=
  { h with
    current := fun _ hnotified => by cases hnotified
    recorded := fun hrun retryAt hstage => (h.recorded hrun retryAt hstage).imp fun _ hp => { hp with } }

theorem listed_withAnswer (E : Environment) (answer : Except Str (Option Endpoints)) :
    (w.withAnswer E answer).endpointLister w.service = answer := Function.update_self ..

/-- Nothing else in the world matters to what the goroutine has read. -/
theorem Inv.elsewhere (h : w.Inv negName) (E : Environment) : (step negName w (.elsewhere E)).Inv negName :=
  { h with
    current := fun hrun hnotified hsignal => by
      have hcurrent := h.current hrun hnotified hsignal
      have hlisted : (step negName w (.elsewhere E)).listed = w.listed := listed_withAnswer E w.listed
      unfold Current at hcurrent ⊢
      rw [hlisted]
      exact hcurrent
    recorded := fun hrun retryAt hstage => (h.recorded hrun retryAt hstage).imp fun _ hp => { hp with } }

theorem signal_of_running (hrun : w.syncer.stopped = false) {b : Bool}
    (hch : w.syncer.syncCh = some { closed := false, buffered := b }) :
    w.signal = { w with syncer := { w.syncer with syncCh := some { closed := false, buffered := true } } } := by
  simp [signal,hrun,hch]

/-- A handler leaves a signal in the channel of a syncer that runs. -/
theorem Inv.notify (h : w.Inv negName) : (step negName w .notify).Inv negName := by
  cases hstopped : w.syncer.stopped with
  | true =>
    have heq : w.signal = w := if_pos hstopped
    rw [step,heq]
    exact { h with
      current := fun hrun => by simp [hstopped] at hrun
      recorded := fun hrun => by simp [hstopped] at hrun }
  | false =>
    obtain ⟨b,hch⟩ := h.channel hstopped
    rw [step,signal_of_running hstopped hch]
    exact { h with
      channel := fun _ => ⟨true,rfl⟩
      current := fun _ _ hsignal => by cases hsignal
      recorded := fun hrun retryAt hstage => (h.recorded hrun retryAt hstage).imp fun _ hp => { hp with } }

theorem Inv.start (h : w.Inv negName) : (step negName w .start).Inv negName := by
  rw [step,SyncLoop.start]
  split
  · next hdown =>
    have hdown' : w.syncer.shuttingDown = false := by simpa using (Bool.and_eq_true_iff.mp hdown).2
    exact {
      gone := fun hstage => by cases hstage
      alive := fun _ => hdown'
      stopping := fun hstage => by cases hstage
      channel := fun _ => ⟨false,rfl⟩
      counted := h.counted
      current := fun _ _ _ => trivial
      recorded := fun _ _ hstage => by cases hstage }
  · exact h

/-- The goroutine that `start` makes is the only one. -/
theorem Inv.stage_of_start (h : w.Inv negName) (hstart : (w.syncer.stopped && !w.syncer.shuttingDown) = true) :
    w.stage = none := by
  by_contra hstage
  simp [h.alive hstage] at hstart

theorem Inv.stop (h : w.Inv negName) : (step negName w .stop).Inv negName := by
  rw [step,SyncLoop.stop]
  split
  · exact h
  · next hrun =>
    exact {
      gone := fun hstage => absurd (h.gone hstage).1 hrun
      alive := fun _ => rfl
      stopping := fun _ => rfl
      channel := fun hrun' => by cases hrun'
      counted := h.counted
      current := fun hrun' => by cases hrun'
      recorded := fun hrun' => by cases hrun' }

theorem Inv.tick (h : w.Inv negName) (d : ℕ) : (step negName w (.tick d)).Inv negName :=
  { h with
    recorded := fun hrun retryAt hstage => (h.recorded hrun retryAt hstage).imp fun _ hp => { hp with } }

/-- How a sync that has returned leaves the loop. -/
theorem settle_spec (hcounted : w.retries = Retries.after w.failures) (r : Except SyncError Unit) :
    ∃ failures retryAt, w.settle r =
        { w with
          retries := Retries.after failures
          stage := some (.waiting retryAt)
          failures := failures
          endedAt := w.now } ∧
      (failures = 0 ↔ r = .ok ()) ∧ retryAt = (retryAfter failures).map (fun d => w.now + d) := by
  cases r with
  | ok _ => exact ⟨0,none,rfl,by simp,rfl⟩
  | error e =>
    have hcount := Retries.retryCount_after w.failures
    rw [settle]
    by_cases hmax : w.failures ≤ maxRetries
    · obtain ⟨hnext,hdelay⟩ := Retries.nextRetryDelay_after hmax
      have hcount' : ¬maxRetries < w.retries.retryCount := by
        rw [hcounted,hcount]
        omega
      refine ⟨w.failures + 1,some (w.now + Retries.backoff (w.failures + 1)),?_,by simp,?_⟩
      · rw [if_neg hcount',hcounted,hnext,hdelay]
      · have hretried : ¬(w.failures + 1 = 0 ∨ maxRetries + 1 < w.failures + 1) := by omega
        rw [retryAfter,if_neg hretried,Option.map_some]
    · have hcount' : maxRetries < w.retries.retryCount := by
        rw [hcounted,hcount]
        omega
      refine ⟨w.failures + 1,none,?_,by simp,?_⟩
      · rw [if_pos hcount',Retries.after_succ (by omega),← hcounted]
      · have hspent : w.failures + 1 = 0 ∨ maxRetries + 1 < w.failures + 1 := by omega
        rw [retryAfter,if_pos hspent,Option.map_none]

/-- The goroutine goes on to a stage before the select. -/
theorem Inv.enter (h : w.Inv negName) (halive : w.stage ≠ none) {s : Stage}
    (hs : s = .top ∨ s = .checked ∨ s = .syncing w.listed) : Inv negName { w with stage := some s } where
  gone hstage := by cases hstage
  alive _ := h.alive halive
  stopping hstage := by rcases hs with rfl | rfl | rfl <;> cases hstage
  channel := h.channel
  counted := h.counted
  current _ _ _ := by
    rcases hs with rfl | rfl | rfl
    · trivial
    · trivial
    · exact Eq.refl w.listed
  recorded _ retryAt hstage := by rcases hs with rfl | rfl | rfl <;> cases hstage

/-- A sync of a stopped syncer returns nil at once. -/
theorem Inv.skip (h : w.Inv negName) (hstopped : w.syncer.stopped = true) (halive : w.stage ≠ none) :
    (w.settle (.ok ())).Inv negName where
  gone hstage := by cases hstage
  alive _ := h.alive halive
  stopping hstage := by cases hstage
  channel := h.channel
  counted := rfl
  current hrun := by simp [settle,hstopped] at hrun
  recorded hrun := by simp [settle,hstopped] at hrun

theorem Inv.pass (h : w.Inv negName) {answer : Except Str (Option Endpoints)} (hstage : w.stage = some (.syncing answer)) :
    (w.pass negName answer).Inv negName := by
  have hcounted : (w.passed negName answer).retries = Retries.after (w.passed negName answer).failures := h.counted
  obtain ⟨failures,retryAt,hsettle,hfailing,hretried⟩ := settle_spec hcounted (w.outcome negName answer).1
  rw [SyncLoop.pass,hsettle]
  exact {
    gone := fun hnone => by cases hnone
    alive := fun _ => h.alive (by simp [hstage])
    stopping := fun hstopping => by cases hstopping
    channel := h.channel
    counted := rfl
    current := fun hrun hnotified hsignal => by
      have hcurrent := h.current hrun hnotified hsignal
      unfold Current at hcurrent
      rw [hstage] at hcurrent
      intro p hp
      obtain rfl := Option.some.inj hp
      exact (listed_withAnswer w.world answer).trans hcurrent
    recorded := fun _ retryAt' hwaiting => by
      obtain rfl := Stage.waiting.inj (Option.some.inj hwaiting)
      exact ⟨_,rfl,rfl,hfailing,hretried⟩ }

theorem Inv.select (h : w.Inv negName) {retryAt : Option ℕ} (hstage : w.stage = some (.waiting retryAt)) (timer : Bool) :
    (w.select retryAt timer).Inv negName := by
  have halive : w.stage ≠ none := by simp [hstage]
  have htop : Inv negName { w with stage := some .top } := h.enter halive (.inl rfl)
  rw [SyncLoop.select]
  split
  · exact h
  · next ch hch =>
    split
    · exact htop
    · split
      · exact { htop with
          channel := fun hrun => by
            obtain ⟨b,hch'⟩ := h.channel hrun
            obtain rfl := Option.some.inj (hch.symm.trans hch')
            exact ⟨false,rfl⟩
          current := fun _ _ _ => trivial
          recorded := fun _ _ hwaiting => by cases hwaiting }
      · split
        · next hclosed =>
          -- The channel of a syncer that runs is open.
          have hstopped : w.syncer.stopped = true := by
            by_contra hrun
            obtain ⟨b,hch'⟩ := h.channel (by simpa using hrun)
            obtain rfl := Option.some.inj (hch.symm.trans hch')
            cases hclosed
          exact {
            gone := fun hnone => by cases hnone
            alive := fun _ => h.alive halive
            stopping := fun _ => hstopped
            channel := h.channel
            counted := h.counted
            current := fun _ _ _ => trivial
            recorded := fun _ _ hwaiting => by cases hwaiting }
        · exact h

theorem Inv.go (h : w.Inv negName) (timer : Bool) : (step negName w (.go timer)).Inv negName := by
  rw [step,SyncLoop.go]
  split
  · exact h
  · next hstage =>
    have halive : w.stage ≠ none := by simp [hstage]
    split
    · next hstopped =>
      apply h.skip _ halive
      rwa [h.alive halive,Bool.or_self] at hstopped
    · exact h.enter halive (.inr (.inl rfl))
  · next hstage => exact h.enter (by simp [hstage]) (.inr (.inr rfl))
  · next answer hstage => exact h.pass hstage
  · next retryAt hstage => exact h.select hstage timer
  · next hstage =>
    have hstopped := h.stopping hstage
    exact {
      gone := fun _ => ⟨hstopped,rfl⟩
      alive := fun hnone => absurd rfl hnone
      stopping := fun hs => by cases hs
      channel := h.channel
      counted := h.counted
      current := fun _ _ _ => trivial
      recorded := fun _ _ hwaiting => by cases hwaiting }

theorem Inv.step (h : w.Inv negName) (t : SyncTurn) : (step negName w t).Inv negName := by
  cases t with
  | endpoints answer => exact h.endpoints answer
  | elsewhere E => exact h.elsewhere E
  | notify => exact h.notify
  | start => exact h.start
  | stop => exact h.stop
  | go timer => exact h.go timer
  | tick d => exact h.tick d

theorem inv_run (svcPort : ServicePort) (world : Environment) (cloud : GroupCloud) (turns : List SyncTurn) :
    (Runs.final (SyncLoop.step negName) (new svcPort world cloud) turns).Inv negName :=
  Runs.final_invariant (fun _ t h => h.step t) (inv_new svcPort world cloud) turns

/-! ## The goroutine comes to wait -/

/-- The goroutine is in its select, where neither channel has anything for it. -/
structure Waits (w : SyncLoop) (retryAt : Option ℕ) : Prop where
  stage : w.stage = some (.waiting retryAt)
  early : w.due retryAt = false
  unsignalled : w.signalled = false

/-- How many steps the goroutine can take before it waits. -/
def rank (w : SyncLoop) : ℕ :=
  (if w.signalled then 4 else 0) +
    match w.stage with
    | none | some .stopping => 0
    | some .top => 3
    | some .checked => 2
    | some (.syncing _) => 1
    | some (.waiting retryAt) => if w.due retryAt then 4 else 0

theorem rank_le (w : SyncLoop) : w.rank ≤ 8 := by
  unfold rank
  split <;> split <;> (try split) <;> omega

/-- A retry is never due at once. -/
theorem due_settle (hcounted : w.retries = Retries.after w.failures) (r : Except SyncError Unit) :
    ∃ retryAt, (w.settle r).stage = some (.waiting retryAt) ∧ (w.settle r).due retryAt = false := by
  obtain ⟨failures,retryAt,hsettle,_,rfl⟩ := settle_spec hcounted r
  refine ⟨_,by rw [hsettle],?_⟩
  rw [hsettle]
  have hpos := Retries.backoff_pos failures
  unfold retryAfter due
  split
  · rfl
  · simp only [Option.map_some,Option.any_some,decide_eq_false_iff_not]
    omega

/-- What a step of the goroutine has no part in. -/
structure Apart (w w' : SyncLoop) : Prop where
  servicePort : w'.syncer.servicePort = w.syncer.servicePort
  stopped : w'.syncer.stopped = w.syncer.stopped
  unnotified : w'.unnotified = w.unnotified
  world : w'.world = w.world

theorem apart_settle (w : SyncLoop) (r : Except SyncError Unit) : Apart w (w.settle r) := by
  unfold settle
  split
  · exact ⟨rfl,rfl,rfl,rfl⟩
  · split <;> exact ⟨rfl,rfl,rfl,rfl⟩

theorem apart_go (w : SyncLoop) (timer : Bool) : Apart w (w.go negName timer) := by
  unfold SyncLoop.go
  split
  · exact ⟨rfl,rfl,rfl,rfl⟩
  · split
    · exact apart_settle w _
    · exact ⟨rfl,rfl,rfl,rfl⟩
  · exact ⟨rfl,rfl,rfl,rfl⟩
  · next answer _ =>
    have hsettle := apart_settle (w.passed negName answer) (w.outcome negName answer).1
    exact ⟨hsettle.servicePort,hsettle.stopped,hsettle.unnotified,hsettle.world⟩
  · unfold SyncLoop.select
    split
    · exact ⟨rfl,rfl,rfl,rfl⟩
    · split_ifs <;> exact ⟨rfl,rfl,rfl,rfl⟩
  · exact ⟨rfl,rfl,rfl,rfl⟩

theorem signalled_settle (w : SyncLoop) (r : Except SyncError Unit) : (w.settle r).signalled = w.signalled := by
  unfold settle
  split
  · rfl
  · split <;> rfl

theorem rank_of_waiting {retryAt : Option ℕ} (hstage : w.stage = some (.waiting retryAt)) :
    w.rank = (if w.signalled then 4 else 0) + if w.due retryAt then 4 else 0 := by
  rw [rank,hstage]

theorem rank_settle (hcounted : w.retries = Retries.after w.failures) (r : Except SyncError Unit) :
    (w.settle r).rank = if w.signalled then 4 else 0 := by
  obtain ⟨retryAt,hstage,hdue⟩ := due_settle hcounted r
  rw [rank_of_waiting hstage,hdue,signalled_settle]
  rfl

/-- A select with something to receive. -/
theorem rank_select (h : w.Inv negName) (hrun : w.syncer.stopped = false) {retryAt : Option ℕ}
    (hstage : w.stage = some (.waiting retryAt)) (hbusy : ¬w.Waits retryAt) (timer : Bool) :
    (w.select retryAt timer).rank < w.rank := by
  obtain ⟨b,hch⟩ := h.channel hrun
  have hsignal : w.signalled = b := by simp [signalled,hch]
  rw [rank_of_waiting hstage,SyncLoop.select,hch,hsignal]
  dsimp only
  split
  · next htimer =>
    rw [(Bool.and_eq_true_iff.mp htimer).1]
    simp only [rank,signalled,hch,Option.any_some]
    split <;> simp
  · next htimer =>
    cases b with
    | true =>
      change 0 + 3 < 4 + _
      omega
    | false =>
      have hearly : w.due retryAt = false := by simpa using htimer
      exact absurd ⟨hstage,hearly,hsignal⟩ hbusy

/-- A goroutine that does not wait comes closer to it. -/
theorem rank_go (h : w.Inv negName) (hrun : w.syncer.stopped = false) (hbusy : ∀ retryAt, ¬w.Waits retryAt)
    (timer : Bool) : (w.go negName timer).rank < w.rank := by
  have halive : w.stage ≠ none := fun hstage => by simp [(h.gone hstage).1] at hrun
  unfold SyncLoop.go
  split
  · next hstage => exact absurd hstage halive
  · next hstage =>
    rw [h.alive halive,hrun,rank,rank,hstage]
    exact Nat.add_lt_add_left (by decide : 2 < 3) _
  · next hstage =>
    rw [rank,rank,hstage]
    exact Nat.add_lt_add_left (by decide : 1 < 2) _
  · next answer hstage =>
    have hrank : (w.pass negName answer).rank = if w.signalled then 4 else 0 :=
      rank_settle (w := w.passed negName answer) h.counted _
    rw [hrank,rank,hstage]
    exact Nat.lt_succ_self _
  · next retryAt hstage => exact rank_select h hrun hstage (hbusy retryAt) timer
  · next hstage =>
    rw [h.stopping hstage] at hrun
    cases hrun

/-- Steps of the goroutine alone. -/
def goes (negName : Str) (w : SyncLoop) (timers : List Bool) : SyncLoop :=
  Runs.final (SyncLoop.step negName) w (timers.map SyncTurn.go)

theorem Apart.trans {w' w'' : SyncLoop} (h : Apart w w') (h' : Apart w' w'') : Apart w w'' where
  servicePort := h'.servicePort.trans h.servicePort
  stopped := h'.stopped.trans h.stopped
  unnotified := h'.unnotified.trans h.unnotified
  world := h'.world.trans h.world

theorem waits_after (n : ℕ) (h : w.Inv negName) (hrun : w.syncer.stopped = false) (hrank : w.rank ≤ n)
    (timers : List Bool) (hlen : n ≤ timers.length) :
    ∃ k ≤ n, ∃ retryAt, Waits (goes negName w (timers.take k)) retryAt ∧ Apart w (goes negName w (timers.take k)) ∧
      (goes negName w (timers.take k)).Inv negName := by
  induction n generalizing w timers with
  | zero =>
    by_cases hwaits : ∃ retryAt, w.Waits retryAt
    · obtain ⟨retryAt,hwaits⟩ := hwaits
      exact ⟨0,le_rfl,retryAt,hwaits,⟨rfl,rfl,rfl,rfl⟩,h⟩
    · have hless := rank_go h hrun (not_exists.mp hwaits) false
      omega
  | succ n ih =>
    by_cases hwaits : ∃ retryAt, w.Waits retryAt
    · obtain ⟨retryAt,hwaits⟩ := hwaits
      exact ⟨0,Nat.zero_le _,retryAt,hwaits,⟨rfl,rfl,rfl,rfl⟩,h⟩
    · cases timers with
      | nil => cases hlen
      | cons timer rest =>
        have hless := rank_go h hrun (not_exists.mp hwaits) timer
        have hapart : Apart w (w.go negName timer) := apart_go w timer
        obtain ⟨k,hk,retryAt,hwaits',hapart',hinv⟩ := ih (h.go timer) (hapart.stopped.trans hrun)
          (show (w.go negName timer).rank ≤ n by omega) rest (Nat.le_of_succ_le_succ hlen)
        exact ⟨k + 1,Nat.succ_le_succ hk,retryAt,hwaits',hapart.trans hapart',hinv⟩

/-- No change of the Endpoints is lost. Whatever was interleaved before, once a handler has
run after the last change, the goroutine of a syncer that runs waits after at most eight of
its steps. The cloud is then as a sync of the present Endpoints has left it. If this sync
has failed, it is retried after a delay that doubles with each failure in a row, unless
there were more than sixteen. -/
theorem endpoints_settle (svcPort : ServicePort) (negName : Str) (world : Environment) (cloud : GroupCloud)
    (turns : List SyncTurn) (timers : List Bool) (hlen : 8 ≤ timers.length)
    (hrun : (Runs.final (SyncLoop.step negName) (new svcPort world cloud) turns).syncer.stopped = false)
    (hnotified : (Runs.final (SyncLoop.step negName) (new svcPort world cloud) turns).unnotified = false) :
    ∃ k ≤ 8, ∃ retryAt p,
      let w := Runs.final (SyncLoop.step negName) (new svcPort world cloud) turns
      let w' := goes negName w (timers.take k)
      w'.Waits retryAt ∧ Recorded negName w' retryAt p ∧ p.env.endpointLister w.service = w.listed := by
  have h : (Runs.final (SyncLoop.step negName) (new svcPort world cloud) turns).Inv negName :=
    inv_run svcPort world cloud turns
  generalize Runs.final (SyncLoop.step negName) (new svcPort world cloud) turns = w at h hrun hnotified
  obtain ⟨k,hk,retryAt,hwaits,hapart,hinv⟩ := waits_after 8 h hrun w.rank_le timers hlen
  have hrun' := hapart.stopped.trans hrun
  obtain ⟨p,hp⟩ := hinv.recorded hrun' retryAt hwaits.stage
  have hcurrent := hinv.current hrun' (hapart.unnotified.trans hnotified) hwaits.unsignalled
  unfold Current at hcurrent
  rw [hwaits.stage] at hcurrent
  refine ⟨k,hk,retryAt,p,hwaits,hp,?_⟩
  have hlisted := hcurrent p hp.last
  unfold listed service at hlisted ⊢
  rwa [hapart.servicePort,hapart.world] at hlisted

def noGroups : GroupCloud where
  store := { items := fun _ => none, faults := fun _ => none, clock := 0 }
  log := []

/-- The run of `endpoints_settle` in which the Endpoints change when the goroutine has read
them already. -/
theorem endpoints_settle_web :
    ∃ k ≤ 8, ∃ retryAt p,
      let w := Runs.final (SyncLoop.step "neg".toList) (new webSyncer.servicePort oneNode noGroups)
        [.start,.go false,.go false,.endpoints (.ok (some ⟨[]⟩)),.notify]
      let w' := goes "neg".toList w ((List.replicate 8 true).take k)
      w'.Waits retryAt ∧ Recorded "neg".toList w' retryAt p ∧ p.env.endpointLister w.service = w.listed :=
  endpoints_settle webSyncer.servicePort "neg".toList oneNode noGroups
    [.start,.go false,.go false,.endpoints (.ok (some ⟨[]⟩)),.notify] (List.replicate 8 true) (by decide) rfl rfl

/-! ## The loop in the manager -/

/-- The manager's model has the syncer and its goroutine, and the goroutines take no steps
during its sections. -/
structure Seen (r : SyncerRef) (m : Manager) (w : SyncLoop) : Prop where
  heap : m.heap r = w.syncer
  live : m.live r = (w.stage.map Stage.phase).toList
  quiet : m.interference = []

variable {r : SyncerRef} {m : Manager}

theorem Seen.start (h : Seen r m w) (hinv : w.Inv negName) :
    Returns (NEG.start r) m (fun _ m' => Seen r m' w.start) := by
  simp only [NEG.start,init,returns_bind,returns_isStopped h.quiet,returns_isShuttingDown h.quiet,
    returns_interfere h.quiet,returns_state,returns_update,returns_ite,returns_pure,h.heap]
  refine ⟨fun hrun => ?_,fun hstopped => ⟨fun hdown => ?_,fun hup => ?_⟩⟩
  · have heq : w.start = w := by
      apply if_neg
      simp_all
    rwa [heq]
  · have heq : w.start = w := by
      apply if_neg
      simp_all
    rwa [heq]
  · have hstart : (w.syncer.stopped && !w.syncer.shuttingDown) = true := by simp_all
    have hstage := hinv.stage_of_start hstart
    rw [SyncLoop.start,if_pos hstart]
    constructor
    · simp [Manager.setLive,Manager.store]
    · simp [Manager.setLive,Manager.store,h.live,hstage,Stage.phase]
    · exact h.quiet

theorem Seen.stop (h : Seen r m w) (hinv : w.Inv negName) :
    Returns (NEG.stop r) m (fun _ m' => Seen r m' w.stop) := by
  simp only [NEG.stop,returns_bind,returns_interfere h.quiet,returns_state,returns_ite,returns_pure,h.heap]
  refine ⟨fun hstopped => ?_,fun hrun => ?_⟩
  · rwa [SyncLoop.stop,if_pos hstopped]
  · obtain ⟨b,hch⟩ := hinv.channel (by simpa using hrun)
    simp only [hch,Bool.false_eq_true,↓reduceIte,returns_update]
    rw [SyncLoop.stop,if_neg hrun,hch]
    constructor
    · simp [Manager.store,h.heap]
    · exact h.live
    · exact h.quiet

theorem Seen.signal (h : Seen r m w) (hinv : w.Inv negName) :
    Returns (NEG.signal r) m (fun _ m' => Seen r m' w.signal) := by
  simp only [NEG.signal,returns_bind,returns_isStopped h.quiet,returns_interfere h.quiet,returns_state,returns_ite,
    returns_pure,h.heap]
  refine ⟨fun hstopped => ?_,fun hrun => ?_⟩
  · rwa [SyncLoop.signal,if_pos hstopped]
  · have hrun' : w.syncer.stopped = false := by simpa using hrun
    obtain ⟨b,hch⟩ := hinv.channel hrun'
    rw [signal_of_running hrun' hch]
    cases b with
    | true =>
      simp only [hch,Bool.false_eq_true,↓reduceIte,returns_pure]
      exact ⟨by rw [h.heap,← hch],h.live,h.quiet⟩
    | false =>
      simp only [hch,Bool.false_eq_true,↓reduceIte,returns_bind,returns_update,returns_pure]
      constructor
      · simp [Manager.store,h.heap]
      · exact h.live
      · exact h.quiet

theorem waiting_settle (w : SyncLoop) (r : Except SyncError Unit) :
    (w.settle r).syncer = w.syncer ∧ (w.settle r).stage.map Stage.phase = some .waiting := by
  unfold settle
  split
  · exact ⟨rfl,rfl⟩
  · split <;> exact ⟨rfl,rfl⟩

theorem Seen.at_zero (h : Seen r m w) : (m.live r)[0]? = w.stage.map Stage.phase := by
  rw [h.live]
  cases w.stage <;> rfl

/-- The sync of the goroutine ends. -/
theorem Seen.returned (h : Seen r m w) (hsyncing : w.stage.map Stage.phase = some .syncing) {w' : SyncLoop}
    (hw' : w'.syncer = w.syncer ∧ w'.stage.map Stage.phase = some .waiting) :
    Seen r (goStep m { syncer := r, who := 0, retry := false }) w' := by
  have hat : (m.live r)[0]? = some .syncing := by rw [h.at_zero,hsyncing]
  have hlive : m.live r = [.syncing] := by rw [h.live,hsyncing]; rfl
  simp only [goStep,hat]
  constructor
  · rw [hw'.1]
    exact h.heap
  · simp [Manager.setLive,hlive,hw'.2]
  · exact h.quiet

theorem Seen.select (h : Seen r m w) {retryAt : Option ℕ} (hstage : w.stage = some (.waiting retryAt)) (timer : Bool) :
    ∃ steps, Seen r (List.foldl goStep m steps) (w.select retryAt timer) := by
  have hat : (m.live r)[0]? = some .waiting := by rw [h.at_zero,hstage]; rfl
  have hlive : m.live r = [.waiting] := by rw [h.live,hstage]; rfl
  unfold SyncLoop.select
  split
  · exact ⟨[],h⟩
  · next ch hch =>
    have hch' : (m.heap r).syncCh = some ch := by rw [h.heap,hch]
    split
    · refine ⟨[{ syncer := r, who := 0, retry := true }],?_⟩
      simp only [List.foldl_cons,List.foldl_nil,goStep,hat,if_true]
      exact ⟨h.heap,by simp [Manager.setLive,hlive,Stage.phase],h.quiet⟩
    · split
      · next hbuffered =>
        refine ⟨[{ syncer := r, who := 0, retry := false }],?_⟩
        simp only [List.foldl_cons,List.foldl_nil,goStep,hat,hch',hbuffered,Bool.false_eq_true,if_false,if_true]
        exact ⟨by simp [Manager.setLive,Manager.store,h.heap],by simp [Manager.setLive,hlive,Stage.phase],h.quiet⟩
      · next hbuffered =>
        split
        · next hclosed =>
          refine ⟨[{ syncer := r, who := 0, retry := false }],?_⟩
          simp only [List.foldl_cons,List.foldl_nil,goStep,hat,hch',hbuffered,hclosed,Bool.false_eq_true,if_false,if_true]
          exact ⟨h.heap,by simp [Manager.setLive,hlive,Stage.phase],h.quiet⟩
        · exact ⟨[],h⟩

/-- The manager's model takes the steps before the end of a sync as one. -/
theorem Seen.go (h : Seen r m w) (timer : Bool) : ∃ steps, Seen r (List.foldl goStep m steps) (w.go negName timer) := by
  unfold SyncLoop.go
  split
  · exact ⟨[],h⟩
  · next hstage =>
    have hsyncing : w.stage.map Stage.phase = some .syncing := by rw [hstage]; rfl
    split
    · exact ⟨[_],h.returned hsyncing (waiting_settle w _)⟩
    · exact ⟨[],h.heap,h.live.trans (by rw [hsyncing]; rfl),h.quiet⟩
  · next hstage =>
    have hsyncing : w.stage.map Stage.phase = some .syncing := by rw [hstage]; rfl
    exact ⟨[],h.heap,h.live.trans (by rw [hsyncing]; rfl),h.quiet⟩
  · next answer hstage =>
    have hsyncing : w.stage.map Stage.phase = some .syncing := by rw [hstage]; rfl
    exact ⟨[_],h.returned hsyncing (waiting_settle (w.passed negName answer) _)⟩
  · next retryAt hstage => exact h.select hstage timer
  · next hstage =>
    have hat : (m.live r)[0]? = some .stopping := by rw [h.at_zero,hstage]; rfl
    have hlive : m.live r = [.stopping] := by rw [h.live,hstage]; rfl
    refine ⟨[{ syncer := r, who := 0, retry := false }],?_⟩
    simp only [List.foldl_cons,List.foldl_nil,goStep,hat]
    exact ⟨by simp [Manager.setLive,Manager.store,h.heap],by simp [Manager.setLive,hlive],h.quiet⟩

/-- A section of the manager for the syncer, or a step of its goroutine. -/
inductive Touch
  | start
  | stop
  | signal
  | go (g : GoStep)

def Touch.perform (r : SyncerRef) (m : Manager) : Touch → Manager
  | .start => (NEG.start r m).2
  | .stop => (NEG.stop r m).2
  | .signal => (NEG.signal r m).2
  | .go g => goStep m g

theorem perform_goes (steps : List GoStep) (m : Manager) :
    Runs.final (Touch.perform r) m (steps.map Touch.go) = steps.foldl goStep m := by
  induction steps generalizing m with
  | nil => rfl
  | cons g rest ih => exact ih (goStep m g)

theorem Seen.step (h : Seen r m w) (hinv : w.Inv negName) (t : SyncTurn) :
    ∃ touches, Seen r (Runs.final (Touch.perform r) m touches) (SyncLoop.step negName w t) := by
  cases t with
  | endpoints answer => exact ⟨[],h.heap,h.live,h.quiet⟩
  | elsewhere E => exact ⟨[],h.heap,h.live,h.quiet⟩
  | notify =>
    obtain ⟨_,_,hseen⟩ := h.signal hinv
    exact ⟨[.signal],hseen.heap,hseen.live,hseen.quiet⟩
  | start =>
    obtain ⟨_,_,hseen⟩ := h.start hinv
    exact ⟨[.start],hseen⟩
  | stop =>
    obtain ⟨_,_,hseen⟩ := h.stop hinv
    exact ⟨[.stop],hseen⟩
  | go timer =>
    obtain ⟨steps,hseen⟩ := h.go timer
    exact ⟨steps.map Touch.go,by rwa [perform_goes]⟩
  | tick d => exact ⟨[],h.heap,h.live,h.quiet⟩

/-- Every run of the loop is one that the manager's model has. -/
theorem Seen.run (h : Seen r m w) (hinv : w.Inv negName) (turns : List SyncTurn) :
    ∃ touches, Seen r (Runs.final (Touch.perform r) m touches) (Runs.final (SyncLoop.step negName) w turns) := by
  induction turns generalizing m w with
  | nil => exact ⟨[],h⟩
  | cons t rest ih =>
    obtain ⟨touches,hstep⟩ := h.step hinv t
    obtain ⟨touches',hrest⟩ := ih hstep (hinv.step t)
    exact ⟨touches ++ touches',by rwa [Runs.final_append]⟩

end SyncLoop
end IngressGce.NEG
