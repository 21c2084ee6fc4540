import IngressGce.Program.Reconcile
import IngressGce.Program.Worker

/-! # A worker that reconciles

The worker of a queue reads the world, one part after the other, and puts down a result
for the key that it has taken, while others put keys into the queue. Its steps are steps of
a reconciler. The queue may hold what is no key of the reconciler, which does not matter
to it.
-/
namespace IngressGce

namespace Worker
variable {α : Type} [DecidableEq α] {p : Policy} {w : Worker α} {b : α}

def Phase.isProcessing : Phase α → Bool
  | .processing _ => true
  | .polling | .returned _ _ | .settled _ | .exited => false

def addAll (w : Worker α) (keys : List α) : Worker α := keys.foldl add w

/-- The steps of the queue, and those of the worker after its work. -/
def Turn.isQueue : Turn α → Bool
  | .settle _ | .done | .receive | .fire _ | .tick _ => true
  | .add _ | .poll | .finish _ => false

/-- The item will be taken up: it is in the queue, or its work has failed and there is no
limit to how often it is tried again. -/
def Awaits (p : Policy) (w : Worker α) (key : α) : Prop :=
  w.queue.Pending key ∨ p.maxRetries = none ∧ w.phase = .returned key false

theorem Idle.not_awaits (h : w.Idle) (key : α) : ¬w.Awaits p key :=
  fun hawaits => h.not_remembers key (hawaits.imp_right And.right)

theorem phase_addAll (w : Worker α) (keys : List α) : (w.addAll keys).phase = w.phase := by
  induction keys generalizing w with
  | nil => rfl
  | cons key rest ih => exact ih (w.add key)

theorem shuttingDown_addAll (w : Worker α) (keys : List α) :
    (w.addAll keys).queue.base.shuttingDown = w.queue.base.shuttingDown := by
  induction keys generalizing w with
  | nil => rfl
  | cons key rest ih => exact (ih (w.add key)).trans (WorkQueue.shuttingDown_add _ key)

theorem pending_addAll (hup : w.queue.base.shuttingDown = false) (keys : List α) :
    (w.addAll keys).queue.Pending b ↔ b ∈ keys ∨ w.queue.Pending b := by
  induction keys generalizing w with
  | nil => simp [addAll]
  | cons key rest ih =>
    have hup' : (w.add key).queue.base.shuttingDown = false := (WorkQueue.shuttingDown_add _ key).trans hup
    have hadd : (w.add key).queue.Pending b ↔ b = key ∨ w.queue.Pending b := RateLimitingQueue.pending_add hup
    have hrest : (w.addAll (key :: rest)).queue.Pending b ↔ b ∈ rest ∨ (w.add key).queue.Pending b := ih hup'
    rw [hrest,hadd,List.mem_cons]
    tauto

theorem Awaits.addAll (hup : w.queue.base.shuttingDown = false) (keys : List α) (h : b ∈ keys ∨ w.Awaits p b) :
    (w.addAll keys).Awaits p b := by
  unfold Awaits at h ⊢
  rw [pending_addAll hup,phase_addAll]
  tauto

theorem entries_addAll (w : Worker α) (keys : List α) : (w.addAll keys).queue.entries = w.queue.entries := by
  induction keys generalizing w with
  | nil => rfl
  | cons key rest ih => exact ih (w.add key)

theorem Counted.addAll (h : w.Counted p) (keys : List α) : (w.addAll keys).Counted p := by
  induction keys generalizing w with
  | nil => exact h
  | cons key rest ih => exact ih (h.step (.add key))

/-- After its work the worker does not lose what is to be taken up. -/
theorem Awaits.queue_step (hup : w.queue.base.shuttingDown = false) {t : Turn α} (ht : t.isQueue = true)
    (h : w.Awaits p b) : (w.step p t).Awaits p b := by
  cases t with
  | settle bucket =>
    rcases settle_cases (w := w) (p := p) bucket with ⟨_,heq⟩ | ⟨key,_,hcases⟩
    · rwa [step,heq]
    · left
      rw [step]
      rcases hcases with ⟨hphase,hqueue,_⟩ | ⟨hphase,_,hqueue,_⟩ | ⟨hphase,hretries,hqueue,_⟩
      · rw [hqueue]
        apply h.resolve_right
        simp [hphase]
      · rw [hqueue]
        apply (RateLimitingQueue.pending_addRateLimited hup p.limiter bucket).mpr
        rcases h with h | ⟨_,hfailed⟩
        · exact Or.inr h
        · exact Or.inl (Phase.returned.inj (hphase.symm.trans hfailed)).1.symm
      · rw [hqueue]
        apply h.resolve_right
        intro hnone
        simp [Policy.retries,hnone.1] at hretries
  | done =>
    rcases done_cases (w := w) with ⟨_,heq⟩ | ⟨key,hmem,hphase,_,_,hqueue⟩
    · rwa [step,heq]
    · left
      rw [step,hqueue]
      apply (RateLimitingQueue.pending_done hmem).mpr
      apply h.resolve_right
      simp [hphase]
  | receive => exact h.imp_left (RateLimitingQueue.pending_receive hup).mpr
  | fire entry => exact h.imp_left (RateLimitingQueue.pending_fire hup entry).mpr
  | tick d => exact h
  | add key => cases ht
  | poll => cases ht
  | finish ok => cases ht

/-- Only the worker's own steps begin and end its work. -/
theorem processing_queue_step {t : Turn α} (ht : t.isQueue = true) (key : α) :
    (w.step p t).phase = .processing key ↔ w.phase = .processing key := by
  cases t with
  | settle bucket =>
    rw [step]
    rcases settle_cases (w := w) (p := p) bucket with ⟨_,heq⟩ | ⟨key',hphase',hcases⟩
    · rw [heq]
    · rw [hphase']
      rcases hcases with ⟨hphase,_⟩ | ⟨hphase,_⟩ | ⟨hphase,_⟩ <;> simp [hphase]
  | done =>
    rw [step]
    rcases done_cases (w := w) with ⟨_,heq⟩ | ⟨key',_,hphase,hphase',_⟩
    · rw [heq]
    · simp [hphase,hphase']
  | receive => rfl
  | fire entry => rfl
  | tick d => rfl
  | add key => cases ht
  | poll => cases ht
  | finish ok => cases ht

omit [DecidableEq α] in
theorem isProcessing_iff {phase : Phase α} : phase.isProcessing = true ↔ ∃ key, phase = .processing key := by
  cases phase <;> simp [Phase.isProcessing]

theorem isProcessing_queue_step {t : Turn α} (ht : t.isQueue = true) :
    (w.step p t).phase.isProcessing = w.phase.isProcessing := by
  rw [Bool.eq_iff_iff,isProcessing_iff,isProcessing_iff]
  exact exists_congr (processing_queue_step ht)

theorem isProcessing_finish (ok : Bool) : (w.finish ok).phase.isProcessing = false := by
  rcases finish_cases (w := w) ok with ⟨hnext,heq⟩ | ⟨key,_,hphase,_⟩
  · rw [heq]
    cases hw : w.phase with
    | processing key => simp [hw,Turn.isNext] at hnext
    | _ => rfl
  · rw [hphase]
    rfl

end Worker

/-- A worker and, while it works on a key, what is left to read. -/
structure Loop (ω α β : Type) [DecidableEq α] where
  worker : Worker α
  work : Option (Reading ω β)
  busy : work.isSome = worker.phase.isProcessing

namespace Loop
variable {ω α β : Type} [DecidableEq α] (p : Worker.Policy) (process : α → Reading ω β) (l : Loop ω α β)

def start : Loop ω α β where
  worker := .start
  work := none
  busy := rfl

def addAll (keys : List α) : Loop ω α β :=
  { l with worker := l.worker.addAll keys, busy := by rw [Worker.phase_addAll]; exact l.busy }

/-- The work begins when the worker has taken a key. -/
def workAfter (before after : Worker.Phase α) (work : Option (Reading ω β)) : Option (Reading ω β) :=
  match before,after with
  | .polling,.processing key => some (process key)
  | _,_ => work

omit [DecidableEq α] in
theorem workAfter_self (phase : Worker.Phase α) (work : Option (Reading ω β)) : workAfter process phase phase work = work := by
  cases phase <;> rfl

omit [DecidableEq α] in
theorem workAfter_of_not_processing {after : Worker.Phase α} (h : after.isProcessing = false) (before : Worker.Phase α)
    (work : Option (Reading ω β)) : workAfter process before after work = work := by
  cases after with
  | processing key => cases h
  | _ => cases before <;> rfl

/-- A key is taken out of the queue, if there is one and the worker waits for it. -/
def poll : Loop ω α β where
  worker := l.worker.poll p
  work := workAfter process l.worker.phase (l.worker.poll p).phase l.work
  busy := by
    rcases Worker.poll_cases (w := l.worker) (p := p) with ⟨_,heq⟩ | ⟨hphase,key,_,hphase',_⟩ | ⟨hphase,_,_,_,hphase'⟩
    · rw [heq,workAfter_self]
      exact l.busy
    · rw [hphase,hphase']
      rfl
    · have hnot : (l.worker.poll p).phase.isProcessing = false := by
        rw [hphase']
        split <;> rfl
      rw [workAfter_of_not_processing process hnot,hnot,l.busy,hphase]
      rfl

def read (w : ω) : Loop ω α β :=
  match hwork : l.work with
  | some (.read next) => { l with work := some (next w), busy := by rw [← l.busy,hwork]; rfl }
  | _ => l

/-- The work on the key ends, with an error or without. -/
def finish (ok : Bool) : Loop ω α β where
  worker := l.worker.finish ok
  work := none
  busy := (Worker.isProcessing_finish ok).symm

def queue (t : Worker.Turn α) : Loop ω α β :=
  if ht : t.isQueue = true then
    { l with worker := l.worker.step p t, busy := by rw [Worker.isProcessing_queue_step ht]; exact l.busy }
  else l

variable {p process l}

/-! ## What is left of the work on a key -/

/-- What is left to read has the property, whichever key it is for. -/
def Keeps (A : α → Reading ω β → Prop) (l : Loop ω α β) : Prop :=
  ∀ key r, l.worker.phase = .processing key → l.work = some r → A key r

variable (p process l) in
theorem poll_cases : (l.poll p process = l) ∨
    (l.worker.phase = .polling ∧ ∃ key, l.worker.queue.get = some (key,(l.poll p process).worker.queue) ∧
      (l.poll p process).worker.phase = .processing key ∧ (l.poll p process).work = some (process key)) ∨
    ((l.poll p process).worker.queue = l.worker.queue ∧ l.worker.phase = .polling ∧
      (l.poll p process).worker.phase.isProcessing = false) := by
  rcases Worker.poll_cases (w := l.worker) (p := p) with ⟨_,heq⟩ | ⟨hphase,key,hget,hphase',_⟩ |
      ⟨hphase,_,hqueue,_,hphase'⟩
  · left
    obtain ⟨worker,work,_⟩ := l
    simp only [poll,heq,workAfter_self]
  · exact Or.inr (Or.inl ⟨hphase,key,hget,hphase',by simp [poll,workAfter,hphase,hphase']⟩)
  · refine Or.inr (Or.inr ⟨hqueue,hphase,?_⟩)
    rw [poll,hphase']
    split <;> rfl

theorem Keeps.poll {A : α → Reading ω β → Prop} (h : l.Keeps A) (hA : ∀ key, A key (process key)) :
    (l.poll p process).Keeps A := by
  rcases poll_cases p process l with heq | ⟨_,key,_,hphase,hwork⟩ | ⟨_,_,hnot⟩
  · rwa [heq]
  · intro key' r hphase' hr
    obtain rfl := Worker.Phase.processing.inj (hphase.symm.trans hphase')
    obtain rfl := Option.some.inj (hwork.symm.trans hr)
    exact hA key
  · intro key' r hphase' hr
    simp [hphase',Worker.Phase.isProcessing] at hnot

theorem read_cases (w : ω) : l.read w = l ∨ ∃ next, l.work = some (.read next) ∧ (l.read w).work = some (next w) := by
  unfold read
  split
  · next next hwork => exact Or.inr ⟨next,hwork,rfl⟩
  · exact Or.inl rfl

theorem worker_read (w : ω) : (l.read w).worker = l.worker := by
  unfold read
  split <;> rfl

theorem processing_of_work {r : Reading ω β} (hwork : l.work = some r) : ∃ key, l.worker.phase = .processing key := by
  apply Worker.isProcessing_iff.mp
  rw [← l.busy,hwork]
  rfl

theorem shuttingDown_queue (t : Worker.Turn α) :
    (l.queue p t).worker.queue.base.shuttingDown = l.worker.queue.base.shuttingDown := by
  unfold queue
  split
  · exact Worker.shuttingDown_step t
  · rfl

theorem Keeps.read {A : α → Reading ω β → Prop} (h : l.Keeps A) {w : ω}
    (hA : ∀ {key next}, A key (.read next) → A key (next w)) : (l.read w).Keeps A := by
  rcases read_cases (l := l) w with heq | ⟨next,hwork,hwork'⟩
  · rwa [heq]
  · intro key r hphase hr
    obtain rfl := Option.some.inj (hwork'.symm.trans hr)
    rw [worker_read] at hphase
    exact hA (h key _ hphase hwork)

theorem Keeps.of_same {A : α → Reading ω β → Prop} (h : l.Keeps A) {l' : Loop ω α β}
    (hphase : ∀ key, l'.worker.phase = .processing key → l.worker.phase = .processing key) (hwork : l'.work = l.work) :
    l'.Keeps A :=
  fun key r hkey hr => h key r (hphase key hkey) (hwork ▸ hr)

theorem Keeps.addAll {A : α → Reading ω β → Prop} (h : l.Keeps A) (keys : List α) : (l.addAll keys).Keeps A :=
  h.of_same (fun _ hkey => (Worker.phase_addAll l.worker keys).symm.trans hkey) rfl

theorem Keeps.queue {A : α → Reading ω β → Prop} (h : l.Keeps A) (t : Worker.Turn α) : (l.queue p t).Keeps A := by
  unfold Loop.queue
  split
  · next ht => exact h.of_same (fun key => (Worker.processing_queue_step ht key).mp) rfl
  · exact h

theorem keeps_finish {A : α → Reading ω β → Prop} (ok : Bool) : (l.finish ok).Keeps A := fun _ _ _ h => by cases h

/-! ## The loop reconciles -/

section Serves
variable {κ ν δ : Type} {R : Reconciler ω κ ν δ} {text : κ → α} {out : β → δ}

/-- The work on a text of a key is the reconciler's. -/
structure Serves (R : Reconciler ω κ ν δ) (process : α → Reading ω β) (text : κ → α) (out : β → δ) : Prop where
  injective : Function.Injective text
  work : ∀ k, R.work k = (process (text k)).map out

/-- The key that is worked on, unless it is of no concern to the reconciler. -/
noncomputable def working (text : κ → α) (out : β → δ) (l : Loop ω α β) : Option (κ × Reading ω δ) :=
  match l.worker.phase,l.work with
  | .processing key,some r => (Function.partialInv text key).map fun k => (k,r.map out)
  | _,_ => none

/-- What the loop is doing, as a reconciler. -/
noncomputable def state (p : Worker.Policy) (text : κ → α) (out : β → δ) (world : ω) (notes : List ν) (result : κ → δ)
    (l : Loop ω α β) : Reconciler.State ω κ ν δ where
  world
  notes
  pending := {k | l.worker.Awaits p (text k)}
  working := l.working text out
  result

theorem working_of_not_processing (h : l.worker.phase.isProcessing = false) : l.working text out = none := by
  unfold working
  split
  · next key _ hphase _ => simp [hphase,Worker.Phase.isProcessing] at h
  · rfl

@[simp] theorem working_start : (start : Loop ω α β).working text out = none := rfl

theorem working_of_text (hR : Serves R process text out) {k : κ} {r : Reading ω β}
    (hphase : l.worker.phase = .processing (text k)) (hwork : l.work = some r) : l.working text out = some (k,r.map out) := by
  have hk : Function.partialInv text (text k) = some k := (hR.injective.isPartialInv k _).mpr rfl
  simp only [working,hphase,hwork,hk,Option.map_some]

theorem working_of_other (hR : Serves R process text out) {key : α} (hphase : l.worker.phase = .processing key)
    (hkey : ∀ k, text k ≠ key) : l.working text out = none := by
  have hnone : Function.partialInv text key = none := by
    apply Option.eq_none_iff_forall_ne_some.mpr
    intro k hk
    exact hkey k ((hR.injective.isPartialInv k _).mp hk)
  unfold working
  split
  · next key' _ hphase' _ =>
    obtain rfl := Worker.Phase.processing.inj (hphase.symm.trans hphase')
    rw [hnone]
    rfl
  · rfl

variable [DecidableEq κ] {l l' : Loop ω α β} {world : ω} {notes notes' : List ν} {result : κ → δ}

theorem steps_change {n : ν} {w' : ω} (h : R.changes world n w') (hnotes : ∀ m ∈ notes ++ [n], m ∈ notes') :
    Relation.ReflTransGen R.Step (l.state p text out world notes result) (l.state p text out w' notes' result) :=
  .tail (.single (.change h)) (.deliver (fun m hm => Or.inl (hnotes m hm)) fun _ hk => hk)

/-- Some of the notes have been handled, or more keys are to be taken up. -/
theorem steps_deliver (hworking : l'.working text out = l.working text out)
    (hnotes : ∀ n ∈ notes, n ∈ notes' ∨ ∀ k, R.concerns n world k → l'.worker.Awaits p (text k))
    (hawaits : ∀ b, l.worker.Awaits p b → l'.worker.Awaits p b) :
    Relation.ReflTransGen R.Step (l.state p text out world notes result) (l'.state p text out world notes' result) := by
  have heq : l'.state p text out world notes' result =
      { l.state p text out world notes result with notes := notes', pending := {k | l'.worker.Awaits p (text k)} } := by
    unfold state
    rw [hworking]
  rw [heq]
  exact .single (.deliver hnotes fun k hk => hawaits _ hk)

theorem steps_addAll (hup : l.worker.queue.base.shuttingDown = false) (keys : List α)
    (hnotes : ∀ n ∈ notes, n ∈ notes' ∨ ∀ k, R.concerns n world k → text k ∈ keys) :
    Relation.ReflTransGen R.Step (l.state p text out world notes result)
      ((l.addAll keys).state p text out world notes' result) := by
  apply steps_deliver
  · unfold working addAll
    rw [Worker.phase_addAll]
  · intro n hn
    exact (hnotes n hn).imp_right fun hall k hk => Worker.Awaits.addAll hup keys (Or.inl (hall k hk))
  · exact fun b hb => Worker.Awaits.addAll hup keys (Or.inr hb)

theorem steps_queue (hup : l.worker.queue.base.shuttingDown = false) (t : Worker.Turn α) :
    Relation.ReflTransGen R.Step (l.state p text out world notes result)
      ((l.queue p t).state p text out world notes result) := by
  unfold queue
  split
  · next ht =>
    apply steps_deliver
    · by_cases hbusy : l.worker.phase.isProcessing = true
      · obtain ⟨key,hphase⟩ := Worker.isProcessing_iff.mp hbusy
        simp only [working,hphase,(Worker.processing_queue_step (p := p) ht key).mpr hphase]
      · rw [Bool.not_eq_true] at hbusy
        rw [working_of_not_processing hbusy,working_of_not_processing ((Worker.isProcessing_queue_step ht).trans hbusy)]
    · exact fun n hn => Or.inl hn
    · exact fun b hb => hb.queue_step hup ht
  · exact .refl

theorem steps_poll (hR : Serves R process text out) :
    Relation.ReflTransGen R.Step (l.state p text out world notes result)
      ((l.poll p process).state p text out world notes result) := by
  rcases poll_cases p process l with heq | ⟨hphase,key,hget,hphase',hwork⟩ | ⟨hqueue,hphase,hnot⟩
  · rw [heq]
  · have hidle : l.working text out = none := working_of_not_processing (by rw [hphase]; rfl)
    have hawaits (b : α) (hb : l.worker.Awaits p b) : b = key ∨ (l.poll p process).worker.Awaits p b := by
      rcases hb with hb | ⟨_,hfailed⟩
      · obtain ⟨_,hrest⟩ := RateLimitingQueue.pending_get hget
        exact (hrest b hb).imp_right Or.inl
      · exact absurd (hphase.symm.trans hfailed) (by simp)
    by_cases hkey : ∃ k, text k = key
    · obtain ⟨k,rfl⟩ := hkey
      have heq : (l.poll p process).state p text out world notes result =
          { l.state p text out world notes result with
            pending := {k | (l.poll p process).worker.Awaits p (text k)}
            working := some (k,R.work k) } := by
        unfold state
        rw [working_of_text hR hphase' hwork,hR.work]
      rw [heq]
      apply Relation.ReflTransGen.single
      exact .take hidle fun k' hk' => (hawaits _ hk').imp_left fun h => hR.injective h
    · have hother := not_exists.mp hkey
      have hnone : (l.poll p process).working text out = none := working_of_other hR hphase' hother
      have heq : (l.poll p process).state p text out world notes result =
          { l.state p text out world notes result with
            notes := notes
            pending := {k | (l.poll p process).worker.Awaits p (text k)} } := by
        unfold state
        rw [hnone,hidle]
      rw [heq]
      apply Relation.ReflTransGen.single
      exact .deliver (fun n hn => Or.inl hn) fun k hk => (hawaits _ hk).resolve_left (hother k)
  · apply steps_deliver
    · rw [working_of_not_processing hnot,working_of_not_processing (by rw [hphase]; rfl)]
    · exact fun n hn => Or.inl hn
    · intro b hb
      rcases hb with hb | ⟨_,hfailed⟩
      · exact Or.inl (hqueue ▸ hb)
      · exact absurd (hphase.symm.trans hfailed) (by simp)

theorem steps_read (hR : Serves R process text out) :
    Relation.ReflTransGen R.Step (l.state p text out world notes result)
      ((l.read world).state p text out world notes result) := by
  rcases read_cases (l := l) world with heq | ⟨next,hwork,hwork'⟩
  · rw [heq]
  · have hworker : (l.read world).worker = l.worker := worker_read world
    obtain ⟨key,hphase⟩ := processing_of_work hwork
    have hphase' : (l.read world).worker.phase = .processing key := hworker ▸ hphase
    by_cases hkey : ∃ k, text k = key
    · obtain ⟨k,rfl⟩ := hkey
      have hreading : (l.state p text out world notes result).working =
          some (k,.read fun w => (next w).map out) := working_of_text hR hphase hwork
      have heq : (l.read world).state p text out world notes result =
          { l.state p text out world notes result with working := some (k,(next world).map out) } := by
        unfold state
        rw [working_of_text hR hphase' hwork',hworker]
      rw [heq]
      exact .single (.read hreading)
    · have hother := not_exists.mp hkey
      have heq : (l.read world).state p text out world notes result = l.state p text out world notes result := by
        unfold state
        rw [working_of_other hR hphase hother,working_of_other hR hphase' hother,hworker]
      rw [heq]

theorem phase_finish {key : α} (hphase : l.worker.phase = .processing key) (ok : Bool) :
    (l.finish ok).worker.phase = .returned key ok ∧ (l.finish ok).worker.queue = l.worker.queue := by
  rcases Worker.finish_cases (w := l.worker) ok with ⟨hnext,_⟩ | ⟨key',hphase',hreturned,_,hqueue⟩
  · simp [hphase,Worker.Turn.isNext] at hnext
  · obtain rfl := Worker.Phase.processing.inj (hphase.symm.trans hphase')
    exact ⟨hreturned,hqueue⟩

theorem awaits_finish {key b : α} (hphase : l.worker.phase = .processing key) (ok : Bool) (hb : l.worker.Awaits p b) :
    (l.finish ok).worker.Awaits p b := by
  rcases hb with hb | ⟨_,hfailed⟩
  · exact Or.inl ((phase_finish hphase ok).2 ▸ hb)
  · exact absurd (hphase.symm.trans hfailed) (by simp)

/-- The work ends, and its result is put down. -/
theorem steps_commit (hR : Serves R process text out) {key : α} (hphase : l.worker.phase = .processing key) {d : β}
    (hwork : l.work = some (.done d)) (ok : Bool) {result' : κ → δ}
    (hresult : ∀ k, result' k = if text k = key then out d else result k) :
    Relation.ReflTransGen R.Step (l.state p text out world notes result)
      ((l.finish ok).state p text out world notes result') := by
  have hidle : (l.finish ok).working text out = none := working_of_not_processing (Worker.isProcessing_finish ok)
  by_cases hkey : ∃ k, text k = key
  · obtain ⟨k,rfl⟩ := hkey
    have hdone : (l.state p text out world notes result).working = some (k,.done (out d)) := working_of_text hR hphase hwork
    refine .tail (.single (.commit hdone)) ?_
    have heq : (l.finish ok).state p text out world notes result' =
        { l.state p text out world notes result with
          working := none
          result := Function.update result k (out d)
          notes := notes
          pending := {k | (l.finish ok).worker.Awaits p (text k)} } := by
      have hupdate : result' = Function.update result k (out d) := by
        funext k'
        rw [hresult,Function.update_apply]
        simp only [hR.injective.eq_iff]
      unfold state
      rw [hidle,hupdate]
    rw [heq]
    exact .deliver (fun n hn => Or.inl hn) fun k' hk' => awaits_finish hphase ok hk'
  · have hother := not_exists.mp hkey
    have hsame : result' = result := by
      funext k
      rw [hresult,if_neg (hother k)]
    rw [hsame]
    apply steps_deliver
    · rw [hidle,working_of_other hR hphase hother]
    · exact fun n hn => Or.inl hn
    · exact fun b hb => awaits_finish hphase ok hb

/-- The work ends with an error, and is going to be done again. -/
theorem steps_abandon (hR : Serves R process text out) (hp : p.maxRetries = none) {key : α}
    (hphase : l.worker.phase = .processing key) :
    Relation.ReflTransGen R.Step (l.state p text out world notes result)
      ((l.finish false).state p text out world notes result) := by
  have hidle : (l.finish false).working text out = none := working_of_not_processing (Worker.isProcessing_finish false)
  obtain ⟨r,hwork⟩ : ∃ r, l.work = some r := by
    apply Option.isSome_iff_exists.mp
    rw [l.busy,hphase]
    rfl
  by_cases hkey : ∃ k, text k = key
  · obtain ⟨k,rfl⟩ := hkey
    have hworking : (l.state p text out world notes result).working = some (k,r.map out) := working_of_text hR hphase hwork
    have heq : (l.finish false).state p text out world notes result =
        { l.state p text out world notes result with
          pending := {k | (l.finish false).worker.Awaits p (text k)}
          working := none } := by
      unfold state
      rw [hidle]
    rw [heq]
    apply Relation.ReflTransGen.single
    exact .abandon hworking (Or.inr ⟨hp,(phase_finish hphase false).1⟩) fun k' hk' => awaits_finish hphase false hk'
  · apply steps_deliver
    · rw [hidle,working_of_other hR hphase (not_exists.mp hkey)]
    · exact fun n hn => Or.inl hn
    · exact fun b hb => awaits_finish hphase false hb

end Serves
end Loop
end IngressGce
