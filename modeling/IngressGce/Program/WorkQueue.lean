import IngressGce.Program.Runs
import Mathlib.Algebra.Group.Nat.Defs
import Mathlib.Data.Finset.Basic

/-! # A queue of items to work on

An item is dirty if it is to be worked on, and processing while it is being worked on. It
can be both: work that comes in for an item while a worker has it waits until the worker
is done with it, so no two workers ever have the same item. The queue itself lists the
items that are dirty and not processing, each of them once.

An item can also be added after a delay, which grows with the number of times it has been
added in this way since it was last forgotten.
-/
namespace IngressGce
variable {α : Type} [DecidableEq α]

structure WorkQueue (α : Type) [DecidableEq α] where
  queue : List α
  dirty : Finset α
  processing : Finset α
  shuttingDown : Bool
  nodup : queue.Nodup
  mem_queue : ∀ a, a ∈ queue ↔ a ∈ dirty ∧ a ∉ processing

namespace WorkQueue

def empty : WorkQueue α where
  queue := []
  dirty := ∅
  processing := ∅
  shuttingDown := false
  nodup := List.nodup_nil
  mem_queue := by simp

variable (q : WorkQueue α) (item : α)

theorem notMem_queue_of_processing {q : WorkQueue α} {item : α} (h : item ∈ q.processing) : item ∉ q.queue :=
  fun hq => ((q.mem_queue item).mp hq).2 h

theorem nodup_concat {q : WorkQueue α} {item : α} (h : item ∉ q.queue) : (q.queue ++ [item]).Nodup := by
  apply q.nodup.append (List.nodup_singleton item)
  simpa using h

def add : WorkQueue α :=
  if q.shuttingDown = true then q
  else if hdirty : item ∈ q.dirty then q
  else if hprocessing : item ∈ q.processing then
    { q with
      dirty := Insert.insert item q.dirty
      mem_queue a := by
        rw [q.mem_queue a,Finset.mem_insert]
        constructor
        · exact fun h => ⟨Or.inr h.1,h.2⟩
        · exact fun h => ⟨h.1.resolve_left fun heq => h.2 (heq ▸ hprocessing),h.2⟩ }
  else
    { q with
      queue := q.queue ++ [item]
      dirty := Insert.insert item q.dirty
      nodup := nodup_concat fun hq => hdirty ((q.mem_queue item).mp hq).1
      mem_queue a := by
        rw [List.mem_append,List.mem_singleton,q.mem_queue a,Finset.mem_insert]
        constructor
        · rintro (h | rfl)
          · exact ⟨Or.inr h.1,h.2⟩
          · exact ⟨Or.inl rfl,hprocessing⟩
        · exact fun h => h.1.elim Or.inr fun hd => Or.inl ⟨hd,h.2⟩ }

/-- The first item of the queue and what is left, unless the caller has to wait. -/
def get : Option (α × WorkQueue α) :=
  match hq : q.queue with
  | [] => none
  | item :: rest => some (item,
    { q with
      queue := rest
      dirty := q.dirty.erase item
      processing := Insert.insert item q.processing
      nodup := (List.nodup_cons.mp (hq ▸ q.nodup)).2
      mem_queue a := by
        have hfresh := (List.nodup_cons.mp (hq ▸ q.nodup)).1
        have hmem := q.mem_queue a
        rw [hq,List.mem_cons] at hmem
        rw [Finset.mem_erase,Finset.mem_insert]
        constructor
        · intro ha
          obtain ⟨hdirty,hnot⟩ := hmem.mp (Or.inr ha)
          have hne : a ≠ item := fun heq => hfresh (heq ▸ ha)
          exact ⟨⟨hne,hdirty⟩,fun h => h.elim hne hnot⟩
        · rintro ⟨⟨hne,hdirty⟩,hnot⟩
          exact (hmem.mpr ⟨hdirty,fun h => hnot (Or.inr h)⟩).resolve_left hne })

def done (h : item ∈ q.processing) : WorkQueue α :=
  if hdirty : item ∈ q.dirty then
    { q with
      queue := q.queue ++ [item]
      processing := q.processing.erase item
      nodup := nodup_concat (notMem_queue_of_processing h)
      mem_queue a := by
        rw [List.mem_append,List.mem_singleton,q.mem_queue a,Finset.mem_erase]
        constructor
        · rintro (⟨hd,hp⟩ | rfl)
          · exact ⟨hd,fun hmem => hp hmem.2⟩
          · exact ⟨hdirty,fun hmem => hmem.1 rfl⟩
        · rintro ⟨hd,hp⟩
          by_cases heq : a = item
          · exact Or.inr heq
          · exact Or.inl ⟨hd,fun hmem => hp ⟨heq,hmem⟩⟩ }
  else
    { q with
      processing := q.processing.erase item
      mem_queue a := by
        rw [q.mem_queue a,Finset.mem_erase]
        constructor
        · exact fun hmem => ⟨hmem.1,fun hp => hmem.2 hp.2⟩
        · exact fun hmem => ⟨hmem.1,fun hp => hmem.2 ⟨fun heq => hdirty (heq ▸ hmem.1),hp⟩⟩ }

def shutDown : WorkQueue α := { q with shuttingDown := true }

/-! ## What the operations do to the two sets -/

@[simp]
theorem dirty_add : (q.add item).dirty = if q.shuttingDown = true then q.dirty else Insert.insert item q.dirty := by
  unfold add
  split
  · rfl
  · split
    · exact (Finset.insert_eq_of_mem ‹_›).symm
    · split <;> rfl

@[simp]
theorem processing_add : (q.add item).processing = q.processing := by
  unfold add
  repeat' split
  all_goals rfl

@[simp]
theorem shuttingDown_add : (q.add item).shuttingDown = q.shuttingDown := by
  unfold add
  repeat' split
  all_goals rfl

@[simp]
theorem dirty_done (h : item ∈ q.processing) : (q.done item h).dirty = q.dirty := by
  unfold done
  split <;> rfl

@[simp]
theorem processing_done (h : item ∈ q.processing) : (q.done item h).processing = q.processing.erase item := by
  unfold done
  split <;> rfl

@[simp]
theorem shuttingDown_done (h : item ∈ q.processing) : (q.done item h).shuttingDown = q.shuttingDown := by
  unfold done
  split <;> rfl

@[simp] theorem dirty_shutDown : q.shutDown.dirty = q.dirty := rfl
@[simp] theorem processing_shutDown : q.shutDown.processing = q.processing := rfl
@[simp] theorem shuttingDown_shutDown : q.shutDown.shuttingDown = true := rfl

/-- How the item that is handed out moves from one set to the other. -/
structure Hands (q : WorkQueue α) (item : α) (q' : WorkQueue α) : Prop where
  mem_dirty : item ∈ q.dirty
  dirty : q'.dirty = q.dirty.erase item
  processing : q'.processing = Insert.insert item q.processing
  shuttingDown : q'.shuttingDown = q.shuttingDown

variable {q item} in
theorem hands_of_get {q' : WorkQueue α} (h : q.get = some (item,q')) : q.Hands item q' := by
  unfold get at h
  split at h
  · cases h
  · next first rest hq =>
    obtain ⟨rfl,rfl⟩ := Prod.mk.inj (Option.some.inj h)
    exact ⟨((q.mem_queue first).mp (hq ▸ List.mem_cons_self)).1,rfl,rfl,rfl⟩

end WorkQueue

/-- An item that is to be added at some time. -/
structure WaitFor (α : Type) where
  data : α
  readyAt : ℕ
  deriving DecidableEq

/-- How long the items that are added again have to wait. -/
structure RateLimiter where
  baseDelay : ℕ
  maxDelay : ℕ

def RateLimiter.backoff (limiter : RateLimiter) (failures : ℕ) : ℕ := min (limiter.baseDelay * 2 ^ failures) limiter.maxDelay

/-- The entries that wait are in the channel until the waiting loop has put them in order. -/
structure RateLimitingQueue (α : Type) [DecidableEq α] where
  base : WorkQueue α
  waitingForAddCh : List (WaitFor α)
  waitingForQueue : List (WaitFor α)
  now : ℕ
  failures : α → ℕ

namespace RateLimitingQueue

def empty : RateLimitingQueue α where
  base := .empty
  waitingForAddCh := []
  waitingForQueue := []
  now := 0
  failures _ := 0

variable (q : RateLimitingQueue α) (item : α)

def add : RateLimitingQueue α := { q with base := q.base.add item }

def addAfter (duration : ℕ) : RateLimitingQueue α :=
  if q.base.shuttingDown = true then q
  else if duration = 0 then q.add item
  else { q with waitingForAddCh := q.waitingForAddCh ++ [⟨item,q.now + duration⟩] }

/-- The delay of an item: what is due to its own failures, or what the token bucket, which
all items share, asks for if that is longer. -/
def delay (limiter : RateLimiter) (bucket : ℕ) : ℕ := max (limiter.backoff (q.failures item)) bucket

def addRateLimited (limiter : RateLimiter) (bucket : ℕ) : RateLimitingQueue α :=
  { q with failures := Function.update q.failures item (q.failures item + 1) }.addAfter item (q.delay item limiter bucket)

def forget : RateLimitingQueue α := { q with failures := Function.update q.failures item 0 }

def numRequeues : ℕ := q.failures item

def get : Option (α × RateLimitingQueue α) := q.base.get.map fun p => (p.1,{ q with base := p.2 })

def done (h : item ∈ q.base.processing) : RateLimitingQueue α := { q with base := q.base.done item h }

def shutDown : RateLimitingQueue α := { q with base := q.base.shutDown }

def tick (d : ℕ) : RateLimitingQueue α := { q with now := q.now + d }

/-- An item waits once only, for the earlier of the two times. -/
def insertEntry (entries : List (WaitFor α)) (entry : WaitFor α) : List (WaitFor α) :=
  if entries.any (fun e => e.data = entry.data) then
    entries.map fun e => if e.data = entry.data ∧ entry.readyAt < e.readyAt then { e with readyAt := entry.readyAt } else e
  else entries ++ [entry]

/-- The waiting loop receives an entry. -/
def receive : RateLimitingQueue α :=
  if q.base.shuttingDown = true then q
  else
    match q.waitingForAddCh with
    | [] => q
    | entry :: rest =>
      if q.now < entry.readyAt then
        { q with waitingForAddCh := rest, waitingForQueue := insertEntry q.waitingForQueue entry }
      else { q with waitingForAddCh := rest }.add entry.data

/-- The waiting loop adds an entry that is ready and that no other is before. Which of the
entries with the same time that is depends on how the heap is arranged. -/
def fire (entry : WaitFor α) : RateLimitingQueue α :=
  if q.base.shuttingDown = false ∧ entry ∈ q.waitingForQueue ∧ entry.readyAt ≤ q.now ∧
      ∀ e ∈ q.waitingForQueue, entry.readyAt ≤ e.readyAt then
    { q with waitingForQueue := q.waitingForQueue.erase entry }.add entry.data
  else q

/-- What the waiting loop has, and what it is going to receive. -/
def entries : List (WaitFor α) := q.waitingForAddCh ++ q.waitingForQueue

def Waiting : Prop := item ∈ q.entries.map WaitFor.data

/-- An entry of the item has waited long enough. -/
def Ready : Prop := ∃ e ∈ q.entries, e.data = item ∧ e.readyAt ≤ q.now

/-- The item is going to be handed out. -/
def Pending : Prop := item ∈ q.base.dirty ∨ q.Waiting item

instance : Decidable (q.Waiting item) := inferInstanceAs (Decidable (_ ∈ _))
instance : Decidable (q.Pending item) := inferInstanceAs (Decidable (_ ∨ _))

/-! ## What the operations leave alone -/

section Frame
variable (limiter : RateLimiter) (bucket duration : ℕ) (entry : WaitFor α)

@[simp] theorem base_add : (q.add item).base = q.base.add item := rfl
@[simp] theorem base_forget : (q.forget item).base = q.base := rfl
@[simp] theorem base_tick : (q.tick duration).base = q.base := rfl
@[simp] theorem base_shutDown : q.shutDown.base = q.base.shutDown := rfl
@[simp] theorem base_done (h : item ∈ q.base.processing) : (q.done item h).base = q.base.done item h := rfl

/-- The steps of others than the worker: an item is added, or some entry has been moved. -/
theorem base_addAfter : (q.addAfter item duration).base = q.base ∨ (q.addAfter item duration).base = q.base.add item := by
  unfold addAfter
  repeat' split
  · exact Or.inl rfl
  · exact Or.inr rfl
  · exact Or.inl rfl

theorem base_receive : q.receive.base = q.base ∨ ∃ a, q.Ready a ∧ q.receive.base = q.base.add a := by
  unfold receive
  split
  · exact Or.inl rfl
  · split
    · exact Or.inl rfl
    · next entry rest hch =>
      split
      · exact Or.inl rfl
      · next hready =>
        have hmem : entry ∈ q.entries := by simp [entries,hch]
        exact Or.inr ⟨entry.data,⟨entry,hmem,rfl,Nat.le_of_not_lt hready⟩,rfl⟩

theorem base_fire : (q.fire entry).base = q.base ∨ ∃ a, q.Ready a ∧ (q.fire entry).base = q.base.add a := by
  unfold fire
  split
  · next h => exact Or.inr ⟨entry.data,⟨entry,List.mem_append_right _ h.2.1,rfl,h.2.2.1⟩,rfl⟩
  · exact Or.inl rfl

@[simp]
theorem processing_addAfter : (q.addAfter item duration).base.processing = q.base.processing := by
  rcases q.base_addAfter item duration with h | h <;> simp [h]

@[simp]
theorem processing_addRateLimited : (q.addRateLimited item limiter bucket).base.processing = q.base.processing :=
  processing_addAfter _ item _

@[simp]
theorem processing_receive : q.receive.base.processing = q.base.processing := by
  rcases q.base_receive with h | ⟨a,_,h⟩ <;> simp [h]

@[simp]
theorem processing_fire : (q.fire entry).base.processing = q.base.processing := by
  rcases q.base_fire entry with h | ⟨a,_,h⟩ <;> simp [h]

@[simp]
theorem shuttingDown_addAfter : (q.addAfter item duration).base.shuttingDown = q.base.shuttingDown := by
  rcases q.base_addAfter item duration with h | h <;> simp [h]

@[simp]
theorem shuttingDown_addRateLimited : (q.addRateLimited item limiter bucket).base.shuttingDown = q.base.shuttingDown :=
  shuttingDown_addAfter _ item _

@[simp]
theorem shuttingDown_receive : q.receive.base.shuttingDown = q.base.shuttingDown := by
  rcases q.base_receive with h | ⟨a,_,h⟩ <;> simp [h]

@[simp]
theorem shuttingDown_fire : (q.fire entry).base.shuttingDown = q.base.shuttingDown := by
  rcases q.base_fire entry with h | ⟨a,_,h⟩ <;> simp [h]

@[simp] theorem failures_add : (q.add item).failures = q.failures := rfl
@[simp] theorem failures_shutDown : q.shutDown.failures = q.failures := rfl
@[simp] theorem failures_tick : (q.tick duration).failures = q.failures := rfl
@[simp] theorem failures_done (h : item ∈ q.base.processing) : (q.done item h).failures = q.failures := rfl
@[simp] theorem failures_forget : (q.forget item).failures = Function.update q.failures item 0 := rfl

@[simp]
theorem failures_addAfter : (q.addAfter item duration).failures = q.failures := by
  unfold addAfter
  repeat' split
  all_goals rfl

@[simp]
theorem failures_addRateLimited :
    (q.addRateLimited item limiter bucket).failures = Function.update q.failures item (q.failures item + 1) :=
  failures_addAfter _ item _

@[simp]
theorem failures_receive : q.receive.failures = q.failures := by
  unfold receive
  repeat' split
  all_goals rfl

@[simp]
theorem failures_fire : (q.fire entry).failures = q.failures := by
  unfold fire
  split <;> rfl

end Frame

/-! ## Nothing that is pending is lost -/

section Pending
variable {q item} {b : α}

theorem pending_add (hup : q.base.shuttingDown = false) : (q.add item).Pending b ↔ b = item ∨ q.Pending b := by
  unfold Pending Waiting entries add
  simp [hup,or_assoc]

theorem pending_addAfter (hup : q.base.shuttingDown = false) (duration : ℕ) :
    (q.addAfter item duration).Pending b ↔ b = item ∨ q.Pending b := by
  by_cases hzero : duration = 0
  · rw [addAfter,if_neg (by simp [hup]),if_pos hzero]
    exact pending_add hup
  · rw [addAfter,if_neg (by simp [hup]),if_neg hzero]
    unfold Pending Waiting entries
    simp only [List.map_append,List.map_cons,List.map_nil,List.mem_append,List.mem_singleton]
    grind

theorem pending_addRateLimited (hup : q.base.shuttingDown = false) (limiter : RateLimiter) (bucket : ℕ) :
    (q.addRateLimited item limiter bucket).Pending b ↔ b = item ∨ q.Pending b :=
  pending_addAfter (q := { q with failures := Function.update q.failures item (q.failures item + 1) }) hup _

theorem mem_insertEntry {entries : List (WaitFor α)} {entry : WaitFor α} :
    b ∈ (insertEntry entries entry).map WaitFor.data ↔ b = entry.data ∨ b ∈ entries.map WaitFor.data := by
  unfold insertEntry
  split
  · next hknown =>
    have hmem : entry.data ∈ entries.map WaitFor.data := by simpa using hknown
    have hsame : WaitFor.data ∘ (fun e => if e.data = entry.data ∧ entry.readyAt < e.readyAt then
        { e with readyAt := entry.readyAt } else e) = WaitFor.data := by
      funext e
      dsimp only [Function.comp_apply]
      split <;> rfl
    rw [List.map_map,hsame]
    constructor
    · exact Or.inr
    · exact fun h => h.elim (fun heq => heq ▸ hmem) id
  · rw [List.map_append,List.mem_append,List.map_singleton,List.mem_singleton]
    exact or_comm

theorem pending_receive (hup : q.base.shuttingDown = false) : q.receive.Pending b ↔ q.Pending b := by
  rw [receive,if_neg (by simp [hup])]
  split
  · rfl
  · next entry rest hch =>
    have hfirst : q.Pending b ↔ b = entry.data ∨ { q with waitingForAddCh := rest }.Pending b := by
      unfold Pending Waiting entries
      rw [hch,List.cons_append,List.map_cons,List.mem_cons]
      exact or_left_comm
    rw [hfirst]
    split
    · unfold Pending Waiting entries
      simp only [List.map_append,List.mem_append,mem_insertEntry]
      grind
    · exact pending_add (q := { q with waitingForAddCh := rest }) hup

theorem pending_fire (hup : q.base.shuttingDown = false) (entry : WaitFor α) :
    (q.fire entry).Pending b ↔ q.Pending b := by
  unfold fire
  split
  · next h =>
    have hheap : b ∈ q.waitingForQueue.map WaitFor.data ↔
        b = entry.data ∨ b ∈ (q.waitingForQueue.erase entry).map WaitFor.data :=
      ((List.perm_cons_erase h.2.1).map WaitFor.data).mem_iff.trans List.mem_cons
    rw [pending_add (q := { q with waitingForQueue := q.waitingForQueue.erase entry }) hup]
    unfold Pending Waiting entries
    simp only [List.map_append,List.mem_append,hheap]
    grind
  · rfl

theorem pending_get {q' : RateLimitingQueue α} (h : q.get = some (item,q')) :
    q.Pending item ∧ ∀ b, q.Pending b → b = item ∨ q'.Pending b := by
  obtain ⟨⟨first,base'⟩,hget,heq⟩ := Option.map_eq_some_iff.mp h
  obtain ⟨rfl,rfl⟩ := Prod.mk.inj heq
  have hhands := WorkQueue.hands_of_get hget
  refine ⟨Or.inl hhands.mem_dirty,fun b hb => ?_⟩
  rcases hb with hb | hb
  · by_cases hne : b = first
    · exact Or.inl hne
    · exact Or.inr (Or.inl (hhands.dirty ▸ Finset.mem_erase.mpr ⟨hne,hb⟩))
  · exact Or.inr (Or.inr hb)

theorem pending_done (h : item ∈ q.base.processing) : (q.done item h).Pending b ↔ q.Pending b := by
  unfold Pending
  simp only [base_done,WorkQueue.dirty_done]
  rfl

end Pending

/-! ## How long an item waits -/

section Entries
variable {q item} {e : WaitFor α}

theorem mem_of_mem_insertEntry {waiting : List (WaitFor α)} {entry : WaitFor α} (h : e ∈ insertEntry waiting entry) :
    e = entry ∨ e ∈ waiting := by
  unfold insertEntry at h
  split at h
  · obtain ⟨known,hknown,rfl⟩ := List.mem_map.mp h
    split
    · next hsame =>
      left
      rw [hsame.1]
    · exact Or.inr hknown
  · exact (List.mem_append.mp h).symm.imp_left List.mem_singleton.mp

theorem mem_entries_of_receive (h : e ∈ q.receive.entries) : e ∈ q.entries := by
  unfold receive at h
  split at h
  · exact h
  · split at h
    · exact h
    · next entry rest hch =>
      rw [entries,hch]
      split at h
      · rcases List.mem_append.mp h with hrest | hheap
        · exact List.mem_cons_of_mem entry (List.mem_append_left _ hrest)
        · rcases mem_of_mem_insertEntry hheap with rfl | hheap
          · exact List.mem_cons_self
          · exact List.mem_cons_of_mem entry (List.mem_append_right _ hheap)
      · exact List.mem_cons_of_mem entry h

theorem mem_entries_of_fire {entry : WaitFor α} (h : e ∈ (q.fire entry).entries) : e ∈ q.entries := by
  unfold fire at h
  split at h
  · rcases List.mem_append.mp h with hch | hheap
    · exact List.mem_append_left _ hch
    · exact List.mem_append_right _ (List.mem_of_mem_erase hheap)
  · exact h

theorem mem_entries_of_addAfter {duration : ℕ} (h : e ∈ (q.addAfter item duration).entries) :
    e ∈ q.entries ∨ e = ⟨item,q.now + duration⟩ := by
  unfold addAfter at h
  repeat' split at h
  · exact Or.inl h
  · exact Or.inl h
  · simp only [entries,List.mem_append,List.mem_singleton] at h ⊢
    tauto

theorem mem_entries_of_addRateLimited {limiter : RateLimiter} {bucket : ℕ}
    (h : e ∈ (q.addRateLimited item limiter bucket).entries) :
    e ∈ q.entries ∨ e = ⟨item,q.now + q.delay item limiter bucket⟩ :=
  mem_entries_of_addAfter (q := { q with failures := Function.update q.failures item (q.failures item + 1) }) h

/-- An item that has to wait is not added at once. -/
theorem base_addRateLimited {limiter : RateLimiter} (hpos : 0 < limiter.backoff (q.failures item)) (bucket : ℕ) :
    (q.addRateLimited item limiter bucket).base = q.base := by
  have hdelay : q.delay item limiter bucket ≠ 0 := (Nat.lt_of_lt_of_le hpos (Nat.le_max_left _ _)).ne'
  rw [addRateLimited,addAfter,if_neg hdelay]
  split <;> rfl

/-- What the waiting loop adds is ready. -/
theorem ready_of_added {base : WorkQueue α} (hbase : base = q.base ∨ ∃ a, q.Ready a ∧ base = q.base.add a)
    (h : item ∈ base.dirty) : item ∈ q.base.dirty ∨ q.Ready item := by
  rcases hbase with rfl | ⟨a,hready,rfl⟩
  · exact Or.inl h
  · rw [WorkQueue.dirty_add] at h
    split at h
    · exact Or.inl h
    · rcases Finset.mem_insert.mp h with rfl | h
      · exact Or.inr hready
      · exact Or.inl h

end Entries
end RateLimitingQueue
end IngressGce
