import Mathlib.Data.Set.Basic
import Mathlib.Logic.Function.Basic
import Mathlib.Logic.Relation

/-! # Reconciling with a world that changes

A controller is told when the world changes, and works on the keys that a change concerns:
it reads the world, one part after the other, and puts down a result for the key. The world
may change between two of these reads, and a change is made known later than it happens. The
controller still ends up with the right results if every change that can make a result
wrong, or what has been read for one, concerns the key.
-/
namespace IngressGce

/-- What is left to read before there is a result. -/
inductive Reading (ω δ : Type)
  | done (d : δ)
  | read (next : ω → Reading ω δ)

def Reading.map {ω δ δ' : Type} (f : δ → δ') : Reading ω δ → Reading ω δ'
  | .done d => .done (f d)
  | .read next => .read fun w => (next w).map f

theorem Reading.map_id {ω δ : Type} (r : Reading ω δ) : r.map id = r := by
  induction r with
  | done d => rfl
  | read next ih =>
    rw [Reading.map]
    congr 1
    funext w
    exact ih w

/-- Worlds change and send notes. The handler of a note, in the world that it finds, puts
up the keys that the note concerns. -/
structure Reconciler (ω κ ν δ : Type) where
  changes : ω → ν → ω → Prop
  concerns : ν → ω → κ → Prop
  work : κ → Reading ω δ

namespace Reconciler
variable {ω κ ν δ : Type}

structure State (ω κ ν δ : Type) where
  world : ω
  notes : List ν
  pending : Set κ
  working : Option (κ × Reading ω δ)
  result : κ → δ

/-- The steps of the world, of the handlers and of the worker. -/
inductive Step [DecidableEq κ] (R : Reconciler ω κ ν δ) : State ω κ ν δ → State ω κ ν δ → Prop
  | change {s : State ω κ ν δ} {n : ν} {w' : ω} (h : R.changes s.world n w') :
    Step R s { s with world := w', notes := s.notes ++ [n] }
  | deliver {s : State ω κ ν δ} {notes : List ν} {pending : Set κ}
    (hnotes : ∀ n ∈ s.notes, n ∈ notes ∨ ∀ k, R.concerns n s.world k → k ∈ pending)
    (hpending : s.pending ⊆ pending) : Step R s { s with notes, pending }
  | take {s : State ω κ ν δ} {k : κ} {pending : Set κ} (hidle : s.working = none)
    (hpending : ∀ k' ∈ s.pending, k' = k ∨ k' ∈ pending) :
    Step R s { s with pending, working := some (k,R.work k) }
  | read {s : State ω κ ν δ} {k : κ} {next : ω → Reading ω δ} (h : s.working = some (k,.read next)) :
    Step R s { s with working := some (k,next s.world) }
  | commit {s : State ω κ ν δ} {k : κ} {d : δ} (h : s.working = some (k,.done d)) :
    Step R s { s with working := none, result := Function.update s.result k d }
  | abandon {s : State ω κ ν δ} {k : κ} {p : Reading ω δ} {pending : Set κ} (h : s.working = some (k,p))
    (hk : k ∈ pending) (hpending : s.pending ⊆ pending) : Step R s { s with pending, working := none }

/-- What is known about a key's reads, as long as no change concerns the key: they agree
with the world as it is, and so will the result. A note may cease to concern a key, but only
when another does or nothing is asked of its result any more. -/
structure Sound (R : Reconciler ω κ ν δ) (Right : ω → κ → δ → Prop) (Knows : κ → ω → Reading ω δ → Prop) :
    Prop where
  start : ∀ k w, Knows k w (R.work k)
  read : ∀ {k w next}, Knows k w (.read next) → Knows k w (next w)
  done : ∀ {k w d}, Knows k w (.done d) → Right w k d
  knows_change : ∀ {k w n w' p}, R.changes w n w' → Knows k w p → Knows k w' p ∨ R.concerns n w' k
  right_change : ∀ {k w n w' d}, R.changes w n w' → Right w k d → Right w' k d ∨ R.concerns n w' k
  concerns_change : ∀ {k w n w' m}, R.changes w n w' → R.concerns m w k →
    R.concerns m w' k ∨ R.concerns n w' k ∨ (∀ d, Right w' k d) ∧ ∀ p, Knows k w' p

section Attended
variable (R : Reconciler ω κ ν δ) (Right : ω → κ → δ → Prop) (Knows : κ → ω → Reading ω δ → Prop)

/-- The result of the key is right, or is going to be worked on. -/
inductive Attended (s : State ω κ ν δ) (k : κ) : Prop
  | pending (h : k ∈ s.pending)
  | noted {n : ν} (hn : n ∈ s.notes) (h : R.concerns n s.world k)
  | working {p : Reading ω δ} (hp : s.working = some (k,p)) (h : Knows k s.world p)
  | right (hother : ∀ p, s.working ≠ some (k,p)) (h : Right s.world k (s.result k))

variable {R Right Knows}

section Step
variable {s : State ω κ ν δ} {k taken : κ} {pending : Set κ}

/-- A change concerns the key, or leaves alone what is known about it. -/
theorem Attended.change (hR : Sound R Right Knows) (h : Attended R Right Knows s k) {n : ν} {w' : ω}
    (hchange : R.changes s.world n w') : Attended R Right Knows { s with world := w', notes := s.notes ++ [n] } k := by
  have hnew (h : R.concerns n w' k) : Attended R Right Knows { s with world := w', notes := s.notes ++ [n] } k :=
    .noted (List.mem_append_right _ List.mem_cons_self) h
  cases h with
  | pending h => exact .pending h
  | noted hn h =>
    rcases hR.concerns_change hchange h with h | h | ⟨hright,hknows⟩
    · exact .noted (List.mem_append_left _ hn) h
    · exact hnew h
    · by_cases hworking : ∃ p, s.working = some (k,p)
      · obtain ⟨p,hp⟩ := hworking
        exact .working hp (hknows p)
      · exact .right (not_exists.mp hworking) (hright _)
  | working hp h =>
    rcases hR.knows_change hchange h with h | h
    · exact .working hp h
    · exact hnew h
  | right hother h =>
    rcases hR.right_change hchange h with h | h
    · exact .right hother h
    · exact hnew h

theorem Attended.deliver (h : Attended R Right Knows s k) {notes : List ν}
    (hnotes : ∀ n ∈ s.notes, n ∈ notes ∨ ∀ k, R.concerns n s.world k → k ∈ pending) (hpending : s.pending ⊆ pending) :
    Attended R Right Knows { s with notes, pending } k := by
  cases h with
  | pending h => exact .pending (hpending h)
  | noted hn h => exact (hnotes _ hn).elim (fun hn => .noted hn h) fun hall => .pending (hall k h)
  | working hp h => exact .working hp h
  | right hother h => exact .right hother h

theorem Attended.take (hR : Sound R Right Knows) (h : Attended R Right Knows s k) (hidle : s.working = none)
    (hpending : ∀ k' ∈ s.pending, k' = taken ∨ k' ∈ pending) :
    Attended R Right Knows { s with pending, working := some (taken,R.work taken) } k := by
  by_cases hk : k = taken
  · subst hk
    exact .working rfl (hR.start k s.world)
  · cases h with
    | pending h => exact .pending ((hpending k h).resolve_left hk)
    | noted hn h => exact .noted hn h
    | working hp h => exact absurd (hidle.symm.trans hp) (by simp)
    | right hother h => exact .right (fun p hp => hk (Prod.mk.inj (Option.some.inj hp)).1.symm) h

theorem Attended.read (hR : Sound R Right Knows) (h : Attended R Right Knows s k) {next : ω → Reading ω δ}
    (hread : s.working = some (taken,.read next)) :
    Attended R Right Knows { s with working := some (taken,next s.world) } k := by
  cases h with
  | pending h => exact .pending h
  | noted hn h => exact .noted hn h
  | working hp h =>
    obtain ⟨rfl,rfl⟩ := Prod.mk.inj (Option.some.inj (hread.symm.trans hp))
    exact .working rfl (hR.read h)
  | right hother h =>
    exact .right (fun p hp => hother _ (hread.trans (by rw [(Prod.mk.inj (Option.some.inj hp)).1]))) h

theorem Attended.commit [DecidableEq κ] (hR : Sound R Right Knows) (h : Attended R Right Knows s k) {d : δ}
    (hdone : s.working = some (taken,.done d)) :
    Attended R Right Knows { s with working := none, result := Function.update s.result taken d } k := by
  cases h with
  | pending h => exact .pending h
  | noted hn h => exact .noted hn h
  | working hp h =>
    obtain ⟨rfl,rfl⟩ := Prod.mk.inj (Option.some.inj (hdone.symm.trans hp))
    refine .right (fun _ => by simp) ?_
    dsimp only
    rw [Function.update_self]
    exact hR.done h
  | right hother h =>
    refine .right (fun _ => by simp) ?_
    have hne : k ≠ taken := fun heq => hother _ (heq ▸ hdone)
    dsimp only
    rwa [Function.update_of_ne hne]

theorem Attended.abandon (h : Attended R Right Knows s k) {p : Reading ω δ} (hp' : s.working = some (taken,p))
    (htaken : taken ∈ pending) (hpending : s.pending ⊆ pending) :
    Attended R Right Knows { s with pending, working := none } k := by
  cases h with
  | pending h => exact .pending (hpending h)
  | noted hn h => exact .noted hn h
  | working hp h =>
    obtain ⟨rfl,_⟩ := Prod.mk.inj (Option.some.inj (hp'.symm.trans hp))
    exact .pending htaken
  | right hother h => exact .right (fun _ => by simp) h

end Step

theorem Attended.step [DecidableEq κ] (hR : Sound R Right Knows) {s s' : State ω κ ν δ} {k : κ} (h : Attended R Right Knows s k)
    (hstep : Step R s s') : Attended R Right Knows s' k := by
  cases hstep with
  | change hchange => exact h.change hR hchange
  | deliver hnotes hpending => exact h.deliver hnotes hpending
  | take hidle hpending => exact h.take hR hidle hpending
  | read hread => exact h.read hR hread
  | commit hdone => exact h.commit hR hdone
  | abandon hworking htaken hpending => exact h.abandon hworking htaken hpending

theorem Attended.steps [DecidableEq κ] (hR : Sound R Right Knows) {s s' : State ω κ ν δ} {k : κ} (h : Attended R Right Knows s k)
    (hsteps : Relation.ReflTransGen (Step R) s s') : Attended R Right Knows s' k := by
  induction hsteps with
  | refl => exact h
  | tail _ hstep ih => exact ih.step hR hstep

/-- When nothing is under way, the result is right. -/
theorem Attended.right_of_quiet {s : State ω κ ν δ} {k : κ} (h : Attended R Right Knows s k) (hpending : k ∉ s.pending)
    (hnotes : s.notes = []) (hidle : s.working = none) : Right s.world k (s.result k) := by
  cases h with
  | pending h => exact absurd h hpending
  | noted hn h => simp [hnotes] at hn
  | working hp h => exact absurd (hidle.symm.trans hp) (by simp)
  | right hother h => exact h

end Attended
end Reconciler
end IngressGce
