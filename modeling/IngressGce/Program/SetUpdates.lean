import IngressGce.Program.Iteration
import Mathlib.Data.List.Dedup
import Mathlib.Logic.Function.Basic

/-! # Updates of sets in any order

Each key has a set, given by a list. An update unites the set of one key with given
items or takes them away from it. Updates that never do both with one item commute, so
what they make of the sets does not depend on the order in which they are executed.
-/
namespace IngressGce

namespace Iteration
variable {α : Type} [DecidableEq α]

/-- The first element that a range over the set finds, taken out of the set. -/
def popAny (o : Iteration α) (xs : List α) : Option (α × List α) :=
  (o.range xs).head?.map (fun a => (a,xs.erase a))

theorem popAny_eq_none {o : Iteration α} {xs : List α} : o.popAny xs = none ↔ xs = [] := by
  unfold popAny
  rw [Option.map_eq_none_iff,List.head?_eq_none_iff]
  constructor
  · intro h
    have hperm := o.perm xs
    rw [h] at hperm
    exact hperm.nil_eq.symm
  · rintro rfl
    exact (o.perm []).eq_nil

theorem popAny_perm {o : Iteration α} {xs rest : List α} {a : α} (h : o.popAny xs = some (a,rest)) :
    xs.Perm (a :: rest) := by
  unfold popAny at h
  obtain ⟨b,hb,heq⟩ := Option.map_eq_some_iff.mp h
  obtain ⟨rfl,rfl⟩ := Prod.mk.inj heq
  apply List.perm_cons_erase
  exact mem_range.mp (List.mem_of_mem_head? hb)

end Iteration

inductive SetOp
  | union
  | difference
  deriving DecidableEq, Repr

structure SetUpdate (κ α : Type) where
  op : SetOp
  key : κ
  items : List α
  deriving DecidableEq, Repr

namespace SetUpdate
variable {κ α : Type} [DecidableEq κ] [DecidableEq α]

def combine (op : SetOp) (set items : List α) : List α :=
  match op with
  | .union => set ∪ items
  | .difference => set.filter (fun a => a ∉ items)

def apply (sets : κ → List α) (u : SetUpdate κ α) : κ → List α :=
  Function.update sets u.key (combine u.op (sets u.key) u.items)

/-- Everything that updates of one kind mention for a key, in the order of the updates. -/
def mentioned (op : SetOp) (us : List (SetUpdate κ α)) (k : κ) : List α :=
  (us.filter (fun u => u.op = op ∧ u.key = k)).flatMap items

/-- No item of a key is both added and removed. -/
def Apart (us : List (SetUpdate κ α)) : Prop :=
  ∀ k, ∀ a ∈ mentioned .union us k, a ∉ mentioned .difference us k

omit [DecidableEq α] in
theorem mem_mentioned {op : SetOp} {us : List (SetUpdate κ α)} {k : κ} {a : α} :
    a ∈ mentioned op us k ↔ ∃ u ∈ us, u.op = op ∧ u.key = k ∧ a ∈ u.items := by
  simp only [mentioned,List.mem_flatMap,List.mem_filter,decide_eq_true_eq]
  constructor
  · rintro ⟨u,⟨hu,hop,hk⟩,ha⟩
    exact ⟨u,hu,hop,hk,ha⟩
  · rintro ⟨u,hu,hop,hk,ha⟩
    exact ⟨u,⟨hu,hop,hk⟩,ha⟩

omit [DecidableEq α] in
theorem mem_mentioned_cons {op : SetOp} {u : SetUpdate κ α} {us : List (SetUpdate κ α)} {k : κ} {a : α} :
    a ∈ mentioned op (u :: us) k ↔ (u.op = op ∧ u.key = k ∧ a ∈ u.items) ∨ a ∈ mentioned op us k := by
  simp [mem_mentioned]

omit [DecidableEq α] in
theorem mentioned_perm {us vs : List (SetUpdate κ α)} (h : us.Perm vs) (op : SetOp) (k : κ) :
    (mentioned op us k).Perm (mentioned op vs k) := (h.filter _).flatMap_right _

omit [DecidableEq α] in
theorem Apart.tail {u : SetUpdate κ α} {us : List (SetUpdate κ α)} (h : Apart (u :: us)) : Apart us := by
  intro k a hadd hremove
  exact h k a (mem_mentioned_cons.mpr (Or.inr hadd)) (mem_mentioned_cons.mpr (Or.inr hremove))

/-- The number of updates of one kind that mention an item for a key. -/
def times (op : SetOp) (us : List (SetUpdate κ α)) (k : κ) (a : α) : ℕ :=
  us.countP (fun u => u.op = op ∧ u.key = k ∧ a ∈ u.items)

theorem times_pos_iff {op : SetOp} {us : List (SetUpdate κ α)} {k : κ} {a : α} :
    0 < times op us k a ↔ a ∈ mentioned op us k := by
  simp [times,List.countP_pos_iff,mem_mentioned]

/-- An item that is mentioned once is mentioned by one update. -/
theorem times_le_one {op : SetOp} {us : List (SetUpdate κ α)} {k : κ} (h : (mentioned op us k).Nodup) (a : α) :
    times op us k a ≤ 1 := by
  induction us with
  | nil => exact Nat.zero_le 1
  | cons u rest ih =>
    by_cases hu : u.op = op ∧ u.key = k
    · have hsplit : mentioned op (u :: rest) k = u.items ++ mentioned op rest k := by simp [mentioned,hu]
      rw [hsplit,List.nodup_append] at h
      have hrest := ih h.2.1
      by_cases ha : a ∈ u.items
      · have hnone : times op rest k a = 0 := by
          by_contra hne
          exact h.2.2 a ha a (times_pos_iff.mp (Nat.pos_of_ne_zero hne)) rfl
        simp [times,hu,ha] at hnone ⊢
        exact hnone
      · simpa [times,hu,ha] using hrest
    · have hsplit : mentioned op (u :: rest) k = mentioned op rest k := by simp [mentioned,hu]
      rw [hsplit] at h
      have hskip : ¬(u.op = op ∧ u.key = k ∧ a ∈ u.items) := fun hall => hu ⟨hall.1,hall.2.1⟩
      simpa [times,List.countP_cons,hskip] using ih h

theorem mem_apply {sets : κ → List α} {u : SetUpdate κ α} {k : κ} {a : α} :
    a ∈ apply sets u k ↔ (u.op = .union ∧ u.key = k ∧ a ∈ u.items) ∨
      (a ∈ sets k ∧ ¬(u.op = .difference ∧ u.key = k ∧ a ∈ u.items)) := by
  by_cases hk : u.key = k
  · subst hk
    cases hop : u.op <;> simp [apply,combine,hop,or_comm]
  · simp [apply,Function.update_of_ne (Ne.symm hk),hk]

/-- What a sequence of updates makes of the sets. -/
theorem mem_foldl_apply {us : List (SetUpdate κ α)} (h : Apart us) (sets : κ → List α) (k : κ) (a : α) :
    a ∈ us.foldl apply sets k ↔
      a ∈ mentioned .union us k ∨ (a ∈ sets k ∧ a ∉ mentioned .difference us k) := by
  induction us generalizing sets with
  | nil => simp [mentioned]
  | cons u rest ih =>
    have hadded := h k a
    rw [List.foldl_cons,ih h.tail,mem_apply]
    simp only [mem_mentioned_cons] at hadded ⊢
    grind

end SetUpdate
end IngressGce
