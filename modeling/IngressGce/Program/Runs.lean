import Mathlib.Data.Nat.Notation

/-! # Runs of a deterministic machine on a list of inputs

The inputs of a run carry everything the environment decides. A condition holds
along a run when each step meets it in the state the step starts from.
-/
namespace IngressGce.Runs
variable {σ ι : Type}

/-- The state after taking the inputs in order. -/
def final (step : σ → ι → σ) : σ → List ι → σ
  | s, [] => s
  | s, i :: rest => final step (step s i) rest

/-- Every step of the run meets `C` in the state it starts from. -/
def Along (step : σ → ι → σ) (C : σ → ι → Prop) : σ → List ι → Prop
  | _, [] => True
  | s, i :: rest => C s i ∧ Along step C (step s i) rest

variable {step : σ → ι → σ} {C D : σ → ι → Prop}

/-- An invariant that survives each step meeting `C` lets `C` be traded for
anything the invariant and `C` imply together. -/
theorem Along.strengthen {I : σ → Prop}
    (hstep : ∀ s i, I s → C s i → I (step s i) ∧ D s i) {s : σ} {xs : List ι}
    (hs : I s) (h : Along step C s xs) : Along step D s xs := by
  induction xs generalizing s with
  | nil => trivial
  | cons i rest ih =>
    obtain ⟨hI,hD⟩ := hstep s i hs h.1
    exact ⟨hD,ih hI h.2⟩

theorem along_concat {s : σ} {xs : List ι} {i : ι} :
    Along step C s (xs ++ [i]) ↔ Along step C s xs ∧ C (final step s xs) i := by
  induction xs generalizing s with
  | nil => exact ⟨fun h => ⟨trivial,h.1⟩,fun h => ⟨h.2,trivial⟩⟩
  | cons j rest ih =>
    constructor
    · rintro ⟨hj,hrest⟩
      obtain ⟨hrest,hi⟩ := ih.mp hrest
      exact ⟨⟨hj,hrest⟩,hi⟩
    · rintro ⟨⟨hj,hrest⟩,hi⟩
      exact ⟨hj,ih.mpr ⟨hrest,hi⟩⟩

theorem Along.at_end {s : σ} {xs : List ι} {i : ι} (h : Along step C s (xs ++ [i])) : C (final step s xs) i :=
  (along_concat.mp h).2

theorem along_congr (h : ∀ s i, C s i ↔ D s i) (s : σ) (xs : List ι) :
    Along step C s xs ↔ Along step D s xs := by
  induction xs generalizing s with
  | nil => exact Iff.rfl
  | cons i rest ih => exact and_congr (h s i) (ih (step s i))

theorem along_congr_of_invariant {I : σ → Prop} (h : ∀ s i, I s → (C s i ↔ D s i))
    (hstep : ∀ s i, I s → C s i → I (step s i)) {s : σ} (hs : I s) (xs : List ι) :
    Along step C s xs ↔ Along step D s xs := by
  induction xs generalizing s with
  | nil => exact Iff.rfl
  | cons i rest ih =>
    constructor
    · rintro ⟨hC,hrest⟩
      exact ⟨(h s i hs).mp hC,(ih (hstep s i hs hC)).mp hrest⟩
    · rintro ⟨hD,hrest⟩
      have hC := (h s i hs).mpr hD
      exact ⟨hC,(ih (hstep s i hs hC)).mpr hrest⟩

theorem along_of_forall {xs : List ι} (h : ∀ i ∈ xs, ∀ s, C s i) (s : σ) : Along step C s xs := by
  induction xs generalizing s with
  | nil => trivial
  | cons i rest ih =>
    exact ⟨h i List.mem_cons_self s,ih (fun j hj => h j (List.mem_cons_of_mem i hj)) (step s i)⟩

theorem final_append (s : σ) (xs ys : List ι) : final step s (xs ++ ys) = final step (final step s xs) ys := by
  induction xs generalizing s with
  | nil => rfl
  | cons i rest ih => exact ih (step s i)

theorem final_invariant {I : σ → Prop} (hstep : ∀ s i, I s → I (step s i)) {s : σ} (hs : I s) (xs : List ι) :
    I (final step s xs) := by
  induction xs generalizing s with
  | nil => exact hs
  | cons i rest ih => exact ih (hstep s i hs)

/-- What holds at the end and did not hold at the start has come about in some state of the
run. -/
theorem exists_prefix_of_final {P Q : σ → Prop} (hstep : ∀ s i, P (step s i) → P s ∨ Q s) {s : σ} (hs : ¬P s)
    {xs : List ι} (h : P (final step s xs)) : ∃ before, before <+: xs ∧ Q (final step s before) := by
  induction xs generalizing s with
  | nil => exact absurd h hs
  | cons i rest ih =>
    by_cases hi : P (step s i)
    · exact ⟨[],List.nil_prefix,(hstep s i hi).resolve_left hs⟩
    · obtain ⟨before,hpre,hQ⟩ := ih hi h
      exact ⟨i :: before,List.cons_prefix_cons.mpr ⟨rfl,hpre⟩,hQ⟩

def count (step : σ → ι → σ) (P : σ → ι → Bool) : σ → List ι → ℕ
  | _, [] => 0
  | s, i :: rest => (P s i).toNat + count step P (step s i) rest

/-- A potential that each step of the kind uses up by one, and no other step changes,
bounds how many there are. -/
theorem count_add_potential {P : σ → ι → Bool} {I : σ → Prop} {μ : σ → ℕ}
    (hstep : ∀ s i, I s → I (step s i) ∧ μ (step s i) + (P s i).toNat = μ s) {s : σ} (hs : I s) (xs : List ι) :
    μ (final step s xs) + count step P s xs = μ s := by
  induction xs generalizing s with
  | nil => rfl
  | cons i rest ih =>
    obtain ⟨hI,hμ⟩ := hstep s i hs
    have hrest := ih hI
    simp only [final,count]
    omega

end IngressGce.Runs
