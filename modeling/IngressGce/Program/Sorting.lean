import Mathlib.Data.List.Perm.Basic
import Mathlib.Order.Defs.Unbundled

/-! # Sorting that may do as it likes with ties

A sort permutes a list so that nothing comes before something less. Where the comparison
does not decide, the result may be any, and can depend on the order of the list. What is
found first in a sorted list is determined all the same if the comparison decides
between those that can be found.
-/
namespace IngressGce
variable {α β : Type}

structure Sorting (less : α → α → Prop) where
  sort : List α → List α
  perm : ∀ xs, (sort xs).Perm xs
  sorted : ∀ xs, (sort xs).Pairwise (fun a b => ¬less b a)

/-- The value of the least candidate that has one. -/
def IsFirst (less : α → α → Prop) (f : α → Option β) (C : α → Prop) : Option β → Prop
  | none => ∀ a, C a → f a = none
  | some v => ∃ a, C a ∧ f a = some v ∧ ∀ b, C b → f b ≠ none → b = a ∨ less a b

section First
variable {less : α → α → Prop} {f g : α → Option β} {C D : α → Prop} {r r' : Option β}

/-- Only the candidates with a value count. -/
theorem IsFirst.congr (h : IsFirst less f C r) (hsame : ∀ a v, C a ∧ f a = some v ↔ D a ∧ g a = some v) :
    IsFirst less g D r := by
  have hnone : ∀ b, D b → g b ≠ none → C b ∧ f b ≠ none := by
    intro b hb hgb
    obtain ⟨v,hv⟩ := Option.ne_none_iff_exists'.mp hgb
    obtain ⟨hC,hf⟩ := (hsame b v).mpr ⟨hb,hv⟩
    exact ⟨hC,by rw [hf]; exact Option.some_ne_none v⟩
  cases r with
  | none =>
    intro a ha
    by_contra hga
    obtain ⟨hC,hf⟩ := hnone a ha hga
    exact hf (h a hC)
  | some v =>
    obtain ⟨a,ha,hv,hleast⟩ := h
    obtain ⟨hD,hg⟩ := (hsame a v).mp ⟨ha,hv⟩
    refine ⟨a,hD,hg,?_⟩
    intro b hb hgb
    obtain ⟨hC,hf⟩ := hnone b hb hgb
    exact hleast b hC hf

theorem IsFirst.unique (hasymm : ∀ a b, less a b → ¬less b a) (h : IsFirst less f C r) (h' : IsFirst less f C r') :
    r = r' := by
  cases r with
  | none =>
    cases r' with
    | none => rfl
    | some v =>
      obtain ⟨a,ha,hv,_⟩ := h'
      rw [h a ha] at hv
      cases hv
  | some v =>
    obtain ⟨a,ha,hv,hleast⟩ := h
    cases r' with
    | none =>
      rw [h' a ha] at hv
      cases hv
    | some v' =>
      obtain ⟨a',ha',hv',hleast'⟩ := h'
      have hsame : a' = a := by
        rcases hleast a' ha' (by rw [hv']; exact Option.some_ne_none v') with heq | hless
        · exact heq
        · rcases hleast' a ha (by rw [hv]; exact Option.some_ne_none v) with heq | hless'
          · exact heq.symm
          · exact absurd hless' (hasymm a a' hless)
      rw [hsame,hv] at hv'
      exact hv'

/-- What is found first in the sorted list is the value of the least. -/
theorem Sorting.isFirst_findSome? (s : Sorting less) {xs : List α}
    (htotal : ∀ a ∈ xs, ∀ b ∈ xs, f a ≠ none → f b ≠ none → a = b ∨ less a b ∨ less b a) :
    IsFirst less f (· ∈ xs) ((s.sort xs).findSome? f) := by
  cases hfound : (s.sort xs).findSome? f with
  | none =>
    intro a ha
    exact List.findSome?_eq_none_iff.mp hfound a ((s.perm xs).mem_iff.mpr ha)
  | some v =>
    obtain ⟨before,a,after,hsplit,hv,hbefore⟩ := List.findSome?_eq_some_iff.mp hfound
    have hsorted := s.sorted xs
    rw [hsplit] at hsorted
    have hmem : ∀ b, b ∈ xs ↔ b ∈ before ++ a :: after := by
      intro b
      rw [← hsplit]
      exact (s.perm xs).mem_iff.symm
    have ha : a ∈ xs := (hmem a).mpr (List.mem_append_right _ List.mem_cons_self)
    refine ⟨a,ha,hv,?_⟩
    intro b hb hfb
    rcases List.mem_append.mp ((hmem b).mp hb) with hb' | hb'
    · exact absurd (hbefore b hb') hfb
    · rcases List.mem_cons.mp hb' with rfl | hb'
      · exact Or.inl rfl
      · have hnot := (List.pairwise_cons.mp (List.pairwise_append.mp hsorted).2.1).1 b hb'
        have hfa : f a ≠ none := by rw [hv]; exact Option.some_ne_none v
        rcases htotal a ha b hb hfa hfb with heq | hless | hless
        · exact Or.inl heq.symm
        · exact Or.inr hless
        · exact absurd hless hnot

end First
end IngressGce
