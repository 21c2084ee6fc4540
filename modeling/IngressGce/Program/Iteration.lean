import Mathlib.Data.List.AList
import Mathlib.Data.List.Perm.Basic

/-! # Iteration over maps and sets

A range over a Go map visits every entry once, in an order that the program can not
rely on. An `Iteration` stands for that order: it decides in which sequence given
elements are visited.
-/
namespace IngressGce

structure Iteration (α : Type) where
  range : List α → List α
  perm : ∀ xs, (range xs).Perm xs

namespace Iteration
variable {α : Type}

def inOrder : Iteration α := ⟨id,fun _ => .rfl⟩

def backwards : Iteration α := ⟨List.reverse,List.reverse_perm⟩

@[simp] theorem mem_range {o : Iteration α} {xs : List α} {a : α} : a ∈ o.range xs ↔ a ∈ xs :=
  (o.perm xs).mem_iff

theorem nodup_range {o : Iteration α} {xs : List α} : (o.range xs).Nodup ↔ xs.Nodup :=
  (o.perm xs).nodup_iff

end Iteration
end IngressGce
