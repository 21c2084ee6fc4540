import IngressGce.Cloud.Store

/-! # Items made by one client

For the specification alone, an item remembers whether the client under consideration
has created it. Only a creation sets the mark.
-/
namespace IngressGce
open Prog

structure Owned (α : Type) where
  object : α
  ours : Bool

namespace Store
variable {κ α : Type} [DecidableEq κ]

/-- The item exists, and the client has created it. -/
def Ours (w : Store κ (Owned α)) (k : κ) : Prop := ∃ x, w.items k = some x ∧ x.ours = true

def readObject {β : Type} (k : κ) (f : α → β) : Prog (Store κ (Owned α)) GoError β :=
  onItem k (fun x => (f x.object,some x))

def replaceObject (k : κ) (object : α) : Prog (Store κ (Owned α)) GoError Unit :=
  onItem k (fun x => ((),some { x with object := object }))

def createObject (k : κ) (object : α) : Prog (Store κ (Owned α)) GoError Unit :=
  insert k { object := object, ours := true }

def deleteObject (k : κ) : Prog (Store κ (Owned α)) GoError Unit := onItem k (fun _ => ((),none))

variable {k : κ} {w w' : Store κ (Owned α)}

theorem readObject_ensures {β : Type} (f : α → β) :
    Ensures (readObject k f) w (fun _ w' => w'.items = w.items) :=
  (onItem_served (fun x : Owned α => (f x.object,some x))).mono fun _ _ h =>
    ServedItem.unchanged (f := fun x : Owned α => f x.object) h

omit [DecidableEq κ] in
theorem ours_of_items (h : w'.items = w.items) {k : κ} : w'.Ours k ↔ w.Ours k := by
  unfold Ours
  rw [h]

theorem replaceObject_ensures (object : α) :
    Ensures (replaceObject k object) w (fun _ w' => ∀ k', w'.Ours k' → w.Ours k') := by
  refine (onItem_served _).mono ?_
  intro r w' h k' hours
  rcases h.items with hitems | ⟨x,hx,hitems⟩
  · exact (ours_of_items hitems).mp hours
  · obtain ⟨x',hx',hmark⟩ := hours
    rw [hitems] at hx'
    by_cases hk : k' = k
    · subst hk
      rw [Function.update_self] at hx'
      cases hx'
      exact ⟨x,hx,hmark⟩
    · rw [Function.update_of_ne hk] at hx'
      exact ⟨x',hx',hmark⟩

theorem createObject_ensures (object : α) :
    Ensures (createObject k object) w (fun _ w' => ∀ k', w'.Ours k' → w.Ours k' ∨ k' = k) := by
  refine (insert_served _).mono ?_
  rintro r w' ⟨_,_,hitems,_⟩ k' hours
  rcases hitems with hitems | ⟨_,hitems⟩
  · exact Or.inl ((ours_of_items hitems).mp hours)
  · by_cases hk : k' = k
    · exact Or.inr hk
    · obtain ⟨x,hx,hmark⟩ := hours
      rw [hitems,Function.update_of_ne hk] at hx
      exact Or.inl ⟨x,hx,hmark⟩

/-- A deletion touches one item, and removes it if it has touched it. An answer, also
that the item has not been found, means that the item is gone. -/
theorem deleteObject_ensures : Ensures (deleteObject k) w (fun r w' =>
    (w'.items = w.items ∨ w'.items = Function.update w.items k none) ∧
    (r = .ok () ∨ r = .error (.api statusNotFound) → w'.items k = none)) := by
  refine (onItem_served _).mono ?_
  intro r w' h
  refine ⟨?_,?_⟩
  · rcases h.items with hitems | ⟨x,_,hitems⟩
    · exact Or.inl hitems
    · exact Or.inr hitems
  · rintro (rfl | rfl)
    · obtain ⟨x,_,_,hitems⟩ := h.answer () rfl
      rw [hitems,Function.update_self]
    · have hnone := h.notFound rfl
      rcases h.failure _ rfl with hitems | ⟨x,_,hitems⟩
      · rw [hitems,hnone]
      · rw [hitems,Function.update_self]

end Store
end IngressGce
