import IngressGce.Program.SetUpdates
import Mathlib.Data.List.AList

/-! # Maps whose values are lists

A Go map with slices or sets as values. A key that is absent reads as the empty list.
-/
namespace IngressGce

abbrev ListMap (κ α : Type) := AList (fun _ : κ => List α)

variable {κ α : Type} [DecidableEq κ]

def ListMap.at (m : ListMap κ α) (k : κ) : List α := (m.lookup k).getD []

namespace ListMap

@[simp] theorem at_empty (k : κ) : ListMap.at (∅ : ListMap κ α) k = [] := rfl

theorem at_insert (m : ListMap κ α) (k k' : κ) (xs : List α) :
    ListMap.at (m.insert k xs) k' = if k' = k then xs else m.at k' := by
  unfold ListMap.at
  split
  · rename_i h
    rw [h,AList.lookup_insert]
    rfl
  · rename_i h
    rw [AList.lookup_insert_ne h]

/-- What a list of entries has for a key. -/
def listOf (entries : List (Sigma fun _ : κ => List α)) (k : κ) : List α := (entries.dlookup k).getD []

theorem listOf_entries (m : ListMap κ α) (k : κ) : listOf m.entries k = m.at k := rfl

theorem listOf_cons (k k' : κ) (xs : List α) (rest : List (Sigma fun _ : κ => List α)) :
    listOf (⟨k,xs⟩ :: rest) k' = if k' = k then xs else listOf rest k' := by
  unfold listOf
  split
  · rename_i h
    rw [h,List.dlookup_cons_eq]
    rfl
  · rename_i h
    rw [List.dlookup_cons_ne]
    exact h

theorem listOf_of_not_mem {entries : List (Sigma fun _ : κ => List α)} {k : κ} (h : k ∉ entries.keys) :
    listOf entries k = [] := by
  rw [listOf,List.dlookup_eq_none.mpr h]
  rfl

theorem listOf_perm {entries entries' : List (Sigma fun _ : κ => List α)} (hnodup : entries.NodupKeys)
    (h : entries.Perm entries') (k : κ) : listOf entries k = listOf entries' k := by
  rw [listOf,listOf,List.perm_dlookup k hnodup h]

/-- A range over the map, whatever its order, visits what the map has for each key. -/
theorem listOf_range (o : Iteration (Sigma fun _ : κ => List α)) (m : ListMap κ α) :
    (o.range m.entries).NodupKeys ∧ listOf (o.range m.entries) = m.at := by
  have hperm := o.perm m.entries
  have hnodup := (List.perm_nodupKeys hperm).mpr m.nodupKeys
  refine ⟨hnodup,?_⟩
  funext k
  exact listOf_perm hnodup hperm k

/-- One update for each entry. -/
def updates (op : SetOp) (entries : List (Sigma fun _ : κ => List α)) : List (SetUpdate κ α) :=
  entries.map (fun entry => ⟨op,entry.1,entry.2⟩)

theorem mentioned_updates {op : SetOp} {entries : List (Sigma fun _ : κ => List α)} (h : entries.NodupKeys)
    (op' : SetOp) (k : κ) :
    SetUpdate.mentioned op' (updates op entries) k = if op' = op then listOf entries k else [] := by
  induction entries with
  | nil => simp [updates,SetUpdate.mentioned,listOf]
  | cons entry rest ih =>
    obtain ⟨k',xs⟩ := entry
    obtain ⟨hk',hrest⟩ := List.nodupKeys_cons.mp h
    have hsplit : SetUpdate.mentioned op' (updates op (⟨k',xs⟩ :: rest)) k =
        (if op = op' ∧ k' = k then xs else []) ++ SetUpdate.mentioned op' (updates op rest) k := by
      unfold SetUpdate.mentioned updates
      rw [List.map_cons,List.filter_cons]
      by_cases heq : op = op' ∧ k' = k
      · simp [heq]
      · simp [heq]
    rw [hsplit,ih hrest,listOf_cons]
    by_cases hop : op' = op
    · by_cases hk : k = k'
      · subst hk
        simp [hop,listOf_of_not_mem hk']
      · simp [hop,hk,Ne.symm hk]
    · simp [hop,Ne.symm hop]

theorem apart_updates (op : SetOp) {entries : List (Sigma fun _ : κ => List α)} (h : entries.NodupKeys) :
    SetUpdate.Apart (updates op entries) := by
  intro k a hadd hremove
  rw [mentioned_updates h] at hadd hremove
  cases op with
  | union => simp at hremove
  | difference => simp at hadd

end ListMap
end IngressGce
