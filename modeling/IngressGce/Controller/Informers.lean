import IngressGce.Controller.Sync
import IngressGce.Controller.Traversals

/-! # The informers

An informer puts a change into its store and then tells each of its listeners, which
handle what they are told later on and in order. The Services and the Ingresses have
informers of their own.
-/
namespace IngressGce
open Kube

/-- A Service as the API server accepts it. -/
structure StoredService extends NEG.NamedService where
  isNamespace : IsNamespace namespaced
  isName : '/' ∉ name

def StoredService.key (svc : StoredService) : Str := metaNamespaceKey svc.namespaced svc.name

theorem StoredService.key_eq (svc : StoredService) : svc.key = NEG.serviceKeyFunc svc.namespaced svc.name :=
  if_neg svc.isNamespace.1

/-- A Service, and an Ingress that refers to its first port. -/
def webService : StoredService := { NEG.twoPorts with isNamespace := ⟨by decide,by decide⟩, isName := by decide }

def webIngress : Ingress := ⟨"default".toList,"a".toList,∅,some ⟨"web".toList,.int 80⟩,[]⟩

namespace IngressStore
variable (store : IngressStore)

/-- The Ingresses with other keys. -/
def others (key : Str) : List Ingress := store.items.filter (fun ing => ing.key ≠ key)

theorem key_notMem_others (key : Str) : key ∉ (store.others key).map Ingress.key := by
  simp [others]

theorem nodup_others (key : Str) : ((store.others key).map Ingress.key).Nodup :=
  store.distinct.sublist (List.filter_sublist.map Ingress.key)

def remove (key : Str) : IngressStore := { items := store.others key, distinct := store.nodup_others key }

def put (ing : Ingress) : IngressStore where
  items := ing :: store.others ing.key
  distinct := List.nodup_cons.mpr ⟨store.key_notMem_others ing.key,store.nodup_others ing.key⟩

/-- A store is what it has for a key and the rest. -/
theorem items_perm (key : Str) : store.items.Perm ((store.getByKey key).toList ++ store.others key) := by
  have hdistinct := store.distinct
  unfold getByKey others
  generalize store.items = items at hdistinct
  induction items with
  | nil => exact .rfl
  | cons first rest ih =>
    obtain ⟨hfirst,hrest⟩ := List.nodup_cons.mp hdistinct
    by_cases hkey : first.key = key
    · have hothers : rest.filter (fun ing => ing.key ≠ key) = rest := by
        apply List.filter_eq_self.mpr
        intro ing hing
        apply decide_eq_true
        intro hsame
        exact hfirst (List.mem_map.mpr ⟨ing,hing,hsame.trans hkey.symm⟩)
      rw [List.find?_cons_of_pos (by simpa using hkey),List.filter_cons_of_neg (by simpa using hkey),hothers]
      exact .rfl
    · rw [List.find?_cons_of_neg (by simpa using hkey),List.filter_cons_of_pos (by simpa using hkey)]
      exact ((ih hrest).cons first).trans List.perm_middle.symm

theorem find?_others {key key' : Str} (h : key ≠ key') :
    (store.others key').find? (fun ing => ing.key = key) = store.getByKey key := by
  unfold others getByKey
  rw [List.find?_filter]
  congr 1
  funext ing
  by_cases hkey : ing.key = key
  · simp [hkey,h]
  · simp [hkey]

theorem getByKey_put (ing : Ingress) (key : Str) :
    (store.put ing).getByKey key = if key = ing.key then some ing else store.getByKey key := by
  rw [getByKey,put]
  split
  · next heq => exact List.find?_cons_of_pos (by simp [heq])
  · next hne =>
    rw [List.find?_cons_of_neg (by simpa using Ne.symm hne)]
    exact store.find?_others hne

theorem getByKey_remove (key' key : Str) :
    (store.remove key').getByKey key = if key = key' then none else store.getByKey key := by
  rw [getByKey,remove]
  split
  · next heq => simp [others,heq]
  · next hne => exact store.find?_others hne

end IngressStore

/-- The stores of the informers. The order in which a store lists its objects is left
open; nothing that is read from a list depends on it. -/
structure Stores where
  services : Str → Option StoredService
  keyed : ∀ {key : Str} {svc : StoredService}, services key = some svc → svc.key = key
  ingresses : IngressStore

/-- What happens to an object. The last state of an object that was deleted may be
unknown to the informer, which then passes on another kind of object. -/
inductive Change
  | putService (svc : StoredService)
  | deleteService (key : Str)
  | putIngress (ing : Ingress)
  | deleteIngress (key : Str) (stateUnknown : Bool)

/-- What the listeners are told: the object before and after. -/
structure ServiceNote where
  old : Option StoredService
  cur : Option StoredService

structure IngressNote where
  old : Option Ingress
  cur : Option Ingress
  stateUnknown : Bool

namespace Stores

def empty : Stores where
  services _ := none
  keyed h := nomatch h
  ingresses := { items := [], distinct := List.nodup_nil }

def putService (w : Stores) (svc : StoredService) : Stores :=
  { w with
    services := Function.update w.services svc.key (some svc)
    keyed := by
      intro key svc' h
      rw [Function.update_apply] at h
      split at h
      · next heq => exact (Option.some.inj h) ▸ heq.symm
      · exact w.keyed h }

def deleteService (w : Stores) (key : Str) : Stores :=
  { w with
    services := Function.update w.services key none
    keyed := by
      intro key' svc h
      rw [Function.update_apply] at h
      split at h
      · cases h
      · exact w.keyed h }

def apply (w : Stores) : Change → Stores
  | .putService svc => w.putService svc
  | .deleteService key => w.deleteService key
  | .putIngress ing => { w with ingresses := w.ingresses.put ing }
  | .deleteIngress key _ => { w with ingresses := w.ingresses.remove key }

end Stores

/-- The stores and what the listeners of a controller have not handled yet. -/
structure Informers where
  stores : Stores
  svcNotes : List ServiceNote
  ingNotes : List IngressNote

namespace Informers

def start : Informers := { stores := .empty, svcNotes := [], ingNotes := [] }

/-- An object that is not there can not be deleted. -/
def change (i : Informers) (c : Change) : Informers :=
  match c with
  | .putService svc =>
    { i with stores := i.stores.apply c, svcNotes := i.svcNotes ++ [⟨i.stores.services svc.key,some svc⟩] }
  | .deleteService key =>
    match i.stores.services key with
    | none => i
    | some old => { i with stores := i.stores.apply c, svcNotes := i.svcNotes ++ [⟨some old,none⟩] }
  | .putIngress ing =>
    { i with
      stores := i.stores.apply c
      ingNotes := i.ingNotes ++ [⟨i.stores.ingresses.getByKey ing.key,some ing,false⟩] }
  | .deleteIngress key stateUnknown =>
    match i.stores.ingresses.getByKey key with
    | none => i
    | some old => { i with stores := i.stores.apply c, ingNotes := i.ingNotes ++ [⟨some old,none,stateUnknown⟩] }

/-- All that is still to be handled. -/
def notes (i : Informers) : List (ServiceNote ⊕ IngressNote) := i.svcNotes.map .inl ++ i.ingNotes.map .inr

end Informers

/-- What a change does to the stores, and the note that tells about it. -/
inductive Stores.Changes (w : Stores) : Change → ServiceNote ⊕ IngressNote → Stores → Prop
  | putService (svc : StoredService) :
    Changes w (.putService svc) (.inl ⟨w.services svc.key,some svc⟩) (w.putService svc)
  | deleteService {key : Str} {old : StoredService} (h : w.services key = some old) :
    Changes w (.deleteService key) (.inl ⟨some old,none⟩) (w.deleteService key)
  | putIngress (ing : Ingress) :
    Changes w (.putIngress ing) (.inr ⟨w.ingresses.getByKey ing.key,some ing,false⟩)
      { w with ingresses := w.ingresses.put ing }
  | deleteIngress {key : Str} {old : Ingress} (h : w.ingresses.getByKey key = some old) (stateUnknown : Bool) :
    Changes w (.deleteIngress key stateUnknown) (.inr ⟨some old,none,stateUnknown⟩)
      { w with ingresses := w.ingresses.remove key }

namespace Informers
variable {i i' : Informers}

theorem mem_notes_of_service {n : ServiceNote} (hsvc : i'.svcNotes = i.svcNotes ++ [n]) (hing : i'.ingNotes = i.ingNotes)
    (m : ServiceNote ⊕ IngressNote) : m ∈ i'.notes ↔ m ∈ i.notes ∨ m = .inl n := by
  unfold notes
  rw [hsvc,hing,List.map_append,List.mem_append,List.mem_append,List.mem_append,List.map_singleton,List.mem_singleton]
  exact or_right_comm

theorem mem_notes_of_ingress {n : IngressNote} (hsvc : i'.svcNotes = i.svcNotes) (hing : i'.ingNotes = i.ingNotes ++ [n])
    (m : ServiceNote ⊕ IngressNote) : m ∈ i'.notes ↔ m ∈ i.notes ∨ m = .inr n := by
  unfold notes
  rw [hsvc,hing,List.map_append,List.mem_append,List.mem_append,List.mem_append,List.map_singleton,List.mem_singleton]
  exact or_assoc.symm

/-- A change is made known, or there is none. -/
theorem change_cases (i : Informers) (c : Change) : i.change c = i ∨
    ∃ n, i.stores.Changes c n (i.change c).stores ∧ ∀ m, m ∈ (i.change c).notes ↔ m ∈ i.notes ∨ m = n := by
  cases c with
  | putService svc => exact Or.inr ⟨_,.putService svc,mem_notes_of_service rfl rfl⟩
  | deleteService key =>
    unfold Informers.change
    dsimp only
    split
    · exact Or.inl rfl
    · next old hold => exact Or.inr ⟨_,.deleteService hold,mem_notes_of_service rfl rfl⟩
  | putIngress ing => exact Or.inr ⟨_,.putIngress ing,mem_notes_of_ingress rfl rfl⟩
  | deleteIngress key stateUnknown =>
    unfold Informers.change
    dsimp only
    split
    · exact Or.inl rfl
    · next old hold => exact Or.inr ⟨_,.deleteIngress hold stateUnknown,mem_notes_of_ingress rfl rfl⟩

end Informers
end IngressGce
