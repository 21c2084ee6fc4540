import IngressGce.Naming.GoString
import Mathlib.Data.List.AList

/-! # Rule maps

A rule map has for a host its paths, and for a path a backend, which may be nil. The
default backend stands under a reserved word, as a host and as a path.
-/
namespace IngressGce

def defaultBackendKey : Str := "DefaultBackend".toList
def defaultHost : Str := "*".toList
def defaultPath : Str := "/*".toList

abbrev PathMap (β : Type) := AList (fun _ : Str => Option β)

def PathMap.read {β : Type} (m : PathMap β) (path : Str) : Option (Option β) := m.lookup path

theorem PathMap.read_singleton {β : Type} (path : Str) (d : Option β) :
    PathMap.read (AList.singleton path d) path = some d := List.dlookup_cons_eq _ _ _

theorem PathMap.read_singleton_of_ne {β : Type} {path path' : Str} (h : path' ≠ path) (d : Option β) :
    PathMap.read (AList.singleton path d) path' = none := by
  let entry : Sigma (fun _ : Str => Option β) := ⟨path,d⟩
  exact List.dlookup_cons_ne [] entry h

abbrev GCEURLMap (β : Type) := AList (fun _ : Str => PathMap β)

namespace GCEURLMap
variable {β : Type} (g : GCEURLMap β)

/-- The default backend and the map after the read, which is destructive. -/
def getDefaultBackend : Option β × GCEURLMap β :=
  match g.lookup defaultBackendKey with
  | some h => ((h.lookup defaultBackendKey).join,g.erase defaultBackendKey)
  | none => (none,g)

def putDefaultBackend (d : Option β) : GCEURLMap β :=
  g.insert defaultBackendKey (AList.singleton defaultBackendKey d)

/-- The map as a function. Maps with the same meaning are equal to the program. -/
def meaning (host : Str) : Option (Str → Option (Option β)) := (g.lookup host).map PathMap.read

/-- The backend stands somewhere in the map. -/
def Has (be : β) : Prop := ∃ host paths path, g.meaning host = some paths ∧ paths path = some (some be)

theorem getDefaultBackend_fst :
    g.getDefaultBackend.1 = ((g.meaning defaultBackendKey).bind (fun paths => paths defaultBackendKey)).join := by
  unfold getDefaultBackend meaning
  cases g.lookup defaultBackendKey with
  | none => rfl
  | some h => rfl

theorem lookup_getDefaultBackend (host : Str) :
    g.getDefaultBackend.2.lookup host = if host = defaultBackendKey then none else g.lookup host := by
  have herase : g.getDefaultBackend.2.lookup host = (g.erase defaultBackendKey).lookup host := by
    unfold getDefaultBackend
    split
    · rfl
    · rename_i hg
      by_cases heq : host = defaultBackendKey
      · rw [heq,hg,AList.lookup_erase]
      · rw [AList.lookup_erase_ne heq]
  rw [herase]
  by_cases heq : host = defaultBackendKey
  · rw [if_pos heq,heq,AList.lookup_erase]
  · rw [if_neg heq,AList.lookup_erase_ne heq]

theorem meaning_getDefaultBackend (host : Str) :
    g.getDefaultBackend.2.meaning host = if host = defaultBackendKey then none else g.meaning host := by
  rw [meaning,lookup_getDefaultBackend]
  split
  · rfl
  · rfl

theorem has_of_getDefaultBackend {be : β} (h : g.getDefaultBackend.1 = some be ∨ g.getDefaultBackend.2.Has be) :
    g.Has be := by
  rcases h with h | ⟨host,paths,path,hpaths,hpath⟩
  · rw [getDefaultBackend_fst] at h
    obtain ⟨paths,hpaths,hpath⟩ := Option.bind_eq_some_iff.mp (Option.join_eq_some_iff.mp h)
    exact ⟨defaultBackendKey,paths,defaultBackendKey,hpaths,hpath⟩
  · rw [meaning_getDefaultBackend] at hpaths
    split at hpaths
    · cases hpaths
    · exact ⟨host,paths,path,hpaths,hpath⟩

@[simp] theorem meaning_putDefaultBackend_self (d : Option β) :
    (g.putDefaultBackend d).meaning defaultBackendKey = some (PathMap.read (AList.singleton defaultBackendKey d)) := by
  rw [meaning,putDefaultBackend,AList.lookup_insert]
  rfl

theorem meaning_putDefaultBackend_of_ne {d : Option β} {host : Str} (h : host ≠ defaultBackendKey) :
    (g.putDefaultBackend d).meaning host = g.meaning host := by
  rw [meaning,putDefaultBackend,AList.lookup_insert_ne h]
  rfl

theorem meaning_eq_none {host : Str} : g.meaning host = none ↔ host ∉ g := by
  rw [meaning,Option.map_eq_none_iff,AList.lookup_eq_none]

end GCEURLMap
end IngressGce
