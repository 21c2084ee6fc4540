import IngressGce.Program.Iteration
import Mathlib.Data.List.Induction
import Mathlib.Data.List.Nodup

/-! # Loops that fill a map

A loop over a list writes some of its elements into a map, and a later write replaces
an earlier one under the same key. What the map has for a key is then decided by the
last element that is written there, and the elements before it.
-/
namespace IngressGce
variable {α κ ν μ : Type} [DecidableEq κ]

/-- The last element written under a key, with the elements before it. -/
def lastWrite (key : α → Option κ) (k : κ) : List α → Option (List α × α)
  | [] => none
  | a :: rest =>
    match lastWrite key k rest with
    | some (before,b) => some (a :: before,b)
    | none => if key a = some k then some ([],a) else none

variable {key : α → Option κ} {k : κ}

theorem lastWrite_concat (xs : List α) (a : α) :
    lastWrite key k (xs ++ [a]) = if key a = some k then some (xs,a) else lastWrite key k xs := by
  induction xs with
  | nil => rfl
  | cons x rest ih =>
    rw [List.cons_append,lastWrite,ih]
    by_cases h : key a = some k
    · rw [if_pos h,if_pos h]
    · rw [if_neg h,if_neg h]
      rfl

theorem lastWrite_eq_none {xs : List α} : lastWrite key k xs = none ↔ ∀ a ∈ xs, key a ≠ some k := by
  induction xs using List.reverseRecOn with
  | nil => simp [lastWrite]
  | append_singleton xs a ih =>
    rw [lastWrite_concat]
    by_cases h : key a = some k
    · simp [h]
    · simp [h,ih,or_imp,forall_and]

theorem lastWrite_spec {xs before : List α} {a : α} (h : lastWrite key k xs = some (before,a)) :
    a ∈ xs ∧ key a = some k := by
  induction xs using List.reverseRecOn with
  | nil => cases h
  | append_singleton xs b ih =>
    rw [lastWrite_concat] at h
    by_cases hb : key b = some k
    · rw [if_pos hb] at h
      cases h
      exact ⟨List.mem_append_right _ List.mem_cons_self,hb⟩
    · rw [if_neg hb] at h
      obtain ⟨hmem,hkey⟩ := ih h
      exact ⟨List.mem_append_left _ hmem,hkey⟩

/-- The map has been filled from the list. Only `obs` of its values is looked at. -/
def Written (obs : ν → μ) (key : α → Option κ) (value : List α → α → μ) (xs : List α)
    (m : AList (fun _ : κ => ν)) : Prop :=
  ∀ k, (m.lookup k).map obs = (lastWrite key k xs).map (fun e => value e.1 e.2)

namespace Written
variable {obs : ν → μ} {value : List α → α → μ} {xs : List α} {m : AList (fun _ : κ => ν)}

theorem nil : Written obs key value [] ∅ := fun _ => rfl

theorem insert (h : Written obs key value xs m) {a : α} {v : ν} (hkey : key a = some k) (hv : obs v = value xs a) :
    Written obs key value (xs ++ [a]) (m.insert k v) := by
  intro k'
  rw [lastWrite_concat,hkey]
  by_cases hk : k = k'
  · subst hk
    simp [hv]
  · rw [if_neg (fun heq => hk (Option.some.inj heq)),AList.lookup_insert_ne (Ne.symm hk)]
    exact h k'

theorem skip (h : Written obs key value xs m) {a : α} (hkey : key a = none) :
    Written obs key value (xs ++ [a]) m := by
  intro k'
  rw [lastWrite_concat,hkey,if_neg nofun]
  exact h k'

end Written

/-! ## Maps that hold the elements themselves -/

/-- The last element with a given key. -/
def lastWith (keyOf : α → κ) (k : κ) (xs : List α) : Option α := xs.reverse.find? (fun a => keyOf a = k)

section LastWith
variable {keyOf : α → κ}

theorem lastWith_append (xs ys : List α) :
    lastWith keyOf k (xs ++ ys) = (lastWith keyOf k ys).or (lastWith keyOf k xs) := by
  rw [lastWith,List.reverse_append,List.find?_append]
  rfl

theorem lastWith_spec {xs : List α} {a : α} (h : lastWith keyOf k xs = some a) : a ∈ xs ∧ keyOf a = k := by
  unfold lastWith at h
  have hkey := List.find?_some h
  exact ⟨List.mem_reverse.mp (List.mem_of_find?_eq_some h),of_decide_eq_true hkey⟩

theorem lastWith_isSome {xs : List α} {a : α} (ha : a ∈ xs) : ∃ b, lastWith keyOf (keyOf a) xs = some b := by
  apply Option.isSome_iff_exists.mp
  apply List.find?_isSome.mpr
  exact ⟨a,List.mem_reverse.mpr ha,decide_eq_true rfl⟩

theorem lastWith_map {γ : Type} (f : γ → α) (xs : List γ) :
    lastWith keyOf k (xs.map f) = (lastWith (fun c => keyOf (f c)) k xs).map f := by
  rw [lastWith,← List.map_reverse,List.find?_map]
  rfl

/-- The last element is that of some part. -/
theorem lastWith_flatMap {γ : Type} {f : γ → List α} {xs : List γ} {a : α} (h : lastWith keyOf k (xs.flatMap f) = some a) :
    ∃ x ∈ xs, lastWith keyOf k (f x) = some a := by
  induction xs with
  | nil => cases h
  | cons x rest ih =>
    rw [List.flatMap_cons,lastWith_append] at h
    rcases Option.or_eq_some_iff.mp h with hrest | ⟨_,hx⟩
    · obtain ⟨y,hy,hlast⟩ := ih hrest
      exact ⟨y,List.mem_cons_of_mem _ hy,hlast⟩
    · exact ⟨x,List.mem_cons_self,hx⟩

theorem lookup_foldl_insert (xs : List α) (m : AList (fun _ : κ => α)) :
    (xs.foldl (fun m a => m.insert (keyOf a) a) m).lookup k = (lastWith keyOf k xs).or (m.lookup k) := by
  induction xs using List.reverseRecOn with
  | nil => rfl
  | append_singleton xs a ih =>
    rw [List.foldl_append,lastWith_append]
    by_cases h : keyOf a = k
    · subst h
      simp [lastWith]
    · simp [lastWith,AList.lookup_insert_ne (Ne.symm h),h,ih]

end LastWith

theorem mapM_returns_iff {ρ : Type} {f : α → Option ρ} {xs : List α} :
    (∃ ys, xs.mapM f = some ys) ↔ ∀ x ∈ xs, ∃ y, f x = some y := by
  induction xs with
  | nil => simp
  | cons x rest ih =>
    rw [List.forall_mem_cons,← ih]
    cases hx : f x with
    | none => simp [hx]
    | some y =>
      cases hrest : rest.mapM f with
      | none => simp [hx,hrest]
      | some ys => simp [hx,hrest]

theorem mem_mapM_iff {ρ : Type} {f : α → Option ρ} {xs : List α} {ys : List ρ} {y : ρ} (h : xs.mapM f = some ys) :
    y ∈ ys ↔ ∃ x ∈ xs, f x = some y := by
  induction xs generalizing ys with
  | nil =>
    cases h
    simp
  | cons x rest ih =>
    rw [List.mapM_cons] at h
    obtain ⟨z,hz,h⟩ := Option.bind_eq_some_iff.mp h
    obtain ⟨zs,hzs,h⟩ := Option.bind_eq_some_iff.mp h
    obtain rfl := Option.some.inj h
    rw [List.mem_cons,List.exists_mem_cons_iff,hz,ih hzs,Option.some.injEq,eq_comm]

theorem eq_map_of_mapM {ρ : Type} {f : α → Option ρ} {r : α → ρ} {xs : List α} {ys : List ρ}
    (h : xs.mapM f = some ys) (hr : ∀ x ∈ xs, ∀ y, f x = some y → y = r x) : ys = xs.map r := by
  induction xs generalizing ys with
  | nil =>
    cases h
    rfl
  | cons x rest ih =>
    cases hx : f x with
    | none => simp [hx] at h
    | some y =>
      cases hrest : rest.mapM f with
      | none => simp [hx,hrest] at h
      | some zs =>
        obtain rfl : y :: zs = ys := by simpa [hx,hrest] using h
        rw [List.map_cons,hr x List.mem_cons_self y hx,ih hrest (fun x hx => hr x (List.mem_cons_of_mem _ hx))]

/-- What a range over a map makes of its keys has one element for a key of the map. -/
theorem filter_map_of_nodup {ρ : Type} {ks : List κ} (h : ks.Nodup) {r : κ → ρ} {q : ρ → Bool} (k : κ)
    (hq : ∀ k' ∈ ks, q (r k') = true ↔ k' = k) : (ks.map r).filter q = if k ∈ ks then [r k] else [] := by
  induction ks with
  | nil => rfl
  | cons k' rest ih =>
    obtain ⟨hk',hrest⟩ := List.nodup_cons.mp h
    have hih := ih hrest (fun k hk => hq k (List.mem_cons_of_mem _ hk))
    have hhead := hq k' List.mem_cons_self
    rw [List.map_cons,List.filter_cons,hih]
    by_cases heq : k' = k
    · subst heq
      simp [hhead,hk']
    · simp [hhead,heq,Ne.symm heq]

end IngressGce
