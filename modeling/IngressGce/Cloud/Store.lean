import IngressGce.Cloud.Errors
import IngressGce.Program.Stateful

/-! # Items of the cloud behind calls

A store keeps at most one item under a key. Every call is about one key; the faults say
which calls fail that could have been served, by the number of the call.
-/
namespace IngressGce
open Prog

structure Store (κ γ : Type) where
  items : κ → Option γ
  faults : ℕ → Option Fault
  clock : ℕ

namespace Store
variable {κ γ α : Type} [DecidableEq κ]

def put (w : Store κ γ) (k : κ) (g : Option γ) : Store κ γ :=
  { w with items := Function.update w.items k g }

def tick (w : Store κ γ) : Store κ γ := { w with clock := w.clock + 1 }

/-- No call fails that could be served. -/
def Reliable (w : Store κ γ) : Prop := ∀ n, w.faults n = none

/-- No call takes effect although it fails. -/
def FailsCleanly (w : Store κ γ) : Prop := ∀ n f, w.faults n = some f → f.applied = false

/-- A call. Its effect is an error, or an answer and what becomes of the item. -/
def call (k : κ) (effect : Option γ → Except GoError (α × Option γ)) : Prog (Store κ γ) GoError α := fun w =>
  match effect (w.items k), w.faults w.clock with
  | .ok (a,g), none => (.ok a,w.tick.put k g)
  | .error e, none => (.error e,w.tick)
  | .ok (_,g), some f => (.error f.error,if f.applied then w.tick.put k g else w.tick)
  | .error _, some f => (.error f.error,w.tick)

/-- A call about an item that has to exist. -/
def onItem (k : κ) (f : γ → α × Option γ) : Prog (Store κ γ) GoError α := call k (fun
  | none => .error (.api statusNotFound)
  | some g => .ok (f g))

/-- A call that makes an item, which must not exist. -/
def insert (k : κ) (g : γ) : Prog (Store κ γ) GoError Unit := call k (fun
  | none => .ok ((),some g)
  | some _ => .error (.api statusConflict))

variable {k : κ} {w w' : Store κ γ}

/-- What is known after a call: it took effect and was answered, or it failed, in which
case it may have taken effect as well. -/
structure Served (k : κ) (effect : Option γ → Except GoError (α × Option γ)) (w : Store κ γ)
    (r : Except GoError α) (w' : Store κ γ) : Prop where
  faults : w'.faults = w.faults
  answer : ∀ a, r = .ok a → ∃ g, effect (w.items k) = .ok (a,g) ∧ w'.items = Function.update w.items k g
  failure : ∀ e, r = .error e → w'.items = w.items ∨
    ∃ a g, effect (w.items k) = .ok (a,g) ∧ w'.items = Function.update w.items k g
  notFound : r = .error (.api statusNotFound) → effect (w.items k) = .error (.api statusNotFound)
  reliable : w.Reliable → ∀ a g, effect (w.items k) = .ok (a,g) → r = .ok a

omit [DecidableEq κ] in
theorem Reliable.of_faults (h : w.Reliable) (hf : w'.faults = w.faults) : w'.Reliable := by
  intro n
  rw [hf]
  exact h n

theorem call_clock (effect : Option γ → Except GoError (α × Option γ)) : (call k effect w).2.clock = w.clock + 1 := by
  unfold call
  cases effect (w.items k) with
  | error e => cases w.faults w.clock <;> rfl
  | ok answer =>
    cases w.faults w.clock with
    | none => rfl
    | some f =>
      dsimp only
      split <;> rfl

theorem call_served (effect : Option γ → Except GoError (α × Option γ)) :
    Ensures (call k effect) w (Served k effect w) := by
  have hfault : ∀ f : Fault, Except.error f.error ≠ (.error (.api statusNotFound) : Except GoError α) := by
    intro f h
    have hcode := f.not_notFound
    rw [Except.error.inj h,isHTTPErrorCode_api] at hcode
    cases hcode
  unfold Ensures call
  cases heffect : effect (w.items k) with
  | error e =>
    cases hplan : w.faults w.clock with
    | none =>
      refine ⟨rfl,nofun,fun _ _ => Or.inl rfl,?_,fun _ a g h => by rw [heffect] at h; cases h⟩
      intro h
      rw [heffect,Except.error.inj h]
    | some f =>
      exact ⟨rfl,nofun,fun _ _ => Or.inl rfl,fun h => absurd h (hfault f),fun h => by rw [h w.clock] at hplan; cases hplan⟩
  | ok answer =>
    obtain ⟨a,g⟩ := answer
    cases hplan : w.faults w.clock with
    | none =>
      refine ⟨rfl,?_,nofun,nofun,?_⟩
      · intro b hb
        obtain rfl : a = b := Except.ok.inj hb
        exact ⟨g,heffect,rfl⟩
      · intro _ b g' h
        rw [heffect] at h
        cases h
        rfl
    | some f =>
      have hunreliable : ¬w.Reliable := fun h => by rw [h w.clock] at hplan; cases hplan
      dsimp only
      split
      · exact ⟨rfl,nofun,fun _ _ => Or.inr ⟨a,g,heffect,rfl⟩,fun h => absurd h (hfault f),fun h => absurd h hunreliable⟩
      · exact ⟨rfl,nofun,fun _ _ => Or.inl rfl,fun h => absurd h (hfault f),fun h => absurd h hunreliable⟩

theorem FailsCleanly.call (h : w.FailsCleanly) (effect : Option γ → Except GoError (α × Option γ)) :
    Ensures (call k effect) w (fun r w' => ∀ e, r = .error e → w'.items = w.items) := by
  unfold Ensures Store.call
  cases heffect : effect (w.items k) with
  | error e => cases w.faults w.clock <;> exact fun _ _ => rfl
  | ok answer =>
    cases hfault : w.faults w.clock with
    | none => exact nofun
    | some f =>
      intro _ _
      dsimp only
      rw [h _ f hfault]
      rfl

/-- What is known after a call about an item that has to exist. -/
structure ServedItem (k : κ) (f : γ → α × Option γ) (w : Store κ γ) (r : Except GoError α)
    (w' : Store κ γ) : Prop where
  faults : w'.faults = w.faults
  answer : ∀ a, r = .ok a → ∃ g, w.items k = some g ∧ a = (f g).1 ∧ w'.items = Function.update w.items k (f g).2
  failure : ∀ e, r = .error e → w'.items = w.items ∨
    ∃ g, w.items k = some g ∧ w'.items = Function.update w.items k (f g).2
  notFound : r = .error (.api statusNotFound) → w.items k = none
  reliable : w.Reliable → ∀ g, w.items k = some g → r = .ok (f g).1

theorem onItem_served (f : γ → α × Option γ) : Ensures (onItem k f) w (ServedItem k f w) := by
  refine (call_served _).mono ?_
  intro r w' h
  cases hitem : w.items k with
  | none =>
    refine ⟨h.faults,?_,?_,fun _ => hitem,by simp [hitem]⟩
    · intro a ha
      obtain ⟨g,heffect,_⟩ := h.answer a ha
      rw [hitem] at heffect
      cases heffect
    · intro e he
      rcases h.failure e he with hsame | ⟨a,g,heffect,_⟩
      · exact Or.inl hsame
      · rw [hitem] at heffect
        cases heffect
  | some g =>
    refine ⟨h.faults,?_,?_,?_,?_⟩
    · intro a ha
      obtain ⟨g',heffect,hitems⟩ := h.answer a ha
      rw [hitem] at heffect
      obtain ⟨rfl,rfl⟩ := Prod.mk.inj (Except.ok.inj heffect)
      exact ⟨g,hitem,rfl,hitems⟩
    · intro e he
      rcases h.failure e he with hsame | ⟨a,g',heffect,hitems⟩
      · exact Or.inl hsame
      · rw [hitem] at heffect
        obtain ⟨rfl,rfl⟩ := Prod.mk.inj (Except.ok.inj heffect)
        exact Or.inr ⟨g,hitem,hitems⟩
    · intro hr
      have heffect := h.notFound hr
      rw [hitem] at heffect
      cases heffect
    · intro hw g' hg'
      apply h.reliable hw (f g').1 (f g').2
      rw [hg']

theorem onItem_ok_iff {f : γ → α × Option γ} {a : α} :
    (onItem k f w).1 = .ok a ↔ ∃ g, w.items k = some g ∧ w.faults w.clock = none ∧ (f g).1 = a := by
  unfold onItem call
  cases w.items k with
  | none => cases w.faults w.clock <;> simp
  | some g => cases w.faults w.clock <;> simp

theorem ServedItem.items {f : γ → α × Option γ} {r : Except GoError α} (h : ServedItem k f w r w') :
    w'.items = w.items ∨ ∃ g, w.items k = some g ∧ w'.items = Function.update w.items k (f g).2 := by
  cases r with
  | ok a =>
    obtain ⟨g,hg,_,hitems⟩ := h.answer a rfl
    exact Or.inr ⟨g,hg,hitems⟩
  | error e => exact h.failure e rfl

theorem ServedItem.existed {f : γ → α × Option γ} {r : Except GoError α} (h : ServedItem k f w r w') {k' : κ}
    (hk' : w'.items k' ≠ none) : w.items k' ≠ none := by
  rcases h.items with hitems | ⟨g,hg,hitems⟩
  · rwa [hitems] at hk'
  · by_cases heq : k' = k
    · rw [heq,hg]
      exact Option.some_ne_none g
    · rwa [hitems,Function.update_of_ne heq] at hk'

theorem ServedItem.unchanged {f : γ → α} {r : Except GoError α} (h : ServedItem k (fun g => (f g,some g)) w r w') :
    w'.items = w.items := by
  rcases h.items with hitems | ⟨g,hg,hitems⟩
  · exact hitems
  · rw [hitems,← hg,Function.update_eq_self]

theorem onItem_returns {f : γ → α × Option γ} {g : γ} (hw : w.Reliable) (hg : w.items k = some g) :
    Returns (onItem k f) w (fun a w' => w'.faults = w.faults ∧ a = (f g).1 ∧
      w'.items = Function.update w.items k (f g).2) := by
  have hserved := onItem_served (k := k) (w := w) f
  have hok := hserved.reliable hw g hg
  obtain ⟨g',hg',_,hitems⟩ := hserved.answer _ hok
  obtain rfl : g = g' := Option.some.inj (hg.symm.trans hg')
  exact ⟨_,hok,hserved.faults,rfl,hitems⟩

theorem onItem_reads {f : γ → α} {g : γ} (hw : w.Reliable) (hg : w.items k = some g) :
    Returns (onItem k (fun g => (f g,some g))) w (fun a w' => w'.faults = w.faults ∧ a = f g ∧
      w'.items = w.items) := by
  refine (onItem_returns hw hg).mono ?_
  rintro a w' ⟨hfaults,ha,hitems⟩
  refine ⟨hfaults,ha,?_⟩
  rw [hitems,← hg,Function.update_eq_self]

theorem insert_served (g : γ) : Ensures (insert k g) w (fun r w' => w'.faults = w.faults ∧
    (r = .ok () → w.items k = none ∧ w'.items = Function.update w.items k (some g)) ∧
    (w'.items = w.items ∨ w.items k = none ∧ w'.items = Function.update w.items k (some g)) ∧
    (w.Reliable → w.items k = none → r = .ok ())) := by
  refine (call_served _).mono ?_
  intro r w' h
  have hnew : ∀ a g', (match w.items k with
      | none => Except.ok ((),some g)
      | some _ => Except.error (GoError.api statusConflict)) = Except.ok (a,g') → w.items k = none ∧ g' = some g := by
    intro a g' heffect
    cases hitem : w.items k with
    | none =>
      rw [hitem] at heffect
      exact ⟨rfl,(Prod.mk.inj (Except.ok.inj heffect)).2.symm⟩
    | some old =>
      rw [hitem] at heffect
      cases heffect
  refine ⟨h.faults,?_,?_,?_⟩
  · intro hok
    obtain ⟨g',heffect,hitems⟩ := h.answer () hok
    obtain ⟨hnone,rfl⟩ := hnew () g' heffect
    exact ⟨hnone,hitems⟩
  · cases r with
    | ok a =>
      obtain ⟨g',heffect,hitems⟩ := h.answer a rfl
      obtain ⟨hnone,rfl⟩ := hnew a g' heffect
      exact Or.inr ⟨hnone,hitems⟩
    | error e =>
      rcases h.failure e rfl with hitems | ⟨a,g',heffect,hitems⟩
      · exact Or.inl hitems
      · obtain ⟨hnone,rfl⟩ := hnew a g' heffect
        exact Or.inr ⟨hnone,hitems⟩
  · intro hw hnone
    apply h.reliable hw () (some g)
    rw [hnone]

end Store
end IngressGce
