import IngressGce.Cloud.Owned

/-! # Two runs of a program

What a program reads shows when two of its runs are compared: from states that agree on
what it reads they return the same. The rules go along the program; for a store the runs
are compared at one key.
-/
namespace IngressGce
namespace Prog
variable {σ τ ε ε' α β : Type} {R : σ → σ → Prop} {s s' : σ}

/-- The runs from two states return the same and end in related states. -/
def Alike (R : σ → σ → Prop) (m : Prog σ ε α) (s s' : σ) : Prop := (m s).1 = (m s').1 ∧ R (m s).2 (m s').2

theorem alike_pure (a : α) (h : R s s') : Alike R (pure a : Prog σ ε α) s s' := ⟨rfl,h⟩

theorem alike_fail (e : ε) (h : R s s') : Alike R (fail e : Prog σ ε α) s s' := ⟨rfl,h⟩

theorem Alike.bind {m : Prog σ ε α} {f : α → Prog σ ε β} (hm : Alike R m s s')
    (hf : ∀ a t t', (m s).1 = .ok a → R t t' → Alike R (f a) t t') : Alike R (m >>= f) s s' := by
  obtain ⟨hsame,hrel⟩ := hm
  change (andThen m f s).1 = (andThen m f s').1 ∧ R (andThen m f s).2 (andThen m f s').2
  unfold andThen
  cases hrun : m s with
  | mk r t =>
    cases hrun' : m s' with
    | mk r' t' =>
      rw [hrun,hrun'] at hsame hrel
      obtain rfl : r = r' := hsame
      cases r with
      | error e => exact ⟨rfl,hrel⟩
      | ok a => exact hf a t t' (by rw [hrun]) hrel

theorem Alike.attempt {m : Prog σ ε α} (hm : Alike R m s s') : Alike R (attempt m : Prog σ ε' (Except ε α)) s s' :=
  ⟨congrArg Except.ok hm.1,hm.2⟩

theorem Alike.onlyIf {m : Prog σ ε Unit} (c : Bool) (h : R s s') (hm : Alike R m s s') : Alike R (onlyIf c m) s s' := by
  cases c with
  | false => exact alike_pure () h
  | true => exact hm

theorem Alike.onPart {S : τ → τ → Prop} {get : σ → τ} {put : τ → σ → σ} {m : Prog τ ε α} (hm : Alike S m (get s) (get s'))
    (hput : ∀ t t', S t t' → R (put t s) (put t' s')) : Alike R (onPart get put m) s s' :=
  ⟨hm.1,hput _ _ hm.2⟩

end Prog

namespace Store
open Prog
variable {κ γ α : Type} [DecidableEq κ] {k : κ} {w w' : Store κ γ}

/-- The stores agree on one item and on what happens to the calls. -/
structure AgreeAt (k : κ) (w w' : Store κ γ) : Prop where
  item : w.items k = w'.items k
  faults : w.faults = w'.faults
  clock : w.clock = w'.clock

/-- A call reads one item. -/
theorem call_alike (h : AgreeAt k w w') (effect : Option γ → Except GoError (α × Option γ)) :
    Alike (AgreeAt k) (call k effect) w w' := by
  obtain ⟨hitem,hfaults,hclock⟩ := h
  have htick : AgreeAt k w.tick w'.tick := ⟨hitem,hfaults,congrArg (· + 1) hclock⟩
  have hput : ∀ g, AgreeAt k (w.tick.put k g) (w'.tick.put k g) := by
    intro g
    refine ⟨?_,hfaults,congrArg (· + 1) hclock⟩
    change Function.update w.items k g k = Function.update w'.items k g k
    rw [Function.update_self,Function.update_self]
  unfold Alike call
  rw [← hitem,← hfaults,← hclock]
  cases effect (w.items k) with
  | error e => cases w.faults w.clock <;> exact ⟨rfl,htick⟩
  | ok answer =>
    cases w.faults w.clock with
    | none => exact ⟨rfl,hput answer.2⟩
    | some f =>
      refine ⟨rfl,?_⟩
      dsimp only
      split
      · exact hput answer.2
      · exact htick

/-- A reliable store says that an item is absent. -/
theorem onItem_absent {f : γ → α × Option γ} (hw : w.Reliable) (hk : w.items k = none) :
    Ensures (onItem k f) w (fun r w' => r = .error (.api statusNotFound) ∧ w'.faults = w.faults ∧ w'.items = w.items) := by
  unfold Ensures onItem call
  rw [hk,hw w.clock]
  exact ⟨rfl,rfl,rfl⟩

theorem insert_returns {g : γ} (hw : w.Reliable) (hk : w.items k = none) :
    Returns (insert k g) w (fun _ w' => w'.faults = w.faults ∧ w'.items = Function.update w.items k (some g)) := by
  unfold Returns Ensures insert call
  rw [hk,hw w.clock]
  exact ⟨(),rfl,rfl,rfl⟩

end Store
end IngressGce
