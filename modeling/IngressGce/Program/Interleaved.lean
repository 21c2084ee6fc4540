import IngressGce.Program.Stateful
import Mathlib.Logic.Relation

/-! # Programs in steps, among others

A program in steps leaves room for others between any two of its steps. What the others
may do is given by a relation, and a step that takes a lock waits until they have
released it. An assertion that the others can not falsify is carried from one step to the
next as if there were no others.
-/
namespace IngressGce

/-- What is left to do. A step acts on the state, and what follows depends on the state
that the step has found. -/
inductive Proc (σ α : Type)
  | done (a : α)
  | step (locking : Bool) (effect : σ → σ) (next : σ → Proc σ α)

/-- What the others may do to the state, and when they do not have the lock. -/
structure Others (σ : Type) where
  acts : σ → σ → Prop
  free : σ → Prop

def Others.none {σ : Type} : Others σ where
  acts _ _ := False
  free _ := True

namespace Proc
variable {σ α β : Type}

def andThen : Proc σ α → (α → Proc σ β) → Proc σ β
  | done a, f => f a
  | step locking effect next, f => step locking effect (fun s => (next s).andThen f)

/-- The outcome if nobody else acts. -/
def run : Proc σ α → σ → α × σ
  | done a, s => (a,s)
  | step _ effect next, s => (next s).run (effect s)

theorem run_andThen (p : Proc σ α) (f : α → Proc σ β) (s : σ) :
    (p.andThen f).run s = (f (p.run s).1).run (p.run s).2 := by
  induction p generalizing s with
  | done a => rfl
  | step locking effect next ih => exact ih s (effect s)

/-- A step of the process, or one of the others. -/
inductive Moves (o : Others σ) : Proc σ α × σ → Proc σ α × σ → Prop
  | own {locking : Bool} {effect : σ → σ} {next : σ → Proc σ α} {s : σ} (h : locking = true → o.free s) :
    Moves o (step locking effect next,s) (next s,effect s)
  | other {p : Proc σ α} {s s' : σ} (h : o.acts s s') : Moves o (p,s) (p,s')

/-- Some interleaving leads from one configuration to the other. -/
def Reaches (o : Others σ) : Proc σ α × σ → Proc σ α × σ → Prop := Relation.ReflTransGen (Moves o)

/-- A process that nobody disturbs ends as `run` says. -/
theorem reaches_run (p : Proc σ α) (s : σ) : Reaches .none (p,s) (done (p.run s).1,(p.run s).2) := by
  induction p generalizing s with
  | done a => exact .refl
  | step locking effect next ih => exact .head (Moves.own fun _ => trivial) (ih s (effect s))

/-- A configuration of a sequence is one of the first process, or one of the second after
the first is done. -/
theorem Reaches.of_andThen {o : Others σ} {p : Proc σ α} {f : α → Proc σ β} {s s' : σ} {q : Proc σ β}
    (h : Reaches o (p.andThen f,s) (q,s')) :
    (∃ p', q = p'.andThen f ∧ Reaches o (p,s) (p',s')) ∨
    ∃ a s₁, Reaches o (p,s) (done a,s₁) ∧ Reaches o (f a,s₁) (q,s') := by
  generalize htarget : (q,s') = target at h
  induction h generalizing q s' with
  | refl =>
    obtain ⟨rfl,rfl⟩ := Prod.mk.inj htarget
    exact Or.inl ⟨p,rfl,.refl⟩
  | @tail middle _ _ hmove ih =>
    subst htarget
    obtain ⟨q₁,s₁⟩ := middle
    rcases ih rfl with ⟨p',rfl,hp⟩ | ⟨a,s₂,hp,hf⟩
    · cases p' with
      | done a => exact Or.inr ⟨a,s₁,hp,.single hmove⟩
      | step locking effect next =>
        cases hmove with
        | own hfree => exact Or.inl ⟨next s₁,rfl,hp.tail (Moves.own hfree)⟩
        | other hacts => exact Or.inl ⟨step locking effect next,rfl,hp.tail (Moves.other hacts)⟩
    · exact Or.inr ⟨a,s₂,hp,hf.tail hmove⟩

end Proc

/-- What can be said about the state at some point of a process: the others do not falsify
it, and it implies what is to hold at every moment. -/
structure Assertion {σ : Type} (o : Others σ) (I : σ → Prop) where
  holds : σ → Prop
  stable : ∀ s s', holds s → o.acts s s' → holds s'
  safe : ∀ s, holds s → I s

instance {σ : Type} {o : Others σ} {I : σ → Prop} : CoeFun (Assertion o I) (fun _ => σ → Prop) := ⟨Assertion.holds⟩

/-- More is said, which the others do not falsify as long as the rest holds. -/
def Assertion.also {σ : Type} {o : Others σ} {I : σ → Prop} (A : Assertion o I) (P : σ → Prop)
    (hP : ∀ s s', A.holds s → P s → o.acts s s' → P s') : Assertion o I where
  holds s := A.holds s ∧ P s
  stable s s' h hacts := ⟨A.stable s s' h.1 hacts,hP s s' h.1 h.2 hacts⟩
  safe s h := A.safe s h.1

/-- If nobody else acts, anything can be said that implies what is to hold at every moment. -/
def Assertion.alone {σ : Type} {I : σ → Prop} (P : σ → Prop) (safe : ∀ s, P s → I s) : Assertion .none I where
  holds := P
  stable _ _ _ h := h.elim
  safe := safe

section Outlines
variable {σ ε α β : Type} {o : Others σ} {I : σ → Prop}

namespace Proc

/-- In every interleaving that starts where `P` holds, `I` holds at every moment, and `Q`
holds when the process is done. -/
def Outline (P : Assertion o I) (p : Proc σ α) (Q : α → Assertion o I) : Prop :=
  ∀ s, P s → ∀ p' s', Reaches o (p,s) (p',s') → I s' ∧ ∀ a, p' = done a → Q a s'

variable {P : Assertion o I} {Q : α → Assertion o I}

theorem outline_done {a : α} (h : ∀ s, P s → Q a s) : Outline P (done a) Q := by
  intro s hs p' s' hreach
  have hkept : p' = done a ∧ P s' := by
    generalize htarget : (p',s') = target at hreach
    induction hreach generalizing p' s' with
    | refl =>
      obtain ⟨rfl,rfl⟩ := Prod.mk.inj htarget
      exact ⟨rfl,hs⟩
    | @tail middle _ _ hmove ih =>
      subst htarget
      obtain ⟨p₁,s₁⟩ := middle
      obtain ⟨rfl,hs₁⟩ := ih p₁ s₁ rfl
      cases hmove with
      | other hacts => exact ⟨rfl,P.stable _ _ hs₁ hacts⟩
  obtain ⟨rfl,hs'⟩ := hkept
  refine ⟨P.safe _ hs',?_⟩
  rintro b ⟨⟩
  exact h s' hs'

theorem outline_step {locking : Bool} {effect : σ → σ} {next : σ → Proc σ α} {R : σ → Assertion o I}
    (heffect : ∀ s, P s → (locking = true → o.free s) → R s (effect s))
    (hnext : ∀ s, Outline (R s) (next s) Q) : Outline P (step locking effect next) Q := by
  intro s hs p' s' hreach
  -- either the step is still to come, or it has been taken in a state where `P` has held
  have hcases : (p' = step locking effect next ∧ P s') ∨
      ∃ s₁, P s₁ ∧ (locking = true → o.free s₁) ∧ Reaches o (next s₁,effect s₁) (p',s') := by
    generalize htarget : (p',s') = target at hreach
    induction hreach generalizing p' s' with
    | refl =>
      obtain ⟨rfl,rfl⟩ := Prod.mk.inj htarget
      exact Or.inl ⟨rfl,hs⟩
    | @tail middle _ _ hmove ih =>
      subst htarget
      obtain ⟨p₁,s₁⟩ := middle
      rcases ih p₁ s₁ rfl with ⟨rfl,hs₁⟩ | ⟨s₂,hs₂,hfree,hrest⟩
      · cases hmove with
        | own hfree => exact Or.inr ⟨s₁,hs₁,hfree,.refl⟩
        | other hacts => exact Or.inl ⟨rfl,P.stable _ _ hs₁ hacts⟩
      · exact Or.inr ⟨s₂,hs₂,hfree,hrest.tail hmove⟩
  rcases hcases with ⟨rfl,hs'⟩ | ⟨s₁,hs₁,hfree,hrest⟩
  · exact ⟨P.safe _ hs',nofun⟩
  · exact hnext s₁ _ (heffect s₁ hs₁ hfree) p' s' hrest

theorem Outline.andThen {Q : β → Assertion o I} {p : Proc σ α} {f : α → Proc σ β} {R : α → Assertion o I}
    (hp : Outline P p R) (hf : ∀ a, Outline (R a) (f a) Q) : Outline P (p.andThen f) Q := by
  intro s hs q s' hreach
  rcases hreach.of_andThen with ⟨p',rfl,hfirst⟩ | ⟨a,s₁,hfirst,hsecond⟩
  · obtain ⟨hI,hdone⟩ := hp s hs p' s' hfirst
    cases p' with
    | done a => exact hf a s' (hdone a rfl) _ s' .refl
    | step locking effect next => exact ⟨hI,nofun⟩
  · exact hf a s₁ ((hp s hs _ s₁ hfirst).2 a rfl) q s' hsecond

theorem Outline.weaken {P' : Assertion o I} {Q' : α → Assertion o I} {p : Proc σ α} (h : Outline P p Q)
    (hP : ∀ s, P' s → P s) (hQ : ∀ a s, Q a s → Q' a s) : Outline P' p Q' := by
  intro s hs p' s' hreach
  obtain ⟨hI,hdone⟩ := h s (hP s hs) p' s' hreach
  exact ⟨hI,fun a ha => hQ a s' (hdone a ha)⟩

/-- What an assertion implies about something other than the state is known beforehand. -/
theorem outline_of_fact {F : Prop} {p : Proc σ α} (hF : ∀ s, P s → F) (h : F → Outline P p Q) : Outline P p Q :=
  fun s hs => h (hF s hs) s hs

end Proc

/-- A process that returns a value or stops with a failure. -/
def Steps (σ ε α : Type) : Type := Proc σ (Except ε α)

namespace Steps
open Proc

def bind (m : Steps σ ε α) (f : α → Steps σ ε β) : Steps σ ε β := Proc.andThen m (fun
  | .ok a => f a
  | .error e => done (.error e))

instance : Monad (Steps σ ε) where
  pure a := done (.ok a)
  bind := bind

def fail (e : ε) : Steps σ ε α := done (.error e)

/-- A program as one step, in which nobody else acts. -/
def atom (locking : Bool) (m : Prog σ ε α) : Steps σ ε α := step locking (fun s => (m s).2) (fun s => done (m s).1)

def orNil (m : Steps σ ε α) : Steps σ ε (Option α) := Proc.andThen m (fun r => done (.ok r.toOption))

def rescue (m : Steps σ ε α) (g : ε → Steps σ ε α) : Steps σ ε α := Proc.andThen m (fun
  | .ok a => done (.ok a)
  | .error e => g e)

def attempt {ε' : Type} (m : Steps σ ε α) : Steps σ ε' (Except ε α) := Proc.andThen m (fun r => done (.ok r))

def onlyIf (c : Bool) (m : Steps σ ε Unit) : Steps σ ε Unit := if c then m else pure ()

/-- Run the second program after the first one, also when that has failed. -/
def deferring (m : Steps σ ε α) (last : Steps σ ε Unit) : Steps σ ε α :=
  Proc.andThen m (fun r => Proc.andThen last (fun _ => done r))

def forEach (body : β → Steps σ ε Unit) : List β → Steps σ ε Unit
  | [] => pure ()
  | b :: rest => do
    body b
    forEach body rest

variable {P : Assertion o I} {Q : Except ε α → Assertion o I}

theorem outline_pure {a : α} (h : ∀ s, P s → Q (.ok a) s) : Outline P (pure a : Steps σ ε α) Q := outline_done h

theorem outline_fail {e : ε} (h : ∀ s, P s → Q (.error e) s) : Outline P (fail e : Steps σ ε α) Q := outline_done h

theorem outline_atom {locking : Bool} {m : Prog σ ε α}
    (h : ∀ s, P s → (locking = true → o.free s) → Prog.Ensures m s (fun r s' => Q r s')) :
    Outline P (atom locking m) Q :=
  outline_step (R := fun s => Q (m s).1) h fun _ => outline_done fun _ hQ => hQ

theorem outline_bind {m : Steps σ ε α} {f : α → Steps σ ε β} {R : Except ε α → Assertion o I}
    {Q : Except ε β → Assertion o I} (hm : Outline P m R) (hok : ∀ a, Outline (R (.ok a)) (f a) Q)
    (herror : ∀ e s, R (.error e) s → Q (.error e) s) : Outline P (m >>= f : Steps σ ε β) Q := by
  refine hm.andThen fun r => ?_
  cases r with
  | ok a => exact hok a
  | error e => exact outline_done (herror e)

theorem outline_rescue {m : Steps σ ε α} {g : ε → Steps σ ε α} {R : Except ε α → Assertion o I} (hm : Outline P m R)
    (hok : ∀ a s, R (.ok a) s → Q (.ok a) s) (herror : ∀ e, Outline (R (.error e)) (g e) Q) :
    Outline P (rescue m g) Q := by
  refine hm.andThen fun r => ?_
  cases r with
  | ok a => exact outline_done (hok a)
  | error e => exact herror e

theorem outline_attempt {ε' : Type} {m : Steps σ ε α} {Q : Except ε' (Except ε α) → Assertion o I}
    (hm : Outline P m (fun r => Q (.ok r))) : Outline P (attempt m) Q :=
  hm.andThen fun _ => outline_done fun _ hs => hs

theorem outline_orNil {m : Steps σ ε α} {Q : Except ε (Option α) → Assertion o I}
    (hm : Outline P m (fun r => Q (.ok r.toOption))) : Outline P (orNil m) Q :=
  hm.andThen fun _ => outline_done fun _ hs => hs

theorem outline_onlyIf {c : Bool} {m : Steps σ ε Unit} {Q : Except ε Unit → Assertion o I}
    (hm : c = true → Outline P m Q) (hnot : c = false → ∀ s, P s → Q (.ok ()) s) : Outline P (onlyIf c m) Q := by
  cases c with
  | true => exact hm rfl
  | false => exact outline_pure (hnot rfl)

theorem outline_deferring {m : Steps σ ε α} {last : Steps σ ε Unit} {R : Except ε α → Assertion o I}
    (hm : Outline P m R) (hlast : ∀ r, Outline (R r) last (fun _ => Q r)) : Outline P (deferring m last) Q :=
  hm.andThen fun r => (hlast r).andThen fun _ => outline_done fun _ hs => hs

/-- A loop rule: `A` is about the elements still to come. -/
theorem outline_forEach {body : β → Steps σ ε Unit} (A : List β → Assertion o I) {Q : Except ε Unit → Assertion o I}
    {xs : List β} (hbody : ∀ b ∈ xs, ∀ rest, Outline (A (b :: rest)) (body b) (fun
      | .ok _ => A rest
      | .error e => Q (.error e)))
    (hend : ∀ s, A [] s → Q (.ok ()) s) : Outline (A xs) (forEach body xs) Q := by
  induction xs with
  | nil => exact outline_pure hend
  | cons b rest ih =>
    refine outline_bind (hbody b List.mem_cons_self rest) (fun _ => ?_) (fun _ _ hs => hs)
    exact ih fun b hb => hbody b (List.mem_cons_of_mem _ hb)

/-- What holds before holds at every moment and afterwards. -/
def Keeps (P : Assertion o I) (m : Steps σ ε α) : Prop := Outline P m (fun _ => P)

theorem keeps_pure (a : α) : Keeps P (pure a : Steps σ ε α) := outline_pure fun _ hs => hs
theorem keeps_fail (e : ε) : Keeps P (fail e : Steps σ ε α) := outline_fail fun _ hs => hs

theorem Keeps.bind {m : Steps σ ε α} {f : α → Steps σ ε β} (hm : Keeps P m) (hf : ∀ a, Keeps P (f a)) :
    Keeps P (m >>= f) :=
  outline_bind hm hf fun _ _ hs => hs

theorem Keeps.rescue {m : Steps σ ε α} {g : ε → Steps σ ε α} (hm : Keeps P m) (hg : ∀ e, Keeps P (g e)) :
    Keeps P (rescue m g) :=
  outline_rescue hm (fun _ _ hs => hs) hg

theorem Keeps.attempt {ε' : Type} {m : Steps σ ε α} (hm : Keeps P m) :
    Keeps P (attempt m : Steps σ ε' (Except ε α)) := outline_attempt hm

theorem Keeps.orNil {m : Steps σ ε α} (hm : Keeps P m) : Keeps P (orNil m) := outline_orNil hm

theorem Keeps.ite {c : Prop} [Decidable c] {m m' : Steps σ ε α} (hm : Keeps P m) (hm' : Keeps P m') :
    Keeps P (if c then m else m') := by
  split
  · exact hm
  · exact hm'

theorem Keeps.onlyIf {c : Bool} {m : Steps σ ε Unit} (hm : Keeps P m) : Keeps P (onlyIf c m) := hm.ite (keeps_pure ())

theorem Keeps.forEach {body : β → Steps σ ε Unit} {xs : List β} (h : ∀ b ∈ xs, Keeps P (body b)) :
    Keeps P (forEach body xs) :=
  outline_forEach (fun _ => P) (fun b hb _ => (h b hb).weaken (fun _ hs => hs) (fun r _ hs => by cases r <;> exact hs))
    fun _ hs => hs

end Steps
end Outlines

/-! ## The program without its steps -/

namespace Steps
open Proc
variable {σ τ ε ε' α β : Type} {view : σ → τ}

/-- If nobody else acts, the program in steps does on a part of the state what the other
program does. -/
def Refines (view : σ → τ) (p : Steps σ ε α) (m : Prog τ ε α) : Prop :=
  ∀ s, (Proc.run p s).1 = (m (view s)).1 ∧ view (Proc.run p s).2 = (m (view s)).2

theorem refines_pure (a : α) : Refines view (pure a : Steps σ ε α) (pure a) := fun _ => ⟨rfl,rfl⟩
theorem refines_fail (e : ε) : Refines view (fail e : Steps σ ε α) (Prog.fail e) := fun _ => ⟨rfl,rfl⟩

theorem refines_atom {locking : Bool} {put : τ → σ → σ} (hput : ∀ t s, view (put t s) = t) (m : Prog τ ε α) :
    Refines view (atom locking (Prog.onPart view put m)) m :=
  fun s => ⟨rfl,hput _ s⟩

/-- What happens after a program in steps depends on its outcome only. -/
theorem Refines.andThen {p : Steps σ ε α} {m : Prog τ ε α} (h : Refines view p m)
    {f : Except ε α → Proc σ (Except ε' β)} {g : Except ε α → Prog τ ε' β} (hf : ∀ r, Refines view (f r) (g r)) :
    Refines view (Proc.andThen p f : Steps σ ε' β) (fun t => g (m t).1 (m t).2) := by
  intro s
  obtain ⟨hresult,hstate⟩ := h s
  have hrest := hf (m (view s)).1 (Proc.run p s).2
  rw [hstate] at hrest
  unfold Steps at p
  rw [run_andThen,hresult]
  exact hrest

theorem Refines.of_eq {p : Steps σ ε α} {m m' : Prog τ ε α} (h : Refines view p m) (heq : m = m') :
    Refines view p m' := heq ▸ h

theorem Refines.bind {p : Steps σ ε α} {f : α → Steps σ ε β} {m : Prog τ ε α} {g : α → Prog τ ε β}
    (h : Refines view p m) (hf : ∀ a, Refines view (f a) (g a)) : Refines view (p >>= f) (m >>= g) := by
  refine (h.andThen (g := fun | .ok a => g a | .error e => Prog.fail e) fun r => ?_).of_eq ?_
  · cases r with
    | ok a => exact hf a
    | error e => exact refines_fail e
  · funext t
    change _ = Prog.andThen m g t
    unfold Prog.andThen
    rcases m t with ⟨r | a,t'⟩ <;> rfl

theorem Refines.rescue {p : Steps σ ε α} {f : ε → Steps σ ε α} {m : Prog τ ε α} {g : ε → Prog τ ε α}
    (h : Refines view p m) (hf : ∀ e, Refines view (f e) (g e)) : Refines view (rescue p f) (Prog.rescue m g) := by
  refine (h.andThen (g := fun | .ok a => pure a | .error e => g e) fun r => ?_).of_eq ?_
  · cases r with
    | ok a => exact refines_pure a
    | error e => exact hf e
  · funext t
    unfold Prog.rescue
    rcases m t with ⟨r | a,t'⟩ <;> rfl

theorem Refines.orNil {p : Steps σ ε α} {m : Prog τ ε α} (h : Refines view p m) :
    Refines view (orNil p) (Prog.orNil m) := by
  refine (h.andThen fun r => refines_pure r.toOption).of_eq ?_
  funext t
  unfold Prog.orNil
  rcases m t with ⟨r | a,t'⟩ <;> rfl

theorem Refines.attempt {p : Steps σ ε α} {m : Prog τ ε α} (h : Refines view p m) :
    Refines view (attempt p : Steps σ ε' (Except ε α)) (Prog.attempt m) :=
  h.andThen fun r => refines_pure r

theorem Refines.ite {c : Prop} [Decidable c] {p p' : Steps σ ε α} {m m' : Prog τ ε α} (h : Refines view p m)
    (h' : Refines view p' m') : Refines view (if c then p else p') (if c then m else m') := by
  split
  · exact h
  · exact h'

theorem Refines.onlyIf {c : Bool} {p : Steps σ ε Unit} {m : Prog τ ε Unit} (h : Refines view p m) :
    Refines view (onlyIf c p) (Prog.onlyIf c m) := h.ite (refines_pure ())

theorem Refines.deferring {p : Steps σ ε α} {last : Steps σ ε Unit} {m : Prog τ ε α} {f : τ → τ}
    (h : Refines view p m) (hlast : Refines view last (Prog.update f)) :
    Refines view (deferring p last) (Prog.deferring m f) :=
  h.andThen fun r => hlast.andThen (g := fun _ t => (r,t)) fun _ _ => ⟨rfl,rfl⟩

theorem Refines.forEach {body : β → Steps σ ε Unit} {body' : β → Prog τ ε Unit}
    (h : ∀ b, Refines view (body b) (body' b)) (xs : List β) :
    Refines view (forEach body xs) (Prog.forEach body' xs) := by
  induction xs with
  | nil => exact refines_pure ()
  | cons b rest ih => exact (h b).bind fun _ => ih

end Steps
end IngressGce
