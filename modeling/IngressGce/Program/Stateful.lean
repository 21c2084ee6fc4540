import IngressGce.Program.Runs
import Mathlib.Data.List.ProdSigma
import Mathlib.Logic.Function.Basic
import Mathlib.Order.Defs.PartialOrder

/-! # Stateful programs that may fail

A program reads and writes a state and either returns a value or stops with a
failure; the state reached so far survives the failure. `Ensures` is the
weakest precondition of such a program for a postcondition on its result and
final state.
-/
namespace IngressGce

def Prog (σ ε α : Type) : Type := σ → Except ε α × σ

namespace Prog
variable {σ τ ε α β : Type}

def pass (a : α) : Prog σ ε α := fun s => (.ok a,s)

def andThen (m : Prog σ ε α) (f : α → Prog σ ε β) : Prog σ ε β := fun s =>
  match m s with
  | (.ok a,s') => f a s'
  | (.error e,s') => (.error e,s')

instance : Monad (Prog σ ε) where
  pure := pass
  bind := andThen

def fail (e : ε) : Prog σ ε α := fun s => (.error e,s)
def state : Prog σ ε σ := fun s => (.ok s,s)
def update (f : σ → σ) : Prog σ ε Unit := fun s => (.ok (),f s)

/-- Run a program and keep its value if it returns one. The failure is dropped,
its effects are not. -/
def orNil (m : Prog σ ε α) : Prog σ ε (Option α) := fun s =>
  match m s with
  | (.ok a,s') => (.ok (some a),s')
  | (.error _,s') => (.ok none,s')

/-- Replace a failure by whatever the handler makes of it. -/
def rescue (m : Prog σ ε α) (h : ε → Prog σ ε α) : Prog σ ε α := fun s =>
  match m s with
  | (.ok a,s') => (.ok a,s')
  | (.error e,s') => h e s'

/-- Run a program and hand its outcome on, be it a value or a failure. -/
def attempt {ε' : Type} (m : Prog σ ε α) : Prog σ ε' (Except ε α) := fun s =>
  match m s with
  | (r,s') => (.ok r,s')

/-- Report the failures of a program as failures of another kind. -/
def mapFailure {ε' : Type} (f : ε → ε') (m : Prog σ ε α) : Prog σ ε' α := fun s =>
  match m s with
  | (r,s') => (r.mapError f,s')

/-- The failure as a list of at most one. -/
def errorOf : Except ε α → List ε
  | .ok _ => []
  | .error e => [e]

/-- Run a program on one part of a larger state. -/
def onPart (get : σ → τ) (put : τ → σ → σ) (m : Prog τ ε α) : Prog σ ε α := fun s =>
  match m (get s) with
  | (r,t) => (r,put t s)

/-- Run a program only if the condition holds. -/
def onlyIf (c : Bool) (m : Prog σ ε Unit) : Prog σ ε Unit := if c then m else pure ()

/-- Run a program and apply `f` to the state it leaves, also when it fails. -/
def deferring (m : Prog σ ε α) (f : σ → σ) : Prog σ ε α := fun s =>
  match m s with
  | (r,s') => (r,f s')

/-- Run the body on each element in turn, stopping at the first failure. -/
def forEach (body : β → Prog σ ε Unit) : List β → Prog σ ε Unit
  | [] => pure ()
  | b :: rest => do
    body b
    forEach body rest

/-- Run the body on each element in turn and put together the lists it returns. -/
def collect (body : β → Prog σ ε (List α)) : List β → Prog σ ε (List α)
  | [] => pure []
  | b :: rest => do
    let xs ← body b
    let ys ← collect body rest
    pure (xs ++ ys)

theorem andThen_assoc {γ : Type} (m : Prog σ ε α) (f : α → Prog σ ε β) (g : β → Prog σ ε γ) :
    (m >>= f) >>= g = m >>= fun a => f a >>= g := by
  funext s
  change andThen (andThen m f) g s = andThen m (fun a => andThen (f a) g) s
  unfold andThen
  rcases m s with ⟨r | a,s'⟩ <;> rfl

theorem forEach_append (body : β → Prog σ ε Unit) (xs ys : List β) :
    forEach body (xs ++ ys) = forEach body xs >>= fun _ => forEach body ys := by
  induction xs with
  | nil => rfl
  | cons b rest ih => rw [List.cons_append,forEach,ih,forEach,andThen_assoc]

theorem forEach_map (body : β → Prog σ ε Unit) (f : α → β) (xs : List α) :
    forEach body (xs.map f) = forEach (fun a => body (f a)) xs := by
  induction xs with
  | nil => rfl
  | cons a rest ih => rw [List.map_cons,forEach,ih,forEach]

/-- A loop in a loop is a loop over the pairs. -/
theorem forEach_product (body : α × β → Prog σ ε Unit) (xs : List α) (ys : List β) :
    forEach body (xs ×ˢ ys) = forEach (fun a => forEach (fun b => body (a,b)) ys) xs := by
  induction xs with
  | nil => rfl
  | cons a rest ih => rw [List.product_cons,forEach_append,forEach_map,ih,forEach]

/-- The weakest precondition of `m` for a postcondition on result and state. -/
def Ensures (m : Prog σ ε α) (s : σ) (Q : Except ε α → σ → Prop) : Prop := Q (m s).1 (m s).2

theorem errorOf_eq_nil {r : Except ε α} : errorOf r = [] ↔ ∃ a, r = .ok a := by
  cases r with
  | error e => simp [errorOf]
  | ok a => simp [errorOf]

theorem Ensures.mono {m : Prog σ ε α} {s : σ} {Q Q' : Except ε α → σ → Prop}
    (h : Ensures m s Q) (hQ : ∀ r s', Q r s' → Q' r s') : Ensures m s Q' := hQ _ _ h

theorem Ensures.and {m : Prog σ ε α} {s : σ} {Q Q' : Except ε α → σ → Prop}
    (h : Ensures m s Q) (h' : Ensures m s Q') : Ensures m s (fun r s' => Q r s' ∧ Q' r s') := ⟨h,h'⟩

/-- A program ensures that it ends as it does. -/
theorem ensures_run (m : Prog σ ε α) (s : σ) : Ensures m s (fun r s' => m s = (r,s')) := rfl

theorem ensures_of_eq {m : Prog σ ε α} {s s' : σ} {r : Except ε α} (h : m s = (r,s')) (Q : Except ε α → σ → Prop) :
    Ensures m s Q ↔ Q r s' := by
  unfold Ensures
  rw [h]

@[simp] theorem ensures_pure (a : α) (s : σ) (Q : Except ε α → σ → Prop) :
    Ensures (pure a) s Q ↔ Q (.ok a) s := Iff.rfl
@[simp] theorem ensures_fail (e : ε) (s : σ) (Q : Except ε α → σ → Prop) :
    Ensures (fail e) s Q ↔ Q (.error e) s := Iff.rfl
@[simp] theorem ensures_state (s : σ) (Q : Except ε σ → σ → Prop) :
    Ensures state s Q ↔ Q (.ok s) s := Iff.rfl
@[simp] theorem ensures_update (f : σ → σ) (s : σ) (Q : Except ε Unit → σ → Prop) :
    Ensures (update f) s Q ↔ Q (.ok ()) (f s) := Iff.rfl

/-- What the first part of a sequence has to ensure: that the rest ensures `Q`,
and that its own failures satisfy `Q`. -/
def afterwards (f : α → Prog σ ε β) (Q : Except ε β → σ → Prop) : Except ε α → σ → Prop
  | .ok a, s => Ensures (f a) s Q
  | .error e, s => Q (.error e) s

@[simp] theorem afterwards_ok (f : α → Prog σ ε β) (Q : Except ε β → σ → Prop) (a : α) (s : σ) :
    afterwards f Q (.ok a) s ↔ Ensures (f a) s Q := Iff.rfl
@[simp] theorem afterwards_error (f : α → Prog σ ε β) (Q : Except ε β → σ → Prop) (e : ε) (s : σ) :
    afterwards f Q (.error e) s ↔ Q (.error e) s := Iff.rfl

@[simp] theorem ensures_bind (m : Prog σ ε α) (f : α → Prog σ ε β) (s : σ)
    (Q : Except ε β → σ → Prop) : Ensures (m >>= f) s Q ↔ Ensures m s (afterwards f Q) := by
  change Q (andThen m f s).1 (andThen m f s).2 ↔ _
  unfold Ensures andThen
  rcases m s with ⟨r | r,s'⟩ <;> rfl

/-- What a program with a handler has to ensure: that the handler ensures `Q`
after a failure, and that its own value satisfies `Q`. -/
def rescued (g : ε → Prog σ ε α) (Q : Except ε α → σ → Prop) : Except ε α → σ → Prop
  | .ok a, s => Q (.ok a) s
  | .error e, s => Ensures (g e) s Q

@[simp] theorem rescued_ok (g : ε → Prog σ ε α) (Q : Except ε α → σ → Prop) (a : α) (s : σ) :
    rescued g Q (.ok a) s ↔ Q (.ok a) s := Iff.rfl
@[simp] theorem rescued_error (g : ε → Prog σ ε α) (Q : Except ε α → σ → Prop) (e : ε) (s : σ) :
    rescued g Q (.error e) s ↔ Ensures (g e) s Q := Iff.rfl

@[simp] theorem ensures_rescue (m : Prog σ ε α) (g : ε → Prog σ ε α) (s : σ)
    (Q : Except ε α → σ → Prop) : Ensures (rescue m g) s Q ↔ Ensures m s (rescued g Q) := by
  unfold Ensures rescue
  rcases m s with ⟨r | r,s'⟩ <;> rfl

@[simp] theorem ensures_orNil (m : Prog σ ε α) (s : σ) (Q : Except ε (Option α) → σ → Prop) :
    Ensures (orNil m) s Q ↔ Ensures m s (fun r => Q (.ok r.toOption)) := by
  unfold Ensures orNil
  rcases m s with ⟨r | r,s'⟩ <;> rfl

@[simp] theorem ensures_attempt {ε' : Type} (m : Prog σ ε α) (s : σ) (Q : Except ε' (Except ε α) → σ → Prop) :
    Ensures (attempt m) s Q ↔ Ensures m s (fun r => Q (.ok r)) := Iff.rfl

@[simp] theorem ensures_mapFailure {ε' : Type} (f : ε → ε') (m : Prog σ ε α) (s : σ)
    (Q : Except ε' α → σ → Prop) :
    Ensures (mapFailure f m) s Q ↔ Ensures m s (fun r => Q (r.mapError f)) := Iff.rfl

@[simp] theorem ensures_onPart (get : σ → τ) (put : τ → σ → σ) (m : Prog τ ε α) (s : σ)
    (Q : Except ε α → σ → Prop) :
    Ensures (onPart get put m) s Q ↔ Ensures m (get s) (fun r t => Q r (put t s)) := Iff.rfl

@[simp] theorem ensures_deferring (m : Prog σ ε α) (f : σ → σ) (s : σ) (Q : Except ε α → σ → Prop) :
    Ensures (deferring m f) s Q ↔ Ensures m s (fun r s' => Q r (f s')) := Iff.rfl

@[simp] theorem ensures_ite {c : Prop} [Decidable c] (m m' : Prog σ ε α) (s : σ)
    (Q : Except ε α → σ → Prop) :
    Ensures (if c then m else m') s Q ↔ (c → Ensures m s Q) ∧ (¬c → Ensures m' s Q) := by
  by_cases h : c <;> simp [h]

@[simp] theorem ensures_onlyIf (c : Bool) (m : Prog σ ε Unit) (s : σ) (Q : Except ε Unit → σ → Prop) :
    Ensures (onlyIf c m) s Q ↔ (c = true → Ensures m s Q) ∧ (c = false → Q (.ok ()) s) := by
  cases c <;> simp [onlyIf]

/-- The program returns a value, and the value and the final state satisfy `Q`. -/
def Returns (m : Prog σ ε α) (s : σ) (Q : α → σ → Prop) : Prop :=
  Ensures m s (fun r s' => ∃ a, r = .ok a ∧ Q a s')

theorem Returns.mono {m : Prog σ ε α} {s : σ} {Q Q' : α → σ → Prop} (h : Returns m s Q)
    (hQ : ∀ a s', Q a s' → Q' a s') : Returns m s Q' := by
  obtain ⟨a,ha,hq⟩ := h
  exact ⟨a,ha,hQ _ _ hq⟩

theorem Returns.and {m : Prog σ ε α} {s : σ} {Q Q' : α → σ → Prop} (h : Returns m s Q) (h' : Returns m s Q') :
    Returns m s (fun a s' => Q a s' ∧ Q' a s') := by
  obtain ⟨a,ha,hq⟩ := h
  obtain ⟨b,hb,hq'⟩ := h'
  obtain rfl : a = b := Except.ok.inj (ha.symm.trans hb)
  exact ⟨a,ha,hq,hq'⟩

@[simp] theorem returns_pure (a : α) (s : σ) (Q : α → σ → Prop) :
    Returns (pure a : Prog σ ε α) s Q ↔ Q a s := by
  simp [Returns]

@[simp] theorem returns_state (s : σ) (Q : σ → σ → Prop) : Returns (state : Prog σ ε σ) s Q ↔ Q s s := by
  simp [Returns]

@[simp] theorem returns_update (f : σ → σ) (s : σ) (Q : Unit → σ → Prop) :
    Returns (update f : Prog σ ε Unit) s Q ↔ Q () (f s) := by
  constructor
  · rintro ⟨a,_,h⟩
    exact h
  · intro h
    exact ⟨(),rfl,h⟩

@[simp] theorem returns_bind (m : Prog σ ε α) (f : α → Prog σ ε β) (s : σ) (Q : β → σ → Prop) :
    Returns (m >>= f) s Q ↔ Returns m s (fun a s' => Returns (f a) s' Q) := by
  unfold Returns
  rw [ensures_bind]
  unfold Ensures
  rcases m s with ⟨r | a,s'⟩
  · simp
  · simp [Ensures]

@[simp] theorem returns_ite {c : Prop} [Decidable c] (m m' : Prog σ ε α) (s : σ) (Q : α → σ → Prop) :
    Returns (if c then m else m') s Q ↔ (c → Returns m s Q) ∧ (¬c → Returns m' s Q) := by
  by_cases h : c <;> simp [h]

@[simp] theorem returns_attempt {ε' : Type} (m : Prog σ ε α) (s : σ) (Q : Except ε α → σ → Prop) :
    Returns (attempt m : Prog σ ε' (Except ε α)) s Q ↔ Ensures m s Q := by
  simp [Returns]

/-- A handler is of no account to a program that returns. -/
theorem Returns.rescue {m : Prog σ ε α} {s : σ} {Q : α → σ → Prop} (h : Returns m s Q) (g : ε → Prog σ ε α) :
    Returns (rescue m g) s Q := by
  unfold Returns
  rw [ensures_rescue]
  refine Ensures.mono h ?_
  rintro r s' ⟨a,rfl,hq⟩
  exact ⟨a,rfl,hq⟩

/-- A rule for loops that collect: `I` relates the elements still to come and what is
collected so far to the state. -/
theorem returns_collect (body : β → Prog σ ε (List α)) (I : List β → List α → σ → Prop)
    (hbody : ∀ b rest acc s, I (b :: rest) acc s → Returns (body b) s (fun xs s' => I rest (acc ++ xs) s'))
    (bs : List β) {acc : List α} {s : σ} (hs : I bs acc s) :
    Returns (collect body bs) s (fun xs s' => I [] (acc ++ xs) s') := by
  induction bs generalizing acc s with
  | nil => simpa [collect] using hs
  | cons b rest ih =>
    rw [collect,returns_bind]
    refine (hbody b rest acc s hs).mono ?_
    intro xs s' hI
    rw [returns_bind]
    refine (ih hI).mono ?_
    intro ys s'' hI'
    rwa [returns_pure,← List.append_assoc]

/-- The same for loops that may stop early: `I` relates the elements done so far and what is
collected to the state, as long as no step fails. -/
theorem collect_rule (body : β → Prog σ ε (List α)) (I : List β → List α → σ → Prop)
    (hbody : ∀ done b acc s, I done acc s →
      Ensures (body b) s (fun r s' => ∀ xs, r = .ok xs → I (done ++ [b]) (acc ++ xs) s'))
    (bs : List β) {s : σ} (hs : I [] [] s) :
    Ensures (collect body bs) s (fun r s' => ∀ xs, r = .ok xs → I bs xs s') := by
  have hrest : ∀ rest done acc s, I done acc s →
      Ensures (collect body rest) s (fun r s' => ∀ xs, r = .ok xs → I (done ++ rest) (acc ++ xs) s') := by
    intro rest
    induction rest with
    | nil =>
      intro done acc s hs
      rw [collect,ensures_pure]
      rintro xs ⟨⟩
      rwa [List.append_nil,List.append_nil]
    | cons b rest ih =>
      intro done acc s hs
      rw [collect,ensures_bind]
      refine (hbody done b acc s hs).mono ?_
      intro r s₁ hr
      cases r with
      | error e => exact nofun
      | ok xs =>
        rw [afterwards_ok,ensures_bind]
        refine (ih _ _ _ (hr xs rfl)).mono ?_
        intro r s₂ hr'
        cases r with
        | error e => exact nofun
        | ok ys =>
          rintro zs ⟨⟩
          have hend := hr' ys rfl
          rwa [List.append_assoc,List.append_assoc] at hend
  exact hrest bs [] [] s hs

/-- A rule for loops that accumulate: `I` relates the elements done so far and what is
accumulated to the state, as long as no step fails. -/
theorem foldlM_rule (body : β → α → Prog σ ε β) (I : List α → β → σ → Prop)
    (hbody : ∀ done a b s, I done b s →
      Ensures (body b a) s (fun r s' => ∀ b', r = .ok b' → I (done ++ [a]) b' s'))
    (xs : List α) {b : β} {s : σ} (hs : I [] b s) :
    Ensures (xs.foldlM body b) s (fun r s' => ∀ b', r = .ok b' → I xs b' s') := by
  have hrest : ∀ rest done b s, I done b s →
      Ensures (rest.foldlM body b) s (fun r s' => ∀ b', r = .ok b' → I (done ++ rest) b' s') := by
    intro rest
    induction rest with
    | nil =>
      intro done b s hs
      rw [List.foldlM_nil,ensures_pure]
      intro b' hb'
      cases hb'
      rwa [List.append_nil]
    | cons a rest ih =>
      intro done b s hs
      rw [List.foldlM_cons,ensures_bind]
      refine (hbody done a b s hs).mono ?_
      intro r s' hr
      cases r with
      | error e => exact nofun
      | ok b' =>
        have hnext := ih _ _ _ (hr b' rfl)
        rwa [List.append_assoc] at hnext
  exact hrest xs [] b s hs

/-- A loop rule for bodies that return: `I` relates the elements still to come to the state. -/
theorem returns_forEach (body : β → Prog σ ε Unit) (I : List β → σ → Prop)
    (hbody : ∀ b rest s, I (b :: rest) s → Returns (body b) s (fun _ s' => I rest s')) (xs : List β) {s : σ}
    (hs : I xs s) : Returns (forEach body xs) s (fun _ s' => I [] s') := by
  induction xs generalizing s with
  | nil => exact (returns_pure () s _).mpr hs
  | cons b rest ih =>
    rw [forEach,returns_bind]
    exact (hbody b rest s hs).mono fun _ _ h => ih h

/-- A loop rule: `I` relates the elements still to come to the state, and every
failure of the body satisfies `E`. -/
theorem forEach_rule (body : β → Prog σ ε Unit) (I : List β → σ → Prop) (E : σ → Prop)
    (hbody : ∀ b rest s, I (b :: rest) s →
      Ensures (body b) s (fun r s' => (r = .ok () → I rest s') ∧ ∀ e, r = .error e → E s'))
    (xs : List β) {s : σ} (hs : I xs s) :
    Ensures (forEach body xs) s (fun r s' => (r = .ok () → I [] s') ∧ ∀ e, r = .error e → E s') := by
  induction xs generalizing s with
  | nil =>
    rw [forEach,ensures_pure]
    exact ⟨fun _ => hs,by simp⟩
  | cons b rest ih =>
    rw [forEach,ensures_bind]
    refine (hbody b rest s hs).mono ?_
    rintro r s' ⟨hok,herr⟩
    cases r with
    | error e => exact ⟨by simp,fun _ _ => herr e rfl⟩
    | ok _ => exact ih (hok rfl)

/-- An invariant of the body is an invariant of the whole loop, whether the loop
completes or stops early. -/
theorem forEach_invariant (body : β → Prog σ ε Unit) (I : σ → Prop) {xs : List β}
    (hbody : ∀ b ∈ xs, ∀ s, I s → Ensures (body b) s (fun _ s' => I s')) {s : σ} (hs : I s) :
    Ensures (forEach body xs) s (fun _ s' => I s') := by
  refine (forEach_rule body (fun rest s => (∀ b ∈ rest, b ∈ xs) ∧ I s) I ?_ xs
    ⟨fun _ hb => hb,hs⟩).mono ?_
  · rintro b rest s ⟨hsub,hI⟩
    refine (hbody b (hsub b List.mem_cons_self) s hI).mono ?_
    intro r s' hI'
    exact ⟨fun _ => ⟨fun c hc => hsub c (List.mem_cons_of_mem _ hc),hI'⟩,fun _ _ => hI'⟩
  · rintro r s' ⟨hok,herr⟩
    cases r with
    | error e => exact herr e rfl
    | ok _ => exact (hok rfl).2

/-- A loop that completes has established what each round of the body establishes and no
round of it loses. -/
theorem forEach_all {body : β → Prog σ ε Unit} {P : β → σ → Prop} {xs : List β}
    (hbody : ∀ b ∈ xs, ∀ s, Ensures (body b) s (fun r s' => r = .ok () → P b s'))
    (hkept : ∀ b ∈ xs, ∀ c s, P c s → Ensures (body b) s (fun _ s' => P c s')) {s : σ} :
    Ensures (forEach body xs) s (fun r s' => r = .ok () → ∀ b ∈ xs, P b s') := by
  induction xs generalizing s with
  | nil => exact fun _ => nofun
  | cons b rest ih =>
    have hrest := fun s => ih (s := s) (fun c hc => hbody c (List.mem_cons_of_mem _ hc))
      fun c hc => hkept c (List.mem_cons_of_mem _ hc)
    rw [forEach,ensures_bind]
    refine (hbody b List.mem_cons_self s).mono ?_
    intro r s₁ hfirst
    cases r with
    | error e => exact nofun
    | ok _ =>
      have hlast : Ensures (forEach body rest) s₁ (fun _ s' => P b s') :=
        forEach_invariant body (P b) (fun c hc s hs => hkept c (List.mem_cons_of_mem _ hc) b s hs) (hfirst rfl)
      rw [afterwards_ok]
      refine ((hrest s₁).and hlast).mono ?_
      rintro r s₂ ⟨hall,hb⟩ hok c hc
      rcases List.mem_cons.mp hc with rfl | hc
      · exact hb
      · exact hall hok c hc

/-- An invariant of the body under a condition is an invariant of a loop along which
the condition is met. -/
theorem forEach_along (body : β → Prog σ ε Unit) (I : σ → Prop) {C : σ → β → Prop}
    (hbody : ∀ b s, I s → C s b → Ensures (body b) s (fun _ s' => I s')) {xs : List β} {s : σ} (hs : I s)
    (h : Runs.Along (fun s b => (body b s).2) C s xs) : Ensures (forEach body xs) s (fun _ s' => I s') := by
  induction xs generalizing s with
  | nil => exact hs
  | cons b rest ih =>
    obtain ⟨hC,hrest⟩ := h
    have hnext : Ensures (body b) s (fun _ s' => I s' ∧ s' = (body b s).2) := ⟨hbody b s hs hC,rfl⟩
    rw [forEach,ensures_bind]
    refine hnext.mono ?_
    rintro r s' ⟨hI,rfl⟩
    cases r with
    | error e => exact hI
    | ok _ => exact ih hI hrest

end Prog

/-- An invariant of the steps that do not fail holds of what a fold returns. -/
theorem foldlM_invariant {ε α β : Type} {f : β → α → Except ε β} {xs : List α} {I : β → Prop}
    (hf : ∀ a ∈ xs, ∀ b b', I b → f b a = .ok b' → I b') {b b' : β} (hb : I b) (h : xs.foldlM f b = .ok b') :
    I b' := by
  induction xs generalizing b with
  | nil =>
    obtain rfl : b = b' := Except.ok.inj h
    exact hb
  | cons a rest ih =>
    rw [List.foldlM_cons] at h
    cases hstep : f b a with
    | error e =>
      rw [hstep] at h
      cases h
    | ok c =>
      rw [hstep] at h
      exact ih (fun a ha => hf a (List.mem_cons_of_mem _ ha)) (hf a List.mem_cons_self b c hb hstep) h

theorem foldlM_congr {μ : Type → Type} [Monad μ] {α β : Type} {f g : β → α → μ β} {xs : List α}
    (h : ∀ a ∈ xs, ∀ b, f b a = g b a) (b : β) : xs.foldlM f b = xs.foldlM g b := by
  induction xs generalizing b with
  | nil => rfl
  | cons a rest ih =>
    rw [List.foldlM_cons,List.foldlM_cons,h a List.mem_cons_self b]
    exact bind_congr fun b' => ih (fun a ha => h a (List.mem_cons_of_mem _ ha)) b'

/-- Elements at which the loop does nothing may be left out. -/
theorem Prog.foldlM_filter {σ ε α β : Type} {f : β → α → Prog σ ε β} {p : α → Bool} {xs : List α}
    (h : ∀ a ∈ xs, ¬p a = true → ∀ b, f b a = pure b) (b : β) : (xs.filter p).foldlM f b = xs.foldlM f b := by
  induction xs generalizing b with
  | nil => rfl
  | cons a rest ih =>
    have hrest := ih fun a ha => h a (List.mem_cons_of_mem _ ha)
    rw [List.foldlM_cons]
    by_cases ha : p a = true
    · rw [List.filter_cons,if_pos ha,List.foldlM_cons]
      exact bind_congr hrest
    · rw [List.filter_cons,if_neg ha,h a List.mem_cons_self ha]
      exact hrest b

end IngressGce
