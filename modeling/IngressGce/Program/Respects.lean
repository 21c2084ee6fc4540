import IngressGce.Program.Stateful

/-! # Programs that respect a relation between states

A relation that is reflexive and transitive, such as "nothing is lost", can be shown of a
program piece by piece: it holds between the states before and after a program if it
holds for each step, whether the steps fail or not.
-/
namespace IngressGce.Prog
variable {σ τ ε ε' α β : Type}

/-- The program moves the state along the relation, also when it fails. -/
def Respects (R : σ → σ → Prop) (m : Prog σ ε α) : Prop := ∀ s, Ensures m s (fun _ s' => R s s')

variable {R : σ → σ → Prop}

theorem Respects.orNil {m : Prog σ ε α} (hm : Respects R m) : Respects R (orNil m) := by
  intro s
  rw [ensures_orNil]
  exact hm s

theorem Respects.attempt {m : Prog σ ε α} (hm : Respects R m) : Respects R (attempt m : Prog σ ε' (Except ε α)) := hm

theorem Respects.mapFailure {m : Prog σ ε α} (hm : Respects R m) (f : ε → ε') : Respects R (mapFailure f m) := hm

/-- A program on a part of the state respects what its steps on the part amount to. -/
theorem Respects.onPart {S : τ → τ → Prop} {get : σ → τ} {put : τ → σ → σ} {m : Prog τ ε α} (hm : Respects S m)
    (hlift : ∀ s t, S (get s) t → R s (put t s)) : Respects R (onPart get put m) :=
  fun s => (hm (get s)).mono fun _ t ht => hlift s t ht

theorem Respects.ite {c : Prop} [Decidable c] {m m' : Prog σ ε α} (hm : Respects R m) (hm' : Respects R m') :
    Respects R (if c then m else m') := by
  split
  · exact hm
  · exact hm'

/-- A part of the state is as before. -/
def Unmoved (f : σ → τ) (s s' : σ) : Prop := f s' = f s

instance (f : σ → τ) : IsPreorder σ (Unmoved f) where
  refl _ := rfl
  trans _ _ _ h h' := h'.trans h

/-- A state of affairs, once there, stays. -/
def Lasting (P : σ → Prop) (s s' : σ) : Prop := P s → P s'

instance (P : σ → Prop) : IsPreorder σ (Lasting P) where
  refl _ := id
  trans _ _ _ h h' := h' ∘ h

variable [IsPreorder σ R]

@[simp] theorem respects_pure (a : α) : Respects R (pure a : Prog σ ε α) := fun s => refl_of R s
@[simp] theorem respects_fail (e : ε) : Respects R (fail e : Prog σ ε α) := fun s => refl_of R s

theorem Respects.onlyIf {c : Bool} {m : Prog σ ε Unit} (hm : Respects R m) : Respects R (onlyIf c m) :=
  Respects.ite hm (respects_pure ())

theorem Respects.bind {m : Prog σ ε α} {f : α → Prog σ ε β} (hm : Respects R m) (hf : ∀ a, Respects R (f a)) :
    Respects R (m >>= f) := by
  intro s
  rw [ensures_bind]
  refine (hm s).mono ?_
  intro r s' hs'
  cases r with
  | error e => exact hs'
  | ok a => exact (hf a s').mono fun _ s'' hs'' => trans_of R hs' hs''

theorem Respects.rescue {m : Prog σ ε α} {g : ε → Prog σ ε α} (hm : Respects R m) (hg : ∀ e, Respects R (g e)) :
    Respects R (rescue m g) := by
  intro s
  rw [ensures_rescue]
  refine (hm s).mono ?_
  intro r s' hs'
  cases r with
  | error e => exact (hg e s').mono fun _ s'' hs'' => trans_of R hs' hs''
  | ok a => exact hs'

theorem Respects.deferring {m : Prog σ ε α} {f : σ → σ} (hm : Respects R m) (hf : ∀ s, R s (f s)) :
    Respects R (deferring m f) := fun s => (hm s).mono fun _ s' hs' => trans_of R hs' (hf s')

theorem Respects.forEach {body : β → Prog σ ε Unit} {xs : List β} (h : ∀ b ∈ xs, Respects R (body b)) :
    Respects R (forEach body xs) := by
  induction xs with
  | nil => exact respects_pure ()
  | cons b rest ih =>
    exact (h b List.mem_cons_self).bind fun _ => ih fun b hb => h b (List.mem_cons_of_mem _ hb)

theorem Respects.collect {body : β → Prog σ ε (List α)} {xs : List β} (h : ∀ b ∈ xs, Respects R (body b)) :
    Respects R (collect body xs) := by
  induction xs with
  | nil => exact respects_pure []
  | cons b rest ih =>
    have hrest := ih fun b hb => h b (List.mem_cons_of_mem _ hb)
    exact (h b List.mem_cons_self).bind fun _ => hrest.bind fun _ => respects_pure _

theorem Respects.foldlM {body : β → α → Prog σ ε β} (h : ∀ b a, Respects R (body b a)) (xs : List α) (b : β) :
    Respects R (xs.foldlM body b) := by
  induction xs generalizing b with
  | nil => exact respects_pure b
  | cons a rest ih => exact (h b a).bind ih

end IngressGce.Prog
