import IngressGce.LoadBalancer.EdgeHop

/-! # Taking a load balancer down

Each stage of `cleanup` deletes one recorded resource and then forgets it. What
every stage preserves therefore holds after the teardown, whether it completes
or stops early, and a teardown that completes has forgotten everything.
-/
namespace IngressGce
open Prog
variable (plan : Plan)

/-- The ways in which one stage of the teardown ends. -/
inductive Disposed (stage : CleanupStage) (h : Hop) : Except Failure Unit → Hop → Prop
  | nothing (unrecorded : stage.recorded h.l7 = none) : Disposed stage h (.ok ()) h
  | failed {o : Object stage.kind} {e : Failure} {h' : Hop} (found : stage.recorded h.l7 = some o)
      (fault : plan.fault (.cleanup stage) ≠ none) (l7 : h'.l7 = h.l7)
      (cloud : h'.cloud = h.cloud ∨ h'.cloud = h.cloud.set stage.kind o.name none)
      (log : h'.log = .call h.l7.name (.cleanup stage) stage.kind o.name h.cloud :: h.log) :
      Disposed stage h (.error e) h'
  | done {o : Object stage.kind} {h' : Hop} (found : stage.recorded h.l7 = some o)
      (l7 : h'.l7 = stage.forget h.l7) (cloud : h'.cloud = h.cloud.set stage.kind o.name none)
      (log : h'.log = .call h.l7.name (.cleanup stage) stage.kind o.name h.cloud :: h.log) :
      Disposed stage h (.ok ()) h'

theorem dispose_spec (stage : CleanupStage) (h : Hop) :
    Ensures (dispose plan stage) h (Disposed plan stage h) := by
  simp only [dispose,ensures_bind,ensures_this,afterwards_ok]
  cases hr : stage.recorded h.l7 with
  | none => exact .nothing hr
  | some o =>
    simp only [ensures_bind]
    refine ensures_ignoreDelete plan ?_ ?_ ?_
    · intro hf e
      exact .failed hr hf rfl (Or.inl rfl) rfl
    · intro hf e
      exact .failed hr hf rfl (Or.inr rfl) rfl
    · exact .done hr rfl rfl rfl

/-- A stage changes nothing, or deletes what it has recorded and may then forget it. -/
theorem Disposed.rule {plan : Plan} {stage : CleanupStage} {h h' : Hop} {r : Except Failure Unit}
    (hd : Disposed plan stage h r h') {I : L7 → Cloud → Prop} (hI : I h.l7 h.cloud)
    (hdelete : ∀ o, stage.recorded h.l7 = some o → I h.l7 (h.cloud.set stage.kind o.name none) ∧
      I (stage.forget h.l7) (h.cloud.set stage.kind o.name none)) : I h'.l7 h'.cloud := by
  cases hd with
  | nothing unrecorded => exact hI
  | @failed o e _ found fault l7 cloud log =>
    rw [l7]
    rcases cloud with cloud | cloud
    · rw [cloud]
      exact hI
    · rw [cloud]
      exact (hdelete o found).1
  | @done o _ found l7 cloud log =>
    rw [l7,cloud]
    exact (hdelete o found).2

/-- What every stage preserves, the teardown preserves. -/
theorem cleanup_invariant {I : Hop → Prop}
    (hstage : ∀ stage h r h', I h → Disposed plan stage h r h' → I h') {h : Hop} (hI : I h) :
    Ensures (cleanup plan) h (fun _ h' => I h') :=
  forEach_invariant _ I (fun stage _ h hI =>
    (dispose_spec plan stage h).mono fun r h' hd => hstage stage h r h' hI hd) hI

@[simp] theorem recorded_forget_self (stage : CleanupStage) (l : L7) : stage.recorded (stage.forget l) = none := by
  cases stage with
  | sslCert => exact ite_self _
  | _ => rfl

@[simp] theorem forget_name (stage : CleanupStage) (l : L7) : (stage.forget l).name = l.name := by
  cases stage <;> rfl

theorem recorded_forget_of_ne {stage other : CleanupStage} (hne : other ≠ stage) (l : L7) :
    other.recorded (stage.forget l) = other.recorded l := by
  cases stage <;> cases other <;> first | exact absurd rfl hne | rfl

theorem Disposed.name {plan : Plan} {stage : CleanupStage} {h h' : Hop} {r : Except Failure Unit}
    (hd : Disposed plan stage h r h') : h'.l7.name = h.l7.name := by
  cases hd with
  | nothing unrecorded => rfl
  | failed found fault l7 cloud log => rw [l7]
  | done found l7 cloud log => rw [l7,forget_name]

theorem cleanup_name (h : Hop) : Ensures (cleanup plan) h (fun _ h' => h'.l7.name = h.l7.name) :=
  cleanup_invariant (I := fun h' => h'.l7.name = h.l7.name) plan
    (fun _ _ _ _ hname hd => hd.name.trans hname) rfl

theorem Disposed.unrecorded {plan : Plan} {stage : CleanupStage} {h h' : Hop} {r : Except Failure Unit}
    (hd : Disposed plan stage h r h') {rest : List CleanupStage} (hr : r = .ok ())
    (hpassed : ∀ other : CleanupStage, other ∉ stage :: rest → other.recorded h.l7 = none) {other : CleanupStage}
    (hother : other ∉ rest) : other.recorded h'.l7 = none := by
  by_cases hne : other = stage
  · subst hne
    cases hd with
    | nothing unrecorded => exact unrecorded
    | failed found fault l7 cloud log => cases hr
    | done found l7 cloud log => rw [l7,recorded_forget_self]
  · have hbefore := hpassed other (by simp [hne,hother])
    cases hd with
    | nothing unrecorded => exact hbefore
    | failed found fault l7 cloud log => cases hr
    | done found l7 cloud log => rw [l7,recorded_forget_of_ne hne,hbefore]

theorem cleanup_forgets (h : Hop) : Ensures (cleanup plan) h (fun r h' =>
    r = .ok () → ∀ stage : CleanupStage, stage.recorded h'.l7 = none) := by
  have hrule := forEach_rule (dispose plan)
    (fun rest h => ∀ stage, stage ∉ rest → CleanupStage.recorded stage h.l7 = none) (fun _ => True)
    (fun stage rest h hI => (dispose_spec plan stage h).mono fun r h' hd =>
      ⟨fun hr _ hother => hd.unrecorded hr hI hother,fun _ _ => trivial⟩)
    CleanupStage.order (s := h) (by intro stage hs; cases stage <;> simp [CleanupStage.order] at hs)
  refine Ensures.mono hrule ?_
  rintro r h' ⟨hok,-⟩ hr stage
  exact hok hr stage (by simp)

theorem cleanup_completes (hf : ∀ stage, plan.fault (.cleanup stage) = none) (h : Hop) :
    Ensures (cleanup plan) h (fun r _ => r = .ok ()) := by
  have hrule := forEach_rule (dispose plan) (fun _ _ => True) (fun _ => False)
    (fun stage rest h _ => (dispose_spec plan stage h).mono fun r h' hd => ?_)
    CleanupStage.order (s := h) trivial
  · refine Ensures.mono hrule ?_
    rintro r h' ⟨-,herr⟩
    cases r with
    | error e => exact (herr e rfl).elim
    | ok _ => rfl
  · refine ⟨fun _ => trivial,?_⟩
    intro e hr
    cases hd with
    | nothing unrecorded => cases hr
    | failed found fault l7 cloud log => exact fault (hf stage)
    | done found l7 cloud log => cases hr

end IngressGce
