import IngressGce.LoadBalancer.Cleanup
import IngressGce.Program.Runs

/-! # Taking a load balancer down in several attempts

A teardown that stops at an error is taken up again by the next call. What was deleted has
been forgotten, what was not is still recorded, and the order of the stages is such that
nothing is deleted while something recorded refers to it.
-/
namespace IngressGce
open Prog

namespace CleanupStage

def field : (stage : CleanupStage) → L7 → Option (Object stage.kind)
  | .fw => L7.fw
  | .fws => L7.fws
  | .ip => L7.ip
  | .tps => L7.tps
  | .sslCert => L7.sslCert
  | .tp => L7.tp
  | .um => L7.um

/-- The resources that refer to another one: a rule to its proxy and to its address, a
proxy to its url map, and the HTTPS proxy to its certificate. -/
def refersTo : CleanupStage → CleanupStage → Bool
  | .fw, .tp => true
  | .fws, .tps => true
  | .fw, .ip => true
  | .fws, .ip => true
  | .tp, .um => true
  | .tps, .um => true
  | .tps, .sslCert => true
  | _, _ => false

theorem recorded_eq_some_iff {stage : CleanupStage} {l : L7} {o : Object stage.kind} :
    stage.recorded l = some o ↔ stage.field l = some o ∧ (stage = .sslCert → l.runtimeInfo.tlsName = []) := by
  cases stage with
  | sslCert =>
    change L7.disposableCert l = some o ↔ l.sslCert = some o ∧ _
    unfold L7.disposableCert
    split
    · rename_i hname
      exact ⟨fun h => ⟨h,fun _ => hname⟩,fun h => h.1⟩
    · rename_i hname
      exact ⟨nofun,fun h => absurd (h.2 rfl) hname⟩
  | _ => exact ⟨fun h => ⟨h,nofun⟩,fun h => h.1⟩

@[simp] theorem field_forget_self (stage : CleanupStage) (l : L7) : stage.field (stage.forget l) = none := by
  cases stage <;> rfl

theorem field_forget_of_ne {stage other : CleanupStage} (hne : other ≠ stage) (l : L7) :
    other.field (stage.forget l) = other.field l := by
  cases stage <;> cases other <;> first | exact absurd rfl hne | rfl

@[simp] theorem forget_runtimeInfo (stage : CleanupStage) (l : L7) : (stage.forget l).runtimeInfo = l.runtimeInfo := by
  cases stage <;> rfl

/-- No stage comes before another one that refers to it. -/
theorem order_pairwise : order.Pairwise (fun stage later => later.refersTo stage = false) := by decide

theorem refersTo_self (stage : CleanupStage) : stage.refersTo stage = false := by
  cases stage <;> rfl

theorem mem_order (stage : CleanupStage) : stage ∈ order := by
  cases stage <;> decide

theorem passed_of_refersTo {stage other : CleanupStage} {rest : List CleanupStage} (hrest : stage :: rest <:+ order)
    (h : other.refersTo stage = true) : other ∉ stage :: rest := by
  intro hmem
  rcases List.mem_cons.mp hmem with rfl | hmem
  · rw [refersTo_self] at h
    cases h
  · have hlater := List.rel_of_pairwise_cons (order_pairwise.sublist hrest.sublist) hmem
    rw [h] at hlater
    cases hlater

end CleanupStage

section Calls
variable {plan : Plan} {site : Site} {k : Kind} {name : Str} {h : Hop}

theorem delete_of_fault {f : Fault} (hfault : plan.fault site = some f) :
    Ensures (delete plan site k name) h (fun r _ => r = .error (.returned f.error)) := by
  unfold delete write
  cases happlied : f.applied with
  | false => simp [hfault,happlied]
  | true => simp [hfault,happlied]

theorem delete_of_no_fault (hfault : plan.fault site = none) : Ensures (delete plan site k name) h (fun r _ =>
    r = .ok () ∨ r = .error (.returned (.api statusNotFound))) := by
  unfold delete write
  cases hitem : h.cloud k name with
  | none => simp [hfault,refuseMissing,hitem]
  | some s => simp [hfault,refuseMissing,hitem]

theorem dispose_fault (plan : Plan) (stage : CleanupStage) (h : Hop) : Ensures (dispose plan stage) h (fun r _ =>
    r = .ok () → stage.recorded h.l7 ≠ none → plan.fault (.cleanup stage) = none) := by
  cases hfault : plan.fault (.cleanup stage) with
  | none => exact fun _ _ => rfl
  | some f =>
    simp only [dispose,ensures_bind,ensures_this,afterwards_ok]
    cases hrecorded : stage.recorded h.l7 with
    | none => exact fun _ hne => absurd rfl hne
    | some o =>
      simp only [ensures_bind,ignoreHTTPNotFound,ensures_rescue]
      refine (delete_of_fault hfault).mono ?_
      rintro r h' rfl
      simp [f.not_notFound]

end Calls

/-- A call that deletes a recorded resource, in the teardown with the plan. -/
structure DeleteCall where
  plan : Plan
  stage : CleanupStage
  name : Str
  before : Cloud

namespace DeleteCall

def answer (c : DeleteCall) : Except Failure Unit :=
  (delete c.plan (.cleanup c.stage) c.stage.kind c.name { l7 := default, cloud := c.before, log := [] }).1

def Answered (c : DeleteCall) : Prop := c.answer = .ok () ∨ c.answer = .error (.returned (.api statusNotFound))

/-- The call is about a recorded resource, and nothing recorded that refers to it is there
any more. -/
structure Orderly (l : L7) (c : DeleteCall) : Prop where
  target : ∃ o, c.stage.recorded l = some o ∧ c.name = o.name
  unreferenced : ∀ (other : CleanupStage) (o : Object other.kind), other.refersTo c.stage = true →
    other.recorded l = some o → c.before other.kind o.name = none

theorem answered_iff {c : DeleteCall} : c.Answered ↔ c.plan.fault (.cleanup c.stage) = none := by
  cases hfault : c.plan.fault (.cleanup c.stage) with
  | none => exact iff_of_true (delete_of_no_fault hfault) rfl
  | some f =>
    refine iff_of_false ?_ nofun
    have hanswer : c.answer = .error (.returned f.error) := delete_of_fault hfault
    rintro (hok | hmissing)
    · rw [hanswer] at hok
      cases hok
    · have herror := Failure.returned.inj (Except.error.inj (hanswer.symm.trans hmissing))
      have hcode := f.not_notFound
      rw [herror,isHTTPErrorCode_api] at hcode
      cases hcode

end DeleteCall

/-- The deletions that a teardown with the plan has recorded, the latest first. -/
def deleteCalls (plan : Plan) (log : List Event) : List DeleteCall :=
  log.filterMap (fun
    | .call _ (.cleanup stage) _ name before => some ⟨plan,stage,name,before⟩
    | _ => none)

/-- The load balancer as a call of `Cleanup` finds it: nothing has been recorded yet. -/
def Hop.reset (h : Hop) : Hop := { h with log := [] }

/-- The state after calls of `Cleanup`, each of which has its own failures. -/
def cleanups : Hop → List Plan → Hop := Runs.final (fun h plan => (cleanup plan h.reset).2)

def history : Hop → List Plan → List DeleteCall
  | _, [] => []
  | h, plan :: plans => history (cleanup plan h.reset).2 plans ++ deleteCalls plan (cleanup plan h.reset).2.log

/-- What holds of the state `h` and of the deletions made since the state `h₀`. -/
structure Torn (h₀ : Hop) (calls : List DeleteCall) (h : Hop) : Prop where
  runtimeInfo : h.l7.runtimeInfo = h₀.l7.runtimeInfo
  forgotten : ∀ c ∈ calls, c.Answered → c.stage.field h.l7 = none
  kept : ∀ stage : CleanupStage, (∀ c ∈ calls, c.stage = stage → ¬c.Answered) → stage.field h.l7 = stage.field h₀.l7
  gone : ∀ (stage : CleanupStage) (o : Object stage.kind), stage.recorded h₀.l7 = some o →
    stage.recorded h.l7 = some o ∨ h.cloud stage.kind o.name = none
  orderly : ∀ c ∈ calls, c.Orderly h₀.l7

theorem Cloud.set_none_of_none {c : Cloud} {k k' : Kind} {n n' : Str} (h : c k' n' = none) : c.set k n none k' n' = none := by
  cases hset : c.set k n none k' n' with
  | none => rfl
  | some s =>
    obtain ⟨hs,_⟩ := Cloud.of_set_none hset
    rw [h] at hs
    cases hs

namespace Torn
variable {plan : Plan} {h₀ h h' : Hop} {calls : List DeleteCall} {stage : CleanupStage} {o : Object stage.kind}
  {r : Except Failure Unit}

theorem start (h : Hop) : Torn h [] h := ⟨rfl,nofun,fun _ _ => rfl,fun _ _ hrecorded => Or.inl hrecorded,nofun⟩

theorem reset (ht : Torn h₀ calls h) : Torn h₀ calls h.reset :=
  ⟨ht.runtimeInfo,ht.forgotten,ht.kept,ht.gone,ht.orderly⟩

theorem field_eq_some_iff (ht : Torn h₀ calls h) :
    stage.field h.l7 = some o ↔ stage.field h₀.l7 = some o ∧ ∀ c ∈ calls, c.stage = stage → ¬c.Answered := by
  constructor
  · intro hfield
    have hpending : ∀ c ∈ calls, c.stage = stage → ¬c.Answered := by
      rintro c hc rfl hanswered
      rw [ht.forgotten c hc hanswered] at hfield
      cases hfield
    rw [← ht.kept stage hpending]
    exact ⟨hfield,hpending⟩
  · rintro ⟨hfield,hpending⟩
    rw [ht.kept stage hpending,hfield]

theorem recorded (ht : Torn h₀ calls h) (hrecorded : stage.recorded h.l7 = some o) : stage.recorded h₀.l7 = some o := by
  rw [CleanupStage.recorded_eq_some_iff] at hrecorded ⊢
  rw [← ht.runtimeInfo]
  exact ⟨(ht.field_eq_some_iff.mp hrecorded.1).1,hrecorded.2⟩

theorem next_orderly (ht : Torn h₀ calls h) (hrecorded : stage.recorded h.l7 = some o)
    (hpassed : ∀ other : CleanupStage, other.refersTo stage = true → other.recorded h.l7 = none) :
    DeleteCall.Orderly h₀.l7 ⟨plan,stage,o.name,h.cloud⟩ := by
  refine ⟨⟨o,ht.recorded hrecorded,rfl⟩,?_⟩
  intro other o' hrefers hother
  refine (ht.gone other o' hother).resolve_left ?_
  rw [hpassed other hrefers]
  nofun

theorem failed (ht : Torn h₀ calls h) {c : DeleteCall} (horderly : c.Orderly h₀.l7) (hfailed : ¬c.Answered)
    (hl7 : h'.l7 = h.l7) (hcloud : h'.cloud = h.cloud ∨ h'.cloud = h.cloud.set c.stage.kind c.name none) :
    Torn h₀ (c :: calls) h' := by
  refine ⟨by rw [hl7,ht.runtimeInfo],?_,?_,?_,?_⟩
  · intro d hd hanswered
    rw [hl7]
    rcases List.mem_cons.mp hd with rfl | hd
    · exact absurd hanswered hfailed
    · exact ht.forgotten d hd hanswered
  · intro stage hstage
    rw [hl7]
    exact ht.kept stage fun d hd => hstage d (List.mem_cons_of_mem _ hd)
  · intro stage o hrecorded
    rw [hl7]
    refine (ht.gone stage o hrecorded).imp_right fun hgone => ?_
    rcases hcloud with hcloud | hcloud
    · rw [hcloud,hgone]
    · rw [hcloud,Cloud.set_none_of_none hgone]
  · exact List.forall_mem_cons.mpr ⟨horderly,ht.orderly⟩

theorem answered (ht : Torn h₀ calls h) {c : DeleteCall} (horderly : c.Orderly h₀.l7) (hanswered : c.Answered)
    (hl7 : h'.l7 = c.stage.forget h.l7) (hcloud : h'.cloud = h.cloud.set c.stage.kind c.name none) :
    Torn h₀ (c :: calls) h' := by
  refine ⟨by rw [hl7,CleanupStage.forget_runtimeInfo,ht.runtimeInfo],?_,?_,?_,?_⟩
  · intro d hd hd'
    rw [hl7]
    by_cases heq : d.stage = c.stage
    · rw [heq,CleanupStage.field_forget_self]
    · rw [CleanupStage.field_forget_of_ne heq]
      rcases List.mem_cons.mp hd with rfl | hd
      · exact absurd rfl heq
      · exact ht.forgotten d hd hd'
  · intro stage hstage
    have hne : stage ≠ c.stage := fun heq => hstage c List.mem_cons_self heq.symm hanswered
    rw [hl7,CleanupStage.field_forget_of_ne hne]
    exact ht.kept stage fun d hd => hstage d (List.mem_cons_of_mem _ hd)
  · intro stage o hrecorded
    rw [hl7,hcloud]
    by_cases heq : stage = c.stage
    · subst heq
      obtain ⟨o',hrecorded',hname⟩ := horderly.target
      obtain rfl : o = o' := Option.some.inj (hrecorded.symm.trans hrecorded')
      rw [hname,Cloud.set_self]
      exact Or.inr rfl
    · rw [recorded_forget_of_ne heq]
      exact (ht.gone stage o hrecorded).imp_right Cloud.set_none_of_none
  · exact List.forall_mem_cons.mpr ⟨horderly,ht.orderly⟩

theorem dispose (ht : Torn h₀ (deleteCalls plan h.log ++ calls) h) (hd : Disposed plan stage h r h')
    (hfault : r = .ok () → stage.recorded h.l7 ≠ none → plan.fault (.cleanup stage) = none)
    (hpassed : ∀ other : CleanupStage, other.refersTo stage = true → other.recorded h.l7 = none) :
    Torn h₀ (deleteCalls plan h'.log ++ calls) h' := by
  cases hd with
  | nothing unrecorded => exact ht
  | @failed o e _ found fault l7 cloud log =>
    rw [log]
    exact ht.failed (ht.next_orderly found hpassed) (fun hanswered => fault (DeleteCall.answered_iff.mp hanswered)) l7 cloud
  | @done o _ found l7 cloud log =>
    have hanswered : DeleteCall.Answered ⟨plan,stage,o.name,h.cloud⟩ :=
      DeleteCall.answered_iff.mpr (hfault rfl (by rw [found]; nofun))
    rw [log]
    exact ht.answered (ht.next_orderly found hpassed) hanswered l7 cloud

theorem cleanup (ht : Torn h₀ calls h) (plan : Plan) : Ensures (cleanup plan) h.reset (fun r h' =>
    Torn h₀ (deleteCalls plan h'.log ++ calls) h' ∧ (r = .ok () → ∀ stage : CleanupStage, stage.recorded h'.l7 = none)) := by
  have hstart : Torn h₀ (deleteCalls plan h.reset.log ++ calls) h.reset := ht.reset
  refine (forEach_rule (IngressGce.dispose plan)
    (fun rest h' => rest <:+ CleanupStage.order ∧ Torn h₀ (deleteCalls plan h'.log ++ calls) h' ∧
      ∀ stage : CleanupStage, stage ∉ rest → stage.recorded h'.l7 = none)
    (fun h' => Torn h₀ (deleteCalls plan h'.log ++ calls) h') ?_ CleanupStage.order
    ⟨List.suffix_rfl,hstart,fun stage hstage => absurd stage.mem_order hstage⟩).mono ?_
  · rintro stage rest h₁ ⟨hrest,ht₁,hpassed⟩
    refine ((dispose_spec plan stage h₁).and (dispose_fault plan stage h₁)).mono ?_
    rintro r h₂ ⟨hd,hfault⟩
    have ht₂ : Torn h₀ (deleteCalls plan h₂.log ++ calls) h₂ :=
      ht₁.dispose hd hfault fun other hother => hpassed other (CleanupStage.passed_of_refersTo hrest hother)
    exact ⟨fun hok => ⟨(List.suffix_cons stage rest).trans hrest,ht₂,fun _ hother => hd.unrecorded hok hpassed hother⟩,
      fun _ _ => ht₂⟩
  · rintro r h' ⟨hok,herror⟩
    cases r with
    | ok _ =>
      obtain ⟨_,ht',hpassed⟩ := hok rfl
      exact ⟨ht',fun _ stage => hpassed stage List.not_mem_nil⟩
    | error e => exact ⟨herror e rfl,nofun⟩

theorem cleanups (ht : Torn h₀ calls h) (plans : List Plan) :
    Torn h₀ (history h plans ++ calls) (IngressGce.cleanups h plans) := by
  induction plans generalizing h calls with
  | nil => exact ht
  | cons plan plans ih =>
    have hnext := ih (ht.cleanup plan).1
    rw [history,List.append_assoc]
    exact hnext

theorem no_certificate (ht : Torn h₀ calls h) (htls : h₀.l7.runtimeInfo.tlsName ≠ []) :
    ∀ c ∈ calls, c.stage ≠ .sslCert := by
  intro c hc hstage
  obtain ⟨o,hrecorded,_⟩ := (ht.orderly c hc).target
  exact htls ((CleanupStage.recorded_eq_some_iff.mp hrecorded).2 hstage)

end Torn

/-- In any sequence of calls of `Cleanup`, with any failures, nothing is deleted while a
recorded resource that refers to it exists; what is recorded in the end is what was
recorded at first and has not been deleted yet; a certificate that was not made from a
secret is left alone; and a further call, which completes if nothing fails, leaves nothing
that was recorded in the cloud when it returns without error. -/
theorem cleanups_orderly (h : Hop) (plans : List Plan) :
    (∀ c ∈ history h plans, c.Orderly h.l7) ∧
    (∀ (stage : CleanupStage) (o : Object stage.kind), stage.field (cleanups h plans).l7 = some o ↔
      stage.field h.l7 = some o ∧ ∀ c ∈ history h plans, c.stage = stage → ¬c.Answered) ∧
    (h.l7.runtimeInfo.tlsName ≠ [] →
      (cleanups h plans).l7.sslCert = h.l7.sslCert ∧ ∀ c ∈ history h plans, c.stage ≠ .sslCert) ∧
    ∀ plan : Plan, Ensures (cleanup plan) (cleanups h plans).reset (fun r h' =>
      (r = .ok () → ∀ (stage : CleanupStage) (o : Object stage.kind), stage.recorded h.l7 = some o →
        h'.cloud stage.kind o.name = none) ∧
      ((∀ stage, plan.fault (.cleanup stage) = none) → r = .ok ())) := by
  have ht : Torn h (history h plans) (cleanups h plans) := by
    have hcleanups := (Torn.start h).cleanups plans
    rwa [List.append_nil] at hcleanups
  refine ⟨ht.orderly,fun stage o => ht.field_eq_some_iff,?_,?_⟩
  · intro htls
    have hnone := ht.no_certificate htls
    exact ⟨ht.kept .sslCert fun c hc hstage => absurd hstage (hnone c hc),hnone⟩
  · intro plan
    have hcompletes : Ensures (cleanup plan) (cleanups h plans).reset (fun r _ =>
        (∀ stage, plan.fault (.cleanup stage) = none) → r = .ok ()) := fun hfault => cleanup_completes plan hfault _
    refine ((ht.cleanup plan).and hcompletes).mono ?_
    rintro r h' ⟨⟨ht',hforgotten⟩,hcompletes⟩
    refine ⟨?_,hcompletes⟩
    intro hr stage o hrecorded
    refine (ht'.gone stage o hrecorded).resolve_left ?_
    rw [hforgotten hr stage]
    nofun

end IngressGce
