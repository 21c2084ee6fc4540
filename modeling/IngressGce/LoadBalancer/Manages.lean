import IngressGce.LoadBalancer.EdgeHop

/-! # Managing one resource

A check of the edge hop works on one resource. It leaves every other entry of
the cloud alone, and what it finds stored afterwards was there before or was
created by it. The rules for creating a resource and for correcting a link of
one are stated in these terms.
-/
namespace IngressGce
open Prog
variable (G : SelfLinks) (plan : Plan)

/-- The creation took effect although the source is told of a failure. -/
def Plan.Loses (site readSite : Site) : Prop := plan.fault readSite ≠ none ∨ plan.Applies site

/-- The object is recorded under the name. -/
def Recorded {k : Kind} (o : Option (Object k)) (name : Str) : Prop := o.map Object.name = some name

@[simp] theorem recorded_some {k : Kind} (o : Object k) (name : Str) :
    Recorded (some o) name ↔ o.name = name := by simp [Recorded]
@[simp] theorem not_recorded_none {k : Kind} (name : Str) : ¬Recorded (none : Option (Object k)) name := by
  simp [Recorded]

/-- Between `h` and `h'` only the entry of kind `k` under `name` may have changed.
If it holds a resource afterwards, the resource has been there before or it was
created for this load balancer, and then `accounted` holds. -/
structure Manages (k : Kind) (name : Str) (accounted : Prop) (P : Event → Prop) (h h' : Hop) : Prop where
  cloud : ∀ k' n', ¬(k' = k ∧ n' = name) → h'.cloud k' n' = h.cloud k' n'
  owner : ∀ s', h'.cloud k name = some s' →
    (∃ s, h.cloud k name = some s ∧ s'.createdFor = s.createdFor) ∨
      (s'.createdFor = some h.l7.name ∧ accounted)
  log : h.LogOnly P h'

namespace Manages
variable {k : Kind} {name : Str} {accounted : Prop} {P : Event → Prop} {h h' h'' : Hop}

theorem of_same (hc : h'.cloud = h.cloud) (hl : h.LogOnly P h') : Manages k name accounted P h h' where
  cloud k' n' _ := by rw [hc]
  owner s' hs' := Or.inl ⟨s',hc ▸ hs',rfl⟩
  log := hl

theorem of_change {s s' : Stored k} (hs : h.cloud k name = some s)
    (hc : h'.cloud = h.cloud.set k name (some s')) (hs' : s'.createdFor = s.createdFor)
    (hl : h.LogOnly P h') :
    Manages k name accounted P h h' where
  cloud k' n' hne := by rw [hc,Cloud.set_of_ne _ hne]
  owner t ht := by
    rw [hc,Cloud.set_self,Option.some.injEq] at ht
    subst ht
    exact Or.inl ⟨s,hs,hs'⟩
  log := hl

theorem of_create {s : Stored k} (hs : s.createdFor = some h.l7.name) (ha : accounted)
    (hc : h'.cloud = h.cloud.set k name (some s)) (hl : h.LogOnly P h') :
    Manages k name accounted P h h' where
  cloud k' n' hne := by rw [hc,Cloud.set_of_ne _ hne]
  owner t ht := by
    rw [hc,Cloud.set_self,Option.some.injEq] at ht
    subst ht
    exact Or.inr ⟨hs,ha⟩
  log := hl

theorem of_delete (hc : h'.cloud = h.cloud.set k name none) (hl : h.LogOnly P h') :
    Manages k name accounted P h h' where
  cloud k' n' hne := by rw [hc,Cloud.set_of_ne _ hne]
  owner t ht := by
    rw [hc,Cloud.set_self] at ht
    cases ht
  log := hl

theorem trans (h₁ : Manages k name accounted P h h') (hn : h'.l7.name = h.l7.name)
    (h₂ : Manages k name accounted P h' h'') : Manages k name accounted P h h'' where
  cloud k' n' hne := (h₂.cloud k' n' hne).trans (h₁.cloud k' n' hne)
  owner t ht := by
    rcases h₂.owner t ht with ⟨s,hs,hts⟩ | ⟨hn',ha⟩
    · rcases h₁.owner s hs with ⟨s₀,hs₀,hss⟩ | ⟨hn₀,ha⟩
      · exact Or.inl ⟨s₀,hs₀,hts.trans hss⟩
      · exact Or.inr ⟨hts.trans hn₀,ha⟩
    · exact Or.inr ⟨hn'.trans (congrArg some hn),ha⟩
  log := h₁.log.trans h₂.log

theorem mono {accounted' : Prop} {P' : Event → Prop} (hm : Manages k name accounted P h h')
    (ha : accounted → accounted') (hP : ∀ e, P e → P' e) : Manages k name accounted' P' h h' where
  cloud := hm.cloud
  owner s' hs' := (hm.owner s' hs').imp_right (fun ho => ⟨ho.1,ha ho.2⟩)
  log := hm.log.mono hP

/-- Calls that only read may be put in front. -/
theorem after {accounted' : Prop} {sites sites' : List Site}
    (hm : Manages k name accounted (Event.At sites') h' h'') (hl : h.LogOnly (Event.At sites) h')
    (hl7 : h'.l7 = h.l7) (hc : h'.cloud = h.cloud) (ha : accounted → accounted')
    (hs : sites' ⊆ sites) : Manages k name accounted' (Event.At sites) h h'' :=
  (of_same hc hl).trans (congrArg L7.name hl7) (hm.mono ha fun _ he => he.mono hs)

/-- Recording a result in the load balancer is no call. -/
theorem record (hm : Manages k name accounted P h h') (hc : h''.cloud = h'.cloud)
    (hl : h''.log = h'.log) : Manages k name accounted P h h'' where
  cloud k' n' hne := by rw [hc,hm.cloud k' n' hne]
  owner s' hs' := hm.owner s' (hc ▸ hs')
  log := by
    intro e he
    exact hm.log e (hl ▸ he)

end Manages

theorem create_manages {site readSite : Site} {k : Kind} {name ephemeral : Str} {body : Body k}
    {h : Hop} {Q : Except Failure (Object k) → Hop → Prop}
    (failed : ∀ e h', h'.l7 = h.l7 →
      Manages k name (plan.Loses site readSite) (Event.At [site,readSite]) h h' → Q (.error e) h')
    (done : ∀ s h', h.cloud k name = none → s.Fresh ephemeral body h.l7.name → h'.l7 = h.l7 →
      h'.cloud = h.cloud.set k name (some s) → h.LogOnly (Event.At [site,readSite]) h' →
      Q (.ok (s.view G name)) h') :
    Ensures (create G plan site readSite k name ephemeral body) h Q := by
  refine ensures_create G plan ?_ ?_ done
  · intro e h' hl7 hc hl
    exact failed e h' hl7 (.of_same hc hl)
  · intro e s h' _ hlost hs hl7 hc hl
    exact failed e h' hl7 (.of_create hs.createdFor_eq hlost hc hl)

/-- What becomes of a stored resource whose body is set by `f` unless a link is
right already. -/
structure Relinked {k : Kind} (site : Site) (name : Str) (f : Body k → Body k) (good : Body k → Prop)
    (s : Stored k) (h : Hop) (r : Except Failure Unit) (h' : Hop) : Prop where
  l7 : h'.l7 = h.l7
  manages : Manages k name False (Event.At [site]) h h'
  stored : ∃ s', h'.cloud k name = some s' ∧ s'.createdFor = s.createdFor ∧
    (s'.body = s.body ∨ s'.body = f s.body) ∧ (r = .ok () → good s'.body)

theorem relink_spec {site : Site} {k : Kind} {name link wanted : Str} {f : Body k → Body k}
    (good : Body k → Prop) {h : Hop} {s : Stored k} (hs : h.cloud k name = some s)
    (agree : link = wanted → good s.body) (set : good (f s.body)) :
    Ensures (onlyIf (!compareLinks link wanted) (change plan site k name f)) h
      (Relinked site name f good s h) := by
  have hlog : h.LogOnly (Event.At [site]) (h.called site k name) :=
    (Hop.LogOnly.refl _ h).called (by simp [Event.At])
  have hset : ∀ s₀, h.cloud k name = some s₀ → ∀ r, Relinked site name f good s h r
      ((h.called site k name).setCloud (h.cloud.set k name (some { s₀ with body := f s₀.body }))) := by
    intro s₀ hs₀ r
    obtain rfl : s = s₀ := Option.some.inj (hs.symm.trans hs₀)
    exact ⟨rfl,.of_change hs rfl rfl hlog,_,Cloud.set_self _ _ _ _,rfl,Or.inr rfl,fun _ => set⟩
  rw [ensures_onlyIf]
  constructor
  · intro _
    refine ensures_change plan ?_ (fun e s₀ hs₀ => hset s₀ hs₀ _) (fun s₀ hs₀ => hset s₀ hs₀ _)
    intro e
    exact ⟨rfl,.of_same rfl hlog,s,hs,rfl,Or.inl rfl,by simp⟩
  · intro hl
    simp only [compareLinks,Bool.not_eq_false',Bool.and_eq_true,beq_iff_eq] at hl
    exact ⟨rfl,.of_same rfl (.refl _ h),s,hs,rfl,Or.inl rfl,fun _ => agree hl.1⟩

end IngressGce
