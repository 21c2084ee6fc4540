import IngressGce.LoadBalancer.State

/-! # The calls of a load balancer to the cloud

All calls of the interface `LoadBalancers` are reads, insertions, removals or
changes of one resource. A read returns the resource or not found. A write is
refused according to what is stored, and otherwise replaces it.
-/
namespace IngressGce
open Prog
variable (G : SelfLinks) (plan : Plan)

namespace Hop

def called (h : Hop) (site : Site) (k : Kind) (name : Str) : Hop :=
  { h with log := .call h.l7.name site k name h.cloud :: h.log }

def setCloud (h : Hop) (c : Cloud) : Hop := { h with cloud := c }

@[simp] theorem called_l7 (h : Hop) (site : Site) (k : Kind) (name : Str) :
    (h.called site k name).l7 = h.l7 := rfl
@[simp] theorem called_cloud (h : Hop) (site : Site) (k : Kind) (name : Str) :
    (h.called site k name).cloud = h.cloud := rfl
@[simp] theorem setCloud_l7 (h : Hop) (c : Cloud) : (h.setCloud c).l7 = h.l7 := rfl
@[simp] theorem setCloud_cloud (h : Hop) (c : Cloud) : (h.setCloud c).cloud = c := rfl
@[simp] theorem setCloud_log (h : Hop) (c : Cloud) : (h.setCloud c).log = h.log := rfl

end Hop

def returnError {α : Type} (e : GoError) : L7M α := fail (.returned e)

/-- The resource stored under a name as a read returns it. -/
def Stored.view {k : Kind} (s : Stored k) (name : Str) : Object k :=
  { name := name, selfLink := G.link k name, body := s.body }

def read (site : Site) (k : Kind) (name : Str) : L7M (Object k) := do
  let h ← state
  update (fun h => h.called site k name)
  match plan.fault site with
  | some f => returnError f.error
  | none =>
    match h.cloud k name with
    | none => returnError (.api statusNotFound)
    | some s => pure (s.view G name)

def write (site : Site) (k : Kind) (name : Str) (refuse : Option (Stored k) → Option GoError)
    (effect : Option (Stored k) → Option (Stored k)) : L7M Unit := do
  let h ← state
  let after := h.cloud.set k name (effect (h.cloud k name))
  update (fun h => h.called site k name)
  match plan.fault site with
  | some f =>
    if f.applied then update (fun h => h.setCloud after)
    returnError f.error
  | none =>
    match refuse (h.cloud k name) with
    | some e => returnError e
    | none => update (fun h => h.setCloud after)

/-- An insertion is refused when the name is taken. -/
def insert (site : Site) (k : Kind) (name : Str) (ephemeral : Str) (body : Body k) : L7M Unit := do
  let h ← state
  write plan site k name
    (fun s => if s.isSome then some (.api statusConflict) else none)
    (fun s => some (s.getD { body := storedBody ephemeral k body, createdFor := some h.l7.name }))

/-- An insertion and the read that follows it in the source; the provider does
the same for a certificate. -/
def create (site readSite : Site) (k : Kind) (name : Str) (ephemeral : Str) (body : Body k) :
    L7M (Object k) := do
  insert plan site k name ephemeral body
  read G plan readSite k name

/-- A read whose error is discarded. -/
def lookup (site : Site) (k : Kind) (name : Str) : L7M (Option (Object k)) :=
  orNil (read G plan site k name)

def refuseMissing {k : Kind} (s : Option (Stored k)) : Option GoError :=
  if s.isSome then none else some (.api statusNotFound)

def delete (site : Site) (k : Kind) (name : Str) : L7M Unit :=
  write plan site k name refuseMissing (fun _ => none)

def change (site : Site) (k : Kind) (name : Str) (f : Body k → Body k) : L7M Unit :=
  write plan site k name refuseMissing (Option.map (fun s => { s with body := f s.body }))

/-- `utils.IgnoreHTTPNotFound` around a call. -/
def ignoreHTTPNotFound (m : L7M Unit) : L7M Unit :=
  rescue m (fun
    | .returned e => if isHTTPErrorCode e statusNotFound then pure () else returnError e
    | .panicked => fail .panicked)

@[simp] theorem ensures_returnError {α : Type} (e : GoError) (h : Hop)
    (Q : Except Failure α → Hop → Prop) :
    Ensures (returnError e) h Q ↔ Q (.error (.returned e)) h := Iff.rfl

/-- The event is a call made at one of the sites. -/
def Event.At (sites : List Site) : Event → Prop
  | .call _ site _ _ _ => site ∈ sites
  | .checkForwardingRule _ _ _ => False

theorem Event.At.mono {sites sites' : List Site} {e : Event} (h : e.At sites) (hs : sites ⊆ sites') :
    e.At sites' := by
  cases e with
  | call _ _ _ _ _ => exact hs h
  | checkForwardingRule _ _ _ => exact h

theorem Event.At.not_at {sites others : List Site} {e : Event} (h : e.At sites)
    (hs : ∀ site ∈ sites, site ∉ others) : ¬e.At others := by
  cases e with
  | call _ site _ _ _ => exact hs site h
  | checkForwardingRule _ _ _ => exact h.elim

/-- Every event of `h'` that is not in `h` satisfies `P`. -/
def Hop.LogOnly (P : Event → Prop) (h h' : Hop) : Prop := ∀ e ∈ h'.log, e ∈ h.log ∨ P e

namespace Hop.LogOnly
variable {P P' : Event → Prop} {h h₁ h₂ : Hop}

theorem refl (P : Event → Prop) (h : Hop) : h.LogOnly P h := fun _ he => Or.inl he

theorem trans (h01 : h.LogOnly P h₁) (h12 : h₁.LogOnly P h₂) : h.LogOnly P h₂ := by
  intro e he
  rcases h12 e he with he | he
  · exact h01 e he
  · exact Or.inr he

theorem mono (hl : h.LogOnly P h₁) (hP : ∀ e, P e → P' e) : h.LogOnly P' h₁ := by
  intro e he
  rcases hl e he with he | he
  · exact Or.inl he
  · exact Or.inr (hP e he)

theorem called {site : Site} {k : Kind} {name : Str} (hl : h.LogOnly P h₁)
    (hP : P (.call h₁.l7.name site k name h₁.cloud)) : h.LogOnly P (h₁.called site k name) := by
  intro e he
  rcases List.mem_cons.mp he with rfl | he
  · exact Or.inr hP
  · exact hl e he

theorem setCloud (hl : h.LogOnly P h₁) (c : Cloud) : h.LogOnly P (h₁.setCloud c) := hl

end Hop.LogOnly

/-- The call at the site fails and takes effect all the same. -/
def Plan.Applies (site : Site) : Prop := ∃ f, plan.fault site = some f ∧ f.applied = true

/-- What a read with discarded error answers. -/
def Plan.seen (site : Site) (k : Kind) (name : Str) (c : Cloud) : Option (Object k) :=
  if plan.fault site = none then (c k name).map (fun s => s.view G name) else none

theorem seen_eq_some {site : Site} {k : Kind} {name : Str} {c : Cloud} {o : Object k}
    (h : plan.seen G site k name c = some o) : ∃ s, c k name = some s ∧ o = s.view G name := by
  unfold Plan.seen at h
  split at h
  · obtain ⟨s,hs,rfl⟩ := Option.map_eq_some_iff.mp h
    exact ⟨s,hs,rfl⟩
  · cases h

theorem ensures_lookup (site : Site) (k : Kind) (name : Str) (h : Hop)
    (Q : Except Failure (Option (Object k)) → Hop → Prop) :
    Ensures (lookup G plan site k name) h Q ↔
      Q (.ok (plan.seen G site k name h.cloud)) (h.called site k name) := by
  unfold lookup read Plan.seen
  cases hf : plan.fault site with
  | some f => simp [Except.toOption]
  | none => cases hc : h.cloud k name <;> simp [hc,Except.toOption]

theorem ensures_read {site : Site} {k : Kind} {name : Str} {h : Hop}
    {Q : Except Failure (Object k) → Hop → Prop}
    (failed : ∀ f, plan.fault site = some f → Q (.error (.returned f.error)) (h.called site k name))
    (missing : h.cloud k name = none →
      Q (.error (.returned (.api statusNotFound))) (h.called site k name))
    (done : ∀ s, h.cloud k name = some s → Q (.ok (s.view G name)) (h.called site k name)) :
    Ensures (read G plan site k name) h Q := by
  unfold read
  cases hf : plan.fault site with
  | some f => simpa using failed f hf
  | none =>
    cases hc : h.cloud k name with
    | none => simpa [hc] using missing hc
    | some s => simpa [hc] using done s hc

theorem ensures_write {site : Site} {k : Kind} {name : Str}
    {refuse : Option (Stored k) → Option GoError} {effect : Option (Stored k) → Option (Stored k)}
    {h : Hop} {Q : Except Failure Unit → Hop → Prop}
    (failed : ∀ f, plan.fault site = some f → Q (.error (.returned f.error)) (h.called site k name))
    (lost : ∀ f, plan.fault site = some f → plan.Applies site →
      Q (.error (.returned f.error)) ((h.called site k name).setCloud
        (h.cloud.set k name (effect (h.cloud k name)))))
    (refused : ∀ e, refuse (h.cloud k name) = some e →
      Q (.error (.returned e)) (h.called site k name))
    (done : refuse (h.cloud k name) = none → Q (.ok ()) ((h.called site k name).setCloud
      (h.cloud.set k name (effect (h.cloud k name))))) :
    Ensures (write plan site k name refuse effect) h Q := by
  unfold write
  cases hf : plan.fault site with
  | some f =>
    cases ha : f.applied with
    | false => simpa [ha] using failed f hf
    | true => simpa [ha] using lost f hf ⟨f,hf,ha⟩
  | none =>
    cases hr : refuse (h.cloud k name) with
    | some e => simpa [hr] using refused e hr
    | none => simpa [hr] using done hr

/-- What an insertion of `body` on behalf of a load balancer stores. -/
structure Stored.Fresh {k : Kind} (s : Stored k) (ephemeral : Str) (body : Body k) (lb : Str) : Prop where
  body_eq : s.body = storedBody ephemeral k body
  createdFor_eq : s.createdFor = some lb

/-- A creation either changes nothing, or inserts the resource and returns it, or
inserts it and fails because the reply or the following read was lost. -/
theorem ensures_create {site readSite : Site} {k : Kind} {name ephemeral : Str} {body : Body k}
    {h : Hop} {Q : Except Failure (Object k) → Hop → Prop}
    (refused : ∀ e h', h'.l7 = h.l7 → h'.cloud = h.cloud → h.LogOnly (Event.At [site,readSite]) h' →
      Q (.error e) h')
    (lost : ∀ e s h', h.cloud k name = none → plan.fault readSite ≠ none ∨ plan.Applies site →
      s.Fresh ephemeral body h.l7.name → h'.l7 = h.l7 → h'.cloud = h.cloud.set k name (some s) →
      h.LogOnly (Event.At [site,readSite]) h' → Q (.error e) h')
    (done : ∀ s h', h.cloud k name = none → s.Fresh ephemeral body h.l7.name → h'.l7 = h.l7 →
      h'.cloud = h.cloud.set k name (some s) → h.LogOnly (Event.At [site,readSite]) h' →
      Q (.ok (s.view G name)) h') :
    Ensures (create G plan site readSite k name ephemeral body) h Q := by
  have hlog : h.LogOnly (Event.At [site,readSite]) (h.called site k name) :=
    (Hop.LogOnly.refl _ h).called (by simp [Event.At])
  unfold create insert
  simp only [ensures_bind,ensures_state,afterwards_ok]
  refine ensures_write plan ?_ ?_ ?_ ?_
  · intro f _
    exact refused _ _ rfl rfl hlog
  · intro f _ ha
    cases hc : h.cloud k name with
    | none => exact lost _ _ _ hc (Or.inr ha) ⟨rfl,rfl⟩ rfl rfl hlog
    | some s => exact refused _ _ rfl (Cloud.set_of_eq hc) hlog
  · intro e _
    exact refused _ _ rfl rfl hlog
  · intro hr
    have hc : h.cloud k name = none := by
      cases hc : h.cloud k name with
      | none => rfl
      | some s => simp [hc] at hr
    simp only [hc,Option.getD_none,afterwards_ok]
    refine ensures_read G plan ?_ ?_ ?_
    · intro f hf
      exact lost _ _ _ hc (Or.inl (by simp [hf])) ⟨rfl,rfl⟩ rfl rfl
        ((hlog.setCloud _).called (by simp [Event.At]))
    · intro hm
      simp at hm
    · intro s hs
      simp only [Hop.setCloud_cloud,Cloud.set_self,Option.some.injEq] at hs
      subst hs
      exact done _ _ hc ⟨rfl,rfl⟩ rfl rfl ((hlog.setCloud _).called (by simp [Event.At]))

theorem ensures_change {site : Site} {k : Kind} {name : Str} {f : Body k → Body k} {h : Hop}
    {Q : Except Failure Unit → Hop → Prop}
    (failed : ∀ e, Q (.error e) (h.called site k name))
    (lost : ∀ e s, h.cloud k name = some s → Q (.error e) ((h.called site k name).setCloud
      (h.cloud.set k name (some { s with body := f s.body }))))
    (done : ∀ s, h.cloud k name = some s → Q (.ok ()) ((h.called site k name).setCloud
      (h.cloud.set k name (some { s with body := f s.body })))) :
    Ensures (change plan site k name f) h Q := by
  unfold change
  refine ensures_write plan (fun g _ => failed _) ?_ (fun e _ => failed _) ?_
  · intro g _ _
    cases hc : h.cloud k name with
    | none =>
      rw [Option.map_none,Cloud.set_of_eq hc]
      exact failed _
    | some s => exact lost _ s hc
  · intro hr
    cases hc : h.cloud k name with
    | none => simp [refuseMissing,hc] at hr
    | some s => exact done s hc

/-- Deleting with not found ignored: unless the call fails the resource is gone. -/
theorem ensures_ignoreDelete {site : Site} {k : Kind} {name : Str} {h : Hop}
    {Q : Except Failure Unit → Hop → Prop}
    (failed : plan.fault site ≠ none → ∀ e, Q (.error e) (h.called site k name))
    (lost : plan.fault site ≠ none → ∀ e,
      Q (.error e) ((h.called site k name).setCloud (h.cloud.set k name none)))
    (done : Q (.ok ()) ((h.called site k name).setCloud (h.cloud.set k name none))) :
    Ensures (ignoreHTTPNotFound (delete plan site k name)) h Q := by
  unfold ignoreHTTPNotFound delete
  rw [ensures_rescue]
  refine ensures_write plan ?_ ?_ ?_ ?_
  · intro f hf
    simpa [f.not_notFound] using failed (by simp [hf]) _
  · intro f hf _
    simpa [f.not_notFound] using lost (by simp [hf]) _
  · intro e he
    cases hc : h.cloud k name with
    | none =>
      simp only [refuseMissing,hc,Option.isSome_none,Bool.false_eq_true,↓reduceIte,
        Option.some.injEq] at he
      subst he
      rw [Cloud.set_of_eq hc] at done
      exact done
    | some s => simp [refuseMissing,hc] at he
  · intro _
    exact done

end IngressGce
