import IngressGce.LoadBalancer.Manages

/-! # Forwarding rules and their address

A forwarding rule is kept when it has the wanted address and ports, and is
deleted and created anew otherwise. The address asked for is recomputed for
each rule, from the user's static address, from the address recorded for the
load balancer, or not at all.
-/
namespace IngressGce
open Prog
variable (G : SelfLinks) (plan : Plan)

section Rule
variable (protocol : NamerProtocol) (name proxyLink ip portRange : Str)

abbrev ruleSites : List Site :=
  [.ruleGet protocol,.ruleDelete protocol,.ruleCreate protocol,.ruleReadBack protocol,.ruleSetProxy protocol]

/-- What pointing a rule at its proxy keeps of the rule. -/
structure RulePointed (s : Stored .forwardingRule) (h : Hop) (r : Except Failure ForwardingRule)
    (h' : Hop) : Prop where
  l7 : h'.l7 = h.l7
  manages : Manages .forwardingRule name False (Event.At [.ruleSetProxy protocol]) h h'
  stored : ∃ s', h'.cloud .forwardingRule name = some s' ∧ s'.createdFor = s.createdFor ∧
    s'.body.ipAddress = s.body.ipAddress ∧ s'.body.portRange = s.body.portRange ∧
    (∀ fw, r = .ok fw → s'.body.target = proxyLink)

/-- A rule that has the right target is not touched. -/
theorem pointRule_aligned {h : Hop} {fw : ForwardingRule} (ht : fw.body.target = proxyLink)
    (hne : proxyLink ≠ []) : Ensures (pointRule plan protocol proxyLink fw) h (fun r _ => r = .ok fw) := by
  have hcmp : compareLinks fw.body.target proxyLink = true := by
    simp [compareLinks,ht,hne]
  simp [pointRule,hcmp]

theorem pointRule_spec {h : Hop} {s : Stored .forwardingRule} (hs : h.cloud .forwardingRule name = some s) :
    Ensures (pointRule plan protocol proxyLink (s.view G name)) h (fun r h' =>
      RulePointed protocol name proxyLink s h r h' ∧ ∀ fw, r = .ok fw → fw = s.view G name) := by
  rw [pointRule,ensures_bind,setProxyForGlobalForwardingRule]
  refine Ensures.mono (relink_spec plan (fun b : ForwardingRuleBody => b.target = proxyLink) hs id ?_) ?_
  · rfl
  rintro r h' ⟨hl7,hm,s',hs',hfor,hbody,hgood⟩
  have hip : s'.body.ipAddress = s.body.ipAddress := by
    rcases hbody with hbody | hbody <;> rw [hbody]
  have hport : s'.body.portRange = s.body.portRange := by
    rcases hbody with hbody | hbody <;> rw [hbody]
  cases r with
  | error e => exact ⟨⟨hl7,hm,s',hs',hfor,hip,hport,by simp⟩,by simp⟩
  | ok _ =>
    rw [afterwards_ok,ensures_pure]
    exact ⟨⟨hl7,hm,s',hs',hfor,hip,hport,fun _ _ => hgood rfl⟩,fun fw hfw => (Except.ok.inj hfw).symm⟩

structure RuleCreated (h : Hop) (r : Except Failure ForwardingRule) (h' : Hop) : Prop where
  l7 : h'.l7 = h.l7
  manages : Manages .forwardingRule name
    (plan.Loses (.ruleCreate protocol) (.ruleReadBack protocol) ∨ proxyLink = [] ∨ ∃ fw, r = .ok fw)
    (Event.At [.ruleCreate protocol,.ruleReadBack protocol,.ruleSetProxy protocol]) h h'
  taken : ∀ s, h.cloud .forwardingRule name = some s → h'.cloud = h.cloud
  ok : ∀ fw, r = .ok fw → fw.name = name ∧ h.cloud .forwardingRule name = none ∧
    ∃ s, h'.cloud .forwardingRule name = some s ∧ s.body.target = proxyLink ∧
      s.body.portRange = portRange ∧ s.body.ipAddress = (if ip = [] then plan.ephemeral protocol else ip) ∧
      fw.body.ipAddress = s.body.ipAddress

theorem createRule_spec (h : Hop) : Ensures (createRule G plan protocol name proxyLink ip portRange) h
    (RuleCreated plan protocol name proxyLink ip portRange h) := by
  rw [createRule,createGlobalForwardingRule,ensures_bind]
  refine ensures_create G plan ?_ ?_ ?_
  · intro e h' hl7 hc hl
    exact ⟨hl7,.of_same hc (hl.mono fun _ he => he.mono (by simp)),fun _ _ => hc,by simp⟩
  · intro e s h' hn hlost hs hl7 hc hl
    exact ⟨hl7,.of_create hs.createdFor_eq (Or.inl hlost) hc (hl.mono fun _ he => he.mono (by simp)),
      by simp [hn],by simp⟩
  · intro s₁ h₁ hn hs₁ hl7 hc hl
    have hcloud₁ : h₁.cloud .forwardingRule name = some s₁ := by rw [hc,Cloud.set_self]
    have hbody₁ := hs₁.body_eq
    have halign : Ensures (pointRule plan protocol proxyLink (s₁.view G name)) h₁
        (fun r _ => proxyLink = [] ∨ ∃ fw, r = .ok fw) := by
      by_cases hne : proxyLink = []
      · exact Or.inl hne
      · exact (pointRule_aligned plan protocol proxyLink (by simp [Stored.view,hbody₁]; rfl) hne).mono
          fun r _ hr => Or.inr ⟨_,hr⟩
    refine Ensures.mono ((pointRule_spec G plan protocol name proxyLink hcloud₁).and halign) ?_
    rintro r h₂ ⟨⟨⟨hl7',hm,s₂,hs₂,-,hip,hport,htarget⟩,hfw⟩,hok⟩
    refine ⟨hl7'.trans hl7,?_,by simp [hn],?_⟩
    · exact Manages.trans (.of_create hs₁.createdFor_eq (Or.inr hok) hc
        (hl.mono fun _ he => he.mono (by simp))) (congrArg L7.name hl7)
        (hm.mono False.elim fun _ he => he.mono (by simp))
    · intro fw hr
      refine ⟨by rw [hfw fw hr]; rfl,hn,s₂,hs₂,htarget fw hr,?_,?_,?_⟩
      · rw [hport,hbody₁]; rfl
      · rw [hip,hbody₁]; rfl
      · rw [hfw fw hr,hip]; rfl

/-- The address of a rule once it has been checked: the one asked for, or else that
of the rule found on the right ports, or else what the cloud allocates. -/
def ruleAddress (ephemeral : Str) (found : Option (Stored .forwardingRule)) : Str :=
  if ip = [] then
    match found with
    | some s => if s.body.portRange = portRange then s.body.ipAddress else ephemeral
    | none => ephemeral
  else ip

/-- A rule under the name is still there, neither moved to another address or port nor
created anew. -/
def RuleKept (c c' : Cloud) : Prop :=
  ∀ s, c .forwardingRule name = some s → ∃ s', c' .forwardingRule name = some s' ∧
    s'.createdFor = s.createdFor ∧ s'.body.ipAddress = s.body.ipAddress ∧ s'.body.portRange = s.body.portRange

structure RulePost (h : Hop) (r : Except Failure ForwardingRule) (h' : Hop) : Prop where
  l7 : h'.l7 = h.l7
  manages : Manages .forwardingRule name
    (plan.Loses (.ruleCreate protocol) (.ruleReadBack protocol) ∨ proxyLink = [] ∨ ∃ fw, r = .ok fw)
    (fun e => e.At (ruleSites protocol) ∨ e = .checkForwardingRule h.l7.name protocol ip) h h'
  ok : ∀ fw, r = .ok fw → fw.name = name ∧ ∃ s, h'.cloud .forwardingRule name = some s ∧
    s.body.target = proxyLink ∧ s.body.portRange = portRange ∧
    s.body.ipAddress = ruleAddress ip portRange (plan.ephemeral protocol) (h.cloud .forwardingRule name) ∧
    fw.body.ipAddress = s.body.ipAddress
  kept : (∀ s, h.cloud .forwardingRule name = some s → ruleMatches ip portRange s.body = true) →
    h.LogOnly (fun e => ¬e.At [.ruleDelete protocol]) h' ∧ RuleKept name h.cloud h'.cloud

theorem ruleAddress_of_matches (ephemeral : Str) {s : Stored .forwardingRule}
    (hm : ruleMatches ip portRange s.body = true) :
    s.body.ipAddress = ruleAddress ip portRange ephemeral (some s) := by
  simp only [ruleMatches,Bool.and_eq_true,Bool.or_eq_true,beq_iff_eq] at hm
  unfold ruleAddress
  split
  · exact (if_pos hm.2).symm
  · rename_i hne
    exact hm.1.resolve_left hne

theorem ruleAddress_of_not_matches (ephemeral : Str) {s : Stored .forwardingRule}
    (hm : ruleMatches ip portRange s.body = false) :
    ruleAddress ip portRange ephemeral (some s) = if ip = [] then ephemeral else ip := by
  unfold ruleAddress
  split
  · rename_i hip
    refine if_neg ?_
    intro hport
    simp [ruleMatches,hip,hport] at hm
  · rfl

/-- What `checkForwardingRule` records up to the lookup of the rule. -/
abbrev LookedUp (h h₁ : Hop) : Prop :=
  h.LogOnly (fun e => (e.At (ruleSites protocol) ∨ e = .checkForwardingRule h.l7.name protocol ip) ∧
    ¬e.At [.ruleDelete protocol]) h₁

section Branches
variable {G plan protocol name proxyLink ip portRange} {h h₁ h' : Hop} {r : Except Failure ForwardingRule}

theorem LookedUp.manages (hl : LookedUp protocol ip h h₁) (hc : h₁.cloud = h.cloud) {accounted : Prop} :
    Manages .forwardingRule name accounted
      (fun e => e.At (ruleSites protocol) ∨ e = .checkForwardingRule h.l7.name protocol ip) h h₁ :=
  .of_same hc (hl.mono fun _ he => he.1)

/-- No rule was seen, and one has been created or was there all the same. -/
theorem RulePost.of_created (hl : LookedUp protocol ip h h₁) (hl7 : h₁.l7 = h.l7) (hc : h₁.cloud = h.cloud)
    (hp : RuleCreated plan protocol name proxyLink ip portRange h₁ r h') :
    RulePost plan protocol name proxyLink ip portRange h r h' where
  l7 := hp.l7.trans hl7
  manages := (hl.manages hc).trans (congrArg L7.name hl7)
    (hp.manages.mono id fun _ he => Or.inl (he.mono (by simp)))
  ok fw hr := by
    obtain ⟨hn,hnone,s,hs,ht,hport,hip,hfw⟩ := hp.ok fw hr
    rw [hc] at hnone
    refine ⟨hn,s,hs,ht,hport,?_,hfw⟩
    rw [hip,hnone]
    rfl
  kept _ := by
    refine ⟨(hl.mono fun _ he => he.2).trans (hp.manages.log.mono fun _ he => he.not_at (by simp)),?_⟩
    intro s hs
    refine ⟨s,?_,rfl,rfl,rfl⟩
    rw [hp.taken s (by rw [hc,hs]),hc,hs]

/-- The rule that was found is as wanted and is pointed at the proxy. -/
theorem RulePost.of_pointed {s : Stored .forwardingRule} (hl : LookedUp protocol ip h h₁) (hl7 : h₁.l7 = h.l7)
    (hc : h₁.cloud = h.cloud) (hs : h.cloud .forwardingRule name = some s)
    (hmatch : ruleMatches ip portRange s.body = true) (hp : RulePointed protocol name proxyLink s h₁ r h')
    (hfw : ∀ fw, r = .ok fw → fw = s.view G name) :
    RulePost plan protocol name proxyLink ip portRange h r h' := by
  obtain ⟨hl7',hm,s',hs',hfor,hip,hport,htarget⟩ := hp
  refine ⟨hl7'.trans hl7,?_,?_,?_⟩
  · exact (hl.manages hc).trans (congrArg L7.name hl7)
      (hm.mono False.elim fun _ he => Or.inl (he.mono (by simp)))
  · intro fw hr
    obtain rfl := hfw fw hr
    have hwanted : s.body.portRange = portRange := by
      simp only [ruleMatches,Bool.and_eq_true,beq_iff_eq] at hmatch
      exact hmatch.2
    refine ⟨rfl,s',hs',htarget _ hr,hport.trans hwanted,?_,hip.symm⟩
    rw [hip,hs]
    exact ruleAddress_of_matches ip portRange _ hmatch
  · intro _
    refine ⟨(hl.mono fun _ he => he.2).trans (hm.log.mono fun _ he => he.not_at (by simp)),?_⟩
    intro s₀ hs₀
    obtain rfl : s = s₀ := Option.some.inj (hs.symm.trans hs₀)
    exact ⟨s',hs',hfor,hip,hport⟩

/-- The rule that was found is not as wanted and is created anew. -/
theorem recreateRule_post {s : Stored .forwardingRule} (hl : LookedUp protocol ip h h₁) (hl7 : h₁.l7 = h.l7)
    (hc : h₁.cloud = h.cloud) (hs : h.cloud .forwardingRule name = some s)
    (hmatch : ruleMatches ip portRange s.body = false) :
    Ensures (do
      ignoreHTTPNotFound (deleteGlobalForwardingRule plan (.ruleDelete protocol) name)
      createRule G plan protocol name proxyLink ip portRange) h₁
      (RulePost plan protocol name proxyLink ip portRange h) := by
  have hmoved : ¬∀ s, h.cloud .forwardingRule name = some s → ruleMatches ip portRange s.body = true := by
    intro hall
    cases (hall s hs).symm.trans hmatch
  have hcalled : h₁.LogOnly (fun e => e.At (ruleSites protocol) ∨
      e = .checkForwardingRule h.l7.name protocol ip) (h₁.called (.ruleDelete protocol) .forwardingRule name) :=
    (Hop.LogOnly.refl _ h₁).called (Or.inl (by simp [Event.At]))
  rw [ensures_bind,deleteGlobalForwardingRule]
  refine ensures_ignoreDelete plan ?_ ?_ ?_
  · intro _ e
    exact ⟨hl7,(hl.manages hc).trans (congrArg L7.name hl7) (.of_same rfl hcalled),by simp,
      fun hall => absurd hall hmoved⟩
  · intro _ e
    exact ⟨hl7,(hl.manages hc).trans (congrArg L7.name hl7) (.of_delete rfl hcalled),by simp,
      fun hall => absurd hall hmoved⟩
  · refine (createRule_spec G plan protocol name proxyLink ip portRange _).mono ?_
    intro r h' hp
    refine ⟨hp.l7.trans hl7,?_,?_,fun hall => absurd hall hmoved⟩
    · exact ((hl.manages hc).trans (congrArg L7.name hl7) (.of_delete rfl (hcalled.setCloud _))).trans
        (congrArg L7.name hl7) (hp.manages.mono id fun _ he => Or.inl (he.mono (by simp)))
    · intro fw hr
      obtain ⟨hn,_,s',hs',ht,hport,hip,hfw⟩ := hp.ok fw hr
      refine ⟨hn,s',hs',ht,hport,?_,hfw⟩
      rw [hip,hs]
      exact (ruleAddress_of_not_matches ip portRange _ hmatch).symm

end Branches

theorem checkForwardingRule_spec (h : Hop) :
    Ensures (checkForwardingRule G plan protocol name proxyLink ip portRange) h
      (RulePost plan protocol name proxyLink ip portRange h) := by
  simp only [checkForwardingRule,ensures_bind,ensures_update,afterwards_ok,getGlobalForwardingRule,
    ensures_lookup]
  generalize hh₁ : Hop.called { h with log := .checkForwardingRule h.l7.name protocol ip :: h.log }
    (.ruleGet protocol) .forwardingRule name = h₁
  have hl7 : h₁.l7 = h.l7 := by rw [← hh₁]; rfl
  have hc : h₁.cloud = h.cloud := by rw [← hh₁]; rfl
  have hl : LookedUp protocol ip h h₁ := by
    rw [← hh₁]
    refine Hop.LogOnly.called ?_ ?_
    · intro e he
      rcases List.mem_cons.mp he with rfl | he
      · exact Or.inr ⟨Or.inr rfl,by simp [Event.At]⟩
      · exact Or.inl he
    · simp [Event.At]
  cases hseen : plan.seen G (.ruleGet protocol) .forwardingRule name h.cloud with
  | none =>
    exact (createRule_spec G plan protocol name proxyLink ip portRange h₁).mono fun r h' hp =>
      .of_created hl hl7 hc hp
  | some fw =>
    obtain ⟨s,hs,rfl⟩ := seen_eq_some G plan hseen
    rw [ensures_ite]
    constructor
    · intro hmatch
      refine (pointRule_spec G plan protocol name proxyLink (s := s) (by rw [hc,hs])).mono ?_
      rintro r h' ⟨hp,hfw⟩
      exact .of_pointed hl hl7 hc hs hmatch hp hfw
    · intro hmatch
      exact recreateRule_post hl hl7 hc hs (Bool.eq_false_iff.mpr hmatch)

end Rule

section EffectiveIP
variable (caller : IPCaller)

/-- The user's static address as the lookup made by the caller answers. -/
def Plan.userIP (l : L7) (c : Cloud) : Option Address :=
  if l.runtimeInfo.staticIPName = [] then none
  else plan.seen G (.effectiveIP caller) .address l.runtimeInfo.staticIPName c

def Plan.effectiveIP (l : L7) (c : Cloud) : Str × Bool :=
  match plan.userIP G caller l c, l.ip with
  | some ip, _ => (ip.body.address,false)
  | none, some ip => (ip.body.address,true)
  | none, none => ([],true)

theorem ensures_getEffectiveIP {h : Hop} {Q : Except Failure (Str × Bool) → Hop → Prop}
    (done : ∀ h', h'.l7 = h.l7 → h'.cloud = h.cloud → h.LogOnly (Event.At [.effectiveIP caller]) h' →
      Q (.ok (plan.effectiveIP G caller h.l7 h.cloud)) h') :
    Ensures (getEffectiveIP G plan caller) h Q := by
  simp only [getEffectiveIP,ensures_bind,ensures_this,afterwards_ok]
  by_cases hname : h.l7.runtimeInfo.staticIPName = []
  · have h₀ := done h rfl rfl (.refl _ h)
    simp only [Plan.effectiveIP,Plan.userIP,hname,↓reduceIte] at h₀ ⊢
    cases hip : h.l7.ip <;> simpa [hip] using h₀
  · have hl : h.LogOnly (Event.At [.effectiveIP caller])
        (h.called (.effectiveIP caller) .address h.l7.runtimeInfo.staticIPName) :=
      (Hop.LogOnly.refl _ h).called (by simp [Event.At])
    have h₀ := done (h.called (.effectiveIP caller) .address h.l7.runtimeInfo.staticIPName) rfl rfl hl
    simp only [Plan.effectiveIP,Plan.userIP,hname,↓reduceIte,getGlobalAddress,ensures_lookup,
      afterwards_ok] at h₀ ⊢
    cases hs : plan.seen G (.effectiveIP caller) .address h.l7.runtimeInfo.staticIPName h.cloud with
    | some a => simpa [hs] using h₀
    | none => cases hip : h.l7.ip <;> simpa [hs,hip] using h₀

end EffectiveIP

section RuleStep
variable (protocol : NamerProtocol) (caller : IPCaller) (portRange proxyLink : Str)
  (record : ForwardingRule → L7 → L7)

/-- What the check of one of the two forwarding rules leaves behind. -/
structure RuleStep (h : Hop) (r : Except Failure Unit) (h' : Hop) : Prop where
  manages : Manages .forwardingRule (Namer.forwardingRule h.l7.name protocol)
    (plan.Loses (.ruleCreate protocol) (.ruleReadBack protocol) ∨ proxyLink = [] ∨ r = .ok ())
    (fun e => e.At (.effectiveIP caller :: ruleSites protocol) ∨
      e = .checkForwardingRule h.l7.name protocol (plan.effectiveIP G caller h.l7 h.cloud).1) h h'
  failed : ∀ e, r = .error e → h'.l7 = h.l7
  ok : r = .ok () → ∃ fw s, h'.l7 = record fw h.l7 ∧
    fw.name = Namer.forwardingRule h.l7.name protocol ∧ fw.body.ipAddress = s.body.ipAddress ∧
    h'.cloud .forwardingRule (Namer.forwardingRule h.l7.name protocol) = some s ∧
    s.body.target = proxyLink ∧ s.body.portRange = portRange ∧
    s.body.ipAddress = ruleAddress (plan.effectiveIP G caller h.l7 h.cloud).1 portRange
      (plan.ephemeral protocol) (h.cloud .forwardingRule (Namer.forwardingRule h.l7.name protocol))
  kept : (∀ s, h.cloud .forwardingRule (Namer.forwardingRule h.l7.name protocol) = some s →
      ruleMatches (plan.effectiveIP G caller h.l7 h.cloud).1 portRange s.body = true) →
    h.LogOnly (fun e => ¬e.At [.ruleDelete protocol]) h' ∧
      RuleKept (Namer.forwardingRule h.l7.name protocol) h.cloud h'.cloud

theorem checkRuleFor_spec (h : Hop) : Ensures (checkRuleFor G plan protocol caller portRange proxyLink record) h
    (RuleStep G plan protocol caller portRange proxyLink record h) := by
  simp only [checkRuleFor,ensures_bind,ensures_this,afterwards_ok]
  refine ensures_getEffectiveIP G plan caller ?_
  intro h₁ hl7 hc hl
  simp only [afterwards_ok,ensures_bind]
  refine (checkForwardingRule_spec G plan protocol _ proxyLink _ portRange h₁).mono ?_
  intro r h₂ hp
  have hm : ∀ {accounted : Prop}, _ → Manages .forwardingRule (Namer.forwardingRule h.l7.name protocol)
      accounted (fun e => e.At (.effectiveIP caller :: ruleSites protocol) ∨
      e = .checkForwardingRule h.l7.name protocol (plan.effectiveIP G caller h.l7 h.cloud).1) h h₂ :=
    fun ha => Manages.trans (.of_same hc (hl.mono fun _ he => Or.inl (he.mono (by simp))))
      (congrArg L7.name hl7) (hp.manages.mono ha fun _ he => he.imp (fun he => he.mono (by simp))
        (fun he => by rw [he,hl7]))
  have hkept := hp.kept
  have hok := hp.ok
  rw [hc] at hkept hok
  have hkept' := fun hall => ((hkept hall).imp_left
    (fun h => (hl.mono fun _ he => he.not_at (by simp)).trans h))
  cases r with
  | error e =>
    refine ⟨hm fun ha => ha.imp_right fun ha => ha.imp_right (by simp),
      fun _ _ => hp.l7.trans hl7,by simp,hkept'⟩
  | ok fw =>
    rw [afterwards_ok,ensures_setL7]
    obtain ⟨hn,s,hs,ht,hport,hip,hfw⟩ := hok fw rfl
    refine ⟨(hm fun _ => Or.inr (Or.inr rfl)).record rfl rfl,by simp,?_,hkept'⟩
    intro _
    exact ⟨fw,s,by rw [hp.l7,hl7],hn,hfw,hs,ht,hport,hip⟩

end RuleStep

theorem checkHttpForwardingRule_spec (h : Hop) : Ensures (checkHttpForwardingRule G plan) h (fun r h' =>
    (h.l7.tp = none ∧ (∃ e, r = .error e) ∧ h' = h) ∨ ∃ tp, h.l7.tp = some tp ∧
      RuleStep G plan .http .http httpDefaultPortRange tp.selfLink (fun fw l => { l with fw := some fw })
        h r h') := by
  simp only [checkHttpForwardingRule,ensures_bind,ensures_this,afterwards_ok]
  cases htp : h.l7.tp with
  | none => exact Or.inl ⟨rfl,⟨_,rfl⟩,rfl⟩
  | some tp => exact (checkRuleFor_spec G plan _ _ _ _ _ h).mono fun _ _ hp => Or.inr ⟨tp,rfl,hp⟩

theorem checkHttpsForwardingRule_spec (h : Hop) : Ensures (checkHttpsForwardingRule G plan) h (fun r h' =>
    (h.l7.tps = none ∧ r = .ok () ∧ h' = h) ∨ ∃ tps, h.l7.tps = some tps ∧
      RuleStep G plan .https .https httpsDefaultPortRange tps.selfLink
        (fun fws l => { l with fws := some fws }) h r h') := by
  simp only [checkHttpsForwardingRule,ensures_bind,ensures_this,afterwards_ok]
  cases htps : h.l7.tps with
  | none => exact Or.inl ⟨rfl,rfl,rfl⟩
  | some tps => exact (checkRuleFor_spec G plan _ _ _ _ _ h).mono fun _ _ hp => Or.inr ⟨tps,rfl,hp⟩

section StaticIP

/-- The reservation is answered in a way the source takes for success. -/
def Plan.reserveTaken (name : Str) (c : Cloud) : Bool :=
  match plan.fault .staticIPReserve with
  | some f => isHTTPErrorCode f.error statusConflict || isHTTPErrorCode f.error statusBadRequest
  | none => (c .address name).isSome

/-- The reservation takes effect if the name is free. -/
def Plan.reserveApplied : Bool := (plan.fault .staticIPReserve).all Fault.applied

structure Reserved (name : Str) (body : AddressBody) (h : Hop) (r : Except Failure Bool) (h' : Hop) :
    Prop where
  l7 : h'.l7 = h.l7
  log : h.LogOnly (Event.At [.staticIPReserve]) h'
  inserted : h.cloud .address name = none → plan.reserveApplied = true →
    ∃ s, s.Fresh [] body h.l7.name ∧ h'.cloud = h.cloud.set .address name (some s)
  same : h.cloud .address name = none ∧ plan.reserveApplied = true ∨ h'.cloud = h.cloud
  taken : r = .ok false → plan.reserveTaken name h.cloud = true
  done : r = .ok true ↔ plan.fault .staticIPReserve = none ∧ h.cloud .address name = none

theorem reserveUnlessTaken_spec (name : Str) (body : AddressBody) (h : Hop) :
    Ensures (reserveUnlessTaken plan name body) h (Reserved plan name body h) := by
  have hlog : h.LogOnly (Event.At [.staticIPReserve]) (h.called .staticIPReserve .address name) :=
    (Hop.LogOnly.refl _ h).called (by simp [Event.At])
  simp only [reserveUnlessTaken,reserveGlobalAddress,insert,write,ensures_rescue,ensures_bind,ensures_state,
    ensures_update,afterwards_ok]
  cases hf : plan.fault .staticIPReserve with
  | none =>
    cases hc : h.cloud .address name with
    | none =>
      simp only [Option.isSome_none,Bool.false_eq_true,↓reduceIte,ensures_update,afterwards_ok,ensures_pure,
        rescued_ok,Option.getD_none]
      exact ⟨rfl,hlog,fun _ _ => ⟨_,⟨rfl,rfl⟩,rfl⟩,Or.inl ⟨hc,by simp [Plan.reserveApplied,hf]⟩,by simp,
        by simp [hf,hc]⟩
    | some s =>
      simp only [Option.isSome_some,↓reduceIte,ensures_returnError,afterwards_error,rescued_error]
      rw [ensures_ite]
      refine ⟨fun _ => ?_,fun hcode => absurd rfl hcode⟩
      rw [ensures_pure]
      exact ⟨rfl,hlog,by simp [hc],Or.inr rfl,by simp [Plan.reserveTaken,hf,hc],by simp [hc]⟩
  | some f =>
    have hhandled : ∀ h', h'.l7 = h.l7 → h.LogOnly (Event.At [.staticIPReserve]) h' →
        (h.cloud .address name = none → plan.reserveApplied = true →
          ∃ s, s.Fresh [] body h.l7.name ∧ h'.cloud = h.cloud.set .address name (some s)) →
        (h.cloud .address name = none ∧ plan.reserveApplied = true ∨ h'.cloud = h.cloud) →
        Ensures (if isHTTPErrorCode f.error statusConflict || isHTTPErrorCode f.error statusBadRequest
          then pure false else returnError f.error) h' (Reserved plan name body h) := by
      intro h' hl7 hl hins hsame
      rw [ensures_ite,ensures_pure,ensures_returnError]
      constructor
      · intro hcode
        exact ⟨hl7,hl,hins,hsame,fun _ => by rw [Plan.reserveTaken,hf]; exact hcode,by simp [hf]⟩
      · intro _
        exact ⟨hl7,hl,hins,hsame,by simp,by simp [hf]⟩
    cases ha : f.applied with
    | false =>
      simp only [Bool.false_eq_true,↓reduceIte,ha,ensures_returnError,afterwards_error,rescued_error]
      exact hhandled _ rfl hlog (by simp [Plan.reserveApplied,hf,ha]) (Or.inr rfl)
    | true =>
      simp only [↓reduceIte,ha,ensures_bind,ensures_update,ensures_returnError,afterwards_ok,
        afterwards_error,rescued_error]
      cases hc : h.cloud .address name with
      | none =>
        exact hhandled _ rfl hlog (fun _ _ => ⟨_,⟨rfl,rfl⟩,rfl⟩)
          (Or.inl ⟨hc,by simp [Plan.reserveApplied,hf,ha]⟩)
      | some s => exact hhandled _ rfl hlog (by simp [hc]) (Or.inr (Cloud.set_of_eq hc))

/-- A reservation that is not reported as done inserts an address only if its
reply was lost. -/
theorem Reserved.manages {name : Str} {body : AddressBody} {h h' : Hop} {r : Except Failure Bool}
    (hp : Reserved plan name body h r h') (hr : r ≠ .ok true) :
    Manages .address name (plan.Applies .staticIPReserve) (Event.At [.staticIPReserve]) h h' := by
  rcases hp.same with ⟨hn,ha⟩ | hc
  · obtain ⟨s,hs,hc⟩ := hp.inserted hn ha
    refine .of_create hs.createdFor_eq ?_ hc hp.log
    cases hf : plan.fault .staticIPReserve with
    | none => exact absurd (hp.done.mpr ⟨hf,hn⟩) hr
    | some f => exact ⟨f,hf,by simpa [Plan.reserveApplied,hf] using ha⟩
  · exact .of_same hc hp.log

/-- The address of the recorded HTTP forwarding rule. -/
def L7.ruleIP (l : L7) : Str := (l.fw.map (fun fw => fw.body.ipAddress)).getD []

/-- The address recorded once the static address has been checked. -/
def Plan.staticIPAfter (l : L7) (c : Cloud) : Option Address :=
  if (plan.effectiveIP G .staticIP l c).2 = false then l.ip
  else
    match plan.seen G .staticIPGet .address (Namer.forwardingRule l.name .http) c with
    | some ip => some ip
    | none =>
      if plan.reserveTaken (Namer.forwardingRule l.name .http) c then l.ip
      else some
        { name := Namer.forwardingRule l.name .http
          selfLink := G.link .address (Namer.forwardingRule l.name .http)
          body := { address := l.ruleIP } }

/-- The check reserves an address in the cloud. -/
def Plan.reserves (l : L7) (c : Cloud) : Bool :=
  (plan.effectiveIP G .staticIP l c).2 && (c .address (Namer.forwardingRule l.name .http)).isNone &&
    plan.reserveApplied

abbrev staticIPSites : List Site :=
  [.effectiveIP .staticIP,.staticIPGet,.staticIPReserve,.staticIPReadBack]

structure StaticIPPost (h : Hop) (r : Except Failure Unit) (h' : Hop) : Prop where
  manages : Manages .address (Namer.forwardingRule h.l7.name .http)
    (plan.Loses .staticIPReserve .staticIPReadBack ∨ Recorded h'.l7.ip (Namer.forwardingRule h.l7.name .http))
    (Event.At staticIPSites) h h'
  l7 : h'.l7 = { h.l7 with ip := h'.l7.ip }
  named : h'.l7.ip = h.l7.ip ∨ Recorded h'.l7.ip (Namer.forwardingRule h.l7.name .http)
  ok : r = .ok () → h.l7.ruleIP ≠ [] ∧ h'.l7.ip = plan.staticIPAfter G h.l7 h.cloud ∧
    (plan.reserves G h.l7 h.cloud = false → h'.cloud = h.cloud) ∧
    (plan.reserves G h.l7 h.cloud = true → ∃ s, s.Fresh [] { address := h.l7.ruleIP } h.l7.name ∧
      h'.cloud = h.cloud.set .address (Namer.forwardingRule h.l7.name .http) (some s))

section Reserving
variable {G plan} {h h₂ h₃ : Hop}

/-- What the reservation does to the cloud, when the address is the controller's to manage. -/
theorem Reserved.reserves {r : Except Failure Bool}
    (hp : Reserved plan (Namer.forwardingRule h.l7.name .http) { address := h.l7.ruleIP } h₂ r h₃)
    (hl7 : h₂.l7 = h.l7) (hc : h₂.cloud = h.cloud) (hmanaged : (plan.effectiveIP G .staticIP h.l7 h.cloud).2 = true) :
    (plan.reserves G h.l7 h.cloud = false → h₃.cloud = h.cloud) ∧
    (plan.reserves G h.l7 h.cloud = true → ∃ s, s.Fresh [] { address := h.l7.ruleIP } h.l7.name ∧
      h₃.cloud = h.cloud.set .address (Namer.forwardingRule h.l7.name .http) (some s)) := by
  have hreserves : plan.reserves G h.l7 h.cloud = true ↔
      h₂.cloud .address (Namer.forwardingRule h.l7.name .http) = none ∧ plan.reserveApplied = true := by
    simp [Plan.reserves,hmanaged,hc]
  constructor
  · intro hres
    rcases hp.same with hins | hc₃
    · rw [hreserves.mpr hins] at hres
      cases hres
    · exact hc₃.trans hc
  · intro hres
    obtain ⟨hn,ha⟩ := hreserves.mp hres
    have hs := hp.inserted hn ha
    rw [hc,hl7] at hs
    exact hs

/-- The read after a reservation that was done. -/
theorem readReserved_post {s : Stored .address} (hl7 : h₃.l7 = h.l7) (hlog : h.LogOnly (Event.At staticIPSites) h₃)
    (hs : s.Fresh [] { address := h.l7.ruleIP } h.l7.name)
    (hc : h₃.cloud = h.cloud.set .address (Namer.forwardingRule h.l7.name .http) (some s))
    (hok : h.l7.ruleIP ≠ [] ∧ plan.staticIPAfter G h.l7 h.cloud =
        some (s.view G (Namer.forwardingRule h.l7.name .http)) ∧ plan.reserves G h.l7 h.cloud = true) :
    Ensures (do
      let ip ← read G plan .staticIPReadBack .address (Namer.forwardingRule h.l7.name .http)
      setL7 (fun l => { l with ip := some ip })) h₃ (StaticIPPost G plan h) := by
  have hlog' : h.LogOnly (Event.At staticIPSites)
      (h₃.called .staticIPReadBack .address (Namer.forwardingRule h.l7.name .http)) :=
    hlog.called (by simp [Event.At])
  rw [ensures_bind]
  refine ensures_read G plan ?_ ?_ ?_
  · intro f hfault
    exact ⟨.of_create hs.createdFor_eq (Or.inl (Or.inl (by simp [hfault]))) hc hlog',
      by rw [Hop.called_l7,hl7],Or.inl (by rw [Hop.called_l7,hl7]),by simp⟩
  · intro hmissing
    simp [hc] at hmissing
  · intro s' hs'
    obtain rfl : s = s' := by simpa [hc] using hs'
    rw [afterwards_ok,ensures_setL7]
    refine ⟨.of_create hs.createdFor_eq (Or.inr (by simp [Stored.view])) hc hlog',
      by rw [Hop.called_l7,hl7],Or.inr (by simp [Stored.view]),?_⟩
    intro _
    obtain ⟨hne,hafter,hres⟩ := hok
    exact ⟨hne,hafter.symm,by simp [hres],fun _ => ⟨s,hs,hc⟩⟩

/-- The last part of `checkStaticIP`, entered without an address of the controller. -/
theorem reserveStaticIP_post (hl7 : h₂.l7 = h.l7) (hc : h₂.cloud = h.cloud)
    (hlog : h.LogOnly (Event.At staticIPSites) h₂) (hne : h.l7.ruleIP ≠ [])
    (hmanaged : (plan.effectiveIP G .staticIP h.l7 h.cloud).2 = true)
    (hseen : plan.seen G .staticIPGet .address (Namer.forwardingRule h.l7.name .http) h.cloud = none) :
    Ensures (do
      let reserved ← reserveUnlessTaken plan (Namer.forwardingRule h.l7.name .http) { address := h.l7.ruleIP }
      if reserved = false then pure ()
      else
        let ip ← read G plan .staticIPReadBack .address (Namer.forwardingRule h.l7.name .http)
        setL7 (fun l => { l with ip := some ip })) h₂ (StaticIPPost G plan h) := by
  rw [ensures_bind]
  refine (reserveUnlessTaken_spec plan _ _ h₂).mono ?_
  intro r h₃ hp
  have hl7₃ : h₃.l7 = h.l7 := hp.l7.trans hl7
  obtain ⟨hsame,hinserted⟩ := hp.reserves hl7 hc hmanaged
  have hfail : ∀ {accounted : Prop}, (plan.Applies .staticIPReserve → accounted) → r ≠ .ok true →
      Manages .address (Namer.forwardingRule h.l7.name .http) accounted (Event.At staticIPSites) h h₃ :=
    fun ha hr => (hp.manages plan hr).after hlog hl7 hc ha (by simp)
  cases r with
  | error e =>
    exact ⟨hfail (fun ha => Or.inl (Or.inr ha)) (by simp),by rw [hl7₃],Or.inl (by rw [hl7₃]),by simp⟩
  | ok reserved =>
    rw [afterwards_ok,ensures_ite,ensures_pure]
    constructor
    · intro hr
      subst hr
      refine ⟨hfail (fun ha => Or.inl (Or.inr ha)) (by simp),by rw [hl7₃],Or.inl (by rw [hl7₃]),?_⟩
      intro _
      have htaken := hp.taken rfl
      rw [hc] at htaken
      exact ⟨hne,by simp [hl7₃,Plan.staticIPAfter,hmanaged,hseen,htaken],hsame,hinserted⟩
    · intro hr
      obtain rfl : reserved = true := by simpa using hr
      obtain ⟨hf,hn⟩ := hp.done.mp rfl
      rw [hc] at hn
      have hres : plan.reserves G h.l7 h.cloud = true := by simp [Plan.reserves,hmanaged,hn,Plan.reserveApplied,hf]
      have hfree : plan.reserveTaken (Namer.forwardingRule h.l7.name .http) h.cloud = false := by
        simp [Plan.reserveTaken,hf,hn]
      obtain ⟨s,hs,hc₃⟩ := hinserted hres
      refine readReserved_post hl7₃ (hlog.trans (hp.log.mono fun _ he => he.mono (by simp))) hs hc₃ ⟨hne,?_,hres⟩
      simp [Plan.staticIPAfter,hmanaged,hseen,hfree,Stored.view,hs.body_eq,storedBody]

end Reserving

theorem checkStaticIP_spec (h : Hop) : Ensures (checkStaticIP G plan) h (StaticIPPost G plan h) := by
  simp only [checkStaticIP,ensures_bind,ensures_this,afterwards_ok]
  rw [ensures_ite,ensures_returnError,ensures_bind]
  refine ⟨fun _ => ⟨.of_same rfl (.refl _ h),rfl,Or.inl rfl,by simp⟩,?_⟩
  intro hne
  refine ensures_getEffectiveIP G plan .staticIP ?_
  intro h₁ hl7 hc hl
  have hlog : h.LogOnly (Event.At staticIPSites) h₁ := hl.mono fun _ he => he.mono (by simp)
  rw [afterwards_ok,ensures_ite,ensures_pure]
  constructor
  · intro huser
    refine ⟨.of_same hc hlog,by rw [hl7],Or.inl (by rw [hl7]),?_⟩
    intro _
    refine ⟨hne,by rw [hl7,Plan.staticIPAfter,if_pos huser],fun _ => hc,?_⟩
    intro hres
    simp [Plan.reserves,huser] at hres
  · intro hmanaged
    simp only [ensures_bind,getGlobalAddress,ensures_lookup,afterwards_ok,hc]
    have hlog₂ : h.LogOnly (Event.At staticIPSites)
        (h₁.called .staticIPGet .address (Namer.forwardingRule h.l7.name .http)) :=
      hlog.called (by simp [Event.At])
    cases hseen : plan.seen G .staticIPGet .address (Namer.forwardingRule h.l7.name .http) h.cloud with
    | some ip =>
      obtain ⟨s,hs,rfl⟩ := seen_eq_some G plan hseen
      rw [ensures_setL7]
      refine ⟨.of_same hc hlog₂,by rw [Hop.called_l7,hl7],Or.inr (by simp [Stored.view]),?_⟩
      intro _
      refine ⟨hne,?_,fun _ => hc,?_⟩
      · rw [Plan.staticIPAfter,if_neg hmanaged,hseen]
      · intro hres
        simp [Plan.reserves,hs] at hres
    | none => exact reserveStaticIP_post hl7 hc hlog₂ hne (by simpa using hmanaged) hseen

end StaticIP

end IngressGce
