import IngressGce.LoadBalancer.Hop
import IngressGce.LoadBalancer.Cleanup

/-! # Resources a load balancer keeps track of

Apart from certificates, each resource that was created for a load balancer is
recorded in the field from which the teardown deletes it. This survives every check
of an edge hop, unless a resource is created without the source learning of it.
-/
namespace IngressGce
open Prog

/-- The name a stage of the teardown finds recorded. Certificates are left out. -/
def CleanupStage.Names (lb name : Str) : CleanupStage → Prop
  | .fw => name = Namer.forwardingRule lb .http
  | .fws => name = Namer.forwardingRule lb .https
  | .ip => name = Namer.forwardingRule lb .http
  | .tps => name = Namer.targetProxy lb .https
  | .sslCert => True
  | .tp => name = Namer.targetProxy lb .http
  | .um => name = Namer.urlMap lb

/-- Some stage of the teardown deletes the resource. -/
def L7.Tracks (l : L7) (k : Kind) (n : Str) : Prop :=
  ∃ stage : CleanupStage, stage.kind = k ∧ Recorded (stage.recorded l) n

/-- What is recorded has the names of the load balancer, and what was created for it
and is no certificate is recorded. -/
structure Tracked (l : L7) (c : Cloud) : Prop where
  named : ∀ (stage : CleanupStage) o, stage.recorded l = some o → stage.Names l.name o.name
  created : ∀ k n s, k ≠ .sslCertificate → c k n = some s → s.createdFor = some l.name → l.Tracks k n

/-- Apart from certificates, what is stored in `c'` was created for the load balancer
or has been in `c` before. -/
def Cloud.Extends (lb : Str) (c c' : Cloud) : Prop :=
  ∀ k n s', k ≠ .sslCertificate → c' k n = some s' →
    s'.createdFor = some lb ∨ ∃ s, c k n = some s ∧ s'.createdFor = s.createdFor

/-- No creation takes effect behind the back of the source: all resources are read
back after their creation, and a failed creation creates nothing. -/
structure Plan.ReadsBack (plan : Plan) : Prop where
  urlMap : ¬plan.Loses .urlMapCreate .urlMapReadBack
  proxy : ¬plan.Loses .proxyCreate .proxyReadBack
  httpsProxy : ¬plan.Loses .httpsProxyCreate .httpsProxyReadBack
  rule : ∀ protocol, ¬plan.Loses (.ruleCreate protocol) (.ruleReadBack protocol)
  staticIP : ¬plan.Loses .staticIPReserve .staticIPReadBack

section Cloud
variable {lb : Str} {c c₁ c' : Cloud}

theorem Cloud.Extends.refl (lb : Str) (c : Cloud) : Cloud.Extends lb c c := fun _ _ s' _ hs' => Or.inr ⟨s',hs',rfl⟩

theorem Cloud.Extends.trans (h₁ : Cloud.Extends lb c c₁) (h₂ : Cloud.Extends lb c₁ c') : Cloud.Extends lb c c' := by
  intro k n s' hk hs'
  rcases h₂ k n s' hk hs' with hfor | ⟨s₁,hs₁,heq⟩
  · exact Or.inl hfor
  · rcases h₁ k n s₁ hk hs₁ with hfor | ⟨s,hs,heq'⟩
    · exact Or.inl (heq.trans hfor)
    · exact Or.inr ⟨s,hs,heq.trans heq'⟩

theorem Cloud.Extends.of_others (hc : ∀ k n, k ≠ .sslCertificate → c' k n = c k n) : Cloud.Extends lb c c' :=
  fun k n s' hk hs' => Or.inr ⟨s',by rw [← hc k n hk,hs'],rfl⟩

theorem Manages.extends {k : Kind} {name : Str} {accounted : Prop} {P : Event → Prop} {h h' : Hop}
    (hm : Manages k name accounted P h h') : Cloud.Extends h.l7.name h.cloud h'.cloud := by
  intro k' n s' _ hs'
  by_cases hkn : k' = k ∧ n = name
  · obtain ⟨rfl,rfl⟩ := hkn
    rcases hm.owner s' hs' with ⟨s,hs,heq⟩ | ⟨hfor,-⟩
    · exact Or.inr ⟨s,hs,heq⟩
    · exact Or.inl hfor
  · exact Or.inr ⟨s',by rw [← hm.cloud k' n hkn,hs'],rfl⟩

end Cloud

section Hop
variable {G : SelfLinks} {plan : Plan} {h h' : Hop} {r : Except Failure Unit}

/-- A check that manages the resource of one stage keeps track of it. -/
theorem Tracked.check (stage : CleanupStage) {name : Str} {P : Event → Prop} (ht : Tracked h.l7 h.cloud)
    (hname : h'.l7.name = h.l7.name) (hnames : ∀ n, stage.Names h.l7.name n ↔ n = name)
    (hm : Manages stage.kind name (Recorded (stage.recorded h'.l7) name) P h h')
    (hother : ∀ other : CleanupStage, other ≠ stage → other.recorded h'.l7 = other.recorded h.l7)
    (hstage : stage.recorded h'.l7 = stage.recorded h.l7 ∨ Recorded (stage.recorded h'.l7) name) :
    Tracked h'.l7 h'.cloud := by
  have hkeeps : ∀ k n, h.l7.Tracks k n → h'.l7.Tracks k n := by
    rintro k n ⟨other,hkind,hrec⟩
    by_cases hne : other = stage
    · subst hne
      rcases hstage with hsame | hrec'
      · exact ⟨other,hkind,hsame ▸ hrec⟩
      · obtain ⟨o,ho,rfl⟩ := Option.map_eq_some_iff.mp hrec
        have hn := (hnames _).mp (ht.named other o ho)
        exact ⟨other,hkind,hn ▸ hrec'⟩
    · exact ⟨other,hkind,hother other hne ▸ hrec⟩
  constructor
  · intro other o ho
    rw [hname]
    by_cases hne : other = stage
    · subst hne
      rcases hstage with hsame | hrec
      · exact ht.named other o (hsame ▸ ho)
      · rw [ho,recorded_some] at hrec
        exact (hnames _).mpr hrec
    · exact ht.named other o (hother other hne ▸ ho)
  · intro k n s hk hs hfor
    rw [hname] at hfor
    by_cases hkn : k = stage.kind ∧ n = name
    · obtain ⟨rfl,rfl⟩ := hkn
      rcases hm.owner s hs with ⟨s₀,hs₀,heq⟩ | ⟨-,hrec⟩
      · exact hkeeps _ _ (ht.created _ _ s₀ hk hs₀ (heq ▸ hfor))
      · exact ⟨stage,rfl,hrec⟩
    · rw [hm.cloud k n hkn] at hs
      exact hkeeps k n (ht.created k n s hk hs hfor)

/-- What concerns certificates only is of no interest. -/
theorem Tracked.certs {l l' : L7} {c c' : Cloud} (ht : Tracked l c) (hname : l'.name = l.name)
    (hl : ∀ stage : CleanupStage, stage ≠ .sslCert → stage.recorded l' = stage.recorded l)
    (hc : ∀ k n, k ≠ .sslCertificate → c' k n = c k n) : Tracked l' c' := by
  constructor
  · intro stage o ho
    by_cases hne : stage = .sslCert
    · subst hne
      trivial
    · rw [hname]
      exact ht.named stage o (hl stage hne ▸ ho)
  · intro k n s hk hs hfor
    rw [hc k n hk] at hs
    rw [hname] at hfor
    obtain ⟨stage,hkind,hrec⟩ := ht.created k n s hk hs hfor
    have hne : stage ≠ .sslCert := by
      rintro rfl
      exact hk hkind.symm
    exact ⟨stage,hkind,hl stage hne ▸ hrec⟩

theorem UrlMapPost.tracked (hplan : plan.ReadsBack) (ht : Tracked h.l7 h.cloud) (hp : UrlMapPost G plan h r h') :
    Tracked h'.l7 h'.cloud := by
  refine ht.check .um (by rw [hp.l7]) (fun _ => Iff.rfl)
    (hp.manages.mono (fun ha => ha.resolve_left hplan.urlMap) fun _ he => he) ?_ hp.named
  intro other hne
  rw [hp.l7]
  cases other <;> first | exact absurd rfl hne | rfl

theorem ProxyPost.tracked (hplan : plan.ReadsBack) (ht : Tracked h.l7 h.cloud) (hp : ProxyPost G plan h r h') :
    Tracked h'.l7 h'.cloud := by
  refine ht.check .tp (by rw [hp.l7]) (fun _ => Iff.rfl)
    (hp.manages.mono (fun ha => ha.resolve_left hplan.proxy) fun _ he => he) ?_ hp.named
  intro other hne
  rw [hp.l7]
  cases other <;> first | exact absurd rfl hne | rfl

theorem HttpsProxyPost.tracked (hplan : plan.ReadsBack) (ht : Tracked h.l7 h.cloud)
    (hp : HttpsProxyPost G plan h r h') : Tracked h'.l7 h'.cloud := by
  refine ht.check .tps (by rw [hp.l7]) (fun _ => Iff.rfl)
    (hp.manages.mono (fun ha => ha.resolve_left hplan.httpsProxy) fun _ he => he) ?_ hp.named
  intro other hne
  rw [hp.l7]
  cases other <;> first | exact absurd rfl hne | rfl

theorem StaticIPPost.tracked (hplan : plan.ReadsBack) (ht : Tracked h.l7 h.cloud) (hp : StaticIPPost G plan h r h') :
    Tracked h'.l7 h'.cloud := by
  refine ht.check .ip (by rw [hp.l7]) (fun _ => Iff.rfl)
    (hp.manages.mono (fun ha => ha.resolve_left hplan.staticIP) fun _ he => he) ?_ hp.named
  intro other hne
  rw [hp.l7]
  cases other <;> first | exact absurd rfl hne | rfl

/-- A forwarding rule is recorded in its field if its check succeeds, and the field is
left as it is otherwise. -/
theorem RuleStep.recorded {protocol : NamerProtocol} {caller : IPCaller} {portRange proxyLink : Str}
    {record : ForwardingRule → L7 → L7} {f : L7 → Option ForwardingRule} (hf : ∀ fw l, f (record fw l) = some fw)
    (hp : RuleStep G plan protocol caller portRange proxyLink record h r h') :
    (r = .ok () → Recorded (f h'.l7) (Namer.forwardingRule h.l7.name protocol)) ∧
      (f h'.l7 = f h.l7 ∨ Recorded (f h'.l7) (Namer.forwardingRule h.l7.name protocol)) := by
  have hok : r = .ok () → Recorded (f h'.l7) (Namer.forwardingRule h.l7.name protocol) := by
    intro hr
    obtain ⟨fw,s,hl7,hname,-⟩ := hp.ok hr
    rw [hl7,hf,recorded_some]
    exact hname
  refine ⟨hok,?_⟩
  cases r with
  | error e => exact Or.inl (congrArg f (hp.failed e rfl))
  | ok _ => exact Or.inr (hok rfl)

/-- For a proxy with a self link, a created rule makes its check succeed. -/
theorem HttpRuleStep.tracked (hplan : plan.ReadsBack) {tp : TargetHttpProxy} (htp : tp.selfLink ≠ [])
    (ht : Tracked h.l7 h.cloud) (hp : HttpRuleStep G plan tp h r h') : Tracked h'.l7 h'.cloud := by
  obtain ⟨hok,hfield⟩ := RuleStep.recorded (f := L7.fw) (fun _ _ => rfl) hp
  refine ht.check .fw (HttpRuleStep.certsKept hp).name (fun _ => Iff.rfl)
    (hp.manages.mono (fun ha => hok ((ha.resolve_left (hplan.rule _)).resolve_left htp)) fun _ he => he) ?_ hfield
  intro other hne
  rcases hp.l7_eq with hl7 | ⟨fw,hl7⟩
  · rw [hl7]
  · rw [hl7]
    cases other <;> first | exact absurd rfl hne | rfl

theorem HttpsRuleStep.tracked (hplan : plan.ReadsBack) {tps : TargetHttpsProxy} (htps : tps.selfLink ≠ [])
    (ht : Tracked h.l7 h.cloud) (hp : HttpsRuleStep G plan tps h r h') : Tracked h'.l7 h'.cloud := by
  obtain ⟨hok,hfield⟩ := RuleStep.recorded (f := L7.fws) (fun _ _ => rfl) hp
  refine ht.check .fws (HttpsRuleStep.certsKept hp).name (fun _ => Iff.rfl)
    (hp.manages.mono (fun ha => hok ((ha.resolve_left (hplan.rule _)).resolve_left htps)) fun _ he => he) ?_ hfield
  intro other hne
  rcases hp.l7_eq with hl7 | ⟨fws,hl7⟩
  · rw [hl7]
  · rw [hl7]
    cases other <;> first | exact absurd rfl hne | rfl

theorem CertStep.tracked (ht : Tracked h.l7 h.cloud) (hs : CertStep G plan h r h') : Tracked h'.l7 h'.cloud := by
  refine ht.certs (by rw [hs.l7_eq]) ?_ fun k n hk => hs.others hk n
  intro stage hne
  rw [hs.l7_eq]
  cases stage <;> first | exact absurd rfl hne | rfl

theorem OldCertStep.tracked (ht : Tracked h.l7 h.cloud) (hs : OldCertStep h r h') : Tracked h'.l7 h'.cloud := by
  refine ht.certs (by rw [hs.l7_eq]) ?_ fun k n hk => hs.others hk n
  intro stage hne
  rw [hs.l7_eq]
  cases stage <;> first | exact absurd rfl hne | rfl

/-- Every check of an edge hop keeps track of what was created for the load balancer. -/
theorem preserved_tracked (hplan : plan.ReadsBack) : Preserved G plan (fun h => Tracked h.l7 h.cloud) where
  urlMap ht hp := hp.tracked hplan ht
  proxy ht hp := hp.tracked hplan ht
  httpRule htp ht hp := HttpRuleStep.tracked hplan htp ht hp
  staticIP ht hp := hp.tracked hplan ht
  cert ht hs := hs.tracked ht
  httpsProxy ht hp := hp.tracked hplan ht
  httpsRule htps ht hp := HttpsRuleStep.tracked hplan htps ht hp
  oldCert ht hs := hs.tracked ht

/-- An edge hop creates resources for its own load balancer only. -/
theorem preserved_extends (lb : Str) (c : Cloud) :
    Preserved G plan (fun h => h.l7.name = lb ∧ Cloud.Extends lb c h.cloud) where
  urlMap hI hp := ⟨by rw [hp.l7]; exact hI.1,hI.2.trans (hI.1 ▸ hp.manages.extends)⟩
  proxy hI hp := ⟨by rw [hp.l7]; exact hI.1,hI.2.trans (hI.1 ▸ hp.manages.extends)⟩
  httpRule _ hI hp :=
    ⟨(HttpRuleStep.certsKept hp).name.trans hI.1,hI.2.trans (hI.1 ▸ hp.manages.extends)⟩
  staticIP hI hp := ⟨by rw [hp.l7]; exact hI.1,hI.2.trans (hI.1 ▸ hp.manages.extends)⟩
  cert hI hs := ⟨by rw [hs.l7_eq]; exact hI.1,hI.2.trans (.of_others fun _ n hk => hs.others hk n)⟩
  httpsProxy hI hp := ⟨by rw [hp.l7]; exact hI.1,hI.2.trans (hI.1 ▸ hp.manages.extends)⟩
  httpsRule _ hI hp :=
    ⟨(HttpsRuleStep.certsKept hp).name.trans hI.1,hI.2.trans (hI.1 ▸ hp.manages.extends)⟩
  oldCert hI hs := ⟨by rw [hs.l7_eq]; exact hI.1,hI.2.trans (.of_others fun _ n hk => hs.others hk n)⟩

/-- Deleting what a stage has recorded, whether or not it is then forgotten. -/
theorem Tracked.dispose {stage : CleanupStage} {l : L7} {c : Cloud} (ht : Tracked l c) {o : Object stage.kind}
    (ho : stage.recorded l = some o) : Tracked l (c.set stage.kind o.name none) ∧
      Tracked (stage.forget l) (c.set stage.kind o.name none) := by
  refine ⟨⟨ht.named,?_⟩,⟨?_,?_⟩⟩
  · intro k n s hk hs hfor
    exact ht.created k n s hk (Cloud.of_set_none hs).1 hfor
  · intro other o' ho'
    rw [forget_name]
    by_cases hne : other = stage
    · subst hne
      rw [recorded_forget_self] at ho'
      cases ho'
    · rw [recorded_forget_of_ne hne] at ho'
      exact ht.named other o' ho'
  · intro k n s hk hs hfor
    rw [forget_name] at hfor
    obtain ⟨hs,hkn⟩ := Cloud.of_set_none hs
    obtain ⟨other,hkind,hrec⟩ := ht.created k n s hk hs hfor
    have hne : other ≠ stage := by
      rintro rfl
      rw [ho,recorded_some] at hrec
      exact hkn ⟨hkind.symm,hrec.symm⟩
    exact ⟨other,hkind,by rw [recorded_forget_of_ne hne]; exact hrec⟩

theorem Disposed.tracked {stage : CleanupStage} (ht : Tracked h.l7 h.cloud) (hd : Disposed plan stage h r h') :
    Tracked h'.l7 h'.cloud :=
  hd.rule ht fun _ ho => ht.dispose ho

theorem Disposed.shrinks {stage : CleanupStage} (hd : Disposed plan stage h r h') {k : Kind} {n : Str}
    {s : Stored k} (hs : h'.cloud k n = some s) : h.cloud k n = some s := by
  have hset : ∀ m, h.cloud.set stage.kind m none k n = some s → h.cloud k n = some s :=
    fun m hs => (Cloud.of_set_none hs).1
  exact hd.rule (I := fun _ c => c k n = some s → h.cloud k n = some s) id
    (fun o _ => ⟨hset o.name,hset o.name⟩) hs

/-- What the teardown of a load balancer that keeps track leaves behind. -/
structure TornDown (h : Hop) (r : Except Failure Unit) (h' : Hop) : Prop where
  name : h'.l7.name = h.l7.name
  tracked : Tracked h'.l7 h'.cloud
  shrinks : ∀ k n s, h'.cloud k n = some s → h.cloud k n = some s
  gone : r = .ok () → ∀ k n s, k ≠ .sslCertificate → h'.cloud k n = some s → s.createdFor ≠ some h.l7.name

theorem cleanup_tracked (ht : Tracked h.l7 h.cloud) : Ensures (cleanup plan) h (TornDown h) := by
  have hkeeps : Ensures (cleanup plan) h (fun _ h' => Tracked h'.l7 h'.cloud ∧
      ∀ k n s, h'.cloud k n = some s → h.cloud k n = some s) := by
    refine cleanup_invariant (I := fun h' => Tracked h'.l7 h'.cloud ∧
      ∀ k n s, h'.cloud k n = some s → h.cloud k n = some s) plan ?_ ⟨ht,fun _ _ _ hs => hs⟩
    rintro stage h₁ r h₂ ⟨ht₁,hshrinks₁⟩ hd
    exact ⟨hd.tracked ht₁,fun k n s hs => hshrinks₁ k n s (hd.shrinks hs)⟩
  refine ((hkeeps.and (cleanup_name plan h)).and (cleanup_forgets plan h)).mono ?_
  rintro r h' ⟨⟨⟨ht',hshrinks⟩,hname⟩,hforgets⟩
  refine ⟨hname,ht',hshrinks,?_⟩
  intro hr k n s hk hs hfor
  obtain ⟨stage,-,hrec⟩ := ht'.created k n s hk hs (hname ▸ hfor)
  rw [hforgets hr stage] at hrec
  exact not_recorded_none n hrec

end Hop

end IngressGce
