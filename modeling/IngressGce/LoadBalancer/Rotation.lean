import IngressGce.LoadBalancer.Hop
import IngressGce.Program.Runs

/-! # Rotating the certificate of a load balancer

The certificate of a secret is stored under one of two names in turn. The name
to use next is chosen from the certificate the load balancer has recorded, which
need not be the one its target proxy uses.
-/
namespace IngressGce
open Prog
variable (G : SelfLinks)

/-- One step in the life of a load balancer: a sync with new runtime info, or a
restart of the controller, which forgets what was recorded. -/
inductive SyncInput
  | sync (ri : L7RuntimeInfo) (plan : Plan)
  | restart

def L7.blank (name : Str) (ri : L7RuntimeInfo) (backend : Option BackendService) : L7 where
  name := name
  runtimeInfo := ri
  um := none
  tp := none
  tps := none
  fw := none
  fws := none
  ip := none
  sslCert := none
  oldSSLCert := none
  glbcDefaultBackend := backend

namespace Hop

def begin (h : Hop) (ri : L7RuntimeInfo) : Hop :=
  { h with l7 := { h.l7 with runtimeInfo := ri }, log := [] }

def sync (h : Hop) : SyncInput → Hop
  | .sync ri plan => (edgeHop G plan (h.begin ri)).2
  | .restart => { h with l7 := .blank h.l7.name h.l7.runtimeInfo h.l7.glbcDefaultBackend, log := [] }

end Hop

section Serving

def L7.CertNamed (l : L7) : Prop := ∀ cert, l.sslCert = some cert → cert.name ≠ []

/-- The certificate stored under the name is what the runtime info asks for. -/
def L7RuntimeInfo.Accepts (ri : L7RuntimeInfo) (name : Str) (s : Stored .sslCertificate) : Prop :=
  (ri.tlsName ≠ [] → name = ri.tlsName) ∧
    (ri.tlsName = [] → ∃ tls, ri.tls = some tls ∧ s.body.certificate = tls.cert)

/-- The first certificate of the HTTPS proxy exists and is the wanted one. -/
def Serves (h : Hop) : Prop :=
  ∃ proxy name s, h.cloud .targetHttpsProxy (Namer.targetProxy h.l7.name .https) = some proxy ∧
    proxy.body.sslCertificates.head? = some (G.link .sslCertificate name) ∧
    h.cloud .sslCertificate name = some s ∧ h.l7.runtimeInfo.Accepts name s

variable {G} {plan : Plan} {h h' : Hop} {r : Except Failure Unit}

theorem sslCert_name_ne_nil (lbName : Str) (isPrimary : Bool) : Namer.sslCert lbName isPrimary ≠ [] := by
  intro hnil
  have ht := congrArg (List.take 1) hnil
  unfold Namer.sslCert at ht
  split at ht <;> rw [truncate_take (by decide)] at ht <;> cases ht

theorem nextCertificateName_eq (l : L7) : ∃ isPrimary, nextCertificateName l = Namer.sslCert l.name isPrimary := by
  unfold nextCertificateName
  split
  · exact ⟨false,rfl⟩
  · exact ⟨true,rfl⟩

theorem populated_eq_some {l : L7} {c : Cloud} (hl : l.CertNamed) {cert : SslCertificate}
    (hcert : plan.populated G l c = some cert) :
    ∃ s, c .sslCertificate (plan.expectedName G l c) = some s ∧ plan.expectedName G l c ≠ [] ∧
      cert = s.view G (plan.expectedName G l c) := by
  unfold Plan.populated at hcert
  split at hcert
  · rename_i hname
    rw [Plan.expectedName,hcert] at hname
    exact absurd hname (hl cert hcert)
  · rename_i hname
    obtain ⟨s,hs,rfl⟩ := Option.map_eq_some_iff.mp hcert
    exact ⟨s,hs,hname,rfl⟩

theorem CertStep.accepted (hl : h.l7.CertNamed) (hs : CertStep G plan h (.ok ()) h') :
    ∃ name s, name ≠ [] ∧ h'.l7.sslCert = some (s.view G name) ∧ h'.cloud .sslCertificate name = some s ∧
      h.l7.runtimeInfo.Accepts name s := by
  cases hs with
  | @preShared s _ tlsName found l7 cloud log =>
    exact ⟨_,s,tlsName,congrArg L7.sslCert l7,cloud ▸ found,fun _ => rfl,fun hnil => absurd hnil tlsName⟩
  | @current tls _ tlsName tls_eq same l7 cloud log =>
    obtain ⟨cert,hcert,hcontent⟩ := Option.map_eq_some_iff.mp same
    obtain ⟨s,hs,hne,rfl⟩ := populated_eq_some hl hcert
    exact ⟨_,s,hne,(congrArg L7.sslCert l7).trans hcert,cloud ▸ hs,fun hne => absurd tlsName hne,
      fun _ => ⟨tls,tls_eq,hcontent⟩⟩
  | @replaced tls _ h₁ _ rotates l7 cloud log replaced log' =>
    cases replaced with
    | @stored s _ fresh l7' cloud' =>
      obtain ⟨b,hb⟩ := nextCertificateName_eq h₁.l7
      refine ⟨_,s,?_,congrArg L7.sslCert l7',by rw [cloud',Cloud.set_self],
        fun hne => absurd rotates.tlsName hne,fun _ => ⟨tls,rotates.tls_eq,by rw [fresh.body_eq]; rfl⟩⟩
      rw [hb]
      exact sslCert_name_ne_nil _ _

theorem obsoleteCert_ne {l : L7} {old cert : SslCertificate} (hold : l.obsoleteCert = some old)
    (hcert : l.sslCert = some cert) : old.name ≠ cert.name := by
  intro heq
  unfold L7.obsoleteCert at hold
  cases ho : l.oldSSLCert with
  | none => simp [ho] at hold
  | some o =>
    simp only [ho,hcert] at hold
    split at hold
    · cases hold
    · rename_i hkeep
      obtain rfl := Option.some.inj hold
      exact hkeep (Or.inl heq)

theorem OldCertStep.cert_eq (hs : OldCertStep h r h') {cert : SslCertificate} (hcert : h.l7.sslCert = some cert) :
    h'.cloud .sslCertificate cert.name = h.cloud .sslCertificate cert.name := by
  have hset : ∀ {old : SslCertificate}, h.l7.obsoleteCert = some old →
      h.cloud.set .sslCertificate old.name none .sslCertificate cert.name =
        h.cloud .sslCertificate cert.name := fun hold =>
    Cloud.set_name_ne _ _ (obsoleteCert_ne hold hcert).symm _
  cases hs with
  | nothing obsolete => rfl
  | failed obsolete l7 cloud log =>
    rcases cloud with cloud | cloud
    · rw [cloud]
    · rw [cloud,hset obsolete]
  | deleted obsolete l7 cloud log => rw [cloud,hset obsolete]

theorem HttpsRun.serves (hl : h.l7.CertNamed) (hr : HttpsRun G plan h (.ok ()) h') : Serves G h' := by
  cases hr with
  | @old _ tps h₁ h₂ h₃ _ cert proxy found rule old =>
    obtain ⟨name,s,-,hcert,hs,haccepts⟩ := cert.accepted hl
    obtain ⟨um,p,tps,-,hp,-,hhead,-,-⟩ := proxy.ok rfl _ hcert
    have hkept := HttpsRuleStep.certsKept rule
    have hcert₃ : h₃.l7.sslCert = some (s.view G name) := by rw [hkept.sslCert,proxy.l7]; exact hcert
    have hname : h'.l7.name = h₁.l7.name := by rw [old.l7_eq,hkept.name,proxy.l7]
    have hinfo : h'.l7.runtimeInfo = h.l7.runtimeInfo := by
      rw [old.l7_eq,hkept.info,proxy.l7,cert.l7_eq]
    refine ⟨p,name,s,?_,hhead,?_,by rw [hinfo]; exact haccepts⟩
    · rw [old.others (by simp),hkept.proxies,hname,hp]
    · rw [show name = (s.view G name).name from rfl,old.cert_eq hcert₃,hkept.certs]
      rw [proxy.manages.cloud _ _ (by simp)]
      exact hs

theorem HttpsRun.sslCert (hr : HttpsRun G plan h r h') :
    ∃ rc h₁, CertStep G plan h rc h₁ ∧ h'.l7.sslCert = h₁.l7.sslCert := by
  cases hr with
  | noCert cert => exact ⟨_,_,cert,rfl⟩
  | noProxy cert proxy => exact ⟨_,_,cert,by rw [proxy.l7]⟩
  | noRule cert proxy found rule =>
    exact ⟨_,_,cert,by rw [(HttpsRuleStep.certsKept rule).sslCert,proxy.l7]⟩
  | old cert proxy found rule old =>
    exact ⟨_,_,cert,by rw [old.l7_eq,(HttpsRuleStep.certsKept rule).sslCert,proxy.l7]⟩

theorem CertStep.sslCert_name (hl : h.l7.CertNamed) (hs : CertStep G plan h r h') {cert : SslCertificate}
    (hcert : h'.l7.sslCert = some cert) : cert.name ≠ [] ∧
      ((h.l7.runtimeInfo.tlsName ≠ [] ∧ cert.name = h.l7.runtimeInfo.tlsName) ∨ h.l7.sslCert = some cert ∨
        cert.name = plan.expectedName G h.l7 h.cloud ∨ ∃ b, cert.name = Namer.sslCert h.l7.name b) := by
  have hpop : plan.populated G h.l7 h.cloud = some cert →
      cert.name ≠ [] ∧ cert.name = plan.expectedName G h.l7 h.cloud := by
    intro hp
    obtain ⟨s,-,hne,rfl⟩ := populated_eq_some hl hp
    exact ⟨hne,rfl⟩
  cases hs with
  | preShared tlsName found l7 cloud log =>
    rw [l7,Option.some.injEq] at hcert
    subst hcert
    exact ⟨tlsName,Or.inl ⟨tlsName,rfl⟩⟩
  | unshared tlsName l7 cloud log =>
    rw [l7] at hcert
    exact ⟨hl cert hcert,Or.inr (Or.inl hcert)⟩
  | unread tlsName fault l7 cloud log =>
    rw [l7] at hcert
    cases hcert
  | noSecret tlsName l7 cloud log =>
    rw [l7] at hcert
    exact ⟨(hpop hcert).1,Or.inr (Or.inr (Or.inl (hpop hcert).2))⟩
  | current tlsName tls_eq same l7 cloud log =>
    rw [l7] at hcert
    exact ⟨(hpop hcert).1,Or.inr (Or.inr (Or.inl (hpop hcert).2))⟩
  | @replaced tls _ h₁ _ rotates l7 cloud log replaced log' =>
    cases replaced with
    | unstored l7' cloud' =>
      rw [l7',l7] at hcert
      exact ⟨(hpop hcert).1,Or.inr (Or.inr (Or.inl (hpop hcert).2))⟩
    | lost loses fresh l7' cloud' =>
      rw [l7',l7] at hcert
      exact ⟨(hpop hcert).1,Or.inr (Or.inr (Or.inl (hpop hcert).2))⟩
    | stored fresh l7' cloud' =>
      rw [l7',Option.some.injEq] at hcert
      subst hcert
      obtain ⟨b,hb⟩ := nextCertificateName_eq h₁.l7
      have hname : nextCertificateName h₁.l7 = Namer.sslCert h.l7.name b := by
        rw [hb,l7]
        rfl
      exact ⟨hname ▸ sslCert_name_ne_nil _ _,Or.inr (Or.inr (Or.inr ⟨b,hname⟩))⟩

theorem EdgeRun.certNamed (hl : h.l7.CertNamed) (hr : EdgeRun G plan h r h') : h'.l7.CertNamed := by
  intro cert hcert
  rcases hr.certsKept with ⟨hk,-⟩ | ⟨h₁,hk,-,hr⟩
  · exact hl cert (hk.sslCert ▸ hcert)
  · obtain ⟨rc,h₂,hstep,hsame⟩ := hr.sslCert
    have hl₁ : h₁.l7.CertNamed := fun c hc => hl c (hk.sslCert ▸ hc)
    exact (hstep.sslCert_name hl₁ (hsame ▸ hcert)).1

/-- In every run of syncs and restarts, from any cloud, a sync whose HTTPS part
returns without error leaves a proxy that serves the wanted certificate. The
HTTPS part is the last of the edge hop, so that the two return nil together. -/
theorem syncs_serve_wanted_cert (name : Str) (ri : L7RuntimeInfo) (backend : Option BackendService) (c : Cloud)
    (inputs : List SyncInput) :
    Runs.Along (Hop.sync G) (fun h i => ∀ ri plan, i = .sync ri plan → ri.wantsHTTPS = true →
      Ensures (edgeHop G plan) (h.begin ri) (fun r h' => r = .ok () → Serves G h'))
      { l7 := .blank name ri backend, cloud := c, log := [] } inputs := by
  refine Runs.Along.strengthen (C := fun _ _ => True) (I := fun h => h.l7.CertNamed) ?_ ?_
    (Runs.along_of_forall (fun _ _ _ => trivial) _)
  · intro h i hl _
    constructor
    · cases i with
      | sync ri plan =>
        have hbegin : (h.begin ri).l7.CertNamed := hl
        have hnamed : Ensures (edgeHop G plan) (h.begin ri) (fun _ h' => h'.l7.CertNamed) :=
          (edgeHop_spec G plan (h.begin ri)).mono fun _ _ hr => hr.certNamed hbegin
        exact hnamed
      | restart => exact fun cert hcert => by cases hcert
    · rintro ri plan rfl hwants
      refine (edgeHop_spec G plan (h.begin ri)).mono ?_
      rintro r h' hr rfl
      rcases hr.certsKept with ⟨-,hno⟩ | ⟨h₁,hk,-,hr⟩
      · exact absurd (hno rfl) (by simpa [Hop.begin] using hwants)
      · exact hr.serves fun cert hcert => hl cert (hk.sslCert ▸ hcert)
  · exact fun cert hcert => by cases hcert

end Serving

section Sparing

/-- The target proxy of the load balancer refers to the certificate. -/
def Cloud.certInUse (c : Cloud) (lb name : Str) : Bool :=
  match c .targetHttpsProxy (Namer.targetProxy lb .https) with
  | some proxy => decide (G.link .sslCertificate name ∈ proxy.body.sslCertificates)
  | none => false

/-- The event deletes a certificate in use, in order to store another under its
name. -/
def Event.hitsCertInUse : Event → Bool
  | .call lb .certDelete _ name before => before.certInUse G lb name
  | _ => false

/-- No certificate in use was deleted during the hop. -/
def Hop.Spared (h : Hop) : Prop := ∀ e ∈ h.log, e.hitsCertInUse G = false

/-- The proxy refers to at most one certificate, which exists. Names are such that
a link determines them. -/
structure Linked (h : Hop) : Prop where
  name : '/' ∉ h.l7.name
  distinct : Namer.sslCert h.l7.name true ≠ Namer.sslCert h.l7.name false
  recorded : ∀ cert, h.l7.sslCert = some cert → cert.name ≠ [] ∧ '/' ∉ cert.name
  proxy : ∀ p, h.cloud .targetHttpsProxy (Namer.targetProxy h.l7.name .https) = some p →
    p.body.sslCertificates = [] ∨ ∃ n s, '/' ∉ n ∧ p.body.sslCertificates = [G.link .sslCertificate n] ∧
      h.cloud .sslCertificate n = some s

/-- Before a sync the recorded certificate is the one the proxy uses, unless the
stored certificate has the wanted content, so that there is nothing to rotate. If
no certificate is recorded, the lookup of the proxy does not fail. -/
structure InStep (h : Hop) (ri : L7RuntimeInfo) (plan : Plan) : Prop where
  tlsName : '/' ∉ ri.tlsName
  unrecorded : h.l7.sslCert = none → plan.fault .certProxyGet = none
  recorded : ∀ cert, h.l7.sslCert = some cert →
    ∀ p, h.cloud .targetHttpsProxy (Namer.targetProxy h.l7.name .https) = some p →
      p.body.sslCertificates = [G.link .sslCertificate cert.name] ∨
      (h.cloud .sslCertificate cert.name).map (fun s => s.body.certificate) = ri.tls.map TLSCerts.cert

variable {G} {plan : Plan} {h h' : Hop} {r : Except Failure Unit}

theorem sslCert_no_slash {lbName : Str} (h : '/' ∉ lbName) (isPrimary : Bool) :
    '/' ∉ Namer.sslCert lbName isPrimary := by
  intro hmem
  unfold Namer.sslCert at hmem
  split at hmem <;> rcases mem_truncate hmem with hmem | hmem
  · simp only [List.append_assoc,List.mem_append] at hmem
    rcases hmem with hmem | hmem | hmem
    · exact absurd hmem (by decide)
    · exact absurd hmem (by decide)
    · exact h hmem
  · exact absurd hmem (by decide)
  · simp only [List.append_assoc,List.mem_append] at hmem
    rcases hmem with hmem | hmem | hmem
    · exact absurd hmem (by decide)
    · exact absurd hmem (by decide)
    · exact h hmem
  · exact absurd hmem (by decide)

theorem nextCertificateName_ne {l : L7} (hne : Namer.sslCert l.name true ≠ Namer.sslCert l.name false)
    {cert : SslCertificate} (hcert : l.sslCert = some cert) : nextCertificateName l ≠ cert.name := by
  simp only [nextCertificateName,hcert,Option.map_some,Option.some.injEq]
  split
  · rename_i hp
    rw [hp]
    exact hne.symm
  · rename_i hp
    exact Ne.symm hp

theorem populated_of_linked (hI : Linked G h) (hstep : InStep G h h.l7.runtimeInfo plan)
    {tls : TLSCerts} (hrot : Rotates G plan h tls) {p : Stored .targetHttpsProxy}
    (hp : h.cloud .targetHttpsProxy (Namer.targetProxy h.l7.name .https) = some p) {n : Str}
    {s : Stored .sslCertificate} (hslash : '/' ∉ n)
    (hlinks : p.body.sslCertificates = [G.link .sslCertificate n]) (hs : h.cloud .sslCertificate n = some s) :
    n = [] ∨ plan.populated G h.l7 h.cloud = some (s.view G n) := by
  cases hcert : h.l7.sslCert with
  | some cert =>
    have hexp : plan.expectedName G h.l7 h.cloud = cert.name := by rw [Plan.expectedName,hcert]
    have hpop : plan.populated G h.l7 h.cloud =
        (h.cloud .sslCertificate cert.name).map (fun s => s.view G cert.name) := by
      rw [Plan.populated,hexp,if_neg (hI.recorded cert hcert).1]
    rcases hstep.recorded cert hcert p hp with hl | hcontent
    · obtain rfl : n = cert.name := G.link_inj _ _ _ (List.singleton_inj.mp (hlinks.symm.trans hl))
      exact Or.inr (by rw [hpop,hs]; rfl)
    · exfalso
      apply hrot.differs
      rw [hrot.tls_eq] at hcontent
      rw [hpop,Option.map_map]
      exact hcontent
  | none =>
    have hseen : plan.seen G .certProxyGet .targetHttpsProxy (Namer.targetProxy h.l7.name .https) h.cloud =
        some (p.view G (Namer.targetProxy h.l7.name .https)) := by
      rw [Plan.seen,if_pos (hstep.unrecorded hcert),hp]
      rfl
    have hexp : plan.expectedName G h.l7 h.cloud = n := by
      rw [Plan.expectedName,hcert]
      simp only [Plan.linkInUse,hseen,Stored.view,hlinks,List.headD_cons]
      exact G.link_name _ _ hslash
    by_cases hn : n = []
    · exact Or.inl hn
    · exact Or.inr (by rw [Plan.populated,hexp,if_neg hn,hs]; rfl)

theorem next_unused (hI : Linked G h) (hstep : InStep G h h.l7.runtimeInfo plan) {tls : TLSCerts}
    (hrot : Rotates G plan h tls) {p : Stored .targetHttpsProxy}
    (hp : h.cloud .targetHttpsProxy (Namer.targetProxy h.l7.name .https) = some p) :
    G.link .sslCertificate (nextCertificateName (plan.populatedL7 G h)) ∉ p.body.sslCertificates := by
  rcases hI.proxy p hp with hnil | ⟨n,s,hslash,hlinks,hs⟩
  · rw [hnil]
    exact List.not_mem_nil
  · rw [hlinks,List.mem_singleton]
    intro heq
    have hnext := G.link_inj _ _ _ heq
    rcases populated_of_linked hI hstep hrot hp hslash hlinks hs with hn | hpop
    · obtain ⟨b,hb⟩ := nextCertificateName_eq (plan.populatedL7 G h)
      exact sslCert_name_ne_nil _ b (hb.symm.trans (hnext.trans hn))
    · exact nextCertificateName_ne (l := plan.populatedL7 G h) hI.distinct hpop hnext

theorem CertsKept.linked (hI : Linked G h) (hk : CertsKept h h') : Linked G h' where
  name := hk.name ▸ hI.name
  distinct := hk.name ▸ hI.distinct
  recorded := hk.sslCert ▸ hI.recorded
  proxy p hp := by
    rw [hk.proxies,hk.name] at hp
    refine (hI.proxy p hp).imp_right ?_
    rintro ⟨n,s,hslash,hlinks,hs⟩
    exact ⟨n,s,hslash,hlinks,by rw [hk.certs,hs]⟩

theorem CertStep.certs (hs : CertStep G plan h r h') {n : Str} {s : Stored .sslCertificate}
    (hn : h.cloud .sslCertificate n = some s) : (∃ s', h'.cloud .sslCertificate n = some s') ∨
      ∃ tls, Rotates G plan h tls ∧ n = nextCertificateName (plan.populatedL7 G h) := by
  cases hs with
  | preShared tlsName found l7 cloud log => exact Or.inl ⟨s,by rw [cloud,hn]⟩
  | unshared tlsName l7 cloud log => exact Or.inl ⟨s,by rw [cloud,hn]⟩
  | unread tlsName fault l7 cloud log => exact Or.inl ⟨s,by rw [cloud,hn]⟩
  | noSecret tlsName l7 cloud log => exact Or.inl ⟨s,by rw [cloud,hn]⟩
  | current tlsName tls_eq same l7 cloud log => exact Or.inl ⟨s,by rw [cloud,hn]⟩
  | @replaced tls _ h₁ _ rotates l7 cloud log replaced log' =>
    by_cases hnext : n = nextCertificateName (plan.populatedL7 G h)
    · exact Or.inr ⟨tls,rotates,hnext⟩
    · rw [← l7] at hnext
      refine Or.inl ⟨s,?_⟩
      cases replaced with
      | unstored l7' cloud' =>
        rcases cloud' with cloud' | cloud'
        · rw [cloud',cloud,hn]
        · rw [cloud',cloud,Cloud.set_name_ne _ _ hnext,hn]
      | lost loses fresh l7' cloud' => rw [cloud',cloud,Cloud.set_name_ne _ _ hnext,hn]
      | stored fresh l7' cloud' => rw [cloud',cloud,Cloud.set_name_ne _ _ hnext,hn]

theorem getResourceNameFromLink_no_slash (link : Str) : '/' ∉ getResourceNameFromLink link := by
  intro hmem
  have hno : ¬"/".toList <:+: getResourceNameFromLink link := Str.lastToken_no_sep (by decide) link
  obtain ⟨a,b,hab⟩ := List.append_of_mem hmem
  exact hno ⟨a,b,by rw [hab]; simp⟩

theorem CertStep.linked (hI : Linked G h) (hstep : InStep G h h.l7.runtimeInfo plan)
    (hs : CertStep G plan h r h') : Linked G h' where
  name := by rw [hs.l7_eq]; exact hI.name
  distinct := by rw [hs.l7_eq]; exact hI.distinct
  recorded cert hcert := by
    obtain ⟨hne,hsource⟩ := hs.sslCert_name (fun c hc => (hI.recorded c hc).1) hcert
    refine ⟨hne,?_⟩
    rcases hsource with ⟨-,hname⟩ | hsame | hname | ⟨b,hname⟩
    · exact hname ▸ hstep.tlsName
    · exact (hI.recorded cert hsame).2
    · rw [hname,Plan.expectedName]
      split
      · rename_i c hc
        exact (hI.recorded c hc).2
      · exact getResourceNameFromLink_no_slash _
    · exact hname ▸ sslCert_no_slash hI.name b
  proxy p hp := by
    rw [hs.others (by simp),hs.l7_eq] at hp
    rcases hI.proxy p hp with hnil | ⟨n,s,hslash,hlinks,hn⟩
    · exact Or.inl hnil
    · rcases hs.certs hn with ⟨s',hs'⟩ | ⟨tls,hrot,rfl⟩
      · exact Or.inr ⟨n,s',hslash,hlinks,hs'⟩
      · exact absurd (hlinks ▸ List.mem_singleton_self _) (next_unused hI hstep hrot hp)

theorem HttpsProxyPost.linked (hI : Linked G h) (hp : HttpsProxyPost G plan h r h') {name : Str}
    {s : Stored .sslCertificate} (hcert : h.l7.sslCert = some (s.view G name))
    (hs : h.cloud .sslCertificate name = some s) : Linked G h' where
  name := by rw [hp.l7]; exact hI.name
  distinct := by rw [hp.l7]; exact hI.distinct
  recorded := by rw [hp.l7]; exact hI.recorded
  proxy p hp' := by
    rw [hp.l7] at hp'
    have hcerts : ∀ n, h'.cloud .sslCertificate n = h.cloud .sslCertificate n := fun n =>
      hp.manages.cloud _ _ (by simp)
    rcases hp.links p hp' with ⟨p₀,hp₀,hlinks₀⟩ | ⟨cert,hc,hlinks⟩
    · rw [hlinks₀]
      refine (hI.proxy p₀ hp₀).imp_right ?_
      rintro ⟨n,s,hslash,hlinks,hs⟩
      exact ⟨n,s,hslash,hlinks,by rw [hcerts,hs]⟩
    · obtain rfl : s.view G name = cert := Option.some.inj (hcert.symm.trans hc)
      exact Or.inr ⟨name,s,(hI.recorded _ hc).2,hlinks,by rw [hcerts,hs]⟩

theorem OldCertStep.linked (hI : Linked G h) {cert : SslCertificate} (hcert : h.l7.sslCert = some cert)
    (hlink : cert.selfLink = G.link .sslCertificate cert.name) {p : Stored .targetHttpsProxy}
    (hp : h.cloud .targetHttpsProxy (Namer.targetProxy h.l7.name .https) = some p)
    (hhead : p.body.sslCertificates.head? = some cert.selfLink) (hs : OldCertStep h r h') : Linked G h' where
  name := by rw [hs.l7_eq]; exact hI.name
  distinct := by rw [hs.l7_eq]; exact hI.distinct
  recorded := by rw [hs.l7_eq]; exact hI.recorded
  proxy p' hp' := by
    rw [hs.others (by simp),hs.l7_eq,hp,Option.some.injEq] at hp'
    subst hp'
    rcases hI.proxy p hp with hnil | ⟨n,s,hslash,hlinks,hn⟩
    · exact Or.inl hnil
    · obtain rfl : n = cert.name := by
        rw [hlinks,hlink,List.head?_cons,Option.some.injEq] at hhead
        exact G.link_inj _ _ _ hhead
      exact Or.inr ⟨_,s,hslash,hlinks,by rw [hs.cert_eq hcert,hn]⟩

theorem CertsKept.inStep {ri : L7RuntimeInfo} (hstep : InStep G h ri plan) (hk : CertsKept h h') :
    InStep G h' ri plan where
  tlsName := hstep.tlsName
  unrecorded hcert := hstep.unrecorded (hk.sslCert ▸ hcert)
  recorded cert hcert p hp := by
    rw [hk.certs]
    rw [hk.proxies,hk.name] at hp
    exact hstep.recorded cert (hk.sslCert ▸ hcert) p hp

theorem hitsCertInUse_of_not_at {e : Event} (he : ¬e.At [.certDelete]) : e.hitsCertInUse G = false := by
  cases e with
  | checkForwardingRule lb protocol ip => rfl
  | call lb site k name before =>
    unfold Event.hitsCertInUse
    split
    · rename_i heq
      cases heq
      exact absurd List.mem_cons_self he
    · rfl

/-- In step, `checkSSLCert` deletes no certificate in use. -/
theorem CertStep.spared (hI : Linked G h) (hstep : InStep G h h.l7.runtimeInfo plan)
    (hs : CertStep G plan h r h') : h.LogOnly (fun e => e.hitsCertInUse G = false) h' := by
  have hread : ∀ e : Event, e.At certReadSites → e.hitsCertInUse G = false := fun e he =>
    hitsCertInUse_of_not_at (he.not_at (by simp))
  cases hs with
  | preShared tlsName found l7 cloud log => exact log.mono hread
  | unshared tlsName l7 cloud log => exact log.mono hread
  | unread tlsName fault l7 cloud log => exact log.mono hread
  | noSecret tlsName l7 cloud log => exact log.mono hread
  | current tlsName tls_eq same l7 cloud log => exact log.mono hread
  | @replaced tls _ h₁ _ rotates l7 cloud log replaced log' =>
    refine (log.mono hread).trans (log'.mono ?_)
    rintro e (rfl | he)
    · have hname : h₁.l7.name = h.l7.name := by rw [l7]; rfl
      change h₁.cloud.certInUse G h₁.l7.name (nextCertificateName h₁.l7) = false
      rw [cloud,hname,l7,Cloud.certInUse]
      cases hp : h.cloud .targetHttpsProxy (Namer.targetProxy h.l7.name .https) with
      | none => rfl
      | some p => exact decide_eq_false (next_unused hI hstep rotates hp)
    · exact hitsCertInUse_of_not_at (he.not_at (by simp))

theorem HttpsRun.sparing (hI : Linked G h) (hstep : InStep G h h.l7.runtimeInfo plan)
    (hr : HttpsRun G plan h r h') : Linked G h' ∧ h.LogOnly (fun e => e.hitsCertInUse G = false) h' := by
  have hproxy : ∀ {h r h'}, HttpsProxyPost G plan h r h' → h.LogOnly (fun e => e.hitsCertInUse G = false) h' :=
    fun hp => hp.manages.log.mono fun _ he => hitsCertInUse_of_not_at (he.not_at (by simp))
  have hkept : ∀ {h h'}, CertsKept h h' → h.LogOnly (fun e => e.hitsCertInUse G = false) h' :=
    fun hk => hk.log.mono fun _ he => hitsCertInUse_of_not_at fun hat => he (hat.mono (by simp))
  have hnamed : h.l7.CertNamed := fun cert hcert => (hI.recorded cert hcert).1
  cases hr with
  | noCert cert => exact ⟨cert.linked hI hstep,cert.spared hI hstep⟩
  | noProxy cert proxy =>
    obtain ⟨name,s,-,hcert,hs,-⟩ := cert.accepted hnamed
    exact ⟨proxy.linked (cert.linked hI hstep) hcert hs,(cert.spared hI hstep).trans (hproxy proxy)⟩
  | noRule cert proxy found rule =>
    obtain ⟨name,s,-,hcert,hs,-⟩ := cert.accepted hnamed
    have hk := HttpsRuleStep.certsKept rule
    exact ⟨hk.linked (proxy.linked (cert.linked hI hstep) hcert hs),
      ((cert.spared hI hstep).trans (hproxy proxy)).trans (hkept hk)⟩
  | old cert proxy found rule old =>
    obtain ⟨name,s,-,hcert,hs,-⟩ := cert.accepted hnamed
    obtain ⟨um,p,tps,-,hp,-,hhead,-,-⟩ := proxy.ok rfl _ hcert
    have hk := HttpsRuleStep.certsKept rule
    refine ⟨?_,(((cert.spared hI hstep).trans (hproxy proxy)).trans (hkept hk)).trans ?_⟩
    · refine old.linked (hk.linked (proxy.linked (cert.linked hI hstep) hcert hs))
        (by rw [hk.sslCert,proxy.l7]; exact hcert) rfl ?_ hhead
      rw [hk.proxies,hk.name,proxy.l7]
      exact hp
    · intro e he
      cases old with
      | nothing obsolete => exact Or.inl he
      | failed obsolete l7 cloud log =>
        rw [log] at he
        exact (List.mem_cons.mp he).symm.imp_right fun he => by rw [he]; rfl
      | deleted obsolete l7 cloud log =>
        rw [log] at he
        exact (List.mem_cons.mp he).symm.imp_right fun he => by rw [he]; rfl

theorem EdgeRun.sparing (hI : Linked G h) (hstep : InStep G h h.l7.runtimeInfo plan) (hlog : h.log = [])
    (hr : EdgeRun G plan h r h') : Linked G h' ∧ h'.Spared G := by
  have hsub : ∀ {h'}, h.LogOnly (fun e => e.hitsCertInUse G = false) h' → h'.Spared G := by
    intro h' hl e he
    exact (hl e he).resolve_left (by rw [hlog]; exact List.not_mem_nil)
  have hkept : ∀ {h'}, CertsKept h h' → h.LogOnly (fun e => e.hitsCertInUse G = false) h' :=
    fun hk => hk.log.mono fun _ he => hitsCertInUse_of_not_at fun hat => he (hat.mono (by simp))
  rcases hr.certsKept with ⟨hk,-⟩ | ⟨h₁,hk,-,hr⟩
  · exact ⟨hk.linked hI,hsub (hkept hk)⟩
  · have hstep₁ : InStep G h₁ h₁.l7.runtimeInfo plan := hk.info ▸ hk.inStep hstep
    obtain ⟨hI',hl⟩ := hr.sparing (hk.linked hI) hstep₁
    exact ⟨hI',hsub ((hkept hk).trans hl)⟩

/-- In every run of syncs and restarts in which each sync starts in step, no
certificate in use is deleted to make room for another. -/
theorem syncs_spare_cert_in_use (hI : Linked G h) (inputs : List SyncInput)
    (hstep : Runs.Along (Hop.sync G) (fun h i => ∀ ri plan, i = .sync ri plan → InStep G h ri plan) h inputs) :
    Runs.Along (Hop.sync G) (fun h i => (Hop.sync G h i).Spared G) h inputs := by
  refine Runs.Along.strengthen ?_ hI hstep
  intro h i hI hi
  cases i with
  | restart =>
    refine ⟨⟨hI.name,hI.distinct,fun cert hcert => ?_,hI.proxy⟩,fun e he => ?_⟩
    · cases hcert
    · cases he
  | sync ri plan =>
    have hin := hi ri plan rfl
    have hI₀ : Linked G (h.begin ri) := ⟨hI.name,hI.distinct,hI.recorded,hI.proxy⟩
    have hin₀ : InStep G (h.begin ri) ri plan := ⟨hin.tlsName,hin.unrecorded,hin.recorded⟩
    have hrun : Ensures (edgeHop G plan) (h.begin ri) (fun _ h' => Linked G h' ∧ h'.Spared G) :=
      (edgeHop_spec G plan (h.begin ri)).mono fun _ _ hr => hr.sparing hI₀ hin₀ rfl
    exact hrun

section SecretChanges

def secretInfo (cert : Str) : L7RuntimeInfo where
  name := "default/test".toList
  tls := some { key := "key".toList, cert := cert }
  tlsName := []
  allowHTTP := false
  staticIPName := []

/-- A load balancer before its first sync, on an empty cloud. -/
def beforeSecrets : Hop where
  l7 := .blank "default-test".toList (secretInfo []) (some { selfLink := "backendServices/default".toList })
  cloud := Cloud.empty
  log := []

/-- The secret changes, and the second sync follows the given plan. -/
def secretChanges (plan : Plan) : List SyncInput :=
  [.sync (secretInfo "A".toList) .faultless,.sync (secretInfo "B".toList) plan]

theorem inStep_of_linked {ri : L7RuntimeInfo} {n : Str} (htls : '/' ∉ ri.tlsName)
    (hcert : h.l7.sslCert.map Object.name = some n)
    (hproxy : (h.cloud .targetHttpsProxy (Namer.targetProxy h.l7.name .https)).map
      (fun p => p.body.sslCertificates) = some [G.link .sslCertificate n]) : InStep G h ri plan where
  tlsName := htls
  unrecorded hnone := by simp [hnone] at hcert
  recorded cert hc p hp := by
    rw [hc,Option.map_some,Option.some.injEq] at hcert
    rw [hp,Option.map_some,Option.some.injEq] at hproxy
    exact Or.inl (hproxy.trans (by rw [hcert]))

theorem beforeSecrets_linked (G : SelfLinks) : Linked G beforeSecrets where
  name := by decide
  distinct := by decide
  recorded cert hcert := by cases hcert
  proxy p hp := by cases hp

theorem secretChanges_spare_cert_in_use : Runs.Along (Hop.sync SelfLinks.byCollection)
    (fun h i => (Hop.sync SelfLinks.byCollection h i).Spared SelfLinks.byCollection) beforeSecrets
    (secretChanges .faultless ++ [.sync (secretInfo "C".toList) .faultless]) := by
  refine syncs_spare_cert_in_use (beforeSecrets_linked _) _ ⟨?_,?_,?_,trivial⟩
  · rintro ri plan ⟨⟩
    exact ⟨by decide,fun _ => rfl,fun cert hcert => by cases hcert⟩
  · rintro ri plan ⟨⟩
    exact inStep_of_linked (n := Namer.sslCert "default-test".toList true) (by decide) (by decide +kernel) (by decide +kernel)
  · rintro ri plan ⟨⟩
    exact inStep_of_linked (n := Namer.sslCert "default-test".toList false) (by decide) (by decide +kernel) (by decide +kernel)

/-- The target proxy is not relinked in the second sync, so that the third deletes
the certificate it still uses. -/
theorem secretChanges_hit_cert_in_use : ¬Runs.Along (Hop.sync SelfLinks.byCollection)
    (fun h i => (Hop.sync SelfLinks.byCollection h i).Spared SelfLinks.byCollection) beforeSecrets
    (secretChanges (.failingAt .httpsProxySetCert) ++ [.sync (secretInfo "C".toList) .faultless]) := by
  intro hspared
  have hlast := hspared.at_end
  have hhit : (Hop.sync SelfLinks.byCollection (Runs.final (Hop.sync SelfLinks.byCollection) beforeSecrets
      (secretChanges (.failingAt .httpsProxySetCert))) (.sync (secretInfo "C".toList) .faultless)).log.any
        (Event.hitsCertInUse SelfLinks.byCollection) = true := by decide +kernel
  obtain ⟨e,he,hin⟩ := List.any_eq_true.mp hhit
  rw [hlast e he] at hin
  cases hin

end SecretChanges

end Sparing

end IngressGce
