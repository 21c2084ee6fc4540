import IngressGce.LoadBalancer.Proxies
import IngressGce.LoadBalancer.Rules
import IngressGce.LoadBalancer.Certificates

/-! # Putting the checks of an edge hop together

The frontend part of the hop, up to the static address, is described by what its
checks preserve. The HTTPS part is described by the ways in which its four
checks can follow one another.
-/
namespace IngressGce
open Prog
variable (G : SelfLinks) (plan : Plan)

/-- The check of the HTTP forwarding rule, for a recorded proxy. -/
abbrev HttpRuleStep (tp : TargetHttpProxy) (h : Hop) (r : Except Failure Unit) (h' : Hop) : Prop :=
  RuleStep G plan .http .http httpDefaultPortRange tp.selfLink (fun fw l => { l with fw := some fw }) h r h'

abbrev HttpsRuleStep (tps : TargetHttpsProxy) (h : Hop) (r : Except Failure Unit) (h' : Hop) : Prop :=
  RuleStep G plan .https .https httpsDefaultPortRange tps.selfLink (fun fws l => { l with fws := some fws })
    h r h'

section CertsKept

/-- The calls that delete certificates. -/
abbrev certDeletions : List Site := [.certDelete,.oldCertDelete,.cleanup .sslCert]

/-- What matters of a load balancer for its certificates. -/
structure CertView where
  name : Str
  runtimeInfo : L7RuntimeInfo
  sslCert : Option SslCertificate
  oldSSLCert : Option SslCertificate

def L7.certView (l : L7) : CertView :=
  { name := l.name, runtimeInfo := l.runtimeInfo, sslCert := l.sslCert, oldSSLCert := l.oldSSLCert }

/-- The certificates, the HTTPS proxies and what the load balancer records of its
certificates are as before, and no certificate was deleted. -/
structure CertsKept (h h' : Hop) : Prop where
  view : h'.l7.certView = h.l7.certView
  certs : ∀ n, h'.cloud .sslCertificate n = h.cloud .sslCertificate n
  proxies : ∀ n, h'.cloud .targetHttpsProxy n = h.cloud .targetHttpsProxy n
  log : h.LogOnly (fun e => ¬e.At certDeletions) h'

variable {G plan} {h h' h'' : Hop} {r : Except Failure Unit}

namespace CertsKept

theorem refl (h : Hop) : CertsKept h h := ⟨rfl,fun _ => rfl,fun _ => rfl,.refl _ h⟩

theorem trans (h₁ : CertsKept h h') (h₂ : CertsKept h' h'') : CertsKept h h'' where
  view := h₂.view.trans h₁.view
  certs n := (h₂.certs n).trans (h₁.certs n)
  proxies n := (h₂.proxies n).trans (h₁.proxies n)
  log := h₁.log.trans h₂.log

theorem name (hk : CertsKept h h') : h'.l7.name = h.l7.name := congrArg CertView.name hk.view
theorem info (hk : CertsKept h h') : h'.l7.runtimeInfo = h.l7.runtimeInfo := congrArg CertView.runtimeInfo hk.view
theorem sslCert (hk : CertsKept h h') : h'.l7.sslCert = h.l7.sslCert := congrArg CertView.sslCert hk.view
theorem oldSSLCert (hk : CertsKept h h') : h'.l7.oldSSLCert = h.l7.oldSSLCert :=
  congrArg CertView.oldSSLCert hk.view

/-- Managing a resource of another kind keeps the certificates. -/
theorem of_manages {k : Kind} {name : Str} {accounted : Prop} {P : Event → Prop}
    (hm : Manages k name accounted P h h') (hcert : k ≠ .sslCertificate) (hproxy : k ≠ .targetHttpsProxy)
    (hview : h'.l7.certView = h.l7.certView) (hP : ∀ e, P e → ¬e.At certDeletions) :
    CertsKept h h' where
  view := hview
  certs _ := hm.cloud _ _ fun h => hcert h.1.symm
  proxies _ := hm.cloud _ _ fun h => hproxy h.1.symm
  log := hm.log.mono hP

end CertsKept

theorem UrlMapPost.certsKept (hp : UrlMapPost G plan h r h') : CertsKept h h' :=
  .of_manages hp.manages (by simp) (by simp) (by rw [hp.l7]; rfl) fun _ he => he.not_at (by simp)

theorem ProxyPost.certsKept (hp : ProxyPost G plan h r h') : CertsKept h h' :=
  .of_manages hp.manages (by simp) (by simp) (by rw [hp.l7]; rfl) fun _ he => he.not_at (by simp)

theorem StaticIPPost.certsKept (hp : StaticIPPost G plan h r h') : CertsKept h h' :=
  .of_manages hp.manages (by simp) (by simp) (by rw [hp.l7]; rfl) fun _ he => he.not_at (by simp)

/-- A check of a forwarding rule changes the load balancer in the recorded rule alone. -/
theorem RuleStep.l7_eq {protocol : NamerProtocol} {caller : IPCaller} {portRange proxyLink : Str}
    {record : ForwardingRule → L7 → L7}
    (hp : RuleStep G plan protocol caller portRange proxyLink record h r h') :
    h'.l7 = h.l7 ∨ ∃ fw, h'.l7 = record fw h.l7 := by
  cases r with
  | error e => exact Or.inl (hp.failed e rfl)
  | ok _ =>
    obtain ⟨fw,s,hl7,-⟩ := hp.ok rfl
    exact Or.inr ⟨fw,hl7⟩

theorem RuleStep.certsKept {protocol : NamerProtocol} {caller : IPCaller} {portRange proxyLink : Str}
    {record : ForwardingRule → L7 → L7}
    (hp : RuleStep G plan protocol caller portRange proxyLink record h r h')
    (hrecord : ∀ fw l, (record fw l).certView = l.certView) : CertsKept h h' := by
  refine .of_manages hp.manages (by simp) (by simp) ?_ ?_
  · rcases hp.l7_eq with hl7 | ⟨fw,hl7⟩
    · rw [hl7]
    · rw [hl7,hrecord]
  · rintro e (he | rfl)
    · exact he.not_at (by simp)
    · simp [Event.At]

theorem HttpRuleStep.certsKept {tp : TargetHttpProxy} (hp : HttpRuleStep G plan tp h r h') : CertsKept h h' :=
  RuleStep.certsKept hp fun _ _ => rfl

theorem HttpsRuleStep.certsKept {tps : TargetHttpsProxy} (hp : HttpsRuleStep G plan tps h r h') :
    CertsKept h h' :=
  RuleStep.certsKept hp fun _ _ => rfl

end CertsKept

/-- The ways in which the HTTP part of an edge hop ends. -/
inductive HttpRun (h : Hop) : Except Failure Unit → Hop → Prop
  | noProxy {e : Failure} {h' : Hop} (proxy : ProxyPost G plan h (.error e) h') : HttpRun h (.error e) h'
  | rule {tp : TargetHttpProxy} {r : Except Failure Unit} {h₁ h' : Hop} (proxy : ProxyPost G plan h (.ok ()) h₁)
      (found : h₁.l7.tp = some tp) (rule : HttpRuleStep G plan tp h₁ r h') : HttpRun h r h'

theorem edgeHopHttp_spec (h : Hop) : Ensures (edgeHopHttp G plan) h (HttpRun G plan h) := by
  rw [edgeHopHttp,ensures_bind]
  refine (checkProxy_spec G plan h).mono ?_
  intro r h₁ hp
  cases r with
  | error e => exact .noProxy hp
  | ok _ =>
    refine (checkHttpForwardingRule_spec G plan h₁).mono ?_
    rintro r h' (⟨hnone,-,-⟩ | ⟨tp,htp,hr⟩)
    · obtain ⟨um,s,tp,-,-,-,htp,-⟩ := hp.ok rfl
      rw [hnone] at htp
      cases htp
    · exact .rule hp htp hr

theorem HttpRun.certsKept {G : SelfLinks} {plan : Plan} {h h' : Hop} {r : Except Failure Unit}
    (hr : HttpRun G plan h r h') : CertsKept h h' := by
  cases hr with
  | noProxy proxy => exact proxy.certsKept
  | rule proxy found rule => exact proxy.certsKept.trans (HttpRuleStep.certsKept rule)

/-- The ways in which the HTTPS part of an edge hop ends. -/
inductive HttpsRun (h : Hop) : Except Failure Unit → Hop → Prop
  | noCert {e : Failure} {h' : Hop} (cert : CertStep G plan h (.error e) h') : HttpsRun h (.error e) h'
  | noProxy {e : Failure} {h₁ h' : Hop} (cert : CertStep G plan h (.ok ()) h₁)
      (proxy : HttpsProxyPost G plan h₁ (.error e) h') : HttpsRun h (.error e) h'
  | noRule {e : Failure} {tps : TargetHttpsProxy} {h₁ h₂ h' : Hop} (cert : CertStep G plan h (.ok ()) h₁)
      (proxy : HttpsProxyPost G plan h₁ (.ok ()) h₂) (found : h₂.l7.tps = some tps)
      (rule : HttpsRuleStep G plan tps h₂ (.error e) h') : HttpsRun h (.error e) h'
  | old {r : Except Failure Unit} {tps : TargetHttpsProxy} {h₁ h₂ h₃ h' : Hop}
      (cert : CertStep G plan h (.ok ()) h₁) (proxy : HttpsProxyPost G plan h₁ (.ok ()) h₂)
      (found : h₂.l7.tps = some tps) (rule : HttpsRuleStep G plan tps h₂ (.ok ()) h₃)
      (old : OldCertStep h₃ r h') : HttpsRun h r h'

/-- A certificate is recorded once `checkSSLCert` has succeeded. -/
theorem CertStep.recorded {h h' : Hop} (hs : CertStep G plan h (.ok ()) h') : ∃ cert, h'.l7.sslCert = some cert := by
  cases hs with
  | preShared tlsName found l7 cloud log => exact ⟨_,congrArg L7.sslCert l7⟩
  | @current tls _ tlsName tls_eq same l7 cloud log =>
    obtain ⟨cert,hcert,-⟩ := Option.map_eq_some_iff.mp same
    exact ⟨cert,(congrArg L7.sslCert l7).trans hcert⟩
  | replaced rotates l7 cloud log replaced log' =>
    cases replaced with
    | stored fresh l7' cloud' => exact ⟨_,congrArg L7.sslCert l7'⟩

theorem edgeHopHttps_spec (h : Hop) : Ensures (edgeHopHttps G plan) h (HttpsRun G plan h) := by
  rw [edgeHopHttps,ensures_bind]
  refine (checkSSLCert_spec G plan h).mono ?_
  intro r h₁ hcert
  cases r with
  | error e => exact .noCert hcert
  | ok _ =>
    rw [afterwards_ok,ensures_bind]
    refine (checkHttpsProxy_spec G plan h₁).mono ?_
    intro r h₂ hproxy
    cases r with
    | error e => exact .noProxy hcert hproxy
    | ok _ =>
      rw [afterwards_ok,ensures_bind]
      refine (checkHttpsForwardingRule_spec G plan h₂).mono ?_
      rintro r h₃ (⟨hnone,-,-⟩ | ⟨tps,htps,hrule⟩)
      · obtain ⟨cert,hc⟩ := hcert.recorded
        obtain ⟨um,s,tps,-,-,-,-,htps,-⟩ := hproxy.ok rfl cert hc
        rw [hnone] at htps
        cases htps
      · cases r with
        | error e => exact .noRule hcert hproxy htps hrule
        | ok _ =>
          rw [afterwards_ok]
          exact (deleteOldSSLCert_spec plan h₃).mono fun r h' hold => .old hcert hproxy htps hrule hold

/-- What `checkSSLCert` establishes and the later checks preserve holds after the
HTTPS part. -/
theorem HttpsRun.after_cert {G : SelfLinks} {plan : Plan} {I : Hop → Prop} {h h' : Hop} {r : Except Failure Unit}
    (hrun : HttpsRun G plan h r h') (cert : ∀ r h', CertStep G plan h r h' → I h')
    (proxy : ∀ h r h', I h → HttpsProxyPost G plan h r h' → I h')
    (rule : ∀ tps h r h', I h → HttpsRuleStep G plan tps h r h' → I h')
    (old : ∀ h r h', I h → OldCertStep h r h' → I h') : I h' := by
  cases hrun with
  | noCert hcert => exact cert _ _ hcert
  | noProxy hcert hproxy => exact proxy _ _ _ (cert _ _ hcert) hproxy
  | noRule hcert hproxy found hrule => exact rule _ _ _ _ (proxy _ _ _ (cert _ _ hcert) hproxy) hrule
  | old hcert hproxy found hrule hold =>
    exact old _ _ _ (rule _ _ _ _ (proxy _ _ _ (cert _ _ hcert) hproxy) hrule) hold

/-- A part of the hop that runs only if the condition holds. -/
def IfSo (c : Bool) (P : Hop → Except Failure Unit → Hop → Prop) (h : Hop) (r : Except Failure Unit)
    (h' : Hop) : Prop :=
  (c = true ∧ P h r h') ∨ (c = false ∧ r = .ok () ∧ h' = h)

theorem IfSo.of_true {c : Bool} {P : Hop → Except Failure Unit → Hop → Prop} {h h' : Hop} {r : Except Failure Unit}
    (hi : IfSo c P h r h') (hc : c = true) : P h r h' := by
  rcases hi with ⟨-,hp⟩ | ⟨hno,-,-⟩
  · exact hp
  · cases hc.symm.trans hno

theorem IfSo.of_false {c : Bool} {P : Hop → Except Failure Unit → Hop → Prop} {h h' : Hop} {r : Except Failure Unit}
    (hi : IfSo c P h r h') (hc : c = false) : h' = h := by
  rcases hi with ⟨hyes,-⟩ | ⟨-,-,rfl⟩
  · cases hc.symm.trans hyes
  · rfl

/-- What the part does from `h` to `h'` holds in any case if it holds of doing nothing. -/
theorem IfSo.relates {c : Bool} {P : Hop → Except Failure Unit → Hop → Prop} {h h' : Hop} {r : Except Failure Unit}
    (hi : IfSo c P h r h') {Q : Hop → Hop → Prop} (hrefl : Q h h) (hP : P h r h' → Q h h') : Q h h' := by
  rcases hi with ⟨-,hp⟩ | ⟨-,-,rfl⟩
  · exact hP hp
  · exact hrefl

theorem onlyIf_spec (c : Bool) {m : L7M Unit} {P : Hop → Except Failure Unit → Hop → Prop}
    (hm : ∀ h, Ensures m h (P h)) (h : Hop) : Ensures (onlyIf c m) h (IfSo c P h) := by
  rw [ensures_onlyIf]
  exact ⟨fun hc => (hm h).mono fun _ _ hp => Or.inl ⟨hc,hp⟩,fun hc => Or.inr ⟨hc,rfl,rfl⟩⟩

/-- The ways in which an edge hop ends. -/
inductive EdgeRun (h : Hop) : Except Failure Unit → Hop → Prop
  | noUrlMap {e : Failure} {h' : Hop} (urlMap : UrlMapPost G plan h (.error e) h') : EdgeRun h (.error e) h'
  | noHttp {e : Failure} {h₁ h' : Hop} (urlMap : UrlMapPost G plan h (.ok ()) h₁)
      (http : IfSo h.l7.runtimeInfo.allowHTTP (HttpRun G plan) h₁ (.error e) h') : EdgeRun h (.error e) h'
  | noStaticIP {e : Failure} {h₁ h₂ h' : Hop} (urlMap : UrlMapPost G plan h (.ok ()) h₁)
      (http : IfSo h.l7.runtimeInfo.allowHTTP (HttpRun G plan) h₁ (.ok ()) h₂)
      (staticIP : IfSo (h.l7.runtimeInfo.allowHTTP && h.l7.runtimeInfo.wantsHTTPS) (StaticIPPost G plan)
        h₂ (.error e) h') : EdgeRun h (.error e) h'
  | https {r : Except Failure Unit} {h₁ h₂ h₃ h' : Hop} (urlMap : UrlMapPost G plan h (.ok ()) h₁)
      (http : IfSo h.l7.runtimeInfo.allowHTTP (HttpRun G plan) h₁ (.ok ()) h₂)
      (staticIP : IfSo (h.l7.runtimeInfo.allowHTTP && h.l7.runtimeInfo.wantsHTTPS) (StaticIPPost G plan)
        h₂ (.ok ()) h₃)
      (https : IfSo h.l7.runtimeInfo.wantsHTTPS (HttpsRun G plan) h₃ r h') : EdgeRun h r h'

theorem edgeHop_spec (h : Hop) : Ensures (edgeHop G plan) h (EdgeRun G plan h) := by
  simp only [edgeHop,ensures_bind,ensures_this,afterwards_ok]
  refine (checkUrlMap_spec G plan h).mono ?_
  intro r h₁ hum
  cases r with
  | error e => exact .noUrlMap hum
  | ok _ =>
    rw [afterwards_ok,ensures_bind]
    refine (onlyIf_spec _ (edgeHopHttp_spec G plan) h₁).mono ?_
    intro r h₂ hhttp
    cases r with
    | error e => exact .noHttp hum hhttp
    | ok _ =>
      rw [afterwards_ok,ensures_bind]
      refine (onlyIf_spec _ (checkStaticIP_spec G plan) h₂).mono ?_
      intro r h₃ hip
      cases r with
      | error e => exact .noStaticIP hum hhttp hip
      | ok _ =>
        exact (onlyIf_spec _ (edgeHopHttps_spec G plan) h₃).mono fun r h' hhttps => .https hum hhttp hip hhttps

/-- What the checks up to the static address preserve holds when the HTTPS part
starts, or at the end if it does not start. -/
theorem EdgeRun.front {I : Hop → Prop} {h h' : Hop} {r : Except Failure Unit} (hrun : EdgeRun G plan h r h')
    (hI : I h) (urlMap : ∀ h r h', I h → UrlMapPost G plan h r h' → I h')
    (http : ∀ h r h', I h → HttpRun G plan h r h' → I h')
    (staticIP : ∀ h r h', I h → StaticIPPost G plan h r h' → I h') :
    (I h' ∧ (r = .ok () → h.l7.runtimeInfo.wantsHTTPS = false)) ∨
      ∃ h₁, I h₁ ∧ h.l7.runtimeInfo.wantsHTTPS = true ∧ HttpsRun G plan h₁ r h' := by
  have hhttp : ∀ {c h r h'}, I h → IfSo c (HttpRun G plan) h r h' → I h' :=
    fun hI hrun => hrun.relates (Q := fun _ h' => I h') hI (http _ _ _ hI)
  have hip : ∀ {c h r h'}, I h → IfSo c (StaticIPPost G plan) h r h' → I h' :=
    fun hI hrun => hrun.relates (Q := fun _ h' => I h') hI (staticIP _ _ _ hI)
  cases hrun with
  | noUrlMap hum => exact Or.inl ⟨urlMap _ _ _ hI hum,by simp⟩
  | noHttp hum hh => exact Or.inl ⟨hhttp (urlMap _ _ _ hI hum) hh,by simp⟩
  | noStaticIP hum hh hs => exact Or.inl ⟨hip (hhttp (urlMap _ _ _ hI hum) hh) hs,by simp⟩
  | https hum hh hs hr =>
    have hI₃ := hip (hhttp (urlMap _ _ _ hI hum) hh) hs
    rcases hr with ⟨hwants,hr⟩ | ⟨hwants,-,rfl⟩
    · exact Or.inr ⟨_,hI₃,hwants,hr⟩
    · exact Or.inl ⟨hI₃,fun _ => hwants⟩

/-- Before its HTTPS part an edge hop does not touch certificates. -/
theorem EdgeRun.certsKept {h h' : Hop} {r : Except Failure Unit} (hrun : EdgeRun G plan h r h') :
    (CertsKept h h' ∧ (r = .ok () → h.l7.runtimeInfo.wantsHTTPS = false)) ∨
      ∃ h₁, CertsKept h h₁ ∧ h.l7.runtimeInfo.wantsHTTPS = true ∧ HttpsRun G plan h₁ r h' :=
  hrun.front G plan (CertsKept.refl h) (fun _ _ _ hk hp => hk.trans hp.certsKept)
    (fun _ _ _ hk hp => hk.trans hp.certsKept) (fun _ _ _ hk hp => hk.trans hp.certsKept)

/-- A property of hops that each check of an edge hop preserves. The forwarding rules
are checked for a proxy that has a self link. -/
structure Preserved (I : Hop → Prop) : Prop where
  urlMap : ∀ {h r h'}, I h → UrlMapPost G plan h r h' → I h'
  proxy : ∀ {h r h'}, I h → ProxyPost G plan h r h' → I h'
  httpRule : ∀ {tp h r h'}, tp.selfLink ≠ [] → I h → HttpRuleStep G plan tp h r h' → I h'
  staticIP : ∀ {h r h'}, I h → StaticIPPost G plan h r h' → I h'
  cert : ∀ {h r h'}, I h → CertStep G plan h r h' → I h'
  httpsProxy : ∀ {h r h'}, I h → HttpsProxyPost G plan h r h' → I h'
  httpsRule : ∀ {tps h r h'}, tps.selfLink ≠ [] → I h → HttpsRuleStep G plan tps h r h' → I h'
  oldCert : ∀ {h r h'}, I h → OldCertStep h r h' → I h'

section Preserved
variable {G plan} {I : Hop → Prop} {h h' : Hop} {r : Except Failure Unit}

theorem HttpRun.preserves (hp : Preserved G plan I) (hI : I h) (hr : HttpRun G plan h r h') : I h' := by
  cases hr with
  | noProxy proxy => exact hp.proxy hI proxy
  | rule proxy found rule =>
    obtain ⟨um,s,tp,-,-,-,htp,hlink⟩ := proxy.ok rfl
    obtain rfl := Option.some.inj (htp.symm.trans found)
    exact hp.httpRule (hlink ▸ G.link_ne_nil _ _) (hp.proxy hI proxy) rule

theorem HttpsRun.preserves (hp : Preserved G plan I) (hI : I h) (hr : HttpsRun G plan h r h') : I h' := by
  have hlinked : ∀ {h₁ h₂ tps}, CertStep G plan h (.ok ()) h₁ → HttpsProxyPost G plan h₁ (.ok ()) h₂ →
      h₂.l7.tps = some tps → tps.selfLink ≠ [] := by
    intro h₁ h₂ tps cert proxy found
    obtain ⟨c,hc⟩ := cert.recorded
    obtain ⟨um,s,tps',-,-,-,-,htps,hlink⟩ := proxy.ok rfl c hc
    obtain rfl := Option.some.inj (htps.symm.trans found)
    exact hlink ▸ G.link_ne_nil _ _
  cases hr with
  | noCert cert => exact hp.cert hI cert
  | noProxy cert proxy => exact hp.httpsProxy (hp.cert hI cert) proxy
  | noRule cert proxy found rule =>
    exact hp.httpsRule (hlinked cert proxy found) (hp.httpsProxy (hp.cert hI cert) proxy) rule
  | old cert proxy found rule old =>
    exact hp.oldCert (hp.httpsRule (hlinked cert proxy found)
      (hp.httpsProxy (hp.cert hI cert) proxy) rule) old

theorem EdgeRun.preserves (hp : Preserved G plan I) (hI : I h) (hr : EdgeRun G plan h r h') : I h' := by
  rcases hr.front G plan hI (fun _ _ _ => hp.urlMap) (fun _ _ _ hI hr => hr.preserves hp hI)
      (fun _ _ _ => hp.staticIP) with
    ⟨hI',-⟩ | ⟨h₁,hI₁,-,hr⟩
  · exact hI'
  · exact hr.preserves hp hI₁

theorem preserved_name (name : Str) : Preserved G plan (fun h => h.l7.name = name) where
  urlMap hI hp := by rw [hp.l7]; exact hI
  proxy hI hp := by rw [hp.l7]; exact hI
  httpRule _ hI hp := by rw [(HttpRuleStep.certsKept hp).name]; exact hI
  staticIP hI hp := by rw [hp.l7]; exact hI
  cert hI hs := by rw [hs.l7_eq]; exact hI
  httpsProxy hI hp := by rw [hp.l7]; exact hI
  httpsRule _ hI hp := by rw [(HttpsRuleStep.certsKept hp).name]; exact hI
  oldCert hI hs := by rw [hs.l7_eq]; exact hI

theorem EdgeRun.name (hr : EdgeRun G plan h r h') : h'.l7.name = h.l7.name :=
  hr.preserves (preserved_name h.l7.name) rfl

end Preserved

end IngressGce
