import IngressGce.LoadBalancer.Hop
import IngressGce.LoadBalancer.Pool

/-! # The frontends an edge hop leaves

An edge hop checks the forwarding rule of a frontend once, and nothing else in the
hop touches forwarding rules, addresses or what is recorded of them, apart from the
check of the static address between the two frontends.
-/
namespace IngressGce
open Prog
variable (G : SelfLinks) (plan : Plan)

/-- What matters of a load balancer for its forwarding rules. -/
structure RuleView where
  name : Str
  runtimeInfo : L7RuntimeInfo
  ip : Option Address

def L7.ruleView (l : L7) : RuleView := { name := l.name, runtimeInfo := l.runtimeInfo, ip := l.ip }

/-- The calls that touch forwarding rules. -/
abbrev ruleCalls : List Site := ruleSites .http ++ ruleSites .https

/-- The event is a call that touches no forwarding rule. -/
def Event.Apart (e : Event) : Prop := (∃ sites, e.At sites) ∧ ¬e.At ruleCalls

/-- Forwarding rules, addresses and what matters for them are as before. -/
structure RulesKept (h h' : Hop) : Prop where
  view : h'.l7.ruleView = h.l7.ruleView
  rules : ∀ n, h'.cloud .forwardingRule n = h.cloud .forwardingRule n
  addresses : ∀ n, h'.cloud .address n = h.cloud .address n
  log : h.LogOnly Event.Apart h'

section RulesKept
variable {G plan} {h h' h'' : Hop} {r : Except Failure Unit}

theorem Event.At.apart {sites : List Site} {e : Event} (he : e.At sites) (hs : ∀ site ∈ sites, site ∉ ruleCalls) :
    e.Apart := ⟨⟨sites,he⟩,he.not_at hs⟩

namespace RulesKept

theorem trans (h₁ : RulesKept h h') (h₂ : RulesKept h' h'') : RulesKept h h'' where
  view := h₂.view.trans h₁.view
  rules n := (h₂.rules n).trans (h₁.rules n)
  addresses n := (h₂.addresses n).trans (h₁.addresses n)
  log := h₁.log.trans h₂.log

theorem name (hk : RulesKept h h') : h'.l7.name = h.l7.name := congrArg RuleView.name hk.view
theorem info (hk : RulesKept h h') : h'.l7.runtimeInfo = h.l7.runtimeInfo := congrArg RuleView.runtimeInfo hk.view
theorem ip (hk : RulesKept h h') : h'.l7.ip = h.l7.ip := congrArg RuleView.ip hk.view

/-- Managing a resource of another kind keeps the rules. -/
theorem of_manages {k : Kind} {name : Str} {accounted : Prop} {sites : List Site}
    (hm : Manages k name accounted (Event.At sites) h h') (hrule : k ≠ .forwardingRule) (haddress : k ≠ .address)
    (hview : h'.l7.ruleView = h.l7.ruleView) (hs : ∀ site ∈ sites, site ∉ ruleCalls) : RulesKept h h' where
  view := hview
  rules _ := hm.cloud _ _ fun h => hrule h.1.symm
  addresses _ := hm.cloud _ _ fun h => haddress h.1.symm
  log := hm.log.mono fun _ he => he.apart hs

end RulesKept

theorem UrlMapPost.rulesKept (hp : UrlMapPost G plan h r h') : RulesKept h h' :=
  .of_manages hp.manages (by simp) (by simp) (by rw [hp.l7]; rfl) (by simp)

theorem ProxyPost.rulesKept (hp : ProxyPost G plan h r h') : RulesKept h h' :=
  .of_manages hp.manages (by simp) (by simp) (by rw [hp.l7]; rfl) (by simp)

theorem HttpsProxyPost.rulesKept (hp : HttpsProxyPost G plan h r h') : RulesKept h h' :=
  .of_manages hp.manages (by simp) (by simp) (by rw [hp.l7]; rfl) (by simp)

theorem CertStep.rulesKept (hs : CertStep G plan h r h') : RulesKept h h' where
  view := by rw [hs.l7_eq]; rfl
  rules n := hs.others (by simp) n
  addresses n := hs.others (by simp) n
  log := by
    have hread : ∀ e : Event, e.At certReadSites → e.Apart := fun e he => he.apart (by simp)
    cases hs with
    | preShared tlsName found l7 cloud log => exact log.mono hread
    | unshared tlsName l7 cloud log => exact log.mono hread
    | unread tlsName fault l7 cloud log => exact log.mono hread
    | noSecret tlsName l7 cloud log => exact log.mono hread
    | current tlsName tls_eq same l7 cloud log => exact log.mono hread
    | replaced rotates l7 cloud log replaced log' =>
      refine (log.mono hread).trans (log'.mono ?_)
      rintro e (rfl | he)
      · exact ⟨⟨[.certDelete],List.mem_cons_self⟩,by simp [Event.At]⟩
      · exact he.apart (by simp)

theorem OldCertStep.rulesKept (hs : OldCertStep h r h') : RulesKept h h' where
  view := by rw [hs.l7_eq]; rfl
  rules n := hs.others (by simp) n
  addresses n := hs.others (by simp) n
  log := by
    have hcall : ∀ {name : Str}, h'.log = .call h.l7.name .oldCertDelete .sslCertificate name h.cloud :: h.log →
        h.LogOnly Event.Apart h' := by
      intro name hlog e he
      rw [hlog] at he
      refine (List.mem_cons.mp he).symm.imp_right ?_
      rintro rfl
      exact ⟨⟨[.oldCertDelete],List.mem_cons_self⟩,by simp [Event.At]⟩
    cases hs with
    | nothing obsolete => exact .refl _ _
    | failed obsolete l7 cloud log => exact hcall log
    | deleted obsolete l7 cloud log => exact hcall log

end RulesKept

section Chain

/-- The HTTP rule listens on its port and targets the HTTP proxy, which points at the
url map. -/
def HttpChain (c : Cloud) (lb : Str) : Prop :=
  ∃ fw proxy, c .forwardingRule (Namer.forwardingRule lb .http) = some fw ∧
    fw.body.portRange = httpDefaultPortRange ∧
    fw.body.target = G.link .targetHttpProxy (Namer.targetProxy lb .http) ∧
    c .targetHttpProxy (Namer.targetProxy lb .http) = some proxy ∧
    proxy.body.urlMap = G.link .urlMap (Namer.urlMap lb)

def HttpsChain (c : Cloud) (lb : Str) : Prop :=
  ∃ fws proxy, c .forwardingRule (Namer.forwardingRule lb .https) = some fws ∧
    fws.body.portRange = httpsDefaultPortRange ∧
    fws.body.target = G.link .targetHttpsProxy (Namer.targetProxy lb .https) ∧
    c .targetHttpsProxy (Namer.targetProxy lb .https) = some proxy ∧
    proxy.body.urlMap = G.link .urlMap (Namer.urlMap lb)

/-- If the event is a check of a forwarding rule, it is the one of the protocol, and
the rule has the address asked for. -/
def Event.Addressed (lb : Str) (protocol : NamerProtocol) (c : Cloud) : Event → Prop
  | .call _ _ _ _ _ => True
  | .checkForwardingRule lb' protocol' ip => lb' = lb ∧ protocol' = protocol ∧
    (ip ≠ [] → ∃ s, c .forwardingRule (Namer.forwardingRule lb protocol) = some s ∧ s.body.ipAddress = ip)

/-- What a successful edge hop leaves of the wanted frontends. -/
structure Chain (lb : Str) (ri : L7RuntimeInfo) (h : Hop) : Prop where
  urlMap : ∃ s, h.cloud .urlMap (Namer.urlMap lb) = some s
  http : ri.allowHTTP = true → HttpChain G h.cloud lb
  https : ri.wantsHTTPS = true → HttpsChain G h.cloud lb
  addressed : ∀ e ∈ h.log, e.Addressed lb .http h.cloud ∨ e.Addressed lb .https h.cloud

variable {G plan} {h h' : Hop} {r : Except Failure Unit}

theorem Event.Apart.addressed {e : Event} (he : e.Apart) (lb : Str) (protocol : NamerProtocol) (c : Cloud) :
    e.Addressed lb protocol c := by
  cases e with
  | call lb site k name before => trivial
  | checkForwardingRule lb protocol ip =>
    obtain ⟨⟨sites,hat⟩,-⟩ := he
    exact hat.elim

theorem Event.Addressed.congr {lb : Str} {protocol : NamerProtocol} {c c' : Cloud} {e : Event}
    (he : e.Addressed lb protocol c)
    (hc : c' .forwardingRule (Namer.forwardingRule lb protocol) = c .forwardingRule (Namer.forwardingRule lb protocol)) :
    e.Addressed lb protocol c' := by
  cases e with
  | call lb site k name before => trivial
  | checkForwardingRule lb' protocol' ip =>
    obtain ⟨hlb,hprotocol,hip⟩ := he
    exact ⟨hlb,hprotocol,fun hne => by rw [hc]; exact hip hne⟩

/-- A checked rule has the address it was asked to have. -/
theorem RuleStep.addressed {protocol : NamerProtocol} {caller : IPCaller} {portRange proxyLink : Str}
    {record : ForwardingRule → L7 → L7}
    (hp : RuleStep G plan protocol caller portRange proxyLink record h (.ok ()) h') :
    h.LogOnly (fun e => e.Addressed h.l7.name protocol h'.cloud) h' := by
  obtain ⟨fw,s,-,-,-,hs,-,-,hip⟩ := hp.ok rfl
  refine hp.manages.log.mono ?_
  rintro e (he | rfl)
  · cases e with
    | call lb site k name before => trivial
    | checkForwardingRule lb protocol ip => exact he.elim
  · refine ⟨rfl,rfl,fun hne => ⟨s,hs,?_⟩⟩
    rw [hip]
    exact if_neg hne

/-- The HTTP part touches nothing but its proxy and its rule. -/
theorem HttpRun.frame (hr : HttpRun G plan h r h') {k : Kind} {n : Str} (hproxy : k ≠ .targetHttpProxy)
    (hrule : ¬(k = .forwardingRule ∧ n = Namer.forwardingRule h.l7.name .http)) :
    h'.cloud k n = h.cloud k n := by
  have hp : ¬(k = .targetHttpProxy ∧ n = Namer.targetProxy h.l7.name .http) := fun h => hproxy h.1
  cases hr with
  | noProxy proxy => exact proxy.manages.cloud k n hp
  | rule proxy found rule =>
    rw [← proxy.rulesKept.name] at hrule
    rw [rule.manages.cloud k n hrule,proxy.manages.cloud k n hp]

theorem HttpRun.um (hr : HttpRun G plan h r h') : h'.l7.um = h.l7.um := by
  cases hr with
  | noProxy proxy => rw [proxy.l7]
  | rule proxy found rule =>
    rcases rule.l7_eq with hl7 | ⟨fw,hl7⟩
    · rw [hl7,proxy.l7]
    · rw [hl7,proxy.l7]

theorem HttpRun.chain (hr : HttpRun G plan h (.ok ()) h') {um : UrlMap} (hum : h.l7.um = some um)
    (hlink : um.selfLink = G.link .urlMap (Namer.urlMap h.l7.name)) :
    HttpChain G h'.cloud h.l7.name ∧ h.LogOnly (fun e => e.Addressed h.l7.name .http h'.cloud) h' := by
  cases hr with
  | rule proxy found rule =>
    have hname := proxy.rulesKept.name
    obtain ⟨um',p,tp,hum',hp,hurl,htp,hself⟩ := proxy.ok rfl
    obtain rfl : um = um' := Option.some.inj (hum.symm.trans hum')
    obtain rfl := Option.some.inj (htp.symm.trans found)
    obtain ⟨fw,s,-,-,-,hs,htarget,hport,-⟩ := rule.ok rfl
    have haddressed := rule.addressed
    rw [hname] at hs haddressed
    refine ⟨⟨s,p,hs,hport,htarget.trans hself,?_,hurl.trans hlink⟩,?_⟩
    · rw [rule.manages.cloud _ _ (by simp),hp]
    · exact (proxy.rulesKept.log.mono fun e he => he.addressed _ _ _).trans haddressed

/-- The HTTPS part touches nothing but certificates, its proxy and its rule. -/
theorem HttpsRun.frame (hr : HttpsRun G plan h r h') {k : Kind} {n : Str} (hcert : k ≠ .sslCertificate)
    (hproxy : k ≠ .targetHttpsProxy)
    (hrule : ¬(k = .forwardingRule ∧ n = Namer.forwardingRule h.l7.name .https)) :
    h'.cloud k n = h.cloud k n := by
  have hname : ∀ {h₁ : Hop}, h₁.l7.name = h.l7.name →
      ¬(k = .forwardingRule ∧ n = Namer.forwardingRule h₁.l7.name .https) := by
    intro h₁ heq
    rw [heq]
    exact hrule
  have hp : ∀ {m : Str}, ¬(k = .targetHttpsProxy ∧ n = m) := fun h => hproxy h.1
  cases hr with
  | noCert cert => exact cert.others hcert n
  | noProxy cert proxy => rw [proxy.manages.cloud k n hp,cert.others hcert n]
  | noRule cert proxy found rule =>
    rw [rule.manages.cloud k n (hname (proxy.rulesKept.name.trans cert.rulesKept.name)),
      proxy.manages.cloud k n hp,cert.others hcert n]
  | old cert proxy found rule old =>
    rw [old.others hcert n,rule.manages.cloud k n (hname (proxy.rulesKept.name.trans cert.rulesKept.name)),
      proxy.manages.cloud k n hp,cert.others hcert n]

theorem HttpsRun.chain (hr : HttpsRun G plan h (.ok ()) h') {um : UrlMap} (hum : h.l7.um = some um)
    (hlink : um.selfLink = G.link .urlMap (Namer.urlMap h.l7.name)) :
    HttpsChain G h'.cloud h.l7.name ∧ h.LogOnly (fun e => e.Addressed h.l7.name .https h'.cloud) h' := by
  cases hr with
  | @old _ _ h₁ h₂ h₃ _ cert proxy found rule old =>
    have hname₁ := cert.rulesKept.name
    have hname₂ := proxy.rulesKept.name.trans hname₁
    have hum₁ : h₁.l7.um = some um := by rw [cert.l7_eq]; exact hum
    obtain ⟨c,hc⟩ := cert.recorded
    obtain ⟨um',p,tps,hum',hp,hurl,-,htps,hself⟩ := proxy.ok rfl c hc
    obtain rfl : um = um' := Option.some.inj (hum₁.symm.trans hum')
    obtain rfl := Option.some.inj (htps.symm.trans found)
    obtain ⟨fws,s,-,-,-,hs,htarget,hport,-⟩ := rule.ok rfl
    have haddressed := rule.addressed
    rw [hname₁] at hp hself
    rw [hname₂] at hs haddressed
    have hkept := old.rulesKept
    refine ⟨⟨s,p,by rw [hkept.rules,hs],hport,htarget.trans hself,?_,hurl.trans hlink⟩,?_⟩
    · rw [old.others (by simp),rule.manages.cloud _ _ (by simp),hp]
    · have hapart : ∀ {h h' : Hop}, RulesKept h h' → ∀ lb c, h.LogOnly (fun e => e.Addressed lb .https c) h' :=
        fun hk lb c => hk.log.mono fun e he => he.addressed lb _ c
      refine (((hapart cert.rulesKept _ _).trans (hapart proxy.rulesKept _ _)).trans
        (haddressed.mono fun e he => he.congr (hkept.rules _))).trans (hapart hkept _ _)

/-- The url map and the HTTP frontend of the load balancer are as before. -/
structure HttpKept (lb : Str) (c c' : Cloud) : Prop where
  urlMap : c' .urlMap (Namer.urlMap lb) = c .urlMap (Namer.urlMap lb)
  proxy : c' .targetHttpProxy (Namer.targetProxy lb .http) = c .targetHttpProxy (Namer.targetProxy lb .http)
  rule : c' .forwardingRule (Namer.forwardingRule lb .http) = c .forwardingRule (Namer.forwardingRule lb .http)

theorem HttpKept.refl (lb : Str) (c : Cloud) : HttpKept lb c c := ⟨rfl,rfl,rfl⟩

theorem StaticIPPost.httpKept (hp : StaticIPPost G plan h r h') (lb : Str) : HttpKept lb h.cloud h'.cloud where
  urlMap := hp.manages.cloud _ _ (by simp)
  proxy := hp.manages.cloud _ _ (by simp)
  rule := hp.manages.cloud _ _ (by simp)

/-- The HTTPS part leaves the HTTP frontend alone: the names of the two forwarding
rules differ however long the name of the load balancer is. -/
theorem HttpsRun.httpKept (hr : HttpsRun G plan h r h') : HttpKept h.l7.name h.cloud h'.cloud where
  urlMap := hr.frame (by simp) (by simp) (by simp)
  proxy := hr.frame (by simp) (by simp) (by simp)
  rule := hr.frame (by simp) (by simp) fun heq => forwardingRule_ne h.l7.name heq.2

theorem HttpChain.congr {lb : Str} {c c' : Cloud} (hc : HttpChain G c lb) (hk : HttpKept lb c c') :
    HttpChain G c' lb := by
  obtain ⟨fw,proxy,hfw,hport,htarget,hproxy,hurl⟩ := hc
  exact ⟨fw,proxy,hk.rule.trans hfw,hport,htarget,hk.proxy.trans hproxy,hurl⟩

/-- The load balancer has the same name and the same url map as before. -/
structure UrlMapKept (h h' : Hop) : Prop where
  name : h'.l7.name = h.l7.name
  um : h'.l7.um = h.l7.um
  cloud : h'.cloud .urlMap (Namer.urlMap h.l7.name) = h.cloud .urlMap (Namer.urlMap h.l7.name)

theorem HttpRun.urlMapKept (hr : HttpRun G plan h r h') : UrlMapKept h h' where
  name := hr.certsKept.name
  um := hr.um
  cloud := hr.frame (by simp) (by simp)

theorem StaticIPPost.urlMapKept (hp : StaticIPPost G plan h r h') : UrlMapKept h h' where
  name := hp.certsKept.name
  um := by rw [hp.l7]
  cloud := hp.manages.cloud _ _ (by simp)

/-- The HTTP part, which is skipped unless HTTP is allowed. -/
theorem IfSo.httpChain {allow : Bool} (hi : IfSo allow (HttpRun G plan) h (.ok ()) h') {um : UrlMap}
    (hum : h.l7.um = some um) (hlink : um.selfLink = G.link .urlMap (Namer.urlMap h.l7.name)) :
    (allow = true → HttpChain G h'.cloud h.l7.name) ∧
      h.LogOnly (fun e => e.Addressed h.l7.name .http h'.cloud) h' := by
  rcases hi with ⟨-,hr⟩ | ⟨hno,-,rfl⟩
  · exact (hr.chain hum hlink).imp_left fun hc _ => hc
  · exact ⟨by simp [hno],.refl _ _⟩

theorem IfSo.httpsChain {wants : Bool} (hi : IfSo wants (HttpsRun G plan) h (.ok ()) h') {um : UrlMap}
    (hum : h.l7.um = some um) (hlink : um.selfLink = G.link .urlMap (Namer.urlMap h.l7.name)) :
    (wants = true → HttpsChain G h'.cloud h.l7.name) ∧
      h.LogOnly (fun e => e.Addressed h.l7.name .https h'.cloud) h' := by
  rcases hi with ⟨-,hr⟩ | ⟨hno,-,rfl⟩
  · exact (hr.chain hum hlink).imp_left fun hc _ => hc
  · exact ⟨by simp [hno],.refl _ _⟩

theorem EdgeRun.chain (hr : EdgeRun G plan h (.ok ()) h') :
    (∃ s, h'.cloud .urlMap (Namer.urlMap h.l7.name) = some s) ∧
      (h.l7.runtimeInfo.allowHTTP = true → HttpChain G h'.cloud h.l7.name) ∧
      (h.l7.runtimeInfo.wantsHTTPS = true → HttpsChain G h'.cloud h.l7.name) ∧
      h.LogOnly (fun e => e.Addressed h.l7.name .http h'.cloud ∨ e.Addressed h.l7.name .https h'.cloud) h' := by
  cases hr with
  | @https _ h₁ h₂ h₃ _ urlMap http staticIP https =>
    obtain ⟨um,hum,hum₁⟩ := urlMap.ok rfl
    have hname₁ : h₁.l7.name = h.l7.name := urlMap.rulesKept.name
    have hmap₂ : UrlMapKept h₁ h₂ := http.relates (Q := UrlMapKept) ⟨rfl,rfl,rfl⟩ HttpRun.urlMapKept
    have hmap₃ : UrlMapKept h₂ h₃ := staticIP.relates (Q := UrlMapKept) ⟨rfl,rfl,rfl⟩ StaticIPPost.urlMapKept
    have hname₂ : h₂.l7.name = h.l7.name := hmap₂.name.trans hname₁
    have hname₃ : h₃.l7.name = h.l7.name := hmap₃.name.trans hname₂
    have hkept₃ : HttpKept h.l7.name h₂.cloud h₃.cloud :=
      staticIP.relates (Q := fun h₂ h₃ => HttpKept h.l7.name h₂.cloud h₃.cloud) (.refl _ _)
        fun hr => hr.httpKept _
    have hkept : HttpKept h.l7.name h₃.cloud h'.cloud :=
      https.relates (Q := fun h₃ h' => HttpKept h.l7.name h₃.cloud h'.cloud) (.refl _ _)
        fun hr => hname₃ ▸ hr.httpKept
    have hlink : (um.view G (Namer.urlMap h.l7.name)).selfLink = G.link .urlMap (Namer.urlMap h.l7.name) := rfl
    obtain ⟨hhttp,hlog₂⟩ := http.httpChain hum₁ (by rw [hname₁]; exact hlink)
    obtain ⟨hhttps,hlog'⟩ := https.httpsChain ((hmap₃.um.trans hmap₂.um).trans hum₁) (by rw [hname₃]; exact hlink)
    have hmap := hmap₂.cloud
    have hmap' := hmap₃.cloud
    rw [hname₁] at hhttp hlog₂ hmap
    rw [hname₂] at hmap'
    rw [hname₃] at hhttps hlog'
    refine ⟨⟨um,?_⟩,fun ha => ((hhttp ha).congr hkept₃).congr hkept,hhttps,?_⟩
    · rw [hkept.urlMap,hmap',hmap,hum]
    · -- the log is that of the url map, of the HTTP part, of the static address and of the HTTPS part
      have hcalls : h₂.LogOnly (fun e => e.Addressed h.l7.name .http h₂.cloud) h₃ :=
        staticIP.relates (Q := fun h₂ h₃ => h₂.LogOnly (fun e => e.Addressed h.l7.name .http h₂.cloud) h₃)
          (.refl _ _) fun hr => hr.manages.log.mono fun e he => (he.apart (by simp)).addressed _ _ _
      have hfront := ((urlMap.rulesKept.log.mono fun e he => he.addressed h.l7.name .http h₂.cloud).trans
        hlog₂).trans hcalls
      intro e he
      rcases hlog' e he with he | he
      · refine (hfront e he).imp_right ?_
        intro haddressed
        exact Or.inl (haddressed.congr (hkept.rule.trans hkept₃.rule))
      · exact Or.inr (Or.inr he)

/-- An edge hop that succeeds leaves, for each wanted frontend, an unbroken chain from
its forwarding rule to the url map, whatever was in the cloud before. -/
theorem edgeHop_chain (G : SelfLinks) (plan : Plan) (l : L7) (c : Cloud) :
    Ensures (edgeHop G plan) { l7 := l, cloud := c, log := [] }
      (fun r h' => r = .ok () → Chain G l.name l.runtimeInfo h') := by
  refine (edgeHop_spec G plan _).mono ?_
  rintro r h' hr rfl
  obtain ⟨hurlMap,hhttp,hhttps,hlog⟩ := hr.chain
  refine ⟨hurlMap,hhttp,hhttps,?_⟩
  intro e he
  exact (hlog e he).resolve_left (by simp)

end Chain

section Presence

/-- The runtime info asks for the frontend. -/
def L7RuntimeInfo.wants (ri : L7RuntimeInfo) : NamerProtocol → Bool
  | .http => ri.allowHTTP
  | .https => ri.wantsHTTPS

def Cloud.hasRule (c : Cloud) (lb : Str) (protocol : NamerProtocol) : Bool :=
  (c .forwardingRule (Namer.forwardingRule lb protocol)).isSome

variable {G plan} {h h' : Hop}

theorem hasRule_congr {c c' : Cloud} {lb : Str} {protocol : NamerProtocol}
    (hc : c' .forwardingRule (Namer.forwardingRule lb protocol) =
      c .forwardingRule (Namer.forwardingRule lb protocol)) : c'.hasRule lb protocol = c.hasRule lb protocol := by
  unfold Cloud.hasRule
  rw [hc]

theorem EdgeRun.hasRule_http (hr : EdgeRun G plan h (.ok ()) h') :
    h'.cloud.hasRule h.l7.name .http = (h.l7.runtimeInfo.allowHTTP || h.cloud.hasRule h.l7.name .http) := by
  cases hallow : h.l7.runtimeInfo.allowHTTP with
  | true =>
    obtain ⟨fw,-,hfw,-⟩ := hr.chain.2.1 hallow
    rw [Cloud.hasRule,hfw]
    rfl
  | false =>
    rw [Bool.false_or]
    apply hasRule_congr
    cases hr with
    | https urlMap http staticIP https =>
      obtain rfl := http.of_false hallow
      obtain rfl := staticIP.of_false (by rw [hallow]; rfl)
      have hk := urlMap.rulesKept
      rw [← hk.rules,← hk.name]
      exact https.relates (Q := fun h h' => h'.cloud .forwardingRule (Namer.forwardingRule h.l7.name .http) =
        h.cloud .forwardingRule (Namer.forwardingRule h.l7.name .http)) rfl fun hr => hr.httpKept.rule

theorem EdgeRun.hasRule_https (hr : EdgeRun G plan h (.ok ()) h') :
    h'.cloud.hasRule h.l7.name .https = (h.l7.runtimeInfo.wantsHTTPS || h.cloud.hasRule h.l7.name .https) := by
  cases hwants : h.l7.runtimeInfo.wantsHTTPS with
  | true =>
    obtain ⟨fws,-,hfws,-⟩ := hr.chain.2.2.1 hwants
    rw [Cloud.hasRule,hfws]
    rfl
  | false =>
    rw [Bool.false_or]
    apply hasRule_congr
    cases hr with
    | https urlMap http staticIP https =>
      obtain rfl := https.of_false hwants
      obtain rfl := staticIP.of_false (by rw [hwants,Bool.and_false])
      have hk := urlMap.rulesKept
      rw [← hk.rules,← hk.name]
      exact http.relates (Q := fun h h' => h'.cloud .forwardingRule (Namer.forwardingRule h.l7.name .https) =
        h.cloud .forwardingRule (Namer.forwardingRule h.l7.name .https)) rfl fun hr =>
          hr.frame (by simp) fun heq => forwardingRule_ne _ heq.2.symm

/-- A successful edge hop adds the wanted frontends and removes none. -/
theorem EdgeRun.hasRule (hr : EdgeRun G plan h (.ok ()) h') (protocol : NamerProtocol) :
    h'.cloud.hasRule h.l7.name protocol =
      (h.l7.runtimeInfo.wants protocol || h.cloud.hasRule h.l7.name protocol) := by
  cases protocol with
  | http => exact hr.hasRule_http
  | https => exact hr.hasRule_https

namespace L7s

/-- Every load balancer of the pool has the name. -/
def AllNamed (key : Str) (w : L7s) : Prop := ∀ k lb, w.lookup k = some lb → (w.heap lb).name = key

theorem AllNamed.startL7 {w : L7s} {ri : L7RuntimeInfo} (hw : w.AllNamed (w.namer.loadBalancer ri.name)) :
    (w.startL7 ri).name = w.namer.loadBalancer ri.name := by
  unfold L7s.startL7
  split
  · rfl
  · rename_i lb hlookup
    exact hw _ lb hlookup

theorem AllNamed.afterAdd {w : L7s} {ri : L7RuntimeInfo} {key : Str} {h : Hop} (hw : w.AllNamed key)
    (hh : h.l7.name = key) : (w.afterAdd ri h).AllNamed key := by
  intro k lb hlookup
  by_cases hslot : lb = w.slot ri
  · rw [hslot,heap_afterAdd_self]
    exact hh
  · rw [heap_afterAdd_of_ne hslot]
    by_cases hk : k = w.namer.loadBalancer ri.name
    · rw [hk,lookup_afterAdd_self] at hlookup
      exact absurd (Option.some.inj hlookup).symm hslot
    · rw [lookup_afterAdd_of_ne hk] at hlookup
      exact hw k lb hlookup

/-- What one `add` of the load balancer does to its forwarding rules. -/
theorem add_hasRule {w : L7s} {ri : L7RuntimeInfo} (hw : w.AllNamed (w.namer.loadBalancer ri.name)) (plan : Plan) :
    Ensures (add G ri plan) w (fun r w' => w'.namer = w.namer ∧ w'.AllNamed (w.namer.loadBalancer ri.name) ∧
      (r = .ok () → ∀ protocol, w'.cloud.hasRule (w.namer.loadBalancer ri.name) protocol =
        (ri.wants protocol || w.cloud.hasRule (w.namer.loadBalancer ri.name) protocol))) := by
  rw [ensures_add]
  refine (edgeHop_spec G plan _).mono ?_
  intro r h hr
  have hstart := hw.startL7
  refine ⟨rfl,hw.afterAdd (hr.name.trans hstart),?_⟩
  rintro rfl protocol
  have hrule := hr.hasRule protocol
  rw [startL7_runtimeInfo,hstart] at hrule
  exact hrule

variable (G) in
/-- One step of a run of `add`. -/
def addNext (w : L7s) (lb : L7RuntimeInfo × Plan) : L7s := (add G lb.1 lb.2 w).2

variable (G) in
/-- The call of `add` returns nil. -/
def AddOk (w : L7s) (lb : L7RuntimeInfo × Plan) : Prop := (add G lb.1 lb.2 w).1 = .ok ()

/-- A pool at the start of the process, once the default backend is known. -/
def startWith (namer : Namer) (c : Cloud) (backend : Option BackendService) : L7s :=
  { start namer c with glbcDefaultBackend := backend }

/-- A run of `add` for one load balancer leaves the frontends wanted by any of its
runtime infos, beside those it found. -/
theorem adds_hasRule {name : Str} (lbs : List (L7RuntimeInfo × Plan)) (hname : ∀ lb ∈ lbs, lb.1.name = name)
    {w : L7s} (hw : w.AllNamed (w.namer.loadBalancer name)) (hok : Runs.Along (addNext G) (AddOk G) w lbs)
    (protocol : NamerProtocol) :
    (Runs.final (addNext G) w lbs).cloud.hasRule (w.namer.loadBalancer name) protocol =
      (lbs.any (fun lb => lb.1.wants protocol) || w.cloud.hasRule (w.namer.loadBalancer name) protocol) := by
  induction lbs generalizing w with
  | nil => rfl
  | cons lb rest ih =>
    have hlb : lb.1.name = name := hname lb List.mem_cons_self
    rw [← hlb] at hw
    obtain ⟨hnamer,hall,hrules⟩ := add_hasRule (G := G) hw lb.2
    have hrule := hrules hok.1 protocol
    rw [hlb] at hall hrule
    have hrest := ih (fun lb' hlb' => hname lb' (List.mem_cons_of_mem lb hlb')) (hnamer ▸ hall) hok.2
    change (addNext G w lb).namer = w.namer at hnamer
    rw [hnamer] at hrest
    calc (Runs.final (addNext G) (addNext G w lb) rest).cloud.hasRule (w.namer.loadBalancer name) protocol
        = (rest.any (fun lb => lb.1.wants protocol) ||
            (addNext G w lb).cloud.hasRule (w.namer.loadBalancer name) protocol) := hrest
      _ = (rest.any (fun lb => lb.1.wants protocol) ||
            (lb.1.wants protocol || w.cloud.hasRule (w.namer.loadBalancer name) protocol)) :=
          congrArg _ hrule
      _ = ((lb :: rest).any (fun lb => lb.1.wants protocol) ||
            w.cloud.hasRule (w.namer.loadBalancer name) protocol) := by
          rw [List.any_cons,← Bool.or_assoc,Bool.or_comm (lb.1.wants protocol)]

/-- From a process start on a cloud without forwarding rules of the load balancer, a run
of successful calls of `add` for it leaves a frontend exactly if one of the runtime infos
has asked for it. -/
theorem adds_leave_wanted_frontends (G : SelfLinks) (namer : Namer) (c : Cloud) (backend : Option BackendService)
    (name : Str) (lbs : List (L7RuntimeInfo × Plan)) (hname : ∀ lb ∈ lbs, lb.1.name = name)
    (hc : ∀ protocol, c.hasRule (namer.loadBalancer name) protocol = false)
    (hok : Runs.Along (addNext G) (AddOk G) (startWith namer c backend) lbs) (protocol : NamerProtocol) :
    (Runs.final (addNext G) (startWith namer c backend) lbs).cloud.hasRule (namer.loadBalancer name) protocol = true ↔
      ∃ lb ∈ lbs, lb.1.wants protocol = true := by
  have hempty : (startWith namer c backend).AllNamed (namer.loadBalancer name) := by
    intro k lb hlookup
    cases hlookup
  have hrule := adds_hasRule lbs hname hempty hok protocol
  have hnone : (startWith namer c backend).cloud.hasRule (namer.loadBalancer name) protocol = false := hc protocol
  have hnamer : (startWith namer c backend).namer = namer := rfl
  rw [hnamer,hnone,Bool.or_false] at hrule
  rw [hrule,List.any_eq_true]

section HttpThenHttps

def httpOnly : L7RuntimeInfo :=
  { name := "default/test".toList, tls := none, tlsName := [], allowHTTP := true, staticIPName := [] }

def httpsOnly : L7RuntimeInfo where
  name := "default/test".toList
  tls := some { key := "key".toList, cert := "A".toList }
  tlsName := []
  allowHTTP := false
  staticIPName := []

/-- HTTP is allowed first and blocked later. -/
def httpThenHttps : List (L7RuntimeInfo × Plan) := [(httpOnly,.faultless),(httpsOnly,.faultless)]

def emptyPool : L7s :=
  startWith (Namer.setUID "uid1".toList) Cloud.empty (some { selfLink := "backendServices/default".toList })

theorem httpThenHttps_ok : Runs.Along (addNext SelfLinks.byCollection) (AddOk SelfLinks.byCollection) emptyPool
    httpThenHttps := by
  refine ⟨?_,?_,trivial⟩
  · unfold AddOk
    decide +kernel
  · unfold AddOk
    decide +kernel

theorem httpThenHttps_leaves_both_frontends :
    (Runs.final (addNext SelfLinks.byCollection) emptyPool httpThenHttps).cloud.hasRule
      ((Namer.setUID "uid1".toList).loadBalancer "default/test".toList) .http = true ∧
    (Runs.final (addNext SelfLinks.byCollection) emptyPool httpThenHttps).cloud.hasRule
      ((Namer.setUID "uid1".toList).loadBalancer "default/test".toList) .https = true := by
  have hrules := adds_leave_wanted_frontends SelfLinks.byCollection _ _ _ "default/test".toList httpThenHttps
    (by decide) (fun _ => rfl) httpThenHttps_ok
  exact ⟨(hrules .http).mpr (by decide),(hrules .https).mpr (by decide)⟩

/-- The HTTP rule is still there although the last runtime info does not allow HTTP. -/
theorem httpThenHttps_keeps_unwanted_rule :
    Runs.Along (addNext SelfLinks.byCollection) (AddOk SelfLinks.byCollection) emptyPool httpThenHttps ∧
    ¬((Runs.final (addNext SelfLinks.byCollection) emptyPool httpThenHttps).cloud.hasRule
      ((Namer.setUID "uid1".toList).loadBalancer "default/test".toList) .http = true ↔
        httpsOnly.allowHTTP = true) := by
  refine ⟨httpThenHttps_ok,?_⟩
  have hrule : (Runs.final (addNext SelfLinks.byCollection) emptyPool httpThenHttps).cloud.hasRule
      ((Namer.setUID "uid1".toList).loadBalancer "default/test".toList) .http = true := by decide +kernel
  intro hiff
  exact absurd (hiff.mp hrule) (by decide)

end HttpThenHttps

end L7s

end Presence

end IngressGce
