import IngressGce.LoadBalancer.Frontend

/-! # Where the forwarding rules take their address from

The address of a forwarding rule is asked for anew at each rule, and between the two
rules the address of the HTTP rule is made static. What the HTTPS rule is asked to have
is therefore decided by the lookup of the user's static address, by the address recorded
for the load balancer, and by the address the controller has under its own name.
-/
namespace IngressGce
open Prog
variable (G : SelfLinks) (plan : Plan)

section Sources
variable (l : L7) (c : Cloud)

/-- The address the load balancer falls back on when the user's is not found. -/
def L7.recordedIP : Str := (l.ip.map (fun ip => ip.body.address)).getD []

/-- The address of the HTTP rule once it has been checked. -/
def Plan.httpIP : Str :=
  ruleAddress (plan.effectiveIP G .http l c).1 httpDefaultPortRange (plan.ephemeral .http)
    (c .forwardingRule (Namer.forwardingRule l.name .http))

/-- The cloud once the address of the HTTP rule has been made static. -/
def Plan.reserved : Cloud :=
  if plan.reserves G l c then
    c.set .address (Namer.forwardingRule l.name .http)
      (some { body := { address := plan.httpIP G l c }, createdFor := some l.name })
  else c

/-- The recorded address is left as it is: there is no HTTP rule whose address could be
made static, or the user's is found, or the reservation is refused as taken. -/
def Plan.KeepsRecorded : Prop :=
  l.runtimeInfo.allowHTTP = false ∨ (plan.userIP G .staticIP l c).isSome ∨
    (plan.seen G .staticIPGet .address (Namer.forwardingRule l.name .http) c = none ∧
      plan.reserveTaken (Namer.forwardingRule l.name .http) c = true)

/-- The address recorded when the HTTPS rule is about to be checked, by where it comes
from: the recorded one stays, the controller's own is found in the cloud, or the address
of the HTTP rule has been reserved. -/
inductive StaticIPSource (ruleIP : Str) : Str → Prop
  | recorded (kept : plan.KeepsRecorded G l c) : StaticIPSource ruleIP l.recordedIP
  | own {ip : Address} (both : l.runtimeInfo.allowHTTP = true) (managed : plan.userIP G .staticIP l c = none)
      (seen : plan.seen G .staticIPGet .address (Namer.forwardingRule l.name .http) c = some ip) :
      StaticIPSource ruleIP ip.body.address
  | reserved (both : l.runtimeInfo.allowHTTP = true) (managed : plan.userIP G .staticIP l c = none)
      (unseen : plan.seen G .staticIPGet .address (Namer.forwardingRule l.name .http) c = none)
      (free : plan.reserveTaken (Namer.forwardingRule l.name .http) c = false) : StaticIPSource ruleIP ruleIP

/-- The static address the user names is the one the controller reserves in this hop,
and the lookup for the HTTPS rule does not fail. -/
def Plan.ReservesNamed : Prop :=
  l.runtimeInfo.allowHTTP = true ∧ l.runtimeInfo.staticIPName = Namer.forwardingRule l.name .http ∧
    plan.reserves G l c = true ∧ plan.fault (.effectiveIP .https) = none

end Sources

section Congr
variable {G plan} {l l' : L7} {c c' : Cloud}

theorem seen_congr {site : Site} {k : Kind} {n : Str} (hc : c' k n = c k n) :
    plan.seen G site k n c' = plan.seen G site k n c := by
  unfold Plan.seen
  rw [hc]

theorem userIP_congr {caller : IPCaller} (hinfo : l'.runtimeInfo = l.runtimeInfo)
    (hc : ∀ n, c' .address n = c .address n) : plan.userIP G caller l' c' = plan.userIP G caller l c := by
  unfold Plan.userIP
  rw [hinfo,seen_congr (hc _)]

theorem effectiveIP_of_some {caller : IPCaller} {a : Address} (hu : plan.userIP G caller l c = some a) :
    plan.effectiveIP G caller l c = (a.body.address,false) := by
  unfold Plan.effectiveIP
  rw [hu]

theorem effectiveIP_of_none {caller : IPCaller} (hu : plan.userIP G caller l c = none) :
    plan.effectiveIP G caller l c = (l.recordedIP,true) := by
  unfold Plan.effectiveIP L7.recordedIP
  rw [hu]
  cases l.ip <;> rfl

theorem effectiveIP_congr {caller : IPCaller} (hv : l'.ruleView = l.ruleView)
    (hc : ∀ n, c' .address n = c .address n) :
    plan.effectiveIP G caller l' c' = plan.effectiveIP G caller l c := by
  have hinfo : l'.runtimeInfo = l.runtimeInfo := congrArg RuleView.runtimeInfo hv
  have hip : l'.ip = l.ip := congrArg RuleView.ip hv
  unfold Plan.effectiveIP
  rw [userIP_congr hinfo hc,hip]

theorem reserveTaken_congr {n : Str} (hc : c' .address n = c .address n) :
    plan.reserveTaken n c' = plan.reserveTaken n c := by
  unfold Plan.reserveTaken
  rw [hc]

theorem reserves_congr (hv : l'.ruleView = l.ruleView) (hc : ∀ n, c' .address n = c .address n) :
    plan.reserves G l' c' = plan.reserves G l c := by
  have hname : l'.name = l.name := congrArg RuleView.name hv
  unfold Plan.reserves
  rw [effectiveIP_congr hv hc,hname,hc]

theorem RulesKept.httpIP {h h' : Hop} (hk : RulesKept h h') :
    plan.httpIP G h'.l7 h'.cloud = plan.httpIP G h.l7 h.cloud := by
  unfold Plan.httpIP
  rw [effectiveIP_congr hk.view hk.addresses,hk.rules,hk.name]

theorem StaticIPSource.congr (hv : l'.ruleView = l.ruleView) (hc : ∀ n, c' .address n = c .address n)
    {ruleIP w : Str} (hs : StaticIPSource G plan l c ruleIP w) : StaticIPSource G plan l' c' ruleIP w := by
  have hname : l'.name = l.name := congrArg RuleView.name hv
  have hinfo : l'.runtimeInfo = l.runtimeInfo := congrArg RuleView.runtimeInfo hv
  have hip : l'.ip = l.ip := congrArg RuleView.ip hv
  have huser : plan.userIP G .staticIP l' c' = plan.userIP G .staticIP l c := userIP_congr hinfo hc
  have hseen : plan.seen G .staticIPGet .address (Namer.forwardingRule l'.name .http) c' =
      plan.seen G .staticIPGet .address (Namer.forwardingRule l.name .http) c := by
    rw [hname]
    exact seen_congr (hc _)
  have htaken : plan.reserveTaken (Namer.forwardingRule l'.name .http) c' =
      plan.reserveTaken (Namer.forwardingRule l.name .http) c := by
    rw [hname]
    exact reserveTaken_congr (hc _)
  cases hs with
  | recorded kept =>
    have hrecorded : l'.recordedIP = l.recordedIP := by
      unfold L7.recordedIP
      rw [hip]
    rw [← hrecorded]
    apply StaticIPSource.recorded
    unfold Plan.KeepsRecorded
    rw [hinfo,huser,hseen,htaken]
    exact kept
  | own both managed seen => exact .own (hinfo ▸ both) (huser.trans managed) (hseen.trans seen)
  | reserved both managed unseen free =>
    exact .reserved (hinfo ▸ both) (huser.trans managed) (hseen.trans unseen) (htaken.trans free)

theorem StaticIPSource.unique {ruleIP w w' : Str} (hs : StaticIPSource G plan l c ruleIP w)
    (hs' : StaticIPSource G plan l c ruleIP w') : w' = w := by
  cases hs with
  | recorded kept =>
    cases hs' with
    | recorded kept' => rfl
    | own both managed seen => simp [Plan.KeepsRecorded,both,managed,seen] at kept
    | reserved both managed unseen free => simp [Plan.KeepsRecorded,both,managed,free] at kept
  | own both managed seen =>
    cases hs' with
    | recorded kept => simp [Plan.KeepsRecorded,both,managed,seen] at kept
    | own both' managed' seen' => rw [Option.some.inj (seen'.symm.trans seen)]
    | reserved both' managed' unseen free => cases seen.symm.trans unseen
  | reserved both managed unseen free =>
    cases hs' with
    | recorded kept => simp [Plan.KeepsRecorded,both,managed,free] at kept
    | own both' managed' seen => cases seen.symm.trans unseen
    | reserved both' managed' unseen' free' => rfl

/-- What the check of the static address records has one of these sources. -/
theorem staticIPSource (hallow : l.runtimeInfo.allowHTTP = true) (hip : l'.ip = plan.staticIPAfter G l c) :
    StaticIPSource G plan l c l.ruleIP l'.recordedIP := by
  unfold L7.recordedIP
  rw [hip,Plan.staticIPAfter]
  cases huser : plan.userIP G .staticIP l c with
  | some a =>
    rw [effectiveIP_of_some huser,if_pos rfl]
    exact .recorded (Or.inr (Or.inl (by rw [huser]; rfl)))
  | none =>
    rw [effectiveIP_of_none huser,if_neg (by simp)]
    cases hseen : plan.seen G .staticIPGet .address (Namer.forwardingRule l.name .http) c with
    | some ip => exact .own hallow huser hseen
    | none =>
      cases htaken : plan.reserveTaken (Namer.forwardingRule l.name .http) c with
      | true => exact .recorded (Or.inr (Or.inr ⟨hseen,htaken⟩))
      | false => exact .reserved hallow huser hseen htaken

end Congr

section Asked

def Cloud.ruleIP (c : Cloud) (lb : Str) (protocol : NamerProtocol) : Option Str :=
  (c .forwardingRule (Namer.forwardingRule lb protocol)).map (fun s => s.body.ipAddress)

variable {G plan} {h h' : Hop} {l : L7} {c : Cloud}

theorem HttpRun.ruleIP (hr : HttpRun G plan h (.ok ()) h') :
    h'.l7.ruleView = h.l7.ruleView ∧ (∀ n, h'.cloud .address n = h.cloud .address n) ∧
      h'.l7.ruleIP = plan.httpIP G h.l7 h.cloud ∧
      h'.cloud.ruleIP h.l7.name .http = some (plan.httpIP G h.l7 h.cloud) := by
  cases hr with
  | rule proxy found rule =>
    have hkept := proxy.rulesKept
    obtain ⟨fw,s,hl7,-,hfw,hs,-,-,hip⟩ := rule.ok rfl
    have hip : s.body.ipAddress = plan.httpIP G h.l7 h.cloud := hip.trans hkept.httpIP
    rw [hkept.name] at hs
    refine ⟨?_,?_,?_,?_⟩
    · rw [hl7]
      exact hkept.view
    · intro n
      rw [rule.manages.cloud _ _ (by simp),hkept.addresses]
    · rw [hl7]
      exact hfw.trans hip
    · rw [Cloud.ruleIP,hs,Option.map_some,hip]

theorem HttpsRun.ruleIP (hr : HttpsRun G plan h (.ok ()) h') :
    h'.cloud.ruleIP h.l7.name .https = some (ruleAddress (plan.effectiveIP G .https h.l7 h.cloud).1
      httpsDefaultPortRange (plan.ephemeral .https)
      (h.cloud .forwardingRule (Namer.forwardingRule h.l7.name .https))) := by
  cases hr with
  | old cert proxy found rule old =>
    have hkept := cert.rulesKept.trans proxy.rulesKept
    obtain ⟨fws,s,-,-,-,hs,-,-,hip⟩ := rule.ok rfl
    rw [hkept.name,effectiveIP_congr hkept.view hkept.addresses,hkept.rules] at hip
    rw [hkept.name] at hs
    rw [Cloud.ruleIP,old.rulesKept.rules,hs,Option.map_some,hip]

/-- The addresses in the cloud once the static address has been checked. -/
theorem StaticIPPost.addresses (hp : StaticIPPost G plan h (.ok ()) h')
    (hv : h.l7.ruleView = l.ruleView) (hc : ∀ n, h.cloud .address n = c .address n)
    (hip : h.l7.ruleIP = plan.httpIP G l c) (n : Str) :
    h'.cloud .address n = plan.reserved G l c .address n := by
  have hname : h.l7.name = l.name := congrArg RuleView.name hv
  obtain ⟨-,-,hsame,hreserved⟩ := hp.ok rfl
  have heq : plan.reserves G h.l7 h.cloud = plan.reserves G l c := reserves_congr hv hc
  rw [heq] at hsame hreserved
  unfold Plan.reserved
  cases hres : plan.reserves G l c with
  | false =>
    rw [hsame hres,hc]
    rfl
  | true =>
    obtain ⟨s,hs,hcloud⟩ := hreserved hres
    have hbody : s = { body := { address := plan.httpIP G l c }, createdFor := some l.name } := by
      rw [← hip,← hname,← hs.createdFor_eq]
      have := hs.body_eq
      cases s
      cases this
      rfl
    rw [hcloud,hbody,hname,if_pos rfl]
    by_cases hn : n = Namer.forwardingRule l.name .http
    · rw [hn,Cloud.set_self,Cloud.set_self]
    · rw [Cloud.set_of_ne _ (fun h => hn h.2),Cloud.set_of_ne _ (fun h => hn h.2),hc]

/-- The reservation is seen by the lookup for the HTTPS rule. -/
theorem userIP_reserved_of_named (hn : plan.ReservesNamed G l c) :
    ∃ a, plan.userIP G .https l (plan.reserved G l c) = some a ∧ a.body.address = plan.httpIP G l c := by
  obtain ⟨-,hname,hreserves,hanswered⟩ := hn
  unfold Plan.userIP Plan.seen Plan.reserved
  rw [hname,if_neg (forwardingRule_ne_nil l.name),if_pos hanswered,if_pos hreserves,Cloud.set_self]
  exact ⟨_,rfl,rfl⟩

/-- Otherwise the lookup answers as before the reservation. -/
theorem userIP_reserved (hallow : l.runtimeInfo.allowHTTP = true)
    (hn : ¬plan.ReservesNamed G l c) :
    plan.userIP G .https l (plan.reserved G l c) = plan.userIP G .https l c := by
  cases hreserves : plan.reserves G l c with
  | false =>
    unfold Plan.reserved
    rw [hreserves]
    rfl
  | true =>
    unfold Plan.userIP Plan.seen Plan.reserved
    rw [if_pos hreserves]
    by_cases hname : l.runtimeInfo.staticIPName = Namer.forwardingRule l.name .http
    · have hfault : plan.fault (.effectiveIP .https) ≠ none := fun hf => hn ⟨hallow,hname,hreserves,hf⟩
      rw [if_neg hfault,if_neg hfault]
    · rw [Cloud.set_of_ne _ fun h => hname h.2]

/-- The state in which the HTTPS part of a hop from `h` starts. -/
structure AtHttps (G : SelfLinks) (plan : Plan) (h h' : Hop) : Prop where
  name : h'.l7.name = h.l7.name
  rule : h'.cloud .forwardingRule (Namer.forwardingRule h.l7.name .https) =
    h.cloud .forwardingRule (Namer.forwardingRule h.l7.name .https)
  user : ¬plan.ReservesNamed G h.l7 h.cloud →
    plan.userIP G .https h'.l7 h'.cloud = plan.userIP G .https h.l7 h.cloud
  reservedNamed : plan.ReservesNamed G h.l7 h.cloud →
    ∃ a, plan.userIP G .https h'.l7 h'.cloud = some a ∧ a.body.address = plan.httpIP G h.l7 h.cloud
  source : StaticIPSource G plan h.l7 h.cloud (plan.httpIP G h.l7 h.cloud) h'.l7.recordedIP

/-- Without an HTTP frontend nothing has happened to rules and addresses. -/
theorem RulesKept.atHttps (hk : RulesKept h h') (hallow : h.l7.runtimeInfo.allowHTTP = false) :
    AtHttps G plan h h' where
  name := hk.name
  rule := hk.rules _
  user _ := userIP_congr hk.info hk.addresses
  reservedNamed hn := by cases hallow.symm.trans hn.1
  source := by
    have hrecorded : h'.l7.recordedIP = h.l7.recordedIP := by
      unfold L7.recordedIP
      rw [hk.ip]
    rw [hrecorded]
    exact .recorded (Or.inl hallow)

/-- With an HTTP frontend its address has been made static. -/
theorem StaticIPPost.atHttps {h₁ h₂ h₃ : Hop} (hallow : h.l7.runtimeInfo.allowHTTP = true) (hk : RulesKept h h₁)
    (hhttp : HttpRun G plan h₁ (.ok ()) h₂) (hp : StaticIPPost G plan h₂ (.ok ()) h₃) : AtHttps G plan h h₃ := by
  obtain ⟨hview,haddresses,hfw,-⟩ := hhttp.ruleIP
  rw [hk.httpIP] at hfw
  have hv : h₂.l7.ruleView = h.l7.ruleView := hview.trans hk.view
  have hc : ∀ n, h₂.cloud .address n = h.cloud .address n := fun n => (haddresses n).trans (hk.addresses n)
  have hinfo : h₂.l7.runtimeInfo = h.l7.runtimeInfo := congrArg RuleView.runtimeInfo hv
  have huser : plan.userIP G .https h₃.l7 h₃.cloud = plan.userIP G .https h.l7 (plan.reserved G h.l7 h.cloud) :=
    userIP_congr (by rw [hp.l7]; exact hinfo) (hp.addresses hv hc hfw)
  refine ⟨?_,?_,?_,?_,?_⟩
  · rw [hp.l7]
    exact congrArg RuleView.name hv
  · have hne : ¬(Kind.forwardingRule = .forwardingRule ∧ Namer.forwardingRule h.l7.name .https =
        Namer.forwardingRule h₁.l7.name .http) := by
      rw [hk.name]
      exact fun heq => forwardingRule_ne h.l7.name heq.2.symm
    rw [hp.manages.cloud _ _ (by simp),hhttp.frame (by simp) hne,hk.rules]
  · intro hn
    exact huser.trans (userIP_reserved hallow hn)
  · intro hn
    obtain ⟨a,ha,hip⟩ := userIP_reserved_of_named hn
    exact ⟨a,huser.trans ha,hip⟩
  · have hs := staticIPSource (hinfo ▸ hallow) (hp.ok rfl).2.1
    rw [hfw] at hs
    exact hs.congr hv.symm fun n => (hc n).symm

theorem atHttps {h₁ h₂ h₃ : Hop} (urlMap : UrlMapPost G plan h (.ok ()) h₁)
    (http : IfSo h.l7.runtimeInfo.allowHTTP (HttpRun G plan) h₁ (.ok ()) h₂)
    (staticIP : IfSo (h.l7.runtimeInfo.allowHTTP && h.l7.runtimeInfo.wantsHTTPS) (StaticIPPost G plan)
      h₂ (.ok ()) h₃) (hwants : h.l7.runtimeInfo.wantsHTTPS = true) : AtHttps G plan h h₃ := by
  cases hallow : h.l7.runtimeInfo.allowHTTP with
  | false =>
    obtain rfl := http.of_false hallow
    obtain rfl := staticIP.of_false (by rw [hallow]; rfl)
    exact urlMap.rulesKept.atHttps hallow
  | true =>
    exact StaticIPPost.atHttps hallow urlMap.rulesKept (http.of_true hallow)
      (staticIP.of_true (by rw [hallow,hwants]; rfl))

end Asked

end IngressGce
