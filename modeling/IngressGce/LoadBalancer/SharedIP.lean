import IngressGce.LoadBalancer.AddressSource
import IngressGce.LoadBalancer.Rotation

/-! # The address of the two frontends

Both frontends of a load balancer are to have one address. They have it when both rules
take it from the same place. A static address of the user is kept through a failed lookup
when nothing else is on record for the load balancer.
-/
namespace IngressGce
open Prog
variable (G : SelfLinks) (plan : Plan)

section Sharing
variable (l : L7) (c : Cloud)

def SameIP (lb : Str) : Prop := ∃ ip, c.ruleIP lb .http = some ip ∧ c.ruleIP lb .https = some ip

/-- Where a forwarding rule can have its address from: the user's static address, the one
recorded for the load balancer, the one the controller has in the cloud under its own name,
the rule that stands on the right port, or an allocation of the cloud. -/
inductive IPSource
  | user
  | recorded
  | own
  | standing (protocol : NamerProtocol)
  | allocated (protocol : NamerProtocol)
  deriving DecidableEq

def defaultPortRange : NamerProtocol → Str
  | .http => httpDefaultPortRange
  | .https => httpsDefaultPortRange

/-- The address of the rule of the protocol, if there is one and it listens on its port. -/
def Cloud.standingIP (lb : Str) (protocol : NamerProtocol) : Option Str :=
  ((c .forwardingRule (Namer.forwardingRule lb protocol)).filter
    (fun s => s.body.portRange = defaultPortRange protocol)).map (fun s => s.body.ipAddress)

def Cloud.addressNamed (name : Str) : Str := ((c .address name).map (fun s => s.body.address)).getD []

/-- The address at a source before the hop. -/
def Plan.addressAt : IPSource → Str
  | .user => c.addressNamed l.runtimeInfo.staticIPName
  | .recorded => l.recordedIP
  | .own => c.addressNamed (Namer.forwardingRule l.name .http)
  | .standing protocol => (c.standingIP l.name protocol).getD []
  | .allocated protocol => plan.ephemeral protocol

/-- The HTTP rule is asked for no address in particular. -/
inductive HttpUnasked : Prop
  | user {a : Address} (found : plan.userIP G .http l c = some a) (empty : a.body.address = [])
  | recorded (unfound : plan.userIP G .http l c = none) (empty : l.recordedIP = [])

inductive HttpFrom : IPSource → Prop
  | user {a : Address} (found : plan.userIP G .http l c = some a) (named : a.body.address ≠ []) : HttpFrom .user
  | recorded (unfound : plan.userIP G .http l c = none) (named : l.recordedIP ≠ []) : HttpFrom .recorded
  | standing {ip : Str} (unasked : HttpUnasked G plan l c) (stands : c.standingIP l.name .http = some ip) :
      HttpFrom (.standing .http)
  | allocated (unasked : HttpUnasked G plan l c) (none : c.standingIP l.name .http = none) :
      HttpFrom (.allocated .http)

/-- The recorded address is what the HTTPS rule falls back on. -/
structure FallsBackOnRecorded : Prop where
  unfound : plan.userIP G .https l c = none
  kept : plan.KeepsRecorded G l c

/-- The controller's own address is what the HTTPS rule falls back on, after it was seen. -/
structure FallsBackOnOwn (own : Address) : Prop where
  unfound : plan.userIP G .https l c = none
  managed : plan.userIP G .staticIP l c = none
  seen : plan.seen G .staticIPGet .address (Namer.forwardingRule l.name .http) c = some own

/-- The HTTPS rule is asked for no address in particular. -/
inductive HttpsUnasked : Prop
  | user {a : Address} (found : plan.userIP G .https l c = some a) (empty : a.body.address = [])
  | recorded (falls : FallsBackOnRecorded G plan l c) (empty : l.recordedIP = [])
  | own {own : Address} (falls : FallsBackOnOwn G plan l c own) (empty : own.body.address = [])

inductive HttpsFrom : IPSource → Prop
  | user {a : Address} (found : plan.userIP G .https l c = some a) (named : a.body.address ≠ []) : HttpsFrom .user
  | recorded (falls : FallsBackOnRecorded G plan l c) (named : l.recordedIP ≠ []) : HttpsFrom .recorded
  | own {own : Address} (falls : FallsBackOnOwn G plan l c own) (named : own.body.address ≠ []) : HttpsFrom .own
  | standing {ip : Str} (unasked : HttpsUnasked G plan l c) (stands : c.standingIP l.name .https = some ip) :
      HttpsFrom (.standing .https)
  | allocated (unasked : HttpsUnasked G plan l c) (none : c.standingIP l.name .https = none) :
      HttpsFrom (.allocated .https)

/-- The address of the HTTP rule is reserved between the two rules, and the HTTPS rule falls
back on the reservation. -/
structure FallsBackOnReservation : Prop where
  unfound : plan.userIP G .https l c = none
  managed : plan.userIP G .staticIP l c = none
  unseen : plan.seen G .staticIPGet .address (Namer.forwardingRule l.name .http) c = none
  free : plan.reserveTaken (Namer.forwardingRule l.name .http) c = false

/-- Both rules have their address from one source, the HTTPS rule has it from the address
that was reserved for the HTTP rule, or two sources happen to have the same address. -/
inductive SharesIP : Prop
  | reserved (falls : FallsBackOnReservation G plan l c)
  | reservedNamed (reserves : plan.ReservesNamed G l c)
  | same {source : IPSource} (http : HttpFrom G plan l c source) (https : HttpsFrom G plan l c source)
  | equal {source source' : IPSource} (http : HttpFrom G plan l c source) (https : HttpsFrom G plan l c source')
      (differ : source ≠ source') (equal : plan.addressAt l c source = plan.addressAt l c source')

variable {G plan} {h h' : Hop} {r : Except Failure Unit} {l c}

/-- An address that is asked for is the one the rule gets. -/
theorem ruleAddress_of_ne {ip : Str} (hne : ip ≠ []) (portRange ephemeral : Str)
    (found : Option (Stored .forwardingRule)) : ruleAddress ip portRange ephemeral found = ip :=
  if_neg hne

/-- A rule that is asked for no address stays where it is, if its port is right, and else
takes what it is given. -/
theorem ruleAddress_nil (protocol : NamerProtocol) (ephemeral : Str) :
    ruleAddress [] (defaultPortRange protocol) ephemeral (c .forwardingRule (Namer.forwardingRule l.name protocol)) =
      (c.standingIP l.name protocol).getD ephemeral := by
  unfold ruleAddress Cloud.standingIP
  rw [if_pos rfl]
  cases c .forwardingRule (Namer.forwardingRule l.name protocol) with
  | none => rfl
  | some s =>
    dsimp only
    split
    · next hport => simp [Option.filter,hport]
    · next hport => simp [Option.filter,hport]

theorem addressNamed_of_seen {site : Site} {name : Str} {a : Address}
    (hseen : plan.seen G site .address name c = some a) : c.addressNamed name = a.body.address := by
  obtain ⟨s,hs,rfl⟩ := seen_eq_some G plan hseen
  rw [Cloud.addressNamed,hs]
  rfl

theorem addressAt_user {caller : IPCaller} {a : Address} (hfound : plan.userIP G caller l c = some a) :
    plan.addressAt l c .user = a.body.address := by
  unfold Plan.userIP at hfound
  split at hfound
  · cases hfound
  · exact addressNamed_of_seen hfound

theorem HttpUnasked.effectiveIP (h : HttpUnasked G plan l c) : (plan.effectiveIP G .http l c).1 = [] := by
  cases h with
  | user found empty => rw [effectiveIP_of_some found,empty]
  | recorded unfound empty => rw [effectiveIP_of_none unfound,empty]

theorem HttpFrom.httpIP {source : IPSource} (h : HttpFrom G plan l c source) :
    plan.httpIP G l c = plan.addressAt l c source := by
  cases h with
  | user found named =>
    rw [Plan.httpIP,effectiveIP_of_some found,ruleAddress_of_ne named,addressAt_user found]
  | recorded unfound named =>
    rw [Plan.httpIP,effectiveIP_of_none unfound]
    exact ruleAddress_of_ne named _ _ _
  | standing unasked stands =>
    rw [Plan.httpIP,unasked.effectiveIP,Plan.addressAt,stands]
    exact (ruleAddress_nil .http _).trans (by rw [stands]; rfl)
  | allocated unasked none =>
    rw [Plan.httpIP,unasked.effectiveIP]
    exact (ruleAddress_nil .http _).trans (by rw [none]; rfl)

theorem HttpUnasked.exists_from (h : HttpUnasked G plan l c) : ∃ source, HttpFrom G plan l c source := by
  cases hstands : c.standingIP l.name .http with
  | some ip => exact ⟨_,.standing h hstands⟩
  | none => exact ⟨_,.allocated h hstands⟩

theorem exists_httpFrom (G : SelfLinks) (plan : Plan) (l : L7) (c : Cloud) : ∃ source, HttpFrom G plan l c source := by
  cases hu : plan.userIP G .http l c with
  | some a =>
    by_cases hempty : a.body.address = []
    · exact (HttpUnasked.user hu hempty).exists_from
    · exact ⟨_,.user hu hempty⟩
  | none =>
    by_cases hempty : l.recordedIP = []
    · exact (HttpUnasked.recorded hu hempty).exists_from
    · exact ⟨_,.recorded hu hempty⟩

/-- The address asked for at the HTTPS rule. -/
inductive HttpsSource (G : SelfLinks) (plan : Plan) (l : L7) (c : Cloud) : Str → Prop
  | user {a : Address} (found : plan.userIP G .https l c = some a) : HttpsSource G plan l c a.body.address
  | fallback {w : Str} (unfound : plan.userIP G .https l c = none)
      (source : StaticIPSource G plan l c (plan.httpIP G l c) w) : HttpsSource G plan l c w

theorem HttpsSource.unique {w w' : Str} (hs : HttpsSource G plan l c w) (hs' : HttpsSource G plan l c w') : w' = w := by
  cases hs with
  | user found =>
    cases hs' with
    | user found' => rw [Option.some.inj (found'.symm.trans found)]
    | fallback unfound source => cases found.symm.trans unfound
  | fallback unfound source =>
    cases hs' with
    | user found => cases found.symm.trans unfound
    | fallback unfound' source' => exact source.unique source'

theorem AtHttps.httpsSource (hat : AtHttps G plan h h') (hn : ¬plan.ReservesNamed G h.l7 h.cloud) :
    HttpsSource G plan h.l7 h.cloud (plan.effectiveIP G .https h'.l7 h'.cloud).1 := by
  have huser := hat.user hn
  cases hu : plan.userIP G .https h'.l7 h'.cloud with
  | some a =>
    rw [effectiveIP_of_some hu]
    exact .user (huser.symm.trans hu)
  | none =>
    rw [effectiveIP_of_none hu]
    exact .fallback (huser.symm.trans hu) hat.source

theorem FallsBackOnRecorded.source (h : FallsBackOnRecorded G plan l c) : HttpsSource G plan l c l.recordedIP :=
  .fallback h.unfound (.recorded h.kept)

theorem FallsBackOnOwn.source {own : Address} (h : FallsBackOnOwn G plan l c own)
    (hallow : l.runtimeInfo.allowHTTP = true) : HttpsSource G plan l c own.body.address :=
  .fallback h.unfound (.own hallow h.managed h.seen)

theorem FallsBackOnReservation.source (h : FallsBackOnReservation G plan l c)
    (hallow : l.runtimeInfo.allowHTTP = true) : HttpsSource G plan l c (plan.httpIP G l c) :=
  .fallback h.unfound (.reserved hallow h.managed h.unseen h.free)

theorem HttpsUnasked.source (h : HttpsUnasked G plan l c) (hallow : l.runtimeInfo.allowHTTP = true) :
    HttpsSource G plan l c [] := by
  cases h with
  | user found empty => exact empty ▸ .user found
  | recorded falls empty => exact empty ▸ falls.source
  | own falls empty => exact empty ▸ falls.source hallow

/-- The address of the HTTPS rule once it has been checked, when `w` is asked for. -/
def Plan.httpsIP (plan : Plan) (l : L7) (c : Cloud) (w : Str) : Str :=
  ruleAddress w httpsDefaultPortRange (plan.ephemeral .https) (c .forwardingRule (Namer.forwardingRule l.name .https))

theorem HttpsFrom.httpsIP {source : IPSource} (h : HttpsFrom G plan l c source)
    (hallow : l.runtimeInfo.allowHTTP = true) {w : Str} (hw : HttpsSource G plan l c w) :
    plan.httpsIP l c w = plan.addressAt l c source := by
  cases h with
  | user found named =>
    rw [HttpsSource.unique (.user found) hw,addressAt_user found]
    exact ruleAddress_of_ne named _ _ _
  | recorded falls named =>
    rw [falls.source.unique hw]
    exact ruleAddress_of_ne named _ _ _
  | own falls named =>
    rw [(falls.source hallow).unique hw,Plan.addressAt,addressNamed_of_seen falls.seen]
    exact ruleAddress_of_ne named _ _ _
  | standing unasked stands =>
    rw [(unasked.source hallow).unique hw,Plan.addressAt,stands]
    exact (ruleAddress_nil .https _).trans (by rw [stands]; rfl)
  | allocated unasked none =>
    rw [(unasked.source hallow).unique hw]
    exact (ruleAddress_nil .https _).trans (by rw [none]; rfl)

theorem HttpsUnasked.exists_from (h : HttpsUnasked G plan l c) : ∃ source, HttpsFrom G plan l c source := by
  cases hstands : c.standingIP l.name .https with
  | some ip => exact ⟨_,.standing h hstands⟩
  | none => exact ⟨_,.allocated h hstands⟩

/-- The HTTPS rule has its address from one of the sources, unless it falls back on the
reservation. -/
theorem HttpsSource.exists_from {w : Str} (h : HttpsSource G plan l c w) :
    FallsBackOnReservation G plan l c ∨ ∃ source, HttpsFrom G plan l c source := by
  cases h with
  | @user a found =>
    right
    by_cases hempty : a.body.address = []
    · exact (HttpsUnasked.user found hempty).exists_from
    · exact ⟨_,.user found hempty⟩
  | fallback unfound source =>
    cases source with
    | recorded kept =>
      right
      by_cases hempty : l.recordedIP = []
      · exact (HttpsUnasked.recorded ⟨unfound,kept⟩ hempty).exists_from
      · exact ⟨_,.recorded ⟨unfound,kept⟩ hempty⟩
    | @own own both managed seen =>
      right
      by_cases hempty : own.body.address = []
      · exact (HttpsUnasked.own ⟨unfound,managed,seen⟩ hempty).exists_from
      · exact ⟨_,.own ⟨unfound,managed,seen⟩ hempty⟩
    | reserved both managed unseen free => exact Or.inl ⟨unfound,managed,unseen,free⟩

/-- Where the user's address is not the one that has just been reserved, the sources before
the hop decide whether the HTTPS rule ends on the address of the HTTP rule. -/
theorem HttpsSource.joins_iff {w : Str} (hw : HttpsSource G plan l c w) (hallow : l.runtimeInfo.allowHTTP = true)
    (hn : ¬plan.ReservesNamed G l c) (hne : plan.httpIP G l c ≠ []) :
    plan.httpsIP l c w = plan.httpIP G l c ↔ SharesIP G plan l c := by
  constructor
  · intro hjoins
    rcases hw.exists_from with hfalls | ⟨source',hhttps⟩
    · exact .reserved hfalls
    · obtain ⟨source,hhttp⟩ := exists_httpFrom G plan l c
      rw [hhttp.httpIP,hhttps.httpsIP hallow hw] at hjoins
      by_cases hsame : source = source'
      · exact .same hhttp (hsame ▸ hhttps)
      · exact .equal hhttp hhttps hsame hjoins.symm
  · intro hshares
    cases hshares with
    | reserved falls =>
      rw [(falls.source hallow).unique hw]
      exact ruleAddress_of_ne hne _ _ _
    | reservedNamed reserves => exact absurd reserves hn
    | same http https => rw [https.httpsIP hallow hw,http.httpIP]
    | equal http https differ equal => rw [https.httpsIP hallow hw,http.httpIP,equal]

theorem EdgeRun.sharesIP_iff (hr : EdgeRun G plan h (.ok ()) h') (hallow : h.l7.runtimeInfo.allowHTTP = true)
    (hwants : h.l7.runtimeInfo.wantsHTTPS = true) :
    SameIP h'.cloud h.l7.name ↔ SharesIP G plan h.l7 h.cloud := by
  cases hr with
  | @https _ h₁ h₂ h₃ _ urlMap http staticIP https =>
    have hat := atHttps urlMap http staticIP hwants
    have hkept := urlMap.rulesKept
    have hstatic := staticIP.of_true (by rw [hallow,hwants]; rfl)
    have hhttps := https.of_true hwants
    obtain ⟨-,-,hfw,hrule⟩ := (http.of_true hallow).ruleIP
    rw [hkept.httpIP] at hfw hrule
    rw [hkept.name] at hrule
    have hne : plan.httpIP G h.l7 h.cloud ≠ [] := hfw ▸ (hstatic.ok rfl).1
    -- the HTTP rule is not touched after its check
    have hhttp' : h'.cloud.ruleIP h.l7.name .http = some (plan.httpIP G h.l7 h.cloud) := by
      have hkept' := hhttps.httpKept.rule
      rw [hat.name] at hkept'
      rw [← hrule,Cloud.ruleIP,Cloud.ruleIP,hkept',(hstatic.httpKept _).rule]
    have hhttps' := hhttps.ruleIP
    rw [hat.name,hat.rule] at hhttps'
    have hsame : SameIP h'.cloud h.l7.name ↔
        plan.httpsIP h.l7 h.cloud (plan.effectiveIP G .https h₃.l7 h₃.cloud).1 = plan.httpIP G h.l7 h.cloud := by
      rw [SameIP,hhttp',hhttps',Plan.httpsIP]
      constructor
      · rintro ⟨ip,hip,hip'⟩
        rw [Option.some.inj hip,Option.some.inj hip']
      · intro heq
        exact ⟨_,rfl,congrArg some heq⟩
    rw [hsame]
    by_cases hnamed : plan.ReservesNamed G h.l7 h.cloud
    · obtain ⟨a,hu,ha⟩ := hat.reservedNamed hnamed
      rw [effectiveIP_of_some hu,ha]
      exact ⟨fun _ => .reservedNamed hnamed,fun _ => ruleAddress_of_ne hne _ _ _⟩
    · exact (hat.httpsSource hnamed).joins_iff hallow hnamed hne

/-- A successful edge hop for both frontends leaves them on one address exactly if both
rules take it from one source, or from two that agree. -/
theorem edgeHop_sameIP_iff (G : SelfLinks) (plan : Plan) (l : L7) (c : Cloud)
    (hallow : l.runtimeInfo.allowHTTP = true) (hwants : l.runtimeInfo.wantsHTTPS = true) :
    Ensures (edgeHop G plan) { l7 := l, cloud := c, log := [] }
      (fun r h' => r = .ok () → (SameIP h'.cloud l.name ↔ SharesIP G plan l c)) := by
  refine (edgeHop_spec G plan _).mono ?_
  rintro r h' hr rfl
  exact hr.sharesIP_iff hallow hwants

section BothFrontends

def bothInfo (staticIPName : Str) : L7RuntimeInfo where
  name := "default/test".toList
  tls := some { key := "key".toList, cert := "A".toList }
  tlsName := []
  allowHTTP := true
  staticIPName := staticIPName

/-- A load balancer before its first sync. -/
def bothL7 : L7 :=
  .blank "default-test--uid1".toList (bothInfo []) (some { selfLink := "backendServices/default".toList })

def twoEphemeral : NamerProtocol → Str
  | .http => "203.0.113.1".toList
  | .https => "203.0.113.2".toList

/-- Every call succeeds. -/
def answering : Plan := { Plan.faultless with ephemeral := twoEphemeral }

/-- The reservation of the address is refused with the code. -/
def refusingReserve (code : ℕ) (hcode : isHTTPErrorCode (.api code) statusNotFound = false) : Plan where
  fault site := if site = .staticIPReserve then
    some { error := .api code, applied := false, not_notFound := hcode } else none
  ephemeral := twoEphemeral

theorem firstSync_sameIP :
    (edgeHop SelfLinks.byCollection answering { l7 := bothL7, cloud := Cloud.empty, log := [] }).1 = .ok () ∧
    SameIP (edgeHop SelfLinks.byCollection answering { l7 := bothL7, cloud := Cloud.empty, log := [] }).2.cloud
      bothL7.name := by
  have hok : (edgeHop SelfLinks.byCollection answering { l7 := bothL7, cloud := Cloud.empty, log := [] }).1 =
      .ok () := by decide +kernel
  have hshares : SharesIP SelfLinks.byCollection answering bothL7 Cloud.empty := .reserved ⟨rfl,rfl,rfl,rfl⟩
  exact ⟨hok,(edgeHop_sameIP_iff _ _ _ _ rfl rfl hok).mpr hshares⟩

/-- A refused reservation is taken for success, and the HTTPS rule is created without
an address of the load balancer. -/
theorem refusedReserve_splits_address :
    ¬Ensures (edgeHop SelfLinks.byCollection (refusingReserve statusBadRequest rfl))
      { l7 := bothL7, cloud := Cloud.empty, log := [] }
      (fun r h' => r = .ok () → SameIP h'.cloud bothL7.name) := by
  intro hsame
  have hok : (edgeHop SelfLinks.byCollection (refusingReserve statusBadRequest rfl)
      { l7 := bothL7, cloud := Cloud.empty, log := [] }).1 = .ok () := by decide +kernel
  obtain ⟨ip,hhttp,hhttps⟩ := hsame hok
  have hdiffer : (edgeHop SelfLinks.byCollection (refusingReserve statusBadRequest rfl)
      { l7 := bothL7, cloud := Cloud.empty, log := [] }).2.cloud.ruleIP bothL7.name .http ≠
    (edgeHop SelfLinks.byCollection (refusingReserve statusBadRequest rfl)
      { l7 := bothL7, cloud := Cloud.empty, log := [] }).2.cloud.ruleIP bothL7.name .https := by decide +kernel
  exact hdiffer (hhttp.trans hhttps.symm)

end BothFrontends

end Sharing

section Staying

/-- Neither forwarding rule of the load balancer is deleted, and those there are stay
what and where they are. -/
structure RulesStay (lb : Str) (h h' : Hop) : Prop where
  log : h.LogOnly (fun e => ¬e.At [.ruleDelete .http,.ruleDelete .https]) h'
  rules : ∀ protocol, RuleKept (Namer.forwardingRule lb protocol) h.cloud h'.cloud

/-- The user's static address exists, and the forwarding rules there are have it. -/
structure OnStaticIP (l : L7) (c : Cloud) (a : Stored .address) : Prop where
  named : l.runtimeInfo.staticIPName ≠ []
  address : c .address l.runtimeInfo.staticIPName = some a
  rules : ∀ protocol s, c .forwardingRule (Namer.forwardingRule l.name protocol) = some s →
    s.body.ipAddress = a.body.address

/-- Asked for the address, a rule on `ip` stays there. -/
def StaysOn (ip w : Str) : Prop := w = [] ∨ w = ip

/-- The rules that are checked listen on their ports, and where the lookup of the user's
static address fails there is no other address to fall back on. -/
structure KeepsStaticIP (l : L7) (c : Cloud) (ip : Str) : Prop where
  http : l.runtimeInfo.allowHTTP = true →
    ∀ s, c .forwardingRule (Namer.forwardingRule l.name .http) = some s →
      s.body.portRange = httpDefaultPortRange ∧
        (plan.userIP G .http l c = none → StaysOn ip l.recordedIP)
  https : l.runtimeInfo.wantsHTTPS = true →
    ∀ s, c .forwardingRule (Namer.forwardingRule l.name .https) = some s →
      s.body.portRange = httpsDefaultPortRange ∧
        (plan.userIP G .https l c = none →
          ∀ w, StaticIPSource G plan l c (plan.httpIP G l c) w → StaysOn ip w)

variable {G plan} {h h' h'' : Hop} {r : Except Failure Unit} {lb : Str}

theorem RuleKept.of_eq {name : Str} {c c' : Cloud}
    (heq : c' .forwardingRule name = c .forwardingRule name) : RuleKept name c c' :=
  fun s hs => ⟨s,heq.trans hs,rfl,rfl,rfl⟩

theorem RuleKept.trans {name : Str} {c c' c'' : Cloud} (h₁ : RuleKept name c c') (h₂ : RuleKept name c' c'') :
    RuleKept name c c'' := by
  intro s hs
  obtain ⟨s',hs',hfor,hip,hport⟩ := h₁ s hs
  obtain ⟨s'',hs'',hfor',hip',hport'⟩ := h₂ s' hs'
  exact ⟨s'',hs'',hfor'.trans hfor,hip'.trans hip,hport'.trans hport⟩

namespace RulesStay

theorem trans (h₁ : RulesStay lb h h') (h₂ : RulesStay lb h' h'') : RulesStay lb h h'' where
  log := h₁.log.trans h₂.log
  rules protocol := (h₁.rules protocol).trans (h₂.rules protocol)

end RulesStay

theorem RulesKept.stay (hk : RulesKept h h') (lb : Str) : RulesStay lb h h' where
  log := hk.log.mono fun _ he hdel => he.2 (hdel.mono (by simp))
  rules _ := .of_eq (hk.rules _)

theorem StaticIPPost.stay (hp : StaticIPPost G plan h r h') (lb : Str) : RulesStay lb h h' where
  log := hp.manages.log.mono fun _ he => he.not_at (by simp)
  rules _ := .of_eq (hp.manages.cloud _ _ (by simp))

/-- A check of one rule that is as wanted leaves both rules. -/
theorem RuleStep.stay {protocol : NamerProtocol} {caller : IPCaller} {portRange proxyLink : Str}
    {record : ForwardingRule → L7 → L7} (hp : RuleStep G plan protocol caller portRange proxyLink record h r h')
    (hm : ∀ s, h.cloud .forwardingRule (Namer.forwardingRule h.l7.name protocol) = some s →
      ruleMatches (plan.effectiveIP G caller h.l7 h.cloud).1 portRange s.body = true) :
    RulesStay h.l7.name h h' := by
  obtain ⟨hlog,hkept⟩ := hp.kept hm
  have hother : ∀ protocol', protocol' ≠ protocol →
      Namer.forwardingRule h.l7.name protocol' ≠ Namer.forwardingRule h.l7.name protocol := by
    intro protocol' hne
    have hdiffer := forwardingRule_ne h.l7.name
    cases protocol <;> cases protocol'
    · exact absurd rfl hne
    · exact hdiffer.symm
    · exact hdiffer
    · exact absurd rfl hne
  refine ⟨?_,?_⟩
  · intro e he
    rcases hlog e he with hbefore | hown
    · exact Or.inl hbefore
    · refine (hp.manages.log e he).imp_right ?_
      rintro (hat | rfl) hdel
      · cases e with
        | call lb site k name before =>
          have hsite : site = .ruleDelete .http ∨ site = .ruleDelete .https := by simpa [Event.At] using hdel
          have hsites : site ∈ .effectiveIP caller :: ruleSites protocol := hat
          have hnot : site ≠ .ruleDelete protocol := by simpa [Event.At] using hown
          rcases hsite with rfl | rfl <;> cases protocol <;> simp at hsites hnot
        | checkForwardingRule lb protocol ip => exact hat.elim
      · exact hdel.elim
  · intro protocol'
    by_cases heq : protocol' = protocol
    · rw [heq]
      exact hkept
    · exact .of_eq (hp.manages.cloud _ _ fun h => hother protocol' heq h.2)

/-- The same for a check that follows other checks of the hop. -/
theorem RuleStep.stay_after {protocol : NamerProtocol} {caller : IPCaller} {portRange proxyLink : Str}
    {record : ForwardingRule → L7 → L7} (hk : RulesKept h h')
    (hp : RuleStep G plan protocol caller portRange proxyLink record h' r h'')
    (hm : ∀ s, h.cloud .forwardingRule (Namer.forwardingRule h.l7.name protocol) = some s →
      ruleMatches (plan.effectiveIP G caller h.l7 h.cloud).1 portRange s.body = true) :
    RulesStay h.l7.name h h'' := by
  refine (hk.stay _).trans ?_
  rw [← hk.name]
  apply hp.stay
  intro s hs
  rw [hk.name,hk.rules] at hs
  rw [effectiveIP_congr hk.view hk.addresses]
  exact hm s hs

theorem HttpRun.stay (hr : HttpRun G plan h r h')
    (hm : ∀ s, h.cloud .forwardingRule (Namer.forwardingRule h.l7.name .http) = some s →
      ruleMatches (plan.effectiveIP G .http h.l7 h.cloud).1 httpDefaultPortRange s.body = true) :
    RulesStay h.l7.name h h' := by
  cases hr with
  | noProxy proxy => exact proxy.rulesKept.stay _
  | rule proxy found rule => exact RuleStep.stay_after proxy.rulesKept rule hm

theorem HttpsRun.stay (hr : HttpsRun G plan h r h')
    (hm : ∀ s, h.cloud .forwardingRule (Namer.forwardingRule h.l7.name .https) = some s →
      ruleMatches (plan.effectiveIP G .https h.l7 h.cloud).1 httpsDefaultPortRange s.body = true) :
    RulesStay h.l7.name h h' := by
  cases hr with
  | noCert cert => exact cert.rulesKept.stay _
  | noProxy cert proxy => exact (cert.rulesKept.trans proxy.rulesKept).stay _
  | noRule cert proxy found rule =>
    exact RuleStep.stay_after (cert.rulesKept.trans proxy.rulesKept) rule hm
  | old cert proxy found rule old =>
    exact (RuleStep.stay_after (cert.rulesKept.trans proxy.rulesKept) rule hm).trans (old.rulesKept.stay _)

theorem ruleMatches_of_staysOn {ip w portRange : Str} {fw : ForwardingRuleBody} (hip : fw.ipAddress = ip)
    (hport : fw.portRange = portRange) (hw : StaysOn ip w) : ruleMatches w portRange fw = true := by
  rcases hw with rfl | rfl
  · simp [ruleMatches,hport]
  · simp [ruleMatches,hip,hport]

variable {l : L7} {c : Cloud} {a : Stored .address}

/-- A lookup that does not fail answers with the static address. -/
theorem OnStaticIP.userIP (hon : OnStaticIP l c a) {caller : IPCaller} {o : Address}
    (ho : plan.userIP G caller l c = some o) : o.body.address = a.body.address := by
  unfold Plan.userIP at ho
  rw [if_neg hon.named] at ho
  obtain ⟨s,hs,rfl⟩ := seen_eq_some G plan ho
  rw [Option.some.inj (hs.symm.trans hon.address)]
  rfl

/-- The controller does not reserve an address that exists. -/
theorem OnStaticIP.not_reservesNamed (hon : OnStaticIP l c a) : ¬plan.ReservesNamed G l c := by
  rintro ⟨-,hname,hreserves,-⟩
  have hsome := hon.address
  rw [hname] at hsome
  simp [Plan.reserves,hsome] at hreserves

theorem KeepsStaticIP.http_matches (hkeeps : KeepsStaticIP G plan l c a.body.address) (hon : OnStaticIP l c a)
    (hallow : l.runtimeInfo.allowHTTP = true) {s : Stored .forwardingRule}
    (hs : c .forwardingRule (Namer.forwardingRule l.name .http) = some s) :
    ruleMatches (plan.effectiveIP G .http l c).1 httpDefaultPortRange s.body = true := by
  obtain ⟨hport,hfallback⟩ := hkeeps.http hallow s hs
  refine ruleMatches_of_staysOn (hon.rules .http s hs) hport ?_
  cases hu : plan.userIP G .http l c with
  | some o =>
    rw [effectiveIP_of_some hu]
    exact Or.inr (hon.userIP hu)
  | none =>
    rw [effectiveIP_of_none hu]
    exact hfallback hu

theorem KeepsStaticIP.https_matches (hkeeps : KeepsStaticIP G plan h.l7 h.cloud a.body.address)
    (hon : OnStaticIP h.l7 h.cloud a) (hwants : h.l7.runtimeInfo.wantsHTTPS = true) (hat : AtHttps G plan h h')
    {s : Stored .forwardingRule}
    (hs : h'.cloud .forwardingRule (Namer.forwardingRule h'.l7.name .https) = some s) :
    ruleMatches (plan.effectiveIP G .https h'.l7 h'.cloud).1 httpsDefaultPortRange s.body = true := by
  rw [hat.name,hat.rule] at hs
  obtain ⟨hport,hfallback⟩ := hkeeps.https hwants s hs
  refine ruleMatches_of_staysOn (hon.rules .https s hs) hport ?_
  have hasked := hat.httpsSource hon.not_reservesNamed
  generalize (plan.effectiveIP G .https h'.l7 h'.cloud).1 = w at hasked ⊢
  cases hasked with
  | user found => exact Or.inr (hon.userIP found)
  | fallback unfound source => exact hfallback unfound _ source

theorem EdgeRun.stay (hr : EdgeRun G plan h r h') (hon : OnStaticIP h.l7 h.cloud a)
    (hkeeps : KeepsStaticIP G plan h.l7 h.cloud a.body.address) : RulesStay h.l7.name h h' := by
  have hhttp : ∀ {h₁ h₂ r}, RulesKept h h₁ → IfSo h.l7.runtimeInfo.allowHTTP (HttpRun G plan) h₁ r h₂ →
      RulesStay h.l7.name h h₂ := by
    intro h₁ h₂ r hk hi
    rcases hi with ⟨hallow,hr⟩ | ⟨-,-,rfl⟩
    · refine (hk.stay _).trans ?_
      rw [← hk.name]
      apply hr.stay
      intro s hs
      rw [hk.name,hk.rules] at hs
      rw [effectiveIP_congr hk.view hk.addresses]
      exact hkeeps.http_matches hon hallow hs
    · exact hk.stay _
  have hstatic : ∀ {c h₁ h₂ r}, RulesStay h.l7.name h h₁ → IfSo c (StaticIPPost G plan) h₁ r h₂ →
      RulesStay h.l7.name h h₂ :=
    fun hs hi => hi.relates (Q := fun _ h₂ => RulesStay h.l7.name h h₂) hs fun hp => hs.trans (hp.stay _)
  cases hr with
  | noUrlMap urlMap => exact urlMap.rulesKept.stay _
  | noHttp urlMap http => exact hhttp urlMap.rulesKept http
  | noStaticIP urlMap http staticIP => exact hstatic (hhttp urlMap.rulesKept http) staticIP
  | @https _ h₁ h₂ h₃ _ urlMap http staticIP https =>
    have hbefore := hstatic (hhttp urlMap.rulesKept http) staticIP
    rcases https with ⟨hwants,hr⟩ | ⟨-,-,rfl⟩
    · have hat := atHttps urlMap http staticIP hwants
      refine hbefore.trans ?_
      rw [← hat.name]
      exact hr.stay fun s hs => hkeeps.https_matches hon hwants hat hs
    · exact hbefore

/-- In every run of syncs and restarts in which no sync of a load balancer on its user's
static address can fall back on another one, failed lookups move no rule off it. -/
theorem syncs_stay_on_static_ip (G : SelfLinks) (h : Hop) (inputs : List SyncInput)
    (hkeeps : Runs.Along (Hop.sync G) (fun h i => ∀ ri plan, i = .sync ri plan →
      ∀ a, OnStaticIP (h.begin ri).l7 h.cloud a → KeepsStaticIP G plan (h.begin ri).l7 h.cloud a.body.address)
      h inputs) :
    Runs.Along (Hop.sync G) (fun h i => ∀ ri plan, i = .sync ri plan →
      ∀ a, OnStaticIP (h.begin ri).l7 h.cloud a → RulesStay h.l7.name (h.begin ri) (Hop.sync G h i))
      h inputs := by
  refine Runs.Along.strengthen (I := fun _ => True) ?_ trivial hkeeps
  intro h i _ hkeeps
  refine ⟨trivial,?_⟩
  rintro ri plan rfl a hon
  have hrun : Ensures (edgeHop G plan) (h.begin ri) (fun _ h' => RulesStay h.l7.name (h.begin ri) h') :=
    (edgeHop_spec G plan (h.begin ri)).mono fun _ _ hr => hr.stay hon (hkeeps ri plan rfl a hon)
  exact hrun

section UserIP

/-- A cloud with the address the user has reserved. -/
def userIPCloud : Cloud :=
  Cloud.empty.set .address "my-ip".toList
    (some { body := { address := "198.51.100.7".toList }, createdFor := none })

def beforeUserIP : Hop := { l7 := bothL7, cloud := userIPCloud, log := [] }

/-- The lookup of the user's address for one rule fails. -/
def failingLookup (caller : IPCaller) : Plan := { Plan.failingAt (.effectiveIP caller) with ephemeral := twoEphemeral }

/-- A load balancer for which no address is recorded stays on the user's static address
as long as the lookup made before a reservation succeeds. -/
theorem keepsStaticIP_of_unrecorded {ip : Str} (hip : l.recordedIP = [])
    (hfound : (plan.userIP G .staticIP l c).isSome = true)
    (hhttp : (c .forwardingRule (Namer.forwardingRule l.name .http)).all
      (fun s => s.body.portRange == httpDefaultPortRange) = true)
    (hhttps : (c .forwardingRule (Namer.forwardingRule l.name .https)).all
      (fun s => s.body.portRange == httpsDefaultPortRange) = true) : KeepsStaticIP G plan l c ip where
  http _ s hs := by
    rw [hs,Option.all_some,beq_iff_eq] at hhttp
    exact ⟨hhttp,fun _ => Or.inl hip⟩
  https _ s hs := by
    rw [hs,Option.all_some,beq_iff_eq] at hhttps
    refine ⟨hhttps,?_⟩
    intro _ w hw
    rw [StaticIPSource.unique (.recorded (Or.inr (Or.inl hfound))) hw]
    exact Or.inl hip

theorem failedLookup_stays_on_static_ip : Runs.Along (Hop.sync SelfLinks.byCollection)
    (fun h i => ∀ ri plan, i = .sync ri plan → ∀ a, OnStaticIP (h.begin ri).l7 h.cloud a →
      RulesStay h.l7.name (h.begin ri) (Hop.sync SelfLinks.byCollection h i)) beforeUserIP
    [.sync (bothInfo "my-ip".toList) answering,.sync (bothInfo "my-ip".toList) (failingLookup .https)] := by
  refine syncs_stay_on_static_ip _ _ _ ⟨?_,?_,trivial⟩
  · rintro ri plan ⟨⟩ a -
    exact keepsStaticIP_of_unrecorded rfl rfl rfl rfl
  · rintro ri plan ⟨⟩ a -
    exact keepsStaticIP_of_unrecorded (by decide +kernel) (by decide +kernel) (by decide +kernel) (by decide +kernel)

theorem onStaticIP_of_ruleIP {a : Stored .address} (hnamed : l.runtimeInfo.staticIPName ≠ [])
    (haddress : c .address l.runtimeInfo.staticIPName = some a)
    (hhttp : c.ruleIP l.name .http = some a.body.address)
    (hhttps : c.ruleIP l.name .https = some a.body.address) : OnStaticIP l c a where
  named := hnamed
  address := haddress
  rules protocol s hs := by
    have hrule : c.ruleIP l.name protocol = some a.body.address := by
      cases protocol with
      | http => exact hhttp
      | https => exact hhttps
    rw [Cloud.ruleIP,hs,Option.map_some] at hrule
    exact Option.some.inj hrule

theorem RulesStay.ruleIP (hs : RulesStay lb h h') {protocol : NamerProtocol} {ip : Str}
    (hip : h.cloud.ruleIP lb protocol = some ip) : h'.cloud.ruleIP lb protocol = some ip := by
  obtain ⟨s,hs₀,rfl⟩ := Option.map_eq_some_iff.mp hip
  obtain ⟨s',hs',-,hip',-⟩ := hs.rules protocol s hs₀
  rw [Cloud.ruleIP,hs',Option.map_some,hip']

/-- The controller reserves an address of its own, and then the user names one. -/
def userIPLater : List SyncInput :=
  [.sync (bothInfo []) answering,.sync (bothInfo "my-ip".toList) answering]

/-- A failed lookup then moves the HTTP rule back to the address of the controller. -/
theorem failedLookup_leaves_static_ip : ¬Runs.Along (Hop.sync SelfLinks.byCollection)
    (fun h i => ∀ ri plan, i = .sync ri plan → ∀ a, OnStaticIP (h.begin ri).l7 h.cloud a →
      RulesStay h.l7.name (h.begin ri) (Hop.sync SelfLinks.byCollection h i)) beforeUserIP
    (userIPLater ++ [.sync (bothInfo "my-ip".toList) (failingLookup .http)]) := by
  intro hstays
  have hlast := hstays.at_end
  have hname : (Runs.final (Hop.sync SelfLinks.byCollection) beforeUserIP userIPLater).l7.name = bothL7.name := by
    decide +kernel
  have hhttp : (Runs.final (Hop.sync SelfLinks.byCollection) beforeUserIP userIPLater).cloud.ruleIP
      bothL7.name .http = some "198.51.100.7".toList := by decide +kernel
  have hhttps : (Runs.final (Hop.sync SelfLinks.byCollection) beforeUserIP userIPLater).cloud.ruleIP
      bothL7.name .https = some "198.51.100.7".toList := by decide +kernel
  have haddress : ((Runs.final (Hop.sync SelfLinks.byCollection) beforeUserIP userIPLater).cloud
      .address "my-ip".toList).map (fun s => s.body.address) = some "198.51.100.7".toList := by decide +kernel
  have hmoved : (Hop.sync SelfLinks.byCollection
      (Runs.final (Hop.sync SelfLinks.byCollection) beforeUserIP userIPLater)
      (.sync (bothInfo "my-ip".toList) (failingLookup .http))).cloud.ruleIP bothL7.name .http =
      some "203.0.113.1".toList := by decide +kernel
  generalize Runs.final (Hop.sync SelfLinks.byCollection) beforeUserIP userIPLater = h at *
  obtain ⟨a,ha,hip⟩ := Option.map_eq_some_iff.mp haddress
  have hnamed : (bothInfo "my-ip".toList).staticIPName ≠ [] := by decide
  have hon : OnStaticIP (h.begin (bothInfo "my-ip".toList)).l7 h.cloud a :=
    onStaticIP_of_ruleIP hnamed ha (by rw [hip]; exact hname ▸ hhttp) (by rw [hip]; exact hname ▸ hhttps)
  have hstay := hlast _ _ rfl a hon
  rw [hname] at hstay
  cases (hstay.ruleIP hhttp).symm.trans hmoved

end UserIP

end Staying

end IngressGce
