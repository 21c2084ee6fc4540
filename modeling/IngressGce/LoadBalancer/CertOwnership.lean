import IngressGce.LoadBalancer.Rotation
import IngressGce.LoadBalancer.Cleanup
import IngressGce.LoadBalancer.Pool

/-! # Which certificates the controller deletes

A load balancer owns the certificates under its two managed names. It records
other certificates as well, those that are pre-shared by the user, and whether
the recorded one is deleted with the load balancer depends on the runtime info at
that time.
-/
namespace IngressGce
open Prog

/-- The name is one of the two under which the certificates of a load balancer are
stored. -/
def Managed (lb name : Str) : Prop := name = Namer.sslCert lb true ∨ name = Namer.sslCert lb false

instance (lb name : Str) : Decidable (Managed lb name) := inferInstanceAs (Decidable (_ ∨ _))

/-- The event is the deletion of a certificate that the load balancer does not own. -/
def Event.deletesForeignCert : Event → Bool
  | .call lb site _ name _ => decide (site ∈ certDeletions ∧ ¬Managed lb name)
  | .checkForwardingRule _ _ _ => false

/-- A name with the prefix of the managed ones is managed. A certificate that has been
replaced is deleted by this prefix. -/
def OwnIfPrefixed (lb name : Str) : Prop := Namer.isSSLCert name = true → Managed lb name

instance (lb name : Str) : Decidable (OwnIfPrefixed lb name) := inferInstanceAs (Decidable (_ → _))

/-- The certificates that a load balancer may come to delete: the one it has replaced is its
own if it looks so, and the recorded one is as `S` says unless the runtime info names it. -/
structure OwnsCerts (S : Str → Str → Prop) (l : L7) : Prop where
  old : ∀ cert, l.oldSSLCert = some cert → OwnIfPrefixed l.name cert.name
  cert : l.runtimeInfo.tlsName = [] → ∀ cert, l.sslCert = some cert → S l.name cert.name

/-- The proxy of a load balancer of which nothing is recorded is linked to a certificate
as `S` says, or to none. -/
def LinkedTo (S : Str → Str → Prop) (l : L7) (c : Cloud) : Prop :=
  l.runtimeInfo.tlsName = [] → l.sslCert = none →
    ∀ p, c .targetHttpsProxy (Namer.targetProxy l.name .https) = some p →
      getResourceNameFromLink (p.body.sslCertificates.headD []) = [] ∨
        S l.name (getResourceNameFromLink (p.body.sslCertificates.headD []))

/-- What an edge hop may find as the certificate in use: a managed one, or at least one
that it does not delete when it replaces it. -/
structure Replaceable (S : Str → Str → Prop) : Prop where
  managed : ∀ {lb name}, Managed lb name → S lb name
  spared : ∀ {lb name}, S lb name → OwnIfPrefixed lb name

theorem replaceable_managed : Replaceable Managed where
  managed := id
  spared := fun h _ => h

theorem replaceable_ownIfPrefixed : Replaceable OwnIfPrefixed where
  managed := fun h _ => h
  spared := id

section Hop
variable {G : SelfLinks} {plan : Plan} {h h' : Hop} {r : Except Failure Unit} {S : Str → Str → Prop}

theorem managed_nextCertificateName (l : L7) : Managed l.name (nextCertificateName l) := by
  obtain ⟨b,hb⟩ := nextCertificateName_eq l
  cases b with
  | true => exact Or.inl hb
  | false => exact Or.inr hb

theorem Event.At.owned {sites : List Site} {e : Event} (he : e.At sites)
    (hs : ∀ site ∈ sites, site ∉ certDeletions) : e.deletesForeignCert = false := by
  cases e with
  | call lb site k name before => exact decide_eq_false fun hdel => hs site he hdel.1
  | checkForwardingRule lb protocol ip => rfl

theorem deletion_owned {lb name : Str} (hm : Managed lb name) (site : Site) (k : Kind) (before : Cloud) :
    (Event.call lb site k name before).deletesForeignCert = false :=
  decide_eq_false fun hdel => hdel.2 hm

theorem CertsKept.ownsCerts (hl : OwnsCerts S h.l7) (hk : CertsKept h h') : OwnsCerts S h'.l7 where
  old := by rw [hk.oldSSLCert,hk.name]; exact hl.old
  cert := by rw [hk.sslCert,hk.name,hk.info]; exact hl.cert

theorem CertsKept.linkedTo (hl : LinkedTo S h.l7 h.cloud) (hk : CertsKept h h') :
    LinkedTo S h'.l7 h'.cloud := by
  intro htls hcert p hp
  rw [hk.info] at htls
  rw [hk.sslCert] at hcert
  rw [hk.proxies,hk.name] at hp
  rw [hk.name]
  exact hl htls hcert p hp

theorem CertsKept.owned (hk : CertsKept h h') : h.LogOnly (fun e => e.deletesForeignCert = false) h' := by
  refine hk.log.mono ?_
  intro e he
  cases e with
  | call lb site k name before => exact decide_eq_false fun hdel => he hdel.1
  | checkForwardingRule lb protocol ip => rfl

/-- Without a pre-shared certificate in the runtime info, the certificate at hand is
the recorded or the linked one. -/
theorem populated_of_owns (hl : OwnsCerts S h.l7) (hlink : LinkedTo S h.l7 h.cloud)
    (htls : h.l7.runtimeInfo.tlsName = []) {cert : SslCertificate}
    (hcert : plan.populated G h.l7 h.cloud = some cert) : S h.l7.name cert.name := by
  unfold Plan.populated at hcert
  split at hcert
  · exact hl.cert htls cert hcert
  · rename_i hname
    obtain ⟨s,-,rfl⟩ := Option.map_eq_some_iff.mp hcert
    change S h.l7.name (plan.expectedName G h.l7 h.cloud)
    unfold Plan.expectedName at hname ⊢
    cases hc : h.l7.sslCert with
    | some c => exact hl.cert htls c hc
    | none =>
      simp only [hc] at hname ⊢
      unfold Plan.linkInUse at hname ⊢
      cases hseen : plan.seen G .certProxyGet .targetHttpsProxy (Namer.targetProxy h.l7.name .https) h.cloud with
      | none =>
        rw [hseen] at hname
        exact absurd rfl hname
      | some p =>
        obtain ⟨s,hs,rfl⟩ := seen_eq_some G plan hseen
        rw [hseen] at hname
        exact (hlink htls hc s hs).resolve_left hname

theorem CertStep.owned (hS : Replaceable S) (hl : OwnsCerts S h.l7) (hlink : LinkedTo S h.l7 h.cloud)
    (hs : CertStep G plan h r h') : OwnsCerts S h'.l7 ∧ h.LogOnly (fun e => e.deletesForeignCert = false) h' := by
  have hread : ∀ e : Event, e.At certReadSites → e.deletesForeignCert = false := fun e he => he.owned (by simp)
  have hpop : h.l7.runtimeInfo.tlsName = [] → OwnsCerts S (plan.populatedL7 G h) := fun htls =>
    ⟨hl.old,fun _ cert hcert => populated_of_owns hl hlink htls hcert⟩
  cases hs with
  | preShared tlsName found l7 cloud log =>
    rw [l7]
    exact ⟨⟨hl.old,fun htls => absurd htls tlsName⟩,log.mono hread⟩
  | unshared tlsName l7 cloud log =>
    rw [l7]
    exact ⟨hl,log.mono hread⟩
  | unread tlsName fault l7 cloud log =>
    rw [l7]
    exact ⟨⟨hl.old,fun _ cert hcert => by cases hcert⟩,log.mono hread⟩
  | noSecret tlsName l7 cloud log =>
    rw [l7]
    exact ⟨hpop tlsName,log.mono hread⟩
  | current tlsName tls_eq same l7 cloud log =>
    rw [l7]
    exact ⟨hpop tlsName,log.mono hread⟩
  | @replaced tls _ h₁ _ rotates l7 cloud log replaced log' =>
    have hl₁ : OwnsCerts S h₁.l7 := l7 ▸ hpop rotates.tlsName
    have htls₁ : h₁.l7.runtimeInfo.tlsName = [] := by rw [l7]; exact rotates.tlsName
    refine ⟨?_,(log.mono hread).trans (log'.mono ?_)⟩
    · cases replaced with
      | unstored l7' cloud' => exact l7' ▸ hl₁
      | lost loses fresh l7' cloud' => exact l7' ▸ hl₁
      | stored fresh l7' cloud' =>
        rw [l7']
        refine ⟨fun cert hcert => hS.spared (hl₁.cert htls₁ cert hcert),?_⟩
        intro _ cert hcert
        obtain rfl := Option.some.inj hcert
        exact hS.managed (managed_nextCertificateName h₁.l7)
    · rintro e (rfl | he)
      · exact deletion_owned (managed_nextCertificateName h₁.l7) _ _ _
      · exact he.owned (by simp)

theorem obsoleteCert_eq {l : L7} {old : SslCertificate} (h : l.obsoleteCert = some old) :
    l.oldSSLCert = some old ∧ Namer.isSSLCert old.name = true := by
  unfold L7.obsoleteCert at h
  split at h
  · rename_i o cert ho hcert
    split at h
    · cases h
    · rename_i hkeep
      obtain rfl := Option.some.inj h
      exact ⟨ho,by simpa using (not_or.mp hkeep).2⟩
  · cases h

theorem OldCertStep.owned (hl : OwnsCerts S h.l7) (hs : OldCertStep h r h') :
    OwnsCerts S h'.l7 ∧ h.LogOnly (fun e => e.deletesForeignCert = false) h' := by
  have hlog : ∀ {old : SslCertificate}, h.l7.obsoleteCert = some old →
      h'.log = .call h.l7.name .oldCertDelete .sslCertificate old.name h.cloud :: h.log →
      h.LogOnly (fun e => e.deletesForeignCert = false) h' := by
    intro old hold hlog e he
    rw [hlog] at he
    refine (List.mem_cons.mp he).symm.imp_right ?_
    rintro rfl
    obtain ⟨hrecorded,hmarked⟩ := obsoleteCert_eq hold
    exact deletion_owned (hl.old old hrecorded hmarked) _ _ _
  cases hs with
  | nothing obsolete => exact ⟨hl,.refl _ _⟩
  | failed obsolete l7 cloud log => exact ⟨l7 ▸ hl,hlog obsolete log⟩
  | deleted obsolete l7 cloud log =>
    rw [l7]
    exact ⟨⟨fun cert hcert => (by cases hcert),hl.cert⟩,hlog obsolete log⟩

theorem HttpsRun.owned (hS : Replaceable S) (hl : OwnsCerts S h.l7) (hlink : LinkedTo S h.l7 h.cloud)
    (hr : HttpsRun G plan h r h') : OwnsCerts S h'.l7 ∧ h.LogOnly (fun e => e.deletesForeignCert = false) h' := by
  refine hr.after_cert (I := fun h' => OwnsCerts S h'.l7 ∧ h.LogOnly (fun e => e.deletesForeignCert = false) h')
    (fun _ _ hs => hs.owned hS hl hlink) ?_ ?_ ?_
  · rintro h₁ r h₂ ⟨hl₁,hlog₁⟩ hp
    refine ⟨?_,hlog₁.trans (hp.manages.log.mono fun _ he => he.owned (by simp))⟩
    rw [hp.l7]
    exact ⟨hl₁.old,hl₁.cert⟩
  · rintro tps h₁ r h₂ ⟨hl₁,hlog₁⟩ hp
    have hk := HttpsRuleStep.certsKept hp
    exact ⟨hk.ownsCerts hl₁,hlog₁.trans hk.owned⟩
  · rintro h₁ r h₂ ⟨hl₁,hlog₁⟩ hs
    obtain ⟨hl₂,hlog₂⟩ := hs.owned hl₁
    exact ⟨hl₂,hlog₁.trans hlog₂⟩

/-- An edge hop of a load balancer deletes none but its own certificates. -/
theorem EdgeRun.owned (hS : Replaceable S) (hl : OwnsCerts S h.l7) (hlink : LinkedTo S h.l7 h.cloud)
    (hr : EdgeRun G plan h r h') : OwnsCerts S h'.l7 ∧ h.LogOnly (fun e => e.deletesForeignCert = false) h' := by
  rcases hr.certsKept with ⟨hk,-⟩ | ⟨h₁,hk,-,hr⟩
  · exact ⟨hk.ownsCerts hl,hk.owned⟩
  · obtain ⟨hl',hlog⟩ := hr.owned hS (hk.ownsCerts hl) (hk.linkedTo hlink)
    exact ⟨hl',hk.owned.trans hlog⟩

theorem OwnsCerts.forget {l : L7} (hl : OwnsCerts S l) (stage : CleanupStage) : OwnsCerts S (stage.forget l) := by
  cases stage with
  | sslCert => exact ⟨hl.old,fun _ cert hcert => by cases hcert⟩
  | _ => exact ⟨hl.old,hl.cert⟩

/-- What a stage of the teardown deletes belongs to the load balancer if it is a
certificate. -/
theorem disposal_owned {l : L7} (hl : OwnsCerts Managed l) {stage : CleanupStage} {o : Object stage.kind}
    (ho : stage.recorded l = some o) (before : Cloud) :
    (Event.call l.name (.cleanup stage) stage.kind o.name before).deletesForeignCert = false := by
  cases stage with
  | sslCert =>
    change (if l.runtimeInfo.tlsName = [] then l.sslCert else none) = some o at ho
    split at ho
    · rename_i htls
      exact deletion_owned (hl.cert htls o ho) _ _ _
    · cases ho
  | _ => simp [Event.deletesForeignCert]

theorem cleanup_owned (hl : OwnsCerts Managed h.l7) : Ensures (cleanup plan) h (fun _ h' =>
    OwnsCerts Managed h'.l7 ∧ h.LogOnly (fun e => e.deletesForeignCert = false) h') := by
  refine cleanup_invariant (I := fun h' => OwnsCerts Managed h'.l7 ∧
    h.LogOnly (fun e => e.deletesForeignCert = false) h') plan ?_ ⟨hl,.refl _ h⟩
  rintro stage h₁ r h₂ ⟨hl₁,hlog₁⟩ hd
  have hlog : ∀ {o : Object stage.kind}, stage.recorded h₁.l7 = some o →
      h₂.log = .call h₁.l7.name (.cleanup stage) stage.kind o.name h₁.cloud :: h₁.log →
      h₁.LogOnly (fun e => e.deletesForeignCert = false) h₂ := by
    intro o ho hlog e he
    rw [hlog] at he
    refine (List.mem_cons.mp he).symm.imp_right ?_
    rintro rfl
    exact disposal_owned hl₁ ho _
  cases hd with
  | nothing unrecorded => exact ⟨hl₁,hlog₁⟩
  | failed found fault l7 cloud log => exact ⟨l7 ▸ hl₁,hlog₁.trans (hlog found log)⟩
  | done found l7 cloud log => exact ⟨l7 ▸ hl₁.forget stage,hlog₁.trans (hlog found log)⟩

end Hop

namespace L7s
variable {G : SelfLinks} {w : L7s}

/-- All load balancers may delete their own certificates only, and none but those
were deleted so far. -/
structure CertsOwned (w : L7s) : Prop where
  heap : ∀ lb, OwnsCerts Managed (w.heap lb)
  log : ∀ e ∈ w.log, e.deletesForeignCert = false

/-- Unless the runtime info names a pre-shared certificate, the one recorded by the load
balancer, or else linked by its proxy, is as `S` says. -/
def CertInUse (S : Str → Str → Prop) (w : L7s) (ri : L7RuntimeInfo) : Prop :=
  LinkedTo S (w.startL7 ri) w.cloud ∧
    (ri.tlsName = [] → ∀ cert, (w.startL7 ri).sslCert = some cert → S (w.startL7 ri).name cert.name)

/-- The certificate that is recorded is one of the load balancer's own. -/
def RecordsOwn (l : L7) : Prop := ∀ cert, l.sslCert = some cert → Managed l.name cert.name

variable (G) in
/-- The runtime info goes without a pre-shared certificate only if the certificate in use
is one of the load balancer's own, or if it is replaced by such a certificate and does
not look like one. -/
def withoutForeignCert : Conditions where
  add w ri plan := w.CertInUse Managed ri ∨
    w.CertInUse OwnIfPrefixed ri ∧ RecordsOwn ((add G ri plan w).2.heap (w.slot ri))
  delete _ _ _ := True
  setUID _ _ := True

theorem startL7_old (hw : w.CertsOwned) (ri : L7RuntimeInfo) {cert : SslCertificate}
    (hcert : (w.startL7 ri).oldSSLCert = some cert) : OwnIfPrefixed (w.startL7 ri).name cert.name := by
  unfold startL7 at hcert ⊢
  split at hcert
  · cases hcert
  · rename_i lb hlb
    exact (hw.heap lb).old cert hcert

theorem CertsOwned.store (hw : w.CertsOwned) {h : Hop} (hl : OwnsCerts Managed h.l7) (lb : Ref) :
    ∀ lb', OwnsCerts Managed (Function.update w.heap lb h.l7 lb') := by
  intro lb'
  by_cases hne : lb' = lb
  · subst hne
    rw [Function.update_self]
    exact hl
  · rw [Function.update_of_ne hne]
    exact hw.heap lb'

theorem CertsOwned.logOnly (hw : w.CertsOwned) {h h' : Hop} (hlog : h.log = w.log)
    (hl : h.LogOnly (fun e => e.deletesForeignCert = false) h') : ∀ e ∈ h'.log, e.deletesForeignCert = false := by
  intro e he
  rcases hl e he with he | he
  · exact hw.log e (hlog ▸ he)
  · exact he

theorem edgeHop_owned {S : Str → Str → Prop} (hS : Replaceable S) {ri : L7RuntimeInfo} {plan : Plan}
    (hw : w.CertsOwned) (hri : w.CertInUse S ri) :
    Ensures (edgeHop G plan) { l7 := w.startL7 ri, cloud := w.cloud, log := w.log } (fun _ h =>
      OwnsCerts S h.l7 ∧ ∀ e ∈ h.log, e.deletesForeignCert = false) := by
  refine (edgeHop_spec G plan _).mono ?_
  intro r h hr
  have hstart : OwnsCerts S (w.startL7 ri) :=
    ⟨fun cert hcert => startL7_old hw ri hcert,fun htls => hri.2 (by rwa [startL7_runtimeInfo] at htls)⟩
  obtain ⟨hl,hlog⟩ := hr.owned hS hstart hri.1
  exact ⟨hl,hw.logOnly rfl hlog⟩

theorem add_certsOwned {ri : L7RuntimeInfo} {plan : Plan} (hw : w.CertsOwned)
    (hri : (withoutForeignCert G).add w ri plan) : Ensures (add G ri plan) w (fun _ w' => w'.CertsOwned) := by
  rcases hri with hown | ⟨hspared,hreplaced⟩
  · rw [ensures_add]
    refine (edgeHop_owned replaceable_managed hw hown).mono ?_
    rintro r h ⟨hl,hlog⟩
    exact ⟨hw.store hl _,hlog⟩
  · -- the certificate that was replaced is not deleted, now or later
    have hrecords : Ensures (add G ri plan) w (fun _ w' => RecordsOwn (w'.heap (w.slot ri))) := hreplaced
    rw [ensures_add] at hrecords ⊢
    refine ((edgeHop_owned replaceable_ownIfPrefixed hw hspared).and hrecords).mono ?_
    rintro r h ⟨⟨hl,hlog⟩,hown⟩
    have hcert : RecordsOwn h.l7 := by simpa [afterAdd,store] using hown
    exact ⟨hw.store ⟨hl.old,fun _ => hcert⟩ _,hlog⟩

theorem delete_certsOwned {name : Str} {plan : Plan} (hw : w.CertsOwned) :
    Ensures (delete name plan) w (fun _ w' => w'.CertsOwned) := by
  refine ensures_delete (fun _ _ => hw) ?_
  intro lb _
  refine (cleanup_owned (hw.heap lb)).mono ?_
  rintro r h ⟨hl,hlog⟩
  refine ⟨?_,?_⟩
  · rw [heap_afterCleanup]
    exact hw.store hl lb
  · cases r with
    | error e => exact hw.logOnly rfl hlog
    | ok _ => exact hw.logOnly rfl hlog

section ModeChanges

def tlsInfo (tls : Option TLSCerts) (tlsName : Str) : L7RuntimeInfo where
  name := "default/test".toList
  tls := tls
  tlsName := tlsName
  allowHTTP := false
  staticIPName := []

/-- A cloud with a certificate of the user. -/
def userCloud : Cloud :=
  Cloud.empty.set .sslCertificate "my-cert".toList
    (some { body := { certificate := "user".toList, privateKey := [] }, createdFor := none })

def secretA : L7RuntimeInfo := tlsInfo (some { key := "key".toList, cert := "A".toList }) []
def secretB : L7RuntimeInfo := tlsInfo (some { key := "key".toList, cert := "B".toList }) []
def preShared : L7RuntimeInfo := tlsInfo none "my-cert".toList

/-- Two syncs of one load balancer, from the start of the process. -/
def twoSyncs (ri ri' : L7RuntimeInfo) : List Op :=
  [.sync [(ri,.faultless)] .ready,.sync [(ri',.faultless)] .ready]

def testStart : L7s := start (Namer.setUID "uid1".toList) userCloud

def collectAll : Op := .gc [] [("default-test--uid1".toList,.faultless)] .ready

theorem recordsOwn_of_all {l : L7} (h : l.sslCert.all (fun cert => decide (Managed l.name cert.name)) = true) :
    RecordsOwn l := by
  intro cert hcert
  rw [hcert] at h
  exact of_decide_eq_true h

theorem certInUse_of_all {S : Str → Str → Prop} [DecidableRel S] {w : L7s} {ri : L7RuntimeInfo}
    (hcert : (w.startL7 ri).sslCert.all (fun cert => decide (S (w.startL7 ri).name cert.name)) = true)
    (hlink : (w.cloud .targetHttpsProxy (Namer.targetProxy (w.startL7 ri).name .https)).all (fun p => decide
      (S (w.startL7 ri).name (getResourceNameFromLink (p.body.sslCertificates.headD [])))) = true) :
    w.CertInUse S ri := by
  constructor
  · intro _ _ p hp
    rw [hp] at hlink
    exact Or.inr (of_decide_eq_true hlink)
  · intro _ cert hc
    rw [hc] at hcert
    exact of_decide_eq_true hcert

/-- The condition allows a pre-shared certificate to be replaced by that of a secret. -/
example : Runs.Along (step SelfLinks.byCollection)
    (fun w op => op.Meets SelfLinks.byCollection (withoutForeignCert SelfLinks.byCollection) w.reset) testStart
    (twoSyncs preShared secretB ++ [collectAll]) := by
  have htlsName : preShared.tlsName ≠ [] := by decide
  refine ⟨⟨Or.inl ⟨fun h => ?_,fun h => absurd h htlsName⟩,trivial⟩,
    ⟨Or.inr ⟨certInUse_of_all ?_ ?_,recordsOwn_of_all ?_⟩,trivial⟩,⟨fun _ => trivial,trivial⟩,trivial⟩
  · rw [startL7_runtimeInfo] at h
    exact absurd h htlsName
  · decide +kernel
  · decide +kernel
  · decide +kernel

end ModeChanges

end L7s

end IngressGce
