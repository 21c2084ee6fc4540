import IngressGce.LoadBalancer.Manages

/-! # Certificates of the HTTPS frontend

`checkSSLCert` ends in one of a few ways, listed by `CertStep` with the load
balancer and the cloud each of them leaves. The certificate it compares with
the secret is `populated`, read under the recorded name or else under the name
the target proxy links to.
-/
namespace IngressGce
open Prog
variable (G : SelfLinks) (plan : Plan)

/-- The link `getSslCertLinkInUse` answers. -/
def Plan.linkInUse (l : L7) (c : Cloud) : Str :=
  match plan.seen G .certProxyGet .targetHttpsProxy (Namer.targetProxy l.name .https) c with
  | some proxy => proxy.body.sslCertificates.headD []
  | none => []

def Plan.expectedName (l : L7) (c : Cloud) : Str :=
  match l.sslCert with
  | some cert => cert.name
  | none => getResourceNameFromLink (plan.linkInUse G l c)

/-- The certificate that is recorded once `populateSSLCert` has succeeded. -/
def Plan.populated (l : L7) (c : Cloud) : Option SslCertificate :=
  if plan.expectedName G l c = [] then l.sslCert
  else (c .sslCertificate (plan.expectedName G l c)).map (fun s => s.view G (plan.expectedName G l c))

theorem ensures_expectedCertName {h : Hop} {Q : Except Failure Str → Hop → Prop}
    (done : ∀ h', h'.l7 = h.l7 → h'.cloud = h.cloud → h.LogOnly (Event.At [.certProxyGet]) h' →
      Q (.ok (plan.expectedName G h.l7 h.cloud)) h') :
    Ensures (expectedCertName G plan) h Q := by
  simp only [expectedCertName,ensures_bind,ensures_this,afterwards_ok]
  cases hcert : h.l7.sslCert with
  | some cert =>
    have h₀ := done h rfl rfl (.refl _ h)
    rw [Plan.expectedName,hcert] at h₀
    exact h₀
  | none =>
    have h₀ := done (h.called .certProxyGet .targetHttpsProxy (Namer.targetProxy h.l7.name .https)) rfl rfl
      ((Hop.LogOnly.refl _ h).called (by simp [Event.At]))
    rw [Plan.expectedName,hcert] at h₀
    simp only [ensures_bind,getSslCertLinkInUse,ensures_this,afterwards_ok,getTargetHttpsProxy,ensures_lookup]
    unfold Plan.linkInUse at h₀
    cases hs : plan.seen G .certProxyGet .targetHttpsProxy (Namer.targetProxy h.l7.name .https) h.cloud with
    | some proxy =>
      rw [hs] at h₀
      exact h₀
    | none =>
      rw [hs] at h₀
      exact h₀

structure Populated (h : Hop) (r : Except Failure Unit) (h' : Hop) : Prop where
  l7 : h'.l7 = { h.l7 with sslCert := h'.l7.sslCert }
  cloud : h'.cloud = h.cloud
  log : h.LogOnly (Event.At [.certProxyGet,.certGet]) h'
  error : ∀ e, r = .error e → plan.fault .certGet ≠ none ∧ h'.l7.sslCert = none
  ok : r = .ok () → h'.l7.sslCert = plan.populated G h.l7 h.cloud

theorem populateSSLCert_spec (h : Hop) : Ensures (populateSSLCert G plan) h (Populated G plan h) := by
  rw [populateSSLCert,ensures_bind]
  refine ensures_expectedCertName G plan ?_
  intro h₁ hl7 hc hl
  have hlog : h.LogOnly (Event.At [.certProxyGet,.certGet]) h₁ := hl.mono fun _ he => he.mono (by simp)
  rw [afterwards_ok,ensures_ite,ensures_pure,ensures_bind,ensures_rescue,ensures_bind,getSslCertificate]
  constructor
  · intro hname
    exact ⟨by rw [hl7],hc,hlog,by simp,fun _ => by rw [hl7,Plan.populated,if_pos hname]⟩
  · intro hname
    have hlog₂ : h.LogOnly (Event.At [.certProxyGet,.certGet])
        (h₁.called .certGet .sslCertificate (plan.expectedName G h.l7 h.cloud)) :=
      hlog.called (by simp [Event.At])
    refine ensures_read G plan ?_ ?_ ?_
    · intro f hf
      simp only [afterwards_error,rescued_error,ensures_bind,ensures_setL7,afterwards_ok,f.not_notFound,
        Bool.false_eq_true,↓reduceIte,ensures_returnError]
      exact ⟨by rw [Hop.called_l7,hl7],hc,hlog₂,fun _ _ => ⟨by simp [hf],rfl⟩,by simp⟩
    · intro hmissing
      rw [hc] at hmissing
      simp only [afterwards_error,rescued_error,ensures_bind,ensures_setL7,afterwards_ok,
        isHTTPErrorCode_api,↓reduceIte,ensures_pure]
      refine ⟨by rw [Hop.called_l7,hl7],hc,hlog₂,by simp,?_⟩
      intro _
      rw [Plan.populated,if_neg hname,hmissing]
      rfl
    · intro s hs
      rw [hc] at hs
      simp only [afterwards_ok,rescued_ok,ensures_pure,ensures_setL7]
      refine ⟨by rw [Hop.called_l7,hl7],hc,hlog₂,by simp,?_⟩
      intro _
      rw [Plan.populated,if_neg hname,hs]
      rfl

theorem usePreSharedCert_spec (h : Hop) : Ensures (usePreSharedCert G plan) h (fun r h' =>
    h'.cloud = h.cloud ∧ h.LogOnly (Event.At [.preSharedGet]) h' ∧
    match r with
    | .ok false => h.l7.runtimeInfo.tlsName = [] ∧ h'.l7 = h.l7
    | .ok true => h.l7.runtimeInfo.tlsName ≠ [] ∧
      ∃ s, h.cloud .sslCertificate h.l7.runtimeInfo.tlsName = some s ∧
        h'.l7 = { h.l7 with sslCert := some (s.view G h.l7.runtimeInfo.tlsName) }
    | .error _ => h.l7.runtimeInfo.tlsName ≠ [] ∧ h'.l7 = h.l7) := by
  have hlog : h.LogOnly (Event.At [.preSharedGet])
      (h.called .preSharedGet .sslCertificate h.l7.runtimeInfo.tlsName) :=
    (Hop.LogOnly.refl _ h).called (by simp [Event.At])
  simp only [usePreSharedCert,ensures_bind,ensures_this,afterwards_ok]
  rw [ensures_ite,ensures_pure,ensures_bind,getSslCertificate]
  refine ⟨fun hname => ⟨rfl,.refl _ h,hname,rfl⟩,?_⟩
  intro hname
  refine ensures_read G plan ?_ ?_ ?_
  · intro f _
    exact ⟨rfl,hlog,hname,rfl⟩
  · intro _
    exact ⟨rfl,hlog,hname,rfl⟩
  · intro s hs
    exact ⟨rfl,hlog,hname,s,hs,rfl⟩

/-- The load balancer as `checkSSLCert` compares it with the secret. -/
def Plan.populatedL7 (h : Hop) : L7 := { h.l7 with sslCert := plan.populated G h.l7 h.cloud }

/-- `checkSSLCert` has to store the certificate of the secret. -/
structure Rotates (h : Hop) (tls : TLSCerts) : Prop where
  tlsName : h.l7.runtimeInfo.tlsName = []
  tls_eq : h.l7.runtimeInfo.tls = some tls
  differs : (plan.populated G h.l7 h.cloud).map (fun c => c.body.certificate) ≠ some tls.cert

abbrev certReadSites : List Site := [.preSharedGet,.certProxyGet,.certGet]

/-- The ways in which the certificate of the secret gets stored, or not. -/
inductive Replaced (tls : TLSCerts) (h : Hop) : Except Failure Unit → Hop → Prop
  | unstored {e : Failure} {h' : Hop} (l7 : h'.l7 = h.l7)
      (cloud : h'.cloud = h.cloud ∨ h'.cloud = h.cloud.set .sslCertificate (nextCertificateName h.l7) none) :
      Replaced tls h (.error e) h'
  | lost {e : Failure} {s : Stored .sslCertificate} {h' : Hop} (loses : plan.Loses .certInsert .certReadBack)
      (fresh : s.Fresh [] { certificate := tls.cert, privateKey := tls.key } h.l7.name) (l7 : h'.l7 = h.l7)
      (cloud : h'.cloud = h.cloud.set .sslCertificate (nextCertificateName h.l7) (some s)) :
      Replaced tls h (.error e) h'
  | stored {s : Stored .sslCertificate} {h' : Hop}
      (fresh : s.Fresh [] { certificate := tls.cert, privateKey := tls.key } h.l7.name)
      (l7 : h'.l7 = { h.l7 with
        oldSSLCert := h.l7.sslCert, sslCert := some (s.view G (nextCertificateName h.l7)) })
      (cloud : h'.cloud = h.cloud.set .sslCertificate (nextCertificateName h.l7) (some s)) :
      Replaced tls h (.ok ()) h'

theorem ensures_unableToDelete {name : Str} {e : Failure} {h : Hop} {Q : Except Failure Unit → Hop → Prop}
    (failed : ∀ e, Q (.error e) h) : Ensures (unableToDelete name e) h Q := by
  cases e with
  | returned e => exact failed _
  | panicked => exact failed _

/-- The events of storing a certificate: the deletion is made on the cloud found. -/
def ReplaceEvent (h : Hop) (e : Event) : Prop :=
  e = .call h.l7.name .certDelete .sslCertificate (nextCertificateName h.l7) h.cloud ∨
    e.At [.certInsert,.certReadBack]

theorem replaceSSLCert_spec (tls : TLSCerts) (h : Hop) : Ensures (replaceSSLCert G plan tls) h (fun r h' =>
    Replaced G plan tls h r h' ∧ h.LogOnly (ReplaceEvent h) h') := by
  have hlog : h.LogOnly (ReplaceEvent h)
      (h.called .certDelete .sslCertificate (nextCertificateName h.l7)) :=
    (Hop.LogOnly.refl _ h).called (Or.inl rfl)
  simp only [replaceSSLCert,ensures_bind,ensures_this,afterwards_ok,ensures_rescue,deleteSslCertificate,
    createSslCertificate]
  refine ensures_ignoreDelete plan ?_ ?_ ?_
  · intro _ e
    rw [rescued_error]
    exact ensures_unableToDelete fun e => ⟨.unstored rfl (Or.inl rfl),hlog⟩
  · intro _ e
    rw [rescued_error]
    exact ensures_unableToDelete fun e => ⟨.unstored rfl (Or.inr rfl),hlog⟩
  · rw [rescued_ok,afterwards_ok,ensures_bind]
    refine ensures_create G plan ?_ ?_ ?_
    · intro e h' hl7 hc hl
      exact ⟨.unstored hl7 (Or.inr hc),(hlog.setCloud _).trans (hl.mono fun _ he => Or.inr he)⟩
    · intro e s h' _ hlost hs hl7 hc hl
      exact ⟨.lost hlost hs hl7 (by rw [hc]; exact Cloud.set_set _ _ _ _ _),
        (hlog.setCloud _).trans (hl.mono fun _ he => Or.inr he)⟩
    · intro s h' _ hs hl7 hc hl
      rw [afterwards_ok,ensures_setL7]
      exact ⟨.stored hs (by rw [hl7]; rfl) (by rw [hc]; exact Cloud.set_set _ _ _ _ _),
        (hlog.setCloud _).trans (hl.mono fun _ he => Or.inr he)⟩

/-- The ways in which `checkSSLCert` ends. -/
inductive CertStep (h : Hop) : Except Failure Unit → Hop → Prop
  | preShared {s : Stored .sslCertificate} {h' : Hop} (tlsName : h.l7.runtimeInfo.tlsName ≠ [])
      (found : h.cloud .sslCertificate h.l7.runtimeInfo.tlsName = some s)
      (l7 : h'.l7 = { h.l7 with sslCert := some (s.view G h.l7.runtimeInfo.tlsName) })
      (cloud : h'.cloud = h.cloud) (log : h.LogOnly (Event.At certReadSites) h') : CertStep h (.ok ()) h'
  | unshared {e : Failure} {h' : Hop} (tlsName : h.l7.runtimeInfo.tlsName ≠ []) (l7 : h'.l7 = h.l7)
      (cloud : h'.cloud = h.cloud) (log : h.LogOnly (Event.At certReadSites) h') : CertStep h (.error e) h'
  | unread {e : Failure} {h' : Hop} (tlsName : h.l7.runtimeInfo.tlsName = [])
      (fault : plan.fault .certGet ≠ none) (l7 : h'.l7 = { h.l7 with sslCert := none })
      (cloud : h'.cloud = h.cloud) (log : h.LogOnly (Event.At certReadSites) h') : CertStep h (.error e) h'
  | noSecret {h' : Hop} (tlsName : h.l7.runtimeInfo.tlsName = []) (l7 : h'.l7 = plan.populatedL7 G h)
      (cloud : h'.cloud = h.cloud) (log : h.LogOnly (Event.At certReadSites) h') :
      CertStep h (.error .panicked) h'
  | current {tls : TLSCerts} {h' : Hop} (tlsName : h.l7.runtimeInfo.tlsName = [])
      (tls_eq : h.l7.runtimeInfo.tls = some tls)
      (same : (plan.populated G h.l7 h.cloud).map (fun c => c.body.certificate) = some tls.cert)
      (l7 : h'.l7 = plan.populatedL7 G h) (cloud : h'.cloud = h.cloud)
      (log : h.LogOnly (Event.At certReadSites) h') : CertStep h (.ok ()) h'
  | replaced {tls : TLSCerts} {r : Except Failure Unit} {h₁ h' : Hop} (rotates : Rotates G plan h tls)
      (l7 : h₁.l7 = plan.populatedL7 G h) (cloud : h₁.cloud = h.cloud)
      (log : h.LogOnly (Event.At certReadSites) h₁) (replaced : Replaced G plan tls h₁ r h')
      (log' : h₁.LogOnly (ReplaceEvent h₁) h') : CertStep h r h'

theorem checkSSLCert_spec (h : Hop) : Ensures (checkSSLCert G plan) h (CertStep G plan h) := by
  rw [checkSSLCert,ensures_bind]
  refine (usePreSharedCert_spec G plan h).mono ?_
  rintro r h₁ ⟨hc₁,hl₁,hr⟩
  have hlog₁ : h.LogOnly (Event.At certReadSites) h₁ := hl₁.mono fun _ he => he.mono (by simp)
  match r, hr with
  | .error e, ⟨hname,hl7⟩ => exact .unshared hname hl7 hc₁ hlog₁
  | .ok true, ⟨hname,s,hs,hl7⟩ => exact .preShared hname hs hl7 hc₁ hlog₁
  | .ok false, ⟨hname,hl7⟩ =>
    rw [afterwards_ok]
    simp only [Bool.false_eq_true,↓reduceIte,ensures_bind]
    refine (populateSSLCert_spec G plan h₁).mono ?_
    intro r h₂ hp
    have hc₂ : h₂.cloud = h.cloud := hp.cloud.trans hc₁
    have hlog₂ : h.LogOnly (Event.At certReadSites) h₂ := hlog₁.trans (hp.log.mono fun _ he => he.mono (by simp))
    cases r with
    | error e =>
      obtain ⟨hf,hnone⟩ := hp.error e rfl
      exact .unread hname hf (by rw [hp.l7,hnone,hl7]) hc₂ hlog₂
    | ok _ =>
      have hl7₂ : h₂.l7 = plan.populatedL7 G h := by rw [hp.l7,hp.ok rfl,hl7,hc₁]; rfl
      have htls₂ : h₂.l7.runtimeInfo.tls = h.l7.runtimeInfo.tls := by rw [hl7₂]; rfl
      have hcert₂ : h₂.l7.sslCert = plan.populated G h.l7 h.cloud := by rw [hl7₂]; rfl
      rw [afterwards_ok,ensures_bind,ensures_this,afterwards_ok,htls₂,hcert₂]
      cases htls : h.l7.runtimeInfo.tls with
      | none => exact .noSecret hname hl7₂ hc₂ hlog₂
      | some tls =>
        rw [ensures_ite,ensures_pure]
        refine ⟨fun hsame => .current hname htls hsame hl7₂ hc₂ hlog₂,?_⟩
        intro hdiffers
        refine (replaceSSLCert_spec G plan tls h₂).mono ?_
        rintro r h₃ ⟨hr,hl⟩
        exact .replaced ⟨hname,htls,hdiffers⟩ hl7₂ hc₂ hlog₂ hr hl

/-- The certificate `deleteOldSSLCert` deletes. -/
def L7.obsoleteCert (l : L7) : Option SslCertificate :=
  match l.oldSSLCert, l.sslCert with
  | some old, some cert => if old.name = cert.name ∨ Namer.isSSLCert old.name = false then none else some old
  | _, _ => none

/-- The ways in which `deleteOldSSLCert` ends. -/
inductive OldCertStep (h : Hop) : Except Failure Unit → Hop → Prop
  | nothing (obsolete : h.l7.obsoleteCert = none) : OldCertStep h (.ok ()) h
  | failed {old : SslCertificate} {e : Failure} {h' : Hop} (obsolete : h.l7.obsoleteCert = some old)
      (l7 : h'.l7 = h.l7)
      (cloud : h'.cloud = h.cloud ∨ h'.cloud = h.cloud.set .sslCertificate old.name none)
      (log : h'.log = .call h.l7.name .oldCertDelete .sslCertificate old.name h.cloud :: h.log) :
      OldCertStep h (.error e) h'
  | deleted {old : SslCertificate} {h' : Hop} (obsolete : h.l7.obsoleteCert = some old)
      (l7 : h'.l7 = { h.l7 with oldSSLCert := none })
      (cloud : h'.cloud = h.cloud.set .sslCertificate old.name none)
      (log : h'.log = .call h.l7.name .oldCertDelete .sslCertificate old.name h.cloud :: h.log) :
      OldCertStep h (.ok ()) h'

theorem deleteOldSSLCert_spec (h : Hop) : Ensures (deleteOldSSLCert plan) h (OldCertStep h) := by
  simp only [deleteOldSSLCert,ensures_bind,ensures_this,afterwards_ok]
  cases hold : h.l7.oldSSLCert with
  | none => exact .nothing (by simp [L7.obsoleteCert,hold])
  | some old =>
    cases hcert : h.l7.sslCert with
    | none => exact .nothing (by simp [L7.obsoleteCert,hold,hcert])
    | some cert =>
      simp only [ensures_ite,ensures_pure,ensures_bind,deleteSslCertificate]
      constructor
      · intro hkeep
        exact .nothing (by rw [L7.obsoleteCert,hold,hcert]; exact if_pos hkeep)
      · intro hkeep
        have hobsolete : h.l7.obsoleteCert = some old := by
          rw [L7.obsoleteCert,hold,hcert]
          exact if_neg hkeep
        refine ensures_ignoreDelete plan ?_ ?_ ?_
        · intro _ e
          exact .failed hobsolete rfl (Or.inl rfl) rfl
        · intro _ e
          exact .failed hobsolete rfl (Or.inr rfl) rfl
        · exact .deleted hobsolete rfl rfl rfl

section Frame
variable {G plan} {h h' : Hop} {r : Except Failure Unit}

/-- What `checkSSLCert` and the deletion of the old certificate leave of the load
balancer besides its certificates. -/
theorem CertStep.l7_eq (hs : CertStep G plan h r h') :
    h'.l7 = { h.l7 with sslCert := h'.l7.sslCert, oldSSLCert := h'.l7.oldSSLCert } := by
  cases hs with
  | preShared tlsName found l7 cloud log => rw [l7]
  | unshared tlsName l7 cloud log => rw [l7]
  | unread tlsName fault l7 cloud log => rw [l7]
  | noSecret tlsName l7 cloud log => rw [l7]; rfl
  | current tlsName tls_eq same l7 cloud log => rw [l7]; rfl
  | replaced rotates l7 cloud log replaced log' =>
    cases replaced with
    | unstored l7' cloud' => rw [l7',l7]; rfl
    | lost loses fresh l7' cloud' => rw [l7',l7]; rfl
    | stored fresh l7' cloud' => rw [l7',l7]; rfl

theorem OldCertStep.l7_eq (hs : OldCertStep h r h') :
    h'.l7 = { h.l7 with oldSSLCert := h'.l7.oldSSLCert } := by
  cases hs with
  | nothing obsolete => rfl
  | failed obsolete l7 cloud log => rw [l7]
  | deleted obsolete l7 cloud log => rw [l7]

/-- `checkSSLCert` changes nothing in the cloud but certificates. -/
theorem CertStep.others (hs : CertStep G plan h r h') {k : Kind} (hk : k ≠ .sslCertificate) (n : Str) :
    h'.cloud k n = h.cloud k n := by
  have hset : ∀ (c : Cloud) (m : Str) (v : Option (Stored .sslCertificate)),
      c.set .sslCertificate m v k n = c k n := fun c m v => Cloud.set_of_ne c (fun h => hk h.1) v
  cases hs with
  | preShared tlsName found l7 cloud log => rw [cloud]
  | unshared tlsName l7 cloud log => rw [cloud]
  | unread tlsName fault l7 cloud log => rw [cloud]
  | noSecret tlsName l7 cloud log => rw [cloud]
  | current tlsName tls_eq same l7 cloud log => rw [cloud]
  | replaced rotates l7 cloud log replaced log' =>
    cases replaced with
    | unstored l7' cloud' =>
      rcases cloud' with cloud' | cloud'
      · rw [cloud',cloud]
      · rw [cloud',cloud,hset]
    | lost loses fresh l7' cloud' => rw [cloud',cloud,hset]
    | stored fresh l7' cloud' => rw [cloud',cloud,hset]

theorem OldCertStep.others (hs : OldCertStep h r h') {k : Kind} (hk : k ≠ .sslCertificate) (n : Str) :
    h'.cloud k n = h.cloud k n := by
  have hset : ∀ m, h.cloud.set .sslCertificate m none k n = h.cloud k n := fun m =>
    Cloud.set_of_ne _ (fun h => hk h.1) _
  cases hs with
  | nothing obsolete => rfl
  | failed obsolete l7 cloud log =>
    rcases cloud with cloud | cloud
    · rw [cloud]
    · rw [cloud,hset]
  | deleted obsolete l7 cloud log => rw [cloud,hset]

end Frame

end IngressGce
