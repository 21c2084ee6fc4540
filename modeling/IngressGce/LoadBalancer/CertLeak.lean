import IngressGce.LoadBalancer.CertOwnership

/-! # Certificates that outlive their load balancer

A certificate that was created for a load balancer is deleted with it only if the
load balancer has it recorded. The field `oldSSLCert` remembers the certificate
that a new one has replaced, until the new one is in use.
-/
namespace IngressGce
open Prog

/-- A certificate that was created for the load balancer is stored under the name. -/
def Cloud.HoldsCert (c : Cloud) (lb name : Str) : Prop :=
  ∃ s, c .sslCertificate name = some s ∧ s.createdFor = some lb

/-- No certificate that was created for the load balancer is left. -/
def Cloud.CertsGone (c : Cloud) (lb : Str) : Prop := ∀ name, ¬c.HoldsCert lb name

/-- Each certificate created for the load balancer is recorded by it, and will be
deleted with it or as the old one. An old certificate that is left belongs to a
rotation of which the new certificate is recorded and stored. -/
structure CertsAccounted (l : L7) (c : Cloud) : Prop where
  managed : ∀ n, c.HoldsCert l.name n → Managed l.name n
  tlsName : ∀ n, c.HoldsCert l.name n → l.runtimeInfo.tlsName = []
  recorded : ∀ n, c.HoldsCert l.name n → Recorded l.sslCert n ∨ Recorded l.oldSSLCert n
  unfinished : ∀ n, c.HoldsCert l.name n → Recorded l.oldSSLCert n →
    ∃ cert s, l.sslCert = some cert ∧ Managed l.name cert.name ∧ c .sslCertificate cert.name = some s

section Cloud
variable {c c' : Cloud} {lb n : Str}

theorem Cloud.holdsCert_congr (hc : ∀ n, c' .sslCertificate n = c .sslCertificate n) :
    c'.HoldsCert lb n ↔ c.HoldsCert lb n := by
  unfold Cloud.HoldsCert
  rw [hc]

theorem Cloud.holdsCert_set_none {m : Str} (h : (c.set .sslCertificate m none).HoldsCert lb n) :
    n ≠ m ∧ c.HoldsCert lb n := by
  obtain ⟨s,hs,hfor⟩ := h
  obtain ⟨hs,hne⟩ := Cloud.of_set_none hs
  exact ⟨fun heq => hne ⟨rfl,heq⟩,s,hs,hfor⟩

theorem Cloud.holdsCert_set_some {m : Str} {s : Stored .sslCertificate}
    (h : (c.set .sslCertificate m (some s)).HoldsCert lb n) : n = m ∨ (n ≠ m ∧ c.HoldsCert lb n) := by
  obtain ⟨s',hs,hfor⟩ := h
  by_cases hn : n = m
  · exact Or.inl hn
  · rw [Cloud.set_name_ne _ _ hn] at hs
    exact Or.inr ⟨hn,s',hs,hfor⟩

end Cloud

section Hop
variable {G : SelfLinks} {plan : Plan} {h h' : Hop} {r : Except Failure Unit}

theorem CertsAccounted.congr {l l' : L7} {c c' : Cloud} (ha : CertsAccounted l c)
    (hview : l'.certView = l.certView) (hc : ∀ n, c' .sslCertificate n = c .sslCertificate n) :
    CertsAccounted l' c' := by
  have hname : l'.name = l.name := congrArg CertView.name hview
  have hinfo : l'.runtimeInfo = l.runtimeInfo := congrArg CertView.runtimeInfo hview
  have hcert : l'.sslCert = l.sslCert := congrArg CertView.sslCert hview
  have hold : l'.oldSSLCert = l.oldSSLCert := congrArg CertView.oldSSLCert hview
  have hholds : ∀ n, c'.HoldsCert l.name n → c.HoldsCert l.name n := fun n => (Cloud.holdsCert_congr hc).mp
  constructor
  · rw [hname]
    exact fun n hn => ha.managed n (hholds n hn)
  · rw [hname,hinfo]
    exact fun n hn => ha.tlsName n (hholds n hn)
  · rw [hname,hcert,hold]
    exact fun n hn => ha.recorded n (hholds n hn)
  · rw [hname,hcert,hold]
    intro n hn hrec
    obtain ⟨cert,s,hs,hm,hstored⟩ := ha.unfinished n (hholds n hn) hrec
    exact ⟨cert,s,hs,hm,by rw [hc,hstored]⟩

theorem CertsAccounted.of_gone {l : L7} {c : Cloud} (hgone : c.CertsGone l.name) : CertsAccounted l c where
  managed n hn := absurd hn (hgone n)
  tlsName n hn := absurd hn (hgone n)
  recorded n hn := absurd hn (hgone n)
  unfinished n hn := absurd hn (hgone n)

theorem Managed.ne_nil {lb name : Str} (h : Managed lb name) : name ≠ [] := by
  rcases h with rfl | rfl
  · exact sslCert_name_ne_nil lb true
  · exact sslCert_name_ne_nil lb false

/-- Of the two managed names, one is that of the certificate at hand and the other
is the next. -/
theorem Managed.eq_or_next {l : L7} {cert : SslCertificate} (hcert : l.sslCert = some cert)
    (hm : Managed l.name cert.name) {n : Str} (hn : Managed l.name n) :
    n = cert.name ∨ n = nextCertificateName l := by
  unfold nextCertificateName
  rw [hcert,Option.map_some]
  by_cases hprimary : cert.name = Namer.sslCert l.name true
  · rw [if_pos (by rw [hprimary]),hprimary]
    exact hn
  · rw [if_neg (by simpa using hprimary)]
    rw [hm.resolve_left hprimary]
    exact hn.symm

/-- A recorded certificate that is stored is the one at hand. -/
theorem populated_of_recorded {l : L7} {c : Cloud} {cert : SslCertificate} (hcert : l.sslCert = some cert)
    (hne : cert.name ≠ []) {s : Stored .sslCertificate} (hs : c .sslCertificate cert.name = some s) :
    plan.populated G l c = some (s.view G cert.name) := by
  have hexp : plan.expectedName G l c = cert.name := by rw [Plan.expectedName,hcert]
  rw [Plan.populated,hexp,if_neg hne,hs]
  rfl

theorem CertsAccounted.populated (ha : CertsAccounted h.l7 h.cloud) :
    CertsAccounted (plan.populatedL7 G h) h.cloud where
  managed := ha.managed
  tlsName := ha.tlsName
  recorded n hn := by
    refine (ha.recorded n hn).imp_left ?_
    intro hrec
    obtain ⟨cert,hcert,rfl⟩ := Option.map_eq_some_iff.mp hrec
    have hne := (ha.managed _ hn).ne_nil
    obtain ⟨s,hs,-⟩ := hn
    have hpop : plan.populated G h.l7 h.cloud = some (s.view G cert.name) := populated_of_recorded hcert hne hs
    change Recorded (plan.populated G h.l7 h.cloud) cert.name
    rw [hpop,recorded_some]
    rfl
  unfinished n hn hrec := by
    obtain ⟨cert,s,hcert,hm,hs⟩ := ha.unfinished n hn hrec
    exact ⟨s.view G cert.name,s,populated_of_recorded hcert hm.ne_nil hs,hm,hs⟩

/-- Deleting the certificate under the next name keeps account. -/
theorem CertsAccounted.delete_next {l : L7} {c : Cloud} (ha : CertsAccounted l c) :
    CertsAccounted l (c.set .sslCertificate (nextCertificateName l) none) where
  managed n hn := ha.managed n (Cloud.holdsCert_set_none hn).2
  tlsName n hn := ha.tlsName n (Cloud.holdsCert_set_none hn).2
  recorded n hn := ha.recorded n (Cloud.holdsCert_set_none hn).2
  unfinished n hn hrec := by
    obtain ⟨hne,hn⟩ := Cloud.holdsCert_set_none hn
    obtain ⟨cert,s,hcert,hm,hs⟩ := ha.unfinished n hn hrec
    have heq : n = cert.name := (hm.eq_or_next hcert (ha.managed n hn)).resolve_right hne
    exact ⟨cert,s,hcert,hm,by rw [Cloud.set_name_ne _ _ (heq ▸ hne),hs]⟩

/-- So does storing a certificate there, with the one at hand remembered as old. -/
theorem CertsAccounted.store_next {l : L7} {c : Cloud} (ha : CertsAccounted l c)
    (htls : l.runtimeInfo.tlsName = []) (s : Stored .sslCertificate) :
    CertsAccounted
      { l with oldSSLCert := l.sslCert, sslCert := some (s.view G (nextCertificateName l)) }
      (c.set .sslCertificate (nextCertificateName l) (some s)) where
  managed n hn := by
    rcases Cloud.holdsCert_set_some hn with rfl | ⟨-,hn⟩
    · exact managed_nextCertificateName l
    · exact ha.managed n hn
  tlsName _ _ := htls
  recorded n hn := by
    rcases Cloud.holdsCert_set_some hn with rfl | ⟨hne,hn⟩
    · exact Or.inl ((recorded_some _ _).mpr rfl)
    · right
      rcases ha.recorded n hn with hrec | hrec
      · exact hrec
      · obtain ⟨cert,s',hcert,hm,-⟩ := ha.unfinished n hn hrec
        have heq : n = cert.name := (hm.eq_or_next hcert (ha.managed n hn)).resolve_right hne
        change Recorded l.sslCert n
        rw [hcert,recorded_some]
        exact heq.symm
  unfinished n hn hrec :=
    ⟨_,s,rfl,managed_nextCertificateName l,Cloud.set_self _ _ _ _⟩

/-- No call fails after which `checkSSLCert` no longer knows of a certificate. -/
structure Plan.KeepsTrack (plan : Plan) : Prop where
  certGet : plan.fault .certGet = none
  certInsert : ¬plan.Loses .certInsert .certReadBack

theorem CertStep.accounted (hplan : plan.KeepsTrack) (ha : CertsAccounted h.l7 h.cloud)
    (hs : CertStep G plan h r h') : CertsAccounted h'.l7 h'.cloud := by
  cases hs with
  | preShared tlsName found l7 cloud log =>
    have hgone : h.cloud.CertsGone h.l7.name := fun n hn => tlsName (ha.tlsName n hn)
    rw [l7,cloud]
    exact .of_gone hgone
  | unshared tlsName l7 cloud log =>
    rw [l7,cloud]
    exact ha
  | unread tlsName fault l7 cloud log => exact absurd hplan.certGet fault
  | noSecret tlsName l7 cloud log =>
    rw [l7,cloud]
    exact ha.populated
  | current tlsName tls_eq same l7 cloud log =>
    rw [l7,cloud]
    exact ha.populated
  | @replaced tls _ h₁ _ rotates l7 cloud log replaced log' =>
    have ha₁ : CertsAccounted h₁.l7 h₁.cloud := by
      rw [l7,cloud]
      exact ha.populated
    have htls₁ : h₁.l7.runtimeInfo.tlsName = [] := by rw [l7]; exact rotates.tlsName
    cases replaced with
    | unstored l7' cloud' =>
      rw [l7']
      rcases cloud' with cloud' | cloud'
      · rw [cloud']
        exact ha₁
      · rw [cloud']
        exact ha₁.delete_next
    | lost loses fresh l7' cloud' => exact absurd loses hplan.certInsert
    | stored fresh l7' cloud' =>
      rw [l7',cloud']
      exact ha₁.store_next htls₁ _

theorem OldCertStep.accounted (ha : CertsAccounted h.l7 h.cloud) (hs : OldCertStep h r h') :
    CertsAccounted h'.l7 h'.cloud := by
  have hset : ∀ {old : SslCertificate}, h.l7.obsoleteCert = some old →
      ∀ n, (h.cloud.set .sslCertificate old.name none).HoldsCert h.l7.name n →
        h.cloud.HoldsCert h.l7.name n ∧ ¬Recorded h.l7.oldSSLCert n := by
    intro old hold n hn
    obtain ⟨hne,hn⟩ := Cloud.holdsCert_set_none hn
    rw [(obsoleteCert_eq hold).1,recorded_some]
    exact ⟨hn,Ne.symm hne⟩
  cases hs with
  | nothing obsolete => exact ha
  | failed obsolete l7 cloud log =>
    rw [l7]
    rcases cloud with cloud | cloud
    · rw [cloud]
      exact ha
    · rw [cloud]
      exact ⟨fun n hn => ha.managed n (hset obsolete n hn).1,fun n hn => ha.tlsName n (hset obsolete n hn).1,
        fun n hn => ha.recorded n (hset obsolete n hn).1,
        fun n hn hrec => absurd hrec (hset obsolete n hn).2⟩
  | deleted obsolete l7 cloud log =>
    rw [l7,cloud]
    refine ⟨fun n hn => ha.managed n (hset obsolete n hn).1,fun n hn => ha.tlsName n (hset obsolete n hn).1,?_,?_⟩
    · intro n hn
      obtain ⟨hn,hold⟩ := hset obsolete n hn
      exact Or.inl ((ha.recorded n hn).resolve_right hold)
    · intro n hn hrec
      exact absurd hrec (not_recorded_none n)

/-- Every check of an edge hop keeps account of the certificates. -/
theorem preserved_accounted (hplan : plan.KeepsTrack) :
    Preserved G plan (fun h => CertsAccounted h.l7 h.cloud) where
  urlMap ha hp := ha.congr hp.certsKept.view hp.certsKept.certs
  proxy ha hp := ha.congr hp.certsKept.view hp.certsKept.certs
  httpRule _ ha hp := ha.congr (HttpRuleStep.certsKept hp).view (HttpRuleStep.certsKept hp).certs
  staticIP ha hp := ha.congr hp.certsKept.view hp.certsKept.certs
  cert ha hs := hs.accounted hplan ha
  httpsProxy ha hp := ha.congr (by rw [hp.l7]; rfl) fun n => hp.manages.cloud _ _ (by simp)
  httpsRule _ ha hp := ha.congr (HttpsRuleStep.certsKept hp).view (HttpsRuleStep.certsKept hp).certs
  oldCert ha hs := hs.accounted ha

/-- The load balancer has no old certificate of its own left to delete. -/
def L7.Settled (l : L7) : Prop := ∀ old, l.oldSSLCert = some old → ¬Managed l.name old.name

theorem CertsAccounted.not_old {l : L7} {c : Cloud} (ha : CertsAccounted l c) (hl : l.Settled) {n : Str}
    (hn : c.HoldsCert l.name n) : ¬Recorded l.oldSSLCert n := by
  intro hrec
  obtain ⟨old,hold,rfl⟩ := Option.map_eq_some_iff.mp hrec
  exact hl old hold (ha.managed _ hn)

theorem CertsAccounted.delete_other {l : L7} {c : Cloud} (ha : CertsAccounted l c) {k : Kind}
    (hk : k ≠ .sslCertificate) (name : Str) : CertsAccounted l (c.set k name none) :=
  ha.congr rfl fun _ => Cloud.set_of_ne _ (fun h => hk h.1.symm) _

/-- Deleting the recorded certificate, whether or not it is then forgotten. -/
theorem CertsAccounted.delete_recorded {l : L7} {c : Cloud} (ha : CertsAccounted l c) (hl : l.Settled)
    {cert : SslCertificate} (hcert : l.sslCert = some cert) :
    CertsAccounted l (c.set .sslCertificate cert.name none) ∧
      CertsAccounted { l with sslCert := none } (c.set .sslCertificate cert.name none) := by
  have hgone : ∀ n, ¬(c.set .sslCertificate cert.name none).HoldsCert l.name n := by
    intro n hn
    obtain ⟨hne,hn⟩ := Cloud.holdsCert_set_none hn
    rcases ha.recorded n hn with hrec | hrec
    · rw [hcert,recorded_some] at hrec
      exact hne hrec.symm
    · exact ha.not_old hl hn hrec
  exact ⟨.of_gone hgone,.of_gone hgone⟩

theorem Disposed.accounted {stage : CleanupStage} (ha : CertsAccounted h.l7 h.cloud) (hl : h.l7.Settled)
    (hd : Disposed plan stage h r h') : CertsAccounted h'.l7 h'.cloud := by
  by_cases hstage : stage = .sslCert
  · subst hstage
    have hrecorded : ∀ {cert : SslCertificate}, CleanupStage.sslCert.recorded h.l7 = some cert →
        h.l7.sslCert = some cert := by
      intro cert hcert
      change (if h.l7.runtimeInfo.tlsName = [] then h.l7.sslCert else none) = some cert at hcert
      split at hcert
      · exact hcert
      · cases hcert
    exact hd.rule ha fun _ hcert => ha.delete_recorded hl (hrecorded hcert)
  · have hkind : stage.kind ≠ .sslCertificate := by
      cases stage <;> first | exact absurd rfl hstage | decide
    have hview : (stage.forget h.l7).certView = h.l7.certView := by
      cases stage <;> first | exact absurd rfl hstage | rfl
    refine hd.rule ha ?_
    intro o _
    have hother := ha.delete_other hkind o.name
    exact ⟨hother,hother.congr hview fun _ => rfl⟩

@[simp] theorem forget_oldSSLCert (stage : CleanupStage) (l : L7) :
    (stage.forget l).oldSSLCert = l.oldSSLCert := by
  cases stage <;> rfl

theorem Disposed.oldSSLCert {stage : CleanupStage} (hd : Disposed plan stage h r h') :
    h'.l7.oldSSLCert = h.l7.oldSSLCert := by
  cases hd with
  | nothing unrecorded => rfl
  | failed found fault l7 cloud log => rw [l7]
  | done found l7 cloud log => rw [l7,forget_oldSSLCert]

/-- The teardown of a settled load balancer keeps account, and leaves none of its
certificates if it completes. -/
theorem cleanup_accounted (ha : CertsAccounted h.l7 h.cloud) (hl : h.l7.Settled) :
    Ensures (cleanup plan) h (fun r h' => h'.l7.name = h.l7.name ∧ CertsAccounted h'.l7 h'.cloud ∧
      (r = .ok () → h'.cloud.CertsGone h.l7.name)) := by
  have hkeeps : Ensures (cleanup plan) h (fun _ h' => CertsAccounted h'.l7 h'.cloud ∧
      h'.l7.name = h.l7.name ∧ h'.l7.oldSSLCert = h.l7.oldSSLCert) := by
    refine cleanup_invariant (I := fun h' => CertsAccounted h'.l7 h'.cloud ∧ h'.l7.name = h.l7.name ∧
      h'.l7.oldSSLCert = h.l7.oldSSLCert) plan ?_ ⟨ha,rfl,rfl⟩
    rintro stage h₁ r h₂ ⟨ha₁,hname₁,hold₁⟩ hd
    have hl₁ : h₁.l7.Settled := by
      unfold L7.Settled
      rw [hname₁,hold₁]
      exact hl
    exact ⟨hd.accounted ha₁ hl₁,hd.name.trans hname₁,hd.oldSSLCert.trans hold₁⟩
  refine (hkeeps.and (cleanup_forgets plan h)).mono ?_
  rintro r h' ⟨⟨ha',hname,hold⟩,hforgets⟩
  refine ⟨hname,ha',?_⟩
  intro hr n hn
  rw [← hname] at hn
  have hnone : h'.l7.disposableCert = none := hforgets hr .sslCert
  rw [L7.disposableCert,if_pos (ha'.tlsName n hn)] at hnone
  have hl' : h'.l7.Settled := by
    unfold L7.Settled
    rw [hname,hold]
    exact hl
  rcases ha'.recorded n hn with hrec | hrec
  · rw [hnone] at hrec
    exact not_recorded_none n hrec
  · exact ha'.not_old hl' hn hrec

end Hop

namespace L7s
variable {G : SelfLinks} {w : L7s} {namer : Namer} {key : Str}

/-- The pool has no other load balancer than the one under `key`, and all its
certificates are accounted for. If the namer changes the key once more, nothing is
said of the certificates: the load balancer is then never found again. -/
structure OneAccounted (namer : Namer) (key : Str) (w : L7s) : Prop where
  namer_eq : w.namer = namer
  only : ∀ k lb, w.lookup k = some lb → k = key
  absent : namer.loadBalancer key = key → w.lookup key = none → w.cloud.CertsGone key
  present : namer.loadBalancer key = key → ∀ lb, w.lookup key = some lb →
    (w.heap lb).name = key ∧ CertsAccounted (w.heap lb) w.cloud

/-- The calls keep track of the certificates, a pre-shared certificate is taken up
only while none of the load balancer's own is recorded, and no load balancer is
deleted in the middle of a rotation. -/
def tracksCerts (name : Str) : Conditions where
  add w ri plan := ri.name = name ∧ plan.KeepsTrack ∧ (ri.tlsName ≠ [] → (w.startL7 ri).Settled ∧
    ∀ cert, (w.startL7 ri).sslCert = some cert → ¬Managed (w.startL7 ri).name cert.name)
  delete w name _ := ∀ lb, w.lookup (w.namer.loadBalancer (w.namer.loadBalancer name)) = some lb →
    (w.heap lb).Settled
  setUID _ _ := False

theorem startL7_accounted {name : Str} (hw : w.OneAccounted namer (namer.loadBalancer name))
    (hidem : namer.loadBalancer (namer.loadBalancer name) = namer.loadBalancer name) {ri : L7RuntimeInfo}
    {plan : Plan} (hri : (tracksCerts name).add w ri plan) :
    (w.startL7 ri).name = namer.loadBalancer name ∧ CertsAccounted (w.startL7 ri) w.cloud := by
  obtain ⟨rfl,-,hswitch⟩ := hri
  have hkey : w.namer.loadBalancer (w.namer.loadBalancer ri.name) = namer.loadBalancer ri.name := by
    rw [hw.namer_eq,hidem]
  unfold startL7 at hswitch ⊢
  rw [hkey] at hswitch ⊢
  cases hlb : w.lookup (namer.loadBalancer ri.name) with
  | none =>
    have hname : (w.newL7 ri).name = namer.loadBalancer ri.name := by rw [newL7,hw.namer_eq]
    exact ⟨hname,.of_gone (hname ▸ hw.absent hidem hlb)⟩
  | some lb =>
    rw [hlb] at hswitch
    obtain ⟨hname,ha⟩ := hw.present hidem lb hlb
    refine ⟨hname,?_⟩
    by_cases htls : ri.tlsName = []
    · exact ⟨ha.managed,fun _ _ => htls,ha.recorded,ha.unfinished⟩
    · obtain ⟨hsettled,hcert⟩ := hswitch htls
      have hgone : w.cloud.CertsGone (w.heap lb).name := by
        intro n hn
        rcases ha.recorded n hn with hrec | hrec
        · obtain ⟨cert,hc,rfl⟩ := Option.map_eq_some_iff.mp hrec
          exact hcert cert hc (ha.managed _ hn)
        · exact ha.not_old hsettled hn hrec
      exact .of_gone hgone

theorem add_oneAccounted {name : Str} (hw : w.OneAccounted namer (namer.loadBalancer name))
    {ri : L7RuntimeInfo} {plan : Plan} (hri : (tracksCerts name).add w ri plan) :
    Ensures (add G ri plan) w (fun _ w' => w'.OneAccounted namer (namer.loadBalancer name)) := by
  have hinsert : w.namer.loadBalancer ri.name = namer.loadBalancer name := by rw [hw.namer_eq,hri.1]
  rw [ensures_add]
  refine (edgeHop_spec G plan _).mono ?_
  intro r h hr
  have hlookup : (w.afterAdd ri h).lookup (namer.loadBalancer name) = some (w.slot ri) := by
    rw [← hinsert,lookup_afterAdd_self]
  refine ⟨hw.namer_eq,?_,?_,?_⟩
  · intro k lb hk
    by_cases hne : k = namer.loadBalancer name
    · exact hne
    · rw [lookup_afterAdd_of_ne (hinsert ▸ hne)] at hk
      exact hw.only k lb hk
  · intro _ hnone
    rw [hlookup] at hnone
    cases hnone
  · intro hidem lb hlb
    obtain rfl : w.slot ri = lb := Option.some.inj (hlookup.symm.trans hlb)
    obtain ⟨hname,ha⟩ := startL7_accounted hw hidem hri
    rw [heap_afterAdd_self]
    exact ⟨hr.name.trans hname,hr.preserves (preserved_accounted hri.2.1) ha⟩

theorem delete_oneAccounted {name : Str} {plan : Plan} (hw : w.OneAccounted namer key)
    (hsettled : ∀ lb, w.lookup (w.namer.loadBalancer (w.namer.loadBalancer name)) = some lb →
      (w.heap lb).Settled) :
    Ensures (delete name plan) w (fun r w' => w'.OneAccounted namer key ∧
      (r = .ok () → namer.loadBalancer (namer.loadBalancer name) = key ∧
        (namer.loadBalancer key = key → w'.cloud.CertsGone key))) := by
  refine ensures_delete (fun _ e => ⟨hw,by simp⟩) ?_
  intro lb hlb
  have hfound := hw.only _ lb hlb
  have hclean : Ensures (cleanup plan) { l7 := w.heap lb, cloud := w.cloud, log := w.log } (fun r h =>
      namer.loadBalancer key = key → h.l7.name = key ∧ CertsAccounted h.l7 h.cloud ∧
        (r = .ok () → h.cloud.CertsGone key)) := by
    by_cases hidem : namer.loadBalancer key = key
    · obtain ⟨hname,ha⟩ := hw.present hidem lb (hfound ▸ hlb)
      refine (cleanup_accounted ha (hsettled lb hlb)).mono ?_
      rintro r h ⟨hname',ha',hgone⟩ _
      exact ⟨hname'.trans hname,ha',fun hr => hname ▸ hgone hr⟩
    · exact fun hi => absurd hi hidem
  have hsame : ∀ lb', w.lookup key = some lb' → lb' = lb := fun lb' hlb' =>
    Option.some.inj (hlb'.symm.trans (hfound ▸ hlb))
  refine hclean.mono ?_
  intro r h hh
  rw [cloud_afterCleanup]
  refine ⟨⟨namer_afterCleanup.trans hw.namer_eq,fun k lb' hk => hw.only k lb' (afterCleanup_shrinks hk),?_,?_⟩,?_⟩
  · intro hidem hnone
    rw [cloud_afterCleanup]
    cases r with
    | error e => exact absurd (hnone.symm.trans (hfound ▸ hlb)) (by simp)
    | ok _ => exact (hh hidem).2.2 rfl
  · intro hidem lb' hlb'
    obtain rfl := hsame lb' (afterCleanup_shrinks hlb')
    rw [heap_afterCleanup_self,cloud_afterCleanup]
    exact ⟨(hh hidem).1,(hh hidem).2.1⟩
  · intro hr
    exact ⟨by rw [← hw.namer_eq]; exact hfound,fun hidem => (hh hidem).2.2 hr⟩

/-- In every run from the start of the process on one load balancer that tracks its
certificates, a deletion that returns without error leaves none of the certificates
the run has created for it. -/
theorem delete_leaves_no_created_cert (namer : Namer) (c : Cloud)
    (hc : ∀ n s, c .sslCertificate n = some s → s.createdFor = none) (name : Str) (ops : List Op)
    (hops : Runs.Along (step G) (fun w op => op.Meets G (tracksCerts name) w.reset) (start namer c) ops) :
    Runs.Along (step G) (fun w op => ∀ plan, op = .delete name plan → (run G op w.reset).1 = .ok () →
      (step G w op).cloud.CertsGone (namer.loadBalancer name)) (start namer c) ops := by
  refine Runs.Along.strengthen (I := OneAccounted namer (namer.loadBalancer name)) ?_ ?_ hops
  · intro w op hw hop
    have hreset : w.reset.OneAccounted namer (namer.loadBalancer name) :=
      ⟨hw.namer_eq,hw.only,hw.absent,hw.present⟩
    have hrun : Ensures (run G op) w.reset (fun _ w' => w'.OneAccounted namer (namer.loadBalancer name)) :=
      run_invariant (C := tracksCerts name) (fun _ _ _ hw hri => add_oneAccounted hw hri)
        (fun _ _ _ hw hsettled => (delete_oneAccounted hw hsettled).mono fun _ _ hd => hd.1)
        (fun _ _ _ huid => False.elim huid) (fun _ _ hw => ⟨hw.namer_eq,hw.only,hw.absent,hw.present⟩) hreset hop
    refine ⟨hrun,?_⟩
    rintro plan rfl hok
    have hdelete : Ensures (delete name plan) w.reset _ := delete_oneAccounted hreset hop
    obtain ⟨hidem,hgone⟩ := hdelete.2 hok
    exact hgone hidem
  · refine ⟨rfl,?_,?_,?_⟩
    · rintro k lb ⟨⟩
    · rintro - - n ⟨s,hs,hfor⟩
      rw [hc n s hs] at hfor
      cases hfor
    · rintro - lb ⟨⟩

section ModeChanges

def deleteTest : Op := .delete "default/test".toList .faultless

theorem userCloud_notCreated : ∀ n s, userCloud .sslCertificate n = some s → s.createdFor = none := by
  intro n s hs
  by_cases hn : n = "my-cert".toList
  · subst hn
    rw [userCloud,Cloud.set_self,Option.some.injEq] at hs
    rw [← hs]
  · rw [userCloud,Cloud.set_name_ne _ _ hn] at hs
    cases hs

theorem faultless_keepsTrack : Plan.faultless.KeepsTrack where
  certGet := rfl
  certInsert := by simp [Plan.Loses,Plan.Applies,Plan.faultless]

theorem settled_of_all {key : Str}
    (h : (w.lookup key).all (fun lb => (w.heap lb).oldSSLCert.isNone) = true) :
    ∀ lb, w.lookup key = some lb → (w.heap lb).Settled := by
  intro lb hlb old hold
  rw [hlb,Option.all_some,hold] at h
  cases h

/-- After a rotation the deletion removes the certificate in use, the other one being
gone already. -/
theorem rotated_delete_leaves_no_cert :
    (run SelfLinks.byCollection deleteTest
      (Runs.final (step SelfLinks.byCollection) testStart (twoSyncs secretA secretB)).reset).1 = .ok () ∧
    (step SelfLinks.byCollection (Runs.final (step SelfLinks.byCollection) testStart (twoSyncs secretA secretB))
      deleteTest).cloud.CertsGone "default-test--uid1".toList := by
  have hok : (run SelfLinks.byCollection deleteTest
      (Runs.final (step SelfLinks.byCollection) testStart (twoSyncs secretA secretB)).reset).1 = .ok () := by
    decide +kernel
  have hrun := delete_leaves_no_created_cert (G := SelfLinks.byCollection) (Namer.setUID "uid1".toList) userCloud
    userCloud_notCreated "default/test".toList (twoSyncs secretA secretB ++ [deleteTest])
    ⟨⟨⟨rfl,faultless_keepsTrack,fun htls => absurd rfl htls⟩,trivial⟩,
      ⟨⟨rfl,faultless_keepsTrack,fun htls => absurd rfl htls⟩,trivial⟩,settled_of_all (by decide +kernel),trivial⟩
  exact ⟨hok,hrun.at_end .faultless rfl hok⟩

/-- A certificate of the secret is forgotten when a pre-shared one is taken up, and
stays when the load balancer is deleted. -/
theorem preShared_delete_leaves_created_cert : ¬Runs.Along (step SelfLinks.byCollection)
    (fun w op => ∀ plan, op = .delete "default/test".toList plan →
      (run SelfLinks.byCollection op w.reset).1 = .ok () →
      (step SelfLinks.byCollection w op).cloud.CertsGone
        ((Namer.setUID "uid1".toList).loadBalancer "default/test".toList)) testStart
    (twoSyncs secretA preShared ++ [deleteTest]) := by
  intro hgone
  have hok : (run SelfLinks.byCollection deleteTest
      (Runs.final (step SelfLinks.byCollection) testStart (twoSyncs secretA preShared)).reset).1 = .ok () := by
    decide +kernel
  have hleft : ((step SelfLinks.byCollection (Runs.final (step SelfLinks.byCollection) testStart
      (twoSyncs secretA preShared)) deleteTest).cloud .sslCertificate
        (Namer.sslCert "default-test--uid1".toList true)).map Stored.createdFor =
      some (some ((Namer.setUID "uid1".toList).loadBalancer "default/test".toList)) := by decide +kernel
  obtain ⟨s,hs,hfor⟩ := Option.map_eq_some_iff.mp hleft
  exact hgone.at_end .faultless rfl hok _ ⟨s,hs,hfor⟩

end ModeChanges

end L7s

end IngressGce
