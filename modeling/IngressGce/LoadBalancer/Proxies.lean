import IngressGce.LoadBalancer.Manages

/-! # The url map and the target proxies

What the checks of the url map and of the two target proxies leave behind,
whether they succeed or not. The fields `ok` describe success.
-/
namespace IngressGce
open Prog
variable (G : SelfLinks) (plan : Plan)

section UrlMap

abbrev urlMapSites : List Site := [.urlMapGet,.urlMapCreate,.urlMapReadBack]

structure UrlMapPost (h : Hop) (r : Except Failure Unit) (h' : Hop) : Prop where
  manages : Manages .urlMap (Namer.urlMap h.l7.name)
    (plan.Loses .urlMapCreate .urlMapReadBack ∨ Recorded h'.l7.um (Namer.urlMap h.l7.name))
    (Event.At urlMapSites) h h'
  l7 : h'.l7 = { h.l7 with um := h'.l7.um }
  named : h'.l7.um = h.l7.um ∨ Recorded h'.l7.um (Namer.urlMap h.l7.name)
  ok : r = .ok () → ∃ s, h'.cloud .urlMap (Namer.urlMap h.l7.name) = some s ∧
    h'.l7.um = some (s.view G (Namer.urlMap h.l7.name))

theorem checkUrlMap_spec (h : Hop) : Ensures (checkUrlMap G plan) h (UrlMapPost G plan h) := by
  have hlog : h.LogOnly (Event.At urlMapSites)
      (h.called .urlMapGet .urlMap (Namer.urlMap h.l7.name)) :=
    (Hop.LogOnly.refl _ h).called (by simp [Event.At])
  simp only [checkUrlMap,ensures_bind,ensures_this,afterwards_ok]
  cases hb : h.l7.glbcDefaultBackend with
  | none =>
    rw [ensures_returnError]
    exact ⟨.of_same rfl (.refl _ h),rfl,Or.inl rfl,by simp⟩
  | some backend =>
    simp only [ensures_bind,getUrlMap,ensures_lookup,afterwards_ok]
    cases hs : plan.seen G .urlMapGet .urlMap (Namer.urlMap h.l7.name) h.cloud with
    | some um =>
      obtain ⟨s,hc,rfl⟩ := seen_eq_some G plan hs
      rw [ensures_setL7]
      exact ⟨.of_same rfl hlog,rfl,Or.inr (by simp [Stored.view]),fun _ => ⟨s,hc,rfl⟩⟩
    | none =>
      simp only [createUrlMap,ensures_bind]
      refine create_manages G plan ?_ ?_
      · intro e h' hl7 hm
        exact ⟨hm.after hlog rfl rfl Or.inl (by simp),by rw [hl7]; rfl,Or.inl (by rw [hl7]; rfl),by simp⟩
      · intro s h' _ hs hl7 hc hl
        have hl' := hlog.trans (hl.mono fun e he => he.mono (by simp))
        rw [afterwards_ok,ensures_setL7]
        refine ⟨.of_create hs.createdFor_eq (Or.inr (by simp [Stored.view])) hc hl',by rw [hl7]; rfl,
          Or.inr (by simp [Stored.view]),?_⟩
        intro _
        exact ⟨s,by rw [hc]; exact Cloud.set_self _ _ _ _,rfl⟩

end UrlMap

section Proxy

abbrev proxySites : List Site := [.proxyGet,.proxyCreate,.proxyReadBack,.proxySetUrlMap]

structure ProxyPost (h : Hop) (r : Except Failure Unit) (h' : Hop) : Prop where
  manages : Manages .targetHttpProxy (Namer.targetProxy h.l7.name .http)
    (plan.Loses .proxyCreate .proxyReadBack ∨ Recorded h'.l7.tp (Namer.targetProxy h.l7.name .http))
    (Event.At proxySites) h h'
  l7 : h'.l7 = { h.l7 with tp := h'.l7.tp }
  named : h'.l7.tp = h.l7.tp ∨ Recorded h'.l7.tp (Namer.targetProxy h.l7.name .http)
  ok : r = .ok () → ∃ um s tp, h.l7.um = some um ∧
    h'.cloud .targetHttpProxy (Namer.targetProxy h.l7.name .http) = some s ∧
    s.body.urlMap = um.selfLink ∧ h'.l7.tp = some tp ∧
    tp.selfLink = G.link .targetHttpProxy (Namer.targetProxy h.l7.name .http)

theorem checkProxy_spec (h : Hop) : Ensures (checkProxy G plan) h (ProxyPost G plan h) := by
  have hlog : h.LogOnly (Event.At proxySites)
      (h.called .proxyGet .targetHttpProxy (Namer.targetProxy h.l7.name .http)) :=
    (Hop.LogOnly.refl _ h).called (by simp [Event.At])
  simp only [checkProxy,ensures_bind,ensures_this,afterwards_ok]
  cases hum : h.l7.um with
  | none =>
    rw [ensures_returnError]
    exact ⟨.of_same rfl (.refl _ h),rfl,Or.inl rfl,by simp⟩
  | some um =>
    simp only [ensures_bind,getTargetHttpProxy,ensures_lookup,afterwards_ok]
    cases hs : plan.seen G .proxyGet .targetHttpProxy (Namer.targetProxy h.l7.name .http) h.cloud with
    | none =>
      simp only [createTargetHttpProxy,ensures_bind]
      refine create_manages G plan ?_ ?_
      · intro e h' hl7 hm
        exact ⟨hm.after hlog rfl rfl Or.inl (by simp),by rw [hl7]; rfl,Or.inl (by rw [hl7]; rfl),by simp⟩
      · intro s h' _ hs hl7 hc hl
        have hl' := hlog.trans (hl.mono fun e he => he.mono (by simp))
        rw [afterwards_ok,ensures_setL7]
        refine ⟨.of_create hs.createdFor_eq (Or.inr (by simp [Stored.view])) hc hl',by rw [hl7]; rfl,
          Or.inr (by simp [Stored.view]),?_⟩
        intro _
        exact ⟨um,s,_,hum,by rw [hc]; exact Cloud.set_self _ _ _ _,by rw [hs.body_eq]; rfl,rfl,rfl⟩
    | some proxy =>
      obtain ⟨s,hc,rfl⟩ := seen_eq_some G plan hs
      rw [ensures_bind,setUrlMapForTargetHttpProxy]
      refine Ensures.mono (relink_spec plan (fun b : TargetHttpProxyBody => b.urlMap = um.selfLink) hc
        id ?_) ?_
      · rfl
      rintro r h' ⟨hl7,hm,s',hs',-,-,hgood⟩
      cases r with
      | error e => exact ⟨hm.after hlog rfl rfl False.elim (by simp),by rw [hl7]; rfl,Or.inl (by rw [hl7]; rfl),by simp⟩
      | ok _ =>
        rw [afterwards_ok,ensures_setL7]
        refine ⟨?_,by rw [hl7]; rfl,Or.inr (by simp [Stored.view]),?_⟩
        · exact (hm.after hlog rfl rfl False.elim (by simp)).record rfl rfl
        · intro _
          exact ⟨um,s',_,hum,hs',hgood rfl,rfl,rfl⟩

end Proxy

section HttpsProxy

abbrev httpsProxySites : List Site :=
  [.httpsProxyGet,.httpsProxyCreate,.httpsProxyReadBack,.httpsProxySetUrlMap,.httpsProxySetCert]

structure HttpsProxyPost (h : Hop) (r : Except Failure Unit) (h' : Hop) : Prop where
  manages : Manages .targetHttpsProxy (Namer.targetProxy h.l7.name .https)
    (plan.Loses .httpsProxyCreate .httpsProxyReadBack ∨
      Recorded h'.l7.tps (Namer.targetProxy h.l7.name .https))
    (Event.At httpsProxySites) h h'
  l7 : h'.l7 = { h.l7 with tps := h'.l7.tps }
  named : h'.l7.tps = h.l7.tps ∨ Recorded h'.l7.tps (Namer.targetProxy h.l7.name .https)
  links : ∀ s', h'.cloud .targetHttpsProxy (Namer.targetProxy h.l7.name .https) = some s' →
    (∃ s, h.cloud .targetHttpsProxy (Namer.targetProxy h.l7.name .https) = some s ∧
      s'.body.sslCertificates = s.body.sslCertificates) ∨
    (∃ cert, h.l7.sslCert = some cert ∧ s'.body.sslCertificates = [cert.selfLink])
  ok : r = .ok () → ∀ cert, h.l7.sslCert = some cert → ∃ um s tps, h.l7.um = some um ∧
    h'.cloud .targetHttpsProxy (Namer.targetProxy h.l7.name .https) = some s ∧
    s.body.urlMap = um.selfLink ∧ s.body.sslCertificates.head? = some cert.selfLink ∧
    h'.l7.tps = some tps ∧ tps.selfLink = G.link .targetHttpsProxy (Namer.targetProxy h.l7.name .https)

section Branches
variable {G plan} {h h' : Hop} {cert : SslCertificate} {um : UrlMap}

/-- A check that stops without recording a proxy leaves a proxy that was there with the
certificates it had, or with the recorded one. -/
theorem HttpsProxyPost.stopped {e : Failure} {s s' : Stored .targetHttpsProxy}
    (hm : Manages .targetHttpsProxy (Namer.targetProxy h.l7.name .https) False (Event.At httpsProxySites) h h')
    (hl7 : h'.l7 = h.l7) (hs : h.cloud .targetHttpsProxy (Namer.targetProxy h.l7.name .https) = some s)
    (hs' : h'.cloud .targetHttpsProxy (Namer.targetProxy h.l7.name .https) = some s')
    (hlinks : s'.body.sslCertificates = s.body.sslCertificates ∨
      ∃ cert, h.l7.sslCert = some cert ∧ s'.body.sslCertificates = [cert.selfLink]) :
    HttpsProxyPost G plan h (.error e) h' where
  manages := hm.mono False.elim fun _ he => he
  l7 := by rw [hl7]
  named := Or.inl (by rw [hl7])
  links t ht := by
    obtain rfl : s' = t := Option.some.inj (hs'.symm.trans ht)
    exact hlinks.imp_left fun heq => ⟨s,hs,heq⟩
  ok := by simp

/-- The part of `checkHttpsProxy` that creates the proxy. -/
theorem createHttpsProxy_post (hcert : h.l7.sslCert = some cert) (hum : h.l7.um = some um)
    (hlog : h.LogOnly (Event.At httpsProxySites) h') (hl7 : h'.l7 = h.l7) (hc : h'.cloud = h.cloud) :
    Ensures (do
      let proxy ← createTargetHttpsProxy G plan (Namer.targetProxy h.l7.name .https)
        { urlMap := um.selfLink, sslCertificates := [cert.selfLink] }
      setL7 (fun l => { l with tps := some proxy })) h' (HttpsProxyPost G plan h) := by
  rw [ensures_bind,createTargetHttpsProxy]
  refine ensures_create G plan ?_ ?_ ?_
  · intro e h₁ hl7₁ hc₁ hl
    have hl' := hlog.trans (hl.mono fun e he => he.mono (by simp))
    exact ⟨.of_same (hc₁.trans hc) hl',by rw [hl7₁,hl7],Or.inl (by rw [hl7₁,hl7]),
      fun s' hs' => Or.inl ⟨s',by rw [← hc,← hc₁,hs'],rfl⟩,by simp⟩
  · intro e s h₁ _ hlost hs hl7₁ hc₁ hl
    have hl' := hlog.trans (hl.mono fun e he => he.mono (by simp))
    rw [hl7] at hs
    rw [hc] at hc₁
    refine ⟨.of_create hs.createdFor_eq (Or.inl hlost) hc₁ hl',by rw [hl7₁,hl7],Or.inl (by rw [hl7₁,hl7]),?_,by simp⟩
    intro s' hs'
    rw [hc₁,Cloud.set_self,Option.some.injEq] at hs'
    exact Or.inr ⟨cert,hcert,by rw [← hs',hs.body_eq]; rfl⟩
  · intro s h₁ _ hs hl7₁ hc₁ hl
    have hl' := hlog.trans (hl.mono fun e he => he.mono (by simp))
    rw [hl7] at hs
    rw [hc] at hc₁
    rw [afterwards_ok,ensures_setL7]
    refine ⟨.of_create hs.createdFor_eq (Or.inr (by simp [Stored.view])) hc₁ hl',by rw [hl7₁,hl7],
      Or.inr (by simp [Stored.view]),?_,?_⟩
    · intro s' hs'
      rw [hc₁,Cloud.set_self,Option.some.injEq] at hs'
      exact Or.inr ⟨cert,hcert,by rw [← hs',hs.body_eq]; rfl⟩
    · intro _ c hc'
      obtain rfl : cert = c := Option.some.inj (hcert.symm.trans hc')
      exact ⟨um,s,_,hum,by rw [hc₁]; exact Cloud.set_self _ _ _ _,by rw [hs.body_eq]; rfl,
        by rw [hs.body_eq]; rfl,rfl,rfl⟩

/-- The part of `checkHttpsProxy` that corrects the certificate of a proxy found with
`link` as its first one, once its url map is right. -/
theorem relinkHttpsProxy_post (hcert : h.l7.sslCert = some cert) (hum : h.l7.um = some um)
    {s s₁ : Stored .targetHttpsProxy} {link : Str} {rest : List Str} {o : TargetHttpsProxy}
    (hs : h.cloud .targetHttpsProxy (Namer.targetProxy h.l7.name .https) = some s)
    (hlist : s.body.sslCertificates = link :: rest)
    (hm : Manages .targetHttpsProxy (Namer.targetProxy h.l7.name .https) False (Event.At httpsProxySites) h h')
    (hl7 : h'.l7 = h.l7) (hs₁ : h'.cloud .targetHttpsProxy (Namer.targetProxy h.l7.name .https) = some s₁)
    (hcerts : s₁.body.sslCertificates = s.body.sslCertificates) (hurl : s₁.body.urlMap = um.selfLink)
    (ho : o.name = Namer.targetProxy h.l7.name .https)
    (hself : o.selfLink = G.link .targetHttpsProxy (Namer.targetProxy h.l7.name .https)) :
    Ensures (do
      onlyIf (!compareLinks link cert.selfLink) (setSslCertificateForTargetHttpsProxy plan o cert)
      setL7 (fun l => { l with tps := some o })) h' (HttpsProxyPost G plan h) := by
  rw [ensures_bind,setSslCertificateForTargetHttpsProxy,ho]
  refine Ensures.mono (relink_spec plan (fun b : TargetHttpsProxyBody =>
    b.urlMap = um.selfLink ∧ b.sslCertificates.head? = some cert.selfLink) hs₁ ?_ ?_) ?_
  · intro heq
    exact ⟨hurl,by rw [hcerts,hlist,heq]; rfl⟩
  · exact ⟨hurl,rfl⟩
  rintro r h₂ ⟨hl7',hm',s₂,hs₂,-,hbody,hgood⟩
  have hm₂ : Manages _ _ False (Event.At httpsProxySites) h h₂ :=
    hm.trans (by rw [hl7]) (hm'.mono id fun _ he => he.mono (by simp))
  have hl7₂ : h₂.l7 = h.l7 := hl7'.trans hl7
  have hlinks : s₂.body.sslCertificates = s.body.sslCertificates ∨
      ∃ cert, h.l7.sslCert = some cert ∧ s₂.body.sslCertificates = [cert.selfLink] := by
    rcases hbody with hbody | hbody
    · exact Or.inl (by rw [hbody,hcerts])
    · exact Or.inr ⟨cert,hcert,by rw [hbody]⟩
  cases r with
  | error e => exact .stopped hm₂ hl7₂ hs hs₂ hlinks
  | ok _ =>
    rw [afterwards_ok,ensures_setL7]
    refine ⟨(hm₂.mono False.elim fun _ he => he).record rfl rfl,by rw [hl7₂],Or.inr (by simp [ho]),?_,?_⟩
    · intro t ht
      obtain rfl : s₂ = t := Option.some.inj (hs₂.symm.trans ht)
      exact hlinks.imp_left fun heq => ⟨s,hs,heq⟩
    · intro _ c hc'
      obtain rfl : cert = c := Option.some.inj (hcert.symm.trans hc')
      exact ⟨um,s₂,o,hum,hs₂,(hgood rfl).1,(hgood rfl).2,rfl,hself⟩

end Branches

theorem checkHttpsProxy_spec (h : Hop) : Ensures (checkHttpsProxy G plan) h (HttpsProxyPost G plan h) := by
  have hlog : h.LogOnly (Event.At httpsProxySites)
      (h.called .httpsProxyGet .targetHttpsProxy (Namer.targetProxy h.l7.name .https)) :=
    (Hop.LogOnly.refl _ h).called (by simp [Event.At])
  simp only [checkHttpsProxy,ensures_bind,ensures_this,afterwards_ok]
  cases hcert : h.l7.sslCert with
  | none =>
    rw [ensures_pure]
    exact ⟨.of_same rfl (.refl _ h),rfl,Or.inl rfl,fun s' hs' => Or.inl ⟨s',hs',rfl⟩,by simp [hcert]⟩
  | some cert =>
    cases hum : h.l7.um with
    | none =>
      rw [ensures_returnError]
      exact ⟨.of_same rfl (.refl _ h),rfl,Or.inl rfl,fun s' hs' => Or.inl ⟨s',hs',rfl⟩,by simp⟩
    | some um =>
      simp only [ensures_bind,getTargetHttpsProxy,ensures_lookup,afterwards_ok]
      cases hs : plan.seen G .httpsProxyGet .targetHttpsProxy (Namer.targetProxy h.l7.name .https)
        h.cloud with
      | none => exact createHttpsProxy_post hcert hum hlog rfl rfl
      | some proxy =>
        obtain ⟨s,hc,rfl⟩ := seen_eq_some G plan hs
        rw [ensures_bind,setUrlMapForTargetHttpsProxy]
        refine Ensures.mono (relink_spec plan (fun b : TargetHttpsProxyBody =>
          b.urlMap = um.selfLink) hc id ?_) ?_
        · rfl
        rintro r h₁ ⟨hl7,hm,s₁,hs₁,-,hbody,hgood⟩
        have hcerts : s₁.body.sslCertificates = s.body.sslCertificates := by
          rcases hbody with hbody | hbody <;> rw [hbody]
        have hm₁ : Manages _ _ False (Event.At httpsProxySites) h h₁ :=
          hm.after hlog rfl rfl id (by simp)
        cases r with
        | error e => exact .stopped hm₁ hl7 hc hs₁ (Or.inl hcerts)
        | ok _ =>
          simp only [afterwards_ok,Stored.view]
          cases hlist : s.body.sslCertificates with
          | nil =>
            rw [ensures_fail]
            exact .stopped hm₁ hl7 hc hs₁ (Or.inl hcerts)
          | cons link rest =>
            exact relinkHttpsProxy_post hcert hum hc hlist hm₁ hl7 hs₁ hcerts (hgood rfl) rfl rfl

end HttpsProxy

end IngressGce
