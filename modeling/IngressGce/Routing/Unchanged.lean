import IngressGce.Routing.Update

/-! # When an unchanged url map is written again

The comparison with the map in the cloud is position by position, while the positions
come from the orders in which the two calls visit the rule map. A second call with the
same rules leaves the cloud alone exactly if it visits them in the order of the first.
-/
namespace IngressGce.Routing
open Prog
variable {β : Type} {md5 : Str → Str} {selfLink : β → Str}

theorem zipWith_map_of_leftInverse {α ρ ρ' : Type} {F : ρ → ρ' → α} {a : α → ρ} {b : α → ρ'} (h : ∀ x, F (a x) (b x) = x)
    (xs : List α) : List.zipWith F (xs.map a) (xs.map b) = xs := by
  induction xs with
  | nil => rfl
  | cons x rest ih => rw [List.map_cons,List.map_cons,List.zipWith_cons_cons,h,ih]

def visitOf (hr : HostRule) (pm : PathMatcher) : Str × List Str :=
  (hr.hosts.headD [],pm.pathRules.map (fun pr => pr.paths.headD []))

theorem visitOf_built (md5 : Str → Str) (defaultService : Str) (link : Str → Str → Str) (visit : Str × List Str) :
    visitOf (hostRule md5 visit.1) (matcherOf md5 defaultService link visit) = visit := by
  simp [visitOf,hostRule,matcherOf,Function.comp_def]

/-- Two maps made from the same rules are equal to the comparison exactly if the rules
have been visited in the same order. -/
theorem mapsEqual_render_iff {o₁ o₂ : Orders β} {rules₁ rules₂ : GCEURLMap β} {um₁ um₂ um₁' um₂' : UrlMap} {link : Str}
    (hsame : rules₁.meaning = rules₂.meaning) (h₁ : render md5 selfLink o₁ um₁ rules₁ link = some um₁')
    (h₂ : render md5 selfLink o₂ um₂ rules₂ link = some um₂') :
    mapsEqual um₁' um₂' = true ↔ visited o₁ rules₁ = visited o₂ rules₂ := by
  rw [mapsEqual_iff,render_eq h₁,render_eq h₂,hsame]
  constructor
  · rintro ⟨_,hhosts,hmatchers⟩
    have hvisit := visitOf_built md5 link (linkAt selfLink rules₂.meaning)
    calc visited o₁ rules₁ = _ := (zipWith_map_of_leftInverse hvisit _).symm
      _ = _ := congrArg₂ (List.zipWith visitOf) hhosts hmatchers
      _ = visited o₂ rules₂ := zipWith_map_of_leftInverse hvisit _
  · intro hvisited
    rw [hvisited]
    exact ⟨rfl,rfl,rfl⟩

/-- Between two calls nobody has changed the url map, and the load balancer is the same. -/
structure Undisturbed (w w' : Balancer β) : Prop where
  map : ∀ um, w.um = some um → (∃ um', w'.um = some um' ∧ um'.name = um.name) ∧
    w'.cloud.items um.name = w.cloud.items um.name
  default : w'.glbcDefaultBackend = w.glbcDefaultBackend

/-- A second call with the same rules does not write to the cloud exactly if its read of
the url map is served and it visits the hosts and their paths in the order of the first. -/
theorem updateUrlMap_unwritten_iff {o₁ o₂ : Orders β} {g₁ g₂ : GCEURLMap β} {w w₁ w₂ w₃ : Balancer β}
    {r : Except Failure Unit} (hsame : g₁.meaning = g₂.meaning)
    (h₁ : updateUrlMap md5 selfLink o₁ g₁ w = (.ok (),w₁)) (hbetween : Undisturbed w₁ w₂)
    (h₂ : updateUrlMap md5 selfLink o₂ g₂ w₂ = (r,w₃)) :
    w₃.updates = w₂.updates ↔ w₂.cloud.faults w₂.cloud.clock = none ∧
      visited o₁ g₁.getDefaultBackend.2 = visited o₂ g₂.getDefaultBackend.2 := by
  have hfirst := updateUrlMap_ok md5 selfLink o₁ g₁ w
  unfold Ensures at hfirst
  rw [h₁] at hfirst
  obtain ⟨um,um₁,m,link,_,hdefault₁,hlink,hrender₁,⟨m₁,hm₁,hname₁⟩,hm,heq⟩ := hfirst rfl
  obtain ⟨⟨um₂,hum₂,hname₂⟩,hitem⟩ := hbetween.map m₁ hm₁
  have hrules : g₁.getDefaultBackend.2.meaning = g₂.getDefaultBackend.2.meaning := by
    funext host
    rw [GCEURLMap.meaning_getDefaultBackend,GCEURLMap.meaning_getDefaultBackend,hsame]
  have hlink₂ : defaultLink selfLink g₂.getDefaultBackend.1 w₂.glbcDefaultBackend = some link := by
    rw [hbetween.default,hdefault₁,GCEURLMap.getDefaultBackend_fst,← hsame,← GCEURLMap.getDefaultBackend_fst]
    exact hlink
  have hnil := (render_returns_iff um).mp ⟨um₁,hrender₁⟩
  rw [hrules] at hnil
  have hsecond : Ensures (updateUrlMap md5 selfLink o₂ g₂) w₂ (fun _ w' => w'.updates = w₂.updates ↔
      w₂.cloud.faults w₂.cloud.clock = none ∧
        visited o₁ g₁.getDefaultBackend.2 = visited o₂ g₂.getDefaultBackend.2) := by
    rw [updateUrlMap,ensures_bind]
    refine Ensures.mono (buildUrlMap_returns md5 o₂ hum₂ hlink₂ hnil) ?_
    rintro _ w' ⟨um₂',rfl,hrender₂,rfl⟩
    have hname : um₂'.name = um₁.name := by rw [render_eq hrender₂,hname₂,hname₁]
    have hitem₂ : w₂.cloud.items um₂'.name = some m := by rw [hname,← hname₁,hitem,hname₁,hm]
    have hmaps : mapsEqual m um₂' = true ↔ mapsEqual um₁ um₂' = true := by
      obtain ⟨hd,hh,hp⟩ := (mapsEqual_iff m um₁).mp heq
      rw [mapsEqual_iff,mapsEqual_iff,hd,hh,hp]
    rw [afterwards_ok]
    refine (pushUrlMap_ensures um₂').mono ?_
    intro r w' hpushed
    rw [hpushed.updates,← mapsEqual_render_iff hrules hrender₁ hrender₂,← hmaps]
    change (∃ old, w₂.cloud.items um₂'.name = some old ∧ w₂.cloud.faults w₂.cloud.clock = none ∧ _) ↔ _
    rw [hitem₂]
    simp
  unfold Ensures at hsecond
  rw [h₂] at hsecond
  exact hsecond

def twoHosts : GCEURLMap Str :=
  (AList.singleton "foo.example.com".toList (AList.singleton "/foo1".toList (some "foo1svc".toList))).insert
    "bar.example.com".toList (AList.singleton "/bar1".toList (some "bar1svc".toList))

def inOrder : Orders Str := { hosts := .inOrder, paths := fun _ => .inOrder }

def hostsBackwards : Orders Str := { hosts := .backwards, paths := fun _ => .inOrder }

def newBalancer : Balancer Str :=
  let um : UrlMap := { name := "test".toList, defaultService := "default".toList, hostRules := [], pathMatchers := [] }
  { um := some um
    glbcDefaultBackend := some "default".toList
    cloud := { items := fun name => if name = um.name then some um else none, faults := fun _ => none, clock := 0 }
    updates := [] }

def afterTwoHosts : Balancer Str := (updateUrlMap id id inOrder twoHosts newBalancer).2

theorem afterTwoHosts_ok : (updateUrlMap id id inOrder twoHosts newBalancer).1 = .ok () := by decide +kernel

/-- The same order again: the cloud is not written. -/
theorem updateUrlMap_unwritten_twoHosts :
    (updateUrlMap id id inOrder twoHosts newBalancer).1 = .ok () ∧
    (updateUrlMap id id inOrder twoHosts afterTwoHosts).2.updates = afterTwoHosts.updates :=
  ⟨afterTwoHosts_ok,(updateUrlMap_unwritten_iff rfl (Prod.ext afterTwoHosts_ok rfl)
    ⟨fun um h => ⟨⟨um,h,rfl⟩,rfl⟩,rfl⟩ rfl).mpr ⟨by decide +kernel,rfl⟩⟩

/-- The same rules in another order: no call fails, and the cloud is written. -/
theorem updateUrlMap_rewrites_twoHosts :
    (updateUrlMap id id inOrder twoHosts newBalancer).1 = .ok () ∧
    (updateUrlMap id id hostsBackwards twoHosts afterTwoHosts).1 = .ok () ∧ afterTwoHosts.updates.length = 1 ∧
    (updateUrlMap id id hostsBackwards twoHosts afterTwoHosts).2.updates.length = 2 := by
  decide +kernel

end IngressGce.Routing
