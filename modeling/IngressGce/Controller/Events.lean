import IngressGce.Controller.Informers
import IngressGce.Controller.Reports
import IngressGce.Controller.TaskQueue
import IngressGce.Program.Loop

/-! # The url maps follow the stores

The handlers put the keys of Ingresses into a queue: when an Ingress changes its own key,
when a Service changes those of the Ingresses that refer to it at the time the change is
handled. A sync reads the Ingress and then, while it translates it, one Service after the
other. Meanwhile the stores change. A sync may fail at any point, even after it has put
the url map. The deletion of a Service is not handled at all.
-/
namespace IngressGce
open Kube NEG Prog

/-- The Services that the stores have. -/
def Stores.svcLister (w : Stores) (key : Str) : Option Service := (w.services key).map (fun svc => svc.service)

namespace Kube.Ingress
variable (ing : Ingress)

/-- The references to Services, in the order in which the translation goes through them. -/
def references : List IngressBackend :=
  ing.rules.flatMap (fun rule => rule.paths.map HTTPIngressPath.backend) ++ ing.backend.toList

/-- The key under which the translation looks up the Service of a reference. -/
def serviceKey (be : IngressBackend) : Str := metaNamespaceKey ing.namespaced be.serviceName

theorem mem_references {ing : Ingress} {be : IngressBackend} : be ∈ ing.references ↔ be ∈ ing.backends := by
  unfold references backends
  rw [List.mem_append,List.mem_append]
  exact or_comm

end Kube.Ingress

/-! ## The url map that a sync puts -/

namespace LoadBalancerController
variable {σ L β : Type} (lbc : LoadBalancerController σ L β)

/-- The part of `updateL7` that ends with the url map, which it returns. -/
def putUrlMap (earlier : Option SyncError) (key : Str) (ing : Ingress) : Prog (Journal σ) SyncError (GCEURLMap β) := do
  let l7 ← mapFailure (.getL7 earlier) (Journal.run .getL7 (lbc.manager.getL7 key))
  let urlMap ← mapFailure (.toURLMap earlier) (Journal.run .toURLMap (lbc.translator.toURLMap ing))
  mapFailure (.updateUrlMap earlier) (Journal.run .updateUrlMap (lbc.updateUrlMap l7 urlMap))
  pure urlMap

def linkAndPut (key : Str) (ing : Ingress) (result : Checkpoint) : Prog (Journal σ) SyncError (GCEURLMap β) := do
  lbc.linkPorts ing
  lbc.putUrlMap (afterCheckpoint true result.err) key ing

/-- The part of a sync of an Ingress that ends with its url map. -/
def syncUrlMap (store : IngressStore) (key : Str) (ing : Ingress) : Prog (Journal σ) SyncError (GCEURLMap β) :=
  if lbc.hasSynced then
    match lbc.getReadyNodeNames with
    | .error e => fail (.returned e)
    | .ok nodeNames => do
      let result ← onPart Journal.world (fun s j => { j with world := s }) (lbc.makeCheckpoint store nodeNames)
      Journal.note (.checkpoint result)
      lbc.linkAndPut key ing result
  else fail .storesNotSynced

theorem updateL7_puts {earlier : Option SyncError} {key : Str} {ing : Ingress} {j : Journal σ}
    (h : Returns (lbc.updateL7 earlier key ing) j (fun _ _ => True)) :
    Returns (lbc.putUrlMap earlier key ing) j (fun _ _ => True) := by
  unfold updateL7 at h
  unfold putUrlMap
  rw [returns_bind] at h ⊢
  refine h.mono fun l7 j₁ h => ?_
  rw [returns_bind] at h ⊢
  refine h.mono fun urlMap j₂ h => ?_
  rw [returns_bind] at h ⊢
  exact h.mono fun _ j₃ _ => (returns_pure urlMap j₃ _).mpr trivial

theorem syncIngress_puts {store : IngressStore} {key : Str} {ing : Ingress} (hing : store.getByKey key = some ing)
    (hsingle : ing.isGCEMultiClusterIngress = false) (result : Checkpoint) (j : Journal σ) :
    Returns (lbc.syncIngress store key result) j (fun exit _ =>
      exit.err = none → Returns (lbc.linkAndPut key ing result) j (fun _ _ => True)) := by
  unfold syncIngress linkAndPut
  simp only [hing,hsingle,Bool.false_eq_true,if_false,returns_bind,returns_attempt,Option.isSome_some]
  refine (ensures_run _ _).mono fun r j₁ hlink => ?_
  cases r with
  | error e => exact (returns_pure _ _ _).mpr fun h => by cases h
  | ok _ =>
    dsimp only
    rw [returns_bind,returns_attempt]
    refine (ensures_run _ _).mono fun r j₂ hupdate => ?_
    cases r with
    | error e => exact (returns_pure _ _ _).mpr fun h => by cases h
    | ok _ =>
      refine (returns_pure _ _ _).mpr fun _ => (ensures_of_eq hlink _).mpr ⟨_,rfl,?_⟩
      exact lbc.updateL7_puts ((ensures_of_eq hupdate _).mpr ⟨_,rfl,trivial⟩)

/-- A sync that returns no error has put the url map of its Ingress. -/
theorem sync_puts {store : IngressStore} {key : Str} {ing : Ingress} (hing : store.getByKey key = some ing)
    (hsingle : ing.isGCEMultiClusterIngress = false) (s : σ) :
    Ensures (lbc.sync store key) (Journal.start s) (fun r _ =>
      r = .ok () → Returns (lbc.syncUrlMap store key ing) (Journal.start s) (fun _ _ => True)) := by
  refine lbc.ensures_sync_ok ?_
  intro hsynced nodeNames result s₁ hnodes hcheckpoint
  refine Ensures.mono (lbc.syncIngress_puts hing hsingle result _) ?_
  rintro r j ⟨_,rfl,hputs⟩ exit ⟨⟩ hnone
  refine (ensures_run _ j).mono fun _ _ _ => ?_
  have hworld : (Journal.start s).world = s := rfl
  unfold syncUrlMap
  rw [if_pos hsynced,hnodes]
  dsimp only
  unfold Returns
  rw [ensures_bind,ensures_onPart,hworld,ensures_of_eq hcheckpoint,afterwards_ok,ensures_bind,Journal.ensures_note]
  exact hputs hnone

end LoadBalancerController

/-! ## The controller while it runs -/

/-- What a sync has read: the Ingresses, and what it has found for the references of its own
Ingress. -/
structure Seen where
  store : IngressStore
  found : List (Option Service)

namespace Seen

def nothing : Seen := ⟨⟨[],List.nodup_nil⟩,[]⟩

/-- What has been found under a key of a Service. -/
def answers (seen : Seen) (ing : Ingress) (svcKey : Str) : List (Option Service) :=
  ((ing.references.zip seen.found).filter (fun p => ing.serviceKey p.1 = svcKey)).map Prod.snd

/-- A sync has one answer for a Service. If two lookups have found different ones then which
answer it is is left open. -/
def svcLister (seen : Seen) (ing : Ingress) (otherwise : Str → Option Service) (svcKey : Str) : Option Service :=
  match (seen.answers ing svcKey).dedup with
  | [answer] => answer
  | _ => otherwise svcKey

end Seen

/-- The lookups of the translation that are still to be made. -/
def readServices (store : IngressStore) (ing : Ingress) :
    List IngressBackend → List (Option Service) → Reading Stores Seen
  | [],found => .done ⟨store,found⟩
  | be :: rest,found => .read fun w => readServices store ing rest (found ++ [w.svcLister (ing.serviceKey be)])

/-- What a sync reads for the url map of its key, if it is to put one. -/
def syncReading (key : Str) : Reading Stores Seen :=
  .read fun w =>
    match w.ingresses.getByKey key with
    | none => .done ⟨w.ingresses,[]⟩
    | some ing =>
      if ing.isGCEMultiClusterIngress then .done ⟨w.ingresses,[]⟩ else readServices w.ingresses ing ing.references []

/-- A sync: what it has read, how else the cluster and the cloud answer, and the state it
starts from. -/
structure SyncRun (σ L β : Type) where
  seen : Seen
  lbc : LoadBalancerController σ L β
  world : σ

namespace SyncRun
variable {σ L β : Type} (r : SyncRun σ L β) (key : Str)

/-- The Services that the sync finds. -/
def svcLister : Str → Option Service :=
  match r.seen.store.getByKey key with
  | none => r.lbc.translator.svcLister
  | some ing => r.seen.svcLister ing r.lbc.translator.svcLister

def controller : LoadBalancerController σ L β :=
  { r.lbc with translator := { r.lbc.translator with svcLister := r.svcLister key } }

/-- The sync returns no error. -/
def ok : Bool := ((r.controller key).sync r.seen.store key (Journal.start r.world)).1.isOk

/-- The url map that the sync has put. -/
def urlMap : Option (GCEURLMap β) :=
  match r.seen.store.getByKey key with
  | none => none
  | some ing =>
    if ing.isGCEMultiClusterIngress then none
    else ((r.controller key).syncUrlMap r.seen.store key ing (Journal.start r.world)).1.toOption

/-- The sync has put a url map, or it has returned no error. -/
def settles : Bool := (r.urlMap key).isSome || r.ok key

variable {r key} in
/-- An Ingress that has one has got its url map then. -/
theorem isSome_urlMap {ing : Ingress} (hing : r.seen.store.getByKey key = some ing)
    (hsingle : ing.isGCEMultiClusterIngress = false) (h : r.settles key = true) : (r.urlMap key).isSome = true := by
  rcases Bool.or_eq_true _ _ ▸ h with hput | hok
  · exact hput
  · have hputs := (r.controller key).sync_puts hing hsingle r.world
    unfold ok at hok
    simp only [urlMap,hing,hsingle,Bool.false_eq_true,if_false]
    cases hsync : ((r.controller key).sync r.seen.store key (Journal.start r.world)).1 with
    | error e =>
      rw [hsync] at hok
      cases hok
    | ok _ =>
      obtain ⟨urlMap,hurlMap,_⟩ := hputs hsync
      rw [hurlMap]
      rfl

end SyncRun

/-- The stores, the queue and its worker, and for each key its last sync that has put a url
map or returned no error. -/
structure LiveController (σ L β : Type) where
  informers : Informers
  loop : Loop Stores Str Seen
  last : (key : Str) → Option { r : SyncRun σ L β // r.settles key = true }
  crashed : Bool

namespace LiveController
variable {σ L β : Type}

def start : LiveController σ L β where
  informers := .start
  loop := .start
  last _ := none
  crashed := false

/-- The key that the handlers of Ingresses put into the queue. -/
def enqueueIngress (n : IngressNote) : List Str :=
  match n.cur,n.old with
  | some cur,_ => if cur.isGCEIngress || cur.isGCEMultiClusterIngress then [cur.key] else []
  | none,some old => if old.isGCEIngress || old.isGCEMultiClusterIngress then [old.key] else []
  | none,none => []

def enqueueIngressForService (store : IngressStore) (svc : NamedService) : List Str :=
  match getServiceIngress store.items svc with
  | (_,some _) => []
  | (ings,none) => (ings.filter Ingress.isGCEIngress).map Ingress.key

/-- The handlers of Services. An object may have changed in what is of no interest here. -/
def enqueueService (store : IngressStore) (n : ServiceNote) (otherwise : Bool) : List Str :=
  match n.cur with
  | none => []
  | some cur =>
    if n.old.map (fun svc => svc.service) ≠ some cur.service ∨ otherwise = true then
      enqueueIngressForService store cur.toNamedService
    else []

/-- A sync that has read everything ends as the controller does in some state, and one that
has not may fail. -/
inductive Turn (σ L β : Type)
  | change (c : Change)
  | handleIngress
  | handleService (otherwise : Bool)
  | poll
  | read
  | fail
  | finish (lbc : LoadBalancerController σ L β) (world : σ)
  | queue (t : Worker.Turn Str)

/-- The handler for deletions panics if it is not given an Ingress. -/
def handleIngress (s : LiveController σ L β) : LiveController σ L β :=
  match s.informers.ingNotes with
  | [] => s
  | n :: rest =>
    if n.stateUnknown then { s with crashed := true }
    else { s with informers := { s.informers with ingNotes := rest }, loop := s.loop.addAll (enqueueIngress n) }

def handleService (s : LiveController σ L β) (otherwise : Bool) : LiveController σ L β :=
  match s.informers.svcNotes with
  | [] => s
  | n :: rest =>
    { s with
      informers := { s.informers with svcNotes := rest }
      loop := s.loop.addAll (enqueueService s.informers.stores.ingresses n otherwise) }

def fail (s : LiveController σ L β) : LiveController σ L β :=
  match s.loop.worker.phase,s.loop.work with
  | .processing _,some (.read _) => { s with loop := s.loop.finish false }
  | _,_ => s

def finish (s : LiveController σ L β) (lbc : LoadBalancerController σ L β) (world : σ) : LiveController σ L β :=
  match s.loop.worker.phase,s.loop.work with
  | .processing key,some (.done seen) =>
    let r : SyncRun σ L β := ⟨seen,lbc,world⟩
    if h : r.settles key = true then
      { s with loop := s.loop.finish (r.ok key), last := Function.update s.last key (some ⟨r,h⟩) }
    else { s with loop := s.loop.finish (r.ok key) }
  | _,_ => s

def step (s : LiveController σ L β) (t : Turn σ L β) : LiveController σ L β :=
  if s.crashed then s
  else
    match t with
    | .change c => { s with informers := s.informers.change c }
    | .handleIngress => s.handleIngress
    | .handleService otherwise => s.handleService otherwise
    | .poll => { s with loop := s.loop.poll TaskQueue.policy syncReading }
    | .read => { s with loop := s.loop.read s.informers.stores }
    | .fail => s.fail
    | .finish lbc world => s.finish lbc world
    | .queue t => { s with loop := s.loop.queue TaskQueue.policy t }

/-- Nothing is under way. -/
structure Quiet (s : LiveController σ L β) : Prop where
  svcNotes : s.informers.svcNotes = []
  ingNotes : s.informers.ingNotes = []
  worker : s.loop.worker.Idle

end LiveController

/-! ## What a change concerns -/

/-- A Service that has been seen is the one that there is. If Services are deleted, it may
have been seen before that. -/
def Agrees (deletes : Bool) (now seen : Option Service) : Prop := seen = now ∨ deletes = true ∧ now = none

/-- What has been found for the references is what there is now. -/
def UpToDate (deletes : Bool) (w : Stores) (ing : Ingress) (references : List IngressBackend)
    (found : List (Option Service)) : Prop :=
  List.Forall₂ (fun be seen => Agrees deletes (w.svcLister (ing.serviceKey be)) seen) references found

/-- If two lookups of one Service have found different ones then it is not there any more. -/
theorem Agrees.of_differ {deletes : Bool} {now a b : Option Service} (ha : Agrees deletes now a)
    (hb : Agrees deletes now b) (hne : a ≠ b) (seen : Option Service) : Agrees deletes now seen := by
  rcases ha with ha | hgone
  · rcases hb with hb | hgone
    · exact absurd (ha.trans hb.symm) hne
    · exact Or.inr hgone
  · exact Or.inr hgone

theorem exists_differ_of_dedup {α : Type} [DecidableEq α] {l : List α} (hne : l ≠ []) (h : ∀ a, l.dedup ≠ [a]) :
    ∃ a ∈ l, ∃ b ∈ l, a ≠ b := by
  match hdedup : l.dedup with
  | [] => exact absurd ((List.dedup_eq_nil l).mp hdedup) hne
  | [a] => exact absurd hdedup (h a)
  | a :: b :: rest =>
    have hmem : ∀ c, c = a ∨ c = b → c ∈ l := by
      intro c hc
      rw [← List.mem_dedup,hdedup]
      rcases hc with rfl | rfl <;> simp
    have hnodup := hdedup ▸ List.nodup_dedup l
    refine ⟨a,hmem a (Or.inl rfl),b,hmem b (Or.inr rfl),fun heq => ?_⟩
    exact (List.nodup_cons.mp hnodup).1 (heq ▸ List.mem_cons_self)

section Found
variable {deletes : Bool} {w : Stores} {seen : Seen} {ing : Ingress} {be : IngressBackend}

theorem UpToDate.answer (h : UpToDate deletes w ing ing.references seen.found) {answer : Option Service}
    (hanswer : answer ∈ seen.answers ing (ing.serviceKey be)) : Agrees deletes (w.svcLister (ing.serviceKey be)) answer := by
  obtain ⟨p,hp,rfl⟩ := List.mem_map.mp hanswer
  obtain ⟨hp,hkey⟩ := List.mem_filter.mp hp
  rw [← of_decide_eq_true hkey]
  exact (List.forall₂_iff_zip.mp h).2 hp

theorem UpToDate.answers_ne_nil (h : UpToDate deletes w ing ing.references seen.found) (hbe : be ∈ ing.references) :
    seen.answers ing (ing.serviceKey be) ≠ [] := by
  obtain ⟨i,hi,rfl⟩ := List.getElem_of_mem hbe
  have hlength := h.length_eq
  have hmem : (ing.references[i],seen.found[i]) ∈ ing.references.zip seen.found :=
    List.mem_iff_getElem.mpr ⟨i,by simp [← hlength,hi],List.getElem_zip⟩
  exact List.ne_nil_of_mem (List.mem_map_of_mem (List.mem_filter.mpr ⟨hmem,decide_eq_true rfl⟩))

/-- The lister of a sync whose lookups are up to date is so too. -/
theorem UpToDate.agrees (h : UpToDate deletes w ing ing.references seen.found) (hbe : be ∈ ing.references)
    (otherwise : Str → Option Service) :
    Agrees deletes (w.svcLister (ing.serviceKey be)) (seen.svcLister ing otherwise (ing.serviceKey be)) := by
  unfold Seen.svcLister
  split
  · next answer hdedup => exact h.answer (List.mem_dedup.mp (by simp [hdedup]))
  · next hdiffer =>
    obtain ⟨a,ha,b,hb,hne⟩ := exists_differ_of_dedup (h.answers_ne_nil hbe) hdiffer
    exact (h.answer ha).of_differ (h.answer hb) hne _

end Found

theorem UpToDate.mono {deletes : Bool} {w w' : Stores} {ing : Ingress} {references : List IngressBackend}
    {found : List (Option Service)} (h : UpToDate deletes w ing references found)
    (hmono : ∀ be ∈ references, ∀ seen, Agrees deletes (w.svcLister (ing.serviceKey be)) seen →
      Agrees deletes (w'.svcLister (ing.serviceKey be)) seen) : UpToDate deletes w' ing references found := by
  have hboth := (List.forall₂_and_left _ _).mpr ⟨hmono,h⟩
  exact hboth.imp fun be seen hbe => hbe.1 seen hbe.2

/-- Namespaces are not empty, and a deleted Ingress is passed on as it was. -/
def LiveController.Ordinary (deletes : Bool) : Change → Prop
  | .putIngress ing => IsNamespace ing.namespaced
  | .deleteIngress _ stateUnknown => stateUnknown = false
  | .putService _ => True
  | .deleteService _ => deletes = true

def Stores.Namespaced (w : Stores) : Prop := ∀ ing ∈ w.ingresses.items, IsNamespace ing.namespaced

/-- No url map is asked for. -/
def Stores.Moot (w : Stores) (key : Str) : Prop := ∀ ing, w.ingresses.getByKey key = some ing → ing.isGCEIngress = false

namespace LiveController
variable {deletes : Bool} {w w' : Stores} {n : ServiceNote ⊕ IngressNote} {k : Str}

/-- What the controller is for: url maps that are made from what is in the stores. -/
def reconciler (deletes : Bool) : Reconciler Stores Str (ServiceNote ⊕ IngressNote) Seen where
  changes w n w' := ∃ c, Ordinary deletes c ∧ w.Namespaced ∧ w.Changes c n w'
  concerns
    | .inl n,w,k => ∃ cur ing, n.cur = some cur ∧ n.old.map (fun svc => svc.service) ≠ some cur.service ∧
      w.ingresses.getByKey k = some ing ∧ ing.isGCEIngress = true ∧ selects cur.toNamedService ing = true
    | .inr n,_,k => k ∈ enqueueIngress n
  work := syncReading

/-- If a url map is asked for then what has been read for it is what is in the stores. -/
def Right (deletes : Bool) (w : Stores) (k : Str) (d : Seen) : Prop :=
  ∀ ing, w.ingresses.getByKey k = some ing → ing.isGCEIngress = true →
    d.store.getByKey k = some ing ∧ UpToDate deletes w ing ing.references d.found

/-- What a sync has read is still so, or no url map is asked for any more. -/
inductive Knows (deletes : Bool) (k : Str) (w : Stores) : Reading Stores Seen → Prop
  | moot {r : Reading Stores Seen} (h : w.Moot k) : Knows deletes k w r
  | start : Knows deletes k w (syncReading k)
  | services {store : IngressStore} {ing : Ingress} {before rest : List IngressBackend} {found : List (Option Service)}
    (hing : w.ingresses.getByKey k = some ing) (hstore : store.getByKey k = some ing)
    (hreferences : ing.references = before ++ rest) (hfound : UpToDate deletes w ing before found) :
    Knows deletes k w (readServices store ing rest found)

theorem Knows.read {next : Stores → Reading Stores Seen} (h : Knows deletes k w (.read next)) :
    Knows deletes k w (next w) := by
  generalize hr : Reading.read next = r at h
  cases h with
  | moot h => exact .moot h
  | start =>
    obtain rfl := Reading.read.inj hr
    dsimp only
    cases hing : w.ingresses.getByKey k with
    | none => exact .moot fun ing h => by simp [hing] at h
    | some ing =>
      dsimp only
      split
      · next hmulti =>
        apply Knows.moot
        intro ing' hing'
        obtain rfl := Option.some.inj (hing.symm.trans hing')
        by_contra hgce
        simp [Ingress.not_multi_of_gce (Bool.not_eq_false _ ▸ hgce)] at hmulti
      · exact .services hing hing rfl .nil
  | @services store ing before rest found hing hstore hreferences hfound =>
    cases rest with
    | nil => cases hr
    | cons be rest =>
      obtain rfl := Reading.read.inj hr
      apply Knows.services hing hstore (hreferences.trans (List.append_cons before be rest))
      exact List.rel_append hfound (.cons (Or.inl rfl) .nil)

theorem Knows.right {d : Seen} (h : Knows deletes k w (.done d)) : Right deletes w k d := by
  generalize hr : Reading.done d = r at h
  cases h with
  | moot h =>
    intro ing hing hgce
    rw [h ing hing] at hgce
    cases hgce
  | start => cases hr
  | @services store ing before rest found hing hstore hreferences hfound =>
    cases rest with
    | cons be rest => cases hr
    | nil =>
      obtain rfl := Reading.done.inj hr
      intro ing' hing' _
      obtain rfl := Option.some.inj (hing.symm.trans hing')
      exact ⟨hstore,by rwa [hreferences,List.append_nil]⟩

/-- What is read for the key is left alone by a change of the stores. -/
structure Undisturbed (deletes : Bool) (k : Str) (w w' : Stores) : Prop where
  ingress : w'.ingresses.getByKey k = w.ingresses.getByKey k
  services : ∀ ing, w.ingresses.getByKey k = some ing → ing.isGCEIngress = true → ∀ be ∈ ing.references, ∀ seen,
    Agrees deletes (w.svcLister (ing.serviceKey be)) seen → Agrees deletes (w'.svcLister (ing.serviceKey be)) seen

theorem Knows.undisturbed {r : Reading Stores Seen} (h : Knows deletes k w r) (hw : Undisturbed deletes k w w') :
    Knows deletes k w' r := by
  cases h with
  | moot h => exact .moot fun ing hing => h ing (hw.ingress ▸ hing)
  | start => exact .start
  | @services store ing before rest found hing hstore hreferences hfound =>
    by_cases hgce : ing.isGCEIngress = true
    · apply Knows.services (hw.ingress.trans hing) hstore hreferences
      apply hfound.mono
      intro be hbe
      exact hw.services ing hing hgce be (hreferences ▸ List.mem_append_left rest hbe)
    · apply Knows.moot
      intro ing' hing'
      obtain rfl := Option.some.inj (hing.symm.trans (hw.ingress.symm.trans hing'))
      exact Bool.not_eq_true _ ▸ hgce

theorem Right.undisturbed {d : Seen} (h : Right deletes w k d) (hw : Undisturbed deletes k w w') :
    Right deletes w' k d := by
  intro ing hing hgce
  rw [hw.ingress] at hing
  obtain ⟨hstore,hfound⟩ := h ing hing hgce
  exact ⟨hstore,hfound.mono (hw.services ing hing hgce)⟩

/-- A Service that is put is noted for the Ingresses that refer to it, unless it is as before. -/
theorem undisturbed_putService {svc : StoredService} (hnamespaced : w.Namespaced)
    (h : ¬(reconciler deletes).concerns (.inl ⟨w.services svc.key,some svc⟩) (w.putService svc) k) :
    Undisturbed deletes k w (w.putService svc) where
  ingress := rfl
  services := by
    intro ing hing hgce be hbe seen hseen
    have hnow : (w.putService svc).svcLister (ing.serviceKey be) = w.svcLister (ing.serviceKey be) := by
      by_cases hkey : ing.serviceKey be = svc.key
      · have hmem : ing ∈ w.ingresses.items := List.mem_of_find?_eq_some hing
        obtain ⟨hns,hname⟩ := metaNamespaceKey_inj (hnamespaced ing hmem) svc.isNamespace hkey
        have hselects : selects svc.toNamedService ing = true :=
          selects_iff.mpr ⟨hns,be,Ingress.mem_references.mp hbe,hname⟩
        have hsame : (w.services svc.key).map (fun svc => svc.service) = some svc.service := by
          by_contra hne
          exact h ⟨svc,ing,rfl,hne,hing,hgce,hselects⟩
        rw [hkey,Stores.svcLister,Stores.svcLister,hsame]
        simp [Stores.putService]
      · simp [Stores.svcLister,Stores.putService,Function.update_of_ne hkey]
    rwa [hnow]

theorem undisturbed_deleteService (hdeletes : deletes = true) (key : Str) :
    Undisturbed deletes k w (w.deleteService key) where
  ingress := rfl
  services := by
    intro ing hing hgce be hbe seen hseen
    by_cases hkey : ing.serviceKey be = key
    · exact Or.inr ⟨hdeletes,by simp [Stores.svcLister,Stores.deleteService,hkey]⟩
    · have hnow : (w.deleteService key).svcLister (ing.serviceKey be) = w.svcLister (ing.serviceKey be) := by
        simp [Stores.svcLister,Stores.deleteService,Function.update_of_ne hkey]
      rwa [hnow]

/-- A change that does not concern a key leaves alone all that is read for it. -/
theorem unconcerned (hchange : (reconciler deletes).changes w n w') (h : ¬(reconciler deletes).concerns n w' k) :
    w'.Moot k ∨ Undisturbed deletes k w w' := by
  obtain ⟨c,hordinary,hnamespaced,hchange⟩ := hchange
  cases hchange with
  | putService svc => exact Or.inr (undisturbed_putService hnamespaced h)
  | @deleteService key old hold => exact Or.inr (undisturbed_deleteService hordinary key)
  | putIngress ing' =>
    have hget := w.ingresses.getByKey_put ing' k
    by_cases hkey : k = ing'.key
    · left
      intro ing hing
      rw [if_pos hkey] at hget
      obtain rfl := Option.some.inj (hget.symm.trans hing)
      by_contra hgce
      apply h
      simp [reconciler,enqueueIngress,Bool.not_eq_false _ ▸ hgce,hkey]
    · rw [if_neg hkey] at hget
      exact Or.inr ⟨hget,fun _ _ _ _ _ _ hseen => hseen⟩
  | @deleteIngress key old hold stateUnknown =>
    have hget := w.ingresses.getByKey_remove key k
    by_cases hkey : k = key
    · left
      intro ing hing
      rw [if_pos hkey] at hget
      cases hget.symm.trans hing
    · rw [if_neg hkey] at hget
      exact Or.inr ⟨hget,fun _ _ _ _ _ _ hseen => hseen⟩

theorem Right.of_moot (h : w.Moot k) (d : Seen) : Right deletes w k d := by
  intro ing hing hgce
  rw [h ing hing] at hgce
  cases hgce

theorem reconciler_sound (deletes : Bool) : (reconciler deletes).Sound (Right deletes) (Knows deletes) where
  start _ _ := .start
  read h := h.read
  done h := h.right
  knows_change := by
    intro k w n w' r hchange h
    by_cases hconcerns : (reconciler deletes).concerns n w' k
    · exact Or.inr hconcerns
    · left
      rcases unconcerned hchange hconcerns with hmoot | hsame
      · exact .moot hmoot
      · exact h.undisturbed hsame
  right_change := by
    intro k w n w' d hchange h
    by_cases hconcerns : (reconciler deletes).concerns n w' k
    · exact Or.inr hconcerns
    · left
      rcases unconcerned hchange hconcerns with hmoot | hsame
      · exact .of_moot hmoot d
      · exact h.undisturbed hsame
  concerns_change := by
    intro k w n w' m hchange h
    cases m with
    | inr note => exact Or.inl h
    | inl note =>
      obtain ⟨cur,ing,hcur,hold,hing,hgce,hselects⟩ := h
      by_cases hconcerns : (reconciler deletes).concerns n w' k
      · exact Or.inr (Or.inl hconcerns)
      · rcases unconcerned hchange hconcerns with hmoot | hsame
        · exact Or.inr (Or.inr ⟨Right.of_moot hmoot,fun _ => .moot hmoot⟩)
        · exact Or.inl ⟨cur,ing,hcur,hold,hsame.ingress.trans hing,hgce,hselects⟩

/-! ## The controller reconciles -/

theorem loop_serves (deletes : Bool) : Loop.Serves (reconciler deletes) syncReading id id where
  injective := Function.injective_id
  work _ := (Reading.map_id _).symm

variable {σ L β : Type} {s : LiveController σ L β}

/-- What the last sync of a key has read. -/
def seen (s : LiveController σ L β) (key : Str) : Seen := ((s.last key).map fun r => r.1.seen).getD .nothing

/-- What the controller is doing, as a reconciler. -/
noncomputable def abstracted (s : LiveController σ L β) : Reconciler.State Stores Str (ServiceNote ⊕ IngressNote) Seen :=
  s.loop.state TaskQueue.policy id id s.informers.stores s.informers.notes s.seen

/-- The invariant of the controller. -/
structure Inv (s : LiveController σ L β) : Prop where
  calm : s.crashed = false
  up : s.loop.worker.queue.base.shuttingDown = false
  namespaced : s.informers.stores.Namespaced
  known : ∀ n ∈ s.informers.ingNotes, n.stateUnknown = false

theorem inv_start : (start : LiveController σ L β).Inv where
  calm := rfl
  up := rfl
  namespaced _ h := nomatch h
  known _ h := nomatch h

/-- A step that keeps the invariant and that the reconciler can take. -/
structure Follows (deletes : Bool) (s s' : LiveController σ L β) : Prop where
  inv : s'.Inv
  steps : Relation.ReflTransGen (reconciler deletes).Step s.abstracted s'.abstracted

theorem Follows.refl (h : s.Inv) : Follows deletes s s := ⟨h,.refl⟩

theorem namespaced_change {c : Change} (hnamespaced : w.Namespaced) (hc : Ordinary deletes c) (hchange : w.Changes c n w') :
    w'.Namespaced ∧ ∀ note, n = .inr note → note.stateUnknown = false := by
  have hothers (key : Str) : ∀ ing ∈ w.ingresses.others key, IsNamespace ing.namespaced :=
    fun ing hing => hnamespaced ing (List.mem_filter.mp hing).1
  cases hchange with
  | putService svc => exact ⟨hnamespaced,by simp⟩
  | deleteService hold => exact ⟨hnamespaced,by simp⟩
  | putIngress ing =>
    refine ⟨fun ing' hing' => ?_,by simp⟩
    rcases List.mem_cons.mp hing' with rfl | hing'
    · exact hc
    · exact hothers ing.key ing' hing'
  | @deleteIngress key old hold stateUnknown =>
    refine ⟨hothers key,fun note hnote => ?_⟩
    obtain rfl := Sum.inr.inj hnote
    exact hc

theorem Inv.change (h : s.Inv) {c : Change} (hc : Ordinary deletes c) :
    Follows deletes s { s with informers := s.informers.change c } := by
  rcases s.informers.change_cases c with heq | ⟨n,hchange,hnotes⟩
  · rw [heq]
    exact .refl h
  · obtain ⟨hnamespaced,hnote⟩ := namespaced_change h.namespaced hc hchange
    refine ⟨⟨h.calm,h.up,hnamespaced,fun note hmem => ?_⟩,?_⟩
    · have hnew : .inr note ∈ (s.informers.change c).notes :=
        List.mem_append_right _ (List.mem_map_of_mem hmem)
      rcases (hnotes _).mp hnew with hold | hcur
      · exact h.known note (by simpa [Informers.notes] using hold)
      · exact hnote note hcur.symm
    · have hstep : (reconciler deletes).changes s.informers.stores n (s.informers.change c).stores :=
        ⟨c,hc,h.namespaced,hchange⟩
      apply Loop.steps_change hstep
      intro m hm
      rw [hnotes]
      exact (List.mem_append.mp hm).imp_right List.mem_singleton.mp

/-- The handlers put keys into the queue. -/
theorem Inv.addAll (h : s.Inv) (informers : Informers) (hstores : informers.stores = s.informers.stores)
    (hing : ∀ n ∈ informers.ingNotes, n ∈ s.informers.ingNotes) (keys : List Str)
    (hnotes : ∀ n ∈ s.informers.notes, n ∈ informers.notes ∨
      ∀ k, (reconciler deletes).concerns n s.informers.stores k → k ∈ keys) :
    Follows deletes s { s with informers, loop := s.loop.addAll keys } := by
  refine ⟨⟨h.calm,?_,hstores ▸ h.namespaced,fun n hn => h.known n (hing n hn)⟩,?_⟩
  · exact (Worker.shuttingDown_addAll s.loop.worker keys).trans h.up
  · unfold abstracted
    dsimp only
    rw [hstores]
    exact Loop.steps_addAll h.up keys hnotes

theorem Inv.handleIngress (h : s.Inv) : Follows deletes s s.handleIngress := by
  unfold LiveController.handleIngress
  split
  · exact .refl h
  · next n rest hnotes =>
    rw [if_neg (by simp [h.known n (hnotes ▸ List.mem_cons_self)])]
    apply h.addAll { s.informers with ingNotes := rest } rfl (fun m hm => hnotes ▸ List.mem_cons_of_mem n hm)
    intro m hm
    unfold Informers.notes at hm
    rw [hnotes,List.map_cons,List.mem_append,List.mem_cons] at hm
    rcases hm with hm | rfl | hm
    · exact Or.inl (List.mem_append_left _ hm)
    · exact Or.inr fun k hk => hk
    · exact Or.inl (List.mem_append_right _ hm)

/-- A Service that has changed is looked for in all Ingresses that are there. -/
theorem mem_enqueueService {store : IngressStore} {note : ServiceNote} {cur : StoredService} {ing : Ingress}
    (hcur : note.cur = some cur) (hold : note.old.map (fun svc => svc.service) ≠ some cur.service)
    (hing : store.getByKey k = some ing) (hgce : ing.isGCEIngress = true) (hselects : selects cur.toNamedService ing = true)
    (otherwise : Bool) : k ∈ enqueueService store note otherwise := by
  have hmem : ing ∈ (getServiceIngress store.items cur.toNamedService).1 :=
    List.mem_filter.mpr ⟨List.mem_of_find?_eq_some hing,hselects⟩
  have hkey : ing.key = k := by simpa using List.find?_some hing
  unfold enqueueService
  rw [hcur]
  dsimp only
  rw [if_pos (Or.inl hold)]
  unfold enqueueIngressForService
  split
  · next herr =>
    obtain ⟨hings,herr⟩ := Prod.mk.inj herr
    rw [show (getServiceIngress store.items cur.toNamedService).1 = _ from hings] at hmem
    simp [hings ▸ List.ne_nil_of_mem hmem] at herr
  · next ings hnone =>
    rw [hnone] at hmem
    exact List.mem_map.mpr ⟨ing,List.mem_filter.mpr ⟨hmem,hgce⟩,hkey⟩

theorem Inv.handleService (h : s.Inv) (otherwise : Bool) : Follows deletes s (s.handleService otherwise) := by
  unfold LiveController.handleService
  split
  · exact .refl h
  · next n rest hnotes =>
    apply h.addAll { s.informers with svcNotes := rest } rfl fun _ hn => hn
    intro m hm
    unfold Informers.notes at hm
    rw [hnotes,List.map_cons,List.cons_append,List.mem_cons] at hm
    rcases hm with rfl | hm
    · right
      intro k hk
      obtain ⟨cur,ing,hcur,hold,hing,hgce,hselects⟩ := hk
      exact mem_enqueueService hcur hold hing hgce hselects otherwise
    · exact Or.inl hm

theorem Inv.onLoop (h : s.Inv) {loop : Loop Stores Str Seen}
    (hup : loop.worker.queue.base.shuttingDown = s.loop.worker.queue.base.shuttingDown)
    (last : (key : Str) → Option { r : SyncRun σ L β // r.settles key = true }) : { s with loop, last }.Inv :=
  { h with up := hup.trans h.up }

theorem shuttingDown_finish (loop : Loop Stores Str Seen) (ok : Bool) :
    (loop.finish ok).worker.queue.base.shuttingDown = loop.worker.queue.base.shuttingDown :=
  Worker.shuttingDown_step (p := TaskQueue.policy) (.finish ok)

theorem Inv.fail (h : s.Inv) : Follows deletes s s.fail := by
  unfold LiveController.fail
  split
  · next hphase _ =>
    exact ⟨h.onLoop (shuttingDown_finish s.loop false) _,Loop.steps_abandon (loop_serves deletes) rfl hphase⟩
  · exact .refl h

theorem seen_update {key : Str} (r : { r : SyncRun σ L β // r.settles key = true }) (k : Str) :
    { s with last := Function.update s.last key (some r) }.seen k = if k = key then r.1.seen else s.seen k := by
  by_cases hk : k = key
  · subst hk
    simp [seen]
  · simp [seen,hk]

theorem Inv.finish (h : s.Inv) (lbc : LoadBalancerController σ L β) (world : σ) :
    Follows deletes s (s.finish lbc world) := by
  unfold LiveController.finish
  split
  · next key seen hphase hwork =>
    dsimp only
    split
    · next hsettles =>
      refine ⟨h.onLoop (shuttingDown_finish s.loop _) _,Loop.steps_commit (loop_serves deletes) hphase hwork _ fun k => ?_⟩
      exact seen_update ⟨⟨seen,lbc,world⟩,hsettles⟩ k
    · next hsettles =>
      -- a sync that returned no error would have settled
      have hfailed : (⟨seen,lbc,world⟩ : SyncRun σ L β).ok key = false := by
        simp only [SyncRun.settles,Bool.or_eq_true,not_or,Bool.not_eq_true] at hsettles
        exact hsettles.2
      rw [hfailed]
      exact ⟨h.onLoop (shuttingDown_finish s.loop false) _,Loop.steps_abandon (loop_serves deletes) rfl hphase⟩
  · exact .refl h

/-- The changes of a run are ordinary ones. -/
def Turn.Ordinary (deletes : Bool) : Turn σ L β → Prop
  | .change c => LiveController.Ordinary deletes c
  | .handleIngress | .handleService _ | .poll | .read | .fail | .finish _ _ | .queue _ => True

theorem Inv.step (h : s.Inv) {t : Turn σ L β} (ht : t.Ordinary deletes) : Follows deletes s (s.step t) := by
  unfold LiveController.step
  rw [if_neg (by simp [h.calm])]
  cases t with
  | change c => exact h.change ht
  | handleIngress => exact h.handleIngress
  | handleService otherwise => exact h.handleService otherwise
  | poll =>
    exact ⟨h.onLoop (Worker.shuttingDown_step (w := s.loop.worker) .poll) _,Loop.steps_poll (loop_serves deletes)⟩
  | read =>
    refine ⟨h.onLoop ?_ _,Loop.steps_read (loop_serves deletes)⟩
    rw [Loop.worker_read]
  | fail => exact h.fail
  | finish lbc world => exact h.finish lbc world
  | queue t => exact ⟨h.onLoop (Loop.shuttingDown_queue t) _,Loop.steps_queue h.up t⟩

theorem Inv.run (h : s.Inv) {turns : List (Turn σ L β)} (hturns : ∀ t ∈ turns, t.Ordinary deletes) :
    Follows deletes s (Runs.final LiveController.step s turns) := by
  induction turns generalizing s with
  | nil => exact .refl h
  | cons t rest ih =>
    have hstep := h.step (hturns t List.mem_cons_self)
    have hrest := ih hstep.inv fun t' ht' => hturns t' (List.mem_cons_of_mem t ht')
    exact ⟨hrest.inv,hstep.steps.trans hrest.steps⟩

def run (turns : List (Turn σ L β)) : LiveController σ L β := Runs.final step start turns

/-- In every interleaving of the informers, the handlers and the worker, and whatever the
cloud answers, the last sync of every GCE Ingress that has put a url map ends up to be one
that has made it from the Ingress and the Services in the stores. Only a Service that was
deleted may still have been found. -/
theorem url_maps_converge (deletes : Bool) (turns : List (Turn σ L β)) (hturns : ∀ t ∈ turns, t.Ordinary deletes) :
    (run turns).crashed = false ∧
    ((run turns).Quiet → ∀ key ing, (run turns).informers.stores.ingresses.getByKey key = some ing →
      ing.isGCEIngress = true → ∃ r, (run turns).last key = some r ∧
        r.1.seen.store.getByKey key = some ing ∧ (r.1.urlMap key).isSome = true ∧
        ∀ be ∈ ing.references, Agrees deletes ((run turns).informers.stores.svcLister (ing.serviceKey be))
          (r.1.svcLister key (ing.serviceKey be))) := by
  obtain ⟨hinv,hsteps⟩ : Follows deletes start (run turns) := inv_start.run hturns
  refine ⟨hinv.calm,fun hquiet key ing hing hgce => ?_⟩
  have hstart : Reconciler.Attended (reconciler deletes) (Right deletes) (Knows deletes)
      (start : LiveController σ L β).abstracted key := by
    apply Reconciler.Attended.right
    · simp [abstracted,Loop.state,start]
    · intro ing hing
      cases hing
  have hright : Right deletes (run turns).informers.stores key ((run turns).seen key) := by
    apply (hstart.steps (reconciler_sound deletes) hsteps).right_of_quiet
    · exact hquiet.worker.not_awaits _
    · have hnone : (run turns).informers.notes = [] := by simp [Informers.notes,hquiet.svcNotes,hquiet.ingNotes]
      exact hnone
    · exact Loop.working_of_not_processing (by rw [hquiet.worker.phase]; rfl)
  obtain ⟨hstore,hfound⟩ := hright ing hing hgce
  cases hlast : (run turns).last key with
  | none =>
    -- the Ingress is not there at the start
    simp only [seen,hlast,Option.map_none,Option.getD_none] at hstore
    cases hstore
  | some r =>
    simp only [seen,hlast,Option.map_some,Option.getD_some] at hstore hfound
    refine ⟨r,rfl,hstore,SyncRun.isSome_urlMap hstore (Ingress.not_multi_of_gce hgce) r.2,fun be hbe => ?_⟩
    simp only [SyncRun.svcLister,hstore]
    exact hfound.agrees hbe _

/-- The Service comes after the first sync has looked for it. -/
def webTurns : List (Turn Unit Unit Unit) :=
  [.change (.putIngress webIngress),.handleIngress,.poll,.read,.read,.change (.putService webService),.handleService false,
    .finish (LoadBalancerController.calmController () (.ok [])) (),.queue (.settle 0),.queue .done,.poll,.read,.read,
    .finish (LoadBalancerController.calmController () (.ok [])) (),.queue (.settle 0),.queue .done]

theorem url_maps_converge_web : (run webTurns).Quiet ∧ ∃ r, (run webTurns).last webIngress.key = some r ∧
    r.1.seen.store.getByKey webIngress.key = some webIngress ∧ (r.1.urlMap webIngress.key).isSome = true ∧
    r.1.svcLister webIngress.key webService.key = some webService.service := by
  have hquiet : (run webTurns).Quiet :=
    ⟨by decide +kernel,by decide +kernel,by decide +kernel,by decide +kernel,by decide +kernel,by decide +kernel⟩
  have hnamespace : IsNamespace webIngress.namespaced := ⟨by decide,by decide⟩
  have hordinary : ∀ t ∈ webTurns, t.Ordinary false := by
    simp [webTurns,Turn.Ordinary,LiveController.Ordinary,hnamespace]
  obtain ⟨r,hlast,hstore,hput,hservices⟩ :=
    (url_maps_converge false webTurns hordinary).2 hquiet webIngress.key webIngress rfl (by decide +kernel)
  have hnow : (run webTurns).informers.stores.svcLister webService.key = some webService.service := rfl
  rcases hservices ⟨"web".toList,.int 80⟩ (by decide +kernel) with hsame | ⟨hdeletes,_⟩
  · exact ⟨hquiet,r,hlast,hstore,hput,hsame.trans hnow⟩
  · cases hdeletes

end LiveController
end IngressGce
