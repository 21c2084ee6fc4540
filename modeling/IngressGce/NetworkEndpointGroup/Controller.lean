import IngressGce.Controller.Informers
import IngressGce.Controller.TaskQueue
import IngressGce.NetworkEndpointGroup.Interleaving
import IngressGce.Program.Loop

/-! # The controller of the NEGs

The handlers of the informers put the keys of Services into a queue. The worker reads the
Service, then the Ingresses that refer to it, and tells the manager which ports of it need
NEGs. Meanwhile the stores change, other handlers signal the syncers, the garbage
collection runs, and so do the goroutines of the syncers.
-/
namespace IngressGce.NEG
open Kube Prog

def maxRetries : ℕ := 15

/-- The worker does not end when the queue is shut down. -/
def serviceWorker : Worker.Policy where
  maxRetries := some maxRetries
  limiter := TaskQueue.defaultControllerRateLimiter
  exits := false

def splitMetaNamespaceKey (key : Str) : Option ServiceKey :=
  match Str.split ['/'] key with
  | [name] => some ⟨[],name⟩
  | [namespaced,name] => some ⟨namespaced,name⟩
  | _ => none

/-- What `processService` does when it has read the stores. -/
inductive Decision
  | malformedKey
  | stopSyncer (key : ServiceKey)
  | ensureSyncers (key : ServiceKey) (targetPorts : List Str)
  | panics

/-- The ports that need NEGs; `none` is a panic. -/
def targetPortsOf (w : Stores) (svc : NamedService) : Option (List Str) :=
  gatherSerivceTargetPortUsedByIngress (getIngressServicesFromStore w.ingresses.items svc) svc

/-- The rest of `processService` for a Service that is to have NEGs. -/
def readIngresses (key : ServiceKey) (svc : NamedService) : Reading Stores Decision :=
  .read fun w =>
    match targetPortsOf w svc with
    | none => .done .panics
    | some targetPorts => .done (.ensureSyncers key targetPorts)

def processService (key : Str) : Reading Stores Decision :=
  match splitMetaNamespaceKey key with
  | none => .done .malformedKey
  | some k => .read fun w =>
    match w.services key with
    | none => .done (.stopSyncer k)
    | some svc =>
      if svc.service.annotations.negEnabled then readIngresses k svc.toNamedService else .done (.stopSyncer k)

/-- The controller, what its listeners have still to handle, and the manager with all its
syncers. The loop is in a call of `processService` or between two of them. -/
structure Controller where
  informers : Informers
  loop : Loop Stores Str Decision
  system : System
  crashed : Bool

namespace Controller

def start : Controller where
  informers := .start
  loop := .start
  system := .start
  crashed := false

/-- The key that the handlers of Services put into the queue. -/
def enqueueService (n : ServiceNote) : List Str :=
  match n.cur,n.old with
  | some cur,_ => [cur.key]
  | none,some old => [old.key]
  | none,none => []

/-- The keys of all Services that the Ingresses refer to; `none` is a panic. -/
def gatherAllServiceKeys : List Ingress → Option (List Str)
  | [] => some []
  | ing :: rest =>
    match gatherIngressServiceKeys ing,gatherAllServiceKeys rest with
    | some keys,some more => some (keys ++ more)
    | _,_ => none

/-- The keys that the handlers of Ingresses put into the queue: those of the old and of the
new object, and none if the last state of a deleted object is unknown. -/
def enqueueIngressServices (n : IngressNote) : Option (List Str) :=
  if n.stateUnknown then some [] else gatherAllServiceKeys (n.old.toList ++ n.cur.toList)

inductive Turn
  | change (c : Change)
  | handleService
  | handleIngress (order : Iteration Str)
  | poll
  | read
  | act (interference : List (List GoStep))
  | queue (t : Worker.Turn Str)
  | manager (t : NEG.Turn)

def handleService (s : Controller) : Controller :=
  match s.informers.svcNotes with
  | [] => s
  | n :: rest =>
    { s with informers := { s.informers with svcNotes := rest }, loop := s.loop.addAll (enqueueService n) }

/-- The keys are a set, which is gone through in some order. -/
def handleIngress (s : Controller) (order : Iteration Str) : Controller :=
  match s.informers.ingNotes with
  | [] => s
  | n :: rest =>
    match enqueueIngressServices n with
    | none => { s with crashed := true }
    | some keys =>
      { s with informers := { s.informers with ingNotes := rest }, loop := s.loop.addAll (order.range keys.dedup) }

/-- Whether `EnsureSyncers` returns no error. -/
def starts (s : Controller) (key : ServiceKey) (targetPorts : List Str) (interference : List (List GoStep)) : Bool :=
  match (ensureSyncers key targetPorts { s.system.manager with interference }).1 with
  | .ok [] => true
  | _ => false

/-- The call of the manager, after which `processService` returns. -/
def act (s : Controller) (interference : List (List GoStep)) : Controller :=
  match s.loop.work with
  | some (.done .malformedKey) => { s with loop := s.loop.finish false }
  | some (.done (.stopSyncer key)) =>
    { s with loop := s.loop.finish true, system := s.system.step ⟨.stopSyncer key,interference⟩ }
  | some (.done (.ensureSyncers key targetPorts)) =>
    { s with
      loop := s.loop.finish (s.starts key targetPorts interference)
      system := s.system.step ⟨.ensureSyncers key targetPorts,interference⟩ }
  | some (.done .panics) => { s with crashed := true }
  | _ => s

/-- The calls of others than the worker, and the goroutines. -/
def manager (s : Controller) (t : NEG.Turn) : Controller :=
  match t.op with
  | .sync _ | .getAllStoppedSyncerKeys _ | .garbageCollectSyncer | .goroutine _ => { s with system := s.system.step t }
  | .ensureSyncers _ _ | .stopSyncer _ | .shutDown _ => s

/-- A panic ends the process. -/
def step (s : Controller) (t : Turn) : Controller :=
  if s.crashed then s
  else
    match t with
    | .change c => { s with informers := s.informers.change c }
    | .handleService => s.handleService
    | .handleIngress order => s.handleIngress order
    | .poll => { s with loop := s.loop.poll serviceWorker processService }
    | .read => { s with loop := s.loop.read s.informers.stores }
    | .act interference => s.act interference
    | .queue t => { s with loop := s.loop.queue serviceWorker t }
    | .manager t => s.manager t

/-- Nothing is under way. -/
structure Quiet (s : Controller) : Prop where
  svcNotes : s.informers.svcNotes = []
  ingNotes : s.informers.ingNotes = []
  worker : s.loop.worker.Idle

end Controller

def ServiceKey.text (key : ServiceKey) : Str := serviceKeyFunc key.namespaced key.name

/-- What the manager is to have for a Service. -/
def wanted (w : Stores) (key : ServiceKey) : Option (List Str) :=
  match w.services key.text with
  | none => none
  | some svc => if svc.service.annotations.negEnabled then targetPortsOf w svc.toNamedService else none

/-! ## Keys -/

/-- The key of a Service that the API server accepts. -/
def IsServiceKey (key : ServiceKey) : Prop := IsNamespace key.namespaced ∧ '/' ∉ key.name

instance (key : ServiceKey) : Decidable (IsServiceKey key) :=
  inferInstanceAs (Decidable ((key.namespaced ≠ [] ∧ '/' ∉ key.namespaced) ∧ '/' ∉ key.name))

abbrev ProperKey := { key : ServiceKey // IsServiceKey key }

theorem no_sep_of_notMem {c : Char} {s : Str} (h : c ∉ s) : ¬[c] <:+: s := by
  rintro ⟨before,after,rfl⟩
  simp at h

theorem split_slash {namespaced name : Str} (h : '/' ∉ namespaced) :
    Str.split ['/'] (namespaced ++ '/' :: name) = namespaced :: Str.split ['/'] name := by
  have hsplit : Str.splitFrom ['/'] 0 (namespaced ++ (['/'] ++ name)) = _ := Str.splitFrom_append_of_not_mem h name
  exact hsplit

theorem splitMetaNamespaceKey_text {key : ServiceKey} (h : IsServiceKey key) : splitMetaNamespaceKey key.text = some key := by
  have hname : Str.split ['/'] key.name = [key.name] := Str.splitFrom_of_no_sep (no_sep_of_notMem h.2)
  unfold splitMetaNamespaceKey ServiceKey.text serviceKeyFunc
  rw [split_slash h.1.2,hname]

/-- A key that is split into a proper one is its text. -/
theorem text_of_splitMetaNamespaceKey {key : Str} {k : ServiceKey} (h : splitMetaNamespaceKey key = some k)
    (hk : IsServiceKey k) : key = k.text := by
  unfold splitMetaNamespaceKey at h
  by_cases hslash : '/' ∈ key
  · obtain ⟨namespaced,rest,hkey,hfirst⟩ := List.eq_append_cons_of_mem hslash
    subst hkey
    rw [split_slash hfirst] at h
    split at h
    · next hsplit => exact absurd (List.cons.inj hsplit).2 (Str.splitFrom_ne_nil _ _ _)
    · next namespaced' name hsplit =>
      obtain ⟨rfl,hname⟩ := List.cons.inj hsplit
      obtain rfl := Option.some.inj h
      -- the rest has one token, so it has no slash
      have hrest : '/' ∉ rest := by
        intro hmem
        obtain ⟨before,after,rfl,hbefore⟩ := List.eq_append_cons_of_mem hmem
        rw [split_slash hbefore] at hname
        exact Str.splitFrom_ne_nil _ _ _ (List.cons.inj hname).2
      have hone : Str.split ['/'] rest = [rest] := Str.splitFrom_of_no_sep (no_sep_of_notMem hrest)
      obtain rfl := (List.cons.inj (hone.symm.trans hname)).1
      rfl
    · cases h
  · have hone : Str.split ['/'] key = [key] := Str.splitFrom_of_no_sep (no_sep_of_notMem hslash)
    rw [hone] at h
    obtain rfl := Option.some.inj h
    exact absurd rfl hk.1.1

theorem text_injective : Function.Injective fun k : ProperKey => k.1.text := by
  intro k k' h
  apply Subtype.ext
  apply Option.some.inj
  rw [← splitMetaNamespaceKey_text k.2,← splitMetaNamespaceKey_text k'.2]
  exact congrArg splitMetaNamespaceKey h

/-! ## What a change concerns -/

/-- The ports that a decision leaves the manager with. -/
def Decision.ports : Decision → Option (List Str)
  | .ensureSyncers _ targetPorts => some targetPorts
  | .malformedKey | .stopSyncer _ | .panics => none

/-- Every rule of an Ingress has an HTTP section, and a deleted Ingress is passed on as it was. -/
def Ordinary : Change → Prop
  | .putIngress ing => ∀ rule ∈ ing.rules, rule.http.isSome
  | .deleteIngress _ stateUnknown => stateUnknown = false
  | .putService _ | .deleteService _ => True

/-- What the controller is for: to have the ports of each Service that the stores ask for. -/
def reconciler : Reconciler Stores ProperKey (ServiceNote ⊕ IngressNote) (Option (List Str)) where
  changes w n w' := ∃ c, Ordinary c ∧ HTTPOnly w.ingresses.items ∧ w.Changes c n w'
  concerns
    | .inl n,_,k => k.1.text ∈ Controller.enqueueService n
    | .inr n,_,k => ∃ keys, Controller.enqueueIngressServices n = some keys ∧ k.1.text ∈ keys
  work k := (processService k.1.text).map Decision.ports

theorem gatherIngressServiceKeys_isSome {ing : Ingress} (h : ∀ rule ∈ ing.rules, rule.http.isSome) :
    ∃ keys, gatherIngressServiceKeys ing = some keys := by
  unfold gatherIngressServiceKeys pathBackends
  rw [if_pos (by simpa using h)]
  exact ⟨_,rfl⟩

/-- An Ingress that has not got the key of a Service among its keys is not selected for it. -/
theorem not_selects_of_enqueued {n : IngressNote} (hknown : n.stateUnknown = false) {ing : Ingress}
    (hing : ing ∈ n.old.toList ++ n.cur.toList) (hhttp : HTTPOnly (n.old.toList ++ n.cur.toList)) {svc : NamedService}
    (h : ¬∃ keys, Controller.enqueueIngressServices n = some keys ∧ serviceKeyFunc svc.namespaced svc.name ∈ keys) :
    selects svc ing = false := by
  have hall : ∀ {ings : List Ingress}, HTTPOnly ings → ∃ keys, Controller.gatherAllServiceKeys ings = some keys ∧
      ∀ ing ∈ ings, ∀ own, gatherIngressServiceKeys ing = some own → own ⊆ keys := by
    intro ings hings
    induction ings with
    | nil => exact ⟨[],rfl,by simp⟩
    | cons first rest ih =>
      obtain ⟨own,hown⟩ := gatherIngressServiceKeys_isSome (hings first List.mem_cons_self)
      obtain ⟨more,hmore,hrest⟩ := ih fun ing hing => hings ing (List.mem_cons_of_mem _ hing)
      refine ⟨own ++ more,by simp [Controller.gatherAllServiceKeys,hown,hmore],fun ing hing own' hown' => ?_⟩
      rcases List.mem_cons.mp hing with rfl | hing
      · obtain rfl := Option.some.inj (hown.symm.trans hown')
        exact List.subset_append_left _ _
      · exact fun key hkey => List.mem_append_right own (hrest ing hing own' hown' hkey)
  obtain ⟨keys,hkeys,hsub⟩ := hall hhttp
  obtain ⟨own,hown⟩ := gatherIngressServiceKeys_isSome (hhttp ing hing)
  refine not_selects hown fun hmem => h ⟨keys,?_,hsub ing hing own hown hmem⟩
  rw [Controller.enqueueIngressServices,if_neg (by simp [hknown]),hkeys]

/-- Ingresses that are not selected for the Service do not matter for its ports. -/
theorem targetPortsOf_congr {w w' : Stores} {svc : NamedService} {old others : List Ingress} (cur : List Ingress)
    (hw : w.ingresses.items.Perm (old ++ others)) (hw' : w'.ingresses.items.Perm (cur ++ others))
    (hnot : ∀ ing ∈ old ++ cur, selects svc ing = false) : targetPortsOf w' svc = targetPortsOf w svc := by
  have hfilter : ∀ {items ings : List Ingress}, items.Perm (ings ++ others) → (∀ ing ∈ ings, selects svc ing = false) →
      (items.filter (selects svc)).Perm (others.filter (selects svc)) := by
    intro items ings hperm hings
    have hnone : ings.filter (selects svc) = [] := List.filter_eq_nil_iff.mpr fun ing hing => by simp [hings ing hing]
    have hboth := hperm.filter (selects svc)
    rwa [List.filter_append,hnone] at hboth
  apply gather_perm
  exact (hfilter hw' fun ing hing => hnot ing (List.mem_append_right _ hing)).trans
    (hfilter hw fun ing hing => hnot ing (List.mem_append_left _ hing)).symm

variable {w w' : Stores} {n : ServiceNote ⊕ IngressNote} {k : ProperKey}

/-- The Service under a proper key has the key's text. -/
theorem serviceKeyFunc_of_stored {svc : StoredService} (h : w.services k.1.text = some svc) :
    serviceKeyFunc svc.namespaced svc.name = k.1.text :=
  svc.key_eq.symm.trans (w.keyed h)

theorem http_getByKey (hhttp : HTTPOnly w.ingresses.items) (key : Str) :
    HTTPOnly (w.ingresses.getByKey key).toList := by
  intro ing hing
  exact hhttp ing (List.mem_of_find?_eq_some (Option.mem_toList.mp hing))

/-- A change that does not concern a Service leaves alone all that is read for it. -/
theorem unconcerned (hchange : reconciler.changes w n w') (h : ¬reconciler.concerns n w' k) :
    w'.services k.1.text = w.services k.1.text ∧
    ∀ svc, w.services k.1.text = some svc → targetPortsOf w' svc.toNamedService = targetPortsOf w svc.toNamedService := by
  obtain ⟨c,hordinary,hhttp,hchange⟩ := hchange
  cases hchange with
  | putService svc =>
    refine ⟨Function.update_of_ne ?_ _ _,fun _ _ => rfl⟩
    intro heq
    exact h (by simp [reconciler,Controller.enqueueService,heq])
  | @deleteService key old hold =>
    refine ⟨Function.update_of_ne ?_ _ _,fun _ _ => rfl⟩
    intro heq
    exact h (by simp [reconciler,Controller.enqueueService,w.keyed hold,heq])
  | putIngress ing =>
    refine ⟨rfl,fun svc hsvc => ?_⟩
    have hboth : HTTPOnly ((w.ingresses.getByKey ing.key).toList ++ (some ing).toList) := by
      intro ing' hing'
      rcases List.mem_append.mp hing' with hold | hcur
      · exact http_getByKey hhttp ing.key ing' hold
      · exact List.mem_singleton.mp hcur ▸ hordinary
    apply targetPortsOf_congr [ing] (w.ingresses.items_perm ing.key) .rfl
    intro ing' hing'
    apply not_selects_of_enqueued (n := ⟨w.ingresses.getByKey ing.key,some ing,false⟩) rfl hing' hboth
    rwa [serviceKeyFunc_of_stored hsvc]
  | @deleteIngress key old hold stateUnknown =>
    refine ⟨rfl,fun svc hsvc => ?_⟩
    have hboth : HTTPOnly ((some old).toList ++ (none : Option Ingress).toList) := by
      have hstored := http_getByKey hhttp key
      rw [hold] at hstored
      simpa using hstored
    apply targetPortsOf_congr [] (w.ingresses.items_perm key) .rfl
    intro ing hing
    rw [hold] at hing
    apply not_selects_of_enqueued (n := ⟨some old,none,stateUnknown⟩) hordinary hing hboth
    rwa [serviceKeyFunc_of_stored hsvc]

theorem wanted_unconcerned (hchange : reconciler.changes w n w') (h : ¬reconciler.concerns n w' k) :
    wanted w' k.1 = wanted w k.1 := by
  obtain ⟨hservice,hports⟩ := unconcerned hchange h
  unfold wanted
  rw [hservice]
  cases hsvc : w.services k.1.text with
  | none => rfl
  | some svc => simp only [hports svc hsvc]

/-- What the worker has read of a Service is still so. -/
inductive Knows (k : ProperKey) (w : Stores) : Reading Stores (Option (List Str)) → Prop
  | start : Knows k w (reconciler.work k)
  | service {svc : StoredService} (h : w.services k.1.text = some svc)
    (henabled : svc.service.annotations.negEnabled = true) :
    Knows k w ((readIngresses k.1 svc.toNamedService).map Decision.ports)
  | done {d : Option (List Str)} (h : d = wanted w k.1) : Knows k w (.done d)

theorem reconciler_work (k : ProperKey) : reconciler.work k = .read fun w =>
    Reading.map Decision.ports (match w.services k.1.text with
      | none => .done (.stopSyncer k.1)
      | some svc =>
        if svc.service.annotations.negEnabled then readIngresses k.1 svc.toNamedService else .done (.stopSyncer k.1)) := by
  simp only [reconciler,processService,splitMetaNamespaceKey_text k.2]
  rfl

theorem map_readIngresses (key : ServiceKey) (svc : NamedService) :
    (readIngresses key svc).map Decision.ports = .read fun w => .done (targetPortsOf w svc) := by
  unfold readIngresses
  rw [Reading.map]
  congr 1
  funext w
  cases targetPortsOf w svc <;> rfl

theorem Knows.read {next : Stores → Reading Stores (Option (List Str))} (h : Knows k w (.read next)) :
    Knows k w (next w) := by
  generalize hp : Reading.read next = p at h
  cases h with
  | start =>
    rw [reconciler_work] at hp
    obtain rfl := Reading.read.inj hp
    dsimp only
    cases hsvc : w.services k.1.text with
    | none =>
      exact .done (d := none) (by simp [wanted,hsvc])
    | some svc =>
      dsimp only
      split
      · next henabled => exact .service hsvc henabled
      · next hdisabled => exact .done (d := none) (by simp [wanted,hsvc,hdisabled])
  | @service svc hsvc henabled =>
    rw [map_readIngresses] at hp
    obtain rfl := Reading.read.inj hp
    exact .done (by simp [wanted,hsvc,henabled])
  | done => cases hp

theorem Knows.right {d : Option (List Str)} (h : Knows k w (.done d)) : d = wanted w k.1 := by
  generalize hp : Reading.done d = p at h
  cases h with
  | start =>
    rw [reconciler_work] at hp
    cases hp
  | @service svc hsvc henabled =>
    rw [map_readIngresses] at hp
    cases hp
  | done h => exact (Reading.done.inj hp).trans h

theorem reconciler_sound : reconciler.Sound (fun w k d => d = wanted w k.1) Knows where
  start _ _ := .start
  read h := h.read
  done h := h.right
  knows_change := by
    intro k w n w' p hchange h
    by_cases hconcerns : reconciler.concerns n w' k
    · exact Or.inr hconcerns
    · left
      cases h with
      | start => exact .start
      | service hsvc henabled => exact .service ((unconcerned hchange hconcerns).1.trans hsvc) henabled
      | done h => exact .done (h.trans (wanted_unconcerned hchange hconcerns).symm)
  right_change := by
    intro k w n w' d hchange h
    by_cases hconcerns : reconciler.concerns n w' k
    · exact Or.inr hconcerns
    · exact Or.inl (h.trans (wanted_unconcerned hchange hconcerns).symm)
  concerns_change := by
    intro k w n w' m _ h
    cases m <;> exact Or.inl h

end IngressGce.NEG
