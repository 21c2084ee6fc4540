import IngressGce.Controller.Sync

/-! # Which failures a sync reports

Every failure of a sync reaches the worker, except in the branch for multi-cluster
Ingresses: it returns without the error of the checkpoint, and writes down the instance
groups of a checkpoint that has none to offer.
-/
namespace IngressGce
open Kube Prog

/-- If anything failed then the sync returns an error, and the worker puts the key back
into the queue. -/
def Reports (key : Str) (r : Except SyncError Unit) (events : List SyncEvent) : Prop :=
  (∃ e ∈ events, e.isFailure = true) → (∃ err, r = .error err) ∧ QueueOp.addRateLimited key ∈ worker key r

/-- After a failed checkpoint without instance groups no annotation is written. -/
def KeepsAnnotations (events : List SyncEvent) : Prop :=
  ∀ err, .checkpoint ⟨[],some err⟩ ∈ events → ∀ igs, .annotate igs ∉ events

theorem reports_error (key : Str) (e : SyncError) (events : List SyncEvent) : Reports key (.error e) events :=
  fun _ => ⟨⟨e,rfl⟩,List.mem_cons_self⟩

theorem reports_ok {key : Str} {events : List SyncEvent} :
    Reports key (.ok ()) events ↔ ∀ e ∈ events, e.isFailure = false := by
  unfold Reports
  constructor
  · intro h e he
    by_contra hfail
    obtain ⟨⟨err,herr⟩,_⟩ := h ⟨e,he,by simpa using hfail⟩
    cases herr
  · rintro h ⟨e,he,hfail⟩
    rw [h e he] at hfail
    cases hfail

namespace Journal
variable {σ ε ε' α β : Type}

/-- Nothing is written down but failed calls, and nothing at all if the program returns. -/
def Open (m : Prog (Journal σ) ε α) : Prop :=
  ∀ j, Ensures m j (fun r j' => ∃ calls : List SyncCall,
    j'.events = calls.map SyncEvent.failed ++ j.events ∧ ∀ a, r = .ok a → calls = [])

theorem open_pure (a : α) : Open (pure a : Prog (Journal σ) ε α) := fun _ => ⟨[],rfl,fun _ _ => rfl⟩

theorem open_run (call : SyncCall) (m : Prog σ ε α) : Open (run call m) := by
  intro j
  rw [ensures_run]
  refine (Prog.ensures_run m j.world).mono ?_
  intro r s _
  cases r with
  | error e => exact ⟨[call],rfl,nofun⟩
  | ok a => exact ⟨[],rfl,fun _ _ => rfl⟩

theorem Open.mapFailure {m : Prog (Journal σ) ε α} (hm : Open m) (f : ε → ε') : Open (mapFailure f m) := by
  intro j
  rw [ensures_mapFailure]
  refine (hm j).mono ?_
  rintro r j' ⟨calls,hevents,hok⟩
  refine ⟨calls,hevents,?_⟩
  intro a ha
  cases r with
  | error e => cases ha
  | ok b => exact hok b rfl

theorem Open.bind {m : Prog (Journal σ) ε α} {f : α → Prog (Journal σ) ε β} (hm : Open m) (hf : ∀ a, Open (f a)) :
    Open (m >>= f) := by
  intro j
  rw [ensures_bind]
  refine (hm j).mono ?_
  rintro r j' ⟨calls,hevents,hok⟩
  cases r with
  | error e => exact ⟨calls,hevents,nofun⟩
  | ok a =>
    obtain rfl := hok a rfl
    rw [afterwards_ok]
    refine (hf a j').mono ?_
    rintro r j'' ⟨calls,hevents',hok'⟩
    exact ⟨calls,by rw [hevents',hevents]; rfl,hok'⟩

theorem Open.forEach {body : β → Prog (Journal σ) ε Unit} (hbody : ∀ b, Open (body b)) (xs : List β) :
    Open (forEach body xs) := by
  induction xs with
  | nil => exact open_pure ()
  | cons b rest ih => exact (hbody b).bind fun _ => ih

end Journal

namespace LoadBalancerController
variable {σ L β : Type} (lbc : LoadBalancerController σ L β)
open Journal

theorem open_linkPorts (ing : Ingress) : Open (lbc.linkPorts ing) := by
  have hport : ∀ svcPort, Open (lbc.linkPort svcPort) := by
    intro svcPort
    unfold linkPort
    split
    · exact ((open_run _ _).mapFailure _).bind fun _ => (open_run _ _).mapFailure _
    · exact open_pure ()
  unfold linkPorts onlyIf
  split
  · exact Open.forEach hport _
  · exact open_pure ()

theorem open_updateL7 (earlier : Option SyncError) (key : Str) (ing : Ingress) :
    Open (lbc.updateL7 earlier key ing) := by
  refine ((open_run _ _).mapFailure _).bind fun l7 => ((open_run _ _).mapFailure _).bind fun urlMap => ?_
  exact ((open_run _ _).mapFailure _).bind fun _ => (open_run _ _).mapFailure _

/-- The sync returns nil if the collection does and no error was to be returned. -/
theorem ensures_finish {store : IngressStore} {j : Journal σ} {rg : Except GoError Unit} {s' : σ}
    (hcollect : lbc.collectGarbage store j.world = (rg,s')) (exit : Exit) :
    Ensures (lbc.finish store exit) j (fun r j' => j' = { world := s', events := noted .gc rg j.events } ∧
      (r = .ok () ↔ exit.err = none ∧ rg = .ok ())) := by
  rw [finish,ensures_bind,ensures_mapFailure,Journal.ensures_run,ensures_of_eq hcollect]
  cases rg with
  | error e => exact ⟨rfl,by simp⟩
  | ok _ =>
    unfold Except.mapError
    rw [afterwards_ok]
    cases exit.err with
    | none =>
      rw [ensures_pure]
      exact ⟨rfl,by simp⟩
    | some e =>
      rw [ensures_fail]
      exact ⟨rfl,by simp⟩

/-- The collection adds at most its own failure, and is silent if the sync returns nil. -/
theorem finish_spec (store : IngressStore) (exit : Exit) (j : Journal σ) :
    Ensures (lbc.finish store exit) j (fun r j' => ∃ calls : List SyncCall,
      j'.events = calls.map SyncEvent.failed ++ j.events ∧ (r = .ok () → calls = [] ∧ exit.err = none)) := by
  obtain ⟨⟨rg,s'⟩,hcollect⟩ : ∃ p, lbc.collectGarbage store j.world = p := ⟨_,rfl⟩
  refine (lbc.ensures_finish hcollect exit).mono ?_
  rintro r j' ⟨rfl,hok⟩
  cases rg with
  | error e => exact ⟨[.gc],rfl,fun h => absurd (hok.mp h).2 nofun⟩
  | ok _ => exact ⟨[],rfl,fun h => ⟨rfl,(hok.mp h).1⟩⟩

/-- A sync that returns nil has gone through all of its steps, and its body has returned no
error. -/
theorem ensures_sync_ok {store : IngressStore} {key : Str} {s : σ} {P : Journal σ → Prop}
    (h : lbc.hasSynced = true → ∀ nodeNames result s₁, lbc.getReadyNodeNames = .ok nodeNames →
      lbc.makeCheckpoint store nodeNames s = (.ok result,s₁) →
      Ensures (lbc.syncIngress store key result) { world := s₁, events := [.checkpoint result] } (fun r j =>
        ∀ exit, r = .ok exit → exit.err = none → Ensures (lbc.finish store exit) j (fun _ j' => P j'))) :
    Ensures (lbc.sync store key) (Journal.start s) (fun r j => r = .ok () → P j) := by
  by_cases hsynced : lbc.hasSynced = true
  · cases hnodes : lbc.getReadyNodeNames with
    | error e => simp [sync,hsynced,hnodes]
    | ok nodeNames =>
      obtain ⟨result,s₁,hcheckpoint⟩ := lbc.checkpoint_returns store nodeNames s
      rw [ensures_sync hsynced hnodes hcheckpoint]
      refine (h hsynced nodeNames result s₁ hnodes hcheckpoint).mono ?_
      intro r j hbody
      cases r with
      | error e => exact nofun
      | ok exit =>
        rw [afterwards_ok]
        refine ((lbc.finish_spec store exit j).and (ensures_run _ j)).mono ?_
        rintro r j' ⟨⟨_,_,hok⟩,hrun⟩ hr
        have hfinish := hbody exit rfl (hok hr).2
        rw [ensures_of_eq hrun] at hfinish
        exact hfinish
  · simp [sync,hsynced]

section Run
variable {lbc} {store : IngressStore} {key : Str} {nodeNames : List Str} {s s₁ : σ} {result : Checkpoint}

theorem afterCheckpoint_eq_none {ingExists : Bool} (h : afterCheckpoint ingExists result.err = none) :
    (SyncEvent.checkpoint result).isFailure = false := by
  obtain ⟨igs,err⟩ := result
  match err with
  | none => rfl
  | some (.firewallSync _) => rfl
  | some (.other _) => cases h

/-- Outside the branch for multi-cluster Ingresses, the body reports what it writes down. -/
theorem syncIngress_single (hsingle : ∀ ing, store.getByKey key = some ing → ing.isGCEMultiClusterIngress = false) :
    Returns (lbc.syncIngress store key result) { world := s₁, events := [.checkpoint result] }
      (fun exit j => ∃ calls : List SyncCall, j.events = calls.map SyncEvent.failed ++ [.checkpoint result] ∧
        (exit.err = none → calls = [] ∧ (SyncEvent.checkpoint result).isFailure = false)) := by
  unfold syncIngress
  dsimp only
  cases hing : store.getByKey key with
  | none => exact ⟨_,rfl,[],rfl,fun h => ⟨rfl,afterCheckpoint_eq_none h⟩⟩
  | some ing =>
    dsimp only
    rw [if_neg (by simp [hsingle ing hing]),returns_bind,returns_attempt]
    refine (lbc.open_linkPorts ing _).mono ?_
    rintro r j ⟨calls,hevents,hok⟩
    cases r with
    | error e => exact ⟨_,rfl,calls,hevents,nofun⟩
    | ok _ =>
      obtain rfl := hok () rfl
      dsimp only
      rw [returns_bind,returns_attempt]
      refine (lbc.open_updateL7 _ key ing j).mono ?_
      rintro r j' ⟨calls,hevents',hok'⟩
      have hall : j'.events = calls.map SyncEvent.failed ++ [.checkpoint result] := by
        rw [hevents',hevents]
        rfl
      cases r with
      | error e => exact ⟨_,rfl,calls,hall,nofun⟩
      | ok _ => exact ⟨_,rfl,calls,hall,fun h => ⟨hok' () rfl,afterCheckpoint_eq_none h⟩⟩

/-- What a sync has to satisfy. -/
def Sound (lbc : LoadBalancerController σ L β) (store : IngressStore) (key : Str) (s : σ) : Prop :=
  Ensures (lbc.sync store key) (start s) (fun r j => Reports key r j.events ∧ KeepsAnnotations j.events)

theorem sound_single (hsynced : lbc.hasSynced = true) (hnodes : lbc.getReadyNodeNames = .ok nodeNames)
    (hcheckpoint : lbc.makeCheckpoint store nodeNames s = (.ok result,s₁))
    (hsingle : ∀ ing, store.getByKey key = some ing → ing.isGCEMultiClusterIngress = false) :
    lbc.Sound store key s := by
  rw [Sound,ensures_sync hsynced hnodes hcheckpoint]
  have hbody : Ensures (lbc.syncIngress store key result) { world := s₁, events := [.checkpoint result] } _ :=
    syncIngress_single hsingle
  refine hbody.mono ?_
  rintro r j ⟨exit,rfl,calls,hevents,hexit⟩
  rw [afterwards_ok]
  refine (lbc.finish_spec store exit j).mono ?_
  rintro r j' ⟨calls',hevents',hfinish⟩
  rw [hevents',hevents]
  constructor
  · cases r with
    | error e => exact reports_error key e _
    | ok _ =>
      obtain ⟨rfl,hnil⟩ := hfinish rfl
      obtain ⟨rfl,hquiet⟩ := hexit hnil
      rw [reports_ok]
      simpa using hquiet
  · intro err _ igs higs
    simp at higs

/-- The branch for multi-cluster Ingresses: the error of the checkpoint plays no part in
the result. -/
theorem sync_multi (hsynced : lbc.hasSynced = true) (hnodes : lbc.getReadyNodeNames = .ok nodeNames)
    (hcheckpoint : lbc.makeCheckpoint store nodeNames s = (.ok result,s₁)) {ing : Ingress}
    (hing : store.getByKey key = some ing) (hmulti : ing.isGCEMultiClusterIngress = true)
    {ra rg : Except GoError Unit} {s₂ s₃ : σ} (hpublish : lbc.publishInstanceGroups ing result.igs s₁ = (ra,s₂))
    (hcollect : lbc.collectGarbage store s₂ = (rg,s₃)) :
    Ensures (lbc.sync store key) (start s) (fun r j =>
      j.events = noted .gc rg (noted .updateAnnotations ra [.annotate result.igs,.checkpoint result]) ∧
        (r = .ok () ↔ ra = .ok () ∧ rg = .ok ())) := by
  rw [ensures_sync hsynced hnodes hcheckpoint,syncIngress]
  simp only [hing,hmulti,if_true,ensures_bind,ensures_attempt,annotate,ensures_note,afterwards_ok,
    ensures_mapFailure,Journal.ensures_run,ensures_of_eq hpublish]
  cases ra with
  | error e =>
    simp only [Except.mapError,ensures_pure,afterwards_ok]
    refine (lbc.ensures_finish hcollect _).mono ?_
    rintro r j ⟨rfl,hok⟩
    exact ⟨rfl,by simp [hok]⟩
  | ok _ =>
    simp only [Except.mapError,ensures_pure,afterwards_ok]
    refine (lbc.ensures_finish hcollect _).mono ?_
    rintro r j ⟨rfl,hok⟩
    exact ⟨rfl,by simp [hok]⟩

theorem mem_noted {call : SyncCall} {r : Except GoError Unit} {events : List SyncEvent} {e : SyncEvent}
    (he : ∀ c, e ≠ .failed c) : e ∈ noted call r events ↔ e ∈ events := by
  cases r with
  | error _ => simp [noted,he]
  | ok _ => rfl

theorem keepsAnnotations_multi (ra rg : Except GoError Unit) :
    KeepsAnnotations (noted .gc rg (noted .updateAnnotations ra [.annotate result.igs,.checkpoint result])) ↔
      ∀ err, result.err = some err → result.igs ≠ [] := by
  obtain ⟨igs,cause⟩ := result
  unfold KeepsAnnotations
  constructor
  · rintro h err rfl rfl
    exact h err (by simp [mem_noted]) [] (by simp [mem_noted])
  · intro h err herr
    have hfailed : igs = [] ∧ some err = cause := by simpa [mem_noted] using herr
    exact absurd hfailed.1 (h err hfailed.2.symm)

theorem reports_multi {r : Except SyncError Unit} {ra rg : Except GoError Unit}
    (hr : r = .ok () ↔ ra = .ok () ∧ rg = .ok ()) :
    Reports key r (noted .gc rg (noted .updateAnnotations ra [.annotate result.igs,.checkpoint result])) ↔
      (ra = .ok () ∧ rg = .ok () → ∀ e, result.err ≠ some (.other e)) := by
  cases r with
  | error err =>
    constructor
    · intro _ hok
      cases hr.mpr hok
    · intro _
      exact reports_error key err _
  | ok _ =>
    obtain ⟨rfl,rfl⟩ := hr.mp rfl
    rw [reports_ok,← isFailure_checkpoint result]
    simp [noted,SyncEvent.isFailure]

/-- A checkpoint fails in the sync of a multi-cluster Ingress, and either has no instance
groups or is the only one to fail. -/
def Overlooks (lbc : LoadBalancerController σ L β) (store : IngressStore) (key : Str) (s : σ) : Prop :=
  lbc.hasSynced = true ∧ ∃ nodeNames ing, lbc.getReadyNodeNames = .ok nodeNames ∧
    store.getByKey key = some ing ∧ ing.isGCEMultiClusterIngress = true ∧
      ∃ igs err s₁, lbc.makeCheckpoint store nodeNames s = (.ok ⟨igs,some err⟩,s₁) ∧
        (igs = [] ∨ ((∃ e, err = .other e) ∧ ∃ s₂ s₃, lbc.publishInstanceGroups ing igs s₁ = (.ok (),s₂) ∧
          lbc.collectGarbage store s₂ = (.ok (),s₃)))

theorem sound_multi (hsynced : lbc.hasSynced = true) (hnodes : lbc.getReadyNodeNames = .ok nodeNames)
    (hcheckpoint : lbc.makeCheckpoint store nodeNames s = (.ok result,s₁)) {ing : Ingress}
    (hing : store.getByKey key = some ing) (hmulti : ing.isGCEMultiClusterIngress = true) :
    lbc.Sound store key s ↔ ∀ err, result.err = some err →
      result.igs ≠ [] ∧ ∀ e, err = .other e → ∀ s₂ s₃, lbc.publishInstanceGroups ing result.igs s₁ = (.ok (),s₂) →
        lbc.collectGarbage store s₂ ≠ (.ok (),s₃) := by
  obtain ⟨⟨ra,s₂⟩,hpublish⟩ : ∃ p, lbc.publishInstanceGroups ing result.igs s₁ = p := ⟨_,rfl⟩
  obtain ⟨⟨rg,s₃⟩,hcollect⟩ : ∃ p, lbc.collectGarbage store s₂ = p := ⟨_,rfl⟩
  have hrun := sync_multi hsynced hnodes hcheckpoint hing hmulti hpublish hcollect
  unfold Ensures at hrun
  rw [Sound,Ensures,hrun.1,keepsAnnotations_multi,reports_multi hrun.2,hpublish]
  constructor
  · rintro ⟨hreported,hkept⟩ err herr
    refine ⟨hkept err herr,?_⟩
    rintro e rfl s₂' s₃' hp hc
    cases hp
    rw [hcollect] at hc
    cases hc
    exact hreported ⟨rfl,rfl⟩ e herr
  · intro h
    refine ⟨?_,fun err herr => (h err herr).1⟩
    rintro ⟨rfl,rfl⟩ e herr
    exact (h _ herr).2 e rfl s₂ s₃ rfl hcollect

theorem not_overlooks_multi (hsynced : lbc.hasSynced = true) (hnodes : lbc.getReadyNodeNames = .ok nodeNames)
    (hcheckpoint : lbc.makeCheckpoint store nodeNames s = (.ok result,s₁)) {ing : Ingress}
    (hing : store.getByKey key = some ing) (hmulti : ing.isGCEMultiClusterIngress = true) :
    ¬lbc.Overlooks store key s ↔ ∀ err, result.err = some err →
      result.igs ≠ [] ∧ ∀ e, err = .other e → ∀ s₂ s₃, lbc.publishInstanceGroups ing result.igs s₁ = (.ok (),s₂) →
        lbc.collectGarbage store s₂ ≠ (.ok (),s₃) := by
  obtain ⟨igs,cause⟩ := result
  constructor
  · rintro h err rfl
    refine ⟨fun hnil => h ⟨hsynced,nodeNames,ing,hnodes,hing,hmulti,igs,err,s₁,hcheckpoint,Or.inl hnil⟩,?_⟩
    rintro e rfl s₂ s₃ hpublish hcollect
    exact h ⟨hsynced,nodeNames,ing,hnodes,hing,hmulti,igs,_,s₁,hcheckpoint,
      Or.inr ⟨⟨e,rfl⟩,s₂,s₃,hpublish,hcollect⟩⟩
  · rintro h ⟨-,nodeNames',ing',hnodes',hing',-,igs',err,s₁',hcheckpoint',hcause⟩
    obtain rfl : nodeNames = nodeNames' := Except.ok.inj (hnodes.symm.trans hnodes')
    obtain rfl : ing = ing' := Option.some.inj (hing.symm.trans hing')
    rw [hcheckpoint] at hcheckpoint'
    cases hcheckpoint'
    obtain ⟨higs,hrest⟩ := h err rfl
    rcases hcause with hnil | ⟨⟨e,rfl⟩,s₂,s₃,hpublish,hcollect⟩
    · exact higs hnil
    · exact hrest e rfl s₂ s₃ hpublish hcollect

/-- A sync reports its failures and leaves the annotation alone, unless it overlooks the
failure of a checkpoint. -/
theorem sync_reports_iff (lbc : LoadBalancerController σ L β) (store : IngressStore) (key : Str) (s : σ) :
    lbc.Sound store key s ↔ ¬lbc.Overlooks store key s := by
  by_cases hsynced : lbc.hasSynced = true
  · cases hnodes : lbc.getReadyNodeNames with
    | error e =>
      have hsound : lbc.Sound store key s := by
        rw [Sound,sync,if_pos hsynced,hnodes]
        exact ⟨reports_error key _ _,nofun⟩
      refine ⟨?_,fun _ => hsound⟩
      rintro - ⟨-,nodeNames,ing,hnodes',-⟩
      rw [hnodes] at hnodes'
      cases hnodes'
    | ok nodeNames =>
      obtain ⟨result,s₁,hcheckpoint⟩ := lbc.checkpoint_returns store nodeNames s
      by_cases hmulti : ∃ ing, store.getByKey key = some ing ∧ ing.isGCEMultiClusterIngress = true
      · obtain ⟨ing,hing,hmulti⟩ := hmulti
        rw [sound_multi hsynced hnodes hcheckpoint hing hmulti,
          not_overlooks_multi hsynced hnodes hcheckpoint hing hmulti]
      · have hsingle : ∀ ing, store.getByKey key = some ing → ing.isGCEMultiClusterIngress = false := by
          intro ing hing
          by_contra h
          exact hmulti ⟨ing,hing,by simpa using h⟩
        refine ⟨?_,fun _ => sound_single hsynced hnodes hcheckpoint hsingle⟩
        rintro - ⟨-,_,ing,-,hing,hyes,-⟩
        exact hmulti ⟨ing,hing,hyes⟩
  · have hsound : lbc.Sound store key s := by
      rw [Sound,sync,if_neg hsynced]
      exact ⟨reports_error key _ _,nofun⟩
    exact ⟨fun _ h => hsynced h.1,fun _ => hsound⟩

end Run

/-! ## A checkpoint that runs out of quota -/

/-- A controller whose calls all succeed, except that creating the instance groups ends
with `igs`. -/
def calmController {L : Type} (l7 : L) (igs : Except GoError (List InstanceGroup)) :
    LoadBalancerController Unit L Unit where
  manager :=
    { defaultBackendNodePort :=
        { port := 30000, protocol := protocolHTTP, svcNamespace := "kube-system".toList,
          svcName := "default-http-backend".toList, svcPort := .int 80, svcTargetPort := "8080".toList,
          negEnabled := false }
      portOrder := .inOrder
      ensureInstanceGroupsAndPorts := fun _ s => (igs,s)
      syncInstances := fun _ => pure ()
      deleteInstanceGroup := pure ()
      ensureBackends := fun _ _ => pure ()
      linkBackend := fun _ _ => pure ()
      gcBackends := fun _ => pure ()
      syncL7s := fun _ => pure ()
      getL7 := fun _ => pure l7
      gcL7s := fun _ => pure ()
      syncFirewall := fun _ _ => pure () }
  translator :=
    { svcLister := fun _ => none, unmarshal := fun _ => (∅,none), negEnabled := false, backendPool := fun _ => pure () }
  hasSynced := true
  negEnabled := false
  getReadyNodeNames := .ok []
  listZones := .ok []
  loadTLS _ := none
  endpointLister _ := none
  firewallOrder := .inOrder
  marshal _ := "null".toList
  getAnnotations _ _ := pure ∅
  putAnnotations _ _ _ := pure ()
  updateUrlMap _ _ := pure ()
  updateIngressStatus _ _ := pure ()

/-- There is no quota for an instance group. -/
def quotaController : LoadBalancerController Unit Unit Unit := calmController () (.error (.api 403))

/-- A store with one Ingress of the given class. -/
def storeOf (name ingressClass : Str) : IngressStore where
  items :=
    [{ namespaced := "default".toList, name := name, annotations := AList.singleton ingressClassKey ingressClass,
       backend := none, rules := [] }]
  distinct := by simp

def multiStore : IngressStore := storeOf "multi".toList gceMultiIngressClass

/-- The sync of a multi-cluster Ingress returns nil although the checkpoint failed, and
has written that there are no instance groups. -/
theorem quotaFailure_overlooked :
    Ensures (quotaController.sync multiStore "default/multi".toList) (start ()) (fun r j =>
      r = .ok () ∧ ¬Reports "default/multi".toList r j.events ∧ ¬KeepsAnnotations j.events) := by
  have hrun : quotaController.sync multiStore "default/multi".toList (start ()) =
      (.ok (),{ world := (), events := [.annotate [],.checkpoint ⟨[],some (.other (.api 403))⟩] }) := rfl
  rw [ensures_of_eq hrun]
  refine ⟨rfl,?_,?_⟩
  · intro hreports
    have hquiet := reports_ok.mp hreports (.checkpoint ⟨[],some (.other (.api 403))⟩) (by simp)
    cases hquiet
  · intro hkept
    exact hkept (.other (.api 403)) (by simp) [] (by simp)

end LoadBalancerController
end IngressGce
