import IngressGce.Controller.Reports
import IngressGce.LoadBalancer.Entries

/-! # The pool follows the Ingresses

A sync puts the Ingresses of the GCE class into the pool and collects the load balancers
of which the store has no key. An Ingress that leaves the class but not the store keeps
its load balancer.
-/
namespace IngressGce
open Kube Prog

namespace Journal
variable {σ ε α : Type} {R : σ → σ → Prop}

/-- The world moves along the relation, and what is written down stays. -/
def Advances (R : σ → σ → Prop) (j j' : Journal σ) : Prop :=
  R j.world j'.world ∧ ∀ e ∈ j.events, e ∈ j'.events

instance [IsPreorder σ R] : IsPreorder (Journal σ) (Advances R) where
  refl j := ⟨refl_of R j.world,fun _ h => h⟩
  trans _ _ _ h h' := ⟨trans_of R h.1 h'.1,fun e he => h'.2 e (h.2 e he)⟩

theorem advances_run {m : Prog σ ε α} (hm : Respects R m) (call : SyncCall) : Respects (Advances R) (run call m) := by
  intro j
  rw [ensures_run]
  refine (hm j.world).mono ?_
  intro r s hs
  refine ⟨hs,?_⟩
  intro e he
  cases r with
  | error _ => exact List.mem_cons_of_mem _ he
  | ok _ => exact he

theorem advances_note [IsPreorder σ R] (e : SyncEvent) : Respects (Advances R) (note e : Prog (Journal σ) ε Unit) :=
  fun j => ⟨refl_of R j.world,fun _ he => List.mem_cons_of_mem _ he⟩

end Journal

/-- What the environment decides in one sync about the load balancers. -/
structure PoolAnswers (β : Type) where
  addPlan : Str → Plan
  deletePlan : Str → Plan
  order : Iteration Str
  atSync : DefaultBackend
  atGC : DefaultBackend
  updateUrlMap : GCEURLMap β → L7M Unit

/-- A panic does not return; here it counts as an error. -/
def Failure.toError : Failure → GoError
  | .returned e => e
  | .panicked => .text "panic".toList

section Parts
variable {τ ε α : Type}

/-- Run a program on the pool of load balancers. -/
def onPool (m : L7sM α) : Prog (L7s × τ) GoError α :=
  onPart Prod.fst (fun w s => (w,s.2)) (mapFailure Failure.toError m)

/-- Run a program on all that is not the pool of load balancers. -/
def besidesPool (m : Prog τ ε α) : Prog (L7s × τ) ε α := onPart Prod.snd (fun t s => (s.1,t)) m

/-- The pool has the same names, and the same default backend. -/
def SamePool (s s' : L7s × τ) : Prop :=
  s'.1.namer = s.1.namer ∧ s'.1.snapshotter = s.1.snapshotter ∧ s'.1.glbcDefaultBackend = s.1.glbcDefaultBackend

instance : IsPreorder (L7s × τ) SamePool where
  refl _ := ⟨rfl,rfl,rfl⟩
  trans _ _ _ h h' := ⟨h'.1.trans h.1,h'.2.1.trans h.2.1,h'.2.2.trans h.2.2⟩

theorem samePool_besidesPool (m : Prog τ ε α) : Respects SamePool (besidesPool m) := fun _ => ⟨rfl,rfl,rfl⟩

end Parts

namespace LoadBalancerController
variable {τ β : Type} (G : SelfLinks) (answers : PoolAnswers β) (lbc : LoadBalancerController τ Ref β)

/-- The controller with its load balancers in the pool; the rest is as in `lbc`. -/
def withPool : LoadBalancerController (L7s × τ) Ref β where
  manager :=
    { defaultBackendNodePort := lbc.manager.defaultBackendNodePort
      portOrder := lbc.manager.portOrder
      ensureInstanceGroupsAndPorts := fun ports => besidesPool (lbc.manager.ensureInstanceGroupsAndPorts ports)
      syncInstances := fun nodes => besidesPool (lbc.manager.syncInstances nodes)
      deleteInstanceGroup := besidesPool lbc.manager.deleteInstanceGroup
      ensureBackends := fun ports igs => besidesPool (lbc.manager.ensureBackends ports igs)
      linkBackend := fun port zones => besidesPool (lbc.manager.linkBackend port zones)
      gcBackends := fun ports => besidesPool (lbc.manager.gcBackends ports)
      syncL7s := fun lbs => onPool (L7s.sync G (lbs.map (fun ri => (ri,answers.addPlan ri.name))) answers.atSync)
      getL7 := fun key => onPool (L7s.get key)
      gcL7s := fun names s => onPool (L7s.gc names
        ((answers.order.range s.1.snapshotter.keys).map (fun key => (key,answers.deletePlan key))) answers.atGC) s
      syncFirewall := fun ports nodes => besidesPool (lbc.manager.syncFirewall ports nodes) }
  translator :=
    { svcLister := lbc.translator.svcLister
      unmarshal := lbc.translator.unmarshal
      negEnabled := lbc.translator.negEnabled
      backendPool := fun port => besidesPool (lbc.translator.backendPool port) }
  hasSynced := lbc.hasSynced
  negEnabled := lbc.negEnabled
  getReadyNodeNames := lbc.getReadyNodeNames
  listZones := lbc.listZones
  loadTLS := lbc.loadTLS
  endpointLister := lbc.endpointLister
  firewallOrder := lbc.firewallOrder
  marshal := lbc.marshal
  getAnnotations name namespaced := besidesPool (lbc.getAnnotations name namespaced)
  putAnnotations name namespaced annotations := besidesPool (lbc.putAnnotations name namespaced annotations)
  updateUrlMap lb urlMap := onPool (L7s.call lb (answers.updateUrlMap urlMap))
  updateIngressStatus lb ing := besidesPool (lbc.updateIngressStatus lb ing)

variable {G answers lbc} {store : IngressStore} {key : Str}

theorem samePool_get (key : Str) : Respects SamePool (onPool (L7s.get key) : Prog (L7s × τ) GoError Ref) := by
  intro s
  unfold onPool
  rw [ensures_onPart,ensures_mapFailure,L7s.get,ensures_bind,ensures_state,afterwards_ok]
  dsimp only
  split
  · exact ⟨rfl,rfl,rfl⟩
  · exact ⟨rfl,rfl,rfl⟩

theorem samePool_call {α : Type} (lb : Ref) (m : L7M α) :
    Respects SamePool (onPool (L7s.call lb m) : Prog (L7s × τ) GoError α) := fun _ => ⟨rfl,rfl,rfl⟩

/-- After the checkpoint, a sync leaves the pool as it is until the collection. -/
theorem syncIngress_samePool (result : Checkpoint) :
    Respects (Journal.Advances SamePool) ((lbc.withPool G answers).syncIngress store key result) := by
  have hannotate : ∀ ing igs, Respects (Journal.Advances SamePool) ((lbc.withPool G answers).annotate ing igs) := by
    intro ing igs
    refine (Journal.advances_note _).bind fun _ => (Journal.advances_run ?_ _).mapFailure _
    exact (samePool_besidesPool _).bind fun _ => (samePool_besidesPool _).onlyIf
  have hlink : ∀ ing, Respects (Journal.Advances SamePool) ((lbc.withPool G answers).linkPorts ing) := by
    intro ing
    refine Respects.onlyIf (Respects.forEach fun port _ => Respects.ite ?_ (respects_pure ()))
    refine ((Journal.advances_run ?_ _).mapFailure _).bind fun _ =>
      (Journal.advances_run (samePool_besidesPool _) _).mapFailure _
    exact fun s => refl_of SamePool s
  have hupdate : ∀ earlier ing,
      Respects (Journal.Advances SamePool) ((lbc.withPool G answers).updateL7 earlier key ing) := by
    intro earlier ing
    refine ((Journal.advances_run (samePool_get key) _).mapFailure _).bind fun l7 => ?_
    refine ((Journal.advances_run ?_ _).mapFailure _).bind fun urlMap => ?_
    · exact GCETranslator.toURLMap_respects _ (fun _ => samePool_besidesPool _) ing
    · exact ((Journal.advances_run (samePool_call l7 _) _).mapFailure _).bind fun _ =>
        (Journal.advances_run (samePool_besidesPool _) _).mapFailure _
  unfold syncIngress
  dsimp only
  split
  · exact respects_pure _
  · refine Respects.ite ?_ ?_
    · refine (hannotate _ _).attempt.bind fun r => ?_
      cases r with
      | error e => exact respects_pure _
      | ok _ => exact respects_pure _
    · refine (hlink _).attempt.bind fun r => ?_
      cases r with
      | error e => exact respects_pure _
      | ok _ =>
        refine (hupdate _ _).attempt.bind fun r => ?_
        cases r with
        | error e => exact respects_pure _
        | ok _ => exact respects_pure _

theorem synced_congr {names : List Str} {s s₁ s₂ s₃ : L7s × τ} (h : SamePool s s₁)
    (hsynced : L7s.Synced names s₁.1 s₂.1) (h' : SamePool s₂ s₃) : L7s.Synced names s.1 s₃.1 where
  namer_eq := h'.1.trans (hsynced.namer_eq.trans h.1)
  entries key := by
    rw [h'.2.1,hsynced.entries key,h.2.1,L7s.known,h.1]
    rfl
  unused hnil := h'.2.2.trans ((hsynced.unused hnil).trans h.2.2)
  ensured hnames := by
    rw [h'.2.2]
    exact hsynced.ensured hnames

/-- A step of a checkpoint that is not the last one: if the checkpoint has not failed, or
only at the firewall, then the step has returned. -/
theorem ensures_other_bind {σ α : Type} {m : Prog σ GoError α} {f : α → Prog σ CheckpointError Unit} {s : σ}
    {P : σ → Prop} (h : Ensures m s (fun r s₁ => ∀ a, r = .ok a →
      Ensures (f a) s₁ (fun r s' => (∀ e, r ≠ .error (.other e)) → P s'))) :
    Ensures (mapFailure CheckpointError.other m >>= f) s (fun r s' => (∀ e, r ≠ .error (.other e)) → P s') := by
  rw [ensures_bind,ensures_mapFailure]
  refine h.mono ?_
  intro r s₁ hr
  cases r with
  | error e => exact fun hnot => absurd rfl (hnot e)
  | ok a => exact hr a rfl

/-- Whatever else the checkpoint does, its names are in the pool unless it fails before the
firewall. -/
theorem syncPools_entries (input : CheckpointInput) (igs : List InstanceGroup) (s : L7s × τ) :
    Ensures ((lbc.withPool G answers).manager.syncPools input igs) s (fun r s' =>
      (∀ e, r ≠ .error (.other e)) → L7s.Synced (input.lbs.map (fun ri => ri.name)) s.1 s'.1) := by
  have hpool : ∀ s, Ensures ((lbc.withPool G answers).manager.syncL7s input.lbs) s (fun r s' =>
      r = .ok () → L7s.Synced (input.lbs.map (fun ri => ri.name)) s.1 s'.1) := by
    intro s
    change Ensures (onPool (L7s.sync G (input.lbs.map (fun ri => (ri,answers.addPlan ri.name))) answers.atSync)) s _
    unfold onPool
    rw [ensures_onPart,ensures_mapFailure]
    refine (L7s.sync_entries _ answers.atSync s.1).mono ?_
    intro r w hsynced hok
    cases r with
    | error e => cases hok
    | ok _ => simpa [Function.comp_def] using hsynced rfl
  refine ensures_other_bind ((samePool_besidesPool _ s).mono ?_)
  intro r s₁ h₁ _ _
  refine ensures_other_bind ((samePool_besidesPool _ s₁).mono ?_)
  intro r s₂ h₂ _ _
  refine ensures_other_bind ((hpool s₂).mono ?_)
  rintro r s₃ hsynced _ hok
  refine (samePool_besidesPool _ s₃).mono ?_
  intro r s₄ h₄ _
  exact synced_congr (trans_of SamePool h₁ h₂) (hsynced hok) h₄

theorem checkpoint_entries {nodeNames : List Str} (s : L7s × τ) :
    Ensures ((lbc.withPool G answers).makeCheckpoint store nodeNames) s (fun r s' => ∀ result, r = .ok result →
      (SyncEvent.checkpoint result).isFailure = false →
        L7s.Synced (store.listGCEIngresses.map Ingress.key) s.1 s'.1) := by
  unfold makeCheckpoint ClusterManager.checkpoint
  dsimp only
  rw [ensures_bind,ensures_attempt]
  refine (samePool_besidesPool _ s).mono ?_
  intro r s₁ h₁
  rw [afterwards_ok]
  cases r with
  | error e =>
    rintro _ ⟨⟩ hquiet
    cases hquiet
  | ok igs =>
    dsimp only
    rw [ensures_bind,ensures_attempt]
    refine (syncPools_entries _ igs s₁).mono ?_
    intro r s₂ hsynced
    rw [afterwards_ok]
    have hnames : ((lbc.withPool G answers).checkpointInput store nodeNames).lbs.map (fun ri => ri.name) =
        store.listGCEIngresses.map Ingress.key := by
      simp [checkpointInput,toRuntimeInfo,Function.comp_def]
    rw [hnames] at hsynced
    cases r with
    | error e =>
      rintro _ ⟨⟩ hquiet
      refine synced_congr h₁ (hsynced ?_) (refl_of SamePool s₂)
      rintro e' ⟨⟩
      cases hquiet
    | ok _ =>
      rintro _ ⟨⟩ -
      exact synced_congr h₁ (hsynced nofun) (refl_of SamePool s₂)

theorem checkpoint_synced {nodeNames : List Str} {s s₁ : L7s × τ} {result : Checkpoint}
    (hcheckpoint : (lbc.withPool G answers).makeCheckpoint store nodeNames s = (.ok result,s₁))
    (hquiet : (SyncEvent.checkpoint result).isFailure = false) :
    L7s.Synced (store.listGCEIngresses.map Ingress.key) s.1 s₁.1 :=
  (ensures_of_eq hcheckpoint _).mp (checkpoint_entries s) result rfl hquiet

theorem collected_congr {names : List Str} {s s₁ s₂ : L7s × τ} (h : L7s.Collected names s.1 s₁.1)
    (h' : SamePool s₁ s₂) : L7s.Collected names s.1 s₂.1 where
  namer_eq := h'.1.trans h.namer_eq
  entries key := by rw [h'.2.1,h.entries key]
  backend := h'.2.2.trans h.backend

theorem collectGarbage_entries {s : L7s × τ} (hs : s.1.Settled) :
    Ensures ((lbc.withPool G answers).collectGarbage store) s (fun r s' => r = .ok () →
      L7s.Collected store.listKeys s.1 s'.1) := by
  have hpool : Ensures ((lbc.withPool G answers).manager.gcL7s store.listKeys) s (fun r s' => r = .ok () →
      L7s.Collected store.listKeys s.1 s'.1) := by
    change Ensures (onPool (L7s.gc store.listKeys ((answers.order.range s.1.snapshotter.keys).map
      (fun key => (key,answers.deletePlan key))) answers.atGC)) s (fun r s' => r = .ok () →
        L7s.Collected store.listKeys s.1 s'.1)
    unfold onPool
    rw [ensures_onPart,ensures_mapFailure]
    refine (L7s.gc_entries hs ?_).mono ?_
    · simpa [Function.comp_def] using answers.order.perm s.1.snapshotter.keys
    · intro r w hcollected hok
      cases r with
      | error e => cases hok
      | ok _ => exact hcollected rfl
  unfold collectGarbage ClusterManager.gc
  rw [ensures_bind,ensures_attempt]
  refine hpool.mono ?_
  intro lbErr s₁ hcollected
  rw [afterwards_ok,ensures_bind,ensures_attempt]
  refine (samePool_besidesPool _ s₁).mono ?_
  intro beErr s₂ h₂
  rw [afterwards_ok]
  cases lbErr with
  | error e => exact nofun
  | ok _ =>
    cases beErr with
    | error e => exact nofun
    | ok _ =>
      refine ((samePool_besidesPool _).onlyIf s₂).mono ?_
      intro r s₃ h₃ _
      exact collected_congr (hcollected rfl) (trans_of SamePool h₂ h₃)

/-- The collection in its place, at the end of a sync. -/
theorem finish_entries (exit : Exit) {j : Journal (L7s × τ)} (hj : j.world.1.Settled) :
    Ensures ((lbc.withPool G answers).finish store exit) j (fun r j' => r = .ok () →
      L7s.Collected store.listKeys j.world.1 j'.world.1) := by
  obtain ⟨⟨rg,s'⟩,hcollect⟩ : ∃ p, (lbc.withPool G answers).collectGarbage store j.world = p := ⟨_,rfl⟩
  refine ((lbc.withPool G answers).ensures_finish hcollect exit).mono ?_
  rintro r j' ⟨rfl,hok⟩ h
  exact (ensures_of_eq hcollect _).mp (collectGarbage_entries hj) (hok.mp h).2

end LoadBalancerController

/-! ## Histories -/

/-- The names of the load balancers that the Ingresses of the GCE class should have. -/
def IngressStore.gceNames (store : IngressStore) (namer : Namer) : List Str :=
  store.listGCEIngresses.map (fun ing => namer.loadBalancer ing.key)

/-- The names in the pool are those of the GCE Ingresses, and the default backend is there
as long as there are any of them. -/
structure Tracks (namer : Namer) (store : IngressStore) (w : L7s) : Prop where
  entries : ∀ key, key ∈ w.snapshotter ↔ key ∈ store.gceNames namer
  backend : w.glbcDefaultBackend = none ↔ store.listGCEIngresses = []

/-- From one store to the next no Ingress leaves the GCE class and stays in the store (but
for a name that it shares with another one), and the last Ingresses of the class do not go
while there are Ingresses of other classes. -/
structure KeepsClass (namer : Namer) (before after : IngressStore) : Prop where
  stays : ∀ ing ∈ after.items, ing.isGCEIngress = false → namer.loadBalancer ing.key ∈ before.gceNames namer →
    namer.loadBalancer ing.key ∈ after.gceNames namer
  last : after.listGCEIngresses = [] → after.items ≠ [] → before.listGCEIngresses = []

/-- What a sync makes of the pool. -/
structure Updated (namer : Namer) (store : IngressStore) (w w' : L7s) : Prop where
  entries : ∀ key, key ∈ w'.snapshotter ↔
    (key ∈ w.snapshotter ∨ key ∈ store.gceNames namer) ∧ ∃ ing ∈ store.items, namer.loadBalancer ing.key = key
  unused : store.listGCEIngresses = [] →
    w'.glbcDefaultBackend = if store.items = [] then none else w.glbcDefaultBackend
  ensured : store.listGCEIngresses ≠ [] → w'.glbcDefaultBackend ≠ none

section Updated
variable {namer : Namer} {before store : IngressStore} {w w' : L7s}

theorem mem_gceNames {key : Str} : key ∈ store.gceNames namer ↔
    ∃ ing ∈ store.items, ing.isGCEIngress = true ∧ namer.loadBalancer ing.key = key := by
  simp [IngressStore.gceNames,IngressStore.listGCEIngresses,and_assoc]

theorem Updated.tracks_iff (h : Updated namer store w w') (hw : Tracks namer before w) :
    Tracks namer store w' ↔ KeepsClass namer before store := by
  constructor
  · intro ht
    refine ⟨?_,?_⟩
    · intro ing hing _ hleft
      rw [← hw.entries] at hleft
      exact (ht.entries _).mp ((h.entries _).mpr ⟨Or.inl hleft,ing,hing,rfl⟩)
    · intro hnone hitems
      rw [← hw.backend,← ht.backend.mpr hnone,h.unused hnone,if_neg hitems]
  · intro hk
    refine ⟨?_,?_⟩
    · intro key
      rw [h.entries key,hw.entries key]
      constructor
      · rintro ⟨hold | hgce,ing,hing,rfl⟩
        · cases hclass : ing.isGCEIngress with
          | true => exact mem_gceNames.mpr ⟨ing,hing,hclass,rfl⟩
          | false => exact hk.stays ing hing hclass hold
        · exact hgce
      · intro hgce
        obtain ⟨ing,hing,-,hkey⟩ := mem_gceNames.mp hgce
        exact ⟨Or.inr hgce,ing,hing,hkey⟩
    · constructor
      · intro hbackend
        by_contra hsome
        exact h.ensured hsome hbackend
      · intro hnone
        rw [h.unused hnone]
        split
        · rfl
        · exact hw.backend.mpr (hk.last hnone ‹_›)

theorem updated_of_phases {w₁ : L7s} (hnamer : w.namer = namer)
    (hsynced : L7s.Synced (store.listGCEIngresses.map Ingress.key) w w₁)
    (hcollected : L7s.Collected store.listKeys w₁ w') : Updated namer store w w' where
  entries key := by
    rw [hcollected.entries key,hsynced.entries key,L7s.known,L7s.known,hsynced.namer_eq,hnamer]
    simp [IngressStore.gceNames,IngressStore.listKeys]
  unused hnone := by
    rw [hcollected.backend,hsynced.unused (List.map_eq_nil_iff.mpr hnone)]
    simp [IngressStore.listKeys]
  ensured hsome := by
    have hkeys : store.listKeys ≠ [] := by
      intro hnil
      have hitems : store.items = [] := List.map_eq_nil_iff.mp hnil
      exact hsome (by rw [IngressStore.listGCEIngresses,hitems]; rfl)
    rw [hcollected.backend,if_neg hkeys]
    exact hsynced.ensured (by simpa using hsome)

end Updated

namespace LoadBalancerController
variable {τ β : Type} {G : SelfLinks} {answers : PoolAnswers β} {lbc : LoadBalancerController τ Ref β}
variable {store : IngressStore} {key : Str} {s : L7s × τ}

/-- What a sync makes of the pool if nothing fails in it. -/
theorem sync_updated {namer : Namer} (hnamer : s.1.namer = namer) (hs : s.1.Settled)
    (hidem : ∀ name ∈ store.listGCEIngresses.map Ingress.key,
      namer.loadBalancer (namer.loadBalancer name) = namer.loadBalancer name) :
    Ensures ((lbc.withPool G answers).sync store key) (Journal.start s) (fun r j => r = .ok () →
      (∀ e ∈ j.events, e.isFailure = false) →
        j.world.1.namer = namer ∧ j.world.1.Settled ∧ Updated namer store s.1 j.world.1) := by
  by_cases hsynced : (lbc.withPool G answers).hasSynced = true
  · cases hnodes : (lbc.withPool G answers).getReadyNodeNames with
    | error e =>
      unfold sync
      rw [if_pos hsynced,hnodes]
      exact nofun
    | ok nodeNames =>
      obtain ⟨result,s₁,hcheckpoint⟩ := (lbc.withPool G answers).checkpoint_returns store nodeNames s
      rw [ensures_sync hsynced hnodes hcheckpoint]
      refine (syncIngress_samePool result _).mono ?_
      rintro r j ⟨hsame,hstays⟩
      cases r with
      | error e => exact nofun
      | ok exit =>
        rw [afterwards_ok]
        by_cases hquiet : (SyncEvent.checkpoint result).isFailure = false
        · have hput := synced_congr (refl_of SamePool s) (checkpoint_synced hcheckpoint hquiet) hsame
          have hsettled : j.world.1.Settled :=
            hs.extend hput.namer_eq (fun key => (hput.entries key).mp) (hnamer.symm ▸ hidem)
          refine (finish_entries exit hsettled).mono ?_
          intro r j' hcollected hok _
          have hcollected := hcollected hok
          refine ⟨hcollected.namer_eq.trans (hput.namer_eq.trans hnamer),?_,updated_of_phases hnamer hput hcollected⟩
          exact hcollected.settled hsettled
        · -- A failed checkpoint is still written down when the sync ends.
          refine ((lbc.withPool G answers).finish_spec store exit j).mono ?_
          rintro r j' ⟨calls,hevents,-⟩ _ hnone
          refine absurd (hnone (.checkpoint result) ?_) hquiet
          rw [hevents]
          exact List.mem_append_right _ (hstays _ List.mem_cons_self)
  · unfold sync
    rw [if_neg hsynced]
    exact nofun

end LoadBalancerController

/-- One sync of a history: the store as it is then, the key, and all that the environment
decides. -/
structure SyncStep (τ β : Type) where
  store : IngressStore
  key : Str
  lbc : LoadBalancerController τ Ref β
  answers : PoolAnswers β

namespace SyncStep
variable {τ β : Type} (G : SelfLinks)

def run (i : SyncStep τ β) (s : L7s × τ) : Except SyncError Unit × Journal (L7s × τ) :=
  (i.lbc.withPool G i.answers).sync i.store i.key (Journal.start s)

def next (s : L7s × τ) (i : SyncStep τ β) : L7s × τ := (i.run G s).2.world

/-- The sync and the calls that it makes return nil, except that the firewall may be left
to the user. -/
def ReturnsNil (s : L7s × τ) (i : SyncStep τ β) : Prop :=
  (i.run G s).1 = .ok () ∧ ∀ e ∈ (i.run G s).2.events, e.isFailure = false

variable {G} {s : L7s × τ} {i : SyncStep τ β}

/-- From a pool that tracks the Ingresses of one store, a history of syncs tracks those of
all its stores if and only if they keep their class. -/
theorem tracks_iff_of_tracks {namer : Namer} (hu : '/' ∉ namer.clusterName) {steps : List (SyncStep τ β)}
    (hkeys : ∀ i ∈ steps, ∀ ing ∈ i.store.items, IngressKey ing.key) (hnamer : s.1.namer = namer)
    (hs : s.1.Settled) {before : IngressStore} (hbefore : Tracks namer before s.1)
    (hnil : Runs.Along (next G) (ReturnsNil G) s steps) :
    Runs.Along (next G) (fun s i => Tracks namer i.store (next G s i).1) s steps ↔
      (before :: steps.map SyncStep.store).IsChain (KeepsClass namer) := by
  induction steps generalizing s before with
  | nil => simp [Runs.Along]
  | cons i rest ih =>
    have hidem : ∀ name ∈ i.store.listGCEIngresses.map Ingress.key,
        namer.loadBalancer (namer.loadBalancer name) = namer.loadBalancer name := by
      intro name hname
      obtain ⟨ing,hing,rfl⟩ := List.mem_map.mp hname
      exact loadBalancer_idem namer (hkeys i List.mem_cons_self ing (List.mem_of_mem_filter hing)) hu
    obtain ⟨hnamer',hs',hupdated⟩ := LoadBalancerController.sync_updated hnamer hs hidem hnil.1.1 hnil.1.2
    have hrest := fun ht : Tracks namer i.store (next G s i).1 =>
      ih (fun i hi => hkeys i (List.mem_cons_of_mem _ hi)) hnamer' hs' ht hnil.2
    rw [List.map_cons,List.isChain_cons_cons]
    constructor
    · rintro ⟨ht,hall⟩
      exact ⟨(hupdated.tracks_iff hbefore).mp ht,(hrest ht).mp hall⟩
    · rintro ⟨hk,hall⟩
      have ht := (hupdated.tracks_iff hbefore).mpr hk
      exact ⟨ht,(hrest ht).mpr hall⟩

/-- The store before any Ingress is in it. -/
def noIngress : IngressStore := { items := [], distinct := List.nodup_nil }

/-- In a history in which all calls return nil, the pool has after every sync the load
balancers of the GCE Ingresses and no others, and a default backend only with them, if and
only if no Ingress leaves the class without leaving the store. -/
theorem history_tracks_iff (namer : Namer) (hu : '/' ∉ namer.clusterName) (c : Cloud) (t : τ)
    (steps : List (SyncStep τ β)) (hkeys : ∀ i ∈ steps, ∀ ing ∈ i.store.items, IngressKey ing.key)
    (hnil : Runs.Along (next G) (ReturnsNil G) (L7s.start namer c,t) steps) :
    Runs.Along (next G) (fun s i => Tracks namer i.store (next G s i).1) (L7s.start namer c,t) steps ↔
      (noIngress :: steps.map SyncStep.store).IsChain (KeepsClass namer) := by
  refine tracks_iff_of_tracks hu hkeys rfl ?_ ⟨?_,?_⟩ hnil
  · intro key hkey
    exact absurd hkey (AList.notMem_empty key)
  · intro key
    exact iff_of_false (AList.notMem_empty key) List.not_mem_nil
  · exact iff_of_true rfl rfl

/-! ## An Ingress that is deleted, and one that changes its class -/

theorem returnsNil_iff {i : SyncStep τ β} : i.ReturnsNil G s ↔
    (i.run G s).1.toBool = true ∧ ∀ e ∈ (i.run G s).2.events, e.isFailure = false := by
  unfold ReturnsNil
  cases (i.run G s).1 with
  | error e => simp [Except.toBool]
  | ok _ => simp [Except.toBool]

instance {i : SyncStep τ β} : Decidable (i.ReturnsNil G s) := decidable_of_iff _ returnsNil_iff.symm

def calmPlan : Plan := { fault := fun _ => none, ephemeral := fun _ => "203.0.113.1".toList }

/-- A sync of one Ingress in which nothing fails. -/
def syncWeb (store : IngressStore) : SyncStep Unit Unit where
  store := store
  key := "default/web".toList
  lbc := LoadBalancerController.calmController (0 : Ref) (.ok [])
  answers :=
    { addPlan := fun _ => calmPlan, deletePlan := fun _ => calmPlan, order := .inOrder, atSync := .ready, atGC := .ready,
      updateUrlMap := fun _ => pure () }

def webStore (ingressClass : Str) : IngressStore := LoadBalancerController.storeOf "web".toList ingressClass

def webNamer : Namer := Namer.setUID "uid1".toList

def webStart : L7s × Unit := (L7s.start webNamer Cloud.empty,())

theorem webStore_key (ingressClass : Str) : ∀ ing ∈ (webStore ingressClass).items, IngressKey ing.key := by
  intro ing hing
  obtain rfl := List.mem_singleton.mp hing
  exact ⟨"default".toList,"web".toList,rfl,by decide,by decide,by decide,by decide,by decide,by decide⟩

/-- The Ingress is created, and then deleted. -/
theorem history_tracks_web : Runs.Along (next SelfLinks.byCollection)
    (fun s i => Tracks webNamer i.store (next SelfLinks.byCollection s i).1) webStart
      [syncWeb (webStore gceIngressClass),syncWeb noIngress] := by
  have hkeys : ∀ i ∈ [syncWeb (webStore gceIngressClass),syncWeb noIngress], ∀ ing ∈ i.store.items,
      IngressKey ing.key := by
    intro i hi
    rcases List.mem_pair.mp hi with rfl | rfl
    · exact webStore_key gceIngressClass
    · exact nofun
  have hnil : Runs.Along (next SelfLinks.byCollection) (ReturnsNil SelfLinks.byCollection) webStart
      [syncWeb (webStore gceIngressClass),syncWeb noIngress] :=
    ⟨by decide +kernel,by decide +kernel,trivial⟩
  have hcreated : KeepsClass webNamer noIngress (webStore gceIngressClass) := ⟨nofun,fun _ _ => rfl⟩
  have hdeleted : KeepsClass webNamer (webStore gceIngressClass) noIngress := ⟨nofun,fun _ h => absurd rfl h⟩
  refine (history_tracks_iff webNamer (by decide) Cloud.empty () _ hkeys hnil).mpr ?_
  exact List.isChain_cons_cons.mpr ⟨hcreated,List.isChain_cons_cons.mpr ⟨hdeleted,List.isChain_singleton _⟩⟩

/-- The Ingress changes its class. Its load balancer stays in the pool, although every call
has returned nil. -/
theorem history_keeps_web : Runs.Along (next SelfLinks.byCollection) (ReturnsNil SelfLinks.byCollection) webStart
      [syncWeb (webStore gceIngressClass),syncWeb (webStore "nginx".toList)] ∧
    ¬Runs.Along (next SelfLinks.byCollection)
      (fun s i => Tracks webNamer i.store (next SelfLinks.byCollection s i).1) webStart
        [syncWeb (webStore gceIngressClass),syncWeb (webStore "nginx".toList)] := by
  refine ⟨⟨by decide +kernel,by decide +kernel,trivial⟩,?_⟩
  rintro ⟨-,htracks,-⟩
  have hpool : "default-web--uid1".toList ∈ (next SelfLinks.byCollection (next SelfLinks.byCollection webStart
      (syncWeb (webStore gceIngressClass))) (syncWeb (webStore "nginx".toList))).1.snapshotter := by
    decide +kernel
  have hnames : (webStore "nginx".toList).gceNames webNamer = [] := by decide +kernel
  have hmem := (htracks.entries _).mp hpool
  exact List.not_mem_nil (hnames ▸ hmem)

end SyncStep
end IngressGce
