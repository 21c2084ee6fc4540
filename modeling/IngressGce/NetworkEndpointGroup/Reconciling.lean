import IngressGce.NetworkEndpointGroup.Controller

/-! # The manager ends up with the ports that are wanted

Every step of the controller is one of the reconciler, whose results are the ports the
manager has for the Services. Keys that are of no Service do not matter to it, and neither
do the garbage collection and the goroutines.
-/
namespace IngressGce.NEG
open Kube Prog

/-! ## What the critical sections do to the ports -/

/-- The ports of a Service after an operation. -/
def Op.portsAfter (op : Op) (P : AList (fun _ : ServiceKey => List Str)) (key : ServiceKey) : Option (List Str) :=
  match op with
  | .ensureSyncers k targetPorts => if key = k then some targetPorts else P.lookup key
  | .stopSyncer k => if key = k then none else P.lookup key
  | .sync _ | .shutDown _ | .getAllStoppedSyncerKeys _ | .garbageCollectSyncer | .goroutine _ => P.lookup key

section Ports
variable {K : List ServicePort} {m : Manager}

/-- No matter which syncers run. -/
theorem Orderly.any (h : Orderly K m) : Good m.svcPortMap K (fun _ => True) m := h.mono fun _ _ => trivial

theorem ensureSyncers_ports (h : Orderly K m) (key : ServiceKey) (targetPorts : List Str) :
    Returns (ensureSyncers key targetPorts) m (fun _ m' => m'.svcPortMap = m.svcPortMap.insert key targetPorts) := by
  simp only [ensureSyncers,returns_bind,returns_state,returns_update]
  have hupdated : Good (m.svcPortMap.insert key targetPorts) K (fun _ => True)
      { m with svcPortMap := m.svcPortMap.insert key targetPorts } :=
    ⟨⟨h.sound.named,h.sound.ok,h.sound.gone⟩,rfl,h.kept,fun _ _ => trivial⟩
  refine (stopPorts_good hupdated key _).mono fun _ m₁ h₁ => ?_
  have hany := h₁.mono (B := fun _ => True) fun _ _ => trivial
  exact (startPorts_good hany key fun _ _ => trivial).mono fun _ _ h₂ => h₂.svcPortMap

theorem stopSyncer_ports (h : Orderly K m) (key k : ServiceKey) :
    Returns (stopSyncer key) m (fun _ m' => m'.svcPortMap.lookup k = if k = key then none else m.svcPortMap.lookup k) := by
  simp only [stopSyncer,returns_bind,returns_state]
  cases hports : m.svcPortMap.lookup key with
  | none =>
    refine (returns_pure _ _ _).mpr ?_
    split
    · next heq => rw [heq,hports]
    · rfl
  | some ports =>
    simp only [returns_bind,returns_update]
    refine (stopPorts_good h.any key ports).mono fun _ m₁ h₁ => ?_
    split
    · next heq => rw [heq,AList.lookup_erase]
    · next hne => rw [AList.lookup_erase_ne hne,h₁.svcPortMap]

theorem sync_ports (h : Orderly K m) (key : ServiceKey) :
    Returns (sync key) m (fun _ m' => m'.svcPortMap = m.svcPortMap) := by
  simp only [sync,returns_bind,returns_state]
  have hloop := returns_forEach (signalPort key) (s := m) (fun _ => Good m.svcPortMap K (fun _ => True))
    (fun port _ _ hm => signalPort_good hm key port) (m.ports key) h.any
  exact hloop.mono fun _ _ h' => h'.svcPortMap

theorem shutDown_ports (h : Orderly K m) (order : Iteration ServicePort) :
    Returns (shutDown order) m (fun _ m' => m'.svcPortMap = m.svcPortMap) := by
  simp only [shutDown,returns_bind,returns_state]
  have hloop := returns_forEach (fun key : ServicePort => stopPort key.service key.targetPort) (s := m)
    (fun _ => Good m.svcPortMap K (fun _ => True)) ?_ (order.range m.syncerMap.keys) h.any
  · exact hloop.mono fun _ _ h' => h'.svcPortMap
  · intro key _ m' h'
    exact (stopPort_good h' key.service key.targetPort).mono fun _ _ h'' => h''.mono fun _ _ => trivial

end Ports

theorem System.Inv.run_ports {s : System} (h : s.Inv) {m : Manager} (hm : Orderly s.gcKeys m) (op : Op) (k : ServiceKey) :
    Returns (s.run op) m (fun _ m' => m'.svcPortMap.lookup k = op.portsAfter m.svcPortMap k) := by
  have hkept : ∀ {α : Type} {p : ManagerM α} {Q : Manager → Prop}, Returns p m (fun _ m' => Q m') →
      Returns (p >>= fun _ => pure s.gcKeys) m (fun _ m' => Q m') := by
    intro α p Q hp
    rw [returns_bind]
    exact hp.mono fun _ _ h' => (returns_pure _ _ _).mpr h'
  have hsame : ∀ {m' : Manager}, m'.svcPortMap = m.svcPortMap → m'.svcPortMap.lookup k = m.svcPortMap.lookup k :=
    fun h' => by rw [h']
  cases op with
  | ensureSyncers key targetPorts =>
    apply hkept
    refine (ensureSyncers_ports hm key targetPorts).mono fun _ m' h' => ?_
    rw [h',Op.portsAfter]
    split
    · next heq => rw [heq,AList.lookup_insert]
    · next hne => rw [AList.lookup_insert_ne hne]
  | stopSyncer key => exact hkept (stopSyncer_ports hm key k)
  | sync key => exact hkept ((sync_ports hm key).mono fun _ _ h' => hsame h')
  | shutDown order => exact hkept ((shutDown_ports hm order).mono fun _ _ h' => hsame h')
  | getAllStoppedSyncerKeys order =>
    rw [run,returns_ite]
    refine ⟨fun _ => ?_,fun _ => (returns_pure _ _ _).mpr rfl⟩
    exact (getAllStoppedSyncerKeys_good hm order).mono fun _ _ h' => hsame h'.1.svcPortMap
  | garbageCollectSyncer =>
    have hdistinct := h.distinct
    unfold run
    generalize s.gcKeys = keys at hm hdistinct ⊢
    cases keys with
    | nil => exact (returns_pure _ _ _).mpr rfl
    | cons key rest =>
      simp only [returns_bind,returns_pure]
      exact (garbageCollectSyncer_good hm (List.nodup_cons.mp hdistinct).1).mono fun _ _ h' => hsame h'.svcPortMap
  | goroutine g =>
    apply hkept
    rw [returns_update]
    exact hsame (goStep_sound hm.sound g).2.svcPortMap

/-- What a turn of the manager leaves of the ports of a Service. -/
theorem System.Inv.lookup_step {s : System} (h : s.Inv) (t : NEG.Turn) (k : ServiceKey) :
    (s.step t).manager.svcPortMap.lookup k = t.op.portsAfter s.manager.svcPortMap k := by
  have hm : Orderly s.gcKeys { s.manager with interference := t.interference } :=
    ⟨⟨h.orderly.sound.named,h.orderly.sound.ok,h.orderly.sound.gone⟩,rfl,h.orderly.kept,h.orderly.running⟩
  obtain ⟨_,_,hports⟩ := h.run_ports hm t.op k
  exact hports

/-! ## The controller reconciles -/

/-- What is left of a call of `processService` is about the key, and does not panic as long
as all rules have HTTP sections. -/
def About (key : Str) : Reading Stores Decision → Prop
  | .done .malformedKey => splitMetaNamespaceKey key = none
  | .done (.stopSyncer k) | .done (.ensureSyncers k _) => splitMetaNamespaceKey key = some k
  | .done .panics => False
  | .read next => ∀ w, HTTPOnly w.ingresses.items → About key (next w)

theorem about_processService (key : Str) : About key (processService key) := by
  unfold processService
  split
  · next hsplit => exact hsplit
  · next k hsplit =>
    intro w _
    dsimp only
    split
    · exact hsplit
    · next svc _ =>
      split
      · intro w' hhttp
        have hselected : HTTPOnly (getIngressServicesFromStore w'.ingresses.items svc.toNamedService) :=
          fun ing hing => hhttp ing (List.mem_filter.mp hing).1
        obtain ⟨ports,hports,_⟩ := gather_returns svc.toNamedService hselected
        have hports : targetPortsOf w' svc.toNamedService = some ports := hports
        dsimp only
        rw [hports]
        exact hsplit
      · exact hsplit

namespace Controller
variable {s s' : Controller}

theorem loop_serves : Loop.Serves reconciler processService (fun k : ProperKey => k.1.text) Decision.ports where
  injective := text_injective
  work _ := rfl

/-- The ports that the manager has for the Services. -/
def ports (s : Controller) (k : ProperKey) : Option (List Str) := s.system.manager.svcPortMap.lookup k.1

/-- What the controller is doing, as a reconciler. -/
noncomputable def abstracted (s : Controller) :
    Reconciler.State Stores ProperKey (ServiceNote ⊕ IngressNote) (Option (List Str)) :=
  s.loop.state serviceWorker (fun k : ProperKey => k.1.text) Decision.ports s.informers.stores s.informers.notes s.ports

/-- The invariant of the controller. -/
structure Inv (s : Controller) : Prop where
  calm : s.crashed = false
  up : s.loop.worker.queue.base.shuttingDown = false
  http : HTTPOnly s.informers.stores.ingresses.items
  notes : ∀ n ∈ s.informers.ingNotes, HTTPOnly (n.old.toList ++ n.cur.toList)
  about : s.loop.Keeps About
  system : s.system.Inv

theorem inv_start : start.Inv where
  calm := rfl
  up := rfl
  http _ h := nomatch h
  notes _ h := nomatch h
  about _ _ h := nomatch h
  system := .start

/-- A step that keeps the invariant and that the reconciler can take. -/
structure Follows (s s' : Controller) : Prop where
  inv : s'.Inv
  steps : Relation.ReflTransGen reconciler.Step s.abstracted s'.abstracted

theorem Follows.refl (h : s.Inv) : Follows s s := ⟨h,.refl⟩

theorem http_change {w w' : Stores} {c : Change} {n : ServiceNote ⊕ IngressNote} (hhttp : HTTPOnly w.ingresses.items)
    (hc : Ordinary c) (hchange : w.Changes c n w') : HTTPOnly w'.ingresses.items ∧
      ∀ note, n = .inr note → HTTPOnly (note.old.toList ++ note.cur.toList) := by
  have hothers (key : Str) : HTTPOnly (w.ingresses.others key) := fun ing hing => hhttp ing (List.mem_filter.mp hing).1
  cases hchange with
  | putService svc => exact ⟨hhttp,nofun⟩
  | deleteService hold => exact ⟨hhttp,nofun⟩
  | putIngress ing =>
    refine ⟨fun ing' hing' => ?_,fun note hnote => ?_⟩
    · rcases List.mem_cons.mp hing' with rfl | hing'
      · exact hc
      · exact hothers ing.key ing' hing'
    · obtain rfl := Sum.inr.inj hnote
      intro ing' hing'
      rcases List.mem_append.mp hing' with hold | hcur
      · exact http_getByKey hhttp ing.key ing' hold
      · exact List.mem_singleton.mp hcur ▸ hc
  | @deleteIngress key old hold stateUnknown =>
    refine ⟨hothers key,fun note hnote => ?_⟩
    obtain rfl := Sum.inr.inj hnote
    have hstored := http_getByKey hhttp key
    rw [hold] at hstored
    simpa using hstored

theorem Inv.change (h : s.Inv) {c : Change} (hc : Ordinary c) :
    Follows s { s with informers := s.informers.change c } := by
  rcases s.informers.change_cases c with heq | ⟨n,hchange,hnotes⟩
  · rw [heq]
    exact .refl h
  · obtain ⟨hhttp,hnote⟩ := http_change h.http hc hchange
    refine ⟨⟨h.calm,h.up,hhttp,fun note hmem => ?_,h.about,h.system⟩,?_⟩
    · have hnew : .inr note ∈ (s.informers.change c).notes :=
        List.mem_append_right _ (List.mem_map_of_mem hmem)
      rcases (hnotes _).mp hnew with hold | hcur
      · exact h.notes note (by simpa [Informers.notes] using hold)
      · exact hnote note hcur.symm
    · have hstep : reconciler.changes s.informers.stores n (s.informers.change c).stores := ⟨c,hc,h.http,hchange⟩
      apply Loop.steps_change hstep
      intro m hm
      rw [hnotes]
      exact (List.mem_append.mp hm).imp_right List.mem_singleton.mp

/-- The handlers put keys into the queue. -/
theorem Inv.addAll (h : s.Inv) (informers : Informers) (hstores : informers.stores = s.informers.stores)
    (hing : ∀ n ∈ informers.ingNotes, n ∈ s.informers.ingNotes) (keys : List Str)
    (hnotes : ∀ n ∈ s.informers.notes, n ∈ informers.notes ∨
      ∀ k, reconciler.concerns n s.informers.stores k → k.1.text ∈ keys) :
    Follows s { s with informers, loop := s.loop.addAll keys } := by
  refine ⟨⟨h.calm,?_,hstores ▸ h.http,fun n hn => h.notes n (hing n hn),h.about.addAll keys,h.system⟩,?_⟩
  · exact (Worker.shuttingDown_addAll s.loop.worker keys).trans h.up
  · unfold abstracted
    dsimp only
    rw [hstores]
    exact Loop.steps_addAll h.up keys hnotes

theorem Inv.handleService (h : s.Inv) : Follows s s.handleService := by
  unfold Controller.handleService
  split
  · exact .refl h
  · next n rest hnotes =>
    refine h.addAll { s.informers with svcNotes := rest } rfl (fun _ hn => hn) _ fun m hm => ?_
    unfold Informers.notes at hm
    rw [hnotes,List.map_cons,List.cons_append,List.mem_cons] at hm
    rcases hm with rfl | hm
    · exact Or.inr fun k hk => hk
    · exact Or.inl hm

theorem gatherAllServiceKeys_isSome {ings : List Ingress} (h : HTTPOnly ings) :
    ∃ keys, gatherAllServiceKeys ings = some keys := by
  induction ings with
  | nil => exact ⟨[],rfl⟩
  | cons ing rest ih =>
    obtain ⟨keys,hkeys⟩ := gatherIngressServiceKeys_isSome (h ing List.mem_cons_self)
    obtain ⟨more,hmore⟩ := ih fun ing hing => h ing (List.mem_cons_of_mem _ hing)
    exact ⟨keys ++ more,by simp [gatherAllServiceKeys,hkeys,hmore]⟩

theorem enqueueIngressServices_isSome {n : IngressNote} (h : HTTPOnly (n.old.toList ++ n.cur.toList)) :
    ∃ keys, enqueueIngressServices n = some keys := by
  unfold enqueueIngressServices
  split
  · exact ⟨[],rfl⟩
  · exact gatherAllServiceKeys_isSome h

theorem Inv.handleIngress (h : s.Inv) (order : Iteration Str) : Follows s (s.handleIngress order) := by
  unfold Controller.handleIngress
  split
  · exact .refl h
  · next n rest hnotes =>
    obtain ⟨keys,hkeys⟩ := enqueueIngressServices_isSome (h.notes n (hnotes ▸ List.mem_cons_self))
    rw [hkeys]
    dsimp only
    refine h.addAll { s.informers with ingNotes := rest } rfl
      (fun m hm => hnotes ▸ List.mem_cons_of_mem n hm) _ fun m hm => ?_
    unfold Informers.notes at hm
    rw [hnotes,List.map_cons,List.mem_append,List.mem_cons] at hm
    rcases hm with hm | rfl | hm
    · exact Or.inl (List.mem_append_left _ hm)
    · refine Or.inr fun k hk => ?_
      obtain ⟨keys',hkeys',hmem⟩ := hk
      obtain rfl := Option.some.inj (hkeys.symm.trans hkeys')
      exact Iteration.mem_range.mpr (List.mem_dedup.mpr hmem)
    · exact Or.inl (List.mem_append_right _ hm)

theorem Inv.poll (h : s.Inv) : Follows s { s with loop := s.loop.poll serviceWorker processService } where
  inv := { h with
    up := (Worker.shuttingDown_step (w := s.loop.worker) .poll).trans h.up
    about := h.about.poll about_processService }
  steps := Loop.steps_poll loop_serves

theorem Inv.read (h : s.Inv) : Follows s { s with loop := s.loop.read s.informers.stores } where
  inv := { h with
    up := (congrArg (fun w : Worker Str => w.queue.base.shuttingDown) (Loop.worker_read s.informers.stores)).trans h.up
    about := h.about.read fun habout => habout _ h.http }
  steps := Loop.steps_read loop_serves

/-- `processService` returns, with what it has left the manager with. -/
theorem Inv.returns (h : s.Inv) {key : Str} (hphase : s.loop.worker.phase = .processing key) {d : Decision}
    (hwork : s.loop.work = some (.done d)) {system : System} (hsystem : system.Inv) (ok : Bool)
    (hresult : ∀ k : ProperKey, system.manager.svcPortMap.lookup k.1 =
      if k.1.text = key then d.ports else s.system.manager.svcPortMap.lookup k.1) :
    Follows s { s with loop := s.loop.finish ok, system } where
  inv := { h with
    up := (Worker.shuttingDown_step (w := s.loop.worker) (p := serviceWorker) (.finish ok)).trans h.up
    about := Loop.keeps_finish ok
    system := hsystem }
  steps := Loop.steps_commit loop_serves hphase hwork ok hresult

theorem eq_iff_text_eq {key : Str} {k₀ : ServiceKey} (hsplit : splitMetaNamespaceKey key = some k₀) (k : ProperKey) :
    k.1 = k₀ ↔ k.1.text = key := by
  constructor
  · rintro rfl
    exact (text_of_splitMetaNamespaceKey hsplit k.2).symm
  · rintro rfl
    exact Option.some.inj ((splitMetaNamespaceKey_text k.2).symm.trans hsplit)

theorem Inv.act (h : s.Inv) (interference : List (List GoStep)) : Follows s (s.act interference) := by
  unfold Controller.act
  have hprocessing {r : Reading Stores Decision} (hwork : s.loop.work = some r) :
      ∃ key, s.loop.worker.phase = .processing key ∧ About key r := by
    obtain ⟨key,hphase⟩ := Loop.processing_of_work hwork
    exact ⟨key,hphase,h.about key r hphase hwork⟩
  split
  · next hwork =>
    obtain ⟨key,hphase,hsplit⟩ := hprocessing hwork
    refine h.returns hphase hwork h.system false fun k => (if_neg fun htext => ?_).symm
    subst htext
    have hsome := splitMetaNamespaceKey_text k.2
    rw [show splitMetaNamespaceKey k.1.text = none from hsplit] at hsome
    cases hsome
  · next k₀ hwork =>
    obtain ⟨key,hphase,hsplit⟩ := hprocessing hwork
    refine h.returns hphase hwork (h.system.step _).2 true fun k => ?_
    rw [h.system.lookup_step]
    simp only [Op.portsAfter,eq_iff_text_eq hsplit]
    rfl
  · next k₀ targetPorts hwork =>
    obtain ⟨key,hphase,hsplit⟩ := hprocessing hwork
    refine h.returns hphase hwork (h.system.step _).2 _ fun k => ?_
    rw [h.system.lookup_step]
    simp only [Op.portsAfter,eq_iff_text_eq hsplit]
    rfl
  · next hwork =>
    obtain ⟨_,_,hfalse⟩ := hprocessing hwork
    exact hfalse.elim
  · exact .refl h

theorem Inv.queue (h : s.Inv) (t : Worker.Turn Str) : Follows s { s with loop := s.loop.queue serviceWorker t } where
  inv := { h with
    up := (Loop.shuttingDown_queue t).trans h.up
    about := h.about.queue t }
  steps := Loop.steps_queue h.up t

theorem Inv.manager (h : s.Inv) (t : NEG.Turn) : Follows s (s.manager t) := by
  have hsystem (hsame : ∀ k, t.op.portsAfter s.system.manager.svcPortMap k = s.system.manager.svcPortMap.lookup k) :
      Follows s { s with system := s.system.step t } := by
    have hports : { s with system := s.system.step t }.ports = s.ports := by
      funext k
      exact (h.system.lookup_step t k.1).trans (hsame k.1)
    refine ⟨{ h with system := (h.system.step t).2 },?_⟩
    unfold abstracted
    rw [hports]
  unfold Controller.manager
  split
  all_goals first | exact .refl h | next hop => exact hsystem fun k => by rw [hop]; rfl

/-- The changes of a run are ordinary ones. -/
def Turn.Ordinary : Turn → Prop
  | .change c => NEG.Ordinary c
  | .handleService | .handleIngress _ | .poll | .read | .act _ | .queue _ | .manager _ => True

theorem Inv.step (h : s.Inv) {t : Turn} (ht : t.Ordinary) : Follows s (s.step t) := by
  unfold Controller.step
  rw [if_neg (by simp [h.calm])]
  cases t with
  | change c => exact h.change ht
  | handleService => exact h.handleService
  | handleIngress order => exact h.handleIngress order
  | poll => exact h.poll
  | read => exact h.read
  | act interference => exact h.act interference
  | queue t => exact h.queue t
  | manager t => exact h.manager t

theorem Inv.run (h : s.Inv) {turns : List Turn} (hturns : ∀ t ∈ turns, t.Ordinary) :
    Follows s (Runs.final Controller.step s turns) := by
  induction turns generalizing s with
  | nil => exact .refl h
  | cons t rest ih =>
    have hstep := h.step (hturns t List.mem_cons_self)
    have hrest := ih hstep.inv fun t' ht' => hturns t' (List.mem_cons_of_mem t ht')
    exact ⟨hrest.inv,hstep.steps.trans hrest.steps⟩

def run (turns : List Turn) : Controller := Runs.final step start turns

/-- In every interleaving of the informers, the handlers, the worker, the garbage
collection and the goroutines the manager ends up with the ports that the stores ask for,
and only syncers of such ports run. -/
theorem ports_converge (turns : List Turn) (hturns : ∀ t ∈ turns, t.Ordinary) :
    (run turns).crashed = false ∧
    ((run turns).Quiet → ∀ key, IsServiceKey key →
      (run turns).system.manager.svcPortMap.lookup key = wanted (run turns).informers.stores key ∧
      ∀ r < (run turns).system.manager.next, ((run turns).system.manager.heap r).stopped = false →
        ((run turns).system.manager.heap r).servicePort.service = key →
        ((run turns).system.manager.heap r).servicePort.targetPort ∈
          (wanted (run turns).informers.stores key).getD []) := by
  obtain ⟨hinv,hsteps⟩ : Follows start (run turns) := inv_start.run hturns
  refine ⟨hinv.calm,fun hquiet key hkey => ?_⟩
  have hstart : Reconciler.Attended reconciler (fun w k d => d = wanted w k.1) Knows start.abstracted ⟨key,hkey⟩ :=
    .right (by simp [abstracted,Loop.state,start]) rfl
  have hend := hstart.steps reconciler_sound hsteps
  have hports : (run turns).system.manager.svcPortMap.lookup key = wanted (run turns).informers.stores key := by
    apply hend.right_of_quiet
    · exact hquiet.worker.not_awaits _
    · have hnone : (run turns).informers.notes = [] := by simp [Informers.notes,hquiet.svcNotes,hquiet.ingNotes]
      exact hnone
    · exact Loop.working_of_not_processing (by rw [hquiet.worker.phase]; rfl)
  refine ⟨hports,fun r hr hrun hservice => ?_⟩
  have hcovered := hinv.system.safe.covered r hr hrun
  rw [hservice,Manager.ports] at hcovered
  rw [← hports]
  exact hcovered

/-- A Service comes, then an Ingress that refers to it while the Service is processed. -/
def webTurns : List Turn :=
  [.change (.putService webService),.handleService,.poll,.read,.change (.putIngress webIngress),.read,.act [],
    .handleIngress .inOrder,.queue (.settle 0),.queue .done,.poll,.read,.read,.act [],.queue (.settle 0),.queue .done]

theorem ports_converge_web : (run webTurns).Quiet ∧
    (run webTurns).system.manager.svcPortMap.lookup ⟨"default".toList,"web".toList⟩ =
      wanted (run webTurns).informers.stores ⟨"default".toList,"web".toList⟩ := by
  have hquiet : (run webTurns).Quiet :=
    ⟨by decide +kernel,by decide +kernel,by decide +kernel,by decide +kernel,by decide +kernel,by decide +kernel⟩
  have hrules : webIngress.rules = [] := rfl
  have hordinary : ∀ t ∈ webTurns, t.Ordinary := by simp [webTurns,Turn.Ordinary,NEG.Ordinary,hrules]
  exact ⟨hquiet,((ports_converge webTurns hordinary).2 hquiet _ (by decide)).1⟩

/-! ## How often a Service is tried again -/

/-- The turn is a handler of the informers, which puts keys into the queue. -/
def Turn.Enqueues : Turn → Prop
  | .handleService | .handleIngress _ => True
  | .change _ | .poll | .read | .act _ | .queue _ | .manager _ => False

/-- What a turn can do to the queue and its worker. -/
theorem worker_step (s : Controller) (t : Turn) : (s.step t).loop.worker = s.loop.worker ∨
    (t.Enqueues ∧ ∃ keys, (s.step t).loop.worker = s.loop.worker.addAll keys) ∨
    ∃ turn, (∀ key, turn ≠ .add key) ∧ (s.step t).loop.worker = s.loop.worker.step serviceWorker turn := by
  unfold Controller.step
  split
  · exact Or.inl rfl
  · cases t with
    | change c => exact Or.inl rfl
    | handleService =>
      dsimp only [Controller.handleService]
      split
      · exact Or.inl rfl
      · exact Or.inr (Or.inl ⟨trivial,_,rfl⟩)
    | handleIngress order =>
      dsimp only [Controller.handleIngress]
      split
      · exact Or.inl rfl
      · split
        · exact Or.inl rfl
        · exact Or.inr (Or.inl ⟨trivial,_,rfl⟩)
    | poll => exact Or.inr (Or.inr ⟨.poll,(fun _ h => by cases h),rfl⟩)
    | read => exact Or.inl (Loop.worker_read _)
    | act interference =>
      dsimp only [Controller.act]
      split
      · exact Or.inr (Or.inr ⟨.finish false,(fun _ h => by cases h),rfl⟩)
      · exact Or.inr (Or.inr ⟨.finish true,(fun _ h => by cases h),rfl⟩)
      · exact Or.inr (Or.inr ⟨.finish _,(fun _ h => by cases h),rfl⟩)
      · exact Or.inl rfl
      · exact Or.inl rfl
    | queue t =>
      dsimp only [Loop.queue]
      split
      · next ht =>
        refine Or.inr (Or.inr ⟨t,?_,rfl⟩)
        rintro key rfl
        cases ht
      · exact Or.inl rfl
    | manager t =>
      left
      dsimp only [Controller.manager]
      split <;> rfl

theorem Counted.step {s : Controller} (h : s.loop.worker.Counted serviceWorker) (t : Turn) :
    (s.step t).loop.worker.Counted serviceWorker := by
  rcases worker_step s t with heq | ⟨_,keys,heq⟩ | ⟨turn,_,heq⟩
  · rwa [heq]
  · rw [heq]
    exact h.addAll keys
  · rw [heq]
    exact h.step turn

theorem counted_run (turns : List Turn) : (run turns).loop.worker.Counted serviceWorker :=
  Runs.final_invariant (I := fun s : Controller => s.loop.worker.Counted serviceWorker)
    (fun _ t h => Counted.step h t) Worker.counted_start turns

theorem backoff_pos (failures : ℕ) : 0 < serviceWorker.limiter.backoff failures := by
  have hpow : 0 < 2 ^ failures := Nat.two_pow_pos failures
  simp only [RateLimiter.backoff,serviceWorker,TaskQueue.defaultControllerRateLimiter]
  omega

theorem mem_entries_of_step {s : Controller} {t : Turn} {e : WaitFor Str} (h : e ∈ (s.step t).loop.worker.queue.entries) :
    e ∈ s.loop.worker.queue.entries ∨ s.loop.worker.Defers serviceWorker e := by
  rcases worker_step s t with heq | ⟨_,keys,heq⟩ | ⟨turn,_,heq⟩
  · rw [heq] at h
    exact Or.inl h
  · rw [heq,Worker.entries_addAll] at h
    exact Or.inl h
  · rw [heq] at h
    exact Worker.mem_entries_of_step h

/-- Every entry that waits goes back to a failure at some time of the run. -/
theorem defers_of_entry {turns : List Turn} {e : WaitFor Str} (h : e ∈ (run turns).loop.worker.queue.entries) :
    ∃ earlier, earlier <+: turns ∧ (run earlier).loop.worker.Defers serviceWorker e := by
  have hstart : e ∉ start.loop.worker.queue.entries := List.not_mem_nil
  exact Runs.exists_prefix_of_final (P := fun s : Controller => e ∈ s.loop.worker.queue.entries)
    (fun _ _ hstep => mem_entries_of_step hstep) hstart h

theorem ready_of_step {s : Controller} {t : Turn} (ht : ¬t.Enqueues) {key : Str}
    (h : key ∈ (s.step t).loop.worker.queue.base.dirty) :
    key ∈ s.loop.worker.queue.base.dirty ∨ s.loop.worker.queue.Ready key := by
  rcases worker_step s t with heq | ⟨henqueues,_⟩ | ⟨turn,hadd,heq⟩
  · rw [heq] at h
    exact Or.inl h
  · exact absurd henqueues ht
  · rw [heq] at h
    exact Worker.ready_of_step backoff_pos hadd h

/-- A Service that no handler puts into the queue is taken up again only when the delay of
one of its failures has passed. -/
theorem waited_of_step {turns : List Turn} {t : Turn} (ht : ¬t.Enqueues) {key : Str}
    (hnew : key ∉ (run turns).loop.worker.queue.base.dirty)
    (h : key ∈ ((run turns).step t).loop.worker.queue.base.dirty) :
    ∃ earlier, earlier <+: turns ∧ (run earlier).loop.worker.phase = .returned key false ∧
      Worker.consecutive (run earlier).loop.worker.trace key < maxRetries ∧
      (run earlier).loop.worker.queue.now +
        min (5000000 * 2 ^ Worker.consecutive (run earlier).loop.worker.trace key) 1000000000000 ≤
          (run turns).loop.worker.queue.now := by
  obtain ⟨e,hmem,rfl,hready⟩ := (ready_of_step ht h).resolve_left hnew
  obtain ⟨earlier,hpre,hdefers⟩ := defers_of_entry hmem
  have hcount := (counted_run earlier).failures e.data
  have hretries := hdefers.retries
  have hdelay := hdefers.delay
  rw [hcount] at hretries hdelay
  refine ⟨earlier,hpre,hdefers.failed,?_,hdelay.trans hready⟩
  simpa [Worker.Policy.retries,serviceWorker] using hretries

/-- A Service whose processing fails is put back into the queue at most fifteen times in a
row, each time with at least the delay that the failures before ask for, and it is dropped
exactly when it has been put back so often. The delay passes on the clock: unless a handler
puts the Service into the queue, it is taken up again only when the delay of one of its
failures has passed. -/
theorem retries_bounded (turns : List Turn) (key : Str) :
    Worker.consecutive (run turns).loop.worker.trace key ≤ maxRetries ∧
    (∀ later earlier delay, (run turns).loop.worker.trace = later ++ .retried key delay :: earlier →
      min (5000000 * 2 ^ Worker.consecutive earlier key) 1000000000000 ≤ delay ∧
      Worker.consecutive earlier key < maxRetries) ∧
    (∀ later earlier, (run turns).loop.worker.trace = later ++ .dropped key :: earlier →
      Worker.consecutive earlier key = maxRetries) ∧
    ∀ t : Turn, ¬t.Enqueues → key ∉ (run turns).loop.worker.queue.base.dirty →
      key ∈ ((run turns).step t).loop.worker.queue.base.dirty →
      ∃ earlier, earlier <+: turns ∧ (run earlier).loop.worker.phase = .returned key false ∧
        Worker.consecutive (run earlier).loop.worker.trace key < maxRetries ∧
        (run earlier).loop.worker.queue.now +
          min (5000000 * 2 ^ Worker.consecutive (run earlier).loop.worker.trace key) 1000000000000 ≤
            (run turns).loop.worker.queue.now := by
  have hpatient := (counted_run turns).patient
  refine ⟨Worker.consecutive_le_of_patient rfl hpatient key,fun later earlier delay htrace => ?_,
    fun later earlier htrace => ?_,fun t ht hnew h => waited_of_step ht hnew h⟩
  · rw [htrace] at hpatient
    obtain ⟨hdelay,hretries,_⟩ := hpatient.of_append
    exact ⟨hdelay,by simpa [Worker.Policy.retries,serviceWorker] using hretries⟩
  · rw [htrace] at hpatient
    obtain ⟨hretries,hearlier⟩ := hpatient.of_append
    have hle := Worker.consecutive_le_of_patient (p := serviceWorker) rfl hearlier key
    have hge : ¬Worker.consecutive earlier key < maxRetries := by
      simpa [Worker.Policy.retries,serviceWorker] using hretries
    omega

end Controller
end IngressGce.NEG
