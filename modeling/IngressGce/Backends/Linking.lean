import IngressGce.Backends.Stepwise
import IngressGce.Backends.Tracking
import IngressGce.Naming.NEGNames

/-! # Instance groups and NEGs of a backend service

`Ensure` adds instance groups to a backend service and keeps those that are there; `Link`
replaces whatever is there by NEGs. A backend service can not have both, and at no moment
of a run of the two operations it does.
-/
namespace IngressGce.Backends
open Prog Proc

/-- The limit for each endpoint, which only this version of the API has, is left out. -/
def getBackendsForNEGs (negs : List Str) : List Backend :=
  negs.map (fun neg => { group := neg, balancingMode := .rate, maxRatePerInstance := 0 })

def sameSet (xs ys : List Str) : Bool := xs.all (· ∈ ys) && ys.all (· ∈ xs)

/-- The getter finds the link of a NEG by its name and its zone. If the namer panics, the
cloud is left as it is. -/
def Stepwise.link (b : Backends) (md5 : MD5) (getNetworkEndpointGroup : Str → Str → Except GoError Str)
    (port : ServicePort) (zones : List Str) : WorldM Unit :=
  if !port.negEnabled then pure ()
  else
    match b.namer.neg md5 ⟨port.svcNamespace,port.svcName,port.svcTargetPort⟩ with
    | none => Steps.fail (.text "slice bounds out of range".toList)
    | some negName =>
      match zones.mapM (getNetworkEndpointGroup negName) with
      | .error e => Steps.fail e
      | .ok negs => do
        let backendService ←
          call (onServices (Store.readObject (b.namer.backend port.port) (b.view (b.namer.backend port.port))))
        Steps.onlyIf (!sameSet (backendService.backends.map Backend.group) ((getBackendsForNEGs negs).map Backend.group))
          (call (updateGlobalBackendService { backendService with backends := getBackendsForNEGs negs }))

/-- How the links of instance groups are told from those of NEGs. -/
def IsInstanceGroup (group : Str) : Prop := "instanceGroups".toList <:+: group

instance (group : Str) : Decidable (IsInstanceGroup group) := inferInstanceAs (Decidable ("instanceGroups".toList <:+: group))

def backendsOf (b : Backends) (port : ℤ) (w : World) : List Backend :=
  ((w.pool.services.items (b.namer.backend port)).map (fun x => x.object.backends)).getD []

def OneKind (bs : List Backend) : Prop :=
  (∀ x ∈ bs, IsInstanceGroup x.group) ∨ ∀ x ∈ bs, ¬IsInstanceGroup x.group

/-- Between the two moments, an update with this mode was answered with a bad request. -/
def RejectedSince (bm : BalancingMode) (w w' : World) : Prop := ∃ new, w'.trace = new ++ w.trace ∧ .rejected bm ∈ new

theorem RejectedSince.note {bm : BalancingMode} {w w' : World} (h : RejectedSince bm w w') (e : Event) :
    RejectedSince bm w { w' with trace := e :: w'.trace } := by
  obtain ⟨new,htrace,hmem⟩ := h
  exact ⟨e :: new,by rw [htrace]; rfl,List.mem_cons_of_mem _ hmem⟩

/-- An operation on a port. -/
inductive PortCall
  | ensure (sp : ServicePort) (around : Surroundings)
  | link (sp : ServicePort) (zones : List Str) (getNetworkEndpointGroup : Str → Str → Except GoError Str)

namespace PortCall

def steps (b : Backends) (md5 : MD5) : PortCall → WorldM Unit
  | ensure sp around => Stepwise.ensure b [sp] around
  | link sp zones getNetworkEndpointGroup => Stepwise.link b md5 getNetworkEndpointGroup sp zones

/-- The operation is on this port, and the links it is given are of their kinds. -/
def Valid (port : ℤ) : PortCall → Prop
  | ensure sp around => sp.port = port ∧ ∀ igs, around.instanceGroups = .ok igs → ∀ ig ∈ igs, IsInstanceGroup ig
  | link sp _ getNetworkEndpointGroup => sp.port = port ∧
      ∀ negName zone neg, getNetworkEndpointGroup negName zone = .ok neg → ¬IsInstanceGroup neg

def IsEnsure : PortCall → Prop
  | ensure _ _ => True
  | link _ _ _ => False

/-- The instance groups that the backend service is to have. -/
def wantedGroups : PortCall → List Str
  | ensure sp around =>
    match around.instanceGroups with
    | .ok igs => if sp.negEnabled then [] else igs
    | .error _ => []
  | link _ _ _ => []

end PortCall

/-- What holds at every moment of an operation that has started in the world `w`. -/
structure Moment (b : Backends) (port : ℤ) (c : PortCall) (w w' : World) : Prop where
  oneKind : OneKind (b.backendsOf port w')
  kept : c.IsEnsure → ∀ x ∈ b.backendsOf port w, IsInstanceGroup x.group → x ∈ b.backendsOf port w'
  added : ∃ bm, (∀ x ∈ b.backendsOf port w', x ∉ b.backendsOf port w → x.balancingMode = bm) ∧
    (bm = .rate ∨ RejectedSince .rate w w')

/-- What holds when the operation has returned. -/
structure Outcome (b : Backends) (port : ℤ) (c : PortCall) (w : World) (r : Except GoError Unit)
    (bs : List Backend) : Prop where
  complete : r = .ok () → ∀ ig ∈ c.wantedGroups, ∃ x ∈ bs, x.group = ig
  unchanged : w.pool.services.FailsCleanly → ∀ e, r = .error e → bs = b.backendsOf port w

/-- What an operation may make of the backend service, by the mode it uses. -/
structure Change (b : Backends) (port : ℤ) (c : PortCall) where
  before : World
  next : BalancingMode → List Backend → Prop
  before_oneKind : OneKind (b.backendsOf port before)
  next_oneKind : ∀ bm bs, next bm bs → OneKind bs
  next_kept : c.IsEnsure → ∀ bm bs, next bm bs → ∀ x ∈ b.backendsOf port before, IsInstanceGroup x.group → x ∈ bs
  next_mode : ∀ bm bs, next bm bs → ∀ x ∈ bs, x ∉ b.backendsOf port before → x.balancingMode = bm

namespace Change
variable {b : Backends} {port : ℤ} {c : PortCall} (d : Change b port c)

/-- The backend service may have these backends now. -/
def Allowed (w : World) (bs : List Backend) : Prop :=
  bs = b.backendsOf port d.before ∨ ∃ bm, d.next bm bs ∧ (bm = .rate ∨ RejectedSince .rate d.before w)

structure Going (w : World) : Prop where
  faults : w.pool.services.faults = d.before.pool.services.faults
  trace : ∃ new, w.trace = new ++ d.before.trace
  backends : d.Allowed w (b.backendsOf port w)

variable {d}

theorem Going.moment {w : World} (h : d.Going w) : Moment b port c d.before w := by
  rcases h.backends with hsame | ⟨bm,hnext,hbm⟩
  · refine ⟨?_,?_,.rate,?_,Or.inl rfl⟩
    · rw [hsame]
      exact d.before_oneKind
    · intro _ x hx _
      rwa [hsame]
    · intro x hx hnot
      rw [hsame] at hx
      exact absurd hx hnot
  · exact ⟨d.next_oneKind bm _ hnext,fun hc => d.next_kept hc bm _ hnext,bm,d.next_mode bm _ hnext,hbm⟩

variable (d) in
def having (P : List Backend → Prop) : Assertion .none (Moment b port c d.before) :=
  .alone (fun w => d.Going w ∧ P (b.backendsOf port w)) fun _ h => h.1.moment

variable (d) in
/-- In addition, this mode may be used. -/
def trying (bm : BalancingMode) (P : List Backend → Prop) : Assertion .none (Moment b port c d.before) :=
  .alone (fun w => d.Going w ∧ (bm = .rate ∨ RejectedSince .rate d.before w) ∧ P (b.backendsOf port w))
    fun _ h => h.1.moment

variable (d) in
def Pending (bs : List Backend) : Prop := bs = b.backendsOf port d.before

variable {P : List Backend → Prop}

/-! ## Steps that leave the backends as they are -/

def Untouched (w w' : Pool) : Prop := w'.services.items = w.services.items ∧ w'.services.faults = w.services.faults

theorem having_same {w : World} {p : Pool} (hw : d.having P w) (hfaults : p.services.faults = w.pool.services.faults)
    (hsame : b.backendsOf port { w with pool := p } = b.backendsOf port w) : d.having P { w with pool := p } := by
  obtain ⟨hgoing,hP⟩ := hw
  refine ⟨⟨hfaults.trans hgoing.faults,hgoing.trace,?_⟩,?_⟩
  · rw [hsame]
    exact hgoing.backends
  · rwa [hsame]

theorem having_untouched {w : World} {p : Pool} (hw : d.having P w) (h : Untouched w.pool p) :
    d.having P { w with pool := p } := by
  apply having_same hw h.2
  unfold backendsOf
  rw [h.1]

theorem keeps_untouched {α : Type} {m : PoolM α} (locking : Bool) (hm : Respects Untouched m) :
    Steps.Keeps (d.having P) (Steps.atom locking (onPool m)) :=
  Steps.outline_atom fun w hw _ => having_untouched hw (hm w.pool)

theorem keeps_health {α : Type} (m : HealthM α) : Steps.Keeps (d.having P) (call (onHealth m)) :=
  keeps_untouched false fun _ => ⟨rfl,rfl⟩

theorem keeps_track (key : Str) : Steps.Keeps (d.having P) (access (update (fun w => w.track key))) :=
  keeps_untouched true fun _ => ⟨rfl,rfl⟩

theorem Going.note {w : World} (h : d.Going w) (e : Event) : d.Going { w with trace := e :: w.trace } := by
  obtain ⟨new,htrace⟩ := h.trace
  refine ⟨h.faults,⟨e :: new,by rw [htrace]; rfl⟩,?_⟩
  rcases h.backends with hsame | ⟨bm,hnext,hbm⟩
  · exact Or.inl hsame
  · exact Or.inr ⟨bm,hnext,hbm.imp_right fun h => h.note e⟩

theorem keeps_note (e : Event) : Steps.Keeps (d.having P) (note e) :=
  Steps.outline_atom fun _ hw _ => ⟨hw.1.note e,hw.2⟩

/-! ## Reading and writing the backend service -/

/-- What is read is the backend service of the port as it was before. -/
def Read (d : Change b port c) (r : Except GoError BackendService) (bs : List Backend) : Prop :=
  d.Pending bs ∧ ∀ be, r = .ok be → be.name = b.namer.backend port ∧ be.backends = b.backendsOf port d.before

theorem backends_read {w : World} {be : BackendService}
    (h : (Store.readObject (b.namer.backend port) (b.view (b.namer.backend port)) w.pool.services).1 = .ok be) :
    be.name = b.namer.backend port ∧ be.backends = b.backendsOf port w := by
  obtain ⟨x,hx,_,rfl⟩ := Store.onItem_ok_iff.mp h
  refine ⟨rfl,?_⟩
  unfold backendsOf
  rw [hx]
  rfl

theorem outline_read : Outline (d.having d.Pending)
    (call (onServices (Store.readObject (b.namer.backend port) (b.view (b.namer.backend port)))))
    (fun r => d.having (d.Read r)) := by
  have hread : Respects Untouched
      (onServices (Store.readObject (b.namer.backend port) (b.view (b.namer.backend port)))) := fun w =>
    ⟨Store.readObject_ensures _,(Store.onItem_served _).faults⟩
  refine Steps.outline_atom fun w hw _ => ?_
  have hsame := having_untouched hw (hread w.pool)
  refine ⟨hsame.1,hsame.2,fun be hbe => ?_⟩
  obtain ⟨hname,hbackends⟩ := backends_read hbe
  exact ⟨hname,hbackends.trans hw.2⟩

/-- An update replaces the backends or leaves them, and if calls fail cleanly the error
tells which. -/
structure Updated (b : Backends) (port : ℤ) (bs : List Backend) (w : World) (r : Except GoError Unit)
    (w' : World) : Prop where
  faults : w'.pool.services.faults = w.pool.services.faults
  trace : w'.trace = w.trace
  backends : b.backendsOf port w' = b.backendsOf port w ∨ b.backendsOf port w' = bs
  answered : r = .ok () → b.backendsOf port w' = bs
  clean : w.pool.services.FailsCleanly → ∀ e, r = .error e → b.backendsOf port w' = b.backendsOf port w

theorem update_updated {be : BackendService} (hname : be.name = b.namer.backend port) (w : World) :
    Ensures (onPool (updateGlobalBackendService be)) w (Updated b port be.backends w) := by
  have hserved : Store.ServedItem be.name _ w.pool.services _ _ :=
    Store.onItem_served (fun x : Owned BackendService => ((),some { x with object := be }))
  have hsame : ∀ s : Store Str (Owned BackendService), s.items = w.pool.services.items →
      b.backendsOf port { w with pool := { w.pool with services := s } } = b.backendsOf port w := by
    intro s hitems
    unfold backendsOf
    rw [hitems]
  have hnew : ∀ (s : Store Str (Owned BackendService)) (x : Owned BackendService),
      s.items = Function.update w.pool.services.items be.name (some { x with object := be }) →
      b.backendsOf port { w with pool := { w.pool with services := s } } = be.backends := by
    intro s x hitems
    unfold backendsOf
    rw [hitems,hname,Function.update_self]
    rfl
  refine ⟨hserved.faults,rfl,?_,?_,?_⟩
  · rcases hserved.items with hitems | ⟨x,_,hitems⟩
    · exact Or.inl (hsame _ hitems)
    · exact Or.inr (hnew _ x hitems)
  · intro hok
    obtain ⟨x,_,_,hitems⟩ := hserved.answer () hok
    exact hnew _ x hitems
  · intro hclean e he
    have hcall : Ensures (Store.replaceObject be.name be) w.pool.services (fun r s =>
        ∀ e, r = .error e → s.items = w.pool.services.items) := hclean.call _
    exact hsame _ (hcall e he)

theorem outline_update {be : BackendService} (bm : BalancingMode) (hname : be.name = b.namer.backend port)
    (hbe : d.Pending be.backends ∨ d.next bm be.backends) :
    Outline (d.trying bm P) (call (updateGlobalBackendService be)) (fun r => d.trying bm (fun bs =>
      (r = .ok () → bs = be.backends) ∧ (P bs ∨ bs = be.backends) ∧
      (d.before.pool.services.FailsCleanly → ∀ e, r = .error e → P bs))) := by
  refine Steps.outline_atom fun w hw _ => ?_
  obtain ⟨hgoing,hbm,hP⟩ := hw
  refine (update_updated hname w).mono ?_
  intro r w' h
  have hrejected : bm = .rate ∨ RejectedSince .rate d.before w' := by
    unfold RejectedSince
    rw [h.trace]
    exact hbm
  refine ⟨⟨h.faults.trans hgoing.faults,by rw [h.trace]; exact hgoing.trace,?_⟩,hrejected,h.answered,?_,?_⟩
  · rcases h.backends with hsame | hnew
    · unfold Allowed RejectedSince
      rw [hsame,h.trace]
      exact hgoing.backends
    · rw [hnew]
      exact hbe.imp_right fun hnext => ⟨bm,hnext,hrejected⟩
  · rcases h.backends with hsame | hnew
    · exact Or.inl (hsame ▸ hP)
    · exact Or.inr hnew
  · intro hclean e he
    have hclean' : w.pool.services.FailsCleanly := by
      unfold Store.FailsCleanly
      rw [hgoing.faults]
      exact hclean
    rw [h.clean hclean' e he]
    exact hP

/-! ## The operations -/

variable (d) in
/-- Nothing has been changed by calls that fail cleanly. -/
def Clean (bs : List Backend) : Prop := d.before.pool.services.FailsCleanly → d.Pending bs

variable (d) in
def ended (r : Except GoError Unit) : Assertion .none (Moment b port c d.before) :=
  d.having (Outcome b port c d.before r)

theorem outcome_error {bs : List Backend} (e : GoError) (h : d.Clean bs) : Outcome b port c d.before (.error e) bs :=
  ⟨nofun,fun hclean _ _ => h hclean⟩

theorem outline_tryModes {be : BackendService} {original : List Backend} {addIGs : List Str}
    (hname : be.name = b.namer.backend port) (hnext : ∀ bm, d.next bm (original ++ getBackendsForIGs addIGs bm))
    (hwanted : ∀ bm, ∀ ig ∈ c.wantedGroups, ∃ x ∈ original ++ getBackendsForIGs addIGs bm, x.group = ig)
    (errs : List Str) (modes : List BalancingMode) :
    Outline (d.trying (modes.headD .rate) d.Clean) (Stepwise.tryModes be original addIGs errs modes) d.ended := by
  induction modes generalizing errs with
  | nil => exact Steps.outline_fail fun w hw => ⟨hw.1,outcome_error _ hw.2.2⟩
  | cons bm modes ih =>
    refine Steps.outline_rescue (outline_update bm hname (Or.inr (hnext bm))) ?_ fun e => ?_
    · rintro a w ⟨hgoing,_,hanswered,_⟩
      refine ⟨hgoing,fun _ => ?_,nofun⟩
      rw [hanswered rfl]
      exact hwanted bm
    · split
      · -- the next mode may be used because this one was RATE, or because RATE was rejected earlier
        refine Steps.outline_bind (Steps.outline_atom (Q := fun _ => d.trying (modes.headD .rate) d.Clean) ?_)
          (fun _ => ih _) (fun e w hw => ⟨hw.1,outcome_error e hw.2.2⟩)
        rintro w ⟨hgoing,hbm,_,_,hclean⟩ _
        refine ⟨hgoing.note _,Or.inr ?_,fun h => hclean h e rfl h⟩
        rcases hbm with rfl | hrejected
        · obtain ⟨new,htrace⟩ := hgoing.trace
          exact ⟨.rejected .rate :: new,congrArg (_ :: ·) htrace,List.mem_cons_self⟩
        · exact hrejected.note _
      · refine Steps.outline_fail ?_
        rintro w ⟨hgoing,_,_,_,hclean⟩
        exact ⟨hgoing,outcome_error e fun h => hclean h e rfl h⟩

end Change

def hopped (bs : List Backend) (igs : List Str) (bm : BalancingMode) : List Backend :=
  bs.filter (fun backend => "instanceGroups".toList <:+: backend.group) ++
    getBackendsForIGs (igs.filter (fun ig => ig ∉ bs.map Backend.group)) bm

section Hopping
variable {bs : List Backend} {igs : List Str} {bm : BalancingMode}

theorem mem_getBackendsForIGs {x : Backend} (h : x ∈ getBackendsForIGs igs bm) :
    x.group ∈ igs ∧ x.balancingMode = bm := by
  obtain ⟨ig,hig,rfl⟩ := List.mem_map.mp h
  exact ⟨hig,rfl⟩

theorem hopped_instanceGroups (higs : ∀ ig ∈ igs, IsInstanceGroup ig) : ∀ x ∈ hopped bs igs bm, IsInstanceGroup x.group := by
  intro x hx
  rcases List.mem_append.mp hx with hx | hx
  · exact of_decide_eq_true (List.mem_filter.mp hx).2
  · exact higs _ (List.mem_filter.mp (mem_getBackendsForIGs hx).1).1

theorem hopped_kept {x : Backend} (hx : x ∈ bs) (hgroup : IsInstanceGroup x.group) : x ∈ hopped bs igs bm :=
  List.mem_append.mpr (Or.inl (List.mem_filter.mpr ⟨hx,decide_eq_true hgroup⟩))

theorem hopped_mode {x : Backend} (hx : x ∈ hopped bs igs bm) (hnot : x ∉ bs) : x.balancingMode = bm := by
  rcases List.mem_append.mp hx with hx | hx
  · exact absurd (List.mem_filter.mp hx).1 hnot
  · exact (mem_getBackendsForIGs hx).2

theorem hopped_complete (higs : ∀ ig ∈ igs, IsInstanceGroup ig) :
    ∀ ig ∈ igs, ∃ x ∈ hopped bs igs bm, x.group = ig := by
  intro ig hig
  by_cases hmem : ig ∈ bs.map Backend.group
  · obtain ⟨x,hx,rfl⟩ := List.mem_map.mp hmem
    exact ⟨x,hopped_kept hx (higs _ hig),rfl⟩
  · have hadd : ig ∈ igs.filter (fun ig => ig ∉ bs.map Backend.group) := List.mem_filter.mpr ⟨hig,decide_eq_true hmem⟩
    exact ⟨_,List.mem_append.mpr (Or.inr (List.mem_map_of_mem hadd)),rfl⟩

end Hopping

namespace Change
section Ensuring
variable {b : Backends} {sp : ServicePort} {around : Surroundings} {d : Change b sp.port (.ensure sp around)}

theorem outline_edgeHop {be : BackendService} {igs : List Str} (higs : ∀ ig ∈ igs, IsInstanceGroup ig)
    (hnext : ∀ bm, d.next bm (hopped (b.backendsOf sp.port d.before) igs bm))
    (hwanted : (PortCall.ensure sp around).wantedGroups = igs) (hname : be.name = b.namer.backend sp.port)
    (hbe : be.backends = b.backendsOf sp.port d.before) :
    Outline (d.having d.Pending) (Stepwise.edgeHop be igs) d.ended := by
  unfold Stepwise.edgeHop
  split
  · rename_i hall
    refine Steps.outline_pure ?_
    rintro w ⟨hgoing,hpending⟩
    refine ⟨hgoing,fun _ ig hig => ?_,nofun⟩
    rw [hwanted] at hig
    have hmem : ig ∈ be.backends.map Backend.group := by simpa using List.all_eq_true.mp hall ig hig
    rw [hbe,← hpending] at hmem
    exact List.mem_map.mp hmem
  · refine (outline_tryModes hname ?_ ?_ [] [.rate,.utilization]).weaken
      (fun w hw => ⟨hw.1,Or.inl rfl,fun _ => hw.2⟩) (fun _ _ hw => hw)
    · rw [hbe]
      exact hnext
    · rw [hbe,hwanted]
      exact fun bm => hopped_complete higs

theorem outline_get : Outline (d.having d.Pending) (Stepwise.get b sp.port) (fun r => d.having (d.Read r)) := by
  refine Steps.outline_bind outline_read (fun be => ?_) (fun _ _ hw => hw)
  refine Steps.outline_bind (keeps_track _) (fun _ => Steps.outline_pure fun _ hw => hw) ?_
  rintro e w ⟨hgoing,hpending,_⟩
  exact ⟨hgoing,hpending,nofun⟩

theorem keeps_create (portName hcLink : Str) : Steps.Keeps (d.having d.Pending)
    (call (onServices (Store.createObject (b.namer.backend sp.port)
      (Stepwise.newService b portName hcLink sp (b.namer.backend sp.port))))) := by
  refine Steps.outline_atom fun w hw _ => ?_
  obtain ⟨hfaults,_,hitems,_⟩ := Store.insert_served (k := b.namer.backend sp.port) (w := w.pool.services)
    (Owned.mk (Stepwise.newService b portName hcLink sp (b.namer.backend sp.port)) true)
  rcases hitems with hitems | ⟨hnone,hitems⟩
  · exact having_untouched hw ⟨hitems,hfaults⟩
  · apply having_same hw hfaults
    have hempty : b.backendsOf sp.port w = [] := by
      unfold backendsOf
      rw [hnone]
      rfl
    rw [hempty]
    have hnew := congrFun hitems (b.namer.backend sp.port)
    rw [Function.update_self] at hnew
    exact congrArg (fun item : Option (Owned BackendService) => (item.map (fun x => x.object.backends)).getD []) hnew

variable (d) in
def looked : Except GoError (Option BackendService) → Assertion .none (Moment b sp.port (.ensure sp around) d.before)
  | .ok (some be) => d.having (d.Read (.ok be))
  | .ok none => d.having d.Pending
  | .error _ => d.having d.Pending

theorem outline_getOrCreate (hcLink : Str) :
    Outline (d.having d.Pending) (Stepwise.getOrCreate b sp hcLink) (fun r => d.having (d.Read r)) := by
  refine Steps.outline_bind (R := d.looked) (Steps.outline_orNil ?_) (fun found => ?_) ?_
  · refine outline_get.weaken (fun _ hw => hw) fun r w hw => ?_
    cases r with
    | ok be => exact hw
    | error e => exact ⟨hw.1,hw.2.1⟩
  · cases found with
    | some be => exact Steps.outline_pure fun _ hw => hw
    | none =>
      refine Steps.outline_bind (keeps_create _ hcLink) (fun _ => outline_get) ?_
      exact fun _ _ hw => ⟨hw.1,hw.2,nofun⟩
  · exact fun _ _ hw => ⟨hw.1,hw.2,nofun⟩

theorem outline_refresh {be : BackendService} (hcLink : Str) (hname : be.name = b.namer.backend sp.port)
    (hbe : be.backends = b.backendsOf sp.port d.before) :
    Outline (d.having d.Pending) (Stepwise.refresh be sp hcLink) (fun r => d.having (d.Read r)) := by
  have hread : ∀ be' : BackendService, be'.name = be.name → be'.backends = be.backends → ∀ w,
      d.having d.Pending w → d.having (d.Read (.ok be')) w := by
    rintro be' hname' hbe' w ⟨hgoing,hpending⟩
    refine ⟨hgoing,hpending,?_⟩
    rintro _ ⟨⟩
    exact ⟨hname'.trans hname,hbe'.trans hbe⟩
  have hupdate : Outline (d.trying .rate d.Pending) (call (updateGlobalBackendService (wanted be sp hcLink))) _ :=
    outline_update .rate hname (Or.inl hbe)
  unfold Stepwise.refresh
  split
  · refine Steps.outline_bind (R := fun _ => d.having d.Pending) (hupdate.weaken ?_ ?_) (fun _ => ?_) ?_
    · exact fun w hw => ⟨hw.1,Or.inl rfl,hw.2⟩
    · rintro r w ⟨hgoing,_,_,hbackends,_⟩
      exact ⟨hgoing,hbackends.elim id fun h => h.trans hbe⟩
    · exact Steps.outline_pure (hread _ rfl rfl)
    · exact fun e w hw => ⟨hw.1,hw.2,nofun⟩
  · exact Steps.outline_pure (hread be rfl rfl)

theorem outline_ensureBackendService {igs : List Str} (higs : ∀ ig ∈ igs, IsInstanceGroup ig)
    (haround : around.instanceGroups = .ok igs)
    (hnext : ∀ bm, d.next bm (hopped (b.backendsOf sp.port d.before) igs bm)) :
    Outline (d.having d.Pending) (Stepwise.ensureBackendService b around.prober igs sp) d.ended := by
  have hfail : ∀ e w, d.having d.Pending w → d.ended (.error e) w := fun e w hw =>
    ⟨hw.1,outcome_error e fun _ => hw.2⟩
  have hfact : ∀ be w, d.having (d.Read (.ok be)) w → be.name = b.namer.backend sp.port ∧
      be.backends = b.backendsOf sp.port d.before := fun be w hw => hw.2.2 be rfl
  refine Steps.outline_deferring (R := d.ended) ?_ fun r => keeps_track _
  refine Steps.outline_bind (keeps_ensureHealthCheck (fun _ => keeps_health) b around.prober sp) (fun hcLink => ?_) hfail
  refine Steps.outline_bind (outline_getOrCreate hcLink) (fun be => ?_) (fun e w hw => hfail e w ⟨hw.1,hw.2.1⟩)
  refine outline_of_fact (hfact be) fun ⟨hname,hbe⟩ => ?_
  refine Steps.outline_bind ((outline_refresh hcLink hname hbe).weaken (fun w hw => ⟨hw.1,hw.2.1⟩) fun _ _ hw => hw)
    (fun be' => ?_) (fun e w hw => hfail e w ⟨hw.1,hw.2.1⟩)
  refine outline_of_fact (hfact be') fun ⟨hname',hbe'⟩ => ?_
  have hdrop : Steps.Keeps (d.having d.Pending) (Stepwise.dropLegacy b be sp hcLink) :=
    ((keeps_health _).rescue fun _ => Steps.keeps_pure ()).onlyIf
  refine Steps.outline_bind (hdrop.weaken (fun w hw => ⟨hw.1,hw.2.1⟩) fun _ _ hw => hw) (fun _ => ?_) hfail
  refine Steps.outline_onlyIf (fun hcond => ?_) (fun hcond => ?_)
  · have hwanted : (PortCall.ensure sp around).wantedGroups = igs := by
      simp only [Bool.and_eq_true,Bool.not_eq_true'] at hcond
      simp [PortCall.wantedGroups,haround,hcond.2]
    exact outline_edgeHop higs hnext hwanted hname' hbe'
  · rintro w ⟨hgoing,hpending⟩
    have hwanted : (PortCall.ensure sp around).wantedGroups = [] := by
      simp only [PortCall.wantedGroups,haround]
      cases hneg : sp.negEnabled with
      | true => rfl
      | false => simpa [hneg] using hcond
    refine ⟨hgoing,?_,nofun⟩
    rw [hwanted]
    exact fun _ ig hig => absurd hig List.not_mem_nil

/-- `Ensure` may add the given groups with either mode. -/
def ofEnsure {b : Backends} {sp : ServicePort} {around : Surroundings} (w : World)
    (hw : OneKind (b.backendsOf sp.port w)) (h : (PortCall.ensure sp around).Valid sp.port) :
    Change b sp.port (.ensure sp around) where
  before := w
  next bm bs := ∃ igs, around.instanceGroups = .ok igs ∧ bs = hopped (b.backendsOf sp.port w) igs bm
  before_oneKind := hw
  next_oneKind := by
    rintro bm bs ⟨igs,higs,rfl⟩
    exact Or.inl (hopped_instanceGroups (h.2 igs higs))
  next_kept := by
    rintro _ bm bs ⟨igs,_,rfl⟩ x hx hgroup
    exact hopped_kept hx hgroup
  next_mode := by
    rintro bm bs ⟨igs,_,rfl⟩ x hx hnot
    exact hopped_mode hx hnot

theorem outline_ensure (hnext : ∀ igs bm, around.instanceGroups = .ok igs →
      d.next bm (hopped (b.backendsOf sp.port d.before) igs bm))
    (h : (PortCall.ensure sp around).Valid sp.port) :
    Outline (d.having d.Pending) (Stepwise.ensure b [sp] around) d.ended := by
  have hfail : ∀ e w, d.having d.Pending w → d.ended (.error e) w := fun e w hw =>
    ⟨hw.1,outcome_error e fun _ => hw.2⟩
  have hports : Outline (d.having d.Pending) (Stepwise.ensurePorts b [sp] around) d.ended := by
    unfold Stepwise.ensurePorts
    cases haround : around.instanceGroups with
    | error e => exact Steps.outline_fail (hfail e)
    | ok igs =>
      refine Steps.outline_bind
        (outline_ensureBackendService (h.2 igs haround) haround fun bm => hnext igs bm haround)
        (fun _ => ?_) (fun _ _ hw => hw)
      exact Steps.outline_pure fun _ hw => hw
  refine Steps.outline_bind (keeps_note _) (fun _ => ?_) hfail
  refine Steps.outline_bind hports (fun _ => ?_) (fun _ _ hw => hw)
  refine Steps.outline_atom fun w hw _ => ?_
  exact ⟨hw.1.note _,hw.2⟩

end Ensuring

section Linking
variable {b : Backends} {md5 : MD5} {sp : ServicePort} {zones : List Str}
  {getNetworkEndpointGroup : Str → Str → Except GoError Str}

theorem zone_of_mapM {f : Str → Except GoError Str} {negs : List Str} (h : zones.mapM f = .ok negs) :
    ∀ neg ∈ negs, ∃ zone, f zone = .ok neg := by
  induction zones generalizing negs with
  | nil =>
    obtain rfl : [] = negs := Except.ok.inj h
    simp
  | cons zone zones ih =>
    rw [List.mapM_cons] at h
    cases hzone : f zone with
    | error e =>
      rw [hzone] at h
      cases h
    | ok found =>
      rw [hzone] at h
      cases hrest : zones.mapM f with
      | error e =>
        rw [hrest] at h
        cases h
      | ok rest =>
        rw [hrest] at h
        obtain rfl : found :: rest = negs := Except.ok.inj h
        intro neg hneg
        rcases List.mem_cons.mp hneg with rfl | hneg
        · exact ⟨zone,hzone⟩
        · exact ih hrest neg hneg

/-- `Link` may replace everything by NEGs. -/
def ofLink (w : World) (hw : OneKind (b.backendsOf sp.port w)) :
    Change b sp.port (.link sp zones getNetworkEndpointGroup) where
  before := w
  next bm bs := bm = .rate ∧ ∃ negs, bs = getBackendsForNEGs negs ∧ ∀ neg ∈ negs, ¬IsInstanceGroup neg
  before_oneKind := hw
  next_oneKind := by
    rintro bm bs ⟨_,negs,rfl,hnegs⟩
    refine Or.inr fun x hx => ?_
    obtain ⟨neg,hneg,rfl⟩ := List.mem_map.mp hx
    exact hnegs neg hneg
  next_kept hc := hc.elim
  next_mode := by
    rintro bm bs ⟨rfl,negs,rfl,_⟩ x hx _
    obtain ⟨neg,_,rfl⟩ := List.mem_map.mp hx
    rfl

theorem outline_link {d : Change b sp.port (.link sp zones getNetworkEndpointGroup)}
    (hnext : ∀ negs, (∀ neg ∈ negs, ¬IsInstanceGroup neg) → d.next .rate (getBackendsForNEGs negs))
    (h : (PortCall.link sp zones getNetworkEndpointGroup).Valid sp.port) :
    Outline (d.having d.Pending) (Stepwise.link b md5 getNetworkEndpointGroup sp zones) d.ended := by
  have hwanted : ∀ ig, ig ∉ (PortCall.link sp zones getNetworkEndpointGroup).wantedGroups := fun _ => List.not_mem_nil
  have hend : ∀ r w, d.having d.Pending w → d.ended r w := by
    rintro r w ⟨hgoing,hpending⟩
    exact ⟨hgoing,fun _ ig hig => absurd hig (hwanted ig),fun _ _ _ => hpending⟩
  unfold Stepwise.link
  split
  · exact Steps.outline_pure (hend _)
  · split
    · exact Steps.outline_fail (hend _)
    · rename_i negName _
      split
      · exact Steps.outline_fail (hend _)
      · rename_i negs hnegs
        have hkinds : ∀ neg ∈ negs, ¬IsInstanceGroup neg := by
          intro neg hneg
          obtain ⟨zone,hzone⟩ := zone_of_mapM hnegs neg hneg
          exact h.2 negName zone neg hzone
        refine Steps.outline_bind outline_read (fun be => ?_) (fun e w hw => hend _ w ⟨hw.1,hw.2.1⟩)
        refine outline_of_fact (fun w hw => hw.2.2 be rfl) fun ⟨hname,_⟩ => ?_
        refine Steps.outline_onlyIf (fun _ => ?_) (fun _ w hw => hend _ w ⟨hw.1,hw.2.1⟩)
        have hupdate : Outline (d.trying .rate d.Pending)
            (call (updateGlobalBackendService { be with backends := getBackendsForNEGs negs })) _ :=
          outline_update .rate hname (Or.inr (hnext negs hkinds))
        refine hupdate.weaken (fun w hw => ⟨hw.1,Or.inl rfl,hw.2.1⟩) ?_
        rintro r w ⟨hgoing,_,_,_,hclean⟩
        exact ⟨hgoing,fun _ ig hig => absurd hig (hwanted ig),hclean⟩

end Linking
end Change

/-! ## Any number of operations -/

section Runs
variable {b : Backends} {md5 : MD5} {port : ℤ}

/-- The operation keeps what is promised, whatever moment it has come to. -/
def Kept (b : Backends) (md5 : MD5) (port : ℤ) (w : World) (c : PortCall) : Prop :=
  ∀ p w', Reaches .none (c.steps b md5,w) (p,w') →
    Moment b port c w w' ∧ ∀ r, p = done r → Outcome b port c w r (b.backendsOf port w')

def afterCall (b : Backends) (md5 : MD5) (w : World) (c : PortCall) : World := (Proc.run (c.steps b md5) w).2

theorem kept_of_oneKind {w : World} {c : PortCall} (hc : c.Valid port) (hw : OneKind (b.backendsOf port w)) :
    b.Kept md5 port w c := by
  intro p w' hreach
  cases c with
  | ensure sp around =>
    obtain rfl := hc.1
    have hensure : Outline ((Change.ofEnsure w hw hc).having (Change.ofEnsure w hw hc).Pending)
        (Stepwise.ensure b [sp] around) (Change.ofEnsure w hw hc).ended :=
      Change.outline_ensure (fun igs bm higs => ⟨igs,higs,rfl⟩) hc
    obtain ⟨hmoment,hdone⟩ := hensure w ⟨⟨rfl,⟨[],rfl⟩,Or.inl rfl⟩,rfl⟩ p w' hreach
    exact ⟨hmoment,fun r hr => (hdone r hr).2⟩
  | link sp zones getNetworkEndpointGroup =>
    obtain rfl := hc.1
    have hlink : Outline ((Change.ofLink w hw).having (Change.ofLink w hw).Pending)
        (Stepwise.link b md5 getNetworkEndpointGroup sp zones) (Change.ofLink w hw).ended :=
      Change.outline_link (fun negs hnegs => ⟨rfl,negs,rfl,hnegs⟩) hc
    obtain ⟨hmoment,hdone⟩ := hlink w ⟨⟨rfl,⟨[],rfl⟩,Or.inl rfl⟩,rfl⟩ p w' hreach
    exact ⟨hmoment,fun r hr => (hdone r hr).2⟩

/-- In every run of `Ensure` and `Link` on a port, from a backend service with no backends
but instance groups, every operation keeps what is promised. -/
theorem kinds_kept {calls : List PortCall} (hcalls : ∀ c ∈ calls, c.Valid port) {w : World}
    (hw : ∀ x ∈ b.backendsOf port w, IsInstanceGroup x.group) :
    Runs.Along (b.afterCall md5) (b.Kept md5 port) w calls := by
  have hrun : ∀ w, OneKind (b.backendsOf port w) → Runs.Along (b.afterCall md5) (b.Kept md5 port) w calls := by
    induction calls with
    | nil => exact fun _ _ => trivial
    | cons c calls ih =>
      intro w hw
      have hkept : b.Kept md5 port w c := kept_of_oneKind (hcalls c List.mem_cons_self) hw
      refine ⟨hkept,ih (fun c hc => hcalls c (List.mem_cons_of_mem _ hc)) _ ?_⟩
      exact (hkept _ _ (reaches_run (c.steps b md5) w)).1.oneKind
  exact hrun w (Or.inl hw)

def rejectingRate : World where
  pool :=
    { emptyPool with
      services :=
        { items := fun _ => none
          faults := fun n => if n = 3 then some { error := .api 400, applied := false, not_notFound := rfl } else none
          clock := 0 } }
  relister := .idle
  trace := []

/-- An `Ensure` whose first update is rejected, and a `Link`. -/
def ensureAndLink : List PortCall :=
  [.ensure webPort { instanceGroups := .ok ["zones/a/instanceGroups/ig".toList], prober := none },
   .link { webPort with negEnabled := true } ["a".toList] (fun _ _ => .ok "zones/a/networkEndpointGroups/web".toList)]

theorem kinds_kept_rejected :
    Runs.Along (onePool.afterCall Namer.paddedText) (onePool.Kept Namer.paddedText 30080) rejectingRate ensureAndLink ∧
    (onePool.backendsOf 30080 (onePool.afterCall Namer.paddedText rejectingRate (ensureAndLink.get ⟨0,by decide⟩))).map
      Backend.balancingMode = [.utilization] ∧
    (onePool.backendsOf 30080 (Runs.final (onePool.afterCall Namer.paddedText) rejectingRate ensureAndLink)).map
      Backend.group = ["zones/a/networkEndpointGroups/web".toList] := by
  refine ⟨kinds_kept ?_ (by simp [backendsOf,rejectingRate]),by decide +kernel,by decide +kernel⟩
  intro c hc
  rcases List.mem_cons.mp hc with rfl | hc
  · refine ⟨rfl,?_⟩
    rintro igs ⟨⟩ ig hig
    obtain rfl := List.mem_singleton.mp hig
    decide
  · obtain rfl := List.mem_singleton.mp hc
    refine ⟨rfl,?_⟩
    rintro name zone neg ⟨⟩
    decide

end Runs
end IngressGce.Backends
