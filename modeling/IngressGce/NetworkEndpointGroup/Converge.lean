import IngressGce.NetworkEndpointGroup.Batching

/-! # A sync makes the NEGs agree with the target

A sync that returns nil leaves in the NEG of each listed zone exactly the endpoints of
the target, in whichever order its batches finish: what is attached is no endpoint that
is detached, so the batches commute. A batch that fails makes the sync fail.
-/
namespace IngressGce.NEG
open Prog

theorem returns_onCloud {α : Type} (m : CloudM α) (w : GroupCloud) (Q : Except GoError α → GroupCloud → Prop) :
    Returns (onCloud m) w Q ↔ Ensures m w.store (fun r store => Q r { w with store }) := by
  rw [onCloud,returns_attempt,ensures_onPart]

theorem ensures_onCloud {α : Type} (m : CloudM α) (w : GroupCloud)
    (Q : Except SyncError (Except GoError α) → GroupCloud → Prop) :
    Ensures (onCloud m) w Q ↔ Ensures m w.store (fun r store => Q (.ok r) { w with store }) := by
  rw [onCloud,ensures_attempt,ensures_onPart]

section Ensure
variable (E : Environment) (negName : Str)

def OnNetwork (g : Group) : Prop :=
  retrieveName g.network = retrieveName E.networkURL ∧ retrieveName g.subnetwork = retrieveName E.subnetworkURL

instance (g : Group) : Decidable (OnNetwork E g) := inferInstanceAs (Decidable (_ ∧ _))

/-- The endpoints that are left once the NEGs of another network are gone. -/
def standing (w : GroupCloud) (zone : Str) : List NetworkEndpoint :=
  match w.store.items (negName,zone) with
  | none => []
  | some g => if OnNetwork E g then g.endpoints else []

/-- The zone has a NEG on the cluster's network. -/
def Settled (w : GroupCloud) (zone : Str) : Prop := ∃ g, w.store.items (negName,zone) = some g ∧ OnNetwork E g

variable {E negName} {w : GroupCloud}

theorem Settled.endpoints {zone : Str} (h : Settled E negName w zone) :
    w.endpoints negName zone = standing E negName w zone := by
  obtain ⟨g,hg,hnet⟩ := h
  simp [GroupCloud.endpoints,standing,hg,hnet]

/-- The NEG of one zone is as it should be, the others are as they were. -/
structure EnsuredZone (E : Environment) (negName zone : Str) (w w' : GroupCloud) : Prop where
  same : ∀ z, standing E negName w' z = standing E negName w z
  settled : ∀ z, Settled E negName w z → Settled E negName w' z
  zone : Settled E negName w' zone

/-- A NEG in the place of none, or of one on another network. -/
theorem EnsuredZone.of_new {zone : Str} {w' : GroupCloud} (hold : standing E negName w zone = [])
    (hnew : w'.store.items = Function.update w.store.items (negName,zone) (some ⟨E.networkURL,E.subnetworkURL,[]⟩)) :
    EnsuredZone E negName zone w w' := by
  have hsettled : Settled E negName w' zone :=
    ⟨⟨E.networkURL,E.subnetworkURL,[]⟩,by rw [hnew,Function.update_self],rfl,rfl⟩
  have hothers : ∀ z, z ≠ zone → w'.store.items (negName,z) = w.store.items (negName,z) := by
    intro z hz
    rw [hnew,Function.update_of_ne (fun h => hz (Prod.mk.inj h).2)]
  refine ⟨?_,?_,hsettled⟩
  · intro z
    by_cases hz : z = zone
    · subst hz
      rw [hold]
      simp [standing,hnew]
    · simp only [standing,hothers z hz]
  · intro z hset
    by_cases hz : z = zone
    · exact hz ▸ hsettled
    · obtain ⟨g,hg,hnet⟩ := hset
      exact ⟨g,by rw [hothers z hz,hg],hnet⟩

/-- A read before does not matter. -/
theorem EnsuredZone.of_same {zone : Str} {w₁ w' : GroupCloud} (hsame : w₁.store.items = w.store.items)
    (h : EnsuredZone E negName zone w₁ w') : EnsuredZone E negName zone w w' where
  same z := by
    rw [h.same z]
    simp only [standing,hsame]
  settled z hz := by
    obtain ⟨g,hg,hnet⟩ := hz
    exact h.settled z ⟨g,by rw [hsame,hg],hnet⟩
  zone := h.zone

/-- The NEG was on another network: it is deleted and created again. -/
theorem replaceGroup_spec {zone : Str} {g : Group} (hg : w.store.items (negName,zone) = some g)
    (hnot : ¬OnNetwork E g) :
    Returns (do
      let deleted ← onCloud (deleteNetworkEndpointGroup negName zone)
      let created ← onCloud (createIn E negName zone)
      pure (errorOf deleted ++ errorOf created)) w (fun errList w' => w'.store.faults = w.store.faults ∧
        w'.log = w.log ∧ (errList = [] → EnsuredZone E negName zone w w') ∧ (w.store.Reliable → errList = [])) := by
  rw [returns_bind,returns_onCloud]
  refine (Store.onItem_served _).mono ?_
  intro r store₁ hdelete
  rw [returns_bind,returns_onCloud]
  refine (Store.insert_served _).mono ?_
  rintro r' store₂ ⟨hfaults,hcreated,_,hreliable⟩
  rw [returns_pure]
  refine ⟨hfaults.trans hdelete.faults,rfl,?_,?_⟩
  · intro hnil
    obtain ⟨hdeleted,hnil'⟩ := List.append_eq_nil_iff.mp hnil
    obtain ⟨_,rfl⟩ := errorOf_eq_nil.mp hnil'
    obtain ⟨_,rfl⟩ := errorOf_eq_nil.mp hdeleted
    obtain ⟨_,_,_,hgone⟩ := hdelete.answer () rfl
    obtain ⟨_,hnew⟩ := hcreated rfl
    rw [hgone,Function.update_idem] at hnew
    apply EnsuredZone.of_new _ hnew
    simp [standing,hg,hnot]
  · intro hw
    have hdeleted : r = .ok () := hdelete.reliable hw g hg
    obtain ⟨_,_,_,hgone⟩ := hdelete.answer () hdeleted
    have hcreate : r' = .ok () := by
      apply hreliable (hw.of_faults hdelete.faults)
      rw [hgone,Function.update_self]
    rw [hdeleted,hcreate]
    rfl

theorem ensureNetworkEndpointGroup_spec (zone : Str) :
    Returns (ensureNetworkEndpointGroup E negName zone) w (fun errList w' => w'.store.faults = w.store.faults ∧
      w'.log = w.log ∧ (errList = [] → EnsuredZone E negName zone w w') ∧ (w.store.Reliable → errList = [])) := by
  rw [ensureNetworkEndpointGroup,returns_bind,returns_onCloud]
  refine (Store.onItem_served _).mono ?_
  intro r store₁ hget
  have hgroups := hget.unchanged
  cases r with
  | error e =>
    dsimp only
    rw [returns_bind,returns_onCloud]
    refine (Store.insert_served _).mono ?_
    rintro r store₂ ⟨hfaults,hcreated,_,hreliable⟩
    rw [returns_pure]
    refine ⟨hfaults.trans hget.faults,rfl,?_,?_⟩
    · intro hnil
      obtain ⟨_,rfl⟩ := errorOf_eq_nil.mp hnil
      obtain ⟨hnone,hnew⟩ := hcreated rfl
      rw [hgroups] at hnone hnew
      apply EnsuredZone.of_new _ hnew
      rw [standing,hnone]
    · intro hw
      refine errorOf_eq_nil.mpr ⟨(),hreliable (hw.of_faults hget.faults) ?_⟩
      rw [hgroups]
      by_contra hsome
      obtain ⟨g,hg⟩ := Option.ne_none_iff_exists'.mp hsome
      cases hget.reliable hw g hg
  | ok g =>
    obtain ⟨_,hg,rfl,_⟩ := hget.answer g rfl
    dsimp only
    split
    · rename_i hother
      have hnot : ¬OnNetwork E g := fun h => hother.elim (fun h' => h' h.1) (fun h' => h' h.2)
      have hg₁ : store₁.items (negName,zone) = some g := by rw [hgroups,hg]
      refine (replaceGroup_spec hg₁ hnot).mono ?_
      rintro errList w' ⟨hfaults,hlog,hensured,hnone⟩
      refine ⟨hfaults.trans hget.faults,hlog,?_,fun hw => hnone (hw.of_faults hget.faults)⟩
      exact fun hnil => EnsuredZone.of_same hgroups (hensured hnil)
    · rename_i hsame
      rw [not_or,not_not,not_not] at hsame
      rw [returns_pure]
      refine ⟨hget.faults,rfl,fun _ => EnsuredZone.of_same hgroups ⟨fun _ => rfl,fun _ h => h,?_⟩,fun _ => rfl⟩
      exact ⟨g,by rw [← hg,← hgroups],hsame⟩

theorem newAggregate_spec (es : List GoError) :
    Ensures (newAggregate es) w (fun r w' => w' = w ∧ (r = .ok () ↔ es = [])) := by
  unfold newAggregate
  rw [ensures_ite,ensures_pure,ensures_fail]
  exact ⟨fun h => ⟨rfl,by simp [h]⟩,fun h => ⟨rfl,by simp [h]⟩⟩

/-- After all zones. -/
structure EnsuredAll (E : Environment) (negName : Str) (zones : List Str) (w w' : GroupCloud) : Prop where
  same : ∀ z, standing E negName w' z = standing E negName w z
  settled : ∀ z ∈ zones, Settled E negName w' z

/-- The loop over the zones, of which `rest` are still to come. -/
structure Ensuring (E : Environment) (negName : Str) (zones : List Str) (w : GroupCloud) (rest : List Str)
    (errList : List GoError) (w' : GroupCloud) : Prop where
  faults : w'.store.faults = w.store.faults
  log : w'.log = w.log
  reliable : w.store.Reliable → errList = []
  same : errList = [] → ∀ z, standing E negName w' z = standing E negName w z
  settled : errList = [] → ∀ z ∈ zones, z ∈ rest ∨ Settled E negName w' z

theorem Ensuring.step {zones rest : List Str} {acc : List GoError} {zone : Str} {w₁ : GroupCloud}
    (h : Ensuring E negName zones w (zone :: rest) acc w₁) : Returns (ensureNetworkEndpointGroup E negName zone) w₁
      (fun errList w₂ => Ensuring E negName zones w rest (acc ++ errList) w₂) := by
  refine (ensureNetworkEndpointGroup_spec zone).mono ?_
  rintro errList w₂ ⟨hfaults,hlog,hensured,hreliable⟩
  refine ⟨hfaults.trans h.faults,hlog.trans h.log,?_,?_,?_⟩
  · intro hw
    rw [h.reliable hw,hreliable (hw.of_faults h.faults)]
    rfl
  · intro hnil z
    obtain ⟨hacc,herr⟩ := List.append_eq_nil_iff.mp hnil
    exact ((hensured herr).same z).trans (h.same hacc z)
  · intro hnil z hz
    obtain ⟨hacc,herr⟩ := List.append_eq_nil_iff.mp hnil
    rcases h.settled hacc z hz with hz | hz
    · rcases List.mem_cons.mp hz with rfl | hz
      · exact Or.inr (hensured herr).zone
      · exact Or.inl hz
    · exact Or.inr ((hensured herr).settled z hz)

theorem ensureNetworkEndpointGroups_spec {zones : List Str} (hzones : E.zoneGetter.listZones = .ok zones) :
    Ensures (ensureNetworkEndpointGroups E negName) w (fun r w' => w'.store.faults = w.store.faults ∧ w'.log = w.log ∧
      (r = .ok () → EnsuredAll E negName zones w w') ∧ (w.store.Reliable → r = .ok ())) := by
  have hstart : Ensuring E negName zones w zones [] w :=
    ⟨rfl,rfl,fun _ => rfl,fun _ _ => rfl,fun _ _ hz => Or.inl hz⟩
  obtain ⟨errList,hok,hdone⟩ := returns_collect (ensureNetworkEndpointGroup E negName)
    (Ensuring E negName zones w) (fun _ _ _ _ h => h.step) zones hstart
  rw [ensureNetworkEndpointGroups,hzones]
  dsimp only
  rw [ensures_bind]
  unfold Ensures
  rw [hok,afterwards_ok]
  refine (newAggregate_spec errList).mono ?_
  rintro r w' ⟨rfl,hr⟩
  refine ⟨hdone.faults,hdone.log,?_,?_⟩
  · intro hrok
    exact ⟨hdone.same (hr.mp hrok),fun z hz => (hdone.settled (hr.mp hrok) z hz).resolve_left (by simp)⟩
  · intro hw
    exact hr.mpr (hdone.reliable hw)

end Ensure

section Target
variable {E : Environment} {zones : List Str}

/-- A port name is short and has a letter. -/
def PortName (t : Str) : Prop := t.length ≤ 15 ∧ ∃ c ∈ t, c.isLower = true

/-- The target port of a service: a numeral as it is printed, or a port name. -/
def IsTargetPort (t : Str) : Prop := (∃ n : ℤ, t = Decimal.itoa n) ∨ PortName t

theorem IsTargetPort.eq_itoa {t : Str} (h : IsTargetPort t) (hne : (Decimal.atoi t).1 ≠ 0) {port : Int32}
    (hport : port.toInt = (Decimal.atoi t).1) : t = Decimal.itoa port.toInt := by
  have hlow := Int32.le_toInt port
  have hhigh := Int32.toInt_lt port
  rcases h with ⟨n,rfl⟩ | ⟨hlen,hletter⟩
  · by_cases hlarge : n < -2 ^ 63 ∨ 2 ^ 63 ≤ n
    · exfalso
      rcases Decimal.atoi_itoa_of_large hlarge with h | h
      · omega
      · omega
    · have hread := congrArg Prod.fst (Decimal.atoi_itoa (n := n) (by omega) (by omega))
      rw [hport,hread]
  · rw [Decimal.atoi_of_letter (by omega) hletter] at hne
    exact absurd rfl hne

theorem matchOne_eq_itoa {t : Str} (h : IsTargetPort t) {p : EndpointPort} (hne : matchOne t p ≠ []) :
    matchOne t p = Decimal.itoa p.port.toInt := by
  unfold matchOne at hne ⊢
  by_cases hnum : (Decimal.atoi t).1 ≠ 0
  · rw [if_pos hnum] at hne ⊢
    split at hne
    · rename_i hport
      rw [if_pos hport]
      exact h.eq_itoa hnum hport
    · exact absurd rfl hne
  · rw [if_neg hnum] at hne ⊢
    split at hne
    · rename_i hname
      rw [if_pos hname]
    · exact absurd rfl hne

/-- The first port that matches is among all ports that match. -/
theorem matchPort_spec {t : Str} {ports : List EndpointPort} (h : matchPort t ports ≠ []) :
    ∃ port ∈ ports, matchPort t ports = matchOne t port ∧ matchOne t port ≠ [] := by
  induction ports with
  | nil => exact absurd rfl h
  | cons p rest ih =>
    rw [matchPort] at h ⊢
    split at h
    · rename_i hmatched
      rw [if_pos hmatched]
      exact ⟨p,List.mem_cons_self,rfl,hmatched⟩
    · rename_i hmatched
      rw [if_neg hmatched]
      obtain ⟨port,hport,heq,hne⟩ := ih h
      exact ⟨port,List.mem_cons_of_mem _ hport,heq,hne⟩

theorem matchPort_eq_itoa {t : Str} (h : IsTargetPort t) {ports : List EndpointPort} (hne : matchPort t ports ≠ []) :
    ∃ port : Int32, matchPort t ports = Decimal.itoa port.toInt := by
  obtain ⟨p,_,heq,hmatched⟩ := matchPort_spec hne
  exact ⟨p.port,heq.trans (matchOne_eq_itoa h hmatched)⟩

/-- Every text of the map stands for an endpoint, in one of the zones. -/
structure Listed (zones : List Str) (m : ZoneMap) : Prop where
  texts : ∀ z, ∀ enc ∈ m.at z, Encoded enc ∧ z ∈ zones
  nodup : ∀ z, (m.at z).Nodup

theorem Listed.empty : Listed zones ∅ := ⟨fun z enc h => by simp at h,fun z => by simp⟩

theorem Listed.insert {m : ZoneMap} {zone enc : Str} (h : Listed zones m) (henc : Encoded enc) (hzone : zone ∈ zones) :
    Listed zones (m.insert zone ((m.at zone).insert enc)) := by
  constructor
  · intro z enc' henc'
    rw [ListMap.at_insert] at henc'
    split at henc'
    · rename_i hz
      rcases List.mem_insert_iff.mp henc' with rfl | henc'
      · exact ⟨henc,hz ▸ hzone⟩
      · exact ⟨(h.texts zone enc' henc').1,hz ▸ hzone⟩
    · exact h.texts z enc' henc'
  · intro z
    rw [ListMap.at_insert]
    split
    · exact (h.nodup zone).insert
    · exact h.nodup z

/-- What holds of the empty map and is kept when the text of an address is added holds of
the map of all addresses. -/
theorem toZoneNetworkEndpointMap_rule {t : Str} {ep : Endpoints} {target : ZoneMap} {I : ZoneMap → Prop} (hempty : I ∅)
    (hinsert : ∀ subset ∈ ep.subsets, matchPort t subset.ports ≠ [] → ∀ a ∈ subset.addresses, ∀ node zone,
      a.nodeName = some node → E.zoneGetter.getZoneForNode node = .ok zone → ∀ m, I m →
        I (m.insert zone ((m.at zone).insert (encodeEndpoint a.ip node (matchPort t subset.ports)))))
    (h : toZoneNetworkEndpointMap E t ep = .ok target) : I target := by
  refine foldlM_invariant ?_ hempty h
  intro subset hsubset m m' hm hadd
  unfold addSubset at hadd
  split at hadd
  · obtain rfl : m = m' := Except.ok.inj hadd
    exact hm
  · rename_i hmatch
    refine foldlM_invariant ?_ hm hadd
    intro a ha m m' hm hadd
    unfold addAddress at hadd
    split at hadd
    · cases hadd
    · rename_i node hname
      split at hadd
      · cases hadd
      · rename_i zone hzone
        obtain rfl := Except.ok.inj hadd
        exact hinsert subset hsubset hmatch a ha node zone hname hzone m hm

theorem toZoneNetworkEndpointMap_listed {t : Str} {ep : Endpoints} {target : ZoneMap} (ht : IsTargetPort t)
    (hplaced : ∀ node zone, E.zoneGetter.getZoneForNode node = .ok zone → zone ∈ zones)
    (haddresses : ∀ subset ∈ ep.subsets, ∀ a ∈ subset.addresses, '|' ∉ a.ip ∧ ∀ node ∈ a.nodeName, '|' ∉ node)
    (h : toZoneNetworkEndpointMap E t ep = .ok target) : Listed zones target := by
  refine toZoneNetworkEndpointMap_rule Listed.empty ?_ h
  intro subset hsubset hmatch a ha node zone hname hzone m hm
  obtain ⟨port,hport⟩ := matchPort_eq_itoa ht hmatch
  obtain ⟨hip,hnode⟩ := haddresses subset hsubset a ha
  apply hm.insert _ (hplaced node zone hzone)
  refine ⟨⟨node,a.ip,port.toInt64⟩,⟨hip,hnode node hname⟩,?_⟩
  rw [NetworkEndpoint.encode,Int32.toInt_toInt64,hport]

end Target

section Retrieve
variable {E : Environment} {negName : Str} {w : GroupCloud}

theorem retrieveZones_spec (zones : List Str) (m : ZoneMap) : Ensures (retrieveZones negName zones m) w (fun r w' =>
    w'.store.faults = w.store.faults ∧ w'.log = w.log ∧ w'.store.items = w.store.items ∧
    (∀ m', r = .ok m' → ∀ z, m'.at z = if z ∈ zones then encodings (w.endpoints negName z) else m.at z) ∧
    (w.store.Reliable → (∀ z ∈ zones, Settled E negName w z) → ∃ m', r = .ok m')) := by
  induction zones generalizing m w with
  | nil =>
    rw [retrieveZones,ensures_pure]
    exact ⟨rfl,rfl,rfl,fun m' h z => by rw [Except.ok.inj h]; rfl,fun _ _ => ⟨m,rfl⟩⟩
  | cons zone rest ih =>
    rw [retrieveZones,ensures_bind,ensures_onCloud]
    refine (Store.onItem_served _).mono ?_
    intro r store₁ hlist
    have hgroups := hlist.unchanged
    rw [afterwards_ok]
    cases r with
    | error e =>
      dsimp only
      rw [ensures_fail]
      refine ⟨hlist.faults,rfl,hgroups,nofun,?_⟩
      intro hw hsettled
      obtain ⟨g,hg,_⟩ := hsettled zone List.mem_cons_self
      cases hlist.reliable hw g hg
    | ok nes =>
      obtain ⟨g,hg,rfl,_⟩ := hlist.answer nes rfl
      have hsame : GroupCloud.endpoints { w with store := store₁ } negName = w.endpoints negName := by
        funext z
        simp only [GroupCloud.endpoints,hgroups]
      have hzone : w.endpoints negName zone = g.endpoints := by simp [GroupCloud.endpoints,hg]
      refine (ih _).mono ?_
      rintro r w₂ ⟨hfaults,hlog,hgroups',hmap,hreliable⟩
      refine ⟨hfaults.trans hlist.faults,hlog,hgroups'.trans hgroups,?_,?_⟩
      · intro m' hm' z
        rw [hmap m' hm' z,hsame,ListMap.at_insert]
        by_cases hz : z = zone
        · subst hz
          simp [hzone]
        · simp [hz]
      · intro hw hsettled
        apply hreliable (hw.of_faults hlist.faults)
        intro z hz
        obtain ⟨g',hg',hnet⟩ := hsettled z (List.mem_cons_of_mem _ hz)
        exact ⟨g',by rw [← hg',← hgroups],hnet⟩

end Retrieve

section Execute
variable {negName : Str} {w : GroupCloud}

def Present (negName : Str) (w : GroupCloud) (zone : Str) : Prop := ∃ g, w.store.items (negName,zone) = some g

theorem syncFunc_eq (zone : Str) (op : SetOp) : syncFunc negName zone op = changeEndpoints negName zone op := by
  cases op with
  | union => rfl
  | difference => rfl

theorem endpoints_update {zone : Str} {g : Group} {w' : GroupCloud}
    (h : w'.store.items = Function.update w.store.items (negName,zone) (some g)) :
    w'.endpoints negName = Function.update (w.endpoints negName) zone g.endpoints := by
  funext z
  by_cases hz : z = zone
  · subst hz
    simp [GroupCloud.endpoints,h]
  · have hne : (negName,z) ≠ (negName,zone) := fun heq => hz (Prod.mk.inj heq).2
    simp [GroupCloud.endpoints,h,hz]

theorem present_update {zone z : Str} {g : Group} {w' : GroupCloud}
    (h : w'.store.items = Function.update w.store.items (negName,zone) (some g)) (hz : Present negName w z) :
    Present negName w' z := by
  by_cases hzone : z = zone
  · exact ⟨g,by rw [h,hzone,Function.update_self]⟩
  · obtain ⟨g',hg'⟩ := hz
    exact ⟨g',by rw [h,Function.update_of_ne (fun heq => hzone (Prod.mk.inj heq).2),hg']⟩

theorem operationInternal_spec (b : Batch) : Returns (operationInternal negName b) w (fun errList w' =>
    w'.store.faults = w.store.faults ∧ w'.log = w.log ++ [(b,errList.isEmpty.not)] ∧
    (errList = [] → w'.endpoints negName = SetUpdate.apply (w.endpoints negName) b) ∧
    (∀ z, Present negName w z → Present negName w' z) ∧
    (w.store.Reliable → Present negName w b.key → errList = [])) := by
  rw [operationInternal,syncFunc_eq,returns_bind,returns_onCloud]
  refine (Store.onItem_served _).mono ?_
  intro r store₁ hchange
  rw [returns_bind,returns_update,returns_pure]
  refine ⟨hchange.faults,rfl,?_,?_,?_⟩
  · intro hnil
    obtain ⟨_,rfl⟩ := errorOf_eq_nil.mp hnil
    obtain ⟨g,hg,_,hgroups⟩ := hchange.answer () rfl
    have hold : w.endpoints negName b.key = g.endpoints := by simp [GroupCloud.endpoints,hg]
    rw [SetUpdate.apply,hold]
    exact endpoints_update (g := { g with endpoints := SetUpdate.combine b.op g.endpoints b.items }) hgroups
  · intro z hz
    cases r with
    | ok _ =>
      obtain ⟨g,_,_,hgroups⟩ := hchange.answer () rfl
      exact present_update hgroups hz
    | error e =>
      rcases hchange.failure e rfl with hgroups | ⟨g,_,hgroups⟩
      · obtain ⟨g,hg⟩ := hz
        exact ⟨g,by rw [← hg]; exact congrFun hgroups _⟩
      · exact present_update hgroups hz
  · rintro hw ⟨g,hg⟩
    exact errorOf_eq_nil.mpr ⟨(),hchange.reliable hw g hg⟩

/-- The batches that have been executed, each with whether its call failed. -/
structure Executed (negName : Str) (w : GroupCloud) (done : List (Batch × Bool)) (errList : List GoError)
    (w' : GroupCloud) : Prop where
  faults : w'.store.faults = w.store.faults
  log : w'.log = w.log ++ done
  errors : errList = [] ↔ ∀ c ∈ done, c.2 = false
  endpoints : errList = [] → w'.endpoints negName = (done.map Prod.fst).foldl SetUpdate.apply (w.endpoints negName)
  present : ∀ z, Present negName w z → Present negName w' z
  reliable : w.store.Reliable → (∀ c ∈ done, Present negName w c.1.key) → errList = []

theorem Executed.step {done : List (Batch × Bool)} {acc : List GoError} {w₁ : GroupCloud}
    (h : Executed negName w done acc w₁) (b : Batch) : Returns (operationInternal negName b) w₁
      (fun errList w₂ => Executed negName w (done ++ [(b,errList.isEmpty.not)]) (acc ++ errList) w₂) := by
  refine (operationInternal_spec b).mono ?_
  rintro errList w₂ ⟨hfaults,hlog,hendpoints,hpresent,hreliable⟩
  refine ⟨hfaults.trans h.faults,?_,?_,?_,fun z hz => hpresent z (h.present z hz),?_⟩
  · rw [hlog,h.log,List.append_assoc]
  · rw [List.append_eq_nil_iff,h.errors]
    simp only [List.mem_append,List.mem_singleton]
    constructor
    · rintro ⟨hdone,hnil⟩ c (hc | rfl)
      · exact hdone c hc
      · simp [hnil]
    · intro hall
      refine ⟨fun c hc => hall c (Or.inl hc),?_⟩
      simpa using hall _ (Or.inr rfl)
  · intro hnil
    obtain ⟨hacc,herr⟩ := List.append_eq_nil_iff.mp hnil
    rw [hendpoints herr,h.endpoints hacc,List.map_append,List.foldl_append]
    rfl
  · intro hw hall
    have hw₁ : w₁.store.Reliable := fun n => by rw [h.faults]; exact hw n
    have hacc := h.reliable hw fun c hc => hall c (List.mem_append_left _ hc)
    have hb : Present negName w b.key := hall (b,errList.isEmpty.not) (List.mem_append_right _ List.mem_cons_self)
    rw [hacc,hreliable hw₁ (h.present _ hb)]
    rfl

theorem execute_spec (negName : Str) (w : GroupCloud) (batches : List Batch) : Returns (collect (operationInternal negName) batches) w
    (fun errList w' => ∃ done, done.map Prod.fst = batches ∧ Executed negName w done errList w') := by
  have hstart : ∃ done, done.map Prod.fst ++ batches = batches ∧ Executed negName w done [] w :=
    ⟨[],rfl,rfl,by simp,by simp,fun _ => rfl,fun _ h => h,fun _ _ => rfl⟩
  refine (returns_collect (operationInternal negName) (fun rest acc w' => ∃ done,
    done.map Prod.fst ++ rest = batches ∧ Executed negName w done acc w') ?_ batches hstart).mono ?_
  · rintro b rest acc w₁ ⟨done,hdone,hexec⟩
    refine (hexec.step b).mono ?_
    intro errList w₂ hexec'
    exact ⟨_,by simpa using hdone,hexec'⟩
  · rintro errList w' ⟨done,hdone,hexec⟩
    exact ⟨done,by simpa using hdone,hexec⟩

end Execute

section Difference
variable {zones : List Str} {target current : ZoneMap} {batches : List Batch}

theorem mem_missing {z enc : Str} : enc ∈ (missing target current).at z ↔ enc ∈ target.at z ∧ enc ∉ current.at z := by
  rw [missing_at,mem_difference]

theorem Listed.missing (h : Listed zones target) (other : ZoneMap) : Listed zones (missing target other) := by
  constructor
  · intro z enc henc
    exact h.texts z enc (mem_missing.mp henc).1
  · intro z
    rw [missing_at]
    exact (h.nodup z).filter _

/-- The batches of the difference of two maps. -/
abbrev Reconciles (target current : ZoneMap) (batches : List Batch) : Prop :=
  IssuesBoth (missing target current) (missing current target) batches

theorem Reconciles.perm {done : List Batch} (h : Reconciles target current batches) (hp : done.Perm batches) :
    Reconciles target current done := by
  refine ⟨fun b hb => h.fits b (hp.mem_iff.mp hb),?_,?_⟩
  · intro z
    exact ((SetUpdate.mentioned_perm hp _ z).map _).trans (h.adds z)
  · intro z
    exact ((SetUpdate.mentioned_perm hp _ z).map _).trans (h.removes z)

variable (h : Reconciles target current batches)
include h

theorem Reconciles.times_le (htarget : Listed zones target) (hcurrent : Listed zones current) (op : SetOp) (z : Str)
    (ne : NetworkEndpoint) : SetUpdate.times op batches z ne ≤ 1 :=
  SetUpdate.times_le_one (h.nodup (htarget.missing _).nodup (hcurrent.missing _).nodup op z) ne

theorem Reconciles.key_mem (htarget : Listed zones target) (hcurrent : Listed zones current) {b : Batch}
    (hb : b ∈ batches) : b.key ∈ zones := by
  obtain ⟨ne,hne⟩ := List.exists_mem_of_length_pos (h.fits b hb).nonempty
  have hmentioned := SetUpdate.mem_mentioned.mpr ⟨b,hb,rfl,rfl,hne⟩
  cases hop : b.op with
  | union =>
    rw [hop] at hmentioned
    have hmissing := (h.adds b.key).mem_iff.mp (List.mem_map_of_mem hmentioned)
    exact ((htarget.missing current).texts _ _ hmissing).2
  | difference =>
    rw [hop] at hmentioned
    have hmissing := (h.removes b.key).mem_iff.mp (List.mem_map_of_mem hmentioned)
    exact ((hcurrent.missing target).texts _ _ hmissing).2

theorem Reconciles.separate : SetUpdate.Apart batches := by
  apply IssuesBoth.apart h
  intro z enc hadd hremove
  exact (mem_missing.mp hadd).2 (mem_missing.mp hremove).1

theorem Reconciles.mem_attached {z enc : Str} : (enc ∈ target.at z ∧ enc ∉ current.at z) ↔
    ∃ ne ∈ SetUpdate.mentioned .union batches z, ne.encode = enc := by
  rw [← mem_missing,← (h.adds z).mem_iff,List.mem_map]

theorem Reconciles.mem_detached {z enc : Str} : (enc ∈ current.at z ∧ enc ∉ target.at z) ↔
    ∃ ne ∈ SetUpdate.mentioned .difference batches z, ne.encode = enc := by
  rw [← mem_missing,← (h.removes z).mem_iff,List.mem_map]

/-- What the batches make of sets of endpoints with the texts of the current map. -/
theorem Reconciles.converges {sets : Str → List NetworkEndpoint} {z : Str} (hfree : ∀ ne ∈ sets z, ne.BarFree)
    (hcurrent : current.at z = encodings (sets z)) (enc : Str) :
    enc ∈ target.at z ↔ ∃ ne ∈ batches.foldl SetUpdate.apply sets z, ne.encode = enc := by
  have hfinal := SetUpdate.mem_foldl_apply h.separate sets z
  constructor
  · intro htarget
    by_cases hin : enc ∈ current.at z
    · have hlisted := hin
      rw [hcurrent] at hlisted
      obtain ⟨ne,hne,rfl⟩ := mem_encodings.mp hlisted
      refine ⟨ne,(hfinal ne).mpr (Or.inr ⟨hne,?_⟩),rfl⟩
      intro hdetached
      exact (h.mem_detached.mpr ⟨ne,hdetached,rfl⟩).2 htarget
    · obtain ⟨ne,hne,henc⟩ := h.mem_attached.mp ⟨htarget,hin⟩
      exact ⟨ne,(hfinal ne).mpr (Or.inl hne),henc⟩
  · rintro ⟨ne,hne,rfl⟩
    rcases (hfinal ne).mp hne with hattached | ⟨hold,hkept⟩
    · exact (h.mem_attached.mpr ⟨ne,hattached,rfl⟩).1
    · by_contra hnot
      have hin : ne.encode ∈ current.at z := by
        rw [hcurrent]
        exact mem_encodings.mpr ⟨ne,hold,rfl⟩
      obtain ⟨ne',hdetached,henc⟩ := h.mem_detached.mp ⟨hin,hnot⟩
      -- The batch was decoded from a text, and the text determines the endpoint.
      have heq := encode_injective (mentioned_barFree h.fits hdetached) (hfree ne hold) henc
      exact hkept (heq ▸ hdetached)

end Difference

section Sync

/-- A running syncer, whose service has endpoints, and the texts that occur. -/
structure Assumed (E : Environment) (s : Syncer) (negName : Str) (ep : Endpoints) (zones : List Str)
    (w : GroupCloud) : Prop where
  running : ¬(s.stopped = true ∨ s.shuttingDown = true)
  found : E.endpointLister s.servicePort.service = .ok (some ep)
  listed : E.zoneGetter.listZones = .ok zones
  placed : ∀ node zone, E.zoneGetter.getZoneForNode node = .ok zone → zone ∈ zones
  addresses : ∀ subset ∈ ep.subsets, ∀ a ∈ subset.addresses, '|' ∉ a.ip ∧ ∀ node ∈ a.nodeName, '|' ∉ node
  attached : ∀ z ∈ zones, ∀ ne ∈ w.endpoints negName z, ne.BarFree
  targetPort : IsTargetPort s.servicePort.targetPort

/-- What a sync has done, `issued` being the batches it has executed with whether the
call of each failed. -/
structure Synced (E : Environment) (s : Syncer) (negName : Str) (ep : Endpoints) (zones : List Str) (w : GroupCloud)
    (issued : List (Batch × Bool)) (r : Except SyncError Unit) (w' : GroupCloud) : Prop where
  logged : w'.log = w.log ++ issued
  sizes : ∀ c ∈ issued, 1 ≤ c.1.items.length ∧ c.1.items.length ≤ 500
  once : ∀ op z ne, SetUpdate.times op (issued.map Prod.fst) z ne ≤ 1
  apart : ∀ z ne, SetUpdate.times .union (issued.map Prod.fst) z ne = 0 ∨
    SetUpdate.times .difference (issued.map Prod.fst) z ne = 0
  failing : (∃ c ∈ issued, c.2 = true) → ∃ e, r = .error e
  difference : r = .ok () ∨ issued ≠ [] → ∃ target,
    toZoneNetworkEndpointMap E s.servicePort.targetPort ep = .ok target ∧ ∀ z ∈ zones, ∀ enc,
      (enc ∈ target.at z ∧ enc ∉ encodings (standing E negName w z) ↔
        ∃ ne, ne.encode = enc ∧ SetUpdate.times .union (issued.map Prod.fst) z ne = 1) ∧
      (enc ∈ encodings (standing E negName w z) ∧ enc ∉ target.at z ↔
        ∃ ne, ne.encode = enc ∧ SetUpdate.times .difference (issued.map Prod.fst) z ne = 1)
  converged : r = .ok () → ∃ target, toZoneNetworkEndpointMap E s.servicePort.targetPort ep = .ok target ∧
    ∀ z ∈ zones, ∀ enc, enc ∈ target.at z ↔ ∃ ne ∈ w'.endpoints negName z, ne.encode = enc
  succeeds : w.store.Reliable → ∀ target, toZoneNetworkEndpointMap E s.servicePort.targetPort ep = .ok target →
    r = .ok ()

variable {E : Environment} {s : Syncer} {negName : Str} {ep : Endpoints} {zones : List Str} {w : GroupCloud}

/-- A sync that fails before it issues a batch. -/
theorem Synced.of_error {e : SyncError} {w' : GroupCloud} (hlog : w'.log = w.log)
    (hfaulty : w.store.Reliable → ∀ target, toZoneNetworkEndpointMap E s.servicePort.targetPort ep ≠ .ok target) :
    Synced E s negName ep zones w [] (.error e) w' where
  logged := by simp [hlog]
  sizes := by simp
  once := by simp [SetUpdate.times]
  apart := by simp [SetUpdate.times]
  failing := by simp
  difference := by simp
  converged := nofun
  succeeds hw target htarget := absurd htarget (hfaulty hw target)

theorem times_eq_one_iff {op : SetOp} {us : List Batch} {z : Str} {ne : NetworkEndpoint}
    (h : SetUpdate.times op us z ne ≤ 1) : SetUpdate.times op us z ne = 1 ↔ ne ∈ SetUpdate.mentioned op us z := by
  rw [← SetUpdate.times_pos_iff]
  omega

theorem standing_subset {z : Str} {ne : NetworkEndpoint} (h : ne ∈ standing E negName w z) :
    ne ∈ w.endpoints negName z := by
  unfold standing at h
  unfold GroupCloud.endpoints
  split at h
  · cases h
  · rename_i g hg
    split at h
    · simpa [hg] using h
    · cases h

/-- What a sync knows when it has both maps. -/
structure Surveyed (E : Environment) (negName : Str) (zones : List Str) (w : GroupCloud) (current : ZoneMap)
    (w' : GroupCloud) : Prop where
  faults : w'.store.faults = w.store.faults
  log : w'.log = w.log
  settled : ∀ z ∈ zones, Settled E negName w' z
  endpoints : ∀ z ∈ zones, w'.endpoints negName z = standing E negName w z
  texts : ∀ z ∈ zones, current.at z = encodings (standing E negName w z)
  listed : Listed zones current

theorem Surveyed.barFree {current : ZoneMap} {w₁ : GroupCloud} (hsurvey : Surveyed E negName zones w current w₁)
    (h : Assumed E s negName ep zones w) {z : Str} (hz : z ∈ zones) :
    ∀ ne ∈ w₁.endpoints negName z, ne.BarFree := by
  intro ne hne
  rw [hsurvey.endpoints z hz] at hne
  exact h.attached z hz ne (standing_subset hne)

/-- A sync that has executed the batches of the difference. -/
theorem Synced.of_executed {target current : ZoneMap} {issued : List (Batch × Bool)} {errList : List GoError}
    {w₁ w' : GroupCloud} {r : Except SyncError Unit}
    (h : Assumed E s negName ep zones w) (htarget : toZoneNetworkEndpointMap E s.servicePort.targetPort ep = .ok target)
    (hlisted : Listed zones target) (hsurvey : Surveyed E negName zones w current w₁)
    (hissued : Reconciles target current (issued.map Prod.fst)) (hexec : Executed negName w₁ issued errList w')
    (hr : r = .ok () ↔ errList = []) (hsucceeds : w.store.Reliable → errList = []) :
    Synced E s negName ep zones w issued r w' where
  logged := by rw [hexec.log,hsurvey.log]
  sizes c hc := by
    have hfits := hissued.fits c.1 (List.mem_map_of_mem hc)
    exact ⟨hfits.nonempty,hfits.bounded⟩
  once := hissued.times_le hlisted hsurvey.listed
  apart z ne := by
    by_contra hboth
    rw [not_or] at hboth
    apply hissued.separate z ne
    · exact SetUpdate.times_pos_iff.mp (Nat.pos_of_ne_zero hboth.1)
    · exact SetUpdate.times_pos_iff.mp (Nat.pos_of_ne_zero hboth.2)
  failing hfailed := by
    obtain ⟨c,hc,hfail⟩ := hfailed
    cases r with
    | error e => exact ⟨e,rfl⟩
    | ok _ =>
      have hnot := hexec.errors.mp (hr.mp rfl) c hc
      rw [hfail] at hnot
      cases hnot
  difference _ := by
    refine ⟨target,htarget,?_⟩
    intro z hz enc
    rw [← hsurvey.texts z hz]
    simp only [times_eq_one_iff (hissued.times_le hlisted hsurvey.listed _ z _),hissued.mem_attached,hissued.mem_detached]
    exact ⟨exists_congr fun ne => and_comm,exists_congr fun ne => and_comm⟩
  converged hok := by
    refine ⟨target,htarget,?_⟩
    intro z hz enc
    rw [hexec.endpoints (hr.mp hok)]
    apply hissued.converges (hsurvey.barFree h hz)
    rw [hsurvey.texts z hz,hsurvey.endpoints z hz]
  succeeds hw _ _ := hr.mpr (hsucceeds hw)

theorem retrieve_surveyed {w₁ : GroupCloud} (h : Assumed E s negName ep zones w) (hfaults : w₁.store.faults = w.store.faults)
    (hlog : w₁.log = w.log) (hensured : EnsuredAll E negName zones w w₁) :
    Ensures (retrieveExistingZoneNetworkEndpointMap E negName) w₁ (fun r w' => w'.log = w.log ∧
      (∀ current, r = .ok current → Surveyed E negName zones w current w') ∧
      (w.store.Reliable → ∃ current, r = .ok current)) := by
  unfold retrieveExistingZoneNetworkEndpointMap
  rw [h.listed]
  refine (retrieveZones_spec (E := E) zones ∅).mono ?_
  rintro r w' ⟨hfaults',hlog',hgroups,hmap,hreliable⟩
  have hstanding : ∀ z ∈ zones, w₁.endpoints negName z = standing E negName w z := by
    intro z hz
    rw [(hensured.settled z hz).endpoints,hensured.same z]
  have hsame : w'.endpoints negName = w₁.endpoints negName := by
    funext z
    simp only [GroupCloud.endpoints,hgroups]
  refine ⟨hlog'.trans hlog,?_,?_⟩
  · intro current hcurrent
    have hat : ∀ z ∈ zones, current.at z = encodings (standing E negName w z) := by
      intro z hz
      rw [hmap current hcurrent z,if_pos hz,hstanding z hz]
    refine ⟨hfaults'.trans hfaults,hlog'.trans hlog,?_,?_,hat,?_,?_⟩
    · intro z hz
      obtain ⟨g,hg,hnet⟩ := hensured.settled z hz
      exact ⟨g,by rw [hgroups,hg],hnet⟩
    · intro z hz
      rw [hsame,hstanding z hz]
    · intro z enc henc
      by_cases hz : z ∈ zones
      · rw [hat z hz] at henc
        obtain ⟨ne,hne,rfl⟩ := mem_encodings.mp henc
        exact ⟨⟨ne,h.attached z hz ne (standing_subset hne),rfl⟩,hz⟩
      · rw [hmap current hcurrent z,if_neg hz] at henc
        cases henc
    · intro z
      rw [hmap current hcurrent z]
      split
      · exact nodup_encodings _
      · exact List.nodup_nil
  · intro hw
    apply hreliable
    · intro n
      rw [hfaults]
      exact hw n
    · exact hensured.settled

theorem reconciles_nil {target current : ZoneMap} (hadds : (missing target current).entries = [])
    (hremoves : (missing current target).entries = []) : Reconciles target current [] := by
  have hempty : ∀ m : ZoneMap, m.entries = [] → ∀ z, m.at z = [] := by
    intro m hm z
    rw [← ListMap.listOf_entries,hm]
    rfl
  refine ⟨by simp,?_,?_⟩
  · intro z
    rw [hempty _ hadds z]
    exact .refl _
  · intro z
    rw [hempty _ hremoves z]
    exact .refl _

/-- The last part of a sync. -/
theorem syncNetworkEndpoints_synced {target current : ZoneMap} {w₁ : GroupCloud}
    (h : Assumed E s negName ep zones w) (htarget : toZoneNetworkEndpointMap E s.servicePort.targetPort ep = .ok target)
    (hsurvey : Surveyed E negName zones w current w₁) :
    Ensures (syncNetworkEndpoints E negName (missing target current) (missing current target)) w₁
      (fun r w' => ∃ issued, Synced E s negName ep zones w issued r w') := by
  have hlisted := toZoneNetworkEndpointMap_listed h.targetPort h.placed h.addresses htarget
  have hadds := hlisted.missing current
  have hremoves := hsurvey.listed.missing target
  obtain ⟨hnone,hbatches⟩ := issue_both E (fun z enc henc => (hadds.texts z enc henc).1)
    (fun z enc henc => (hremoves.texts z enc henc).1)
  unfold syncNetworkEndpoints
  generalize issue E (missing target current) (missing current target) = issued at hnone hbatches
  obtain ⟨batches,err⟩ := issued
  subst hnone
  have hperm := E.finishing.perm batches
  obtain ⟨errList,hok,done,hdone,hexec⟩ := execute_spec negName w₁ (E.finishing.range batches)
  rw [ensures_bind]
  unfold Ensures
  rw [hok,afterwards_ok]
  refine (newAggregate_spec errList).mono ?_
  rintro r w' ⟨rfl,hr⟩
  have hissued : Reconciles target current (done.map Prod.fst) := Reconciles.perm hbatches (hdone ▸ hperm)
  refine ⟨done,.of_executed h htarget hlisted hsurvey hissued hexec hr ?_⟩
  intro hw
  apply hexec.reliable
  · intro n
    rw [hsurvey.faults]
    exact hw n
  · intro c hc
    have hkey := hissued.key_mem hlisted hsurvey.listed (List.mem_map_of_mem hc)
    obtain ⟨g,hg,_⟩ := hsurvey.settled _ hkey
    exact ⟨g,hg⟩

/-- Whatever the order in which maps and sets are visited and batches finish: a sync
that returns nil leaves the target in every listed zone, each endpoint of the difference
is in one batch, and if a batch fails the sync does. -/
theorem sync_converges (h : Assumed E s negName ep zones w) :
    Ensures (s.sync E negName) w (fun r w' => ∃ issued, Synced E s negName ep zones w issued r w') := by
  rw [Syncer.sync,if_neg h.running,h.found]
  dsimp only
  rw [ensures_bind]
  refine (ensureNetworkEndpointGroups_spec h.listed).mono ?_
  rintro r w₁ ⟨hfaults,hlog,hensured,hreliable⟩
  cases r with
  | error e => exact ⟨[],.of_error hlog fun hw => by cases hreliable hw⟩
  | ok _ =>
  rw [afterwards_ok,ensures_bind]
  cases htarget : toZoneNetworkEndpointMap E s.servicePort.targetPort ep with
  | error e =>
    refine ⟨[],.of_error hlog ?_⟩
    intro _ target hok
    rw [htarget] at hok
    cases hok
  | ok target =>
  rw [liftError,ensures_pure,afterwards_ok,ensures_bind]
  refine (retrieve_surveyed h hfaults hlog (hensured rfl)).mono ?_
  rintro r w₂ ⟨hlog',hsurvey,hreliable'⟩
  cases r with
  | error e =>
    refine ⟨[],.of_error hlog' ?_⟩
    intro hw
    obtain ⟨_,hok⟩ := hreliable' hw
    cases hok
  | ok current =>
  have hsurvey := hsurvey current rfl
  rw [afterwards_ok]
  change Ensures (if (missing target current).entries = [] ∧ (missing current target).entries = [] then
    (pure () : SyncM Unit) else syncNetworkEndpoints E negName _ _) w₂ _
  split
  · rename_i hsame
    obtain ⟨hadds,hremoves⟩ := hsame
    rw [ensures_pure]
    have hlisted := toZoneNetworkEndpointMap_listed h.targetPort h.placed h.addresses htarget
    have hnothing : Executed negName w₂ [] [] w₂ :=
      ⟨rfl,by simp,by simp,fun _ => rfl,fun _ hz => hz,fun _ _ => rfl⟩
    exact ⟨[],.of_executed h htarget hlisted hsurvey (reconciles_nil hadds hremoves) hnothing (by simp) fun _ => rfl⟩
  · exact syncNetworkEndpoints_synced h htarget hsurvey

/-- A cluster of one node, and a service on it. -/
def oneNode : Environment where
  zoneGetter := {
    listZones := .ok ["zone-a".toList]
    getZoneForNode := fun node => if node = "node-1".toList then .ok "zone-a".toList else .error "no node".toList }
  endpointLister _ := .ok (some ⟨[⟨[⟨"10.0.0.1".toList,some "node-1".toList⟩],[⟨"http".toList,8080⟩]⟩]⟩)
  networkURL := "networks/default".toList
  subnetworkURL := "subnetworks/default".toList
  zoneOrder _ := .inOrder
  popOrder _ _ := .inOrder
  finishing := .inOrder

def webSyncer : Syncer where
  servicePort := ⟨⟨"default".toList,"web".toList⟩,"8080".toList⟩
  stopped := false
  shuttingDown := false
  syncCh := none

/-- Three endpoints on two nodes, which are in different zones. -/
def webEndpoints : Endpoints :=
  ⟨[⟨[⟨"10.0.0.1".toList,some "node-1".toList⟩,⟨"10.0.0.2".toList,some "node-2".toList⟩,
    ⟨"10.0.0.3".toList,some "node-1".toList⟩],[⟨"http".toList,8080⟩]⟩]⟩

def twoNodes : Environment :=
  { oneNode with
    zoneGetter := {
      listZones := .ok ["zone-a".toList,"zone-b".toList]
      getZoneForNode := fun node =>
        if node = "node-1".toList then .ok "zone-a".toList
        else if node = "node-2".toList then .ok "zone-b".toList
        else .error "no node".toList }
    endpointLister := fun _ => .ok (some webEndpoints) }

/-- The NEG of one zone has one of the endpoints, and one that is gone; the NEG of the other
zone is missing. -/
def staleGroup : GroupCloud where
  store := {
    items := fun k =>
      if k = ("neg".toList,"zone-a".toList) then
        some ⟨"networks/default".toList,"subnetworks/default".toList,
          [⟨"node-1".toList,"10.0.0.1".toList,8080⟩,⟨"node-1".toList,"10.0.0.9".toList,8080⟩]⟩
      else none
    faults := fun _ => none
    clock := 0 }
  log := []

theorem sync_converges_twoNodes : Ensures (webSyncer.sync twoNodes "neg".toList) staleGroup (fun r w' => r = .ok () ∧
    ∃ issued, Synced twoNodes webSyncer "neg".toList webEndpoints ["zone-a".toList,"zone-b".toList] staleGroup
      issued r w') := by
  have hassumed : Assumed twoNodes webSyncer "neg".toList webEndpoints ["zone-a".toList,"zone-b".toList] staleGroup := by
    constructor
    · decide
    · rfl
    · rfl
    · intro node zone h
      simp only [twoNodes] at h
      split at h
      · rw [← Except.ok.inj h]
        exact List.mem_cons_self
      · split at h
        · rw [← Except.ok.inj h]
          exact List.mem_cons_of_mem _ List.mem_cons_self
        · cases h
    · decide
    · have hbarFree : ∀ ne ∈ staleGroup.endpoints "neg".toList "zone-a".toList, '|' ∉ ne.ipAddress ∧ '|' ∉ ne.instanceName := by
        decide +kernel
      intro z hz ne hne
      rcases List.mem_cons.mp hz with rfl | hz
      · exact ⟨(hbarFree ne hne).1,(hbarFree ne hne).2⟩
      · obtain rfl := List.mem_singleton.mp hz
        cases hne
    · exact Or.inl ⟨8080,by decide +kernel⟩
  refine (sync_converges hassumed).mono ?_
  rintro r w' ⟨issued,hsynced⟩
  exact ⟨hsynced.succeeds (fun _ => rfl) _ rfl,issued,hsynced⟩

end Sync
end IngressGce.NEG
