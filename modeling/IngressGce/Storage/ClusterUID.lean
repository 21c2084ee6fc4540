import IngressGce.Kube.Objects
import IngressGce.Naming.Parse
import IngressGce.Storage.Vault

/-! # The UID of the cluster from start to start

A start takes the UID that the vault has on record. If there is none, it takes the one in
the name of a forwarding rule of an Ingress that works, or makes one up, and puts it on
record. An empty UID on record counts as none.
-/
namespace IngressGce.Storage
open Prog

/-- An Ingress with the addresses of its load balancer. -/
structure ListedIngress where
  annotations : Kube.Annotations
  addresses : List Str

def gceResourceName (annotations : Kube.Annotations) (resourceName : Str) : Str :=
  (annotations.lookup ("ingress.kubernetes.io/".toList ++ resourceName)).getD []

namespace ListedIngress
variable (ing : ListedIngress)

def works : Bool := !ing.addresses.isEmpty

/-- The UID in the name of the forwarding rule. -/
def uid : Str := (parseName (gceResourceName ing.annotations "forwarding-rule".toList)).clusterName

end ListedIngress

def hexText (b : Fin 8 → UInt8) : Str :=
  (List.ofFn b).flatMap (fun byte => [Nat.digitChar (byte.toNat / 16),Nat.digitChar (byte.toNat % 16)])

/-- What a start finds: the Ingresses of the cluster and the random device. -/
structure Around where
  ingresses : Except GoError (List ListedIngress)
  urandom : Except GoError (Fin 8 → UInt8)

def useDefaultOrLookupVault (cmKey defaultName : Str) : VaultM Str :=
  if defaultName ≠ [] then pure defaultName
  else do
    let val ← mapFailure
      (fun
        | .returned e => .returned (.text ("failed to retrieve ".toList ++ cmKey ++ ": ".toList ++ e.error ++
            ", returning empty name".toList))
        | .assignmentToNilMap => .assignmentToNilMap)
      (get cmKey)
    pure (val.getD [])

def recordUID (uid : Str) : VaultM Str := do
  put uidDataKey uid
  pure uid

/-- What `getClusterUID` does when neither the flag nor the vault has a UID. -/
def allocate (around : Around) : VaultM Str :=
  match around.ingresses with
  | .error e => fail (.returned e)
  | .ok ings =>
    match ings.find? ListedIngress.works with
    | some ing => recordUID ing.uid
    | none =>
      match around.urandom with
      | .error e => fail (.returned e)
      | .ok b => recordUID (hexText b)

def getClusterUID (around : Around) (name : Str) : VaultM Str := do
  let name ← useDefaultOrLookupVault uidDataKey name
  if name ≠ [] then pure name else allocate around

def getFirewallName (name clusterUID : Str) : VaultM Str := do
  let fwName ← useDefaultOrLookupVault providerDataKey name
  let fwName := if fwName ≠ [] then fwName else clusterUID
  put providerDataKey fwName
  pure fwName

/-- A start of the controller without a UID in the flags. The faults are those of the API
server while it starts. -/
structure Start extends Around where
  fwName : Str
  faults : ℕ → Option Fault

/-- The UID that `newNamer` gets, and the config map that it leaves. -/
def restart (cm : Option ConfigMap) (s : Start) : Except VaultError Str × Option ConfigMap :=
  match getClusterUID s.toAround [] ⟨fun _ => cm,s.faults,0⟩ with
  | (.error e,w) => (.error e,w.items ())
  | (.ok uid,w) => (.ok uid,(getFirewallName s.fwName uid w).2.items ())

def uids (cm : Option ConfigMap) : List Start → List (Except VaultError Str)
  | [] => []
  | s :: rest => (restart cm s).1 :: uids (restart cm s).2 rest

namespace Around
variable (a : Around)

/-- The first Ingress that works shows no UID. -/
def ShowsNoUID : Prop :=
  ∃ ings ing, a.ingresses = .ok ings ∧ ings.find? ListedIngress.works = some ing ∧ ing.uid = []

/-- The UID that is taken if there is none on record: the first Ingress that works shows
it, or none works and it is random. -/
def Offers (uid : Str) : Prop :=
  ∃ ings, a.ingresses = .ok ings ∧
    ((∃ ing, ings.find? ListedIngress.works = some ing ∧ ing.uid = uid) ∨
      ings.find? ListedIngress.works = none ∧ ∃ b, a.urandom = .ok b ∧ hexText b = uid)

end Around

theorem hexText_ne_nil (b : Fin 8 → UInt8) : hexText b ≠ [] := by
  rw [hexText,List.ofFn_succ,List.flatMap_cons]
  exact List.cons_ne_nil _ _

theorem Around.showsNoUID_iff {a : Around} : a.ShowsNoUID ↔ a.Offers [] := by
  constructor
  · rintro ⟨ings,ing,hings,hfind,huid⟩
    exact ⟨ings,hings,Or.inl ⟨ing,hfind,huid⟩⟩
  · rintro ⟨ings,hings,⟨ing,hfind,huid⟩ | ⟨_,b,_,huid⟩⟩
    · exact ⟨ings,ing,hings,hfind,huid⟩
    · exact absurd huid (hexText_ne_nil b)

section Start
variable {a : Around} {w : ConfigMaps}

/-- An attempt to take a UID: it is one that the start offers, and it is on record if it is
returned. -/
structure Allocated (a : Around) (w : ConfigMaps) (r : Except VaultError Str) (w' : ConfigMaps) : Prop where
  answer : ∀ uid, r = .ok uid → a.Offers uid ∧ record w' uidDataKey = some uid
  effect : w'.items = w.items ∨ ∃ uid, a.Offers uid ∧ record w' uidDataKey = some uid
  reliable : w.Reliable → Usable w → ∀ uid, a.Offers uid → r = .ok uid

theorem recordUID_ensures {uid : Str} (huid : ∀ uid', a.Offers uid' ↔ uid' = uid) :
    Ensures (recordUID uid) w (Allocated a w) := by
  unfold recordUID
  rw [ensures_bind]
  refine (put_ensures uidDataKey uid).mono ?_
  rintro r w' ⟨hwritten,hreliable⟩
  have heffect : w'.items = w.items ∨ ∃ uid, a.Offers uid ∧ record w' uidDataKey = some uid :=
    hwritten.effect.imp_right fun h => ⟨uid,(huid uid).mpr rfl,h.value⟩
  cases r with
  | error e => exact ⟨nofun,heffect,fun hw husable => by cases hreliable hw husable⟩
  | ok _ =>
    rw [afterwards_ok,ensures_pure]
    refine ⟨?_,heffect,fun _ _ uid' h => by rw [(huid uid').mp h]⟩
    intro uid' h
    obtain rfl := Except.ok.inj h
    exact ⟨(huid uid).mpr rfl,hwritten.answer rfl⟩

theorem allocate_ensures (a : Around) : Ensures (allocate a) w (Allocated a w) := by
  have hfail : ∀ e, (∀ uid, ¬a.Offers uid) → Ensures (fail (.returned e) : VaultM Str) w (Allocated a w) := by
    intro e hnone
    rw [ensures_fail]
    exact ⟨nofun,Or.inl rfl,fun _ _ uid h => absurd h (hnone uid)⟩
  unfold allocate
  cases hings : a.ingresses with
  | error e =>
    refine hfail e ?_
    rintro uid ⟨ings,h,_⟩
    rw [hings] at h
    cases h
  | ok ings =>
    have hoffers : ∀ uid, a.Offers uid ↔ (∃ ing, ings.find? ListedIngress.works = some ing ∧ ing.uid = uid) ∨
        ings.find? ListedIngress.works = none ∧ ∃ b, a.urandom = .ok b ∧ hexText b = uid := by
      intro uid
      constructor
      · rintro ⟨ings',h,hcase⟩
        rw [hings] at h
        obtain rfl := Except.ok.inj h
        exact hcase
      · exact fun hcase => ⟨ings,hings,hcase⟩
    dsimp only
    cases hfind : ings.find? ListedIngress.works with
    | some ing =>
      apply recordUID_ensures
      intro uid
      rw [hoffers,hfind]
      simp [eq_comm]
    | none =>
      dsimp only
      cases hurandom : a.urandom with
      | error e =>
        refine hfail e ?_
        intro uid h
        rw [hoffers,hfind,hurandom] at h
        simp at h
      | ok b =>
        apply recordUID_ensures
        intro uid
        rw [hoffers,hfind,hurandom]
        simp [eq_comm]

theorem useDefaultOrLookupVault_ensures (key name : Str) : Ensures (useDefaultOrLookupVault key name) w (fun r w' =>
    w'.items = w.items ∧ w'.faults = w.faults ∧
    (name = [] → (∀ v, r = .ok v → v = (record w key).getD []) ∧ (w.Reliable → r = .ok ((record w key).getD [])))) := by
  unfold useDefaultOrLookupVault
  split
  · rename_i hname
    rw [ensures_pure]
    exact ⟨rfl,rfl,fun h => absurd h hname⟩
  · rw [ensures_bind,ensures_mapFailure]
    refine (get_ensures key).mono ?_
    intro r w' h
    cases r with
    | error e => exact ⟨h.items,h.faults,fun _ => ⟨nofun,fun hw => by cases h.reliable hw⟩⟩
    | ok val =>
      rw [h.answer val rfl]
      exact ⟨h.items,h.faults,fun _ => ⟨fun v hv => (Except.ok.inj hv).symm,fun _ => rfl⟩⟩

theorem getClusterUID_of_recorded {uid : Str} (hrecord : record w uidDataKey = some uid) (huid : uid ≠ []) :
    Ensures (getClusterUID a []) w (fun r w' => w'.items = w.items ∧ ∀ v, r = .ok v → v = uid) := by
  unfold getClusterUID
  rw [ensures_bind]
  refine (useDefaultOrLookupVault_ensures uidDataKey []).mono ?_
  rintro r w' ⟨hitems,_,hread⟩
  cases r with
  | error e => exact ⟨hitems,nofun⟩
  | ok name =>
    have hname := (hread rfl).1 name rfl
    rw [hrecord,Option.getD_some] at hname
    rw [afterwards_ok,if_pos (by rw [hname]; exact huid),ensures_pure]
    exact ⟨hitems,fun v hv => by rw [← Except.ok.inj hv,hname]⟩

theorem getClusterUID_of_unrecorded (hrecord : (record w uidDataKey).getD [] = []) :
    Ensures (getClusterUID a []) w (Allocated a w) := by
  unfold getClusterUID
  rw [ensures_bind]
  refine (useDefaultOrLookupVault_ensures uidDataKey []).mono ?_
  rintro r w₁ ⟨hitems,hfaults,hread⟩
  obtain ⟨hname,hreliable⟩ := hread rfl
  rw [hrecord] at hname hreliable
  cases r with
  | error e => exact ⟨nofun,Or.inl hitems,fun hw => by cases hreliable hw⟩
  | ok name =>
    rw [afterwards_ok,if_neg (by simp [hname name rfl])]
    refine (allocate_ensures a).mono ?_
    intro r w' h
    refine ⟨h.answer,?_,?_⟩
    · rw [← hitems]
      exact h.effect
    · intro hw husable
      refine h.reliable (hw.of_faults hfaults) ?_
      intro cm hcm
      rw [hitems] at hcm
      exact husable cm hcm

theorem getFirewallName_record (name uid : Str) :
    Ensures (getFirewallName name uid) w (fun _ w' => record w' uidDataKey = record w uidDataKey) := by
  unfold getFirewallName
  rw [ensures_bind]
  refine (useDefaultOrLookupVault_ensures providerDataKey name).mono ?_
  rintro r w₁ ⟨hitems,_⟩
  have hsame : ∀ {w' : ConfigMaps}, w'.items = w.items → record w' uidDataKey = record w uidDataKey := by
    intro w' h
    rw [record,h,record]
  cases r with
  | error e => exact hsame hitems
  | ok fwName =>
    rw [afterwards_ok,ensures_bind]
    refine (put_ensures providerDataKey _).mono ?_
    rintro r w' ⟨hwritten,_⟩
    have hrecord : record w' uidDataKey = record w uidDataKey := by
      rcases hwritten.effect with h | h
      · exact hsame (h.trans hitems)
      · exact (h.others uidDataKey (by decide)).trans (hsame hitems)
    cases r with
    | error e => exact hrecord
    | ok _ => exact hrecord

end Start

def recordedUID (cm : Option ConfigMap) : Option Str := cm.bind (fun cm => cm.lookup uidDataKey)

section Restart
variable {cm : Option ConfigMap} {s : Start}

theorem recordedUID_restart {Q : Except VaultError Str → Option Str → Prop}
    (h : Ensures (getClusterUID s.toAround []) ⟨fun _ => cm,s.faults,0⟩ (fun r w => Q r (record w uidDataKey))) :
    Q (restart cm s).1 (recordedUID (restart cm s).2) := by
  unfold Ensures at h
  unfold restart
  cases hrun : getClusterUID s.toAround [] ⟨fun _ => cm,s.faults,0⟩ with
  | mk r w =>
    rw [hrun] at h
    cases r with
    | error e => exact h
    | ok uid =>
      have hsame : record (getFirewallName s.fwName uid w).2 uidDataKey = record w uidDataKey :=
        getFirewallName_record s.fwName uid
      rw [← hsame] at h
      exact h

theorem restart_of_recorded {uid : Str} (h : recordedUID cm = some uid) (huid : uid ≠ []) :
    (∀ v, (restart cm s).1 = .ok v → v = uid) ∧ recordedUID (restart cm s).2 = some uid := by
  refine recordedUID_restart (Q := fun r rec => (∀ v, r = .ok v → v = uid) ∧ rec = some uid) ?_
  refine (getClusterUID_of_recorded (w := ⟨fun _ => cm,s.faults,0⟩) h huid).mono ?_
  rintro r w ⟨hitems,hr⟩
  refine ⟨hr,?_⟩
  rw [record,hitems]
  exact h

theorem restart_of_unrecorded (h : (recordedUID cm).getD [] = []) :
    (∀ v, (restart cm s).1 = .ok v → s.Offers v ∧ recordedUID (restart cm s).2 = some v) ∧
    (recordedUID (restart cm s).2 = recordedUID cm ∨ ∃ v, s.Offers v ∧ recordedUID (restart cm s).2 = some v) := by
  refine recordedUID_restart (Q := fun r rec => (∀ v, r = .ok v → s.Offers v ∧ rec = some v) ∧
    (rec = recordedUID cm ∨ ∃ v, s.Offers v ∧ rec = some v)) ?_
  refine (getClusterUID_of_unrecorded (w := ⟨fun _ => cm,s.faults,0⟩) h).mono ?_
  intro r w hallocated
  refine ⟨hallocated.answer,hallocated.effect.imp_left ?_⟩
  intro hitems
  rw [record,hitems]
  rfl

theorem uids_of_recorded {uid : Str} (huid : uid ≠ []) (starts : List Start) (h : recordedUID cm = some uid) :
    ∀ r ∈ uids cm starts, ∀ v, r = .ok v → v = uid := by
  induction starts generalizing cm with
  | nil => intro r hr; cases hr
  | cons s rest ih =>
    obtain ⟨hfirst,hrecord⟩ := restart_of_recorded (s := s) h huid
    intro r hr
    rcases List.mem_cons.mp hr with rfl | hr
    · exact hfirst
    · exact ih hrecord r hr

/-- As long as no start is offered a UID, the empty one on record is returned. -/
theorem uids_of_empty {starts : List Start} (hoffers : ∀ s ∈ starts, ∀ v, s.Offers v → v = [])
    (h : recordedUID cm = some []) : ∀ r ∈ uids cm starts, ∀ v, r = .ok v → v = [] := by
  induction starts generalizing cm with
  | nil => intro r hr; cases hr
  | cons s rest ih =>
    obtain ⟨hs,hrest⟩ := List.forall_mem_cons.mp hoffers
    obtain ⟨hfirst,hrecord⟩ := restart_of_unrecorded (s := s) (by rw [h]; rfl)
    have hstays : recordedUID (restart cm s).2 = some [] := by
      rcases hrecord with hsame | ⟨v,hv,hrecord⟩
      · rw [hsame,h]
      · rw [hrecord,hs v hv]
    intro r hr
    rcases List.mem_cons.mp hr with rfl | hr
    · exact fun v hv => hs v (hfirst v hv).1
    · exact ih hrest hstays r hr

end Restart

/-- Two starts that both return a UID return the same one. -/
def SameUID (r r' : Except VaultError Str) : Prop := ∀ uid uid', r = .ok uid → r' = .ok uid' → uid' = uid

/-- A start that is shown no UID is followed by starts that are offered none. -/
def Consistent (a a' : Around) : Prop := a.ShowsNoUID → ∀ uid, a'.Offers uid → uid = []

theorem uids_pairwise {cm : Option ConfigMap} {starts : List Start}
    (h : starts.Pairwise (fun s s' => Consistent s.toAround s'.toAround)) : (uids cm starts).Pairwise SameUID := by
  induction starts generalizing cm with
  | nil => exact .nil
  | cons s rest ih =>
    obtain ⟨hs,hrest⟩ := List.pairwise_cons.mp h
    refine List.pairwise_cons.mpr ⟨?_,ih hrest⟩
    intro r' hr' uid uid' huid huid'
    by_cases hrecorded : (recordedUID cm).getD [] = []
    · obtain ⟨hoffer,hrecord⟩ := (restart_of_unrecorded (s := s) hrecorded).1 uid huid
      by_cases hempty : uid = []
      · subst hempty
        have hlater : ∀ s' ∈ rest, ∀ v, s'.Offers v → v = [] :=
          fun s' hs' => hs s' hs' (Around.showsNoUID_iff.mpr hoffer)
        exact uids_of_empty hlater hrecord r' hr' uid' huid'
      · exact uids_of_recorded hempty rest hrecord r' hr' uid' huid'
    · obtain ⟨u,hu⟩ : ∃ u, recordedUID cm = some u := by
        cases hcm : recordedUID cm with
        | none => rw [hcm] at hrecorded; exact absurd rfl hrecorded
        | some u => exact ⟨u,rfl⟩
      have hne : u ≠ [] := by
        rw [hu] at hrecorded
        exact hrecorded
      obtain ⟨hfirst,hrecord⟩ := restart_of_recorded (s := s) hu hne
      rw [hfirst uid huid]
      exact uids_of_recorded hne rest hrecord r' hr' uid' huid'

namespace Around
variable (a : Around)

def failing : Start := ⟨a,[],fun _ => some ⟨.api 503,false,by decide⟩⟩

def served : Start := ⟨a,[],fun _ => none⟩

variable {a} {cm : Option ConfigMap}

theorem restart_failing : ∃ e, restart cm a.failing = (.error e,cm) := by
  cases cm with
  | none => exact ⟨_,rfl⟩
  | some cm => exact ⟨_,rfl⟩

theorem restart_served {uid : Str} (h : (recordedUID cm).getD [] = []) (husable : ∀ c, cm = some c → c.data ≠ none)
    (hoffer : a.Offers uid) : (restart cm a.served).1 = .ok uid ∧ recordedUID (restart cm a.served).2 = some uid := by
  have hresult : (restart cm a.served).1 = .ok uid := by
    have hallocated := getClusterUID_of_unrecorded (a := a) (w := ⟨fun _ => cm,fun _ => none,0⟩) h
    have hrun : (getClusterUID a [] ⟨fun _ => cm,fun _ => none,0⟩).1 = .ok uid :=
      hallocated.reliable (fun _ => rfl) husable uid hoffer
    unfold restart
    cases hcase : getClusterUID a.served.toAround [] ⟨fun _ => cm,a.served.faults,0⟩ with
    | mk r w =>
      obtain rfl : r = .ok uid := (congrArg Prod.fst hcase).symm.trans hrun
      rfl
  exact ⟨hresult,((restart_of_unrecorded h).1 uid hresult).2⟩

/-- A UID that is offered to a later start is returned by it if the starts before fail. -/
theorem exists_returned {rest : List Around} {uid : Str} (hmem : a ∈ rest) (hoffer : a.Offers uid)
    (h : recordedUID cm = some []) : ∃ starts : List Start, starts.map Start.toAround = rest ∧ .ok uid ∈ uids cm starts := by
  induction rest with
  | nil => cases hmem
  | cons a' rest ih =>
    rcases List.mem_cons.mp hmem with rfl | hmem
    · have hrecord : record ⟨fun _ => cm,fun _ => none,0⟩ uidDataKey = some [] := h
      have husable : ∀ c, cm = some c → c.data ≠ none := usable_of_record hrecord
      refine ⟨a.served :: rest.map failing,?_,?_⟩
      · rw [List.map_cons,List.map_map]
        exact congrArg (a :: ·) (List.map_id rest)
      · rw [uids,(restart_served (by rw [h]; rfl) husable hoffer).1]
        exact List.mem_cons_self
    · obtain ⟨starts,hmap,hreturned⟩ := ih hmem
      obtain ⟨e,hfail⟩ : ∃ e, restart cm a'.failing = (.error e,cm) := restart_failing
      refine ⟨a'.failing :: starts,by rw [List.map_cons,hmap]; rfl,?_⟩
      rw [uids,hfail]
      exact List.mem_cons_of_mem _ hreturned

theorem exists_unstable {arounds : List Around} (h : ¬arounds.Pairwise Consistent) :
    ∃ starts : List Start, starts.map Start.toAround = arounds ∧ ¬(uids none starts).Pairwise SameUID := by
  induction arounds with
  | nil => exact absurd .nil h
  | cons a rest ih =>
    rw [List.pairwise_cons,not_and_or] at h
    rcases h with h | h
    · push Not at h
      obtain ⟨a',hmem,hinconsistent⟩ := h
      unfold Consistent at hinconsistent
      push Not at hinconsistent
      obtain ⟨hshows,uid,hoffer,hne⟩ := hinconsistent
      obtain ⟨hfirst,hrecord⟩ : (restart none a.served).1 = .ok [] ∧ recordedUID (restart none a.served).2 = some [] :=
        restart_served rfl nofun (showsNoUID_iff.mp hshows)
      obtain ⟨starts,hmap,hreturned⟩ := exists_returned hmem hoffer hrecord
      refine ⟨a.served :: starts,by rw [List.map_cons,hmap]; rfl,?_⟩
      intro hpairwise
      exact hne ((List.pairwise_cons.mp hpairwise).1 _ hreturned [] uid hfirst rfl)
    · obtain ⟨starts,hmap,hunstable⟩ := ih h
      obtain ⟨e,hfail⟩ : ∃ e, restart none a.failing = (.error e,none) := restart_failing
      refine ⟨a.failing :: starts,by rw [List.map_cons,hmap]; rfl,?_⟩
      intro hpairwise
      have htail := (List.pairwise_cons.mp hpairwise).2
      rw [hfail] at htail
      exact hunstable htail

end Around

/-- Whatever the config map is at first and whichever calls fail, all starts return one UID,
exactly if no start that is shown no UID is followed by one that is offered a UID. -/
theorem uid_stable_iff (arounds : List Around) :
    (∀ (cm : Option ConfigMap) (starts : List Start), starts.map Start.toAround = arounds →
      (uids cm starts).Pairwise SameUID) ↔ arounds.Pairwise Consistent := by
  constructor
  · intro h
    by_contra hinconsistent
    obtain ⟨starts,hmap,hunstable⟩ := Around.exists_unstable hinconsistent
    exact hunstable (h none starts hmap)
  · rintro h cm starts rfl
    exact uids_pairwise (List.pairwise_map.mp h)

/-- The empty UID of a working Ingress is forgotten when the Ingress is gone. -/
theorem empty_uid_forgotten : ∃ s s' : Start, s.ShowsNoUID ∧ (restart none s).1 = .ok [] ∧
    recordedUID (restart none s).2 = some [] ∧
    (restart (restart none s).2 s').1 = .ok "0102030405060708".toList :=
  ⟨Around.served ⟨.ok [⟨AList.singleton "ingress.kubernetes.io/forwarding-rule".toList "k8s-fw-default-web".toList,
      ["203.0.113.1".toList]⟩],.error (.text [])⟩,
    Around.served ⟨.ok [],.ok (fun i => UInt8.ofNat (i.val + 1))⟩,⟨_,_,rfl,rfl,by decide⟩,by decide +kernel,by decide +kernel,by decide +kernel⟩

end IngressGce.Storage
