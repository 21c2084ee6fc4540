import IngressGce.Cloud.Store
import Mathlib.Data.List.AList

/-! # The vault in a config map

The controller keeps the UID of the cluster, and the name of its firewall, in a config map
of the API server. Calls of the API server can fail like those of the cloud.
-/
namespace IngressGce.Storage
open Prog

/-- The data of a config map, which may be nil. -/
structure ConfigMap where
  data : Option (AList (fun _ : Str => Str))
  deriving DecidableEq

def ConfigMap.lookup (cm : ConfigMap) (key : Str) : Option Str := cm.data.bind (AList.lookup key)

/-- The one config map that the vault is about. -/
abbrev ConfigMaps := Store Unit ConfigMap

/-- An error is returned, or a panic ends the controller. -/
inductive VaultError
  | returned (e : GoError)
  | assignmentToNilMap
  deriving DecidableEq

abbrev VaultM (α : Type) := Prog ConfigMaps VaultError α

def uidDataKey : Str := "uid".toList
def providerDataKey : Str := "provider-uid".toList
def cfgMapKey : Str := "kube-system/ingress-uid".toList

/-- What is not found is not there, other errors are passed on. -/
def getByKey : VaultM (Option ConfigMap) := do
  let item ← attempt (Store.onItem () (fun cm => (cm,some cm)))
  match item with
  | .ok cm => pure (some cm)
  | .error e => if isHTTPErrorCode e statusNotFound then pure none else fail (.returned e)

def get (key : Str) : VaultM (Option Str) := do
  let item ← getByKey
  pure (item.bind (fun cm => cm.lookup key))

def updateData (data : AList (fun _ : Str => Str)) : VaultM Unit :=
  mapFailure (fun e => .returned (.wrapped ("failed to update ".toList ++ cfgMapKey ++ ": ".toList) e))
    (Store.onItem () (fun _ => ((),some ⟨some data⟩)))

def addData (data : AList (fun _ : Str => Str)) : VaultM Unit :=
  mapFailure (fun e => .returned (.wrapped ("failed to add ".toList ++ cfgMapKey ++ ": ".toList) e))
    (Store.insert () ⟨some data⟩)

/-- `Put` once it has looked for the config map. When that has failed, it tries to add one. -/
def putFound (key val : Str) : Except VaultError (Option ConfigMap) → VaultM Unit
  | .ok (some cm) =>
    if cm.lookup key = some val then pure ()
    else match cm.data with
      | none => fail .assignmentToNilMap
      | some data => updateData (data.insert key val)
  | _ => addData (AList.insert key val ∅)

def put (key val : Str) : VaultM Unit := do
  let item ← attempt getByKey
  putFound key val item

/-- What the vault has on record under a key. -/
def record (w : ConfigMaps) (key : Str) : Option Str := (w.items ()).bind (fun cm => cm.lookup key)

variable {w : ConfigMaps} {key val : Str}

/-- A call that reads: nothing changes, and without failures there is an answer. -/
structure Looked {α : Type} (w : ConfigMaps) (found : α) (r : Except VaultError α) (w' : ConfigMaps) : Prop where
  items : w'.items = w.items
  faults : w'.faults = w.faults
  answer : ∀ a, r = .ok a → a = found
  reliable : w.Reliable → r = .ok found

theorem getByKey_ensures : Ensures getByKey w (Looked w (w.items ())) := by
  unfold getByKey
  rw [ensures_bind,ensures_attempt]
  have hmissing : Ensures (Store.onItem () (fun cm : ConfigMap => (cm,some cm))) w (fun r _ =>
      w.Reliable → w.items () = none → r = .error (.api statusNotFound)) := by
    intro hw hnone
    unfold Store.onItem Store.call
    rw [hnone,hw w.clock]
  refine ((Store.onItem_served _).and hmissing).mono ?_
  rintro r w' ⟨h,hmissing⟩
  have hitems : w'.items = w.items := Store.ServedItem.unchanged (f := fun cm : ConfigMap => cm) h
  rw [afterwards_ok]
  cases r with
  | ok cm =>
    obtain ⟨cm',hcm',rfl,_⟩ := h.answer cm rfl
    rw [ensures_pure,hcm']
    exact ⟨hitems,h.faults,fun _ ha => (Except.ok.inj ha).symm,fun _ => rfl⟩
  | error e =>
    dsimp only
    split
    · rename_i hcode
      rw [ensures_pure,h.notFound (by rw [eq_of_isHTTPErrorCode hcode])]
      exact ⟨hitems,h.faults,fun _ ha => (Except.ok.inj ha).symm,fun _ => rfl⟩
    · rename_i hcode
      rw [ensures_fail]
      refine ⟨hitems,h.faults,nofun,?_⟩
      intro hw
      cases hitem : w.items () with
      | none =>
        obtain rfl := Except.error.inj (hmissing hw hitem)
        exact absurd (isHTTPErrorCode_api statusNotFound) hcode
      | some cm => cases h.reliable hw cm hitem

theorem get_ensures (key : Str) : Ensures (get key) w (Looked w (record w key)) := by
  unfold get
  rw [ensures_bind]
  refine getByKey_ensures.mono ?_
  intro r w' h
  cases r with
  | error e => exact ⟨h.items,h.faults,nofun,fun hw => by cases h.reliable hw⟩
  | ok item =>
    rw [afterwards_ok,ensures_pure,h.answer item rfl]
    exact ⟨h.items,h.faults,fun _ ha => (Except.ok.inj ha).symm,fun _ => rfl⟩

/-- A value has been put on record, and the other records are as they were. -/
structure Recorded (key val : Str) (w w' : ConfigMaps) : Prop where
  value : record w' key = some val
  others : ∀ key', key' ≠ key → record w' key' = record w key'

/-- A call that writes: it has put the value on record, or has failed and changed nothing. -/
structure Written (key val : Str) (w : ConfigMaps) (r : Except VaultError Unit) (w' : ConfigMaps) : Prop where
  faults : w'.faults = w.faults
  effect : w'.items = w.items ∨ Recorded key val w w'
  answer : r = .ok () → record w' key = some val

theorem recorded_of_items {w' : ConfigMaps} {data : AList (fun _ : Str => Str)}
    (hdata : ∀ key', record w key' = data.lookup key')
    (h : w'.items = Function.update w.items () (some ⟨some (data.insert key val)⟩)) : Recorded key val w w' := by
  have hitem : w'.items () = some ⟨some (data.insert key val)⟩ := by rw [h,Function.update_self]
  constructor
  · rw [record,hitem]
    exact AList.lookup_insert data
  · intro key' hne
    rw [hdata,record,hitem]
    exact AList.lookup_insert_ne hne

theorem updateData_ensures {data : AList (fun _ : Str => Str)} (hdata : w.items () = some ⟨some data⟩) :
    Ensures (updateData (data.insert key val)) w (fun r w' => Written key val w r w' ∧ (w.Reliable → r = .ok ())) := by
  have hlookup : ∀ key', record w key' = data.lookup key' := by
    intro key'
    rw [record,hdata]
    rfl
  unfold updateData
  rw [ensures_mapFailure]
  refine (Store.onItem_served _).mono ?_
  intro r w' h
  cases r with
  | ok a =>
    obtain ⟨_,_,_,hitems⟩ := h.answer a rfl
    have hrecorded := recorded_of_items hlookup hitems
    exact ⟨⟨h.faults,Or.inr hrecorded,fun _ => hrecorded.value⟩,fun _ => rfl⟩
  | error e =>
    refine ⟨⟨h.faults,?_,nofun⟩,fun hw => by cases h.reliable hw _ hdata⟩
    rcases h.failure e rfl with hitems | ⟨_,_,hitems⟩
    · exact Or.inl hitems
    · exact Or.inr (recorded_of_items hlookup hitems)

theorem addData_ensures : Ensures (addData (AList.insert key val ∅)) w (fun r w' =>
    Written key val w r w' ∧ (w.Reliable → w.items () = none → r = .ok ())) := by
  unfold addData
  rw [ensures_mapFailure]
  cases hitem : w.items () with
  | some cm =>
    -- The config map exists, so that none is added.
    unfold Ensures Store.insert Store.call
    rw [hitem]
    cases w.faults w.clock with
    | none => exact ⟨⟨rfl,Or.inl rfl,nofun⟩,nofun⟩
    | some f => exact ⟨⟨rfl,Or.inl rfl,nofun⟩,nofun⟩
  | none =>
    have hlookup : ∀ key', record w key' = (∅ : AList (fun _ : Str => Str)).lookup key' := by
      intro key'
      rw [record,hitem,AList.lookup_empty]
      rfl
    refine (Store.insert_served _).mono ?_
    rintro r w' ⟨hfaults,hok,hitems,hreliable⟩
    refine ⟨⟨hfaults,?_,?_⟩,fun hw _ => ?_⟩
    · rcases hitems with hitems | ⟨_,hitems⟩
      · exact Or.inl hitems
      · exact Or.inr (recorded_of_items hlookup hitems)
    · intro hr
      cases r with
      | error e => cases hr
      | ok a => exact (recorded_of_items hlookup (hok rfl).2).value
    · rw [hreliable hw hitem]
      rfl

/-- A config map with a nil map can not be written to. -/
def Usable (w : ConfigMaps) : Prop := ∀ cm, w.items () = some cm → cm.data ≠ none

theorem put_ensures (key val : Str) : Ensures (put key val) w (fun r w' =>
    Written key val w r w' ∧ (w.Reliable → Usable w → r = .ok ())) := by
  unfold put
  rw [ensures_bind,ensures_attempt]
  refine getByKey_ensures.mono ?_
  intro item w₁ h
  rw [afterwards_ok]
  have hmoved : ∀ {r : Except VaultError Unit} {w' : ConfigMaps}, Written key val w₁ r w' → Written key val w r w' := by
    intro r w' hwritten
    have hrecord : ∀ key', record w₁ key' = record w key' := fun key' => by rw [record,h.items,record]
    refine ⟨hwritten.faults.trans h.faults,?_,hwritten.answer⟩
    rcases hwritten.effect with hitems | hrecorded
    · exact Or.inl (hitems.trans h.items)
    · exact Or.inr ⟨hrecorded.value,fun key' hne => (hrecorded.others key' hne).trans (hrecord key')⟩
  have hadded : Ensures (addData (AList.insert key val ∅)) w₁ (fun r w' =>
      Written key val w r w' ∧ (w.Reliable → w.items () = none → r = .ok ())) := by
    refine addData_ensures.mono ?_
    rintro r w' ⟨hwritten,hreliable⟩
    refine ⟨hmoved hwritten,fun hw hnone => hreliable (hw.of_faults h.faults) ?_⟩
    rw [h.items,hnone]
  cases item with
  | error e => exact hadded.mono fun r w' hr => ⟨hr.1,fun hw _ => by cases h.reliable hw⟩
  | ok item =>
    have hitem := h.answer item rfl
    cases item with
    | none => exact hadded.mono fun r w' hr => ⟨hr.1,fun hw _ => hr.2 hw hitem.symm⟩
    | some cm =>
      have hcm : w₁.items () = some cm := by rw [h.items,hitem]
      rw [putFound]
      by_cases hsame : cm.lookup key = some val
      · rw [if_pos hsame,ensures_pure]
        refine ⟨hmoved ⟨rfl,Or.inl rfl,fun _ => ?_⟩,fun _ _ => rfl⟩
        rw [record,hcm]
        exact hsame
      · rw [if_neg hsame]
        obtain ⟨data⟩ := cm
        cases data with
        | none =>
          rw [ensures_fail]
          exact ⟨⟨h.faults,Or.inl h.items,nofun⟩,fun _ husable => absurd rfl (husable _ hitem.symm)⟩
        | some data =>
          refine (updateData_ensures hcm).mono ?_
          rintro r w' ⟨hwritten,hreliable⟩
          exact ⟨hmoved hwritten,fun hw _ => hreliable (hw.of_faults h.faults)⟩

theorem usable_of_record {v : Str} (h : record w key = some v) : Usable w := by
  intro cm hcm hnil
  rw [record,hcm] at h
  have hlookup : cm.data.bind (AList.lookup key) = some v := h
  rw [hnil] at hlookup
  cases hlookup

end IngressGce.Storage
