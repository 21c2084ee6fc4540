import IngressGce.Storage.Vault

/-! # The vault as a map

`Put` and `Get` write and read one key of the config map, and `Delete` deletes the config
map with all its keys. `Put` writes into the map that it has read, which must not be nil,
and `Delete` converts what it has looked up, which must not be missing.
-/
namespace IngressGce.Storage
open Prog

/-- What can end a call: an error or a panic of `Put` or `Get`, or the panic of `Delete`
when it converts the nil that stands for a missing config map. -/
inductive Interruption
  | vault (e : VaultError)
  | nilInterfaceConversion
  deriving DecidableEq

abbrev SessionM (α : Type) := Prog ConfigMaps Interruption α

/-- `Delete`. A lookup that has failed is only logged. -/
def delete : SessionM Unit := do
  let item ← attempt getByKey
  match item with
  | .ok (some _) => mapFailure (fun e => .vault (.returned e)) (Store.onItem () (fun _ => ((),none)))
  | .ok none => fail .nilInterfaceConversion
  | .error _ => pure ()

inductive Op
  | put (key val : Str)
  | get (key : Str)
  | delete
  deriving DecidableEq

/-- A call, with what it returns besides an error. -/
def run : Op → SessionM (Option Str)
  | .put key val => do
    mapFailure .vault (put key val)
    pure none
  | .get key => mapFailure .vault (get key)
  | .delete => do
    delete
    pure none

/-- Calls in sequence, until one is interrupted. -/
def session : List Op → SessionM (List (Option Str))
  | [] => pure []
  | op :: ops => do
    let answer ← run op
    let answers ← session ops
    pure (answer :: answers)

/-! ## What a persistent map answers -/

section Specification
variable (initial : Str → Option Str)

/-- The value of a key after some calls, the latest first: that of the last `Put` since the
last `Delete`, or the initial value. -/
def lastValue : List Op → Str → Option Str
  | [], key => initial key
  | .put key' val :: before, key => if key' = key then some val else lastValue before key
  | .get _ :: before, key => lastValue before key
  | .delete :: _, _ => none

def answer (before : List Op) : Op → Option Str
  | .get key => lastValue initial before key
  | _ => none

def answers : List Op → List Op → List (Option Str)
  | _, [] => []
  | before, op :: ops => answer initial before op :: answers (op :: before) ops

end Specification

/-- The calls return what a map with these contents returns, and leave what it has then. -/
def Behaves (w : ConfigMaps) (ops : List Op) : Prop :=
  Ensures (session ops) w (fun r w' =>
    r = .ok (answers (record w) [] ops) ∧ ∀ key, record w' key = lastValue (record w) ops.reverse key)

/-- There is a `Put` and no `Delete` after it. -/
def Refilled (before : List Op) : Prop :=
  ∃ earlier key val later, before = earlier ++ .put key val :: later ∧ .delete ∉ later

/-- The calls avoid the panics. A `Put` before the first `Delete` finds data that are not
nil, and a `Delete` comes after a `Put` since the last one, or is the first one and finds
the config map. -/
structure Careful (usable present : Prop) (ops : List Op) : Prop where
  put : ∀ key val before after, ops = before ++ .put key val :: after → .delete ∉ before → usable
  delete : ∀ before after, ops = before ++ .delete :: after → Refilled before ∨ (.delete ∉ before ∧ present)

/-- A call in a list is its head, or is in its tail and has the head before it. -/
theorem forall_split {α : Type} {a x : α} {l : List α} {P : List α → List α → Prop} :
    (∀ before after, a :: l = before ++ x :: after → P before after) ↔
      (a = x → P [] l) ∧ ∀ before after, l = before ++ x :: after → P (a :: before) after := by
  constructor
  · intro h
    constructor
    · rintro rfl
      exact h [] l rfl
    · rintro before after rfl
      exact h (a :: before) after rfl
  · rintro ⟨hhead,htail⟩ before after heq
    cases before with
    | nil =>
      obtain ⟨rfl,rfl⟩ := List.cons.inj heq
      exact hhead rfl
    | cons b before =>
      obtain ⟨rfl,hl⟩ := List.cons.inj heq
      exact htail before after hl

section Careful
variable {usable present : Prop} {ops : List Op} {key val : Str}

theorem not_refilled_nil : ¬Refilled [] := by
  rintro ⟨earlier,_,_,_,heq,_⟩
  simp at heq

theorem refilled_cons {op : Op} :
    Refilled (op :: ops) ↔ Refilled ops ∨ (∃ key val, op = .put key val) ∧ .delete ∉ ops := by
  constructor
  · rintro ⟨earlier,key,val,later,heq,hlater⟩
    cases earlier with
    | nil =>
      obtain ⟨rfl,rfl⟩ := List.cons.inj heq
      exact Or.inr ⟨⟨key,val,rfl⟩,hlater⟩
    | cons _ earlier => exact Or.inl ⟨earlier,key,val,later,(List.cons.inj heq).2,hlater⟩
  · rintro (⟨earlier,key,val,later,rfl,hlater⟩ | ⟨⟨key,val,rfl⟩,hops⟩)
    · exact ⟨op :: earlier,key,val,later,rfl,hlater⟩
    · exact ⟨[],key,val,ops,rfl,hops⟩

theorem careful_iff : Careful usable present ops ↔
    (∀ key val before after, ops = before ++ .put key val :: after → .delete ∉ before → usable) ∧
    ∀ before after, ops = before ++ .delete :: after → Refilled before ∨ (.delete ∉ before ∧ present) :=
  ⟨fun h => ⟨h.put,h.delete⟩,fun h => ⟨h.1,h.2⟩⟩

theorem careful_nil : Careful usable present [] := by
  simp [careful_iff]

theorem careful_put : Careful usable present (.put key val :: ops) ↔ usable ∧ Careful True True ops := by
  simp only [careful_iff,forall_split,refilled_cons]
  grind

theorem careful_delete : Careful usable present (.delete :: ops) ↔ present ∧ Careful True False ops := by
  simp only [careful_iff,forall_split,refilled_cons,not_refilled_nil]
  simp

theorem careful_get : Careful usable present (.get key :: ops) ↔ Careful usable present ops := by
  simp only [careful_iff,forall_split,refilled_cons]
  simp

end Careful

/-! ## What a call does when the API server serves it -/

section Calls
variable {w : ConfigMaps} {key val : Str}

theorem run_get (hw : w.Reliable) (key : Str) :
    Ensures (run (.get key)) w (fun r w' => r = .ok (record w key) ∧ w'.Reliable ∧ w'.items = w.items) := by
  rw [run,ensures_mapFailure]
  refine (get_ensures key).mono ?_
  intro r w' h
  rw [h.reliable hw]
  exact ⟨rfl,hw.of_faults h.faults,h.items⟩

theorem run_put (hw : w.Reliable) (husable : Usable w) (key val : Str) :
    Ensures (run (.put key val)) w (fun r w' => r = .ok none ∧ w'.Reliable ∧
      ∀ key', record w' key' = if key = key' then some val else record w key') := by
  rw [run,ensures_bind,ensures_mapFailure]
  refine (put_ensures key val).mono ?_
  rintro r w' ⟨hwritten,hreturns⟩
  have hr := hreturns hw husable
  have hrecord : ∀ key', record w' key' = if key = key' then some val else record w key' := by
    intro key'
    split
    · rename_i heq
      rw [← heq]
      exact hwritten.answer hr
    · rename_i hne
      rcases hwritten.effect with hitems | hrecorded
      · rw [record,hitems,record]
      · exact hrecorded.others key' (Ne.symm hne)
  rw [hr]
  exact ⟨rfl,hw.of_faults hwritten.faults,hrecord⟩

/-- A nil map panics when it is written to. -/
theorem run_put_nil (hw : w.Reliable) (hnil : ¬Usable w) (key val : Str) :
    Ensures (run (.put key val)) w (fun r _ => r = .error (.vault .assignmentToNilMap)) := by
  obtain ⟨cm,hcm,hdata⟩ : ∃ cm, w.items () = some cm ∧ cm.data = none := by
    unfold Usable at hnil
    push Not at hnil
    exact hnil
  rw [run,ensures_bind,ensures_mapFailure,put,ensures_bind,ensures_attempt]
  refine getByKey_ensures.mono ?_
  intro item w₁ h
  have hlookup : ¬cm.lookup key = some val := by
    rw [ConfigMap.lookup,hdata]
    nofun
  rw [h.reliable hw,hcm,afterwards_ok,putFound,if_neg hlookup,hdata]
  rfl

theorem run_delete (hw : w.Reliable) (hpresent : w.items () ≠ none) :
    Ensures (run .delete) w (fun r w' => r = .ok none ∧ w'.Reliable ∧ w'.items () = none) := by
  obtain ⟨cm,hcm⟩ := Option.ne_none_iff_exists'.mp hpresent
  rw [run,ensures_bind,delete,ensures_bind,ensures_attempt]
  refine getByKey_ensures.mono ?_
  intro item w₁ h
  rw [h.reliable hw,hcm,afterwards_ok,ensures_mapFailure]
  have hw₁ : w₁.Reliable := hw.of_faults h.faults
  have hcm₁ : w₁.items () = some cm := by rw [h.items,hcm]
  refine (Store.onItem_served (fun _ : ConfigMap => ((),none))).mono ?_
  intro r w' hserved
  have hr := hserved.reliable hw₁ cm hcm₁
  subst hr
  obtain ⟨_,_,_,hitems⟩ := hserved.answer () rfl
  have hgone : w'.items () = none := by rw [hitems,Function.update_self]
  exact ⟨rfl,hw₁.of_faults hserved.faults,hgone⟩

theorem run_delete_missing (hw : w.Reliable) (hmissing : w.items () = none) :
    Ensures (run .delete) w (fun r _ => r = .error .nilInterfaceConversion) := by
  rw [run,ensures_bind,delete,ensures_bind,ensures_attempt]
  refine getByKey_ensures.mono ?_
  intro item w₁ h
  rw [h.reliable hw,hmissing]
  rfl

end Calls

/-! ## Sessions -/

section Sessions
variable {w : ConfigMaps} {ops : List Op}

/-- What is left of a session after one call that has returned. -/
theorem ensures_session_cons {op : Op} {Q : Except Interruption (List (Option Str)) → ConfigMaps → Prop} {a : Option Str}
    {w₁ : ConfigMaps} (h : run op w = (.ok a,w₁)) :
    Ensures (session (op :: ops)) w Q ↔ Ensures (session ops) w₁ (fun r w' => Q (r.map (a :: ·)) w') := by
  rw [session,ensures_bind,ensures_of_eq h,afterwards_ok,ensures_bind]
  refine ⟨fun hQ => hQ.mono ?_,fun hQ => hQ.mono ?_⟩
  · rintro (e | as) w' hr
    · exact hr
    · exact hr
  · rintro (e | as) w' hr
    · exact hr
    · exact hr

theorem ensures_session_failed {op : Op} {Q : Except Interruption (List (Option Str)) → ConfigMaps → Prop}
    {e : Interruption} {w₁ : ConfigMaps} (h : run op w = (.error e,w₁)) :
    Ensures (session (op :: ops)) w Q ↔ Q (.error e) w₁ := by
  rw [session,ensures_bind,ensures_of_eq h]
  rfl

/-- The calls that are left behave as those of a map with the history. -/
def Continues (initial : Str → Option Str) (before : List Op) (w : ConfigMaps) (ops : List Op) : Prop :=
  Ensures (session ops) w (fun r w' => r = .ok (answers initial before ops) ∧
    ∀ key, record w' key = lastValue initial (ops.reverse ++ before) key)

variable {initial : Str → Option Str} {before : List Op} {op : Op}

theorem continues_cons {w₁ : ConfigMaps} (h : run op w = (.ok (answer initial before op),w₁)) :
    Continues initial before w (op :: ops) ↔ Continues initial (op :: before) w₁ ops := by
  unfold Continues
  rw [ensures_session_cons h]
  have hreturned : ∀ r : Except Interruption (List (Option Str)),
      r.map (answer initial before op :: ·) = .ok (answers initial before (op :: ops)) ↔
        r = .ok (answers initial (op :: before) ops) := by
    intro r
    cases r with
    | error e => simp [Except.map]
    | ok as => simp [Except.map,answers]
  simp only [hreturned,List.reverse_cons,List.append_assoc,List.singleton_append]

theorem not_continues {e : Interruption} {w₁ : ConfigMaps} (h : run op w = (.error e,w₁)) :
    ¬Continues initial before w (op :: ops) := by
  unfold Continues
  rw [ensures_session_failed h]
  exact fun hr => by cases hr.1

/-- The invariant of a session: the vault has on record what the history says. -/
theorem continues_iff (hw : w.Reliable) (hrecord : ∀ key, record w key = lastValue initial before key) :
    Continues initial before w ops ↔ Careful (Usable w) (w.items () ≠ none) ops := by
  induction ops generalizing before w with
  | nil =>
    refine iff_of_true ⟨rfl,hrecord⟩ careful_nil
  | cons op ops ih =>
    cases op with
    | get key =>
      obtain ⟨hr,hw₁,hitems⟩ := run_get hw key
      rw [hrecord key] at hr
      rw [continues_cons (Prod.ext hr rfl),careful_get,ih hw₁]
      · unfold Usable
        rw [hitems]
      · intro key'
        rw [record,hitems]
        exact hrecord key'
    | put key val =>
      rw [careful_put]
      by_cases husable : Usable w
      · obtain ⟨hr,hw₁,hrecord₁⟩ := run_put hw husable key val
        have hkey : record (run (.put key val) w).2 key = some val := by
          rw [hrecord₁,if_pos rfl]
        have hpresent : (run (.put key val) w).2.items () ≠ none := by
          intro hnone
          rw [record,hnone] at hkey
          cases hkey
        rw [continues_cons (Prod.ext hr rfl),ih hw₁]
        · rw [eq_true (usable_of_record hkey),eq_true hpresent,eq_true husable,true_and]
        · intro key'
          rw [hrecord₁,hrecord,lastValue]
      · refine iff_of_false (not_continues (Prod.ext (run_put_nil hw husable key val) rfl)) fun h => husable h.1
    | delete =>
      rw [careful_delete]
      by_cases hpresent : w.items () = none
      · exact iff_of_false (not_continues (Prod.ext (run_delete_missing hw hpresent) rfl)) fun h => h.1 hpresent
      · obtain ⟨hr,hw₁,hgone⟩ := run_delete hw hpresent
        have husable : Usable (run .delete w).2 := by
          intro cm hcm
          rw [hgone] at hcm
          cases hcm
        have hmissing : ((run .delete w).2.items () ≠ none) = False := eq_false (not_not_intro hgone)
        rw [continues_cons (Prod.ext hr rfl),ih hw₁]
        · rw [eq_true husable,hmissing]
          exact ⟨fun h => ⟨hpresent,h⟩,fun h => h.2⟩
        · intro key'
          rw [record,hgone]
          rfl

end Sessions

/-- The vault behaves as a persistent map in exactly those sessions that avoid the panics. -/
theorem vault_behaves_iff (w : ConfigMaps) (hw : w.Reliable) (ops : List Op) :
    Behaves w ops ↔ Careful (Usable w) (w.items () ≠ none) ops := by
  have hiff : Continues (record w) [] w ops ↔ Careful (Usable w) (w.items () ≠ none) ops := continues_iff hw fun _ => rfl
  unfold Continues at hiff
  rwa [List.append_nil] at hiff

/-- An API server that serves all calls. -/
def served (cm : Option ConfigMap) : ConfigMaps where
  items _ := cm
  faults _ := none
  clock := 0

theorem vault_behaves_put_get : (served none).Reliable ∧
    Behaves (served none) [.put uidDataKey "a".toList,.get uidDataKey,.delete,.get uidDataKey] := by
  have hserved : (served none).Reliable := fun _ => rfl
  refine ⟨hserved,(vault_behaves_iff (served none) hserved _).mpr ?_⟩
  rw [careful_put,careful_get,careful_delete,careful_get]
  exact ⟨nofun,trivial,careful_nil⟩

/-- A `Delete` without a config map, and a `Put` into a config map without data. -/
theorem vault_panics :
    ((session [.delete] (served none)).1 = .error .nilInterfaceConversion ∧ ¬Behaves (served none) [.delete]) ∧
    ((session [.put uidDataKey "a".toList] (served (some ⟨none⟩))).1 = .error (.vault .assignmentToNilMap) ∧
      ¬Behaves (served (some ⟨none⟩)) [.put uidDataKey "a".toList]) :=
  ⟨⟨rfl,fun h => by cases h.1⟩,rfl,fun h => by cases h.1⟩

end IngressGce.Storage
