import IngressGce.LoadBalancer.EdgeHop
import IngressGce.Program.Runs
import Mathlib.Data.List.AList

/-! # The pool of load balancers

The pool maps names to load balancers by reference, so that one load balancer
can be found under two names. `add` and `delete` look a load balancer up under
a name to which `Namer.loadBalancer` has been applied twice. The operations of a
run carry the answers of the cloud, and `gc` the order in which it visits the
names of the pool.
-/
namespace IngressGce
open Prog

abbrev Ref := ℕ

/-- What the pool does to its entries on a call of `delete` with argument `name`. -/
inductive PoolEvent
  | cleanup (name : Str) (lb : Ref)
  | remove (name key : Str)
  deriving DecidableEq, Repr

structure L7s where
  namer : Namer
  snapshotter : AList (fun _ : Str => Ref)
  heap : Ref → L7
  glbcDefaultBackend : Option BackendService
  cloud : Cloud
  log : List Event
  trace : List PoolEvent

abbrev L7sM (α : Type) := Prog L7s Failure α

/-- The answers of the pool of default backends. -/
structure DefaultBackend where
  ensure : Option GoError
  get : Except GoError BackendService
  delete : Option GoError

/-- A pool of default backends that answers without error. -/
def DefaultBackend.ready : DefaultBackend :=
  { ensure := none, get := .ok { selfLink := "backendServices/default".toList }, delete := none }

namespace L7s
variable (G : SelfLinks)

def lookup (w : L7s) (key : Str) : Option Ref := w.snapshotter.lookup key

/-- A reference that no entry of the pool uses. -/
def freshRef (w : L7s) : Ref := (w.snapshotter.entries.map (fun e => e.2)).foldr max 0 + 1

def newL7 (w : L7s) (ri : L7RuntimeInfo) : L7 where
  name := w.namer.loadBalancer ri.name
  runtimeInfo := ri
  um := none
  tp := none
  tps := none
  fw := none
  fws := none
  ip := none
  sslCert := none
  oldSSLCert := none
  glbcDefaultBackend := w.glbcDefaultBackend

def store (w : L7s) (lb : Ref) (l : L7) : L7s := { w with heap := Function.update w.heap lb l }

def create (ri : L7RuntimeInfo) : L7sM Ref := do
  let w ← state
  update (fun w => w.store w.freshRef (w.newL7 ri))
  pure w.freshRef

def notInPool (name : Str) : GoError := .text ("loadbalancer ".toList ++ name ++ " not in pool".toList)

def get (name : Str) : L7sM Ref := do
  let w ← state
  let name := w.namer.loadBalancer name
  match w.lookup name with
  | none => fail (.returned (notInPool name))
  | some lb => pure lb

/-- Run a method of a load balancer of the pool. -/
def call {α : Type} (lb : Ref) (m : L7M α) : L7sM α :=
  onPart (fun w => { l7 := w.heap lb, cloud := w.cloud, log := w.log })
    (fun h w => { w.store lb h.l7 with cloud := h.cloud, log := h.log }) m

def add (ri : L7RuntimeInfo) (plan : Plan) : L7sM Unit := do
  let w ← state
  let name := w.namer.loadBalancer ri.name
  let found ← orNil (get name)
  let lb ← (match found with
    | none => create ri
    | some lb => do
      update (fun w => w.store lb { w.heap lb with runtimeInfo := ri })
      pure lb)
  deferring (call lb (edgeHop G plan)) (fun w => { w with snapshotter := w.snapshotter.insert name lb })

def delete (name : Str) (plan : Plan) : L7sM Unit := do
  let w ← state
  let key := w.namer.loadBalancer name
  let lb ← get key
  update (fun w => { w with trace := .cleanup name lb :: w.trace })
  call lb (cleanup plan)
  update (fun w => { w with snapshotter := w.snapshotter.erase key, trace := .remove name key :: w.trace })

/-- Make sure that the default backend exists, and remember it. -/
def ensureDefaultBackend (backend : DefaultBackend) : L7sM Unit :=
  match backend.ensure, backend.get with
  | some e, _ => fail (.returned e)
  | none, .error e => fail (.returned e)
  | none, .ok service => update (fun w => { w with glbcDefaultBackend := some service })

def sync (lbs : List (L7RuntimeInfo × Plan)) (backend : DefaultBackend) : L7sM Unit := do
  onlyIf (!lbs.isEmpty) (ensureDefaultBackend backend)
  forEach (fun lb => add G lb.1 lb.2) lbs

def deleteDefaultBackend (backend : DefaultBackend) : L7sM Unit :=
  match backend.delete with
  | some e => fail (.returned e)
  | none => update (fun w => { w with glbcDefaultBackend := none })

/-- The names `gc` keeps. -/
def known (w : L7s) (names : List Str) : List Str := names.map w.namer.loadBalancer

/-- One round of the loop of `gc`. -/
def deleteUnknown (known : List Str) (e : Str × Plan) : L7sM Unit :=
  if e.1 ∈ known then pure () else delete e.1 e.2

def gc (names : List Str) (order : List (Str × Plan)) (backend : DefaultBackend) : L7sM Unit := do
  let w ← state
  forEach (deleteUnknown (w.known names)) order
  onlyIf names.isEmpty (deleteDefaultBackend backend)

def setUID (uid : Str) : L7sM Unit := update (fun w => { w with namer := Namer.setUID uid })

/-- The operations on the pool, with all that the environment decides. -/
inductive Op
  | add (ri : L7RuntimeInfo) (plan : Plan)
  | delete (name : Str) (plan : Plan)
  | sync (lbs : List (L7RuntimeInfo × Plan)) (backend : DefaultBackend)
  | gc (names : List Str) (order : List (Str × Plan)) (backend : DefaultBackend)
  | setUID (uid : Str)

def run : Op → L7sM Unit
  | .add ri plan => add G ri plan
  | .delete name plan => delete name plan
  | .sync lbs backend => sync G lbs backend
  | .gc names order backend => gc names order backend
  | .setUID uid => setUID uid

/-- The pool as an operation finds it: nothing has been recorded yet. -/
def reset (w : L7s) : L7s := { w with log := [], trace := [] }

def step (w : L7s) (op : Op) : L7s := (run G op w.reset).2

/-- The order of visit is one of the orders in which the names can be visited. -/
def Op.Valid (w : L7s) : Op → Prop
  | .gc _ order _ => (order.map Prod.fst).Perm w.snapshotter.keys
  | _ => True

/-- A pool at the start of the process. -/
def start (namer : Namer) (c : Cloud) : L7s where
  namer := namer
  snapshotter := ∅
  heap := default
  glbcDefaultBackend := none
  cloud := c
  log := []
  trace := []

section Rules
variable {G} {w : L7s}

theorem ne_freshRef {key : Str} {lb : Ref} (h : w.lookup key = some lb) : lb ≠ w.freshRef := by
  have hmem : (⟨key,lb⟩ : Sigma fun _ : Str => Ref) ∈ w.snapshotter.entries :=
    AList.mem_lookup_iff.mp h
  have hle : ∀ (es : List (Sigma fun _ : Str => Ref)), ⟨key,lb⟩ ∈ es → lb ≤ (es.map (fun e => e.2)).foldr max 0 := by
    intro es hes
    induction es with
    | nil => cases hes
    | cons e rest ih =>
      rcases List.mem_cons.mp hes with rfl | hes
      · exact le_max_left _ _
      · exact (ih hes).trans (le_max_right _ _)
  exact (Nat.lt_succ_of_le (hle _ hmem)).ne

/-- The load balancer on which `add` runs the edge hop. -/
def slot (w : L7s) (ri : L7RuntimeInfo) : Ref :=
  (w.lookup (w.namer.loadBalancer (w.namer.loadBalancer ri.name))).getD w.freshRef

/-- The load balancer as its edge hop finds it. -/
def startL7 (w : L7s) (ri : L7RuntimeInfo) : L7 :=
  match w.lookup (w.namer.loadBalancer (w.namer.loadBalancer ri.name)) with
  | none => w.newL7 ri
  | some lb => { w.heap lb with runtimeInfo := ri }

theorem startL7_runtimeInfo (w : L7s) (ri : L7RuntimeInfo) : (w.startL7 ri).runtimeInfo = ri := by
  unfold startL7
  split <;> rfl

/-- The pool after an `add` whose edge hop left `h`. -/
def afterAdd (w : L7s) (ri : L7RuntimeInfo) (h : Hop) : L7s :=
  { w.store (w.slot ri) h.l7 with
    cloud := h.cloud
    log := h.log
    snapshotter := w.snapshotter.insert (w.namer.loadBalancer ri.name) (w.slot ri) }

@[simp] theorem lookup_afterAdd_self (w : L7s) (ri : L7RuntimeInfo) (h : Hop) :
    (w.afterAdd ri h).lookup (w.namer.loadBalancer ri.name) = some (w.slot ri) := AList.lookup_insert _

theorem lookup_afterAdd_of_ne {ri : L7RuntimeInfo} {h : Hop} {key : Str} (hne : key ≠ w.namer.loadBalancer ri.name) :
    (w.afterAdd ri h).lookup key = w.lookup key := AList.lookup_insert_ne hne

@[simp] theorem heap_afterAdd_self (w : L7s) (ri : L7RuntimeInfo) (h : Hop) :
    (w.afterAdd ri h).heap (w.slot ri) = h.l7 := Function.update_self _ _ _

theorem heap_afterAdd_of_ne {ri : L7RuntimeInfo} {h : Hop} {lb : Ref} (hne : lb ≠ w.slot ri) :
    (w.afterAdd ri h).heap lb = w.heap lb := Function.update_of_ne hne _ _

/-- The pool after a `delete` whose cleanup left `h` and answered `r`. -/
def afterCleanup (w : L7s) (name : Str) (lb : Ref) (r : Except Failure Unit) (h : Hop) : L7s :=
  let w' := { w.store lb h.l7 with cloud := h.cloud, log := h.log, trace := .cleanup name lb :: w.trace }
  match r with
  | .error _ => w'
  | .ok _ =>
    { w' with
      snapshotter := w.snapshotter.erase (w.namer.loadBalancer name)
      trace := .remove name (w.namer.loadBalancer name) :: w'.trace }

section AfterCleanup
variable {name : Str} {lb : Ref} {r : Except Failure Unit} {h : Hop}

theorem namer_afterCleanup : (w.afterCleanup name lb r h).namer = w.namer := by
  cases r <;> rfl

theorem cloud_afterCleanup : (w.afterCleanup name lb r h).cloud = h.cloud := by
  cases r <;> rfl

theorem heap_afterCleanup : (w.afterCleanup name lb r h).heap = Function.update w.heap lb h.l7 := by
  cases r <;> rfl

theorem heap_afterCleanup_self : (w.afterCleanup name lb r h).heap lb = h.l7 := by
  rw [heap_afterCleanup,Function.update_self]

theorem heap_afterCleanup_of_ne {lb' : Ref} (hne : lb' ≠ lb) : (w.afterCleanup name lb r h).heap lb' = w.heap lb' := by
  rw [heap_afterCleanup,Function.update_of_ne hne]

theorem lookup_afterCleanup_self :
    (w.afterCleanup name lb (.ok ()) h).lookup (w.namer.loadBalancer name) = none := AList.lookup_erase _ _

theorem lookup_afterCleanup_of_ne {key : Str} (hne : key ≠ w.namer.loadBalancer name) :
    (w.afterCleanup name lb r h).lookup key = w.lookup key := by
  cases r with
  | error e => rfl
  | ok _ => exact AList.lookup_erase_ne hne

/-- A deletion takes names out of the pool and puts none in. -/
theorem afterCleanup_shrinks {key : Str} {lb' : Ref}
    (hk : (w.afterCleanup name lb r h).lookup key = some lb') : w.lookup key = some lb' := by
  by_cases hne : key = w.namer.loadBalancer name
  · subst hne
    cases r with
    | error e => exact hk
    | ok _ =>
      rw [lookup_afterCleanup_self] at hk
      cases hk
  · rwa [lookup_afterCleanup_of_ne hne] at hk

end AfterCleanup

theorem ensures_add (ri : L7RuntimeInfo) (plan : Plan) (Q : Except Failure Unit → L7s → Prop) :
    Ensures (add G ri plan) w Q ↔
      Ensures (edgeHop G plan) { l7 := w.startL7 ri, cloud := w.cloud, log := w.log }
        (fun r h => Q r (w.afterAdd ri h)) := by
  simp only [add,ensures_bind,ensures_state,afterwards_ok,ensures_orNil,get,startL7,afterAdd,slot]
  cases hw : w.lookup (w.namer.loadBalancer (w.namer.loadBalancer ri.name)) with
  | none =>
    simp [create,call,store,Except.toOption]
  | some lb =>
    simp [call,store,Except.toOption]

theorem ensures_delete {name : Str} {plan : Plan} {Q : Except Failure Unit → L7s → Prop}
    (missing : w.lookup (w.namer.loadBalancer (w.namer.loadBalancer name)) = none → ∀ e, Q (.error e) w)
    (found : ∀ lb, w.lookup (w.namer.loadBalancer (w.namer.loadBalancer name)) = some lb →
      Ensures (cleanup plan) { l7 := w.heap lb, cloud := w.cloud, log := w.log }
        (fun r h => Q r (w.afterCleanup name lb r h))) :
    Ensures (delete name plan) w Q := by
  simp only [delete,ensures_bind,ensures_state,afterwards_ok,get]
  cases hw : w.lookup (w.namer.loadBalancer (w.namer.loadBalancer name)) with
  | none => exact missing hw _
  | some lb =>
    simp only [ensures_pure,afterwards_ok,ensures_bind,ensures_update,call,ensures_onPart]
    refine (found lb hw).mono ?_
    intro r h hQ
    cases r with
    | error e => exact hQ
    | ok _ => exact hQ

/-- The key of an Ingress and the name made from it stand for one entry of the pool: `add`
leaves it where `get` finds it, `delete` cleans it up and removes it, whether it is called
with the key or, as `gc` does, with the name, and `gc` keeps it when either is listed. -/
structure OneEntry (G : SelfLinks) (key : Str) (w : L7s) : Prop where
  get : L7s.get (w.namer.loadBalancer key) w = L7s.get key w
  add : ∀ (ri : L7RuntimeInfo) (plan : Plan), ri.name = key → Ensures (L7s.add G ri plan) w (fun _ w' =>
    ∃ lb, L7s.get key w' = (.ok lb,w') ∧ L7s.get (w.namer.loadBalancer key) w' = (.ok lb,w'))
  delete : ∀ (plan : Plan) (lb : Ref), L7s.get key w = (.ok lb,w) →
    ∀ name ∈ [key,w.namer.loadBalancer key], Ensures (L7s.delete name plan) w (fun r w' =>
      r = (cleanup plan { l7 := w.heap lb, cloud := w.cloud, log := w.log }).1 ∧
      (r = .ok () → ∀ lb', L7s.get key w' ≠ (.ok lb',w')))
  gc : ∀ (names : List Str) (plan : Plan), (∃ name ∈ [key,w.namer.loadBalancer key], name ∈ names) →
    deleteUnknown (w.known names) (w.namer.loadBalancer key,plan) = pure ()

theorem get_eq (name : Str) : get name w = match w.lookup (w.namer.loadBalancer name) with
    | none => (.error (.returned (notInPool (w.namer.loadBalancer name))),w)
    | some lb => (.ok lb,w) := by
  change (match w.lookup (w.namer.loadBalancer name) with
    | none => fail (.returned (notInPool (w.namer.loadBalancer name)))
    | some lb => pure lb : L7sM Ref) w = _
  cases w.lookup (w.namer.loadBalancer name) with
  | none => rfl
  | some lb => rfl

theorem get_eq_ok_iff {name : Str} {lb : Ref} :
    get name w = (.ok lb,w) ↔ w.lookup (w.namer.loadBalancer name) = some lb := by
  rw [get_eq]
  cases w.lookup (w.namer.loadBalancer name) with
  | none => simp
  | some lb' => simp

theorem get_congr {name name' : Str} (h : w.namer.loadBalancer name = w.namer.loadBalancer name') :
    get name w = get name' w := by
  rw [get_eq,get_eq,h]

theorem loadBalancer_eq_of_mem {n : Namer} {key name : Str}
    (h : n.loadBalancer (n.loadBalancer key) = n.loadBalancer key) (hname : name ∈ [key,n.loadBalancer key]) :
    n.loadBalancer name = n.loadBalancer key := by
  simp only [List.mem_cons,List.not_mem_nil,or_false] at hname
  rcases hname with rfl | rfl
  · rfl
  · exact h

theorem oneEntry_of_idem (G : SelfLinks) {key : Str}
    (h : w.namer.loadBalancer (w.namer.loadBalancer key) = w.namer.loadBalancer key) : OneEntry G key w where
  get := get_congr h
  add := by
    rintro ri plan rfl
    rw [ensures_add]
    refine Ensures.mono (ensures_run _ _) fun _ hop _ => ?_
    have hfound : get ri.name (w.afterAdd ri hop) = (.ok (w.slot ri),w.afterAdd ri hop) :=
      get_eq_ok_iff.mpr (lookup_afterAdd_self w ri hop)
    have hrenamed : get (w.namer.loadBalancer ri.name) (w.afterAdd ri hop) = get ri.name (w.afterAdd ri hop) :=
      get_congr h
    exact ⟨w.slot ri,hfound,hrenamed.trans hfound⟩
  delete := by
    intro plan lb hget name hname
    have hsame := loadBalancer_eq_of_mem h hname
    have hlookup : w.lookup (w.namer.loadBalancer (w.namer.loadBalancer name)) = some lb := by
      rw [hsame,h]
      exact get_eq_ok_iff.mp hget
    refine ensures_delete (fun hmissing => ?_) fun lb' hfound => ?_
    · rw [hlookup] at hmissing
      cases hmissing
    · rw [hlookup] at hfound
      obtain rfl := Option.some.inj hfound
      refine Ensures.mono (ensures_run _ _) fun r hop hrun => ⟨by rw [hrun],?_⟩
      rintro rfl lb' hget'
      have hgone : (w.afterCleanup name lb (.ok ()) hop).lookup (w.namer.loadBalancer key) = none := by
        rw [← hsame]
        exact lookup_afterCleanup_self
      have hstays : (w.afterCleanup name lb (.ok ()) hop).lookup (w.namer.loadBalancer key) = some lb' :=
        get_eq_ok_iff.mp hget'
      rw [hgone] at hstays
      cases hstays
  gc := by
    rintro names plan ⟨name,hname,hmem⟩
    have hknown : w.namer.loadBalancer key ∈ w.known names := by
      rw [← loadBalancer_eq_of_mem h hname]
      exact List.mem_map_of_mem hmem
    exact if_pos hknown

/-- Renaming is idempotent, so that the operations of the pool agree on the entry of an
Ingress. -/
theorem loadBalancer_idempotent (G : SelfLinks) (uid : Str) {key : Str} (hkey : IngressKey key)
    (hu : '/' ∉ (Namer.setUID uid).clusterName) :
    (Namer.setUID uid).loadBalancer ((Namer.setUID uid).loadBalancer key) = (Namer.setUID uid).loadBalancer key ∧
    ∀ w : L7s, w.namer = Namer.setUID uid → OneEntry G key w := by
  have hidem := loadBalancer_idem (Namer.setUID uid) hkey hu
  refine ⟨hidem,fun w hw => oneEntry_of_idem G ?_⟩
  rw [hw,hidem]

/-- A key that is too long and has dashes where it is cut. -/
theorem loadBalancer_idempotent_long :
    (Namer.setUID "uid".toList).loadBalancer ((Namer.setUID "uid".toList).loadBalancer
        "default/a-long-name--with-dashes--and-more-dashes-------------------z".toList) =
      (Namer.setUID "uid".toList).loadBalancer
        "default/a-long-name--with-dashes--and-more-dashes-------------------z".toList :=
  (loadBalancer_idempotent SelfLinks.byCollection "uid".toList
    ⟨"default".toList,"a-long-name--with-dashes--and-more-dashes-------------------z".toList,by decide⟩ (by decide)).1

end Rules

section Invariants

/-- Conditions on the calls of `add`, of `delete` and of `setUID`, in the pool they
start from. -/
structure Conditions where
  add : L7s → L7RuntimeInfo → Plan → Prop
  delete : L7s → Str → Plan → Prop
  setUID : L7s → Str → Prop

/-- All the calls an operation consists of meet their conditions, also those that
`sync` and `gc` make one after the other. -/
def Op.Meets (C : Conditions) (w : L7s) : Op → Prop
  | .add ri plan => C.add w ri plan
  | .delete name plan => C.delete w name plan
  | .sync lbs backend =>
    Runs.Along (fun w lb => (L7s.add G lb.1 lb.2 w).2) (fun w lb => C.add w lb.1 lb.2)
      (onlyIf (!lbs.isEmpty) (ensureDefaultBackend backend) w).2 lbs
  | .gc names order _ =>
    Runs.Along (fun w' e => (deleteUnknown (w.known names) e w').2)
      (fun w' e => e.1 ∉ w.known names → C.delete w' e.1 e.2) w order
  | .setUID uid => C.setUID w uid

variable {G} {C : Conditions} {I : L7s → Prop}

theorem ensures_ensureDefaultBackend {w : L7s} {wanted : Bool} {backend : DefaultBackend}
    {Q : Except Failure Unit → L7s → Prop} (h : ∀ r b, Q r { w with glbcDefaultBackend := b }) :
    Ensures (onlyIf wanted (ensureDefaultBackend backend)) w Q := by
  rw [ensures_onlyIf]
  refine ⟨fun _ => ?_,fun _ => h _ _⟩
  unfold ensureDefaultBackend
  cases backend.ensure with
  | some e => exact h _ _
  | none =>
    cases backend.get with
    | error e => exact h _ _
    | ok service => exact h _ _

theorem ensures_deleteDefaultBackend {w : L7s} {empty : Bool} {backend : DefaultBackend}
    {Q : Except Failure Unit → L7s → Prop} (h : ∀ r b, Q r { w with glbcDefaultBackend := b }) :
    Ensures (onlyIf empty (deleteDefaultBackend backend)) w Q := by
  rw [ensures_onlyIf]
  refine ⟨fun _ => ?_,fun _ => h _ _⟩
  unfold deleteDefaultBackend
  cases backend.delete with
  | some e => exact h _ _
  | none => exact h _ _

/-- What `add` preserves under a condition, `sync` preserves if the condition is met
whenever it calls `add`. -/
theorem sync_invariant {A : L7s → L7RuntimeInfo → Plan → Prop}
    (hadd : ∀ w ri plan, I w → A w ri plan → Ensures (add G ri plan) w (fun _ w' => I w'))
    (hbackend : ∀ w b, I w → I { w with glbcDefaultBackend := b }) {w : L7s} {lbs : List (L7RuntimeInfo × Plan)}
    {backend : DefaultBackend} (hI : I w)
    (hlbs : Runs.Along (fun w lb => (L7s.add G lb.1 lb.2 w).2) (fun w lb => A w lb.1 lb.2)
      (onlyIf (!lbs.isEmpty) (ensureDefaultBackend backend) w).2 lbs) :
    Ensures (sync G lbs backend) w (fun _ w' => I w') := by
  have hensure : Ensures (onlyIf (!lbs.isEmpty) (ensureDefaultBackend backend)) w (fun _ w' =>
      I w' ∧ w' = (onlyIf (!lbs.isEmpty) (ensureDefaultBackend backend) w).2) :=
    ⟨ensures_ensureDefaultBackend fun _ b => hbackend w b hI,rfl⟩
  rw [sync,ensures_bind]
  refine hensure.mono ?_
  rintro r w' ⟨hI',rfl⟩
  cases r with
  | error e => exact hI'
  | ok _ => exact forEach_along _ I (fun lb w hI hA => hadd w lb.1 lb.2 hI hA) hI' hlbs

/-- What `add` and `delete` preserve under their conditions, every operation does. -/
theorem run_invariant
    (hadd : ∀ w ri plan, I w → C.add w ri plan → Ensures (add G ri plan) w (fun _ w' => I w'))
    (hdelete : ∀ w name plan, I w → C.delete w name plan → Ensures (delete name plan) w (fun _ w' => I w'))
    (huid : ∀ w uid, I w → C.setUID w uid → I { w with namer := Namer.setUID uid })
    (hbackend : ∀ w b, I w → I { w with glbcDefaultBackend := b })
    {w : L7s} {op : Op} (hI : I w) (hop : op.Meets G C w) : Ensures (run G op) w (fun _ w' => I w') := by
  cases op with
  | add ri plan => exact hadd w ri plan hI hop
  | delete name plan => exact hdelete w name plan hI hop
  | setUID uid => exact huid w uid hI hop
  | sync lbs backend => exact sync_invariant hadd hbackend hI hop
  | gc names order backend =>
    have hloop : Ensures (forEach (deleteUnknown (w.known names)) order) w (fun _ w' => I w') := by
      refine forEach_along _ I ?_ hI hop
      intro e w' hI' hC
      rw [deleteUnknown,ensures_ite,ensures_pure]
      exact ⟨fun _ => hI',fun hunknown => hdelete w' e.1 e.2 hI' (hC hunknown)⟩
    simp only [run,gc,ensures_bind,ensures_state,afterwards_ok]
    refine hloop.mono ?_
    intro r w' hI'
    cases r with
    | error e => exact hI'
    | ok _ => exact ensures_deleteDefaultBackend fun _ b => hbackend w' b hI'

end Invariants

end L7s
end IngressGce
