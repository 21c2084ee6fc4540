import IngressGce.LoadBalancer.Pool
import IngressGce.Routing.Preserves

/-! # The url maps of the pool of load balancers

The pool with the url maps of its load balancers and all their rules. What else a load
balancer is made of, its proxies, certificates, addresses and forwarding rules, is a state
of its own, on which the remaining part of an edge hop or of a cleanup runs and may fail.
-/
namespace IngressGce.Routing
open Prog

/-- A load balancer, with its url map as it was seen last. -/
structure Front (β : Type) where
  name : Str
  um : Option UrlMap
  glbcDefaultBackend : Option β

structure Fronts (β ρ : Type) where
  snapshotter : AList (fun _ : Str => Ref)
  heap : Ref → Front β
  glbcDefaultBackend : Option β
  urlMaps : Store Str UrlMap
  rest : ρ

abbrev FrontM (β ρ α : Type) := Prog (Fronts β ρ) GoError α

/-! ## What an update writes -/

section Writes
variable {β : Type} {w : Balancer β}

theorem cloudUpdateUrlMap_items (um : UrlMap) : Ensures (cloudUpdateUrlMap um) w (fun _ w' =>
    w'.cloud.items = w.cloud.items ∨ w'.cloud.items = Function.update w.cloud.items um.name (some um)) := by
  rw [cloudUpdateUrlMap,ensures_bind,ensures_update,afterwards_ok,cloudCall,ensures_onPart,ensures_mapFailure]
  refine (Store.onItem_served _).mono ?_
  intro r c hserved
  rcases hserved.items with hitems | ⟨_,_,hitems⟩
  · exact Or.inl hitems
  · exact Or.inr hitems

theorem pushUrlMap_items (um : UrlMap) : Ensures (pushUrlMap um) w (fun _ w' =>
    w'.cloud.items = w.cloud.items ∨ w'.cloud.items = Function.update w.cloud.items um.name (some um)) := by
  rw [pushUrlMap,ensures_bind,ensures_orNil]
  refine (getUrlMap_ensures um.name).mono ?_
  rintro r w₁ ⟨hitems₁,_⟩
  rw [afterwards_ok,ensures_ite]
  refine ⟨fun _ => Or.inl hitems₁,fun _ => ?_⟩
  rw [ensures_bind]
  refine (cloudUpdateUrlMap_items um).mono ?_
  intro r w₂ hitems₂
  rw [hitems₁] at hitems₂
  cases r with
  | error e => exact hitems₂
  | ok _ =>
    rw [afterwards_ok,ensures_bind]
    refine (getUrlMap_ensures um.name).mono ?_
    rintro r w₃ ⟨hitems₃,_⟩
    rw [← hitems₃] at hitems₂
    cases r with
    | error e => exact hitems₂
    | ok m => exact hitems₂

/-- What is known after an update of a url map, also if it has failed. -/
structure Wrote (md5 : Str → Str) (selfLink : β → Str) (o : Orders β) (g : GCEURLMap β) (w : Balancer β)
    (r : Except Failure Unit) (w' : Balancer β) : Prop where
  name : ∀ m, w'.um = some m → ∃ um, w.um = some um ∧ m.name = um.name
  items : w'.cloud.items = w.cloud.items ∨ ∃ um um' link, w.um = some um ∧
    render md5 selfLink o um g.getDefaultBackend.2 link = some um' ∧
    w'.cloud.items = Function.update w.cloud.items um.name (some um')
  ok : r = .ok () → ∃ um um' link m, w.um = some um ∧
    render md5 selfLink o um g.getDefaultBackend.2 link = some um' ∧
    w'.cloud.items um.name = some m ∧ mapsEqual m um' = true

theorem updateUrlMap_wrote (md5 : Str → Str) (selfLink : β → Str) (o : Orders β) (g : GCEURLMap β) (w : Balancer β) :
    Ensures (updateUrlMap md5 selfLink o g) w (Wrote md5 selfLink o g w) := by
  have hnothing : ∀ e, Wrote md5 selfLink o g w (.error e) w := fun e => ⟨fun m hm => ⟨m,hm,rfl⟩,Or.inl rfl,nofun⟩
  rw [updateUrlMap,ensures_bind,buildUrlMap,ensures_bind,ensures_state,afterwards_ok]
  split
  · exact hnothing _
  · rename_i um hum
    dsimp only
    split
    · exact hnothing _
    · rename_i um' hbuilt
      obtain ⟨link,_,hrender⟩ := Option.bind_eq_some_iff.mp hbuilt
      have hname : um'.name = um.name := by rw [render_eq hrender]
      rw [ensures_bind,ensures_update,afterwards_ok,ensures_pure,afterwards_ok]
      refine ((pushUrlMap_ensures um').and (pushUrlMap_items um')).mono ?_
      rintro r w' ⟨hpushed,hitems⟩
      refine ⟨?_,?_,?_⟩
      · intro m hm
        obtain ⟨m',hm',hname'⟩ := hpushed.name rfl
        obtain rfl := Option.some.inj (hm.symm.trans hm')
        exact ⟨um,hum,hname'.trans hname⟩
      · rw [hname] at hitems
        exact hitems.imp_right fun h => ⟨um,um',link,hum,hrender,h⟩
      · intro hok
        obtain ⟨m,hm,hsame⟩ := hpushed.cloud hok
        rw [hname] at hm
        exact ⟨um,um',link,m,hum,hrender,hm,hsame⟩

end Writes

namespace Fronts
variable {β ρ α : Type} (n : Namer) (selfLink : β → Str)

def onUrlMaps (m : Prog (Store Str UrlMap) GoError α) : FrontM β ρ α :=
  onPart Fronts.urlMaps (fun c w => { w with urlMaps := c }) m

def onRest (m : Prog ρ GoError α) : FrontM β ρ α := onPart Fronts.rest (fun r w => { w with rest := r }) m

def freshRef (w : Fronts β ρ) : Ref := (w.snapshotter.entries.map (fun e => e.2)).foldr max 0 + 1

/-- The load balancer has this url map from now on. -/
def record (w : Fronts β ρ) (lb : Ref) (um : Option UrlMap) : Fronts β ρ :=
  { w with heap := Function.update w.heap lb { w.heap lb with um := um } }

def setUrlMap (lb : Ref) (um : Option UrlMap) : FrontM β ρ Unit := update (fun w => w.record lb um)

def get (name : Str) : FrontM β ρ Ref := do
  let w ← state
  match w.snapshotter.lookup (n.loadBalancer name) with
  | none => fail (L7s.notInPool (n.loadBalancer name))
  | some lb => pure lb

def newFront (w : Fronts β ρ) (ri : L7RuntimeInfo) : Front β where
  name := n.loadBalancer ri.name
  um := none
  glbcDefaultBackend := w.glbcDefaultBackend

def create (ri : L7RuntimeInfo) : FrontM β ρ Ref := do
  let w ← state
  update (fun w => { w with heap := Function.update w.heap w.freshRef (newFront n w ri) })
  pure w.freshRef

def readUrlMap (name : Str) : FrontM β ρ UrlMap := onUrlMaps (Store.onItem name (fun um => (um,some um)))

def createUrlMap (um : UrlMap) : FrontM β ρ Unit := onUrlMaps (Store.insert um.name um)

def checkUrlMap (lb : Ref) : FrontM β ρ Unit := do
  let w ← state
  match (w.heap lb).glbcDefaultBackend with
  | none => fail (.text "cannot create urlmap without default backend".toList)
  | some backend =>
    match ← orNil (readUrlMap (Namer.urlMap (w.heap lb).name)) with
    | some um => setUrlMap lb (some um)
    | none => do
      createUrlMap {
        name := Namer.urlMap (w.heap lb).name
        defaultService := selfLink backend
        hostRules := []
        pathMatchers := [] }
      let um ← readUrlMap (Namer.urlMap (w.heap lb).name)
      setUrlMap lb (some um)

/-- The load balancer is looked up under a name to which `LoadBalancer` has been applied
twice. `hops` is what the edge hop does after the url map. -/
def add (hops : L7RuntimeInfo → Prog ρ GoError Unit) (ri : L7RuntimeInfo) : FrontM β ρ Unit := do
  let found ← orNil (get n (n.loadBalancer ri.name))
  let lb ← (match found with
    | none => create n ri
    | some lb => pure lb)
  deferring
    (do
      checkUrlMap selfLink lb
      onRest (hops ri))
    (fun w => { w with snapshotter := w.snapshotter.insert (n.loadBalancer ri.name) lb })

/-- The url map is the last resource that a cleanup deletes. -/
def deleteUrlMap (lb : Ref) : FrontM β ρ Unit := do
  let w ← state
  match (w.heap lb).um with
  | none => pure ()
  | some um => do
    rescue (onUrlMaps (Store.onItem um.name (fun _ => ((),none))))
      (fun e => if isHTTPErrorCode e statusNotFound then pure () else fail e)
    setUrlMap lb none

/-- `dispose` is what the cleanup does before the url map. -/
def delete (dispose : Str → Prog ρ GoError Unit) (name : Str) : FrontM β ρ Unit := do
  let lb ← get n (n.loadBalancer name)
  onRest (dispose name)
  deleteUrlMap lb
  update (fun w => { w with snapshotter := w.snapshotter.erase (n.loadBalancer name) })

/-- The loop of `GC`. -/
def deleteUnknown (dispose : Str → Prog ρ GoError Unit) (order : Iteration Str) (names : List Str) : FrontM β ρ Unit := do
  let w ← state
  forEach (fun name => if name ∈ names.map n.loadBalancer then pure () else delete n dispose name)
    (order.range w.snapshotter.keys)

def updateUrlMap (md5 : Str → Str) (o : Orders β) (lb : Ref) (g : GCEURLMap β) : Prog (Fronts β ρ) Failure Unit :=
  onPart
    (fun w => {
      um := (w.heap lb).um
      glbcDefaultBackend := (w.heap lb).glbcDefaultBackend
      cloud := w.urlMaps
      updates := [] })
    (fun bal w => { w.record lb bal.um with urlMaps := bal.cloud })
    (Routing.updateUrlMap md5 selfLink o g)

/-! ## What a load balancer and the cloud agree on -/

/-- The cloud has a url map under its name. -/
def Stored (w : Fronts β ρ) : Prop := ∀ name um, w.urlMaps.items name = some um → um.name = name

/-- The url map of a load balancer that is named so. -/
def Carries (name : Str) (lb : Ref) (w : Fronts β ρ) : Prop :=
  (w.heap lb).name = name ∧ ∀ um, (w.heap lb).um = some um → um.name = Namer.urlMap name

/-- The pool has load balancers of certain Ingresses only, each under its own name. -/
structure Sound (keys : Str → Prop) (w : Fronts β ρ) : Prop where
  stored : w.Stored
  entries : ∀ name lb, w.snapshotter.lookup name = some lb →
    (∃ key, keys key ∧ name = n.loadBalancer key) ∧ Carries name lb w

/-- The names of the Ingresses do not change when `LoadBalancer` is applied again. -/
def Settled (keys : Str → Prop) : Prop := ∀ key, keys key → n.loadBalancer (n.loadBalancer key) = n.loadBalancer key

/-- Some url maps may be touched, the others stay as they are. -/
structure Moves (keys touched : Str → Prop) (w w' : Fronts β ρ) : Prop where
  sound : w.Sound n keys → w'.Sound n keys
  kept : w.Sound n keys → ∀ name um, ¬touched name → w.urlMaps.items name = some um → w'.urlMaps.items name = some um

instance (keys touched : Str → Prop) : IsPreorder (Fronts β ρ) (Moves n keys touched) where
  refl _ := ⟨id,fun _ _ _ _ h => h⟩
  trans _ _ _ h h' :=
    ⟨fun hs => h'.sound (h.sound hs),
      fun hs name um hname hum => h'.kept (h.sound hs) name um hname (h.kept hs name um hname hum)⟩

/-- A part of an operation, which does not change what is in the pool. The name of a url map
that is recorded is that of the load balancer or as before. -/
structure Steps (touched : Str → Prop) (w w' : Fronts β ρ) : Prop where
  pool : w'.snapshotter = w.snapshotter
  names : ∀ lb, (w'.heap lb).name = (w.heap lb).name
  recorded : w.Stored → ∀ lb um', (w'.heap lb).um = some um' →
    um'.name = Namer.urlMap (w.heap lb).name ∨ ∃ um, (w.heap lb).um = some um ∧ um'.name = um.name
  stored : w.Stored → w'.Stored
  kept : ∀ name um, ¬touched name → w.urlMaps.items name = some um → w'.urlMaps.items name = some um

instance (touched : Str → Prop) : IsPreorder (Fronts β ρ) (Steps touched) where
  refl _ := ⟨rfl,fun _ => rfl,fun _ _ um h => Or.inr ⟨um,h,rfl⟩,id,fun _ _ _ h => h⟩
  trans w w₁ w₂ h h' := by
    refine ⟨h'.pool.trans h.pool,fun lb => (h'.names lb).trans (h.names lb),?_,fun hs => h'.stored (h.stored hs),?_⟩
    · intro hs lb um₂ hum₂
      rcases h'.recorded (h.stored hs) lb um₂ hum₂ with hname | ⟨um₁,hum₁,hname⟩
      · rw [h.names lb] at hname
        exact Or.inl hname
      · rw [hname]
        exact h.recorded hs lb um₁ hum₁
    · exact fun name um hname hum => h'.kept name um hname (h.kept name um hname hum)

section Moves
variable {n} {keys touched : Str → Prop} {w w' : Fronts β ρ} {name : Str} {lb : Ref}

theorem Carries.of_heap (hlb : Carries name lb w) (h : w'.heap lb = w.heap lb) : Carries name lb w' := by
  unfold Carries
  rw [h]
  exact hlb

theorem Steps.carries (h : Steps touched w w') (hstored : w.Stored) (hlb : Carries name lb w) : Carries name lb w' := by
  refine ⟨(h.names lb).trans hlb.1,?_⟩
  intro um' hum'
  rcases h.recorded hstored lb um' hum' with hname | ⟨um,hum,hname⟩
  · rw [hname,hlb.1]
  · rw [hname,hlb.2 um hum]

theorem Steps.moves (h : Steps touched w w') : Moves n keys touched w w' := by
  refine ⟨fun hs => ⟨h.stored hs.stored,?_⟩,fun _ => h.kept⟩
  intro name lb hlookup
  rw [h.pool] at hlookup
  obtain ⟨hkey,hlb⟩ := hs.entries name lb hlookup
  exact ⟨hkey,h.carries hs.stored hlb⟩

theorem record_self (w : Fronts β ρ) (lb : Ref) (um : Option UrlMap) :
    (w.record lb um).heap lb = { w.heap lb with um := um } := Function.update_self _ _ _

theorem record_of_ne {lb' : Ref} (h : lb' ≠ lb) (w : Fronts β ρ) (um : Option UrlMap) :
    (w.record lb um).heap lb' = w.heap lb' := Function.update_of_ne h _ _

theorem record_name (w : Fronts β ρ) (lb : Ref) (um : Option UrlMap) (lb' : Ref) :
    ((w.record lb um).heap lb').name = (w.heap lb').name := by
  by_cases h : lb' = lb
  · rw [h,record_self]
  · rw [record_of_ne h]

/-! ## The operations -/

theorem steps_of_urlMaps (touched : Str → Prop) {c : Store Str UrlMap} (hstored : w.Stored → Stored { w with urlMaps := c })
    (hkept : ∀ name um, ¬touched name → w.urlMaps.items name = some um → c.items name = some um) :
    Steps touched w { w with urlMaps := c } :=
  ⟨rfl,fun _ => rfl,fun _ _ um hum => Or.inr ⟨um,hum,rfl⟩,hstored,hkept⟩

theorem respects_onRest (touched : Str → Prop) (m : Prog ρ GoError α) :
    Respects (Steps touched) (onRest m : FrontM β ρ α) :=
  fun _ => ⟨rfl,fun _ => rfl,fun _ _ um hum => Or.inr ⟨um,hum,rfl⟩,id,fun _ _ _ h => h⟩

theorem readUrlMap_ensures (touched : Str → Prop) (name : Str) (w : Fronts β ρ) :
    Ensures (readUrlMap name) w (fun r w' => Steps touched w w' ∧ ∀ um, r = .ok um → w'.Stored → um.name = name) := by
  rw [readUrlMap,onUrlMaps,ensures_onPart]
  refine (Store.onItem_served _).mono ?_
  intro r c hserved
  have hitems : c.items = w.urlMaps.items := Store.ServedItem.unchanged (f := id) hserved
  constructor
  · apply steps_of_urlMaps
    · intro hs name um hum
      exact hs name um ((congrFun hitems name).symm.trans hum)
    · intro name um _ hum
      exact (congrFun hitems name).trans hum
  · intro um hum hs
    obtain ⟨m,hm,heq,_⟩ := hserved.answer um hum
    rw [heq]
    exact hs name m ((congrFun hitems name).trans hm)

theorem respects_createUrlMap (touched : Str → Prop) (um : UrlMap) :
    Respects (Steps touched) (createUrlMap um : FrontM β ρ Unit) := by
  intro w
  rw [createUrlMap,onUrlMaps,ensures_onPart]
  refine (Store.insert_served _).mono ?_
  rintro r c ⟨_,_,hitems,_⟩
  apply steps_of_urlMaps
  · intro hs name m hm
    rcases hitems with hitems | ⟨_,hitems⟩
    · exact hs name m ((congrFun hitems name).symm.trans hm)
    · by_cases hname : name = um.name
      · have hself : c.items name = some um := by rw [hitems,hname,Function.update_self]
        obtain rfl := Option.some.inj (hself.symm.trans hm)
        exact hname.symm
      · have hother : c.items name = w.urlMaps.items name := by rw [hitems,Function.update_of_ne hname]
        exact hs name m (hother.symm.trans hm)
  · intro name m _ hm
    rcases hitems with hitems | ⟨hnone,hitems⟩
    · exact (congrFun hitems name).trans hm
    · have hname : name ≠ um.name := by
        rintro rfl
        cases hnone.symm.trans hm
      exact (congrFun hitems name).trans ((Function.update_of_ne hname _ _).trans hm)

theorem record_steps (touched : Str → Prop) {um : Option UrlMap}
    (h : ∀ um', um = some um' → w.Stored → um'.name = Namer.urlMap (w.heap lb).name) : Steps touched w (w.record lb um) := by
  refine ⟨rfl,w.record_name lb um,?_,fun hs => hs,fun _ _ _ hum => hum⟩
  intro hs lb' um' hum'
  by_cases hlb : lb' = lb
  · subst hlb
    rw [record_self] at hum'
    exact Or.inl (h um' hum' hs)
  · rw [record_of_ne hlb] at hum'
    exact Or.inr ⟨um',hum',rfl⟩

/-- A url map is made only if there is none. -/
theorem respects_checkUrlMap (touched : Str → Prop) (selfLink : β → Str) (lb : Ref) :
    Respects (Steps touched) (checkUrlMap selfLink lb : FrontM β ρ Unit) := by
  intro w
  -- The url map that is recorded has been read under the name of the load balancer.
  have hrecord : ∀ w₁ : Fronts β ρ, Steps touched w w₁ → ∀ um, (w₁.Stored → um.name = Namer.urlMap (w.heap lb).name) →
      Ensures (setUrlMap lb (some um)) w₁ (fun _ w' => Steps touched w w') := by
    intro w₁ h₁ um hname
    rw [setUrlMap,ensures_update]
    apply trans_of _ h₁
    apply record_steps
    rintro um' ⟨⟩ hs
    rw [hname hs,h₁.names]
  rw [checkUrlMap,ensures_bind,ensures_state,afterwards_ok]
  cases (w.heap lb).glbcDefaultBackend with
  | none => exact refl_of _ w
  | some backend =>
    dsimp only
    rw [ensures_bind,ensures_orNil]
    refine (readUrlMap_ensures touched _ w).mono ?_
    rintro r w₁ ⟨h₁,hread⟩
    cases r with
    | ok um => exact hrecord w₁ h₁ um (hread um rfl)
    | error e =>
      rw [afterwards_ok]
      dsimp only [Except.toOption]
      rw [ensures_bind]
      refine (respects_createUrlMap touched _ w₁).mono ?_
      intro r w₂ h₂
      have h₁₂ : Steps touched w w₂ := trans_of _ h₁ h₂
      cases r with
      | error e => exact h₁₂
      | ok _ =>
        rw [afterwards_ok,ensures_bind]
        refine (readUrlMap_ensures touched _ w₂).mono ?_
        rintro r w₃ ⟨h₃,hread₃⟩
        cases r with
        | error e => exact trans_of _ h₁₂ h₃
        | ok um => exact hrecord w₃ (trans_of _ h₁₂ h₃) um (hread₃ um rfl)

theorem get_ensures (n : Namer) (name : Str) (w : Fronts β ρ) : Ensures (get n name) w (fun r w' =>
    w' = w ∧ ∀ lb, r = .ok lb → w.snapshotter.lookup (n.loadBalancer name) = some lb) := by
  rw [get,ensures_bind,ensures_state,afterwards_ok]
  split
  · exact ⟨rfl,nofun⟩
  · rename_i lb hlb
    refine ⟨rfl,?_⟩
    rintro lb' ⟨⟩
    exact hlb

theorem lt_freshRef (h : w.snapshotter.lookup name = some lb) : lb < w.freshRef := by
  have hle : ∀ (refs : List Ref), ∀ lb ∈ refs, lb ≤ refs.foldr max 0 := by
    intro refs
    induction refs with
    | nil => exact nofun
    | cons r rest ih =>
      intro lb hlb
      rw [List.foldr_cons]
      rcases List.mem_cons.mp hlb with rfl | hlb
      · exact le_max_left _ _
      · exact (ih lb hlb).trans (le_max_right _ _)
  have hmem : lb ∈ w.snapshotter.entries.map (fun e => e.2) :=
    List.mem_map.mpr ⟨⟨name,lb⟩,AList.mem_lookup_iff.mp h,rfl⟩
  exact Nat.lt_succ_of_le (hle _ lb hmem)

/-- A load balancer is put into the pool under its name. -/
theorem Sound.insert (hs : w.Sound n keys) {key : Str} (hkey : keys key) (hlb : Carries (n.loadBalancer key) lb w) :
    Sound n keys { w with snapshotter := w.snapshotter.insert (n.loadBalancer key) lb } := by
  refine ⟨hs.stored,?_⟩
  intro name lb' hlookup
  by_cases hname : name = n.loadBalancer key
  · subst hname
    rw [AList.lookup_insert] at hlookup
    obtain rfl := Option.some.inj hlookup
    exact ⟨⟨key,hkey,rfl⟩,hlb⟩
  · rw [AList.lookup_insert_ne hname] at hlookup
    exact hs.entries name lb' hlookup

theorem Sound.erase (hs : w.Sound n keys) (name : Str) :
    Sound n keys { w with snapshotter := w.snapshotter.erase name } := by
  refine ⟨hs.stored,?_⟩
  intro name' lb hlookup
  by_cases hname : name' = name
  · rw [hname,AList.lookup_erase] at hlookup
    cases hlookup
  · rw [AList.lookup_erase_ne hname] at hlookup
    exact hs.entries name' lb hlookup

/-- The load balancer that an addition works on. -/
theorem slot_ensures (hkeys : Settled n keys) {ri : L7RuntimeInfo} (hri : keys ri.name) (hs : w.Sound n keys) :
    Ensures (do
      let found ← orNil (get n (n.loadBalancer ri.name))
      match found with
      | none => create n ri
      | some lb => pure lb) w (fun r w' => w'.urlMaps = w.urlMaps ∧ w'.Sound n keys ∧
        ∀ lb, r = .ok lb → Carries (n.loadBalancer ri.name) lb w') := by
  rw [ensures_bind,ensures_orNil]
  refine (get_ensures n _ w).mono ?_
  rintro r w₁ ⟨rfl,hfound⟩
  cases r with
  | ok lb =>
    refine ⟨rfl,hs,?_⟩
    rintro lb' ⟨⟩
    have hlookup := hfound lb rfl
    rw [hkeys _ hri] at hlookup
    exact (hs.entries _ lb hlookup).2
  | error e =>
    rw [afterwards_ok]
    dsimp only [Except.toOption]
    rw [create,ensures_bind,ensures_state,afterwards_ok,ensures_bind,ensures_update,afterwards_ok,ensures_pure]
    refine ⟨rfl,⟨hs.stored,?_⟩,?_⟩
    · intro name lb hlookup
      obtain ⟨hkey,hlb⟩ := hs.entries name lb hlookup
      have hne : lb ≠ w₁.freshRef := (lt_freshRef hlookup).ne
      exact ⟨hkey,hlb.of_heap (Function.update_of_ne hne _ _)⟩
    · rintro lb ⟨⟩
      have hself : Function.update w₁.heap w₁.freshRef (newFront n w₁ ri) w₁.freshRef = newFront n w₁ ri :=
        Function.update_self _ _ _
      exact ⟨congrArg Front.name hself,fun um hum => by cases (congrArg Front.um hself).symm.trans hum⟩

/-- An addition makes a url map or leaves the url maps as they are. -/
theorem add_moves (touched : Str → Prop) (hkeys : Settled n keys) {ri : L7RuntimeInfo} (hri : keys ri.name)
    (selfLink : β → Str) (hops : L7RuntimeInfo → Prog ρ GoError Unit) :
    Respects (Moves n keys touched) (add n selfLink hops ri) := by
  intro w
  by_cases hs : w.Sound n keys
  · have hslot := slot_ensures hkeys hri hs
    have hadd : add n selfLink hops ri = (do
        let lb ← (do
          let found ← orNil (get n (n.loadBalancer ri.name))
          match found with
          | none => create n ri
          | some lb => pure lb)
        deferring (do checkUrlMap selfLink lb; onRest (hops ri))
          (fun w => { w with snapshotter := w.snapshotter.insert (n.loadBalancer ri.name) lb })) := by
      rw [andThen_assoc]
      rfl
    rw [hadd,ensures_bind]
    refine hslot.mono ?_
    rintro r w₁ ⟨hmaps,hs₁,hcarries⟩
    cases r with
    | error e => exact ⟨fun _ => hs₁,fun _ _ _ _ hum => by rw [hmaps]; exact hum⟩
    | ok lb =>
      have hhop : Respects (Steps touched) (do checkUrlMap selfLink lb; onRest (hops ri) : FrontM β ρ Unit) :=
        (respects_checkUrlMap touched selfLink lb).bind fun _ => respects_onRest touched _
      rw [afterwards_ok,ensures_deferring]
      refine (hhop w₁).mono ?_
      intro r w₂ h₂
      have hmoves : Moves n keys touched w₁ w₂ := h₂.moves
      refine ⟨fun _ => (hmoves.sound hs₁).insert hri (h₂.carries hs₁.stored (hcarries lb rfl)),?_⟩
      intro _ name um hname hum
      rw [← hmaps] at hum
      exact hmoves.kept hs₁ name um hname hum
  · exact ⟨fun h => absurd h hs,fun h => absurd h hs⟩

/-- The cleanup of a load balancer deletes its own url map. -/
theorem deleteUrlMap_steps (hlb : Carries name lb w) :
    Ensures (deleteUrlMap lb) w (fun _ w' => Steps (· = Namer.urlMap name) w w') := by
  rw [deleteUrlMap,ensures_bind,ensures_state,afterwards_ok]
  split
  · exact refl_of _ w
  · rename_i um hum
    have hname := hlb.2 um hum
    have hdelete : Respects (Steps (· = Namer.urlMap name)) (onUrlMaps (Store.onItem um.name (fun _ => ((),none))) :
        FrontM β ρ Unit) := by
      intro w
      rw [onUrlMaps,ensures_onPart]
      refine (Store.onItem_served _).mono ?_
      intro r c hserved
      apply steps_of_urlMaps
      · intro hs name' m hm
        rcases hserved.items with hitems | ⟨_,_,hitems⟩
        · exact hs name' m ((congrFun hitems name').symm.trans hm)
        · by_cases heq : name' = um.name
          · have hgone : c.items name' = none := by rw [hitems,heq,Function.update_self]
            cases hgone.symm.trans hm
          · have hother : c.items name' = w.urlMaps.items name' := by rw [hitems,Function.update_of_ne heq]
            exact hs name' m (hother.symm.trans hm)
      · intro name' m hne hm
        rcases hserved.items with hitems | ⟨_,_,hitems⟩
        · exact (congrFun hitems name').trans hm
        · rw [← hname] at hne
          exact (congrFun hitems name').trans ((Function.update_of_ne hne _ _).trans hm)
    have hrecord : Respects (Steps (· = Namer.urlMap name)) (setUrlMap lb none : FrontM β ρ Unit) :=
      fun w => record_steps _ nofun
    exact ((hdelete.rescue fun e => (respects_pure ()).ite (respects_fail e)).bind fun _ => hrecord) w

theorem delete_moves (hkeys : Settled n keys) {key : Str} (hkey : keys key) (dispose : Str → Prog ρ GoError Unit) :
    Respects (Moves n keys (· = Namer.urlMap (n.loadBalancer key)))
      (delete n dispose (n.loadBalancer key) : FrontM β ρ Unit) := by
  intro w
  by_cases hs : w.Sound n keys
  · rw [delete,ensures_bind]
    refine (get_ensures n _ w).mono ?_
    rintro r w₁ ⟨rfl,hfound⟩
    cases r with
    | error e => exact refl_of _ w₁
    | ok lb =>
      have hlookup := hfound lb rfl
      rw [hkeys key hkey,hkeys key hkey] at hlookup
      have hlb := (hs.entries _ lb hlookup).2
      rw [afterwards_ok,ensures_bind]
      refine (respects_onRest (· = Namer.urlMap (n.loadBalancer key)) (dispose (n.loadBalancer key)) w₁).mono ?_
      intro r w₂ h₂
      cases r with
      | error e => exact h₂.moves
      | ok _ =>
        rw [afterwards_ok,ensures_bind]
        refine (deleteUrlMap_steps (h₂.carries hs.stored hlb)).mono ?_
        intro r w₃ h₃
        have h₂₃ : Moves n keys (· = Namer.urlMap (n.loadBalancer key)) w₁ w₃ := trans_of _ h₂.moves h₃.moves
        cases r with
        | error e => exact h₂₃
        | ok _ => exact ⟨fun hs => (h₂₃.sound hs).erase _,h₂₃.kept⟩
  · exact ⟨fun h => absurd h hs,fun h => absurd h hs⟩

/-- The url maps of load balancers that are not known. -/
def Unknown (n : Namer) (keys : Str → Prop) (names : List Str) (name : Str) : Prop :=
  ∃ key, keys key ∧ n.loadBalancer key ∉ names.map n.loadBalancer ∧ name = Namer.urlMap (n.loadBalancer key)

theorem Moves.mono {touched' : Str → Prop} (h : Moves n keys touched w w') (hsub : ∀ name, touched name → touched' name) :
    Moves n keys touched' w w' := ⟨h.sound,fun hs name um hname => h.kept hs name um fun ht => hname (hsub name ht)⟩

theorem deleteUnknown_moves (hkeys : Settled n keys) (dispose : Str → Prog ρ GoError Unit) (order : Iteration Str)
    (names : List Str) : Respects (Moves n keys (Unknown n keys names))
      (deleteUnknown n dispose order names : FrontM β ρ Unit) := by
  intro w
  by_cases hs : w.Sound n keys
  · rw [deleteUnknown,ensures_bind,ensures_state,afterwards_ok]
    have hloop : Respects (Moves n keys (Unknown n keys names)) (forEach (fun name =>
        if name ∈ names.map n.loadBalancer then pure () else delete n dispose name) (order.range w.snapshotter.keys) :
          FrontM β ρ Unit) := by
      apply Respects.forEach
      intro name hname
      obtain ⟨lb,hlb⟩ := Option.isSome_iff_exists.mp (AList.lookup_isSome.mpr (Iteration.mem_range.mp hname))
      obtain ⟨⟨key,hkey,rfl⟩,_⟩ := hs.entries name lb hlb
      split
      · exact respects_pure ()
      · rename_i hunknown
        intro w
        refine (delete_moves hkeys hkey dispose w).mono fun _ _ h => h.mono ?_
        rintro name rfl
        exact ⟨key,hkey,hunknown,rfl⟩
    exact hloop w
  · exact ⟨fun h => absurd h hs,fun h => absurd h hs⟩

/-- An update of the url map of a load balancer writes a map made from the rules, or nothing. -/
theorem updateUrlMap_ensures (md5 : Str → Str) (selfLink : β → Str) (o : Orders β) (g : GCEURLMap β)
    (hlb : Carries name lb w) : Ensures (updateUrlMap selfLink md5 o lb g) w (fun r w' =>
      Steps (· = Namer.urlMap name) w w' ∧
      (w'.urlMaps.items (Namer.urlMap name) = w.urlMaps.items (Namer.urlMap name) ∨
        ∃ um um' link, render md5 selfLink o um g.getDefaultBackend.2 link = some um' ∧
          w'.urlMaps.items (Namer.urlMap name) = some um') ∧
      (r = .ok () → ∃ um um' link m, render md5 selfLink o um g.getDefaultBackend.2 link = some um' ∧
        w'.urlMaps.items (Namer.urlMap name) = some m ∧ mapsEqual m um' = true)) := by
  rw [updateUrlMap,ensures_onPart]
  refine (updateUrlMap_wrote md5 selfLink o g _).mono ?_
  intro r bal h
  have hum : ∀ um, (w.heap lb).um = some um → um.name = Namer.urlMap name := hlb.2
  refine ⟨⟨rfl,w.record_name lb bal.um,?_,?_,?_⟩,?_,?_⟩
  · intro _ lb' um' hum'
    by_cases heq : lb' = lb
    · subst heq
      have hself : bal.um = some um' := (congrArg Front.um (w.record_self lb' bal.um)).symm.trans hum'
      exact Or.inr (h.name um' hself)
    · exact Or.inr ⟨um',(congrArg Front.um (record_of_ne heq w bal.um)).symm.trans hum',rfl⟩
  · intro hs name' m hm
    rcases h.items with hitems | ⟨um,um',link,_,hrender,hitems⟩
    · exact hs name' m ((congrFun hitems name').symm.trans hm)
    · by_cases heq : name' = um.name
      · have hself : bal.cloud.items name' = some um' := by rw [hitems,heq,Function.update_self]
        obtain rfl := Option.some.inj (hself.symm.trans hm)
        rw [heq,render_eq hrender]
      · have hother : bal.cloud.items name' = w.urlMaps.items name' := by rw [hitems,Function.update_of_ne heq]
        exact hs name' m (hother.symm.trans hm)
  · intro name' m hne hm
    rcases h.items with hitems | ⟨um,um',link,hum',_,hitems⟩
    · exact (congrFun hitems name').trans hm
    · rw [← hum um hum'] at hne
      exact (congrFun hitems name').trans ((Function.update_of_ne hne _ _).trans hm)
  · rcases h.items with hitems | ⟨um,um',link,hum',hrender,hitems⟩
    · exact Or.inl (congrFun hitems _)
    · refine Or.inr ⟨um,um',link,hrender,?_⟩
      rw [← hum um hum']
      exact (congrFun hitems _).trans (Function.update_self _ _ _)
  · intro hok
    obtain ⟨um,um',link,m,hum',hrender,hm,hsame⟩ := h.ok hok
    rw [hum um hum'] at hm
    exact ⟨um,um',link,m,hrender,hm,hsame⟩

end Moves
end Fronts
end IngressGce.Routing
