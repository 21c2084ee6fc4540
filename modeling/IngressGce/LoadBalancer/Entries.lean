import IngressGce.LoadBalancer.Pool

/-! # The names in the pool

What a sync and a collection that return without error make of the names in the pool and
of the default backend. The names are compared as the pool has them, after renaming.
-/
namespace IngressGce
open Prog
namespace L7s
variable {G : SelfLinks} {w : L7s}

/-- The namer leads from each name of the pool to itself. -/
def Settled (w : L7s) : Prop := ∀ key ∈ w.snapshotter, w.namer.loadBalancer key = key

structure Synced (names : List Str) (w w' : L7s) : Prop where
  namer_eq : w'.namer = w.namer
  entries : ∀ key, key ∈ w'.snapshotter ↔ key ∈ w.snapshotter ∨ key ∈ w.known names
  unused : names = [] → w'.glbcDefaultBackend = w.glbcDefaultBackend
  ensured : names ≠ [] → w'.glbcDefaultBackend ≠ none

/-- The pool after a collection of all but the given names. -/
structure Collected (names : List Str) (w w' : L7s) : Prop where
  namer_eq : w'.namer = w.namer
  entries : ∀ key, key ∈ w'.snapshotter ↔ key ∈ w.snapshotter ∧ key ∈ w.known names
  backend : w'.glbcDefaultBackend = if names = [] then none else w.glbcDefaultBackend

theorem Settled.extend (hw : w.Settled) {names : List Str} {w' : L7s} (hnamer : w'.namer = w.namer)
    (hentries : ∀ key ∈ w'.snapshotter, key ∈ w.snapshotter ∨ key ∈ w.known names)
    (hidem : ∀ name ∈ names, w.namer.loadBalancer (w.namer.loadBalancer name) = w.namer.loadBalancer name) :
    w'.Settled := by
  intro key hkey
  rw [hnamer]
  rcases hentries key hkey with hold | hnew
  · exact hw key hold
  · obtain ⟨name,hname,rfl⟩ := List.mem_map.mp hnew
    exact hidem name hname

theorem Collected.settled {names : List Str} {w' : L7s} (h : Collected names w w') (hw : w.Settled) : w'.Settled := by
  intro key hkey
  rw [h.namer_eq]
  exact hw key ((h.entries key).mp hkey).1

theorem mem_afterAdd {ri : L7RuntimeInfo} {h : Hop} {key : Str} :
    key ∈ (w.afterAdd ri h).snapshotter ↔ key = w.namer.loadBalancer ri.name ∨ key ∈ w.snapshotter :=
  AList.mem_insert _

theorem add_entries (ri : L7RuntimeInfo) (plan : Plan) (w : L7s) :
    Ensures (add G ri plan) w (fun _ w' => w'.namer = w.namer ∧ w'.glbcDefaultBackend = w.glbcDefaultBackend ∧
      ∀ key, key ∈ w'.snapshotter ↔ key = w.namer.loadBalancer ri.name ∨ key ∈ w.snapshotter) := by
  rw [ensures_add]
  exact ⟨rfl,rfl,fun key => mem_afterAdd⟩

/-- The pool while `add` is called for each load balancer: what it has and what is still to
come make up the names in the end. -/
structure Adding (names rest : List Str) (w w' : L7s) : Prop where
  namer_eq : w'.namer = w.namer
  backend : w'.glbcDefaultBackend = w.glbcDefaultBackend
  entries : ∀ key, key ∈ w'.snapshotter ∨ key ∈ w.known rest ↔ key ∈ w.snapshotter ∨ key ∈ w.known names

theorem adds_entries (lbs : List (L7RuntimeInfo × Plan)) (w : L7s) :
    Ensures (forEach (fun lb => add G lb.1 lb.2) lbs) w (fun r w' => r = .ok () →
      Adding (lbs.map (fun lb => lb.1.name)) [] w w') := by
  have hstep : ∀ (lb : L7RuntimeInfo × Plan) (rest : List (L7RuntimeInfo × Plan)) w',
      Adding (lbs.map (fun lb => lb.1.name)) ((lb :: rest).map (fun lb => lb.1.name)) w w' →
      Ensures (add G lb.1 lb.2) w' (fun r w'' =>
        (r = .ok () → Adding (lbs.map (fun lb => lb.1.name)) (rest.map (fun lb => lb.1.name)) w w'') ∧
          ∀ e, r = .error e → True) := by
    intro lb rest w' hw'
    refine (add_entries lb.1 lb.2 w').mono ?_
    rintro r w'' ⟨hnamer,hbackend,hadd⟩
    refine ⟨fun _ => ⟨hnamer.trans hw'.namer_eq,hbackend.trans hw'.backend,?_⟩,fun _ _ => trivial⟩
    intro key
    rw [← hw'.entries key,hadd key,hw'.namer_eq]
    simp only [known,List.map_cons,List.mem_cons]
    tauto
  refine (forEach_rule _ (fun rest w' => Adding (lbs.map (fun lb => lb.1.name)) (rest.map (fun lb => lb.1.name)) w w')
    (fun _ => True) hstep lbs ⟨rfl,rfl,fun _ => Iff.rfl⟩).mono ?_
  intro r w' h
  exact h.1

theorem ensureDefaultBackend_spec (wanted : Bool) (backend : DefaultBackend) (w : L7s) :
    Ensures (onlyIf wanted (ensureDefaultBackend backend)) w (fun r w' => r = .ok () →
      w'.namer = w.namer ∧ w'.snapshotter = w.snapshotter ∧
        (wanted = false → w'.glbcDefaultBackend = w.glbcDefaultBackend) ∧
          (wanted = true → w'.glbcDefaultBackend ≠ none)) := by
  cases wanted with
  | false => exact fun _ => ⟨rfl,rfl,fun _ => rfl,nofun⟩
  | true =>
    rw [ensures_onlyIf]
    refine ⟨fun _ => ?_,nofun⟩
    unfold ensureDefaultBackend
    split
    · exact nofun
    · exact nofun
    · rw [ensures_update]
      exact fun _ => ⟨rfl,rfl,nofun,fun _ => nofun⟩

/-- A sync that returns has put its load balancers into the pool. -/
theorem sync_entries (lbs : List (L7RuntimeInfo × Plan)) (backend : DefaultBackend) (w : L7s) :
    Ensures (sync G lbs backend) w (fun r w' => r = .ok () → Synced (lbs.map (fun lb => lb.1.name)) w w') := by
  rw [sync,ensures_bind]
  refine (ensureDefaultBackend_spec (!lbs.isEmpty) backend w).mono ?_
  intro r w₁ hensured
  cases r with
  | error e =>
    intro hok
    cases hok
  | ok _ =>
    obtain ⟨hnamer,hentries,hunused,hused⟩ := hensured rfl
    rw [afterwards_ok]
    refine (adds_entries lbs w₁).mono ?_
    intro r w' hadded hok
    have hadded := hadded hok
    refine ⟨hadded.namer_eq.trans hnamer,?_,?_,?_⟩
    · intro key
      have hkey := hadded.entries key
      rw [hentries,known,known,hnamer] at hkey
      simpa [known] using hkey
    · intro hnil
      rw [hadded.backend,hunused (by simp [List.map_eq_nil_iff.mp hnil])]
    · intro hlbs
      rw [hadded.backend]
      exact hused (by simpa using hlbs)

theorem delete_entries (name : Str) (plan : Plan) (w : L7s) :
    Ensures (delete name plan) w (fun r w' => r = .ok () →
      w'.namer = w.namer ∧ w'.glbcDefaultBackend = w.glbcDefaultBackend ∧
        ∀ key, key ∈ w'.snapshotter ↔ key ≠ w.namer.loadBalancer name ∧ key ∈ w.snapshotter) := by
  refine ensures_delete (fun _ _ => nofun) ?_
  intro lb _
  refine (ensures_run _ _).mono ?_
  rintro r h - rfl
  exact ⟨rfl,rfl,fun key => AList.mem_erase⟩

/-- The pool during a collection: of the names that it is not given, those that are still
to be visited are left. -/
structure Sweeping (names rest : List Str) (w w' : L7s) : Prop where
  namer_eq : w'.namer = w.namer
  backend : w'.glbcDefaultBackend = w.glbcDefaultBackend
  distinct : rest.Nodup
  pooled : ∀ key ∈ rest, key ∈ w.snapshotter
  entries : ∀ key, key ∈ w'.snapshotter ↔ key ∈ w.snapshotter ∧ (key ∈ w.known names ∨ key ∈ rest)

theorem deleteUnknown_sweeping (hw : w.Settled) {names rest : List Str} {e : Str × Plan} {w' : L7s}
    (h : Sweeping names (e.1 :: rest) w w') :
    Ensures (deleteUnknown (w.known names) e) w' (fun r w'' => r = .ok () → Sweeping names rest w w'') := by
  have hdistinct := List.nodup_cons.mp h.distinct
  have hpooled : ∀ key ∈ rest, key ∈ w.snapshotter := fun key hkey => h.pooled key (List.mem_cons_of_mem _ hkey)
  rw [deleteUnknown,ensures_ite,ensures_pure]
  constructor
  · intro hknown _
    refine ⟨h.namer_eq,h.backend,hdistinct.2,hpooled,?_⟩
    intro key
    rw [h.entries key,List.mem_cons]
    by_cases hkey : key = e.1
    · simp [hkey,hknown]
    · simp [hkey]
  · intro hunknown
    refine (delete_entries e.1 e.2 w').mono ?_
    intro r w'' hdeleted hok
    obtain ⟨hnamer,hbackend,hentries⟩ := hdeleted hok
    refine ⟨hnamer.trans h.namer_eq,hbackend.trans h.backend,hdistinct.2,hpooled,?_⟩
    intro key
    rw [hentries key,h.entries key,h.namer_eq,hw e.1 (h.pooled e.1 List.mem_cons_self),List.mem_cons]
    by_cases hkey : key = e.1
    · simp [hkey,hunknown,hdistinct.1]
    · simp [hkey]

/-- A collection that returns leaves the names that it is given. -/
theorem gc_entries {names : List Str} {order : List (Str × Plan)} {backend : DefaultBackend} (hw : w.Settled)
    (horder : (order.map Prod.fst).Perm w.snapshotter.keys) :
    Ensures (gc names order backend) w (fun r w' => r = .ok () → Collected names w w') := by
  have hstart : Sweeping names (order.map Prod.fst) w w := by
    refine ⟨rfl,rfl,horder.nodup_iff.mpr w.snapshotter.keys_nodup,fun key hkey => horder.mem_iff.mp hkey,?_⟩
    intro key
    have hkey : key ∈ w.snapshotter ↔ key ∈ order.map Prod.fst := horder.mem_iff.symm
    tauto
  have hloop : Ensures (forEach (deleteUnknown (w.known names)) order) w (fun r w' => r = .ok () →
      Sweeping names [] w w') := by
    refine (forEach_rule _ (fun rest w' => Sweeping names (rest.map Prod.fst) w w') (fun _ => True) ?_ order hstart).mono
      fun r w' h => h.1
    intro e rest w' h
    exact (deleteUnknown_sweeping hw h).mono fun r w'' h' => ⟨h',fun _ _ => trivial⟩
  rw [gc,ensures_bind,ensures_state,afterwards_ok,ensures_bind]
  refine hloop.mono ?_
  intro r w' hswept
  cases r with
  | error e =>
    intro hok
    cases hok
  | ok _ =>
    have hswept := hswept rfl
    have hentries : ∀ key, key ∈ w'.snapshotter ↔ key ∈ w.snapshotter ∧ key ∈ w.known names := by
      simpa using hswept.entries
    rw [afterwards_ok,ensures_onlyIf]
    constructor
    · intro hempty
      unfold deleteDefaultBackend
      cases backend.delete with
      | some e =>
        intro hok
        cases hok
      | none =>
        intro _
        exact ⟨hswept.namer_eq,hentries,(if_pos (List.isEmpty_iff.mp hempty)).symm⟩
    · intro hnonempty _
      refine ⟨hswept.namer_eq,hentries,?_⟩
      rw [hswept.backend,if_neg]
      rintro rfl
      cases hnonempty

end L7s
end IngressGce
