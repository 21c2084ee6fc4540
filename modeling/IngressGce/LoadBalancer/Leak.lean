import IngressGce.LoadBalancer.Collect
import IngressGce.LoadBalancer.Tracked

/-! # The pool under a fixed cluster UID

While the UID does not change, every load balancer stands in the pool under its own
name, which the namer does not change any more. Collections then reach the entries
they mean, and what was created for a load balancer goes with it, provided that the
load balancer keeps track of it.
-/
namespace IngressGce
open Prog
namespace L7s
variable {G : SelfLinks} {namer : Namer} {w : L7s}

section Keyed

/-- Every load balancer stands under its own name, to which the namer leads. -/
structure Keyed (namer : Namer) (w : L7s) : Prop where
  namer_eq : w.namer = namer
  own : ∀ key lb, w.lookup key = some lb → (w.heap lb).name = key ∧ namer.loadBalancer key = key

/-- The operations of a run with Ingresses, under a fixed UID. -/
def Op.Regular (plans : Plan → Prop) : Op → Prop
  | .sync lbs _ => ∀ lb ∈ lbs, IngressKey lb.1.name ∧ plans lb.2
  | .gc _ _ _ => True
  | _ => False

theorem Keyed.slot_eq (hw : w.Keyed namer) {ri : L7RuntimeInfo}
    (hidem : namer.loadBalancer (namer.loadBalancer ri.name) = namer.loadBalancer ri.name) :
    (w.lookup (namer.loadBalancer ri.name) = none ∧ w.slot ri = w.freshRef ∧ w.startL7 ri = w.newL7 ri) ∨
      ∃ lb, w.lookup (namer.loadBalancer ri.name) = some lb ∧ w.slot ri = lb ∧
        w.startL7 ri = { w.heap lb with runtimeInfo := ri } := by
  unfold slot startL7
  rw [hw.namer_eq,hidem]
  cases hlb : w.lookup (namer.loadBalancer ri.name) with
  | none => exact Or.inl ⟨rfl,rfl,rfl⟩
  | some lb => exact Or.inr ⟨lb,rfl,rfl,rfl⟩

theorem Keyed.startL7_name (hw : w.Keyed namer) {ri : L7RuntimeInfo}
    (hidem : namer.loadBalancer (namer.loadBalancer ri.name) = namer.loadBalancer ri.name) :
    (w.startL7 ri).name = namer.loadBalancer ri.name := by
  rcases hw.slot_eq hidem with ⟨-,-,hl⟩ | ⟨lb,hlb,-,hl⟩
  · rw [hl,newL7,hw.namer_eq]
  · rw [hl]
    exact (hw.own _ lb hlb).1

/-- The load balancers under other names are not touched by `add`. -/
theorem Keyed.ne_slot (hw : w.Keyed namer) {ri : L7RuntimeInfo}
    (hidem : namer.loadBalancer (namer.loadBalancer ri.name) = namer.loadBalancer ri.name) {key : Str} {lb : Ref}
    (hlb : w.lookup key = some lb) (hne : key ≠ namer.loadBalancer ri.name) : lb ≠ w.slot ri := by
  rcases hw.slot_eq hidem with ⟨-,hslot,-⟩ | ⟨lb',hlb',hslot,-⟩
  · rw [hslot]
    exact ne_freshRef hlb
  · rw [hslot]
    rintro rfl
    exact hne ((hw.own key lb hlb).1.symm.trans (hw.own _ lb hlb').1)

theorem Keyed.afterAdd (hw : w.Keyed namer) {ri : L7RuntimeInfo}
    (hidem : namer.loadBalancer (namer.loadBalancer ri.name) = namer.loadBalancer ri.name) {h : Hop}
    (hname : h.l7.name = (w.startL7 ri).name) : (w.afterAdd ri h).Keyed namer where
  namer_eq := hw.namer_eq
  own key lb hlb := by
    by_cases hne : key = namer.loadBalancer ri.name
    · subst hne
      rw [← hw.namer_eq,lookup_afterAdd_self,Option.some.injEq] at hlb
      subst hlb
      rw [heap_afterAdd_self,hname,hw.startL7_name hidem]
      exact ⟨rfl,hidem⟩
    · rw [lookup_afterAdd_of_ne (hw.namer_eq ▸ hne)] at hlb
      rw [heap_afterAdd_of_ne (hw.ne_slot hidem hlb hne)]
      exact hw.own key lb hlb

theorem Keyed.afterCleanup (hw : w.Keyed namer) {name : Str} {lb : Ref} {r : Except Failure Unit} {h : Hop}
    (hname : h.l7.name = (w.heap lb).name) : (w.afterCleanup name lb r h).Keyed namer where
  namer_eq := namer_afterCleanup.trans hw.namer_eq
  own key lb' hlb' := by
    have hlb := afterCleanup_shrinks hlb'
    by_cases hne : lb' = lb
    · subst hne
      rw [heap_afterCleanup_self,hname]
      exact hw.own key lb' hlb
    · rw [heap_afterCleanup_of_ne hne]
      exact hw.own key lb' hlb

/-- In such a pool every name that a collection does not keep leads to its own entry. -/
theorem Keyed.reachesOwn (hw : w.Keyed namer) (names : List Str) : w.ReachesOwn names := by
  intro key hkey hunknown lb hlb
  obtain ⟨own,hown⟩ : ∃ own, w.lookup key = some own := Option.isSome_iff_exists.mp (AList.lookup_isSome.mpr hkey)
  have hfix : w.namer.loadBalancer key = key := by
    rw [hw.namer_eq]
    exact (hw.own key own hown).2
  rw [hfix,hfix] at hlb
  refine ⟨hlb,?_,?_⟩
  · rintro ⟨key',hkey',hlb'⟩
    have heq : key' = key := (hw.own key' lb hlb').1.symm.trans (hw.own key lb hlb).1
    exact hunknown (heq ▸ hkey')
  · rw [hfix]
    exact fun hk => absurd hk hunknown

theorem add_keyed (hu : '/' ∉ namer.clusterName) (hw : w.Keyed namer) {ri : L7RuntimeInfo} {plan : Plan}
    (hkey : IngressKey ri.name) : Ensures (add G ri plan) w (fun _ w' => w'.Keyed namer) := by
  rw [ensures_add]
  refine (edgeHop_spec G plan _).mono ?_
  intro r h hr
  exact hw.afterAdd (loadBalancer_idem namer hkey hu) hr.name

theorem delete_keyed (hw : w.Keyed namer) {name : Str} {plan : Plan} :
    Ensures (delete name plan) w (fun _ w' => w'.Keyed namer) := by
  refine ensures_delete (fun _ _ => hw) ?_
  intro lb _
  exact (cleanup_name plan _).mono fun r h hname => hw.afterCleanup hname

theorem run_keyed (hu : '/' ∉ namer.clusterName) (hw : w.Keyed namer) {plans : Plan → Prop} {op : Op}
    (hop : op.Regular plans) : Ensures (run G op) w (fun _ w' => w'.Keyed namer) := by
  have hbackend : ∀ w b, Keyed namer w → Keyed namer { w with glbcDefaultBackend := b } :=
    fun w b hw => ⟨hw.namer_eq,hw.own⟩
  cases op with
  | sync lbs backend =>
    exact sync_invariant (A := fun _ ri _ => IngressKey ri.name) (fun w ri plan hw hkey => add_keyed hu hw hkey)
      hbackend hw (Runs.along_of_forall (fun lb hlb _ => (hop lb hlb).1) _)
  | gc names order backend =>
    have hloop : Ensures (forEach (deleteUnknown (w.known names)) order) w (fun _ w' => w'.Keyed namer) := by
      refine forEach_invariant _ (Keyed namer) ?_ hw
      intro e _ w' hw'
      rw [deleteUnknown,ensures_ite,ensures_pure]
      exact ⟨fun _ => hw',fun _ => delete_keyed hw'⟩
    simp only [run,gc,ensures_bind,ensures_state,afterwards_ok]
    refine hloop.mono ?_
    intro r w' hw'
    cases r with
    | error e => exact hw'
    | ok _ => exact ensures_deleteDefaultBackend fun _ b => hbackend w' b hw'
  | _ => exact hop.elim

/-- Under a fixed UID all collections of a run are safe, whatever calls fail. -/
theorem fixedUID_collections_safe (hu : '/' ∉ namer.clusterName) (c : Cloud) (ops : List Op)
    (hops : ∀ op ∈ ops, op.Regular (fun _ => True)) :
    Runs.Along (step G) (fun w op => ∀ names, op.collects = some names → w.SafeGC names) (start namer c) ops := by
  refine Runs.Along.strengthen (I := Keyed namer) ?_ ⟨rfl,?_⟩ (Runs.along_of_forall (fun op hop _ => hops op hop) _)
  · intro w op hw hop
    have hreset : w.reset.Keyed namer := ⟨hw.namer_eq,hw.own⟩
    have hrun : Ensures (run G op) w.reset (fun _ w' => w'.Keyed namer) := run_keyed hu hreset hop
    exact ⟨hrun,fun names _ => safeGC_of_reachesOwn (hw.reachesOwn names)⟩
  · rintro key lb ⟨⟩

end Keyed

section Tracked

/-- All load balancers keep track of what was created for them, and what was created
was created for a load balancer of the pool. -/
structure AllTracked (namer : Namer) (w : L7s) : Prop extends Keyed namer w where
  tracked : ∀ key lb, w.lookup key = some lb → Tracked (w.heap lb) w.cloud
  created : ∀ k n s lb, k ≠ .sslCertificate → w.cloud k n = some s → s.createdFor = some lb →
    ∃ ref, w.lookup lb = some ref

theorem AllTracked.startL7 (hw : w.AllTracked namer) {ri : L7RuntimeInfo}
    (hidem : namer.loadBalancer (namer.loadBalancer ri.name) = namer.loadBalancer ri.name) :
    Tracked (w.startL7 ri) w.cloud := by
  rcases hw.toKeyed.slot_eq hidem with ⟨hnone,-,hl⟩ | ⟨lb,hlb,-,hl⟩
  · rw [hl]
    constructor
    · intro stage o ho
      cases stage with
      | sslCert => trivial
      | _ => cases ho
    · intro k n s hk hs hfor
      obtain ⟨ref,href⟩ := hw.created k n s _ hk hs hfor
      rw [newL7,hw.namer_eq] at href
      rw [hnone] at href
      cases href
  · rw [hl]
    have ht := hw.tracked _ lb hlb
    have hrecorded : ∀ stage : CleanupStage, stage ≠ .sslCert →
        stage.recorded { w.heap lb with runtimeInfo := ri } = stage.recorded (w.heap lb) := by
      intro stage hne
      cases stage <;> first | exact absurd rfl hne | rfl
    exact ht.certs rfl hrecorded fun _ _ _ => rfl

theorem add_allTracked (hu : '/' ∉ namer.clusterName) (hw : w.AllTracked namer) {ri : L7RuntimeInfo} {plan : Plan}
    (hkey : IngressKey ri.name) (hplan : plan.ReadsBack) :
    Ensures (add G ri plan) w (fun _ w' => w'.AllTracked namer) := by
  have hidem := loadBalancer_idem namer hkey hu
  have hname := hw.toKeyed.startL7_name hidem
  rw [ensures_add]
  refine (edgeHop_spec G plan _).mono ?_
  intro r h hr
  have ht : Tracked h.l7 h.cloud := hr.preserves (preserved_tracked hplan) (hw.startL7 hidem)
  obtain ⟨-,hext⟩ := hr.preserves (preserved_extends (namer.loadBalancer ri.name) w.cloud) ⟨hname,.refl _ _⟩
  have hlookup : (w.afterAdd ri h).lookup (namer.loadBalancer ri.name) = some (w.slot ri) := by
    rw [← hw.namer_eq,lookup_afterAdd_self]
  have hothers : ∀ key, key ≠ namer.loadBalancer ri.name → (w.afterAdd ri h).lookup key = w.lookup key :=
    fun key hne => lookup_afterAdd_of_ne (hw.namer_eq ▸ hne)
  refine ⟨hw.toKeyed.afterAdd hidem hr.name,?_,?_⟩
  · intro key lb hlb
    by_cases hne : key = namer.loadBalancer ri.name
    · subst hne
      obtain rfl : w.slot ri = lb := Option.some.inj (hlookup.symm.trans hlb)
      rw [heap_afterAdd_self]
      exact ht
    · rw [hothers key hne] at hlb
      rw [heap_afterAdd_of_ne (hw.toKeyed.ne_slot hidem hlb hne)]
      have htlb := hw.tracked key lb hlb
      refine ⟨htlb.named,?_⟩
      intro k n s hk hs hfor
      rcases hext k n s hk hs with hmine | ⟨s₀,hs₀,heq⟩
      · rw [hfor,(hw.own key lb hlb).1,Option.some.injEq] at hmine
        exact absurd hmine hne
      · exact htlb.created k n s₀ hk hs₀ (heq ▸ hfor)
  · intro k n s lb hk hs hfor
    by_cases hne : lb = namer.loadBalancer ri.name
    · exact ⟨_,hne ▸ hlookup⟩
    · rcases hext k n s hk hs with hmine | ⟨s₀,hs₀,heq⟩
      · exact absurd (Option.some.inj (hfor.symm.trans hmine)) hne
      · rw [hothers lb hne]
        exact hw.created k n s₀ lb hk hs₀ (heq ▸ hfor)

theorem delete_allTracked (hw : w.AllTracked namer) {name : Str} {plan : Plan}
    (hname : namer.loadBalancer name = name) :
    Ensures (delete name plan) w (fun r w' => w'.AllTracked namer ∧
      ∀ key lb, w'.lookup key = some lb → w.lookup key = some lb ∧ (r = .ok () → key ≠ name)) := by
  refine ensures_delete (fun _ e => ⟨hw,fun key lb hlb => ⟨hlb,by simp⟩⟩) ?_
  intro lb hlb
  rw [hw.namer_eq,hname,hname] at hlb
  obtain ⟨hown,-⟩ := hw.own name lb hlb
  refine (cleanup_tracked (hw.tracked name lb hlb)).mono ?_
  intro r h ht
  have hkey : w.namer.loadBalancer name = name := by rw [hw.namer_eq,hname]
  have hremoved : ∀ key lb', (w.afterCleanup name lb r h).lookup key = some lb' → r = .ok () → key ≠ name := by
    rintro key lb' hk rfl rfl
    have hnone : (w.afterCleanup key lb (.ok ()) h).lookup (w.namer.loadBalancer key) = none :=
      lookup_afterCleanup_self
    rw [hkey,hk] at hnone
    cases hnone
  refine ⟨⟨hw.toKeyed.afterCleanup ht.name,?_,?_⟩,fun key lb' hk => ⟨afterCleanup_shrinks hk,hremoved key lb' hk⟩⟩
  · intro key lb' hk
    rw [cloud_afterCleanup]
    by_cases hne : lb' = lb
    · subst hne
      rw [heap_afterCleanup_self]
      exact ht.tracked
    · rw [heap_afterCleanup_of_ne hne]
      have htlb := hw.tracked key lb' (afterCleanup_shrinks hk)
      exact ⟨htlb.named,fun k n s hk hs hfor => htlb.created k n s hk (ht.shrinks k n s hs) hfor⟩
  · intro k n s lb' hk hs hfor
    rw [cloud_afterCleanup] at hs
    obtain ⟨ref,href⟩ := hw.created k n s lb' hk (ht.shrinks k n s hs) hfor
    cases r with
    | error e => exact ⟨ref,href⟩
    | ok _ =>
      have hne : lb' ≠ name := by
        rintro rfl
        exact ht.gone rfl k n s hk hs (hown ▸ hfor)
      rw [← hkey] at hne
      exact ⟨ref,(lookup_afterCleanup_of_ne hne).trans href⟩

/-- A collection is at work: it tracks everything, and each name left in the pool is one it
keeps or one it comes to yet. -/
structure TracksUntil (namer : Namer) (known : List Str) (rest : List (Str × Plan)) (w : L7s) : Prop where
  tracked : w.AllTracked namer
  fixed : ∀ e ∈ rest, namer.loadBalancer e.1 = e.1
  keys : ∀ key lb, w.lookup key = some lb → key ∈ known ∨ key ∈ rest.map Prod.fst

theorem deleteUnknown_tracksUntil {known : List Str} {e : Str × Plan} {rest : List (Str × Plan)}
    (hw : TracksUntil namer known (e :: rest) w) : Ensures (deleteUnknown known e) w (fun r w' =>
      (r = .ok () → TracksUntil namer known rest w') ∧ (∀ err, r = .error err → w'.AllTracked namer)) := by
  have hrest : ∀ e ∈ rest, namer.loadBalancer e.1 = e.1 := fun e he => hw.fixed e (List.mem_cons_of_mem _ he)
  rw [deleteUnknown,ensures_ite,ensures_pure]
  constructor
  · intro hknown
    refine ⟨fun _ => ⟨hw.tracked,hrest,?_⟩,by simp⟩
    intro key lb hlb
    rcases hw.keys key lb hlb with hk | hk
    · exact Or.inl hk
    · rcases List.mem_cons.mp hk with rfl | hk
      · exact Or.inl hknown
      · exact Or.inr hk
  · intro _
    refine (delete_allTracked hw.tracked (hw.fixed e List.mem_cons_self)).mono ?_
    rintro r w' ⟨hw',hshrinks⟩
    refine ⟨fun hr => ⟨hw',hrest,?_⟩,fun _ _ => hw'⟩
    intro key lb hlb
    obtain ⟨hlb',hne⟩ := hshrinks key lb hlb
    rcases hw.keys key lb hlb' with hk | hk
    · exact Or.inl hk
    · exact Or.inr ((List.mem_cons.mp hk).resolve_left (hne hr))

/-- A collection that completes leaves in the pool only names it keeps. -/
theorem gc_allTracked (hw : w.AllTracked namer) {names : List Str} {order : List (Str × Plan)}
    {backend : DefaultBackend} (hvalid : (order.map Prod.fst).Perm w.snapshotter.keys) :
    Ensures (gc names order backend) w (fun r w' => w'.AllTracked namer ∧
      (r = .ok () → ∀ key lb, w'.lookup key = some lb → key ∈ w.known names)) := by
  have hstart : TracksUntil namer (w.known names) order w := by
    refine ⟨hw,?_,?_⟩
    · intro e he
      have hkey : e.1 ∈ w.snapshotter.keys := hvalid.subset (List.mem_map_of_mem he)
      obtain ⟨lb,hlb⟩ := Option.isSome_iff_exists.mp (AList.lookup_isSome.mpr hkey)
      exact (hw.own e.1 lb hlb).2
    · intro key lb hlb
      exact Or.inr (hvalid.mem_iff.mpr (AList.lookup_isSome.mp (Option.isSome_iff_exists.mpr ⟨lb,hlb⟩)))
  have hloop := forEach_rule (deleteUnknown (w.known names)) (TracksUntil namer (w.known names)) (AllTracked namer)
    (fun _ _ _ => deleteUnknown_tracksUntil) order hstart
  simp only [gc,ensures_bind,ensures_state,afterwards_ok]
  refine Ensures.mono hloop ?_
  rintro r w' ⟨hok,herror⟩
  cases r with
  | error e => exact ⟨herror e rfl,by simp⟩
  | ok _ =>
    obtain ⟨hw',-,hkeys⟩ := hok rfl
    rw [afterwards_ok]
    refine ensures_deleteDefaultBackend fun r b => ⟨⟨⟨hw'.namer_eq,hw'.own⟩,hw'.tracked,hw'.created⟩,?_⟩
    intro _ key lb hlb
    exact (hkeys key lb hlb).resolve_right (by simp)

theorem run_allTracked (hu : '/' ∉ namer.clusterName) (hw : w.AllTracked namer) {op : Op} (hvalid : op.Valid w)
    (hop : op.Regular Plan.ReadsBack) : Ensures (run G op) w (fun _ w' => w'.AllTracked namer) := by
  cases op with
  | sync lbs backend =>
    exact sync_invariant (A := fun _ ri plan => IngressKey ri.name ∧ plan.ReadsBack)
      (fun w ri plan hw hri => add_allTracked hu hw hri.1 hri.2)
      (fun w b hw => ⟨⟨hw.namer_eq,hw.own⟩,hw.tracked,hw.created⟩) hw
      (Runs.along_of_forall (fun lb hlb _ => hop lb hlb) _)
  | gc names order backend => exact (gc_allTracked hw hvalid).mono fun _ _ hgc => hgc.1
  | _ => exact hop.elim

/-- In every run of syncs and collections under a fixed UID, from the start of the
process and on any cloud, in which every creation is read back, a collection that
returns without error leaves no url map, proxy, forwarding rule or address that the
run has created for a load balancer it does not keep. -/
theorem collections_leave_no_resource (namer : Namer) (hu : '/' ∉ namer.clusterName) (c : Cloud)
    (hc : ∀ k n s, c k n = some s → s.createdFor = none) (ops : List Op)
    (hops : Runs.Along (step G) (fun w op => op.Valid w ∧ op.Regular Plan.ReadsBack) (start namer c) ops) :
    Runs.Along (step G) (fun w op => ∀ names, op.collects = some names → (run G op w.reset).1 = .ok () →
      ∀ k n s lb, k ≠ .sslCertificate → (step G w op).cloud k n = some s → s.createdFor = some lb →
        lb ∈ w.known names) (start namer c) ops := by
  refine Runs.Along.strengthen (I := AllTracked namer) ?_ ?_ hops
  · rintro w op hw ⟨hvalid,hop⟩
    have hreset : w.reset.AllTracked namer := ⟨⟨hw.namer_eq,hw.own⟩,hw.tracked,hw.created⟩
    have hrun : Ensures (run G op) w.reset (fun _ w' => w'.AllTracked namer) := run_allTracked hu hreset hvalid hop
    refine ⟨hrun,?_⟩
    intro names hnames hok k n s lb hk hs hfor
    cases op with
    | gc names' order backend =>
      obtain rfl : names' = names := Option.some.inj hnames
      have hgc : Ensures (gc names' order backend) w.reset _ := gc_allTracked hreset hvalid
      obtain ⟨ref,href⟩ := hgc.1.created k n s lb hk hs hfor
      exact hgc.2 hok lb ref href
    | _ => cases hnames
  · refine ⟨⟨rfl,?_⟩,?_,?_⟩
    · rintro key lb ⟨⟩
    · rintro key lb ⟨⟩
    · intro k n s lb _ hs hfor
      have hnone : s.createdFor = none := hc k n s hs
      rw [hnone] at hfor
      cases hfor

section ReadBack

theorem testIngress_key : IngressKey testIngress.name :=
  ⟨"default".toList,"test".toList,rfl,by decide,by decide,by decide,by decide,by decide,by decide⟩

theorem testPlan_readsBack : testPlan.ReadsBack := by
  constructor <;> simp [Plan.Loses,Plan.Applies,testPlan]

def emptyStart : L7s := start (Namer.setUID "uid1".toList) Cloud.empty

/-- One load balancer is synced with the given plan. -/
def syncTest (plan : Plan) : Op := .sync [(testIngress,plan)] .ready

/-- All load balancers of the pool are collected. -/
def collectTest : Op := .gc [] [("default-test--uid1".toList,testPlan)] .ready

theorem readBack_collection_leaves_no_resource :
    (run SelfLinks.byCollection collectTest
      (Runs.final (step SelfLinks.byCollection) emptyStart [syncTest testPlan]).reset).1 = .ok () ∧
    ∀ k n s lb, k ≠ .sslCertificate →
      (step SelfLinks.byCollection (Runs.final (step SelfLinks.byCollection) emptyStart [syncTest testPlan])
        collectTest).cloud k n = some s → s.createdFor ≠ some lb := by
  have hok : (run SelfLinks.byCollection collectTest
      (Runs.final (step SelfLinks.byCollection) emptyStart [syncTest testPlan]).reset).1 = .ok () := by
    decide +kernel
  have hregular : (syncTest testPlan).Regular Plan.ReadsBack := by
    intro lb hlb
    obtain rfl := List.mem_singleton.mp hlb
    exact ⟨testIngress_key,testPlan_readsBack⟩
  have hkeys : (Runs.final (step SelfLinks.byCollection) emptyStart [syncTest testPlan]).snapshotter.keys =
      ["default-test--uid1".toList] := by decide +kernel
  have hvalid : collectTest.Valid (Runs.final (step SelfLinks.byCollection) emptyStart [syncTest testPlan]) :=
    List.Perm.of_eq hkeys.symm
  have hrun : Runs.Along (step SelfLinks.byCollection) _ emptyStart ([syncTest testPlan] ++ [collectTest]) :=
    collections_leave_no_resource (Namer.setUID "uid1".toList) (by decide) Cloud.empty
      (fun _ _ _ hs => by cases hs) _ (Runs.along_concat.mpr ⟨⟨⟨trivial,hregular⟩,trivial⟩,hvalid,trivial⟩)
  refine ⟨hok,?_⟩
  intro k n s lb hk hs hfor
  have hknown := hrun.at_end [] rfl hok k n s lb hk hs hfor
  cases hknown

/-- The url map is created and not read back, so that nothing is recorded of it, and
the collection that takes the load balancer out of the pool leaves it behind. -/
theorem lostReadBack_collection_leaves_urlMap : ¬Runs.Along (step SelfLinks.byCollection)
    (fun w op => ∀ names, op.collects = some names → (run SelfLinks.byCollection op w.reset).1 = .ok () →
      ∀ k n s lb, k ≠ .sslCertificate → (step SelfLinks.byCollection w op).cloud k n = some s →
        s.createdFor = some lb → lb ∈ w.known names) emptyStart
    ([syncTest (.failingAt .urlMapReadBack)] ++ [collectTest]) := by
  intro hnone
  have hok : (run SelfLinks.byCollection collectTest
      (Runs.final (step SelfLinks.byCollection) emptyStart [syncTest (.failingAt .urlMapReadBack)]).reset).1 =
        .ok () := by decide +kernel
  have hleft : ((step SelfLinks.byCollection (Runs.final (step SelfLinks.byCollection) emptyStart
      [syncTest (.failingAt .urlMapReadBack)]) collectTest).cloud .urlMap
        (Namer.urlMap "default-test--uid1".toList)).map Stored.createdFor =
      some (some "default-test--uid1".toList) := by decide +kernel
  obtain ⟨s,hs,hfor⟩ := Option.map_eq_some_iff.mp hleft
  have hknown := hnone.at_end [] rfl hok .urlMap _ s _ (by decide) hs hfor
  cases hknown

end ReadBack

end Tracked

end L7s
end IngressGce
