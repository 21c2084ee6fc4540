import IngressGce.NetworkEndpointGroup.Manager
import Mathlib.Tactic.Common

/-! # The lifecycle of the NEG syncers

Of a syncer that the manager knows, the flags say how many goroutines it has: one if it
runs or is shutting down, none otherwise. A syncer that the manager does not know has
none. All critical sections and all steps of the goroutines preserve this.
-/
namespace IngressGce.NEG
open Prog

/-- What the flags of a syncer say about its channel and its goroutines. -/
inductive Syncer.Ok (s : Syncer) : List Phase → Prop
  | running {ch : SyncCh} {phase : Phase} (runs : s.stopped = false) (up : s.shuttingDown = false)
      (channel : s.syncCh = some ch) (opened : ch.closed = false) (looping : phase ≠ .stopping) : s.Ok [phase]
  | shuttingDown {phase : Phase} (stopped : s.stopped = true) (down : s.shuttingDown = true) : s.Ok [phase]
  | idle (stopped : s.stopped = true) (up : s.shuttingDown = false) : s.Ok []

/-- Every goroutine belongs to a syncer the manager knows, and every syncer the manager
knows is in order. -/
structure Sound (w : Manager) : Prop where
  named : ∀ {key : ServicePort} {r : SyncerRef}, w.syncerAt key = some r → r < w.next ∧ (w.heap r).servicePort = key
  ok : ∀ {key : ServicePort} {r : SyncerRef}, w.syncerAt key = some r → (w.heap r).Ok (w.live r)
  gone : ∀ {r : SyncerRef}, (∀ key, w.syncerAt key ≠ some r) →
    w.live r = [] ∧ (r < w.next → (w.heap r).stopped = true)

namespace Sound
variable {w : Manager}

theorem at_own (h : Sound w) {r : SyncerRef} (hlive : w.live r ≠ []) :
    w.syncerAt (w.heap r).servicePort = some r := by
  by_contra hne
  apply hlive
  refine (h.gone ?_).1
  intro key hkey
  rw [(h.named hkey).2] at hne
  exact hne hkey

/-- A syncer and its goroutines may change together, if they stay in order. -/
theorem change (h : Sound w) {key : ServicePort} {r : SyncerRef} (hr : w.syncerAt key = some r) {s : Syncer}
    {gs : List Phase} (hok : s.Ok gs) (hs : s.servicePort = key) : Sound ((w.store r s).setLive r gs) where
  named := by
    intro key' r' hr'
    obtain ⟨hlt,hport⟩ := h.named hr'
    refine ⟨hlt,?_⟩
    by_cases hrr : r' = r
    · subst hrr
      have hsame : key = key' := (h.named hr).2.symm.trans hport
      simp [Manager.setLive,Manager.store,hs,hsame]
    · simpa [Manager.setLive,Manager.store,hrr] using hport
  ok := by
    intro key' r' hr'
    by_cases hrr : r' = r
    · subst hrr
      simpa [Manager.setLive,Manager.store] using hok
    · simpa [Manager.setLive,Manager.store,hrr] using h.ok hr'
  gone := by
    intro r' hr'
    have hrr : r' ≠ r := by
      intro he
      subst he
      exact hr' key hr
    simpa [Manager.setLive,Manager.store,hrr] using h.gone hr'

theorem changeLive (h : Sound w) {key : ServicePort} {r : SyncerRef} (hr : w.syncerAt key = some r) {gs : List Phase}
    (hok : (w.heap r).Ok gs) : Sound (w.setLive r gs) := by
  have hsame : (w.store r (w.heap r)).setLive r gs = w.setLive r gs := by
    simp [Manager.setLive,Manager.store]
  rw [← hsame]
  exact h.change hr hok (h.named hr).2

end Sound

/-- What the steps of goroutines leave as it is. Shutting down may end, and a buffered
signal may be received. -/
structure Interfered (w w' : Manager) : Prop where
  svcPortMap : w'.svcPortMap = w.svcPortMap
  syncerMap : w'.syncerMap = w.syncerMap
  stopped : ∀ r, (w'.heap r).stopped = (w.heap r).stopped
  shuttingDown : ∀ r, (w.heap r).shuttingDown = false → (w'.heap r).shuttingDown = false

namespace Interfered

theorem refl (w : Manager) : Interfered w w := ⟨rfl,rfl,fun _ => rfl,fun _ h => h⟩

theorem trans {w w' w'' : Manager} (h : Interfered w w') (h' : Interfered w' w'') : Interfered w w'' where
  svcPortMap := h'.svcPortMap.trans h.svcPortMap
  syncerMap := h'.syncerMap.trans h.syncerMap
  stopped r := (h'.stopped r).trans (h.stopped r)
  shuttingDown r hr := h'.shuttingDown r (h.shuttingDown r hr)

theorem syncerAt {w w' : Manager} (h : Interfered w w') (key : ServicePort) : w'.syncerAt key = w.syncerAt key := by
  simp [Manager.syncerAt,h.syncerMap]

end Interfered

/-- A goroutine is the only one of its syncer, which either runs or is shutting down. -/
theorem Syncer.Ok.only {s : Syncer} {gs : List Phase} (h : s.Ok gs) {i : ℕ} {phase : Phase}
    (hi : gs[i]? = some phase) : gs = [phase] ∧ i = 0 := by
  cases h with
  | idle stopped up => simp at hi
  | running runs up channel opened looping | shuttingDown stopped down =>
    cases i with
    | succ i => simp at hi
    | zero => simpa using hi

theorem Syncer.Ok.length_le {s : Syncer} {gs : List Phase} (h : s.Ok gs) : gs.length ≤ 1 := by
  cases h <;> simp

theorem Syncer.Ok.next_phase {s : Syncer} {phase phase' : Phase} (h : s.Ok [phase])
    (hnext : phase' = .stopping → s.stopped = true) : s.Ok [phase'] := by
  cases h with
  | running runs up channel opened looping =>
    refine .running runs up channel opened ?_
    intro hstop
    rw [hnext hstop] at runs
    cases runs
  | shuttingDown stopped down => exact .shuttingDown stopped down

/-- The signal in the channel of a syncer says nothing about its goroutines. -/
theorem Syncer.Ok.buffer {s : Syncer} {gs : List Phase} (h : s.Ok gs) {ch : SyncCh} (hch : s.syncCh = some ch)
    (b : Bool) : Syncer.Ok { s with syncCh := some { ch with buffered := b } } gs := by
  cases h with
  | @running ch' _ runs up channel opened looping =>
    obtain rfl : ch' = ch := Option.some.inj (channel.symm.trans hch)
    exact .running runs up rfl opened looping
  | shuttingDown stopped down => exact .shuttingDown stopped down
  | idle stopped up => exact .idle stopped up

theorem Syncer.Ok.closed {s : Syncer} {gs : List Phase} (h : s.Ok gs) {ch : SyncCh} (hch : s.syncCh = some ch)
    (hclosed : ch.closed = true) : s.stopped = true := by
  cases h with
  | @running ch' _ runs up channel opened looping =>
    obtain rfl : ch' = ch := Option.some.inj (channel.symm.trans hch)
    simp [hclosed] at opened
  | shuttingDown stopped down => exact stopped
  | idle stopped up => exact stopped

theorem Interfered.of_store {w : Manager} {r : SyncerRef} {s : Syncer} {gs : List Phase}
    (hstopped : s.stopped = (w.heap r).stopped)
    (hdown : (w.heap r).shuttingDown = false → s.shuttingDown = false) :
    Interfered w ((w.store r s).setLive r gs) where
  svcPortMap := rfl
  syncerMap := rfl
  stopped r' := by
    by_cases hr : r' = r
    · subst hr
      simpa [Manager.setLive,Manager.store] using hstopped
    · simp [Manager.setLive,Manager.store,hr]
  shuttingDown r' hr' := by
    by_cases hr : r' = r
    · subst hr
      simpa [Manager.setLive,Manager.store] using hdown hr'
    · simpa [Manager.setLive,Manager.store,hr] using hr'

theorem goStep_sound {w : Manager} (h : Sound w) (g : GoStep) : Sound (goStep w g) ∧ Interfered w (goStep w g) := by
  unfold goStep
  cases hg : (w.live g.syncer)[g.who]? with
  | none => exact ⟨h,.refl w⟩
  | some phase =>
    have hlive : w.live g.syncer ≠ [] := by
      intro hnil
      simp [hnil] at hg
    have hat := h.at_own hlive
    have hok := h.ok hat
    obtain ⟨honly,hwho⟩ := hok.only hg
    rw [honly] at hok
    have hphase : ∀ phase', (phase' = .stopping → (w.heap g.syncer).stopped = true) →
        Sound (w.setLive g.syncer [phase']) ∧ Interfered w (w.setLive g.syncer [phase']) := fun phase' hp =>
      ⟨h.changeLive hat (hok.next_phase hp),⟨rfl,rfl,fun _ => rfl,fun _ hr => hr⟩⟩
    cases phase with
    | syncing =>
      simp only [honly,hwho,List.set_cons_zero]
      exact hphase .waiting (by simp)
    | waiting =>
      simp only [honly,hwho,List.set_cons_zero]
      split
      · exact hphase .syncing (by simp)
      · cases hch : (w.heap g.syncer).syncCh with
        | none => exact ⟨h,.refl w⟩
        | some ch =>
          by_cases hb : ch.buffered = true
          · simp only [hb,↓reduceIte]
            have hlooping : (w.heap g.syncer).Ok [.syncing] := hok.next_phase (by simp)
            exact ⟨h.change hat (hlooping.buffer hch false) rfl,.of_store rfl id⟩
          · by_cases hc : ch.closed = true
            · simp only [hb,hc,↓reduceIte]
              exact hphase .stopping fun _ => hok.closed hch hc
            · simp only [hb,hc]
              exact ⟨h,.refl w⟩
    | stopping =>
      have hstopped : (w.heap g.syncer).stopped = true := by
        cases hok with
        | running runs up channel opened looping => exact absurd rfl looping
        | shuttingDown stopped down => exact stopped
      simp only [honly,hwho,List.eraseIdx_cons_zero]
      exact ⟨h.change hat (.idle hstopped rfl) rfl,.of_store rfl fun _ => rfl⟩

/-- What a critical section relies on and re-establishes after each of its accesses: the
ports in `svcPortMap` are `P`, the keys in `K` have syncers, and only syncers of keys in
`A` run. -/
structure Good (P : AList (fun _ : ServiceKey => List Str)) (K : List ServicePort) (A : ServicePort → Prop)
    (w : Manager) : Prop where
  sound : Sound w
  svcPortMap : w.svcPortMap = P
  kept : ∀ key ∈ K, (w.syncerAt key).isSome
  running : ∀ {key : ServicePort} {r : SyncerRef}, w.syncerAt key = some r → (w.heap r).stopped = false → A key

section Sections
variable {P : AList (fun _ : ServiceKey => List Str)} {K : List ServicePort} {A : ServicePort → Prop} {w : Manager}

theorem Good.interfered (h : Good P K A w) {w' : Manager} (hs : Sound w') (hi : Interfered w w') : Good P K A w' where
  sound := hs
  svcPortMap := hi.svcPortMap.trans h.svcPortMap
  kept key hkey := by
    rw [hi.syncerAt]
    exact h.kept key hkey
  running hr hrun := by
    rw [hi.syncerAt] at hr
    rw [hi.stopped] at hrun
    exact h.running hr hrun

theorem Good.mono (h : Good P K A w) {B : ServicePort → Prop} (hAB : ∀ key, A key → B key) : Good P K B w :=
  ⟨h.sound,h.svcPortMap,h.kept,fun hr hrun => hAB _ (h.running hr hrun)⟩

theorem foldl_goStep_sound (batch : List GoStep) (h : Sound w) :
    Sound (batch.foldl goStep w) ∧ Interfered w (batch.foldl goStep w) := by
  induction batch generalizing w with
  | nil => exact ⟨h,.refl w⟩
  | cons g rest ih =>
    obtain ⟨hs,hi⟩ := goStep_sound h g
    obtain ⟨hs',hi'⟩ := ih hs
    exact ⟨hs',hi.trans hi'⟩

theorem interfere_good (h : Good P K A w) :
    Returns interfere w (fun _ w' => Good P K A w' ∧ Interfered w w') := by
  rw [interfere,returns_update]
  cases hq : w.interference with
  | nil => exact ⟨h,.refl w⟩
  | cons batch rest =>
    have hw : Sound { w with interference := rest } := ⟨h.sound.named,h.sound.ok,h.sound.gone⟩
    obtain ⟨hs,hi⟩ := foldl_goStep_sound batch hw
    have hfrom : Interfered w (batch.foldl goStep { w with interference := rest }) :=
      ⟨hi.svcPortMap,hi.syncerMap,hi.stopped,hi.shuttingDown⟩
    exact ⟨h.interfered hs hfrom,hfrom⟩

theorem isStopped_good (h : Good P K A w) (r : SyncerRef) : Returns (isStopped r) w
    (fun b w' => Good P K A w' ∧ Interfered w w' ∧ b = (w'.heap r).stopped) := by
  simp only [isStopped,returns_bind,returns_state,returns_pure]
  exact (interfere_good h).mono fun _ w' hw' => ⟨hw'.1,hw'.2,trivial⟩

theorem isShuttingDown_good (h : Good P K A w) (r : SyncerRef) : Returns (isShuttingDown r) w
    (fun b w' => Good P K A w' ∧ Interfered w w' ∧ b = (w'.heap r).shuttingDown) := by
  simp only [isShuttingDown,returns_bind,returns_state,returns_pure]
  exact (interfere_good h).mono fun _ w' hw' => ⟨hw'.1,hw'.2,trivial⟩

/-- A syncer may change if it stays in order and runs only under a key in `B`. -/
theorem Good.change (h : Good P K A w) {key : ServicePort} {r : SyncerRef} (hr : w.syncerAt key = some r)
    {s : Syncer} {gs : List Phase} (hok : s.Ok gs) (hs : s.servicePort = key) {B : ServicePort → Prop}
    (hself : s.stopped = false → B key) (hothers : ∀ key', key' ≠ key → A key' → B key') :
    Good P K B ((w.store r s).setLive r gs) where
  sound := h.sound.change hr hok hs
  svcPortMap := h.svcPortMap
  kept := h.kept
  running := by
    intro key' r' hr' hrun
    by_cases hrr : r' = r
    · subst hrr
      have hkey : key' = key := (h.sound.named hr').2.symm.trans (h.sound.named hr).2
      rw [hkey]
      apply hself
      simpa [Manager.setLive,Manager.store] using hrun
    · refine hothers key' ?_ (h.running hr' (by simpa [Manager.setLive,Manager.store,hrr] using hrun))
      intro hkey
      subst hkey
      exact hrr (Option.some.inj (hr'.symm.trans hr))

theorem Good.changeSyncer (h : Good P K A w) {key : ServicePort} {r : SyncerRef} (hr : w.syncerAt key = some r)
    {s : Syncer} (hok : s.Ok (w.live r)) (hs : s.servicePort = key) {B : ServicePort → Prop}
    (hself : s.stopped = false → B key) (hothers : ∀ key', key' ≠ key → A key' → B key') :
    Good P K B (w.store r s) := by
  have hsame : (w.store r s).setLive r (w.live r) = w.store r s := by
    simp [Manager.setLive,Manager.store]
  rw [← hsame]
  exact h.change hr hok hs hself hothers

/-- Starting a syncer never gives it a second goroutine. -/
theorem start_good (h : Good P K A w) {key : ServicePort} {r : SyncerRef} (hr : w.syncerAt key = some r) :
    Returns (start r) w (fun _ w' => Good P K (fun k => A k ∨ k = key) w') := by
  have hweak : ∀ {w'}, Good P K A w' → Good P K (fun k => A k ∨ k = key) w' := fun hw' => hw'.mono fun _ => Or.inl
  simp only [start,returns_bind,returns_state]
  refine (isStopped_good h r).mono ?_
  rintro stopped w₁ ⟨h₁,hi₁,rfl⟩
  rw [returns_ite]
  refine ⟨fun _ => ?_,fun hstopped => ?_⟩
  · rw [returns_pure]
    exact hweak h₁
  rw [returns_bind]
  refine (isShuttingDown_good h₁ r).mono ?_
  rintro down w₂ ⟨h₂,hi₂,rfl⟩
  rw [returns_ite]
  refine ⟨fun _ => ?_,fun hdown => ?_⟩
  · rw [returns_pure]
    exact hweak h₂
  simp only [init,returns_bind,returns_update,returns_pure]
  refine (interfere_good h₂).mono ?_
  rintro - w₃ ⟨h₃,hi₃⟩
  have hr₃ : w₃.syncerAt key = some r := by
    rw [hi₃.syncerAt,hi₂.syncerAt,hi₁.syncerAt]
    exact hr
  have hstopped₃ : (w₃.heap r).stopped = true := by
    rw [hi₃.stopped,hi₂.stopped]
    simpa using hstopped
  have hup₃ : (w₃.heap r).shuttingDown = false := hi₃.shuttingDown r (by simpa using hdown)
  -- Nothing is left of an earlier goroutine once the syncer has shut down.
  have hidle : w₃.live r = [] := by
    have hok := h₃.sound.ok hr₃
    generalize w₃.live r = gs at hok ⊢
    cases hok with
    | running runs up channel opened looping => simp [runs] at hstopped₃
    | shuttingDown stopped down => simp [down] at hup₃
    | idle stopped up => rfl
  have hstarted : Syncer.Ok { w₃.heap r with stopped := false, syncCh := some { closed := false, buffered := false } }
      (w₃.live r ++ [.syncing]) := by
    rw [hidle]
    exact .running rfl hup₃ rfl rfl (by simp)
  exact h₃.change hr₃ hstarted (h₃.sound.named hr₃).2 (fun _ => Or.inr rfl) fun _ _ => Or.inl

theorem stop_good (h : Good P K A w) {key : ServicePort} {r : SyncerRef} (hr : w.syncerAt key = some r) :
    Returns (stop r) w (fun _ w' => Good P K (fun k => A k ∧ k ≠ key) w') := by
  simp only [stop,returns_bind,returns_state]
  refine (interfere_good h).mono ?_
  rintro - w₁ ⟨h₁,hi₁⟩
  rw [← hi₁.syncerAt] at hr
  have hok := h₁.sound.ok hr
  rw [returns_ite]
  refine ⟨fun hstopped => ?_,fun hrun => ?_⟩
  · rw [returns_pure]
    have hsame := h₁.changeSyncer hr hok (h₁.sound.named hr).2 (B := fun k => A k ∧ k ≠ key)
      (by simp [hstopped]) fun k hne hA => ⟨hA,hne⟩
    simpa [Manager.store] using hsame
  · generalize hgs : w₁.live r = gs at hok
    cases hok with
    | shuttingDown stopped down => exact absurd stopped hrun
    | idle stopped up => exact absurd stopped hrun
    | @running ch phase runs up channel opened looping =>
      simp only [channel,opened,Bool.false_eq_true,↓reduceIte,returns_update]
      have hclosed : Syncer.Ok
          { w₁.heap r with stopped := true, shuttingDown := true, syncCh := some { ch with closed := true } }
          (w₁.live r) := by
        rw [hgs]
        exact .shuttingDown rfl rfl
      exact h₁.changeSyncer hr hclosed (h₁.sound.named hr).2 (by simp) fun k hne hA => ⟨hA,hne⟩

theorem signal_good (h : Good P K A w) {key : ServicePort} {r : SyncerRef} (hr : w.syncerAt key = some r) :
    Returns (signal r) w (fun _ w' => Good P K A w') := by
  simp only [signal,returns_bind]
  refine (isStopped_good h r).mono ?_
  rintro stopped w₁ ⟨h₁,hi₁,rfl⟩
  rw [returns_ite]
  refine ⟨fun _ => ?_,fun hrun => ?_⟩
  · rw [returns_pure]
    exact h₁
  simp only [returns_bind,returns_state]
  refine (interfere_good h₁).mono ?_
  rintro - w₂ ⟨h₂,hi₂⟩
  have hr₂ : w₂.syncerAt key = some r := by
    rw [hi₂.syncerAt,hi₁.syncerAt]
    exact hr
  rw [← hi₂.stopped] at hrun
  have hok := h₂.sound.ok hr₂
  cases hch : (w₂.heap r).syncCh with
  | none => simpa using h₂
  | some ch =>
    -- Only a stopped syncer has a closed channel.
    have hopened : ch.closed = false := by
      by_contra hc
      exact hrun (hok.closed hch (by simpa using hc))
    simp only [hopened,Bool.false_eq_true,↓reduceIte,returns_ite,returns_pure,returns_bind,returns_update]
    refine ⟨fun _ => h₂,fun _ => ?_⟩
    have hbuffered := hok.buffer hch true
    rw [hopened] at hbuffered
    exact h₂.changeSyncer hr₂ hbuffered (h₂.sound.named hr₂).2 (fun hrun' => h₂.running hr₂ hrun') fun _ _ hA => hA

theorem stopPort_good (h : Good P K A w) (key : ServiceKey) (port : Str) :
    Returns (stopPort key port) w (fun _ w' => Good P K (fun k => A k ∧ k ≠ ⟨key,port⟩) w') := by
  simp only [stopPort,returns_bind,returns_state]
  cases hr : w.syncerAt ⟨key,port⟩ with
  | some r => exact stop_good h hr
  | none =>
    rw [returns_pure]
    refine ⟨h.sound,h.svcPortMap,h.kept,fun {k r} hk hrun => ⟨h.running hk hrun,?_⟩⟩
    intro he
    rw [he,hr] at hk
    cases hk

theorem Sound.next_not_at (h : Sound w) (key : ServicePort) : w.syncerAt key ≠ some w.next := by
  intro hkey
  exact absurd (h.named hkey).1 (Nat.lt_irrefl _)

theorem syncerAt_addSyncer (w : Manager) (key k : ServicePort) :
    (w.addSyncer key).syncerAt k = if k = key then some w.next else w.syncerAt k := by
  by_cases hk : k = key
  · subst hk
    simp [Manager.syncerAt,Manager.addSyncer]
  · simp [Manager.syncerAt,Manager.addSyncer,Manager.store,hk]

theorem heap_addSyncer_of_lt {r : SyncerRef} (hr : r < w.next) (key : ServicePort) :
    (w.addSyncer key).heap r = w.heap r := by
  simp [Manager.addSyncer,Manager.store,hr.ne]

theorem Sound.addSyncer (h : Sound w) {key : ServicePort} (hnew : w.syncerAt key = none) : Sound (w.addSyncer key) where
  named := by
    intro k r hk
    rw [syncerAt_addSyncer] at hk
    split at hk
    · rename_i hkey
      obtain rfl := Option.some.inj hk
      subst hkey
      exact ⟨Nat.lt_succ_self _,by simp [Manager.addSyncer,Manager.store,newSyncer]⟩
    · obtain ⟨hlt,hport⟩ := h.named hk
      rw [heap_addSyncer_of_lt hlt]
      exact ⟨Nat.lt_succ_of_lt hlt,hport⟩
  ok := by
    intro k r hk
    rw [syncerAt_addSyncer] at hk
    split at hk
    · obtain rfl := Option.some.inj hk
      have hlive : (w.addSyncer key).live w.next = [] := (h.gone h.next_not_at).1
      rw [hlive]
      exact .idle (by simp [Manager.addSyncer,Manager.store,newSyncer])
        (by simp [Manager.addSyncer,Manager.store,newSyncer])
    · rw [heap_addSyncer_of_lt (h.named hk).1]
      exact h.ok hk
  gone := by
    intro r hr
    have hne : r ≠ w.next := by
      intro he
      apply hr key
      rw [syncerAt_addSyncer,if_pos rfl,he]
    have hold : ∀ k, w.syncerAt k ≠ some r := by
      intro k hk
      apply hr k
      rw [syncerAt_addSyncer,if_neg ?_]
      · exact hk
      · intro he
        rw [he,hnew] at hk
        cases hk
    obtain ⟨hlive,hstopped⟩ := h.gone hold
    refine ⟨hlive,fun hlt => ?_⟩
    have hlt' : r < w.next := lt_of_le_of_ne (Nat.lt_succ_iff.mp hlt) hne
    rw [heap_addSyncer_of_lt hlt']
    exact hstopped hlt'

theorem syncerFor_good (h : Good P K A w) (key : ServiceKey) (port : Str) : Returns (syncerFor key port) w
    (fun r w' => Good P K A w' ∧ w'.syncerAt ⟨key,port⟩ = some r) := by
  simp only [syncerFor,returns_bind,returns_state]
  cases hr : w.syncerAt ⟨key,port⟩ with
  | some r => exact (returns_pure _ _ _).mpr ⟨h,hr⟩
  | none =>
    simp only [returns_bind,returns_update,returns_pure]
    refine ⟨⟨h.sound.addSyncer hr,h.svcPortMap,?_,?_⟩,by rw [syncerAt_addSyncer,if_pos rfl]⟩
    · intro k hk
      rw [syncerAt_addSyncer]
      split
      · rfl
      · exact h.kept k hk
    · intro k r hk hrun
      rw [syncerAt_addSyncer] at hk
      split at hk
      · obtain rfl := Option.some.inj hk
        simp [Manager.addSyncer,Manager.store,newSyncer] at hrun
      · rw [heap_addSyncer_of_lt (h.sound.named hk).1] at hrun
        exact h.running hk hrun

theorem startPort_good (h : Good P K A w) (key : ServiceKey) {port : Str} (hA : A ⟨key,port⟩) :
    Returns (startPort key port) w (fun _ w' => Good P K A w') := by
  simp only [startPort,returns_bind]
  refine (syncerFor_good h key port).mono ?_
  rintro r w₁ ⟨h₁,hr₁⟩
  refine (isStopped_good h₁ r).mono ?_
  rintro stopped w₂ ⟨h₂,hi₂,-⟩
  rw [← hi₂.syncerAt] at hr₁
  rw [returns_ite]
  refine ⟨fun _ => ?_,fun _ => (returns_pure _ _ _).mpr h₂⟩
  refine (start_good h₂ hr₁).mono fun _ w' hw' => hw'.mono ?_
  rintro k (hk | rfl)
  · exact hk
  · exact hA

theorem startPorts_good (h : Good P K A w) (key : ServiceKey) {ports : List Str} (hA : ∀ p ∈ ports, A ⟨key,p⟩) :
    Returns (startPorts key ports) w (fun _ w' => Good P K A w') := by
  induction ports generalizing w with
  | nil => exact (returns_pure _ _ _).mpr h
  | cons port rest ih =>
    simp only [startPorts,returns_bind,returns_pure]
    refine (startPort_good h key (hA port List.mem_cons_self)).mono ?_
    intro e w' h'
    exact ih h' fun p hp => hA p (List.mem_cons_of_mem _ hp)

/-- After the ports have been stopped, none of them runs. -/
theorem stopPorts_good (h : Good P K A w) (key : ServiceKey) (ports : List Str) :
    Returns (forEach (stopPort key) ports) w
      (fun _ w' => Good P K (fun k => A k ∧ (k.service = key → k.targetPort ∉ ports)) w') := by
  have hloop := returns_forEach (stopPort key) (s := w)
    (fun rest w => Good P K (fun k => A k ∧ (k.service = key → k.targetPort ∈ ports → k.targetPort ∈ rest)) w)
    ?_ ports (h.mono fun k hk => ⟨hk,fun _ hp => hp⟩)
  · exact hloop.mono fun _ w' hw' => hw'.mono fun k hk => ⟨hk.1,fun hs hp => by simpa using hk.2 hs hp⟩
  · intro port rest w hw
    refine (stopPort_good hw key port).mono fun _ w' hw' => hw'.mono ?_
    rintro k ⟨⟨hk,hrest⟩,hne⟩
    refine ⟨hk,fun hs hp => ?_⟩
    rcases List.mem_cons.mp (hrest hs hp) with he | hp'
    · exact absurd (by cases k; simp_all) hne
    · exact hp'

/-- The service of the key wants the port of the key. -/
def Covered (P : AList (fun _ : ServiceKey => List Str)) (k : ServicePort) : Prop :=
  k.targetPort ∈ (P.lookup k.service).getD []

/-- The state between the critical sections: syncers run only for ports of their services. -/
def Orderly (K : List ServicePort) (w : Manager) : Prop := Good w.svcPortMap K (Covered w.svcPortMap) w

theorem Good.orderly (h : Good P K (Covered P) w) : Orderly K w := by
  obtain rfl := h.svcPortMap
  exact h

theorem newSyncerManager_orderly : Orderly [] newSyncerManager := by
  have hnone : ∀ key, newSyncerManager.syncerAt key = none := fun _ => rfl
  refine ⟨⟨?_,?_,?_⟩,rfl,?_,?_⟩
  · intro key r hr
    simp [hnone] at hr
  · intro key r hr
    simp [hnone] at hr
  · intro r _
    exact ⟨rfl,fun hr => absurd hr (Nat.not_lt_zero r)⟩
  · intro key hkey
    cases hkey
  · intro key r hr
    simp [hnone] at hr

theorem ensureSyncers_orderly (h : Orderly K w) (key : ServiceKey) (targetPorts : List Str) :
    Returns (ensureSyncers key targetPorts) w (fun _ w' => Orderly K w') := by
  simp only [ensureSyncers,returns_bind,returns_state,returns_update]
  set P' := w.svcPortMap.insert key targetPorts with hP'
  have hself : P'.lookup key = some targetPorts := AList.lookup_insert _
  have hother : ∀ k, k ≠ key → P'.lookup k = w.svcPortMap.lookup k := fun k hk => AList.lookup_insert_ne hk
  have hupdated : Good P' K (Covered w.svcPortMap) { w with svcPortMap := P' } :=
    ⟨⟨h.sound.named,h.sound.ok,h.sound.gone⟩,rfl,h.kept,h.running⟩
  refine (stopPorts_good hupdated key _).mono ?_
  intro _ w₁ h₁
  -- What still runs for this service was wanted before and is not among the removed ports.
  have hcovered : Good P' K (Covered P') w₁ := by
    refine h₁.mono ?_
    rintro ⟨service,port⟩ ⟨hk,hnot⟩
    by_cases hs : service = key
    · subst hs
      have hwanted : port ∈ targetPorts := by
        by_contra hunwanted
        refine hnot rfl ?_
        simp only [difference,List.mem_filter]
        exact ⟨hk,by simpa using hunwanted⟩
      simpa [Covered,hself] using hwanted
    · simpa [Covered,hother service hs] using hk
  refine (startPorts_good hcovered key ?_).mono fun _ w' hw' => hw'.orderly
  intro p hp
  have hp' : p ∈ targetPorts := (List.mem_filter.mp hp).1
  simpa [Covered,hself] using hp'

theorem stopSyncer_orderly (h : Orderly K w) (key : ServiceKey) :
    Returns (stopSyncer key) w (fun _ w' => Orderly K w') := by
  simp only [stopSyncer,returns_bind,returns_state]
  cases hports : w.svcPortMap.lookup key with
  | none => exact (returns_pure _ _ _).mpr h
  | some ports =>
    simp only [returns_bind,returns_update]
    refine (stopPorts_good h key ports).mono ?_
    intro _ w₁ h₁
    refine ⟨⟨h₁.sound.named,h₁.sound.ok,h₁.sound.gone⟩,rfl,h₁.kept,?_⟩
    rintro ⟨service,port⟩ r hk hrun
    obtain ⟨hold,hnot⟩ := h₁.running hk hrun
    have hs : service ≠ key := by
      intro hs
      subst hs
      apply hnot rfl
      simpa [Covered,hports] using hold
    have hsame : (w₁.svcPortMap.erase key).lookup service = w.svcPortMap.lookup service := by
      rw [AList.lookup_erase_ne hs,h₁.svcPortMap]
    simpa [Covered,hsame] using hold

theorem signalPort_good (h : Good P K A w) (key : ServiceKey) (port : Str) :
    Returns (signalPort key port) w (fun _ w' => Good P K A w') := by
  simp only [signalPort,returns_bind,returns_state]
  cases hr : w.syncerAt ⟨key,port⟩ with
  | none => exact (returns_pure _ _ _).mpr h
  | some r =>
    rw [returns_bind]
    refine (isStopped_good h r).mono ?_
    rintro stopped w₁ ⟨h₁,hi₁,-⟩
    rw [← hi₁.syncerAt] at hr
    rw [returns_ite]
    refine ⟨fun _ => (returns_pure _ _ _).mpr h₁,fun _ => ?_⟩
    rw [returns_bind]
    exact (signal_good h₁ hr).mono fun _ w' hw' => (returns_pure _ _ _).mpr hw'

theorem sync_orderly (h : Orderly K w) (key : ServiceKey) : Returns (sync key) w (fun _ w' => Orderly K w') := by
  simp only [sync,returns_bind,returns_state]
  have hloop := returns_forEach (signalPort key) (s := w) (fun _ => Good w.svcPortMap K (Covered w.svcPortMap))
    (fun port _ _ hw => signalPort_good hw key port) (w.ports key) h
  exact hloop.mono fun _ w' hw' => hw'.orderly

theorem shutDown_orderly (h : Orderly K w) (order : Iteration ServicePort) :
    Returns (shutDown order) w (fun _ w' => Orderly K w') := by
  simp only [shutDown,returns_bind,returns_state]
  have hloop := returns_forEach (fun key : ServicePort => stopPort key.service key.targetPort) (s := w)
    (fun _ => Good w.svcPortMap K (Covered w.svcPortMap)) ?_ (order.range w.syncerMap.keys) h
  · exact hloop.mono fun _ w' hw' => hw'.orderly
  · intro key _ w' hw'
    exact (stopPort_good hw' key.service key.targetPort).mono fun _ w'' hw'' => hw''.mono fun k hk => hk.1

theorem stoppedAmong_good (h : Good P K A w) (keys : List ServicePort) :
    Returns (stoppedAmong keys) w (fun found w' => Good P K A w' ∧ found.Sublist keys) := by
  induction keys generalizing w with
  | nil => exact (returns_pure _ _ _).mpr ⟨h,.slnil⟩
  | cons key rest ih =>
    simp only [stoppedAmong,returns_bind,returns_state]
    cases hr : w.syncerAt key with
    | none => exact (ih h).mono fun found w' hw' => ⟨hw'.1,hw'.2.cons key⟩
    | some r =>
      simp only [returns_bind,returns_pure]
      refine (isStopped_good h r).mono ?_
      rintro stopped w₁ ⟨h₁,-,-⟩
      refine (ih h₁).mono ?_
      rintro found w' ⟨h',hfound⟩
      cases stopped with
      | true => exact ⟨h',hfound.cons_cons key⟩
      | false => exact ⟨h',hfound.cons key⟩

theorem mem_keys_iff (key : ServicePort) : key ∈ w.syncerMap.keys ↔ (w.syncerAt key).isSome := by
  rw [Manager.syncerAt,AList.lookup_isSome,AList.mem_keys]

/-- The keys that a garbage collection starts with are distinct keys of syncers. -/
theorem getAllStoppedSyncerKeys_good (h : Good P K A w) (order : Iteration ServicePort) :
    Returns (getAllStoppedSyncerKeys order) w (fun keys w' => Good P keys A w' ∧ keys.Nodup) := by
  simp only [getAllStoppedSyncerKeys,returns_bind,returns_state]
  have hall : Good P w.syncerMap.keys A w :=
    ⟨h.sound,h.svcPortMap,fun key hkey => (mem_keys_iff key).mp hkey,h.running⟩
  refine (stoppedAmong_good hall (order.range w.syncerMap.keys)).mono ?_
  rintro keys w' ⟨h',hsub⟩
  have hkept : ∀ key ∈ keys, (w'.syncerAt key).isSome := fun key hkey =>
    h'.kept key (Iteration.mem_range.mp (hsub.subset hkey))
  exact ⟨⟨h'.sound,h'.svcPortMap,hkept,h'.running⟩,
    hsub.nodup (Iteration.nodup_range.mpr w.syncerMap.keys_nodup)⟩

theorem syncerAt_erase (w : Manager) (key k : ServicePort) :
    Manager.syncerAt { w with syncerMap := w.syncerMap.erase key } k = if k = key then none else w.syncerAt k := by
  by_cases hk : k = key
  · subst hk
    simp [Manager.syncerAt]
  · simp [Manager.syncerAt,hk]

theorem Sound.erase (h : Sound w) {key : ServicePort} {r : SyncerRef} (hr : w.syncerAt key = some r)
    (hstopped : (w.heap r).stopped = true) (hup : (w.heap r).shuttingDown = false) :
    Sound { w with syncerMap := w.syncerMap.erase key } where
  named := by
    intro k r' hk
    rw [syncerAt_erase] at hk
    split at hk
    · cases hk
    · exact h.named hk
  ok := by
    intro k r' hk
    rw [syncerAt_erase] at hk
    split at hk
    · cases hk
    · exact h.ok hk
  gone := by
    intro r' hr'
    by_cases hrr : r' = r
    · subst hrr
      have hok := h.ok hr
      refine ⟨?_,fun _ => hstopped⟩
      generalize w.live r' = gs at hok ⊢
      cases hok with
      | running runs up channel opened looping => simp [runs] at hstopped
      | shuttingDown stopped down => simp [down] at hup
      | idle stopped up => rfl
    · refine h.gone ?_
      intro k hk
      apply hr' k
      rw [syncerAt_erase,if_neg ?_]
      · exact hk
      · intro he
        subst he
        exact hrr (Option.some.inj (hk.symm.trans hr))

theorem garbageCollectSyncer_good {key : ServicePort} (h : Good P (key :: K) A w) (hkey : key ∉ K) :
    Returns (garbageCollectSyncer key) w (fun _ w' => Good P K A w') := by
  obtain ⟨r,hr⟩ := Option.isSome_iff_exists.mp (h.kept key List.mem_cons_self)
  have hrest : ∀ {w'}, Good P (key :: K) A w' → Good P K A w' := fun hw' =>
    ⟨hw'.sound,hw'.svcPortMap,fun k hk => hw'.kept k (List.mem_cons_of_mem _ hk),hw'.running⟩
  simp only [garbageCollectSyncer,returns_bind,returns_state,hr]
  refine (isStopped_good h r).mono ?_
  rintro stopped w₁ ⟨h₁,hi₁,rfl⟩
  rw [returns_ite]
  refine ⟨fun _ => (returns_pure _ _ _).mpr (hrest h₁),fun hstopped => ?_⟩
  rw [returns_bind]
  refine (isShuttingDown_good h₁ r).mono ?_
  rintro down w₂ ⟨h₂,hi₂,rfl⟩
  rw [returns_ite]
  refine ⟨fun _ => (returns_pure _ _ _).mpr (hrest h₂),fun hdown => ?_⟩
  rw [returns_update]
  have hr₂ : w₂.syncerAt key = some r := by
    rw [hi₂.syncerAt,hi₁.syncerAt]
    exact hr
  rw [← hi₂.stopped] at hstopped
  refine ⟨h₂.sound.erase hr₂ (by simpa using hstopped) (by simpa using hdown),h₂.svcPortMap,?_,?_⟩
  · intro k hk
    have hne : k ≠ key := fun he => hkey (he ▸ hk)
    rw [syncerAt_erase,if_neg hne]
    exact h₂.kept k (List.mem_cons_of_mem _ hk)
  · intro k r' hk hrun
    rw [syncerAt_erase] at hk
    split at hk
    · cases hk
    · exact h₂.running hk hrun

end Sections
end IngressGce.NEG
