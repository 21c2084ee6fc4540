import IngressGce.Backends.Keys
import IngressGce.Backends.Tracking

/-! # Keys that a collection can act on

A relist makes the key of a backend service from its name, and a collection makes a name
from the key again. The key function reads more names than the namer gives: the text before
the port may stand anywhere, anything may follow the port, and the port may be too large or
have zeros in front of it.
-/
namespace IngressGce
open Prog

/-- What the key function reads in a name: the first numeral after the text that precedes a
port. -/
structure Numeral (name before digits after : Str) : Prop where
  text : name = before ++ ("k8s-be-".toList ++ (digits ++ after))
  ne_nil : digits ≠ []
  isDigit : ∀ c ∈ digits, c.isDigit = true
  ends : ∀ c ∈ after.head?, c.isDigit = false
  first : ∀ before' c after', name = before' ++ ("k8s-be-".toList ++ (c :: after')) → c.isDigit = true →
    before.length ≤ before'.length

namespace Namer

theorem span_digits (t : Str) :
    t.takeWhile Char.isDigit ++ t.dropWhile Char.isDigit = t ∧ (∀ c ∈ t.takeWhile Char.isDigit, c.isDigit = true) ∧
      ∀ c ∈ (t.dropWhile Char.isDigit).head?, c.isDigit = false := by
  refine ⟨List.takeWhile_append_dropWhile,List.all_eq_true.mp List.all_takeWhile,?_⟩
  intro c hc
  have hhead := List.head?_dropWhile_not Char.isDigit t
  rw [Option.mem_def.mp hc] at hhead
  simpa using hhead

theorem exists_of_matchBackend {s digits : Str} (h : matchBackend s = some digits) :
    ∃ after, s = "k8s-be-".toList ++ (digits ++ after) ∧ digits ≠ [] ∧ (∀ c ∈ digits, c.isDigit = true) ∧
      ∀ c ∈ after.head?, c.isDigit = false := by
  unfold matchBackend at h
  split at h
  · rename_i hfront
    obtain ⟨t,rfl⟩ := hfront
    have hdrop : ("k8s-be-".toList ++ t).drop 7 = t := rfl
    rw [hdrop] at h
    split at h
    · cases h
    · rename_i hne
      obtain rfl := Option.some.inj h
      obtain ⟨htext,hdigits,hends⟩ := span_digits t
      exact ⟨t.dropWhile Char.isDigit,by rw [htext],hne,hdigits,hends⟩
  · cases h

theorem matchBackend_isSome {c : Char} (hc : c.isDigit = true) (after : Str) :
    ∃ digits, matchBackend ("k8s-be-".toList ++ (c :: after)) = some digits := by
  obtain ⟨htext,hdigits,hends⟩ := span_digits (c :: after)
  have hne : (c :: after).takeWhile Char.isDigit ≠ [] := by
    rw [List.takeWhile_cons_of_pos hc]
    exact List.cons_ne_nil _ _
  rw [← htext]
  exact ⟨_,matchBackend_of_digits hne hdigits hends⟩

theorem numeral_iff_of_match {s found digits : Str} (hmatch : matchBackend s = some found) :
    (∃ before after, Numeral s before digits after) ↔ found = digits := by
  obtain ⟨rest,htext,hne,hdigits,hends⟩ := exists_of_matchBackend hmatch
  constructor
  · rintro ⟨before,after,h⟩
    obtain ⟨d,ds,rfl⟩ := List.exists_cons_of_ne_nil hne
    have hbefore : before = [] :=
      List.length_eq_zero_iff.mp (Nat.le_zero.mp (h.first [] d (ds ++ rest) htext (hdigits d List.mem_cons_self)))
    subst hbefore
    rw [h.text] at hmatch
    exact Option.some.inj (hmatch.symm.trans (matchBackend_of_digits h.ne_nil h.isDigit h.ends))
  · rintro rfl
    exact ⟨[],rest,htext,hne,hdigits,hends,fun _ _ _ _ _ => Nat.zero_le _⟩

theorem numeral_cons_iff {c : Char} {cs digits : Str} (hmatch : matchBackend (c :: cs) = none) :
    (∃ before after, Numeral (c :: cs) before digits after) ↔ ∃ before after, Numeral cs before digits after := by
  have hlater : ∀ before d after, c :: cs = before ++ ("k8s-be-".toList ++ (d :: after)) → d.isDigit = true →
      ∃ tail, before = c :: tail ∧ cs = tail ++ ("k8s-be-".toList ++ (d :: after)) := by
    intro before d after htext hd
    cases before with
    | nil =>
      obtain ⟨found,hfound⟩ := matchBackend_isSome hd after
      rw [htext,List.nil_append,hfound] at hmatch
      cases hmatch
    | cons b tail =>
      obtain ⟨rfl,hcs⟩ := List.cons.inj htext
      exact ⟨tail,rfl,hcs⟩
  constructor
  · rintro ⟨before,after,h⟩
    obtain ⟨d,ds,rfl⟩ := List.exists_cons_of_ne_nil h.ne_nil
    obtain ⟨tail,rfl,hcs⟩ := hlater before d (ds ++ after) h.text (h.isDigit d List.mem_cons_self)
    refine ⟨tail,after,hcs,h.ne_nil,h.isDigit,h.ends,?_⟩
    intro before' e after' htext he
    exact Nat.le_of_succ_le_succ (h.first (c :: before') e after' (congrArg (c :: ·) htext) he)
  · rintro ⟨before,after,h⟩
    refine ⟨c :: before,after,congrArg (c :: ·) h.text,h.ne_nil,h.isDigit,h.ends,?_⟩
    intro before' d after' htext hd
    obtain ⟨tail,rfl,hcs⟩ := hlater before' d after' htext hd
    exact Nat.succ_le_succ (h.first tail d after' hcs hd)

theorem findBackend_eq_some_iff {name digits : Str} :
    findBackend name = some digits ↔ ∃ before after, Numeral name before digits after := by
  induction name with
  | nil =>
    constructor
    · nofun
    · rintro ⟨before,after,h⟩
      have htext := congrArg List.length h.text
      simp at htext
  | cons c cs ih =>
    rw [findBackend]
    cases hmatch : matchBackend (c :: cs) with
    | some found => rw [numeral_iff_of_match hmatch,Option.some.injEq]
    | none => rw [numeral_cons_iff hmatch,ih]

theorem numeral_start {name before digits after rest : Str} (h : Numeral name before digits after)
    (htext : name = "k8s-be-".toList ++ (digits ++ rest)) : before = [] ∧ after = rest := by
  obtain ⟨d,ds,hds⟩ := List.exists_cons_of_ne_nil h.ne_nil
  have hfirst : before.length ≤ 0 := by
    refine h.first [] d (ds ++ rest) ?_ (h.isDigit d (hds ▸ List.mem_cons_self))
    rw [htext,hds]
    rfl
  have hbefore : before = [] := List.length_eq_zero_iff.mp (Nat.le_zero.mp hfirst)
  have hsame := h.text
  rw [htext,hbefore,List.nil_append] at hsame
  exact ⟨hbefore,(List.append_cancel_left (List.append_cancel_left hsame)).symm⟩

/-- The names that the key function accepts, whose numeral has to fit a machine integer. -/
theorem backendKey_eq_ok_iff {n : Namer} {name key : Str} :
    n.backendKey name = .ok key ↔
      n.nameBelongsToCluster name = true ∧ Decimal.value key < 2 ^ 63 ∧ ∃ before after, Numeral name before key after := by
  rw [backendKey]
  split
  · rename_i hcluster
    rw [← findBackend_eq_some_iff,backendPort]
    cases hfind : findBackend name with
    | none => simp
    | some digits =>
      obtain ⟨before,after,hnumeral⟩ := findBackend_eq_some_iff.mp hfind
      have hatoi := Decimal.atoi_digits_iff hnumeral.ne_nil hnumeral.isDigit
      dsimp only
      split
      · rename_i number hnumber
        rw [hnumber] at hatoi
        constructor
        · intro h
          obtain rfl := Except.ok.inj h
          exact ⟨hcluster,hatoi.mp rfl,rfl⟩
        · rintro ⟨_,_,heq⟩
          rw [Option.some.inj heq]
      · rename_i number e hnumber
        rw [hnumber] at hatoi
        constructor
        · intro h
          cases h
        · rintro ⟨_,hvalue,heq⟩
          obtain rfl := Option.some.inj heq
          cases hatoi.mpr hvalue
  · rename_i hcluster
    constructor
    · intro h
      cases h
    · exact fun h => absurd h.1 hcluster

def tag (n : Namer) : Str := if n.clusterName = [] then [] else clusterNameDelimiter ++ n.clusterName

/-- The numeral in an accepted name is where the namer puts it and as the namer writes it. -/
structure Given (n : Namer) (name before digits after : Str) : Prop where
  start : before = []
  small : Decimal.value digits ≤ 65535
  canonical : Backends.portKey (Decimal.value digits) = digits
  tagged : after = n.tag
  fits : truncate name = name

variable {n : Namer} {name before digits after : Str}

theorem Given.backend (hnumeral : Numeral name before digits after) (h : Given n name before digits after) :
    name = n.backend (Decimal.value digits) := by
  have htext : name = "k8s-be-".toList ++ (digits ++ n.tag) := by
    rw [hnumeral.text,h.start,h.tagged,List.nil_append]
  have hcanonical : Decimal.itoa (Decimal.value digits) = digits := h.canonical
  unfold Namer.backend decorateName
  rw [hcanonical]
  by_cases hn : n.clusterName = []
  · rw [if_pos hn]
    rw [tag,if_pos hn,List.append_nil] at htext
    exact htext
  · rw [if_neg hn]
    rw [tag,if_neg hn] at htext
    have hlong : backendPrefix ++ '-' :: digits ++ (clusterNameDelimiter ++ n.clusterName) = name := by
      rw [htext,List.append_assoc]
      rfl
    rw [hlong,h.fits]

theorem eq_clusterName_of_belongs {s rest : Str} (hs : ¬clusterNameDelimiter <:+: s) (hlast : s.getLast? ≠ some '-')
    (h : n.nameBelongsToCluster (s ++ (clusterNameDelimiter ++ rest)) = true) : rest = n.clusterName := by
  rw [nameBelongsToCluster,split_append_delimiter hs hlast] at h
  split at h
  · split at h
    · rename_i heq
      exact absurd (List.cons.inj heq).2 (Str.splitFrom_ne_nil _ _ _)
    · rename_i uid heq
      have hone : Str.split clusterNameDelimiter rest = [uid] := (List.cons.inj heq).2
      have hrest : ¬clusterNameDelimiter <:+: rest := by
        intro hinfix
        have htwo := Str.two_le_length_split hinfix (by decide)
        rw [hone] at htwo
        exact absurd htwo (by simp)
      rw [Str.split,Str.splitFrom_of_no_sep hrest] at hone
      rw [(List.cons.inj hone).1]
      exact of_decide_eq_true h
    · cases h
  · cases h

theorem Given.of_backend (hnumeral : Numeral name before digits after) (hcluster : n.nameBelongsToCluster name = true)
    {p : ℕ} (hp : p < 2 ^ 16) (hkey : Backends.portKey p = digits) (hname : name = n.backend p) :
    Given n name before digits after := by
  obtain rfl : Nat.toDigits 10 p = digits := hkey
  have hport : IsInt64 p := ⟨by omega,by omega⟩
  have hvalue : Decimal.value (Nat.toDigits 10 p) = p := Decimal.value_toDigits p
  have hlen : (Nat.toDigits 10 p).length ≤ 5 := (Nat.length_toDigits_le_iff (by omega) (by omega)).mpr (by omega)
  by_cases hn : n.clusterName = []
  · have htext : name = "k8s-be-".toList ++ (Nat.toDigits 10 p ++ []) := by
      rw [List.append_nil,hname]
      exact backend_of_no_uid hn
    obtain ⟨hbefore,hafter⟩ := numeral_start hnumeral htext
    refine ⟨hbefore,by omega,by rw [hvalue]; rfl,?_,if_neg ?_⟩
    · rw [hafter,tag,if_pos hn]
    · rw [htext,List.append_nil,List.length_append]
      change ¬62 < 7 + _
      omega
  · obtain ⟨rest,hsplit⟩ := backend_split hport hn
    have htext : name = "k8s-be-".toList ++ (Nat.toDigits 10 p ++ (clusterNameDelimiter ++ rest)) := hname.trans hsplit
    obtain ⟨hbefore,hafter⟩ := numeral_start hnumeral htext
    have hrest : rest = n.clusterName := by
      rw [htext,← List.append_assoc] at hcluster
      exact eq_clusterName_of_belongs (no_delimiter_in_backend p) (backend_getLast p) hcluster
    refine ⟨hbefore,by omega,by rw [hvalue]; rfl,?_,?_⟩
    · rw [hafter,hrest,tag,if_neg hn]
    · have hlong : n.backend p = truncate name := by
        rw [htext,hrest]
        unfold Namer.backend decorateName
        rw [if_neg hn,List.append_assoc]
        rfl
      rw [← hlong,hname]

end Namer

namespace Backends

/-- The collection reads the port in the key, and this port has the key and the name. -/
def Actionable (b : Backends) (name key : Str) : Prop :=
  ∃ p : ℕ, Decimal.parseUint 16 key = .ok p ∧ portKey p = key ∧ name = b.namer.backend p

/-- What is known after a round of a collection about the key of a name. A failure comes
from the cloud, no other backend service is deleted, and the key is off the record unless
its port is to be kept. -/
structure Handled (b : Backends) (svcPorts : List ServicePort) (name key : Str) (w : Pool) (r : Except GoError Unit)
    (w' : Pool) : Prop where
  reached : ∀ e, r = .error e → w.services.clock < w'.services.clock
  others : ∀ other, other ≠ name → w'.services.items other = w.services.items other
  settled : r = .ok () → (∃ port, b.Known svcPorts port ∧ portKey port = key) ∨ key ∉ w'.snapshotter

variable {b : Backends} {w : Pool} {name key : Str}

theorem delete_clock (b : Backends) (port : ℤ) (w : Pool) :
    Ensures (b.delete port) w (fun _ w' => w'.services.clock = w.services.clock + 1) := by
  have hhealth : ∀ w₁ : Pool, w₁.services.clock = w.services.clock + 1 →
      Ensures (onHealth (b.healthChecker.delete port)) w₁ (fun _ w₂ => w₂.services.clock = w.services.clock + 1) := by
    intro w₁ hw₁
    rw [onHealth,ensures_onPart]
    exact (ensures_run _ _).mono fun _ _ _ => hw₁
  rw [delete,settle,ensures_bind]
  refine ignoringNotFound_ensures ?_
  rw [ensures_bind]
  refine ignoringNotFound_ensures ?_
  rw [onServices,ensures_onPart]
  have hcall : Ensures (Store.deleteObject (b.namer.backend port)) w.services (fun _ s => s.clock = w.services.clock + 1) :=
    Store.call_clock _
  refine hcall.mono ?_
  intro r s hs
  refine ⟨fun _ => ?_,fun e _ _ => ⟨fun _ => hs,fun _ _ _ => hs⟩⟩
  rw [afterwards_ok]
  exact (hhealth _ hs).mono fun r' w₂ hw₂ => ⟨fun _ => hw₂,fun _ _ _ => hw₂⟩

theorem Actionable.handled (h : b.Actionable name key) (svcPorts : List ServicePort) (w : Pool) :
    Ensures (b.collect (svcPorts.map (fun p => portKey p.port)) key) w (b.Handled svcPorts name key w) := by
  obtain ⟨p,hparse,hkey,rfl⟩ := h
  simp only [collect,hparse]
  rw [ensures_ite]
  refine ⟨fun hknown => ⟨nofun,fun _ _ => rfl,fun _ => Or.inl ⟨p,known_iff.mp hknown,hkey⟩⟩,fun _ => ?_⟩
  refine ignoringNotFound_ensures (((b.delete_ensures p w).and (b.delete_clock p w)).mono ?_)
  rintro r w' ⟨hdeleted,hclock⟩
  have hothers : ∀ other, other ≠ b.namer.backend p → w'.services.items other = w.services.items other :=
    fun other hne => (hdeleted.items_of_ne hne).1
  refine ⟨?_,fun e _ _ => ⟨fun _ _ => by omega,hothers,nofun⟩⟩
  rintro (rfl | rfl)
  · refine ⟨nofun,hothers,fun _ => Or.inr ?_⟩
    rw [hdeleted.untracked rfl,hkey]
    simp
  · exact absurd rfl hdeleted.found

/-- Whatever key a relist makes of the name, a collection can act on it. -/
def Collectable (b : Backends) (name : Str) : Prop :=
  ∀ key, b.namer.backendKey name = .ok key → b.Actionable name key ∧
    ∀ (svcPorts : List ServicePort) (w : Pool),
      Ensures (b.collect (svcPorts.map (fun p => portKey p.port)) key) w (b.Handled svcPorts name key w)

/-- A collection can act on the key of a name exactly if the name, provided that the key
function accepts it, has its numeral at the start, without zeros in front, with at most 16
bits, and with nothing but the UID of the cluster after it, which is not cut. -/
theorem collectable_iff (b : Backends) (name : Str) :
    b.Collectable name ↔ ∀ before digits after, Numeral name before digits after →
      b.namer.nameBelongsToCluster name = true → Decimal.value digits < 2 ^ 63 →
      Namer.Given b.namer name before digits after := by
  constructor
  · intro h before digits after hnumeral hcluster hvalue
    obtain ⟨⟨p,hparse,hkey,hname⟩,_⟩ := h digits (Namer.backendKey_eq_ok_iff.mpr ⟨hcluster,hvalue,before,after,hnumeral⟩)
    exact Namer.Given.of_backend hnumeral hcluster (Decimal.parseUint_lt hparse) hkey hname
  · intro h key hkey
    obtain ⟨hcluster,hvalue,before,after,hnumeral⟩ := Namer.backendKey_eq_ok_iff.mp hkey
    have hgiven := h before key after hnumeral hcluster hvalue
    have hparse : Decimal.parseUint 16 key = .ok (Decimal.value key) := by
      have hdigits : Nat.toDigits 10 (Decimal.value key) = key := hgiven.canonical
      have hsmall := hgiven.small
      rw [← hdigits,Decimal.value_toDigits]
      exact Decimal.parseUint_toDigits (by omega)
    have haction : b.Actionable name key := ⟨Decimal.value key,hparse,hgiven.canonical,hgiven.backend hnumeral⟩
    exact ⟨haction,haction.handled⟩

/-- No collection gets past a port with more than 16 bits. For a port with a zero in front
the backend service of another name is deleted, and the key stays on record. -/
theorem stray_keys :
    (onePool.namer.backendKey "k8s-be-70000--uid".toList = .ok "70000".toList ∧
      ¬onePool.Collectable "k8s-be-70000--uid".toList ∧
      ∀ (o : Iteration Str) (svcPorts : List ServicePort) (w : Pool), "70000".toList ∈ w.snapshotter →
        Ensures (onePool.gc o svcPorts) w (fun r _ => r ≠ .ok ())) ∧
    (onePool.namer.backendKey "k8s-be-080--uid".toList = .ok "080".toList ∧
      ¬onePool.Collectable "k8s-be-080--uid".toList ∧
      ∀ w : Pool, "080".toList ∈ w.snapshotter → Ensures (onePool.collect [] "080".toList) w (fun r w' =>
        r = .ok () → w'.services.items "k8s-be-80--uid".toList = none ∧ "080".toList ∈ w'.snapshotter)) := by
  have hlarge : onePool.namer.backendKey "k8s-be-70000--uid".toList = .ok "70000".toList := by decide
  have hzero : onePool.namer.backendKey "k8s-be-080--uid".toList = .ok "080".toList := by decide
  have herror : Decimal.parseUint 16 "70000".toList = .error .outOfRange := by decide
  have heighty : Decimal.parseUint 16 "080".toList = .ok 80 := by decide
  refine ⟨⟨hlarge,?_,?_⟩,hzero,?_,?_⟩
  · intro h
    obtain ⟨⟨p,hparse,_⟩,_⟩ := h _ hlarge
    rw [herror] at hparse
    cases hparse
  · intro o svcPorts w hkey
    refine (onePool.gc_ensures o svcPorts w).mono ?_
    rintro r w' ⟨_,hclean⟩ hok
    obtain ⟨p,hparse,_⟩ := hclean hok _ hkey
    rw [herror] at hparse
    cases hparse
  · intro h
    obtain ⟨⟨p,hparse,hkey,_⟩,_⟩ := h _ hzero
    obtain rfl : 80 = p := Except.ok.inj (heighty.symm.trans hparse)
    exact absurd hkey (by decide)
  · intro w hkey
    refine (collect_ensures [] _).mono ?_
    rintro r w' (⟨_,hknown⟩ | ⟨p,hparse,_,hdeleted⟩) hok
    · obtain ⟨p,hparse,hknown⟩ := hknown hok
      obtain rfl : 80 = p := Except.ok.inj (heighty.symm.trans hparse)
      simp [Known,onePool] at hknown
    · obtain rfl : 80 = p := Except.ok.inj (heighty.symm.trans hparse)
      have hname : onePool.namer.backend 80 = "k8s-be-80--uid".toList := by decide
      refine ⟨hname ▸ (hdeleted.gone hok).1,?_⟩
      rw [hdeleted.untracked hok]
      exact List.mem_filter.mpr ⟨hkey,by decide⟩

end Backends
end IngressGce
