import IngressGce.Naming.LoadBalancerNames

/-! # Reading the UID back from a name

`parseName` takes what follows the last delimiter for the UID. Truncation may have cut
into it, and without a UID the name of the Ingress may have a delimiter of its own.
-/
namespace IngressGce

namespace Str

theorem length_consHead (c : Char) {ts : List Str} (h : ts ≠ []) : (consHead c ts).length = ts.length := by
  cases ts with
  | nil => exact absurd rfl h
  | cons t ts => rfl

theorem two_le_length_split {sep s : Str} (h : sep <:+: s) (hsep : sep ≠ []) : 2 ≤ (split sep s).length := by
  unfold split
  induction s with
  | nil => exact absurd (List.infix_nil.mp h) hsep
  | cons c cs ih =>
    rw [splitFrom]
    split
    · have hpos := List.length_pos_iff.mpr (splitFrom_ne_nil sep (sep.length - 1) cs)
      rw [List.length_cons]
      omega
    · rename_i hc
      rw [length_consHead c (splitFrom_ne_nil sep 0 cs)]
      exact ih ((List.infix_cons_iff.mp h).resolve_left hc)

theorem length_split_of_no_sep {sep s : Str} (h : ¬sep <:+: s) : (split sep s).length = 1 := by
  rw [split,splitFrom_of_no_sep h,List.length_singleton]

theorem lastToken_of_no_sep {sep s : Str} (h : ¬sep <:+: s) : lastToken sep s = s := by
  rw [lastToken,split,splitFrom_of_no_sep h]
  rfl

/-- A character that no separator has is appended to the last token. -/
theorem splitFrom_concat {sep : Str} {c : Char} (hsep : sep ≠ []) (hc : c ∉ sep) (s : Str) {skip : ℕ}
    (hskip : skip ≤ s.length) :
    ∃ init last, splitFrom sep skip s = init ++ [last] ∧ splitFrom sep skip (s ++ [c]) = init ++ [last ++ [c]] := by
  induction s generalizing skip with
  | nil =>
    obtain rfl : skip = 0 := Nat.le_zero.mp hskip
    refine ⟨[],[],rfl,?_⟩
    rw [List.nil_append,splitFrom]
    split
    · rename_i hpre
      cases sep with
      | nil => exact absurd rfl hsep
      | cons d ds => exact absurd (List.cons_prefix_cons.mp hpre).1.symm (fun h => hc (h ▸ List.mem_cons_self))
    · rfl
  | cons d ds ih =>
    cases skip with
    | succ skip => exact ih (by simpa using hskip)
    | zero =>
      have hpre : sep <+: d :: (ds ++ [c]) ↔ sep <+: d :: ds := by
        rw [← List.cons_append,List.prefix_concat_iff]
        refine or_iff_right ?_
        rintro rfl
        exact hc (by simp)
      rw [List.cons_append,splitFrom,splitFrom]
      by_cases h : sep <+: d :: ds
      · have hlen : sep.length - 1 ≤ ds.length := by
          have hle := h.length_le
          rw [List.length_cons] at hle
          omega
        obtain ⟨init,last,hs,hsc⟩ := ih hlen
        rw [if_pos h,if_pos (hpre.mpr h),hs,hsc]
        exact ⟨[] :: init,last,rfl,rfl⟩
      · obtain ⟨init,last,hs,hsc⟩ := ih (Nat.zero_le _)
        rw [if_neg h,if_neg (fun hc => h (hpre.mp hc)),hs,hsc]
        cases init with
        | nil => exact ⟨[],d :: last,rfl,rfl⟩
        | cons t ts => exact ⟨(d :: t) :: ts,last,rfl,rfl⟩

theorem lastToken_concat {sep : Str} {c : Char} (hsep : sep ≠ []) (hc : c ∉ sep) (s : Str) :
    lastToken sep (s ++ [c]) = lastToken sep s ++ [c] := by
  obtain ⟨init,last,hs,hsc⟩ := splitFrom_concat hsep hc s (Nat.zero_le _)
  unfold lastToken split
  rw [hs,hsc,List.getLast?_concat,List.getLast?_concat]
  rfl

theorem prefix_append_iff_of_le {sep v : Str} (h : sep.length ≤ v.length) (x : Str) : sep <+: v ++ x ↔ sep <+: v :=
  ⟨fun hp => List.prefix_of_prefix_length_le hp (List.prefix_append v x) h,fun hp => hp.trans (List.prefix_append v x)⟩

/-- The text `v` goes up to the last separator, so that whatever follows it without a
separator is the last token. -/
structure UpToLast (sep : Str) (skip : ℕ) (v : Str) (init : List Str) : Prop where
  skipped : skip ≤ v.length
  single : init = [] → v.length = skip
  found : init ≠ [] → sep.length ≤ v.length
  split : ∀ x, ¬sep <:+: x → splitFrom sep skip (v ++ x) = init ++ [x]

theorem UpToLast.nil (sep : Str) : UpToLast sep 0 [] [] where
  skipped := Nat.le_refl 0
  single := fun _ => rfl
  found := fun h => absurd rfl h
  split := fun _ hx => splitFrom_of_no_sep hx

theorem UpToLast.skip {sep v : Str} {init : List Str} {skip : ℕ} (h : UpToLast sep skip v init) (c : Char) :
    UpToLast sep (skip + 1) (c :: v) init where
  skipped := Nat.succ_le_succ h.skipped
  single := fun hinit => congrArg Nat.succ (h.single hinit)
  found := fun hinit => (h.found hinit).trans (Nat.le_succ _)
  split := h.split

theorem UpToLast.sep {sep v : Str} {init : List Str} (h : UpToLast sep (sep.length - 1) v init) {c : Char}
    (hlength : sep.length ≤ (c :: v).length) (hsep : sep <+: c :: v) : UpToLast sep 0 (c :: v) ([] :: init) where
  skipped := Nat.zero_le _
  single := fun hinit => absurd hinit (List.cons_ne_nil _ _)
  found := fun _ => hlength
  split := by
    intro x hx
    have hsep' : sep <+: c :: (v ++ x) := (prefix_append_iff_of_le hlength x).mpr hsep
    rw [List.cons_append,splitFrom,if_pos hsep',h.split x hx,List.cons_append]

theorem UpToLast.char {sep v t : Str} {init : List Str} (h : UpToLast sep 0 v (t :: init)) {c : Char}
    (hsep : ¬sep <+: c :: v) : UpToLast sep 0 (c :: v) ((c :: t) :: init) where
  skipped := Nat.zero_le _
  single := fun hinit => absurd hinit (List.cons_ne_nil _ _)
  found := fun _ => (h.found (List.cons_ne_nil _ _)).trans (Nat.le_succ _)
  split := by
    intro x hx
    have hlength : sep.length ≤ (c :: v).length := (h.found (List.cons_ne_nil _ _)).trans (Nat.le_succ _)
    have hsep' : ¬sep <+: c :: (v ++ x) := fun hp => hsep ((prefix_append_iff_of_le hlength x).mp hp)
    rw [List.cons_append,splitFrom,if_neg hsep',h.split x hx]
    rfl

theorem exists_upToLast {sep : Str} (hsep : sep ≠ []) (s : Str) {skip : ℕ} (hskip : skip ≤ s.length) :
    ∃ v init last, s = v ++ last ∧ ¬sep <:+: last ∧ UpToLast sep skip v init := by
  have hpos : 0 < sep.length := List.length_pos_iff.mpr hsep
  -- along the recursion of `splitFrom`
  induction s generalizing skip with
  | nil =>
    obtain rfl : skip = 0 := Nat.le_zero.mp hskip
    exact ⟨[],[],[],rfl,fun h => hsep (List.infix_nil.mp h),.nil sep⟩
  | cons c cs ih =>
    cases skip with
    | succ skip =>
      obtain ⟨v,init,last,rfl,hlast,h⟩ := ih (Nat.le_of_succ_le_succ hskip)
      exact ⟨c :: v,init,last,rfl,hlast,h.skip c⟩
    | zero =>
      by_cases hpre : sep <+: c :: cs
      · have hle : sep.length ≤ cs.length + 1 := hpre.length_le
        obtain ⟨v,init,last,rfl,hlast,h⟩ := ih (Nat.sub_le_of_le_add hle)
        have hlength : sep.length ≤ (c :: v).length := Nat.le_add_of_sub_le h.skipped
        exact ⟨c :: v,[] :: init,last,rfl,hlast,h.sep hlength ((prefix_append_iff_of_le hlength last).mp hpre)⟩
      · obtain ⟨v,init,last,rfl,hlast,h⟩ := ih (Nat.zero_le _)
        cases init with
        | nil =>
          obtain rfl : v = [] := List.length_eq_zero_iff.mp (h.single rfl)
          exact ⟨[],[],c :: last,rfl,fun hin => (List.infix_cons_iff.mp hin).elim hpre hlast,.nil sep⟩
        | cons t init =>
          have hpre' : ¬sep <+: c :: v := fun hp => hpre (hp.trans (List.prefix_append (c :: v) last))
          exact ⟨c :: v,(c :: t) :: init,last,rfl,hlast,h.char hpre'⟩

theorem lastToken_of_upToLast {sep v x : Str} {init : List Str} (h : UpToLast sep 0 v init) (hx : ¬sep <:+: x) :
    lastToken sep (v ++ x) = x := by
  rw [lastToken,Str.split,h.split x hx,List.getLast?_concat,Option.getD_some]

theorem lastToken_suffix {sep : Str} (hsep : sep ≠ []) (s : Str) : lastToken sep s <:+ s := by
  obtain ⟨v,init,last,rfl,hlast,h⟩ := exists_upToLast hsep s (Nat.zero_le _)
  rw [lastToken_of_upToLast h hlast]
  exact List.suffix_append v last

/-- Of a text that is cut after its last separator, what is left of the last token is the
last token. -/
theorem lastToken_take {sep s : Str} (hsep : sep ≠ []) (h : sep <:+: s) {k : ℕ}
    (hk : s.length ≤ k + (lastToken sep s).length) :
    sep <:+: s.take k ∧ lastToken sep (s.take k) = (lastToken sep s).take (k + (lastToken sep s).length - s.length) := by
  obtain ⟨v,init,last,rfl,hlast,hv⟩ := exists_upToLast hsep s (Nat.zero_le _)
  rw [lastToken_of_upToLast hv hlast,List.length_append] at hk ⊢
  have hcut : (v ++ last).take k = v ++ last.take (k + last.length - (v.length + last.length)) := by
    rw [Nat.add_sub_add_right,List.take_append,List.take_of_length_le (Nat.le_of_add_le_add_right hk)]
  have hno : ¬sep <:+: last.take (k + last.length - (v.length + last.length)) := fun hin =>
    hlast (hin.trans (List.take_prefix _ last).isInfix)
  rw [hcut]
  refine ⟨?_,lastToken_of_upToLast hv hno⟩
  -- the cut leaves as many tokens as there are
  by_contra hnone
  have hone := length_split_of_no_sep hnone
  have htwo := two_le_length_split h hsep
  rw [Str.split,hv.split _ hno,List.length_append,List.length_singleton] at hone
  rw [Str.split,hv.split _ hlast,List.length_append,List.length_singleton] at htwo
  omega

theorem infix_concat_iff {sep : Str} {c : Char} (hc : c ∉ sep) (s : Str) : sep <:+: s ++ [c] ↔ sep <:+: s := by
  constructor
  · intro h
    rcases List.infix_concat_iff.mp h with hsuffix | h
    · rcases List.suffix_concat_iff.mp hsuffix with rfl | ⟨t,rfl,_⟩
      · exact List.nil_infix
      · exact absurd (by simp) hc
    · exact h
  · exact fun h => h.trans (List.prefix_append s [c]).isInfix

/-- Text in which no separator begins is put before the first token. -/
theorem splitFrom_append_left {sep s u : Str} (h : ∀ t, t <:+ s → t ≠ [] → ¬sep <+: t ++ u) :
    ∃ t ts, splitFrom sep 0 u = t :: ts ∧ splitFrom sep 0 (s ++ u) = (s ++ t) :: ts := by
  induction s with
  | nil =>
    cases hu : splitFrom sep 0 u with
    | nil => exact absurd hu (splitFrom_ne_nil sep 0 u)
    | cons t ts => exact ⟨t,ts,rfl,hu⟩
  | cons c cs ih =>
    have hpre : ¬sep <+: c :: (cs ++ u) := h (c :: cs) List.suffix_rfl (by simp)
    obtain ⟨t,ts,hu,hcs⟩ := ih fun t ht => h t (ht.trans (List.suffix_cons c cs))
    refine ⟨t,ts,hu,?_⟩
    rw [List.cons_append,splitFrom,if_neg hpre,hcs,consHead,List.cons_append]

theorem infix_append_left_iff {sep s u : Str} (h : ∀ t, t <:+ s → t ≠ [] → ¬sep <+: t ++ u) :
    sep <:+: s ++ u ↔ sep <:+: u := by
  induction s with
  | nil => exact Iff.rfl
  | cons c cs ih =>
    have hpre : ¬sep <+: c :: (cs ++ u) := h (c :: cs) List.suffix_rfl (by simp)
    rw [List.cons_append,List.infix_cons_iff,or_iff_right hpre]
    exact ih fun t ht => h t (ht.trans (List.suffix_cons c cs))

theorem lastToken_append_left {sep s u : Str} (h : ∀ t, t <:+ s → t ≠ [] → ¬sep <+: t ++ u) (hsep : sep ≠ [])
    (hu : sep <:+: u) : lastToken sep (s ++ u) = lastToken sep u := by
  obtain ⟨t,ts,htoken,happend⟩ := splitFrom_append_left h
  have hlen := two_le_length_split hu hsep
  unfold lastToken split at *
  rw [htoken] at hlen
  rw [htoken,happend]
  cases ts with
  | nil => simp at hlen
  | cons t' ts => rw [List.getLast?_cons_cons,List.getLast?_cons_cons]

end Str

/-- No delimiter begins in a text without one, and none does where it ends in no dash or
where no dash follows. -/
theorem delimiter_not_across {s u : Str} (hs : ¬clusterNameDelimiter <:+: s)
    (h : s.getLast? ≠ some '-' ∨ u.head? ≠ some '-') : ∀ t, t <:+ s → t ≠ [] → ¬clusterNameDelimiter <+: t ++ u := by
  intro t ht hne hpre
  replace hpre : ['-','-'] <+: t ++ u := hpre
  match t with
  | [] => exact hne rfl
  | [c] =>
    cases u with
    | nil => simp at hpre
    | cons d ds =>
      obtain ⟨hc,hpre⟩ := List.cons_prefix_cons.mp hpre
      obtain ⟨hd,_⟩ := List.cons_prefix_cons.mp hpre
      subst hc hd
      rcases h with h | h
      · obtain ⟨init,rfl⟩ := ht
        exact h (by simp)
      · exact h rfl
  | c :: d :: rest =>
    obtain ⟨hc,hpre⟩ := List.cons_prefix_cons.mp hpre
    obtain ⟨hd,_⟩ := List.cons_prefix_cons.mp hpre
    subst hc hd
    exact hs (List.IsInfix.trans ⟨[],rest,rfl⟩ ht.isInfix)

/-- The text before the first delimiter is the first token. -/
theorem split_append_delimiter {s u : Str} (hs : ¬clusterNameDelimiter <:+: s) (hlast : s.getLast? ≠ some '-') :
    Str.split clusterNameDelimiter (s ++ (clusterNameDelimiter ++ u)) = s :: Str.split clusterNameDelimiter u := by
  obtain ⟨t,ts,htoken,happend⟩ := Str.splitFrom_append_left
    (delimiter_not_across (u := clusterNameDelimiter ++ u) hs (Or.inl hlast))
  have hempty : Str.splitFrom ['-','-'] 0 ([] ++ (['-','-'] ++ u)) = [] :: Str.splitFrom ['-','-'] 0 u :=
    Str.splitFrom_append_of_not_mem (by decide) u
  obtain ⟨rfl,rfl⟩ := List.cons.inj (hempty.symm.trans htoken)
  rw [Str.split,happend,List.append_nil]
  rfl

@[ext] structure NameComponents where
  clusterName : Str
  resource : Str
  metadata : Str
  deriving DecidableEq

/-- The metadata is never set. -/
def parseName (name : Str) : NameComponents :=
  let l := Str.split clusterNameDelimiter name
  let c := Str.split "-".toList name
  { clusterName := if 2 ≤ l.length then l.getLast?.getD [] else []
    resource := if 2 ≤ c.length then c.getD 1 [] else []
    metadata := [] }

theorem parseName_of_delimiter {name : Str} (h : clusterNameDelimiter <:+: name) :
    (parseName name).clusterName = Str.lastToken clusterNameDelimiter name :=
  if_pos (Str.two_le_length_split h (by decide))

theorem parseName_of_no_delimiter {name : Str} (h : ¬clusterNameDelimiter <:+: name) :
    (parseName name).clusterName = [] := by
  apply if_neg
  rw [Str.length_split_of_no_sep h]
  omega

namespace Namer

/-- The name is tagged with the UID of this cluster. -/
def nameBelongsToCluster (n : Namer) (name : Str) : Bool :=
  if "k8s-".toList <+: name then
    match Str.split clusterNameDelimiter name with
    | [_] => n.clusterName = []
    | [_,uid] => uid = n.clusterName
    | _ => false
  else false

/-- A name with one delimiter belongs to the cluster whose UID follows it. -/
theorem nameBelongsToCluster_append {n : Namer} {s u : Str} (hk8s : "k8s-".toList <+: s)
    (hs : ¬clusterNameDelimiter <:+: s) (hlast : s.getLast? ≠ some '-') (hu : ¬clusterNameDelimiter <:+: u) :
    n.nameBelongsToCluster (s ++ (clusterNameDelimiter ++ u)) = decide (u = n.clusterName) := by
  have hsplit : Str.split clusterNameDelimiter (s ++ (clusterNameDelimiter ++ u)) = [s,u] := by
    rw [split_append_delimiter hs hlast,Str.split,Str.splitFrom_of_no_sep hu]
  rw [nameBelongsToCluster,if_pos (hk8s.trans (List.prefix_append s _)),hsplit]

/-- A name without a delimiter belongs to the cluster without a UID. -/
theorem nameBelongsToCluster_of_no_delimiter {n : Namer} {s : Str} (hk8s : "k8s-".toList <+: s)
    (hs : ¬clusterNameDelimiter <:+: s) : n.nameBelongsToCluster s = decide (n.clusterName = []) := by
  rw [nameBelongsToCluster,if_pos hk8s,Str.split,Str.splitFrom_of_no_sep hs]

end Namer

theorem truncate_append_truncate (s t : Str) : truncate (s ++ truncate t) = truncate (s ++ t) := by
  by_cases h : nameLenLimit < t.length
  · have hlen : ∀ t' : Str, nameLenLimit < t'.length → nameLenLimit < (s ++ t').length := by
      intro t' ht'
      rw [List.length_append]
      omega
    have hcut : nameLenLimit < (truncate t).length := by
      by_contra hle
      exact absurd (length_truncate_le_iff.mp (Nat.not_lt.mp hle)) (Nat.not_le.mpr h)
    have htake : (s ++ truncate t).take nameLenLimit = (s ++ t).take nameLenLimit := by
      rw [List.take_append,List.take_append,truncate_take (Nat.sub_le _ _)]
    rw [truncate,if_pos (hlen _ hcut),htake,truncate,if_pos (hlen _ h)]
  · rw [show truncate t = t from if_neg h]

theorem IngressKey.ends {key : Str} (h : IngressKey key) : key ≠ [] ∧ '/' ∈ key ∧ key.getLast? ≠ some '-' := by
  obtain ⟨ns,name,rfl,_,_,hne,_,_,hlast⟩ := h.shape
  refine ⟨by simp,by simp,?_⟩
  rwa [List.getLast?_append_of_ne_nil _ (by simp),List.getLast?_cons,
    List.getLast?_eq_some_getLast hne,Option.getD_some,← List.getLast?_eq_some_getLast hne]

/-- A key that begins like a DNS label. -/
structure DNSKey (key : Str) : Prop extends IngressKey key where
  start : ∀ c ∈ key.head?, c ≠ '-' ∧ c ≠ '/'

theorem DNSKey.scrub_head {key : Str} (h : DNSKey key) : (Namer.scrub key).head? ≠ some '-' := by
  cases key with
  | nil => simp [Namer.scrub]
  | cons c cs =>
    obtain ⟨hdash,hslash⟩ := h.start c rfl
    simpa [Namer.scrub,hslash] using hdash

namespace Namer

/-- The component that tells the protocol of a forwarding rule. -/
def ruleResource : NamerProtocol → Str
  | .http => "fw".toList
  | .https => "fws".toList

def rulePrefixOf (protocol : NamerProtocol) : Str := "k8s-".toList ++ (ruleResource protocol ++ "-".toList)

/-- The name of a forwarding rule before it is truncated. -/
def longRule (n : Namer) (key : Str) (protocol : NamerProtocol) : Str := rulePrefixOf protocol ++ n.longName key

theorem forwardingRule_loadBalancer (n : Namer) (key : Str) (protocol : NamerProtocol) :
    forwardingRule (n.loadBalancer key) protocol = truncate (n.longRule key protocol) := by
  have hrule : ∀ lb, forwardingRule lb protocol = truncate (rulePrefixOf protocol ++ lb) := by
    intro lb
    cases protocol <;> rfl
  rw [hrule,longRule,loadBalancer,longName]
  split
  · rfl
  · exact truncate_append_truncate _ _

theorem delimiter_infix_scrub {s : Str} (h : SlashesApart s) :
    clusterNameDelimiter <:+: scrub s ↔ clusterNameDelimiter <:+: s := by
  induction s with
  | nil => exact Iff.rfl
  | cons c cs ih =>
    rw [List.infix_cons_iff,← ih (List.IsChain.of_cons h),← delimiter_prefix_scrub h]
    exact List.infix_cons_iff

/-- The UID that is read from a name that ends in the flattened key. -/
theorem parseName_scrub {key : Str} (hkey : DNSKey key) (protocol : NamerProtocol) :
    (parseName (rulePrefixOf protocol ++ scrub key)).clusterName =
      if clusterNameDelimiter <:+: key then scrub (Str.lastToken clusterNameDelimiter key) else [] := by
  have hacross := delimiter_not_across (s := rulePrefixOf protocol) (by cases protocol <;> decide)
    (Or.inr hkey.scrub_head)
  have hiff := (Str.infix_append_left_iff hacross).trans (delimiter_infix_scrub hkey.slashesApart)
  split
  · rename_i h
    rw [parseName_of_delimiter (hiff.mpr h),
      Str.lastToken_append_left hacross (by decide) ((delimiter_infix_scrub hkey.slashesApart).mpr h),
      lastToken_scrub hkey.slashesApart]
  · rename_i h
    exact parseName_of_no_delimiter fun hin => h (hiff.mp hin)

variable (n : Namer)

/-- How many characters of the name of a load balancer a truncated rule has. -/
def room (protocol : NamerProtocol) : ℕ := nameLenLimit - (rulePrefixOf protocol).length

/-- What is left of the flattened key if the cut is before the UID. -/
def keyLeft (key : Str) (protocol : NamerProtocol) : Str := (scrub key ++ "-".toList).take (room protocol)

/-- The UID is left by the cut. There is none, and no double dash of the key before the cut;
or only its last character is cut off and is the one that is appended; or the cut is before
the UID, and what it leaves after a double dash of the key happens to be the UID. -/
inductive LeftByTheCut (key : Str) (protocol : NamerProtocol) : Prop
  | noUID (hu : n.clusterName = []) (hkey : ¬clusterNameDelimiter <:+: (scrub key).take (room protocol))
  | lastZero (hlength : (n.longRule key protocol).length = nameLenLimit + 1) (hzero : n.clusterName.getLast? = some '0')
    (hslash : ¬(n.Tagged key ∧ '/' ∈ n.clusterName))
  | inKey (hcut : nameLenLimit + n.clusterName.length < (n.longRule key protocol).length)
    (hkey : clusterNameDelimiter <:+: keyLeft key protocol)
    (huid : n.clusterName = Str.lastToken clusterNameDelimiter (keyLeft key protocol) ++ alphaNumericChar)

/-- The name is not truncated, the key has no delimiter unless a UID follows it, and it
does not itself end in a UID with a slash, which would be flattened. A truncated name
has to leave the UID. -/
def Recoverable (key : Str) (protocol : NamerProtocol) : Prop :=
  if (n.longRule key protocol).length ≤ nameLenLimit then
    (n.clusterName = [] → ¬clusterNameDelimiter <:+: key) ∧ ¬(n.Tagged key ∧ '/' ∈ n.clusterName)
  else n.LeftByTheCut key protocol

theorem parseName_resource (body : Str) (protocol : NamerProtocol) :
    (parseName (rulePrefixOf protocol ++ body)).resource = ruleResource protocol := by
  have hsplit : Str.split "-".toList (rulePrefixOf protocol ++ body) =
      "k8s".toList :: ruleResource protocol :: Str.split "-".toList body := by
    have hrule : '-' ∉ ruleResource protocol := by cases protocol <;> decide
    have hafter : Str.splitFrom ['-'] 0 (ruleResource protocol ++ (['-'] ++ body)) =
        ruleResource protocol :: Str.splitFrom ['-'] 0 body := Str.splitFrom_append_of_not_mem hrule body
    have hbefore : Str.splitFrom ['-'] 0 ("k8s".toList ++ (['-'] ++ (ruleResource protocol ++ (['-'] ++ body)))) =
        "k8s".toList :: Str.splitFrom ['-'] 0 (ruleResource protocol ++ (['-'] ++ body)) :=
      Str.splitFrom_append_of_not_mem (by decide) _
    rw [hafter] at hbefore
    rw [rulePrefixOf,List.append_assoc,List.append_assoc]
    exact hbefore
  unfold parseName
  rw [hsplit]
  rfl

variable {n} {key : Str}

/-- What follows the last delimiter is not empty if the text does not end in a dash. -/
theorem lastToken_ne_nil {s : Str} (hs : s ≠ []) (h : s.getLast? ≠ some '-') :
    Str.lastToken clusterNameDelimiter s ≠ [] := by
  obtain ⟨init,c,rfl⟩ := List.eq_nil_or_concat s |>.resolve_left hs
  have hc : c ∉ clusterNameDelimiter := by
    intro hc
    obtain rfl : c = '-' := by simpa [clusterNameDelimiter] using hc
    exact h (by simp)
  rw [List.concat_eq_append,Str.lastToken_concat (by decide) hc]
  simp

theorem parseName_longRule_iff (hkey : DNSKey key) (protocol : NamerProtocol) :
    (parseName (n.longRule key protocol)).clusterName = n.clusterName ↔
      (n.clusterName = [] → ¬clusterNameDelimiter <:+: key) ∧ ¬(n.Tagged key ∧ '/' ∈ n.clusterName) := by
  obtain ⟨hne,hslash,hlast⟩ := hkey.toIngressKey.ends
  by_cases hu : n.clusterName = []
  · have huntagged : ¬n.Tagged key := fun h => h.1 hu
    rw [longRule,longName_of_no_uid hu,parseName_scrub hkey,hu]
    have htoken : scrub (Str.lastToken clusterNameDelimiter key) ≠ [] := by
      intro hnil
      exact lastToken_ne_nil hne hlast (List.map_eq_nil_iff.mp hnil)
    by_cases hin : clusterNameDelimiter <:+: key
    · simp [hin,htoken]
    · simp [hin,huntagged]
  · by_cases htag : n.Tagged key
    · rw [longRule,longName_of_tagged htag,parseName_scrub hkey,htag.2]
      by_cases hmem : '/' ∈ n.clusterName
      · have hscrub : scrub n.clusterName ≠ n.clusterName := by
          intro hsame
          rw [← hsame] at hmem
          exact no_slash_scrub n.clusterName hmem
        split <;> simp [hu,htag,hmem,hscrub,Ne.symm hu]
      · have hin : clusterNameDelimiter <:+: key := by
          by_contra hnone
          have hself := htag.2
          rw [Str.lastToken_of_no_sep hnone] at hself
          exact hmem (hself ▸ hslash)
        simp [hin,hu,hmem,scrub_of_no_slash hmem]
    · have hend : (rulePrefixOf protocol ++ scrub key).getLast? ≠ some '-' := by
        rw [List.getLast?_append_of_ne_nil _ (by simpa [scrub,Str.replaceAll] using hne)]
        exact hkey.toIngressKey.scrub_getLast
      have hname : n.longRule key protocol =
          (rulePrefixOf protocol ++ scrub key) ++ (clusterNameDelimiter ++ n.clusterName) := by
        simp [longRule,longName_of_untagged hu htag]
      have hin : clusterNameDelimiter <:+: n.longRule key protocol := by
        rw [hname]
        exact ⟨rulePrefixOf protocol ++ scrub key,n.clusterName,by simp⟩
      rw [parseName_of_delimiter hin,hname,lastToken_append_delimiter n hend]
      simp [hu,htag]

theorem parseName_concat_zero (s uid : Str) : (parseName (s ++ alphaNumericChar)).clusterName = uid ↔
    clusterNameDelimiter <:+: s ∧ uid = Str.lastToken clusterNameDelimiter s ++ alphaNumericChar ∨
      ¬clusterNameDelimiter <:+: s ∧ uid = [] := by
  have hzero : '0' ∉ clusterNameDelimiter := by decide
  have hiff : clusterNameDelimiter <:+: s ++ alphaNumericChar ↔ clusterNameDelimiter <:+: s :=
    Str.infix_concat_iff hzero s
  by_cases h : clusterNameDelimiter <:+: s
  · have htoken : Str.lastToken clusterNameDelimiter (s ++ alphaNumericChar) =
        Str.lastToken clusterNameDelimiter s ++ alphaNumericChar := Str.lastToken_concat (by decide) hzero s
    rw [parseName_of_delimiter (hiff.mpr h),htoken]
    simp [h,eq_comm]
  · rw [parseName_of_no_delimiter fun hin => h (hiff.mp hin)]
    simp [h,eq_comm]

theorem length_longRule (protocol : NamerProtocol) :
    (n.longRule key protocol).length = (rulePrefixOf protocol).length + (n.longName key).length :=
  List.length_append

theorem length_rulePrefixOf_lt (protocol : NamerProtocol) : (rulePrefixOf protocol).length < nameLenLimit := by
  cases protocol <;> decide

theorem head_longName (hkey : DNSKey key) : (n.longName key).head? ≠ some '-' := by
  have hne : scrub key ≠ [] := by simpa [scrub,Str.replaceAll] using hkey.toIngressKey.ends.1
  unfold longName
  split
  · exact hkey.scrub_head
  · rw [List.append_assoc,List.head?_append_of_ne_nil _ hne]
    exact hkey.scrub_head

theorem take_longRule (protocol : NamerProtocol) : (n.longRule key protocol).take nameLenLimit =
    rulePrefixOf protocol ++ (n.longName key).take (room protocol) := by
  rw [longRule,List.take_append,List.take_of_length_le (length_rulePrefixOf_lt protocol).le,room]

/-- What is read from a name that is cut in the name of the load balancer. -/
theorem parseName_cut_iff (hkey : DNSKey key) (protocol : NamerProtocol) :
    (parseName ((n.longRule key protocol).take nameLenLimit ++ alphaNumericChar)).clusterName = n.clusterName ↔
      clusterNameDelimiter <:+: (n.longName key).take (room protocol) ∧
        n.clusterName = Str.lastToken clusterNameDelimiter ((n.longName key).take (room protocol)) ++ alphaNumericChar ∨
      ¬clusterNameDelimiter <:+: (n.longName key).take (room protocol) ∧ n.clusterName = [] := by
  have hhead : ((n.longName key).take (room protocol)).head? ≠ some '-' := by
    rw [List.head?_take]
    split
    · simp
    · exact head_longName hkey
  have hacross := delimiter_not_across (s := rulePrefixOf protocol) (by cases protocol <;> decide) (Or.inr hhead)
  rw [parseName_concat_zero,take_longRule,Str.infix_append_left_iff hacross]
  apply or_congr_left
  apply and_congr_right
  intro hin
  rw [Str.lastToken_append_left hacross (by decide) hin]

/-- With a UID, and unless a slash in it has been flattened, the last token of the name of a
load balancer is the UID. -/
theorem lastToken_longName (hkey : DNSKey key) (hu : n.clusterName ≠ []) (hslash : ¬(n.Tagged key ∧ '/' ∈ n.clusterName)) :
    clusterNameDelimiter <:+: n.longName key ∧ Str.lastToken clusterNameDelimiter (n.longName key) = n.clusterName := by
  by_cases htag : n.Tagged key
  · have hmem : '/' ∉ n.clusterName := fun hmem => hslash ⟨htag,hmem⟩
    rw [longName_of_tagged htag,lastToken_scrub hkey.slashesApart,htag.2,scrub_of_no_slash hmem]
    refine ⟨(delimiter_infix_scrub hkey.slashesApart).mpr ?_,rfl⟩
    by_contra hnone
    have hself := htag.2
    rw [Str.lastToken_of_no_sep hnone] at hself
    exact hmem (hself ▸ hkey.toIngressKey.ends.2.1)
  · rw [longName_of_untagged hu htag,List.append_assoc,lastToken_append_delimiter n hkey.toIngressKey.scrub_getLast]
    exact ⟨⟨scrub key,n.clusterName,by simp⟩,rfl⟩

/-- A cut before the UID leaves a part of the key, and at most one dash after it. -/
theorem take_longName_of_cut {protocol : NamerProtocol}
    (hcut : nameLenLimit + n.clusterName.length < (n.longRule key protocol).length) :
    (n.longName key).take (room protocol) = keyLeft key protocol := by
  have hroom_pos := length_rulePrefixOf_lt protocol
  rw [length_longRule] at hcut
  have hroom : room protocol + n.clusterName.length < (n.longName key).length := by
    unfold room
    omega
  by_cases hshort : n.clusterName = [] ∨ n.Tagged key
  · have hname : n.longName key = scrub key := hshort.elim longName_of_no_uid longName_of_tagged
    rw [hname] at hroom ⊢
    rw [keyLeft,List.take_append_of_le_length (by omega)]
  · obtain ⟨hu,htag⟩ := not_or.mp hshort
    have hdashes : scrub key ++ clusterNameDelimiter ++ n.clusterName =
        scrub key ++ "-".toList ++ ("-".toList ++ n.clusterName) := by simp [clusterNameDelimiter]
    rw [longName_of_untagged hu htag,hdashes] at hroom ⊢
    rw [keyLeft,List.take_append_of_le_length]
    simp only [List.length_append] at hroom ⊢
    simp at hroom ⊢
    omega

theorem eq_take_concat_iff {s : Str} {k : ℕ} (hk : k < s.length) (c : Char) :
    s = s.take k ++ [c] ↔ s.length = k + 1 ∧ s.getLast? = some c := by
  constructor
  · intro h
    have hlength := congrArg List.length h
    rw [List.length_append,List.length_take,Nat.min_eq_left hk.le,List.length_singleton] at hlength
    exact ⟨hlength,by rw [h,List.getLast?_concat]⟩
  · rintro ⟨hlength,hlast⟩
    obtain ⟨init,rfl⟩ := List.getLast?_eq_some_iff.mp hlast
    have hinit : k = init.length := by simpa using hlength.symm
    rw [hinit,List.take_left]

/-- If the cut is in the UID then it takes off the last character only. -/
theorem cut_in_uid_iff (hkey : DNSKey key) {protocol : NamerProtocol} (hu : n.clusterName ≠ [])
    (hlong : nameLenLimit < (n.longRule key protocol).length)
    (hcut : (n.longRule key protocol).length ≤ nameLenLimit + n.clusterName.length) :
    clusterNameDelimiter <:+: (n.longName key).take (room protocol) ∧
        n.clusterName = Str.lastToken clusterNameDelimiter ((n.longName key).take (room protocol)) ++ alphaNumericChar ↔
      (n.longRule key protocol).length = nameLenLimit + 1 ∧ n.clusterName.getLast? = some '0' ∧
        ¬(n.Tagged key ∧ '/' ∈ n.clusterName) := by
  have hroom_pos := length_rulePrefixOf_lt protocol
  rw [length_longRule] at hlong hcut ⊢
  by_cases hslash : n.Tagged key ∧ '/' ∈ n.clusterName
  · -- the name has no slash, so that the UID is not in it
    refine iff_of_false (fun h => ?_) fun h => h.2.2 hslash
    have hmem := hslash.2
    rw [h.2,List.mem_append,or_iff_left (by decide)] at hmem
    have hsub := (Str.lastToken_suffix (by decide) ((n.longName key).take (room protocol))).subset hmem
    rw [longName_of_tagged hslash.1] at hsub
    exact no_slash_scrub key (List.mem_of_mem_take hsub)
  · obtain ⟨hin,htoken⟩ := lastToken_longName hkey hu hslash
    have hlast := Str.lastToken_take (k := room protocol) (by decide) hin (by rw [htoken]; unfold room; omega)
    have hk : room protocol + n.clusterName.length - (n.longName key).length < n.clusterName.length := by
      unfold room
      omega
    rw [htoken] at hlast
    rw [hlast.2,and_iff_right hlast.1]
    refine (eq_take_concat_iff hk '0').trans ?_
    rw [and_iff_left hslash]
    apply and_congr_left'
    unfold room
    omega

theorem leftByTheCut_iff (hkey : DNSKey key) {protocol : NamerProtocol}
    (hlong : nameLenLimit < (n.longRule key protocol).length) :
    (parseName ((n.longRule key protocol).take nameLenLimit ++ alphaNumericChar)).clusterName = n.clusterName ↔
      n.LeftByTheCut key protocol := by
  rw [parseName_cut_iff hkey]
  by_cases hu : n.clusterName = []
  · rw [longName_of_no_uid hu]
    constructor
    · rintro (⟨_,huid⟩ | ⟨hnone,_⟩)
      · simp [hu,alphaNumericChar] at huid
      · exact .noUID hu hnone
    · rintro (⟨_,hnone⟩ | ⟨_,hzero,_⟩ | ⟨_,_,huid⟩)
      · exact Or.inr ⟨hnone,hu⟩
      · simp [hu] at hzero
      · simp [hu,alphaNumericChar] at huid
  · rw [or_iff_left fun h => hu h.2]
    by_cases hcut : nameLenLimit + n.clusterName.length < (n.longRule key protocol).length
    · rw [take_longName_of_cut hcut]
      constructor
      · exact fun h => .inKey hcut h.1 h.2
      · rintro (⟨hnil,_⟩ | ⟨hlength,_,_⟩ | ⟨_,hin,huid⟩)
        · exact absurd hnil hu
        · have hpos := List.length_pos_iff.mpr hu
          omega
        · exact ⟨hin,huid⟩
    · rw [cut_in_uid_iff hkey hu hlong (Nat.not_lt.mp hcut)]
      constructor
      · exact fun h => .lastZero h.1 h.2.1 h.2.2
      · rintro (⟨hnil,_⟩ | ⟨hlength,hzero,hslash⟩ | ⟨hcut',_,_⟩)
        · exact absurd hnil hu
        · exact ⟨hlength,hzero,hslash⟩
        · exact absurd hcut' hcut

/-- The UID and the kind of a forwarding rule can be read from its name exactly if the UID
is recoverable. -/
theorem parseName_forwardingRule_iff (hkey : DNSKey key) (protocol : NamerProtocol) :
    parseName (forwardingRule (n.loadBalancer key) protocol) = ⟨n.clusterName,ruleResource protocol,[]⟩ ↔
      n.Recoverable key protocol := by
  have hcomponents : ∀ body, parseName (rulePrefixOf protocol ++ body) = ⟨n.clusterName,ruleResource protocol,[]⟩ ↔
      (parseName (rulePrefixOf protocol ++ body)).clusterName = n.clusterName := by
    intro body
    constructor
    · exact fun h => congrArg NameComponents.clusterName h
    · exact fun h => NameComponents.ext h (parseName_resource body protocol) rfl
  rw [forwardingRule_loadBalancer,Recoverable]
  by_cases hfits : (n.longRule key protocol).length ≤ nameLenLimit
  · rw [if_pos hfits,← parseName_longRule_iff hkey,truncate,if_neg (Nat.not_lt.mpr hfits),longRule]
    exact hcomponents _
  · have hcut : truncate (n.longRule key protocol) =
        rulePrefixOf protocol ++ ((n.longName key).take (room protocol) ++ alphaNumericChar) := by
      rw [truncate,if_pos (Nat.not_le.mp hfits),take_longRule,List.append_assoc]
    rw [if_neg hfits,← leftByTheCut_iff hkey (Nat.not_le.mp hfits),hcut,hcomponents,← hcut,truncate,
      if_pos (Nat.not_le.mp hfits)]

theorem parseName_default_web :
    parseName (forwardingRule ((setUID "uid".toList).loadBalancer "default/web".toList) .https) =
      ⟨"uid".toList,"fws".toList,[]⟩ := by
  have hkey : DNSKey "default/web".toList :=
    ⟨⟨"default".toList,"web".toList,by decide⟩,by rintro c ⟨⟩; decide⟩
  refine (parseName_forwardingRule_iff hkey .https).mpr ?_
  rw [Recoverable,if_pos (by decide)]
  exact ⟨by decide,fun h => absurd h.2 (by decide)⟩

/-- The UID is cut off a long name, and a part of the name of an Ingress is taken for the
UID of a cluster that has none. -/
theorem uid_not_recovered : ∃ n n' : Namer, ∃ key key' : Str, DNSKey key ∧ DNSKey key' ∧
    (parseName (forwardingRule (n.loadBalancer key) .http)).clusterName ≠ n.clusterName ∧
    n'.clusterName = [] ∧ (parseName (forwardingRule (n'.loadBalancer key') .http)).clusterName = "blue".toList :=
  ⟨setUID "0123456789abcdef".toList,setUID [],"production/storefront-with-a-rather-long-name".toList,
    "default/web--blue".toList,
    ⟨⟨"production".toList,"storefront-with-a-rather-long-name".toList,by decide⟩,by rintro c ⟨⟩; decide⟩,
    ⟨⟨"default".toList,"web--blue".toList,by decide⟩,by rintro c ⟨⟩; decide⟩,by decide,by decide,by decide⟩

end Namer
end IngressGce
