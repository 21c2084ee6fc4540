import Mathlib.Data.List.Infix

/-! # Go strings as lists of characters

A Go string is a sequence of bytes, here one character for each byte. `split` is
`strings.Split` for a nonempty separator: separators are found from left to right
and do not overlap, so that three dashes split at the first two of them.
-/
namespace IngressGce

abbrev Str := List Char

instance : LawfulBEq Str := inferInstance

namespace Str

def consHead (c : Char) : List Str → List Str
  | [] => [[c]]
  | t :: ts => (c :: t) :: ts

/-- Tokens of the text after the first `skip` characters, which belong to a
separator that was already found. -/
def splitFrom (sep : Str) : ℕ → Str → List Str
  | _, [] => [[]]
  | skip + 1, _ :: cs => splitFrom sep skip cs
  | 0, c :: cs =>
    if sep <+: c :: cs then [] :: splitFrom sep (sep.length - 1) cs
    else consHead c (splitFrom sep 0 cs)

def split (sep s : Str) : List Str := splitFrom sep 0 s

/-- The element `parts[len(parts)-1]` of a split text. -/
def lastToken (sep s : Str) : Str := (split sep s).getLast?.getD []

/-- `strings.Replace(s, old, new, -1)` for single characters. -/
def replaceAll (old new : Char) (s : Str) : Str := s.map (fun c => if c = old then new else c)

theorem splitFrom_ne_nil (sep : Str) (skip : ℕ) (s : Str) : splitFrom sep skip s ≠ [] := by
  induction s generalizing skip with
  | nil => simp [splitFrom]
  | cons c cs ih =>
    cases skip with
    | succ skip => exact ih skip
    | zero =>
      rw [splitFrom]
      split
      · simp
      · cases splitFrom sep 0 cs <;> simp [consHead]

/-- The first token is the part of the text before the first separator. -/
theorem splitFrom_head_prefix (sep : Str) {s t : Str} {ts : List Str}
    (h : splitFrom sep 0 s = t :: ts) : t <+: s := by
  induction s generalizing t ts with
  | nil => simp [splitFrom] at h; simp [h]
  | cons c cs ih =>
    rw [splitFrom] at h
    split at h
    · obtain ⟨rfl,_⟩ := List.cons.inj h
      exact List.nil_prefix
    · cases hs : splitFrom sep 0 cs with
      | nil => exact absurd hs (splitFrom_ne_nil sep 0 cs)
      | cons t' ts' =>
        rw [hs,consHead] at h
        obtain ⟨rfl,_⟩ := List.cons.inj h
        exact List.prefix_cons_inj c |>.mpr (ih hs)

theorem splitFrom_no_sep {sep : Str} (hsep : sep ≠ []) (skip : ℕ) (s : Str) :
    ∀ t ∈ splitFrom sep skip s, ¬sep <:+: t := by
  induction s generalizing skip with
  | nil => simpa [splitFrom] using hsep
  | cons c cs ih =>
    cases skip with
    | succ skip => exact ih skip
    | zero =>
      rw [splitFrom]
      split
      · intro t ht
        rcases List.mem_cons.mp ht with rfl | ht
        · simpa using hsep
        · exact ih _ t ht
      · rename_i hc
        cases hs : splitFrom sep 0 cs with
        | nil => exact absurd hs (splitFrom_ne_nil sep 0 cs)
        | cons t' ts' =>
          have hpre := splitFrom_head_prefix sep hs
          have htok := ih 0
          rw [hs] at htok
          intro t ht
          rcases List.mem_cons.mp ht with rfl | ht
          · intro hin
            rcases List.infix_cons_iff.mp hin with hin | hin
            · exact hc (hin.trans ((List.prefix_cons_inj c).mpr hpre))
            · exact htok t' List.mem_cons_self hin
          · exact htok t (List.mem_cons_of_mem _ ht)

theorem singleton_infix {c : Char} {s : Str} (h : c ∈ s) : [c] <:+: s := by
  obtain ⟨before,after,rfl⟩ := List.append_of_mem h
  exact ⟨before,after,by simp⟩

theorem lastToken_mem (sep s : Str) : lastToken sep s ∈ split sep s := by
  unfold lastToken split
  rw [List.getLast?_eq_some_getLast (splitFrom_ne_nil sep 0 s)]
  exact List.getLast_mem _

theorem lastToken_no_sep {sep : Str} (hsep : sep ≠ []) (s : Str) : ¬sep <:+: lastToken sep s :=
  splitFrom_no_sep hsep 0 s _ (lastToken_mem sep s)

theorem splitFrom_of_no_sep {sep s : Str} (h : ¬sep <:+: s) : splitFrom sep 0 s = [s] := by
  induction s with
  | nil => rfl
  | cons c cs ih =>
    have hc : ¬sep <+: c :: cs := fun hp => h hp.isInfix
    have hcs : ¬sep <:+: cs := fun hi => h (hi.trans (List.suffix_cons c cs).isInfix)
    rw [splitFrom,if_neg hc,ih hcs,consHead]

theorem splitFrom_skip (sep v u : Str) : splitFrom sep v.length (v ++ u) = splitFrom sep 0 u := by
  induction v with
  | nil => rfl
  | cons c cs ih => exact ih

/-- A separator that follows text without the separator's first character ends a token. -/
theorem splitFrom_append_of_not_mem {c : Char} {cs s : Str} (h : c ∉ s) (u : Str) :
    splitFrom (c :: cs) 0 (s ++ (c :: cs ++ u)) = s :: splitFrom (c :: cs) 0 u := by
  induction s with
  | nil =>
    have hpre : c :: cs <+: c :: (cs ++ u) := (c :: cs).prefix_append u
    rw [List.nil_append,List.cons_append,splitFrom,if_pos hpre]
    exact congrArg _ (splitFrom_skip (c :: cs) cs u)
  | cons d ds ih =>
    obtain ⟨hd,hds⟩ := List.ne_and_not_mem_of_not_mem_cons h
    have hpre : ¬c :: cs <+: d :: (ds ++ (c :: cs ++ u)) := fun hp => hd (List.cons_prefix_cons.mp hp).1
    rw [List.cons_append,splitFrom,if_neg hpre,ih hds,consHead]

/-- Text that ends in a separator is split there, unless a separator could begin
before the end of `s` and reach beyond it. -/
theorem splitFrom_append_sep {sep s u : Str} {skip : ℕ} (hsep : sep ≠ []) (hskip : skip ≤ s.length)
    (hs : ∀ t, t <:+ s → t <+: sep → t = [] ∨ t = sep) :
    ∃ init, init ≠ [] ∧ splitFrom sep skip (s ++ (sep ++ u)) = init ++ splitFrom sep 0 u := by
  induction s generalizing skip with
  | nil =>
    obtain rfl : skip = 0 := Nat.le_zero.mp hskip
    cases sep with
    | nil => exact absurd rfl hsep
    | cons c cs =>
      have hpre : c :: cs <+: c :: (cs ++ u) := (c :: cs).prefix_append u
      refine ⟨[[]],by simp,?_⟩
      rw [List.nil_append,List.cons_append,splitFrom,if_pos hpre]
      exact congrArg _ (splitFrom_skip (c :: cs) cs u)
  | cons c cs ih =>
    have hcs : ∀ t, t <:+ cs → t <+: sep → t = [] ∨ t = sep := fun t ht =>
      hs t (ht.trans (List.suffix_cons c cs))
    cases skip with
    | succ skip => exact ih (by simpa using hskip) hcs
    | zero =>
      rw [List.cons_append,splitFrom]
      split
      · rename_i hpre
        have hlen : sep.length - 1 ≤ cs.length := by
          by_contra hlong
          have hself : c :: cs <+: sep := List.prefix_of_prefix_length_le
            (List.prefix_append (c :: cs) (sep ++ u)) hpre (by simp; omega)
          rcases hs _ List.suffix_rfl hself with h | h
          · cases h
          · rw [← h] at hlong
            simp at hlong
        obtain ⟨init,_,hinit⟩ := ih hlen hcs
        exact ⟨[] :: init,by simp,by rw [hinit]; rfl⟩
      · obtain ⟨init,hne,hinit⟩ := ih (Nat.zero_le _) hcs
        cases init with
        | nil => exact absurd rfl hne
        | cons t ts => exact ⟨(c :: t) :: ts,by simp,by rw [hinit]; rfl⟩

theorem lastToken_append_sep {sep s u : Str} (hsep : sep ≠ [])
    (hs : ∀ t, t <:+ s → t <+: sep → t = [] ∨ t = sep) (hu : ¬sep <:+: u) :
    lastToken sep (s ++ (sep ++ u)) = u := by
  obtain ⟨init,_,hinit⟩ := splitFrom_append_sep (u := u) hsep (Nat.zero_le s.length) hs
  unfold lastToken split
  rw [hinit,splitFrom_of_no_sep hu,List.getLast?_append]
  rfl

@[simp] theorem replaceAll_nil (old new : Char) : replaceAll old new [] = [] := rfl
@[simp] theorem replaceAll_cons (old new c : Char) (s : Str) :
    replaceAll old new (c :: s) = (if c = old then new else c) :: replaceAll old new s := rfl
@[simp] theorem replaceAll_append (old new : Char) (s t : Str) :
    replaceAll old new (s ++ t) = replaceAll old new s ++ replaceAll old new t := List.map_append

theorem replaceAll_of_not_mem {old new : Char} {s : Str} (h : old ∉ s) :
    replaceAll old new s = s := by
  induction s with
  | nil => rfl
  | cons c cs ih =>
    obtain ⟨hc,hcs⟩ := List.ne_and_not_mem_of_not_mem_cons h
    rw [replaceAll_cons,if_neg (Ne.symm hc),ih hcs]

theorem not_mem_replaceAll {old new : Char} (hne : old ≠ new) (s : Str) :
    old ∉ replaceAll old new s := by
  intro h
  obtain ⟨c,_,hc⟩ := List.mem_map.mp h
  by_cases ho : c = old
  · exact hne (by simpa [ho] using hc.symm)
  · simp [ho] at hc

end Str
end IngressGce
