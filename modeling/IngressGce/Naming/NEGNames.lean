import IngressGce.Naming.Namer
import Mathlib.Algebra.Order.Ring.Int
import Mathlib.Tactic.Ring
import Mathlib.Tactic.Linarith

/-! # Names of NEGs

The name of a NEG has the UID of the cluster, the namespace and the name of the service
and its target port, which are trimmed if they are long together, and a hash of the three
without anything between them.
-/
namespace IngressGce

def maxNEGDescriptiveLabel : ℤ := 30

def totalLength (fields : List Str) : ℤ := (fields.map (fun s => (s.length : ℤ))).sum

/-- The loop `lengths[i]++`, which panics if it runs past the end. -/
def addFractional (remaining : ℤ) (lengths : List ℤ) : Option (List ℤ) :=
  if lengths.length < remaining then none
  else some ((lengths.take remaining.toNat).map (· + 1) ++ lengths.drop remaining.toNat)

/-- The slice `s[:l]`, which panics outside the bounds. -/
def sliceTo (s : Str) (l : ℤ) : Option Str :=
  if 0 ≤ l ∧ l ≤ s.length then some (s.take l.toNat) else none

/-- The length that a field is first given. -/
def scaledLength (max total : ℤ) (s : Str) : ℤ := s.length - s.length * (total - max) / total - 1

def trimFieldsEvenly (max : ℤ) (fields : List Str) : Option (List Str) :=
  let total := totalLength fields
  if max ≤ 0 ∨ total ≤ max then some fields
  else
    let lengths := fields.map (scaledLength max total)
    (addFractional (max - lengths.sum) lengths).bind (fun lengths =>
      (fields.zip lengths).mapM (fun p => sliceTo p.1 p.2))

/-- Each field loses its share of the excess, rounded down. What the shares lack is less
than one character for each field. -/
theorem sum_scaledLength (max total : ℤ) (htotal : 0 < total) (fields : List Str) :
    ∃ rest : ℤ, 0 ≤ rest ∧ rest ≤ fields.length * (total - 1) ∧
      total * (fields.map (scaledLength max total)).sum =
        total * (totalLength fields - fields.length) - totalLength fields * (total - max) + rest := by
  induction fields with
  | nil => exact ⟨0,le_rfl,by simp,by simp [totalLength]⟩
  | cons s fields ih =>
    obtain ⟨rest,hrest,hle,hsum⟩ := ih
    have hdiv := Int.mul_ediv_add_emod ((s.length : ℤ) * (total - max)) total
    have hpos := Int.emod_nonneg ((s.length : ℤ) * (total - max)) htotal.ne'
    have hlt := Int.emod_lt_of_pos ((s.length : ℤ) * (total - max)) htotal
    refine ⟨(s.length : ℤ) * (total - max) % total + rest,by omega,?_,?_⟩
    · rw [List.length_cons]
      push_cast
      linarith
    · simp only [totalLength,List.map_cons,List.sum_cons,List.length_cons,scaledLength] at hsum ⊢
      push_cast
      linarith

/-- What remains after the first round is less than one character for each field. -/
theorem total_mul_remaining {max : ℤ} {fields : List Str} (hmax : 0 < max) (hlong : max < totalLength fields) :
    ∃ rest : ℤ, 0 ≤ rest ∧ rest ≤ fields.length * (totalLength fields - 1) ∧
      totalLength fields * (max - (fields.map (scaledLength max (totalLength fields))).sum) =
        totalLength fields * fields.length - rest := by
  have htotal : 0 < totalLength fields := hmax.trans hlong
  obtain ⟨rest,hrest,hle,hsum⟩ := sum_scaledLength max (totalLength fields) htotal fields
  exact ⟨rest,hrest,hle,by linarith⟩

theorem remaining_bounds {max : ℤ} {fields : List Str} (hmax : 0 < max) (hlong : max < totalLength fields) :
    0 ≤ max - (fields.map (scaledLength max (totalLength fields))).sum ∧
      max - (fields.map (scaledLength max (totalLength fields))).sum ≤ fields.length := by
  have htotal : 0 < totalLength fields := hmax.trans hlong
  obtain ⟨rest,hrest,hle,hremaining⟩ := total_mul_remaining hmax hlong
  constructor
  · apply le_of_mul_le_mul_left _ htotal
    linarith
  · apply le_of_mul_le_mul_left _ htotal
    linarith

theorem remaining_pos {max : ℤ} {fields : List Str} (hmax : 0 < max) (hlong : max < totalLength fields)
    (hfields : fields ≠ []) : 0 < max - (fields.map (scaledLength max (totalLength fields))).sum := by
  have htotal : 0 < totalLength fields := hmax.trans hlong
  have hlength : (0 : ℤ) < fields.length := by exact_mod_cast List.length_pos_iff.mpr hfields
  obtain ⟨rest,hrest,hle,hremaining⟩ := total_mul_remaining hmax hlong
  apply lt_of_mul_lt_mul_left _ htotal.le
  linarith

/-- A nonempty field is given a length that leaves room for one character more. -/
theorem scaledLength_bounds {max total : ℤ} {s : Str} (hmax : 0 < max) (hlong : max < total) (hs : s ≠ []) :
    0 ≤ scaledLength max total s ∧ scaledLength max total s + 1 ≤ s.length := by
  have hlen : (0 : ℤ) < s.length := by exact_mod_cast List.length_pos_iff.mpr hs
  have hpos : 0 ≤ (s.length : ℤ) * (total - max) / total :=
    Int.ediv_nonneg (mul_nonneg hlen.le (by omega)) (by omega)
  have hlt : (s.length : ℤ) * (total - max) / total < s.length := by
    apply Int.ediv_lt_of_lt_mul (by omega)
    exact mul_lt_mul_of_pos_left (by omega) hlen
  unfold scaledLength
  omega

/-- Slices within the bounds are prefixes of the lengths asked for. -/
theorem mapM_sliceTo {P : Str → ℤ → Prop} {fields : List Str} {lengths : List ℤ}
    (h : List.Forall₂ (fun s l => (0 ≤ l ∧ l ≤ s.length) ∧ P s l) fields lengths) :
    ∃ trimmed, (fields.zip lengths).mapM (fun p => sliceTo p.1 p.2) = some trimmed ∧
      List.Forall₂ (fun s t => t <+: s ∧ P s t.length) fields trimmed ∧ totalLength trimmed = lengths.sum := by
  induction h with
  | nil => exact ⟨[],rfl,.nil,rfl⟩
  | @cons s l fields lengths hs _ ih =>
    obtain ⟨hbounds,hP⟩ := hs
    obtain ⟨trimmed,hmapM,hforall,hsum⟩ := ih
    have hlen : ((s.take l.toNat).length : ℤ) = l := by
      rw [List.length_take]
      omega
    refine ⟨s.take l.toNat :: trimmed,?_,.cons ⟨List.take_prefix _ _,?_⟩ hforall,?_⟩
    · rw [List.zip_cons_cons,List.mapM_cons,hmapM,sliceTo,if_pos hbounds]
      rfl
    · rwa [hlen]
    · unfold totalLength at hsum ⊢
      rw [List.map_cons,List.sum_cons,List.sum_cons,hlen,hsum]

/-- The first `r` lengths are one more than they were. -/
def bumped (r : ℕ) (lengths : List ℤ) : List ℤ := (lengths.take r).map (· + 1) ++ lengths.drop r

theorem forall₂_bumped (length : Str → ℤ) (r : ℕ) (fields : List Str) :
    List.Forall₂ (fun s l => l = length s ∨ l = length s + 1) fields (bumped r (fields.map length)) := by
  induction fields generalizing r with
  | nil => cases r <;> exact .nil
  | cons s fields ih =>
    cases r with
    | zero => exact .cons (Or.inl rfl) (ih 0)
    | succ r => exact .cons (Or.inr rfl) (ih r)

theorem sum_bumped {r : ℕ} {lengths : List ℤ} (h : r ≤ lengths.length) : (bumped r lengths).sum = lengths.sum + r := by
  induction lengths generalizing r with
  | nil =>
    obtain rfl : r = 0 := Nat.le_zero.mp h
    rfl
  | cons l lengths ih =>
    cases r with
    | zero => simp [bumped]
    | succ r =>
      have hrest := ih (Nat.succ_le_succ_iff.mp h)
      change l + 1 + (bumped r lengths).sum = l + lengths.sum + (r + 1 : ℕ)
      rw [hrest]
      push_cast
      ring

/-- Fields that are too long together are trimmed to the length allowed. Each keeps its
share, rounded up, or one character less. -/
theorem trimFieldsEvenly_of_long {max : ℤ} {fields : List Str} (hmax : 0 < max) (hlong : max < totalLength fields)
    (hfields : ∀ s ∈ fields, s ≠ []) :
    ∃ trimmed, trimFieldsEvenly max fields = some trimmed ∧ totalLength trimmed = max ∧
      List.Forall₂ (fun s t => t <+: s ∧ ((t.length : ℤ) = scaledLength max (totalLength fields) s ∨
        (t.length : ℤ) = scaledLength max (totalLength fields) s + 1)) fields trimmed := by
  obtain ⟨hlow,hhigh⟩ := remaining_bounds hmax hlong
  obtain ⟨r,hr⟩ := Int.eq_ofNat_of_zero_le hlow
  have hle : r ≤ (fields.map (scaledLength max (totalLength fields))).length := by
    rw [List.length_map]
    omega
  have hforall : List.Forall₂ (fun s l => (0 ≤ l ∧ l ≤ s.length) ∧ (l = scaledLength max (totalLength fields) s ∨
      l = scaledLength max (totalLength fields) s + 1)) fields
      (bumped r (fields.map (scaledLength max (totalLength fields)))) := by
    have hmem := (List.forall₂_and_left _ _).mpr
      ⟨fun s hs => hs,forall₂_bumped (scaledLength max (totalLength fields)) r fields⟩
    refine hmem.imp ?_
    rintro s l ⟨hs,hl⟩
    have hbounds := scaledLength_bounds hmax hlong (hfields s hs)
    exact ⟨by omega,hl⟩
  obtain ⟨trimmed,hmapM,htrimmed,hsum⟩ := mapM_sliceTo hforall
  refine ⟨trimmed,?_,?_,htrimmed⟩
  · unfold trimFieldsEvenly
    dsimp only
    rw [if_neg (by omega),hr,addFractional,if_neg (by omega),Option.bind_some]
    exact hmapM
  · rw [hsum,sum_bumped hle]
    omega

theorem trimFieldsEvenly_of_short {max : ℤ} {fields : List Str} (h : totalLength fields ≤ max) :
    trimFieldsEvenly max fields = some fields := if_pos (Or.inr h)

/-- Fields that are not empty are trimmed without a panic. -/
theorem trimFieldsEvenly_returns (max : ℤ) {fields : List Str} (hfields : ∀ s ∈ fields, s ≠ []) :
    ∃ trimmed, trimFieldsEvenly max fields = some trimmed ∧ trimmed.length = fields.length := by
  by_cases hskip : max ≤ 0 ∨ totalLength fields ≤ max
  · exact ⟨fields,if_pos hskip,rfl⟩
  · obtain ⟨hmax,hlong⟩ := not_or.mp hskip
    obtain ⟨trimmed,htrim,_,hforall⟩ := trimFieldsEvenly_of_long (not_le.mp hmax) (not_le.mp hlong) hfields
    exact ⟨trimmed,htrim,hforall.length_eq.symm⟩

/-- The hexadecimal digits of the hash of a text. -/
structure MD5 where
  hex : Str → Str
  length_hex : ∀ s, (hex s).length = 32

/-- The namespace and the name of a service, and a target port of it. -/
structure NEGFields where
  namespaced : Str
  name : Str
  port : Str
  deriving DecidableEq

namespace NEGFields
variable (f g : NEGFields)

def fields : List Str := [f.namespaced,f.name,f.port]

/-- What is hashed. -/
def joined : Str := f.namespaced ++ f.name ++ f.port

/-- The part of the name of a NEG that is meant to be read. -/
def label : Option Str :=
  match trimFieldsEvenly maxNEGDescriptiveLabel f.fields with
  | some [namespaced,name,port] => some (namespaced ++ '-' :: (name ++ '-' :: port))
  | _ => none

end NEGFields

def negSuffix (md5 : MD5) (f : NEGFields) : Str := (md5.hex f.joined).take 8

def schemaVersionV1 : Str := "1".toList

namespace Namer
variable (n : Namer)

def negPrefix : Str := "k8s".toList ++ (schemaVersionV1 ++ '-' :: n.clusterName)

def neg (md5 : MD5) (f : NEGFields) : Option Str :=
  f.label.map (fun label => n.negPrefix ++ '-' :: (label ++ '-' :: negSuffix md5 f))

/-- The name is that of a NEG of this cluster. -/
def isNEG (name : Str) : Bool := n.negPrefix.isPrefixOf name

end Namer

/-- A name that Kubernetes accepts, of which only this is used. -/
structure KubeName (s : Str) : Prop where
  nonempty : s ≠ []
  length : s.length ≤ 63
  head : s.head? ≠ some '-'
  last : s.getLast? ≠ some '-'

structure NEGFields.Valid (f : NEGFields) : Prop where
  namespaced : KubeName f.namespaced
  name : KubeName f.name
  port : KubeName f.port

/-- How long the three fields are. -/
structure FieldLengths where
  namespaced : ℕ
  name : ℕ
  port : ℕ
  deriving DecidableEq

namespace FieldLengths
variable (l m : FieldLengths)

def total : ℕ := l.namespaced + l.name + l.port

/-- A field's share of the 30 characters, rounded up. -/
def share (length : ℕ) : ℕ := (30 * length + (l.total - 1)) / l.total

/-- By how much the shares are too many. -/
def excess : ℕ := l.share l.namespaced + l.share l.name + l.share l.port - 30

/-- What is left of fields of more than 30 characters: their shares, where first the port
and then the name gives up a character that is too many. -/
def trimmed : FieldLengths where
  namespaced := l.share l.namespaced
  name := l.share l.name - if 2 ≤ l.excess then 1 else 0
  port := l.share l.port - if 1 ≤ l.excess then 1 else 0

/-- From where in the text of all three fields the label has its character at a place. The
two separators are from nowhere. -/
def source (place : ℕ) : Option ℕ :=
  let t := l.trimmed
  if place < t.namespaced then some place
  else if place = t.namespaced then none
  else if place ≤ t.namespaced + t.name then some (l.namespaced + (place - (t.namespaced + 1)))
  else if place = t.namespaced + t.name + 1 then none
  else some (l.namespaced + l.name + (place - (t.namespaced + t.name + 2)))

/-- Where a name or a port begins in two ways of dividing a text, the text goes on alike for
as many characters as are left of it. -/
structure Repeats (text : Str) : Prop where
  name : ∀ i < l.trimmed.name, text[l.namespaced + i]? = text[m.namespaced + i]?
  port : ∀ i < l.trimmed.port, text[l.namespaced + l.name + i]? = text[m.namespaced + m.name + i]?

/-- Where only one of two labels has a separator the other has a dash of the text, and where
they take their characters from different places these are equal. -/
structure Dashed (text : Str) : Prop where
  left : ∀ place < 32, ∀ j, l.source place = none → m.source place = some j → text[j]? = some '-'
  right : ∀ place < 32, ∀ j, l.source place = some j → m.source place = none → text[j]? = some '-'
  moved : ∀ place < 32, ∀ j k, l.source place = some j → m.source place = some k → j ≠ k → text[j]? = text[k]?

/-- Two ways of dividing a text into fields are not told apart in the label. -/
inductive Overlaid (text : Str) : Prop
  | repeated (trimmed : l.trimmed = m.trimmed) (h : l.Repeats m text)
  | dashed (trimmed : l.trimmed ≠ m.trimmed) (h : l.Dashed m text)

end FieldLengths

def NEGFields.lengths (f : NEGFields) : FieldLengths where
  namespaced := f.namespaced.length
  name := f.name.length
  port := f.port.length

namespace NEGFields
variable {f g : NEGFields}

theorem totalLength_fields (f : NEGFields) : totalLength f.fields = f.joined.length := by
  simp [totalLength,fields,joined]

theorem namespaced_mem (f : NEGFields) : f.namespaced ∈ f.fields := by simp [fields]
theorem name_mem (f : NEGFields) : f.name ∈ f.fields := by simp [fields]
theorem port_mem (f : NEGFields) : f.port ∈ f.fields := by simp [fields]

theorem Valid.fields_ne_nil (h : f.Valid) : ∀ s ∈ f.fields, s ≠ [] := by
  intro s hs
  simp only [fields,List.mem_cons,List.not_mem_nil,or_false] at hs
  rcases hs with rfl | rfl | rfl
  · exact h.namespaced.nonempty
  · exact h.name.nonempty
  · exact h.port.nonempty

theorem Valid.label (h : f.Valid) : ∃ label, f.label = some label := by
  obtain ⟨trimmed,htrim,hlen⟩ := trimFieldsEvenly_returns maxNEGDescriptiveLabel h.fields_ne_nil
  unfold NEGFields.label
  rw [htrim]
  match trimmed,hlen with
  | [namespaced,name,port],_ => exact ⟨_,rfl⟩

theorem label_of_short (h : totalLength f.fields ≤ maxNEGDescriptiveLabel) :
    f.label = some (f.namespaced ++ '-' :: (f.name ++ '-' :: f.port)) := by
  rw [label,trimFieldsEvenly_of_short h]
  rfl

/-- Where a dash is added tells where a text is cut, if what follows begins with no dash. -/
theorem eq_of_cut {a b c a' b' c' : Str} (hjoin : a ++ b = a' ++ b') (hdash : a ++ '-' :: c = a' ++ '-' :: c')
    (hb : b.head? ≠ some '-') (hb' : b'.head? ≠ some '-') : a = a' := by
  rcases List.append_eq_append_iff.mp hjoin with ⟨t,rfl,rfl⟩ | ⟨t,rfl,rfl⟩
  · cases t with
    | nil => rw [List.append_nil]
    | cons d t =>
      rw [List.append_assoc] at hdash
      obtain ⟨rfl,_⟩ := List.cons.inj (List.append_cancel_left hdash)
      exact absurd rfl hb
  · cases t with
    | nil => rw [List.append_nil]
    | cons d t =>
      rw [List.append_assoc] at hdash
      obtain ⟨hd,_⟩ := List.cons.inj (List.append_cancel_left hdash)
      exact absurd (hd ▸ rfl) hb'

/-- Fields that are not trimmed can be read from the label and what is hashed. -/
theorem eq_of_short (hf : f.Valid) (hg : g.Valid) (hshort : totalLength f.fields ≤ maxNEGDescriptiveLabel)
    (hjoined : f.joined = g.joined) (hlabel : f.label = g.label) : f = g := by
  have hshort' : totalLength g.fields ≤ maxNEGDescriptiveLabel := by
    rw [totalLength_fields] at hshort ⊢
    rwa [← hjoined]
  rw [label_of_short hshort,label_of_short hshort'] at hlabel
  replace hlabel := Option.some.inj hlabel
  unfold joined at hjoined
  rw [List.append_assoc,List.append_assoc] at hjoined
  have hhead : ∀ {s t : Str}, KubeName s → (s ++ t).head? ≠ some '-' := by
    intro s t hs
    rw [List.head?_append_of_ne_nil _ hs.nonempty]
    exact hs.head
  have hnamespaced := eq_of_cut hjoined hlabel (hhead hf.name) (hhead hg.name)
  rw [hnamespaced] at hjoined hlabel
  replace hjoined := List.append_cancel_left hjoined
  replace hlabel := (List.cons.inj (List.append_cancel_left hlabel)).2
  have hname := eq_of_cut hjoined hlabel hf.port.head hg.port.head
  rw [hname] at hjoined
  have hport := List.append_cancel_left hjoined
  cases f
  cases g
  subst hnamespaced hname hport
  rfl

theorem totalLength_eq_total (f : NEGFields) : totalLength f.fields = f.lengths.total := by
  rw [totalLength_fields]
  simp [joined,lengths,FieldLengths.total]
  ring

theorem totalLength_le_iff (f : NEGFields) : totalLength f.fields ≤ maxNEGDescriptiveLabel ↔ f.lengths.total ≤ 30 := by
  rw [totalLength_eq_total,maxNEGDescriptiveLabel]
  omega

/-- What the code first gives a field is one character less than its share. -/
theorem scaledLength_add_one {f : NEGFields} (hlong : 30 < f.lengths.total) (s : Str) :
    scaledLength maxNEGDescriptiveLabel (totalLength f.fields) s + 1 = f.lengths.share s.length := by
  have htotal : (0 : ℤ) < f.lengths.total := by omega
  have hdiv := Int.mul_ediv_add_emod ((s.length : ℤ) * (f.lengths.total - 30)) f.lengths.total
  have hnonneg := Int.emod_nonneg ((s.length : ℤ) * (f.lengths.total - 30)) htotal.ne'
  have hlt := Int.emod_lt_of_pos ((s.length : ℤ) * (f.lengths.total - 30)) htotal
  have hpred : ((f.lengths.total - 1 : ℕ) : ℤ) = f.lengths.total - 1 := by omega
  rw [scaledLength,totalLength_eq_total,maxNEGDescriptiveLabel,FieldLengths.share]
  push_cast
  rw [hpred]
  generalize ((s.length : ℤ) * (f.lengths.total - 30)) / f.lengths.total = lost at hdiv ⊢
  generalize ((s.length : ℤ) * (f.lengths.total - 30)) % f.lengths.total = rest at hdiv hnonneg hlt
  have hsplit : (30 : ℤ) * s.length + (f.lengths.total - 1) =
      (f.lengths.total - 1 - rest) + f.lengths.total * (s.length - lost) := by linarith
  rw [hsplit,Int.add_mul_ediv_left _ _ htotal.ne',Int.ediv_eq_zero_of_lt (by omega) (by omega)]
  ring

/-- A field has at least one character for a share, and no more than it is long. -/
theorem Valid.share_bounds (h : f.Valid) (hlong : 30 < f.lengths.total) {s : Str} (hs : s ∈ f.fields) :
    1 ≤ f.lengths.share s.length ∧ f.lengths.share s.length ≤ s.length := by
  have hlong' : maxNEGDescriptiveLabel < totalLength f.fields := by
    rw [totalLength_eq_total,maxNEGDescriptiveLabel]
    omega
  have hbounds := scaledLength_bounds (by decide) hlong' (h.fields_ne_nil s hs)
  have hshare := scaledLength_add_one hlong s
  omega

/-- The shares come to 30 characters, or to one or two more. -/
theorem excess_spec (hlong : 30 < f.lengths.total) : f.lengths.excess ≤ 2 ∧
    f.lengths.share f.lengths.namespaced + f.lengths.share f.lengths.name + f.lengths.share f.lengths.port =
      30 + f.lengths.excess := by
  have hlong' : maxNEGDescriptiveLabel < totalLength f.fields := by
    rw [totalLength_eq_total,maxNEGDescriptiveLabel]
    omega
  have hle := (remaining_bounds (by decide) hlong').2
  have hpos := remaining_pos (by decide) hlong' (by simp [fields])
  have hnamespaced := scaledLength_add_one hlong f.namespaced
  have hname := scaledLength_add_one hlong f.name
  have hport := scaledLength_add_one hlong f.port
  simp only [fields,List.map_cons,List.map_nil,List.sum_cons,List.sum_nil,List.length_cons,List.length_nil] at hle hpos
  simp only [fields] at hnamespaced hname hport
  unfold FieldLengths.excess
  unfold maxNEGDescriptiveLabel at *
  simp only [lengths] at *
  omega

theorem Valid.trimmed_spec (h : f.Valid) (hlong : 30 < f.lengths.total) :
    f.lengths.trimmed.namespaced ≤ f.namespaced.length ∧ f.lengths.trimmed.name ≤ f.name.length ∧
      f.lengths.trimmed.port ≤ f.port.length ∧ f.lengths.trimmed.total = 30 := by
  obtain ⟨hexcess,hsum⟩ := excess_spec hlong
  have hnamespaced := h.share_bounds hlong f.namespaced_mem
  have hname := h.share_bounds hlong f.name_mem
  have hport := h.share_bounds hlong f.port_mem
  change _ + f.lengths.share f.name.length + f.lengths.share f.port.length = _ at hsum
  change f.lengths.share f.namespaced.length ≤ _ ∧ f.lengths.share f.name.length - _ ≤ _ ∧
    f.lengths.share f.port.length - _ ≤ _ ∧
    f.lengths.share f.namespaced.length + (f.lengths.share f.name.length - _) + (f.lengths.share f.port.length - _) = 30
  change f.lengths.share f.namespaced.length + _ + _ = _ at hsum
  generalize f.lengths.excess = e at *
  split_ifs <;> omega

/-- The loop over what remains gives the lengths that `trimmed` says. -/
theorem Valid.addFractional (h : f.Valid) (hlong : 30 < f.lengths.total) :
    addFractional (maxNEGDescriptiveLabel -
        (f.fields.map (scaledLength maxNEGDescriptiveLabel (totalLength f.fields))).sum)
      (f.fields.map (scaledLength maxNEGDescriptiveLabel (totalLength f.fields))) =
    some [(f.lengths.trimmed.namespaced : ℤ),(f.lengths.trimmed.name : ℤ),(f.lengths.trimmed.port : ℤ)] := by
  obtain ⟨hexcess,hsum⟩ := excess_spec hlong
  have hname : 1 ≤ f.lengths.share f.lengths.name := (h.share_bounds hlong f.name_mem).1
  have hport : 1 ≤ f.lengths.share f.lengths.port := (h.share_bounds hlong f.port_mem).1
  have hlengths : f.fields.map (scaledLength maxNEGDescriptiveLabel (totalLength f.fields)) =
      [(f.lengths.share f.lengths.namespaced : ℤ) - 1,(f.lengths.share f.lengths.name : ℤ) - 1,
        (f.lengths.share f.lengths.port : ℤ) - 1] := by
    have hscaled (s : Str) :
        scaledLength maxNEGDescriptiveLabel (totalLength f.fields) s = f.lengths.share s.length - 1 := by
      rw [← scaledLength_add_one hlong]
      ring
    rw [fields,List.map_cons,List.map_cons,List.map_singleton]
    exact congrArg₂ List.cons (hscaled _) (congrArg₂ List.cons (hscaled _) (congrArg (fun l => [l]) (hscaled _)))
  have hremaining : maxNEGDescriptiveLabel - ([(f.lengths.share f.lengths.namespaced : ℤ) - 1,
      (f.lengths.share f.lengths.name : ℤ) - 1,(f.lengths.share f.lengths.port : ℤ) - 1]).sum =
      3 - (f.lengths.excess : ℤ) := by
    simp only [List.sum_cons,List.sum_nil,maxNEGDescriptiveLabel]
    omega
  rw [hlengths,hremaining]
  simp only [FieldLengths.trimmed]
  generalize f.lengths.excess = excess at *
  have hcases : excess = 0 ∨ excess = 1 ∨ excess = 2 := by omega
  rcases hcases with rfl | rfl | rfl <;> simp [IngressGce.addFractional,hname,hport]

theorem sliceTo_of_le {s : Str} {length : ℕ} (h : length ≤ s.length) : sliceTo s length = some (s.take length) :=
  if_pos ⟨Int.natCast_nonneg length,by exact_mod_cast h⟩

/-- The lengths are those that the trimming gives the fields. -/
theorem Valid.label_eq (h : f.Valid) (hlong : 30 < f.lengths.total) :
    f.label = some (f.namespaced.take f.lengths.trimmed.namespaced ++ '-' ::
      (f.name.take f.lengths.trimmed.name ++ '-' :: f.port.take f.lengths.trimmed.port)) := by
  obtain ⟨hnamespaced,hname,hport,_⟩ := h.trimmed_spec hlong
  have hskip : ¬(maxNEGDescriptiveLabel ≤ 0 ∨ totalLength f.fields ≤ maxNEGDescriptiveLabel) := by
    rw [totalLength_le_iff,maxNEGDescriptiveLabel]
    omega
  have htrim : trimFieldsEvenly maxNEGDescriptiveLabel f.fields = some [f.namespaced.take f.lengths.trimmed.namespaced,
      f.name.take f.lengths.trimmed.name,f.port.take f.lengths.trimmed.port] := by
    unfold trimFieldsEvenly
    dsimp only
    rw [if_neg hskip,h.addFractional hlong,Option.bind_some]
    simp [fields,sliceTo_of_le hnamespaced,sliceTo_of_le hname,sliceTo_of_le hport]
  rw [NEGFields.label,htrim]

theorem getElem?_append_add (s t : Str) (i : ℕ) : (s ++ t)[s.length + i]? = t[i]? := by
  rw [List.getElem?_append_right (Nat.le_add_right _ _),Nat.add_sub_cancel_left]

/-- A character of a text, or a separator. -/
def charFrom (text : Str) : Option ℕ → Option Char
  | none => some '-'
  | some j => text[j]?

/-- What stands at a place of the label. -/
theorem Valid.getElem?_label (h : f.Valid) (hlong : 30 < f.lengths.total) {label : Str} (hlabel : f.label = some label) :
    label.length = 32 ∧ ∀ place < 32, label[place]? = charFrom f.joined (f.lengths.source place) := by
  obtain ⟨hnamespaced,hname,hport,htotal⟩ := h.trimmed_spec hlong
  obtain rfl := Option.some.inj ((h.label_eq hlong).symm.trans hlabel)
  have hlens : f.lengths.namespaced = f.namespaced.length ∧ f.lengths.name = f.name.length := ⟨rfl,rfl⟩
  unfold FieldLengths.total at htotal
  refine ⟨?_,fun place hplace => ?_⟩
  · simp
    omega
  · rw [joined,List.append_assoc]
    unfold FieldLengths.source
    dsimp only
    rw [hlens.1,hlens.2]
    generalize f.lengths.trimmed = t at *
    split
    · next hin =>
      rw [List.getElem?_append_left (by simp; omega),List.getElem?_take_of_lt hin]
      exact (List.getElem?_append_left (by omega)).symm
    next hout =>
    rw [List.getElem?_append_right (by simp; omega),List.length_take_of_le hnamespaced]
    split
    · next heq =>
      rw [heq,Nat.sub_self]
      rfl
    next hne =>
    obtain ⟨k,rfl⟩ : ∃ k, place = t.namespaced + 1 + k := ⟨place - (t.namespaced + 1),by omega⟩
    rw [show t.namespaced + 1 + k - t.namespaced = k + 1 by omega,List.getElem?_cons_succ]
    split
    · next hin =>
      rw [List.getElem?_append_left (by simp; omega),List.getElem?_take_of_lt (by omega),
        show t.namespaced + 1 + k - (t.namespaced + 1) = k by omega]
      exact ((getElem?_append_add _ _ _).trans (List.getElem?_append_left (by omega))).symm
    next hout' =>
    rw [List.getElem?_append_right (by simp; omega),List.length_take_of_le hname]
    split
    · next heq =>
      rw [show k - t.name = 0 by omega]
      rfl
    · next hne' =>
      obtain ⟨i,rfl⟩ : ∃ i, k = t.name + 1 + i := ⟨k - (t.name + 1),by omega⟩
      rw [show t.name + 1 + i - t.name = i + 1 by omega,List.getElem?_cons_succ,List.getElem?_take_of_lt (by omega),
        show t.namespaced + 1 + (t.name + 1 + i) - (t.namespaced + t.name + 2) = i by omega,charFrom,add_assoc,
        getElem?_append_add,getElem?_append_add]

theorem dashed_iff {l m : FieldLengths} {text : Str} :
    l.Dashed m text ↔ ∀ place < 32, charFrom text (l.source place) = charFrom text (m.source place) := by
  constructor
  · intro hdashed place hplace
    cases hj : l.source place with
    | none =>
      cases hk : m.source place with
      | none => rfl
      | some k => exact (hdashed.left place hplace k hj hk).symm
    | some j =>
      cases hk : m.source place with
      | none => exact hdashed.right place hplace j hj hk
      | some k =>
        by_cases hjk : j = k
        · rw [hjk]
        · exact hdashed.moved place hplace j k hj hk hjk
  · intro hsame
    constructor
    · intro place hplace j hnone hsome
      have hchar := hsame place hplace
      rw [hnone,hsome] at hchar
      exact hchar.symm
    · intro place hplace j hsome hnone
      have hchar := hsame place hplace
      rwa [hnone,hsome] at hchar
    · intro place hplace j k hj hk _
      have hchar := hsame place hplace
      rwa [hj,hk] at hchar

theorem source_name {l : FieldLengths} {i : ℕ} (h : i < l.trimmed.name) :
    l.source (l.trimmed.namespaced + 1 + i) = some (l.namespaced + i) := by
  unfold FieldLengths.source
  dsimp only
  rw [if_neg (by omega),if_neg (by omega),if_pos (by omega),Nat.add_sub_cancel_left]

theorem source_port (l : FieldLengths) (i : ℕ) :
    l.source (l.trimmed.namespaced + l.trimmed.name + 2 + i) = some (l.namespaced + l.name + i) := by
  unfold FieldLengths.source
  dsimp only
  rw [if_neg (by omega),if_neg (by omega),if_neg (by omega),if_neg (by omega),Nat.add_sub_cancel_left]

/-- Fields that are left with the same lengths take their characters from where the name
and the port begin. -/
theorem repeats_iff {l m : FieldLengths} {text : Str} (htotal : l.trimmed.total = 30) (htrimmed : l.trimmed = m.trimmed) :
    l.Repeats m text ↔ ∀ place < 32, charFrom text (l.source place) = charFrom text (m.source place) := by
  unfold FieldLengths.total at htotal
  constructor
  · intro hrepeats place hplace
    unfold FieldLengths.source
    dsimp only
    rw [← htrimmed]
    split
    · rfl
    split
    · rfl
    split
    · exact hrepeats.name _ (by omega)
    split
    · rfl
    · exact hrepeats.port _ (by omega)
  · intro hsame
    constructor
    · intro i hi
      have hchar := hsame (l.trimmed.namespaced + 1 + i) (by omega)
      rw [source_name hi] at hchar
      rw [htrimmed,source_name (htrimmed ▸ hi)] at hchar
      exact hchar
    · intro i hi
      have hchar := hsame (l.trimmed.namespaced + l.trimmed.name + 2 + i) (by omega)
      rw [source_port] at hchar
      rw [htrimmed,source_port] at hchar
      exact hchar

theorem overlaid_iff {l m : FieldLengths} {text : Str} (htotal : l.trimmed.total = 30) :
    l.Overlaid m text ↔ ∀ place < 32, charFrom text (l.source place) = charFrom text (m.source place) := by
  constructor
  · intro hover
    cases hover with
    | repeated trimmed h => exact (repeats_iff htotal trimmed).mp h
    | dashed trimmed h => exact dashed_iff.mp h
  · intro hsame
    by_cases htrimmed : l.trimmed = m.trimmed
    · exact .repeated htrimmed ((repeats_iff htotal htrimmed).mpr hsame)
    · exact .dashed htrimmed (dashed_iff.mpr hsame)

/-- Two labels of one text are the same exactly if the lengths are not told apart. -/
theorem label_eq_iff (hf : f.Valid) (hg : g.Valid) (hlong : 30 < f.lengths.total) (hjoined : f.joined = g.joined) :
    f.label = g.label ↔ f.lengths.Overlaid g.lengths f.joined := by
  have hlong' : 30 < g.lengths.total := by
    have hlength := congrArg List.length hjoined
    simp only [joined,List.length_append] at hlength
    rwa [show g.lengths.total = f.lengths.total from hlength.symm]
  obtain ⟨label,hlabel⟩ := hf.label
  obtain ⟨label',hlabel'⟩ := hg.label
  obtain ⟨hlength,hat⟩ := hf.getElem?_label hlong hlabel
  obtain ⟨hlength',hat'⟩ := hg.getElem?_label hlong' hlabel'
  rw [hlabel,hlabel',Option.some_inj,overlaid_iff (hf.trimmed_spec hlong).2.2.2]
  constructor
  · rintro rfl place hplace
    rw [← hat place hplace,hat' place hplace,hjoined]
  · intro hsame
    apply List.ext_getElem?
    intro place
    by_cases hplace : place < 32
    · rw [hat place hplace,hat' place hplace,hsame place hplace,hjoined]
    · rw [List.getElem?_eq_none (by omega),List.getElem?_eq_none (by omega)]

end NEGFields

theorem length_negSuffix (md5 : MD5) (f : NEGFields) : (negSuffix md5 f).length = 8 := by
  rw [negSuffix,List.length_take,md5.length_hex]
  rfl

namespace Namer
variable {n : Namer} {md5 : MD5} {f g : NEGFields}

theorem neg_eq_iff {label label' : Str} (hf : f.label = some label) (hg : g.label = some label') :
    n.neg md5 f = n.neg md5 g ↔ label = label' ∧ negSuffix md5 f = negSuffix md5 g := by
  unfold neg
  rw [hf,hg,Option.map_some,Option.map_some,Option.some_inj,List.append_cancel_left_eq,List.cons_inj_right]
  constructor
  · intro h
    obtain ⟨hlabel,hsuffix⟩ := List.append_inj' h (by simp [length_negSuffix])
    exact ⟨hlabel,(List.cons.inj hsuffix).2⟩
  · rintro ⟨rfl,hsuffix⟩
    rw [hsuffix]

/-- The fields are too long together, they do not differ in what is hashed, and for this
text their lengths give the same label. -/
structure NEGConfused (f g : NEGFields) : Prop where
  long : 30 < f.lengths.total
  joined : f.joined = g.joined
  overlaid : f.lengths.Overlaid g.lengths f.joined

/-- Two service ports whose hashes do not collide have NEGs of different names, unless
their fields are confused. -/
theorem neg_distinct_iff (hf : f.Valid) (hg : g.Valid) (hne : f ≠ g)
    (hhash : negSuffix md5 f = negSuffix md5 g → f.joined = g.joined) :
    (∃ a b, n.neg md5 f = some a ∧ n.neg md5 g = some b ∧ a ≠ b) ↔ ¬NEGConfused f g := by
  obtain ⟨label,hlabel⟩ := hf.label
  obtain ⟨label',hlabel'⟩ := hg.label
  have hiff : n.neg md5 f = n.neg md5 g ↔ label = label' ∧ negSuffix md5 f = negSuffix md5 g :=
    neg_eq_iff hlabel hlabel'
  constructor
  · rintro ⟨a,b,ha,hb,hdiff⟩ hconfused
    have hsame := (NEGFields.label_eq_iff hf hg hconfused.long hconfused.joined).mpr hconfused.overlaid
    have hsuffix : negSuffix md5 f = negSuffix md5 g := by rw [negSuffix,hconfused.joined,negSuffix]
    rw [hlabel,hlabel',Option.some_inj] at hsame
    rw [hiff.mpr ⟨hsame,hsuffix⟩,hb] at ha
    exact hdiff (Option.some.inj ha).symm
  · intro hclear
    have hname : ∀ {h : NEGFields} {l : Str}, h.label = some l → ∃ a, n.neg md5 h = some a := by
      intro h l hl
      exact ⟨_,by rw [neg,hl]; rfl⟩
    obtain ⟨a,ha⟩ := hname hlabel
    obtain ⟨b,hb⟩ := hname hlabel'
    refine ⟨a,b,ha,hb,?_⟩
    rintro rfl
    obtain ⟨rfl,hsuffix⟩ := hiff.mp (ha.trans hb.symm)
    have hjoined := hhash hsuffix
    have hsame : f.label = g.label := hlabel.trans hlabel'.symm
    by_cases hlong : 30 < f.lengths.total
    · exact hclear ⟨hlong,hjoined,(NEGFields.label_eq_iff hf hg hlong hjoined).mp hsame⟩
    · exact hne (NEGFields.eq_of_short hf hg (f.totalLength_le_iff.mpr (not_lt.mp hlong)) hjoined hsame)

/-- The beginning of a text as its hash. -/
def paddedText : MD5 where
  hex s := (s ++ List.replicate 32 '0').take 32
  length_hex s := by simp

/-- The letter that has moved is followed by another one. -/
theorem neg_distinct_moved_letter : ∃ a b,
    (setUID "uid".toList).neg paddedText
      ⟨"projects-web-staging".toList,"xylophone-backend-v2".toList,"80".toList⟩ = some a ∧
    (setUID "uid".toList).neg paddedText
      ⟨"projects-web-stagingx".toList,"ylophone-backend-v2".toList,"80".toList⟩ = some b ∧ a ≠ b := by
  have hname : ∀ s ∈ ["projects-web-staging".toList,"xylophone-backend-v2".toList,"80".toList,
      "projects-web-stagingx".toList,"ylophone-backend-v2".toList], KubeName s := by
    intro s hs
    exact ⟨by revert s; decide,by revert s; decide,by revert s; decide,by revert s; decide⟩
  refine (neg_distinct_iff ⟨hname _ (by simp),hname _ (by simp),hname _ (by simp)⟩
    ⟨hname _ (by simp),hname _ (by simp),hname _ (by simp)⟩ (by decide) (fun _ => by decide)).mpr ?_
  intro hconfused
  cases hconfused.overlaid with
  | repeated trimmed h => exact absurd (h.name 0 (by decide)) (by decide)
  | dashed trimmed h => exact absurd (by decide) trimmed

/-- A character may move from the namespace to the name of a service without a trace. -/
theorem shared_neg_name : ∃ f g : NEGFields, f.Valid ∧ g.Valid ∧ f ≠ g ∧
    ∀ (n : Namer) (md5 : MD5), ∃ name, n.neg md5 f = some name ∧ n.neg md5 g = some name := by
  have hname : ∀ k ∈ [19,20,21], KubeName (List.replicate k 'a') := by
    intro k hk
    exact ⟨by revert k; decide,by revert k; decide,by revert k; decide,by revert k; decide⟩
  have hport : KubeName "80".toList := ⟨by decide,by decide,by decide,by decide⟩
  refine ⟨⟨List.replicate 20 'a',List.replicate 20 'a',"80".toList⟩,
    ⟨List.replicate 21 'a',List.replicate 19 'a',"80".toList⟩,
    ⟨hname 20 (by simp),hname 20 (by simp),hport⟩,⟨hname 21 (by simp),hname 19 (by simp),hport⟩,by decide,?_⟩
  intro n md5
  have hlabel : NEGFields.label ⟨List.replicate 20 'a',List.replicate 20 'a',"80".toList⟩ =
      some (List.replicate 15 'a' ++ '-' :: (List.replicate 14 'a' ++ "-8".toList)) := by decide
  have hlabel' : NEGFields.label ⟨List.replicate 21 'a',List.replicate 19 'a',"80".toList⟩ =
      some (List.replicate 15 'a' ++ '-' :: (List.replicate 14 'a' ++ "-8".toList)) := by decide
  have hsuffix : negSuffix md5 ⟨List.replicate 20 'a',List.replicate 20 'a',"80".toList⟩ =
      negSuffix md5 ⟨List.replicate 21 'a',List.replicate 19 'a',"80".toList⟩ :=
    congrArg (fun s => (md5.hex s).take 8) (by decide)
  refine ⟨_,by rw [neg,hlabel]; rfl,?_⟩
  rw [neg,hlabel',← hsuffix]
  rfl

/-- The UID `u` begins the UID `v`, or it goes on where `v` ends like the name of the NEG. -/
def Covers (u v : Namer) (md5 : MD5) (f : NEGFields) : Prop :=
  ∃ label, f.label = some label ∧ (u.clusterName <+: v.clusterName ∨
    ∃ w, u.clusterName = v.clusterName ++ '-' :: w ∧ w <+: label ++ '-' :: negSuffix md5 f)

theorem prefix_append_iff {s t r : Str} : s <+: t ++ r ↔ s <+: t ∨ ∃ w, s = t ++ w ∧ w <+: r := by
  constructor
  · rintro ⟨rest,h⟩
    rcases List.append_eq_append_iff.mp h with ⟨w,rfl,_⟩ | ⟨w,rfl,rfl⟩
    · exact Or.inl (List.prefix_append s w)
    · exact Or.inr ⟨w,rfl,List.prefix_append w rest⟩
  · rintro (h | ⟨w,rfl,h⟩)
    · exact h.trans (List.prefix_append t r)
    · exact (List.prefix_append_right_inj t).mpr h

theorem isNEG_neg_iff {u v : Namer} {name : Str} (h : v.neg md5 f = some name) :
    u.isNEG name = true ↔ Covers u v md5 f := by
  obtain ⟨label,hlabel,rfl⟩ := Option.map_eq_some_iff.mp h
  have hstart : ∀ n : Namer, n.negPrefix = "k8s1-".toList ++ n.clusterName := fun n => rfl
  rw [isNEG,List.isPrefixOf_iff_prefix,hstart,hstart,List.append_assoc,List.prefix_append_right_inj,
    prefix_append_iff]
  constructor
  · rintro (hpre | ⟨w,hw,hpre⟩)
    · exact ⟨label,hlabel,Or.inl hpre⟩
    · cases w with
      | nil => exact ⟨label,hlabel,Or.inl (by rw [hw,List.append_nil])⟩
      | cons c w =>
        obtain ⟨hdash,hrest⟩ := List.cons_prefix_cons.mp hpre
        rw [hdash] at hw
        exact ⟨label,hlabel,Or.inr ⟨w,hw,hrest⟩⟩
  · rintro ⟨label',hlabel',hcase⟩
    obtain rfl : label = label' := Option.some.inj (hlabel.symm.trans hlabel')
    rcases hcase with hpre | ⟨w,hw,hpre⟩
    · exact Or.inl hpre
    · exact Or.inr ⟨'-' :: w,hw,List.cons_prefix_cons.mpr ⟨rfl,hpre⟩⟩

end Namer
end IngressGce
