import IngressGce.Naming.GoString
import Mathlib.Algebra.Group.Int.Defs
import Mathlib.Algebra.Group.Nat.Defs
import Mathlib.Tactic.Common

/-! # Decimal numerals

`itoa` is `strconv.Itoa`, which is also what the verb `%d` prints. `parseUint` and `atoi`
read a numeral from left to right and stop at the first character that is no digit or
that makes the number too large.
-/
namespace IngressGce.Decimal

def itoa : ℤ → Str
  | .ofNat n => Nat.toDigits 10 n
  | .negSucc n => '-' :: Nat.toDigits 10 (n + 1)

inductive NumError
  | malformed
  | outOfRange
  deriving DecidableEq, Repr

def NumError.error : NumError → Str
  | .malformed => "invalid syntax".toList
  | .outOfRange => "value out of range".toList

def parseDigits (bits : ℕ) : ℕ → Str → Except NumError ℕ
  | n, [] => .ok n
  | n, c :: cs =>
    if c.isDigit then
      if 10 * n + (c.toNat - '0'.toNat) < 2 ^ bits then parseDigits bits (10 * n + (c.toNat - '0'.toNat)) cs
      else .error .outOfRange
    else .error .malformed

/-- `strconv.ParseUint(s, 10, bits)`. -/
def parseUint (bits : ℕ) (s : Str) : Except NumError ℕ :=
  if s = [] then .error .malformed else parseDigits bits 0 s

/-- The text of an error of `parseUint`, for a numeral in which `Quote` has nothing to escape. -/
def parseUintError (s : Str) (e : NumError) : Str :=
  "strconv.ParseUint: parsing \"".toList ++ s ++ "\": ".toList ++ e.error

/-- The sign of a numeral and what follows it. -/
def splitSign : Str → Bool × Str
  | '-' :: s => (true,s)
  | '+' :: s => (false,s)
  | s => (false,s)

/-- `strconv.Atoi`, which also returns a number when it fails. -/
def atoi (s : Str) : ℤ × Option NumError :=
  let (neg,digits) := splitSign s
  match parseUint 64 digits with
  | .error .malformed => (0,some .malformed)
  | .error .outOfRange => (if neg then -2 ^ 63 else 2 ^ 63 - 1,some .outOfRange)
  | .ok n =>
    if neg then (if 2 ^ 63 < n then (-2 ^ 63,some .outOfRange) else (-n,none))
    else (if 2 ^ 63 ≤ n then (2 ^ 63 - 1,some .outOfRange) else (n,none))

theorem atoi_of_malformed {s : Str} (h : (atoi s).2 = some .malformed) : atoi s = (0,some .malformed) := by
  unfold atoi at h ⊢
  dsimp only at h ⊢
  split at h
  · rfl
  · cases h
  · split at h
    · split at h <;> cases h
    · split at h <;> cases h

theorem le_ofDigitChars (s : Str) (n : ℕ) : n ≤ Nat.ofDigitChars 10 s n := by
  induction s generalizing n with
  | nil => simp
  | cons c cs ih =>
    rw [Nat.ofDigitChars_cons]
    have hnext := ih (10 * n + (c.toNat - '0'.toNat))
    omega

theorem parseDigits_of_digits {bits : ℕ} {s : Str} {n : ℕ} (hs : ∀ c ∈ s, c.isDigit = true)
    (hlt : Nat.ofDigitChars 10 s n < 2 ^ bits) : parseDigits bits n s = .ok (Nat.ofDigitChars 10 s n) := by
  induction s generalizing n with
  | nil => simp [parseDigits]
  | cons c cs ih =>
    rw [Nat.ofDigitChars_cons] at hlt ⊢
    have hle := le_ofDigitChars cs (10 * n + (c.toNat - '0'.toNat))
    rw [parseDigits,if_pos (hs c List.mem_cons_self),if_pos (by omega)]
    exact ih (fun d hd => hs d (List.mem_cons_of_mem _ hd)) hlt

theorem parseUint_lt {bits : ℕ} {s : Str} {n : ℕ} (h : parseUint bits s = .ok n) : n < 2 ^ bits := by
  have hdigits : ∀ (s : Str) (m : ℕ), m < 2 ^ bits → parseDigits bits m s = .ok n → n < 2 ^ bits := by
    intro s
    induction s with
    | nil =>
      intro m hm h
      cases h
      exact hm
    | cons c cs ih =>
      intro m _ h
      unfold parseDigits at h
      split at h
      · split at h
        · rename_i hlt
          exact ih _ hlt h
        · cases h
      · cases h
  unfold parseUint at h
  split at h
  · cases h
  · exact hdigits s 0 (Nat.two_pow_pos bits) h

theorem isDigit_toDigits {n : ℕ} {c : Char} (h : c ∈ Nat.toDigits 10 n) : c.isDigit = true :=
  Nat.isDigit_of_mem_toDigits (by omega) (by omega) h

theorem parseUint_toDigits {bits n : ℕ} (hn : n < 2 ^ bits) : parseUint bits (Nat.toDigits 10 n) = .ok n := by
  have hvalue : Nat.ofDigitChars 10 (Nat.toDigits 10 n) 0 = n := Nat.ofDigitChars_ten_toDigits
  rw [parseUint,if_neg Nat.toDigits_ne_nil,parseDigits_of_digits (fun c => isDigit_toDigits) (by omega),hvalue]

theorem splitSign_of_digits {s : Str} (hs : ∀ c ∈ s, c.isDigit = true) : splitSign s = (false,s) := by
  unfold splitSign
  split
  · exact absurd (hs '-' List.mem_cons_self) (by decide)
  · exact absurd (hs '+' List.mem_cons_self) (by decide)
  · rfl

theorem splitSign_toDigits (n : ℕ) : splitSign (Nat.toDigits 10 n) = (false,Nat.toDigits 10 n) :=
  splitSign_of_digits fun _ => isDigit_toDigits

/-- Reading back what was printed. -/
theorem atoi_itoa {n : ℤ} (hlow : -2 ^ 63 ≤ n) (hhigh : n < 2 ^ 63) : atoi (itoa n) = (n,none) := by
  cases n with
  | ofNat n =>
    have hn : n < 2 ^ 63 := by
      have : (n : ℤ) < 2 ^ 63 := hhigh
      omega
    rw [itoa,atoi,splitSign_toDigits]
    simp only [parseUint_toDigits (show n < 2 ^ 64 by omega)]
    rw [if_neg (by simp),if_neg (by omega)]
    rfl
  | negSucc n =>
    have hn : n + 1 ≤ 2 ^ 63 := by omega
    have hsign : splitSign (itoa (.negSucc n)) = (true,Nat.toDigits 10 (n + 1)) := rfl
    rw [atoi,hsign]
    simp only [parseUint_toDigits (show n + 1 < 2 ^ 64 by omega)]
    rw [if_pos trivial,if_neg (by omega)]
    rfl

theorem parseDigits_of_large {bits : ℕ} {s : Str} {n : ℕ} (hs : ∀ c ∈ s, c.isDigit = true)
    (hlarge : 2 ^ bits ≤ Nat.ofDigitChars 10 s n) (hn : n < 2 ^ bits) : parseDigits bits n s = .error .outOfRange := by
  induction s generalizing n with
  | nil =>
    simp at hlarge
    omega
  | cons c cs ih =>
    rw [Nat.ofDigitChars_cons] at hlarge
    rw [parseDigits,if_pos (hs c List.mem_cons_self)]
    split
    · rename_i hlt
      exact ih (fun d hd => hs d (List.mem_cons_of_mem _ hd)) hlarge hlt
    · rfl

theorem parseUint_of_large {bits n : ℕ} (hn : 2 ^ bits ≤ n) :
    parseUint bits (Nat.toDigits 10 n) = .error .outOfRange := by
  have hvalue : Nat.ofDigitChars 10 (Nat.toDigits 10 n) 0 = n := Nat.ofDigitChars_ten_toDigits
  have hpos : 0 < 2 ^ bits := Nat.two_pow_pos bits
  rw [parseUint,if_neg Nat.toDigits_ne_nil]
  exact parseDigits_of_large (fun c => isDigit_toDigits) (by omega) hpos

/-- A numeral that does not fit is read as a number of the same sign that is as large
as they get. -/
theorem atoi_itoa_of_large {n : ℤ} (h : n < -2 ^ 63 ∨ 2 ^ 63 ≤ n) :
    (atoi (itoa n)).1 = -2 ^ 63 ∨ (atoi (itoa n)).1 = 2 ^ 63 - 1 := by
  cases n with
  | ofNat n =>
    have hn : 2 ^ 63 ≤ n := by
      have h' : (n : ℤ) < -2 ^ 63 ∨ 2 ^ 63 ≤ (n : ℤ) := h
      omega
    right
    rw [itoa,atoi,splitSign_toDigits]
    by_cases hfits : n < 2 ^ 64
    · simp only [parseUint_toDigits hfits]
      rw [if_neg (by simp),if_pos hn]
    · simp [parseUint_of_large (show 2 ^ 64 ≤ n by omega)]
  | negSucc n =>
    have hn : 2 ^ 63 < n + 1 := by omega
    have hsign : splitSign (itoa (.negSucc n)) = (true,Nat.toDigits 10 (n + 1)) := rfl
    left
    rw [atoi,hsign]
    by_cases hfits : n + 1 < 2 ^ 64
    · simp only [parseUint_toDigits hfits]
      rw [if_pos trivial,if_pos hn]
    · simp [parseUint_of_large (show 2 ^ 64 ≤ n + 1 by omega)]

/-- The number that a text of digits stands for. -/
def value (digits : Str) : ℕ := Nat.ofDigitChars 10 digits 0

theorem value_toDigits (n : ℕ) : value (Nat.toDigits 10 n) = n := Nat.ofDigitChars_ten_toDigits

theorem atoi_digits_iff {s : Str} (hne : s ≠ []) (hs : ∀ c ∈ s, c.isDigit = true) :
    (atoi s).2 = none ↔ value s < 2 ^ 63 := by
  rw [atoi,splitSign_of_digits hs]
  by_cases hfits : value s < 2 ^ 64
  · have hparse : parseUint 64 s = .ok (value s) := by
      rw [parseUint,if_neg hne]
      exact parseDigits_of_digits hs hfits
    simp only [hparse,Bool.false_eq_true,if_false]
    split
    · rename_i hlarge
      exact ⟨nofun,fun h => absurd h (Nat.not_lt.mpr hlarge)⟩
    · rename_i hsmall
      exact ⟨fun _ => Nat.lt_of_not_le hsmall,fun _ => rfl⟩
  · have hparse : parseUint 64 s = .error .outOfRange := by
      rw [parseUint,if_neg hne]
      exact parseDigits_of_large hs (Nat.le_of_not_lt hfits) (Nat.two_pow_pos 64)
    simp only [hparse]
    exact ⟨nofun,fun h => absurd h (by omega)⟩

theorem isDigit_toNat {c : Char} (h : c.isDigit = true) : c.toNat - '0'.toNat ≤ 9 := by
  simp only [Char.isDigit,Bool.and_eq_true,decide_eq_true_eq] at h
  have hle : c.toNat ≤ '9'.toNat := h.2
  have hnine : '9'.toNat = 57 := rfl
  have hzero : '0'.toNat = 48 := rfl
  omega

/-- A short text with a character that is no digit is found to be malformed before the
number gets too large. -/
theorem parseDigits_of_not_digit {s : Str} {n k : ℕ} (hn : n < 10 ^ k) (hk : k + s.length ≤ 19)
    (hs : ∃ c ∈ s, c.isDigit = false) : parseDigits 64 n s = .error .malformed := by
  induction s generalizing n k with
  | nil => simp at hs
  | cons c cs ih =>
    rw [parseDigits]
    split
    · rename_i hc
      have hdigit := isDigit_toNat hc
      have hstep : 10 * n + (c.toNat - '0'.toNat) < 10 ^ (k + 1) := by
        rw [Nat.pow_succ]
        omega
      have hmono : 10 ^ (k + 1) ≤ 10 ^ 19 := Nat.pow_le_pow_right (by omega) (by rw [List.length_cons] at hk; omega)
      rw [if_pos (by omega)]
      apply ih hstep
      · rw [List.length_cons] at hk
        omega
      · obtain ⟨d,hd,hdigit'⟩ := hs
        rcases List.mem_cons.mp hd with rfl | hd
        · rw [hc] at hdigit'
          cases hdigit'
        · exact ⟨d,hd,hdigit'⟩
    · rfl

theorem parseUint_of_not_digit {s : Str} (hlen : s.length ≤ 19) (hs : ∃ c ∈ s, c.isDigit = false) :
    parseUint 64 s = .error .malformed := by
  unfold parseUint
  split
  · rfl
  · exact parseDigits_of_not_digit (k := 0) (by omega) (by omega) hs

/-- A short text with a letter is no numeral. -/
theorem atoi_of_letter {s : Str} (hlen : s.length ≤ 19) (hs : ∃ c ∈ s, c.isLower = true) :
    atoi s = (0,some .malformed) := by
  have hdigit : ∃ c ∈ (splitSign s).2, c.isDigit = false := by
    obtain ⟨c,hc,hlower⟩ := hs
    have hnot : c.isDigit = false := by
      cases hd : c.isDigit with
      | false => rfl
      | true =>
        have hletter : (decide ('a'.val ≤ c.val) && decide (c.val ≤ 'z'.val)) = true := hlower
        simp only [Char.isDigit,Bool.and_eq_true,decide_eq_true_eq] at hd hletter
        have hle := UInt32.le_trans hletter.1 hd.2
        exact absurd hle (by decide)
    refine ⟨c,?_,hnot⟩
    unfold splitSign
    split
    · rcases List.mem_cons.mp hc with rfl | hc
      · exact absurd hlower (by decide)
      · exact hc
    · rcases List.mem_cons.mp hc with rfl | hc
      · exact absurd hlower (by decide)
      · exact hc
    · exact hc
  have hshort : (splitSign s).2.length ≤ 19 := by
    unfold splitSign
    split
    · exact Nat.le_of_succ_le hlen
    · exact Nat.le_of_succ_le hlen
    · exact hlen
  unfold atoi
  simp only [parseUint_of_not_digit hshort hdigit]

theorem mem_itoa {n : ℤ} {c : Char} (h : c ∈ itoa n) : c.isDigit = true ∨ c = '-' := by
  cases n with
  | ofNat n => exact Or.inl (isDigit_toDigits h)
  | negSucc n =>
    rcases List.mem_cons.mp h with rfl | h
    · exact Or.inr rfl
    · exact Or.inl (isDigit_toDigits h)

theorem toDigits_injective {m n : ℕ} (h : Nat.toDigits 10 m = Nat.toDigits 10 n) : m = n := by
  have hm : Nat.ofDigitChars 10 (Nat.toDigits 10 m) 0 = m := Nat.ofDigitChars_ten_toDigits
  have hn : Nat.ofDigitChars 10 (Nat.toDigits 10 n) 0 = n := Nat.ofDigitChars_ten_toDigits
  rw [← hm,h,hn]

theorem dash_not_mem_toDigits (n : ℕ) : '-' ∉ Nat.toDigits 10 n := fun h =>
  absurd (isDigit_toDigits h) (by decide)

theorem itoa_injective {m n : ℤ} (h : itoa m = itoa n) : m = n := by
  cases m with
  | ofNat m =>
    cases n with
    | ofNat n => rw [toDigits_injective h]
    | negSucc n =>
      refine absurd (?_ : '-' ∈ Nat.toDigits 10 m) (dash_not_mem_toDigits m)
      have h' : Nat.toDigits 10 m = '-' :: Nat.toDigits 10 (n + 1) := h
      simp [h']
  | negSucc m =>
    cases n with
    | ofNat n =>
      refine absurd (?_ : '-' ∈ Nat.toDigits 10 n) (dash_not_mem_toDigits n)
      have h' : '-' :: Nat.toDigits 10 (m + 1) = Nat.toDigits 10 n := h
      simp [← h']
    | negSucc n =>
      have h' : m + 1 = n + 1 := toDigits_injective (List.cons.inj h).2
      have hmn : m = n := by omega
      rw [hmn]

/-- What is read from a printed number is that number. -/
theorem eq_of_parseUint_itoa {bits n : ℕ} {m : ℤ} (h : parseUint bits (itoa m) = .ok n) : m = n := by
  cases m with
  | ofNat k =>
    by_cases hk : k < 2 ^ bits
    · have hparse := (parseUint_toDigits hk).symm.trans h
      rw [Except.ok.inj hparse]
      rfl
    · have hparse := (parseUint_of_large (Nat.le_of_not_lt hk)).symm.trans h
      cases hparse
  | negSucc k =>
    change parseUint bits ('-' :: Nat.toDigits 10 (k + 1)) = .ok n at h
    simp [parseUint,parseDigits] at h

end IngressGce.Decimal
