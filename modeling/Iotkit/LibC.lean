/-
# Strings of the C library

Memory is a function from offsets to bytes, and a string is what stands in it before the first
zero.  For `strncmp` and `strncpy` over such memory: two strings compare as equal exactly when
their first `n` bytes hold the same string, and a bounded copy leaves the string of its source.
Numbers in text are read by `atoi`, by way of a `long` of 64 bits.  `strstr` finds a text at its
first place in a string, and finds it there in every longer string.
-/
import Mathlib

/-- A row of bytes. -/
abbrev Bytes := List UInt8

/-- The bytes at the offsets from a pointer. -/
abbrev Memory := ℕ → UInt8

namespace LibC

open List

/-- The string that the first `n` bytes of memory hold. -/
def cstr (mem : Memory) : ℕ → Bytes
  | 0 => []
  | n + 1 => if mem 0 = 0 then [] else mem 0 :: cstr (fun j => mem (j + 1)) n

/-- Memory that holds a string and zeros behind it. -/
def ofString (s : Bytes) : ℕ → UInt8 := fun j => s.getD j 0

/-- `strncmp(a, b, n) == 0`. -/
def strncmpEq (a b : Memory) : ℕ → Bool
  | 0 => true
  | n + 1 =>
    if a 0 ≠ b 0 then false
    else if a 0 = 0 then true
    else strncmpEq (fun j => a (j + 1)) (fun j => b (j + 1)) n

/-- `strncpy(dst, src, n)`: the string of `src`, padded with zeros, up to `n` bytes. -/
def strncpy (dst src : Memory) (n : ℕ) : ℕ → UInt8 :=
  fun j => if j < n then ofString (cstr src n) j else dst j

def isSpace (c : UInt8) : Bool := c = 32 || (9 ≤ c && c ≤ 13)

def isDigit (c : UInt8) : Bool := 48 ≤ c && c ≤ 57

/-- The number that a row of digits stands for. -/
def digitsVal (s : Bytes) : ℕ := s.foldl (fun n c => 10 * n + (c.toNat - 48)) 0

/-- The digits at the start of a text as a number. -/
def leadingNat (s : Bytes) : ℤ := digitsVal (s.takeWhile isDigit)

/-- `strtol(s, NULL, 10)`, which stops at the first byte that does not belong to the number and
keeps to the range of a `long`. -/
def strtol (s : Bytes) : ℤ :=
  match s.dropWhile isSpace with
  | 45 :: rest => max (-2 ^ 63) (-leadingNat rest)
  | 43 :: rest => min (2 ^ 63 - 1) (leadingNat rest)
  | rest => min (2 ^ 63 - 1) (leadingNat rest)

/-- The value of an `int` expression. -/
def toInt32 (x : ℤ) : ℤ := x.bmod (2 ^ 32)

abbrev intMax : ℤ := 2 ^ 31 - 1

theorem toInt32_of_bounds {x : ℤ} (hlow : 0 ≤ x) (hhigh : x < 2 ^ 31) : toInt32 x = x :=
  Int.bmod_eq_of_le (by norm_num; omega) (by norm_num; omega)

def atoi (s : Bytes) : ℤ := toInt32 (strtol s)

/-- `strstr(s, pat)`: the string from the first place of `pat` on. -/
def strstr (pat : Bytes) : Bytes → Option Bytes
  | [] => if pat = [] then some [] else none
  | c :: s => if pat <+: c :: s then some (c :: s) else strstr pat s

/-- A digit as a character. -/
def digitChar (d : ℕ) : UInt8 := UInt8.ofNat (48 + d)

/-- A number as text, without leading zeros. -/
def natText (n : ℕ) : Bytes :=
  if n = 0 then [48] else ((Nat.digits 10 n).map digitChar).reverse

/-- What `printf` writes for `%d`. -/
def intText (x : ℤ) : Bytes := if x < 0 then 45 :: natText x.natAbs else natText x.natAbs

/-- What `printf` writes for `%u` given an `int`. -/
def uintText (x : ℤ) : Bytes := natText (x % 2 ^ 32).toNat

/-! ## The string in memory -/

/-- A string is no longer than its buffer. -/
theorem length_cstr_le (mem : Memory) (n : ℕ) : (cstr mem n).length ≤ n := by
  induction n generalizing mem with
  | zero => exact le_refl 0
  | succ n ih =>
    rw [cstr]
    split
    · exact Nat.zero_le _
    · exact Nat.succ_le_succ (ih _)

/-- A string has no zero. -/
theorem zero_notMem_cstr (mem : Memory) (n : ℕ) : 0 ∉ cstr mem n := by
  induction n generalizing mem with
  | zero => simp [cstr]
  | succ n ih =>
    rw [cstr]
    split
    · simp
    · next hne => simpa [Ne.symm hne] using ih _

variable {s : Bytes} {n : ℕ}

/-- A string that stands in memory, with its zero if there is room, is the string read there. -/
theorem cstr_eq_of_forall {mem : Memory} (hnul : 0 ∉ s)
    (hbytes : ∀ j < s.length, mem j = s.getD j 0) (hend : s.length < n → mem s.length = 0)
    (hlen : s.length ≤ n) : cstr mem n = s := by
  induction s generalizing mem n with
  | nil =>
    cases n with
    | zero => rfl
    | succ n => exact if_pos (hend (Nat.succ_pos n))
  | cons c s ih =>
    obtain ⟨n, rfl⟩ : ∃ k, n = k + 1 := ⟨n - 1, by simp at hlen; omega⟩
    rw [mem_cons, not_or] at hnul
    have hfirst : mem 0 = c := by simpa using hbytes 0 (by simp)
    rw [cstr, hfirst, if_neg (Ne.symm hnul.1)]
    congr 1
    refine ih hnul.2 (fun j hj => ?_) (fun hlt => hend (Nat.succ_lt_succ hlt)) (by simpa using hlen)
    simpa using hbytes (j + 1) (by simpa using hj)

/-- A string that fits is read back. -/
theorem cstr_ofString (hnul : 0 ∉ s) (hlen : s.length ≤ n) : cstr (ofString s) n = s :=
  cstr_eq_of_forall hnul (fun _ _ => rfl) (fun _ => by simp [ofString]) hlen

/-- No string gets longer. -/
theorem length_cstr_ofString_le (s : Bytes) (n : ℕ) :
    (cstr (ofString s) n).length ≤ s.length := by
  induction s generalizing n with
  | nil => cases n <;> simp [cstr, ofString]
  | cons c s ih =>
    cases n with
    | zero => simp [cstr]
    | succ n =>
      rw [cstr]
      split
      · simp
      · exact Nat.succ_le_succ (ih n)

/-! ## Comparison and copy -/

/-- **Comparison.**  `strncmp` says equal exactly when the first `n` bytes hold the same string. -/
theorem strncmpEq_iff (a b : Memory) (n : ℕ) :
    strncmpEq a b n = true ↔ cstr a n = cstr b n := by
  induction n generalizing a b with
  | zero => simp [strncmpEq, cstr]
  | succ n ih =>
    rw [strncmpEq, cstr, cstr]
    by_cases hne : a 0 ≠ b 0
    · rw [if_pos hne]
      by_cases ha : a 0 = 0 <;> by_cases hb : b 0 = 0 <;> simp_all
    rw [if_neg hne]
    rw [not_not] at hne
    by_cases ha : a 0 = 0
    · rw [if_pos ha, if_pos ha, if_pos (hne ▸ ha)]
      simp
    · rw [if_neg ha, if_neg ha, if_neg (hne ▸ ha), ih, hne, List.cons.injEq]
      simp

/-- `strncpy` leaves what is behind its bound. -/
theorem strncpy_of_le (dst src : Memory) {j : ℕ} (h : n ≤ j) : strncpy dst src n j = dst j :=
  if_neg (not_lt.mpr h)

/-- **Copy.**  Where a zero stands behind the bytes that are written, the copy holds the string
of the source, as far as it fits. -/
theorem cstr_strncpy {dst src : Memory} {m : ℕ} (hend : dst n = 0) (hlt : n < m) :
    cstr (strncpy dst src n) m = cstr src n := by
  have hlen := length_cstr_le src n
  refine cstr_eq_of_forall (zero_notMem_cstr src n) (fun j hj => ?_) (fun _ => ?_) (by omega)
  · exact if_pos (hj.trans_le hlen)
  · rcases hlen.lt_or_eq with hshort | hfull
    · rw [strncpy, if_pos hshort]
      simp [ofString]
    · rw [strncpy_of_le _ _ hfull.ge, hfull, hend]

/-! ## Search -/

variable {pat : Bytes}

/-- What is found starts with the pattern and ends the text. -/
theorem strstr_spec {u : Bytes} (h : strstr pat s = some u) : pat <+: u ∧ u <:+ s := by
  induction s with
  | nil =>
    rw [strstr] at h
    split_ifs at h with hpat
    obtain rfl := Option.some.inj h
    exact ⟨by rw [hpat], suffix_rfl⟩
  | cons c s ih =>
    rw [strstr] at h
    split_ifs at h with hpat
    · obtain rfl := Option.some.inj h
      exact ⟨hpat, suffix_rfl⟩
    · exact ⟨(ih h).1, (ih h).2.trans (suffix_cons c s)⟩

/-- What is found is found in a longer text. -/
theorem strstr_append {u : Bytes} (h : strstr pat s = some u) (t : Bytes) :
    strstr pat (s ++ t) = some (u ++ t) := by
  induction s with
  | nil =>
    rw [strstr] at h
    split_ifs at h with hpat
    obtain rfl := Option.some.inj h
    subst hpat
    cases t <;> simp [strstr]
  | cons c s ih =>
    obtain ⟨hpre, hsuf⟩ := strstr_spec h
    rw [strstr] at h
    rw [cons_append, strstr]
    split_ifs at h with hpat
    · obtain rfl := Option.some.inj h
      have hlong : pat <+: c :: (s ++ t) := hpat.trans (prefix_append (c :: s) t)
      rw [if_pos hlong, cons_append]
    · have hlen : pat.length ≤ (c :: s).length := hpre.length_le.trans hsuf.length_le
      have hnot : ¬ pat <+: c :: (s ++ t) := fun hlong =>
        hpat (prefix_of_prefix_length_le hlong (prefix_append (c :: s) t) hlen)
      rw [if_neg hnot, ih h]

/-- A text that stands at the end of a string only is not in any shorter part of it. -/
theorem strstr_eq_none_of_append {pat s t : Bytes} (h : strstr pat (s ++ t) = some pat)
    (ht : t ≠ []) : strstr pat s = none := by
  rw [Option.eq_none_iff_forall_ne_some]
  intro u hu
  have hlen := congrArg List.length (Option.some.inj ((strstr_append hu t).symm.trans h))
  have hpre := (strstr_spec hu).1.length_le
  have hpos := length_pos_of_ne_nil ht
  rw [length_append] at hlen
  omega

/-! ## Numbers as text -/

/-- The value of one digit more. -/
theorem digitsVal_concat (s : Bytes) (c : UInt8) :
    digitsVal (s ++ [c]) = 10 * digitsVal s + (c.toNat - 48) := by
  simp [digitsVal, foldl_append]

theorem toNat_digitChar {d : ℕ} (h : d < 10) : (digitChar d).toNat = 48 + d := by
  rw [digitChar, UInt8.toNat_ofNat']
  omega

theorem isDigit_digitChar {d : ℕ} (h : d < 10) : isDigit (digitChar d) = true := by
  have hnat := toNat_digitChar h
  simp only [isDigit, Bool.and_eq_true, decide_eq_true_eq, UInt8.le_iff_toNat_le, hnat]
  exact ⟨Nat.le_add_right 48 d, by simpa using Nat.add_le_add_left (Nat.le_of_lt_succ h) 48⟩

theorem isDigit_of_mem_natText {c : UInt8} (h : c ∈ natText n) : isDigit c = true := by
  unfold natText at h
  split_ifs at h
  · rw [mem_singleton.mp h]
    decide
  · rw [mem_reverse, mem_map] at h
    obtain ⟨d, hd, rfl⟩ := h
    exact isDigit_digitChar (Nat.digits_lt_base (by norm_num) hd)

theorem digitsVal_digits (n : ℕ) :
    digitsVal ((Nat.digits 10 n).map digitChar).reverse = n := by
  induction n using Nat.strong_induction_on with
  | _ n ih =>
    rcases Nat.eq_zero_or_pos n with rfl | hpos
    · rfl
    · rw [Nat.digits_def' (by norm_num) hpos, map_cons, reverse_cons,
        digitsVal_concat, ih (n / 10) (Nat.div_lt_self hpos (by norm_num)),
        toNat_digitChar (Nat.mod_lt n (by norm_num))]
      omega

/-- The digits of a number have its value. -/
theorem digitsVal_natText (n : ℕ) : digitsVal (natText n) = n := by
  unfold natText
  split_ifs with hzero
  · rw [hzero]
    rfl
  · exact digitsVal_digits n

theorem natText_ne_nil (n : ℕ) : natText n ≠ [] := by
  unfold natText
  split_ifs with hzero
  · simp
  · simpa using Nat.digits_ne_nil_iff_ne_zero.mpr hzero

variable {rest : Bytes}

/-- The number in front of other characters. -/
theorem leadingNat_natText_append (n : ℕ) (hrest : ∀ c ∈ rest.head?, isDigit c = false) :
    leadingNat (natText n ++ rest) = n := by
  have hnum : (natText n).takeWhile isDigit = natText n :=
    takeWhile_eq_self_iff.mpr fun c hc => isDigit_of_mem_natText hc
  have hstop : rest.takeWhile isDigit = [] := by
    cases rest with
    | nil => rfl
    | cons c rest =>
      rw [takeWhile_cons_of_neg]
      simpa using hrest c (by simp)
  have hall : (natText n ++ rest).takeWhile isDigit = natText n := by
    rw [takeWhile_append_of_pos fun c hc => isDigit_of_mem_natText hc, hstop, append_nil]
  rw [leadingNat, hall, digitsVal_natText]

/-- The number of a text. -/
theorem leadingNat_natText (n : ℕ) : leadingNat (natText n) = n := by
  have h : leadingNat (natText n ++ []) = n := leadingNat_natText_append n (by simp)
  rwa [append_nil] at h

theorem isSpace_of_isDigit {c : UInt8} (h : isDigit c = true) : isSpace c = false := by
  simp only [isDigit, isSpace, Bool.and_eq_true, decide_eq_true_eq, Bool.or_eq_false_iff,
    UInt8.le_iff_toNat_le] at h ⊢
  have hlow : 48 ≤ c.toNat := h.1
  refine ⟨decide_eq_false fun heq => ?_, Bool.and_eq_false_imp.mpr fun _ => ?_⟩
  · rw [heq] at hlow
    exact absurd hlow (by decide)
  · exact decide_eq_false fun hle => absurd (hlow.trans hle) (by decide)

theorem strtol_cons {c : UInt8} (h : isDigit c = true) (s : Bytes) :
    strtol (c :: s) = min (2 ^ 63 - 1) (leadingNat (c :: s)) := by
  have hspace := isSpace_of_isDigit h
  have hdrop : (c :: s).dropWhile isSpace = c :: s :=
    dropWhile_cons_of_neg (by simp [hspace])
  unfold strtol
  rw [hdrop]
  split
  · next heq =>
      obtain ⟨rfl, -⟩ := List.cons.inj heq
      exact absurd h (by decide)
  · next heq =>
      obtain ⟨rfl, -⟩ := List.cons.inj heq
      exact absurd h (by decide)
  · rfl

/-- Other characters may follow. -/
theorem strtol_natText_append (n : ℕ) (hrest : ∀ c ∈ rest.head?, isDigit c = false) :
    strtol (natText n ++ rest) = min (2 ^ 63 - 1) (n : ℤ) := by
  obtain ⟨c, digits, hcons⟩ := exists_cons_of_ne_nil (natText_ne_nil n)
  have hdigit : isDigit c = true := isDigit_of_mem_natText (hcons ▸ mem_cons_self)
  have hvalue := leadingNat_natText_append n hrest
  rw [hcons, cons_append] at hvalue ⊢
  rw [strtol_cons hdigit, hvalue]

/-- `strtol` reads a number up to its maximum. -/
theorem strtol_natText (n : ℕ) : strtol (natText n) = min (2 ^ 63 - 1) (n : ℤ) := by
  have h : strtol (natText n ++ []) = min (2 ^ 63 - 1) (n : ℤ) :=
    strtol_natText_append n (by simp)
  rwa [append_nil] at h

/-- A number of 32 bits is read back. -/
theorem atoi_uintText_append {x : ℤ} (hlow : -2 ^ 31 ≤ x) (hhigh : x < 2 ^ 31)
    (hrest : ∀ c ∈ rest.head?, isDigit c = false) : atoi (uintText x ++ rest) = x := by
  have hcast : ((x % 2 ^ 32).toNat : ℤ) = x % 2 ^ 32 :=
    Int.toNat_of_nonneg (Int.emod_nonneg x (by norm_num))
  rw [atoi, uintText, strtol_natText_append _ hrest, hcast]
  have hmin : min (2 ^ 63 - 1) (x % 2 ^ 32) = x % 2 ^ 32 := by omega
  have hmod : (x % 2 ^ 32).bmod (2 ^ 32) = x.bmod (2 ^ 32) := Int.emod_bmod x (2 ^ 32)
  rw [hmin, toInt32, hmod]
  exact Int.bmod_eq_of_le (by norm_num; omega) (by norm_num; omega)

/-- **The number is read back** from its text. -/
theorem atoi_intText {x : ℤ} (hlow : -2 ^ 31 ≤ x) (hhigh : x < 2 ^ 31) : atoi (intText x) = x := by
  have hint : toInt32 x = x := Int.bmod_eq_of_le (by norm_num; omega) (by norm_num; omega)
  unfold intText
  split_ifs with hneg
  · have hdrop : (45 :: natText x.natAbs).dropWhile isSpace = 45 :: natText x.natAbs :=
      dropWhile_cons_of_neg (by decide)
    have hstrtol : strtol (45 :: natText x.natAbs) = x := by
      unfold strtol
      rw [hdrop]
      show max (-2 ^ 63) (-leadingNat (natText x.natAbs)) = x
      rw [leadingNat_natText]
      omega
    rw [atoi, hstrtol, hint]
  · have hstrtol : strtol (natText x.natAbs) = x := by
      rw [strtol_natText]
      omega
    rw [atoi, hstrtol, hint]

/-- A number has enough digits. -/
theorem lt_pow_length_natText (n : ℕ) : n < 10 ^ (natText n).length := by
  unfold natText
  split_ifs with hzero
  · rw [hzero]
    norm_num
  · simpa using Nat.lt_base_pow_length_digits (by norm_num : 1 < 10)

/-- A short number is read back. -/
theorem atoi_intText_of_short {x : ℤ} (h : (intText x).length < 10) : atoi (intText x) = x := by
  have hnat : (natText x.natAbs).length ≤ 9 := by
    unfold intText at h
    split_ifs at h
    · rw [length_cons] at h
      omega
    · omega
  have hlt : x.natAbs < 10 ^ 9 :=
    (lt_pow_length_natText x.natAbs).trans_le (Nat.pow_le_pow_right (by norm_num) hnat)
  norm_num at hlt
  exact atoi_intText (by omega) (by omega)

/-- The value is bounded by the number of digits. -/
theorem digitsVal_lt (hs : ∀ c ∈ s, isDigit c = true) : digitsVal s < 10 ^ s.length := by
  induction s using List.reverseRecOn with
  | nil => exact Nat.one_pos
  | append_singleton s c ih =>
    have hc := hs c (mem_append_right s mem_cons_self)
    have hlt := ih fun d hd => hs d (mem_append_left [c] hd)
    have hdigit : c.toNat - 48 < 10 := by
      rw [isDigit, Bool.and_eq_true, decide_eq_true_eq, decide_eq_true_eq] at hc
      have hhigh := UInt8.le_iff_toNat_le.mp hc.2
      have h57 : (57 : UInt8).toNat = 57 := rfl
      omega
    rw [digitsVal_concat, length_append, pow_add]
    show _ < 10 ^ s.length * 10
    omega

/-- Fewer than ten digits are read as their value. -/
theorem atoi_digits (hs : ∀ c ∈ s, isDigit c = true) (hlen : s.length < 10) :
    atoi s = digitsVal s := by
  cases s with
  | nil => decide
  | cons c s =>
    have hlt : digitsVal (c :: s) < 10 ^ 9 :=
      (digitsVal_lt hs).trans_le (Nat.pow_le_pow_right (by norm_num) (Nat.le_of_lt_succ hlen))
    norm_num at hlt
    have hall : (c :: s).takeWhile isDigit = c :: s := takeWhile_eq_self_iff.mpr hs
    have hmin : min (2 ^ 63 - 1) (digitsVal (c :: s) : ℤ) = digitsVal (c :: s) := by omega
    rw [atoi, strtol_cons (hs c mem_cons_self), leadingNat, hall, hmin]
    exact toInt32_of_bounds (by omega) (by omega)

end LibC
