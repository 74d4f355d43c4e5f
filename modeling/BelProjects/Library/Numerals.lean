import Mathlib.Data.Nat.Digits.Defs
import Mathlib.Data.List.Basic

/-!
# Numerals

Numbers written as text in decimal or hexadecimal, and read back as the C library does
it when it has to find out the base: `0x` starts a hexadecimal numeral, another `0` an
octal one, and the numeral ends before the first character that is no digit.
-/

namespace Numerals

def digitValue (c : Char) : Option Nat :=
  if '0' ≤ c ∧ c ≤ '9' then some (c.toNat - 48)
  else if 'a' ≤ c ∧ c ≤ 'f' then some (c.toNat - 87)
  else if 'A' ≤ c ∧ c ≤ 'F' then some (c.toNat - 55)
  else none

/-- The value of the longest numeral at the front of the text, behind digits worth `acc`. -/
def leading (b acc : Nat) : List Char → Nat
  | [] => acc
  | c :: cs =>
    match digitValue c with
    | some d => if d < b then leading b (b * acc + d) cs else acc
    | none => acc

def isDigit (b : Nat) (c : Char) : Bool :=
  match digitValue c with
  | some d => d < b
  | none => false

/-- `strtoull` with base 0. Text without a numeral at its front has no value. -/
def read : List Char → Option Nat
  | '0' :: 'x' :: c :: cs => if isDigit 16 c then some (leading 16 0 (c :: cs)) else some 0
  | '0' :: 'X' :: c :: cs => if isDigit 16 c then some (leading 16 0 (c :: cs)) else some 0
  | '0' :: cs => some (leading 8 0 cs)
  | c :: cs => if isDigit 10 c then some (leading 10 0 (c :: cs)) else none
  | [] => none

def dec (n : Nat) : List Char := Nat.toDigits 10 n

def hex (n : Nat) : List Char := Nat.toDigits 16 n

/-- Hexadecimal with at least `width` digits. -/
def hexPadded (width n : Nat) : List Char :=
  '0' :: 'x' :: (List.replicate (width - (hex n).length) '0' ++ hex n)

/-! ### Digits -/

theorem digitValue_digitChar {d : Nat} (h : d < 16) : digitValue (Nat.digitChar d) = some d := by
  have hall : ∀ d : Fin 16, digitValue (Nat.digitChar d.1) = some d.1 := by decide
  exact hall ⟨d, h⟩

theorem leading_append {b : Nat} {ds cs : List Char}
    (h : ∀ c ∈ ds, isDigit b c = true) (acc : Nat) :
    leading b acc (ds ++ cs) = leading b (leading b acc ds) cs := by
  induction ds generalizing acc with
  | nil => rfl
  | cons c ds ih =>
    have hc := h c List.mem_cons_self
    unfold isDigit at hc
    rw [List.cons_append, leading, leading]
    cases hd : digitValue c with
    | none =>
      rw [hd] at hc
      cases hc
    | some d =>
      rw [hd] at hc
      have hlt : d < b := by simpa using hc
      simp only [if_pos hlt]
      exact ih (fun x hx => h x (List.mem_cons_of_mem _ hx)) _

theorem isDigit_digitChar {b d : Nat} (hd : d < b) (hb : b ≤ 16) :
    isDigit b (Nat.digitChar d) = true := by
  unfold isDigit
  rw [digitValue_digitChar (by omega)]
  exact decide_eq_true hd

variable {b : Nat}

theorem isDigit_of_mem_toDigits (h1 : 1 < b) (h16 : b ≤ 16) (n : Nat) :
    ∀ c ∈ Nat.toDigits b n, isDigit b c = true := by
  induction n using Nat.strong_induction_on with
  | h n ih =>
    intro c hc
    by_cases hn : n < b
    · rw [Nat.toDigits_of_lt_base hn, List.mem_singleton] at hc
      rw [hc]
      exact isDigit_digitChar hn h16
    · rw [Nat.toDigits_of_base_le h1 (by omega), List.mem_append, List.mem_singleton] at hc
      rcases hc with hc | rfl
      · exact ih (n / b) (Nat.div_lt_self (by omega) h1) c hc
      · exact isDigit_digitChar (Nat.mod_lt n (by omega)) h16

theorem leading_toDigits (h1 : 1 < b) (h16 : b ≤ 16) (n : Nat) :
    leading b 0 (Nat.toDigits b n) = n := by
  induction n using Nat.strong_induction_on with
  | h n ih =>
    by_cases hn : n < b
    · rw [Nat.toDigits_of_lt_base hn, leading, digitValue_digitChar (by omega)]
      simp only [if_pos hn, leading]
      omega
    · have hmod : n % b < b := Nat.mod_lt n (by omega)
      rw [Nat.toDigits_of_base_le h1 (by omega),
        leading_append (isDigit_of_mem_toDigits h1 h16 _),
        ih (n / b) (Nat.div_lt_self (by omega) h1), leading, digitValue_digitChar (by omega)]
      simp only [if_pos hmod, leading]
      exact Nat.div_add_mod n b

theorem leading_eq_zero {c : Char} (cs : List Char) (hc : isDigit b c = false) :
    leading b 0 (c :: cs) = 0 := by
  unfold isDigit at hc
  rw [leading]
  cases hd : digitValue c with
  | none => rfl
  | some d =>
    rw [hd] at hc
    exact if_neg (by simpa using hc)

theorem read_hex (cs : List Char) : read ('0' :: 'x' :: cs) = some (leading 16 0 cs) ∧
    read ('0' :: 'X' :: cs) = some (leading 16 0 cs) := by
  cases cs with
  | nil => exact ⟨rfl, rfl⟩
  | cons c cs =>
    cases hc : isDigit 16 c with
    | true => simp only [read, hc, if_true, and_self]
    | false => simp only [read, hc, Bool.false_eq_true, if_false, leading_eq_zero cs hc, and_self]

theorem leading_replicate_zero (h : 0 < b) (k : Nat) :
    leading b 0 (List.replicate k '0') = 0 := by
  induction k with
  | zero => rfl
  | succ k ih =>
    rw [List.replicate_succ, leading]
    have hzero : digitValue '0' = some 0 := by decide
    simp only [hzero, if_pos h, Nat.mul_zero, Nat.add_zero]
    exact ih

theorem isDigit_zero (h : 0 < b) : isDigit b '0' = true := by
  unfold isDigit
  have hzero : digitValue '0' = some 0 := by decide
  rw [hzero]
  exact decide_eq_true h

/-- A numeral starts with `0` only if it is the numeral of zero. -/
theorem head_toDigits (h1 : 1 < b) (h16 : b ≤ 16) {n : Nat} (hn : 0 < n) :
    ∃ c cs, Nat.toDigits b n = c :: cs ∧ c ≠ '0' := by
  induction n using Nat.strong_induction_on with
  | h n ih =>
    by_cases hlt : n < b
    · refine ⟨Nat.digitChar n, [], Nat.toDigits_of_lt_base hlt, ?_⟩
      rw [Ne, Nat.digitChar_eq_zero]
      omega
    · obtain ⟨c, cs, heq, hc⟩ := ih (n / b) (Nat.div_lt_self hn h1)
        (Nat.div_pos (by omega) (by omega))
      exact ⟨c, cs ++ [Nat.digitChar (n % b)],
        by rw [Nat.toDigits_of_base_le h1 (by omega), heq, List.cons_append], hc⟩

/-- Hexadecimal digits are written in lower case. -/
theorem upper_not_mem_hex (n : Nat) : 'D' ∉ hex n := by
  unfold hex
  induction n using Nat.strong_induction_on with
  | h n ih =>
    have hdigit : ∀ d : Fin 16, 'D' ≠ Nat.digitChar d.1 := by decide
    by_cases hn : n < 16
    · rw [Nat.toDigits_of_lt_base hn, List.mem_singleton]
      exact hdigit ⟨n, hn⟩
    · rw [Nat.toDigits_of_base_le (by omega) (by omega), List.mem_append, List.mem_singleton]
      rintro (h | h)
      · exact ih (n / 16) (Nat.div_lt_self (by omega) (by omega)) h
      · exact hdigit ⟨n % 16, Nat.mod_lt n (by omega)⟩ h

/-! ### Reading what was written -/

theorem read_of_ne_zero {c : Char} {cs : List Char} (hc : c ≠ '0') :
    read (c :: cs) = if isDigit 10 c then some (leading 10 0 (c :: cs)) else none := by
  unfold read
  split
  next heq => exact absurd (List.cons.inj heq).1 hc
  next heq => exact absurd (List.cons.inj heq).1 hc
  next heq => exact absurd (List.cons.inj heq).1 hc
  next heq =>
    cases heq
    rfl
  next heq => cases heq

theorem read_dec (n : Nat) : read (dec n) = some n := by
  rcases Nat.eq_zero_or_pos n with rfl | hn
  · decide
  · obtain ⟨c, cs, heq, hc⟩ := head_toDigits (b := 10) (by omega) (by omega) hn
    have hdigit := isDigit_of_mem_toDigits (b := 10) (by omega) (by omega) n c
      (by rw [heq]; exact List.mem_cons_self)
    unfold dec
    rw [heq, read_of_ne_zero hc, if_pos hdigit, ← heq, leading_toDigits (by omega) (by omega)]

theorem read_hexPadded (width n : Nat) : read (hexPadded width n) = some n := by
  have hdigits : ∀ c ∈ List.replicate (width - (hex n).length) '0', isDigit 16 c = true := by
    intro c hc
    rw [List.eq_of_mem_replicate hc]
    exact isDigit_zero (by omega)
  have hvalue : leading 16 0 (List.replicate (width - (hex n).length) '0' ++ hex n) = n := by
    rw [leading_append hdigits, leading_replicate_zero (by omega)]
    exact leading_toDigits (by omega) (by omega) n
  have hall : ∀ c ∈ List.replicate (width - (hex n).length) '0' ++ hex n, isDigit 16 c = true := by
    intro c hc
    rcases List.mem_append.1 hc with hc | hc
    · exact hdigits c hc
    · exact isDigit_of_mem_toDigits (by omega) (by omega) n c hc
  unfold hexPadded
  cases htext : List.replicate (width - (hex n).length) '0' ++ hex n with
  | nil =>
    have hnil : hex n = [] := (List.append_eq_nil_iff.1 htext).2
    exact absurd hnil Nat.toDigits_ne_nil
  | cons c cs =>
    rw [htext] at hvalue hall
    simp only [read, if_pos (hall c List.mem_cons_self), hvalue]

end Numerals
