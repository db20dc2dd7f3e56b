import Mathlib.Algebra.Ring.Nat
import Mathlib.Data.List.Lex
import Mathlib.Order.Nat

/-!
# Numbers with a fixed number of digits

The last digits of a number, the most significant first. Padded to one width, numbers compare as
their digits do, so that a text of digits can stand for the number in every order.
-/

namespace Codes

variable {base w a b : ℕ}

/-- The last `w` digits of a number. -/
def digits (base : ℕ) : ℕ → ℕ → List ℕ
  | 0, _ => []
  | w + 1, n => n / base ^ w % base :: digits base w n

/-- The number some digits stand for. -/
def value (base : ℕ) : List ℕ → ℕ
  | [] => 0
  | d :: l => base ^ l.length * d + value base l

@[simp] lemma length_digits (base w n : ℕ) : (digits base w n).length = w := by
  induction w with
  | zero => rfl
  | succ w ih => rw [digits, List.length_cons, ih]

lemma digits_lt_base (hbase : 0 < base) : ∀ d ∈ digits base w a, d < base := by
  induction w with
  | zero => simp [digits]
  | succ w ih => exact List.forall_mem_cons.2 ⟨Nat.mod_lt _ hbase, ih⟩

variable {l : List ℕ}

lemma value_lt (hl : ∀ d ∈ l, d < base) : value base l < base ^ l.length := by
  induction l with
  | nil => simp [value]
  | cons d l ih =>
    obtain ⟨hd, hl⟩ := List.forall_mem_cons.1 hl
    have h := ih hl
    calc base ^ l.length * d + value base l < base ^ l.length * d + base ^ l.length := by omega
      _ = base ^ l.length * (d + 1) := (Nat.mul_succ _ _).symm
      _ ≤ base ^ l.length * base := Nat.mul_le_mul_left _ hd
      _ = base ^ (l.length + 1) := (Nat.pow_succ ..).symm

/-- Only the digits that are written count. -/
lemma digits_add_mul (base w a c : ℕ) : digits base w (base ^ w * c + a) = digits base w a := by
  induction w generalizing c with
  | zero => rfl
  | succ w ih =>
    have hsplit : base ^ (w + 1) * c + a = base ^ w * (base * c) + a := by
      rw [Nat.pow_succ, Nat.mul_assoc]
    rw [digits, digits, hsplit, ih]
    rcases Nat.eq_zero_or_pos (base ^ w) with hzero | hpos
    · simp [hzero]
    · rw [Nat.mul_add_div hpos, Nat.mul_add_mod]

/-- Digits are those of the number they stand for. -/
lemma digits_value (hl : ∀ d ∈ l, d < base) : digits base l.length (value base l) = l := by
  induction l with
  | nil => rfl
  | cons d l ih =>
    obtain ⟨hd, hl⟩ := List.forall_mem_cons.1 hl
    have hlt := value_lt hl
    rw [List.length_cons, digits, value, digits_add_mul, ih hl,
      Nat.mul_add_div (Nat.zero_lt_of_lt hlt), Nat.div_eq_of_lt hlt, Nat.add_zero,
      Nat.mod_eq_of_lt hd]

lemma value_digits (h : a < base ^ w) : value base (digits base w a) = a := by
  induction w generalizing a with
  | zero =>
    rw [Nat.pow_zero, Nat.lt_one_iff] at h
    rw [h, digits, value]
  | succ w ih =>
    have hpos : 0 < base ^ w := by
      rcases Nat.eq_zero_or_pos (base ^ w) with hzero | hpos
      · simp [Nat.pow_succ, hzero] at h
      · exact hpos
    have hdiv : a / base ^ w < base := Nat.div_lt_of_lt_mul (by rwa [Nat.pow_succ] at h)
    have hlast : digits base w a = digits base w (a % base ^ w) := by
      conv_lhs => rw [← Nat.div_add_mod a (base ^ w), digits_add_mul]
    rw [digits, value, length_digits, Nat.mod_eq_of_lt hdiv, hlast, ih (Nat.mod_lt _ hpos),
      Nat.div_add_mod]

lemma digits_inj (ha : a < base ^ w) (hb : b < base ^ w) (h : digits base w a = digits base w b) :
    a = b := by
  rw [← value_digits ha, h, value_digits hb]

/-- Numbers of one width compare as their digits. -/
lemma value_lt_value {m : List ℕ} (hlen : l.length = m.length) (hl : ∀ d ∈ l, d < base)
    (hm : ∀ d ∈ m, d < base) : value base l < value base m ↔ l < m := by
  induction l generalizing m with
  | nil => cases m <;> simp_all [value]
  | cons d l ih =>
    rcases m with _ | ⟨e, m⟩
    · simp at hlen
    obtain ⟨-, hl⟩ := List.forall_mem_cons.1 hl
    obtain ⟨-, hm⟩ := List.forall_mem_cons.1 hm
    have hlen : l.length = m.length := by simpa using hlen
    have hvl := value_lt hl
    have hvm := value_lt hm
    rw [List.cons_lt_cons_iff, ← ih hlen hl hm, value, value, hlen]
    rw [hlen] at hvl
    rcases lt_trichotomy d e with hlt | rfl | hgt
    · have := Nat.mul_le_mul_left (base ^ m.length) hlt
      rw [Nat.mul_succ] at this
      exact ⟨fun _ => .inl hlt, fun _ => by omega⟩
    · simp
    · have := Nat.mul_le_mul_left (base ^ m.length) hgt
      rw [Nat.mul_succ] at this
      exact ⟨fun _ => by omega, fun h => by omega⟩

lemma digits_lt_digits (ha : a < base ^ w) (hb : b < base ^ w) (hbase : 0 < base) :
    digits base w a < digits base w b ↔ a < b := by
  rw [← value_lt_value (by simp) (digits_lt_base hbase) (digits_lt_base hbase), value_digits ha,
    value_digits hb]

lemma map_add_lt_map_add (c : ℕ) : ∀ {l m : List ℕ}, l.map (c + ·) < m.map (c + ·) ↔ l < m
  | [], [] => Iff.rfl
  | [], _ :: _ => by simp
  | _ :: _, [] => by simp
  | d :: l, e :: m => by
    rw [List.map_cons, List.map_cons, List.cons_lt_cons_iff, List.cons_lt_cons_iff,
      map_add_lt_map_add c, Nat.add_lt_add_iff_left, Nat.add_left_cancel_iff]

end Codes
