import Mathlib.Tactic

/-!
# Little-endian byte strings

The number a byte string stands for, least significant byte first, and the byte string of
a given width that stands for a number.  The two are inverse to each other on byte strings
of one width and numbers that fit it.
-/

namespace LittleEndian

/-- The number with the given little-endian bytes. -/
def ofBytes : List UInt8 → ℕ
  | [] => 0
  | b :: bs => b.toNat + 256 * ofBytes bs

/-- The `w` little-endian bytes of `n`; what does not fit is dropped. -/
def toBytes : ℕ → ℕ → List UInt8
  | 0, _ => []
  | w + 1, n => UInt8.ofNat n :: toBytes w (n / 256)

@[simp] lemma length_toBytes (w n : ℕ) : (toBytes w n).length = w := by
  induction w generalizing n with
  | zero => rfl
  | succ w ih => simp [toBytes, ih]

lemma length_flatten_map_toBytes {α : Type*} (w : ℕ) (f : α → ℕ) (xs : List α) :
    (xs.map fun x => toBytes w (f x)).flatten.length = xs.length * w := by
  induction xs with
  | nil => simp
  | cons x xs ih =>
    rw [List.map_cons, List.flatten_cons, List.length_append, ih, length_toBytes,
      List.length_cons]
    ring

lemma ofBytes_toBytes (w n : ℕ) : ofBytes (toBytes w n) = n % 256 ^ w := by
  induction w generalizing n with
  | zero => simp [toBytes, ofBytes, Nat.mod_one]
  | succ w ih =>
    have hb : (UInt8.ofNat n).toNat = n % 256 := UInt8.toNat_ofNat'
    rw [toBytes, ofBytes, ih, hb, pow_succ', Nat.mod_mul]

lemma ofBytes_toBytes_of_lt {w n : ℕ} (h : n < 256 ^ w) : ofBytes (toBytes w n) = n := by
  rw [ofBytes_toBytes, Nat.mod_eq_of_lt h]

/-- Two byte strings of one length that stand for one number. -/
lemma ofBytes_inj {bs cs : List UInt8} (hlen : bs.length = cs.length)
    (h : ofBytes bs = ofBytes cs) : bs = cs := by
  induction bs generalizing cs with
  | nil => exact (List.length_eq_zero_iff.mp hlen.symm).symm
  | cons b bs ih =>
    cases cs with
    | nil => exact absurd hlen (by simp)
    | cons c cs =>
      have hb := b.toNat_lt
      have hc := c.toNat_lt
      rw [ofBytes, ofBytes] at h
      have hhead : b = c := UInt8.toNat_inj.mp (by omega)
      rw [hhead, ih (by simpa using hlen) (by omega)]

/-! ## Windows as digits -/

/-- Dropping bytes shifts the number. -/
lemma ofBytes_drop (n : ℕ) (bs : List UInt8) : ofBytes (bs.drop n) = ofBytes bs / 256 ^ n := by
  induction n generalizing bs with
  | zero => simp
  | succ n ih =>
    cases bs with
    | nil => simp [ofBytes]
    | cons b bs =>
      have hb : (b.toNat + 256 * ofBytes bs) / 256 = ofBytes bs := by
        have := b.toNat_lt
        omega
      rw [List.drop_succ_cons, ih, ofBytes, pow_succ', ← Nat.div_div_eq_div_mul, hb]

/-- Keeping the first bytes keeps the low digits. -/
lemma ofBytes_take (n : ℕ) (bs : List UInt8) : ofBytes (bs.take n) = ofBytes bs % 256 ^ n := by
  induction n generalizing bs with
  | zero => simp [ofBytes, Nat.mod_one]
  | succ n ih =>
    cases bs with
    | nil => simp [ofBytes]
    | cons b bs =>
      have hmod : (b.toNat + 256 * ofBytes bs) % 256 = b.toNat := by
        have := b.toNat_lt
        omega
      have hdiv : (b.toNat + 256 * ofBytes bs) / 256 = ofBytes bs := by
        have := b.toNat_lt
        omega
      rw [List.take_succ_cons, ofBytes, ofBytes, ih, pow_succ', Nat.mod_mul, hmod, hdiv]

/-! ## Packed digits -/

/-- A digit read back from a number put together from digits. -/
lemma ofDigits_div_pow_mod {b : ℕ} (hb : 1 < b) {l : List ℕ} (hl : ∀ x ∈ l, x < b) (i : ℕ) :
    Nat.ofDigits b l / b ^ i % b = l.getD i 0 := by
  rw [Nat.ofDigits_div_pow_eq_ofDigits_drop i (by omega) l hl]
  cases hdrop : l.drop i with
  | nil =>
    have hle : l.length ≤ i := List.drop_eq_nil_iff.mp hdrop
    rw [Nat.ofDigits_nil, Nat.zero_mod, List.getD_eq_getElem?_getD,
      List.getElem?_eq_none hle, Option.getD_none]
  | cons x rest =>
    have hx : l[i]? = some x := by rw [← List.head?_drop, hdrop, List.head?_cons]
    rw [Nat.ofDigits_cons, Nat.add_mul_mod_self_left, List.getD_eq_getElem?_getD, hx]
    exact Nat.mod_eq_of_lt (hl x (List.mem_of_getElem? hx))

/-- The bytes of a number of digits of `w` bits stand for it, if there is room for them all. -/
lemma ofBytes_toBytes_ofDigits {w n : ℕ} (hw : 0 < w) {l : List ℕ} (hl : ∀ x ∈ l, x < 2 ^ w)
    (hn : w * l.length ≤ 8 * n) :
    ofBytes (toBytes n (Nat.ofDigits (2 ^ w) l)) = Nat.ofDigits (2 ^ w) l := by
  apply ofBytes_toBytes_of_lt
  calc Nat.ofDigits (2 ^ w) l < (2 ^ w) ^ l.length :=
        Nat.ofDigits_lt_base_pow_length (Nat.one_lt_two_pow hw.ne') hl
    _ = 2 ^ (w * l.length) := (pow_mul _ _ _).symm
    _ ≤ 2 ^ (8 * n) := Nat.pow_le_pow_right (by norm_num) hn
    _ = 256 ^ n := by rw [pow_mul]; norm_num

end LittleEndian
