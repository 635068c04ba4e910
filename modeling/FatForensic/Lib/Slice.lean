import Mathlib.Data.List.Basic
import Mathlib.Tactic

/-!
# Windows, overwrites and fixed-size chunks of a list

The vocabulary of code that reads a random-access byte source: the window of a given
length at a given offset (cut short at the end of the list), the overwrite of a window of
a buffer, and the division of a list into full chunks of one size.
-/

namespace Window

variable {α : Type*}

/-! ## Windows -/

/-- The window of `len` elements at offset `off`, cut short where the list ends. -/
def slice (xs : List α) (off len : ℕ) : List α := (xs.drop off).take len

@[simp] lemma length_slice (xs : List α) (off len : ℕ) :
    (slice xs off len).length = min len (xs.length - off) := by
  simp [slice]

@[simp] lemma slice_zero_len (xs : List α) (off : ℕ) : slice xs off 0 = [] := by
  simp [slice]

lemma getElem?_slice (xs : List α) (off len k : ℕ) :
    (slice xs off len)[k]? = if k < len then xs[off + k]? else none := by
  simp [slice, List.getElem?_take]

lemma getElem?_slice_of_lt {xs : List α} {off len k : ℕ} (h : k < len) :
    (slice xs off len)[k]? = xs[off + k]? := by
  rw [getElem?_slice, if_pos h]

/-- A window of a window, when it does not reach past the outer one. -/
lemma slice_slice (xs : List α) (off len o l : ℕ) (h : o + l ≤ len) :
    slice (slice xs off len) o l = slice xs (off + o) l := by
  apply List.ext_getElem?
  intro k
  simp only [getElem?_slice]
  by_cases hk : k < l
  · rw [if_pos hk, if_pos hk, if_pos (by omega), Nat.add_assoc]
  · rw [if_neg hk, if_neg hk]

/-- A window of a prefix, when it does not reach past it. -/
lemma slice_take (xs : List α) {n off len : ℕ} (h : off + len ≤ n) :
    slice (xs.take n) off len = slice xs off len := by
  rw [← Nat.zero_add off, ← slice_slice xs 0 n off len h, Nat.zero_add]
  simp only [slice, List.drop_zero]

/-- Two adjacent windows make one. -/
lemma slice_add (xs : List α) (off l m : ℕ) :
    slice xs off (l + m) = slice xs off l ++ slice xs (off + l) m := by
  simp only [slice, ← List.drop_drop]
  rw [List.take_add]

/-- The blocks of `m` elements from `off` on make the window up again. -/
lemma flatMap_slice_range_add (xs : List α) (off m n : ℕ) :
    (List.range n).flatMap (fun k => slice xs (off + m * k) m) = slice xs off (m * n) := by
  induction n with
  | zero => simp
  | succ n ih =>
    rw [List.range_succ, List.flatMap_append, ih, List.flatMap_singleton, Nat.mul_succ, slice_add]

/-- The blocks of `m` elements make the list up again. -/
lemma flatMap_slice_range (xs : List α) (m n : ℕ) :
    (List.range n).flatMap (fun k => slice xs (m * k) m) = xs.take (m * n) := by
  simpa [slice] using flatMap_slice_range_add xs 0 m n

lemma slice_append_right (xs ys : List α) {off len : ℕ} (h : xs.length ≤ off) :
    slice (xs ++ ys) off len = slice ys (off - xs.length) len := by
  simp only [slice, List.drop_append, List.drop_eq_nil_of_le h, List.nil_append]

lemma slice_eq_nil_of_le {xs : List α} {off : ℕ} (len : ℕ) (h : xs.length ≤ off) :
    slice xs off len = [] := by
  simp [slice, List.drop_eq_nil_of_le h]

/-- A window and what follows it. -/
lemma slice_append_drop (xs : List α) (off len : ℕ) :
    slice xs off len ++ xs.drop (off + (slice xs off len).length) = xs.drop off := by
  rw [length_slice, ← List.drop_drop, slice, ← List.length_drop]
  obtain hle | hle := Nat.le_total len (xs.drop off).length
  · rw [min_eq_left hle, List.take_append_drop]
  · rw [min_eq_right hle, List.take_of_length_le hle, List.drop_length, List.append_nil]

/-- Only at the end is a window empty. -/
lemma drop_eq_nil_of_slice_eq_nil {xs : List α} {off len : ℕ} (hlen : 0 < len)
    (h : slice xs off len = []) : xs.drop off = [] := by
  have hlength := congrArg List.length h
  rw [length_slice, List.length_nil] at hlength
  exact List.drop_eq_nil_of_le (by omega)

lemma drop_min_length (xs : List α) (n : ℕ) : xs.drop (min xs.length n) = xs.drop n := by
  obtain hle | hle := Nat.le_total xs.length n
  · rw [min_eq_left hle, List.drop_length, List.drop_eq_nil_of_le hle]
  · rw [min_eq_right hle]

/-- Changing an element outside of a window leaves the window alone. -/
lemma slice_set {i off len : ℕ} (h : i < off ∨ off + len ≤ i) (xs : List α) (a : α) :
    slice (xs.set i a) off len = slice xs off len := by
  apply List.ext_getElem?
  intro k
  simp only [getElem?_slice]
  by_cases hk : k < len
  · rw [if_pos hk, if_pos hk, List.getElem?_set_ne (by omega)]
  · rw [if_neg hk, if_neg hk]

/-- The elements of a window are those of the list at the offsets of the window. -/
lemma forall₂_slice (xs : List α) (off len : ℕ) :
    List.Forall₂ (fun a o => xs[o]? = some a) (slice xs off len)
      (List.range' off (min len (xs.length - off))) := by
  rw [List.forall₂_iff_get]
  refine ⟨by simp, fun i hi hi' => ?_⟩
  have hlt : i < min len (xs.length - off) := by simpa using hi'
  have hget : (slice xs off len)[i]? = xs[off + i]? := getElem?_slice_of_lt (lt_min_iff.mp hlt).1
  rw [List.getElem?_eq_getElem hi] at hget
  simpa using hget.symm

/-- Two lists of one length that differ in at most one place. -/
lemma eq_set_of_getElem?_eq {xs ys : List α} {i : ℕ} {a : α} (ha : ys[i]? = some a)
    (hlen : ys.length = xs.length) (h : ∀ j, j ≠ i → ys[j]? = xs[j]?) : ys = xs.set i a := by
  apply List.ext_getElem?
  intro j
  by_cases hj : j = i
  · subst hj
    have hlt := (List.getElem?_eq_some_iff.mp ha).1
    rw [ha, List.getElem?_set_self (by omega)]
  · rw [h j hj, List.getElem?_set_ne (Ne.symm hj)]

/-- Two lists of one length that agree outside of the positions from `lo` to `hi`. -/
structure AgreeOutside (lo hi : ℕ) (xs ys : List α) : Prop where
  length_eq : ys.length = xs.length
  getElem?_eq : ∀ k, k < lo ∨ hi ≤ k → ys[k]? = xs[k]?

/-- A window that lies outside is the same. -/
lemma AgreeOutside.slice_eq {lo hi off len : ℕ} {xs ys : List α} (h : AgreeOutside lo hi xs ys)
    (hout : off + len ≤ lo ∨ hi ≤ off) : slice ys off len = slice xs off len := by
  apply List.ext_getElem?
  intro k
  rw [getElem?_slice, getElem?_slice]
  by_cases hk : k < len
  · rw [if_pos hk, if_pos hk]
    exact h.getElem?_eq _ (hout.imp (by omega) (by omega))
  · rw [if_neg hk, if_neg hk]

/-! ## Overwrites -/

/-- The list with the elements from `off` on replaced by those of `ys`. -/
def overwrite (xs : List α) (off : ℕ) (ys : List α) : List α :=
  xs.take off ++ ys ++ xs.drop (off + ys.length)

@[simp] lemma overwrite_nil (xs : List α) (off : ℕ) : overwrite xs off [] = xs := by
  simp [overwrite]

lemma length_overwrite {xs ys : List α} {off : ℕ} (h : off + ys.length ≤ xs.length) :
    (overwrite xs off ys).length = xs.length := by
  simp only [overwrite, List.length_append, List.length_take, List.length_drop]
  omega

/-- Writing two adjacent pieces one after the other writes their concatenation. -/
lemma overwrite_overwrite {xs ys zs : List α} {off : ℕ} (h : off ≤ xs.length) :
    overwrite (overwrite xs off ys) (off + ys.length) zs = overwrite xs off (ys ++ zs) := by
  have hlen : (xs.take off ++ ys).length = off + ys.length := by
    simp only [List.length_append, List.length_take]
    omega
  have h1 : (overwrite xs off ys).take (off + ys.length) = xs.take off ++ ys := by
    rw [overwrite, List.take_left' hlen]
  have h2 : (overwrite xs off ys).drop (off + ys.length + zs.length)
      = xs.drop (off + (ys ++ zs).length) := by
    rw [overwrite, ← List.drop_drop, List.drop_left' hlen, List.drop_drop, List.length_append,
      Nat.add_assoc]
  rw [overwrite, h1, h2, overwrite, List.append_assoc (xs.take off)]

/-- Writing at the front: the written elements, then what the list had after them. -/
lemma overwrite_zero (xs ys : List α) :
    overwrite xs 0 ys = ys ++ xs.drop ys.length := by
  simp [overwrite]

/-- Writing back a window whose front was replaced writes the replacement only. -/
lemma overwrite_window {xs ys : List α} {off len : ℕ} (hlen : ys.length ≤ len)
    (h : off + len ≤ xs.length) :
    overwrite xs off (ys ++ (slice xs off len).drop ys.length) = overwrite xs off ys := by
  have hsplit : xs.drop (off + ys.length)
      = (slice xs off len).drop ys.length ++ xs.drop (off + len) := by
    have hend : off + len = off + ys.length + (len - ys.length) := by omega
    rw [slice, List.drop_take, List.drop_drop, hend,
      ← List.drop_drop (i := len - ys.length), List.take_append_drop]
  have hlast : off + (ys ++ (slice xs off len).drop ys.length).length = off + len := by
    rw [List.length_append, List.length_drop, length_slice]
    omega
  rw [overwrite, overwrite, hlast, hsplit]
  simp only [List.append_assoc]

lemma getElem?_overwrite_of_lt {xs ys : List α} {off i : ℕ} (hoff : off ≤ xs.length)
    (h : i < ys.length) : (overwrite xs off ys)[off + i]? = ys[i]? := by
  have htake : (xs.take off).length = off := List.length_take_of_le hoff
  rw [overwrite, List.append_assoc, List.getElem?_append_right (by omega), htake,
    List.getElem?_append_left (by omega)]
  congr 1
  omega

lemma getElem?_overwrite_zero {xs ys : List α} {i : ℕ} (hi : i < ys.length) :
    (overwrite xs 0 ys)[i]? = ys[i]? := by
  simpa using getElem?_overwrite_of_lt (Nat.zero_le xs.length) hi

lemma getElem?_overwrite_of_ge {xs ys : List α} {off i : ℕ} (hoff : off ≤ xs.length)
    (h : off + ys.length ≤ i) : (overwrite xs off ys)[i]? = xs[i]? := by
  have hlen : (xs.take off ++ ys).length = off + ys.length := by
    rw [List.length_append, List.length_take_of_le hoff]
  rw [overwrite, List.getElem?_append_right (by omega), hlen, List.getElem?_drop]
  congr 1
  omega

/-! ## Chunks -/

/-- The first `k` chunks of `n` elements, the last one possibly short. -/
def chunksFrom (n : ℕ) : ℕ → List α → List (List α)
  | 0, _ => []
  | k + 1, xs => xs.take n :: chunksFrom n k (xs.drop n)

/-- The full chunks of `n` elements, in order; a shorter rest is dropped. -/
def chunksExact (n : ℕ) (xs : List α) : List (List α) := chunksFrom n (xs.length / n) xs

@[simp] lemma length_chunksFrom (n k : ℕ) (xs : List α) : (chunksFrom n k xs).length = k := by
  induction k generalizing xs with
  | zero => rfl
  | succ k ih => simp [chunksFrom, ih]

@[simp] lemma length_chunksExact (n : ℕ) (xs : List α) :
    (chunksExact n xs).length = xs.length / n := by
  simp [chunksExact]

lemma getElem?_chunksFrom (n : ℕ) {k i : ℕ} (xs : List α) (h : i < k) :
    (chunksFrom n k xs)[i]? = some (slice xs (n * i) n) := by
  induction k generalizing xs i with
  | zero => omega
  | succ k ih =>
    cases i with
    | zero => simp [chunksFrom, slice]
    | succ i =>
      rw [chunksFrom, List.getElem?_cons_succ, ih _ (by omega)]
      simp only [slice, List.drop_drop, Nat.mul_succ, Nat.add_comm]

/-- The `i`-th full chunk is the window of `n` elements at `n * i`. -/
lemma getElem?_chunksExact (n i : ℕ) (xs : List α) :
    (chunksExact n xs)[i]? = if i < xs.length / n then some (slice xs (n * i) n) else none := by
  by_cases h : i < xs.length / n
  · rw [if_pos h, chunksExact, getElem?_chunksFrom n xs h]
  · rw [if_neg h, List.getElem?_eq_none (by simpa using Nat.le_of_not_lt h)]

/-- The full chunks are the windows at the multiples of their size. -/
lemma chunksExact_eq_map (n : ℕ) (xs : List α) :
    chunksExact n xs = (List.range (xs.length / n)).map fun i => slice xs (n * i) n := by
  apply List.ext_getElem?
  intro i
  rw [getElem?_chunksExact, List.getElem?_map]
  split
  next hi => rw [List.getElem?_range hi, Option.map_some]
  next hi => rw [List.getElem?_eq_none (by simpa using hi), Option.map_none]

/-- The chunks of a prefix of whole chunks are the first ones. -/
lemma chunksExact_take {n : ℕ} (hn : 0 < n) (m : ℕ) (xs : List α) :
    chunksExact n (xs.take (n * m)) = (chunksExact n xs).take m := by
  have hmono : Monotone fun k => k / n := fun _ _ h => Nat.div_le_div_right h
  have hlen : (xs.take (n * m)).length / n = min m (xs.length / n) := by
    rw [List.length_take]
    refine (hmono.map_min).trans ?_
    rw [Nat.mul_div_cancel_left _ hn]
  apply List.ext_getElem?
  intro i
  rw [getElem?_chunksExact, hlen, List.getElem?_take, getElem?_chunksExact]
  by_cases hi : i < m
  · have hle : n * i + n ≤ n * m := by
      rw [← Nat.mul_succ]
      exact Nat.mul_le_mul_left _ hi
    rw [if_pos hi, slice_take _ hle]
    simp only [lt_min_iff, hi, true_and]
  · rw [if_neg hi, if_neg (by omega)]

/-- Changing an element of a chunk changes that chunk only. -/
lemma chunksExact_set {n i k : ℕ} {xs c : List α} (hk : k < n)
    (hc : (chunksExact n xs)[i]? = some c) (a : α) :
    chunksExact n (xs.set (n * i + k) a) = (chunksExact n xs).set i (c.set k a) := by
  obtain ⟨hlt, rfl⟩ : i < xs.length / n ∧ slice xs (n * i) n = c := by
    rw [getElem?_chunksExact] at hc
    split at hc
    next hlt => exact ⟨hlt, Option.some.inj hc⟩
    next => exact absurd hc (by simp)
  apply List.ext_getElem?
  intro m
  rw [getElem?_chunksExact, List.length_set]
  by_cases hm : m = i
  · subst hm
    rw [if_pos hlt, List.getElem?_set_self (by simpa using hlt)]
    congr 1
    apply List.ext_getElem?
    intro j
    rw [getElem?_slice, List.getElem?_set, List.getElem?_set, getElem?_slice, length_slice]
    by_cases hj : j = k
    · subst hj
      have hle := Nat.div_mul_le_self xs.length n
      have hmul := Nat.mul_le_mul_left n (Nat.succ_le_of_lt hlt)
      rw [Nat.mul_succ, Nat.mul_comm n (xs.length / n)] at hmul
      rw [if_pos hk, if_pos rfl, if_pos rfl, if_pos (by omega), if_pos (by omega)]
    · rw [if_neg (by omega : ¬ n * m + k = n * m + j), if_neg (Ne.symm hj)]
  · rw [List.getElem?_set_ne (Ne.symm hm), getElem?_chunksExact]
    have hout : n * i + k < n * m ∨ n * m + n ≤ n * i + k := by
      rcases Nat.lt_or_gt_of_ne hm with h | h
      · have := Nat.mul_le_mul_left n (Nat.succ_le_of_lt h)
        rw [Nat.mul_succ] at this
        omega
      · have := Nat.mul_le_mul_left n (Nat.succ_le_of_lt h)
        rw [Nat.mul_succ] at this
        omega
    rw [slice_set hout]

@[simp] lemma chunksExact_nil (n : ℕ) : chunksExact n ([] : List α) = [] := by
  simp [chunksExact, chunksFrom]

/-- A full chunk in front is the first chunk. -/
lemma chunksExact_append {n : ℕ} (hn : 0 < n) {c : List α} (hc : c.length = n) (xs : List α) :
    chunksExact n (c ++ xs) = c :: chunksExact n xs := by
  have hlen : (c ++ xs).length / n = xs.length / n + 1 := by
    rw [List.length_append, hc, Nat.add_comm, Nat.add_div_right _ hn]
  rw [chunksExact, hlen, chunksFrom, List.take_left' hc, List.drop_left' hc, chunksExact]

/-- A list of full chunks is divided into these chunks. -/
lemma chunksExact_flatten_append {n : ℕ} (hn : 0 < n) {cs : List (List α)}
    (hcs : ∀ c ∈ cs, c.length = n) (xs : List α) :
    chunksExact n (cs.flatten ++ xs) = cs ++ chunksExact n xs := by
  induction cs with
  | nil => rfl
  | cons c cs ih =>
    rw [List.flatten_cons, List.append_assoc, chunksExact_append hn (hcs c (by simp)),
      ih fun d hd => hcs d (by simp [hd]), List.cons_append]

end Window
