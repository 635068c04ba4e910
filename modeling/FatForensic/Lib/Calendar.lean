import Mathlib.Data.Prod.Lex
import Mathlib.Data.Set.Card
import Mathlib.Order.Interval.Set.SuccPred
import Mathlib.Order.SuccPred.Archimedean
import Mathlib.Tactic

/-!
# The proleptic Gregorian calendar

A civil date carries the bounds of its month and day.  Dates are ordered by year, month and
day, every date is followed by the next day, and the later one of two dates is reached from
the earlier one day by day.  A function that grows by one from each day to the next
therefore counts days, up to a constant.
-/

namespace Calendar

/-! ## Counting along successors -/

section Count

open Order Set

variable {α : Type*} [LinearOrder α] [SuccOrder α] {f : α → ℤ}

lemma apply_succ_iterate (hf : ∀ a, f (succ a) = f a + 1) (a : α) (n : ℕ) :
    f (succ^[n] a) = f a + n := by
  induction n with
  | zero => simp
  | succ n ih =>
    rw [Function.iterate_succ_apply', hf, ih]
    push_cast
    ring

lemma ncard_Ico_succ_iterate [NoMaxOrder α] (a : α) (n : ℕ) :
    (Ico a (succ^[n] a)).Finite ∧ (Ico a (succ^[n] a)).ncard = n := by
  induction n with
  | zero => simp
  | succ n ih =>
    rw [Function.iterate_succ_apply', ← insert_Ico_right_eq_Ico_succ (le_succ_iterate n a)]
    exact ⟨ih.1.insert _, by rw [ncard_insert_of_notMem (by simp) ih.1, ih.2]⟩

/-- A function that grows by one at every step counts the steps between two elements. -/
theorem sub_eq_ncard [NoMaxOrder α] [IsSuccArchimedean α] (hf : ∀ a, f (succ a) = f a + 1)
    (a b : α) :
    f b - f a = (Ico a b).ncard - (Ico b a).ncard := by
  wlog hab : a ≤ b generalizing a b
  · rw [← neg_sub, this b a (le_of_not_ge hab), neg_sub]
  obtain ⟨n, rfl⟩ := hab.exists_succ_iterate
  rw [apply_succ_iterate hf, (ncard_Ico_succ_iterate a n).2, Ico_eq_empty (not_lt.mpr hab),
    ncard_empty]
  push_cast
  ring

end Count

/-! ## Dates -/

/-- A leap year: divisible by 4, and by 400 if by 100. -/
def IsLeap (year : ℤ) : Prop := 4 ∣ year ∧ (100 ∣ year → 400 ∣ year)

instance (year : ℤ) : Decidable (IsLeap year) := inferInstanceAs (Decidable (_ ∧ _))

/-- The number of days of a month. -/
def monthLength (year month : ℤ) : ℤ :=
  if month = 2 then if IsLeap year then 29 else 28
  else if month = 4 ∨ month = 6 ∨ month = 9 ∨ month = 11 then 30
  else 31

lemma monthLength_mem (year month : ℤ) : monthLength year month ∈ Set.Icc 28 31 := by
  unfold monthLength
  constructor <;> split_ifs <;> norm_num

/-- A civil date. -/
@[ext] structure Date where
  year : ℤ
  month : ℤ
  day : ℤ
  month_mem : month ∈ Set.Icc 1 12
  day_mem : day ∈ Set.Icc 1 (monthLength year month)

namespace Date

/-- The day after `d`. -/
def next (d : Date) : Date :=
  if hday : d.day < monthLength d.year d.month then
    { d with
      day := d.day + 1
      day_mem := ⟨by have := d.day_mem.1; omega, by omega⟩ }
  else if hmonth : d.month < 12 then
    { year := d.year
      month := d.month + 1
      day := 1
      month_mem := ⟨by have := d.month_mem.1; omega, by omega⟩
      day_mem := ⟨le_rfl, by have := (monthLength_mem d.year (d.month + 1)).1; omega⟩ }
  else
    { year := d.year + 1
      month := 1
      day := 1
      month_mem := ⟨le_rfl, by norm_num⟩
      day_mem := ⟨le_rfl, by have := (monthLength_mem (d.year + 1) 1).1; omega⟩ }

/-- 1970-01-01. -/
def epoch : Date where
  year := 1970
  month := 1
  day := 1
  month_mem := by decide
  day_mem := by decide

/-! ### The order -/

/-- The fields in the order of their weight. -/
def key (d : Date) : ℤ ×ₗ ℤ ×ₗ ℤ := toLex (d.year, toLex (d.month, d.day))

instance : LinearOrder Date := LinearOrder.lift' key (by
  intro d e h
  have hfields : (d.year, toLex (d.month, d.day)) = (e.year, toLex (e.month, e.day)) := h
  simp only [Prod.mk.injEq, EmbeddingLike.apply_eq_iff_eq] at hfields
  exact Date.ext hfields.1 hfields.2.1 hfields.2.2)

variable {d e : Date}

lemma lt_iff : d < e ↔ d.year < e.year ∨
    d.year = e.year ∧ (d.month < e.month ∨ d.month = e.month ∧ d.day < e.day) := by
  change key d < key e ↔ _
  rw [key, key, Prod.Lex.toLex_lt_toLex, Prod.Lex.toLex_lt_toLex]

/-- The three ways from a day to the next. -/
lemma next_cases (d : Date) :
    (d.next.year = d.year ∧ d.next.month = d.month ∧ d.next.day = d.day + 1) ∨
    (d.day = monthLength d.year d.month ∧ d.month < 12 ∧
      d.next.year = d.year ∧ d.next.month = d.month + 1 ∧ d.next.day = 1) ∨
    (d.day = monthLength d.year d.month ∧ d.month = 12 ∧
      d.next.year = d.year + 1 ∧ d.next.month = 1 ∧ d.next.day = 1) := by
  have hday := d.day_mem.2
  have hmonth := d.month_mem.2
  unfold next
  split
  next => exact .inl ⟨rfl, rfl, rfl⟩
  next h =>
    split
    next h' => exact .inr (.inl ⟨by omega, h', rfl, rfl, rfl⟩)
    next h' => exact .inr (.inr ⟨by omega, by omega, rfl, rfl, rfl⟩)

lemma lt_next (d : Date) : d < d.next := by
  rw [lt_iff]
  obtain ⟨hy, hm, hd⟩ | ⟨-, -, hy, hm, -⟩ | ⟨-, -, hy, -, -⟩ := d.next_cases <;> omega

/-- There is no day between `d` and the next day. -/
lemma next_le_iff : d.next ≤ e ↔ d < e := by
  constructor
  · intro h
    exact d.lt_next.trans_le h
  · intro h
    rw [← not_lt]
    intro hlt
    rw [lt_iff] at h hlt
    have hday := e.day_mem
    have hmonth := e.month_mem
    rw [Set.mem_Icc] at hday hmonth
    obtain ⟨hy, hm, hd⟩ | ⟨hlast, -, hy, hm, hd⟩ | ⟨hlast, hm, hy, hm', hd⟩ := d.next_cases
    · omega
    · -- `e` is in the month of `d`, after its last day
      have hsame : e.year = d.year ∧ e.month = d.month := by omega
      rw [hsame.1, hsame.2] at hday
      omega
    · have hsame : e.year = d.year ∧ e.month = d.month := by omega
      rw [hsame.1, hsame.2] at hday
      omega

instance : SuccOrder Date := SuccOrder.ofSuccLeIff next next_le_iff

@[simp] lemma succ_eq_next (d : Date) : Order.succ d = d.next := rfl

instance : NoMaxOrder Date := ⟨fun d => ⟨d.next, d.lt_next⟩⟩

/-- A number that orders the dates, with gaps. -/
def rank (d : Date) : ℤ := 372 * d.year + 31 * d.month + d.day

lemma rank_lt_rank (h : d < e) : d.rank < e.rank := by
  have hd := d.day_mem
  have he := e.day_mem
  have hd' := d.month_mem
  have he' := e.month_mem
  have hlength := (monthLength_mem d.year d.month).2
  rw [Set.mem_Icc] at hd he hd' he'
  rw [lt_iff] at h
  unfold rank
  omega

instance : IsSuccArchimedean Date where
  exists_succ_iterate_of_le {d e} h := by
    -- every day passed brings the rank closer to the one of `e`
    induction hn : (e.rank - d.rank).toNat using Nat.strong_induction_on generalizing d with
    | h n ih =>
      obtain rfl | hlt := h.eq_or_lt
      · exact ⟨0, rfl⟩
      · have hrank := rank_lt_rank hlt
        have hnext := rank_lt_rank d.lt_next
        obtain ⟨k, hk⟩ := ih (e.rank - d.next.rank).toNat (by omega) (next_le_iff.mpr hlt) rfl
        exact ⟨k + 1, by rw [Function.iterate_succ_apply, succ_eq_next, hk]⟩

/-! ### Counting days -/

/-- The number of days from `e` to `d`, negative where `d` is the earlier one. -/
noncomputable def daysSince (e d : Date) : ℤ := (Set.Ico e d).ncard - (Set.Ico d e).ncard

/-- What grows by one from each day to the next counts days. -/
theorem eq_daysSince {f : Date → ℤ} (hnext : ∀ d, f d.next = f d + 1) {e : Date}
    (he : f e = 0) (d : Date) : f d = daysSince e d := by
  rw [daysSince, ← sub_eq_ncard hnext, he, sub_zero]

theorem strictMono_of_next {f : Date → ℤ} (hnext : ∀ d, f d.next = f d + 1) : StrictMono f := by
  refine strictMono_of_lt_succ ?_
  intro d _
  rw [succ_eq_next, hnext]
  omega

end Date
end Calendar
