import FatForensic.Lib.Slice

/-!
# Reading along an extent

An extent maps logical positions to stored elements, `get p` being `none` where no element
is stored for `p`.  Reading `k` positions from `pos` on delivers the elements up to the
first missing one.  The second half is about extents made of blocks of one size: logical
position `p` lies in block `p / size` at offset `p % size`; the last part is about lists of
address ranges.
-/

namespace Extent

open Window

variable {β : Type*}

/-! ## The readable run -/

/-- The elements at `pos`, `pos + 1`, … up to the first missing one, at most `k`. -/
def run (get : ℕ → Option β) : ℕ → ℕ → List β
  | _, 0 => []
  | pos, k + 1 =>
    match get pos with
    | none => []
    | some b => b :: run get (pos + 1) k

/-- `n` is the length of the longest run of consecutive positions from `pos` on that all
satisfy `ok`. -/
def IsLongestRun (ok : ℕ → Prop) (pos n : ℕ) : Prop :=
  (∀ k < n, ok (pos + k)) ∧ ¬ ok (pos + n)

variable {get get' : ℕ → Option β}

@[simp] lemma run_zero (pos : ℕ) : run get pos 0 = [] := by
  rw [run]

lemma run_succ_none {pos : ℕ} (h : get pos = none) (k : ℕ) : run get pos k = [] := by
  cases k with
  | zero => rw [run]
  | succ k => rw [run, h]

lemma run_succ_some {pos : ℕ} {b : β} (h : get pos = some b) (k : ℕ) :
    run get pos (k + 1) = b :: run get (pos + 1) k := by
  rw [run, h]

lemma length_run_le (pos k : ℕ) : (run get pos k).length ≤ k := by
  induction k generalizing pos with
  | zero => simp
  | succ k ih =>
    cases h : get pos with
    | none => simp [run_succ_none h]
    | some b =>
      rw [run_succ_some h, List.length_cons]
      exact Nat.succ_le_succ (ih (pos + 1))

/-- The `i`-th delivered element is the one stored at `pos + i`. -/
lemma getElem?_run {pos k i : ℕ} (hi : i < (run get pos k).length) :
    (run get pos k)[i]? = get (pos + i) := by
  induction k generalizing pos i with
  | zero => simp at hi
  | succ k ih =>
    cases h : get pos with
    | none => simp [run_succ_none h] at hi
    | some b =>
      rw [run_succ_some h] at hi ⊢
      cases i with
      | zero => simp [h]
      | succ i =>
        rw [List.getElem?_cons_succ, ih (by simpa using hi)]
        congr 1
        omega

/-- A run shorter than asked for ends at a missing element. -/
lemma get_length_run {pos k : ℕ} (h : (run get pos k).length < k) :
    get (pos + (run get pos k).length) = none := by
  induction k generalizing pos with
  | zero => simp at h
  | succ k ih =>
    cases hg : get pos with
    | none => simpa [run_succ_none hg] using hg
    | some b =>
      rw [run_succ_some hg, List.length_cons] at h ⊢
      have hrest : get (pos + 1 + (run get (pos + 1) k).length) = none := ih (by omega)
      rwa [Nat.add_assoc, Nat.add_comm 1] at hrest

/-- A run of `k` positions is delivered whole when all of them are stored. -/
lemma length_run_of_isSome {pos k : ℕ} (h : ∀ i < k, (get (pos + i)).isSome) :
    (run get pos k).length = k := by
  by_contra hne
  have hlt : (run get pos k).length < k := lt_of_le_of_ne (length_run_le pos k) hne
  have := h _ hlt
  rw [get_length_run hlt] at this
  exact absurd this (by simp)

/-- Asking for just what is delivered delivers the same. -/
lemma run_length_run (pos k : ℕ) : run get pos (run get pos k).length = run get pos k := by
  induction k generalizing pos with
  | zero => simp
  | succ k ih =>
    cases hg : get pos with
    | none => simp [run_succ_none hg]
    | some b => rw [run_succ_some hg, List.length_cons, run_succ_some hg, ih]

/-- Behind a missing element nothing more is delivered. -/
lemma run_eq_of_none {pos a k : ℕ} (h : get (pos + a) = none) (hle : a ≤ k) :
    run get pos k = run get pos a := by
  induction a generalizing pos k with
  | zero => rw [run_succ_none (by rwa [Nat.add_zero] at h), run_zero]
  | succ a ih =>
    obtain ⟨k, rfl⟩ : ∃ m, k = m + 1 := ⟨k - 1, by omega⟩
    cases hg : get pos with
    | none => rw [run_succ_none hg, run_succ_none hg]
    | some b =>
      rw [run_succ_some hg, run_succ_some hg,
        ih (by rwa [Nat.add_assoc, Nat.add_comm 1]) (by omega)]

/-- Reading on where a full read has ended. -/
lemma run_add_of_length {pos a : ℕ} (h : (run get pos a).length = a) (b : ℕ) :
    run get pos (a + b) = run get pos a ++ run get (pos + a) b := by
  induction a generalizing pos with
  | zero => simp
  | succ a ih =>
    cases hg : get pos with
    | none => simp [run_succ_none hg] at h
    | some c =>
      rw [run_succ_some hg, List.length_cons] at h
      rw [Nat.add_right_comm, run_succ_some hg, run_succ_some hg, List.cons_append,
        ih (by omega), Nat.add_assoc, Nat.add_comm 1]

/-- Runs over positions that store the same elements are equal. -/
lemma run_congr {pos pos' k : ℕ} (h : ∀ i < k, get (pos + i) = get' (pos' + i)) :
    run get pos k = run get' pos' k := by
  induction k generalizing pos pos' with
  | zero => simp
  | succ k ih =>
    have h0 : get pos = get' pos' := by simpa using h 0 (by omega)
    have hrest : run get (pos + 1) k = run get' (pos' + 1) k := by
      apply ih
      intro i hi
      have := h (i + 1) (by omega)
      rwa [Nat.add_assoc, Nat.add_assoc, Nat.add_comm 1]
    cases hg : get pos with
    | none => rw [run_succ_none hg, run_succ_none (h0 ▸ hg)]
    | some b => rw [run_succ_some hg, run_succ_some (h0 ▸ hg), hrest]

/-- Where less is stored, a run delivers the beginning of what it delivers else. -/
lemma run_prefix (h : ∀ p b, get p = some b → get' p = some b) {pos k k' : ℕ} (hk : k ≤ k') :
    run get pos k <+: run get' pos k' := by
  induction k generalizing pos k' with
  | zero =>
    rw [run_zero]
    exact List.nil_prefix
  | succ k ih =>
    obtain ⟨k', rfl⟩ : ∃ l, k' = l + 1 := ⟨k' - 1, by omega⟩
    cases hb : get pos with
    | none =>
      rw [run_succ_none hb]
      exact List.nil_prefix
    | some b =>
      rw [run_succ_some hb, run_succ_some (h pos b hb), List.prefix_cons_inj]
      exact ih (by omega)

/-- The positions a run delivers are the longest run of stored positions below `pos + k`. -/
lemma isLongestRun_run (pos k : ℕ) :
    IsLongestRun (fun p => p < pos + k ∧ (get p).isSome) pos (run get pos k).length := by
  refine ⟨fun i hi => ⟨?_, ?_⟩, ?_⟩
  · have hle : (run get pos k).length ≤ k := length_run_le pos k
    omega
  · rw [← getElem?_run hi, List.getElem?_eq_getElem hi]
    rfl
  · rintro ⟨hlt, hsome⟩
    have hnone : get (pos + (run get pos k).length) = none := get_length_run (by omega)
    rw [hnone] at hsome
    exact absurd hsome (by simp)

/-- Along a list the run is the window. -/
lemma run_getElem? (xs : List β) (pos k : ℕ) : run (xs[·]?) pos k = slice xs pos k := by
  induction k generalizing pos with
  | zero => simp
  | succ k ih =>
    by_cases h : pos < xs.length
    · rw [run_succ_some (List.getElem?_eq_getElem h), ih, Nat.add_comm k, slice_add]
      have h1 : slice xs pos 1 = [xs[pos]] := by
        rw [slice, List.drop_eq_getElem_cons h, List.take_succ_cons, List.take_zero]
      rw [h1, List.singleton_append]
    · rw [run_succ_none (List.getElem?_eq_none (by omega)), slice_eq_nil_of_le _ (by omega)]

/-- **Reading over the gaps.**  Collecting all stored elements gives the run just when no
element is stored behind a missing one. -/
lemma filterMap_range'_eq_run_iff (pos k : ℕ) :
    (List.range' pos k).filterMap get = run get pos k ↔
      ∀ p q, pos ≤ p → p < q → q < pos + k → (get q).isSome → (get p).isSome := by
  induction k generalizing pos with
  | zero =>
    simp only [List.range'_zero, List.filterMap_nil, run_zero, true_iff]
    omega
  | succ k ih =>
    rw [List.range'_succ, List.filterMap_cons]
    cases hg : get pos with
    | some b =>
      rw [run_succ_some hg, List.cons.injEq, and_iff_right rfl, ih]
      constructor
      · intro h p q hp hpq hq hsome
        rcases Nat.eq_or_lt_of_le hp with rfl | hp
        · rw [hg]
          rfl
        · exact h p q hp hpq (by omega) hsome
      · intro h p q hp hpq hq
        exact h p q (by omega) hpq (by omega)
    | none =>
      rw [run_succ_none hg, List.filterMap_eq_nil_iff]
      constructor
      · intro h p q hp hpq hq hsome
        rw [h q (List.mem_range'_1.mpr (by omega))] at hsome
        exact absurd hsome (by simp)
      · intro h q hq
        rw [List.mem_range'_1] at hq
        have hpos := h pos q (le_refl _) (by omega) (by omega)
        rw [hg] at hpos
        exact Option.not_isSome_iff_eq_none.mp fun hsome => absurd (hpos hsome) (by simp)

/-! ## Extents made of blocks -/

/-- Within one block, consecutive logical positions keep the block and advance the offset. -/
lemma div_mod_add_of_lt {size pos i : ℕ} (hsize : 0 < size) (h : i < size - pos % size) :
    (pos + i) / size = pos / size ∧ (pos + i) % size = pos % size + i := by
  have hdm := Nat.div_add_mod pos size
  have hlt : pos % size + i < size := by
    have := Nat.mod_lt pos hsize
    omega
  have hsplit : pos + i = pos % size + i + size * (pos / size) := by omega
  constructor
  · rw [hsplit, Nat.add_mul_div_left _ _ hsize, Nat.div_eq_of_lt hlt, Nat.zero_add]
  · rw [hsplit, Nat.add_mul_mod_self_left, Nat.mod_eq_of_lt hlt]

/-! ## Lists of address ranges -/

/-- The addresses that a list of ranges `(offset, len)` covers, range by range. -/
def addresses (runs : List (ℕ × ℕ)) : List ℕ := runs.flatMap fun r => List.range' r.1 r.2

@[simp] lemma addresses_nil : addresses [] = [] := rfl

@[simp] lemma addresses_append (rs rs' : List (ℕ × ℕ)) :
    addresses (rs ++ rs') = addresses rs ++ addresses rs' :=
  List.flatMap_append

@[simp] lemma addresses_singleton (off len : ℕ) : addresses [(off, len)] = List.range' off len :=
  List.flatMap_singleton _ _

lemma length_addresses (rs : List (ℕ × ℕ)) :
    (addresses rs).length = (rs.map Prod.snd).sum := by
  rw [addresses, List.length_flatMap]
  simp only [List.length_range']

/-- Where all addresses lie in a region, so do the ranges. -/
lemma range_mem_of_addresses {rs : List (ℕ × ℕ)} {lo hi : ℕ}
    (h : ∀ a ∈ addresses rs, lo ≤ a ∧ a < hi) {r : ℕ × ℕ} (hr : r ∈ rs) (hpos : 0 < r.2) :
    lo ≤ r.1 ∧ r.1 + r.2 ≤ hi := by
  have hmem : ∀ a, r.1 ≤ a → a < r.1 + r.2 → a ∈ addresses rs := fun a hle hlt =>
    List.mem_flatMap.mpr ⟨r, hr, List.mem_range'_1.mpr ⟨hle, hlt⟩⟩
  have hfirst := h r.1 (hmem _ (le_refl _) (by omega))
  have hlast := h (r.1 + r.2 - 1) (hmem _ (by omega) (by omega))
  omega

/-- Reading the ranges one after the other reads the elements at their addresses. -/
lemma flatMap_slice_eq_filterMap (xs : List β) (rs : List (ℕ × ℕ)) :
    (rs.flatMap fun r => slice xs r.1 r.2) = (addresses rs).filterMap (xs[·]?) := by
  have hrange : ∀ off len, slice xs off len = (List.range' off len).filterMap (xs[·]?) := by
    intro off len
    induction len generalizing off with
    | zero => simp
    | succ len ih =>
      rw [List.range'_succ, List.filterMap_cons, ← ih, ← run_getElem?, ← run_getElem?]
      cases h : xs[off]? with
      | none =>
        rw [run_succ_none h, run_getElem?, slice_eq_nil_of_le]
        rw [List.getElem?_eq_none_iff] at h
        omega
      | some b => rw [run_succ_some h]
  rw [addresses, List.filterMap_flatMap]
  exact congrArg (rs.flatMap ·) (funext fun r => hrange r.1 r.2)

end Extent
