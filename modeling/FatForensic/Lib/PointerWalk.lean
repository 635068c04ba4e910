import Mathlib.Computability.StateTransition
import Mathlib.Data.Finset.Card
import Mathlib.Data.List.Iterate
import Mathlib.Data.List.Nodup
import Mathlib.Logic.Function.Iterate

/-!
# Capped walks along pointers

A partial function `next` points from every element to at most one other.  The walk from `a`
lists `a`, the element it points to, and so on, cut at a cap.  A walk that ends below its cap
or meets an element twice has met every element that can be reached; so a cap above the size
of a finite set is enough to see whether the set is ever left.
-/

namespace PointerWalk

open StateTransition

variable {α : Type*} (next : α → Option α)

/-- The first `k` elements of the walk from `a`. -/
def walk : ℕ → α → List α
  | 0, _ => []
  | k + 1, a =>
    a :: match next a with
      | none => []
      | some b => walk k b

/-- The `i`-th element of the uncapped walk from `a`. -/
def nth (a : α) (i : ℕ) : Option α := (·.bind next)^[i] (some a)

variable {next} {a b : α} {k i j : ℕ}

/-! ## The uncapped walk -/

@[simp] lemma nth_zero : nth next a 0 = some a := rfl

lemma nth_succ : nth next a (i + 1) = (nth next a i).bind next :=
  Function.iterate_succ_apply' _ _ _

lemma iterate_none : (·.bind next)^[i] none = none := by
  induction i with
  | zero => rfl
  | succ i ih => rw [Function.iterate_succ_apply, Option.bind_none, ih]

lemma nth_succ_left : nth next a (i + 1) = (next a).bind (nth next · i) := by
  rw [nth, Function.iterate_succ_apply, Option.bind_some]
  cases next a with
  | none => exact iterate_none
  | some b => rfl

/-- Walks that meet stay together. -/
lemma nth_add_congr (h : nth next a i = nth next b j) (m : ℕ) :
    nth next a (i + m) = nth next b (j + m) := by
  rw [nth, nth, Nat.add_comm i, Nat.add_comm j, Function.iterate_add_apply,
    Function.iterate_add_apply]
  exact congrArg _ h

/-! ## The capped walk -/

lemma getElem?_walk : (walk next k a)[i]? = if i < k then nth next a i else none := by
  induction k generalizing a i with
  | zero => simp [walk]
  | succ k ih =>
    rw [walk]
    cases i with
    | zero => simp
    | succ i =>
      rw [List.getElem?_cons_succ, nth_succ_left]
      cases next a with
      | none => simp
      | some b => simp [ih]

lemma length_walk_le (k : ℕ) (a : α) : (walk next k a).length ≤ k := by
  by_contra hlt
  have hlt : k < (walk next k a).length := Nat.lt_of_not_le hlt
  have hsome := List.getElem?_eq_getElem hlt
  rw [getElem?_walk, if_neg (lt_irrefl k)] at hsome
  exact absurd hsome (by simp)

lemma mem_walk : b ∈ walk next k a ↔ ∃ i < k, nth next a i = some b := by
  rw [List.mem_iff_getElem?]
  constructor
  · rintro ⟨i, hi⟩
    rw [getElem?_walk] at hi
    split at hi
    next hlt => exact ⟨i, hlt, hi⟩
    next => exact absurd hi (by simp)
  · rintro ⟨i, hlt, hi⟩
    exact ⟨i, by rw [getElem?_walk, if_pos hlt, hi]⟩

lemma reaches_of_mem_walk (h : b ∈ walk next k a) : Reaches next a b := by
  obtain ⟨i, -, hi⟩ := mem_walk.mp h
  clear h
  induction i generalizing b with
  | zero =>
    rw [nth_zero, Option.some.injEq] at hi
    subst hi
    exact Relation.ReflTransGen.refl
  | succ i ih =>
    rw [nth_succ, Option.bind_eq_some_iff] at hi
    obtain ⟨c, hc, hcb⟩ := hi
    exact (ih hc).tail hcb

/-- A walk that meets an element twice goes round: its next element was met before. -/
lemma nth_mem_walk_of_not_nodup (h : ¬ (walk next k a).Nodup) (hb : nth next a k = some b) :
    b ∈ walk next k a := by
  rw [List.nodup_iff_getElem?_ne_getElem?] at h
  push Not at h
  obtain ⟨i, j, hij, hj, heq⟩ := h
  have hjk := lt_of_lt_of_le hj (length_walk_le k a)
  rw [getElem?_walk, getElem?_walk, if_pos (hij.trans hjk), if_pos hjk] at heq
  have hgo := nth_add_congr heq (k - j)
  rw [Nat.add_sub_of_le hjk.le, hb] at hgo
  exact mem_walk.mpr ⟨i + (k - j), by omega, hgo⟩

/-- A walk that ends below its cap or meets an element twice is closed under the pointers. -/
lemma next_mem_walk (h : (walk next k a).length < k ∨ ¬ (walk next k a).Nodup) {c : α}
    (hc : c ∈ walk next k a) (hb : next c = some b) : b ∈ walk next k a := by
  obtain ⟨i, hi, hic⟩ := mem_walk.mp hc
  have hsucc : nth next a (i + 1) = some b := by
    rw [nth_succ, hic, Option.bind_some, hb]
  by_cases hlast : i + 1 < k
  · exact mem_walk.mpr ⟨i + 1, hlast, hsucc⟩
  obtain rfl : i + 1 = k := by omega
  rcases h with hlen | hdup
  · have hnone := List.getElem?_eq_none (Nat.le_of_lt_succ hlen)
    rw [getElem?_walk, if_pos hi, hic] at hnone
    exact absurd hnone (by simp)
  · exact nth_mem_walk_of_not_nodup hdup hsucc

/-- Such a walk has met every element that can be reached. -/
lemma mem_walk_of_reaches (hk : 0 < k)
    (h : (walk next k a).length < k ∨ ¬ (walk next k a).Nodup) (hb : Reaches next a b) :
    b ∈ walk next k a := by
  induction hb with
  | refl => exact mem_walk.mpr ⟨0, hk, nth_zero⟩
  | tail _ hcb ih => exact next_mem_walk h ih hcb

/-- A walk inside of a finite set that meets no element twice is no longer than the set. -/
lemma length_walk_le_card {s : Finset α} (hs : ∀ c ∈ walk next k a, c ∈ s)
    (hnodup : (walk next k a).Nodup) : (walk next k a).length ≤ s.card := by
  classical
  rw [← List.toFinset_card_of_nodup hnodup]
  exact Finset.card_le_card fun c hc => hs c (List.mem_toFinset.mp hc)

/-- **A capped walk sees whether a set is left.**  With a cap above the size of a finite set,
the walk stays in the set just when all that can be reached lies in it. -/
theorem forall_mem_walk_iff {s : Finset α} (hk : s.card < k) :
    (∀ c ∈ walk next k a, c ∈ s) ↔ ∀ c, Reaches next a c → c ∈ s := by
  constructor
  · intro hall c hc
    by_contra hcs
    have hopen : ¬ ((walk next k a).length < k ∨ ¬ (walk next k a).Nodup) := by
      intro h
      exact hcs (hall c (mem_walk_of_reaches (by omega) h hc))
    push Not at hopen
    obtain ⟨hlen, hnodup⟩ := hopen
    -- the walk has more elements than the set, and no two of them are equal
    have hcard := length_walk_le_card hall hnodup
    omega
  · intro hall c hc
    exact hall c (reaches_of_mem_walk hc)

/-- An element of the walk comes after as many others as the uncapped walk says. -/
lemma nth_of_lt_length (h : i < (walk next k a).length) :
    nth next a i = some (walk next k a)[i] := by
  have hget := List.getElem?_eq_getElem h
  rwa [getElem?_walk, if_pos (lt_of_lt_of_le h (length_walk_le k a))] at hget

/-- A walk whose last element points nowhere meets no element twice. -/
lemma nodup_walk_of_getLast? (hb : (walk next k a).getLast? = some b) (hnext : next b = none) :
    (walk next k a).Nodup := by
  rw [List.getLast?_eq_getElem?] at hb
  obtain ⟨hlast, rfl⟩ := List.getElem?_eq_some_iff.mp hb
  have hend : nth next a (walk next k a).length = none := by
    have hsucc : (walk next k a).length = (walk next k a).length - 1 + 1 := by omega
    rw [hsucc, nth_succ, nth_of_lt_length hlast, Option.bind_some, hnext]
  rw [List.nodup_iff_getElem?_ne_getElem?]
  intro i j hij hj heq
  -- what is met twice is followed by the end twice, once inside of the walk
  rw [List.getElem?_eq_getElem (hij.trans hj), List.getElem?_eq_getElem hj,
    ← nth_of_lt_length (hij.trans hj), ← nth_of_lt_length hj] at heq
  have hlt : i + ((walk next k a).length - j) < (walk next k a).length := by omega
  have hgo := nth_add_congr heq ((walk next k a).length - j)
  rw [Nat.add_sub_of_le hj.le, hend, nth_of_lt_length hlt] at hgo
  exact absurd hgo (by simp)

/-- **A cap above the size of a finite set cuts cycles only.**  A walk inside of the set meets no
element twice exactly when its last element points nowhere. -/
theorem nodup_walk_iff {s : Finset α} (hk : s.card < k) (hs : ∀ c ∈ walk next k a, c ∈ s) :
    (walk next k a).Nodup ↔ ∃ b, (walk next k a).getLast? = some b ∧ next b = none := by
  constructor
  · intro hnodup
    have hcard := length_walk_le_card hs hnodup
    have hne : walk next k a ≠ [] := by
      cases k with
      | zero => omega
      | succ k => simp [walk]
    have hpos := List.length_pos_iff.mpr hne
    have hend : nth next a (walk next k a).length = none := by
      have hnone : (walk next k a)[(walk next k a).length]? = none :=
        List.getElem?_eq_none le_rfl
      rwa [getElem?_walk, if_pos (by omega)] at hnone
    have hlt : (walk next k a).length - 1 < (walk next k a).length := by omega
    have hlast := nth_of_lt_length hlt
    have hget : (walk next k a).getLast? = some ((walk next k a)[(walk next k a).length - 1]) := by
      rw [List.getLast?_eq_getElem?, List.getElem?_eq_getElem hlt]
    refine ⟨_, hget, ?_⟩
    have hsucc : (walk next k a).length = (walk next k a).length - 1 + 1 := by omega
    rwa [hsucc, nth_succ, hlast, Option.bind_some] at hend
  · rintro ⟨b, hb, hnext⟩
    exact nodup_walk_of_getLast? hb hnext

/-- A walk along a function that is stopped at some elements: its iterates up to the first such
element, or up to the cap. -/
lemma walk_eq_iterate (f : α → α) (stop : α → Prop) [DecidablePred stop] (k : ℕ) (a : α) :
    ∃ n ≤ k, walk (fun b => if stop b then none else some (f b)) k a = List.iterate f a n ∧
      (∀ i, i + 1 < n → ¬ stop (f^[i] a)) ∧ (n = k ∨ ∃ m, n = m + 1 ∧ stop (f^[m] a)) := by
  induction k generalizing a with
  | zero => exact ⟨0, le_rfl, rfl, fun i hi => absurd hi (by omega), Or.inl rfl⟩
  | succ k ih =>
    rw [walk]
    by_cases ha : stop a
    · refine ⟨1, by omega, ?_, fun i hi => absurd hi (by omega), Or.inr ⟨0, rfl, ha⟩⟩
      simp [ha, List.iterate]
    · obtain ⟨n, hle, hwalk, hgo, hend⟩ := ih (f a)
      refine ⟨n + 1, by omega, ?_, ?_, ?_⟩
      · simp only [if_neg ha, hwalk, List.iterate]
      · intro i hi
        cases i with
        | zero => exact ha
        | succ i => exact hgo i (by omega)
      · rcases hend with rfl | ⟨m, rfl, hm⟩
        · exact Or.inl rfl
        · exact Or.inr ⟨m + 1, rfl, hm⟩

/-- With room for it, the walk lists the iterates up to the first one that it is stopped at. -/
lemma walk_eq_iterate_of_stop {f : α → α} {stop : α → Prop} [DecidablePred stop] {k m : ℕ} {a : α}
    (hm : m < k) (hgo : ∀ i < m, ¬ stop (f^[i] a)) (hstop : stop (f^[m] a)) :
    walk (fun b => if stop b then none else some (f b)) k a = List.iterate f a (m + 1) := by
  obtain ⟨n, hle, hwalk, hbefore, hend⟩ := walk_eq_iterate f stop k a
  have hn : n ≤ m + 1 := by
    by_contra hlt
    exact hbefore m (by omega) hstop
  have hn' : n = m + 1 := by
    rcases hend with rfl | ⟨j, rfl, hj⟩
    · omega
    · have hjm : ¬ j < m := fun hlt => hgo j hlt hj
      omega
  rw [hwalk, hn']

/-- Pointers that agree on all that can be reached give the same walk. -/
lemma walk_congr {next' : α → Option α} (h : ∀ c, Reaches next a c → next' c = next c) :
    walk next' k a = walk next k a := by
  induction k generalizing a with
  | zero => rfl
  | succ k ih =>
    rw [walk, walk, h a .refl]
    cases hb : next a with
    | none => rfl
    | some b =>
      dsimp only
      rw [ih fun c hc => h c (Relation.ReflTransGen.head hb hc)]

/-- A walk along some of the pointers is the beginning of the walk along all of them. -/
lemma walk_prefix {next' : α → Option α} (h : ∀ c d, next' c = some d → next c = some d) :
    walk next' k a <+: walk next k a := by
  induction k generalizing a with
  | zero => exact List.prefix_rfl
  | succ k ih =>
    rw [walk, walk]
    cases hb : next' a with
    | none => exact List.prefix_append [a] _
    | some b =>
      rw [h a b hb, List.prefix_cons_inj]
      exact ih

/-! ## Pointers that go forward -/

section Forward

variable {next : ℕ → Option ℕ} (hlt : ∀ a b, next a = some b → a < b) {a b c k : ℕ}

include hlt

lemma le_of_reaches (h : Reaches next a b) : a ≤ b := by
  induction h with
  | refl => exact le_rfl
  | tail _ hcd ih => exact ih.trans (hlt _ _ hcd).le

/-- What is reached behind `a` is not passed over by the pointer of `a`. -/
lemma next_le_of_reaches (h : Reaches next a c) (hac : a < c) (hb : next a = some b) :
    b ≤ c := by
  rcases Relation.ReflTransGen.cases_head h with rfl | ⟨d, had, hdc⟩
  · exact absurd hac (lt_irrefl a)
  · obtain rfl : d = b := Option.some.inj (Eq.trans (Eq.symm had) hb)
    exact le_of_reaches hlt hdc

/-- Between `a` and its pointer nothing is reached from where `a` is reached. -/
lemma not_reaches_between {root : ℕ} (ha : Reaches next root a) (hb : next a = some b)
    (hac : a < c) (hcb : c < b) : ¬ Reaches next root c := by
  intro hc
  rcases reaches_total ha hc with h | h
  · exact absurd (next_le_of_reaches hlt h hac hb) (by omega)
  · exact absurd (le_of_reaches hlt h) (by omega)

lemma pairwise_lt_walk (k a : ℕ) : (walk next k a).Pairwise (· < ·) := by
  induction k generalizing a with
  | zero => exact List.Pairwise.nil
  | succ k ih =>
    rw [walk]
    cases hb : next a with
    | none => exact List.pairwise_singleton _ _
    | some b =>
      refine List.pairwise_cons.mpr ⟨fun c hc => ?_, ih b⟩
      exact lt_of_lt_of_le (hlt a b hb) (le_of_reaches hlt (reaches_of_mem_walk hc))

/-- A walk of `k` elements has met all that is reached among the next `k` numbers. -/
lemma mem_walk_of_lt (h : Reaches next a b) (hb : b < a + k) : b ∈ walk next k a := by
  induction k generalizing a with
  | zero => exact absurd (le_of_reaches hlt h) (by omega)
  | succ k ih =>
    rw [walk]
    rcases Relation.ReflTransGen.cases_head h with rfl | ⟨c, hac, hcb⟩
    · exact List.mem_cons_self
    · have hlt' := hlt a c hac
      have hac : next a = some c := hac
      rw [hac]
      exact List.mem_cons_of_mem _ (ih hcb (by omega))

end Forward

end PointerWalk
