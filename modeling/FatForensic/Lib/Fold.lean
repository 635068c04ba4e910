import Mathlib.Tactic

/-!
# Folds that tell words apart

A checksum is a fold of a step function over the letters of a word.  When every step is
injective in the running value, two words that differ in one letter have different
checksums as soon as the step tells these two letters apart.
-/

namespace Fold

variable {σ α : Type*} {step : σ → α → σ}

/-- The step sends two letters to different values, from every running value. -/
def Separates (step : σ → α → σ) (a b : α) : Prop := ∀ s, step s a ≠ step s b

/-- A fold of injective steps is injective in its start value. -/
lemma foldl_injective {xs : List α} (h : ∀ a ∈ xs, Function.Injective (step · a)) :
    Function.Injective fun s => xs.foldl step s := by
  induction xs with
  | nil => exact Function.injective_id
  | cons a xs ih =>
    have hxs := ih fun b hb => h b (List.mem_cons_of_mem _ hb)
    have ha := h a List.mem_cons_self
    exact hxs.comp ha

/-- A fold around the letter at place `i`. -/
lemma foldl_split {xs : List α} {i : ℕ} {a : α} (ha : xs[i]? = some a) (s : σ) :
    xs.foldl step s = (xs.drop (i + 1)).foldl step (step ((xs.take i).foldl step s) a) := by
  obtain ⟨hi, rfl⟩ := List.getElem?_eq_some_iff.mp ha
  rw [← List.foldl_cons, ← List.drop_eq_getElem_cons hi, ← List.foldl_append,
    List.take_append_drop]

/-- The fold after the letter at place `i` was replaced. -/
lemma foldl_set {xs : List α} {i : ℕ} (hi : i < xs.length) (b : α) (s : σ) :
    (xs.set i b).foldl step s
      = (xs.drop (i + 1)).foldl step (step ((xs.take i).foldl step s) b) := by
  rw [foldl_split (List.getElem?_set_self hi), List.drop_set_of_lt (Nat.lt_succ_self i),
    List.take_set_of_le (le_refl i)]

/-- Changing one letter to one that the step tells apart from it changes the fold. -/
lemma foldl_set_ne {xs : List α} {i : ℕ} {a b : α} (ha : xs[i]? = some a)
    (hsep : Separates step a b) (hinj : ∀ c ∈ xs.drop (i + 1), Function.Injective (step · c))
    (s : σ) : (xs.set i b).foldl step s ≠ xs.foldl step s := by
  rw [foldl_set (List.getElem?_eq_some_iff.mp ha).1, foldl_split ha]
  exact fun h => hsep _ (foldl_injective hinj h).symm

/-- Changing one letter to one that the step does not tell apart from it changes nothing. -/
lemma foldl_set_eq {xs : List α} {i : ℕ} {a b : α} (ha : xs[i]? = some a)
    (heq : ∀ s, step s b = step s a) (s : σ) :
    (xs.set i b).foldl step s = xs.foldl step s := by
  rw [foldl_set (List.getElem?_eq_some_iff.mp ha).1, foldl_split ha, heq]

end Fold
