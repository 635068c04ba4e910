import Mathlib.Tactic

/-!
# Hierarchical stores

A store maps identities to objects: files with a content, and directories with named entries.
Names lead from object to object, along paths; a listing unfolds a directory to a depth.  A
relation between two stores that one step keeps is kept along every path and by every listing.
-/

namespace Hierarchy

variable {κ ν β α α' γ γ' : Type*}

/-- An object of a hierarchical store: a file, or a directory of named objects. -/
inductive Object (κ ν β : Type*) where
  | file (content : List β)
  | dir (entries : List (ν × κ))

section Resolve

variable [DecidableEq ν] (store : κ → Object κ ν β)

/-- The object that `k` has under a name: that of its first entry of this name. -/
def child (k : κ) (name : ν) : Option κ :=
  match store k with
  | .file _ => none
  | .dir entries => (entries.find? (·.1 = name)).map Prod.snd

/-- The object at the end of a path from `k`. -/
def resolve (k : κ) (path : List ν) : Option κ := path.foldlM (child store) k

end Resolve

/-! ## Runs of steps -/

/-- A relation that every step keeps is kept along every path. -/
lemma foldlM_rel {f : α → ν → Option α} {g : α' → ν → Option α'} {R : α → α' → Prop}
    {path : List ν} (h : ∀ x ∈ path, ∀ a b, R a b → Option.Rel R (f a x) (g b x)) {a : α} {b : α'}
    (hab : R a b) : Option.Rel R (path.foldlM f a) (path.foldlM g b) := by
  induction path generalizing a b with
  | nil => exact .some hab
  | cons x path ih =>
    rw [List.foldlM_cons, List.foldlM_cons]
    have hstep := h x List.mem_cons_self a b hab
    generalize f a x = r, g b x = s at hstep
    cases hstep with
    | none => exact .none
    | some hab' => exact ih (fun y hy => h y (List.mem_cons_of_mem _ hy)) hab'

/-- The rows of `a`, each followed by the listing of what it leads to, for `n` levels from
`depth` on. -/
def preorder (rows : α → List (γ × Option α)) : ℕ → ℕ → α → List (ℕ × γ)
  | 0, _, _ => []
  | n + 1, depth, a => (rows a).flatMap fun row =>
      (depth, row.1) :: row.2.elim [] (preorder rows n (depth + 1))

/-- `b` is what `d` rows lead to from `a`, one after the other. -/
inductive LeadsTo (rows : α → List (γ × Option α)) : ℕ → α → α → Prop where
  | here (a : α) : LeadsTo rows 0 a a
  | down {d : ℕ} {a b c : α} {x : γ} : (x, some b) ∈ rows a → LeadsTo rows d b c →
    LeadsTo rows (d + 1) a c

variable {rows : α → List (γ × Option α)} {rows' : α' → List (γ' × Option α')}

lemma preorder_succ (n depth : ℕ) (a : α) : preorder rows (n + 1) depth a =
    (rows a).flatMap fun row => (depth, row.1) :: row.2.elim [] (preorder rows n (depth + 1)) :=
  rfl

/-- **What a listing shows**: the rows of all that is led to in fewer steps than it has levels,
at the depth of that many steps. -/
lemma mem_preorder {n depth : ℕ} {a : α} {d : ℕ} {x : γ} :
    (d, x) ∈ preorder rows n depth a ↔
      ∃ i < n, d = depth + i ∧ ∃ b, LeadsTo rows i a b ∧ ∃ next, (x, next) ∈ rows b := by
  induction n generalizing depth a with
  | zero => simp [preorder]
  | succ n ih =>
    rw [preorder_succ, List.mem_flatMap]
    constructor
    · rintro ⟨⟨y, next⟩, hrow, hmem⟩
      rcases List.mem_cons.mp hmem with heq | hmem
      · obtain ⟨rfl, rfl⟩ := Prod.mk.inj heq
        exact ⟨0, n.succ_pos, rfl, a, .here a, next, hrow⟩
      · cases next with
        | none => exact absurd hmem (by simp)
        | some b =>
          obtain ⟨i, hi, rfl, c, hc, hx⟩ := ih.mp hmem
          exact ⟨i + 1, by omega, by omega, c, .down hrow hc, hx⟩
    · rintro ⟨i, hi, rfl, b, hb, next, hx⟩
      cases hb with
      | here => exact ⟨(x, next), hx, List.mem_cons_self⟩
      | down hrow hb =>
        refine ⟨_, hrow, List.mem_cons_of_mem _ ?_⟩
        exact ih.mpr ⟨_, by omega, by omega, b, hb, next, hx⟩

/-- Directories whose rows correspond have corresponding listings. -/
lemma preorder_rel {R : α → α' → Prop} {S : γ → γ' → Prop}
    (h : ∀ a b, R a b → List.Forall₂
      (fun row row' => S row.1 row'.1 ∧ Option.Rel R row.2 row'.2) (rows a) (rows' b))
    (n depth : ℕ) {a : α} {b : α'} (hab : R a b) :
    List.Forall₂ (fun line line' => line.1 = line'.1 ∧ S line.2 line'.2)
      (preorder rows n depth a) (preorder rows' n depth b) := by
  induction n generalizing depth a b with
  | zero => exact .nil
  | succ n ih =>
    rw [preorder_succ, preorder_succ]
    refine List.rel_flatMap (h a b hab) fun row row' hrow => .cons ⟨rfl, hrow.1⟩ ?_
    obtain ⟨x, next⟩ := row
    obtain ⟨x', next'⟩ := row'
    cases hrow.2 with
    | some hnext => exact ih (depth + 1) hnext
    | none => exact .nil

/-- A row has a corresponding one. -/
lemma exists_mem_of_forall₂ {R : γ → γ' → Prop} {l : List γ} {l' : List γ'}
    (h : List.Forall₂ R l l') {x : γ} (hx : x ∈ l) : ∃ x' ∈ l', R x x' := by
  induction h with
  | nil => exact absurd hx (by simp)
  | cons hab _ ih =>
    rcases List.mem_cons.mp hx with rfl | hx
    · exact ⟨_, List.mem_cons_self, hab⟩
    · obtain ⟨x', hx', hrel⟩ := ih hx
      exact ⟨x', List.mem_cons_of_mem _ hx', hrel⟩

/-- What is led to in one store corresponds to what is led to in the other. -/
lemma LeadsTo.rel {R : α → α' → Prop} {S : γ → γ' → Prop}
    (h : ∀ a b, R a b → List.Forall₂
      (fun row row' => S row.1 row'.1 ∧ Option.Rel R row.2 row'.2) (rows a) (rows' b))
    {d : ℕ} {a c : α} {b : α'} (hc : LeadsTo rows d a c) (hab : R a b) :
    ∃ c', LeadsTo rows' d b c' ∧ R c c' := by
  induction hc generalizing b with
  | here => exact ⟨b, .here b, hab⟩
  | down hrow _ ih =>
    obtain ⟨⟨x', next'⟩, hrow', -, hnext⟩ := exists_mem_of_forall₂ (h _ _ hab) hrow
    cases hnext with
    | some hnext =>
      obtain ⟨c', hc', hrel⟩ := ih hnext
      exact ⟨c', .down hrow' hc', hrel⟩

/-- Where every directory of a kind leads to two of its kind, each level doubles the listing. -/
lemma two_pow_le_length_preorder {P : α → Prop}
    (h : ∀ a, P a → ∃ x y b c, [(x, some b), (y, some c)].Sublist (rows a) ∧ P b ∧ P c)
    (n depth : ℕ) {a : α} (ha : P a) : 2 ^ (n + 1) ≤ (preorder rows n depth a).length + 2 := by
  induction n generalizing depth a with
  | zero => simp [preorder]
  | succ n ih =>
    obtain ⟨x, y, b, c, hsub, hb, hc⟩ := h a ha
    rw [preorder_succ]
    have hlines := (hsub.flatMap fun row =>
      (depth, row.1) :: row.2.elim [] (preorder rows n (depth + 1))).length_le
    simp only [List.flatMap_cons, List.flatMap_nil, List.append_nil, List.length_append,
      List.length_cons, Option.elim_some] at hlines
    have hb := ih (depth + 1) hb
    have hc := ih (depth + 1) hc
    rw [pow_succ]
    omega

end Hierarchy
