import Mathlib.Data.List.ReduceOption
import Mathlib.Tactic

/-!
# Depth-limited search with one set of seen keys

A search through handles, each of which lists items: reports, and ways down to further
handles, named by keys.  The search reads the items in order, goes down at once under a key
it has not seen before, and stops at a limit of levels; a key met at the limit counts as
seen although nothing below it is read.

What it reads is described without the search: the paths through the listings are put in
depth-first order, and a path is *first* when its proper prefixes are first and no first
path before it ends under the same key.  The search reports what the ends of the first
paths below the limit report.
-/

namespace DepthSearch

/-- What a listing holds: a report, or a way down to `next` under `key`. -/
inductive Item (κ η ω : Type*) where
  | report (o : ω)
  | descend (key : κ) (next : η)

variable {κ η ω : Type*}

/-! ## The search -/

/-- The search's state: the keys seen and the reports made. -/
abbrev State (κ ω : Type*) := List κ × List ω

/-- What the search does with one item, `down` being the search one level below. -/
def visit [DecidableEq κ] (down : η → State κ ω → State κ ω) (st : State κ ω) :
    Item κ η ω → State κ ω
  | .report o => (st.1, st.2 ++ [o])
  | .descend key next => if key ∈ st.1 then st else down next (key :: st.1, st.2)

/-- The search from a handle with a number of levels left. -/
def search [DecidableEq κ] (items : η → List (Item κ η ω)) : ℕ → η → State κ ω → State κ ω
  | 0, _, st => st
  | levels + 1, h, st => (items h).foldl (visit (search items levels)) st

/-! ## Paths -/

/-- A step down: the place of the item in its listing, its key and its handle. -/
structure Step (κ η : Type*) where
  place : ℕ
  key : κ
  next : η
deriving DecidableEq

/-- The handle at the end of a path. -/
def target (root : η) (p : List (Step κ η)) : η := (p.getLast?.map Step.next).getD root

/-- The key at the end of a path; the empty path has none. -/
def key (p : List (Step κ η)) : Option κ := p.getLast?.map Step.key

/-- The reports of a list of items. -/
def reportsOf (xs : List (Item κ η ω)) : List ω :=
  xs.filterMap fun
    | .report o => some o
    | .descend _ _ => none

/-- The paths through one item, `below` being the paths from a handle. -/
def through (below : η → List (List (Step κ η))) (x : Item κ η ω × ℕ) :
    List (List (Step κ η)) :=
  match x.1 with
  | .report _ => []
  | .descend key next => (below next).map (⟨x.2, key, next⟩ :: ·)

/-- The paths of at most `n` steps from a handle, in depth-first order. -/
def paths (items : η → List (Item κ η ω)) : ℕ → η → List (List (Step κ η))
  | 0, _ => [[]]
  | n + 1, h => [] :: (items h).zipIdx.flatMap (through (paths items n))

/-- One round of the selection of first paths: `p` is first when its parent is and no first
path before it ends under its key. -/
def select [DecidableEq κ] [DecidableEq η] (firsts : List (List (Step κ η)))
    (p : List (Step κ η)) : List (List (Step κ η)) :=
  if p = [] ∨ p.dropLast ∈ firsts ∧ key p ∉ firsts.map key then firsts ++ [p] else firsts

/-- The first paths of at most `n` steps from a handle. -/
def firstPaths [DecidableEq κ] [DecidableEq η] (items : η → List (Item κ η ω)) (n : ℕ)
    (root : η) : List (List (Step κ η)) :=
  (paths items n root).foldl select []

/-- What the ends of some paths report. -/
def reportsAt (items : η → List (Item κ η ω)) (root : η) (ps : List (List (Step κ η))) :
    List ω :=
  ps.flatMap fun p => reportsOf (items (target root p))

/-! ## Paths under a prefix -/

/-- The nonempty paths of at most `n` steps from a handle, in depth-first order. -/
def below (items : η → List (Item κ η ω)) : ℕ → η → List (List (Step κ η))
  | 0, _ => []
  | n + 1, h => (items h).zipIdx.flatMap (through (paths items n))

variable {items : η → List (Item κ η ω)} {root : η}

lemma paths_eq (n : ℕ) (h : η) : paths items n h = [] :: below items n h := by
  cases n <;> rfl

@[simp] lemma target_nil : target root ([] : List (Step κ η)) = root := rfl

@[simp] lemma target_concat (p : List (Step κ η)) (s : Step κ η) :
    target root (p ++ [s]) = s.next := by
  simp [target]

@[simp] lemma key_concat (p : List (Step κ η)) (s : Step κ η) : key (p ++ [s]) = some s.key := by
  simp [key]

lemma ne_nil_of_mem_below {n : ℕ} {h : η} {p : List (Step κ η)} (hp : p ∈ below items n h) :
    p ≠ [] := by
  cases n with
  | zero => simp [below] at hp
  | succ n =>
    obtain ⟨⟨x, j⟩, -, hx⟩ := List.mem_flatMap.mp hp
    cases x with
    | report o => simp [through] at hx
    | descend k next =>
      obtain ⟨q, -, rfl⟩ := List.mem_map.mp hx
      exact List.cons_ne_nil _ _

lemma length_le_of_mem_paths {n : ℕ} {h : η} {p : List (Step κ η)} (hp : p ∈ paths items n h) :
    p.length ≤ n := by
  induction n generalizing h p with
  | zero =>
    rw [paths, List.mem_singleton] at hp
    simp [hp]
  | succ n ih =>
    rw [paths] at hp
    rcases List.mem_cons.mp hp with rfl | hp
    · simp
    · obtain ⟨⟨x, j⟩, -, hp⟩ := List.mem_flatMap.mp hp
      cases x with
      | report o => simp [through] at hp
      | descend k next =>
        obtain ⟨q, hq, rfl⟩ := List.mem_map.mp hp
        have := ih hq
        simp only [List.length_cons]
        omega

/-- No path of the list has the prefix `p`. -/
def Fresh (firsts : List (List (Step κ η))) (p : List (Step κ η)) : Prop :=
  ∀ q ∈ firsts, ¬ p <+: q

section Select

variable [DecidableEq κ] [DecidableEq η]

/-- Where a path is not selected, nothing under it is. -/
lemma foldl_select_skip {firsts : List (List (Step κ η))} {p : List (Step κ η)}
    (hne : p ≠ []) (hkey : key p ∈ firsts.map key) (hfresh : Fresh firsts p) (n : ℕ) (h : η) :
    ((paths items n h).map (p ++ ·)).foldl select firsts = firsts := by
  have hunder : ∀ qs : List (List (Step κ η)), (∀ q ∈ qs, q ≠ []) →
      (qs.map (p ++ ·)).foldl select firsts = firsts := by
    intro qs hqs
    induction qs with
    | nil => rfl
    | cons q qs ih =>
      have hq := hqs q List.mem_cons_self
      have hparent : (p ++ q).dropLast ∉ firsts := by
        rw [List.dropLast_append_of_ne_nil hq]
        exact fun hmem => hfresh _ hmem (List.prefix_append _ _)
      have hselect : select firsts (p ++ q) = firsts := by
        rw [select, if_neg]
        rintro (hnil | ⟨hmem, -⟩)
        · exact hne (List.append_eq_nil_iff.mp hnil).1
        · exact hparent hmem
      rw [List.map_cons, List.foldl_cons, hselect]
      exact ih fun r hr => hqs r (List.mem_cons_of_mem _ hr)
  have hself : select firsts (p ++ []) = firsts := by
    rw [List.append_nil, select, if_neg]
    rintro (hnil | ⟨-, hnot⟩)
    · exact hne hnil
    · exact hnot hkey
  rw [paths_eq, List.map_cons, List.foldl_cons, hself]
  exact hunder _ fun q hq => ne_nil_of_mem_below hq

end Select

/-! ## What the search reads -/

section Refinement

/-- The keys seen are the keys of the first paths. -/
def Tracks (firsts : List (List (Step κ η))) (st : State κ ω) : Prop :=
  ∀ k, k ∈ st.1 ↔ some k ∈ firsts.map key

/-- The search goes on from `st` to `st'` while the selection goes on from `firsts` to
`firsts ++ new`: the keys agree, the reports made are `own` and those at the ends of the new
paths below the limit, and every key listed there is seen. -/
structure Advances (items : η → List (Item κ η ω)) (root : η) (limit : ℕ)
    (firsts new : List (List (Step κ η))) (own : List ω) (st st' : State κ ω) : Prop where
  tracks : Tracks (firsts ++ new) st'
  reports : (st'.2 : Multiset ω) =
    st.2 + own + reportsAt items root (new.filter (·.length < limit))
  closed : ∀ q ∈ new, q.length < limit → ∀ k next, .descend k next ∈ items (target root q) →
    some k ∈ (firsts ++ new).map key

lemma Advances.refl {limit : ℕ} {firsts : List (List (Step κ η))} {st : State κ ω}
    (h : Tracks firsts st) : Advances items root limit firsts [] [] st st where
  tracks := by simpa using h
  reports := by simp [reportsAt]
  closed := by simp

lemma Advances.trans {limit : ℕ} {firsts new new' : List (List (Step κ η))} {own own' : List ω}
    {st st' st'' : State κ ω} (h : Advances items root limit firsts new own st st')
    (h' : Advances items root limit (firsts ++ new) new' own' st' st'') :
    Advances items root limit firsts (new ++ new') (own ++ own') st st'' where
  tracks := by
    rw [← List.append_assoc]
    exact h'.tracks
  reports := by
    rw [h'.reports, h.reports]
    simp only [reportsAt, List.filter_append, List.flatMap_append, ← Multiset.coe_add]
    abel
  closed := by
    intro q hq hlt k next hk
    rw [← List.append_assoc]
    rcases List.mem_append.mp hq with hq | hq
    · rw [List.map_append]
      exact List.mem_append_left _ (h.closed q hq hlt k next hk)
    · exact h'.closed q hq hlt k next hk

variable [DecidableEq κ] [DecidableEq η]

/-- What the search does below the path `p`, stated for every number of levels left. -/
def SearchAdvances (items : η → List (Item κ η ω)) (root : η) (n : ℕ) : Prop :=
  ∀ (p : List (Step κ η)) (firsts : List (List (Step κ η))) (st : State κ ω),
    p ∈ firsts → (∀ s, Fresh firsts (p ++ [s])) → Tracks firsts st →
    ∃ new, ((below items n (target root p)).map (p ++ ·)).foldl select firsts = firsts ++ new ∧
      (∀ q ∈ new, p <+: q) ∧
      Advances items root (p.length + n) firsts new
        (if n = 0 then [] else reportsOf (items (target root p))) st
        (search items n (target root p) st) ∧
      (n ≠ 0 → ∀ k next, .descend k next ∈ items (target root p) →
        some k ∈ (firsts ++ new).map key)

/-- One way down, `s` being its step behind the path `p`. -/
lemma visit_descend_advances {n : ℕ} (ih : SearchAdvances items root n) {p : List (Step κ η)}
    {firsts : List (List (Step κ η))} {st : State κ ω} (hp : p ∈ firsts) (s : Step κ η)
    (hfresh : Fresh firsts (p ++ [s])) (htracks : Tracks firsts st) :
    ∃ new, ((paths items n s.next).map (p ++ [s] ++ ·)).foldl select firsts = firsts ++ new ∧
      (∀ q ∈ new, p ++ [s] <+: q) ∧
      Advances items root (p.length + (n + 1)) firsts new [] st
        (visit (search items n) st (.descend s.key s.next)) ∧
      some s.key ∈ (firsts ++ new).map key := by
  by_cases hk : s.key ∈ st.1
  · -- the key was seen: nothing on this way down is first
    have hkey : key (p ++ [s]) ∈ firsts.map key := by
      rw [key_concat]
      exact (htracks _).mp hk
    refine ⟨[], ?_, by simp, ?_, ?_⟩
    · rw [foldl_select_skip (by simp) hkey hfresh, List.append_nil]
    · rw [visit, if_pos hk]
      exact Advances.refl htracks
    · simpa using hkey
  · -- the way down is first, and the search goes on below it
    have hselect : select firsts (p ++ [s]) = firsts ++ [p ++ [s]] := by
      rw [select, if_pos]
      refine Or.inr ⟨by simpa using hp, ?_⟩
      rw [key_concat]
      exact fun hmem => hk ((htracks _).mpr hmem)
    have htracks₁ : Tracks (firsts ++ [p ++ [s]]) ((s.key :: st.1, st.2) : State κ ω) := by
      intro k
      have := htracks k
      simp only [List.mem_cons, List.map_append, List.map_cons, List.map_nil, key_concat,
        List.mem_append, this, List.not_mem_nil, or_false, Option.some.injEq]
      tauto
    have hfresh₁ : ∀ t, Fresh (firsts ++ [p ++ [s]]) (p ++ [s] ++ [t]) := by
      intro t q hq hpre
      rcases List.mem_append.mp hq with hq | hq
      · exact hfresh q hq ((List.prefix_append _ _).trans hpre)
      · rw [List.mem_singleton.mp hq] at hpre
        have := hpre.length_le
        simp at this
    obtain ⟨new, hsel, hnew, hadv, hlisted⟩ :=
      ih (p ++ [s]) (firsts ++ [p ++ [s]]) (s.key :: st.1, st.2)
        (List.mem_append_right _ (List.mem_singleton.mpr rfl)) hfresh₁ htracks₁
    rw [target_concat] at hsel hadv hlisted
    have hlen : (p ++ [s]).length + n = p.length + (n + 1) := by
      rw [List.length_append, List.length_singleton]
      omega
    rw [hlen] at hadv
    have hassoc : firsts ++ [p ++ [s]] ++ new = firsts ++ (p ++ [s]) :: new := by simp
    refine ⟨(p ++ [s]) :: new, ?_, ?_, ?_, by simp⟩
    · rw [paths_eq, List.map_cons, List.foldl_cons, List.append_nil, hselect, hsel, hassoc]
    · intro q hq
      rcases List.mem_cons.mp hq with rfl | hq
      · exact List.prefix_rfl
      · exact hnew q hq
    · rw [visit, if_neg hk]
      refine ⟨hassoc ▸ hadv.tracks, ?_, ?_⟩
      · rw [hadv.reports]
        by_cases hn : n = 0
        · simp [hn]
        · have hlt : (p ++ [s]).length < p.length + (n + 1) := by omega
          rw [List.filter_cons_of_pos (by simpa using hlt)]
          simp only [hn, if_false, reportsAt, List.flatMap_cons, target_concat,
            ← Multiset.coe_add, Multiset.coe_nil, add_zero]
          abel
      · intro q hq hlt k next hkn
        rcases List.mem_cons.mp hq with rfl | hq
        · rw [target_concat] at hkn
          exact hassoc ▸ hlisted (by rintro rfl; omega) k next hkn
        · exact hassoc ▸ hadv.closed q hq hlt k next hkn

/-- The items of one listing, from place `j` on. -/
lemma foldl_visit_advances {n : ℕ} (ih : SearchAdvances items root n) (p : List (Step κ η))
    (xs : List (Item κ η ω)) :
    ∀ (j : ℕ) (firsts : List (List (Step κ η))) (st : State κ ω), p ∈ firsts →
      (∀ s : Step κ η, j ≤ s.place → Fresh firsts (p ++ [s])) → Tracks firsts st →
      ∃ new, (((xs.zipIdx j).flatMap (through (paths items n))).map (p ++ ·)).foldl select firsts
          = firsts ++ new ∧
        (∀ q ∈ new, ∃ s : Step κ η, j ≤ s.place ∧ p ++ [s] <+: q) ∧
        Advances items root (p.length + (n + 1)) firsts new (reportsOf xs) st
          (xs.foldl (visit (search items n)) st) ∧
        ∀ k next, .descend k next ∈ xs → some k ∈ (firsts ++ new).map key := by
  induction xs with
  | nil =>
    intro j firsts st _ _ htracks
    exact ⟨[], by simp, by simp, Advances.refl htracks, by simp⟩
  | cons x xs ihxs =>
    intro j firsts st hp hfresh htracks
    rw [List.zipIdx_cons, List.flatMap_cons, List.map_append, List.foldl_append, List.foldl_cons]
    cases x with
    | report o =>
      have htracks' : Tracks firsts ((st.1, st.2 ++ [o]) : State κ ω) := htracks
      have hstep : Advances items root (p.length + (n + 1)) firsts [] [o] st
          (st.1, st.2 ++ [o]) :=
        ⟨by simpa using htracks', by simp [reportsAt, ← Multiset.coe_add], by simp⟩
      obtain ⟨new, hsel, hnew, hadv, hkeys⟩ :=
        ihxs (j + 1) firsts _ hp (fun s hs => hfresh s (by omega)) htracks'
      refine ⟨new, hsel, fun q hq => ?_, ?_, fun k next hk => hkeys k next (by simpa using hk)⟩
      · obtain ⟨s, hs, hpre⟩ := hnew q hq
        exact ⟨s, by omega, hpre⟩
      · rw [← List.append_nil firsts] at hadv
        exact hstep.trans hadv
    | descend k next =>
      obtain ⟨new, hsel, hnew, hadv, hseen⟩ :=
        visit_descend_advances ih hp ⟨j, k, next⟩ (hfresh _ le_rfl) htracks
      have hfresh' : ∀ s : Step κ η, j + 1 ≤ s.place → Fresh (firsts ++ new) (p ++ [s]) := by
        intro s hs q hq hpre
        rcases List.mem_append.mp hq with hq | hq
        · exact hfresh s (by omega) q hq hpre
        · -- a path below this way down does not go through a later item
          have heq := List.prefix_of_prefix_length_le hpre (hnew q hq) (by simp)
          have hlast := (List.prefix_append_right_inj p).mp heq
          obtain rfl : s = ⟨j, k, next⟩ := by simpa using hlast
          simp at hs
      obtain ⟨new', hsel', hnew', hadv', hkeys⟩ :=
        ihxs (j + 1) (firsts ++ new) _ (List.mem_append_left _ hp) hfresh' hadv.tracks
      refine ⟨new ++ new', ?_, ?_, hadv.trans hadv', ?_⟩
      · have hmap : (through (paths items n) (Item.descend (ω := ω) k next, j)).map (p ++ ·)
            = (paths items n next).map (p ++ [⟨j, k, next⟩] ++ ·) := by
          simp [through, Function.comp_def]
        rw [hmap, hsel, hsel', List.append_assoc]
      · intro q hq
        rcases List.mem_append.mp hq with hq | hq
        · exact ⟨_, le_rfl, hnew q hq⟩
        · obtain ⟨s, hs, hpre⟩ := hnew' q hq
          exact ⟨s, by omega, hpre⟩
      · intro k' next' hk'
        rw [← List.append_assoc]
        rcases List.mem_cons.mp hk' with heq | hk'
        · obtain ⟨rfl, rfl⟩ := Item.descend.inj heq
          rw [List.map_append]
          exact List.mem_append_left _ hseen
        · exact hkeys k' next' hk'

/-- **What one search does**: from a first path it selects the first paths below. -/
lemma searchAdvances (items : η → List (Item κ η ω)) (root : η) (n : ℕ) :
    SearchAdvances items root n := by
  induction n with
  | zero =>
    intro p firsts st _ _ htracks
    exact ⟨[], by simp [below], by simp, Advances.refl htracks, by simp⟩
  | succ n ih =>
    intro p firsts st hp hfresh htracks
    obtain ⟨new, hsel, hnew, hadv, hkeys⟩ :=
      foldl_visit_advances ih p (items (target root p)) 0 firsts st hp (fun s _ => hfresh s) htracks
    refine ⟨new, hsel, fun q hq => ?_, hadv, fun _ => hkeys⟩
    obtain ⟨s, -, hpre⟩ := hnew q hq
    exact (List.prefix_append _ _).trans hpre

/-! ## Searches from a root that counts as unseen -/

lemma firstPaths_advances (items : η → List (Item κ η ω)) (n : ℕ) (root : η) (out : List ω) :
    ∃ new, firstPaths items n root = [] :: new ∧
      Advances items root n [[]] new (if n = 0 then [] else reportsOf (items root)) ([], out)
        (search items n root ([], out)) ∧
      (n ≠ 0 → ∀ k next, .descend k next ∈ items root →
        some k ∈ (([] : List (Step κ η)) :: new).map key) := by
  have hfresh : ∀ s : Step κ η, Fresh [[]] ([] ++ [s]) := by
    intro s q hq hpre
    rw [List.mem_singleton.mp hq] at hpre
    exact absurd hpre.length_le (by simp)
  have htracks : Tracks [([] : List (Step κ η))] (([], out) : State κ ω) := by
    intro k
    simp [key]
  obtain ⟨new, hsel, -, hadv, hkeys⟩ := searchAdvances items root n []
    [[]] ([], out) (List.mem_singleton.mpr rfl) hfresh htracks
  rw [target_nil] at hsel hadv hkeys
  refine ⟨new, ?_, by simpa using hadv, hkeys⟩
  rw [firstPaths, paths_eq, List.foldl_cons, select, if_pos (Or.inl rfl), List.nil_append]
  simpa using hsel

lemma nil_mem_firstPaths {n : ℕ} {root : η} : [] ∈ firstPaths items n root := by
  obtain ⟨new, hfirst, -⟩ := firstPaths_advances items n root []
  rw [hfirst]
  exact List.mem_cons_self

/-- **The search reports what the ends of the first paths below the limit report**, in some
order, and each as often. -/
theorem search_reports (n : ℕ) (root : η) (out : List ω) :
    ((search items n root ([], out)).2 : Multiset ω) =
      out + reportsAt items root ((firstPaths items n root).filter (·.length < n)) := by
  obtain ⟨new, hfirst, hadv, -⟩ := firstPaths_advances items n root out
  rw [hadv.reports, hfirst]
  by_cases hn : n = 0
  · subst hn
    simp [reportsAt]
  · rw [List.filter_cons_of_pos (by simpa using Nat.pos_of_ne_zero hn), if_neg hn]
    simp only [reportsAt, List.flatMap_cons, target_nil, ← Multiset.coe_add]
    abel

lemma foldl_select_subset (ps firsts : List (List (Step κ η))) {p : List (Step κ η)}
    (hp : p ∈ ps.foldl select firsts) : p ∈ firsts ∨ p ∈ ps := by
  induction ps generalizing firsts with
  | nil => exact Or.inl hp
  | cons q ps ih =>
    rcases ih (select firsts q) hp with h | h
    · rw [select] at h
      split at h
      · rcases List.mem_append.mp h with h | h
        · exact Or.inl h
        · exact Or.inr (List.mem_cons.mpr (Or.inl (List.mem_singleton.mp h)))
      · exact Or.inl h
    · exact Or.inr (List.mem_cons_of_mem _ h)

lemma mem_paths_of_mem_firstPaths {n : ℕ} {root : η} {p : List (Step κ η)}
    (hp : p ∈ firstPaths items n root) : p ∈ paths items n root := by
  rcases foldl_select_subset _ _ hp with h | h
  · exact absurd h (by simp)
  · exact h

/-- Every key listed at the end of a first path below the limit is the key of a first path. -/
theorem exists_firstPath {n : ℕ} {root : η} {p : List (Step κ η)}
    (hp : p ∈ firstPaths items n root) (hlen : p.length < n) {k : κ} {next : η}
    (hk : .descend k next ∈ items (target root p)) :
    ∃ q ∈ firstPaths items n root, key q = some k := by
  obtain ⟨new, hfirst, hadv, hkeys⟩ := firstPaths_advances items n root []
  rw [hfirst] at hp ⊢
  have hmem : some k ∈ (([] : List (Step κ η)) :: new).map key := by
    rcases List.mem_cons.mp hp with rfl | hp
    · exact hkeys (by rintro rfl; simp at hlen) k next hk
    · exact hadv.closed p hp hlen k next hk
  exact List.mem_map.mp hmem

end Refinement

/-! ## The steps of first paths -/

lemma target_cons (s : Step κ η) (p : List (Step κ η)) :
    target root (s :: p) = target s.next p := by
  cases p using List.reverseRecOn with
  | nil => rfl
  | append_singleton p t => rw [← List.cons_append, target_concat, target_concat]

/-- The last step of a path is a way down that the handle before it lists. -/
lemma descend_mem_of_concat_mem_paths {n : ℕ} {h : η} {p : List (Step κ η)} {s : Step κ η}
    (hp : p ++ [s] ∈ paths items n h) : .descend s.key s.next ∈ items (target h p) := by
  induction n generalizing h p with
  | zero => exact absurd hp (by simp [paths])
  | succ n ih =>
    rw [paths] at hp
    rcases List.mem_cons.mp hp with hnil | hp
    · exact absurd hnil (by simp)
    obtain ⟨⟨x, j⟩, hx, hp⟩ := List.mem_flatMap.mp hp
    cases x with
    | report o => simp [through] at hp
    | descend k next =>
      obtain ⟨q, hq, heq⟩ := List.mem_map.mp hp
      cases p with
      | nil =>
        obtain ⟨rfl, -⟩ := List.cons.inj heq
        exact List.fst_mem_of_mem_zipIdx hx
      | cons t p =>
        obtain ⟨rfl, rfl⟩ := List.cons.inj heq
        rw [target_cons]
        exact ih hq

section Firsts

variable [DecidableEq κ] [DecidableEq η]

/-- What first paths have in common: no two end under the same key, and the paths before them are
first. -/
structure Selected (firsts : List (List (Step κ η))) : Prop where
  nodup : (firsts.map key).Nodup
  parent : ∀ p ∈ firsts, p ≠ [] → p.dropLast ∈ firsts

/-- One round of the selection. -/
lemma Selected.select {firsts : List (List (Step κ η))} (h : Selected firsts)
    {p : List (Step κ η)} (hne : p ≠ []) : Selected (select firsts p) := by
  rw [DepthSearch.select]
  split
  next hsel =>
    obtain ⟨hparent, hkey⟩ := hsel.resolve_left hne
    refine ⟨?_, fun q hq hq' => ?_⟩
    · rw [List.map_append, List.map_singleton]
      exact List.nodup_append.mpr ⟨h.nodup, List.nodup_singleton _, by
        rintro k hk k' hk' rfl
        exact hkey (List.mem_singleton.mp hk' ▸ hk)⟩
    · rcases List.mem_append.mp hq with hq | hq
      · exact List.mem_append_left _ (h.parent q hq hq')
      · rw [List.mem_singleton.mp hq]
        exact List.mem_append_left _ hparent
  next => exact h

lemma selected_firstPaths (items : η → List (Item κ η ω)) (n : ℕ) (root : η) :
    Selected (firstPaths items n root) := by
  have hfold : ∀ (ps firsts : List (List (Step κ η))), (∀ p ∈ ps, p ≠ []) → Selected firsts →
      Selected (ps.foldl select firsts) := by
    intro ps
    induction ps with
    | nil => exact fun _ _ h => h
    | cons p ps ih =>
      exact fun firsts hps h => ih _ (fun q hq => hps q (List.mem_cons_of_mem _ hq))
        (h.select (hps p List.mem_cons_self))
  rw [firstPaths, paths_eq, List.foldl_cons, select, if_pos (Or.inl rfl), List.nil_append]
  exact hfold _ _ (fun p hp => ne_nil_of_mem_below hp) ⟨by simp, by simp⟩

/-- The path before a first path is first, and its end lists the last step. -/
lemma parent_of_mem_firstPaths {n : ℕ} {p : List (Step κ η)} {s : Step κ η}
    (hp : p ++ [s] ∈ firstPaths items n root) :
    p ∈ firstPaths items n root ∧ .descend s.key s.next ∈ items (target root p) := by
  have hparent := (selected_firstPaths items n root).parent _ hp (by simp)
  rw [List.dropLast_concat] at hparent
  exact ⟨hparent, descend_mem_of_concat_mem_paths (mem_paths_of_mem_firstPaths hp)⟩

omit [DecidableEq κ] in
/-- Of distinct options at most one is none. -/
lemma length_le_length_reduceOption {keys : List (Option κ)} (h : keys.Nodup) :
    keys.length ≤ keys.reduceOption.length + 1 := by
  have hnone : keys.filter Option.isNone
      = List.replicate (keys.filter Option.isNone).length none :=
    List.eq_replicate_iff.mpr ⟨rfl, fun k hk => by simpa using (List.mem_filter.mp hk).2⟩
  have hle : (keys.filter Option.isNone).length ≤ 1 := by
    rw [← List.nodup_replicate (a := (none : Option κ)), ← hnone]
    exact h.filter _
  rw [List.length_eq_reduceOption_length_add_filter_none]
  omega

/-- There are as many first paths as keys that they end under, and the empty path. -/
lemma exists_keys_firstPaths (items : η → List (Item κ η ω)) (n : ℕ) (root : η)
    (P : List (Step κ η) → Bool) :
    ∃ ks : List κ, ks.Nodup ∧ ((firstPaths items n root).filter P).length ≤ ks.length + 1 ∧
      ∀ k ∈ ks, ∃ p s, p ++ [s] ∈ firstPaths items n root ∧ P (p ++ [s]) = true ∧ s.key = k := by
  have hnodup : (((firstPaths items n root).filter P).map key).Nodup :=
    (selected_firstPaths items n root).nodup.sublist (List.Sublist.map _ List.filter_sublist)
  generalize hkeys : ((firstPaths items n root).filter P).map key = keys at hnodup
  refine ⟨keys.reduceOption, ?_, ?_, fun k hk => ?_⟩
  · refine hnodup.filterMap fun a a' k hk hk' => ?_
    exact (Option.mem_def.mp hk).trans (Option.mem_def.mp hk').symm
  · -- only the empty path has no key
    have hlen : ((firstPaths items n root).filter P).length = keys.length := by
      rw [← hkeys, List.length_map]
    rw [hlen]
    exact length_le_length_reduceOption hnodup
  · rw [List.reduceOption_mem_iff, ← hkeys] at hk
    obtain ⟨p, hp, hpk⟩ := List.mem_map.mp hk
    obtain ⟨hp, hP⟩ := List.mem_filter.mp hp
    rcases List.eq_nil_or_concat p with rfl | ⟨q, t, rfl⟩
    · exact absurd hpk (by simp [key])
    · rw [List.concat_eq_append] at hp hP hpk
      rw [key_concat, Option.some.injEq] at hpk
      exact ⟨q, t, hp, hP, hpk⟩

end Firsts

/-! ## Calls -/

/-- An item in a search that reports handles too. -/
def Item.inr : Item κ η ω → Item κ η (η ⊕ ω)
  | .report o => .report (.inr o)
  | .descend key next => .descend key next

/-- A listing with an announcement of its handle behind it. -/
def announced (items : η → List (Item κ η ω)) (h : η) : List (Item κ η (η ⊕ ω)) :=
  (items h).map Item.inr ++ [.report (.inl h)]

/-- The handles whose listings the search reads, each when it is done with them. -/
def calls (trace : List (η ⊕ ω)) : List η := trace.filterMap Sum.getLeft?

/-- A trace without the announcements. -/
def findings (trace : List (η ⊕ ω)) : List ω := trace.filterMap Sum.getRight?

/-- **Without the announcements it is the same search.** -/
lemma search_announced [DecidableEq κ] (items : η → List (Item κ η ω)) (n : ℕ) (h : η)
    (st : State κ (η ⊕ ω)) :
    ((search (announced items) n h st).1, findings (search (announced items) n h st).2)
      = search items n h (st.1, findings st.2) := by
  induction n generalizing h st with
  | zero => rfl
  | succ n ih =>
    have hfold : ∀ (xs : List (Item κ η ω)) (st : State κ (η ⊕ ω)),
        (((xs.map Item.inr).foldl (visit (search (announced items) n)) st).1,
            findings ((xs.map Item.inr).foldl (visit (search (announced items) n)) st).2)
          = xs.foldl (visit (search items n)) (st.1, findings st.2) := by
      intro xs
      induction xs with
      | nil => exact fun _ => rfl
      | cons x xs ihxs =>
        intro st
        rw [List.map_cons, List.foldl_cons, List.foldl_cons, ihxs]
        cases x with
        | report o => simp [Item.inr, visit, findings]
        | descend k next =>
          simp only [Item.inr, visit]
          split
          · rfl
          · exact congrArg (xs.foldl (visit (search items n))) (ih next (k :: st.1, st.2))
    rw [search, search, announced, List.foldl_append, ← hfold]
    simp [visit, findings]

lemma paths_announced (items : η → List (Item κ η ω)) (n : ℕ) (h : η) :
    paths (announced items) n h = paths items n h := by
  induction n generalizing h with
  | zero => rfl
  | succ n ih =>
    have hbelow : paths (announced items) n = paths items n := funext ih
    have hthrough : ∀ x : Item κ η ω × ℕ,
        through (paths items n) (x.1.inr, x.2) = through (paths items n) x := by
      rintro ⟨x, j⟩
      cases x <;> rfl
    rw [paths, paths, hbelow, announced, List.zipIdx_append, List.flatMap_append, List.zipIdx_map,
      List.flatMap_map]
    have hitems : (items h).zipIdx.flatMap
          (fun x => through (paths items n) (Prod.map Item.inr id x))
        = (items h).zipIdx.flatMap (through (paths items n)) :=
      List.flatMap_congr fun x _ => hthrough x
    rw [hitems]
    simp [through]

/-- A listing announces its handle, and no other one. -/
lemma calls_announced (items : η → List (Item κ η ω)) (h : η) :
    calls (reportsOf (announced items h)) = [h] := by
  have hreports : ∀ xs : List (Item κ η ω), calls (reportsOf (xs.map Item.inr)) = [] := by
    intro xs
    induction xs with
    | nil => rfl
    | cons x xs ih => cases x <;> simpa [reportsOf, Item.inr, calls] using ih
  have happend : reportsOf (announced items h)
      = reportsOf ((items h).map Item.inr) ++ [Sum.inl h] := by
    rw [announced, reportsOf, List.filterMap_append]
    rfl
  rw [happend, calls, List.filterMap_append]
  exact congrArg (· ++ [h]) (hreports (items h))

/-- **The search reads the listings at the ends of the first paths below the limit**, in some
order, and each as often. -/
theorem calls_search [DecidableEq κ] [DecidableEq η] (items : η → List (Item κ η ω)) (n : ℕ)
    (root : η) (out : List ω) :
    (calls (search (announced items) n root ([], out.map .inr)).2 : Multiset η)
      = ((firstPaths items n root).filter (·.length < n)).map (target root) := by
  have hfirst : firstPaths (announced items) n root = firstPaths items n root := by
    rw [firstPaths, firstPaths, paths_announced]
  have hperm : ((search (announced items) n root ([], out.map Sum.inr)).2 : Multiset (η ⊕ ω)) = _ :=
    search_reports n root (out.map Sum.inr)
  rw [Multiset.coe_add, Multiset.coe_eq_coe, hfirst] at hperm
  have hperm := hperm.filterMap Sum.getLeft?
  have hout : (out.map Sum.inr).filterMap Sum.getLeft? = ([] : List η) := by
    simp [List.filterMap_map]
  rw [List.filterMap_append, hout, List.nil_append, reportsAt, List.filterMap_flatMap] at hperm
  have hends : ∀ ps : List (List (Step κ η)),
      ps.flatMap (fun p => (reportsOf (announced items (target root p))).filterMap Sum.getLeft?)
        = ps.map (target root) := by
    intro ps
    rw [List.map_eq_flatMap]
    exact List.flatMap_congr fun p _ => calls_announced items _
  rw [hends] at hperm
  exact Multiset.coe_eq_coe.mpr hperm

/-! ## Searches that meet no key twice -/

/-- The keys met within `n` levels from a handle, in depth-first order. -/
def keysBelow (items : η → List (Item κ η ω)) : ℕ → η → List κ
  | 0, _ => []
  | n + 1, h => (items h).flatMap fun
    | .report _ => []
    | .descend key next => key :: keysBelow items n next

/-- The reports made within `n` levels from a handle, in depth-first order. -/
def reportsBelow (items : η → List (Item κ η ω)) : ℕ → η → List ω
  | 0, _ => []
  | n + 1, h => (items h).flatMap fun
    | .report o => [o]
    | .descend _ next => reportsBelow items n next

/-- **Where no key is met twice, the search leaves nothing out**: it sees the keys and makes the
reports in depth-first order. -/
lemma search_of_nodup [DecidableEq κ] {n : ℕ} {h : η} {st : State κ ω}
    (hnodup : (keysBelow items n h).Nodup) (hfresh : ∀ k ∈ keysBelow items n h, k ∉ st.1) :
    search items n h st
      = ((keysBelow items n h).reverse ++ st.1, st.2 ++ reportsBelow items n h) := by
  induction n generalizing h st with
  | zero => simp [search, keysBelow, reportsBelow]
  | succ n ih =>
    rw [search, keysBelow, reportsBelow]
    rw [keysBelow] at hnodup hfresh
    generalize items h = xs at hnodup hfresh
    induction xs generalizing st with
    | nil => simp
    | cons x xs ihxs =>
      rw [List.flatMap_cons] at hnodup hfresh
      obtain ⟨hx, hxs, hdisjoint⟩ := List.nodup_append.mp hnodup
      rw [List.foldl_cons, List.flatMap_cons, List.flatMap_cons]
      cases x with
      | report o =>
        have hseen : ∀ k, k ∉ ((st.1, st.2 ++ [o]) : State κ ω).1 ↔ k ∉ st.1 := fun _ => Iff.rfl
        rw [visit, ihxs hxs fun k hk => (hseen k).mpr (hfresh k (List.mem_append_right _ hk))]
        simp
      | descend k next =>
        have hk : k ∉ st.1 := hfresh k (by simp)
        obtain ⟨hknext, hnext⟩ := List.nodup_cons.mp hx
        have hdown : search items n next (k :: st.1, st.2)
            = ((keysBelow items n next).reverse ++ k :: st.1,
                st.2 ++ reportsBelow items n next) := by
          refine ih hnext fun k' hk' hmem => ?_
          rcases List.mem_cons.mp hmem with rfl | hmem
          · exact hknext hk'
          · exact hfresh k' (by simp [hk']) hmem
        rw [visit, if_neg hk, hdown, ihxs hxs]
        · simp
        · intro k' hk' hmem
          simp only [List.mem_append, List.mem_reverse, List.mem_cons] at hmem
          rcases hmem with hmem | rfl | hmem
          · exact hdisjoint k' (List.mem_cons_of_mem _ hmem) k' hk' rfl
          · exact hdisjoint k' List.mem_cons_self k' hk' rfl
          · exact hfresh k' (List.mem_append_right _ hk') hmem

end DepthSearch
