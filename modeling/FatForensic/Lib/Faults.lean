import Mathlib.Tactic

/-!
# Programs over a source that can fail

A program moves a state on and ends with a value or an error; it has no end where its fuel does not
last.  The state keeps a log of the faults that the source met.  A program *simulates* an answer if
it ends with this answer in every run without a fault, and in every other at the first fault, with
an error that reports it.
-/

namespace Faults

variable {ε σ φ α β γ : Type}

/-- A program with errors in `ε` over states in `σ`. -/
abbrev Program (ε σ α : Type) := ExceptT ε (StateT σ Option) α

namespace Program

/-- The end of the run from a state. -/
def exec (p : Program ε σ α) (s : σ) : Option (Except ε α × σ) := p.run.run s

/-- The program with these ends. -/
def ofExec (f : σ → Option (Except ε α × σ)) : Program ε σ α := ExceptT.mk fun s => f s

/-- The program that gives a known answer. -/
def ofExcept (x : Except ε α) : Program ε σ α := ofExec fun s => some (x, s)

/-- The program that returns what another one ends with, be it an error. -/
def attempt (p : Program ε σ α) : Program ε σ (Except ε α) :=
  ofExec fun s => (p.exec s).map fun out => (.ok out.1, out.2)

@[simp] lemma exec_ofExec (f : σ → Option (Except ε α × σ)) (s : σ) : (ofExec f).exec s = f s := rfl

@[simp] lemma exec_pure (a : α) (s : σ) : (pure a : Program ε σ α).exec s = some (.ok a, s) := rfl

@[simp] lemma exec_throw (e : ε) (s : σ) :
    (throw e : Program ε σ α).exec s = some (.error e, s) := rfl

/-- What follows a value goes on from where the first program ends. -/
lemma exec_bind (p : Program ε σ α) (k : α → Program ε σ β) (s : σ) :
    (p >>= k).exec s = (p.exec s).bind fun out =>
      match out.1 with
      | .ok a => (k a).exec out.2
      | .error e => some (.error e, out.2) := by
  simp only [exec, ExceptT.run_bind, StateT.run_bind]
  refine Option.bind_congr fun out _ => ?_
  obtain ⟨_ | _, _⟩ := out <;> rfl

/-! ## What holds at the end -/

/-- The run from `s` has an end, and `P` holds of it. -/
def Meets (p : Program ε σ α) (s : σ) (P : Except ε α × σ → Prop) : Prop :=
  ∃ out, p.exec s = some out ∧ P out

variable {p : Program ε σ α} {k : α → Program ε σ β} {s : σ} {P P' : Except ε α × σ → Prop}
  {Q : Except ε β × σ → Prop}

lemma Meets.mono (h : p.Meets s P) (hP : ∀ out, P out → P' out) : p.Meets s P' := by
  obtain ⟨out, hout, hp⟩ := h
  exact ⟨out, hout, hP out hp⟩

lemma Meets.pure {a : α} (h : P (.ok a, s)) : (pure a : Program ε σ α).Meets s P :=
  ⟨_, exec_pure a s, h⟩

lemma Meets.bind (h : p.Meets s P) (hok : ∀ a s', P (.ok a, s') → (k a).Meets s' Q)
    (herror : ∀ e s', P (.error e, s') → Q (.error e, s')) : (p >>= k).Meets s Q := by
  obtain ⟨⟨r, s'⟩, hexec, hp⟩ := h
  cases r with
  | ok a =>
    obtain ⟨out, hout, hq⟩ := hok a s' hp
    exact ⟨out, by rw [exec_bind, hexec]; exact hout, hq⟩
  | error e => exact ⟨_, by rw [exec_bind, hexec]; rfl, herror e s' hp⟩

/-- What follows a program that returns a value. -/
lemma Meets.bind_value {R : α → σ → Prop}
    (h : p.Meets s fun out => ∃ a, out.1 = .ok a ∧ R a out.2)
    (hk : ∀ a s', R a s' → (k a).Meets s' Q) : (p >>= k).Meets s Q := by
  refine h.bind (fun a s' hend => ?_) fun e s' hend => ?_
  · obtain ⟨_, heq, hR⟩ := hend
    obtain rfl := Except.ok.inj heq
    exact hk _ s' hR
  · obtain ⟨_, heq, -⟩ := hend
    exact absurd heq (by simp)

lemma Meets.attempt {Q : Except ε (Except ε α) × σ → Prop}
    (h : p.Meets s fun out => Q (.ok out.1, out.2)) : p.attempt.Meets s Q := by
  obtain ⟨out, hexec, hq⟩ := h
  exact ⟨_, by rw [Program.attempt, exec_ofExec, hexec]; rfl, hq⟩

/-- An invariant of the elements to come and of the accumulator holds at the end of the loop. -/
lemma Meets.foldlM {f : β → α → Program ε σ β} {I : List α → β → σ → Prop}
    (hstep : ∀ a as b s, I (a :: as) b s →
      (f b a).Meets s fun out => ∃ b', out.1 = .ok b' ∧ I as b' out.2)
    (as : List α) (b : β) (s : σ) (h : I as b s) :
    (as.foldlM f b).Meets s fun out => ∃ b', out.1 = .ok b' ∧ I [] b' out.2 := by
  induction as generalizing b s with
  | nil => exact .pure ⟨b, rfl, h⟩
  | cons a as ih =>
    rw [List.foldlM_cons]
    exact Meets.bind_value (R := I as) (hstep a as b s h) fun b' s' hI => ih b' s' hI

/-! ## Simulation -/

section Simulation

variable (log : σ → List φ) (reports : φ → ε → Prop)

/-- The ends of a run from `s` that gives `answer` but for faults. -/
inductive Ends (answer : Except ε α) (s : σ) : Except ε α × σ → Prop where
  | answered {s' : σ} : log s' = log s → Ends answer s (answer, s')
  | faulted {s' : σ} {f : φ} {e : ε} :
    log s' = log s ++ [f] → reports f e → Ends answer s (.error e, s')

/-- From every state the program ends with the answer, or with the report of the one fault that it
met. -/
def Simulates (p : Program ε σ α) (answer : Except ε α) : Prop :=
  ∀ s, p.Meets s (Ends log reports answer s)

variable {log} {reports} {x : Except ε α} {f : α → Except ε β}

lemma ends_ok {a : α} {s s' : σ} :
    Ends log reports x s (.ok a, s') ↔ x = .ok a ∧ log s' = log s := by
  constructor
  · generalize hout : ((.ok a, s') : Except ε α × σ) = out
    intro h
    cases h with
    | answered hlog =>
      obtain ⟨ha, rfl⟩ := Prod.mk.inj hout
      exact ⟨ha.symm, hlog⟩
    | faulted => exact absurd (Prod.mk.inj hout).1 (by simp)
  · rintro ⟨rfl, hlog⟩
    exact .answered hlog

lemma ends_error {e : ε} {s s' : σ} : Ends log reports x s (.error e, s') ↔
    x = .error e ∧ log s' = log s ∨ ∃ f, reports f e ∧ log s' = log s ++ [f] := by
  constructor
  · generalize hout : ((.error e, s') : Except ε α × σ) = out
    intro h
    cases h with
    | answered hlog =>
      obtain ⟨he, rfl⟩ := Prod.mk.inj hout
      exact Or.inl ⟨he.symm, hlog⟩
    | @faulted _ f _ hlog hrep =>
      obtain ⟨he, rfl⟩ := Prod.mk.inj hout
      obtain rfl := Except.error.inj he
      exact Or.inr ⟨f, hrep, hlog⟩
  · rintro (⟨rfl, hlog⟩ | ⟨f, hrep, hlog⟩)
    · exact .answered hlog
    · exact .faulted hlog hrep

lemma Ends.log_prefix {out : Except ε α × σ} (h : Ends log reports x s out) :
    log s <+: log out.2 := by
  cases h with
  | answered hlog => rw [hlog]
  | faulted hlog =>
    rw [hlog]
    exact List.prefix_append _ _

/-- What ends without a fault is the answer. -/
lemma Ends.eq_of_log_eq {out : Except ε α × σ} (h : Ends log reports x s out)
    (hsame : log out.2 = log s) : out.1 = x := by
  cases h with
  | answered hlog => rfl
  | faulted hlog =>
    rw [hlog] at hsame
    exact absurd hsame (by simp)

/-- What ends as it would from a state with the same log. -/
lemma Ends.congr {s s₁ : σ} {out : Except ε α × σ} (h : Ends log reports x s₁ out)
    (hlog : log s₁ = log s) : Ends log reports x s out := by
  cases h with
  | answered hlog' => exact .answered (hlog'.trans hlog)
  | faulted hlog' hrep => exact .faulted (by rw [hlog', hlog]) hrep

/-- What follows the attempt of a simulated program, however that ends. -/
lemma Simulates.bind_attempt {k : Except ε α → Program ε σ β} {Q : Except ε β × σ → Prop}
    (hp : Simulates log reports p x) (s : σ)
    (hk : ∀ r s', Ends log reports x s (r, s') → (k r).Meets s' Q) :
    (p.attempt >>= k).Meets s Q :=
  Meets.bind_value (R := fun r s' => Ends log reports x s (r, s'))
    ((hp s).mono fun out hout => ⟨out.1, rfl, hout⟩).attempt hk

lemma Simulates.pure (a : α) : Simulates log reports (pure a : Program ε σ α) (.ok a) :=
  fun _ => .pure (.answered rfl)

lemma Simulates.throw (e : ε) : Simulates log reports (throw e : Program ε σ α) (.error e) :=
  fun s => ⟨_, exec_throw e s, .answered rfl⟩

lemma Simulates.ofExcept (x : Except ε α) :
    Simulates log reports (Program.ofExcept x : Program ε σ α) x :=
  fun _ => ⟨_, rfl, .answered rfl⟩

/-- **Simulations compose.** -/
lemma Simulates.bind (hp : Simulates log reports p x)
    (hk : ∀ a, x = .ok a → Simulates log reports (k a) (f a)) :
    Simulates log reports (p >>= k) (x >>= f) := by
  intro s
  refine (hp s).bind (fun a s' hend => ?_) fun e s' hend => ?_
  · obtain ⟨rfl, hlog⟩ := ends_ok.mp hend
    exact (hk a rfl s').mono fun out hout => hout.congr hlog
  · rcases ends_error.mp hend with ⟨rfl, hlog⟩ | ⟨f, hrep, hlog⟩
    · exact .answered hlog
    · exact .faulted hlog hrep

/-- What follows a known value. -/
lemma Simulates.bind_ok {a : α} {y : Except ε β} (hp : Simulates log reports p (.ok a))
    (hk : Simulates log reports (k a) y) : Simulates log reports (p >>= k) y := by
  refine hp.bind (f := fun _ => y) fun a' ha => ?_
  obtain rfl := Except.ok.inj ha
  exact hk

end Simulation

end Program
end Faults
