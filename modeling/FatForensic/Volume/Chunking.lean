import FatForensic.Core.Reader
import Mathlib.Logic.Relation

/-!
# Reads do not depend on chunking

However a byte source cuts its bytes into answers and wherever it is interrupted, the read
loops deliver the same bytes and the same count; they fail exactly where a call fails.
-/

namespace FatForensic
namespace Reader

open Window

variable {σ : Type*}

/-- What a source promises: a call delivers the next bytes, at most as many as asked for, and
none only at the end; an interruption delivers nothing, and there are finitely many. -/
structure Delivers (r : Reader σ) (rest : σ → List UInt8) (interrupts : σ → ℕ) : Prop where
  length_le {s s' len bytes} : r.read s len = (.ok bytes, s') → bytes.length ≤ len
  rest_eq {s s' len bytes} : r.read s len = (.ok bytes, s') → rest s = bytes ++ rest s'
  rest_eq_nil {s s' len} : 0 < len → r.read s len = (.ok [], s') → rest s = []
  interrupts_le {s s' len bytes} :
    r.read s len = (.ok bytes, s') → interrupts s' ≤ interrupts s
  rest_interrupted {s s' len e} :
    r.read s len = (.error e, s') → e.kind = .interrupted → rest s' = rest s
  interrupts_lt {s s' len e} :
    r.read s len = (.error e, s') → e.kind = .interrupted → interrupts s' < interrupts s

/-- A seek puts a source that holds `contents` at an offset of them. -/
def Seeks (r : Reader σ) (rest : σ → List UInt8) (contents : List UInt8) : Prop :=
  ∀ s s' offset, r.seek s offset = (.ok (), s') → rest s' = contents.drop offset

/-- A round of the loop over a buffer of length `n` after which it goes on. -/
inductive Round (r : Reader σ) (n : ℕ) : σ × ℕ → σ × ℕ → Prop
  | deliver {s s' filled bytes} : filled < n → r.read s (n - filled) = (.ok bytes, s') →
      bytes ≠ [] → Round r n (s, filled) (s', filled + bytes.length)
  | retry {s s' filled e} : filled < n → r.read s (n - filled) = (.error e, s') →
      e.kind = .interrupted → Round r n (s, filled) (s', filled)

/-- A call that the loop makes fails with an error other than an interruption. -/
def FailsWith (r : Reader σ) (n : ℕ) (s : σ) (filled : ℕ) (e : IoError) : Prop :=
  ∃ s₁ s₂ filled', Relation.ReflTransGen (r.Round n) (s, filled) (s₁, filled') ∧
    filled' < n ∧ r.read s₁ (n - filled') = (.error e, s₂) ∧ e.kind ≠ .interrupted

variable {r : Reader σ} {rest : σ → List UInt8} {interrupts : σ → ℕ} {s s' : σ}
  {buf : List UInt8} {n filled filled' fuel : ℕ} {e : IoError}

/-! ## One round -/

/-- A round of the loop consumes bytes or an interruption. -/
lemma Delivers.measure_lt (h : r.Delivers rest interrupts)
    (hround : r.Round n (s, filled) (s', filled')) :
    (rest s').length + interrupts s' < (rest s).length + interrupts s := by
  cases hround with
  | deliver _ hread hne =>
    have hrest := congrArg List.length (h.rest_eq hread)
    have hle := h.interrupts_le hread
    have hpos := List.length_pos_iff.mpr hne
    rw [List.length_append] at hrest
    omega
  | retry _ hread hkind =>
    have hlt := h.interrupts_lt hread hkind
    rw [h.rest_interrupted hread hkind]
    omega

/-- A round stays within the buffer and keeps its length. -/
lemma Delivers.fillFrom_round (h : r.Delivers rest interrupts)
    (hround : r.Round buf.length (s, filled) (s', filled')) (fuel : ℕ) :
    ∃ buf' : List UInt8, buf'.length = buf.length ∧
      r.fillFrom (fuel + 1) s buf filled = r.fillFrom fuel s' buf' filled' := by
  cases hround with
  | @deliver _ _ _ bytes hlt hread hne =>
    have hle := h.length_le hread
    refine ⟨overwrite buf filled bytes, length_overwrite (by omega), ?_⟩
    simp only [fillFrom, if_pos hlt, hread]
    rw [if_neg (by simpa using hne)]
  | retry hlt hread hkind =>
    refine ⟨buf, rfl, ?_⟩
    simp only [fillFrom, if_pos hlt, hread, if_pos hkind]

/-! ## The whole run -/

/-- Where no call fails, the loop delivers all the bytes there are room for. -/
lemma Delivers.fillFrom_ok (h : r.Delivers rest interrupts)
    (hfuel : (rest s).length + interrupts s < fuel) (hfilled : filled ≤ buf.length)
    (hfails : ∀ e, ¬ r.FailsWith buf.length s filled e) :
    ∃ s', r.fillFrom fuel s buf filled =
      some (.ok (filled + min (buf.length - filled) (rest s).length),
        overwrite buf filled ((rest s).take (buf.length - filled)), s') := by
  induction fuel generalizing s buf filled with
  | zero => omega
  | succ fuel ih =>
    -- what fails later in the run fails in the run
    have hlater : ∀ {s' filled'}, r.Round buf.length (s, filled) (s', filled') →
        ∀ e, ¬ r.FailsWith buf.length s' filled' e := by
      rintro s' filled' hround e ⟨s₁, s₂, k, hsteps, hcall⟩
      exact hfails e ⟨s₁, s₂, k, hsteps.head hround, hcall⟩
    by_cases hlt : filled < buf.length
    · rcases hread : r.read s (buf.length - filled) with ⟨(e | bytes), s'⟩
      · have hkind : e.kind = .interrupted := by
          by_contra hkind
          exact hfails e ⟨s, s', filled, .refl, hlt, hread, hkind⟩
        have hround : r.Round buf.length (s, filled) (s', filled) := .retry hlt hread hkind
        have hmeasure := h.measure_lt hround
        have hrest := h.rest_interrupted hread hkind
        simp only [fillFrom, if_pos hlt, hread, if_pos hkind]
        rw [← hrest]
        exact ih (by omega) hfilled (hlater hround)
      · by_cases hnil : bytes = []
        · subst hnil
          have hend := h.rest_eq_nil (by omega) hread
          refine ⟨s', ?_⟩
          simp [fillFrom, hlt, hread, hend]
        · have hround := Round.deliver hlt hread hnil
          have hmeasure := h.measure_lt hround
          have hle := h.length_le hread
          have hlen : (overwrite buf filled bytes).length = buf.length :=
            length_overwrite (by omega)
          have hfilled' : filled + bytes.length ≤ (overwrite buf filled bytes).length := by omega
          obtain ⟨s'', hs''⟩ := ih (s := s') (by omega) hfilled' (by
            rw [hlen]
            exact hlater hround)
          refine ⟨s'', ?_⟩
          have htake : (rest s).take (buf.length - filled)
              = bytes ++ (rest s').take (buf.length - (filled + bytes.length)) := by
            rw [h.rest_eq hread, List.take_append, List.take_of_length_le hle, Nat.sub_sub]
          have hcount : filled + min (buf.length - filled) (rest s).length
              = filled + bytes.length
                + min (buf.length - (filled + bytes.length)) (rest s').length := by
            rw [h.rest_eq hread, List.length_append]
            omega
          rw [htake, hcount, ← overwrite_overwrite hfilled]
          rw [hlen] at hs''
          simp only [fillFrom, if_pos hlt, hread]
          rw [if_neg (by simpa using hnil), hs'']
    · refine ⟨s, ?_⟩
      have hfull : buf.length - filled = 0 := by omega
      simp [fillFrom, hlt, hfull]

/-- Where a call fails, the loop fails with its error. -/
lemma Delivers.fillFrom_error (h : r.Delivers rest interrupts)
    (hfuel : (rest s).length + interrupts s < fuel) (hfails : r.FailsWith buf.length s filled e) :
    ∃ buf' s', r.fillFrom fuel s buf filled = some (.error (.io "read" e.text), buf', s') := by
  obtain ⟨s₁, s₂, k, hsteps, hlt, hread, hkind⟩ := hfails
  generalize hn : buf.length = n at hsteps hlt hread
  generalize hstart : (s, filled) = start at hsteps
  induction hsteps using Relation.ReflTransGen.head_induction_on generalizing s buf filled fuel with
  | refl =>
    obtain ⟨rfl, rfl⟩ : s = s₁ ∧ filled = k := Prod.mk.inj hstart
    rw [← hn] at hlt hread
    obtain ⟨fuel, rfl⟩ := Nat.exists_eq_add_one_of_ne_zero (by omega : fuel ≠ 0)
    exact ⟨buf, s₂, by simp only [fillFrom, if_pos hlt, hread, if_neg hkind]⟩
  | @head _ next hround _ ih =>
    obtain ⟨fuel, rfl⟩ := Nat.exists_eq_add_one_of_ne_zero (by omega : fuel ≠ 0)
    obtain ⟨s', filled'⟩ := next
    subst hstart
    have hmeasure := h.measure_lt hround
    rw [← hn] at hround
    obtain ⟨buf', hlen, heq⟩ := h.fillFrom_round hround fuel
    rw [heq]
    exact ih (by omega) (hlen.trans hn) rfl

lemma not_failsWith (h : ∀ s len e s', r.read s len = (.error e, s') → e.kind = .interrupted) :
    ¬ r.FailsWith n s filled e := by
  rintro ⟨s₁, s₂, k, -, -, hread, hkind⟩
  exact hkind (h _ _ _ _ hread)

/-! ## The read functions -/

/-- The buffer is filled with the first of the bytes `avail` to come, as far as there is room,
and what is left of it is unchanged. -/
def Fills (out : Option (Result ℕ × List UInt8 × σ)) (buf avail : List UInt8) : Prop :=
  ∃ s', out = some (.ok (min buf.length avail.length),
    avail.take buf.length ++ buf.drop avail.length, s')

/-- The read fails with the error of a call. -/
def Fails (out : Option (Result ℕ × List UInt8 × σ)) (e : IoError) : Prop :=
  ∃ buf' s', out = some (.error (.io "read" e.text), buf', s')

lemma Delivers.fills (h : r.Delivers rest interrupts)
    (hfuel : (rest s).length + interrupts s < fuel)
    (hfails : ∀ e, ¬ r.FailsWith buf.length s 0 e) :
    Fills (r.fillFrom fuel s buf 0) buf (rest s) := by
  obtain ⟨s', hs'⟩ := h.fillFrom_ok hfuel (Nat.zero_le _) hfails
  refine ⟨s', ?_⟩
  rw [hs', Nat.zero_add, Nat.sub_zero, overwrite_zero, List.length_take, drop_min_length]

/-- **Reads do not depend on chunking.** -/
theorem Delivers.read_chunking {contents : List UInt8} (h : r.Delivers rest interrupts)
    (hseek : r.Seeks rest contents) :
    (∀ s buf fuel, (rest s).length + interrupts s < fuel →
      ((∀ e, ¬ r.FailsWith buf.length s 0 e) → Fills (r.readFill fuel s buf) buf (rest s)) ∧
        ∀ e, r.FailsWith buf.length s 0 e → Fails (r.readFill fuel s buf) e) ∧
    (∀ s s' offset buf fuel, r.seek s offset = (.ok (), s') →
      (contents.drop offset).length + interrupts s' < fuel →
      ((∀ e, ¬ r.FailsWith buf.length s' 0 e) →
        Fills (r.readUpto fuel s offset buf) buf (contents.drop offset)) ∧
        ∀ e, r.FailsWith buf.length s' 0 e → Fails (r.readUpto fuel s offset buf) e) ∧
    ∀ s s' offset buf e fuel, r.seek s offset = (.error e, s') →
      r.readUpto fuel s offset buf = some (.error (.io "seek" e.text), buf, s') := by
  refine ⟨?_, ?_, ?_⟩
  · intro s buf fuel hfuel
    exact ⟨h.fills hfuel, fun e => h.fillFrom_error hfuel⟩
  · intro s s' offset buf fuel hok hfuel
    rw [← hseek s s' offset hok] at hfuel ⊢
    simp only [readUpto, hok]
    exact ⟨h.fills hfuel, fun e => h.fillFrom_error hfuel⟩
  · intro s s' offset buf e fuel herror
    simp only [readUpto, herror]

/-! ## Sources over a byte string -/

/-- A source that is interrupted a number of times and then delivers byte by byte. -/
def trickle (img : List UInt8) : Reader (ℕ × ℕ) where
  read s len :=
    match s with
    | (pos, k + 1) => (.error ⟨.interrupted, "interrupted"⟩, (pos, k))
    | (pos, 0) => (.ok (slice img pos (min len 1)), (pos + (slice img pos (min len 1)).length, 0))
  seek s offset := (.ok (), (offset, s.2))

lemma trickle_delivers (img : List UInt8) :
    (trickle img).Delivers (fun s => img.drop s.1) Prod.snd where
  length_le := by
    rintro ⟨pos, _ | k⟩ s' len bytes h <;> simp only [trickle, Prod.mk.injEq] at h
    · rw [← Except.ok.inj h.1, length_slice]
      omega
    · exact absurd h.1 (by simp)
  rest_eq := by
    rintro ⟨pos, _ | k⟩ s' len bytes h <;> simp only [trickle, Prod.mk.injEq] at h
    · rw [← Except.ok.inj h.1, ← h.2]
      exact (slice_append_drop img pos _).symm
    · exact absurd h.1 (by simp)
  rest_eq_nil := by
    rintro ⟨pos, _ | k⟩ s' len hlen h <;> simp only [trickle, Prod.mk.injEq] at h
    · exact drop_eq_nil_of_slice_eq_nil (by omega) (Except.ok.inj h.1)
    · exact absurd h.1 (by simp)
  interrupts_le := by
    rintro ⟨pos, _ | k⟩ s' len bytes h <;> simp only [trickle, Prod.mk.injEq] at h
    · rw [← h.2]
    · exact absurd h.1 (by simp)
  rest_interrupted := by
    rintro ⟨pos, _ | k⟩ s' len e h - <;> simp only [trickle, Prod.mk.injEq] at h
    · exact absurd h.1 (by simp)
    · rw [← h.2]
  interrupts_lt := by
    rintro ⟨pos, _ | k⟩ s' len e h - <;> simp only [trickle, Prod.mk.injEq] at h
    · exact absurd h.1 (by simp)
    · rw [← h.2]
      exact Nat.lt_succ_self k

lemma trickle_interrupted (img : List UInt8) (s : ℕ × ℕ) (len : ℕ) (e : IoError) (s' : ℕ × ℕ)
    (h : (trickle img).read s len = (.error e, s')) : e.kind = .interrupted := by
  obtain ⟨pos, _ | k⟩ := s <;> simp only [trickle, Prod.mk.injEq] at h
  · exact absurd h.1 (by simp)
  · rw [← Except.error.inj h.1]

/-- A reader that trickles fills a buffer from the second byte on, after two interruptions. -/
theorem Delivers.read_chunking_trickle :
    Fills ((trickle [1, 2, 3, 4]).readUpto 6 (0, 2) 1 [9, 9, 9, 9, 9]) [9, 9, 9, 9, 9] [2, 3, 4] :=
  ((trickle_delivers [1, 2, 3, 4]).read_chunking (fun _ _ _ h => by cases h; rfl)).2.1
    (0, 2) (1, 2) 1 _ 6 rfl (by decide) |>.1
      fun _ => not_failsWith (trickle_interrupted [1, 2, 3, 4])

/-- The read of an in-memory image is what any source with the same bytes to come delivers. -/
theorem Delivers.readFill_eq_cursor {img : List UInt8} {pos : ℕ}
    (h : r.Delivers rest interrupts) (hrest : rest s = img.drop pos)
    (hfuel : (rest s).length + interrupts s < fuel)
    (hfails : ∀ e, ¬ r.FailsWith buf.length s 0 e) :
    ∃ s', r.readFill fuel s buf = some (.ok (FatForensic.readFill img pos buf).1,
      (FatForensic.readFill img pos buf).2, s') := by
  obtain ⟨s', hs'⟩ := h.fills hfuel hfails
  refine ⟨s', ?_⟩
  have hslice : slice img pos buf.length = (rest s).take buf.length := by rw [hrest, slice]
  rw [readFill, hs', readFill_eq, hslice, List.length_take, drop_min_length]

end Reader
end FatForensic
