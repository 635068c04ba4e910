import FatForensic.Lib.Slice

/-!
# Machine arithmetic that can fault

Unsigned numbers of `w` bits as natural numbers, with operations that stop with a fault where
the machine would: a sum or product that does not fit, a difference below zero, a division by
zero, a range that leaves its list.  A program is free of faults when it returns a value.
-/

namespace Checked

open Window

/-- Why a program stops.  `Arm` names the arms of the program that are said to be dead. -/
inductive Fault (Arm : Type*) where
  | overflow
  | underflow
  | divideByZero
  | outOfRange
  | deadArm (arm : Arm)
  /-- A loop that does not advance. -/
  | stalled
  | outOfFuel
deriving DecidableEq, Repr

variable {Arm α : Type*} {w a b : ℕ}

/-- `a + b` in `w` bits. -/
def add (w a b : ℕ) : Except (Fault Arm) ℕ :=
  if a + b < 2 ^ w then .ok (a + b) else .error .overflow

/-- `a * b` in `w` bits. -/
def mul (w a b : ℕ) : Except (Fault Arm) ℕ :=
  if a * b < 2 ^ w then .ok (a * b) else .error .overflow

/-- `a - b`. -/
def sub (a b : ℕ) : Except (Fault Arm) ℕ :=
  if b ≤ a then .ok (a - b) else .error .underflow

/-- `a / b`. -/
def div (a b : ℕ) : Except (Fault Arm) ℕ :=
  if b = 0 then .error .divideByZero else .ok (a / b)

/-- `a % b`. -/
def rem (a b : ℕ) : Except (Fault Arm) ℕ :=
  if b = 0 then .error .divideByZero else .ok (a % b)

/-- `a / b`, rounded up: one more than a quotient that leaves a remainder. -/
def divCeil (w a b : ℕ) : Except (Fault Arm) ℕ := do
  let quotient ← div a b
  let remainder ← rem a b
  if remainder = 0 then .ok quotient else add w quotient 1

/-- The elements `start..stop` of a list. -/
def range (xs : List α) (start stop : ℕ) : Except (Fault Arm) (List α) :=
  if start ≤ stop ∧ stop ≤ xs.length then .ok (slice xs start (stop - start))
  else .error .outOfRange

lemma add_eq (h : a + b < 2 ^ w) : (add w a b : Except (Fault Arm) ℕ) = .ok (a + b) := if_pos h

lemma mul_eq (h : a * b < 2 ^ w) : (mul w a b : Except (Fault Arm) ℕ) = .ok (a * b) := if_pos h

lemma sub_eq (h : b ≤ a) : (sub a b : Except (Fault Arm) ℕ) = .ok (a - b) := if_pos h

lemma div_eq (h : 0 < b) : (div a b : Except (Fault Arm) ℕ) = .ok (a / b) := if_neg h.ne'

lemma rem_eq (h : 0 < b) : (rem a b : Except (Fault Arm) ℕ) = .ok (a % b) := if_neg h.ne'

lemma range_eq {xs : List α} {start stop : ℕ} (h : start ≤ stop) (hstop : stop ≤ xs.length) :
    (range xs start stop : Except (Fault Arm) (List α)) = .ok (slice xs start (stop - start)) :=
  if_pos ⟨h, hstop⟩

/-- Going on after an operation that returned. -/
@[simp] lemma ok_bind {β γ : Type} (x : β) (f : β → Except (Fault Arm) γ) :
    ((Except.ok x : Except (Fault Arm) β) >>= f) = f x := rfl

end Checked
