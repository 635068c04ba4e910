import Mathlib.Tactic

/-!
# Errors of the reader

`FatError` and the number formats its messages use.
-/

namespace FatForensic

/-! ## Number formats -/

/-- `digits` lower-case hexadecimal digits, zero padded. -/
def lowerHex (digits n : ℕ) : String :=
  let ds := Nat.toDigits 16 n
  String.ofList (List.replicate (digits - ds.length) '0' ++ ds)

/-- The format `{:#0wx}` for `w = digits + 2`. -/
def altHex (digits n : ℕ) : String := "0x" ++ lowerHex digits n

/-- The format `{:02X?}` of a byte slice. -/
def debugUpperHex (bytes : List UInt8) : String :=
  let item := fun b : UInt8 =>
    String.ofList ((List.replicate (2 - (Nat.toDigits 16 b.toNat).length) '0'
      ++ Nat.toDigits 16 b.toNat).map Char.toUpper)
  "[" ++ ", ".intercalate (bytes.map item) ++ "]"

/-- What `{:?}` escapes.  Beyond U+00FF it is what the Unicode tables of the standard library take
for a grapheme extender or not for printable; the tables change with the compiler, and `beyond`
stands for them. -/
def isEscaped (beyond : Char → Bool) (c : Char) : Bool :=
  let n := c.toNat
  n < 0x20 ∨ 0x7F ≤ n ∧ n ≤ 0xA0 ∨ n = 0xAD ∨ 0xFF < n ∧ beyond c

/-- The format `{:?}` of a character of a string. -/
def debugChar (beyond : Char → Bool) (c : Char) : String :=
  match c.toNat with
  | 0 => "\\0"
  | 9 => "\\t"
  | 10 => "\\n"
  | 13 => "\\r"
  | 34 => "\\\""
  | 92 => "\\\\"
  | n => if isEscaped beyond c then "\\u\x7b" ++ lowerHex 1 n ++ "\x7d" else String.singleton c

/-- The format `{:?}` of a string. -/
def debugString (beyond : Char → Bool) (s : String) : String :=
  "\"" ++ String.join (s.toList.map (debugChar beyond)) ++ "\""

/-! ## Errors -/

/-- What a `Corrupt` error reports. -/
inductive Corruption where
  | notADirectory (name : String)
  | noDirectoryEntry (index : UInt16)
deriving DecidableEq, Repr

/-- The message of a `Corrupt` error. -/
def Corruption.toText (beyond : Char → Bool) : Corruption → String
  | .notADirectory name => s!"{debugString beyond name} is not a directory"
  | .noDirectoryEntry index => s!"no directory entry at slot {index.toNat}"

/-- Errors raised while opening or navigating a FAT/exFAT volume. -/
inductive FatError where
  /-- The underlying reader failed during the named operation. -/
  | io (op source : String)
  /-- The boot sector is structurally invalid. -/
  | invalidBoot (message : String)
  /-- The volume is not a recognized FAT or exFAT filesystem. -/
  | notFat (message : String)
  /-- A structure was internally inconsistent while navigating. -/
  | corrupt (detail : Corruption)
deriving DecidableEq, Repr

/-- The text of an error. -/
def FatError.toText (beyond : Char → Bool) : FatError → String
  | .io op source => s!"I/O error during {op}: {source}"
  | .invalidBoot message => s!"invalid boot sector: {message}"
  | .notFat message => s!"not a FAT/exFAT volume: {message}"
  | .corrupt detail => s!"corrupt structure: {detail.toText beyond}"

/-- The outcome of a fallible operation of the crate. -/
abbrev Result (α : Type*) := Except FatError α

/-- A sequence of two operations succeeds when both do. -/
lemma bind_eq_ok {α β : Type} {x : Result α} {f : α → Result β} {b : β} :
    x >>= f = .ok b ↔ ∃ a, x = .ok a ∧ f a = .ok b := by
  cases x with
  | error e => simp [bind, Except.bind]
  | ok a => simp [bind, Except.bind]

lemma map_eq_ok {α β : Type} {x : Result α} {f : α → β} {b : β} :
    x.map f = .ok b ↔ ∃ a, x = .ok a ∧ f a = b := by
  cases x with
  | error e => simp [Except.map]
  | ok a => simp [Except.map]

example : altHex 4 0xA0 = "0x00a0" := by decide +kernel

example : debugString (fun _ => false) "a\"b\u00AD" = "\"a\\\"b\\u\x7bad\x7d\"" := by
  decide +kernel

end FatForensic
