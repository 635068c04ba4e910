import Mathlib.Tactic

/-!
# Lossy decoding of UTF-16

The decoding of a sequence of UTF-16 code units to characters that puts the replacement
character U+FFFD in the place of every unpaired surrogate: a leading surrogate followed by
a trailing one makes one supplementary character, a leading surrogate followed by anything
else is replaced alone, and so is a trailing surrogate that no leading one precedes.
-/

namespace Utf16

/-- The character put in the place of an unpaired surrogate. -/
def replacement : Char := Char.ofNat 0xFFFD

/-- Whether a code unit is a leading surrogate. -/
def isLeading (u : UInt16) : Bool := 0xD800 ≤ u ∧ u ≤ 0xDBFF

/-- Whether a code unit is a trailing surrogate. -/
def isTrailing (u : UInt16) : Bool := 0xDC00 ≤ u ∧ u ≤ 0xDFFF

/-- The supplementary character of a surrogate pair. -/
def pairChar (u v : UInt16) : Char :=
  Char.ofNat ((u.toNat % 0x400) * 0x400 + v.toNat % 0x400 + 0x10000)

/-- The characters of a sequence of code units. -/
def decodeLossy : List UInt16 → List Char
  | [] => []
  | [u] => [if isLeading u ∨ isTrailing u then replacement else Char.ofNat u.toNat]
  | u :: v :: rest =>
    if isLeading u then
      if isTrailing v then pairChar u v :: decodeLossy rest
      else replacement :: decodeLossy (v :: rest)
    else if isTrailing u then replacement :: decodeLossy (v :: rest)
    else Char.ofNat u.toNat :: decodeLossy (v :: rest)

/-- The lossy decoding as a string. -/
def fromUtf16Lossy (units : List UInt16) : String := String.ofList (decodeLossy units)

/-! ## Sizes -/

/-- The number of code units that a character takes. -/
def unitCount (c : Char) : ℕ := if 0x10000 ≤ c.toNat then 2 else 1

lemma unitCount_replacement : unitCount replacement = 1 := by decide

lemma toNat_ofNat_of_isValidChar {n : ℕ} (h : n.isValidChar) : (Char.ofNat n).toNat = n := by
  rw [Char.ofNat, dif_pos h]
  rfl

/-- A single code unit makes a character of one code unit. -/
lemma unitCount_ofNat (u : UInt16) : unitCount (Char.ofNat u.toNat) = 1 := by
  have hu := u.toNat_lt
  refine if_neg ?_
  by_cases h : u.toNat.isValidChar
  · rw [toNat_ofNat_of_isValidChar h]
    omega
  · rw [Char.ofNat, dif_neg h]
    decide

/-- A surrogate pair makes a character of two code units. -/
lemma unitCount_pairChar (u v : UInt16) : unitCount (pairChar u v) = 2 := by
  have hu := Nat.mod_lt u.toNat (show 0 < 0x400 by norm_num)
  have hv := Nat.mod_lt v.toNat (show 0 < 0x400 by norm_num)
  have hvalid : (u.toNat % 0x400 * 0x400 + v.toNat % 0x400 + 0x10000).isValidChar :=
    Or.inr ⟨by omega, by omega⟩
  rw [unitCount, pairChar, toNat_ofNat_of_isValidChar hvalid, if_pos (by omega)]

/-- **Lossy decoding keeps the size**: as many code units come out as went in. -/
lemma sum_unitCount_decodeLossy (units : List UInt16) :
    ((decodeLossy units).map unitCount).sum = units.length := by
  fun_induction decodeLossy units with
  | case1 => rfl
  | case2 u =>
    split
    · simp [unitCount_replacement]
    · simp [unitCount_ofNat]
  | case3 u v rest _ _ ih =>
    rw [List.map_cons, List.sum_cons, unitCount_pairChar, ih, List.length_cons, List.length_cons]
    omega
  | case4 u v rest _ _ ih => simp [unitCount_replacement, ih, Nat.add_comm]
  | case5 u v rest _ _ ih => simp [unitCount_replacement, ih, Nat.add_comm]
  | case6 u v rest _ _ ih => simp [unitCount_ofNat, ih, Nat.add_comm]

/-- Equal strings come from equally many code units. -/
lemma length_eq_of_fromUtf16Lossy_eq {us vs : List UInt16}
    (h : fromUtf16Lossy us = fromUtf16Lossy vs) : us.length = vs.length := by
  rw [← sum_unitCount_decodeLossy us, ← sum_unitCount_decodeLossy vs,
    String.ofList_injective h]

/-- A string has no more characters than code units. -/
lemma length_fromUtf16Lossy_le (units : List UInt16) :
    (fromUtf16Lossy units).length ≤ units.length := by
  rw [fromUtf16Lossy, String.length_ofList, ← sum_unitCount_decodeLossy units,
    ← List.length_map (f := unitCount)]
  refine List.length_le_sum_of_one_le _ fun n hn => ?_
  obtain ⟨c, -, rfl⟩ := List.mem_map.mp hn
  rw [unitCount]
  split <;> omega

/-! ## Encoding -/

/-- The code units of a character. -/
def encodeChar (c : Char) : List UInt16 :=
  if c.toNat < 0x10000 then [UInt16.ofNat c.toNat]
  else [UInt16.ofNat (0xD800 + (c.toNat - 0x10000) / 0x400),
    UInt16.ofNat (0xDC00 + (c.toNat - 0x10000) % 0x400)]

/-- The code units of a string. -/
def toUtf16 (s : String) : List UInt16 := s.toList.flatMap encodeChar

lemma isValidChar_toNat (c : Char) : c.toNat.isValidChar := c.valid

/-- A code unit that is no surrogate is decoded alone. -/
lemma decodeLossy_cons {u : UInt16} (hlead : isLeading u = false) (htrail : isTrailing u = false)
    (rest : List UInt16) : decodeLossy (u :: rest) = Char.ofNat u.toNat :: decodeLossy rest := by
  cases rest with
  | nil => simp [decodeLossy, hlead, htrail]
  | cons v rest => simp [decodeLossy, hlead, htrail]

/-- A surrogate pair is decoded to one character. -/
lemma decodeLossy_cons_cons {u v : UInt16} (hlead : isLeading u = true)
    (htrail : isTrailing v = true) (rest : List UInt16) :
    decodeLossy (u :: v :: rest) = pairChar u v :: decodeLossy rest := by
  simp [decodeLossy, hlead, htrail]

/-- Decoding a character's code units gives the character. -/
lemma decodeLossy_encodeChar_append (c : Char) (rest : List UInt16) :
    decodeLossy (encodeChar c ++ rest) = c :: decodeLossy rest := by
  have hvalid := isValidChar_toNat c
  have hback : Char.ofNat c.toNat = c :=
    Char.toNat_inj.mp (toNat_ofNat_of_isValidChar hvalid)
  rw [encodeChar]
  split
  next hlt =>
    have hunit : (UInt16.ofNat c.toNat).toNat = c.toNat := UInt16.toNat_ofNat_of_lt hlt
    have hlead : isLeading (UInt16.ofNat c.toNat) = false := by
      simp only [isLeading, UInt16.le_iff_toNat_le, hunit, decide_eq_false_iff_not]
      simp only [Nat.isValidChar] at hvalid
      simp
      omega
    have htrail : isTrailing (UInt16.ofNat c.toNat) = false := by
      simp only [isTrailing, UInt16.le_iff_toNat_le, hunit, decide_eq_false_iff_not]
      simp only [Nat.isValidChar] at hvalid
      simp
      omega
    rw [List.singleton_append, decodeLossy_cons hlead htrail, hunit, hback]
  next hge =>
    have hlt : c.toNat < 0x110000 := by
      simp only [Nat.isValidChar] at hvalid
      omega
    have hu : (UInt16.ofNat (0xD800 + (c.toNat - 0x10000) / 0x400)).toNat
        = 0xD800 + (c.toNat - 0x10000) / 0x400 :=
      UInt16.toNat_ofNat_of_lt (by rw [UInt16.size]; omega)
    have hv : (UInt16.ofNat (0xDC00 + (c.toNat - 0x10000) % 0x400)).toNat
        = 0xDC00 + (c.toNat - 0x10000) % 0x400 :=
      UInt16.toNat_ofNat_of_lt (by rw [UInt16.size]; omega)
    have hcode : (0xD800 + (c.toNat - 0x10000) / 0x400) % 0x400 * 0x400
        + (0xDC00 + (c.toNat - 0x10000) % 0x400) % 0x400 + 0x10000 = c.toNat := by
      omega
    rw [List.cons_append, List.singleton_append, decodeLossy_cons_cons, pairChar, hu, hv,
      hcode, hback]
    · simp only [isLeading, UInt16.le_iff_toNat_le, hu, decide_eq_true_eq]
      simp
      omega
    · simp only [isTrailing, UInt16.le_iff_toNat_le, hv, decide_eq_true_eq]
      simp
      omega

/-- **Decoding gives back what was encoded.** -/
lemma fromUtf16Lossy_toUtf16 (s : String) : fromUtf16Lossy (toUtf16 s) = s := by
  have hdecode : ∀ cs : List Char, decodeLossy (cs.flatMap encodeChar) = cs := by
    intro cs
    induction cs with
    | nil => rfl
    | cons c cs ih => rw [List.flatMap_cons, decodeLossy_encodeChar_append, ih]
  rw [fromUtf16Lossy, toUtf16, hdecode, String.ofList_toList]

example : fromUtf16Lossy [0x68, 0xD83D, 0xDE00, 0xDC00] = "h😀\uFFFD" := by decide +kernel

end Utf16
