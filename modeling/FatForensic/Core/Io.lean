import FatForensic.Core.Error
import FatForensic.Lib.Slice

/-!
# Reading an in-memory image

The reads of the crates over a `Cursor` on a byte string.  Seeking never fails there, a read
delivers what is left up to the length asked for, and reading past the end delivers nothing.
-/

namespace FatForensic

open Window

/-- `Cursor::read` at position `pos` with room for `len` bytes. -/
def cursorRead (img : List UInt8) (pos len : ℕ) : List UInt8 := slice img pos len

/-- The loop of `read_fill`: `filled` bytes of `buf` are filled, and the cursor stands at
`pos`.  Every round fills a byte, so the length of the buffer is enough fuel. -/
def readFillFrom (img : List UInt8) : ℕ → ℕ → List UInt8 → ℕ → ℕ × List UInt8
  | 0, _, buf, filled => (filled, buf)
  | fuel + 1, pos, buf, filled =>
    if filled < buf.length then
      let got := cursorRead img pos (buf.length - filled)
      if got.length = 0 then (filled, buf)
      else readFillFrom img fuel (pos + got.length) (overwrite buf filled got)
        (filled + got.length)
    else (filled, buf)

/-- `read_fill` with the cursor at `pos`: the byte count and the buffer after it. -/
def readFill (img : List UInt8) (pos : ℕ) (buf : List UInt8) : ℕ × List UInt8 :=
  readFillFrom img buf.length pos buf 0

/-- `read_upto`: seek to `offset` and read up to `len` bytes (short read tolerated). -/
def readUpto (img : List UInt8) (offset len : ℕ) : List UInt8 :=
  let r := readFill img offset (List.replicate len 0)
  r.2.take r.1

/-- Seek to `offset` and read exactly `len` bytes, failing on a short read. -/
def readExact (op : String) (img : List UInt8) (offset len : ℕ) : Result (List UInt8) :=
  if offset + len ≤ img.length then .ok (slice img offset len)
  else .error (.io op "failed to fill whole buffer")

/-- A boot sector that is there is read whole. -/
lemma readExact_boot {img : List UInt8} (h : 512 ≤ img.length) (op : String) :
    readExact op img 0 512 = .ok (img.take 512) := by
  rw [readExact, if_pos (by omega), slice, List.drop_zero]

/-- The loop delivers all there is at once, and a further round changes nothing. -/
lemma readFill_eq (img : List UInt8) (pos : ℕ) (buf : List UInt8) :
    readFill img pos buf =
      ((slice img pos buf.length).length,
        slice img pos buf.length ++ buf.drop (slice img pos buf.length).length) := by
  unfold readFill
  cases hbuf : buf.length with
  | zero =>
    simp only [readFillFrom, slice_zero_len, List.length_nil, List.nil_append, List.drop_zero]
  | succ n =>
    rw [← hbuf]
    have hover : overwrite buf 0 (slice img pos buf.length)
        = slice img pos buf.length ++ buf.drop (slice img pos buf.length).length :=
      overwrite_zero _ _
    have hle : (slice img pos buf.length).length ≤ buf.length := by
      rw [length_slice]
      omega
    have hlen : (overwrite buf 0 (slice img pos buf.length)).length = buf.length :=
      length_overwrite (by omega)
    simp only [hbuf, readFillFrom, cursorRead]
    rw [← hbuf, if_pos (by omega), Nat.sub_zero]
    split
    next h => rw [h, List.eq_nil_of_length_eq_zero h, List.nil_append, List.drop_zero]
    next h =>
      rw [Nat.zero_add, hover]
      -- the second round, if there is one, starts at the end of the image or of the buffer
      rw [hover] at hlen
      cases n with
      | zero => rfl
      | succ n =>
        rw [readFillFrom]
        rw [hlen]
        split
        next hlt =>
          have hend : img.length ≤ pos + (slice img pos buf.length).length := by
            rw [length_slice] at hlt ⊢
            omega
          rw [cursorRead, slice_eq_nil_of_le _ hend, if_pos (by rfl)]
        next => rfl

@[simp] lemma readUpto_eq (img : List UInt8) (offset len : ℕ) :
    readUpto img offset len = slice img offset len := by
  simp only [readUpto, readFill_eq, List.length_replicate]
  exact List.take_left

end FatForensic
