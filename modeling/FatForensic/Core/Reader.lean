import FatForensic.Core.Io

/-!
# Reading any byte source

The read loops of `fs.rs` and of the auditor over a source that is known only by what it
answers: a `Read` may deliver fewer bytes than asked for, and may fail.
-/

namespace FatForensic

open Window

/-- `std::io::ErrorKind`, as far as the read loops tell it. -/
inductive ErrorKind where
  | interrupted
  | other
deriving DecidableEq, Repr

/-- An `std::io::Error`: its kind and its message. -/
structure IoError where
  kind : ErrorKind
  text : String
deriving DecidableEq, Repr

/-- A `Read + Seek` with states in `σ`.  A call answers and moves on to another state. -/
structure Reader (σ : Type*) where
  /-- `read` into a buffer of the given length: the bytes delivered to its front. -/
  read : σ → ℕ → Except IoError (List UInt8) × σ
  /-- `seek(SeekFrom::Start(offset))`. -/
  seek : σ → ℕ → Except IoError Unit × σ

namespace Reader

variable {σ : Type*} (r : Reader σ)

/-- The loop that fills a buffer, `filled` bytes of it being there: the result, the buffer and
the state of the source after it.  It is `none` where the fuel does not last. -/
def fillFrom : ℕ → σ → List UInt8 → ℕ → Option (Result ℕ × List UInt8 × σ)
  | 0, _, _, _ => none
  | fuel + 1, s, buf, filled =>
    if filled < buf.length then
      match r.read s (buf.length - filled) with
      | (.ok bytes, s') =>
        if bytes.length = 0 then some (.ok filled, buf, s')
        else fillFrom fuel s' (overwrite buf filled bytes) (filled + bytes.length)
      | (.error e, s') =>
        if e.kind = .interrupted then fillFrom fuel s' buf filled
        else some (.error (.io "read" e.text), buf, s')
    else some (.ok filled, buf, s)

/-- `read_fill`: fill `buf` as far as the reader allows. -/
def readFill (fuel : ℕ) (s : σ) (buf : List UInt8) : Option (Result ℕ × List UInt8 × σ) :=
  r.fillFrom fuel s buf 0

/-- `read_upto` of the auditor: seek to `offset`, then the same loop. -/
def readUpto (fuel : ℕ) (s : σ) (offset : ℕ) (buf : List UInt8) :
    Option (Result ℕ × List UInt8 × σ) :=
  match r.seek s offset with
  | (.error e, s') => some (.error (.io "seek" e.text), buf, s')
  | (.ok (), s') => r.fillFrom fuel s' buf 0

end Reader

end FatForensic
