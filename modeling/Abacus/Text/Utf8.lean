/-!
# UTF-8

Bytes are read as UTF-8. A first byte says how many bytes follow it; each of those
must be a continuation byte, and the first of them is held to a narrower range where
a shorter form, a surrogate or a code point beyond the last would come out. The
fault of a text is the first sequence that breaks off or breaks the rule, up to the
byte that shows it.
-/

namespace Abacus.Text.Utf8

/-- What is wrong with a sequence of bytes. -/
inductive Reason where
  | invalidStart
  | invalidContinuation
  | unexpectedEnd
  deriving DecidableEq, Repr

/-- What is wrong, in words. -/
def Reason.text : Reason → String
  | invalidStart => "invalid start byte"
  | invalidContinuation => "invalid continuation byte"
  | unexpectedEnd => "unexpected end of data"

/-- The first sequence that is no character. -/
structure Fault where
  /-- Its first byte. -/
  first : UInt8
  /-- The offset of that byte. -/
  start : Nat
  /-- How many bytes are at fault. -/
  length : Nat
  /-- What is wrong. -/
  reason : Reason
  deriving DecidableEq, Repr

/-- A byte in hexadecimal. -/
def hexByte (b : UInt8) : String :=
  let digits := Nat.toDigits 16 b.toNat
  String.ofList ('0' :: 'x' :: (List.replicate (2 - digits.length) '0' ++ digits))

/-- The fault in words. -/
def Fault.message (f : Fault) : String :=
  let place :=
    if f.length = 1 then s!"byte {hexByte f.first} in position {f.start}"
    else s!"bytes in position {f.start}-{f.start + f.length - 1}"
  s!"'utf-8' codec can't decode {place}: {f.reason.text}"

/-- How many bytes follow a first byte, and the bits that it brings. -/
def lead? (b : Nat) : Option (Nat × Nat) :=
  if b < 0x80 then some (0, b)
  else if b < 0xC2 then none
  else if b < 0xE0 then some (1, b - 0xC0)
  else if b < 0xF0 then some (2, b - 0xE0)
  else if b < 0xF5 then some (3, b - 0xF0)
  else none

/-- The least and the greatest byte that may follow a first byte. -/
def secondRange (b : Nat) : Nat × Nat :=
  if b = 0xE0 then (0xA0, 0xBF)
  else if b = 0xED then (0x80, 0x9F)
  else if b = 0xF0 then (0x90, 0xBF)
  else if b = 0xF4 then (0x80, 0x8F)
  else (0x80, 0xBF)

/-- The code point of a sequence of which `taken` bytes have given `bits` and `missing`
ones are left, the next one within a range; or how many bytes are at fault. -/
def continueFrom (range : Nat × Nat) (bits taken : Nat) :
    (missing : Nat) → List UInt8 → Except (Nat × Reason) Nat
  | 0, _ => .ok bits
  | _ + 1, [] => .error (taken, .unexpectedEnd)
  | missing + 1, b :: rest =>
    if range.1 ≤ b.toNat ∧ b.toNat ≤ range.2 then
      continueFrom (0x80, 0xBF) (bits * 0x40 + (b.toNat - 0x80)) (taken + 1) missing rest
    else .error (taken, .invalidContinuation)

/-- The characters of bytes that start at an offset, when the first `skip` bytes belong
to the character before. -/
def decodeFrom (skip offset : Nat) : List UInt8 → Except Fault (List Char)
  | [] => .ok []
  | b :: rest =>
    match skip with
    | skip + 1 => decodeFrom skip (offset + 1) rest
    | 0 =>
      match lead? b.toNat with
      | none => .error ⟨b, offset, 1, .invalidStart⟩
      | some (following, bits) =>
        match continueFrom (secondRange b.toNat) bits 1 following rest with
        | .error (length, reason) => .error ⟨b, offset, length, reason⟩
        | .ok code => do
          let chars ← decodeFrom following (offset + 1) rest
          return Char.ofNat code :: chars

/-- The characters of bytes. -/
def decode (bytes : List UInt8) : Except Fault (List Char) := decodeFrom 0 0 bytes

end Abacus.Text.Utf8
