import SourceMerge.Text.Basic

/-! UTF-8. Writing gives each character its one to four bytes. Reading follows the table of
well-formed sequences byte by byte; where a sequence breaks off, the part read so far is one
undecodable unit, and the byte that broke it is read afresh. -/
namespace SourceMerge

abbrev Bytes := List UInt8

namespace Utf8

/-- The bytes of one character: the lead byte, then six bits a byte. -/
def encodeChar (c : Char) : Bytes :=
  let n := c.toNat
  if n < 0x80 then [n.toUInt8]
  else if n < 0x800 then [(0xC0 + n / 0x40).toUInt8, (0x80 + n % 0x40).toUInt8]
  else if n < 0x10000 then
    [(0xE0 + n / 0x1000).toUInt8, (0x80 + n / 0x40 % 0x40).toUInt8, (0x80 + n % 0x40).toUInt8]
  else
    [(0xF0 + n / 0x40000).toUInt8, (0x80 + n / 0x1000 % 0x40).toUInt8,
      (0x80 + n / 0x40 % 0x40).toUInt8, (0x80 + n % 0x40).toUInt8]

def encode (t : Text) : Bytes := t.flatMap encodeChar

/-- The number of bytes of a text. -/
def size (t : Text) : Nat := (encode t).length

/-- Where the reader stands: between characters, or inside one whose bits so far are `value`,
with `more` bytes to come of which the next lies between `low` and `high`. -/
inductive State
  | between
  | inside (value more low high : Nat)
  deriving DecidableEq

/-- The second byte is restricted after some lead bytes, which rules out overlong forms,
surrogates and numbers past the last code point. -/
def State.ofLead (b : Nat) : Option State :=
  if 0xC2 ≤ b ∧ b ≤ 0xDF then some (.inside (b - 0xC0) 1 0x80 0xBF)
  else if b = 0xE0 then some (.inside 0 2 0xA0 0xBF)
  else if b = 0xED then some (.inside 0xD 2 0x80 0x9F)
  else if 0xE1 ≤ b ∧ b ≤ 0xEF then some (.inside (b - 0xE0) 2 0x80 0xBF)
  else if b = 0xF0 then some (.inside 0 3 0x90 0xBF)
  else if 0xF1 ≤ b ∧ b ≤ 0xF3 then some (.inside (b - 0xF0) 3 0x80 0xBF)
  else if b = 0xF4 then some (.inside 4 3 0x80 0x8F)
  else none

/-- What has been read: characters, and `none` for each undecodable unit. The units stand in
reverse order. -/
structure Reading where
  units : List (Option Char)
  state : State

def Reading.begin (r : Reading) (b : UInt8) : Reading :=
  if b.toNat < 0x80 then ⟨some (Char.ofNat b.toNat) :: r.units, .between⟩
  else match State.ofLead b.toNat with
    | some s => ⟨r.units, s⟩
    | none => ⟨none :: r.units, .between⟩

def Reading.next (r : Reading) (b : UInt8) : Reading :=
  match r.state with
  | .between => r.begin b
  | .inside value more low high =>
    if low ≤ b.toNat ∧ b.toNat ≤ high then
      let value := value * 0x40 + (b.toNat - 0x80)
      if more = 1 then ⟨some (Char.ofNat value) :: r.units, .between⟩
      else ⟨r.units, .inside value (more - 1) 0x80 0xBF⟩
    else (Reading.mk (none :: r.units) .between).begin b

/-- A sequence that the end of the bytes cuts off is undecodable. -/
def Reading.finish (r : Reading) : List (Option Char) :=
  match r.state with
  | .between => r.units.reverse
  | .inside .. => (none :: r.units).reverse

/-- The characters and undecodable units of a byte sequence, in order. -/
def units (bytes : Bytes) : List (Option Char) :=
  (bytes.foldl Reading.next ⟨[], .between⟩).finish

/-- The replacement character, which stands for an undecodable unit. -/
def replacement : Char := '\uFFFD'

/-- Reads any bytes; each undecodable unit becomes the replacement character. -/
def decodeLossy (bytes : Bytes) : Text := (units bytes).map (·.getD replacement)

/-- Reads bytes in which every unit is a character. -/
def decode? (bytes : Bytes) : Option Text := (units bytes).mapM id

end Utf8
end SourceMerge
