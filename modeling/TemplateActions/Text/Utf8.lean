/-!
UTF-8. Decoding stops at the first malformed sequence and says which bytes it covers: the longest
start of a well-formed sequence that stands there, or the one byte that starts none.
-/
namespace TemplateActions.Utf8

inductive Reason where
  | invalidStart
  | invalidContinuation
  | unexpectedEnd
deriving DecidableEq

def Reason.message : Reason → String
  | .invalidStart => "invalid start byte"
  | .invalidContinuation => "invalid continuation byte"
  | .unexpectedEnd => "unexpected end of data"

structure Malformed where
  position : Nat
  first : UInt8
  length : Nat
  reason : Reason
deriving DecidableEq

def hexByte (b : UInt8) : String :=
  let digits := Nat.toDigits 16 b.toNat
  String.ofList (List.replicate (2 - digits.length) '0' ++ digits)

def Malformed.message (m : Malformed) : String :=
  let place :=
    if m.length = 1 then "byte 0x" ++ hexByte m.first ++ " in position " ++ toString m.position
    else "bytes in position " ++ toString m.position ++ "-" ++ toString (m.position + m.length - 1)
  "'utf-8' codec can't decode " ++ place ++ ": " ++ m.reason.message

/-- What a first byte announces: its payload, the number of bytes that follow, and the range of the
first of these. Overlong forms, surrogates and code points past the last one are excluded here. -/
def lead? (b : UInt8) : Option (Nat × Nat × UInt8 × UInt8) :=
  if b < 0x80 then some (b.toNat, 0, 0x80, 0xbf)
  else if b < 0xc2 then none
  else if b < 0xe0 then some (b.toNat % 0x20, 1, 0x80, 0xbf)
  else if b < 0xf0 then
    some (b.toNat % 0x10, 2, if b = 0xe0 then 0xa0 else 0x80, if b = 0xed then 0x9f else 0xbf)
  else if b < 0xf5 then
    some (b.toNat % 0x08, 3, if b = 0xf0 then 0x90 else 0x80, if b = 0xf4 then 0x8f else 0xbf)
  else none

/-- Reads `count` continuation bytes onto the payload `code`, the first of them from `low` to
`high`. `seen` counts the bytes of the sequence read so far. -/
def continuation (code : Nat) (low high : UInt8) (seen : Nat) :
    (count : Nat) → List UInt8 → Except (Nat × Reason) (Nat × List UInt8)
  | 0, rest => .ok (code, rest)
  | _ + 1, [] => .error (seen, .unexpectedEnd)
  | count + 1, b :: rest =>
    if low ≤ b && b ≤ high then
      continuation (code * 0x40 + b.toNat % 0x40) 0x80 0xbf (seen + 1) count rest
    else .error (seen, .invalidContinuation)

def decodeChar (b : UInt8) (rest : List UInt8) : Except (Nat × Reason) (Char × Nat × List UInt8) :=
  match lead? b with
  | none => .error (1, .invalidStart)
  | some (payload, count, low, high) =>
    match continuation payload low high 1 count rest with
    | .ok (code, rest) => .ok (Char.ofNat code, count + 1, rest)
    | .error e => .error e

/-- `fuel` bounds the number of characters; no more than there are bytes are needed. -/
def decodeFrom (position : Nat) : (fuel : Nat) → List UInt8 → Except Malformed (List Char)
  | 0, _ => .ok []
  | _ + 1, [] => .ok []
  | fuel + 1, b :: rest =>
    match decodeChar b rest with
    | .error (length, reason) => .error ⟨position, b, length, reason⟩
    | .ok (c, length, rest) =>
      match decodeFrom (position + length) fuel rest with
      | .ok text => .ok (c :: text)
      | .error e => .error e

def decode (bytes : List UInt8) : Except Malformed (List Char) := decodeFrom 0 bytes.length bytes

end TemplateActions.Utf8
