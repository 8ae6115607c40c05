import FlexSynth.Text.Display

/-!
# UTF-8

`decode` reads octets as UTF-8 and names the first octets that cannot be read:
an octet that starts no character, an octet that does not continue the one in
hand, or a character that the end cuts off. Overlong forms, surrogates and code
points above U+10FFFF are refused at the second octet, by the range that the
first one leaves for it.

`unifyNewlines` is what reading a text file adds: every line then ends in a
single newline.

Every text can be encoded. A row of code points that comes from elsewhere may hold
surrogates, and cannot; `encodeError?` names the first ones.
-/

namespace FlexSynth.Text

/-! ## Malformed text -/

/-- What is wrong with the octets that cannot be read. -/
inductive Utf8Fault where
  | startOctet
  | continuationOctet
  | endOfData
  deriving DecidableEq, Repr

/-- The octets that cannot be read: where they start, how many they are, and the
first of them. -/
structure Utf8Error where
  fault : Utf8Fault
  first : UInt8
  start : Nat
  count : Nat
  deriving DecidableEq, Repr

def Utf8Fault.message : Utf8Fault → String
  | .startOctet => "invalid start byte"
  | .continuationOctet => "invalid continuation byte"
  | .endOfData => "unexpected end of data"

/-- The octets concerned: the value of a single one, or the range of their places. -/
def Utf8Error.extent (e : Utf8Error) : String :=
  if e.count = 1 then
    let value := String.ofList (hex 2 e.first.toNat)
    s!"byte 0x{value} in position {e.start}"
  else
    let last := e.start + e.count - 1
    s!"bytes in position {e.start}-{last}"

/-- The message about octets that cannot be read. -/
def Utf8Error.message (e : Utf8Error) : String :=
  s!"'utf-8' codec can't decode {e.extent}: {e.fault.message}"

/-! ## Decoding -/

/-- A character in hand: its first octet, the bits so far, the octets read and
still owed, and the range that the next octet must lie in. -/
structure Utf8Pending where
  first : UInt8
  bits : Nat
  seen : Nat
  owed : Nat
  low : Nat
  high : Nat

/-- What the first octet of a character of several octets announces. -/
def Utf8Pending.ofFirst? (b : UInt8) : Option Utf8Pending :=
  let n := b.toNat
  if 0xc2 ≤ n ∧ n ≤ 0xdf then some ⟨b, n % 32, 1, 1, 0x80, 0xbf⟩
  else if n = 0xe0 then some ⟨b, n % 16, 1, 2, 0xa0, 0xbf⟩
  else if n = 0xed then some ⟨b, n % 16, 1, 2, 0x80, 0x9f⟩
  else if 0xe1 ≤ n ∧ n ≤ 0xef then some ⟨b, n % 16, 1, 2, 0x80, 0xbf⟩
  else if n = 0xf0 then some ⟨b, n % 8, 1, 3, 0x90, 0xbf⟩
  else if 0xf1 ≤ n ∧ n ≤ 0xf3 then some ⟨b, n % 8, 1, 3, 0x80, 0xbf⟩
  else if n = 0xf4 then some ⟨b, n % 8, 1, 3, 0x80, 0x8f⟩
  else none

/-- The character in hand with one more octet, if the octet continues it. -/
def Utf8Pending.push? (p : Utf8Pending) (b : UInt8) : Option Utf8Pending :=
  if p.low ≤ b.toNat ∧ b.toNat ≤ p.high then
    some { p with bits := p.bits * 64 + b.toNat % 64, seen := p.seen + 1, owed := p.owed - 1,
                  low := 0x80, high := 0xbf }
  else none

/-- Reads octets; `start` is the place of the next character, and `pending` the
character in hand. -/
def decodeFrom (start : Nat) (pending : Option Utf8Pending) :
    List UInt8 → Except Utf8Error (List Char)
  | [] => match pending with
    | none => .ok []
    | some p => .error ⟨.endOfData, p.first, start, p.seen⟩
  | b :: rest => match pending with
    | none =>
      if b.toNat < 0x80 then (decodeFrom (start + 1) none rest).map (Char.ofNat b.toNat :: ·)
      else match Utf8Pending.ofFirst? b with
        | some p => decodeFrom start (some p) rest
        | none => .error ⟨.startOctet, b, start, 1⟩
    | some p => match p.push? b with
      | none => .error ⟨.continuationOctet, p.first, start, p.seen⟩
      | some q =>
        if q.owed = 0 then (decodeFrom (start + q.seen) none rest).map (Char.ofNat q.bits :: ·)
        else decodeFrom start (some q) rest

def decode (octets : List UInt8) : Except Utf8Error String :=
  (decodeFrom 0 none octets).map String.ofList

def encode (text : String) : List UInt8 :=
  text.toList.flatMap String.utf8EncodeChar

/-! ## Surrogates -/

def isSurrogate (n : Nat) : Bool :=
  0xd800 ≤ n && n < 0xe000

/-- Surrogates in a row of code points: the first of them, where it stands, and how many stand
there one after the other. -/
structure EncodeError where
  first : Nat
  start : Nat
  count : Nat
  deriving DecidableEq, Repr

/-- The surrogates concerned: a single one, or the range of their places. -/
def EncodeError.extent (e : EncodeError) : String :=
  if e.count = 1 then
    let code := String.ofList ('\\' :: 'u' :: hex 4 e.first)
    s!"character '{code}' in position {e.start}"
  else
    let last := e.start + e.count - 1
    s!"characters in position {e.start}-{last}"

def EncodeError.message (e : EncodeError) : String :=
  s!"'utf-8' codec can't encode {e.extent}: surrogates not allowed"

/-- The first surrogates in a row of code points. -/
def encodeError? (points : List Nat) : Option EncodeError :=
  match points.dropWhile (!isSurrogate ·) with
  | [] => none
  | first :: rest =>
    some ⟨first, points.length - (first :: rest).length,
      (rest.takeWhile isSurrogate).length + 1⟩

/-! ## Line ends -/

/-- Turns a carriage return, alone or before a newline, into one newline. -/
def unifyNewlines : List Char → List Char
  | '\r' :: '\n' :: rest => '\n' :: unifyNewlines rest
  | '\r' :: rest => '\n' :: unifyNewlines rest
  | c :: rest => c :: unifyNewlines rest
  | [] => []

end FlexSynth.Text
