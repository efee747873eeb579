/-!
# ScriptBridge.Utf8

Reading byte strings as UTF-8.  A byte string that is not valid text has a first fault: the
place up to which it is valid, and how many bytes there can be skipped as one broken
sequence, or that the text ends inside a sequence (`Utf8.fault?`).  `Utf8.lossy` puts one
replacement character for every broken sequence.
-/

namespace ScriptBridge

namespace Utf8

/-- The first fault of a byte string: how many bytes before it are valid, and the length of
the broken sequence; no length when the string ends inside one. -/
structure Fault where
  validUpTo : Nat
  length : Option Nat
  deriving DecidableEq, Repr

def Fault.message (f : Fault) : String :=
  match f.length with
  | some n => s!"invalid utf-8 sequence of {n} bytes from index {f.validUpTo}"
  | none => s!"incomplete utf-8 byte sequence from index {f.validUpTo}"

/-- What stands at the head of a byte string: a character of some width, a broken sequence of
some length, or a sequence cut off by the end. -/
inductive Head where
  | char (width : Nat) (code : Nat)
  | broken (length : Nat)
  | cut
  deriving DecidableEq, Repr

def isContinuation (b : UInt8) : Bool := decide (0x80 ≤ b ∧ b ≤ 0xbf)

/-- The bytes that may follow a first byte: the second byte of a long sequence is restricted
so that no overlong form, surrogate or number past the last code point is read. -/
def secondRange (b : UInt8) : UInt8 × UInt8 :=
  if b = 0xe0 then (0xa0, 0xbf)
  else if b = 0xed then (0x80, 0x9f)
  else if b = 0xf0 then (0x90, 0xbf)
  else if b = 0xf4 then (0x80, 0x8f)
  else (0x80, 0xbf)

/-- How many bytes a first byte announces; zero when none can start with it. -/
def announced (b : UInt8) : Nat :=
  if b < 0x80 then 1
  else if b < 0xc2 then 0
  else if b < 0xe0 then 2
  else if b < 0xf0 then 3
  else if b < 0xf5 then 4
  else 0

/-- The six payload bits of a continuation byte. -/
def payload (b : UInt8) : Nat := b.toNat % 64

/-- The sequence that starts with `b` and goes on with `rest`. -/
def head (b : UInt8) (rest : List UInt8) : Head :=
  let second (c : UInt8) : Bool := let r := secondRange b; decide (r.1 ≤ c ∧ c ≤ r.2)
  match announced b, rest with
  | 1, _ => .char 1 b.toNat
  | 2, [] => .cut
  | 2, c :: _ => if second c then .char 2 (b.toNat % 32 * 64 + payload c) else .broken 1
  | 3, [] => .cut
  | 3, c :: more =>
    if second c then
      match more with
      | [] => .cut
      | d :: _ =>
        if isContinuation d then .char 3 ((b.toNat % 16 * 64 + payload c) * 64 + payload d)
        else .broken 2
    else .broken 1
  | 4, [] => .cut
  | 4, c :: more =>
    if second c then
      match more with
      | [] => .cut
      | d :: more =>
        if isContinuation d then
          match more with
          | [] => .cut
          | e :: _ =>
            if isContinuation e then
              .char 4 (((b.toNat % 8 * 64 + payload c) * 64 + payload d) * 64 + payload e)
            else .broken 3
        else .broken 2
    else .broken 1
  | _, _ => .broken 1

/-- The first fault from a place on, after skipping `skip` bytes that were read already. -/
def scan : (skip : Nat) → (place : Nat) → List UInt8 → Option Fault
  | _, _, [] => none
  | skip + 1, place, _ :: rest => scan skip (place + 1) rest
  | 0, place, b :: rest =>
    match head b rest with
    | .char width _ => scan (width - 1) (place + 1) rest
    | .broken length => some ⟨place, some length⟩
    | .cut => some ⟨place, none⟩

/-- The first fault of a byte string. -/
def fault? (bytes : List UInt8) : Option Fault := scan 0 0 bytes

/-- The character that stands for a broken sequence. -/
def replacement : Char := '\ufffd'

/-- The characters of a byte string, one replacement for each broken sequence. -/
def lossyChars : (skip : Nat) → List UInt8 → List Char
  | _, [] => []
  | skip + 1, _ :: rest => lossyChars skip rest
  | 0, b :: rest =>
    match head b rest with
    | .char width code => Char.ofNat code :: lossyChars (width - 1) rest
    | .broken length => replacement :: lossyChars (length - 1) rest
    | .cut => [replacement]

/-- A byte string as text: itself when it is valid, else with replacements. -/
def lossy (bytes : ByteArray) : String :=
  match String.fromUTF8? bytes with
  | some text => text
  | none => String.ofList (lossyChars 0 bytes.toList)

/-- A byte string as text, or its first fault. -/
def decode (bytes : ByteArray) : Except Fault String :=
  match String.fromUTF8? bytes with
  | some text => .ok text
  | none => .error ((fault? bytes.toList).getD ⟨0, none⟩)

end Utf8

end ScriptBridge
