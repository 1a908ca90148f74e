import StylePurge.Text

/-!
Text as UTF-8 bytes and back. Decoding stops at the first sequence that is not
well formed and says where it starts; a sequence cut off by the end of the input
is told apart from one that a wrong byte ends.
-/

namespace StylePurge.Text

abbrev Bytes := List UInt8

def continuation (value : Nat) : UInt8 := UInt8.ofNat (0x80 + value % 0x40)

def encodeCharacter (character : Char) : Bytes :=
  let value := character.toNat
  if value < 0x80 then [UInt8.ofNat value]
  else if value < 0x800 then [UInt8.ofNat (0xC0 + value / 0x40), continuation value]
  else if value < 0x10000 then
    [UInt8.ofNat (0xE0 + value / 0x1000), continuation (value / 0x40), continuation value]
  else
    [UInt8.ofNat (0xF0 + value / 0x40000), continuation (value / 0x1000),
      continuation (value / 0x40), continuation value]

def encode (text : Text) : Bytes := text.flatMap encodeCharacter

/-- Where a sequence that is not well formed starts, and how many bytes it has
up to the wrong one; no length when the input ends before it does. -/
structure Utf8Fault where
  index : Nat
  length : Option Nat
  deriving DecidableEq, Repr

def Utf8Fault.message (fault : Utf8Fault) : String :=
  match fault.length with
  | some length => s!"invalid utf-8 sequence of {length} bytes from index {fault.index}"
  | none => s!"incomplete utf-8 byte sequence from index {fault.index}"

/-- The bounds of the second byte after a first byte that starts a sequence of
two, three or four bytes; the sequence width comes first. -/
def sequenceBounds? (first : Nat) : Option (Nat × Nat × Nat) :=
  if 0xC2 ≤ first && first ≤ 0xDF then some (2, 0x80, 0xBF)
  else if first = 0xE0 then some (3, 0xA0, 0xBF)
  else if first = 0xED then some (3, 0x80, 0x9F)
  else if 0xE1 ≤ first && first ≤ 0xEF then some (3, 0x80, 0xBF)
  else if first = 0xF0 then some (4, 0x90, 0xBF)
  else if 0xF1 ≤ first && first ≤ 0xF3 then some (4, 0x80, 0xBF)
  else if first = 0xF4 then some (4, 0x80, 0x8F)
  else none

def within (low high : Nat) (byte : UInt8) : Bool := low ≤ byte.toNat && byte.toNat ≤ high

def isContinuation (byte : UInt8) : Bool := within 0x80 0xBF byte

def payload (byte : UInt8) : Nat := byte.toNat % 0x40

/-- Decodes from a byte that stands at `index`. -/
def decodeFrom (index : Nat) : Bytes → Except Utf8Fault Text
  | [] => .ok []
  | first :: rest =>
      if first.toNat < 0x80 then
        (decodeFrom (index + 1) rest).map (Char.ofNat first.toNat :: ·)
      else
        match sequenceBounds? first.toNat with
        | none => .error ⟨index, some 1⟩
        | some (width, low, high) =>
            match rest with
            | [] => .error ⟨index, none⟩
            | second :: rest =>
                if !within low high second then .error ⟨index, some 1⟩
                else if width = 2 then
                  (decodeFrom (index + 2) rest).map
                    (Char.ofNat (first.toNat % 0x20 * 0x40 + payload second) :: ·)
                else
                  match rest with
                  | [] => .error ⟨index, none⟩
                  | third :: rest =>
                      if !isContinuation third then .error ⟨index, some 2⟩
                      else if width = 3 then
                        (decodeFrom (index + 3) rest).map
                          (Char.ofNat (first.toNat % 0x10 * 0x1000 + payload second * 0x40 +
                            payload third) :: ·)
                      else
                        match rest with
                        | [] => .error ⟨index, none⟩
                        | fourth :: rest =>
                            if !isContinuation fourth then .error ⟨index, some 3⟩
                            else
                              (decodeFrom (index + 4) rest).map
                                (Char.ofNat (first.toNat % 0x8 * 0x40000 +
                                  payload second * 0x1000 + payload third * 0x40 +
                                  payload fourth) :: ·)

def decode (bytes : Bytes) : Except Utf8Fault Text := decodeFrom 0 bytes

end StylePurge.Text
