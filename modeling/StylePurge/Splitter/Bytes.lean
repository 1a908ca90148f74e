import StylePurge.Splitter
import StylePurge.Text.Utf8

/-!
The split of a stylesheet carried out on its UTF-8 bytes. The index goes on byte by
byte, also inside a character, and over both bytes of a comment delimiter at once. A
rule is cut out of the text between two positions. A cut at a position inside a
character fails, and with it the whole split.
-/

namespace StylePurge

namespace Text

/-- A character starts at the position, or the text ends there. -/
def isBoundary (bytes : Bytes) (position : Nat) : Bool :=
  position == bytes.length || (bytes[position]?).any fun byte => !isContinuation byte

/-- The text between two positions, which are counted in bytes. -/
def slice? (bytes : Bytes) (first last : Nat) : Option Text :=
  if first ≤ last && isBoundary bytes first && isBoundary bytes last then
    (decode ((bytes.take last).drop first)).toOption
  else none

/-- The one byte of an ASCII character. -/
def byteOf (character : Char) : UInt8 := UInt8.ofNat character.toNat

def isLayoutByte (byte : UInt8) : Bool :=
  byte == byteOf ' ' || byte == byteOf '\t' || byte == byteOf '\n' || byte == byteOf '\x0c' ||
    byte == byteOf '\r'

end Text

namespace Splitter

open Text (Bytes byteOf)

/-- Where the loop over the bytes stands. The pending rule starts at `start`. -/
structure Loop where
  index : Nat
  depth : Nat
  inComment : Bool
  start : Option Nat
  rules : List Rule
  deriving DecidableEq, Repr

namespace Loop

def first : Loop := ⟨0, 0, false, none, []⟩

/-- Layout does not start a rule. -/
def begin (loop : Loop) (byte : UInt8) : Loop :=
  if loop.start.isNone && !Text.isLayoutByte byte then { loop with start := some loop.index }
  else loop

/-- Where the rule starts that a byte outside of comments ends, if it ends one. -/
def ended? (bytes : Bytes) (loop : Loop) (byte : UInt8) : Option Nat :=
  if byte == byteOf '}' && loop.depth == 1 then loop.start
  else if byte == byteOf ';' && loop.depth == 0 then
    loop.start.filter fun start => bytes[start]? == some (byteOf '@')
  else none

/-- The effect of a byte that ends no rule. -/
def nest (loop : Loop) (byte : UInt8) : Loop :=
  if byte == byteOf '{' then { loop with depth := loop.depth + 1 }
  else if byte == byteOf '}' then
    if loop.depth == 0 then { loop with start := none } else { loop with depth := loop.depth - 1 }
  else loop

/-- Takes a byte outside of comments. -/
def code (bytes : Bytes) (loop : Loop) (byte : UInt8) : Option Loop :=
  match loop.ended? bytes byte with
  | some start =>
      (Text.slice? bytes start (loop.index + 1)).map fun text =>
        { loop with depth := 0, start := none, rules := loop.rules ++ [⟨text⟩] }
  | none => some (loop.nest byte)

def forward (width : Nat) (loop : Loop) : Loop := { loop with index := loop.index + width }

/-- One round of the loop, at a byte that stands at the index. -/
def round (bytes : Bytes) (loop : Loop) (byte : UInt8) : Option Loop :=
  let begun := loop.begin byte
  let next := bytes[loop.index + 1]?
  if loop.inComment then
    if byte == byteOf '*' && next == some (byteOf '/') then
      some ({ begun with inComment := false }.forward 2)
    else some (begun.forward 1)
  else if byte == byteOf '/' && next == some (byteOf '*') then
    some ({ begun with inComment := true }.forward 2)
  else (begun.code bytes byte).map (forward 1)

theorem begin_index (loop : Loop) (byte : UInt8) : (loop.begin byte).index = loop.index := by
  unfold begin
  split <;> rfl

theorem nest_index (loop : Loop) (byte : UInt8) : (loop.nest byte).index = loop.index := by
  unfold nest
  split
  · rfl
  split
  · split <;> rfl
  · rfl

theorem code_index {bytes : Bytes} {loop next : Loop} {byte : UInt8}
    (done : loop.code bytes byte = some next) : next.index = loop.index := by
  unfold code at done
  split at done
  · obtain ⟨text, _, rfl⟩ := Option.map_eq_some_iff.1 done
    rfl
  · rw [← Option.some.inj done, nest_index]

theorem round_index {bytes : Bytes} {loop next : Loop} {byte : UInt8}
    (done : loop.round bytes byte = some next) : loop.index < next.index := by
  have begun := loop.begin_index byte
  unfold round at done
  dsimp only at done
  split at done
  · split at done
    · rw [← Option.some.inj done]
      simp only [forward]
      omega
    · rw [← Option.some.inj done]
      simp only [forward]
      omega
  split at done
  · rw [← Option.some.inj done]
    simp only [forward]
    omega
  · obtain ⟨coded, found, rfl⟩ := Option.map_eq_some_iff.1 done
    have same := code_index found
    simp only [forward]
    omega

/-- Goes on to the end of the bytes, unless a cut fails. -/
def run (bytes : Bytes) (loop : Loop) : Option Loop :=
  match under : bytes[loop.index]? with
  | none => some loop
  | some byte =>
      match done : loop.round bytes byte with
      | none => none
      | some next =>
          have : bytes.length - next.index < bytes.length - loop.index := by
            obtain ⟨inside, _⟩ := List.getElem?_eq_some_iff.1 under
            have further := round_index done
            omega
          next.run bytes
termination_by bytes.length - loop.index

/-- How many bytes at the end belong to no rule. -/
def leftover (bytes : Bytes) (loop : Loop) : Nat :=
  match loop.start with
  | some start => bytes.length - start
  | none => 0

end Loop

def scanBytes (bytes : Bytes) : Option Loop := Loop.first.run bytes

end Splitter

end StylePurge
