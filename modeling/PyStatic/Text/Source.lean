import PyStatic.Text.Range

/-!
Contract: a source text addressed by UTF-8 byte offsets.

A line ends at a line feed and does not include it; a carriage return before the line feed belongs
to the line. A text that ends in a line feed has no empty line after it.
-/

namespace PyStatic

structure Position where
  line : Nat
  column : Nat
  deriving DecidableEq, Repr

structure Source where
  text : String

namespace Source

def lineFeed : UInt8 := 10

def bytes (source : Source) : List UInt8 :=
  source.text.toUTF8.toList

def size (source : Source) : Nat :=
  source.text.utf8ByteSize

def isContinuation (byte : UInt8) : Bool :=
  decide (0x80 ≤ byte.toNat) && decide (byte.toNat < 0xC0)

def isBoundary (source : Source) (offset : Nat) : Bool :=
  match source.text.toUTF8[offset]? with
  | some byte => !isContinuation byte
  | none => offset == source.size

/-- There is none when the range is reversed, too long or cuts a character. -/
def slice? (source : Source) (range : TextRange) : Option String :=
  if range.start ≤ range.stop && source.isBoundary range.start && source.isBoundary range.stop then
    String.fromUTF8? (source.text.toUTF8.extract range.start range.stop)
  else
    none

def slice (source : Source) (range : TextRange) : String :=
  (source.slice? range).getD ""

/-- The first line began at `start`; the head of `bytes` is at `offset`. -/
def lineRangesFrom (start offset : Nat) : List UInt8 → List TextRange
  | [] => if start < offset then [⟨start, offset⟩] else []
  | byte :: rest =>
    if byte = lineFeed then
      ⟨start, offset⟩ :: lineRangesFrom (offset + 1) (offset + 1) rest
    else
      lineRangesFrom start (offset + 1) rest

def lineRanges (source : Source) : List TextRange :=
  lineRangesFrom 0 0 source.bytes

def lineCount (source : Source) : Nat :=
  source.bytes.count lineFeed +
    (match source.bytes.getLast? with
      | some byte => if byte = lineFeed then 0 else 1
      | none => 0)

def line? (source : Source) (number : Nat) : Option String :=
  if number = 0 then none
  else source.lineRanges[number - 1]?.map source.slice

/-- An offset just past a final line feed counts to the last line. -/
def position (source : Source) (offset : Nat) : Position :=
  let ranges := source.lineRanges
  let before := (ranges.takeWhile fun range => range.stop < offset).length
  let index := min before (ranges.length - 1)
  match ranges[index]? with
  | some range => ⟨index + 1, offset - range.start + 1⟩
  | none => ⟨1, 1⟩

def startPosition (source : Source) (offset : Nat) : Position :=
  let before := source.bytes.take offset
  ⟨before.count lineFeed + 1, (before.reverse.takeWhile fun byte => byte ≠ lineFeed).length + 1⟩

end Source

end PyStatic
