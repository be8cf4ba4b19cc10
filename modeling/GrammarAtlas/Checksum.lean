import GrammarAtlas.Text.Basic

/-!
# A checksum of texts

The 32-bit cyclic redundancy check with the reflected polynomial `0xEDB88320`,
taken over the UTF-8 bytes of a text.  The register starts with all bits set,
takes in the bytes from the first to the last, each bit by bit from the lowest,
and is complemented at the end.  The value of a text never changes, so it can
name the text outside the program; two texts may share a value.
-/

namespace GrammarAtlas
namespace Checksum

/-- The generator polynomial, its bits reflected. -/
def polynomial : UInt32 := 0xEDB88320

/-- One bit leaves the register at the low end. -/
def shift (register : UInt32) : UInt32 :=
  if register &&& 1 = 1 then (register >>> 1) ^^^ polynomial else register >>> 1

/-- A byte enters the register at the low end and is shifted through. -/
def feed (register : UInt32) (byte : UInt8) : UInt32 :=
  (List.range 8).foldl (fun r _ => shift r) (register ^^^ byte.toUInt32)

/-- The checksum of a sequence of bytes. -/
def ofBytes (bytes : List UInt8) : UInt32 := bytes.foldl feed 0xFFFFFFFF ^^^ 0xFFFFFFFF

/-- The checksum of a text. -/
def ofText (t : Text) : UInt32 := ofBytes (t.flatMap String.utf8EncodeChar)

end Checksum
end GrammarAtlas
