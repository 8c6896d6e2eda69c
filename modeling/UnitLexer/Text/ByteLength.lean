/-
UnitLexer.Text.ByteLength — the size of text in UTF-8.

Reading goes by characters while offsets count bytes; this is the measure that
leads from one to the other.
-/

namespace UnitLexer

/-- How many bytes the characters occupy. -/
def byteLength (cs : List Char) : Nat :=
  (String.ofList cs).utf8ByteSize

@[simp] theorem byteLength_nil : byteLength [] = 0 := by
  simp [byteLength]

@[simp] theorem byteLength_append (cs ds : List Char) :
    byteLength (cs ++ ds) = byteLength cs + byteLength ds := by
  simp [byteLength, String.ofList_append]

@[simp] theorem byteLength_toList (s : String) : byteLength s.toList = s.utf8ByteSize := by
  simp [byteLength]

end UnitLexer
