/-
UnitLexer.Word — the words at the start of the input.

A name is ASCII; a unit word may also hold alphabetic characters beyond
ASCII. Both are maximal runs: where a word ends, no character follows that
could have continued it. The empty list says that no word starts here.
-/
import UnitLexer.Text.CharClass
import UnitLexer.Text.Leading

namespace UnitLexer

/-- The name at the start of the input. -/
def leadingName (cs : List Char) : List Char :=
  leadingRun isWordStart isWordChar cs

/-- The unit word at the start of the input. -/
def leadingUnitWord (cs : List Char) : List Char :=
  leadingRun isUnitStart isUnitChar cs

/-- The text is one ASCII name. -/
def isName (s : String) : Bool :=
  !s.isEmpty && leadingName s.toList == s.toList

/-- The text is one unit word. -/
def isUnitWord (s : String) : Bool :=
  !s.isEmpty && leadingUnitWord s.toList == s.toList

/-- The text is one run of symbol characters. -/
def isSymbolRun (s : String) : Bool :=
  !s.isEmpty && s.toList.all isSymbol

/-! ## A word is the start of the input -/

theorem leadingName_isPrefix (cs : List Char) : leadingName cs <+: cs :=
  leadingRun_isPrefix ..

theorem leadingUnitWord_isPrefix (cs : List Char) : leadingUnitWord cs <+: cs :=
  leadingRun_isPrefix ..

end UnitLexer
