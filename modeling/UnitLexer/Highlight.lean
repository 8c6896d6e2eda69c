/-
UnitLexer.Highlight — sources in colour, for terminals.

A token with a style is written between an escape sequence that selects the
style and one that resets it; a plain token is written as it is. Taking the
escape sequences out gives the source back.
-/
import UnitLexer.Lexer
import UnitLexer.Theme

namespace UnitLexer

/-! ## §1 Escape sequences -/

/-- The sequence that ends every style. -/
def resetSequence : String :=
  "\x1b[0m"

namespace Style

/-- The parameters that select a style: `1` for bold, `3` for italics, and the
colour by its three components. -/
def parameters (s : Style) : List String :=
  (if s.bold then ["1"] else []) ++ (if s.italic then ["3"] else []) ++
    match s.foreground with
    | some c =>
      ["38;2;" ++ toString c.red.toNat ++ ";" ++ toString c.green.toNat ++ ";" ++
        toString c.blue.toNat]
    | none => []

/-- The sequence that selects a style; a plain style needs none. -/
def sequence? (s : Style) : Option String :=
  if s.isPlain then none else some ("\x1b[" ++ ";".intercalate s.parameters ++ "m")

/-- The text in a style. -/
def paint (s : Style) (text : String) : String :=
  match s.sequence? with
  | some sequence => sequence ++ text ++ resetSequence
  | none => text

end Style

/-! ## §2 Token streams -/

/-- The tokens in the colours of a theme. -/
def Theme.render (theme : Theme) (tokens : List Token) : String :=
  String.join (tokens.map fun t => (theme.style t.kind).paint t.text)

/-- The source in the colours of a theme, or as it is without colours. -/
def highlightSource (ts : Tables) (theme : Theme) (colours : Bool) (source : String) : String :=
  if colours then theme.render (tokenize ts source) else source

/-! ## §3 When to use colours -/

/-- Whether colours are wanted. -/
inductive ColourChoice where
  /-- Only on a terminal. -/
  | auto
  | always
  | never
  deriving DecidableEq, Repr, Inhabited

namespace ColourChoice

/-- The choice with a name. -/
def ofName? (name : String) : Option ColourChoice :=
  if name = "auto" then some .auto
  else if name = "always" then some .always
  else if name = "never" then some .never
  else none

/-- Colours are to be used, on a terminal or elsewhere. -/
def useColours (choice : ColourChoice) (terminal : Bool) : Bool :=
  match choice with
  | .auto => terminal
  | .always => true
  | .never => false

end ColourChoice

end UnitLexer
