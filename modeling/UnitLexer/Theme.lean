/-
UnitLexer.Theme — the styles of the token kinds.

A theme gives styles to scopes. A scope without a style of its own takes that
of the nearest scope it is part of: `string.quote` is shown as `string` is. A
scope none of whose parents has a style (`white`, `symbol`, `invalid`) is
shown as it comes.
-/
import UnitLexer.Kind

namespace UnitLexer

/-! ## §1 Styles -/

/-- A 24-bit colour. -/
structure Colour where
  red : UInt8
  green : UInt8
  blue : UInt8
  deriving DecidableEq, Repr

/-- How text is shown. -/
structure Style where
  foreground : Option Colour := none
  bold : Bool := false
  italic : Bool := false
  deriving DecidableEq, Repr, Inhabited

namespace Style

/-- Coloured text. -/
def coloured (red green blue : UInt8) : Style :=
  { foreground := some ⟨red, green, blue⟩ }

/-- The style in bold. -/
def inBold (s : Style) : Style :=
  { s with bold := true }

/-- The style in italics. -/
def inItalic (s : Style) : Style :=
  { s with italic := true }

/-- The style changes nothing. -/
def isPlain (s : Style) : Bool :=
  s.foreground.isNone && !s.bold && !s.italic

/-- The style that changes nothing is the default one. -/
theorem isPlain_iff (s : Style) : s.isPlain = true ↔ s = {} := by
  obtain ⟨f, b, i⟩ := s
  cases f <;> cases b <;> cases i <;> simp [isPlain]

end Style

/-! ## §2 Scopes -/

/-- A scope and the scopes it is part of, nearest first: what stands before
each of its points. -/
def enclosingScopes : List Char → List (List Char)
  | [] => [[]]
  | c :: cs => (enclosingScopes cs).map (c :: ·) ++ if c = '.' then [[]] else []

/-! ## §3 Themes -/

/-- The themes there are. -/
inductive Theme where
  | light
  | dark
  deriving DecidableEq, Repr, Inhabited

/-- A name that no theme has. -/
structure UnknownTheme where
  name : String
  deriving DecidableEq, Repr

/-- What is said about the unknown name. -/
def UnknownTheme.message (e : UnknownTheme) : String :=
  "unknown theme `" ++ e.name ++ "` (expected `light` or `dark`)"

namespace Theme

/-- The name of a theme. -/
def name : Theme → String
  | .light => "light"
  | .dark => "dark"

/-- The theme with a name, in upper or lower case. -/
def ofName (name : String) : Except UnknownTheme Theme :=
  let lower := name.map Char.toLower
  if lower = "light" then .ok .light
  else if lower = "dark" then .ok .dark
  else .error ⟨name⟩

/-- The styles of a theme, by scope. -/
def rules : Theme → List (String × Style)
  | .light =>
    [("keyword", (Style.coloured 0x87 0x10 0x94).inBold),
      ("unit", (Style.coloured 0x00 0x66 0xCC).inBold),
      ("operator.unit", .coloured 0x00 0x66 0xCC),
      ("number.unit", .coloured 0x00 0x66 0xCC),
      ("function.declaration", .coloured 0x00 0xAA 0xAA),
      ("function.call", .coloured 0x79 0x5E 0x26),
      ("predefined", .coloured 0x00 0xAA 0x00),
      ("identifier", .coloured 0x17 0x50 0xEB),
      ("comment", (Style.coloured 0x00 0x80 0x00).inItalic),
      ("string", .coloured 0xAA 0x00 0x00),
      ("string.escape", (Style.coloured 0xDD 0x44 0x88).inBold),
      ("string.invalid", (Style.coloured 0xF5 0x44 0x00).inBold),
      ("number", .coloured 0x00 0x33 0xB3),
      ("operator", .coloured 0x44 0x44 0x44),
      ("delimiter", .coloured 0x66 0x66 0x66),
      ("delimiter.parenthesis", .coloured 0x66 0x66 0x66),
      ("delimiter.square", .coloured 0x66 0x66 0x66),
      ("delimiter.curly", .coloured 0x66 0x66 0x66)]
  | .dark =>
    [("keyword", (Style.coloured 0xC5 0x86 0xC0).inBold),
      ("unit", (Style.coloured 0x4F 0xC1 0xFF).inBold),
      ("operator.unit", .coloured 0x4F 0xC1 0xFF),
      ("number.unit", .coloured 0x4F 0xC1 0xFF),
      ("function.declaration", .coloured 0x4E 0xC9 0xB0),
      ("function.call", .coloured 0xDC 0xDC 0xAA),
      ("predefined", .coloured 0x4E 0xC9 0xB0),
      ("identifier", .coloured 0x9C 0xDC 0xFE),
      ("comment", (Style.coloured 0x6A 0x99 0x55).inItalic),
      ("string", .coloured 0xCE 0x91 0x78),
      ("string.escape", (Style.coloured 0xD7 0xBA 0x7D).inBold),
      ("string.invalid", (Style.coloured 0xF1 0x4C 0x4C).inBold),
      ("number", .coloured 0xB5 0xCE 0xA8),
      ("operator", .coloured 0xD4 0xD4 0xD4),
      ("delimiter", .coloured 0xD4 0xD4 0xD4),
      ("delimiter.parenthesis", .coloured 0xD4 0xD4 0xD4),
      ("delimiter.square", .coloured 0xD4 0xD4 0xD4),
      ("delimiter.curly", .coloured 0xD4 0xD4 0xD4)]

/-- The style of a scope: that of the nearest enclosing scope that has one. -/
def scopeStyle? (theme : Theme) (scope : String) : Option Style :=
  (enclosingScopes scope.toList).findSome? fun s => theme.rules.lookup (String.ofList s)

/-- The style of a kind; a kind without one is plain. -/
def style (theme : Theme) (kind : Kind) : Style :=
  (theme.scopeStyle? kind.scope).getD {}

end Theme

end UnitLexer
