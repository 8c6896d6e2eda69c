/-
UnitLexer.Proofs.UnitExpressions — every quantity of the grammar is read as one.

`reads_unitExpr` is the induction over syntax trees: an expression at any level
of the grammar is read as its terminals in order and leaves the modes as it
found them. It is stated for the expression and the group mode alike, since a
group is an expression between parentheses, and for any rest that does not
continue the last word. What the look-ahead for a group needs is a fact about
the grammar, `leadingUnit_text_ne_nil`: past parentheses and blanks every
expression starts with a unit.
-/
import UnitLexer.Proofs.Terminals

namespace UnitLexer

open Rule

/-! ## §1 Where the pieces meet -/

section

variable {ts : Tables} {level : UnitExpr.Level} {rest : List Char}

/-- What no blank continues and the rest does not continue, blanks and the rest
do not continue. -/
theorem Blanks.stops {p : Char → Bool} (g : Blanks) (hp : p ' ' = false ∧ p '\t' = false)
    (hrest : Stops p rest) : Stops p (g.text ++ rest) := by
  cases hg : g.text with
  | nil => exact hrest
  | cons c tail =>
    refine stops_cons.mpr ?_
    rcases isBlank_iff.mp (g.blank c (by simp [hg])) with rfl | rfl
    · exact hp.1
    · exact hp.2

theorem ProductSign.char_eq (sign : ProductSign) : sign.char = '*' ∨ sign.char = '/' := by
  cases sign with
  | multiply => exact .inl rfl
  | divide => exact .inr rfl

theorem ProductSign.stops_isUnitChar (sign : ProductSign) (rest : List Char) :
    Stops isUnitChar (sign.char :: rest) := by
  cases sign <;> exact stops_cons.mpr (by decide)

theorem ProductSign.stops_isSpace (sign : ProductSign) (rest : List Char) :
    Stops isSpace (sign.char :: rest) := by
  cases sign <;> exact stops_cons.mpr (by decide)

/-- An exponent starts with a digit or a sign. -/
theorem UnitPower.stops_isBlank (x : UnitPower) (rest : List Char) :
    Stops isBlank (x.text ++ rest) := by
  intro d hd
  cases hx : x.text with
  | nil => exact absurd hx x.isInteger.ne_nil
  | cons c tail =>
    obtain rfl : c = d := by simpa [hx] using hd
    have hc := x.isInteger.numberChar c (by simp [hx])
    cases hb : isBlank c with
    | false => rfl
    | true => rcases isBlank_iff.mp hb with rfl | rfl <;> exact absurd hc (by decide)

theorem UnitExpr.stops_isSpace (e : UnitExpr ts level) (rest : List Char) :
    Stops isSpace (e.text ++ rest) := by
  obtain ⟨c, tail, he, hc⟩ := e.exists_text_eq_cons
  rw [he, List.cons_append, stops_cons]
  rcases hc with hc | rfl
  · exact isSpace_of_isUnitStart hc
  · decide

/-- The look-ahead for a group finds the first unit of an expression. -/
theorem leadingUnit_text_ne_nil (e : UnitExpr ts level) (hrest : Stops isUnitChar rest) :
    leadingUnit ts ((e.text ++ rest).dropWhile opensOrBlank) ≠ [] := by
  induction e generalizing rest with
  | word w =>
    have hstart : Stops opensOrBlank (w.text ++ rest) := by
      obtain ⟨c, tail, hw, hc⟩ := w.isUnit.head
      have hopen : c ≠ '(' := by rintro rfl; contradiction
      rw [hw, List.cons_append, stops_cons]
      simp [opensOrBlank, hopen, isBlank_of_isSpace (isSpace_of_isUnitStart hc)]
    rw [UnitExpr.text, dropWhile_eq_self_of_stops hstart, w.isUnit.leading hrest]
    exact w.isUnit.ne_nil
  | group before e after ih =>
    have hblank : ∀ c ∈ before.text, opensOrBlank c = true := fun c hc => by
      simp [opensOrBlank, before.blank c hc]
    have hskip : ((UnitExpr.group before e after).text ++ rest).dropWhile opensOrBlank =
        (e.text ++ (after.text ++ ')' :: rest)).dropWhile opensOrBlank := by
      rw [UnitExpr.text, List.cons_append, List.dropWhile_cons_of_pos (by decide)]
      simp [List.dropWhile_append_of_pos hblank]
    rw [hskip]
    exact ih (after.stops (by decide) (stops_cons.mpr (by decide)))
  | plain _ ih | single _ ih => exact ih hrest
  | power p before after x ih =>
    rw [UnitExpr.text, List.append_assoc, List.append_assoc]
    exact ih (before.stops (by decide) (stops_cons.mpr (by decide)))
  | product f before sign after e ih _ =>
    rw [UnitExpr.text, List.append_assoc, List.append_assoc]
    exact ih (before.stops (by decide) (sign.stops_isUnitChar _))

end

/-! ## §2 Expressions -/

section

variable {ts : Tables} {m : Mode} {below : List Mode} {rest : List Char}

/-- Where there are no blanks nothing is read. -/
theorem Blanks.reads_of_ne_nil (g : Blanks) {frames : List Mode}
    (h : g.text ≠ [] → Reads ts frames (g.text ++ rest) [⟨.space, g.text⟩] frames rest) :
    Reads ts frames (g.text ++ rest) g.lexemes frames rest := by
  by_cases hg : g.text = []
  · rw [Blanks.lexemes, if_pos hg, hg]
    exact .done
  · rw [Blanks.lexemes, if_neg hg]
    exact h hg

theorem Blanks.reads (g : Blanks) (hm : ReadsUnits m) (hrest : Stops isSpace rest) :
    Reads ts (m :: below) (g.text ++ rest) g.lexemes (m :: below) rest :=
  g.reads_of_ne_nil fun hne => reads_blanks hm g.blank hne hrest

theorem Blanks.reads_before_exponent (g : Blanks) (hrest : Stops isBlank rest) :
    Reads ts (.unitExponent :: below) (g.text ++ rest) g.lexemes (.unitExponent :: below) rest :=
  g.reads_of_ne_nil fun hne => reads_blanks_before_exponent g.blank hne hrest

/-- An expression is read as its terminals in order. -/
theorem reads_unitExpr {level : UnitExpr.Level} (e : UnitExpr ts level) (hm : ReadsUnits m)
    (hrest : Stops isUnitChar rest) :
    Reads ts (m :: below) (e.text ++ rest) e.lexemes (m :: below) rest := by
  induction e generalizing m below rest with
  | word w => exact reads_unit hm w.isUnit hrest
  | group before e after ih =>
    have hlook := leadingUnit_text_ne_nil (.group before e after) hrest
    have htext : (UnitExpr.group before e after).text ++ rest =
        '(' :: (before.text ++ (e.text ++ (after.text ++ ')' :: rest))) := by simp [UnitExpr.text]
    rw [htext] at hlook ⊢
    have hopening : Reads ts (m :: below) _ _ (.unitGroup :: m :: below) _ :=
      reads_opening hm fun _ => opensUnitGroup_cons hlook
    have hbefore : Reads ts (.unitGroup :: m :: below) _ _ _ _ :=
      before.reads (.inr rfl) (e.stops_isSpace (after.text ++ ')' :: rest))
    have hclosing : Stops isUnitChar (')' :: rest) := stops_cons.mpr (by decide)
    have hinner : Reads ts (.unitGroup :: m :: below) _ _ _ _ :=
      ih (.inr rfl) (after.stops (by decide) hclosing)
    have hafter : Reads ts (.unitGroup :: m :: below) _ _ _ (')' :: rest) :=
      after.reads (.inr rfl) (stops_cons.mpr (by decide))
    exact hopening.append (hbefore.append (hinner.append (hafter.append reads_closing)))
  | plain _ ih | single _ ih => exact ih hm hrest
  | power p before after x ih =>
    have htext : (UnitExpr.power p before after x).text ++ rest =
        p.text ++ (before.text ++ '^' :: (after.text ++ (x.text ++ rest))) := by
      simp [UnitExpr.text]
    rw [htext]
    have hcaret : Stops isUnitChar ('^' :: (after.text ++ (x.text ++ rest))) :=
      stops_cons.mpr (by decide)
    have hbase : Reads ts (m :: below) _ _ _ _ := ih hm (before.stops (by decide) hcaret)
    have hbefore : Reads ts (m :: below) _ _ _ ('^' :: (after.text ++ (x.text ++ rest))) :=
      before.reads hm (stops_cons.mpr (by decide))
    have hsign : Reads ts (m :: below) _ _ _ (after.text ++ (x.text ++ rest)) := reads_power hm
    have hafter : Reads ts (.unitExponent :: m :: below) _ _ _ _ :=
      after.reads_before_exponent (x.stops_isBlank rest)
    have hexponent : Reads ts (.unitExponent :: m :: below) _ _ _ rest :=
      reads_exponent x.isInteger (hrest.mono fun c hc => by simp [isUnitChar, hc])
    exact hbase.append (hbefore.append (hsign.append (hafter.append hexponent)))
  | product f before sign after e ihf ihe =>
    have htext : (UnitExpr.product f before sign after e).text ++ rest =
        f.text ++ (before.text ++ sign.char :: (after.text ++ (e.text ++ rest))) := by
      simp [UnitExpr.text]
    rw [htext]
    have hfactor : Reads ts (m :: below) _ _ _ _ :=
      ihf hm (before.stops (by decide) (sign.stops_isUnitChar (after.text ++ (e.text ++ rest))))
    have hbefore : Reads ts (m :: below) _ _ _ _ :=
      before.reads hm (sign.stops_isSpace (after.text ++ (e.text ++ rest)))
    have hsign : Reads ts (m :: below) _ _ _ (after.text ++ (e.text ++ rest)) :=
      reads_product hm sign.char_eq
    have hafter : Reads ts (m :: below) _ _ _ _ := after.reads hm (e.stops_isSpace rest)
    have hmore : Reads ts (m :: below) _ _ _ rest := ihe hm hrest
    exact hfactor.append (hbefore.append (hsign.append (hafter.append hmore)))

/-- After a number and blanks an expression is read as it is where one is open:
its first unit or parenthesis opens it. -/
theorem reads_unitExpr_after_gap {level : UnitExpr.Level} (e : UnitExpr ts level) :
    Reads ts [.expectUnitAfterSpace] e.text e.lexemes [.unitExpression] [] := by
  have hrun : Reads ts [.unitExpression] (e.text ++ []) e.lexemes [.unitExpression] [] :=
    reads_unitExpr e (.inl rfl) (stops_nil _)
  have hlook := leadingUnit_text_ne_nil e (stops_nil isUnitChar)
  have hblank := (e.stops_isSpace []).blank
  rw [List.append_nil] at hrun hlook hblank
  exact hrun.after_gap hlook hblank

end

/-! ## §3 Quantities -/

namespace Quantity

variable {ts : Tables}

/-- The quantity as a source. -/
def source (q : Quantity ts) : String :=
  String.ofList q.text

theorem reads (q : Quantity ts) :
    Reads ts [] q.source.toList q.lexemes [.unitExpression] [] := by
  have hnumber : Reads ts [] q.text [⟨.number, q.number⟩] [.expectUnit]
      (q.gap.text ++ q.unit.text) := by
    refine reads_number q.isNumber ?_
    obtain ⟨c, tail, hg⟩ := List.exists_cons_of_ne_nil q.gap_ne_nil
    have hc := q.gap.blank c (by simp [hg])
    rw [hg, List.cons_append, stops_cons]
    rcases isBlank_iff.mp hc with rfl | rfl <;> decide
  have hgap : Reads ts [.expectUnit] (q.gap.text ++ q.unit.text) [⟨.space, q.gap.text⟩]
      [.expectUnitAfterSpace] q.unit.text := by
    have hunit := q.unit.stops_isSpace []
    rw [List.append_nil] at hunit
    exact reads_gap q.gap.blank q.gap_ne_nil hunit.blank
  rw [source, String.toList_ofList]
  exact hnumber.append (hgap.append (reads_unitExpr_after_gap q.unit))

end Quantity

/-- The kinds of the tokens that are no parentheses. -/
def kindsApartFromParentheses (tokens : List Token) : List Kind :=
  (tokens.map Token.kind).filter (· ≠ parenthesis)

theorem kindsApartFromParentheses_place (start : Nat) (ls : List Lexeme) :
    kindsApartFromParentheses (place start ls) = (apartFromParentheses ls).map Lexeme.kind := by
  have hkinds : (place start ls).map Token.kind = ls.map Lexeme.kind := by
    induction ls generalizing start with
    | nil => rfl
    | cons l ls ih => simp [place, ih]
  rw [kindsApartFromParentheses, hkinds, apartFromParentheses, List.filter_map]
  rfl

/-- A quantity is read as its terminals, one token each, and leaves its unit
expression open. Where there are no blanks in the unit and no power stands on a
group, parentheses change the kinds of no other token. -/
theorem tokenize_quantity {ts : Tables} (q : Quantity ts) :
    tokenize ts q.source = place 0 q.lexemes ∧
    finalModes ts q.source = [.root, .unitExpression] ∧
    (q.unit.tight = true → q.unit.powersOnUnits = true →
      kindsApartFromParentheses (tokenize ts q.source) =
        kindsApartFromParentheses
          (tokenize ts (String.ofList (withoutParentheses q.source.toList)))) := by
  have htokens := tokenize_eq_of_reads q.reads
  refine ⟨htokens, finalModes_eq_of_reads q.reads, fun ht hp => ?_⟩
  have hflat : String.ofList (withoutParentheses q.source.toList) = q.flat.source := by
    rw [Quantity.source, String.toList_ofList, ← q.text_flat ht hp, Quantity.source]
  rw [hflat, htokens, tokenize_eq_of_reads q.flat.reads, kindsApartFromParentheses_place,
    kindsApartFromParentheses_place, q.lexemes_flat ht hp, apartFromParentheses_idem]

/-! ## §4 A grouped unit

`1 (kg*m)/s^2`, whose tokens are those of `1 kg*m/s^2` and two parentheses. -/

namespace Quantity

/-- No blanks at all. -/
def noBlanks : Blanks :=
  ⟨[], by simp⟩

/-- A unit of the standard tables as an expression. -/
def factor (w : List Char) (h : IsUnit .standard w) : UnitExpr .standard .factor :=
  .plain (.word ⟨w, h⟩)

/-- `1 (kg*m)/s^2` -/
def newton : Quantity .standard where
  number := ['1']
  isNumber := .plain (.whole (isDigits_singleton rfl))
  gap := ⟨[' '], by simp [isBlank]⟩
  gap_ne_nil := by decide
  unit :=
    let kg := factor ['k', 'g'] ⟨by decide, by decide, by decide⟩
    let m := factor ['m'] ⟨by decide, by decide, by decide⟩
    let s : UnitWord .standard := ⟨['s'], by decide, by decide, by decide⟩
    let group := .group noBlanks (.product kg noBlanks .multiply noBlanks (.single m)) noBlanks
    let squared := .power (.word s) noBlanks noBlanks ⟨['2'], .unsigned (isDigits_singleton rfl)⟩
    .product (.plain group) noBlanks .divide noBlanks (.single squared)

end Quantity

theorem tokenize_newton :
    Quantity.newton.unit.tight = true ∧ Quantity.newton.unit.powersOnUnits = true ∧
    kindsApartFromParentheses (tokenize .standard "1 (kg*m)/s^2") =
      kindsApartFromParentheses (tokenize .standard "1 kg*m/s^2") :=
  ⟨rfl, rfl, (tokenize_quantity Quantity.newton).2.2 rfl rfl⟩

end UnitLexer
