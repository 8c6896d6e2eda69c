/-
UnitLexer.Proofs.ScopeStyles — a scope is shown as the nearest rule around it says.

A theme names some scopes and leaves the others to them. Which rule a scope
falls under is said here in two ways that know nothing of how it is found. One
compares all rules: the nearest is the one with the longest name that the scope
is, or that a point in it follows (`NearestRule`). The other is a walk outwards:
as long as there is no rule for the scope, what its last point and the text
behind it leave is asked for next (`Walk`).

Neither cares for what stands between the points, so empty parts are parts as
any other. The two agree because one step of the walk gives up one enclosing
scope and no more (`encloses_outwards`), and the walk ends because each step
shortens the scope (`exists_walk`).
-/
import Mathlib.Data.List.Nodup
import UnitLexer.Theme

namespace UnitLexer

/-! ## §1 Enclosing scopes -/

/-- The one scope is the other, or stands before a point of it. -/
def Encloses (outer scope : String) : Prop :=
  outer = scope ∨ ∃ inner, outer ++ "." ++ inner = scope

/-- A rule of the theme for the scope or one around it, and no other such rule
has a longer name. -/
structure NearestRule (theme : Theme) (scope name : String) (style : Style) : Prop where
  isRule : (name, style) ∈ theme.rules
  encloses : Encloses name scope
  longest : ∀ rule ∈ theme.rules, Encloses rule.1 scope → rule.1.length ≤ name.length

section

variable {name outer last scope : String}

theorem Encloses.isPrefix (h : Encloses name scope) : name.toList <+: scope.toList := by
  rcases h with rfl | ⟨inner, rfl⟩
  · exact List.prefix_rfl
  · simp only [String.toList_append, List.append_assoc]
    exact List.prefix_append _ _

theorem Encloses.length_le (h : Encloses name scope) : name.length ≤ scope.length := by
  simpa only [String.length_toList] using h.isPrefix.length_le

/-- A scope without a point is the only one around it. -/
theorem encloses_outermost (h : '.' ∉ scope.toList) : Encloses name scope ↔ name = scope := by
  refine or_iff_left ?_
  rintro ⟨inner, rfl⟩
  simp at h

/-- What stands before a point of a text is what stands before the last one, or
stands before a point of that. -/
theorem eq_or_append_of_point {as bs cs ds : List Char} (h : as ++ '.' :: bs = cs ++ '.' :: ds)
    (hds : '.' ∉ ds) : as = cs ∨ ∃ es, cs = as ++ '.' :: es := by
  rcases List.append_eq_append_iff.mp h with ⟨es, hcs, hrest⟩ | ⟨es, has, hrest⟩
  · cases es with
    | nil => exact .inl (by simpa using hcs.symm)
    | cons e es =>
      obtain ⟨rfl, -⟩ := List.cons.inj hrest
      exact .inr ⟨es, hcs⟩
  · cases es with
    | nil => exact .inl (by simpa using has)
    | cons e es =>
      obtain ⟨-, rfl⟩ := List.cons.inj hrest
      simp at hds

/-- With its last part a scope gives up itself, and no other scope around it. -/
theorem encloses_outwards (h : '.' ∉ last.toList) :
    Encloses name (outer ++ "." ++ last) ↔ name = outer ++ "." ++ last ∨ Encloses name outer := by
  constructor
  · rintro (rfl | ⟨inner, hinner⟩)
    · exact .inl rfl
    · have htexts : name.toList ++ '.' :: inner.toList = outer.toList ++ '.' :: last.toList := by
        simpa using congrArg String.toList hinner
      rcases eq_or_append_of_point htexts h with heq | ⟨es, hes⟩
      · exact .inr (.inl (String.toList_inj.mp heq))
      · refine .inr (.inr ⟨String.ofList es, ?_⟩)
        rw [← String.toList_inj, hes]
        simp
  · rintro (rfl | rfl | ⟨inner, rfl⟩)
    · exact .inl rfl
    · exact .inr ⟨last, rfl⟩
    · exact .inr ⟨inner ++ "." ++ last, by simp only [String.append_assoc]⟩

end

/-! ## §2 The walk outwards -/

/-- Walking outwards from a scope ends with this answer: a scope with a rule
answers, one without a rule or a point has no style, and any other one leaves
the answer to what stands before its last point. -/
inductive Walk (theme : Theme) : String → Option Style → Prop where
  | found {scope : String} {style : Style} (h : theme.rules.lookup scope = some style) :
      Walk theme scope (some style)
  | outermost {scope : String} (h : theme.rules.lookup scope = none)
      (hpoint : '.' ∉ scope.toList) : Walk theme scope none
  | outwards {outer last : String} {answer : Option Style}
      (h : theme.rules.lookup (outer ++ "." ++ last) = none) (hlast : '.' ∉ last.toList)
      (hwalk : Walk theme outer answer) : Walk theme (outer ++ "." ++ last) answer

section

variable {theme : Theme} {scope : String} {style : Style} {answer : Option Style}

theorem exists_last_point (h : '.' ∈ scope.toList) :
    ∃ outer last, scope = outer ++ "." ++ last ∧ '.' ∉ last.toList := by
  obtain ⟨after, before, hsplit, hafter⟩ := List.eq_append_cons_of_mem (List.mem_reverse.mpr h)
  refine ⟨String.ofList before.reverse, String.ofList after.reverse, ?_, by simpa using hafter⟩
  rw [← String.toList_inj, ← List.reverse_inj, hsplit]
  simp

/-- Every walk ends. -/
theorem exists_walk (theme : Theme) (scope : String) : ∃ answer, Walk theme scope answer := by
  -- On the length of the scope, which a step shortens by a point at least.
  induction hn : scope.length using Nat.strongRecOn generalizing scope with
  | ind n ih =>
    cases h : theme.rules.lookup scope with
    | some style => exact ⟨some style, .found h⟩
    | none =>
      by_cases hpoint : '.' ∈ scope.toList
      · obtain ⟨outer, last, rfl, hlast⟩ := exists_last_point hpoint
        have hshorter : outer.length < n := by
          simp only [String.length_append] at hn
          have hone : ".".length = 1 := rfl
          omega
        obtain ⟨answer, hwalk⟩ := ih _ hshorter outer rfl
        exact ⟨answer, .outwards h hlast hwalk⟩
      · exact ⟨none, .outermost h hpoint⟩

/-! ## §3 What the walk finds -/

theorem Theme.nodup_rules (theme : Theme) : (theme.rules.map Prod.fst).Nodup := by
  cases theme <;> decide

theorem Theme.mem_rules_of_lookup (h : theme.rules.lookup scope = some style) :
    (scope, style) ∈ theme.rules := by
  obtain ⟨before, after, hsplit, -⟩ := List.lookup_eq_some_iff.mp h
  rw [hsplit]
  exact List.mem_append_right before List.mem_cons_self

theorem Theme.ne_of_lookup {rule : String × Style} (h : theme.rules.lookup scope = none)
    (hrule : rule ∈ theme.rules) : rule.1 ≠ scope := by
  have hne := List.lookup_eq_none_iff.mp h rule hrule
  exact (bne_iff_ne.mp hne).symm

/-- There is one nearest rule at most. -/
theorem NearestRule.unique {name name' : String} {style' : Style}
    (h : NearestRule theme scope name style) (h' : NearestRule theme scope name' style') :
    style = style' := by
  have hlength : name.toList.length = name'.toList.length := by
    simp only [String.length_toList]
    exact Nat.le_antisymm (h'.longest _ h.isRule h.encloses) (h.longest _ h'.isRule h'.encloses)
  have hstarts := List.prefix_of_prefix_length_le h.encloses.isPrefix h'.encloses.isPrefix
    (Nat.le_of_eq hlength)
  obtain rfl : name = name' := String.toList_inj.mp (hstarts.eq_of_length hlength)
  have hrules := List.inj_on_of_nodup_map theme.nodup_rules h.isRule h'.isRule rfl
  exact (Prod.mk.inj hrules).2

theorem Walk.nearest (h : Walk theme scope answer) :
    ∀ style, answer = some style → ∃ name, NearestRule theme scope name style := by
  induction h with
  | @found scope style h =>
    rintro _ ⟨⟩
    exact ⟨scope, Theme.mem_rules_of_lookup h, .inl rfl, fun _ _ henc => henc.length_le⟩
  | outermost => nofun
  | outwards h hlast _ ih =>
    intro style hstyle
    obtain ⟨name, hnearest⟩ := ih style hstyle
    refine ⟨name, hnearest.isRule, (encloses_outwards hlast).mpr (.inr hnearest.encloses), ?_⟩
    -- Only the scope itself has been given up, and no rule has its name.
    intro rule hrule henc
    rcases (encloses_outwards hlast).mp henc with heq | henc
    · exact absurd heq (Theme.ne_of_lookup h hrule)
    · exact hnearest.longest rule hrule henc

theorem Walk.not_encloses (h : Walk theme scope answer) :
    answer = none → ∀ rule ∈ theme.rules, ¬ Encloses rule.1 scope := by
  induction h with
  | found => nofun
  | outermost h hpoint =>
    intro _ rule hrule henc
    exact Theme.ne_of_lookup h hrule ((encloses_outermost hpoint).mp henc)
  | outwards h hlast _ ih =>
    intro hnone rule hrule henc
    rcases (encloses_outwards hlast).mp henc with heq | henc
    · exact Theme.ne_of_lookup h hrule heq
    · exact ih hnone rule hrule henc

/-! ## §4 The style of a scope -/

theorem enclosingScopes_eq_cons (cs : List Char) : ∃ more, enclosingScopes cs = cs :: more := by
  induction cs with
  | nil => exact ⟨[], rfl⟩
  | cons c cs ih =>
    obtain ⟨more, hmore⟩ := ih
    exact ⟨_, by rw [enclosingScopes, hmore, List.map_cons, List.cons_append]⟩

theorem enclosingScopes_outermost {cs : List Char} (h : '.' ∉ cs) : enclosingScopes cs = [cs] := by
  induction cs with
  | nil => rfl
  | cons c cs ih =>
    rw [List.mem_cons, not_or] at h
    simp [enclosingScopes, ih h.2, Ne.symm h.1]

theorem enclosingScopes_outwards {last : List Char} (h : '.' ∉ last) (outer : List Char) :
    enclosingScopes (outer ++ '.' :: last) = (outer ++ '.' :: last) :: enclosingScopes outer := by
  induction outer with
  | nil => simp [enclosingScopes, enclosingScopes_outermost h]
  | cons c outer ih => simp [enclosingScopes, ih]

theorem Walk.scopeStyle?_eq (h : Walk theme scope answer) : theme.scopeStyle? scope = answer := by
  induction h with
  | @found scope style h =>
    obtain ⟨more, hmore⟩ := enclosingScopes_eq_cons scope.toList
    simp [Theme.scopeStyle?, hmore, h]
  | outermost h hpoint => simp [Theme.scopeStyle?, enclosingScopes_outermost hpoint, h]
  | @outwards outer last answer h hlast _ ih =>
    have htext : (outer ++ "." ++ last).toList = outer.toList ++ '.' :: last.toList := by simp
    rw [← ih, Theme.scopeStyle?, htext, enclosingScopes_outwards hlast, List.findSome?_cons,
      ← htext, String.ofList_toList, h, Theme.scopeStyle?]

/-- The style of a scope is where the walk ends. -/
theorem walk_iff : Walk theme scope answer ↔ theme.scopeStyle? scope = answer := by
  refine ⟨Walk.scopeStyle?_eq, ?_⟩
  rintro rfl
  obtain ⟨answer, hwalk⟩ := exists_walk theme scope
  rwa [hwalk.scopeStyle?_eq]

theorem Theme.scopeStyle?_eq_some_iff :
    theme.scopeStyle? scope = some style ↔ ∃ name, NearestRule theme scope name style := by
  constructor
  · intro h
    exact (walk_iff.mpr h).nearest style rfl
  · rintro ⟨name, hnearest⟩
    cases h : theme.scopeStyle? scope with
    | none =>
      have hnone := (walk_iff.mpr h).not_encloses rfl
      exact absurd hnearest.encloses (hnone _ hnearest.isRule)
    | some style' =>
      obtain ⟨name', hnearest'⟩ := (walk_iff.mpr h).nearest style' rfl
      rw [hnearest.unique hnearest']

theorem Theme.scopeStyle?_eq_none_iff :
    theme.scopeStyle? scope = none ↔ ∀ rule ∈ theme.rules, ¬ Encloses rule.1 scope := by
  constructor
  · intro h
    exact (walk_iff.mpr h).not_encloses rfl
  · intro hnone
    cases h : theme.scopeStyle? scope with
    | none => rfl
    | some style =>
      obtain ⟨name, hnearest⟩ := Theme.scopeStyle?_eq_some_iff.mp h
      exact absurd hnearest.encloses (hnone _ hnearest.isRule)

end

/-- In both themes a scope has the style of the nearest rule around it, and none
just if no rule names it or a scope around it. The walk outwards ends, and with
that answer only. -/
theorem scope_styled_by_nearest_rule (theme : Theme) (scope : String) :
    (∀ style, theme.scopeStyle? scope = some style ↔ ∃ name, NearestRule theme scope name style) ∧
    (theme.scopeStyle? scope = none ↔ ∀ rule ∈ theme.rules, ¬ Encloses rule.1 scope) ∧
    ∀ answer, Walk theme scope answer ↔ theme.scopeStyle? scope = answer :=
  ⟨fun _ => Theme.scopeStyle?_eq_some_iff, Theme.scopeStyle?_eq_none_iff, fun _ => walk_iff⟩

/-- Empty parts of a scope are given up one by one. -/
example : Theme.dark.scopeStyle? "string.escape..x." = Theme.dark.scopeStyle? "string.escape" := by
  decide

end UnitLexer
