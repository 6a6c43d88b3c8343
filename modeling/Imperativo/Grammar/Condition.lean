import Imperativo.Grammar.Expression

/-!
# Conditions

    condition  ::= conjunction (('||' | 'or') conjunction)*
    conjunction ::= comparison (('&&' | 'and') comparison)*
    comparison ::= expression RELATION expression

A comparison takes exactly one relation.  Whatever goes wrong inside a condition counts as a
malformed condition, the end of the input apart.

* `comparison`, `conjunction`, `disjunction` — the three productions.
* `condition` — a disjunction whose stops are classed as malformed conditions.
-/

namespace Imperativo.Grammar

/-- Stops in front of a relation: a comparison has only one. -/
def refuseRelation (ts : List Token) : Except Stop Unit :=
  match ts with
  | [] => .ok ()
  | t :: _ =>
    match t.kind with
    | .relation op => .error (.before (.singleRelation op) ts)
    | _ => .ok ()

/-- Reads the relation of a comparison. -/
def relationRead : List Token → Reading (Token × Relation)
  | [] => .error (.before .relation [])
  | t :: rest =>
    match t.kind with
    | .relation op => .ok ((t, op), rest)
    | _ => .error (.before .relation (t :: rest))

/-- Reads a comparison. -/
def comparisonRead (ts : List Token) : Reading Tree :=
  match (value .leftExpression).read ts with
  | .error s => .error s
  | .ok (left, behindLeft) =>
    match relationRead behindLeft with
    | .error s => .error s
    | .ok ((t, op), behindRelation) =>
      match (value .rightExpression).read behindRelation with
      | .error s => .error s
      | .ok (right, rest) =>
        match refuseRelation rest with
        | .error s => .error s
        | .ok () => .ok (.node ⟨.comparison, some op.spelling.toList, t.position⟩ [left, right], rest)

/-- Reading a relation uses up a token. -/
theorem length_of_relationRead {ts : List Token} {x : Token × Relation} {rest : List Token}
    (h : relationRead ts = .ok (x, rest)) : rest.length < ts.length := by
  unfold relationRead at h
  split at h
  · cases h
  · split at h
    · cases h; simp
    · cases h

/-- The production of a comparison. -/
def comparison : Production where
  read := comparisonRead
  shortens := by
    intro ts t rest h
    unfold comparisonRead at h
    split at h
    · cases h
    rename_i hleft
    split at h
    · cases h
    rename_i hrelation
    split at h
    · cases h
    rename_i hright
    split at h
    · cases h
    · cases h
      have := (value .leftExpression).shortens hleft
      have := length_of_relationRead hrelation
      have := (value .rightExpression).shortens hright
      omega

/-- The heading with which a connective joins conditions, if it is of the tighter sort or not as
asked. -/
def joinCondition? (tight : Bool) (t : Token) : Option Heading :=
  match t.kind with
  | .connective op =>
    if op.isAnd = tight then some ⟨.combination, some op.spelling.toList, t.position⟩ else none
  | _ => none

/-- The production of comparisons that must all hold. -/
def conjunction : Production := chain (joinCondition? true) comparison

/-- The production of conjunctions one of which must hold. -/
def disjunction : Production := chain (joinCondition? false) conjunction

/-- Reads a condition. -/
def conditionRead (ts : List Token) : Reading Tree :=
  match disjunction.read ts with
  | .error s => .error { s with fault := .malformedCondition }
  | .ok x => .ok x

/-- The production of a condition. -/
def condition : Production where
  read := conditionRead
  shortens := by
    intro ts t rest h
    unfold conditionRead at h
    split at h
    · cases h
    · rename_i hread
      cases h
      exact disjunction.shortens hread

end Imperativo.Grammar
