import Imperativo.Grammar.Reading

/-!
# Expressions

    expression ::= term (('+' | '-') term)*
    term       ::= operand (('*' | '/') operand)*
    operand    ::= INTEGER | FLOAT | IDENTIFIER

Both levels are chains: an item, then any number of further items, each behind an operator, joined
from the left.  A chain reads as far as operators of its level go.

* `chain` — the production of a level from the production of its items.
* `leafRead` — reads a token that is a leaf by itself.
* `operand`, `term`, `expression` — the three productions.
* `value` — an expression where the grammar of statements wants one, with that place's own wording.
-/

namespace Imperativo.Grammar

/-! ## Chains -/

/-- Reads further items behind `left`; `join?` says which tokens are operators of this level, and
with which heading they join their sides. -/
def chainFrom (join? : Token → Option Heading) (item : Production) (left : Tree) : List Token → Reading Tree
  | [] => .ok (left, [])
  | t :: rest =>
    match join? t with
    | none => .ok (left, t :: rest)
    | some heading =>
      match _h : item.read rest with
      | .error s => .error s
      | .ok (right, behind) => chainFrom join? item (.node heading [left, right]) behind
termination_by ts => ts.length
decreasing_by
  have := item.shortens _h
  simp only [List.length_cons]
  omega

/-- A chain never gives tokens back. -/
theorem length_of_chainFrom (join? : Token → Option Heading) (item : Production) (left : Tree) (ts : List Token) :
    ∀ {t : Tree} {rest : List Token}, chainFrom join? item left ts = .ok (t, rest) → rest.length ≤ ts.length := by
  fun_induction chainFrom join? item left ts with
  | case1 left => intro t rest h; cases h; exact Nat.le_refl _
  | case2 left u us _ => intro t rest h; cases h; exact Nat.le_refl _
  | case3 left u us _ _ s _ => intro t rest h; cases h
  | case4 left u us _ _ right behind hread ih =>
    intro t rest h
    have := ih h
    have := item.shortens hread
    simp only [List.length_cons]
    omega

/-- An item and the further ones joined to it. -/
def chainRead (join? : Token → Option Heading) (item : Production) (ts : List Token) : Reading Tree :=
  match item.read ts with
  | .error s => .error s
  | .ok (left, rest) => chainFrom join? item left rest

/-- The production of a chain. -/
def chain (join? : Token → Option Heading) (item : Production) : Production where
  read := chainRead join? item
  shortens := by
    intro ts t rest h
    unfold chainRead at h
    split at h
    · cases h
    · rename_i left behind hread
      have := item.shortens hread
      have := length_of_chainFrom join? item left behind h
      omega

/-! ## Leaves -/

/-- Reads one token that is a leaf of the tree; `e` is what is expected of any other. -/
def leafRead (leaf? : Token → Option Tree) (e : Expectation) : List Token → Reading Tree
  | [] => .error (.before e [])
  | t :: rest =>
    match leaf? t with
    | some leaf => .ok (leaf, rest)
    | none => .error (.before e (t :: rest))

/-- Reading a leaf uses up its token. -/
theorem length_of_leafRead {leaf? : Token → Option Tree} {e : Expectation} {ts : List Token} {t : Tree}
    {rest : List Token} (h : leafRead leaf? e ts = .ok (t, rest)) : rest.length < ts.length := by
  unfold leafRead at h
  split at h
  · cases h
  · split at h
    · cases h; simp
    · cases h

/-! ## The productions -/

/-- The leaf that an operand is: a number or a variable. -/
def operandLeaf? (t : Token) : Option Tree :=
  match t.kind with
  | .integer | .float => some (.leaf .number t.valueText t.position)
  | .identifier => some (.leaf .variable t.valueText t.position)
  | _ => none

/-- The production of an operand. -/
def operand : Production where
  read := leafRead operandLeaf? .operand
  shortens := length_of_leafRead

/-- Multiplication and division join operands. -/
def joinTerm? (t : Token) : Option Heading :=
  match t.kind with
  | .arithmetic .mul => some ⟨.binary .mul, none, t.position⟩
  | .arithmetic .div => some ⟨.binary .div, none, t.position⟩
  | _ => none

/-- Addition and subtraction join terms. -/
def joinSum? (t : Token) : Option Heading :=
  match t.kind with
  | .arithmetic .add => some ⟨.binary .add, none, t.position⟩
  | .arithmetic .sub => some ⟨.binary .sub, none, t.position⟩
  | _ => none

/-- The production of a term. -/
def term : Production := chain joinTerm? operand

/-- The production of an expression. -/
def expression : Production := chain joinSum? term

/-! ## Expressions inside statements -/

/-- Reads an expression where `missing` names what is expected.  An operator at its front is taken
as one whose left side is missing. -/
def valueRead (missing : Expectation) : List Token → Reading Tree
  | [] => .error (.before missing [])
  | t :: rest =>
    match t.kind with
    | .integer | .float | .identifier => expression.read (t :: rest)
    | .arithmetic op => .error (.before (.leftOperand op) (t :: rest))
    | _ => .error (.before missing (t :: rest))

/-- The production of an expression inside a statement. -/
def value (missing : Expectation) : Production where
  read := valueRead missing
  shortens := by
    intro ts t rest h
    unfold valueRead at h
    split at h
    · cases h
    · split at h
      · exact expression.shortens h
      · exact expression.shortens h
      · exact expression.shortens h
      · cases h
      · cases h

end Imperativo.Grammar
