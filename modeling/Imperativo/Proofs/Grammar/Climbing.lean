import Imperativo.Grammar.Parser
import Imperativo.Proofs.Grammar.Production

/-!
# Climbing precedences

The two levels of expressions can be read with one loop instead of a loop for each level.  Behind an
operand the loop takes every operator that binds at least as tightly as a given minimum; what stands
to the right of an operator is read in the same way with a minimum that is one higher, so that it
ends in front of the next operator that binds equally.

* `climb` — reads an expression whose operators bind at least as tightly as a minimum.
* **`climb_term`**, **`climb_expression`** — from the two minima it reads what the two levels read,
  to the same trees and with the same stops.
* **`run_expression`** — so this is how an expression by itself is read.

The loop on the looser operators meets operators of both levels and reads the tighter ones as the
chain on their level does.  It need not come back to that chain behind a looser operator, since a
term that has been read has no operator of its own level behind it (`chain_leaves`).
-/

namespace Imperativo

/-- How tightly an operator binds. -/
def Arithmetic.precedence : Arithmetic → Nat
  | .add | .sub => 1
  | .mul | .div => 2

lemma Arithmetic.precedence_cases (op : Arithmetic) : op.precedence = 1 ∨ op.precedence = 2 := by
  cases op <;> decide

namespace Grammar

/-! ## The loop -/

/-- Takes operators that bind at least as tightly as `minimum` and reads what stands to the right of
each with `right`. -/
def climbFrom (minimum : Nat) (right : Arithmetic → Production) (l : Tree) :
    List Token → Reading Tree
  | [] => .ok (l, [])
  | t :: rest =>
    match t.kind with
    | .arithmetic op =>
      if op.precedence < minimum then .ok (l, t :: rest)
      else
        match _h : (right op).read rest with
        | .error s => .error s
        | .ok (r, behind) =>
          climbFrom minimum right (.node ⟨.binary op, none, t.position⟩ [l, r]) behind
    | _ => .ok (l, t :: rest)
termination_by ts => ts.length
decreasing_by
  have := (right op).shortens _h
  simp only [List.length_cons]
  omega

lemma length_of_climbFrom (minimum : Nat) (right : Arithmetic → Production) (l : Tree)
    (ts : List Token) {tree : Tree} {rest : List Token}
    (h : climbFrom minimum right l ts = .ok (tree, rest)) : rest.length ≤ ts.length := by
  fun_induction climbFrom minimum right l ts with
  | case1 => cases h; exact Nat.le_refl _
  | case2 => cases h; exact Nat.le_refl _
  | case3 => cases h
  | case4 l t us op _ _ r behind hread ih =>
      have := ih h
      have := (right op).shortens hread
      simp only [List.length_cons]
      omega
  | case5 => cases h; exact Nat.le_refl _

lemma length_of_climbing {minimum : Nat} {right : Arithmetic → Production} {ts : List Token}
    {tree : Tree} {rest : List Token}
    (h : readThen operand.read (climbFrom minimum right) ts = .ok (tree, rest)) :
    rest.length < ts.length := by
  obtain ⟨l, mid, hl, h⟩ := readThen_eq_ok h
  have := operand.shortens hl
  have := length_of_climbFrom minimum right l mid h
  omega

/-- An operand and what the loop takes behind it. -/
def climbing (minimum : Nat) (right : Arithmetic → Production) : Production where
  read := readThen operand.read (climbFrom minimum right)
  shortens := length_of_climbing

/-- An expression whose operators bind at least as tightly as `minimum`. -/
def climb (minimum : Nat) : Production :=
  climbing minimum fun op =>
    if minimum ≤ op.precedence then climb (op.precedence + 1) else operand
termination_by 3 - minimum
decreasing_by
  have := op.precedence_cases
  omega

/-- What `climb` takes behind its first operand. -/
def climbRest (minimum : Nat) : Tree → List Token → Reading Tree :=
  climbFrom minimum fun op =>
    if minimum ≤ op.precedence then climb (op.precedence + 1) else operand

lemma climb_read (minimum : Nat) :
    (climb minimum).read = readThen operand.read (climbRest minimum) := by
  rw [climb]
  rfl

section Loop

variable {minimum : Nat} {l : Tree} {t : Token} {op : Arithmetic}

lemma climbRest_nil : climbRest minimum l [] = .ok (l, []) := by
  rw [climbRest, climbFrom]

lemma climbRest_other (h : t.kind.isArithmetic = false) (rest : List Token) :
    climbRest minimum l (t :: rest) = .ok (l, t :: rest) := by
  rw [climbRest, climbFrom]
  cases hk : t.kind with
  | arithmetic op => rw [hk] at h; cases h
  | _ => rfl

lemma climbRest_looser (hk : t.kind = .arithmetic op) (h : op.precedence < minimum)
    (rest : List Token) : climbRest minimum l (t :: rest) = .ok (l, t :: rest) := by
  rw [climbRest, climbFrom]
  simp only [hk, h, if_true]

lemma climbRest_tighter (hk : t.kind = .arithmetic op) (h : minimum ≤ op.precedence)
    (rest : List Token) : climbRest minimum l (t :: rest) =
      readThen (climb (op.precedence + 1)).read
        (fun r => climbRest minimum (.node ⟨.binary op, none, t.position⟩ [l, r])) rest := by
  rw [climbRest, climbFrom]
  simp only [hk, if_neg (Nat.not_lt.mpr h)]
  split <;> rename_i hread <;> rw [if_pos h] at hread
  · rw [readThen_error hread]
  · rw [readThen_ok hread]

end Loop

/-! ## The levels -/

section Levels

variable {l : Tree} {t : Token} {op : Arithmetic}

lemma joinTerm?_tight (hk : t.kind = .arithmetic op) (h : op.precedence = 2) :
    joinTerm? t = some ⟨.binary op, none, t.position⟩ := by
  cases op <;> simp_all [joinTerm?, Arithmetic.precedence]

lemma joinTerm?_loose (hk : t.kind = .arithmetic op) (h : op.precedence = 1) :
    joinTerm? t = none := by
  cases op <;> simp_all [joinTerm?, Arithmetic.precedence]

lemma joinSum?_loose (hk : t.kind = .arithmetic op) (h : op.precedence = 1) :
    joinSum? t = some ⟨.binary op, none, t.position⟩ := by
  cases op <;> simp_all [joinSum?, Arithmetic.precedence]

lemma join_other (h : t.kind.isArithmetic = false) : joinTerm? t = none ∧ joinSum? t = none := by
  cases hk : t.kind with
  | arithmetic op => rw [hk] at h; cases h
  | _ => simp [joinTerm?, joinSum?, hk]

lemma exists_arithmetic {k : Kind} (h : k.isArithmetic = true) : ∃ op, k = .arithmetic op := by
  cases k with
  | arithmetic op => exact ⟨op, rfl⟩
  | _ => cases h

/-- From a minimum that no operator reaches, only an operand is read. -/
theorem climb_operand {minimum : Nat} (h : 2 < minimum) : (climb minimum).read = operand.read := by
  have hrest : ∀ l us, climbRest minimum l us = .ok (l, us) := by
    intro l us
    cases us with
    | nil => exact climbRest_nil
    | cons t us =>
        cases hk : t.kind with
        | arithmetic op =>
            exact climbRest_looser hk (by have := op.precedence_cases; omega) us
        | _ => exact climbRest_other (by rw [hk]; rfl) us
  funext ts
  rw [climb_read]
  cases hread : operand.read ts with
  | error s => exact readThen_error hread
  | ok x => rw [readThen_ok hread, hrest]

/-- On the tighter level both loops do the same. -/
lemma climbRest_two (ts : List Token) :
    ∀ l, climbRest 2 l ts = chainFrom joinTerm? operand l ts := by
  induction hn : ts.length using Nat.strong_induction_on generalizing ts with
  | _ n ih =>
      intro l
      cases ts with
      | nil => rw [climbRest_nil, chainFrom]
      | cons t rest =>
          cases hop : t.kind.isArithmetic with
          | false => rw [climbRest_other hop, chainFrom_none (join_other hop).1]
          | true =>
              obtain ⟨op, hk⟩ := exists_arithmetic hop
              rcases op.precedence_cases with hloose | htight
              · rw [climbRest_looser hk (by omega), chainFrom_none (joinTerm?_loose hk hloose)]
              · rw [climbRest_tighter hk (by omega), climb_operand (by omega),
                  chainFrom_some (joinTerm?_tight hk htight)]
                refine readThen_congr fun r behind hread => ih _ ?_ behind rfl _
                have := operand.shortens hread
                rw [← hn, List.length_cons]
                omega

/-- **From a minimum of two a term is read.** -/
theorem climb_term : (climb 2).read = term.read := by
  have hrest : climbRest 2 = chainFrom joinTerm? operand :=
    funext fun l => funext fun ts => climbRest_two ts l
  rw [climb_read, hrest, term, chain_read]

/-- The loop on the looser operators ends the term it stands in, and then takes further terms. -/
lemma climbRest_one (ts : List Token) : ∀ l, climbRest 1 l ts =
    readThen (chainFrom joinTerm? operand l) (chainFrom joinSum? term) ts := by
  induction hn : ts.length using Nat.strong_induction_on generalizing ts with
  | _ n ih =>
      intro l
      cases ts with
      | nil => rw [climbRest_nil, readThen_ok (by rw [chainFrom]), chainFrom]
      | cons t rest =>
          cases hop : t.kind.isArithmetic with
          | false =>
              rw [climbRest_other hop, readThen_ok (chainFrom_none (join_other hop).1 rest),
                chainFrom_none (join_other hop).2]
          | true =>
              obtain ⟨op, hk⟩ := exists_arithmetic hop
              rw [climbRest_tighter hk (by have := op.precedence_cases; omega)]
              rcases op.precedence_cases with hloose | htight
              · have hitem : (climb (op.precedence + 1)).read = term.read := by
                  rw [hloose]
                  exact climb_term
                rw [hitem, readThen_ok (chainFrom_none (joinTerm?_loose hk hloose) rest),
                  chainFrom_some (joinSum?_loose hk hloose)]
                refine readThen_congr fun r behind hread => ?_
                have := term.shortens hread
                have hapart : ∀ t ∈ behind.head?, joinTerm? t = none :=
                  (chain_leaves (P := fun _ => True) (fun _ _ _ _ => trivial) hread).2
                rw [ih _ (by rw [← hn, List.length_cons]; omega) behind rfl,
                  readThen_ok (chainFrom_apart hapart _)]
              · have hjoin : readThen (chainFrom joinTerm? operand l) (chainFrom joinSum? term)
                    (t :: rest) = readThen (readThen operand.read fun r => chainFrom joinTerm?
                      operand (.node ⟨.binary op, none, t.position⟩ [l, r]))
                        (chainFrom joinSum? term) rest := by
                  rw [readThen, chainFrom_some (joinTerm?_tight hk htight)]
                  rfl
                rw [hjoin, readThen_assoc, climb_operand (by omega)]
                refine readThen_congr fun r behind hread => ih _ ?_ behind rfl _
                have := operand.shortens hread
                rw [← hn, List.length_cons]
                omega

/-- **From a minimum of one an expression is read.** -/
theorem climb_expression : (climb 1).read = expression.read := by
  have hrest : climbRest 1 = fun l =>
      readThen (chainFrom joinTerm? operand l) (chainFrom joinSum? term) :=
    funext fun l => funext fun ts => climbRest_one ts l
  have hterm : term.read = readThen operand.read (chainFrom joinTerm? operand) := chain_read
  have hexpression : expression.read = readThen term.read (chainFrom joinSum? term) := chain_read
  funext ts
  rw [climb_read, hrest, hexpression, hterm, readThen_assoc]

end Levels

/-- **An expression by itself is read by climbing.** -/
theorem run_expression (ts : List Token) : Entry.run .expression ts = readAll (climb 1) ts := by
  rw [Entry.run, readAll, readAll, climb_expression]

end Grammar

end Imperativo
