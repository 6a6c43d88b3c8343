import Imperativo.Grammar.Parser
import Imperativo.Proofs.Grammar.Recovery

/-!
# What parsing a program comes to

The tree and the log of `Parser.parse`, said in terms of the run: the tree is the outcome of the
run, and the log has one entry for each of its stops (`parse_tree`, `parse_entries`).  An entry
stands at the token in front of which the run stopped, or at the last token when there was none left
(`Stop.diagnostic_cons`, `Stop.diagnostic_nil`).
-/

namespace Imperativo

/-- A token of a kind without a value, at the start of the program. -/
def Kind.token (k : Kind) : Token := ⟨k, none, Position.start⟩

/-! ## Trees without their places -/

mutual

/-- The tree with every place forgotten: kinds, labels and children. -/
def Tree.bare : Tree → Tree
  | .node heading children =>
      .node { heading with position := Position.start } (Tree.bareEach children)

/-- The trees of a list with every place forgotten. -/
def Tree.bareEach : List Tree → List Tree
  | [] => []
  | tree :: trees => tree.bare :: Tree.bareEach trees

end

/-! ## Entries of the log -/

/-- The diagnostic stands at `p`. -/
def Diagnostic.At (d : Diagnostic) (p : Position) : Prop :=
  d.line = p.line ∧ d.column = some p.column

lemma Diagnostic.At.unique {d : Diagnostic} {p q : Position} (hp : d.At p) (hq : d.At q) :
    p = q := by
  have hline : p.line = q.line := hp.1.symm.trans hq.1
  have hcolumn : p.column = q.column := Option.some.inj (hp.2.symm.trans hq.2)
  cases p
  cases q
  cases hline
  cases hcolumn
  rfl

namespace Grammar

/-- The entry of the log for a stop, `last` being the place for the end of the input. -/
def Stop.diagnostic (last : Position) (s : Stop) : Diagnostic := (s.error last).diagnostic

lemma Stop.diagnostic_cons {s : Stop} {t : Token} {more : List Token} (h : s.rest = t :: more)
    (last : Position) :
    (s.diagnostic last).cause = .grammar s.fault ∧ (s.diagnostic last).At t.position := by
  rw [diagnostic, error, h]
  exact ⟨rfl, rfl, rfl⟩

lemma Stop.diagnostic_nil {s : Stop} (h : s.rest = []) (last : Position) :
    (s.diagnostic last).cause = .grammar .unexpectedEnd ∧ (s.diagnostic last).At last := by
  rw [diagnostic, error, h]
  exact ⟨rfl, rfl, rfl⟩

/-! ## Every stop but the last has tokens left -/

lemma honest_behindOpenBrace (ts : List Token) : Honest (Run.ofReading (behindOpenBrace ts)) := by
  fun_induction behindOpenBrace ts with
  | case1 => exact honest_stopped (Stop.fault_before _ _)
  | case2 => exact honest_done _
  | case3 t rest _ ih => exact ih

lemma honest_behindCloseBrace (depth : Nat) (ts : List Token) :
    Honest (Run.ofReading (behindCloseBrace depth ts)) := by
  fun_induction behindCloseBrace depth ts with
  | case1 => exact honest_stopped (Stop.fault_before _ _)
  | case3 => exact honest_done _
  | _ => assumption

lemma honest_opening (ts : List Token) : Honest (opening ts) := by
  unfold opening
  split
  · exact honest_done _
  · rename_i s h
    exact (honest_passOver ((lawful_heading.law ts).classed h)).bind fun _ =>
      (honest_behindOpenBrace _).bind fun _ => honest_done _

lemma honest_terminateSemicolon (ts : List Token) : Honest (terminateSemicolon ts) := by
  unfold terminateSemicolon
  split
  · exact honest_done _
  · rename_i s h
    exact (honest_passOver (((lawful_expect _ _).law ts).classed h)).bind fun _ => honest_done _

lemma honest_terminate (ts : List Token) : Honest (terminate ts) := by
  unfold terminate
  split
  · exact (honest_terminateSemicolon _).bind fun _ => honest_done _
  · rename_i s h
    exact (honest_passOver (((lawful_expect _ _).law ts).classed h)).bind fun _ => honest_done _

lemma honest_closing (ts : List Token) : Honest (closing ts) := by
  unfold closing
  split
  · exact honest_done _
  · rename_i s h
    exact (honest_passOver (((lawful_expect _ _).law ts).classed h)).bind fun _ =>
      honest_behindCloseBrace _ _

lemma honest_trailing (ts : List Token) : Honest (trailing ts) := by
  cases ts with
  | nil => exact honest_done _
  | cons t ts =>
      exact honest_passOver (s := .before .endOfProgram (t :: ts)) (Stop.fault_before _ _)

lemma honest_program (ts : List Token) : Honest (program ts) :=
  (honest_opening ts).bind fun _ => (honest_statements true _).bind fun _ =>
    (honest_terminate _).bind fun _ =>
    (honest_closing _).bind fun _ => (honest_trailing _).bind fun _ => honest_done _

end Grammar

open Grammar

namespace Parser

variable (ts : List Token) (entry : Entry)

/-- The tree of a parse is what the run comes to. -/
lemma parse_tree : ((ofTokens ts).parse entry).tree = (entry.run ts).outcome.toOption := rfl

/-- Parsing pushes one entry to the log for each stop. -/
lemma parse_log (p : Parser) : (p.parse entry).log =
    ((entry.run p.tokens).stops.map (Stop.diagnostic (lastPosition p.tokens))).foldl Log.push
      p.log := by
  change List.foldl Log.push p.log (List.map _ (List.map _ _)) = _
  rw [List.map_map]
  rfl

lemma entries_parse (p : Parser) : (p.parse entry).log.entries =
    p.log.entries ++ (entry.run p.tokens).stops.map (Stop.diagnostic (lastPosition p.tokens)) := by
  rw [parse_log, Log.entries_foldl_push]

/-- The log of a parse has one entry for each stop. -/
lemma parse_entries :
    ((ofTokens ts).parse entry).log.entries =
      (entry.run ts).stops.map (Stop.diagnostic (lastPosition ts)) :=
  (entries_parse entry (ofTokens ts)).trans (List.nil_append _)

end Parser

end Imperativo
