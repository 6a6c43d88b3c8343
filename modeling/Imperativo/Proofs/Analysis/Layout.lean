import Imperativo.Proofs.Analysis.Order
import Imperativo.Proofs.Building.Program
import Imperativo.Proofs.Grammar.Move
import Imperativo.Proofs.Source.Layout

/-!
# Layout does not matter to an analysis

A program that is laid out anew has the same tokens at other places, and the parser only copies
places.  So its tree is the same with other places in it, and its errors say the same; they are
found from front to back, so the log has them in the same order.

* **`analyze_relaid`** — analyses of programs that differ in their layout differ in places only.
-/

namespace Imperativo

open Grammar

/-- What a diagnostic says, without its place. -/
def Diagnostic.said (d : Diagnostic) : Cause × Text := (d.cause, d.message)

/-- The analyses differ in places only. -/
structure Analysis.Agrees (x y : Analysis) : Prop where
  tokens : x.tokens.map Token.bare = y.tokens.map Token.bare
  ast : x.ast.map Ast.bare = y.ast.map Ast.bare
  log : x.log.entries.map Diagnostic.said = y.log.entries.map Diagnostic.said
  exitCode : x.exitCode = y.exitCode

section Parsing

variable {ts ts' : List Token}

/-- The run of a program, with all places forgotten. -/
def Grammar.Run.bare (r : Run Tree) : Run Tree :=
  r.move (fun _ => Position.start) (Tree.move fun _ => Position.start)

lemma program_bare (h : ts'.map Token.bare = ts.map Token.bare) :
    (program ts').bare = (program ts).bare := by
  rw [Run.bare, Run.bare, ← program_move, ← program_move]
  exact congrArg program h

lemma ast_bare (h : ts'.map Token.bare = ts.map Token.bare) :
    ((Parser.ofTokens ts').parse .program).ast?.map Ast.bare =
      ((Parser.ofTokens ts).parse .program).ast?.map Ast.bare := by
  have hbare : ∀ us : List Token, ((Parser.ofTokens us).parse .program).ast?.map Ast.bare =
      (program us).bare.outcome.toOption.map Tree.seal := by
    intro us
    rw [parse_ast, Parser.parse_tree, Run.bare, Run.move, toOption_moveOutcome, Option.map_map,
      Option.map_map]
    exact congrArg (Option.map · _) (funext fun tree => (Tree.seal_move _ tree).symm)
  rw [hbare, hbare, program_bare h]

/-- What is said at a stop can be told without places. -/
lemma entries_said (h : ts'.map Token.bare = ts.map Token.bare) :
    ((Parser.ofTokens ts').parse .program).log.entries.map Diagnostic.said =
      ((Parser.ofTokens ts).parse .program).log.entries.map Diagnostic.said := by
  have hsaid : ∀ us : List Token,
      ((Parser.ofTokens us).parse .program).log.entries.map Diagnostic.said =
        (program us).bare.stops.map fun s => (s.diagnostic Position.start).said := by
    intro us
    rw [Parser.parse_entries, Run.bare, stops_move, List.map_map, List.map_map]
    refine List.map_congr_left fun s _ => ?_
    obtain ⟨hcause, hmessage⟩ := diagnostic_move (g := fun _ => Position.start) s
      (lastPosition us) Position.start
    exact Prod.ext hcause.symm hmessage.symm
  rw [hsaid, hsaid, program_bare h]

end Parsing

lemma Analysis.exitCode_congr {x y : Analysis} (hast : x.ast.map Ast.bare = y.ast.map Ast.bare)
    (hlog : x.log.entries.map Diagnostic.said = y.log.entries.map Diagnostic.said) :
    x.exitCode = y.exitCode := by
  have hnone := congrArg Option.isNone hast
  have hempty := congrArg List.isEmpty hlog
  rw [Option.isNone_map, Option.isNone_map] at hnone
  rw [List.isEmpty_map, List.isEmpty_map] at hempty
  rw [Analysis.exitCode, Analysis.exitCode, Log.isEmpty, Log.isEmpty, hnone, hempty]

/-- Without lexical faults the log of an analysis is the one of its parse. -/
lemma entries_ofSource {case : KeywordCase} {source : Text} (h : (tokenize case source).2 = []) :
    (Analysis.ofSource case source).log.entries =
      ((Parser.ofTokens (tokenize case source).1).parse .program).log.entries := by
  have hup := entries_ascend ((tokens_rising case source).imp le_of_lt)
  have hsort := stableSort_merge (Log.ofList (tokenize case source).2)
    ((Parser.ofTokens (tokenize case source).1).parse .program).log
  have hnone : (Log.ofList (tokenize case source).2).entries = [] := h
  rw [hnone, List.nil_append] at hsort
  exact hsort.eq_of_ascends hup

/-- **Layout does not matter.**  Of a program without lexical faults, whether it parses or not, and
of the program laid out anew, the tokens are equal in kinds and values, the trees, if any, in their
nodes, and the logs in what each of their entries says; the verdict is the same. -/
theorem analyze_relaid (a : Analyzer) (source source' : Text)
    (hclean : (tokenize a.settings.case source).2 = [])
    (h : Relaid (cut a.settings.case source) source') :
    (a.analyze source').1.Agrees (a.analyze source).1 := by
  obtain ⟨hclean', htokens⟩ := tokenize_relaid hclean h
  have hast := ast_bare htokens
  have hlog := entries_said htokens
  rw [← entries_ofSource hclean, ← entries_ofSource hclean'] at hlog
  exact ⟨htokens, hast, hlog, Analysis.exitCode_congr hast hlog⟩

/-- The program has a broken statement and no `terminar`; it is laid out anew with a comment that
looks like one. -/
theorem analyze_relaid_broken :
    let a := Analyzer.new .standard
    let source := "programa p()\x7bleer;x=1;\x7d".toList
    let source' := "programa p\t()\x7b leer ;# terminar;\nx\r\n= 1;\x7d".toList
    (tokenize a.settings.case source).2 = [] ∧ Relaid (cut a.settings.case source) source' ∧
      (a.analyze source).1.log.size = 2 ∧ (a.analyze source').1.Agrees (a.analyze source).1 := by
  intro a source source'
  have hclean : (tokenize a.settings.case source).2 = [] := by decide +kernel
  have hcut : cut a.settings.case source = [⟨"programa".toList, .lexeme (.word .programa) none⟩,
      ⟨[' '], .blank⟩, ⟨['p'], .lexeme .identifier (some (.text ['p']))⟩,
      ⟨['('], .lexeme (.sign .openParen) none⟩, ⟨[')'], .lexeme (.sign .closeParen) none⟩,
      ⟨['\x7b'], .lexeme (.sign .openBrace) none⟩,
      ⟨"leer".toList, .lexeme (.word .leer) none⟩, ⟨[';'], .lexeme (.sign .semicolon) none⟩,
      ⟨['x'], .lexeme .identifier (some (.text ['x']))⟩, ⟨['='], .lexeme .assign none⟩,
      ⟨['1'], .lexeme .integer (some (.integer 1))⟩, ⟨[';'], .lexeme (.sign .semicolon) none⟩,
      ⟨['\x7d'], .lexeme (.sign .closeBrace) none⟩] := by decide +kernel
  have hspace : ∀ c : Char, (c = ' ' ∨ c = '\t' ∨ c = '\r' ∨ c = '\n') → Layout [c] :=
    fun c hc => .blank hc .nil
  have hcomment : Layout ('#' :: " terminar;".toList ++ ['\n']) := .comment (by decide) .nil
  have hreturn : Layout ['\r', '\n'] := .blank (.inr (.inr (.inl rfl))) (hspace '\n' (by decide))
  have hrelaid : ∃ text, Relaid (cut a.settings.case source) text ∧ text = source' := by
    rw [hcut]
    refine ⟨_, .keep <| .keep <| .lay rfl .nil (hspace '\t' (by decide)) <| .keep <| .keep <|
      .keep <| .lay rfl (hspace ' ' (by decide)) (hspace ' ' (by decide)) <|
      .lay rfl .nil hcomment <| .lay rfl .nil hreturn <| .lay rfl .nil (hspace ' ' (by decide)) <|
      .keep <| .keep <| .keep .nil, ?_⟩
    decide +kernel
  obtain ⟨_, hrelaid, rfl⟩ := hrelaid
  have hsize : (a.analyze source).1.log.size = 2 := by
    rw [Log.size]
    change (Analysis.ofSource _ source).log.entries.length = 2
    rw [entries_ofSource hclean]
    decide +kernel
  exact ⟨hclean, hrelaid, hsize, analyze_relaid a source source' hclean hrelaid⟩

end Imperativo
