import Imperativo.Proofs.Building.Program
import Imperativo.Proofs.Grammar.Move

/-!
# A parse only copies places

Whatever tokens are read as, and wherever they are moved to, the parse is the same with everything
moved as they are.  No map of places is left out, so places may be repeated or go down.

From this alone it follows that a parse has no places of its own: a map that keeps the places of the
tokens and no other leaves the tokens where they are, hence the parse, and what it does not move is
at one of their places.

* **`parse_move`** — the parse of tokens that are moved is the parse of the tokens, moved.
* **`parse_places`** — so nodes and errors are at places of tokens.
* **`parse_copies_places`** — both.

Only an empty input has a place that is not copied, that of the error at its end.
-/

namespace Imperativo

open Grammar

/-! ## Moving what a parse comes to -/

section Moving

variable (g : Position → Position)

/-- The diagnostic, moved by `g`.  Without a column it is at no place. -/
def Diagnostic.move (d : Diagnostic) : Diagnostic :=
  match d.column with
  | some column =>
    let p := g ⟨d.line, column⟩
    { d with line := p.line, column := some p.column }
  | none => d

/-- The log with every entry moved by `g`. -/
def Log.move (log : Log) : Log := { log with entries := log.entries.map (Diagnostic.move g) }

/-- What a parse comes to, with everything in it moved by `g`. -/
def Outcome.move (o : Outcome) : Outcome :=
  ⟨o.tree.map (Tree.move g), o.ast?.map (Ast.move g), o.log.move g⟩

lemma Diagnostic.At.move {d : Diagnostic} {p : Position} (h : d.At p) : (d.move g).At (g p) := by
  obtain ⟨hline, hcolumn⟩ := h
  rw [Diagnostic.move, hcolumn, hline]
  exact ⟨rfl, rfl⟩

lemma Log.push_move (log : Log) (d : Diagnostic) :
    (log.push d).move g = (log.move g).push (d.move g) := by
  simp [Log.push, Log.move]

lemma Log.foldl_push_move (ds : List Diagnostic) (log : Log) :
    (ds.foldl Log.push log).move g = (ds.map (Diagnostic.move g)).foldl Log.push (log.move g) := by
  induction ds generalizing log with
  | nil => rfl
  | cons d ds ih => rw [List.foldl_cons, ih, push_move, List.map_cons, List.foldl_cons]

end Moving

/-! ## Parses of tokens that are moved -/

section Parses

variable {g : Position → Position} {ts : List Token}

/-- The error of a stop that is moved is the error, moved, if the end of the input is. -/
lemma Grammar.Stop.diagnostic_moved (s : Stop) (last : Position) :
    (s.move g).diagnostic (g last) = (s.diagnostic last).move g := by
  obtain ⟨e, fault, rest⟩ := s
  cases rest with
  | nil => rfl
  | cons t rest => cases e <;> rfl

lemma Grammar.lastPosition_move (h : ts ≠ []) :
    lastPosition (ts.map (Token.move g)) = g (lastPosition ts) := by
  rw [lastPosition, lastPosition, List.getLast?_map, List.getLast?_eq_some_getLast h]
  rfl

lemma readAll_move {p : Production} (hp : Moves g (Tree.move g) p.read p.read) (ts : List Token) :
    readAll p (ts.map (Token.move g)) = (readAll p ts).move g (Tree.move g) := by
  unfold readAll
  rw [hp ts]
  cases p.read ts with
  | error s => rfl
  | ok x =>
      obtain ⟨tree, rest⟩ := x
      cases rest <;> rfl

lemma Entry.run_move (entry : Entry) (ts : List Token) :
    entry.run (ts.map (Token.move g)) = (entry.run ts).move g (Tree.move g) := by
  cases entry with
  | program => exact program_move ts
  | expression => exact readAll_move moves_expression ts
  | condition => exact readAll_move moves_condition ts

/-- **The parse of tokens that are moved is the parse of the tokens, moved.** -/
theorem parse_move (g : Position → Position) (h : ts ≠ []) (entry : Entry) :
    (Parser.ofTokens (ts.map (Token.move g))).parse entry =
      ((Parser.ofTokens ts).parse entry).move g := by
  have htree : ((Parser.ofTokens (ts.map (Token.move g))).parse entry).tree =
      ((Parser.ofTokens ts).parse entry).tree.map (Tree.move g) := by
    rw [Parser.parse_tree, Parser.parse_tree, Entry.run_move]
    exact toOption_moveOutcome _ _
  have hast : ((Parser.ofTokens (ts.map (Token.move g))).parse entry).ast? =
      ((Parser.ofTokens ts).parse entry).ast?.map (Ast.move g) := by
    rw [parse_ast, parse_ast, htree, Option.map_map, Option.map_map]
    exact congrArg (Option.map · _) (funext fun tree => Tree.seal_move g tree)
  have hlog : ((Parser.ofTokens (ts.map (Token.move g))).parse entry).log =
      ((Parser.ofTokens ts).parse entry).log.move g := by
    rw [Parser.parse_log, Parser.parse_log, Log.foldl_push_move, Parser.ofTokens, Parser.ofTokens,
      Entry.run_move, stops_move, lastPosition_move h, List.map_map, List.map_map]
    exact congrArg (List.foldl Log.push Log.empty)
      (List.map_congr_left fun s _ => s.diagnostic_moved (lastPosition ts))
  rw [Outcome.move, ← htree, ← hast, ← hlog]

/-! ## Places of a parse -/

/-- The map that keeps the places of the tokens and no other. -/
def keepPlaces (ts : List Token) (p : Position) : Position :=
  if p ∈ ts.map Token.position then p else { p with line := p.line + 1 }

lemma mem_of_keepPlaces {p : Position} (h : keepPlaces ts p = p) :
    ∃ t ∈ ts, p = t.position := by
  rw [keepPlaces] at h
  split at h
  · rename_i hmem
    obtain ⟨t, ht, rfl⟩ := List.mem_map.mp hmem
    exact ⟨t, ht, rfl⟩
  · exact absurd (congrArg Position.line h) (Nat.succ_ne_self p.line)

lemma map_keepPlaces (ts : List Token) : ts.map (Token.move (keepPlaces ts)) = ts := by
  refine (List.map_congr_left fun t ht => ?_).trans (List.map_id ts)
  rw [Token.move, keepPlaces, if_pos (List.mem_map_of_mem ht)]
  rfl

/-- **Nodes and errors are at places of tokens**, because a map that keeps these keeps the parse. -/
theorem parse_places (h : ts ≠ []) (entry : Entry) :
    (∀ ast, ((Parser.ofTokens ts).parse entry).ast? = some ast →
      ∀ node ∈ ast.nodes, ∃ t ∈ ts, node.heading.position = t.position) ∧
    ∀ d ∈ ((Parser.ofTokens ts).parse entry).log.entries, ∃ t ∈ ts, d.At t.position := by
  have hkept := parse_move (keepPlaces ts) h entry
  rw [map_keepPlaces] at hkept
  refine ⟨fun ast hast node hnode => mem_of_keepPlaces ?_, fun d hd => ?_⟩
  · have hmoved := congrArg Outcome.ast? hkept
    rw [Outcome.move, hast, Option.map_some, Option.some.injEq] at hmoved
    have hnodes : ast.nodes.map (Node.move (keepPlaces ts)) = ast.nodes.map id := by
      rw [List.map_id]
      exact (congrArg Ast.nodes hmoved).symm
    exact congrArg (fun n => n.heading.position) (List.map_inj_left.mp hnodes node hnode)
  · have hentries : ((Parser.ofTokens ts).parse entry).log.entries.map
        (Diagnostic.move (keepPlaces ts)) =
          ((Parser.ofTokens ts).parse entry).log.entries.map id := by
      rw [List.map_id]
      exact (congrArg (fun o => o.log.entries) hkept).symm
    have hfixed := List.map_inj_left.mp hentries d hd
    rw [Parser.parse_entries] at hd
    obtain ⟨s, -, rfl⟩ := List.mem_map.mp hd
    have hplace : (s.diagnostic (lastPosition ts)).At (s.error (lastPosition ts)).position :=
      ⟨rfl, rfl⟩
    have hmoved := hplace.move (keepPlaces ts)
    rw [hfixed] at hmoved
    obtain ⟨t, ht, heq⟩ := mem_of_keepPlaces (hmoved.unique hplace)
    exact ⟨t, ht, heq ▸ hplace⟩

/-- **Places are copied and never acted on.**  Whatever tokens are read as, moving them by any map
moves the parse by it, in its places only, and every place in the parse is that of a token. -/
theorem parse_copies_places (g : Position → Position) {ts : List Token} (h : ts ≠ [])
    (entry : Entry) :
    (Parser.ofTokens (ts.map (Token.move g))).parse entry =
      ((Parser.ofTokens ts).parse entry).move g ∧
    (∀ ast, ((Parser.ofTokens ts).parse entry).ast? = some ast →
      ∀ node ∈ ast.nodes, ∃ t ∈ ts, node.heading.position = t.position) ∧
    ∀ d ∈ ((Parser.ofTokens ts).parse entry).log.entries, ∃ t ∈ ts, d.At t.position :=
  ⟨parse_move g h entry, parse_places h entry⟩

/-- The tokens of `programa (){x=1;leer;}` from back to front through the lines, two of them at one
place, are moved to a single line; the name is missing, and so are that of a variable and
`terminar`. -/
theorem parse_copies_places_onto_a_line :
    let ts : List Token := [⟨.word .programa, none, ⟨9, 1⟩⟩, ⟨.sign .openParen, none, ⟨8, 4⟩⟩,
      ⟨.sign .closeParen, none, ⟨8, 4⟩⟩, ⟨.sign .openBrace, none, ⟨7, 2⟩⟩,
      ⟨.identifier, some (.text ['x']), ⟨6, 1⟩⟩, ⟨.assign, none, ⟨5, 1⟩⟩,
      ⟨.integer, some (.integer 1), ⟨4, 1⟩⟩, ⟨.sign .semicolon, none, ⟨4, 2⟩⟩,
      ⟨.word .leer, none, ⟨3, 1⟩⟩, ⟨.sign .semicolon, none, ⟨2, 9⟩⟩,
      ⟨.sign .closeBrace, none, ⟨1, 1⟩⟩]
    let g : Position → Position := fun p => ⟨1, p.line⟩
    ts ≠ [] ∧ ((Parser.ofTokens ts).parse .program).log.size = 3 ∧
      ((Parser.ofTokens ts).parse .program).ast?.isSome ∧
      (Parser.ofTokens (ts.map (Token.move g))).parse .program =
        ((Parser.ofTokens ts).parse .program).move g ∧
      (∀ ast, ((Parser.ofTokens ts).parse .program).ast? = some ast →
        ∀ node ∈ ast.nodes, ∃ t ∈ ts, node.heading.position = t.position) ∧
      ∀ d ∈ ((Parser.ofTokens ts).parse .program).log.entries, ∃ t ∈ ts, d.At t.position := by
  intro ts g
  have hne : ts ≠ [] := List.cons_ne_nil _ _
  exact ⟨hne, by decide +kernel, by decide +kernel, parse_copies_places g hne .program⟩

end Parses

end Imperativo
