import Imperativo.Proofs.Building.Program
import Imperativo.Proofs.Grammar.Braces
import Imperativo.Proofs.Grammar.Keeping

/-!
# The nodes of a parse keep their promises

The label of a program depends on its heading alone, and its last child on whether `terminar` was
reported as missing; all its other nodes are those of statements that were read.

* **`parse_keeps`** — every node of a parse is what its kind promises, however malformed the tokens.
-/

namespace Imperativo

namespace Grammar

variable {α β : Type} {ts : List Token}

/-- The list starts as a program does, up to its opening brace. -/
def Headed (ts : List Token) : Prop :=
  [.word .programa, .identifier, .sign .openParen, .sign .closeParen, .sign .openBrace] <+:
    ts.map Token.kind

lemma headed_iff : Headed ts ↔ ∃ us name rest, ts = us ++ rest ∧ Opening us name := by
  constructor
  · rintro ⟨kinds, hkinds⟩
    obtain ⟨us, rest, rfl, hus, -⟩ := List.map_eq_append_iff.mp hkinds.symm
    obtain ⟨p, _, rfl, hp, hus⟩ := List.map_eq_cons_iff.mp hus
    obtain ⟨n, _, rfl, hn, hus⟩ := List.map_eq_cons_iff.mp hus
    obtain ⟨o, _, rfl, ho, hus⟩ := List.map_eq_cons_iff.mp hus
    obtain ⟨c, _, rfl, hc, hus⟩ := List.map_eq_cons_iff.mp hus
    obtain ⟨b, rfl, hb⟩ := List.map_eq_singleton_iff.mp hus
    exact ⟨_, _, rest, rfl, p, n, o, c, b, rfl, hp, hn, ho, hc, hb, rfl⟩
  · rintro ⟨_, _, rest, rfl, p, n, o, c, b, rfl, hp, hn, ho, hc, hb, rfl⟩
    refine ⟨rest.map Token.kind, ?_⟩
    simp [hp, hn, ho, hc, hb]

/-! ## The parts of a program -/

lemma brings_behindOpenBrace (ts : List Token) :
    Brings (fun _ => True) (Run.ofReading (behindOpenBrace ts)) := by
  fun_induction behindOpenBrace ts with
  | case1 => exact brings_stopped (by decide)
  | case2 => exact brings_done trivial
  | case3 t rest _ ih => exact ih

lemma brings_behindCloseBrace (depth : Nat) (ts : List Token) :
    Brings (fun _ => True) (Run.ofReading (behindCloseBrace depth ts)) := by
  fun_induction behindCloseBrace depth ts with
  | case1 => exact brings_stopped (by decide)
  | case3 => exact brings_done trivial
  | _ => assumption

/-- A program has its name exactly if its heading is in order. -/
lemma brings_opening (ts : List Token) :
    Brings (fun x => x.1.isSome = true ↔ Headed ts) (opening ts) := by
  unfold opening
  cases h : heading ts with
  | ok p =>
      obtain ⟨us, hus, hopening⟩ := (lawful_heading.law ts).sound h
      exact brings_done (by simpa using headed_iff.mpr ⟨us, _, _, hus, hopening⟩)
  | error s =>
      have hnot : ¬ Headed ts := by
        intro hheaded
        obtain ⟨us, name, rest, rfl, hopening⟩ := headed_iff.mp hheaded
        rw [complete_heading rest hopening (apart_anything _)] at h
        cases h
      exact (brings_passOver (ordinary_heading.ne_missingTerminate h)).bind fun _ _ =>
        (brings_behindOpenBrace s.rest).bind fun _ _ => brings_done (by simpa using hnot)

lemma brings_closing (ts : List Token) : Brings (fun _ => True) (closing ts) := by
  unfold closing
  cases h : expect (.sign .closeBrace) .closeAfterTerminate ts with
  | ok p => exact brings_done trivial
  | error s =>
      exact (brings_passOver ((ordinary_expect (by rfl)).ne_missingTerminate h)).bind fun _ _ =>
        brings_behindCloseBrace 0 s.rest

lemma brings_trailing (ts : List Token) : Brings (fun _ => True) (trailing ts) := by
  cases ts with
  | nil => exact brings_done trivial
  | cons t ts => exact brings_passOver (s := .before .endOfProgram (t :: ts)) (by nofun)

/-- What the end of a program comes to: the node of `terminar`, or no node and a stop that says
so. -/
lemma terminate_cases {trees : List Tree} {rest : List Token}
    (h : (terminate ts).outcome = .ok (trees, rest)) :
    (∃ place, trees = [.node ⟨.terminate, none, place⟩ []] ∧
      ∀ s ∈ (terminate ts).passed, s.fault ≠ .missingTerminate) ∨
    trees = [] ∧ ∃ s ∈ (terminate ts).passed, s.fault = .missingTerminate := by
  cases ts with
  | nil => cases h
  | cons t us =>
      by_cases ht : t.kind = .word .terminar
      · cases us with
        | nil => rw [terminate_fatal ht] at h; cases h
        | cons v vs =>
            by_cases hv : v.kind = .sign .semicolon
            · rw [terminate_ok ht hv] at h ⊢
              cases h
              exact .inl ⟨t.position, rfl, by nofun⟩
            · rw [terminate_broken ht hv] at h ⊢
              cases h
              exact .inl ⟨t.position, rfl, by simp [Stop.before, Expectation.fault]⟩
      · rw [terminate_missing ht] at h ⊢
        cases h
        exact .inr ⟨rfl, _, List.mem_singleton_self _, rfl⟩

/-- Runs one after another come to a value if both do. -/
lemma Run.bind_eq_ok {r : Run α} {g : α → Run β} {y : β} (h : (r >>= g).outcome = .ok y) :
    ∃ x, r.outcome = .ok x ∧ (g x).outcome = .ok y ∧
      (r >>= g).passed = r.passed ++ (g x).passed := by
  change (Run.andThen r g).outcome = _ at h
  change ∃ x, _ ∧ _ ∧ (Run.andThen r g).passed = _
  unfold Run.andThen at h ⊢
  cases hr : r.outcome with
  | error s => rw [hr] at h; cases h
  | ok x => simp only [hr] at h ⊢; exact ⟨x, rfl, h, rfl⟩

/-- The end of a program decides which children it has, and its stops are the only ones that can be
about a missing `terminar`. -/
theorem keeping_program {tree : Tree} (h : (program ts).outcome = .ok tree) :
    Keeping (¬ ∃ s ∈ (program ts).passed, s.fault = .missingTerminate) (Headed ts) (· == .program)
      tree := by
  obtain ⟨⟨name, start⟩, hopening, h, hpassed⟩ := Run.bind_eq_ok h
  obtain ⟨⟨trees, us⟩, hbody, h, hpassed₁⟩ := Run.bind_eq_ok h
  obtain ⟨⟨terminator, vs⟩, hend, h, hpassed₂⟩ := Run.bind_eq_ok h
  obtain ⟨ws, -, h, hpassed₃⟩ := Run.bind_eq_ok h
  obtain ⟨_, -, h, hpassed₄⟩ := Run.bind_eq_ok h
  have hstops : (∃ s ∈ (program ts).passed, s.fault = .missingTerminate) ↔
      ∃ s ∈ (terminate us).passed, s.fault = .missingTerminate := by
    rw [show (program ts).passed = _ from hpassed, hpassed₁, hpassed₂, hpassed₃, hpassed₄]
    simp only [List.mem_append]
    constructor
    · rintro ⟨s, hs | hs | hs | hs | hs | hs, hfault⟩
      · exact absurd hfault ((brings_opening ts).passed s hs)
      · exact absurd hfault ((@brings_statements True True true start).passed s hs)
      · exact ⟨s, hs, hfault⟩
      · exact absurd hfault ((brings_closing vs).passed s hs)
      · exact absurd hfault ((brings_trailing ws).passed s hs)
      · cases hs
    · rintro ⟨s, hs, hfault⟩
      exact ⟨s, .inr (.inr (.inl hs)), hfault⟩
  rw [hstops]
  generalize hended : (¬ ∃ s ∈ (terminate us).passed, s.fault = .missingTerminate) = ended
  have hname := (brings_opening ts).value _ hopening
  have hblock := keeping_blockNode
    ((@brings_statements ended (Headed ts) true start).value _ hbody) start
  cases h
  rcases terminate_cases hend with ⟨place, rfl, hnone⟩ | ⟨rfl, hmissing⟩
  · refine ⟨.node (.program hname ?_) ?_, rfl⟩
    · rw [← hended]
      rintro ⟨s, hs, hfault⟩
      exact hnone s hs hfault
    · exact List.forall_mem_cons.mpr ⟨hblock.keeps, List.forall_mem_singleton.mpr
        (.node .terminate nofun)⟩
  · refine ⟨.node (.openEnded hname ?_) (List.forall_mem_singleton.mpr hblock.keeps), rfl⟩
    rw [← hended]
    exact not_not_intro hmissing

end Grammar

open Grammar

/-- A stop that was passed over has its own class of fault in the log. -/
lemma Parser.missingTerminate_iff {ts : List Token} {tree : Tree}
    (h : (program ts).outcome = .ok tree) :
    (∃ d ∈ ((ofTokens ts).parse .program).log.entries, d.cause = .grammar .missingTerminate) ↔
      ∃ s ∈ (program ts).passed, s.fault = .missingTerminate := by
  have hcause : ∀ s ∈ (program ts).passed,
      (s.diagnostic (lastPosition ts)).cause = .grammar s.fault := by
    intro s hs
    obtain ⟨t, more, hrest⟩ := List.exists_cons_of_ne_nil ((honest_program ts).passed s hs).1
    exact (Stop.diagnostic_cons hrest _).1
  rw [parse_entries, Entry.run, Run.stops, h]
  simp only [List.mem_map, exists_exists_and_eq_and]
  refine exists_congr fun s => and_congr_right fun hs => ?_
  rw [hcause s hs, Cause.grammar.injEq]

/-- **Every node of a parse is what its kind promises**, however malformed the tokens are.  The root
is the node of the program; it has the node of `terminar` unless that was reported as missing, and a
label exactly if the heading is in order. -/
theorem parse_keeps (ts : List Token) (ast : Ast)
    (h : ((Parser.ofTokens ts).parse .program).ast? = some ast) :
    ast.kind? ast.root = some .program ∧ ∀ id < ast.size,
      ast.KeepsAt (¬ ∃ d ∈ ((Parser.ofTokens ts).parse .program).log.entries,
        d.cause = .grammar .missingTerminate) (Headed ts) id := by
  rw [parse_ast, Option.map_eq_some_iff] at h
  obtain ⟨tree, htree, rfl⟩ := h
  have houtcome : (program ts).outcome = .ok tree := by
    rw [Parser.parse_tree, Entry.run] at htree
    cases hrun : (program ts).outcome with
    | error s => rw [hrun] at htree; cases htree
    | ok x => rw [hrun] at htree; cases htree; rfl
  obtain ⟨hkeeps, hkind⟩ := keeping_program houtcome
  rw [Parser.missingTerminate_iff houtcome, root_seal, eq_of_beq hkind]
  exact ⟨rfl, fun id hid => keepsAt_seal hkeeps hid⟩

/-- Of `programa () { mientras (x < x) { leer; leer x; } }` the program has no name and no node of
`terminar`, and the loop has one statement. -/
theorem parse_keeps_openEnded :
    let ts : List Token := [.word .programa, .sign .openParen, .sign .closeParen, .sign .openBrace,
      .word .mientras, .sign .openParen, .identifier, .relation .less, .identifier,
      .sign .closeParen, .sign .openBrace, .word .leer, .sign .semicolon, .word .leer, .identifier,
      .sign .semicolon, .sign .closeBrace, .sign .closeBrace].map Kind.token
    let node (kind : NodeKind) (label : Option Text) (children : List Nat) : Node :=
      ⟨⟨kind, label, Position.start⟩, children⟩
    let ast : Ast := ⟨[node .variable (some []) [], node .variable (some []) [],
      node .comparison (some ['<']) [0, 1], node .variable (some []) [], node .read none [3],
      node .block none [4], node .loop none [2, 5], node .block none [6],
      node .program none [7]], 8⟩
    ((Parser.ofTokens ts).parse .program).ast? = some ast ∧ ast.kind? ast.root = some .program ∧
      ∀ id < ast.size, ast.KeepsAt False False id := by
  intro ts node ast
  have h : ((Parser.ofTokens ts).parse .program).ast? = some ast := by decide +kernel
  have hkeeps := parse_keeps ts ast h
  have hmissing : ∃ d ∈ ((Parser.ofTokens ts).parse .program).log.entries,
      d.cause = .grammar .missingTerminate := by decide +kernel
  have hnot : ¬ Headed ts := by
    unfold Headed
    decide
  rw [eq_false (not_not_intro hmissing), eq_false hnot] at hkeeps
  exact ⟨h, hkeeps⟩

end Imperativo
