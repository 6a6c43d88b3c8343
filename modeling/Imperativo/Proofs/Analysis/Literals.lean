import Imperativo.Proofs.Building.Promise
import Imperativo.Proofs.Grammar.Labels
import Imperativo.Proofs.Number.Written
import Imperativo.Proofs.Source.NumberRuns
import Imperativo.Proofs.Source.Places

/-!
# The labels of numbers

A number in a tree is labelled with the value of its literal in writing, not with the literal as it
stands in the program.  Read as a program by itself the label may be the literal again, with the
same kind and the same value; it is so for integers, and for the numbers with a point that are
written without a power of ten.  The text of any other number has a letter in it, and the text of no
literal has.

* **`Accounted.numerals`** — a text of which all tokens are numbers is made of digits, points and
  blanks, if nothing is reported and there is no comment.
* **`Token.IsLiteral.rereads_iff`** — when the value of a literal in writing is that literal again.
* **`number_labels`** — the literal of a number is where the number is, and the label is its value
  in writing.
-/

namespace Imperativo

open Piece

variable {case : KeywordCase} {source : Text} {t : Token}

/-! ## Literals -/

/-- The token of a literal: an integer that is not too large, or the number that a decimal fraction
denotes. -/
inductive Token.IsLiteral (t : Token) : Prop
  | integer (n : Nat) (hkind : t.kind = .integer) (hn : n ≤ maxInteger)
      (hvalue : t.value = some (.integer n))
  | float (whole fraction : Text) (hkind : t.kind = .float)
      (hvalue : t.value = some (.float (Binary64.ofDecimal whole fraction)))

/-- What is of the kind of a number has the value of one, and is written as one. -/
lemma Piece.Lexeme.isLiteral {text behind : Text}
    (h : Piece.Lexeme case text behind t.kind t.value)
    (hkind : t.kind = .integer ∨ t.kind = .float) :
    t.IsLiteral ∧ ∀ c ∈ text, isNumberChar c = true := by
  have hdigit {c : Char} (hc : c.isDigit = true) : isNumberChar c = true := by
    rw [isNumberChar, hc, Bool.true_or]
  obtain ⟨kind, value, place⟩ := t
  simp only at h hkind
  cases h with
  | reserved _ _ hreserved _ => rcases hkind with rfl | rfl <;> exact absurd hreserved (by decide)
  | operator _ hoperator _ => rcases hkind with rfl | rfl <;> exact absurd hoperator (by decide)
  | @integer c more _ hc hmore _ hn =>
      refine ⟨.integer _ rfl hn rfl, List.forall_mem_cons.mpr ⟨hdigit hc, fun d hd => ?_⟩⟩
      exact hdigit (hmore.all d hd)
  | @float whole fraction _ hwhole hfraction _ =>
      refine ⟨.float whole fraction rfl rfl, List.forall_mem_append.mpr ⟨fun c hc => ?_, ?_⟩⟩
      · exact hdigit (hwhole.2 c hc)
      · exact List.forall_mem_cons.mpr ⟨rfl, fun c hc => hdigit (hfraction.2 c hc)⟩
  | _ => simp at hkind

/-- **A text of which all tokens are numbers** is made of digits, points and blanks, if nothing is
reported and there is no comment. -/
lemma Accounted.numerals {p : Position} {ts : List Token} {ds : List Diagnostic}
    (h : Accounted case p source ts ds) (hclean : ds = [])
    (hts : ∀ t ∈ ts, t.kind = .integer ∨ t.kind = .float) (hcomment : '#' ∉ source) :
    ∀ c ∈ source, isNumberChar c = true ∨ isBlank c = true := by
  induction h with
  | done => exact nofun
  | @blank _ text behind _ _ h _ ih =>
      rw [List.mem_append, not_or] at hcomment
      refine List.forall_mem_append.mpr ⟨?_, ih hclean hts hcomment.2⟩
      cases h with
      | blank h =>
          cases h with
          | space hc => exact List.forall_mem_singleton.mpr (.inr hc)
          | comment => exact absurd List.mem_cons_self hcomment.1
  | lexeme h _ ih =>
      rw [List.mem_append, not_or] at hcomment
      obtain ⟨hkind, hts⟩ := List.forall_mem_cons.mp hts
      refine List.forall_mem_append.mpr ⟨fun c hc => .inl ?_, ih hclean hts hcomment.2⟩
      cases h with
      | lexeme h =>
          exact (Piece.Lexeme.isLiteral (t := ⟨_, _, Position.start⟩) h hkind).2 c hc
  | lost => cases hclean
  | kept => cases hclean

/-- Neither numbers nor blanks have letters. -/
lemma isLetter_of_numeral {c : Char} (h : isNumberChar c = true ∨ isBlank c = true) :
    Text.isLetter c = false := by
  rcases h with h | h
  · rw [isNumberChar, Bool.or_eq_true, beq_iff_eq] at h
    rcases h with h | rfl
    · have hword := isWordStart_of_isDigit h
      rw [Text.isWordStart, Bool.or_eq_false_iff] at hword
      exact hword.1
    · decide
  · rw [isBlank_iff] at h
    rcases h with rfl | rfl | rfl | rfl <;> decide

/-! ## Literals in writing -/

/-- The literals whose value in writing is a literal. -/
def Token.IsPlain (t : Token) : Prop :=
  t.kind = .integer ∨ ∃ x, t.value = some (.float x) ∧ x.IsPositional

/-- **When the value of a literal in writing is that literal again.** -/
lemma Token.IsLiteral.rereads_iff (h : t.IsLiteral) (case : KeywordCase) :
    tokenize case t.valueText = ([⟨t.kind, t.value, Position.start⟩], []) ↔ t.IsPlain := by
  rcases h with ⟨n, hkind, hn, hvalue⟩ | ⟨whole, fraction, hkind, hvalue⟩
  · have hinteger : NumberRun.IsInteger (Text.ofNat n) :=
      ⟨Binary64.digits_ofNat n, (Text.ofDigits_ofNat n).trans_le hn⟩
    have htokenize := NumberRun.tokenize_integer case hinteger
    rw [Text.ofDigits_ofNat] at htokenize
    simp only [valueText, hvalue, hkind]
    exact iff_of_true htokenize (.inl hkind)
  · obtain ⟨hsign, hnearest⟩ := (Binary64.ofDecimal_iff whole fraction _).mp rfl
    have hplain : t.IsPlain ↔ (Binary64.ofDecimal whole fraction).IsPositional := by
      simp [IsPlain, hkind, hvalue]
    simp only [hplain, valueText, hvalue, hkind, Value.written]
    generalize Binary64.ofDecimal whole fraction = x at *
    constructor
    · intro htokenize
      by_contra hletter
      obtain ⟨c, hc, hletter⟩ := Binary64.letter_mem_text hnearest.le hletter
      have haccount := accounted_tokenize case x.text
      rw [htokenize] at haccount
      have hcomment : '#' ∉ x.text := fun h => absurd (Binary64.isNumeral_text x _ h) (by decide)
      have hnumeral := haccount.numerals rfl (by simp) hcomment c hc
      rw [isLetter_of_numeral hnumeral] at hletter
      cases hletter
    · intro hpositional
      obtain ⟨whole, fraction, hwhole, hfraction, htext, hread⟩ :=
        Binary64.ofDecimal_text hsign hpositional
      rw [htext, NumberRun.tokenize_decimal case hwhole hfraction, hread]

/-! ## Trees -/

mutual

lemma Tree.Everywhere.layout {q : Heading → Prop} (base : Nat) :
    ∀ {tree : Tree}, tree.Everywhere q → ∀ node ∈ tree.layout base, q node.heading
  | .node heading children, .node h hchildren => by
      rw [Tree.layout]
      exact List.forall_mem_append.mpr ⟨Tree.Everywhere.layoutAll base hchildren,
        List.forall_mem_singleton.mpr h⟩

lemma Tree.Everywhere.layoutAll {q : Heading → Prop} (base : Nat) :
    ∀ {trees : List Tree}, (∀ tree ∈ trees, tree.Everywhere q) →
      ∀ node ∈ Tree.layoutAll base trees, q node.heading
  | [], _ => by simp [Tree.layoutAll]
  | tree :: trees, h => by
      rw [List.forall_mem_cons] at h
      rw [Tree.layoutAll]
      exact List.forall_mem_append.mpr
        ⟨Tree.Everywhere.layout base h.1, Tree.Everywhere.layoutAll _ h.2⟩

end

/-- The heading of a number has a label. -/
lemma Promised.number_label {ended named : Prop} {kind : NodeKind} {label : Option Text}
    {kinds : List NodeKind} (h : Promised ended named kind label kinds) (hkind : kind = .number) :
    ∃ text, label = some text := by
  cases h with
  | number text => exact ⟨text, rfl⟩
  | _ => cases hkind

lemma Tree.Keeps.everywhere {ended named : Prop} {tree : Tree} (h : tree.Keeps ended named) :
    tree.Everywhere fun heading => heading.kind = .number → ∃ text, heading.label = some text := by
  induction h with
  | node h _ ih => exact .node h.number_label ih

/-- A tree that is read keeps its promises, whichever entry it is read by. -/
lemma parse_keeps_tree {entry : Entry} {ts : List Token} {tree : Tree}
    (h : ((Parser.ofTokens ts).parse entry).tree = some tree) :
    ∃ ended named, tree.Keeps ended named := by
  have hrun := outcome_of_tree h
  cases entry with
  | program => exact ⟨_, _, (Grammar.keeping_program hrun).keeps⟩
  | expression =>
      obtain ⟨us, -, hphrase⟩ := (Grammar.lawful_expression.law ts).sound (readAll_ok hrun)
      exact ⟨True, True, hphrase.keeping.keeps⟩
  | condition =>
      obtain ⟨us, -, hphrase⟩ := (Grammar.lawful_condition.law ts).sound (readAll_ok hrun)
      exact ⟨True, True, hphrase.keeping.keeps⟩

/-- Two tokens of a program are not at one place. -/
lemma eq_of_position {t' : Token} (ht : t ∈ (tokenize case source).1)
    (ht' : t' ∈ (tokenize case source).1) (h : t.position = t'.position) : t = t' := by
  by_contra hne
  have hplaces : (tokenize case source).1.Pairwise fun t u => t.position ≠ u.position :=
    (tokens_rising case source).imp fun hlt heq => hlt.ne (congrArg Position.key heq)
  have hsymm : Std.Symm fun t u : Token => t.position ≠ u.position := ⟨fun _ _ => Ne.symm⟩
  exact hplaces.forall ht ht' hne h

/-- **The labels of numbers.**  A number is where its literal is, and labelled with the value of the
literal in writing.  Read by itself the label is that literal again exactly if it is an integer, or
is written without a power of ten. -/
theorem number_labels {case : KeywordCase} {source : Text} {entry : Entry} {ast : Ast}
    (h : ((Parser.ofTokens (tokenize case source).1).parse entry).ast? = some ast) :
    ∀ node ∈ ast.nodes, node.heading.kind = .number →
      ∃ t ∈ (tokenize case source).1, t.position = node.heading.position ∧
        (∀ t' ∈ (tokenize case source).1, t'.position = t.position → t' = t) ∧
        t.IsLiteral ∧ node.heading.label = some t.valueText ∧
        ∀ case', tokenize case' t.valueText = ([⟨t.kind, t.value, Position.start⟩], []) ↔
          t.IsPlain := by
  rw [parse_ast, Option.map_eq_some_iff] at h
  obtain ⟨tree, htree, rfl⟩ := h
  obtain ⟨ended, named, hkeeps⟩ := parse_keeps_tree htree
  intro node hnode hkind
  obtain ⟨label, hlabel⟩ := hkeeps.everywhere.layout 0 node hnode hkind
  obtain ⟨t, ht, hsays, hplace⟩ := (parse_labelled htree).layout 0 node hnode label hlabel
  rw [hkind] at hsays hplace
  cases hsays with
  | number hnumber =>
      obtain ⟨text, behind, hlexeme⟩ := lexeme_of_token ht
      have hliteral := (hlexeme.isLiteral hnumber).1
      exact ⟨t, ht, (hplace.resolve_left (by simp)).symm, fun t' ht' => eq_of_position ht' ht,
        hliteral, hlabel, hliteral.rereads_iff⟩

/-- The label of `10000000000000000.0` has a power of ten, which is rejected as a name. -/
theorem number_labels_power :
    let source : Text := "10000000000000000.0".toList
    let label : Text := "1e16".toList
    ((Parser.ofTokens (tokenize .insensitive source).1).parse .expression).ast? =
      some ⟨[⟨⟨.number, some label, ⟨1, 1⟩⟩, []⟩], 0⟩ ∧
    tokenize .insensitive label = ([], [.ofLexical (.invalidIdentifier label) ⟨1, 1⟩]) ∧
    ¬ ∃ t, tokenize .insensitive label = ([t], []) := by
  intro source label
  have hlabel : tokenize .insensitive label =
      ([], [.ofLexical (.invalidIdentifier label) ⟨1, 1⟩]) := by decide +kernel
  refine ⟨by decide +kernel, hlabel, ?_⟩
  rintro ⟨t, ht⟩
  rw [hlabel] at ht
  cases ht

/-- An integer and two numbers with a point, of which one is written with a power of ten. -/
theorem number_labels_sum :
    let source : Text := "007 + 0.50 * 0.00001".toList
    ∃ ast, ((Parser.ofTokens (tokenize .insensitive source).1).parse .expression).ast? = some ast ∧
      ast.nodes.map (fun node => node.heading.label) =
        [some "7".toList, some "0.5".toList, some "1e-5".toList, none, none] ∧
      ∀ node ∈ ast.nodes, node.heading.kind = .number →
        ∃ t ∈ (tokenize .insensitive source).1, t.position = node.heading.position ∧
          (∀ t' ∈ (tokenize .insensitive source).1, t'.position = t.position → t' = t) ∧
          t.IsLiteral ∧ node.heading.label = some t.valueText ∧
          ∀ case', tokenize case' t.valueText = ([⟨t.kind, t.value, Position.start⟩], []) ↔
            t.IsPlain := by
  intro source
  let parsed : Option Ast :=
    ((Parser.ofTokens (tokenize .insensitive source).1).parse .expression).ast?
  have hlabels : parsed.map (fun ast => ast.nodes.map fun node => node.heading.label) =
      some [some "7".toList, some "0.5".toList, some "1e-5".toList, none, none] := by
    decide +kernel
  obtain ⟨ast, h, hlabels⟩ := Option.map_eq_some_iff.mp hlabels
  exact ⟨ast, h, hlabels, number_labels h⟩

end Imperativo
