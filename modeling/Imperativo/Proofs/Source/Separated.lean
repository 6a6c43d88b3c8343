import Imperativo.Proofs.Number.Rounding
import Imperativo.Proofs.Source.Account
import Imperativo.Proofs.Source.Layout

/-!
# Separated lexemes are recognized

A lexeme is specified here by itself, without the text in which it stands: what can be written
(`IsLexeme`), and of which kind and value it is (`Spells`).  Written one after another with layout
between them (`Separated`), lexemes cannot run together, whatever they are: each ends where the
program could end, and layout is as good as that.

* **`IsLexeme.spells`** — what is a lexeme by itself is one at the end of a program.
* **`tokenize_separated`** — separated lexemes are tokenized one by one, without a diagnostic.
-/

namespace Imperativo

open Piece

/-! ## Lexemes by themselves -/

/-- A letter or underscore, and behind it letters, digits and underscores. -/
def IsWord : Text → Prop
  | [] => False
  | c :: more => Text.isWordStart c = true ∧ ∀ d ∈ more, Text.isWordChar d = true

/-- What can be written for a lexeme. -/
inductive IsLexeme : Text → Prop
  | word {text : Text} (h : IsWord text) : IsLexeme text
  | integer {digits : Text} (h : Digits digits) (hn : Text.ofDigits digits ≤ 2 ^ 63 - 1) :
      IsLexeme digits
  | float (whole fraction : Text) (hwhole : Digits whole) (hfraction : Digits fraction) :
      IsLexeme (whole ++ '.' :: fraction)
  | character {c : Char} (hc : c ≠ '\'' ∧ c ≠ '\n') : IsLexeme ['\'', c, '\'']
  | string (inside : Text) (h : ∀ c ∈ inside, c ≠ '"' ∧ c ≠ '\n') :
      IsLexeme ('"' :: inside ++ ['"'])
  | sign (s : Sign) : IsLexeme s.spelling.toList
  | operator (kind : Kind) {text : Text} (hkind : kind ∈ operators)
      (hspelling : kind.spelling? = some text) : IsLexeme text

/-- The kind and the value of a lexeme.  A word is what the table of reserved words says, and a name
if it is not there; a decimal fraction is the number that is nearest to it. -/
inductive Spells (case : KeywordCase) : Text → Kind → Option Value → Prop
  | reserved {text : Text} {kind : Kind} (h : IsWord text)
      (hkind : Reserved.lookup case text = some kind) : Spells case text kind none
  | name {text : Text} (h : IsWord text) (hfree : Reserved.lookup case text = none) :
      Spells case text .identifier (some (.text text))
  | integer {digits : Text} (h : Digits digits) :
      Spells case digits .integer (some (.integer (Text.ofDigits digits)))
  | float {whole fraction : Text} {x : Binary64} (hwhole : Digits whole)
      (hfraction : Digits fraction) (hsign : x.negative = false)
      (h : Binary64.Nearest (Binary64.decimalValue whole fraction) x.ordinal) :
      Spells case (whole ++ '.' :: fraction) .float (some (.float x))
  | character {c : Char} : Spells case ['\'', c, '\''] .character (some (.character c))
  | string {inside : Text} : Spells case ('"' :: inside ++ ['"']) .string (some (.text inside))
  | sign (s : Sign) : Spells case s.spelling.toList (.sign s) none
  | operator {text : Text} {kind : Kind} (hkind : kind ∈ operators)
      (hspelling : kind.spelling? = some text) : Spells case text kind none

variable {case : KeywordCase} {text : Text} {lexemes : List Text}

/-- A run that makes up all of the text ends where the text does. -/
lemma Whole.atEnd {p : Char → Bool} {run : Text} (h : ∀ c ∈ run, p c = true) : Whole p run [] :=
  ⟨h, fun c hc => by simp at hc⟩

/-- Operators are spelled with operator characters. -/
lemma operator_spelling {kind : Kind} (hkind : kind ∈ operators)
    (hspelling : kind.spelling? = some text) :
    text ≠ [] ∧ ∀ c ∈ text, isOperatorChar c = true := by
  have hall : ∀ k ∈ operators, ∀ s ∈ k.spelling?, s ≠ [] ∧ s.all isOperatorChar = true := by
    decide
  obtain ⟨hne, htext⟩ := hall kind hkind text hspelling
  exact ⟨hne, List.all_eq_true.mp htext⟩

/-- **What is a lexeme by itself is one at the end of a program**, with the kind and the value that
it spells. -/
lemma IsLexeme.spells (h : IsLexeme text) (case : KeywordCase) :
    ∃ kind value, Spells case text kind value ∧ Piece.Lexeme case text [] kind value := by
  cases h with
  | @word text h =>
      cases text with
      | nil => exact absurd h id
      | cons c more =>
          have hwhole : Whole Text.isWordChar more [] := Whole.atEnd h.2
          cases hlookup : Reserved.lookup case (c :: more) with
          | some kind =>
              obtain ⟨hkind, hspelling⟩ := lookup_eq_some_iff.mp hlookup
              exact ⟨_, _, .reserved h hlookup, .reserved h.1 hwhole hkind hspelling⟩
          | none =>
              exact ⟨_, _, .name h hlookup, .name h.1 hwhole (lookup_eq_none_iff.mp hlookup)⟩
  | integer h hn =>
      cases text with
      | nil => exact absurd rfl h.1
      | cons c more =>
          have hdigits := h.2
          simp only [List.mem_cons, forall_eq_or_imp] at hdigits
          refine ⟨_, _, .integer h, .integer hdigits.1 (Whole.atEnd hdigits.2) ?_ hn⟩
          intro d hd
          simp at hd
  | float whole fraction hwhole hfraction =>
      obtain ⟨hsign, hnearest⟩ := (Binary64.ofDecimal_iff whole fraction _).mp rfl
      refine ⟨_, _, .float hwhole hfraction hsign hnearest, .float hwhole hfraction ?_⟩
      intro d hd
      simp at hd
  | character hc => exact ⟨_, _, .character, .character hc⟩
  | string inside h => exact ⟨_, _, .string, .string h⟩
  | sign s => exact ⟨_, _, .sign s, .sign s⟩
  | operator kind hkind hspelling =>
      obtain ⟨hne, hall⟩ := operator_spelling hkind hspelling
      cases text with
      | nil => exact absurd rfl hne
      | cons c more =>
          exact ⟨_, _, .operator hkind hspelling, .operator (Whole.atEnd hall) hkind hspelling⟩

/-! ## Separated lexemes -/

/-- The text has the lexemes one behind another, with layout between any two of them.  There may be
layout in front of the first one and behind the last one as well. -/
inductive Separated : List Text → Text → Prop
  | nil : Separated [] []
  | layout (before : Text) {lexemes : List Text} {text : Text} (hbefore : Layout before)
      (h : Separated lexemes text) : Separated lexemes (before ++ text)
  | last (lexeme : Text) : Separated [lexeme] lexeme
  | cons (lexeme between : Text) {lexemes : List Text} {text : Text} (hne : between ≠ [])
      (hbetween : Layout between) (h : Separated lexemes text) :
      Separated (lexeme :: lexemes) (lexeme ++ (between ++ text))

/-- Layout yields nothing. -/
lemma Layout.accounted {layout behind : Text} (h : Layout layout) {p : Position}
    {tokens : List Token} {diagnostics : List Diagnostic}
    (hbehind : Accounted case (p.advance layout) behind tokens diagnostics) :
    Accounted case p (layout ++ behind) tokens diagnostics := by
  induction h generalizing p with
  | nil => exact hbehind
  | @blank c rest hc _ ih =>
      have hblank : Stands case [c] (rest ++ behind) .blank := .blank (.space (isBlank_iff.mpr hc))
      simpa using Accounted.blank hblank (ih hbehind)
  | @comment body rest hbody _ ih =>
      have hwhole : Whole (· != '\n') body ('\n' :: (rest ++ behind)) := by
        constructor
        · intro c hc
          simp only [bne_iff_ne, ne_eq]
          intro heq
          exact hbody (heq ▸ hc)
        · intro c hc
          simp at hc
          simp [← hc]
      have hrest := ih (p := (p.advance ('#' :: body)).advance ['\n']) (by simpa using hbehind)
      have hnewline := Accounted.blank (.blank (.space rfl)) hrest
      simpa using Accounted.blank (.blank (.comment hwhole)) hnewline

/-- Layout that is not empty ends every lexeme. -/
lemma Layout.startsLike_nil {layout : Text} (h : Layout layout) (hne : layout ≠ [])
    (behind : Text) : StartsLike [] (layout ++ behind) := by
  intro c hc
  right
  cases h with
  | nil => exact absurd rfl hne
  | blank hd _ =>
      simp at hc
      subst hc
      rcases hd with rfl | rfl | rfl | rfl <;> decide
  | comment _ _ =>
      simp at hc
      subst hc
      decide

/-- Separated lexemes account for the program: each for a token, the layout for nothing. -/
lemma Separated.accounted (h : Separated lexemes text) (hlexemes : ∀ l ∈ lexemes, IsLexeme l)
    (p : Position) : ∃ tokens, Accounted case p text tokens [] ∧
      List.Forall₂ (fun l t => Spells case l t.kind t.value) lexemes tokens := by
  induction h generalizing p with
  | nil => exact ⟨[], .done, .nil⟩
  | layout before hbefore _ ih =>
      obtain ⟨tokens, haccount, hspells⟩ := ih hlexemes (p.advance before)
      exact ⟨tokens, hbefore.accounted haccount, hspells⟩
  | last lexeme =>
      obtain ⟨kind, value, hspells, hlexeme⟩ := (hlexemes lexeme (by simp)).spells case
      have haccount := Accounted.lexeme (p := p) (.lexeme hlexeme) .done
      rw [List.append_nil] at haccount
      exact ⟨[⟨kind, value, p⟩], haccount, .cons hspells .nil⟩
  | @cons lexeme between _ rest hne hbetween _ ih =>
      simp only [List.mem_cons, forall_eq_or_imp] at hlexemes
      obtain ⟨kind, value, hspells, hlexeme⟩ := hlexemes.1.spells case
      obtain ⟨tokens, haccount, hrest⟩ := ih hlexemes.2 ((p.advance lexeme).advance between)
      have hends := hlexeme.relay (hbetween.startsLike_nil hne rest)
      exact ⟨⟨kind, value, p⟩ :: tokens, .lexeme (.lexeme hends) (hbetween.accounted haccount),
        .cons hspells hrest⟩

/-- **Separated lexemes are tokenized one by one.**  There is no diagnostic, and there is one token
for each lexeme, in their order, with the kind and the value that it spells. -/
theorem tokenize_separated (case : KeywordCase) (lexemes : List Text) (source : Text)
    (hlexemes : ∀ l ∈ lexemes, IsLexeme l) (h : Separated lexemes source) :
    (tokenize case source).2 = [] ∧
      List.Forall₂ (fun l t => Spells case l t.kind t.value) lexemes (tokenize case source).1 := by
  obtain ⟨tokens, haccount, hspells⟩ := h.accounted hlexemes Position.start
  rw [haccount.tokenize_eq]
  exact ⟨rfl, hspells⟩

/-- Words in capital letters, a number with leading zeros, and quoted texts that have signs, quotes
and the beginning of a comment in them. -/
theorem tokenize_separated_mixed :
    let lexemes : List Text := ["SI".toList, "0042".toList, "2.50".toList, "'#'".toList,
      "\"a; 'b' # c\"".toList, "<=".toList, ";".toList, "x_1".toList]
    let source : Text :=
      "\tSI 0042\r\n2.50#.5\n'#' \"a; 'b' # c\"\n#\n<= ; x_1".toList
    (∀ l ∈ lexemes, IsLexeme l) ∧ Separated lexemes source ∧
      (tokenize .insensitive source).2 = [] ∧
      List.Forall₂ (fun l t => Spells .insensitive l t.kind t.value) lexemes
        (tokenize .insensitive source).1 := by
  intro lexemes source
  have hlexemes : ∀ l ∈ lexemes, IsLexeme l := by
    simp only [lexemes, List.mem_cons, List.not_mem_nil, or_false, forall_eq_or_imp, forall_eq]
    refine ⟨.word ⟨by decide, List.all_eq_true.mp rfl⟩,
      .integer ⟨by decide, List.all_eq_true.mp rfl⟩ (by decide),
      .float ['2'] ['5', '0'] ⟨by decide, List.all_eq_true.mp rfl⟩
        ⟨by decide, List.all_eq_true.mp rfl⟩,
      .character (by decide), .string "a; 'b' # c".toList (by simp),
      .operator (.relation .lessEqual) (by decide) rfl, .sign .semicolon,
      .word ⟨by decide, List.all_eq_true.mp rfl⟩⟩
  have hblank {c : Char} (hc : c = ' ' ∨ c = '\t' ∨ c = '\r' ∨ c = '\n') : Layout [c] :=
    .blank hc .nil
  have hnewline : Layout ['\n'] := hblank (by decide)
  have hremark : Layout "#.5\n".toList :=
    .comment (show '\n' ∉ ['.', '5'] by decide) .nil
  have hempty : Layout "\n#\n".toList :=
    .blank (by decide) (.comment (show '\n' ∉ [] by decide) .nil)
  have hseparated : Separated lexemes source :=
    .layout ['\t'] (hblank (by decide)) <|
      .cons _ [' '] (by decide) (hblank (by decide)) <|
      .cons _ ['\r', '\n'] (by decide) (.blank (by decide) hnewline) <|
      .cons _ "#.5\n".toList (by decide) hremark <|
      .cons _ [' '] (by decide) (hblank (by decide)) <|
      .cons _ "\n#\n".toList (by decide) hempty <|
      .cons _ [' '] (by decide) (hblank (by decide)) <|
      .cons _ [' '] (by decide) (hblank (by decide)) <| .last _
  exact ⟨hlexemes, hseparated, tokenize_separated .insensitive lexemes source hlexemes hseparated⟩

end Imperativo
