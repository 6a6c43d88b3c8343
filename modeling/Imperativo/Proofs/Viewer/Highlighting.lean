import Imperativo.Proofs.Source.Casing
import Imperativo.Proofs.Source.Places
import Imperativo.Proofs.Viewer.Spans

/-!
# Colours and tokens

The viewer colours a line without reading it as a program, and takes words in a wider sense than
names and numbers are.  On a line of which nothing is reported the wider sense makes no difference:
what could go on with a word there begins a piece of the line, and a piece begins with a letter, a
digit or an underscore, which the piece in front would have taken as well, or with a character that
has no part in words (`Accounted.begins`).  The exception is a number with a point, which does not
take a letter behind it; there the number and the name are coloured as one word, so that such lines
are left out (`FractionsApart`).

* **`Piece.Lexeme.highlight`** — a word or a literal is coloured as a whole, in the colour of its
  kind.
* **`highlight_tokens`** — the coloured words and literals of a line are its tokens, one by one and
  in their order.
-/

namespace Imperativo

open Piece

variable {case : KeywordCase} {p : Position} {line behind text : Text} {kind : Kind}
  {value : Option Value} {c : Char} {more : Text}

/-! ## Words and literals -/

/-- A character that is coloured by itself: a blank, or part of a sign or an operator. -/
def isPlain (c : Char) : Bool := isBlank c || (sign? c).isSome || isOperatorChar c

/-- The parts of a coloured line that are not blanks, signs, operators or the comment. -/
def Span.isTerm (span : Span) : Bool :=
  match span.text with
  | '#' :: _ => false
  | [c] => !isPlain c
  | _ => true

/-- The kinds of words and literals; the others are those of signs and operators. -/
def Kind.isTerm : Kind → Bool
  | .sign _ | .assign | .arithmetic _ | .relation _ => false
  | .connective op => op = .andWord || op = .orWord
  | _ => true

lemma isTerm_of_reserved (h : kind ∈ Reserved.kinds) : kind.isTerm = true := by
  have hall : ∀ kind ∈ Reserved.kinds, kind.isTerm = true := by decide
  exact hall kind h

lemma isTerm_of_operator (h : kind ∈ operators) : kind.isTerm = false := by
  have hall : ∀ kind ∈ operators, kind.isTerm = false := by decide
  exact hall kind h

/-- How a word or a literal is coloured. -/
def Kind.style : Kind → Style
  | .scalar _ => Style.ink Theme.scalar
  | .connective _ => Style.ink Theme.operator
  | .word _ => (Style.ink Theme.keyword).inBold
  | .integer | .float => Style.ink Theme.number
  | .character | .string => Style.ink Theme.string
  | _ => Style.ink Theme.text

/-- The span shows the token: its text is how the token is written at its place in the line, which
starts at `p`, and it has the colour of the token's kind. -/
def Shows (case : KeywordCase) (p : Position) (line : Text) (span : Span) (t : Token) : Prop :=
  ∃ front behind, line = front ++ span.text ++ behind ∧ t.position = p.advance front ∧
    Piece.Lexeme case span.text behind t.kind t.value ∧ span.style = t.kind.style

/-- Whether a piece is a number with a point. -/
def Piece.isFraction (piece : Piece) : Bool :=
  match piece.content with
  | .lexeme .float _ => true
  | _ => false

/-- No number with a point is followed by a letter or an underscore. -/
def FractionsApart (case : KeywordCase) (line : Text) : Prop :=
  (cut case line).IsChain fun piece next =>
    piece.isFraction = true → next.text.head?.any Text.isWordStart = false

lemma Shows.later {span : Span} {t : Token} (h : Shows case (p.advance text) behind span t) :
    Shows case p (text ++ behind) span t := by
  obtain ⟨front, after, rfl, hplace, hlexeme, hstyle⟩ := h
  exact ⟨text ++ front, after, by simp, by rw [hplace, Position.advance_append], hlexeme, hstyle⟩

/-- What begins a line begins its first piece. -/
lemma head_cut (case : KeywordCase) (line : Text) :
    (cut case line).head?.bind (fun piece => piece.text.head?) = line.head? := by
  induction line using cut_induction case with
  | nil => rfl
  | cons h _ => rw [List.head?_cons, Option.bind_some, List.head?_append_of_ne_nil _ h.ne_nil]

lemma FractionsApart.later {content : Content} (h : FractionsApart case (text ++ behind))
    (hstands : Stands case text behind content) : FractionsApart case behind := by
  rw [FractionsApart, hstands.cut_eq] at h
  exact h.tail

lemma FractionsApart.followed (h : FractionsApart case (text ++ behind))
    (hstands : Stands case text behind (.lexeme .float value)) :
    ∀ c ∈ behind.head?, Text.isWordStart c = false := by
  rw [FractionsApart, hstands.cut_eq, List.isChain_cons] at h
  intro c hc
  rw [← head_cut case behind] at hc
  obtain ⟨next, hnext, hc⟩ := Option.bind_eq_some_iff.mp hc
  have hapart := h.1 next hnext rfl
  rwa [hc, Option.any_some] at hapart

/-! ## Characters -/

/-- All characters that are coloured by themselves. -/
def plainChars : Text := " \t\r\n()\x7b\x7d;,+-*/=<>!&|".toList

lemma mem_plainChars (h : isPlain c = true) : c ∈ plainChars := by
  rw [isPlain, Bool.or_eq_true, Bool.or_eq_true] at h
  rcases h with (h | h) | h
  · rcases isBlank_iff.mp h with rfl | rfl | rfl | rfl <;> decide
  · obtain ⟨s, hs⟩ := Option.isSome_iff_exists.mp h
    have hspelling := sign?_eq_some hs
    cases s <;> (obtain rfl := (List.cons.inj hspelling).1; decide)
  · rcases isOperatorChar_iff.mp h with
      rfl | rfl | rfl | rfl | rfl | rfl | rfl | rfl | rfl | rfl <;> decide

/-- What holds of each of them is found out one by one. -/
lemma of_isPlain {q : Char → Bool} (hall : plainChars.all q = true) (h : isPlain c = true) :
    q c = true :=
  List.all_eq_true.mp hall c (mem_plainChars h)

lemma isPlain_of_isBlank (h : isBlank c = true) : isPlain c = true := by
  rw [isPlain, h, Bool.true_or, Bool.true_or]

lemma isPlain_of_isOperatorChar (h : isOperatorChar c = true) : isPlain c = true := by
  rw [isPlain, h, Bool.or_true]

lemma isWordChar_of_isWordStart (h : Text.isWordStart c = true) : Text.isWordChar c = true := by
  rw [Text.isWordChar, h, Bool.true_or]

lemma isWordChar_of_isDigit (h : c.isDigit = true) : Text.isWordChar c = true := by
  rw [Text.isWordChar, h, Bool.or_true]

/-- The characters of names are taken for parts of words. -/
lemma isAlphanumeric_of_isWordChar (h : Text.isWordChar c = true) :
    (Text.isAlphanumeric c || c == '_') = true := by
  -- digits, capital and small letters are the first three intervals
  obtain ⟨tail, htail⟩ : ∃ tail,
      Text.ranges = (0x30, 0x39) :: (0x41, 0x5a) :: (0x61, 0x7a) :: tail := ⟨_, rfl⟩
  rw [Text.isAlphanumeric, htail]
  change (decide ('A'.val ≤ c.val ∧ c.val ≤ 'Z'.val) ||
    decide ('a'.val ≤ c.val) && decide (c.val ≤ 'z'.val) || c == '_' ||
      decide ('0'.val ≤ c.val) && decide (c.val ≤ '9'.val)) = true at h
  simp only [Char.reduceVal, UInt32.le_iff_toNat_le, UInt32.reduceToNat, Char.toNat_val,
    Bool.or_eq_true, Bool.and_eq_true, decide_eq_true_eq] at h
  simp only [Text.inRanges]
  grind

lemma isInWord_of_isWordChar (h : Text.isWordChar c = true) : isInWord c = true := by
  rw [isInWord, isAlphanumeric_of_isWordChar h, Bool.true_or]

/-! ## First characters -/

/-- A word or a literal begins with a letter, a digit, an underscore or a quote. -/
def OpensTerm (c : Char) : Prop := Text.isWordChar c = true ∨ c = '\'' ∨ c = '"'

/-- A piece begins with a letter, a digit or an underscore, or with what has no part in words. -/
def Begins (c : Char) : Prop := Text.isWordChar c = true ∨ isInWord c = false

lemma OpensTerm.begins (h : OpensTerm c) : Begins c := by
  refine h.imp_right ?_
  rintro (rfl | rfl) <;> decide

lemma OpensTerm.isTerm (h : OpensTerm c) (style : Style) :
    Span.isTerm ⟨c :: more, style⟩ = true := by
  have hplain : isPlain c ≠ true := by
    intro hplain
    have hall : plainChars.all fun c => !Text.isWordChar c && c != '\'' && c != '"' := by decide
    have := of_isPlain hall hplain
    rcases h with h | rfl | rfl <;> simp_all
  unfold Span.isTerm
  split
  · rename_i heq
    cases heq
    rcases h with h | h | h <;> cases h
  · rename_i heq
    cases heq
    simpa using hplain
  · rfl

lemma begins_of_isPlain (h : isPlain c = true) : Begins c := by
  have hall : plainChars.all fun c => !isInWord c := by decide
  exact .inr (by simpa using of_isPlain hall h)

/-- Words and literals begin with a character of their own. -/
lemma Piece.Lexeme.opensTerm (h : Piece.Lexeme case text behind kind value)
    (hkind : kind.isTerm = true) : ∃ c more, text = c :: more ∧ OpensTerm c := by
  cases h with
  | reserved hc => exact ⟨_, _, rfl, .inl (isWordChar_of_isWordStart hc)⟩
  | name hc => exact ⟨_, _, rfl, .inl (isWordChar_of_isWordStart hc)⟩
  | integer hc => exact ⟨_, _, rfl, .inl (isWordChar_of_isDigit hc)⟩
  | float hwhole =>
      obtain ⟨c, more, rfl, hc, -⟩ := hwhole.cons
      exact ⟨_, _, rfl, .inl (isWordChar_of_isDigit hc)⟩
  | character => exact ⟨_, _, rfl, .inr (.inl rfl)⟩
  | string => exact ⟨_, _, rfl, .inr (.inr rfl)⟩
  | sign => cases hkind
  | operator _ hoperator _ =>
      rw [isTerm_of_operator hoperator] at hkind
      cases hkind

/-- Signs and operators are coloured character by character. -/
lemma Piece.Lexeme.isPlain (h : Piece.Lexeme case text behind kind value)
    (hkind : kind.isTerm = false) : ∀ c ∈ text, Imperativo.isPlain c = true := by
  cases h with
  | reserved _ _ hreserved _ =>
      rw [isTerm_of_reserved hreserved] at hkind
      cases hkind
  | sign s => cases s <;> exact List.all_eq_true.mp (by decide)
  | operator h => exact fun c hc => isPlain_of_isOperatorChar (h.all c hc)
  | _ => cases hkind

lemma Piece.Lexeme.begins (h : Piece.Lexeme case text behind kind value) :
    ∀ c ∈ text.head?, Begins c := by
  cases hkind : kind.isTerm with
  | true =>
      obtain ⟨c, more, rfl, hc⟩ := h.opensTerm hkind
      rintro _ ⟨⟩
      exact hc.begins
  | false => exact fun c hc => begins_of_isPlain (h.isPlain hkind c (List.mem_of_mem_head? hc))

/-- **What begins a line of which nothing is reported** begins a piece. -/
lemma Accounted.begins {ts : List Token} (h : Accounted case p line ts []) :
    ∀ c ∈ line.head?, Begins c := by
  cases h with
  | done => exact nofun
  | blank h =>
      cases h with
      | blank h =>
          cases h with
          | space hc =>
              rintro _ ⟨⟩
              exact begins_of_isPlain (isPlain_of_isBlank hc)
          | comment =>
              rintro _ ⟨⟩
              exact .inr (by decide)
  | lexeme h =>
      rw [List.head?_append_of_ne_nil _ h.ne_nil]
      cases h with
      | lexeme h => exact h.begins

/-! ## Colouring piece by piece -/

lemma highlight_word (hc : Text.isWordChar c = true) (h : Whole isInWord more behind) :
    highlight case (c :: more ++ behind) =
      ⟨c :: more, wordStyle case (c :: more)⟩ :: highlight case behind := by
  refine highlight_starting ?_ ?_ ?_ h
  · rintro rfl
    cases hc
  · rintro (rfl | rfl) <;> cases hc
  · rw [startsWord, isAlphanumeric_of_isWordChar hc, Bool.true_or]

lemma highlight_plain (hc : isPlain c = true) (rest : Text) :
    highlight case (c :: rest) = ⟨[c], signStyle c⟩ :: highlight case rest := by
  have hall : plainChars.all fun c => c != '#' && c != '"' && c != '\'' && c != '.' &&
      !(Text.isAlphanumeric c || c == '_') := by decide
  have hchar := of_isPlain hall hc
  simp only [Bool.and_eq_true, Bool.not_eq_true', bne_iff_ne] at hchar
  obtain ⟨⟨⟨⟨hhash, hdouble⟩, hsingle⟩, hpoint⟩, hword⟩ := hchar
  refine highlight_sign hhash (not_or.mpr ⟨hdouble, hsingle⟩) ?_
  rw [startsWord, hword, beq_false_of_ne hpoint, Bool.false_and, Bool.or_false]

/-- Blanks, signs and operators are no words or literals. -/
lemma filter_plain {run : Text} (h : ∀ c ∈ run, isPlain c = true) (behind : Text) :
    (highlight case (run ++ behind)).filter Span.isTerm =
      (highlight case behind).filter Span.isTerm := by
  induction run with
  | nil => rfl
  | cons c run ih =>
      obtain ⟨hc, hrun⟩ := List.forall_mem_cons.mp h
      have hterm : Span.isTerm ⟨[c], signStyle c⟩ = false := by
        unfold Span.isTerm
        split <;> simp_all
      rw [List.cons_append, highlight_plain hc, List.filter_cons_of_neg (by simp [hterm]), ih hrun]

/-! ## Styles of words -/

lemma wordStyle_reserved {word : Text} (hkind : kind ∈ Reserved.kinds)
    (hspelling : kind.spelling? = some (Reserved.fold case word)) :
    wordStyle case word = kind.style := by
  unfold wordStyle
  rw [lookup_eq_some_iff.mpr ⟨hkind, hspelling⟩]
  cases kind with
  | word => rfl
  | scalar => rfl
  | connective => rfl
  | _ => simp [Reserved.kinds] at hkind

lemma wordStyle_free (hfree : Reserved.lookup case (c :: more) = none) :
    wordStyle case (c :: more) =
      if c.isDigit then Style.ink Theme.number else Style.ink Theme.text := by
  unfold wordStyle
  rw [hfree]

/-- No reserved word begins with a digit. -/
lemma lookup_of_isDigit (hc : c.isDigit = true) : Reserved.lookup case (c :: more) = none := by
  have hdigit : ∃ d rest, Reserved.fold case (c :: more) = d :: rest ∧ d.isDigit = true := by
    cases case with
    | sensitive => exact ⟨c, more, rfl, hc⟩
    | insensitive =>
        refine ⟨c.toLower, Text.lower more, rfl, ?_⟩
        rwa [Text.toLower_invariant (f := Char.isDigit) (by decide)]
  obtain ⟨d, rest, hfold, hd⟩ := hdigit
  have hkinds : ∀ kind ∈ Reserved.kinds,
      (kind.spelling?.getD []).head?.map Char.isDigit = some false := by decide
  rw [lookup_eq_none_iff, hfold]
  intro kind hkind hspelling
  have hfirst := hkinds kind hkind
  rw [hspelling] at hfirst
  simp [hd] at hfirst

/-! ## Words and literals are coloured as a whole -/

/-- What takes all letters, digits and underscores takes all that a coloured word would. -/
lemma whole_inWord (hall : ∀ c ∈ more, isInWord c = true)
    (hends : ∀ c ∈ behind.head?, Text.isWordChar c = false)
    (hbehind : ∀ c ∈ behind.head?, Begins c) : Whole isInWord more behind where
  all := hall
  ends c hc := (hbehind c hc).resolve_left (by simp [hends c hc])

/-- **A word or a literal is coloured as a whole**, in the colour of its kind. -/
lemma Piece.Lexeme.highlight (h : Piece.Lexeme case text behind kind value)
    (hkind : kind.isTerm = true) (hbehind : ∀ c ∈ behind.head?, Begins c)
    (hfloat : kind = .float → ∀ c ∈ behind.head?, Text.isWordStart c = false) :
    Imperativo.highlight case (text ++ behind) =
      ⟨text, kind.style⟩ :: Imperativo.highlight case behind := by
  cases h with
  | reserved hc h hkind hspelling =>
      have hwhole := whole_inWord (fun c hc => isInWord_of_isWordChar (h.all c hc)) h.ends hbehind
      rw [highlight_word (isWordChar_of_isWordStart hc) hwhole, wordStyle_reserved hkind hspelling]
  | @name c more _ hc h hfree =>
      have hwhole := whole_inWord (fun c hc => isInWord_of_isWordChar (h.all c hc)) h.ends hbehind
      have hdigit : c.isDigit ≠ true := by
        intro hdigit
        rw [isWordStart_of_isDigit hdigit] at hc
        cases hc
      rw [highlight_word (isWordChar_of_isWordStart hc) hwhole,
        wordStyle_free (lookup_eq_none_iff.mpr hfree), if_neg hdigit]
      rfl
  | @integer c more _ hc h hend _ =>
      have hends : ∀ d ∈ behind.head?, Text.isWordChar d = false := by
        intro d hd
        have hcontinues := hend d hd
        rw [continuesInteger, Bool.or_eq_false_iff] at hcontinues
        rw [Text.isWordChar, hcontinues.2, h.ends d hd, Bool.or_false]
      have hall : ∀ d ∈ more, isInWord d = true :=
        fun d hd => isInWord_of_isWordChar (isWordChar_of_isDigit (h.all d hd))
      rw [highlight_word (isWordChar_of_isDigit hc) (whole_inWord hall hends hbehind),
        wordStyle_free (lookup_of_isDigit hc), if_pos hc]
      rfl
  | @float whole fraction _ hwhole hfraction hend =>
      obtain ⟨c, more, rfl, hc, hmore⟩ := hwhole.cons
      have hends : ∀ d ∈ behind.head?, Text.isWordChar d = false := by
        intro d hd
        have hnumber := hend d hd
        rw [isNumberChar, Bool.or_eq_false_iff] at hnumber
        rw [Text.isWordChar, hfloat rfl d hd, hnumber.1, Bool.or_false]
      have hall : ∀ d ∈ more ++ '.' :: fraction, isInWord d = true := by
        refine List.forall_mem_append.mpr ⟨fun d hd => ?_, List.forall_mem_cons.mpr
          ⟨by decide, fun d hd => ?_⟩⟩
        · exact isInWord_of_isWordChar (isWordChar_of_isDigit (hmore d hd))
        · exact isInWord_of_isWordChar (isWordChar_of_isDigit (hfraction.2 d hd))
      rw [List.cons_append, highlight_word (isWordChar_of_isDigit hc)
        (whole_inWord hall hends hbehind), wordStyle_free (lookup_of_isDigit hc), if_pos hc]
      rfl
  | @character c _ hc =>
      have hinside : '\'' ∉ [c] := by simpa using hc.1.symm
      exact highlight_quoted (.inr rfl) hinside behind
  | string h => exact highlight_quoted (.inl rfl) (fun hmem => (h _ hmem).1 rfl) behind
  | sign => cases hkind
  | operator _ hoperator _ =>
      rw [isTerm_of_operator hoperator] at hkind
      cases hkind

/-! ## Lines -/

/-- The colours of a line follow its account, if nothing is reported. -/
lemma Accounted.highlight {ts : List Token} {ds : List Diagnostic}
    (h : Accounted case p line ts ds) (hclean : ds = []) (hline : '\n' ∉ line)
    (hfloat : FractionsApart case line) :
    List.Forall₂ (Shows case p line) ((Imperativo.highlight case line).filter Span.isTerm)
      (ts.filter fun t => t.kind.isTerm) := by
  induction h with
  | done =>
      rw [Imperativo.highlight]
      exact .nil
  | @blank p text behind ts ds h hrest ih =>
      rw [List.mem_append, not_or] at hline
      have hbehind := (ih hclean hline.2 (hfloat.later h)).imp fun _ _ => Shows.later
      cases h with
      | blank h =>
          cases h with
          | space hc =>
              rw [filter_plain (List.forall_mem_singleton.mpr (isPlain_of_isBlank hc))]
              exact hbehind
          | @comment body _ h =>
              -- a comment ends at a newline, so that it is the rest of the line
              have hnone : behind = [] := by
                cases behind with
                | nil => rfl
                | cons d rest =>
                    have hd := h.ends d rfl
                    rw [bne_eq_false_iff_eq] at hd
                    exact absurd (hd ▸ List.mem_cons_self) hline.2
              subst hnone
              rw [Imperativo.highlight, List.filter_nil, List.forall₂_nil_left_iff] at hbehind
              rw [List.append_nil, highlight_comment, hbehind]
              exact .nil
  | @lexeme p text behind ts ds kind value h hrest ih =>
      rw [List.mem_append, not_or] at hline
      subst hclean
      have hbehind := (ih rfl hline.2 (hfloat.later h)).imp fun _ _ => Shows.later
      have hapart : kind = .float → ∀ c ∈ behind.head?, Text.isWordStart c = false := by
        rintro rfl
        exact hfloat.followed h
      cases h with
      | lexeme h =>
          cases hkind : kind.isTerm with
          | true =>
              obtain ⟨c, more, rfl, hc⟩ := h.opensTerm hkind
              rw [h.highlight hkind hrest.begins hapart,
                List.filter_cons_of_pos (hc.isTerm _),
                List.filter_cons_of_pos (p := fun t : Token => t.kind.isTerm) hkind]
              exact .cons ⟨[], behind, rfl, rfl, h, rfl⟩ hbehind
          | false =>
              rw [filter_plain (h.isPlain hkind), List.filter_cons_of_neg (by simp [hkind])]
              exact hbehind
  | lost => cases hclean
  | kept => cases hclean

/-- What starts with a number sign is a comment, which is coloured last. -/
lemma highlight_comment_last {before after : List Span} {span : Span}
    (h : highlight case line = before ++ span :: after) (hspan : span.text.head? = some '#') :
    after = [] := by
  cases (colored_highlight case line).sort before span after h with
  | comment _ _ hlast => exact hlast
  | quoted h => exact absurd hspan h.head_ne
  | bare _ htext => exact absurd rfl (htext '#' (List.mem_of_mem_head? hspan)).1

/-- **The colours of a line agree with its tokens**, if nothing is reported of it and no number with
a point is followed by a letter or an underscore.  Its coloured words and literals are the tokens
that are words and literals, one by one and in their order: each stands where the token is, is
written as the token, and has the colour of the token's kind.  What else is coloured are blanks,
signs and operators, character by character, and at the end the comment. -/
theorem highlight_tokens (case : KeywordCase) (line : Text) (hline : '\n' ∉ line)
    (hclean : (tokenize case line).2 = []) (hfloat : FractionsApart case line) :
    List.Forall₂ (Shows case Position.start line) ((highlight case line).filter Span.isTerm)
      ((tokenize case line).1.filter fun t => t.kind.isTerm) ∧
    ∀ before span after, highlight case line = before ++ span :: after → span.isTerm = false →
      (∃ c, span.text = [c] ∧ isPlain c = true) ∨ span.text.head? = some '#' ∧ after = [] := by
  refine ⟨(accounted_tokenize case line).highlight hclean hline hfloat, ?_⟩
  intro before span after hspans hterm
  unfold Span.isTerm at hterm
  split at hterm
  · rename_i htext
    have hhash : span.text.head? = some '#' := by rw [htext, List.head?_cons]
    exact .inr ⟨hhash, highlight_comment_last hspans hhash⟩
  · rename_i c _ htext
    exact .inl ⟨c, htext, by simpa using hterm⟩
  · cases hterm

/-- A line with words and literals of each sort, and a comment that has quotes in it. -/
theorem highlight_tokens_condition :
    let line : Text := "Si (x1 >= 2.50 and c == 'a') \x7b int # \"fin\"".toList
    '\n' ∉ line ∧ (tokenize .insensitive line).2 = [] ∧ FractionsApart .insensitive line ∧
    (List.Forall₂ (Shows .insensitive Position.start line)
      ((highlight .insensitive line).filter Span.isTerm)
      ((tokenize .insensitive line).1.filter fun t => t.kind.isTerm) ∧
    ∀ before span after, highlight .insensitive line = before ++ span :: after →
      span.isTerm = false → (∃ c, span.text = [c] ∧ isPlain c = true) ∨
        span.text.head? = some '#' ∧ after = []) := by
  intro line
  have hline : '\n' ∉ line := by decide
  have hclean : (tokenize .insensitive line).2 = [] := by decide +kernel
  have hfloat : FractionsApart .insensitive line := by
    unfold FractionsApart
    decide +kernel
  exact ⟨hline, hclean, hfloat, highlight_tokens .insensitive line hline hclean hfloat⟩

end Imperativo
