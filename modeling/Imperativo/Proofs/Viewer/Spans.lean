import Imperativo.Proofs.Source.Spelling
import Imperativo.Viewer.Highlight

/-!
# Colouring keeps the text

A line is coloured from front to back: a span is a comment, a quoted text, a word or a character that
stands alone, and behind it the rest of the line is coloured in the same way (`Colored`).  Of these
sorts only the last three can be followed by more, and only the first two can have a number sign in
them (`Span.Sort`).

* **`colored_highlight`** — the colours of a line are like that.
* **`Coloring.run_start`** — a scanner that goes through the line by position comes to these spans
  and to the end of the line in no more rounds than there are characters.  It moves on with each
  span, also where a word starts with a point, because points go on with words.
* **`highlight_keeps_text`** — the spans of a line put together are the line, and none is empty; a
  comment is the last one and starts at the first number sign that is not quoted.
-/

namespace Imperativo

variable {case : KeywordCase} {line more behind : Text} {spans : List Span} {c : Char}

/-! ## A line with its spans -/

/-- Literals are opened and closed by quotes. -/
def IsQuote (c : Char) : Prop := c = '"' ∨ c = '\''

/-- The spans of a line, one by one.  A quote that is not closed reaches to the end of the line. -/
inductive Colored (case : KeywordCase) : Text → List Span → Prop
  | done : Colored case [] []
  | comment {rest : Text} : Colored case ('#' :: rest) [⟨'#' :: rest, Style.ink Theme.comment⟩]
  | quoted {q : Char} {inside behind : Text} {spans : List Span} (hq : IsQuote q)
      (hinside : q ∉ inside) (h : Colored case behind spans) :
      Colored case (q :: inside ++ [q] ++ behind)
        (⟨q :: inside ++ [q], Style.ink Theme.string⟩ :: spans)
  | unclosed {q : Char} {inside : Text} (hq : IsQuote q) (hinside : q ∉ inside) :
      Colored case (q :: inside) [⟨q :: inside, Style.ink Theme.string⟩]
  | word {c : Char} {more behind : Text} {spans : List Span} (hhash : c ≠ '#') (hquote : ¬ IsQuote c)
      (hc : startsWord c (more ++ behind) = true) (hmore : Whole isInWord more behind)
      (h : Colored case behind spans) :
      Colored case (c :: more ++ behind) (⟨c :: more, wordStyle case (c :: more)⟩ :: spans)
  | sign {c : Char} {rest : Text} {spans : List Span} (hhash : c ≠ '#') (hquote : ¬ IsQuote c)
      (hc : startsWord c rest = false) (h : Colored case rest spans) :
      Colored case (c :: rest) (⟨[c], signStyle c⟩ :: spans)

/-- Every text is a run of `p`, possibly empty, and what follows it. -/
lemma exists_whole (p : Char → Bool) (text : Text) :
    ∃ run behind, text = run ++ behind ∧ Whole p run behind :=
  ⟨_, _, List.takeWhile_append_dropWhile.symm, .takeWhile p text⟩

lemma highlight_comment (rest : Text) :
    highlight case ('#' :: rest) = [⟨'#' :: rest, Style.ink Theme.comment⟩] := by
  rw [highlight, if_pos rfl]

/-- A quoted text is coloured from quote to quote. -/
lemma highlight_quoted {q : Char} (hq : IsQuote q) {inside : Text} (h : q ∉ inside)
    (behind : Text) : highlight case (q :: inside ++ [q] ++ behind) =
      ⟨q :: inside ++ [q], Style.ink Theme.string⟩ :: highlight case behind := by
  have hhash : q ≠ '#' := by rcases hq with rfl | rfl <;> decide
  have hwhole : Whole (· != q) inside (q :: behind) :=
    ⟨fun c hc => bne_iff_ne.mpr fun heq => h (heq ▸ hc), by simp⟩
  have hsplit : q :: inside ++ [q] ++ behind = q :: (inside ++ q :: behind) := by simp
  rw [hsplit, highlight, if_neg hhash, if_pos (by simpa [IsQuote] using hq)]
  simp only [hwhole.takeWhile_eq, List.drop_left]
  rfl

/-- A quoted text that is not closed is coloured up to the end of the line. -/
lemma highlight_unclosed {q : Char} (hq : IsQuote q) {inside : Text} (h : q ∉ inside) :
    highlight case (q :: inside) = [⟨q :: inside, Style.ink Theme.string⟩] := by
  have hhash : q ≠ '#' := by rcases hq with rfl | rfl <;> decide
  have hinside : inside.takeWhile (· != q) = inside :=
    List.takeWhile_eq_self_iff.mpr fun c hc => bne_iff_ne.mpr fun heq => h (heq ▸ hc)
  rw [highlight, if_neg hhash, if_pos (by simpa [IsQuote] using hq)]
  simp [hinside, highlight]

/-- A word is coloured as a whole, however it starts. -/
lemma highlight_starting (hhash : c ≠ '#') (hquote : ¬ IsQuote c)
    (hc : startsWord c (more ++ behind) = true) (h : Whole isInWord more behind) :
    highlight case (c :: more ++ behind) =
      ⟨c :: more, wordStyle case (c :: more)⟩ :: highlight case behind := by
  rw [List.cons_append, highlight, if_neg hhash, if_neg (by simpa [IsQuote] using hquote), if_pos hc]
  simp only [h.takeWhile_eq, List.length_cons, Nat.add_sub_cancel, List.drop_left]

/-- Any other character is coloured by itself. -/
lemma highlight_sign {rest : Text} (hhash : c ≠ '#') (hquote : ¬ IsQuote c)
    (hc : startsWord c rest = false) :
    highlight case (c :: rest) = ⟨[c], signStyle c⟩ :: highlight case rest := by
  rw [highlight, if_neg hhash, if_neg (by simpa [IsQuote] using hquote), if_neg (by simp [hc])]

/-- **A line is coloured span by span.** -/
theorem colored_highlight (case : KeywordCase) (line : Text) :
    Colored case line (highlight case line) := by
  induction hn : line.length using Nat.strong_induction_on generalizing line with
  | _ n ih =>
      cases line with
      | nil =>
          rw [highlight]
          exact .done
      | cons c rest =>
          rw [List.length_cons] at hn
          by_cases hhash : c = '#'
          · subst hhash
            rw [highlight_comment]
            exact .comment
          by_cases hquote : IsQuote c
          · by_cases hclosed : c ∈ rest
            · obtain ⟨inside, behind, rfl, h⟩ := List.eq_append_cons_of_mem hclosed
              have hsplit : c :: (inside ++ c :: behind) = c :: inside ++ [c] ++ behind := by simp
              rw [List.length_append, List.length_cons] at hn
              rw [hsplit, highlight_quoted hquote h]
              exact .quoted hquote h (ih _ (by omega) behind rfl)
            · rw [highlight_unclosed hquote hclosed]
              exact .unclosed hquote hclosed
          cases hc : startsWord c rest with
          | true =>
              obtain ⟨more, behind, rfl, h⟩ := exists_whole isInWord rest
              rw [List.length_append] at hn
              rw [← List.cons_append, highlight_starting hhash hquote hc h]
              exact .word hhash hquote hc h (ih _ (by omega) behind rfl)
          | false =>
              rw [highlight_sign hhash hquote hc]
              exact .sign hhash hquote hc (ih _ (by omega) rest rfl)

/-! ## The text of the spans -/

lemma Colored.flatMap_text (h : Colored case line spans) : spans.flatMap Span.text = line := by
  induction h with
  | done => rfl
  | comment => exact List.flatMap_singleton _ _
  | unclosed => exact List.flatMap_singleton _ _
  | quoted _ _ _ ih => rw [List.flatMap_cons, ih]
  | word _ _ _ _ _ ih => rw [List.flatMap_cons, ih]
  | sign _ _ _ _ ih => rw [List.flatMap_cons, ih, List.singleton_append]

lemma Colored.text_ne_nil (h : Colored case line spans) : ∀ span ∈ spans, span.text ≠ [] := by
  induction h with
  | done => simp
  | comment => simp
  | unclosed => simp
  | quoted _ _ _ ih => exact List.forall_mem_cons.mpr ⟨List.cons_ne_nil _ _, ih⟩
  | word _ _ _ _ _ ih => exact List.forall_mem_cons.mpr ⟨List.cons_ne_nil _ _, ih⟩
  | sign _ _ _ _ ih => exact List.forall_mem_cons.mpr ⟨List.cons_ne_nil _ _, ih⟩

lemma Colored.length_le (h : Colored case line spans) : spans.length ≤ line.length := by
  induction h with
  | done => rfl
  | comment => simp
  | unclosed => simp
  | quoted _ _ _ ih => simp; omega
  | word _ _ _ _ _ ih => simp; omega
  | sign _ _ _ _ ih => simpa using ih

/-! ## Going through the line by position -/

/-- The characters of a line from one position up to another. -/
def Text.slice (line : Text) (start stop : Nat) : Text := (line.drop start).take (stop - start)

/-- The position behind the characters from `start` on that are as `p` says. -/
def Text.runEnd (p : Char → Bool) (line : Text) (start : Nat) : Nat :=
  start + ((line.drop start).takeWhile p).length

/-- The spans that a scanner has found so far, and the position at which it goes on. -/
structure Coloring where
  spans : List Span
  position : Nat

namespace Coloring

/-- Nothing is coloured. -/
def start : Coloring := ⟨[], 0⟩

/-- The line is coloured up to `stop` in a style. -/
def upTo (s : Coloring) (line : Text) (stop : Nat) (style : Style) : Coloring :=
  ⟨s.spans ++ [⟨line.slice s.position stop, style⟩], stop⟩

/-- One round of the scanner, unless it is at the end of the line.  The character at its position
says what it looks for; a comment goes to the end of the line, and so does a quote without another
one. -/
def round (case : KeywordCase) (line : Text) (s : Coloring) : Option Coloring :=
  match line.drop s.position with
  | [] => none
  | c :: rest => some <|
    if c = '#' then s.upTo line line.length (Style.ink Theme.comment)
    else if c = '"' || c = '\'' then
      let quote := line.runEnd (· != c) (s.position + 1)
      s.upTo line (min (quote + 1) line.length) (Style.ink Theme.string)
    else if startsWord c rest then
      let stop := line.runEnd isInWord s.position
      s.upTo line stop (wordStyle case (line.slice s.position stop))
    else s.upTo line (s.position + 1) (signStyle c)

/-- What the scanner comes to if it is at the end of the line in fewer than `n` rounds. -/
def run (case : KeywordCase) (line : Text) : Nat → Coloring → Option Coloring
  | 0, _ => none
  | n + 1, s =>
    match s.round case line with
    | none => some s
    | some next => run case line n next

variable {front rest behind text : Text} {found : List Span}

lemma slice_middle (front text behind : Text) :
    (front ++ (text ++ behind)).slice front.length (front.length + text.length) = text := by
  rw [Text.slice, List.drop_left, Nat.add_sub_cancel_left, List.take_left]

lemma runEnd_whole {p : Char → Bool} (front : Text) (h : Whole p text behind) :
    (front ++ (text ++ behind)).runEnd p front.length = front.length + text.length := by
  rw [Text.runEnd, List.drop_left, h.takeWhile_eq]

/-- The scanner behind what is in front. -/
lemma upTo_behind (front text behind : Text) (found : List Span) (style : Style) :
    upTo ⟨found, front.length⟩ (front ++ (text ++ behind)) (front.length + text.length) style =
      ⟨found ++ [⟨text, style⟩], (front ++ text).length⟩ := by
  rw [upTo, slice_middle, List.length_append]

/-- Whatever starts a word goes on with it. -/
lemma isInWord_of_startsWord {c : Char} (h : startsWord c rest = true) : isInWord c = true := by
  simp only [startsWord, Bool.or_eq_true, Bool.and_eq_true] at h
  simp only [isInWord, Bool.or_eq_true]
  exact h.imp_right And.left

/-- Behind a quote the scanner finds the next one of its sort, or the end of the line. -/
lemma runEnd_quote {q : Char} {inside : Text} (h : q ∉ inside)
    (hbehind : ∀ c ∈ behind.head?, c = q) (front : Text) :
    (front ++ (q :: inside ++ behind)).runEnd (· != q) (front.length + 1) =
      front.length + (q :: inside).length := by
  have hwhole : Whole (· != q) inside behind :=
    ⟨fun c hc => bne_iff_ne.mpr fun heq => h (heq ▸ hc), fun c hc => by simp [hbehind c hc]⟩
  have hsplit : front ++ (q :: inside ++ behind) = (front ++ [q]) ++ (inside ++ behind) := by simp
  have hlength : front.length + 1 = (front ++ [q]).length := by simp
  rw [hsplit, hlength, runEnd_whole _ hwhole, List.length_append, List.length_singleton,
    List.length_cons, Nat.add_assoc, Nat.add_comm 1]

/-- At a quote the scanner goes on behind the next one of its sort. -/
lemma round_quote {q : Char} (hq : IsQuote q) (hrest : rest.head? = some q) :
    round case (front ++ rest) ⟨found, front.length⟩ =
      some (upTo ⟨found, front.length⟩ (front ++ rest)
        (min ((front ++ rest).runEnd (· != q) (front.length + 1) + 1) (front ++ rest).length)
        (Style.ink Theme.string)) := by
  obtain ⟨more, rfl⟩ := List.head?_eq_some_iff.mp hrest
  have hhash : q ≠ '#' := by rcases hq with rfl | rfl <;> decide
  simp only [round, List.drop_left, if_neg hhash]
  rw [if_pos (by simpa [IsQuote] using hq)]

/-- **A round colours the next span** and moves on behind it. -/
lemma round_advances {span : Span} {spans : List Span} (h : Colored case rest (span :: spans))
    (front : Text) (found : List Span) : ∃ behind, rest = span.text ++ behind ∧
      Colored case behind spans ∧ round case (front ++ rest) ⟨found, front.length⟩ =
        some ⟨found ++ [span], (front ++ span.text).length⟩ := by
  generalize hall : span :: spans = all at h
  cases h with
  | done => cases hall
  | @comment body =>
      cases hall
      refine ⟨[], (List.append_nil _).symm, .done, ?_⟩
      have hround := upTo_behind front ('#' :: body) [] found (Style.ink Theme.comment)
      rw [List.append_nil] at hround
      simp only [round, List.drop_left, if_true, List.length_append, hround]
  | @quoted q inside behind spans hq hinside h =>
      cases hall
      refine ⟨behind, rfl, h, ?_⟩
      have hround := upTo_behind front (q :: inside ++ [q]) behind found (Style.ink Theme.string)
      have hend : (front ++ (q :: inside ++ q :: behind)).runEnd (· != q) (front.length + 1) = _ :=
        runEnd_quote hinside (by simp) front
      have hmin : min (front.length + (q :: inside).length + 1)
          (front ++ (q :: inside ++ [q] ++ behind)).length =
            front.length + (q :: inside ++ [q]).length := by simp; omega
      have hsplit : front ++ (q :: inside ++ [q] ++ behind) =
          front ++ (q :: inside ++ q :: behind) := by simp
      rw [round_quote hq rfl, hsplit, hend, ← hsplit, hmin, hround]
  | @unclosed q inside hq hinside =>
      cases hall
      refine ⟨[], (List.append_nil _).symm, .done, ?_⟩
      have hround := upTo_behind front (q :: inside) [] found (Style.ink Theme.string)
      have hend : (front ++ (q :: inside ++ [])).runEnd (· != q) (front.length + 1) = _ :=
        runEnd_quote hinside (by simp) front
      have hmin : min (front.length + (q :: inside).length + 1) (front ++ (q :: inside)).length =
          front.length + (q :: inside).length := by simp
      rw [List.append_nil] at hround hend
      rw [round_quote hq rfl, hend, hmin, hround]
  | @word c more behind spans hhash hquote hc hmore h =>
      cases hall
      refine ⟨behind, rfl, h, ?_⟩
      have hwhole : Whole isInWord (c :: more) behind := hmore.cons (isInWord_of_startsWord hc)
      simp only [round, List.drop_left, List.cons_append, if_neg hhash]
      rw [if_neg (by simpa [IsQuote] using hquote), if_pos hc, ← List.cons_append,
        runEnd_whole front hwhole, slice_middle, upTo_behind]
  | @sign c rest spans hhash hquote hc h =>
      cases hall
      refine ⟨rest, rfl, h, ?_⟩
      have hround := upTo_behind front [c] rest found (signStyle c)
      simp only [round, List.drop_left, if_neg hhash]
      rw [if_neg (by simpa [IsQuote] using hquote), if_neg (by simp [hc])]
      exact congrArg some hround

/-- Round by round the scanner colours the rest of the line. -/
lemma run_behind {n : Nat} (h : Colored case rest spans) (hn : spans.length < n) (front : Text)
    (found : List Span) : run case (front ++ rest) n ⟨found, front.length⟩ =
      some ⟨found ++ spans, (front ++ rest).length⟩ := by
  induction spans generalizing rest front found n with
  | nil =>
      obtain ⟨m, rfl⟩ := Nat.exists_eq_add_one.mpr hn
      obtain rfl : rest = [] := h.flatMap_text.symm
      simp [run, round]
  | cons span spans ih =>
      rw [List.length_cons] at hn
      obtain ⟨m, rfl⟩ := Nat.exists_eq_add_one.mpr (Nat.zero_lt_of_lt hn)
      obtain ⟨behind, rfl, hbehind, hround⟩ := round_advances h front found
      have hrun := ih hbehind (Nat.lt_of_succ_lt_succ hn) (front ++ span.text) (found ++ [span])
      rw [List.append_assoc] at hrun
      rw [run, hround]
      simpa using hrun

/-- **The scanner comes to the colours of the line**, in a round for each span and one more to see
that it is at the end. -/
theorem run_start (case : KeywordCase) (line : Text) :
    run case line (line.length + 1) start = some ⟨highlight case line, line.length⟩ := by
  have h := colored_highlight case line
  exact run_behind h (Nat.lt_succ_of_le h.length_le) [] []

end Coloring

/-! ## Comments and quotes -/

/-- A literal with its quotes, the second of which may be missing. -/
def Span.IsQuoted (span : Span) : Prop :=
  span.style = Style.ink Theme.string ∧ ∃ q inside, IsQuote q ∧ q ∉ inside ∧
    (span.text = q :: inside ++ [q] ∨ span.text = q :: inside)

/-- What a span of a line is, and what follows it. -/
inductive Span.Sort (span : Span) (after : List Span) : Prop
  | comment (hstyle : span.style = Style.ink Theme.comment) (htext : span.text.head? = some '#')
      (hlast : after = [])
  | quoted (h : span.IsQuoted)
  | bare (hstyle : span.style ≠ Style.ink Theme.comment)
      (htext : ∀ c ∈ span.text, c ≠ '#' ∧ ¬ IsQuote c)

/-- Quotes are no number signs. -/
lemma Span.IsQuoted.head_ne {span : Span} (h : span.IsQuoted) : span.text.head? ≠ some '#' := by
  obtain ⟨-, q, inside, hq, -, htext⟩ := h
  have hhead : span.text.head? = some q := by rcases htext with htext | htext <;> rw [htext] <;> rfl
  rw [hhead]
  rcases hq with rfl | rfl <;> decide

lemma wordStyle_ne_comment (word : Text) : wordStyle case word ≠ Style.ink Theme.comment := by
  unfold wordStyle
  split
  · decide
  · decide
  · decide
  · split
    · decide
    · split <;> decide

lemma signStyle_ne_comment (c : Char) : signStyle c ≠ Style.ink Theme.comment := by
  unfold signStyle
  split <;> decide

/-- Number signs and quotes have no part in words. -/
lemma bare_of_isInWord {c : Char} (h : isInWord c = true) : c ≠ '#' ∧ ¬ IsQuote c := by
  refine ⟨?_, ?_⟩
  · rintro rfl
    revert h
    decide
  · rintro (rfl | rfl) <;> revert h <;> decide

lemma sort_cons {first : Span} (hfirst : first.Sort spans)
    (h : ∀ before span after, spans = before ++ span :: after → span.Sort after) :
    ∀ before span after, first :: spans = before ++ span :: after → span.Sort after := by
  intro before span after heq
  cases before with
  | nil =>
      obtain ⟨rfl, rfl⟩ := List.cons.inj heq
      exact hfirst
  | cons _ before => exact h before span after (List.cons.inj heq).2

/-- **Every span is of one of these sorts.** -/
lemma Colored.sort (h : Colored case line spans) :
    ∀ before span after, spans = before ++ span :: after → span.Sort after := by
  induction h with
  | done => simp
  | comment => exact sort_cons (.comment rfl rfl rfl) (by simp)
  | unclosed hq hinside =>
      exact sort_cons (.quoted ⟨rfl, _, _, hq, hinside, .inr rfl⟩) (by simp)
  | quoted hq hinside _ ih => exact sort_cons (.quoted ⟨rfl, _, _, hq, hinside, .inl rfl⟩) ih
  | @word c more _ _ hhash hquote _ hmore _ ih =>
      have hbare : ∀ d ∈ c :: more, d ≠ '#' ∧ ¬ IsQuote d := List.forall_mem_cons.mpr
        ⟨⟨hhash, hquote⟩, fun d hd => bare_of_isInWord (hmore.all d hd)⟩
      exact sort_cons (.bare (wordStyle_ne_comment _) hbare) ih
  | @sign c _ _ hhash hquote _ _ ih =>
      have hbare : ∀ d ∈ [c], d ≠ '#' ∧ ¬ IsQuote d :=
        List.forall_mem_singleton.mpr ⟨hhash, hquote⟩
      exact sort_cons (.bare (signStyle_ne_comment _) hbare) ih

/-- A span in the colour of comments is the comment. -/
lemma Span.Sort.of_style {span : Span} {after : List Span} (h : span.Sort after)
    (hstyle : span.style = Style.ink Theme.comment) : after = [] ∧ span.text.head? = some '#' := by
  cases h with
  | comment _ htext hlast => exact ⟨hlast, htext⟩
  | quoted h => exact absurd (h.1.symm.trans hstyle) (by decide)
  | bare hother => exact absurd hstyle hother

/-- A number sign that something follows is quoted. -/
lemma Span.Sort.isQuoted {span : Span} {after : List Span} (h : span.Sort after)
    (hafter : after ≠ []) (hhash : '#' ∈ span.text) : span.IsQuoted := by
  cases h with
  | comment _ _ hlast => exact absurd hlast hafter
  | quoted h => exact h
  | bare _ htext => exact absurd rfl (htext '#' hhash).1

/-- **Colouring keeps the text**, of every line and in either treatment of case.  The scanner is at
the end of the line after a round for each span, the texts of the spans put together are the line,
and none of them is empty.  A span in the colour of comments is the last one and starts at a number
sign, and in front of it number signs stand in quoted spans only. -/
theorem highlight_keeps_text (case : KeywordCase) (line : Text) :
    Coloring.run case line (line.length + 1) Coloring.start =
      some ⟨highlight case line, line.length⟩ ∧
    (highlight case line).flatMap Span.text = line ∧
    (∀ span ∈ highlight case line, span.text ≠ []) ∧
    (∀ before span after, highlight case line = before ++ span :: after → span.Sort after) ∧
    ∀ before span after, highlight case line = before ++ span :: after →
      span.style = Style.ink Theme.comment → after = [] ∧ span.text.head? = some '#' ∧
        ∀ s ∈ before, '#' ∈ s.text → s.IsQuoted := by
  have h := colored_highlight case line
  refine ⟨Coloring.run_start case line, h.flatMap_text, h.text_ne_nil, h.sort, ?_⟩
  intro before span after hspans hstyle
  obtain ⟨hlast, htext⟩ := (h.sort before span after hspans).of_style hstyle
  refine ⟨hlast, htext, fun s hs hhash => ?_⟩
  obtain ⟨front, behind, rfl⟩ := List.append_of_mem hs
  have hsort := h.sort front s (behind ++ span :: after) (by rw [hspans]; simp)
  exact hsort.isQuoted (by simp) hhash

/-- A quote that is not closed takes the rest of the line, and a point in front of a digit starts a
word that the next points belong to. -/
example : (highlight .sensitive "x = .5.. 'a#b' . \"no # end".toList).map Span.text =
    ["x".toList, " ".toList, "=".toList, " ".toList, ".5..".toList, " ".toList, "'a#b'".toList,
      " ".toList, ".".toList, " ".toList, "\"no # end".toList] := by
  decide +kernel

end Imperativo
