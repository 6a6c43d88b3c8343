import Imperativo.Proofs.Source.Account

/-!
# Capital letters

Capital letters matter to reserved words only, and there only if the caller says so.  No class of
characters that a scanner goes by tells a capital letter from the small one, so a program in small
letters is cut where the program was.  What is cut there is the same, up to its letters, unless it
is a word that counts as reserved in one spelling and not in the other.

* **`tokenize_lower`** — when capital letters do not matter, a program in small letters yields what
  the program does, in small letters.
* **`tokenize_recased`** — when they matter, the same places yield the same, but for words that are
  reserved when written small.
* **`capitals_matter_to_reserved_words`** — both.
-/

namespace Imperativo

/-! ## Small letters -/

namespace Text

/-- The capital letters. -/
def capitals : Text := "ABCDEFGHIJKLMNOPQRSTUVWXYZ".toList

lemma mem_capitals {c : Char} (h : c.isUpper = true) : c ∈ capitals := by
  change decide ('A'.val ≤ c.val ∧ c.val ≤ 'Z'.val) = true at h
  obtain ⟨hlow, hhigh⟩ : 65 ≤ c.toNat ∧ c.toNat ≤ 90 := by
    simpa [UInt32.le_iff_toNat_le] using h
  rw [← Char.ofNat_toNat c]
  generalize c.toNat = n at hlow hhigh
  interval_cases n <;> decide

lemma toLower_eq_self {c : Char} (h : c.isUpper = false) : c.toLower = c := by
  change decide ('A'.val ≤ c.val ∧ c.val ≤ 'Z'.val) = false at h
  exact dif_neg (of_decide_eq_false h)

/-- Whether a function does not tell the capital letters from the small ones. -/
def caseless {α : Type} [DecidableEq α] (f : Char → α) : Bool :=
  capitals.all fun c => decide (f c.toLower = f c)

/-- **What does not tell the capital letters from the small ones** tells no character from its small
letter. -/
lemma toLower_invariant {α : Type} [DecidableEq α] {f : Char → α} (h : caseless f = true)
    (c : Char) : f c.toLower = f c := by
  cases hc : c.isUpper with
  | true => exact of_decide_eq_true (List.all_eq_true.mp h c (mem_capitals hc))
  | false => rw [toLower_eq_self hc]

lemma toLower_eq_iff {d : Char} (h : caseless (· == d) = true) {c : Char} :
    c.toLower = d ↔ c = d := by
  have hc := toLower_invariant h c
  rw [← beq_iff_eq, hc, beq_iff_eq]

lemma toLower_ne {c d : Char} (h : caseless (· == d) = true) (hc : c ≠ d) : c.toLower ≠ d :=
  (toLower_eq_iff h).not.mpr hc

lemma lower_eq_self {text : Text} (h : ∀ c ∈ text, c.isUpper = false) : lower text = text :=
  (List.map_congr_left fun c hc => toLower_eq_self (h c hc)).trans (List.map_id text)

/-- A text of a class without capital letters is in small letters. -/
lemma lower_eq_self_of {p : Char → Bool} (hp : capitals.any p = false)
    (h : ∀ c ∈ text, p c = true) : lower text = text := by
  refine lower_eq_self fun c hc => ?_
  cases hupper : c.isUpper with
  | false => rfl
  | true =>
      have hc := h c hc
      exact absurd hc (List.any_eq_false.mp hp c (mem_capitals hupper))

@[simp] lemma lower_lower (text : Text) : lower (lower text) = lower text := by
  simp only [lower, List.map_map]
  exact List.map_congr_left fun c _ => toLower_invariant (by decide) c

@[simp] lemma lower_cons (c : Char) (text : Text) : lower (c :: text) = c.toLower :: lower text :=
  rfl

@[simp] lemma lower_append (text more : Text) : lower (text ++ more) = lower text ++ lower more :=
  List.map_append

/-- What holds of a class of characters that knows no capitals holds of a text in small letters. -/
lemma forall_lower {P : Char → Prop} {text : Text} (hP : ∀ c, P c → P c.toLower)
    (h : ∀ c ∈ text, P c) : ∀ c ∈ lower text, P c := by
  intro d hd
  obtain ⟨c, hc, rfl⟩ := List.mem_map.mp hd
  exact hP c (h c hc)

lemma forall_head_lower {P : Char → Prop} {text : Text} (hP : ∀ c, P c → P c.toLower)
    (h : ∀ c ∈ text.head?, P c) : ∀ c ∈ (lower text).head?, P c := by
  cases text with
  | nil => exact h
  | cons c text =>
      rintro _ ⟨⟩
      exact hP c (h c rfl)

lemma head_class_lower {p : Char → Bool} (hp : caseless p = true) {b : Bool} {text : Text}
    (h : ∀ c ∈ text.head?, p c = b) : ∀ c ∈ (lower text).head?, p c = b :=
  forall_head_lower (fun c hc => (toLower_invariant hp c).trans hc) h

end Text

open Text

/-- Only a newline, which is no letter, opens a line. -/
lemma Position.advance_lower (p : Position) (text : Text) :
    p.advance (lower text) = p.advance text := by
  induction text generalizing p with
  | nil => rfl
  | cons c text ih =>
      have hstep : p.step c.toLower = p.step c := by
        simp only [Position.step, toLower_eq_iff (d := '\n') (by decide)]
      rw [lower_cons, Position.advance_cons, Position.advance_cons, hstep, ih]

lemma Whole.lower {p : Char → Bool} {run behind : Text} (hp : caseless p = true)
    (h : Whole p run behind) : Whole p (lower run) (lower behind) where
  all := forall_lower (fun c hc => (toLower_invariant hp c).trans hc) h.all
  ends := head_class_lower hp h.ends

lemma Whole.lower_eq {p : Char → Bool} {run behind : Text} (hp : caseless p = true)
    (hnone : capitals.any p = false) (h : Whole p run behind) :
    Text.lower run = run ∧ Whole p run (Text.lower behind) := by
  have hrun := lower_eq_self_of hnone h.all
  exact ⟨hrun, hrun ▸ h.lower hp⟩

/-! ## What is yielded, in small letters -/

/-- The value in small letters. -/
def Value.lower : Value → Value
  | .character c => .character c.toLower
  | .text t => .text (Text.lower t)
  | value => value

/-- The fault with its rejected text in small letters. -/
def LexicalFault.lower : LexicalFault → LexicalFault
  | .illegalCharacter c => .illegalCharacter c.toLower
  | .malformedNumber lexeme => .malformedNumber (Text.lower lexeme)
  | .invalidIdentifier lexeme => .invalidIdentifier (Text.lower lexeme)
  | .invalidCharacter lexeme problem => .invalidCharacter (Text.lower lexeme) problem
  | .invalidOperator lexeme => .invalidOperator (Text.lower lexeme)

/-- What a piece is, in small letters. -/
def Content.lower : Content → Content
  | .blank => .blank
  | .lexeme kind value => .lexeme kind (value.map Value.lower)
  | .fault cause separator => .fault cause.lower separator

/-- The token with its value in small letters. -/
def Token.lower (t : Token) : Token := { t with value := t.value.map Value.lower }

/-- The lexical diagnostic with its rejected text in small letters, in the message as well. -/
def Diagnostic.lower (d : Diagnostic) : Diagnostic :=
  match d.cause with
  | .lexical fault => { d with cause := .lexical fault.lower, message := fault.lower.message }
  | .grammar _ => d

lemma LexicalFault.payload_lower (fault : LexicalFault) :
    fault.lower.payload = Text.lower fault.payload := by
  cases fault <;> rfl

lemma LexicalFault.name_lower (fault : LexicalFault) : fault.lower.name = fault.name := by
  cases fault <;> rfl

namespace Piece

variable {text behind : Text}

/-! ## Pieces in small letters -/

lemma Blank.lower (h : Blank text behind) : Blank (lower text) (lower behind) := by
  cases h with
  | space h => exact .space ((toLower_invariant (by decide) _).trans h)
  | comment h => exact .comment (h.lower (by decide))

/-- The reserved words are written in small letters. -/
lemma lower_spelling {kind : Kind} (hkind : kind ∈ Reserved.kinds) {word : Text}
    (hspelling : kind.spelling? = some word) : Text.lower word = word := by
  have hall : ∀ k ∈ Reserved.kinds, ∀ s ∈ k.spelling?, Text.lower s = s := by decide
  exact hall kind hkind word hspelling

lemma Lexeme.lower {kind : Kind} {value : Option Value}
    (h : Lexeme .insensitive text behind kind value) :
    Lexeme .insensitive (lower text) (lower behind) kind (value.map Value.lower) := by
  cases h with
  | reserved hc h hkind hspelling =>
      rw [lower_cons]
      refine .reserved ((toLower_invariant (by decide) _).trans hc) (h.lower (by decide)) hkind ?_
      rw [hspelling]
      exact congrArg some (lower_lower _).symm
  | @name c more _ hc h hfree =>
      rw [lower_cons]
      refine .name ((toLower_invariant (by decide) _).trans hc) (h.lower (by decide)) ?_
      intro kind hkind
      have hfold : Reserved.fold .insensitive (c.toLower :: Text.lower more) =
          Reserved.fold .insensitive (c :: more) := lower_lower (c :: more)
      rw [hfold]
      exact hfree kind hkind
  | @integer c more _ hc h hend hn =>
      have hdigits : Text.lower (c :: more) = c :: more :=
        lower_eq_self_of (by decide) (List.forall_mem_cons.mpr ⟨hc, h.all⟩)
      obtain ⟨-, hrun⟩ := h.lower_eq (by decide) (by decide)
      rw [hdigits]
      exact .integer hc hrun (head_class_lower (by decide) hend) hn
  | @float whole fraction _ hwhole hfraction hend =>
      have hw : Text.lower whole = whole := lower_eq_self_of (by decide) hwhole.2
      have hf : Text.lower fraction = fraction := lower_eq_self_of (by decide) hfraction.2
      rw [lower_append, lower_cons, hw, hf]
      exact .float hwhole hfraction (head_class_lower (by decide) hend)
  | @character c _ hc =>
      exact .character ⟨toLower_ne (by decide) hc.1, toLower_ne (by decide) hc.2⟩
  | @string inside _ h =>
      rw [lower_append, lower_cons]
      exact .string (forall_lower
        (fun c hc => ⟨toLower_ne (by decide) hc.1, toLower_ne (by decide) hc.2⟩) h)
  | sign s =>
      have hs : Text.lower s.spelling.toList = s.spelling.toList := by cases s <;> decide
      rw [hs]
      exact .sign s
  | operator h hkind hspelling =>
      obtain ⟨hself, hrun⟩ := h.lower_eq (by decide) (by decide)
      rw [hself]
      exact .operator hrun hkind hspelling

lemma Digits.lower_iff : Digits (lower text) ↔ Digits text := by
  constructor
  · rintro ⟨hne, h⟩
    refine ⟨fun hnil => hne (by rw [hnil]; rfl), fun c hc => ?_⟩
    rw [← toLower_invariant (f := Char.isDigit) (by decide)]
    exact h _ (List.mem_map_of_mem hc)
  · intro h
    rwa [lower_eq_self_of (by decide) h.2]

lemma Stray.lower {c : Char} (h : Stray c) : Stray c.toLower where
  blank := (toLower_invariant (by decide) c).trans h.blank
  comment := toLower_ne (by decide) h.comment
  word := (toLower_invariant (by decide) c).trans h.word
  digit := (toLower_invariant (by decide) c).trans h.digit
  point := toLower_ne (by decide) h.point
  quote := toLower_ne (by decide) h.quote
  doubleQuote := toLower_ne (by decide) h.doubleQuote
  sign := (toLower_invariant (by decide) c).trans h.sign
  operator := (toLower_invariant (by decide) c).trans h.operator

lemma Rejected.lower {fault : LexicalFault} {after : Text} (h : Rejected fault after) :
    Rejected fault.lower (lower after) := by
  cases h with
  | @tooLarge c more _ hc h hend hn =>
      have hdigits : Text.lower (c :: more) = c :: more :=
        lower_eq_self_of (by decide) (List.forall_mem_cons.mpr ⟨hc, h.all⟩)
      obtain ⟨-, hrun⟩ := h.lower_eq (by decide) (by decide)
      rw [LexicalFault.lower, hdigits]
      exact .tooLarge hc hrun (head_class_lower (by decide) hend) hn
  | @fraction whole run _ hwhole h hrun =>
      rw [LexicalFault.lower, lower_append, lower_cons]
      exact .fraction (Digits.lower_iff.mpr hwhole) (h.lower (by decide))
        (fun hdigits => hrun (Digits.lower_iff.mp hdigits))
  | point hd h =>
      rw [LexicalFault.lower, lower_cons, lower_cons]
      exact .point ((toLower_invariant (by decide) _).trans hd) (h.lower (by decide))
  | lonePoint h =>
      exact .lonePoint (head_class_lower (by decide) h)
  | name hdigits hc h =>
      rw [LexicalFault.lower, lower_append, lower_cons]
      exact .name (Digits.lower_iff.mpr hdigits) ((toLower_invariant (by decide) _).trans hc)
        (h.lower (by decide))
  | unterminated h hend =>
      rw [LexicalFault.lower, lower_cons]
      exact .unterminated (h.lower (by decide))
        (forall_head_lower (fun c hc => toLower_ne (by decide) hc) hend)
  | empty => exact .empty
  | tooLong h hlength =>
      rw [LexicalFault.lower, lower_append, lower_cons]
      refine .tooLong (forall_lower (fun c hc => ?_) h) (by simpa [Text.lower] using hlength)
      exact ⟨toLower_ne (by decide) hc.1, toLower_ne (by decide) hc.2⟩
  | openQuote h hend =>
      rw [lower_append]
      exact .openQuote (h.lower (by decide))
        (forall_head_lower (fun c hc => toLower_ne (by decide) hc) hend)
  | operator h hfree =>
      obtain ⟨hself, hrun⟩ := h.lower_eq (by decide) (by decide)
      rw [LexicalFault.lower, hself]
      exact .operator hrun hfree
  | @loneOperator c _ h hfree =>
      obtain ⟨hself, hrun⟩ := h.lower_eq (by decide) (by decide)
      rw [LexicalFault.lower, (List.cons.inj hself).1]
      exact .loneOperator hrun hfree
  | stray hc => exact .stray hc.lower

/-- **What can stand in front of a text can do so in small letters.** -/
lemma Stands.lower {content : Content} (h : Stands .insensitive text behind content) :
    Stands .insensitive (lower text) (lower behind) content.lower := by
  cases h with
  | blank h => exact .blank h.lower
  | lexeme h => exact .lexeme h.lower
  | @lost fault _ h hnone =>
      rw [← LexicalFault.payload_lower]
      refine .lost h.lower fun hsalvages => ?_
      have hnone := hnone (by cases fault <;> exact hsalvages)
      rw [LexicalFault.payload_lower, Text.lower, Text.lower, ← List.map_take, ← List.map_append]
      exact forall_lower (fun c hc => (toLower_invariant (by decide) c).trans hc) hnone
  | @kept fault after front _ c s h hsalvages hsplit hfront hle hc =>
      rw [lower_append]
      refine .kept h.lower (by cases fault <;> exact hsalvages) ?_ ?_ ?_ ?_
      · rw [LexicalFault.payload_lower, ← lower_append, hsplit, lower_append, lower_cons]
      · exact forall_lower (fun c hc => (toLower_invariant (by decide) c).trans hc) hfront
      · simpa [LexicalFault.payload_lower, Text.lower] using hle
      · exact (toLower_invariant (by decide) c).trans hc

end Piece

/-! ## Programs in small letters -/

open Piece

lemma Accounted.lower {p : Position} {source : Text} {ts : List Token} {ds : List Diagnostic}
    (h : Accounted .insensitive p source ts ds) :
    Accounted .insensitive p (lower source) (ts.map Token.lower) (ds.map Diagnostic.lower) := by
  induction h with
  | done => exact .done
  | blank h _ ih =>
      rw [← Position.advance_lower] at ih
      rw [lower_append]
      exact .blank h.lower ih
  | lexeme h _ ih =>
      rw [← Position.advance_lower] at ih
      rw [lower_append]
      exact .lexeme h.lower ih
  | lost h _ ih =>
      rw [← Position.advance_lower] at ih
      rw [lower_append]
      exact .lost h.lower ih
  | @kept p front behind c ts ds fault s h _ ih =>
      have hstands := h.lower
      rw [← Position.advance_lower] at ih
      rw [lower_append] at hstands ih
      have haccount := Accounted.kept hstands ih
      rw [Position.advance_lower] at haccount
      rw [lower_append]
      exact haccount

/-- **When capital letters do not matter, a program in small letters yields what the program does,
in small letters.** -/
theorem tokenize_lower (source : Text) : tokenize .insensitive (lower source) =
    ((tokenize .insensitive source).1.map Token.lower,
      (tokenize .insensitive source).2.map Diagnostic.lower) :=
  (accounted_tokenize .insensitive source).lower.tokenize_eq

/-! ## Words that are reserved when written small -/

/-- What a token is when capital letters no longer matter.  A name that has capital letters and is
reserved when written small is that reserved word, without a value; any other token is what it
was. -/
inductive Recased : Token → Token → Prop
  | same {t : Token} (h : ∀ word, t.kind = .identifier → t.value = some (.text word) →
      ∀ kind ∈ Reserved.kinds, kind.spelling? ≠ some (lower word)) : Recased t t
  | reserved {word : Text} {kind : Kind} {p : Position} (hcapital : ∃ c ∈ word, c.isUpper = true)
      (hkind : kind ∈ Reserved.kinds) (hspelling : kind.spelling? = some (lower word)) :
      Recased ⟨.identifier, some (.text word), p⟩ ⟨kind, none, p⟩

lemma Recased.of_ne {t : Token} (h : t.kind ≠ .identifier) : Recased t t :=
  .same fun _ hkind => absurd hkind h

/-- A lexeme is one whether capital letters matter or not. -/
lemma Piece.Lexeme.recased {text behind : Text} {kind : Kind} {value : Option Value}
    (h : Piece.Lexeme .sensitive text behind kind value) :
    ∃ kind' value', Piece.Lexeme .insensitive text behind kind' value' ∧
      ∀ p, Recased ⟨kind, value, p⟩ ⟨kind', value', p⟩ := by
  cases h with
  | @reserved c more _ _ hc h hkind hspelling =>
      have hsmall : Text.lower (c :: more) = c :: more := lower_spelling hkind hspelling
      have hfold : kind.spelling? = some (Reserved.fold .insensitive (c :: more)) :=
        hspelling.trans (congrArg some hsmall.symm)
      have hne : kind ≠ .identifier := by
        rintro rfl
        cases hspelling
      exact ⟨kind, none, .reserved hc h hkind hfold, fun p => .of_ne hne⟩
  | @name c more _ hc h hfree =>
      by_cases hsmall : ∀ kind ∈ Reserved.kinds, kind.spelling? ≠ some (Text.lower (c :: more))
      · refine ⟨_, _, .name hc h hsmall, fun p => .same ?_⟩
        rintro _ - ⟨⟩
        exact hsmall
      · push Not at hsmall
        obtain ⟨kind, hkind, hspelling⟩ := hsmall
        refine ⟨kind, none, .reserved hc h hkind hspelling, fun p => .reserved ?_ hkind hspelling⟩
        -- without a capital letter the word would have been reserved before
        by_contra hnone
        have hself : Text.lower (c :: more) = c :: more :=
          lower_eq_self fun d hd => by
            simpa using fun hupper => hnone ⟨d, hd, hupper⟩
        exact hfree kind hkind (hspelling.trans (congrArg some hself))
  | integer hc h hend hn => exact ⟨_, _, .integer hc h hend hn, fun p => .of_ne nofun⟩
  | float hwhole hfraction hend =>
      exact ⟨_, _, .float hwhole hfraction hend, fun p => .of_ne nofun⟩
  | character hc => exact ⟨_, _, .character hc, fun p => .of_ne nofun⟩
  | string h => exact ⟨_, _, .string h, fun p => .of_ne nofun⟩
  | sign s => exact ⟨_, _, .sign s, fun p => .of_ne nofun⟩
  | operator h hkind hspelling =>
      have hne : kind ≠ .identifier := by
        rintro rfl
        cases hspelling
      exact ⟨_, _, .operator h hkind hspelling, fun p => .of_ne hne⟩

lemma Accounted.recased {p : Position} {source : Text} {ts : List Token} {ds : List Diagnostic}
    (h : Accounted .sensitive p source ts ds) :
    ∃ us, Accounted .insensitive p source us ds ∧ List.Forall₂ Recased ts us := by
  induction h with
  | done => exact ⟨[], .done, .nil⟩
  | blank h _ ih =>
      obtain ⟨us, haccount, hus⟩ := ih
      cases h with
      | blank h => exact ⟨us, .blank (.blank h) haccount, hus⟩
  | lexeme h _ ih =>
      obtain ⟨us, haccount, hus⟩ := ih
      cases h with
      | lexeme h =>
          obtain ⟨kind, value, hlexeme, hrecased⟩ := h.recased
          exact ⟨_, .lexeme (.lexeme hlexeme) haccount, .cons (hrecased _) hus⟩
  | lost h _ ih =>
      obtain ⟨us, haccount, hus⟩ := ih
      cases h with
      | lost h hnone => exact ⟨us, .lost (.lost h hnone) haccount, hus⟩
  | @kept p front behind c ts ds fault s h _ ih =>
      obtain ⟨us, haccount, hus⟩ := ih
      have hstands : Stands .insensitive (front ++ [c]) behind (.fault fault (some s)) := by
        generalize htext : front ++ [c] = text at h
        cases h with
        | kept h hsalvages hsplit hfront hle hc => exact .kept h hsalvages hsplit hfront hle hc
      exact ⟨_, .kept hstands haccount, .cons (.of_ne nofun) hus⟩

/-- **Whether capital letters matter shows in reserved words alone.** -/
theorem tokenize_recased (source : Text) :
    (tokenize .sensitive source).2 = (tokenize .insensitive source).2 ∧
      List.Forall₂ Recased (tokenize .sensitive source).1 (tokenize .insensitive source).1 := by
  obtain ⟨us, haccount, hus⟩ := (accounted_tokenize .sensitive source).recased
  rw [haccount.tokenize_eq]
  exact ⟨rfl, hus⟩

/-- **Capital letters matter to reserved words only.**  Whether they matter or not, a program has
the same diagnostics, and as many tokens at the same places; the tokens are the same as well, but
for names with capital letters that are reserved when written small.  When capital letters do not
matter, two programs that are the same in small letters have tokens of the same kinds at the same
places, and diagnostics of the same kinds at the same places. -/
theorem capitals_matter_to_reserved_words (source : Text) :
    ((tokenize .sensitive source).2 = (tokenize .insensitive source).2 ∧
      List.Forall₂ Recased (tokenize .sensitive source).1 (tokenize .insensitive source).1) ∧
    ∀ other, lower source = lower other →
      (tokenize .insensitive source).1.map (fun t => (t.kind, t.position)) =
        (tokenize .insensitive other).1.map (fun t => (t.kind, t.position)) ∧
      (tokenize .insensitive source).2.map (fun d => (d.cause.name, d.line, d.column)) =
        (tokenize .insensitive other).2.map (fun d => (d.cause.name, d.line, d.column)) := by
  refine ⟨tokenize_recased source, fun other hlower => ?_⟩
  have hboth : ((tokenize .insensitive source).1.map Token.lower,
      (tokenize .insensitive source).2.map Diagnostic.lower) =
        ((tokenize .insensitive other).1.map Token.lower,
          (tokenize .insensitive other).2.map Diagnostic.lower) := by
    rw [← tokenize_lower, ← tokenize_lower, hlower]
  obtain ⟨htokens, hdiagnostics⟩ := Prod.mk.inj hboth
  -- kinds and places are read off what is written in small letters
  have hread (d : Diagnostic) : (d.lower.cause.name, d.lower.line, d.lower.column) =
      (d.cause.name, d.line, d.column) := by
    obtain ⟨cause, line, column, message⟩ := d
    cases cause with
    | lexical fault => exact congrArg (·, line, column) fault.name_lower
    | grammar fault => rfl
  constructor
  · simpa [Function.comp_def, Token.lower] using
      congrArg (List.map fun t => (t.kind, t.position)) htokens
  · simpa [Function.comp_def, hread] using
      congrArg (List.map fun d => (d.cause.name, d.line, d.column)) hdiagnostics

/-- Reserved words in capitals stand in the code, in quoted texts, in a rejected name and in a
comment; one of the quoted texts is too long, and a comma is kept from it. -/
theorem capitals_matter_to_reserved_words_mixed :
    let source : Text := "SI \"Leer\" 'A' 1OR; 'x,AND' # Si".toList
    let other : Text := "si \"lEER\" 'a' 1or; 'X,and' # sI".toList
    lower source = lower other ∧
    ((tokenize .sensitive source).2 = (tokenize .insensitive source).2 ∧
      List.Forall₂ Recased (tokenize .sensitive source).1 (tokenize .insensitive source).1) ∧
    (tokenize .insensitive source).1.map (fun t => (t.kind, t.position)) =
      (tokenize .insensitive other).1.map (fun t => (t.kind, t.position)) ∧
    (tokenize .insensitive source).2.map (fun d => (d.cause.name, d.line, d.column)) =
      (tokenize .insensitive other).2.map (fun d => (d.cause.name, d.line, d.column)) := by
  intro source other
  have hlower : lower source = lower other := by decide
  obtain ⟨hrecased, hsmall⟩ := capitals_matter_to_reserved_words source
  exact ⟨hlower, hrecased, hsmall other hlower⟩

end Imperativo
