import Imperativo.Source.Piece
import Mathlib.Data.List.TakeWhile
import Mathlib.Tactic

/-!
# What a piece of a program can be

The cutting of a program is specified here without reference to how it is computed.  A stretch of
text, together with the text behind it, may be blank (`Blank`), a lexeme of some kind and value
(`Lexeme`), or rejected as some fault (`Rejected`).  A fault whose span can hide the end of a
statement is searched for a separator, and its piece may end before or right behind the rejected
span; `Stands` puts the sorts together.

* **`fits_first`** — the piece at the front of a program is one that can stand there.
* **`Stands.front_eq`** — nothing else can stand there.

So the relation determines the cutting, and every property of it can be read off the relation.
-/

namespace Imperativo

/-- All of `run` satisfies `p`, and the text behind it does not go on like that. -/
structure Whole (p : Char → Bool) (run behind : Text) : Prop where
  all : ∀ c ∈ run, p c = true
  ends : ∀ c ∈ behind.head?, p c = false

namespace Whole

variable {p : Char → Bool} {run behind : Text}

lemma takeWhile (p : Char → Bool) (text : Text) :
    Whole p (text.takeWhile p) (text.dropWhile p) where
  all _ hc := List.mem_takeWhile_imp hc
  ends c hc := by
    rcases hd : text.dropWhile p with _ | ⟨d, rest⟩
    · rw [hd] at hc
      cases hc
    · have hne : text.dropWhile p ≠ [] := by simp [hd]
      have hp := List.head_dropWhile_not p hne
      simp only [hd, List.head_cons] at hp
      rw [hd] at hc
      cases hc
      exact hp

lemma takeWhile_eq (h : Whole p run behind) : (run ++ behind).takeWhile p = run := by
  rw [List.takeWhile_append_of_pos h.all]
  cases behind with
  | nil => simp
  | cons c rest => rw [List.takeWhile_cons_of_neg (by simp [h.ends c rfl]), List.append_nil]

lemma dropWhile_eq (h : Whole p run behind) : (run ++ behind).dropWhile p = behind := by
  rw [List.dropWhile_append_of_pos h.all]
  cases behind with
  | nil => rfl
  | cons c rest => rw [List.dropWhile_cons_of_neg (by simp [h.ends c rfl])]

lemma cons {c : Char} (hc : p c = true) (h : Whole p run behind) : Whole p (c :: run) behind where
  all := List.forall_mem_cons.mpr ⟨hc, h.all⟩
  ends := h.ends

end Whole

namespace Piece

/-! ## Blanks and lexemes -/

/-- A stretch without interest, when `behind` follows. -/
inductive Blank : Text → Text → Prop
  | space {c : Char} {behind : Text} (h : isBlank c = true) : Blank [c] behind
  | comment {body behind : Text} (h : Whole (· != '\n') body behind) : Blank ('#' :: body) behind

/-- A run of digits that is not empty. -/
def Digits (text : Text) : Prop := text ≠ [] ∧ ∀ c ∈ text, c.isDigit = true

/-- A character that goes on with a number that is written with digits alone: a point would make it
a fraction, a letter would make it a name. -/
def continuesInteger (c : Char) : Bool := c == '.' || Text.isWordStart c

/-- A lexeme, when `behind` follows, with its kind and its value. -/
inductive Lexeme (case : KeywordCase) : Text → Text → Kind → Option Value → Prop
  | reserved {c : Char} {more behind : Text} {kind : Kind} (hc : Text.isWordStart c = true)
      (h : Whole Text.isWordChar more behind) (hkind : kind ∈ Reserved.kinds)
      (hspelling : kind.spelling? = some (Reserved.fold case (c :: more))) :
      Lexeme case (c :: more) behind kind none
  | name {c : Char} {more behind : Text} (hc : Text.isWordStart c = true)
      (h : Whole Text.isWordChar more behind)
      (hfree : ∀ kind ∈ Reserved.kinds, kind.spelling? ≠ some (Reserved.fold case (c :: more))) :
      Lexeme case (c :: more) behind .identifier (some (.text (c :: more)))
  | integer {c : Char} {more behind : Text} (hc : c.isDigit = true)
      (h : Whole Char.isDigit more behind) (hend : ∀ d ∈ behind.head?, continuesInteger d = false)
      (hn : Text.ofDigits (c :: more) ≤ maxInteger) :
      Lexeme case (c :: more) behind .integer (some (.integer (Text.ofDigits (c :: more))))
  | float {whole fraction behind : Text} (hwhole : Digits whole) (hfraction : Digits fraction)
      (hend : ∀ d ∈ behind.head?, isNumberChar d = false) :
      Lexeme case (whole ++ '.' :: fraction) behind .float
        (some (.float (Binary64.ofDecimal whole fraction)))
  | character {c : Char} {behind : Text} (hc : c ≠ '\'' ∧ c ≠ '\n') :
      Lexeme case ['\'', c, '\''] behind .character (some (.character c))
  | string {inside behind : Text} (h : ∀ c ∈ inside, c ≠ '"' ∧ c ≠ '\n') :
      Lexeme case ('"' :: inside ++ ['"']) behind .string (some (.text inside))
  | sign {behind : Text} (s : Sign) : Lexeme case s.spelling.toList behind (.sign s) none
  | operator {c : Char} {more behind : Text} {kind : Kind}
      (h : Whole isOperatorChar (c :: more) behind) (hkind : kind ∈ operators)
      (hspelling : kind.spelling? = some (c :: more)) : Lexeme case (c :: more) behind kind none

/-! ## Faults -/

/-- A character that begins neither a blank nor a lexeme, nor a longer fault. -/
structure Stray (c : Char) : Prop where
  blank : isBlank c = false
  comment : c ≠ '#'
  word : Text.isWordStart c = false
  digit : c.isDigit = false
  point : c ≠ '.'
  quote : c ≠ '\''
  doubleQuote : c ≠ '"'
  sign : sign? c = none
  operator : isOperatorChar c = false

/-- A fault whose rejected text stands in front of `after`. -/
inductive Rejected : LexicalFault → Text → Prop
  | tooLarge {c : Char} {more after : Text} (hc : c.isDigit = true)
      (h : Whole Char.isDigit more after) (hend : ∀ d ∈ after.head?, continuesInteger d = false)
      (hn : maxInteger < Text.ofDigits (c :: more)) : Rejected (.malformedNumber (c :: more)) after
  | fraction {whole run after : Text} (hwhole : Digits whole) (h : Whole isNumberChar run after)
      (hrun : ¬ Digits run) : Rejected (.malformedNumber (whole ++ '.' :: run)) after
  | point {d : Char} {more after : Text} (hd : d.isDigit = true)
      (h : Whole isNumberChar more after) : Rejected (.malformedNumber ('.' :: d :: more)) after
  | lonePoint {after : Text} (h : ∀ d ∈ after.head?, d.isDigit = false) :
      Rejected (.illegalCharacter '.') after
  | name {digits : Text} {c : Char} {more after : Text} (hdigits : Digits digits)
      (hc : Text.isWordStart c = true) (h : Whole Text.isWordChar more after) :
      Rejected (.invalidIdentifier (digits ++ c :: more)) after
  | unterminated {inside after : Text} (h : Whole isCharacterInside inside after)
      (hend : ∀ c ∈ after.head?, c ≠ '\'') :
      Rejected (.invalidCharacter ('\'' :: inside) .unterminated) after
  | empty {after : Text} : Rejected (.invalidCharacter ['\'', '\''] .empty) after
  | tooLong {inside after : Text} (h : ∀ c ∈ inside, c ≠ '\'' ∧ c ≠ '\n')
      (hlength : 2 ≤ inside.length) :
      Rejected (.invalidCharacter ('\'' :: inside ++ ['\'']) .tooLong) after
  | openQuote {inside after : Text} (h : Whole isStringInside inside after)
      (hend : ∀ c ∈ after.head?, c ≠ '"') : Rejected (.illegalCharacter '"') (inside ++ after)
  | operator {c d : Char} {more after : Text} (h : Whole isOperatorChar (c :: d :: more) after)
      (hfree : ∀ kind ∈ operators, kind.spelling? ≠ some (c :: d :: more)) :
      Rejected (.invalidOperator (c :: d :: more)) after
  | loneOperator {c : Char} {after : Text} (h : Whole isOperatorChar [c] after)
      (hfree : ∀ kind ∈ operators, kind.spelling? ≠ some [c]) : Rejected (.illegalCharacter c) after
  | stray {c : Char} {after : Text} (hc : Stray c) : Rejected (.illegalCharacter c) after

/-- Whether the rejected span is searched for a separator. -/
def salvages : LexicalFault → Bool
  | .invalidIdentifier _ | .invalidCharacter _ _ => true
  | _ => false

/-! ## Pieces -/

/-- What a stretch of text can be when `behind` follows.  A fault from which nothing is kept is all
of the rejected text.  One from which a separator is kept ends with that separator, which is the
first in the rejected text, or the character right behind it. -/
inductive Stands (case : KeywordCase) : Text → Text → Content → Prop
  | blank {text behind : Text} (h : Blank text behind) : Stands case text behind .blank
  | lexeme {text behind : Text} {kind : Kind} {value : Option Value}
      (h : Lexeme case text behind kind value) : Stands case text behind (.lexeme kind value)
  | lost {fault : LexicalFault} {behind : Text} (h : Rejected fault behind)
      (hnone : salvages fault = true →
        ∀ c ∈ fault.payload ++ behind.take 1, separator? c = none) :
      Stands case fault.payload behind (.fault fault none)
  | kept {fault : LexicalFault} {after front behind : Text} {c : Char} {s : Sign}
      (h : Rejected fault after) (hsalvages : salvages fault = true)
      (hsplit : fault.payload ++ after = front ++ c :: behind)
      (hfront : ∀ d ∈ front, separator? d = none) (hle : front.length ≤ fault.payload.length)
      (hc : separator? c = some s) : Stands case (front ++ [c]) behind (.fault fault (some s))

/-- The piece at the front of a program, if the program is not empty. -/
def front? (case : KeywordCase) : Text → Option Piece
  | [] => none
  | c :: rest => some (first case c rest)

/-- The piece can stand at the front of the program. -/
def Fits (case : KeywordCase) (source : Text) (piece : Piece) : Prop :=
  ∃ behind, source = piece.text ++ behind ∧ Stands case piece.text behind piece.content

/-! ## Classes of characters

Each sort of piece is chosen by its first character, and no character is in two of the classes by
which that is done.
-/

section Classes

variable {case : KeywordCase} {c : Char} {rest : Text}

lemma isWordStart_of_isDigit (h : c.isDigit = true) : Text.isWordStart c = false := by
  have hc : c ≠ '_' := by rintro rfl; cases h
  change (decide ('0'.val ≤ c.val) && decide (c.val ≤ '9'.val)) = true at h
  change (decide ('A'.val ≤ c.val ∧ c.val ≤ 'Z'.val) ||
    decide ('a'.val ≤ c.val) && decide (c.val ≤ 'z'.val) || c == '_') = false
  simp only [UInt32.le_iff_toNat_le, Bool.and_eq_true, decide_eq_true_eq, Bool.or_eq_false_iff,
    Bool.and_eq_false_iff, decide_eq_false_iff_not, beq_eq_false_iff_ne] at *
  refine ⟨⟨?_, ?_⟩, hc⟩
  · simp at *; omega
  · simp at *; omega

lemma isBlank_iff : isBlank c = true ↔ c = ' ' ∨ c = '\t' ∨ c = '\r' ∨ c = '\n' := by
  simp only [isBlank, Bool.or_eq_true, beq_iff_eq, or_assoc]

lemma isOperatorChar_iff : isOperatorChar c = true ↔ c = '+' ∨ c = '-' ∨ c = '*' ∨ c = '/' ∨
    c = '=' ∨ c = '<' ∨ c = '>' ∨ c = '!' ∨ c = '&' ∨ c = '|' := by
  simp only [isOperatorChar, Bool.or_eq_true, beq_iff_eq, or_assoc]

lemma sign?_eq_some {s : Sign} (h : sign? c = some s) : s.spelling.toList = [c] := by
  simpa using List.find?_some h

lemma first_blank (h : isBlank c = true) : first case c rest = ⟨[c], .blank⟩ := by
  rw [first, if_pos h]

lemma first_comment : first case '#' rest = comment rest := rfl

lemma first_word (h : Text.isWordStart c = true) : first case c rest = word case c rest := by
  have hblank : isBlank c ≠ true := by
    rw [Ne, isBlank_iff]
    rintro (rfl | rfl | rfl | rfl) <;> cases h
  have hc : c ≠ '#' := by rintro rfl; cases h
  rw [first, if_neg hblank, if_neg hc, if_pos h]

lemma first_number (h : c.isDigit = true) : first case c rest = number c rest := by
  have hblank : isBlank c ≠ true := by
    rw [Ne, isBlank_iff]
    rintro (rfl | rfl | rfl | rfl) <;> cases h
  have hc : c ≠ '#' := by rintro rfl; cases h
  rw [first, if_neg hblank, if_neg hc, if_neg (by simp [isWordStart_of_isDigit h]), if_pos h]

lemma first_character : first case '\'' rest = character rest := rfl

lemma first_string : first case '"' rest = string rest := rfl

lemma first_sign {s : Sign} (h : s.spelling.toList = [c]) :
    first case c rest = ⟨[c], .lexeme (.sign s) none⟩ := by
  cases s <;> (obtain rfl := (List.cons.inj h).1; rfl)

lemma first_operator (h : isOperatorChar c = true) : first case c rest = operator c rest := by
  rw [isOperatorChar_iff] at h
  rcases h with rfl | rfl | rfl | rfl | rfl | rfl | rfl | rfl | rfl | rfl <;> rfl

lemma first_stray (h : Stray c) : first case c rest = illegal c := by
  rw [first, if_neg (by simp [h.blank]), if_neg h.comment, if_neg (by simp [h.word]),
    if_neg (by simp [h.digit]), if_neg h.point, if_neg h.quote, if_neg h.doubleQuote, h.sign]
  simp [h.operator]

end Classes

end Piece

end Imperativo
