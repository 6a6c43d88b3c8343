import Imperativo.Proofs.Source.Order

/-!
# The piece around a character

The pieces of a program lie side by side and leave nothing out, so around each character there is
one piece (`exists_inPlace`, `InPlace.unique`).  What a program yields is what its pieces yield
where they stand (`mem_tokens`, `mem_diagnostics`), so a statement about its tokens is one about a
piece with the text in front of it and behind it.
-/

namespace Imperativo

open Piece

variable {case : KeywordCase} {source : Text}

/-! ## Programs piece by piece -/

/-- Every program is empty, or a piece that can stand at its front and the program behind that. -/
@[elab_as_elim]
lemma cut_induction (case : KeywordCase) {motive : Text → List Piece → Prop} (nil : motive [] [])
    (cons : ∀ {text behind content}, Stands case text behind content →
      motive behind (cut case behind) →
        motive (text ++ behind) (⟨text, content⟩ :: cut case behind)) (source : Text) :
    motive source (cut case source) := by
  induction hn : source.length using Nat.strong_induction_on generalizing source with
  | _ n ih =>
      cases source with
      | nil =>
          rw [cut]
          exact nil
      | cons c rest =>
          obtain ⟨behind, hsplit, h⟩ := fits_first case c rest
          rw [hsplit, h.cut_eq]
          refine cons h (ih behind.length ?_ behind rfl)
          have := List.length_pos_of_ne_nil h.ne_nil
          rw [← hn, hsplit, List.length_append]
          omega

/-- In the program stands the piece, with `front` in front of it and `behind` behind it. -/
inductive InPlace (case : KeywordCase) : Text → Text → Piece → Text → Prop
  | here {text behind : Text} {content : Content} (h : Stands case text behind content) :
      InPlace case (text ++ behind) [] ⟨text, content⟩ behind
  | later {text rest front behind : Text} {content : Content} {piece : Piece}
      (h : Stands case text rest content) (hrest : InPlace case rest front piece behind) :
      InPlace case (text ++ rest) (text ++ front) piece behind

namespace InPlace

variable {front front' behind behind' : Text} {piece piece' : Piece}

lemma source_eq (h : InPlace case source front piece behind) :
    source = front ++ piece.text ++ behind := by
  induction h with
  | here => rfl
  | later h _ ih => rw [ih, List.append_assoc, List.append_assoc, List.append_assoc]

lemma stands (h : InPlace case source front piece behind) :
    Stands case piece.text behind piece.content := by
  induction h with
  | here h => exact h
  | later _ _ ih => exact ih

end InPlace

/-- The front of a program is cut in one way. -/
lemma Piece.Stands.unique {text text' behind behind' : Text} {content content' : Content}
    (h : Stands case text behind content) (h' : Stands case text' behind' content')
    (heq : text ++ behind = text' ++ behind') :
    text = text' ∧ content = content' ∧ behind = behind' := by
  have hfront := h.front_eq
  rw [heq, h'.front_eq] at hfront
  cases hfront
  exact ⟨rfl, rfl, List.append_cancel_left heq⟩

namespace InPlace

variable {front front' behind behind' : Text} {piece piece' : Piece}

/-- **Pieces that overlap are the same.** -/
theorem unique (h : InPlace case source front piece behind)
    (h' : InPlace case source front' piece' behind')
    (hlt : front.length < front'.length + piece'.text.length)
    (hlt' : front'.length < front.length + piece.text.length) :
    front = front' ∧ piece = piece' ∧ behind = behind' := by
  induction h generalizing front' with
  | @here text behind content h =>
      generalize hsource : text ++ behind = source at h'
      cases h' with
      | here h' =>
          obtain ⟨rfl, rfl, rfl⟩ := h.unique h' hsource
          exact ⟨rfl, rfl, rfl⟩
      | later h' _ =>
          obtain ⟨rfl, -, -⟩ := h.unique h' hsource
          simp only [List.length_nil, List.length_append] at hlt'
          omega
  | @later text rest front behind content piece h _ ih =>
      generalize hsource : text ++ rest = source at h'
      cases h' with
      | here h' =>
          obtain ⟨rfl, -, -⟩ := h.unique h' hsource
          simp only [List.length_nil, List.length_append] at hlt
          omega
      | later h' hrest' =>
          obtain ⟨rfl, -, rfl⟩ := h.unique h' hsource
          simp only [List.length_append] at hlt hlt'
          obtain ⟨rfl, rfl, rfl⟩ := ih hrest' (by omega) (by omega)
          exact ⟨rfl, rfl, rfl⟩

end InPlace

/-- The character stands in the second text or in the first one. -/
lemma append_eq_append_cons {text rest front behind : Text} {c : Char}
    (h : text ++ rest = front ++ c :: behind) :
    (∃ more, front = text ++ more ∧ rest = more ++ c :: behind) ∨
      ∃ more, text = front ++ c :: more ∧ behind = more ++ rest := by
  rcases List.append_eq_append_iff.mp h with ⟨more, hfront, hrest⟩ | ⟨more, htext, hrest⟩
  · exact .inl ⟨more, hfront, hrest⟩
  · cases more with
    | nil => exact .inl ⟨[], by simpa using htext.symm, by simpa using hrest.symm⟩
    | cons d more =>
        cases hrest
        exact .inr ⟨more, htext, rfl⟩

/-- **Around each character there is a piece.** -/
theorem exists_inPlace (case : KeywordCase) {front behind : Text} {c : Char}
    (h : source = front ++ c :: behind) : ∃ f piece g i j, InPlace case source f piece g ∧
      piece.text = i ++ c :: j ∧ front = f ++ i ∧ behind = j ++ g := by
  induction source using cut_induction case generalizing front with
  | nil => simp at h
  | @cons text rest content hstands ih =>
      rcases append_eq_append_cons h with ⟨front, rfl, hrest⟩ | ⟨j, htext, rfl⟩
      · obtain ⟨f, piece, g, i, j, hpiece, htext, rfl, hbehind⟩ := ih hrest
        exact ⟨text ++ f, piece, g, i, j, .later hstands hpiece, htext,
          (List.append_assoc _ _ _).symm, hbehind⟩
      · exact ⟨[], _, rest, front, j, .here hstands, htext, rfl, rfl⟩

/-! ## What a program yields -/

lemma mem_place {p : Position} {x : PlacedPiece} : x ∈ place p (cut case source) ↔
    ∃ front behind, InPlace case source front x.piece behind ∧ x.position = p.advance front := by
  constructor
  · intro h
    induction source using cut_induction case generalizing p with
    | nil => cases h
    | cons hstands ih =>
        rcases List.mem_cons.mp h with rfl | h
        · exact ⟨[], _, .here hstands, rfl⟩
        · obtain ⟨front, behind, hpiece, hx⟩ := ih h
          exact ⟨_, behind, .later hstands hpiece, by rw [hx, Position.advance_append]⟩
  · rintro ⟨front, behind, hpiece, hx⟩
    obtain ⟨q, piece⟩ := x
    simp only at hpiece hx
    subst hx
    induction hpiece generalizing p with
    | here hstands =>
        rw [hstands.cut_eq]
        exact List.mem_cons_self
    | later hstands _ ih =>
        rw [hstands.cut_eq, Position.advance_append]
        exact List.mem_cons_of_mem _ ih

/-- **Tokens are yielded by the pieces of a program, where they stand.** -/
theorem mem_tokens {t : Token} : t ∈ (tokenize case source).1 ↔ ∃ front piece behind,
    InPlace case source front piece behind ∧
      PlacedPiece.token? ⟨Position.start.advance front, piece⟩ = some t := by
  change t ∈ tokensOf (place _ _) ↔ _
  simp only [tokensOf, List.mem_filterMap, mem_place]
  constructor
  · rintro ⟨⟨_, piece⟩, ⟨front, behind, h, rfl⟩, ht⟩
    exact ⟨front, piece, behind, h, ht⟩
  · rintro ⟨front, piece, behind, h, ht⟩
    exact ⟨⟨_, piece⟩, ⟨front, behind, h, rfl⟩, ht⟩

/-- **Diagnostics are yielded by the pieces of a program, where they stand.** -/
theorem mem_diagnostics {d : Diagnostic} : d ∈ (tokenize case source).2 ↔ ∃ front piece behind,
    InPlace case source front piece behind ∧
      PlacedPiece.diagnostic? ⟨Position.start.advance front, piece⟩ = some d := by
  change d ∈ diagnosticsOf (place _ _) ↔ _
  simp only [diagnosticsOf, List.mem_filterMap, mem_place]
  constructor
  · rintro ⟨⟨_, piece⟩, ⟨front, behind, h, rfl⟩, hd⟩
    exact ⟨front, piece, behind, h, hd⟩
  · rintro ⟨front, piece, behind, h, hd⟩
    exact ⟨⟨_, piece⟩, ⟨front, behind, h, rfl⟩, hd⟩

/-! ## Characters that only quotes and comments can hide -/

namespace Piece

/-- A character that has no part in words, numbers and operators and is no quote.  Separators and
newlines are such characters. -/
structure Loose (c : Char) : Prop where
  word : Text.isWordChar c = false
  number : isNumberChar c = false
  operator : isOperatorChar c = false
  quote : c ≠ '\''
  doubleQuote : c ≠ '"'

namespace Loose

variable {c : Char}

lemma newline : Loose '\n' := ⟨by decide, by decide, by decide, by decide, by decide⟩

lemma separator {s : Sign} (h : separator? c = some s) : Loose c := by
  unfold separator? at h
  split at h
  · exact ⟨by decide, by decide, by decide, by decide, by decide⟩
  · exact ⟨by decide, by decide, by decide, by decide, by decide⟩
  · cases h

/-- A loose character is in no run of a class that leaves it out. -/
lemma not_mem {p : Char → Bool} {run : Text} (hp : p c = false) (h : ∀ d ∈ run, p d = true) :
    c ∉ run := by
  intro hc
  rw [h c hc] at hp
  cases hp

lemma wordStart (h : Loose c) : Text.isWordStart c = false := by
  have hword := h.word
  rw [Text.isWordChar, Bool.or_eq_false_iff] at hword
  exact hword.1

lemma digit (h : Loose c) : c.isDigit = false := by
  have hnumber := h.number
  rw [isNumberChar, Bool.or_eq_false_iff] at hnumber
  exact hnumber.1

lemma point (h : Loose c) : c ≠ '.' := by
  have hnumber := h.number
  rw [isNumberChar, Bool.or_eq_false_iff] at hnumber
  simpa using hnumber.2

lemma not_mem_cons {p : Char → Bool} {d : Char} {more : Text} (hne : c ≠ d) (hp : p c = false)
    (h : ∀ d ∈ more, p d = true) : c ∉ d :: more :=
  List.not_mem_cons_of_ne_of_not_mem hne (not_mem hp h)

lemma ne {p : Char → Bool} {d : Char} (hp : p c = false) (h : p d = true) : c ≠ d := by
  rintro rfl
  rw [h] at hp
  cases hp

end Loose

/-- The lexemes that can have `c` in them when it is loose: strings, character literals and `c` as a
sign. -/
inductive Holds (c : Char) : Text → Kind → Option Value → Prop
  | string {inside : Text} (h : c ∈ inside) (hc : c ≠ '\n') :
      Holds c ('"' :: inside ++ ['"']) .string (some (.text inside))
  | character (hc : c ≠ '\n') : Holds c ['\'', c, '\''] .character (some (.character c))
  | sign {s : Sign} (hs : s.spelling.toList = [c]) : Holds c [c] (.sign s) none

lemma Lexeme.holds {text behind : Text} {kind : Kind} {value : Option Value}
    (h : Lexeme case text behind kind value) {c : Char} (hc : Loose c) (hmem : c ∈ text) :
    Holds c text kind value := by
  cases h with
  | reserved hd h =>
      exact absurd hmem (Loose.not_mem_cons (Loose.ne hc.wordStart hd) hc.word h.all)
  | name hd h =>
      exact absurd hmem (Loose.not_mem_cons (Loose.ne hc.wordStart hd) hc.word h.all)
  | integer hd h => exact absurd hmem (Loose.not_mem_cons (Loose.ne hc.digit hd) hc.digit h.all)
  | float hwhole hfraction =>
      rcases List.mem_append.mp hmem with hmem | hmem
      · exact absurd hmem (Loose.not_mem hc.digit hwhole.2)
      · exact absurd hmem (Loose.not_mem_cons hc.point hc.digit hfraction.2)
  | @character d _ hd =>
      obtain rfl : c = d := by simpa [hc.quote] using hmem
      exact .character hd.2
  | @string inside _ h =>
      have hmem : c ∈ inside := by simpa [hc.doubleQuote] using hmem
      exact .string hmem (h c hmem).2
  | sign s =>
      obtain ⟨d, hd⟩ : ∃ d, s.spelling.toList = [d] := by cases s <;> exact ⟨_, rfl⟩
      rw [hd] at hmem ⊢
      obtain rfl := List.mem_singleton.mp hmem
      exact .sign hd
  | operator h => exact absurd hmem (Loose.not_mem hc.operator h.all)

/-- A rejected text that has a loose character in it is searched for separators, unless it is that
character alone. -/
lemma Rejected.loose {fault : LexicalFault} {after : Text} (h : Rejected fault after) {c : Char}
    (hc : Loose c) (hmem : c ∈ fault.payload) : salvages fault = true ∧ c ≠ '\n' ∨ Stray c := by
  cases h with
  | tooLarge hd h =>
      exact absurd hmem (Loose.not_mem_cons (Loose.ne hc.digit hd) hc.digit h.all)
  | fraction hwhole h =>
      rcases List.mem_append.mp hmem with hmem | hmem
      · exact absurd hmem (Loose.not_mem hc.digit hwhole.2)
      · exact absurd hmem (Loose.not_mem_cons hc.point hc.number h.all)
  | point hd h =>
      refine absurd hmem (List.not_mem_cons_of_ne_of_not_mem hc.point ?_)
      exact Loose.not_mem_cons (Loose.ne hc.digit hd) hc.number h.all
  | lonePoint => exact absurd (List.mem_singleton.mp hmem) hc.point
  | name hdigits hd h =>
      rcases List.mem_append.mp hmem with hmem | hmem
      · exact absurd hmem (Loose.not_mem hc.digit hdigits.2)
      · exact absurd hmem (Loose.not_mem_cons (Loose.ne hc.wordStart hd) hc.word h.all)
  | @unterminated inside _ h =>
      have hmem : c ∈ inside := (List.mem_cons.mp hmem).resolve_left hc.quote
      exact .inl ⟨rfl, (isCharacterInside_iff.mp (h.all c hmem)).2⟩
  | empty => simp [LexicalFault.payload, hc.quote] at hmem
  | @tooLong inside _ h =>
      have hmem : c ∈ inside := by simpa [LexicalFault.payload, hc.quote] using hmem
      exact .inl ⟨rfl, (h c hmem).2⟩
  | openQuote => exact absurd (List.mem_singleton.mp hmem) hc.doubleQuote
  | operator h => exact absurd hmem (Loose.not_mem hc.operator h.all)
  | loneOperator h => exact absurd hmem (Loose.not_mem hc.operator h.all)
  | stray h =>
      obtain rfl := List.mem_singleton.mp hmem
      exact .inr h

end Piece

end Imperativo
