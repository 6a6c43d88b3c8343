import Imperativo.Proofs.Source.Places

/-!
# No separator is lost

A comma or semicolon ends a name or a statement wherever it stands, unless it is part of a string, a
character literal or a comment (`Sheltered`).  It is part of one piece only.  If that is a rejected
text, then it is the separator that is kept from it: the first one ends the piece, and the others
are part of the pieces behind it.

* **`separators_kept`** — the tokens of separators are those of the separators that are not
  sheltered, one for each.
-/

namespace Imperativo

open Piece

variable {case : KeywordCase} {source : Text}

/-- The character of the program behind `front` is inside a string, a character literal or a
comment. -/
inductive Sheltered (case : KeywordCase) (source front : Text) : Prop
  | string {before inside behind i : Text}
      (hsource : source = before ++ ('"' :: inside ++ ['"']) ++ behind)
      (h : ⟨.string, some (.text inside), Position.start.advance before⟩ ∈
        (tokenize case source).1)
      (hfront : front = before ++ '"' :: i) (hin : i.length < inside.length)
  | character {before behind : Text} {c : Char}
      (hsource : source = before ++ ['\'', c, '\''] ++ behind)
      (h : ⟨.character, some (.character c), Position.start.advance before⟩ ∈
        (tokenize case source).1)
      (hfront : front = before ++ ['\''])
  | comment {before body behind i : Text} (hsource : source = before ++ '#' :: body ++ behind)
      (h : ⟨Position.start.advance before, ⟨'#' :: body, .blank⟩⟩ ∈ placedPieces case source)
      (hfront : front = before ++ '#' :: i) (hin : i.length < body.length)

/-! ## What a piece makes of a separator in it -/

section Separators

variable {c : Char} {s : Sign}

lemma isBlank_of_separator (h : separator? c = some s) : isBlank c = false := by
  unfold separator? at h
  split at h
  · rfl
  · rfl
  · cases h

lemma spelling_of_separator (h : separator? c = some s) :
    s.spelling.toList = [c] ∧ sign? c = some s ∧ (s = .comma ∨ s = .semicolon) := by
  unfold separator? at h
  split at h <;> cases h
  · exact ⟨rfl, rfl, .inl rfl⟩
  · exact ⟨rfl, rfl, .inr rfl⟩

lemma separator_of_spelling (hs : s = .comma ∨ s = .semicolon) (h : s.spelling.toList = [c]) :
    separator? c = some s := by
  rcases hs with rfl | rfl
  · obtain rfl := (List.cons.inj h).1
    rfl
  · obtain rfl := (List.cons.inj h).1
    rfl

lemma sign_unique {s' : Sign} (hc : separator? c = some s) (hs : s'.spelling.toList = [c]) :
    s' = s := by
  unfold separator? at hc
  split at hc <;> cases hc
  · cases s' <;> cases hs; rfl
  · cases s' <;> cases hs; rfl

/-- A character that is not the first one is behind the first one. -/
lemma cons_eq_append_cons {body i j : Text} {d : Char} (h : d :: body = i ++ c :: j)
    (hne : c ≠ d) : ∃ i', i = d :: i' ∧ body = i' ++ c :: j := by
  cases i with
  | nil =>
      obtain ⟨rfl, -⟩ := List.cons.inj h
      exact absurd rfl hne
  | cons e i =>
      obtain ⟨rfl, hbody⟩ := List.cons.inj h
      exact ⟨i, rfl, hbody⟩

/-- A character that is not the last one is in front of the last one. -/
lemma lt_length_of_concat {inside i j : Text} {d : Char} (h : inside ++ [d] = i ++ c :: j)
    (hne : c ≠ d) : i.length < inside.length := by
  rcases append_eq_append_cons h with ⟨more, rfl, hmore⟩ | ⟨more, rfl, -⟩
  · cases more with
    | nil => cases hmore; exact absurd rfl hne
    | cons e more => simp at hmore
  · rw [List.length_append, List.length_cons]
    omega

/-- **A separator is sheltered, or its piece yields its token.** -/
theorem InPlace.separator {f g i j : Text} {piece : Piece} (h : InPlace case source f piece g)
    (htext : piece.text = i ++ c :: j) (hc : separator? c = some s) :
    Sheltered case source (f ++ i) ∨ PlacedPiece.token? ⟨Position.start.advance f, piece⟩ =
      some ⟨.sign s, none, Position.start.advance (f ++ i)⟩ := by
  have hloose := Loose.separator hc
  have hsource := h.source_eq
  have hmem : c ∈ piece.text := by rw [htext]; simp
  obtain ⟨text, content⟩ := piece
  simp only at htext hsource hmem
  cases h.stands with
  | blank hblank =>
      cases hblank with
      | space hd =>
          obtain rfl := List.mem_singleton.mp hmem
          rw [isBlank_of_separator hc] at hd
          cases hd
      | @comment body _ _ =>
          obtain ⟨i, rfl, hbody⟩ := cons_eq_append_cons htext (by rintro rfl; cases hc)
          exact .inl (.comment hsource (mem_place.mpr ⟨f, g, h, rfl⟩) rfl (by rw [hbody]; simp))
  | lexeme hlexeme =>
      cases hlexeme.holds hloose hmem with
      | @string inside _ _ =>
          obtain ⟨i, rfl, hinside⟩ := cons_eq_append_cons htext hloose.doubleQuote
          exact .inl (.string hsource (mem_tokens.mpr ⟨f, _, g, h, rfl⟩) rfl
            (lt_length_of_concat hinside hloose.doubleQuote))
      | character _ =>
          obtain ⟨i, rfl, hinside⟩ := cons_eq_append_cons htext hloose.quote
          have hlt : i.length < [c].length := lt_length_of_concat hinside hloose.quote
          obtain rfl := List.length_eq_zero_iff.mp (Nat.lt_one_iff.mp hlt)
          exact .inl (.character hsource (mem_tokens.mpr ⟨f, _, g, h, rfl⟩) rfl)
      | @sign s' hs =>
          obtain rfl := sign_unique hc hs
          obtain rfl : i = [] := by
            cases i with
            | nil => rfl
            | cons d i => simp at htext
          exact .inr (by rw [List.append_nil]; rfl)
  | lost hr hnone =>
      exfalso
      rcases hr.loose hloose hmem with ⟨hsalvages, -⟩ | hstray
      · have hfree := hnone hsalvages c (List.mem_append_left _ hmem)
        rw [hc] at hfree
        cases hfree
      · have hsign := hstray.sign
        rw [(spelling_of_separator hc).2.1] at hsign
        cases hsign
  | @kept fault after inside _ d s' hr hs hsplit hf hle hd =>
      rcases append_eq_append_cons htext with ⟨more, rfl, hmore⟩ | ⟨more, rfl, -⟩
      · cases more with
        | cons e more => simp at hmore
        | nil =>
            obtain ⟨rfl, -⟩ := List.cons.inj hmore
            rw [hc] at hd
            cases hd
            refine .inr ?_
            simp [PlacedPiece.token?]
      · have hfree := hf c (by simp)
        rw [hc] at hfree
        cases hfree

end Separators

/-! ## What shelters a character -/

section Shelter

variable {front before text : Text} {kind : Kind} {value : Option Value}

/-- A token that is no sign is all of its piece. -/
lemma inPlace_of_token
    (ht : ⟨kind, value, Position.start.advance before⟩ ∈ (tokenize case source).1)
    (hkind : ∀ s, kind ≠ .sign s) {more : Text} (hsource : source = before ++ more) :
    ∃ text behind, InPlace case source before ⟨text, .lexeme kind value⟩ behind := by
  obtain ⟨f, ⟨text, content⟩, g, hpiece, ht⟩ := mem_tokens.mp ht
  have hsplit := hpiece.source_eq
  rw [hsource, List.append_assoc] at hsplit
  cases content with
  | blank => cases ht
  | lexeme kind' value' =>
      simp only [PlacedPiece.token?, Option.some.injEq, Token.mk.injEq] at ht
      obtain ⟨rfl, rfl, hplace⟩ := ht
      obtain rfl := Position.advance_inj hsplit (congrArg Position.key hplace.symm)
      exact ⟨text, g, hpiece⟩
  | fault fault separator =>
      obtain ⟨s, -, hs⟩ := Option.map_eq_some_iff.mp ht
      exact absurd (congrArg Token.kind hs).symm (hkind s)

/-- A character that is sheltered is in a piece that yields no sign. -/
lemma Sheltered.inPlace (h : Sheltered case source front) : ∃ f piece g,
    InPlace case source f piece g ∧ f.length ≤ front.length ∧
      front.length < f.length + piece.text.length ∧
      ∀ p t s, PlacedPiece.token? ⟨p, piece⟩ = some t → t.kind ≠ .sign s := by
  cases h with
  | @string before inside behind i hsource ht hfront hin =>
      rw [List.append_assoc] at hsource
      obtain ⟨text, g, hpiece⟩ := inPlace_of_token ht nofun hsource
      refine ⟨before, _, g, hpiece, ?_, ?_, fun p t s ht hk => by cases ht; cases hk⟩
      · rw [hfront, List.length_append]
        omega
      · cases hpiece.stands with
        | lexeme hlexeme =>
            cases hlexeme
            simp only [hfront, List.length_append, List.length_cons, List.append_eq]
            omega
  | @character before behind c hsource ht hfront =>
      rw [List.append_assoc] at hsource
      obtain ⟨text, g, hpiece⟩ := inPlace_of_token ht nofun hsource
      refine ⟨before, _, g, hpiece, ?_, ?_, fun p t s ht hk => by cases ht; cases hk⟩
      · rw [hfront, List.length_append]
        omega
      · cases hpiece.stands with
        | lexeme hlexeme =>
            cases hlexeme
            simp [hfront]
  | @comment before body behind i hsource hx hfront hin =>
      obtain ⟨f, g, hpiece, hplace⟩ := mem_place.mp hx
      have hsplit := hpiece.source_eq
      rw [hsource, List.append_assoc, List.append_assoc] at hsplit
      obtain rfl := Position.advance_inj hsplit (congrArg Position.key hplace)
      refine ⟨before, _, g, hpiece, ?_, ?_, fun p t s ht hk => by cases ht⟩
      · rw [hfront, List.length_append]
        omega
      · simp only [hfront, List.length_append, List.length_cons]
        omega

end Shelter

/-! ## Separators and their tokens -/

/-- The token of a separator stands at that separator, which is not sheltered. -/
lemma separator_of_token {t : Token} {s : Sign} (ht : t ∈ (tokenize case source).1)
    (hk : t.kind = .sign s) (hs : s = .comma ∨ s = .semicolon) : ∃ front c behind,
      source = front ++ c :: behind ∧ separator? c = some s ∧
      t = ⟨.sign s, none, Position.start.advance front⟩ ∧ ¬ Sheltered case source front := by
  obtain ⟨f, piece, g, hpiece, ht⟩ := mem_tokens.mp ht
  obtain ⟨inside, text, after, htext, hlt, hlexeme, hplace, -⟩ := hpiece.token ht
  obtain ⟨kind, value, place⟩ := t
  obtain rfl : kind = _ := hk
  obtain rfl : place = _ := hplace
  obtain ⟨c, hc⟩ : ∃ c, s.spelling.toList = [c] := by cases s <;> exact ⟨_, rfl⟩
  have hsign : text = [c] ∧ value = none := by
    cases hlexeme with
    | sign => exact ⟨hc, rfl⟩
    | reserved _ _ hkind => simp [Reserved.kinds] at hkind
    | operator _ hkind => simp [operators] at hkind
  obtain ⟨rfl, rfl⟩ := hsign
  refine ⟨f ++ inside, c, after, ?_, separator_of_spelling hs hc, rfl, fun hsheltered => ?_⟩
  · rw [hpiece.source_eq, List.append_assoc, htext]
    simp
  · obtain ⟨f', piece', g', hpiece', hle, hlt', hnone⟩ := hsheltered.inPlace
    rw [List.length_append] at hle hlt'
    obtain ⟨rfl, rfl, -⟩ := hpiece.unique hpiece' (by omega) (by omega)
    exact hnone _ _ s ht rfl

/-- Where places go up, there is one token at each of them. -/
lemma filter_position {ts : List Token}
    (hts : ts.Pairwise fun t u => t.position.key < u.position.key) {t : Token} (ht : t ∈ ts) :
    ts.filter (fun u => u.position = t.position) = [t] := by
  induction hts with
  | nil => cases ht
  | @cons u ts hlt _ ih =>
      rcases List.mem_cons.mp ht with rfl | ht
      · rw [List.filter_cons_of_pos (by simp), List.filter_eq_nil_iff.mpr fun v hv heq => ?_]
        exact (hlt v hv).ne (congrArg Position.key (of_decide_eq_true heq)).symm
      · rw [List.filter_cons_of_neg, ih ht]
        exact fun heq => (hlt t ht).ne (congrArg Position.key (of_decide_eq_true heq))

/-- **No separator is lost.**  The tokens of commas and semicolons stand at the commas and
semicolons that are not inside a string, a character literal or a comment, and at each of these
there is one token, which is its own. -/
theorem separators_kept (case : KeywordCase) (source : Text) :
    (∀ t ∈ (tokenize case source).1, ∀ s, t.kind = .sign s → s = .comma ∨ s = .semicolon →
      ∃ front c behind, source = front ++ c :: behind ∧ separator? c = some s ∧
        t = ⟨.sign s, none, Position.start.advance front⟩ ∧ ¬ Sheltered case source front) ∧
    ∀ front c behind s, source = front ++ c :: behind → separator? c = some s →
      ¬ Sheltered case source front → (tokenize case source).1.filter
        (fun t => t.position = Position.start.advance front) =
          [⟨.sign s, none, Position.start.advance front⟩] := by
  refine ⟨fun t ht s hk hs => separator_of_token ht hk hs,
    fun front c behind s hsource hc hfree => ?_⟩
  obtain ⟨f, piece, g, i, j, hpiece, htext, rfl, -⟩ := exists_inPlace case hsource
  rcases hpiece.separator htext hc with hsheltered | ht
  · exact absurd hsheltered hfree
  · exact filter_position (tokens_rising case source) (mem_tokens.mpr ⟨f, piece, g, hpiece, ht⟩)

/-- A rejected literal keeps its first separator, and what is behind that is read on its own. -/
example : (tokenize .insensitive "'a,b;c'".toList).1.map Token.kind =
    [.sign .comma, .identifier, .sign .semicolon, .identifier] := by decide +kernel

end Imperativo
