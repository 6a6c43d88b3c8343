import Imperativo.Proofs.Source.Pieces
import Imperativo.Proofs.Tree.Move

/-!
# Layout does not matter to the tokens

Layout is what stands between the tokens of a program: blanks, and comments with the newline that
ends them.  A program is laid out anew by putting layout in front of tokens and behind them
(`Relaid`).  A lexeme ends where its text cannot go on, and no lexeme goes on with a blank or with a
comment, so each keeps its text; and layout by itself yields nothing.

* **`tokenize_relaid`** — a program without lexical faults that is laid out anew has none either,
  and has the same tokens, apart from their places.
-/

namespace Imperativo

open Piece

variable {case : KeywordCase}

/-! ## Layout -/

/-- Spaces, tabs, carriage returns, newlines, and comments that are ended by a newline. -/
inductive Layout : Text → Prop
  | nil : Layout []
  | blank {c : Char} {rest : Text} (hc : c = ' ' ∨ c = '\t' ∨ c = '\r' ∨ c = '\n')
      (h : Layout rest) : Layout (c :: rest)
  | comment {body rest : Text} (hbody : '\n' ∉ body) (h : Layout rest) :
      Layout ('#' :: body ++ '\n' :: rest)

/-- The text has the pieces one behind another, with any layout in front of lexemes and behind
them. -/
inductive Relaid : List Piece → Text → Prop
  | nil : Relaid [] []
  | keep {piece : Piece} {pieces : List Piece} {text : Text} (h : Relaid pieces text) :
      Relaid (piece :: pieces) (piece.text ++ text)
  | lay {piece : Piece} {pieces : List Piece} {before behind text : Text} {kind : Kind}
      {value : Option Value} (hpiece : piece.content = .lexeme kind value) (hbefore : Layout before)
      (hbehind : Layout behind) (h : Relaid pieces text) :
      Relaid (piece :: pieces) (before ++ (piece.text ++ (behind ++ text)))

/-! ## What a program has besides blanks -/

/-- What the pieces of a program are, without the blank ones. -/
def contents (case : KeywordCase) (source : Text) : List Content :=
  ((cut case source).map Piece.content).filter (· ≠ .blank)

lemma contents_blank {text behind : Text} (h : Blank text behind) :
    contents case (text ++ behind) = contents case behind := by
  rw [contents, (Stands.blank h).cut_eq]
  rfl

lemma contents_lexeme {text behind : Text} {kind : Kind} {value : Option Value}
    (h : Piece.Lexeme case text behind kind value) :
    contents case (text ++ behind) = .lexeme kind value :: contents case behind := by
  rw [contents, (Stands.lexeme h).cut_eq]
  rfl

lemma Layout.contents_eq {layout : Text} (h : Layout layout) (text : Text) :
    contents case (layout ++ text) = contents case text := by
  induction h with
  | nil => rfl
  | blank hc _ ih =>
      rw [← ih]
      exact contents_blank (.space (isBlank_iff.mpr hc))
  | @comment body rest hbody _ ih =>
      have hwhole : Whole (· != '\n') body ('\n' :: (rest ++ text)) :=
        ⟨fun c hc => bne_iff_ne.mpr fun heq => hbody (heq ▸ hc), fun c hc => by cases hc; rfl⟩
      rw [← ih, List.append_assoc]
      exact (contents_blank (.comment hwhole)).trans (contents_blank (.space rfl))

/-! ## What may follow a piece -/

/-- The characters that layout starts with. -/
def layoutStarts : List Char := [' ', '\t', '\r', '\n', '#']

/-- The second text starts like the first one or with layout. -/
def StartsLike (text text' : Text) : Prop :=
  ∀ c ∈ text'.head?, c ∈ text.head? ∨ c ∈ layoutStarts

lemma StartsLike.refl (text : Text) : StartsLike text text := fun _ hc => .inl hc

lemma Layout.startsLike {layout text text' : Text} (h : Layout layout)
    (htext : StartsLike text text') : StartsLike text (layout ++ text') := by
  cases h with
  | nil => exact htext
  | blank hc _ =>
      rintro _ ⟨⟩
      rcases hc with rfl | rfl | rfl | rfl <;> exact .inr (by decide)
  | comment _ _ =>
      rintro _ ⟨⟩
      exact .inr (by decide)

section StartsLike

variable {text text' run behind behind' : Text} {p : Char → Bool}

/-- What could not go on with the first text cannot go on with the second. -/
lemma StartsLike.ends (h : StartsLike text text') (hp : layoutStarts.all fun c => !p c)
    (hends : ∀ c ∈ text.head?, p c = false) : ∀ c ∈ text'.head?, p c = false := by
  intro c hc
  rcases h c hc with hc | hc
  · exact hends c hc
  · simpa using List.all_eq_true.mp hp c hc

lemma StartsLike.whole (h : StartsLike behind behind') (hp : layoutStarts.all fun c => !p c)
    (hwhole : Whole p run behind) : Whole p run behind' :=
  ⟨hwhole.all, h.ends hp hwhole.ends⟩

end StartsLike

/-- Layout ends every lexeme. -/
lemma Piece.Lexeme.relay {text behind behind' : Text} {kind : Kind} {value : Option Value}
    (h : Piece.Lexeme case text behind kind value) (hlike : StartsLike behind behind') :
    Piece.Lexeme case text behind' kind value := by
  cases h with
  | reserved hc h hkind hspelling => exact .reserved hc (hlike.whole (by decide) h) hkind hspelling
  | name hc h hfree => exact .name hc (hlike.whole (by decide) h) hfree
  | integer hc h hend hn =>
      exact .integer hc (hlike.whole (by decide) h) (hlike.ends (by decide) hend) hn
  | float hwhole hfraction hend => exact .float hwhole hfraction (hlike.ends (by decide) hend)
  | character hc => exact .character hc
  | string h => exact .string h
  | sign s => exact .sign s
  | operator h hkind hspelling => exact .operator (hlike.whole (by decide) h) hkind hspelling

/-! ## Programs that are laid out anew -/

/-- The program that is laid out anew starts like the other one or with layout, a comment in front
of the other one is as well one in front of it, and both have the same besides blanks. -/
structure SameButLayout (case : KeywordCase) (source source' : Text) : Prop where
  like : StartsLike source source'
  ends : (∀ c ∈ source.head?, c = '\n') → ∀ c ∈ source'.head?, c = '\n'
  contents_eq : contents case source' = contents case source

/-- A piece that is kept stands in front of what the text behind it has become. -/
lemma SameButLayout.keep {text behind behind' : Text} {content : Content}
    (h : SameButLayout case behind behind') (hstands : Stands case text behind content)
    (hclean : ∀ fault s, content ≠ .fault fault s) :
    SameButLayout case (text ++ behind) (text ++ behind') := by
  have hhead : (text ++ behind').head? = (text ++ behind).head? := by
    rw [List.head?_append_of_ne_nil _ hstands.ne_nil, List.head?_append_of_ne_nil _ hstands.ne_nil]
  refine ⟨fun c hc => .inl (hhead ▸ hc), fun hends c hc => hends c (hhead ▸ hc), ?_⟩
  cases hstands with
  | blank hblank =>
      rw [contents_blank hblank, ← h.contents_eq]
      cases hblank with
      | space hc => exact contents_blank (.space hc)
      | comment hwhole =>
          -- only a newline ends a comment, and no layout has come in front of that
          refine contents_blank (.comment ⟨hwhole.all, fun c hc => ?_⟩)
          rw [h.ends (fun d hd => by simpa using hwhole.ends d hd) c hc]
          rfl
  | lexeme hlexeme =>
      rw [contents_lexeme hlexeme, contents_lexeme (hlexeme.relay h.like), h.contents_eq]
  | lost => exact absurd rfl (hclean _ _)
  | kept => exact absurd rfl (hclean _ _)

/-- A lexeme has layout put around it. -/
lemma SameButLayout.lay {text behind behind' before after : Text} {kind : Kind}
    {value : Option Value} (h : SameButLayout case behind behind')
    (hlexeme : Piece.Lexeme case text behind kind value) (hbefore : Layout before)
    (hafter : Layout after) :
    SameButLayout case (text ++ behind) (before ++ (text ++ (after ++ behind'))) where
  like := hbefore.startsLike fun c hc => .inl (by
    rwa [List.head?_append_of_ne_nil _ hlexeme.ne_nil] at hc ⊢)
  ends hends := by
    obtain ⟨c, more, rfl⟩ := List.exists_cons_of_ne_nil hlexeme.ne_nil
    -- a lexeme does not start with a newline
    obtain rfl := hends c rfl
    have hblank : Stands case ['\n'] (more ++ behind) .blank := .blank (.space rfl)
    obtain ⟨-, hcontent, -⟩ := (Stands.lexeme hlexeme).unique hblank rfl
    cases hcontent
  contents_eq := by
    rw [hbefore.contents_eq, contents_lexeme (hlexeme.relay (hafter.startsLike h.like)),
      hafter.contents_eq, h.contents_eq, contents_lexeme hlexeme]

/-- A program without faults that is laid out anew has the same besides blanks. -/
lemma same_of_relaid {source source' : Text} (h : Relaid (cut case source) source')
    (hclean : ∀ piece ∈ cut case source, ∀ fault s, piece.content ≠ .fault fault s) :
    SameButLayout case source source' := by
  induction source using cut_induction case generalizing source' with
  | nil =>
      cases h
      exact ⟨.refl [], nofun, rfl⟩
  | cons hstands ih =>
      obtain ⟨hpiece, hrest⟩ := List.forall_mem_cons.mp hclean
      cases h with
      | keep h => exact (ih h hrest).keep hstands hpiece
      | lay hlexeme hbefore hbehind h =>
          cases hstands with
          | lexeme hstands => exact (ih h hrest).lay hstands hbefore hbehind
          | _ => cases hlexeme

/-! ## Tokens -/

/-- The token that a piece of this content yields, with its place forgotten. -/
def Content.token? : Content → Option Token
  | .blank => none
  | .lexeme kind value => some ⟨kind, value, Position.start⟩
  | .fault _ separator => separator.map fun s => ⟨.sign s, none, Position.start⟩

lemma tokensOf_bare (p : Position) (pieces : List Piece) :
    (tokensOf (place p pieces)).map Token.bare =
      (pieces.map Piece.content).filterMap Content.token? := by
  induction pieces generalizing p with
  | nil => rfl
  | cons piece pieces ih =>
      obtain ⟨text, content⟩ := piece
      have ih := ih (p.advance text)
      rw [tokensOf] at ih ⊢
      cases content with
      | blank => exact ih
      | lexeme kind value => exact congrArg (_ :: ·) ih
      | fault fault separator =>
          cases separator with
          | none => exact ih
          | some s => exact congrArg (_ :: ·) ih

lemma diagnosticsOf_eq_nil {p : Position} {pieces : List Piece} :
    diagnosticsOf (place p pieces) = [] ↔
      ∀ piece ∈ pieces, ∀ fault s, piece.content ≠ .fault fault s := by
  induction pieces generalizing p with
  | nil => exact ⟨fun _ => nofun, fun _ => rfl⟩
  | cons piece pieces ih =>
      rw [List.forall_mem_cons, ← ih (p := p.advance piece.text)]
      obtain ⟨text, content⟩ := piece
      cases content with
      | blank => exact ⟨fun h => ⟨nofun, h⟩, fun h => h.2⟩
      | lexeme kind value => exact ⟨fun h => ⟨nofun, h⟩, fun h => h.2⟩
      | fault fault separator => exact ⟨nofun, fun h => absurd rfl (h.1 fault separator)⟩

lemma tokens_bare (case : KeywordCase) (source : Text) :
    (tokenize case source).1.map Token.bare = (contents case source).filterMap Content.token? := by
  rw [contents, List.filterMap_filter]
  refine (tokensOf_bare _ _).trans (List.filterMap_congr fun content _ => ?_)
  cases content <;> rfl

lemma mem_contents {source : Text} {content : Content} : content ∈ contents case source ↔
    (∃ piece ∈ cut case source, piece.content = content) ∧ content ≠ .blank := by
  simp [contents]

/-- **A program without lexical faults that is laid out anew has the same tokens**, and no lexical
faults either. -/
theorem tokenize_relaid {source source' : Text} (hclean : (tokenize case source).2 = [])
    (h : Relaid (cut case source) source') : (tokenize case source').2 = [] ∧
      (tokenize case source').1.map Token.bare = (tokenize case source).1.map Token.bare := by
  have hfaults := diagnosticsOf_eq_nil.mp hclean
  have hsame := (same_of_relaid h hfaults).contents_eq
  refine ⟨diagnosticsOf_eq_nil.mpr fun piece hpiece fault s hcontent => ?_, ?_⟩
  · have hmem : Content.fault fault s ∈ contents case source' :=
      mem_contents.mpr ⟨⟨piece, hpiece, hcontent⟩, nofun⟩
    rw [hsame] at hmem
    obtain ⟨⟨piece, hpiece, hcontent⟩, -⟩ := mem_contents.mp hmem
    exact hfaults piece hpiece fault s hcontent
  · rw [tokens_bare, tokens_bare, hsame]

end Imperativo
