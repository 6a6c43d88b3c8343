import Imperativo.Proofs.Source.Lines
import Imperativo.Proofs.Source.Pieces
import Mathlib.Data.List.DropRight

/-!
# Places are exact

A scanner need not walk over a program twice to tell where its tokens are: it keeps the number of
the line and where that line begins, opens a line only at a newline that it skips, and takes the
difference (`Cursor`).  That is right because nothing else that it passes has a newline in it
(`Piece.Stands.newline_free`), so that every character of a piece is on the line on which the piece
begins.

* **`Cursor.scan_eq`** — the tokens and diagnostics that are placed like that are those of the
  program, and no difference is negative.
* **`tokenize_exact`** — each token and each diagnostic is at the character with which it starts, in
  lines and columns as they are counted, and no two are at the same one.
-/

namespace Imperativo

open Piece

variable {case : KeywordCase}

/-! ## Lines and columns -/

/-- The character behind `front` is on a new line for each newline in `front`, and in a new column
for each character behind the last of them. -/
lemma Position.advance_start (front : Text) : Position.start.advance front =
    ⟨1 + front.count '\n', 1 + (front.rtakeWhile (· != '\n')).length⟩ := by
  induction front using List.reverseRecOn with
  | nil => rfl
  | append_singleton front c ih =>
      rw [Position.advance_append, ih, List.count_append]
      by_cases hc : c = '\n'
      · subst hc
        rw [List.rtakeWhile_concat_neg _ _ _ (by decide)]
        rfl
      · rw [List.rtakeWhile_concat_pos _ _ _ (by simpa using hc), List.length_append,
          List.count_singleton]
        simp [Position.step, hc, Nat.add_assoc]

lemma Position.advance_newline_free {text : Text} (h : '\n' ∉ text) (p : Position) :
    p.advance text = ⟨p.line, p.column + text.length⟩ := by
  induction text generalizing p with
  | nil => rfl
  | cons c text ih =>
      rw [List.mem_cons, not_or] at h
      rw [Position.advance_cons, ih h.2, Position.step, if_neg (Ne.symm h.1), List.length_cons,
        Nat.add_right_comm, Nat.add_assoc]

/-! ## Newlines -/

/-- What stands in front of a kept separator is part of the rejected text. -/
lemma prefix_payload {payload after front behind : Text} {c : Char}
    (hsplit : payload ++ after = front ++ c :: behind) (hle : front.length ≤ payload.length) :
    front <+: payload :=
  List.prefix_of_prefix_length_le ⟨_, hsplit.symm⟩ (List.prefix_append _ _) hle

lemma Piece.Rejected.newline_free {fault : LexicalFault} {after : Text}
    (h : Rejected fault after) : '\n' ∉ fault.payload := by
  intro hmem
  rcases h.loose .newline hmem with ⟨-, hne⟩ | hstray
  · exact hne rfl
  · cases hstray.blank

/-- A newline is a piece of its own, and no other piece has one in it. -/
lemma Piece.Stands.newline_free {text behind : Text} {content : Content}
    (h : Stands case text behind content) :
    content = .blank ∧ text = ['\n'] ∨ '\n' ∉ text := by
  cases h with
  | blank h =>
      cases h with
      | @space c _ h =>
          by_cases hc : c = '\n'
          · exact .inl ⟨rfl, by rw [hc]⟩
          · exact .inr fun hmem => hc (List.mem_singleton.mp hmem).symm
      | comment h => exact .inr (Loose.not_mem_cons (by decide) rfl h.all)
  | lexeme h =>
      refine .inr fun hmem => ?_
      cases h.holds .newline hmem with
      | string _ hc => exact hc rfl
      | character hc => exact hc rfl
      | @sign s hs => cases s <;> cases hs
  | lost h => exact .inr h.newline_free
  | kept h _ hsplit _ hle hc =>
      refine .inr fun hmem => ?_
      rcases List.mem_append.mp hmem with hmem | hmem
      · exact h.newline_free ((prefix_payload hsplit hle).subset hmem)
      · obtain rfl := List.mem_singleton.mp hmem
        cases hc

/-! ## The cursor of a scanner -/

/-- What a scanner keeps in order to tell places: the number of the line, the number of the
character with which that line begins, and the number of the next character. -/
structure Cursor where
  line : Nat
  lineStart : Nat
  offset : Nat

namespace Cursor

/-- The cursor in front of a program. -/
def start : Cursor := ⟨1, 0, 0⟩

/-- The place of the character with number `index`, on the current line.  There is none if the line
begins behind that character. -/
def place? (c : Cursor) (index : Nat) : Option Position :=
  if c.lineStart ≤ index then some ⟨c.line, index - c.lineStart + 1⟩ else none

/-- The cursor behind a piece.  Only a newline that is skipped opens a line. -/
def pass (c : Cursor) (piece : Piece) : Cursor :=
  let next := c.offset + piece.text.length
  if piece.content = .blank ∧ piece.text = ['\n'] then ⟨c.line + 1, next, next⟩
  else { c with offset := next }

/-- What the next piece yields: a token and a diagnostic at its first character, a separator that is
kept from a fault at its last. -/
def read (c : Cursor) (piece : Piece) : Option (Option Token × Option Diagnostic) :=
  match piece.content with
  | .blank => some (none, none)
  | .lexeme kind value => do
    let p ← c.place? c.offset
    return (some ⟨kind, value, p⟩, none)
  | .fault fault none => do
    let p ← c.place? c.offset
    return (none, some (.ofLexical fault p))
  | .fault fault (some s) => do
    let p ← c.place? c.offset
    let q ← c.place? (c.offset + (piece.text.length - 1))
    return (some ⟨.sign s, none, q⟩, some (.ofLexical fault p))

/-- What all pieces yield.  Nothing comes of it if there is no place for any of the tokens and
diagnostics. -/
def scan (c : Cursor) : List Piece → Option (List Token × List Diagnostic)
  | [] => some ([], [])
  | piece :: rest => do
    let (t, d) ← c.read piece
    let (ts, ds) ← (c.pass piece).scan rest
    return (t.toList ++ ts, d.toList ++ ds)

/-- The cursor is at `p`. -/
structure At (c : Cursor) (p : Position) : Prop where
  le : c.lineStart ≤ c.offset
  line : p.line = c.line
  column : p.column = c.offset - c.lineStart + 1

variable {c : Cursor} {p : Position} {text behind : Text} {content : Content}

lemma at_start : start.At Position.start := ⟨Nat.le_refl _, rfl, rfl⟩

/-- On the line of the cursor, places are told by counting characters. -/
lemma At.place? (h : c.At p) (hfree : '\n' ∉ text) :
    c.place? (c.offset + text.length) = some (p.advance text) := by
  have hle := h.le
  rw [Cursor.place?, if_pos (by omega), Position.advance_newline_free hfree, h.line, h.column]
  congr 2
  omega

/-- **A piece leaves the cursor at the character behind it.** -/
lemma At.pass (h : c.At p) (hstands : Stands case text behind content) :
    (c.pass ⟨text, content⟩).At (p.advance text) := by
  rcases hstands.newline_free with ⟨rfl, rfl⟩ | hfree
  · refine ⟨Nat.le_refl _, ?_, ?_⟩
    · exact congrArg (· + 1) h.line
    · exact (congrArg (· + 1) (Nat.sub_self _)).symm
  · have hpass : c.pass ⟨text, content⟩ = { c with offset := c.offset + text.length } := by
      refine if_neg ?_
      rintro ⟨-, rfl⟩
      exact hfree (List.mem_singleton_self _)
    have hle := h.le
    rw [hpass, Position.advance_newline_free hfree]
    refine ⟨by simp only; omega, h.line, ?_⟩
    simp only [h.column]
    omega

/-- What a piece yields is placed where the piece stands. -/
lemma At.read (h : c.At p) (hstands : Stands case text behind content) :
    c.read ⟨text, content⟩ = some (PlacedPiece.token? ⟨p, ⟨text, content⟩⟩,
      PlacedPiece.diagnostic? ⟨p, ⟨text, content⟩⟩) := by
  have hnone : '\n' ∉ ([] : Text) := List.not_mem_nil
  have hfirst : c.place? c.offset = some p := h.place? hnone
  cases hstands with
  | blank => rfl
  | lexeme => simp only [Cursor.read, hfirst]; rfl
  | lost => simp only [Cursor.read, hfirst]; rfl
  | @kept _ _ front _ d _ hr hs hsplit hf hle hd =>
      have hfree : '\n' ∉ front := fun hmem =>
        hr.newline_free ((prefix_payload hsplit hle).subset hmem)
      have hlast := h.place? hfree
      simp only [Cursor.read, hfirst, List.length_append, List.length_singleton,
        Nat.add_sub_cancel, hlast, PlacedPiece.token?, PlacedPiece.diagnostic?,
        List.dropLast_concat]
      rfl

lemma At.scan (h : c.At p) (source : Text) : c.scan (cut case source) =
    some (tokensOf (place p (cut case source)), diagnosticsOf (place p (cut case source))) := by
  induction source using cut_induction case generalizing c p with
  | nil => rfl
  | @cons text rest content hstands ih =>
      rw [Cursor.scan, h.read hstands, ih (h.pass hstands), place, tokensOf, tokensOf,
        diagnosticsOf, diagnosticsOf, List.filterMap_cons, List.filterMap_cons]
      cases PlacedPiece.token? ⟨p, ⟨text, content⟩⟩ <;>
        cases PlacedPiece.diagnostic? ⟨p, ⟨text, content⟩⟩ <;> rfl

/-- **The cursor places what a program yields**, without a difference that is negative. -/
theorem scan_eq (case : KeywordCase) (source : Text) :
    start.scan (cut case source) = some (tokenize case source) :=
  at_start.scan source

end Cursor

/-! ## Tokens and diagnostics in their places -/

/-- Of two beginnings of a program only one ends at a place. -/
lemma Position.advance_inj {front front' behind behind' : Text}
    (hsource : front ++ behind = front' ++ behind')
    (h : (Position.start.advance front).key = (Position.start.advance front').key) :
    front = front' := by
  have hmore : ∀ {front more : Text}, (Position.start.advance front).key =
      (Position.start.advance (front ++ more)).key → more = [] := by
    intro front more h
    by_contra hne
    rw [Position.advance_append] at h
    exact (Position.key_lt_advance _ hne).ne h
  rcases List.append_eq_append_iff.mp hsource with ⟨more, rfl, -⟩ | ⟨more, rfl, -⟩
  · rw [hmore h, List.append_nil]
  · rw [hmore h.symm, List.append_nil]

/-- A rejected text that is searched for separators begins with none. -/
lemma Piece.Rejected.front_ne_nil {fault : LexicalFault} {after front behind : Text} {c : Char}
    {s : Sign} (h : Rejected fault after) (hsalvages : salvages fault = true)
    (hsplit : fault.payload ++ after = front ++ c :: behind) (hc : separator? c = some s) :
    front ≠ [] := by
  rintro rfl
  cases h with
  | @name digits _ _ _ hdigits =>
      obtain ⟨d, more, rfl, hd, -⟩ := hdigits.cons
      cases hsplit
      rw [(Loose.separator hc).digit] at hd
      cases hd
  | unterminated => cases hsplit; cases hc
  | empty => cases hsplit; cases hc
  | tooLong => cases hsplit; cases hc
  | _ => cases hsalvages

namespace InPlace

variable {source front behind : Text} {piece : Piece}

/-- A token stands in its piece, at a lexeme of its kind and value.  It stands at the front of the
piece only if the piece yields no diagnostic. -/
lemma token (h : InPlace case source front piece behind) {t : Token}
    (ht : PlacedPiece.token? ⟨Position.start.advance front, piece⟩ = some t) :
    ∃ inside text after, piece.text ++ behind = inside ++ text ++ after ∧
      inside.length < piece.text.length ∧ Piece.Lexeme case text after t.kind t.value ∧
      t.position = Position.start.advance (front ++ inside) ∧
      (inside = [] → ∀ p, PlacedPiece.diagnostic? ⟨p, piece⟩ = none) := by
  obtain ⟨text, content⟩ := piece
  cases h.stands with
  | blank => cases ht
  | lexeme hlexeme =>
      cases ht
      exact ⟨[], text, behind, rfl, List.length_pos_of_ne_nil hlexeme.ne_nil, hlexeme,
        by rw [List.append_nil], fun _ _ => rfl⟩
  | lost => cases ht
  | @kept fault after inside _ c s hr hs hsplit hf hle hc =>
      simp only [PlacedPiece.token?, Option.map_some, List.append_eq, List.dropLast_concat,
        Option.some.injEq] at ht
      subst ht
      have hsign : Piece.Lexeme case [c] behind (.sign s) none := by
        unfold separator? at hc
        split at hc <;> cases hc
        · exact .sign .comma
        · exact .sign .semicolon
      refine ⟨inside, [c], behind, rfl, by simp, hsign, by rw [Position.advance_append], ?_⟩
      exact fun hnil => absurd hnil (hr.front_ne_nil hs hsplit hc)

/-- A diagnostic is that of a rejected text at the front of its piece. -/
lemma diagnostic (h : InPlace case source front piece behind) {d : Diagnostic}
    (hd : PlacedPiece.diagnostic? ⟨Position.start.advance front, piece⟩ = some d) :
    ∃ fault after, piece.text ++ behind = fault.payload ++ after ∧ Rejected fault after ∧
      d = .ofLexical fault (Position.start.advance front) := by
  obtain ⟨text, content⟩ := piece
  cases h.stands with
  | blank => cases hd
  | lexeme => cases hd
  | lost hr => cases hd; exact ⟨_, behind, rfl, hr, rfl⟩
  | @kept fault after inside _ c s hr hs hsplit hf hle hc =>
      cases hd
      exact ⟨fault, after, by rw [hsplit]; simp, hr, rfl⟩

end InPlace

/-- A token has the kind and the value of a lexeme. -/
lemma lexeme_of_token {source : Text} {t : Token} (ht : t ∈ (tokenize case source).1) :
    ∃ text behind, Piece.Lexeme case text behind t.kind t.value := by
  obtain ⟨front, piece, behind, hpiece, ht⟩ := mem_tokens.mp ht
  obtain ⟨-, text, after, -, -, hlexeme, -⟩ := hpiece.token ht
  exact ⟨text, after, hlexeme⟩

/-- No token stands at the place of a diagnostic. -/
lemma token_apart {source : Text} {t : Token} {d : Diagnostic}
    (ht : t ∈ (tokenize case source).1) (hd : d ∈ (tokenize case source).2) :
    t.position.key ≠ d.key := by
  obtain ⟨f, piece, g, hpiece, ht⟩ := mem_tokens.mp ht
  obtain ⟨f', piece', g', hpiece', hd⟩ := mem_diagnostics.mp hd
  obtain ⟨inside, text, after, htext, hlt, -, hplace, hnone⟩ := hpiece.token ht
  have hkey : d.key = (Position.start.advance f').key := by
    obtain ⟨fault, after', -, -, rfl⟩ := hpiece'.diagnostic hd
    rfl
  intro h
  rw [hplace, hkey] at h
  have hsplit : (f ++ inside) ++ (text ++ after) = f' ++ (piece'.text ++ g') := by
    have hsource := hpiece.source_eq.symm.trans hpiece'.source_eq
    rw [List.append_assoc, htext] at hsource
    simpa only [List.append_assoc] using hsource
  -- the token would stand at the front of a piece that yields a diagnostic
  obtain rfl := Position.advance_inj hsplit h
  have hne := List.length_pos_of_ne_nil hpiece'.stands.ne_nil
  obtain ⟨hf, rfl, -⟩ := hpiece.unique hpiece' (by rw [List.length_append]; omega)
    (by rw [List.length_append]; omega)
  rw [hnone (by simpa using hf)] at hd
  cases hd

/-- **Places are exact.**  Each token stands at a lexeme of its kind and value, and each diagnostic
at the text that it rejects; line and column count the newlines in front of it and the characters
behind the last of them.  Tokens go up by place, and none stands at the place of a diagnostic.  A
scanner that tells places with a cursor comes to the same tokens and diagnostics. -/
theorem tokenize_exact (case : KeywordCase) (source : Text) :
    (∀ t ∈ (tokenize case source).1, ∃ front text behind, source = front ++ text ++ behind ∧
      Piece.Lexeme case text behind t.kind t.value ∧
      t.position = ⟨1 + front.count '\n', 1 + (front.rtakeWhile (· != '\n')).length⟩) ∧
    (∀ d ∈ (tokenize case source).2, ∃ front fault behind,
      source = front ++ fault.payload ++ behind ∧ Rejected fault behind ∧
      d = .ofLexical fault
        ⟨1 + front.count '\n', 1 + (front.rtakeWhile (· != '\n')).length⟩) ∧
    ((tokenize case source).1.Pairwise fun t u => t.position.key < u.position.key) ∧
    (∀ t ∈ (tokenize case source).1, ∀ d ∈ (tokenize case source).2, t.position.key ≠ d.key) ∧
    Cursor.start.scan (cut case source) = some (tokenize case source) := by
  refine ⟨fun t ht => ?_, fun d hd => ?_, tokens_rising case source,
    fun t ht d hd => token_apart ht hd, Cursor.scan_eq case source⟩
  · obtain ⟨f, piece, g, hpiece, ht⟩ := mem_tokens.mp ht
    obtain ⟨inside, text, after, htext, -, hlexeme, hplace, -⟩ := hpiece.token ht
    refine ⟨f ++ inside, text, after, ?_, hlexeme, by rw [hplace, Position.advance_start]⟩
    rw [hpiece.source_eq, List.append_assoc, htext]
    simp only [List.append_assoc]
  · obtain ⟨f, piece, g, hpiece, hd⟩ := mem_diagnostics.mp hd
    obtain ⟨fault, after, htext, hr, rfl⟩ := hpiece.diagnostic hd
    refine ⟨f, fault, after, ?_, hr, by rw [Position.advance_start]⟩
    rw [hpiece.source_eq, List.append_assoc, htext, List.append_assoc]

end Imperativo
