import Imperativo.Source.Piece

/-!
# Streams of tokens

A piece of a program yields at most one token and at most one diagnostic, placed where the piece
begins; a separator kept from a fault is placed where it stands, at the piece's last character.  A
stream holds the text that has not been looked at yet, with its place, and the diagnostics of what
has.  It cuts pieces off that text only until one of them yields a token; so tokens can be taken one
by one, and a diagnostic shows only once the stream has passed it.

* `place` — pieces with their positions.
* `Piece.token?`, `Piece.diagnostic?` — what a placed piece yields.
* `tokenize` — tokens and diagnostics of a whole program.
* `TokenStream.next`, `TokenStream.drain` — take one token, or all.
-/

namespace Imperativo

/-! ## Placed pieces -/

/-- A piece and the position of its first character. -/
structure PlacedPiece where
  position : Position
  piece : Piece
  deriving DecidableEq, Repr

/-- Consecutive pieces with their positions, the first one at `p`. -/
def place (p : Position) : List Piece → List PlacedPiece
  | [] => []
  | piece :: rest => ⟨p, piece⟩ :: place (p.advance piece.text) rest

namespace PlacedPiece

/-- The token that a placed piece yields. -/
def token? (x : PlacedPiece) : Option Token :=
  match x.piece.content with
  | .blank => none
  | .lexeme kind value => some ⟨kind, value, x.position⟩
  | .fault _ separator =>
    separator.map fun s => ⟨.sign s, none, x.position.advance x.piece.text.dropLast⟩

/-- The diagnostic that a placed piece yields. -/
def diagnostic? (x : PlacedPiece) : Option Diagnostic :=
  match x.piece.content with
  | .fault fault _ => some (Diagnostic.ofLexical fault x.position)
  | _ => none

end PlacedPiece

/-- The tokens of a run of placed pieces. -/
def tokensOf (pieces : List PlacedPiece) : List Token := pieces.filterMap PlacedPiece.token?

/-- The diagnostics of a run of placed pieces. -/
def diagnosticsOf (pieces : List PlacedPiece) : List Diagnostic :=
  pieces.filterMap PlacedPiece.diagnostic?

/-- The pieces of a program with their positions. -/
def placedPieces (case : KeywordCase) (source : Text) : List PlacedPiece :=
  place Position.start (cut case source)

/-- The tokens and the lexical diagnostics of a program. -/
def tokenize (case : KeywordCase) (source : Text) : List Token × List Diagnostic :=
  let pieces := placedPieces case source
  (tokensOf pieces, diagnosticsOf pieces)

/-! ## Streams -/

/-- The text that is still to be read, the position of its first character, and the diagnostics of
what has been read and not been taken. -/
structure TokenStream where
  case : KeywordCase
  rest : Text
  position : Position
  diagnostics : List Diagnostic
  deriving DecidableEq, Repr

namespace TokenStream

/-- A stream without a program. -/
def empty (case : KeywordCase) : TokenStream := ⟨case, [], Position.start, []⟩

/-- The stream at the start of another program; the diagnostics of the last one are gone. -/
def load (stream : TokenStream) (source : Text) : TokenStream :=
  ⟨stream.case, source, Position.start, []⟩

/-- A stream at the start of a program. -/
def ofSource (case : KeywordCase) (source : Text) : TokenStream := (empty case).load source

/-- The piece at the front, where it stands, and the stream behind it. -/
def cutFirst (stream : TokenStream) : Option (PlacedPiece × TokenStream) :=
  match stream.rest with
  | [] => none
  | c :: behind =>
    let x : PlacedPiece := ⟨stream.position, Piece.first stream.case c behind⟩
    some (x, ⟨stream.case, behind.drop (x.piece.text.length - 1),
      stream.position.advance x.piece.text, stream.diagnostics ++ x.diagnostic?.toList⟩)

theorem length_cutFirst {stream behind : TokenStream} {x : PlacedPiece}
    (h : stream.cutFirst = some (x, behind)) : behind.rest.length < stream.rest.length := by
  unfold cutFirst at h
  split at h
  · cases h
  · cases h
    rename_i hrest
    rw [hrest, List.length_drop, List.length_cons]
    omega

/-- The next token, or `none` at the end of the program. -/
def next (stream : TokenStream) : Option Token × TokenStream :=
  match _h : stream.cutFirst with
  | none => (none, stream)
  | some (x, behind) =>
    match x.token? with
    | some token => (some token, behind)
    | none => behind.next
termination_by stream.rest.length
decreasing_by exact length_cutFirst _h

theorem length_next {stream behind : TokenStream} {token : Token}
    (h : stream.next = (some token, behind)) : behind.rest.length < stream.rest.length := by
  fun_induction next stream with
  | case1 => cases h
  | case2 _ x after hcut _ _ =>
    cases h
    exact length_cutFirst hcut
  | case3 _ x after hcut _ ih => exact Nat.lt_trans (ih h) (length_cutFirst hcut)

/-- All remaining tokens: takes one after another until there is none. -/
def drain (stream : TokenStream) : List Token × TokenStream :=
  match _h : stream.next with
  | (none, behind) => ([], behind)
  | (some token, behind) =>
    let (tokens, last) := behind.drain
    (token :: tokens, last)
termination_by stream.rest.length
decreasing_by exact length_next _h

/-- All tokens of another program. -/
def tokenize (stream : TokenStream) (source : Text) : List Token × TokenStream :=
  (stream.load source).drain

/-- The diagnostics so far, which the stream then forgets. -/
def takeDiagnostics (stream : TokenStream) : List Diagnostic × TokenStream :=
  (stream.diagnostics, ⟨stream.case, stream.rest, stream.position, []⟩)

end TokenStream

end Imperativo
