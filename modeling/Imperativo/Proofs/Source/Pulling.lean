import Imperativo.Proofs.Source.Places

/-!
# Tokens pulled one by one

A stream cuts pieces off the front of its text, each at the moment when it is needed.  Whatever is
asked of it, it has passed a front of the pieces of the program (`TokenStream.Passes`): the tokens
that it gave are those of this front, and so are the diagnostics, whether they have been taken or
are still held.  A token is given as soon as its piece has been cut, so unless the stream has come
to the end of the program, the front ends with the piece of the last token.

* **`TokenStream.tokenize_eq`** — a stream that takes all tokens comes to those of the program,
  whatever it has read before.
* **`diagnosticsOf_front`** — the diagnostics up to the piece of a token are those in front of it.
* **`pull_afresh`** — what is pulled in any order is what a new stream comes to at once.
-/

namespace Imperativo

@[simp] lemma tokensOf_append (xs ys : List PlacedPiece) :
    tokensOf (xs ++ ys) = tokensOf xs ++ tokensOf ys := List.filterMap_append

@[simp] lemma diagnosticsOf_append (xs ys : List PlacedPiece) :
    diagnosticsOf (xs ++ ys) = diagnosticsOf xs ++ diagnosticsOf ys := List.filterMap_append

lemma tokensOf_single (x : PlacedPiece) : tokensOf [x] = x.token?.toList := by
  rw [tokensOf, List.filterMap_cons]
  cases x.token? <;> rfl

lemma diagnosticsOf_single (x : PlacedPiece) : diagnosticsOf [x] = x.diagnostic?.toList := by
  rw [diagnosticsOf, List.filterMap_cons]
  cases x.diagnostic? <;> rfl

/-! ## What a stream passes -/

namespace TokenStream

variable {stream behind last : TokenStream} {front more : List PlacedPiece} {x : PlacedPiece}
  {token : Token}

/-- The pieces that a stream has in front of it. -/
def pieces (stream : TokenStream) : List PlacedPiece :=
  place stream.position (cut stream.case stream.rest)

lemma pieces_eq_nil (h : stream.rest = []) : stream.pieces = [] := by
  rw [pieces, h, cut]
  rfl

/-- The second stream is the first one behind the pieces `front`, with their diagnostics. -/
structure Passes (stream : TokenStream) (front : List PlacedPiece) (behind : TokenStream) :
    Prop where
  case_eq : behind.case = stream.case
  pieces_eq : stream.pieces = front ++ behind.pieces
  diagnostics_eq : behind.diagnostics = stream.diagnostics ++ diagnosticsOf front

lemma Passes.refl (stream : TokenStream) : stream.Passes [] stream :=
  ⟨rfl, rfl, (List.append_nil _).symm⟩

lemma Passes.trans (h : stream.Passes front behind) (h' : behind.Passes more last) :
    stream.Passes (front ++ more) last where
  case_eq := h'.case_eq.trans h.case_eq
  pieces_eq := by rw [h.pieces_eq, h'.pieces_eq, List.append_assoc]
  diagnostics_eq := by
    rw [h'.diagnostics_eq, h.diagnostics_eq, diagnosticsOf_append, List.append_assoc]

lemma cutFirst_none (h : stream.cutFirst = none) : stream.rest = [] := by
  unfold cutFirst at h
  split at h
  · assumption
  · cases h

/-- A piece that is cut off is the first one of those in front of the stream. -/
lemma passes_cutFirst (h : stream.cutFirst = some (x, behind)) : stream.Passes [x] behind := by
  unfold cutFirst at h
  split at h
  · cases h
  · rename_i c rest hrest
    cases h
    refine ⟨rfl, ?_, by rw [diagnosticsOf_single]⟩
    rw [pieces, hrest, cut]
    rfl

/-- At the end of the program all pieces have been passed, the last of them without a token. -/
lemma next_none (h : stream.next = (none, behind)) :
    ∃ front, stream.Passes front behind ∧ tokensOf front = [] ∧ behind.rest = [] := by
  fun_induction next stream with
  | case1 stream hcut =>
      cases h
      exact ⟨[], .refl _, rfl, cutFirst_none hcut⟩
  | case2 => cases h
  | case3 stream x middle hcut htoken ih =>
      obtain ⟨front, hpasses, hfront, hrest⟩ := ih h
      refine ⟨[x] ++ front, (passes_cutFirst hcut).trans hpasses, ?_, hrest⟩
      rw [tokensOf_append, tokensOf_single, htoken, hfront]
      rfl

/-- Up to a token all pieces have been passed, its own as the last one. -/
lemma next_some (h : stream.next = (some token, behind)) :
    ∃ front x, stream.Passes (front ++ [x]) behind ∧ tokensOf front = [] ∧
      x.token? = some token := by
  fun_induction next stream with
  | case1 => cases h
  | case2 stream x middle hcut t htoken =>
      cases h
      exact ⟨[], x, passes_cutFirst hcut, rfl, htoken⟩
  | case3 stream x middle hcut htoken ih =>
      obtain ⟨front, y, hpasses, hfront, hy⟩ := ih h
      refine ⟨[x] ++ front, y, ?_, ?_, hy⟩
      · rw [List.append_assoc]
        exact (passes_cutFirst hcut).trans hpasses
      · rw [tokensOf_append, tokensOf_single, htoken, hfront]
        rfl

/-- All tokens are those of all pieces. -/
lemma passes_drain (stream : TokenStream) : ∃ front, stream.Passes front stream.drain.2 ∧
    tokensOf front = stream.drain.1 ∧ stream.drain.2.rest = [] := by
  fun_induction drain stream with
  | case1 stream behind h => exact next_none h
  | case2 stream token behind h tokens last hdrain ih =>
      obtain ⟨front, x, hpasses, hfront, hx⟩ := next_some h
      rw [hdrain] at ih
      obtain ⟨more, hmore, htokens, hrest⟩ := ih
      refine ⟨front ++ [x] ++ more, hpasses.trans hmore, ?_, hrest⟩
      rw [tokensOf_append, tokensOf_append, tokensOf_single, hfront, hx, htokens]
      rfl

lemma next_of_nil (h : stream.rest = []) : stream.next = (none, stream) := by
  have hcut : stream.cutFirst = none := by rw [cutFirst, h]
  rw [next, hcut]

/-- **A stream that takes all tokens of a program** comes to its tokens and diagnostics, whatever it
has read before. -/
theorem tokenize_eq (stream : TokenStream) (source : Text) :
    (stream.tokenize source).1 = (Imperativo.tokenize stream.case source).1 ∧
    (stream.tokenize source).2.diagnostics = (Imperativo.tokenize stream.case source).2 ∧
    (stream.tokenize source).2.rest = [] := by
  obtain ⟨front, hpasses, htokens, hrest⟩ := passes_drain (stream.load source)
  have hpieces := hpasses.pieces_eq
  rw [pieces_eq_nil hrest, List.append_nil] at hpieces
  have hdiagnostics := hpasses.diagnostics_eq
  rw [← hpieces] at htokens hdiagnostics
  exact ⟨htokens.symm, hdiagnostics, hrest⟩

end TokenStream

/-! ## Diagnostics in front of a token -/

section Places

variable {case : KeywordCase} {source : Text} {front back : List PlacedPiece} {x : PlacedPiece}
  {t : Token} {d : Diagnostic}

lemma key_le_place {p : Position} {pieces : List Piece} :
    ∀ x ∈ place p pieces, p.key ≤ x.position.key := by
  induction pieces generalizing p with
  | nil => exact List.forall_mem_nil _
  | cons piece pieces ih =>
      exact List.forall_mem_cons.mpr
        ⟨le_refl _, fun x hx => (Position.key_le_advance _ _).trans (ih x hx)⟩

/-- Each piece begins behind those in front of it. -/
lemma pairwise_place (p : Position) (pieces : List Piece) : (place p pieces).Pairwise
    fun x y => (x.position.advance x.piece.text).key ≤ y.position.key := by
  induction pieces generalizing p with
  | nil => exact .nil
  | cons piece pieces ih => exact List.pairwise_cons.mpr ⟨key_le_place, ih _⟩

lemma key_of_diagnostic? (h : x.diagnostic? = some d) : d.key = x.position.key := by
  unfold PlacedPiece.diagnostic? at h
  split at h
  · cases h
    rfl
  · cases h

lemma key_lt_behind (hx : x ∈ placedPieces case source) :
    x.position.key < (x.position.advance x.piece.text).key := by
  obtain ⟨front, behind, h, -⟩ := mem_place.mp hx
  exact Position.key_lt_advance _ h.stands.ne_nil

/-- A token stands in its piece, and not at the place of a diagnostic of that piece. -/
lemma token_within (hx : x ∈ placedPieces case source) (ht : x.token? = some t) :
    x.position.key ≤ t.position.key ∧ t.position.key < (x.position.advance x.piece.text).key ∧
      ∀ d, x.diagnostic? = some d → d.key < t.position.key := by
  obtain ⟨p, piece⟩ := x
  obtain ⟨front, behind, h, hp⟩ := mem_place.mp hx
  simp only at h hp
  subst hp
  obtain ⟨inside, text, after, htext, hlt, -, hplace, hnone⟩ := h.token ht
  rw [Position.advance_append] at hplace
  obtain ⟨more, hmore⟩ : inside <+: piece.text :=
    List.prefix_of_prefix_length_le ⟨text ++ after, by rw [htext, List.append_assoc]⟩
      (List.prefix_append _ behind) hlt.le
  have hne : more ≠ [] := by
    rintro rfl
    rw [List.append_nil] at hmore
    exact hlt.ne (congrArg List.length hmore)
  rw [hplace, ← hmore]
  refine ⟨Position.key_le_advance _ _, ?_, fun d hd => ?_⟩
  · rw [Position.advance_append]
    exact Position.key_lt_advance _ hne
  · rw [key_of_diagnostic? hd]
    refine Position.key_lt_advance _ fun hnil => ?_
    rw [hnone hnil] at hd
    cases hd

/-- **The diagnostics up to the piece of a token are those in front of the token.** -/
theorem diagnosticsOf_front (h : placedPieces case source = front ++ x :: back)
    (ht : x.token? = some t) : diagnosticsOf (front ++ [x]) =
      (tokenize case source).2.filter fun d => decide (d.key < t.position.key) := by
  have hmem : ∀ y ∈ front ++ x :: back, y ∈ placedPieces case source := fun y hy => h ▸ hy
  have hx := hmem x (List.mem_append_right _ List.mem_cons_self)
  have hpairwise := pairwise_place Position.start (cut case source)
  change (placedPieces case source).Pairwise _ at hpairwise
  rw [h, List.pairwise_append, List.pairwise_cons] at hpairwise
  obtain ⟨-, ⟨hback, -⟩, hfront⟩ := hpairwise
  obtain ⟨hle, hlt, hown⟩ := token_within hx ht
  have hbefore : ∀ d ∈ diagnosticsOf (front ++ [x]), d.key < t.position.key := by
    intro d hd
    obtain ⟨y, hy, hyields⟩ := List.mem_filterMap.mp hd
    rcases List.mem_append.mp hy with hy | hy
    · rw [key_of_diagnostic? hyields]
      exact (key_lt_behind (hmem y (List.mem_append_left _ hy))).trans_le
        ((hfront y hy x List.mem_cons_self).trans hle)
    · obtain rfl := List.mem_singleton.mp hy
      exact hown d hyields
  have hbehind : ∀ d ∈ diagnosticsOf back, ¬ d.key < t.position.key := by
    intro d hd
    obtain ⟨y, hy, hd⟩ := List.mem_filterMap.mp hd
    rw [key_of_diagnostic? hd]
    exact (hlt.trans_le (hback y hy)).le.not_gt
  have hsplit : (tokenize case source).2 = diagnosticsOf (front ++ [x]) ++ diagnosticsOf back := by
    rw [← diagnosticsOf_append, List.append_assoc, List.singleton_append, ← h]
    rfl
  rw [hsplit, List.filter_append, List.filter_eq_self.mpr (by simpa using hbefore),
    List.filter_eq_nil_iff.mpr (by simpa using hbehind), List.append_nil]

end Places

/-! ## Pulling -/

/-- What can be asked of a stream. -/
inductive Pull
  | next
  | rest
  | diagnostics
  | takeDiagnostics
  deriving DecidableEq, Repr

/-- A stream with the tokens that it gave and the diagnostics that were taken from it.  It has ended
once it had no next token or was asked for the rest. -/
structure Pulled where
  stream : TokenStream
  tokens : List Token
  taken : List Diagnostic
  ended : Bool

/-- Asks the stream once.  To look at the diagnostics changes nothing. -/
def Pulled.step (s : Pulled) : Pull → Pulled
  | .next =>
    match s.stream.next with
    | (some token, stream) => { s with stream, tokens := s.tokens ++ [token] }
    | (none, stream) => { s with stream, ended := true }
  | .rest =>
    let (tokens, stream) := s.stream.drain
    { s with stream, tokens := s.tokens ++ tokens, ended := true }
  | .diagnostics => s
  | .takeDiagnostics =>
    let (diagnostics, stream) := s.stream.takeDiagnostics
    { s with stream, taken := s.taken ++ diagnostics }

/-- Loads a program into the stream and asks it again and again. -/
def TokenStream.pull (stream : TokenStream) (source : Text) (pulls : List Pull) : Pulled :=
  pulls.foldl Pulled.step ⟨stream.load source, [], [], false⟩

/-- The stream has passed the pieces `front` of the program: what it gave is what they yield.  If it
has not ended, the last of them yields a token. -/
structure Pulled.Passed (s : Pulled) (case : KeywordCase) (source : Text)
    (front : List PlacedPiece) : Prop where
  pieces_eq : placedPieces case source = front ++ s.stream.pieces
  tokens_eq : s.tokens = tokensOf front
  diagnostics_eq : s.taken ++ s.stream.diagnostics = diagnosticsOf front
  ended : s.ended = true → s.stream.rest = []
  last : s.ended = false → front = [] ∨ ∃ init x, front = init ++ [x] ∧ x.token?.isSome

section Pulls

variable {case : KeywordCase} {source : Text} {front more : List PlacedPiece} {s : Pulled}

lemma passed_load (stream : TokenStream) (source : Text) :
    Pulled.Passed ⟨stream.load source, [], [], false⟩ stream.case source [] where
  pieces_eq := rfl
  tokens_eq := rfl
  diagnostics_eq := rfl
  ended := nofun
  last _ := .inl rfl

namespace Pulled.Passed

lemma pass (h : s.Passed case source front) {behind : TokenStream} {ended : Bool}
    (hpasses : s.stream.Passes more behind) (hended : ended = true → behind.rest = [])
    (hlast : ended = false → ∃ init x, more = init ++ [x] ∧ x.token?.isSome) :
    Passed ⟨behind, s.tokens ++ tokensOf more, s.taken, ended⟩ case source (front ++ more) where
  pieces_eq := by rw [h.pieces_eq, hpasses.pieces_eq, List.append_assoc]
  tokens_eq := by rw [h.tokens_eq, tokensOf_append]
  diagnostics_eq := by
    rw [hpasses.diagnostics_eq, ← List.append_assoc, h.diagnostics_eq, diagnosticsOf_append]
  ended := hended
  last hgoing := by
    obtain ⟨init, x, rfl, hx⟩ := hlast hgoing
    exact .inr ⟨front ++ init, x, (List.append_assoc _ _ _).symm, hx⟩

/-- **Whatever is asked**, the stream has then passed a front of the pieces. -/
theorem step (h : s.Passed case source front) (pull : Pull) :
    ∃ front, (s.step pull).Passed case source front := by
  cases pull with
  | next =>
      rw [Pulled.step]
      split
      · rename_i token behind hnext
        obtain ⟨init, x, hpasses, hinit, hx⟩ := TokenStream.next_some hnext
        have htokens : tokensOf (init ++ [x]) = [token] := by
          rw [tokensOf_append, tokensOf_single, hinit, hx]
          rfl
        rw [← htokens]
        refine ⟨_, h.pass hpasses (fun hended => ?_) fun _ => ⟨init, x, rfl, by rw [hx]; rfl⟩⟩
        -- at the end there is no next token
        rw [TokenStream.next_of_nil (h.ended hended)] at hnext
        cases hnext
      · rename_i behind hnext
        obtain ⟨more, hpasses, hmore, hrest⟩ := TokenStream.next_none hnext
        have hpassed : Passed ⟨behind, s.tokens ++ tokensOf more, s.taken, true⟩ _ _ _ :=
          h.pass hpasses (fun _ => hrest) nofun
        rw [hmore, List.append_nil] at hpassed
        exact ⟨_, hpassed⟩
  | rest =>
      obtain ⟨more, hpasses, hmore, hrest⟩ := TokenStream.passes_drain s.stream
      have hpassed : Passed ⟨s.stream.drain.2, s.tokens ++ tokensOf more, s.taken, true⟩ _ _ _ :=
        h.pass hpasses (fun _ => hrest) nofun
      rw [hmore] at hpassed
      exact ⟨_, hpassed⟩
  | diagnostics => exact ⟨front, h⟩
  | takeDiagnostics =>
      refine ⟨front, h.pieces_eq, h.tokens_eq, ?_, h.ended, h.last⟩
      exact (List.append_nil _).trans h.diagnostics_eq

/-- The tokens are the first ones of the program. -/
lemma prefix_tokens (h : s.Passed case source front) : s.tokens <+: (tokenize case source).1 := by
  have hall : (tokenize case source).1 = tokensOf (front ++ s.stream.pieces) :=
    congrArg tokensOf h.pieces_eq
  rw [h.tokens_eq, hall, tokensOf_append]
  exact List.prefix_append _ _

/-- Until the stream has ended, the diagnostics are those in front of the last token. -/
lemma diagnostics_in_front (h : s.Passed case source front) (hgoing : s.ended = false) :
    s.taken ++ s.stream.diagnostics = (tokenize case source).2.filter fun d =>
      s.tokens.getLast?.any fun t => decide (d.key < t.position.key) := by
  rw [h.diagnostics_eq, h.tokens_eq]
  rcases h.last hgoing with rfl | ⟨init, x, rfl, hx⟩
  · exact (List.filter_eq_nil_iff.mpr fun _ _ => Bool.false_ne_true).symm
  · obtain ⟨t, ht⟩ := Option.isSome_iff_exists.mp hx
    have hpieces := h.pieces_eq
    rw [List.append_assoc, List.singleton_append] at hpieces
    rw [tokensOf_append, tokensOf_single, ht, Option.toList_some, List.getLast?_concat]
    exact diagnosticsOf_front hpieces ht

/-- Once the stream has ended, it has given everything. -/
lemma complete (h : s.Passed case source front) (hended : s.ended = true) :
    s.tokens = (tokenize case source).1 ∧
      s.taken ++ s.stream.diagnostics = (tokenize case source).2 := by
  have hpieces := h.pieces_eq
  rw [TokenStream.pieces_eq_nil (h.ended hended), List.append_nil] at hpieces
  rw [h.tokens_eq, h.diagnostics_eq, ← hpieces]
  exact ⟨rfl, rfl⟩

end Pulled.Passed

/-- **After any pulls** the stream has passed a front of the pieces. -/
theorem passed_pull (stream : TokenStream) (source : Text) (pulls : List Pull) :
    ∃ front, (stream.pull source pulls).Passed stream.case source front := by
  rw [TokenStream.pull]
  have hload : ∃ front,
      Pulled.Passed ⟨stream.load source, [], [], false⟩ stream.case source front :=
    ⟨[], passed_load stream source⟩
  generalize (⟨stream.load source, [], [], false⟩ : Pulled) = s at hload
  induction pulls generalizing s with
  | nil => exact hload
  | cons pull pulls ih =>
      obtain ⟨front, h⟩ := hload
      exact ih _ (h.step pull)

lemma ended_step (h : s.ended = true) (pull : Pull) : (s.step pull).ended = true := by
  cases pull with
  | next =>
      rw [Pulled.step]
      split
      · exact h
      · rfl
  | rest => rfl
  | diagnostics => exact h
  | takeDiagnostics => exact h

/-- A stream that has ended remains so. -/
lemma ended_foldl (h : s.ended = true) (pulls : List Pull) :
    (pulls.foldl Pulled.step s).ended = true := by
  induction pulls generalizing s with
  | nil => exact h
  | cons pull pulls ih => exact ih (ended_step h pull)

end Pulls

/-- **What is pulled in any order is what a new stream comes to at once.**  Into any stream,
whatever it has read, a program is loaded, and then tokens and diagnostics are taken from it in any
order.  The tokens are the first of those of a new stream.  The diagnostics, those taken in front of
those still held, are the ones in front of the last token; once the stream has ended, tokens and
diagnostics are all there are, and from then on there is no next token and nothing changes. -/
theorem pull_afresh (stream : TokenStream) (source : Text) (pulls : List Pull) :
    let afresh := (TokenStream.empty stream.case).tokenize source
    let now := stream.pull source pulls
    now.tokens <+: afresh.1 ∧
    (now.ended = false → now.taken ++ now.stream.diagnostics =
      afresh.2.diagnostics.filter fun d =>
        now.tokens.getLast?.any fun t => decide (d.key < t.position.key)) ∧
    (now.ended = true → now.tokens = afresh.1 ∧
      now.taken ++ now.stream.diagnostics = afresh.2.diagnostics ∧
      ∀ later, let afterwards := stream.pull source (pulls ++ later)
        afterwards.ended = true ∧ afterwards.stream.next = (none, afterwards.stream)) := by
  intro afresh now
  obtain ⟨front, h⟩ := passed_pull stream source pulls
  obtain ⟨htokens, hdiagnostics, -⟩ := (TokenStream.empty stream.case).tokenize_eq source
  change afresh.1 = (tokenize stream.case source).1 at htokens
  change afresh.2.diagnostics = (tokenize stream.case source).2 at hdiagnostics
  rw [htokens, hdiagnostics]
  refine ⟨h.prefix_tokens, h.diagnostics_in_front, fun hended => ?_⟩
  obtain ⟨hall, hcomplete⟩ := h.complete hended
  refine ⟨hall, hcomplete, fun later => ?_⟩
  obtain ⟨front', h'⟩ := passed_pull stream source (pulls ++ later)
  have hafter : (stream.pull source (pulls ++ later)).ended = true := by
    rw [TokenStream.pull, List.foldl_append]
    exact ended_foldl hended later
  exact ⟨hafter, TokenStream.next_of_nil (h'.ended hafter)⟩

end Imperativo
