import Imperativo.Proofs.Grammar.FirstStop

/-!
# A broken statement costs itself and one stop

Whatever stands wrong between two statements, up to its semicolon, is passed over with one stop that
lies in it, and the statements around it are read as if it were not there.

* **`turn_piece`** — one broken piece.
* **`statements_padded`** — statements with broken pieces between them, to any depth of blocks.

A piece has no boundary before its last token, and neither has any beginning of a statement without
blocks or of a condition in parentheses.  So whichever statement the parser takes the piece for, it
stops inside the piece, and the next semicolon from there on is the last token of the piece.
-/

namespace Imperativo.Grammar

open Phrase

/-! ## Plain tokens -/

/-- Plain tokens in front of `rest` end before the first boundary. -/
lemma plain_in_front {us vs rest rest' : List Token} {b : Token} (hus : Plain us)
    (hb : isBoundary b.kind = true)
    (h : us ++ rest = vs ++ b :: rest') : ∃ ws, vs = us ++ ws ∧ rest = ws ++ b :: rest' := by
  induction us generalizing vs with
  | nil => exact ⟨vs, rfl, h⟩
  | cons u us ih =>
      rw [plain_cons] at hus
      cases vs with
      | nil =>
          cases h
          rw [hb] at hus
          cases hus.1
      | cons v vs =>
          rw [List.cons_append, List.cons_append, List.cons.injEq] at h
          rcases h with ⟨rfl, h⟩
          obtain ⟨ws, rfl, hws⟩ := ih hus.2 h
          exact ⟨ws, rfl, hws⟩

/-- The first boundary of a list of tokens cuts it in one way. -/
lemma plain_unique {us vs rest rest' : List Token} {b c : Token} (hus : Plain us) (hvs : Plain vs)
    (hb : isBoundary b.kind = true) (hc : isBoundary c.kind = true)
    (h : us ++ b :: rest = vs ++ c :: rest') :
    us = vs ∧ b = c ∧ rest = rest' := by
  obtain ⟨ws, rfl, hws⟩ := plain_in_front hus hc h
  cases ws with
  | nil =>
      cases hws
      exact ⟨(List.append_nil us).symm, rfl, rfl⟩
  | cons w ws =>
      cases hws
      rw [plain_append, plain_cons, hb] at hvs
      cases hvs.2.1

lemma isBoundary_semicolon {t : Token} (h : t.kind = .sign .semicolon) : isBoundary t.kind = true :=
  by
  rw [h]
  rfl

lemma resynchronizeAt_plain {us : List Token} (h : Plain us) (depth : Nat) (rest : List Token) :
    resynchronizeAt depth (us ++ rest) = resynchronizeAt depth rest := by
  induction us with
  | nil => rfl
  | cons u us ih =>
      rw [plain_cons] at h
      rw [List.cons_append, ← ih h.2]
      have hu := h.1
      rw [resynchronizeAt.eq_def]
      simp only
      split <;> simp_all [isBoundary]

/-- Reading goes on behind the next semicolon when nothing but plain tokens stands before it. -/
lemma resynchronize_piece {us : List Token} (h : Plain us) {semi : Token}
    (hsemi : semi.kind = .sign .semicolon)
    (rest : List Token) : resynchronize (us ++ semi :: rest) = (.normal, rest) := by
  rw [resynchronize, resynchronizeAt_plain h, resynchronizeAt, hsemi]

/-! ## Broken pieces -/

/-- Something that stands in the place of a statement without being one: tokens up to a semicolon,
without a brace.  A piece that starts with `sino` could continue the statement before it, and in the
body of the program `terminar` ends the statements. -/
structure BrokenPiece (body : Bool) (p : List Token) : Prop where
  ends : ∃ us semi, p = us ++ [semi] ∧ Plain us ∧ semi.kind = .sign .semicolon
  noStatement : ∀ tree, ¬ Statement Statements p tree
  notElse : Apart (· == .word .sino) p
  notTerminate : body = true → Apart (· == .word .terminar) p

/-- The stop lies in the piece and does not end the reading. -/
def StopsIn (p : List Token) (s : Stop) : Prop :=
  s.fault ≠ .unexpectedEnd ∧ ∃ t ∈ p, ∃ more, s.rest = t :: more

/-- The run stops behind some of `us`, in front of the others and `rest`. -/
def StopsAmong {α : Type} (us rest : List Token) (r : Run α) : Prop :=
  ∃ s ws, r = Run.stopped s ∧ ws <:+ us ∧ s.rest = ws ++ rest ∧ s.fault ≠ .unexpectedEnd

lemma StopsAmong.cons {α : Type} {us rest : List Token} {r : Run α} (h : StopsAmong us rest r)
    (t : Token) : StopsAmong (t :: us) rest r := by
  rcases h with ⟨s, ws, hs, hws, hrest⟩
  exact ⟨s, ws, hs, hws.trans (List.suffix_cons t us), hrest⟩

/-- A lawful reading whose phrases are plain comes to its end, one way or the other, in front of the
next boundary. -/
lemma Lawful.left_plain {α : Type} {f : List Token → Reading α} {R : List Token → α → Prop}
    (hf : Lawful f R)
    (hplain : ∀ {us x}, R us x → Plain us) {b : Token} (hb : isBoundary b.kind = true)
    (us rest : List Token) :
    ∃ ws, ws <:+ us ∧ left (f (us ++ b :: rest)) = ws ++ b :: rest := by
  cases h : f (us ++ b :: rest) with
  | ok p =>
      obtain ⟨vs, hvs, hR⟩ := (hf.law _).sound h
      obtain ⟨ws, rfl, hws⟩ := plain_in_front (hplain hR) hb hvs.symm
      exact ⟨ws, List.suffix_append vs ws, hws⟩
  | error s =>
      obtain ⟨vs, xs, x, hvs, hR⟩ := (hf.law _).viable h
      obtain ⟨ws, rfl, hws⟩ := plain_in_front ((plain_append _ _).mp (hplain hR)).1 hb hvs.symm
      exact ⟨ws, List.suffix_append vs ws, hws⟩

section Pieces

variable {inside : BlockReader} {us : List Token} {semi : Token}

/-- Without a brace a statement with a condition and a block stops, in the condition or behind
it. -/
lemma guarded_block_piece {owner owner' : Word}
    {g : Tree → Tree → List Token → Run (Tree × List Token)}
    (hus : Plain us) (hsemi : semi.kind = .sign .semicolon) (rest : List Token) :
    StopsAmong us (semi :: rest) (runThen (inOneGo (guarded owner))
      (fun test => runThen (block inside owner') (g test)) (us ++ semi :: rest)) := by
  obtain ⟨ws, hws, hleft⟩ := (lawful_guarded owner).left_plain Guard.plain
    (isBoundary_semicolon hsemi) us rest
  cases h : guarded owner (us ++ semi :: rest) with
  | error s =>
      rw [h, left_error] at hleft
      refine ⟨s, ws, ?_, hws, hleft, ((lawful_guarded owner).law _).classed h⟩
      rw [runThen_inOneGo_error h]
  | ok p =>
      obtain ⟨test, behind⟩ := p
      rw [h] at hleft
      obtain ⟨t, more, hmore, ht⟩ :
          ∃ t more, ws ++ semi :: rest = t :: more ∧ t.kind ≠ .sign .openBrace := by
        cases ws with
        | nil => exact ⟨semi, rest, rfl, by rw [hsemi]; decide⟩
        | cons w ws =>
            have hw := hus w (hws.subset List.mem_cons_self)
            exact ⟨w, _, rfl, fun hopen => by rw [hopen] at hw; cases hw⟩
      have hblock : block inside owner' behind =
          Run.stopped (.before (.blockOpen owner') (t :: more)) := by
        rw [← block_refuses ht more, ← hmore, ← hleft]
        rfl
      refine ⟨.before (.blockOpen owner') (t :: more), ws, ?_, hws, hmore.symm,
        Stop.fault_before _ _⟩
      rw [runThen_inOneGo_ok h, runThen_error (by rw [eventually, hblock]; rfl), hblock]
      rfl

/-- What is read as a statement without blocks, and is not one, stops before its semicolon. -/
lemma simple_piece {t : Token} {f : List Token → Reading Tree}
    (hf : Lawful f fun us tree => Simple (t :: us) tree)
    (hstatement : statement inside (t :: (us ++ semi :: rest)) = inOneGo f (us ++ semi :: rest))
    (hplain : Plain (t :: us)) (hsemi : semi.kind = .sign .semicolon)
    (hno : ∀ tree, ¬ Simple (t :: us ++ [semi]) tree) :
    StopsAmong us (semi :: rest) (inOneGo f (us ++ semi :: rest)) := by
  have hboundary := isBoundary_semicolon hsemi
  cases hread : f (us ++ semi :: rest) with
  | ok q =>
      obtain ⟨vs, hvs, hsimple⟩ := (hf.law _).sound hread
      obtain ⟨ws, semi', hws, hplain', hsemi'⟩ := hsimple.ends
      have hcut : (t :: us) ++ semi :: rest = ws ++ semi' :: q.2 := by
        rw [List.cons_append, hvs, ← List.cons_append, hws, List.append_assoc]
        rfl
      obtain ⟨rfl, rfl, _⟩ := plain_unique hplain hplain' hboundary (isBoundary_semicolon hsemi')
        hcut
      rw [hws] at hsimple
      exact absurd hsimple (hno _)
  | error s =>
      obtain ⟨vs, xs, tree, hvs, hsimple⟩ := (hf.law _).viable hread
      -- had it taken a whole statement, it would have come to a value
      have hxs : xs ≠ [] := by
        rintro rfl
        rw [List.append_nil] at hsimple
        have hdone := statement_simple hsimple inside s.rest
        rw [List.cons_append, ← hvs, hstatement, inOneGo, hread] at hdone
        cases hdone
      have hvs' : Plain vs := by
        obtain ⟨ws, semi', hws, hplain', _⟩ := hsimple.ends
        have hlast := congrArg List.dropLast hws
        rw [List.dropLast_concat, ← List.cons_append, List.dropLast_append_of_ne_nil hxs] at hlast
        rw [← hlast, plain_append, plain_cons] at hplain'
        exact hplain'.1.2
      obtain ⟨ws, rfl, hrest⟩ := plain_in_front hvs' hboundary hvs.symm
      refine ⟨s, ws, ?_, List.suffix_append vs ws, hrest, (hf.law _).classed hread⟩
      rw [inOneGo, hread]
      rfl

/-- A broken piece stops the statement that it is read as, before its semicolon. -/
lemma statement_piece (hplain : Plain us) (hsemi : semi.kind = .sign .semicolon)
    (inside : BlockReader) (hno : ∀ tree, ¬ Simple (us ++ [semi]) tree) (rest : List Token) :
    StopsAmong us (semi :: rest) (statement inside (us ++ semi :: rest)) := by
  cases us with
  | nil =>
      refine ⟨.before .statement (semi :: rest), [], ?_, List.suffix_refl _, rfl,
        Stop.fault_before _ _⟩
      simp only [List.nil_append, statement, misplaced, hsemi]
  | cons t us =>
      have hus := ((plain_cons t us).mp hplain).2
      rw [List.cons_append]
      cases starts t with
      | simple f hf h =>
          rw [h]
          exact (simple_piece hf (h inside _) hplain hsemi hno).cons t
      | loop _ h =>
          rw [h, loop_eq]
          exact (guarded_block_piece hus hsemi rest).cons t
      | conditional _ h =>
          rw [h, conditional_eq]
          exact (guarded_block_piece hus hsemi rest).cons t
      | misplaced h =>
          exact ⟨_, t :: us, h inside _, List.suffix_refl _, rfl, Stop.fault_before _ _⟩

/-- **A broken piece** is passed over with one stop, and that lies in it. -/
theorem turn_piece {body : Bool} {p : List Token} (hp : BrokenPiece body p) (inside : BlockReader)
    (rest : List Token) :
    ∃ s, turn inside (p ++ rest) = ⟨[s], .ok ([], rest)⟩ ∧ StopsIn p s := by
  obtain ⟨us, semi, rfl, hplain, hsemi⟩ := hp.ends
  obtain ⟨s, ws, hrun, hws, hrest, hfault⟩ := statement_piece hplain hsemi inside
    (fun tree h => hp.noStatement tree (.simple h)) rest
  have hne : s.rest ≠ [] := by
    rw [hrest]
    simp
  have hwsplain : Plain ws := fun t ht => hplain t (hws.subset ht)
  refine ⟨s, ?_, hfault, ?_⟩
  · rw [List.append_assoc, List.singleton_append, turn,
      recovered_broken (s := s) (by rw [hrun]; rfl) hne, hrun, hrest,
      resynchronize_piece hwsplain hsemi]
    rfl
  · cases ws with
    | nil => exact ⟨semi, by simp, rest, hrest⟩
    | cons w ws => exact ⟨w, List.mem_append_left _ (hws.subset List.mem_cons_self), _, hrest⟩

end Pieces

/-! ## Statements with blocks -/

section Blocks

variable {inside : BlockReader} {t o c : Token} {gs bs rest : List Token} {test : Tree}
  {trees : List Tree} {stops : List Stop}

/-- A block is read as what stands in it. -/
lemma block_read (ho : o.kind = .sign .openBrace) (hc : c.kind = .sign .closeBrace)
    (hin : inside (bs ++ c :: rest) = ⟨stops, .ok (trees, c :: rest)⟩) (owner : Word) :
    block inside owner ((o :: bs ++ [c]) ++ rest) =
    ⟨stops, .ok (blockNode (bs ++ [c]) trees, rest)⟩ := by
  have hnode : blockNode (bs ++ c :: rest) trees = blockNode (bs ++ [c]) trees := by
    cases bs <;> rfl
  rw [List.append_assoc, List.singleton_append, List.cons_append, block_open ho,
    runThen_ok (by rw [eventually, hin]), hin, runThen_inOneGo_ok (expect_ok hc _), hnode]
  simp [Run.done]

/-- The condition of a statement is read, and the rest of the statement behind it. -/
lemma guarded_read {owner : Word} (hg : Guard gs test)
    (g : Tree → List Token → Run (Tree × List Token)) :
    runThen (inOneGo (guarded owner)) g (gs ++ rest) = g test rest :=
  runThen_inOneGo_ok (complete_guarded owner rest hg (apart_anything rest))

lemma loop_read (ht : t.kind = .word .mientras) (hg : Guard gs test)
    (ho : o.kind = .sign .openBrace) (hc : c.kind = .sign .closeBrace)
    (hin : inside (bs ++ c :: rest) = ⟨stops, .ok (trees, c :: rest)⟩) :
    statement inside ((t :: gs ++ (o :: bs ++ [c])) ++ rest) =
      ⟨stops, .ok (.node ⟨.loop, none, t.position⟩ [test, blockNode (bs ++ [c]) trees], rest)⟩ := by
  have hblock := block_read ho hc hin .mientras
  rw [List.append_assoc, List.cons_append]
  simp only [statement, ht]
  rw [loop_eq, guarded_read hg, runThen_ok (by rw [eventually, hblock]), hblock]
  simp [Run.done]

/-- A conditional without a second block must not have `sino` behind it. -/
lemma conditional_read (ht : t.kind = .word .si) (hg : Guard gs test)
    (ho : o.kind = .sign .openBrace) (hc : c.kind = .sign .closeBrace)
    (hin : inside (bs ++ c :: rest) = ⟨stops, .ok (trees, c :: rest)⟩)
    (hrest : otherwiseFollows rest = false) :
    statement inside ((t :: gs ++ (o :: bs ++ [c])) ++ rest) =
      ⟨stops, .ok (.node ⟨.conditional, none, t.position⟩
        [test, blockNode (bs ++ [c]) trees], rest)⟩ := by
  have hblock := block_read ho hc hin .si
  rw [List.append_assoc, List.cons_append]
  simp only [statement, ht]
  rw [conditional_eq, guarded_read hg, runThen_ok (by rw [eventually, hblock]), hblock, otherwise,
    hrest]
  simp [Run.done]

lemma alternative_read {e o' c' : Token} {bs' : List Token} {trees' : List Tree}
    {stops' : List Stop} (ht : t.kind = .word .si) (hg : Guard gs test)
    (ho : o.kind = .sign .openBrace)
    (hc : c.kind = .sign .closeBrace)
    (hin : inside (bs ++ c :: (e :: (o' :: bs' ++ [c']) ++ rest)) =
      ⟨stops, .ok (trees, c :: (e :: (o' :: bs' ++ [c']) ++ rest))⟩)
    (he : e.kind = .word .sino) (ho' : o'.kind = .sign .openBrace)
    (hc' : c'.kind = .sign .closeBrace)
    (hin' : inside (bs' ++ c' :: rest) = ⟨stops', .ok (trees', c' :: rest)⟩) :
    statement inside ((t :: gs ++ (o :: bs ++ [c]) ++ e :: (o' :: bs' ++ [c'])) ++ rest) =
      ⟨stops ++ stops', .ok (.node ⟨.alternative, none, t.position⟩
        [test, blockNode (bs ++ [c]) trees, blockNode (bs' ++ [c']) trees'], rest)⟩ := by
  have hblock := block_read ho hc hin .si
  have hblock' := block_read ho' hc' hin' .sino
  have hfollows : otherwiseFollows (e :: (o' :: bs' ++ [c']) ++ rest) = true := by
    simp [otherwiseFollows, he]
  have hassoc : (t :: gs ++ (o :: bs ++ [c]) ++ e :: (o' :: bs' ++ [c'])) ++ rest =
      t :: (gs ++ ((o :: bs ++ [c]) ++ (e :: (o' :: bs' ++ [c']) ++ rest))) := by simp
  rw [hassoc]
  simp only [statement, ht]
  rw [conditional_eq, guarded_read hg, runThen_ok (by rw [eventually, hblock]), hblock, otherwise,
    hfollows, if_pos rfl, List.cons_append, List.drop_one, List.tail_cons,
    runThen_ok (by rw [eventually, hblock']), hblock']
  simp [Run.done]

end Blocks

/-! ## Lists of statements with broken pieces in them -/

/-- Statements with broken pieces between them, to any depth of blocks.  The pieces are listed in
their order, the trees are those of the statements; `body` says whether it is the body of the
program. -/
inductive Padded : Bool → List (List Token) → List Token → List Tree → Prop
  | nil {body} : Padded body [] [] []
  | piece {body p ps us trees} (hp : BrokenPiece body p) (hs : Padded body ps us trees) :
      Padded body (p :: ps) (p ++ us) trees
  | simple {body ps ts us tree trees} (h : Simple ts tree) (hs : Padded body ps us trees) :
      Padded body ps (ts ++ us) (tree :: trees)
  | loop {body qs ps t gs o bs c us test inner trees} (ht : t.kind = .word .mientras)
      (hg : Guard gs test) (ho : o.kind = .sign .openBrace) (hb : Padded false qs bs inner)
      (hc : c.kind = .sign .closeBrace) (hs : Padded body ps us trees) :
      Padded body (qs ++ ps) ((t :: gs ++ (o :: bs ++ [c])) ++ us)
        (.node ⟨.loop, none, t.position⟩ [test, blockNode (bs ++ [c]) inner] :: trees)
  | conditional {body qs ps t gs o bs c us test yes trees} (ht : t.kind = .word .si)
      (hg : Guard gs test) (ho : o.kind = .sign .openBrace) (hb : Padded false qs bs yes)
      (hc : c.kind = .sign .closeBrace) (hs : Padded body ps us trees) :
      Padded body (qs ++ ps) ((t :: gs ++ (o :: bs ++ [c])) ++ us)
        (.node ⟨.conditional, none, t.position⟩ [test, blockNode (bs ++ [c]) yes] :: trees)
  | alternative {body qs qs' ps t gs o bs c e o' bs' c' us test yes no trees}
      (ht : t.kind = .word .si)
      (hg : Guard gs test) (ho : o.kind = .sign .openBrace) (hb : Padded false qs bs yes)
      (hc : c.kind = .sign .closeBrace) (he : e.kind = .word .sino)
      (ho' : o'.kind = .sign .openBrace)
      (hb' : Padded false qs' bs' no) (hc' : c'.kind = .sign .closeBrace)
      (hs : Padded body ps us trees) :
      Padded body (qs ++ qs' ++ ps)
        ((t :: gs ++ (o :: bs ++ [c]) ++ e :: (o' :: bs' ++ [c'])) ++ us)
        (.node ⟨.alternative, none, t.position⟩
          [test, blockNode (bs ++ [c]) yes, blockNode (bs' ++ [c']) no] :: trees)

/-- Statements are a list without broken pieces. -/
lemma Phrase.Statements.padded {ts : List Token} {trees : List Tree} (h : Statements ts trees)
    (body : Bool) : Padded body [] ts trees := by
  induction h generalizing body with
  | nil => exact .nil
  | simple h _ ih => exact .simple h (ih body)
  | loop ht hg ho _ hc _ ihb ih => exact (Padded.loop ht hg ho (ihb false) hc (ih body) :)
  | conditional ht hg ho _ hc _ ihb ih =>
      exact (Padded.conditional ht hg ho (ihb false) hc (ih body) :)
  | alternative ht hg ho _ hc he ho' _ hc' _ ihb ihb' ih =>
      exact (Padded.alternative ht hg ho (ihb false) hc he ho' (ihb' false) hc' (ih body) :)

/-- A token with which neither a list of statements ends nor a conditional goes on. -/
structure OpensNext (body : Bool) (t : Token) : Prop where
  notClose : t.kind ≠ .sign .closeBrace
  notElse : t.kind ≠ .word .sino
  notTerminate : body = true → t.kind ≠ .word .terminar

lemma OpensNext.goesOn {body : Bool} {t : Token} (h : OpensNext body t) (us : List Token) :
    endsStatements body (t :: us) = false := by
  cases body with
  | false => simpa [endsStatements] using h.notClose
  | true => simpa [endsStatements] using ⟨h.notClose, h.notTerminate rfl⟩

lemma OpensNext.noElse {body : Bool} {t : Token} (h : OpensNext body t) (us : List Token) :
    otherwiseFollows (t :: us) = false := by
  simpa [otherwiseFollows] using h.notElse

lemma opensNext_of_kind {body : Bool} {t : Token} {k : Kind} (ht : t.kind = k)
    (hclose : k ≠ .sign .closeBrace)
    (helse : k ≠ .word .sino) (hterminate : k ≠ .word .terminar) : OpensNext body t :=
  ⟨ht ▸ hclose, ht ▸ helse, fun _ => ht ▸ hterminate⟩

lemma Phrase.Simple.opensNext {ts : List Token} {tree : Tree} (h : Simple ts tree) (body : Bool) :
    ∃ t us, ts = t :: us ∧ OpensNext body t := by
  cases h with
  | initialization ht => exact ⟨_, _, rfl, opensNext_of_kind ht (by simp) (by simp) (by simp)⟩
  | declaration ht => exact ⟨_, _, rfl, opensNext_of_kind ht (by simp) (by simp) (by simp)⟩
  | assignment ht => exact ⟨_, _, rfl, opensNext_of_kind ht (by simp) (by simp) (by simp)⟩
  | print ht => exact ⟨_, _, rfl, opensNext_of_kind ht (by simp) (by simp) (by simp)⟩
  | read ht => exact ⟨_, _, rfl, opensNext_of_kind ht (by simp) (by simp) (by simp)⟩

lemma BrokenPiece.opensNext {body : Bool} {p : List Token} (hp : BrokenPiece body p) :
    ∃ t us, p = t :: us ∧ OpensNext body t := by
  obtain ⟨us, semi, rfl, hplain, hsemi⟩ := hp.ends
  have hno := hp.notElse
  have hnt := hp.notTerminate
  cases us with
  | nil => exact ⟨semi, [], rfl, opensNext_of_kind hsemi (by simp) (by simp) (by simp)⟩
  | cons t us =>
      rw [List.cons_append, apart_cons, beq_eq_false_iff_ne] at hno
      refine ⟨t, _, rfl, fun ht => ?_, hno, fun hbody => ?_⟩
      · rw [plain_cons, ht] at hplain
        cases hplain.1
      · have h := hnt hbody
        rwa [List.cons_append, apart_cons, beq_eq_false_iff_ne] at h

/-- Behind a conditional the next statement, the next piece or the end of the list is no `sino`. -/
lemma Padded.noElse {body : Bool} {ps : List (List Token)} {ts : List Token} {trees : List Tree}
    (h : Padded body ps ts trees) {rest : List Token} (hrest : endsStatements body rest = true) :
    otherwiseFollows (ts ++ rest) = false := by
  cases h with
  | nil =>
      cases rest with
      | nil => rfl
      | cons t rest =>
          simp only [endsStatements, Bool.or_eq_true, Bool.and_eq_true, beq_iff_eq] at hrest
          simp only [List.nil_append, otherwiseFollows, beq_eq_false_iff_ne]
          rcases hrest with h | ⟨_, h⟩ <;> rw [h] <;> simp
  | piece hp _ =>
      obtain ⟨t, us, rfl, ht⟩ := hp.opensNext
      exact ht.noElse _
  | simple h _ =>
      obtain ⟨t, us, rfl, ht⟩ := h.opensNext body
      exact ht.noElse _
  | loop ht =>
      exact (opensNext_of_kind ht (by simp) (by simp) (by simp) : OpensNext body _).noElse _
  | conditional ht =>
      exact (opensNext_of_kind ht (by simp) (by simp) (by simp) : OpensNext body _).noElse _
  | alternative ht =>
      exact (opensNext_of_kind ht (by simp) (by simp) (by simp) : OpensNext body _).noElse _

/-- One turn and the others, when both are known. -/
lemma statements_step {body : Bool} {t : Token} {us vs rest : List Token} {first others : List Tree}
    {stops stops' : List Stop} (ht : OpensNext body t)
    (hturn : turn (statements false) (t :: us) = ⟨stops, .ok (first, vs)⟩)
    (hs : statements body vs = ⟨stops', .ok (others, rest)⟩) :
    statements body (t :: us) = ⟨stops ++ stops', .ok (first ++ others, rest)⟩ := by
  rw [statements_goesOn (ht.goesOn us), runThen_ok (by rw [eventually, hturn]), hturn,
    runThen_ok (by rw [eventually, hs]), hs]
  simp [Run.done]

lemma turn_read {inside : BlockReader} {ts rest : List Token} {tree : Tree} {stops : List Stop}
    (h : statement inside ts = ⟨stops, .ok (tree, rest)⟩) :
    turn inside ts = ⟨stops, .ok ([tree], rest)⟩ := by
  rw [turn, recovered_ok (by rw [h]), h]

/-- **Statements with broken pieces between them** are read as the statements, with one stop for
each piece. -/
theorem statements_padded {body : Bool} {ps : List (List Token)} {ts : List Token}
    {trees : List Tree}
    (h : Padded body ps ts trees) {rest : List Token} (hrest : endsStatements body rest = true) :
    ∃ stops, statements body (ts ++ rest) = ⟨stops, .ok (trees, rest)⟩ ∧
    List.Forall₂ StopsIn ps stops := by
  have hclose : ∀ {c : Token} (us : List Token), c.kind = .sign .closeBrace →
      endsStatements false (c :: us) = true :=
    fun us hc => by simp [endsStatements, hc]
  induction h generalizing rest with
  | nil => exact ⟨[], by rw [List.nil_append, statements_ends hrest]; rfl, .nil⟩
  | @piece body p ps us trees hp _ ih =>
      obtain ⟨stops, hrun, hstops⟩ := ih hrest
      obtain ⟨s, hturn, hs⟩ := turn_piece hp (statements false) (us ++ rest)
      obtain ⟨t, p, rfl, ht⟩ := hp.opensNext
      exact ⟨s :: stops, by rw [List.append_assoc]; exact statements_step ht hturn hrun,
        .cons hs hstops⟩
  | @simple body ps ts us tree trees h _ ih =>
      obtain ⟨stops, hrun, hstops⟩ := ih hrest
      have hturn := turn_read (statement_simple h (statements false) (us ++ rest))
      obtain ⟨t, ts, rfl, ht⟩ := h.opensNext body
      exact ⟨stops, by rw [List.append_assoc]; exact statements_step ht hturn hrun, hstops⟩
  | @loop _ _ _ t gs o bs c us _ _ _ ht hg ho _ hc _ ihb ih =>
      obtain ⟨stops', hrun, hstops⟩ := ih hrest
      obtain ⟨stops, hinner, hinnerStops⟩ := ihb (hclose (us ++ rest) hc)
      have hturn := turn_read (loop_read ht hg ho hc hinner)
      refine ⟨stops ++ stops', ?_, List.rel_append hinnerStops hstops⟩
      rw [List.append_assoc]
      exact statements_step (opensNext_of_kind ht (by simp) (by simp) (by simp)) hturn hrun
  | @conditional _ _ _ t gs o bs c us _ _ _ ht hg ho _ hc hs ihb ih =>
      obtain ⟨stops', hrun, hstops⟩ := ih hrest
      obtain ⟨stops, hinner, hinnerStops⟩ := ihb (hclose (us ++ rest) hc)
      have hturn := turn_read (conditional_read ht hg ho hc hinner (hs.noElse hrest))
      refine ⟨stops ++ stops', ?_, List.rel_append hinnerStops hstops⟩
      rw [List.append_assoc]
      exact statements_step (opensNext_of_kind ht (by simp) (by simp) (by simp)) hturn hrun
  | @alternative _ _ _ _ t gs o bs c e o' bs' c' us _ _ _ _ ht hg ho _ hc he ho' _ hc' _ ihb ihb'
      ih =>
      obtain ⟨stops'', hrun, hstops⟩ := ih hrest
      obtain ⟨stops, hinner, hinnerStops⟩ :=
        ihb (hclose (e :: (o' :: bs' ++ [c']) ++ (us ++ rest)) hc)
      obtain ⟨stops', hinner', hinnerStops'⟩ := ihb' (hclose (us ++ rest) hc')
      have hturn := turn_read (alternative_read ht hg ho hc hinner he ho' hc' hinner')
      refine ⟨(stops ++ stops') ++ stops'', ?_,
        List.rel_append (List.rel_append hinnerStops hinnerStops') hstops⟩
      rw [List.append_assoc]
      exact statements_step (opensNext_of_kind ht (by simp) (by simp) (by simp)) hturn hrun

/-! ## Programs -/

/-- **Programs with broken pieces in them** are read as the programs, with one stop for each
piece. -/
theorem program_padded {ps : List (List Token)} {ts : List Token} {tree : Tree}
    (h : ProgramOf (Padded true ps) ts tree) :
    ∃ stops, program ts = ⟨stops, .ok tree⟩ ∧ List.Forall₂ StopsIn ps stops := by
  rcases h with ⟨hp, hn, ho, hc, hb, hs, he, hsemi, hclose⟩
  rename_i p name o c b ss trees e semi close
  have hends : endsStatements true [e, semi, close] = true := by simp [endsStatements, he]
  obtain ⟨stops, hrun, hstops⟩ := statements_padded hs hends
  have hheading : heading (p :: name :: o :: c :: b :: (ss ++ [e, semi, close])) =
      .ok (name.text?.getD [], ss ++ [e, semi, close]) :=
    complete_heading _ ⟨p, name, o, c, b, rfl, hp, hn, ho, hc, hb, rfl⟩ (apart_anything _)
  have hopening : opening (p :: name :: o :: c :: b :: (ss ++ [e, semi, close])) =
      Run.done (some (name.text?.getD []), ss ++ [e, semi, close]) := by rw [opening, hheading]
  have hterminate : terminate [e, semi, close] =
      Run.done ([.node ⟨.terminate, none, e.position⟩ []], [close]) := by
    rw [terminate, expect_ok he]
    simp only [terminateSemicolon, expect_ok hsemi]
    rfl
  have hclosing : closing [close] = Run.done [] := by rw [closing, expect_ok hclose]
  have hnode : blockNode (ss ++ [e, semi, close]) trees = blockNode (ss ++ [e]) trees := by
    cases ss <;> rfl
  refine ⟨stops, ?_, hstops⟩
  change Run.andThen _ _ = _
  simp only [List.cons_append, hopening, Run.andThen, Run.done, bind, hrun, hterminate, hclosing,
    trailing, pure, hnode, nextPosition, List.append_nil, List.nil_append]

/-- **Programs are read as the grammar says**, without a stop. -/
theorem program_complete {ts : List Token} {tree : Tree} (h : Program ts tree) :
    program ts = Run.done tree := by
  have hpadded : ProgramOf (Padded true []) ts tree := by
    rcases h with ⟨hp, hn, ho, hc, hb, hs, he, hsemi, hclose⟩
    exact .intro hp hn ho hc hb (hs.padded true) he hsemi hclose
  obtain ⟨stops, hrun, hstops⟩ := program_padded hpadded
  cases hstops
  exact hrun

end Imperativo.Grammar
