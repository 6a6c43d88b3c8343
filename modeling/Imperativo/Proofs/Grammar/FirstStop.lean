import Imperativo.Proofs.Grammar.Turns

/-!
# Reading up to the first stop

A run passes over broken statements and goes on.  Up to the first stop, passed over or final, it is
an ordinary reading: `Run.first` gives the value if there was no stop at all, and the first stop
otherwise.  That reading is put together from its parts in the same way as the run is
(`Run.first_bind`), so the statements with blocks, and the whole program, obey the law of readings
up to their first stop.

* **`lawful_statements`** — lists of statements, whatever the number of turns they are given.
* **`lawful_program`** — whole programs.
-/

namespace Imperativo.Grammar

open Phrase

variable {α β : Type}

/-! ## The first stop of a run -/

namespace Run

/-- The value of a run without a stop, or its first stop. -/
def first (r : Run α) : Except Stop α :=
  match r.passed with
  | [] => r.outcome
  | s :: _ => .error s

@[simp] lemma first_ofReading (r : Except Stop α) : (ofReading r).first = r := by
  cases r <;> rfl

@[simp] lemma first_passOver (s : Stop) : (passOver s).first = .error s := by
  unfold passOver
  split <;> rfl

/-- Runs one after another stop first where the first of them does, or else the second. -/
lemma first_bind (r : Run α) (g : α → Run β) :
    (r >>= g).first = Except.bind r.first fun x => (g x).first := by
  obtain ⟨passed, outcome⟩ := r
  change (andThen ⟨passed, outcome⟩ g).first = _
  cases passed with
  | cons s passed => cases outcome <;> rfl
  | nil => cases outcome <;> rfl

end Run

/-- The reading of a run up to its first stop. -/
def strictly (f : List Token → Run (α × List Token)) (ts : List Token) : Reading α := (f ts).first

lemma strictly_runThen (f : List Token → Run (α × List Token))
    (g : α → List Token → Run (β × List Token)) :
    strictly (runThen f g) = readThen (strictly f) fun x => strictly (g x) :=
  funext fun _ => Run.first_bind _ _

lemma strictly_inOneGo (f : List Token → Reading α) : strictly (inOneGo f) = f :=
  funext fun _ => Run.first_ofReading _

lemma strictly_done (x : α) : strictly (fun ts => Run.done (x, ts)) = fun ts => .ok (x, ts) := rfl

/-! ## Values that carry where they begin -/

/-- The reading, its value put together with the position at which it starts. -/
def placed (h : Position → α → β) (f : List Token → Reading α) (ts : List Token) : Reading β :=
  (f ts).map fun p => (h (nextPosition ts) p.1, p.2)

lemma placed_ok {h : Position → α → β} {f : List Token → Reading α} {ts rest : List Token} {x : α}
    (hf : f ts = .ok (x, rest)) : placed h f ts = .ok (h (nextPosition ts) x, rest) := by
  rw [placed, hf]
  rfl

lemma placed_error {h : Position → α → β} {f : List Token → Reading α} {ts : List Token} {s : Stop}
    (hf : f ts = .error s) : placed h f ts = .error s := by
  rw [placed, hf]
  rfl

lemma nextPosition_append {ts : List Token} (h : ts ≠ []) (us : List Token) :
    nextPosition (ts ++ us) = nextPosition ts := by
  cases ts with
  | nil => exact absurd rfl h
  | cons t ts => rfl

/-- A phrase with at least one token begins where its first token stands, whatever follows. -/
lemma Lawful.placed {f : List Token → Reading α} {R : List Token → α → Prop} (hf : Lawful f R)
    (hR : ∀ us x, R us x → us ≠ []) (h : Position → α → β) :
    Lawful (placed h f) fun us y => ∃ x, R us x ∧ y = h (nextPosition us) x where
  phrase := by
    obtain ⟨us, x, hx⟩ := hf.phrase
    exact ⟨us, _, x, hx, rfl⟩
  law ts := by
    refine ⟨fun hts => ?_, fun hts => ?_, fun more hts hrest => ?_, fun more hts hrest => ?_,
      fun more hts => ?_, fun hts => ?_⟩
    · cases hfts : f ts with
      | error s => rw [placed_error hfts] at hts; cases hts
      | ok p =>
          rw [placed_ok hfts] at hts
          cases hts
          obtain ⟨us, rfl, hx⟩ := (hf.law ts).sound hfts
          exact ⟨us, rfl, p.1, hx, by rw [nextPosition_append (hR _ _ hx)]⟩
    · cases hfts : f ts with
      | ok p => rw [placed_ok hfts] at hts; cases hts
      | error s =>
          rw [placed_error hfts] at hts
          cases hts
          obtain ⟨us, vs, x, hus, hx⟩ := (hf.law ts).viable hfts
          exact ⟨us, vs, _, hus, x, hx, rfl⟩
    · cases hfts : f ts with
      | error s => rw [placed_error hfts] at hts; cases hts
      | ok p =>
          rw [placed_ok hfts] at hts
          cases hts
          obtain ⟨us, rfl, hx⟩ := (hf.law ts).sound hfts
          rw [placed_ok ((hf.law _).extend more hfts hrest), nextPosition_append]
          exact List.append_ne_nil_of_left_ne_nil (hR _ _ hx) _
    · cases hfts : f ts with
      | ok p => rw [placed_ok hfts] at hts; cases hts
      | error s =>
          rw [placed_error hfts] at hts
          cases hts
          obtain ⟨s', hs', hc⟩ := (hf.law ts).refuse more hfts hrest
          exact ⟨s', placed_error hs', hc⟩
    · have hleft : ∀ us, left (Grammar.placed h f us) = left (f us) := by
        intro us
        cases hfus : f us with
        | error s => rw [placed_error hfus]; rfl
        | ok p => rw [placed_ok hfus]; rfl
      rw [hleft] at hts ⊢
      exact (hf.law ts).exhaust more hts
    · cases hfts : f ts with
      | ok p => rw [placed_ok hfts] at hts; cases hts
      | error s => rw [placed_error hfts] at hts; cases hts; exact (hf.law ts).classed hfts

/-! ## Statements with blocks -/

section Blocks

variable {inside : BlockReader}

/-- The node of a list of statements that starts at `p`. -/
def blockAt (p : Position) (trees : List Tree) : Tree := .node ⟨.block, none, p⟩ trees

lemma strictly_block (owner : Word) : strictly (block inside owner) =
    readThen (expect (.sign .openBrace) (.blockOpen owner)) fun _ =>
      placed blockAt (readThen (strictly inside) fun trees =>
        readThen (expect (.sign .closeBrace) (.blockClose owner)) fun _ ts => .ok (trees, ts)) := by
  funext ts
  rw [strictly, block, Run.first_bind, Run.first_ofReading]
  cases hopen : expect (.sign .openBrace) (.blockOpen owner) ts with
  | error s => rw [readThen_error hopen]; rfl
  | ok p =>
      obtain ⟨o, start⟩ := p
      rw [readThen_ok hopen]
      simp only [Except.bind, Run.first_bind]
      cases hin : strictly inside start with
      | error s =>
          rw [placed_error (readThen_error hin)]
          rw [strictly] at hin
          rw [hin]
      | ok q =>
          obtain ⟨trees, rest⟩ := q
          have hrun : (inside start).first = .ok (trees, rest) := hin
          rw [hrun]
          simp only [Run.first_ofReading]
          cases hclose : expect (.sign .closeBrace) (.blockClose owner) rest with
          | error s => rw [placed_error (by rw [readThen_ok hin, readThen_error hclose])]
          | ok r => rw [placed_ok (by rw [readThen_ok hin, readThen_ok hclose])]; rfl

lemma lawful_block {Inside : List Token → List Tree → Prop} (hin : Lawful (strictly inside) Inside)
    (owner : Word) : Lawful (strictly (block inside owner)) (Block Inside) := by
  rw [strictly_block]
  have hbody := hin.bind fun trees =>
    (lawful_expect (.sign .closeBrace) (.blockClose owner)).bind fun _ => lawful_pure trees
  refine ((lawful_expect _ _).bind fun _ => hbody.placed ?_ blockAt).mono ?_
  · rintro _ _ ⟨us, _, _, rfl, _, _, _, c, rfl, ⟨rfl, _⟩, _⟩
    simp
  · rintro _ _ ⟨_, _, o, rfl, ⟨rfl, ho⟩, _,
      ⟨us, _, trees, rfl, h, _, _, c, rfl, ⟨rfl, hc⟩, rfl, rfl⟩, rfl⟩
    exact .intro ho h hc

variable {Inside : List Token → List Tree → Prop}

/-- What stands behind the first block of a conditional: nothing, or a second block. -/
def Otherwise (Inside : List Token → List Tree → Prop) (t : Token) (test yes : Tree)
    (us : List Token) (tree : Tree) : Prop :=
  us = [] ∧ tree = .node ⟨.conditional, none, t.position⟩ [test, yes] ∨
    ∃ e ws no, us = e :: ws ∧ e.kind = .word .sino ∧ Block Inside ws no ∧
      tree = .node ⟨.alternative, none, t.position⟩ [test, yes, no]

lemma lawful_otherwise (hin : Lawful (strictly inside) Inside) (t : Token) (test yes : Tree) :
    Lawful (strictly (otherwise inside t test yes)) (Otherwise Inside t test yes) := by
  have hnone : Otherwise Inside t test yes []
      (.node ⟨.conditional, none, t.position⟩ [test, yes]) := .inl ⟨rfl, rfl⟩
  refine .of_cons ⟨_, _, hnone⟩ (.inr ⟨_, rfl, hnone⟩) fun e rest => ?_
  by_cases he : e.kind = .word .sino
  · refine .cons (g := readThen (strictly (block inside .sino)) fun no rest =>
      .ok (.node ⟨.alternative, none, t.position⟩ [test, yes, no], rest)) (fun rest => ?_)
      (((lawful_block hin .sino).bind fun no => lawful_pure _).law rest) ?_
    · have hfollows : otherwiseFollows (e :: rest) = true := by simp [otherwiseFollows, he]
      rw [strictly, otherwise, if_pos hfollows, ← strictly, strictly_runThen]
      rfl
    · rintro _ _ ⟨ws, _, no, rfl, hno, rfl, rfl⟩
      rw [List.append_nil]
      exact .inr ⟨e, ws, no, rfl, he, hno, rfl⟩
  · refine .cons_ok (fun rest => ?_) hnone rest
    have hfollows : otherwiseFollows (e :: rest) ≠ true := by simp [otherwiseFollows, he]
    rw [strictly, otherwise, if_neg hfollows]
    rfl

lemma lawful_loop (hin : Lawful (strictly inside) Inside) {t : Token}
    (ht : t.kind = .word .mientras) :
    Lawful (strictly (loop inside t)) fun us tree => Statement Inside (t :: us) tree := by
  rw [loop_eq, strictly_runThen, strictly_inOneGo]
  simp only [strictly_runThen, strictly_done]
  refine ((lawful_guarded .mientras).bind fun test => (lawful_block hin .mientras).bind
    fun body => lawful_pure _).mono ?_
  rintro _ _ ⟨us, _, test, rfl, hg, vs, _, body, rfl, hb, rfl, rfl⟩
  rw [List.append_nil]
  exact .loop ht hg hb

lemma lawful_conditional (hin : Lawful (strictly inside) Inside) {t : Token}
    (ht : t.kind = .word .si) :
    Lawful (strictly (conditional inside t)) fun us tree => Statement Inside (t :: us) tree := by
  rw [conditional_eq, strictly_runThen, strictly_inOneGo]
  simp only [strictly_runThen]
  refine ((lawful_guarded .si).bind fun test => (lawful_block hin .si).bind fun yes =>
    lawful_otherwise hin t test yes).mono ?_
  rintro _ _ ⟨us, _, test, rfl, hg, vs, _, yes, rfl, hy, ⟨rfl, rfl⟩ | ⟨e, ws, no, rfl, he, hn, rfl⟩⟩
  · rw [List.append_nil]
    exact .conditional ht hg hy
  · have halt := Statement.alternative ht hg hy he hn
    rwa [List.cons_append, List.cons_append, List.append_assoc] at halt

/-- Which of the expectations is disappointed by a misplaced token depends on no more than the token
behind it. -/
lemma misplaced_append {t : Token} {rest : List Token} (more : List Token)
    (h : ¬ LoneLiteral (t :: rest)) : misplaced (t :: (rest ++ more)) = misplaced (t :: rest) := by
  cases rest with
  | cons u rest => rfl
  | nil =>
      cases ht : t.kind with
      | integer | float | character | string => exact absurd ⟨t, rfl, by rw [ht]; rfl⟩ h
      | word w => cases w <;> simp only [misplaced, ht]
      | _ => simp only [misplaced, ht]

lemma lawful_statement (hin : Lawful (strictly inside) Inside) :
    Lawful (strictly (statement inside)) (Statement Inside) := by
  refine Lawful.ofHead ⟨[⟨.word .leer, none, Position.start⟩, ⟨.identifier, none, Position.start⟩,
    ⟨.sign .semicolon, none, Position.start⟩], _, .simple (.read rfl rfl rfl)⟩ ⟨.statement, rfl⟩
    fun t => ?_
  cases starts t with
  | simple f hf h =>
      refine .inr ⟨f, _, hf, fun rest => ?_, fun us tree => .simple⟩
      rw [strictly, h, ← strictly, strictly_inOneGo]
  | loop ht h =>
      exact .inr ⟨_, _, lawful_loop hin ht, fun rest => by rw [strictly, h, strictly],
        fun us tree => id⟩
  | conditional ht h =>
      exact .inr ⟨_, _, lawful_conditional hin ht, fun rest => by rw [strictly, h, strictly],
        fun us tree => id⟩
  | misplaced h =>
      refine .inl ⟨fun rest => misplaced (t :: rest), fun rest => ?_,
        fun rest more => misplaced_append more⟩
      rw [strictly, h]
      rfl

/-- Up to the first stop a broken statement is a stop. -/
lemma first_recovered (r : Run (Tree × List Token)) :
    (recovered r).first = Except.bind r.first fun p => .ok ([p.1], p.2) := by
  obtain ⟨passed, outcome⟩ := r
  cases outcome with
  | ok p => rw [recovered_ok rfl]; cases passed <;> rfl
  | error s =>
      by_cases hs : s.rest = []
      · rw [recovered_fatal rfl hs]; cases passed <;> rfl
      · rw [recovered_broken rfl hs]; cases passed <;> rfl

lemma strictly_turn : strictly (turn inside) =
    readThen (strictly (statement inside)) fun tree rest => .ok ([tree], rest) :=
  funext fun _ => first_recovered _

end Blocks

/-! ## Lists of statements -/

lemma lawful_statementsWithin (turns : Nat) (body : Bool) :
    Lawful (strictly (statementsWithin turns body)) Statements := by
  induction turns generalizing body with
  | zero =>
      refine (lawful_pure ([] : List Tree)).mono ?_
      rintro _ _ ⟨rfl, rfl⟩
      exact .nil
  | succ turns ih =>
      refine .of_cons ⟨[], [], .nil⟩ (.inr ⟨[], rfl, .nil⟩) fun t rest => ?_
      cases hend : endsStatements body (t :: rest) with
      | true =>
          refine .cons_ok (fun rest => ?_) .nil rest
          rw [strictly, statementsWithin_ends
            (show endsStatements body (t :: rest) = true from hend)]
          rfl
      | false =>
          refine .of_eq (g := strictly (runThen (turn (statementsWithin turns false)) fun first =>
            runThen (statementsWithin turns body) fun others rest =>
              Run.done (first ++ others, rest)))
            (fun rest => ?_) ?_
          · rw [strictly, statementsWithin_goesOn
              (show endsStatements body (t :: rest) = false from hend), ← strictly]
          · rw [strictly_runThen, strictly_turn]
            simp only [strictly_runThen, strictly_done]
            refine ((((lawful_statement (ih false)).bind fun tree => lawful_pure [tree]).bind
              fun first => (ih body).bind fun others => lawful_pure (first ++ others)).mono ?_).law _
            rintro _ _ ⟨_, _, _, rfl, ⟨us, _, tree, rfl, h, rfl, rfl⟩, vs, _, others, rfl, hs,
              rfl, rfl⟩
            rw [List.append_nil, List.append_nil]
            exact .cons h hs

/-- **Lists of statements** obey the law up to their first stop. -/
theorem lawful_statements (body : Bool) : Lawful (strictly (statements body)) Statements where
  phrase := ⟨[], [], .nil⟩
  law ts := by
    -- the number of turns grows with the input, but any larger number does as well
    have henough : ∀ more, strictly (statements body) (ts ++ more) =
        strictly (statementsWithin (ts ++ more).length body) (ts ++ more) := fun _ => rfl
    have hhere : ∀ more, strictly (statements body) ts =
        strictly (statementsWithin (ts ++ more).length body) ts := fun more => by
      rw [strictly, ← statementsWithin_eq (show ts.length ≤ (ts ++ more).length by simp)]
      rfl
    have hlaw : ∀ more : List Token,
        LawfulAt (strictly (statementsWithin (ts ++ more).length body)) Statements ts :=
      fun more => (lawful_statementsWithin _ body).law ts
    refine ⟨fun h => ?_, fun h => ?_, fun more h hrest => ?_, fun more h hrest => ?_, 
      fun more h => ?_, fun h => ?_⟩
    · rw [hhere []] at h
      exact (hlaw []).sound h
    · rw [hhere []] at h
      exact (hlaw []).viable h
    · rw [hhere more] at h
      rw [henough]
      exact (hlaw more).extend more h hrest
    · rw [hhere more] at h
      rw [henough]
      exact (hlaw more).refuse more h hrest
    · rw [hhere more] at h
      rw [henough]
      exact (hlaw more).exhaust more h
    · rw [hhere []] at h
      exact (hlaw []).classed h

/-! ## Programs -/

lemma heading_eq : heading = readThen (expect (.word .programa) .programWord) fun _ =>
    readThen (expect .identifier .programName) fun name => readThen
    (expect (.sign .openParen) .programOpenParen)
      fun _ => readThen (expect (.sign .closeParen) .programCloseParen) fun _ =>
        readThen (expect (.sign .openBrace) .bodyOpen) fun _ ts => .ok (name.text?.getD [], ts) :=
          rfl

/-- Reads the end of a program: its last statement, the brace that closes it, and the end of the
input. -/
def ending : List Token → Reading (List Tree) :=
  readThen (expect (.word .terminar) .terminate) fun t =>
    readThen (expect (.sign .semicolon) .terminateSemicolon)
    fun _ => readThen (expect (.sign .closeBrace) .closeAfterTerminate) fun _ rest =>
      Except.bind (trailing rest).first fun _ =>
        .ok ([.node ⟨.terminate, none, t.position⟩ []], rest)

/-- The body of a program that starts at `p`, with what ends it. -/
def bodyAt (p : Position) (x : List Tree × List Tree) : Tree × List Tree := (blockAt p x.1, x.2)

/-- The node of a program that starts at `p`. -/
def programAt (p : Position) (x : Text × Tree × List Tree) : Tree :=
  .node ⟨.program, some x.1, p⟩ (x.2.1 :: x.2.2)

/-- Reads a whole program up to its first stop. -/
def programRead : List Token → Reading Tree :=
  placed programAt <| readThen heading fun name =>
    readThen (placed bodyAt <| readThen (strictly (statements true)) fun trees =>
      readThen ending fun terminator ts => .ok ((trees, terminator), ts)) fun x ts =>
        .ok ((name, x), ts)

lemma first_opening (ts : List Token) :
    (opening ts).first = Except.bind (heading ts) fun p => .ok (some p.1, p.2) := by
  unfold opening
  cases heading ts with
  | ok p => rfl
  | error s => exact (Run.first_bind _ _).trans (by rw [Run.first_passOver]; rfl)

lemma first_terminate (ts : List Token) : (terminate ts).first =
    readThen (expect (.word .terminar) .terminate)
      (fun t => readThen (expect (.sign .semicolon) .terminateSemicolon)
        fun _ rest => .ok ([.node ⟨.terminate, none, t.position⟩ []], rest)) ts := by
  have hsemicolon : ∀ ts, (terminateSemicolon ts).first =
      Except.bind (expect (.sign .semicolon) .terminateSemicolon ts) fun p => .ok p.2 := by
    intro ts
    unfold terminateSemicolon
    cases expect (.sign .semicolon) .terminateSemicolon ts with
    | ok p => rfl
    | error s => exact (Run.first_bind _ _).trans (by rw [Run.first_passOver]; rfl)
  unfold terminate
  cases h : expect (.word .terminar) .terminate ts with
  | error s =>
      rw [readThen_error h]
      exact (Run.first_bind _ _).trans (by rw [Run.first_passOver]; rfl)
  | ok p =>
      obtain ⟨t, rest⟩ := p
      rw [readThen_ok h]
      refine (Run.first_bind _ _).trans ?_
      rw [hsemicolon]
      cases hs : expect (.sign .semicolon) .terminateSemicolon rest with
      | error s => rw [readThen_error hs]; rfl
      | ok q =>
          obtain ⟨semi, rest⟩ := q
          rw [readThen_ok hs]
          rfl

lemma first_closing (ts : List Token) : (closing ts).first =
    Except.bind (expect (.sign .closeBrace) .closeAfterTerminate ts) fun p => .ok p.2 := by
  unfold closing
  cases expect (.sign .closeBrace) .closeAfterTerminate ts with
  | ok p => rfl
  | error s => exact (Run.first_bind _ _).trans (by rw [Run.first_passOver]; rfl)

lemma first_trailing (ts : List Token) : (trailing ts).first =
    match ts with
    | [] => .ok ()
    | t :: rest => .error (.before .endOfProgram (t :: rest)) := by
  cases ts with
  | nil => rfl
  | cons t rest => exact Run.first_passOver (.before .endOfProgram (t :: rest))

/-- A whole program up to its first stop; nothing is left behind it. -/
lemma programRead_eq (ts : List Token) :
    programRead ts = Except.bind (program ts).first fun tree => .ok (tree, []) := by
  unfold program
  simp only [Run.first_bind, first_opening, first_terminate, first_closing, programRead, programAt,
    bodyAt, ending, placed, readThen, strictly]
  cases heading ts with
  | error s => rfl
  | ok p =>
      simp only [Except.bind]
      cases (statements true p.2).first with
      | error s => rfl
      | ok q =>
          simp only
          cases expect (.word .terminar) .terminate q.2 with
          | error s => rfl
          | ok t =>
              simp only
              cases expect (.sign .semicolon) .terminateSemicolon t.2 with
              | error s => rfl
              | ok semi =>
                  simp only
                  cases expect (.sign .closeBrace) .closeAfterTerminate semi.2 with
                  | error s => rfl
                  | ok c =>
                      simp only [first_trailing]
                      cases c.2 <;> rfl

/-- The last tokens of a program and the node they stand for. -/
def Ending (us : List Token) (terminator : List Tree) : Prop :=
  ∃ e semi close, us = [e, semi, close] ∧ e.kind = .word .terminar ∧ semi.kind = .sign .semicolon ∧
    close.kind = .sign .closeBrace ∧ terminator = [.node ⟨.terminate, none, e.position⟩ []]

/-- Nothing may be left behind a program. -/
lemma lawful_trailing {α : Type} (x : α) :
    Lawful (fun ts => Except.bind (trailing ts).first fun _ => .ok (x, ts)) (Pure x) := by
  refine .of_cons ⟨[], x, rfl, rfl⟩ (.inr ⟨x, rfl, rfl, rfl⟩) fun t rest => ?_
  refine .cons_error (.intro (e := .endOfProgram) fun rest => ?_) ⟨[], x, rfl, rfl⟩ rest
  rw [first_trailing]
  rfl

lemma lawful_ending : Lawful ending Ending := by
  refine ((lawful_expect _ _).bind fun t => (lawful_expect _ _).bind fun _ =>
    (lawful_expect _ _).bind fun _ =>
    lawful_trailing [Tree.node ⟨.terminate, none, t.position⟩ []]).mono ?_
  rintro _ _ ⟨_, _, e, rfl, ⟨rfl, he⟩, _, _, semi, rfl, ⟨rfl, hsemi⟩, _, _, close, rfl,
    ⟨rfl, hclose⟩, rfl, rfl⟩
  exact ⟨e, semi, close, rfl, he, hsemi, hclose, rfl⟩

/-- The heading of a program and its name. -/
def Opening (us : List Token) (name : Text) : Prop :=
  ∃ p n o c b, us = [p, n, o, c, b] ∧ p.kind = .word .programa ∧ n.kind = .identifier ∧
    o.kind = .sign .openParen ∧ c.kind = .sign .closeParen ∧ b.kind = .sign .openBrace ∧
    name = n.text?.getD []

lemma lawful_heading : Lawful heading Opening := by
  rw [heading_eq]
  refine ((lawful_expect _ _).bind fun _ => (lawful_expect _ _).bind fun name =>
    (lawful_expect _ _).bind fun _ => (lawful_expect _ _).bind fun _ =>
      (lawful_expect _ _).bind fun _ => lawful_pure (name.text?.getD [])).mono ?_
  rintro _ _ ⟨_, _, p, rfl, ⟨rfl, hp⟩, _, _, n, rfl, ⟨rfl, hn⟩, _, _, o, rfl, ⟨rfl, ho⟩, _, _, c,
    rfl, ⟨rfl, hc⟩, _, _, b, rfl, ⟨rfl, hb⟩, rfl, rfl⟩
  exact ⟨p, n, o, c, b, rfl, hp, hn, ho, hc, hb, rfl⟩

lemma complete_heading : Complete heading Opening anything := by
  rintro _ _ rest ⟨p, n, o, c, b, rfl, hp, hn, ho, hc, hb, rfl⟩ _
  rw [heading_eq]
  simp only [List.cons_append, List.nil_append]
  rw [readThen_ok (expect_ok hp _), readThen_ok (expect_ok hn _), readThen_ok (expect_ok ho _),
    readThen_ok (expect_ok hc _), readThen_ok (expect_ok hb _)]

/-- **Programs** obey the law up to their first stop. -/
theorem lawful_program : Lawful programRead Program := by
  have hbody := (lawful_statements true).bind fun trees => lawful_ending.bind fun terminator =>
    lawful_pure (trees, terminator)
  have hplaced := hbody.placed (h := bodyAt) (by
    rintro _ _ ⟨ss, _, _, rfl, _, _, _, _, rfl, ⟨e, semi, close, rfl, _⟩, _⟩
    simp)
  have hall := lawful_heading.bind fun name => hplaced.bind fun x => lawful_pure (name, x)
  refine (hall.placed (h := programAt) ?_).mono ?_
  · rintro _ _ ⟨_, _, _, rfl, ⟨p, n, o, c, b, rfl, _⟩, _⟩
    simp
  · rintro _ _ ⟨_, ⟨_, _, _, rfl, ⟨p, n, o, c, b, rfl, hp, hn, ho, hc, hb, rfl⟩, _, _, _, rfl,
      ⟨_, ⟨ss, _, trees, rfl, hs, _, _, _, rfl, ⟨e, semi, close, rfl, he, hsemi, hclose, rfl⟩,
        rfl, rfl⟩, rfl⟩, rfl, rfl⟩, rfl⟩
    have hprogram := ProgramOf.intro hp hn ho hc hb hs he hsemi hclose
    have hstart : nextPosition (ss ++ [e]) = nextPosition (ss ++ ([e, semi, close] ++ [])) := by
      cases ss <;> rfl
    rw [blockNode, hstart] at hprogram
    simp only [List.append_nil, List.cons_append, List.nil_append] at hprogram ⊢
    exact hprogram

end Imperativo.Grammar
