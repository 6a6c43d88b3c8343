import Imperativo.Proofs.Grammar.Descent
import Imperativo.Proofs.Grammar.Stops

/-!
# What errors quote

The words of an error are those of the grammar, but for two parts: the token that was found, and the
variable of an assignment without its sign.  Reading only ever leaves tokens behind
(`QuotesOnly.shrinks`), so both are tokens of the program, however much of it is passed over before
(`quotesOnly_statementsWithin`).

* **`quotesOnly_program`** — the name that a stop of a program quotes is the text of one of its
  tokens.
-/

namespace Imperativo.Grammar

open Phrase

variable {α β : Type} {names : Text → Prop}

/-- If the stop quotes a name, then it is as `names` says. -/
def Stop.QuotesOnly (names : Text → Prop) (s : Stop) : Prop :=
  ∀ target, s.expectation = .assignSign target → names target

/-- If the texts of tokens are as `names` says, then so is all that the stops among them quote. -/
structure QuotesOnly (names : Text → Prop) (f : List Token → Run (α × List Token)) : Prop where
  shrinks : Shrinks (eventually f)
  stops : ∀ ts : List Token, (∀ t ∈ ts, names (t.text?.getD [])) →
    StopsAre (Stop.QuotesOnly names) (f ts)

lemma Stop.Usual.quotesOnly {s : Stop} (h : s.Usual names) : s.QuotesOnly names := by
  intro target htarget
  have hexpected := h.expected
  rwa [htarget] at hexpected

lemma Stop.Quiet.quotesOnly {s : Stop} (h : s.Quiet) : s.QuotesOnly names :=
  fun target htarget => absurd htarget (h.quotes target)

/-! ## Runs -/

lemma quotesOnly_done (x : α) : QuotesOnly names fun ts => Run.done (x, ts) :=
  ⟨shrinks_done x, fun _ _ => stopsAre_done _⟩

lemma quotesOnly_inOneGo {f : List Token → Reading α} {R : List Token → α → Prop}
    (hf : Lawful f R) (hstop : Usual names f) : QuotesOnly names (inOneGo f) :=
  ⟨hf.shrinks.inOneGo, fun ts _ => stopsAre_ofReading fun {s} h => (hstop ts s h).quotesOnly⟩

lemma quotesOnly_expect {k : Kind} {e : Expectation} (he : e.Usual names) :
    QuotesOnly names (inOneGo (expect k e)) :=
  quotesOnly_inOneGo (lawful_expect k e) (usual_expect he)

/-- What is left behind a run has names of the same sort. -/
lemma QuotesOnly.runThen {f : List Token → Run (α × List Token)}
    {g : α → List Token → Run (β × List Token)} (hf : QuotesOnly names f)
    (hg : ∀ x, QuotesOnly names (g x)) : QuotesOnly names (runThen f g) := by
  refine ⟨hf.shrinks.runThen fun x => (hg x).shrinks, fun ts hts => ?_⟩
  refine (hf.stops ts hts).bind fun {x} hx => (hg x.1).stops x.2 fun t ht => hts t ?_
  have hsuffix := hf.shrinks ts
  rw [eventually, hx, left_ok] at hsuffix
  exact hsuffix.subset ht

/-! ## Statements -/

section Blocks

variable {inside : BlockReader}

lemma quotesOnly_block (hin : QuotesOnly names inside) (owner : Word) :
    QuotesOnly names (block inside owner) := by
  refine ⟨shrinks_block hin.shrinks owner, ?_⟩
  rw [block_eq]
  refine ((quotesOnly_expect (by trivial)).runThen fun _ => ⟨fun start => ?_, fun start => ?_⟩).stops
  · exact (hin.runThen fun _ => (quotesOnly_expect (by trivial)).runThen fun _ =>
      quotesOnly_done _).shrinks start
  · exact (hin.runThen fun _ => (quotesOnly_expect (by trivial)).runThen fun _ =>
      quotesOnly_done _).stops start

lemma quotesOnly_otherwise (hin : QuotesOnly names inside) (t : Token) (test yes : Tree) :
    QuotesOnly names (otherwise inside t test yes) := by
  refine ⟨shrinks_otherwise hin.shrinks t test yes, fun ts hts => ?_⟩
  unfold otherwise
  split
  · exact ((quotesOnly_block hin .sino).runThen fun _ => quotesOnly_done _).stops _
      fun t ht => hts t (List.mem_of_mem_drop ht)
  · exact stopsAre_done _

/-- Where no statement starts, no name is quoted. -/
lemma quotesOnly_misplaced (ts : List Token) : (Stop.before (misplaced ts) ts).QuotesOnly names := by
  intro target htarget
  change misplaced ts = _ at htarget
  unfold misplaced at htarget
  split at htarget
  · cases htarget
  · split at htarget <;> (try split at htarget) <;> cases htarget

/-- The first token of an assignment is its variable. -/
lemma stopsAre_statement (hin : QuotesOnly names inside) {ts : List Token}
    (hts : ∀ t ∈ ts, names (t.text?.getD [])) :
    StopsAre (Stop.QuotesOnly names) (statement inside ts) := by
  cases ts with
  | nil => exact stopsAre_stopped (quotesOnly_misplaced [])
  | cons t rest =>
      obtain ⟨ht, hrest⟩ := List.forall_mem_cons.mp hts
      cases starts t with
      | simple f hf h =>
          rw [h]
          refine (quotesOnly_inOneGo hf fun us s hs => ?_).stops rest hrest
          exact (usual_of_simple hf h us s hs).imp (by rintro _ rfl; exact ht)
      | misplaced h =>
          rw [h]
          exact stopsAre_stopped (quotesOnly_misplaced _)
      | loop _ h =>
          rw [h, loop_eq]
          exact ((quotesOnly_inOneGo (lawful_guarded _) (usual_guarded _)).runThen fun _ =>
            (quotesOnly_block hin _).runThen fun _ => quotesOnly_done _).stops rest hrest
      | conditional _ h =>
          rw [h, conditional_eq]
          exact ((quotesOnly_inOneGo (lawful_guarded _) (usual_guarded _)).runThen fun test =>
            (quotesOnly_block hin _).runThen fun yes =>
              quotesOnly_otherwise hin t test yes).stops rest hrest

lemma quotesOnly_turn (hin : QuotesOnly names inside) : QuotesOnly names (turn inside) :=
  ⟨shrinks_turn hin.shrinks, fun _ hts => (stopsAre_statement hin hts).recovered⟩

end Blocks

lemma quotesOnly_statementsWithin (turns : Nat) (body : Bool) :
    QuotesOnly names (statementsWithin turns body) := by
  induction turns generalizing body with
  | zero => exact quotesOnly_done []
  | succ turns ih =>
      refine ⟨shrinks_statementsWithin _ body, fun ts hts => ?_⟩
      cases h : endsStatements body ts with
      | true =>
          rw [statementsWithin_ends h]
          exact stopsAre_done _
      | false =>
          rw [statementsWithin_goesOn h]
          exact ((quotesOnly_turn (ih false)).runThen fun _ => (ih body).runThen fun _ =>
            quotesOnly_done _).stops ts hts

/-! ## Programs -/

/-- **A name that is quoted is the text of a token of the program.** -/
theorem quotesOnly_program (ts : List Token) :
    ∀ s ∈ (program ts).stops, s.QuotesOnly fun name => ∃ t ∈ ts, t.text?.getD [] = name := by
  intro s hs
  refine (stopsAre_program (fun _ => Stop.Quiet.quotesOnly) fun {x} hopening => ?_).of_mem hs
  refine (quotesOnly_statementsWithin x.2.length true).stops x.2 fun t ht => ⟨t, ?_, rfl⟩
  have hsuffix := ((descends_opening ts).ok hopening).suffix_rest
  exact hsuffix.subset ht

end Imperativo.Grammar
