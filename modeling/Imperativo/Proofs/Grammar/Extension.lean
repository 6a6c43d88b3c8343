import Imperativo.Proofs.Grammar.FirstStop

/-!
# More tokens behind the input

A run that leaves a token is settled: with more tokens behind its input it comes to the same value,
passes over stops in front of the same tokens, and leaves the same tokens and those
(`Run.ContinuedBy`).  For what is read in one go this is half of the law of readings; here it is
carried through statements and lists of statements.

* **`extends_statements`** — lists of statements.
-/

namespace Imperativo.Grammar

open Phrase

variable {α β : Type}

/-! ## Runs with more tokens -/

/-- The second run is the first one with more tokens behind those that it leaves. -/
structure Run.ContinuedBy (r : Run (α × List Token)) (more : List Token)
    (r' : Run (α × List Token)) : Prop where
  passed : r'.passed = r.passed.map fun s => s.append more
  ok : ∀ {x rest}, r.outcome = .ok (x, rest) → r'.outcome = .ok (x, rest ++ more)
  error : ∀ {s}, r.outcome = .error s → ∃ s', r'.outcome = .error s' ∧ s.ContinuedBy more s'

/-- A run that leaves a token is continued. -/
def ExtendsAt (f : List Token → Run (α × List Token)) (ts : List Token) : Prop :=
  ∀ more, left (eventually f ts) ≠ [] → (f ts).ContinuedBy more (f (ts ++ more))

lemma Run.ContinuedBy.done (x : α) (rest more : List Token) :
    (Run.done (x, rest)).ContinuedBy more (Run.done (x, rest ++ more)) where
  passed := rfl
  ok := by rintro _ _ ⟨⟩; rfl
  error := by rintro _ ⟨⟩

lemma Run.ContinuedBy.stopped {s s' : Stop} {more : List Token} (h : s.ContinuedBy more s') :
    (Run.stopped s : Run (α × List Token)).ContinuedBy more (Run.stopped s') where
  passed := rfl
  ok := by rintro _ _ ⟨⟩
  error := by rintro _ ⟨⟩; exact ⟨s', rfl, h⟩

lemma extendsAt_done (x : α) (ts : List Token) : ExtendsAt (fun ts => Run.done (x, ts)) ts :=
  fun more _ => .done x ts more

lemma extendsAt_inOneGo {f : List Token → Reading α} {R : List Token → α → Prop} (hf : Lawful f R)
    (ts : List Token) : ExtendsAt (inOneGo f) ts := by
  intro more hleft
  rw [eventually_inOneGo] at hleft
  rw [inOneGo, inOneGo]
  cases h : f ts with
  | ok p =>
      obtain ⟨x, rest⟩ := p
      rw [h] at hleft
      rw [(hf.law ts).extend more h hleft]
      exact .done x rest more
  | error s =>
      rw [h] at hleft
      obtain ⟨s', hs', hcontinued⟩ := (hf.law ts).refuse more h hleft
      rw [hs']
      exact .stopped hcontinued

/-- Runs one after another are continued when the first one is, and the second one from what the
first leaves. -/
lemma Run.ContinuedBy.runThen {f : List Token → Run (α × List Token)}
    {g : α → List Token → Run (β × List Token)}
    {ts more : List Token} (hf : (f ts).ContinuedBy more (f (ts ++ more)))
    (hg : ∀ {x rest}, eventually f ts = .ok (x, rest) →
      (g x rest).ContinuedBy more (g x (rest ++ more))) :
    (runThen f g ts).ContinuedBy more (runThen f g (ts ++ more)) := by
  cases h : eventually f ts with
  | error s =>
      obtain ⟨s', hs', hcontinued⟩ := hf.error h
      rw [runThen_error h, runThen_error hs', hf.passed]
      exact ⟨rfl, by rintro _ _ ⟨⟩, by rintro _ ⟨⟩; exact ⟨s', rfl, hcontinued⟩⟩
  | ok p =>
      obtain ⟨x, rest⟩ := p
      rw [runThen_ok h, runThen_ok (hf.ok h), hf.passed]
      exact ⟨by rw [List.map_append, (hg h).passed], (hg h).ok, (hg h).error⟩

lemma ExtendsAt.runThen {f : List Token → Run (α × List Token)}
    {g : α → List Token → Run (β × List Token)}
    {ts : List Token} (hf : ExtendsAt f ts) (hshrinks : ∀ x, Shrinks (eventually (g x)))
    (hg : ∀ x rest, ExtendsAt (g x) rest) : ExtendsAt (runThen f g) ts := by
  intro more hleft
  rw [eventually_runThen] at hleft
  refine Run.ContinuedBy.runThen (hf more fun hnil => hleft ?_) fun {x rest} h => hg x rest more ?_
  · have hle := left_readThen_le (n := 0) (by rw [hnil]; exact Nat.le_refl _) fun x us =>
      (hshrinks x us).length_le
    exact List.eq_nil_of_length_eq_zero (Nat.le_zero.mp hle)
  · rwa [readThen_ok h] at hleft

/-! ## Statements -/

section Blocks

variable {inside : BlockReader}

lemma extendsAt_block (hin : ∀ ts, ExtendsAt inside ts) (hshrinks : Shrinks (eventually inside))
    (owner : Word) (ts : List Token) : ExtendsAt (block inside owner) ts := by
  intro more hleft
  cases ts with
  | nil => exact absurd rfl hleft
  | cons t start =>
      by_cases ht : t.kind = .sign .openBrace
      · have hclose : ∀ trees : List Tree, Shrinks (eventually (runThen
            (inOneGo (expect (.sign .closeBrace) (.blockClose owner))) fun _ rest =>
              Run.done (blockNode start trees, rest))) := fun trees =>
          (lawful_expect _ _).shrinks.inOneGo.runThen fun _ => shrinks_done _
        rw [eventually, block_open ht, ← eventually] at hleft
        have hstart : start ≠ [] := by
          rintro rfl
          exact hleft (List.suffix_nil.mp ((hshrinks.runThen hclose) []))
        have hnode : ∀ trees, blockNode (start ++ more) trees = blockNode start trees := fun _ => by
          rw [blockNode, nextPosition_append hstart, blockNode]
        rw [List.cons_append, block_open ht, block_open ht]
        simp only [hnode]
        exact (hin start).runThen hclose
          (fun trees rest => (extendsAt_inOneGo (lawful_expect _ _) rest).runThen
          (fun _ => shrinks_done _) fun _ => extendsAt_done _) more hleft
      · rw [List.cons_append, block_refuses ht, block_refuses ht]
        exact .stopped (Stop.continuedBy_append _ more)

lemma extendsAt_otherwise (hin : ∀ ts, ExtendsAt inside ts) (hshrinks : Shrinks (eventually inside))
    (t : Token)
    (test yes : Tree) (ts : List Token) : ExtendsAt (otherwise inside t test yes) ts := by
  intro more hleft
  cases ts with
  | nil => exact absurd rfl hleft
  | cons e us =>
      have hhead : ∀ vs, otherwiseFollows (e :: vs) = otherwiseFollows (e :: us) := fun _ => rfl
      rw [eventually, otherwise] at hleft
      rw [List.cons_append, otherwise, otherwise, hhead (us ++ more)]
      split
      · rename_i hfollows
        rw [if_pos hfollows] at hleft
        exact (extendsAt_block hin hshrinks .sino us).runThen (fun _ => shrinks_done _)
          (fun _ => extendsAt_done _) more hleft
      · exact .done _ (e :: us) more

lemma extendsAt_statement (hin : ∀ ts, ExtendsAt inside ts) (hshrinks : Shrinks (eventually inside))
    (ts : List Token) : ExtendsAt (statement inside) ts := by
  intro more hleft
  cases ts with
  | nil => exact absurd rfl hleft
  | cons t us =>
      rw [List.cons_append]
      rw [eventually] at hleft
      cases starts t with
      | simple f hf h =>
          rw [h] at hleft
          rw [h, h]
          exact extendsAt_inOneGo hf us more hleft
      | misplaced h =>
          rw [h, h]
          refine .stopped ⟨rfl, fun hlone => ?_⟩
          rw [misplaced_append more hlone]
          rfl
      | loop _ h =>
          rw [h, loop_eq] at hleft
          rw [h, h, loop_eq]
          exact (extendsAt_inOneGo (lawful_guarded _) us).runThen
            (fun _ => (shrinks_block hshrinks _).runThen fun _ => shrinks_done _)
            (fun _ vs => (extendsAt_block hin hshrinks _ vs).runThen (fun _ => shrinks_done _)
              fun _ => extendsAt_done _) more hleft
      | conditional _ h =>
          rw [h, conditional_eq] at hleft
          rw [h, h, conditional_eq]
          exact (extendsAt_inOneGo (lawful_guarded _) us).runThen
            (fun _ => (shrinks_block hshrinks _).runThen fun _ => shrinks_otherwise hshrinks _ _ _)
            (fun _ vs => (extendsAt_block hin hshrinks _ vs).runThen
              (fun _ => shrinks_otherwise hshrinks _ _ _)
              fun _ => extendsAt_otherwise hin hshrinks _ _ _) more hleft

/-- The search for a place to go on ends at the same place if it finds one. -/
lemma resynchronizeAt_append {depth : Nat} {ts : List Token} (more : List Token)
    (h : (resynchronizeAt depth ts).2 ≠ []) :
    (resynchronizeAt depth (ts ++ more)).2 = (resynchronizeAt depth ts).2 ++ more := by
  fun_induction resynchronizeAt depth ts with
  | case1 => exact absurd rfl h
  | case2 _ t rest ht ih | case5 t rest ht _ ih | case7 t rest ht _ ih =>
      rw [List.cons_append, resynchronizeAt.eq_def]
      simp only [ht]
      exact ih h
  | case3 t rest ht | case4 t rest ht | case6 t rest ht =>
      rw [List.cons_append, resynchronizeAt.eq_def]
      simp only [ht]
  | case8 depth t rest hopen hclose hsemi ih =>
      rw [List.cons_append, resynchronizeAt.eq_def]
      simp only
      exact ih h

/-- Behind a literal that is the last token there is no place to go on. -/
lemma resynchronize_lone {ts : List Token} (h : LoneLiteral ts) : (resynchronize ts).2 = [] := by
  rcases h with ⟨t, rfl, ht⟩
  rw [resynchronize, resynchronizeAt.eq_def]
  simp only
  split <;> simp_all [isLiteral, resynchronizeAt]

lemma extendsAt_turn (hin : ∀ ts, ExtendsAt inside ts) (hshrinks : Shrinks (eventually inside))
    (ts : List Token) : ExtendsAt (turn inside) ts := by
  intro more hleft
  have hstatement : left (eventually (statement inside) ts) ≠ [] → _ :=
    extendsAt_statement hin hshrinks ts more
  rw [eventually, turn] at hleft
  rw [turn, turn]
  cases h : (statement inside ts).outcome with
  | ok p =>
      obtain ⟨tree, rest⟩ := p
      rw [recovered_ok h] at hleft
      obtain ⟨hpassed, hok, _⟩ := hstatement (by rw [eventually, h]; exact hleft)
      rw [recovered_ok h, recovered_ok (hok h), hpassed]
      exact ⟨rfl, by rintro _ _ ⟨⟩; rfl, by rintro _ ⟨⟩⟩
  | error s =>
      by_cases hs : s.rest = []
      · rw [recovered_fatal h hs] at hleft
        exact absurd hs hleft
      · rw [recovered_broken h hs] at hleft
        obtain ⟨hpassed, _, herror⟩ := hstatement (by rw [eventually, h]; exact hs)
        obtain ⟨s', hs', hrest, hsame⟩ := herror h
        obtain rfl := hsame fun hlone => hleft (resynchronize_lone hlone)
        have hrest' : (resynchronize (s.rest ++ more)).2 = (resynchronize s.rest).2 ++ more :=
          resynchronizeAt_append more hleft
        rw [recovered_broken h hs, recovered_broken hs' (by rw [hrest]; simp [hs]), hpassed, hrest,
          hrest']
        exact ⟨by simp, by rintro _ _ ⟨⟩; rfl, by rintro _ ⟨⟩⟩

end Blocks

lemma extendsAt_statementsWithin (turns : Nat) (body : Bool) (ts : List Token) :
    ExtendsAt (statementsWithin turns body) ts := by
  induction turns generalizing body ts with
  | zero => exact extendsAt_done [] ts
  | succ turns ih =>
      intro more hleft
      cases ts with
      | nil => exact absurd rfl hleft
      | cons t us =>
          cases hend : endsStatements body (t :: us) with
          | true =>
              rw [statementsWithin_ends hend, List.cons_append,
                statementsWithin_ends
                (show endsStatements body (t :: (us ++ more)) = true from hend)]
              exact .done _ _ more
          | false =>
              rw [eventually, statementsWithin_goesOn hend] at hleft
              rw [statementsWithin_goesOn hend, List.cons_append,
                statementsWithin_goesOn
                (show endsStatements body (t :: (us ++ more)) = false from hend)]
              have hothers : ∀ first : List Tree,
                  Shrinks (eventually (runThen (statementsWithin turns body)
                  fun others rest => Run.done (first ++ others, rest))) := fun first =>
                (shrinks_statementsWithin turns body).runThen fun _ => shrinks_done _
              exact (extendsAt_turn (ih false) (shrinks_statementsWithin turns false)
                (t :: us)).runThen hothers
                (fun first vs => (ih body vs).runThen (fun _ => shrinks_done _)
                  fun _ => extendsAt_done _) more hleft

/-- **Lists of statements** that leave a token are settled. -/
theorem extends_statements (body : Bool) (ts : List Token) : ExtendsAt (statements body) ts := by
  intro more hleft
  have hturns : ts.length ≤ (ts ++ more).length := by simp
  rw [eventually, ← statementsWithin_eq hturns] at hleft
  rw [← statementsWithin_eq hturns, ← statementsWithin_eq (Nat.le_refl (ts ++ more).length)]
  exact extendsAt_statementsWithin _ body ts more hleft

end Imperativo.Grammar
