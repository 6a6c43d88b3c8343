import Imperativo.Proofs.Grammar.Standalone
import Imperativo.Proofs.Grammar.Starting
import Imperativo.Proofs.Grammar.Stops

/-!
# Which `sino` has no `si`

A `sino` behind a block is reported as one without a `si` if the block belongs to a loop or to
another `sino`, and if a broken statement was passed over together with the block.  In front of the
block of a `si` stands its condition, so the block can only be there for the last of these reasons.

* **`continued_statements`** — a `sino` in front of which reading goes on after a broken statement is
  reported.
* **`dangling_iff`** — a `sino` behind the block of a `si` is reported exactly if a statement was
  broken off in front of that block and passed over together with it.
-/

namespace Imperativo.Grammar

open Phrase

variable {α β : Type}

/-! ## Going on in front of a `sino` -/

/-- Every `sino` in front of which reading goes on after one of the stops is reported. -/
def Continued (stops : List Stop) : Prop :=
  ∀ s ∈ stops, ∀ t more, (resynchronize s.rest).2 = t :: more → t.kind = .word .sino →
    .before .elseBehindIf (t :: more) ∈ stops

lemma continued_nil : Continued [] := nofun

lemma Continued.append {stops stops' : List Stop} (h : Continued stops) (h' : Continued stops') :
    Continued (stops ++ stops') := by
  intro s hs t more hgo ht
  rw [List.mem_append] at hs ⊢
  exact hs.imp (fun hs => h s hs t more hgo ht) fun hs => h' s hs t more hgo ht

lemma Continued.bind {r : Run α} {g : α → Run β} (hr : Continued r.passed)
    (hg : ∀ {x}, r.outcome = .ok x → Continued (g x).passed) : Continued (r >>= g).passed := by
  change Continued (Run.andThen r g).passed
  cases h : r.outcome with
  | error s => simpa only [Run.andThen, h] using hr
  | ok x => simpa only [Run.andThen, h] using hr.append (hg h)

lemma continued_inOneGo (f : List Token → Reading α) (ts : List Token) :
    Continued (inOneGo f ts).passed := by
  rw [inOneGo]
  cases f ts <;> exact continued_nil

section Blocks

variable {n : Nat} {ts : List Token}

lemma continued_block
    (hin : ∀ us : List Token, us.length < n → Continued (statements false us).passed)
    (owner : Word) (hts : ts.length ≤ n) :
    Continued (block (statements false) owner ts).passed := by
  cases ts with
  | nil => exact continued_nil
  | cons t us =>
      by_cases ht : t.kind = .sign .openBrace
      · rw [List.length_cons] at hts
        rw [block_open ht]
        exact (hin us (by omega)).bind fun {_} _ => (continued_inOneGo _ _).bind fun {_} _ =>
          continued_nil
      · rw [block_refuses ht]
        exact continued_nil

lemma continued_otherwise
    (hin : ∀ us : List Token, us.length < n → Continued (statements false us).passed) (t : Token)
    (test yes : Tree) (hts : ts.length ≤ n) :
    Continued (otherwise (statements false) t test yes ts).passed := by
  unfold otherwise
  split
  · have hdrop : (ts.drop 1).length ≤ n := (List.drop_suffix 1 ts).length_le.trans hts
    exact (continued_block hin _ hdrop).bind fun {_} _ => continued_nil
  · exact continued_nil

lemma continued_guarded_block
    (hin : ∀ us : List Token, us.length < n → Continued (statements false us).passed)
    {owner owner' : Word} {g : Tree → Tree → List Token → Run (Tree × List Token)}
    (hg : ∀ test tree (rest : List Token), rest.length ≤ n → Continued (g test tree rest).passed)
    (hts : ts.length ≤ n) : Continued (runThen (inOneGo (guarded owner)) (fun test =>
      runThen (block (statements false) owner') (g test)) ts).passed := by
  refine (continued_inOneGo _ ts).bind fun {x} hx => ?_
  obtain ⟨test, us⟩ := x
  have hus := (lawful_guarded owner).shrinks.inOneGo ts
  rw [eventually, hx, left_ok] at hus
  have hlength := hus.length_le.trans hts
  refine (continued_block hin owner' hlength).bind fun {y} hy => ?_
  obtain ⟨tree, rest⟩ := y
  have hrest := shrinks_block (shrinks_statements false) owner' us
  rw [eventually, hy, left_ok] at hrest
  exact hg test tree rest (hrest.length_le.trans hlength)

lemma continued_statement
    (hin : ∀ us : List Token, us.length < n → Continued (statements false us).passed)
    (hts : ts.length ≤ n + 1) : Continued (statement (statements false) ts).passed := by
  cases ts with
  | nil => exact continued_nil
  | cons t us =>
      rw [List.length_cons] at hts
      cases starts t with
      | simple f _ h => rw [h]; exact continued_inOneGo f us
      | misplaced h => rw [h]; exact continued_nil
      | loop _ h =>
          rw [h, loop_eq]
          exact continued_guarded_block hin (fun _ _ _ _ => continued_nil) (by omega)
      | conditional _ h =>
          rw [h, conditional_eq]
          exact continued_guarded_block hin
            (fun test yes _ hrest => continued_otherwise hin t test yes hrest) (by omega)

end Blocks

/-- A list of statements that starts with `sino` reports it. -/
lemma reported_of_sino {body : Bool} {t : Token} (ht : t.kind = .word .sino) (us : List Token) :
    .before .elseBehindIf (t :: us) ∈ (statements body (t :: us)).passed := by
  have hgoesOn : endsStatements body (t :: us) = false := by
    simp only [endsStatements, ht]
    cases body <;> rfl
  have hturn : turn (statements false) (t :: us) =
      ⟨[.before .elseBehindIf (t :: us)], .ok ([], (resynchronize (t :: us)).2)⟩ := by
    have hstatement : statement (statements false) (t :: us) =
        Run.stopped (.before .elseBehindIf (t :: us)) := by
      simp only [statement, ht, misplaced]
    rw [turn, recovered_broken (s := .before .elseBehindIf (t :: us)) (by rw [hstatement]; rfl)
      (List.cons_ne_nil t us), hstatement]
    rfl
  rw [statements_goesOn hgoesOn, runThen_ok (by rw [eventually, hturn]), hturn]
  exact List.mem_append_left _ (List.mem_singleton_self _)

lemma passed_then_done (f : List Token → Run (α × List Token)) (h : α → β) (ts : List Token) :
    (runThen f (fun x rest => Run.done (h x, rest)) ts).passed = (f ts).passed := by
  cases hf : eventually f ts with
  | error s => rw [runThen_error hf]
  | ok p => rw [runThen_ok hf, Run.done, List.append_nil]

/-- **A `sino` in front of which reading goes on after a broken statement is reported.** -/
theorem continued_statements (body : Bool) (ts : List Token) :
    Continued (statements body ts).passed := by
  induction hn : ts.length using Nat.strong_induction_on generalizing body ts with
  | _ n ih =>
      cases hends : endsStatements body ts with
      | true =>
          rw [statements_ends hends]
          exact continued_nil
      | false =>
          have hstatement : Continued (statement (statements false) ts).passed :=
            continued_statement (fun us hus => ih us.length hus false us rfl)
              (hn.trans_le n.le_succ)
          have hturn {first : List Tree} {rest : List Token}
              (h : eventually (turn (statements false)) ts = .ok (first, rest)) :
              (statements body ts).passed =
                (turn (statements false) ts).passed ++ (statements body rest).passed ∧
              Continued (statements body rest).passed := by
            obtain ⟨t, us, rfl, ht⟩ := cons_of_goesOn hends
            have hle := length_turn_cons (shrinks_statements false) ht us
            rw [h, left_ok] at hle
            rw [statements_goesOn hends, runThen_ok h, passed_then_done]
            rw [List.length_cons] at hn
            exact ⟨rfl, ih rest.length (by omega) body rest rfl⟩
          cases h : (statement (statements false) ts).outcome with
          | ok p =>
              have hok := recovered_ok h
              obtain ⟨hpassed, hothers⟩ := hturn (congrArg Run.outcome hok)
              rw [hpassed, turn, hok]
              exact hstatement.append hothers
          | error s =>
              by_cases hs : s.rest = []
              · have hfatal := recovered_fatal h hs
                have herror : eventually (turn (statements false)) ts = .error s :=
                  congrArg Run.outcome hfatal
                rw [statements_goesOn hends, runThen_error herror, turn, hfatal]
                exact hstatement
              · have hbroken := recovered_broken h hs
                obtain ⟨hpassed, hothers⟩ := hturn (congrArg Run.outcome hbroken)
                rw [hpassed, turn, hbroken]
                intro s' hs' t more hgo ht
                rw [List.mem_append, List.mem_append, List.mem_singleton] at hs'
                rw [List.mem_append, List.mem_append]
                rcases hs' with (hs' | rfl) | hs'
                · exact .inl (.inl (hstatement s' hs' t more hgo ht))
                · -- the list goes on with the `sino`
                  rw [hgo]
                  exact .inr (reported_of_sino ht more)
                · exact .inr (hothers s' hs' t more hgo ht)

/-! ## Programs -/

/-- The stops at which statements of a program are broken off and passed over. -/
def rejections (ts : List Token) : List Stop :=
  match (opening ts).outcome with
  | .ok (_, start) => (statements true start).passed
  | .error _ => []

/-- With tokens left, the stop is about a `sino` without its `si` only if it is one of the
rejections. -/
def Rejected (rejected : List Stop) (s : Stop) : Prop :=
  s.rest ≠ [] → s.fault = .danglingElse → s ∈ rejected

/-- Only the statements of a program report a `sino`. -/
lemma rejected_program (ts : List Token) : StopsAre (Rejected (rejections ts)) (program ts) := by
  refine stopsAre_program (fun s hs _ hfault => absurd hfault hs.fault) fun {x} hopening => ?_
  have hrejections : rejections ts = (statements true x.2).passed := by rw [rejections, hopening]
  exact ⟨fun s hs _ _ => hrejections ▸ hs, fun h hrest => absurd ((tidy true x.2).stop h) hrest⟩

lemma passed_subset_bind {r : Run α} (g : α → Run β) : r.passed ⊆ (r >>= g).passed := by
  change r.passed ⊆ (Run.andThen r g).passed
  unfold Run.andThen
  split
  · exact List.Subset.refl _
  · exact List.subset_append_left _ _

lemma passed_subset_of_ok {r : Run α} {x : α} (h : r.outcome = .ok x) (g : α → Run β) :
    (g x).passed ⊆ (r >>= g).passed := by
  change (g x).passed ⊆ (Run.andThen r g).passed
  rw [Run.andThen, h]
  exact List.subset_append_right _ _

lemma passed_subset_stops (r : Run α) : r.passed ⊆ r.stops := by
  unfold Run.stops
  split
  · exact List.Subset.refl _
  · exact List.subset_append_left _ _

lemma rejections_subset (ts : List Token) : rejections ts ⊆ (program ts).stops := by
  unfold rejections
  split
  · rename_i name start h
    refine List.Subset.trans ?_ (passed_subset_stops _)
    refine List.Subset.trans ?_ (passed_subset_of_ok h _)
    exact passed_subset_bind _
  · exact List.nil_subset _

/-- The statements of a program stand behind an opening brace. -/
lemma opening_behind {ts start : List Token} {name : Option Text}
    (h : (opening ts).outcome = .ok (name, start)) :
    ∃ us b, ts = us ++ b :: start ∧ b.kind = .sign .openBrace := by
  have hreaches := opening_reaches ts
  cases hsearch : behindOpenBrace ts with
  | error s =>
      rw [hsearch] at hreaches
      obtain ⟨s', hs', -⟩ := hreaches
      rw [eventually, h] at hs'
      cases hs'
  | ok rest =>
      rw [hsearch] at hreaches
      obtain ⟨name', hok⟩ := hreaches
      rw [eventually, h] at hok
      cases hok
      obtain ⟨us, b, hts, -, hb⟩ := behindOpenBrace_split hsearch
      exact ⟨us, b, hts, hb⟩

/-- **A `sino` that is reported as one without a `si`** is one, and a statement should start there. -/
theorem atElse_of_mem {ts : List Token} {s : Stop} (hs : s ∈ (program ts).stops)
    (hrest : s.rest ≠ []) (hfault : s.fault = .danglingElse) : AtElse ts (rejections ts) s := by
  have hmem := (rejected_program ts).of_mem hs hrest hfault
  cases h : (opening ts).outcome with
  | error s' =>
      rw [rejections, h] at hmem
      cases hmem
  | ok x =>
      obtain ⟨name, start⟩ := x
      obtain ⟨us, b, hts, hb⟩ := opening_behind h
      have hrejections : rejections ts = (statements true start).passed := by rw [rejections, h]
      have hplace : Place ts (rejections ts) start :=
        ⟨us ++ [b], by rw [hts, List.append_assoc]; rfl, .sign rfl (.inl hb)⟩
      have htracked := tracks_statements true start (fun _ => hplace) (by
        rw [hrejections]
        exact List.Subset.refl _)
      exact htracked.passed s (hrejections ▸ hmem) hfault

/-! ## Behind the block of a `si` -/

/-- What stands in front of the block of a `si`: `si` and something in parentheses.  The closing
parenthesis is that of `si`, because no statement starts in between or because every parenthesis that
is opened in between is closed there. -/
def IfHeader (hs : List Token) : Prop :=
  ∃ si o inner c, hs = si :: o :: (inner ++ [c]) ∧ si.kind = .word .si ∧
    o.kind = .sign .openParen ∧ c.kind = .sign .closeParen ∧
    (Plain inner ∨ ∀ us, us <:+ inner →
      tally (.sign .openParen) us ≤ tally (.sign .closeParen) us)

section Headers

variable {hs : List Token}

/-- A header ends with a parenthesis. -/
lemma IfHeader.ends (h : IfHeader hs) : ∃ us c, hs = us ++ [c] ∧ c.kind = .sign .closeParen := by
  obtain ⟨si, o, inner, c, rfl, -, -, hc, -⟩ := h
  exact ⟨si :: o :: inner, c, rfl, hc⟩

/-- A condition has no signs, so no parentheses. -/
lemma Phrase.Condition.kind_ne_sign {us : List Token} {tree : Tree} (h : Condition us tree)
    (sign : Sign) : ∀ t ∈ us, t.kind ≠ .sign sign := by
  intro t ht hkind
  have hmem := List.mem_map_of_mem (f := Token.heading?) ht
  rw [h.readsAs] at hmem
  obtain ⟨heading, -, hheading⟩ := List.mem_map.mp hmem
  rw [Token.heading?, hkind] at hheading
  cases hheading

lemma Phrase.Condition.tally_eq_zero {us : List Token} {tree : Tree} (h : Condition us tree)
    (sign : Sign) : tally (.sign sign) us = 0 := by
  rw [tally, List.countP_eq_zero]
  intro t ht
  simpa using h.kind_ne_sign sign t ht

/-- The last of some tokens, of which the end is plain, is no boundary. -/
lemma not_bounded {us vs : List Token} {t : Token} (h : Plain (t :: vs)) :
    ¬ Bounded (us ++ t :: vs) := by
  rintro ⟨ws, b, hws, hb⟩
  have hlast : (t :: vs).getLast? = some b := by
    rw [← List.getLast?_append_of_ne_nil us (List.cons_ne_nil t vs), hws, List.getLast?_concat]
  rw [h b (List.mem_of_getLast? hlast)] at hb
  cases hb

/-- In front of the block of a `si` no loop has its condition. -/
lemma IfHeader.not_loop (h : IfHeader hs) {front us gs : List Token} {t : Token} {test : Tree}
    (hus : Bounded us) (ht : t.kind = .word .mientras) (hg : Guard gs test) :
    us ++ t :: gs ≠ front ++ hs := by
  obtain ⟨si, o, inner, c, rfl, hsi, ho, hc, hinner⟩ := h
  obtain @⟨p, cs, q, _, hp, hcondition, hq⟩ := hg
  intro heq
  have hsplit : us ++ [t, p] ++ cs = front ++ [si, o] ++ inner := by
    have heq' : us ++ [t, p] ++ cs ++ [q] = front ++ [si, o] ++ inner ++ [c] := by
      simpa using heq
    exact (List.append_inj' heq' rfl).1
  have hsame : us ++ [t, p] ≠ front ++ [si, o] := by
    intro h
    have htsi : t = si := by simpa using congrArg List.head? (List.append_inj' h rfl).2
    rw [htsi, hsi] at ht
    cases ht
  rcases List.append_eq_append_iff.mp hsplit with ⟨as, has, hcs⟩ | ⟨as, has, rfl⟩
  · -- the parenthesis behind `si` would be inside the condition
    rcases List.eq_nil_or_concat as with rfl | ⟨as, x, rfl⟩
    · exact hsame (by simpa using has.symm)
    · have has' : front ++ [si] ++ [o] = us ++ t :: p :: as ++ [x] := by simpa using has
      obtain rfl : o = x := List.singleton_inj.mp (List.append_inj' has' rfl).2
      exact hcondition.kind_ne_sign .openParen o (by simp [hcs]) ho
  · rcases List.eq_nil_or_concat as with rfl | ⟨as, x, rfl⟩
    · exact hsame (by simpa using has)
    have has' : us ++ [t] ++ [p] = front ++ si :: o :: as ++ [x] := by simpa using has
    obtain ⟨hus', hpx⟩ := List.append_inj' has' rfl
    obtain rfl : p = x := List.singleton_inj.mp hpx
    rcases hinner with hplain | hclosed
    · -- nothing behind the parenthesis of `si` could start a statement
      rcases List.eq_nil_or_concat as with rfl | ⟨as, y, rfl⟩
      · have hto : t = o := by
          have hus'' : us ++ [t] = front ++ [si] ++ [o] := by simpa using hus'
          exact List.singleton_inj.mp (List.append_inj' hus'' rfl).2
        rw [hto, ho] at ht
        cases ht
      · have hus'' : us ++ [t] = front ++ [si] ++ o :: as ++ [y] := by simpa using hus'
        have hfront : us = front ++ [si] ++ o :: as := (List.append_inj' hus'' rfl).1
        simp only [List.concat_eq_append, plain_append] at hplain
        have hbehind : Plain (o :: as) := (plain_cons o as).mpr ⟨by rw [ho]; rfl, hplain.1.1.1⟩
        exact not_bounded hbehind (hfront ▸ hus)
    · -- the parenthesis of the condition would not be closed
      have hle := hclosed (p :: cs) (by simp [List.suffix_append])
      simp [tally_cons, hp, hcondition.tally_eq_zero] at hle

end Headers

/-- A block ends with a closing brace. -/
lemma Braced.last {us vs bs : List Token} {b : Token} (h : Braced bs) (heq : us ++ bs = vs ++ [b]) :
    b.kind = .sign .closeBrace := by
  obtain ⟨o, inner, c, rfl, -, -, hc⟩ := h
  have heq' : us ++ o :: inner ++ [c] = vs ++ [b] := by simpa using heq
  rw [← List.singleton_inj.mp (List.append_inj' heq' rfl).2]
  exact hc

/-- Reading that goes on behind a block was broken off in front of it. -/
lemma broken_in_front {before rest bs : List Token} {t : Token} {s : Stop} {us vs : List Token}
    {b : Token} (hbs : Braced bs) (ht : t.kind ≠ .sign .closeBrace)
    (hrest : s.rest = vs ++ b :: t :: rest) (h : before ++ bs = us ++ (vs ++ [b]))
    (hgo : (resynchronize s.rest).2 = t :: rest) :
    ∃ ws, Plain ws ∧ s.rest = ws ++ bs ++ t :: rest := by
  have hb : b.kind = .sign .closeBrace := hbs.last (by rw [h, List.append_assoc])
  rcases plain_or_boundary s.rest with hplain | ⟨ws, p, xs, hsplit, hws, hp | hp | hp⟩
  · rw [resynchronize_plain hplain] at hgo
    cases hgo
  · -- behind a semicolon, where there is a closing brace
    rw [hsplit, resynchronize_piece hws hp] at hgo
    obtain rfl : xs = t :: rest := hgo
    have hcons := (List.append_inj' (hrest.symm.trans hsplit) rfl).2
    rw [(List.cons.inj hcons).1, hp] at hb
    cases hb
  · rw [hsplit, resynchronize_close hws hp] at hgo
    cases hgo
    exact absurd hp ht
  · rw [hsplit, resynchronize_open hws hp] at hgo
    cases hsearch : behindCloseBrace 0 xs with
    | error s' => rw [hsearch] at hgo; cases hgo
    | ok behind =>
        rw [hsearch] at hgo
        obtain rfl : behind = t :: rest := hgo
        obtain ⟨inner, c, rfl, hinner, hc⟩ := balanced_of_behindCloseBrace hsearch
        have hblock : Braced (p :: (inner ++ [c])) := ⟨p, inner, c, rfl, hp, hinner, hc⟩
        have hvs : vs ++ [b] = ws ++ p :: (inner ++ [c]) := by
          have happend : vs ++ [b] ++ t :: rest = ws ++ p :: (inner ++ [c]) ++ t :: rest := by
            simpa using hrest.symm.trans hsplit
          exact List.append_cancel_right happend
        rw [hvs, ← List.append_assoc] at h
        obtain ⟨-, rfl⟩ := braced_unique hbs hblock h
        exact ⟨ws, hws, by rw [hsplit]; simp⟩

/-- **A `sino` behind the block of a `si`** is reported as one without a `si` exactly if a statement
was broken off in front of the block, with no boundary in between, and passed over together with
it. -/
theorem dangling_iff {ts front hs bs behind : List Token} {t : Token} (hhs : IfHeader hs)
    (hbs : Braced bs) (ht : t.kind = .word .sino) (hts : ts = front ++ hs ++ bs ++ t :: behind) :
    (∃ s ∈ (program ts).stops, s.fault = .danglingElse ∧ s.rest = t :: behind) ↔
      ∃ s ∈ rejections ts, ∃ us, Plain us ∧ s.rest = us ++ bs ++ t :: behind := by
  have hclose : t.kind ≠ .sign .closeBrace := by
    rw [ht]
    rintro ⟨⟩
  constructor
  · rintro ⟨s, hmem, hfault, hrest⟩
    obtain ⟨-, -, -, -, before, hbefore, hreached⟩ :=
      atElse_of_mem hmem (hrest ▸ List.cons_ne_nil t behind) hfault
    rw [hrest] at hbefore hreached
    obtain rfl : front ++ hs ++ bs = before := List.append_cancel_right (hts.symm.trans hbefore)
    cases hreached with
    | sign h hb =>
        rw [hbs.last h] at hb
        exact hb.elim (by rintro ⟨⟩) (by rintro ⟨⟩)
    | loop h hus ht' hg hbs' =>
        exact absurd (braced_unique hbs hbs' h).1.symm (hhs.not_loop hus ht' hg)
    | conditional h hbs' hnone => simp [otherwiseFollows, ht] at hnone
    | otherwise h he hbs' =>
        obtain ⟨us, c, rfl, hc⟩ := hhs.ends
        obtain ⟨hfront, -⟩ := braced_unique hbs hbs' h
        rw [← List.append_assoc] at hfront
        rw [← List.singleton_inj.mp (List.append_inj' hfront rfl).2, hc] at he
        cases he
    | @broken _ _ _ s' hs' hrest' h hb hgo =>
        exact ⟨s', hs', broken_in_front hbs hclose hrest' h hgo⟩
  · rintro ⟨s, hmem, us, hus, hrest⟩
    have hgo : (resynchronize s.rest).2 = t :: behind := by
      obtain ⟨o, inner, c, rfl, ho, hinner, hc⟩ := hbs
      have hsplit : s.rest = us ++ o :: (inner ++ c :: t :: behind) := by simp [hrest]
      rw [hsplit, resynchronize_open hus ho, hinner.behindCloseBrace,
        behindCloseBrace_close_zero hc]
    have hcontinued : Continued (rejections ts) := by
      unfold rejections
      split
      · exact continued_statements true _
      · exact continued_nil
    exact ⟨_, rejections_subset ts (hcontinued s hmem t behind hgo ht), rfl, rfl⟩

end Imperativo.Grammar
