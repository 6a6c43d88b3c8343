import Imperativo.Proofs.Grammar.Parsing

/-!
# Braces are kept in balance

`behindCloseBrace 0` finds the brace that closes the surrounding block.  Reading a part of the
grammar, whether it comes to a value or stops, and passing over a broken statement, do not change
which brace that is (`Level`): what they take has its braces in pairs.

* **`tidy`** — lists of statements.
* **`throughClose_reaches`** — a program is read through the brace that closes its first opening
  one.

Braces are taken by blocks, by the search for a place to go on and by the end of the program, and
each of them takes a closing one only for an opening one that it took before.  Inside a block the
level is one deeper, so a stop there would not do; but a list of statements stops only at the end of
the input (`Tidy`).
-/

namespace Imperativo.Grammar

open Phrase

variable {α β : Type}

/-! ## Where a block ends -/

/-- Tokens without a brace among them. -/
def Braceless (ts : List Token) : Prop :=
  ∀ t ∈ ts, t.kind ≠ .sign .openBrace ∧ t.kind ≠ .sign .closeBrace

@[simp] lemma braceless_cons (t : Token) (ts : List Token) : Braceless (t :: ts) ↔
    (t.kind ≠ .sign .openBrace ∧ t.kind ≠ .sign .closeBrace) ∧ Braceless ts := by simp [Braceless]

lemma Braceless.mono {us ts : List Token} (h : Braceless ts) (hus : us ⊆ ts) : Braceless us :=
  fun t ht => h t (hus ht)

lemma Phrase.Plain.braceless {ts : List Token} (h : Plain ts) : Braceless ts := by
  intro t ht
  have hb := h t ht
  constructor <;> rintro hk <;> rw [hk] at hb <;> cases hb

lemma Phrase.Simple.braceless {ts : List Token} {tree : Tree} (h : Simple ts tree) : Braceless ts :=
  by
  obtain ⟨us, semi, rfl, hplain, hsemi⟩ := h.ends
  intro t ht
  rcases List.mem_append.mp ht with ht | ht
  · exact hplain.braceless t ht
  · rw [List.mem_singleton.mp ht, hsemi]
    decide

section Close

variable {t : Token} {ts rest : List Token} {depth : Nat}

lemma behindCloseBrace_open (h : t.kind = .sign .openBrace) :
    behindCloseBrace depth (t :: ts) = behindCloseBrace (depth + 1) ts := by
  rw [behindCloseBrace.eq_def]
  simp only [h]

lemma behindCloseBrace_close_zero (h : t.kind = .sign .closeBrace) :
    behindCloseBrace 0 (t :: ts) = .ok ts := by
  rw [behindCloseBrace.eq_def]
  simp only [h]

lemma behindCloseBrace_close_succ (h : t.kind = .sign .closeBrace) :
    behindCloseBrace (depth + 1) (t :: ts) = behindCloseBrace depth ts := by
  rw [behindCloseBrace.eq_def]
  simp only [h]

lemma behindCloseBrace_other (h : t.kind ≠ .sign .openBrace ∧ t.kind ≠ .sign .closeBrace) :
    behindCloseBrace depth (t :: ts) = behindCloseBrace depth ts := by
  rw [behindCloseBrace.eq_def]
  simp only
  split
  · exact absurd ‹_› h.1
  · exact absurd ‹_› h.2
  · rfl

lemma behindCloseBrace_braceless (h : Braceless ts) :
    behindCloseBrace depth (ts ++ rest) = behindCloseBrace depth rest := by
  induction ts with
  | nil => rfl
  | cons t ts ih =>
      rw [braceless_cons] at h
      rw [List.cons_append, behindCloseBrace_other h.1, ih h.2]

/-- To leave several blocks is to leave the inner ones and then the outer ones. -/
lemma behindCloseBrace_add (inner outer : Nat) (ts : List Token) :
    behindCloseBrace (inner + outer + 1) ts =
    Except.bind (behindCloseBrace inner ts) (behindCloseBrace outer) := by
  fun_induction behindCloseBrace inner ts with
  | case1 inner => rfl
  | case2 inner t rest ht ih =>
      rw [behindCloseBrace_open ht, ← ih]
      congr 1
      omega
  | case3 t rest ht => rw [Nat.zero_add, behindCloseBrace_close_succ ht]; rfl
  | case4 t rest ht inner ih =>
      rw [behindCloseBrace_close_succ ht, ← ih]
      congr 1
      omega
  | case5 inner t rest hopen hclose ih => rw [behindCloseBrace_other ⟨hopen, hclose⟩, ih]

/-- Either there is a closing brace, or the search ends with the input. -/
lemma behindCloseBrace_error {s : Stop} (h : behindCloseBrace depth ts = .error s) :
    s = .before .bodyClose [] := by
  fun_induction behindCloseBrace depth ts with
  | case1 => cases h; rfl
  | case3 => cases h
  | _ => rename_i ih; exact ih h

lemma behindCloseBrace_append (more : List Token) (h : behindCloseBrace depth ts = .ok rest) :
    behindCloseBrace depth (ts ++ more) = .ok (rest ++ more) := by
  fun_induction behindCloseBrace depth ts with
  | case1 => cases h
  | case2 depth t ts ht ih => rw [List.cons_append, behindCloseBrace_open ht, ih h]
  | case3 t ts ht => cases h; rw [List.cons_append, behindCloseBrace_close_zero ht]
  | case4 t ts ht depth ih => rw [List.cons_append, behindCloseBrace_close_succ ht, ih h]
  | case5 depth t ts hopen hclose ih =>
      rw [List.cons_append, behindCloseBrace_other ⟨hopen, hclose⟩, ih h]

end Close

/-! ## Levels -/

/-- The two lists stand at the same level: the block around them ends at the same place. -/
def Level (ts us : List Token) : Prop := behindCloseBrace 0 ts = behindCloseBrace 0 us

lemma Level.trans {ts us vs : List Token} (h : Level ts us) (h' : Level us vs) : Level ts vs :=
  Eq.trans h h'

lemma level_braceless {ts : List Token} (h : Braceless ts) (rest : List Token) :
    Level rest (ts ++ rest) :=
  (behindCloseBrace_braceless h).symm

lemma level_cons {t : Token} (h : t.kind ≠ .sign .openBrace ∧ t.kind ≠ .sign .closeBrace)
    (rest : List Token) : Level rest (t :: rest) := (behindCloseBrace_other h).symm

/-- A lawful reading whose phrases have no brace stays at its level. -/
lemma Lawful.level {f : List Token → Reading α} {R : List Token → α → Prop} (hf : Lawful f R)
    (hR : ∀ {us x}, R us x → Braceless us) (ts : List Token) : Level (left (f ts)) ts := by
  cases h : f ts with
  | ok p =>
      obtain ⟨us, hus, hx⟩ := (hf.law ts).sound h
      rw [hus]
      exact level_braceless (hR hx) _
  | error s =>
      obtain ⟨us, vs, x, hus, hx⟩ := (hf.law ts).viable h
      rw [hus]
      exact level_braceless ((hR hx).mono (List.subset_append_left us vs)) _

lemma Level.readThen {f : List Token → Reading α} {g : α → List Token → Reading β} {ts : List Token}
    (hf : Level (left (f ts)) ts)
    (hg : ∀ {x rest}, f ts = .ok (x, rest) → Level (left (g x rest)) rest) :
    Level (left (readThen f g ts)) ts := by
  cases h : f ts with
  | error s => rw [readThen_error h]; rwa [h] at hf
  | ok p =>
      obtain ⟨x, rest⟩ := p
      rw [readThen_ok h]
      rw [h] at hf
      exact (hg h).trans hf

lemma level_resynchronizeAt (depth : Nat) (ts : List Token) :
    behindCloseBrace 0 (resynchronizeAt depth ts).2 = behindCloseBrace depth ts := by
  fun_induction resynchronizeAt depth ts with
  | case1 depth => rfl
  | case2 depth t rest ht ih => rw [ih, behindCloseBrace_open ht]
  | case3 t rest ht => rfl
  | case4 t rest ht => rw [behindCloseBrace_close_succ ht]
  | case5 t rest ht outer ih => rw [ih, behindCloseBrace_close_succ ht]
  | case6 t rest ht => rw [behindCloseBrace_other (by rw [ht]; decide)]
  | case7 t rest ht depth ih => rw [ih, behindCloseBrace_other (by rw [ht]; decide)]
  | case8 depth t rest hopen hclose _ ih => rw [ih, behindCloseBrace_other ⟨hopen, hclose⟩]

/-- Reading goes on at the level at which the broken statement stands. -/
lemma level_resynchronize (ts : List Token) : Level (resynchronize ts).2 ts :=
  level_resynchronizeAt 0 ts

/-! ## Lists of statements -/

/-- What reading a list of statements comes to: it stays at its level, stops at the end of the input
only, and otherwise leaves the end of its list. -/
structure Tidy (body : Bool) (ts : List Token) : Prop where
  level : Level (left (eventually (statements body) ts)) ts
  stop : ∀ {s}, eventually (statements body) ts = .error s → s.rest = []
  ends : ∀ {trees rest}, eventually (statements body) ts = .ok (trees, rest) →
    endsStatements body rest = true

section Blocks

variable {n : Nat} {ts : List Token}

/-- Behind an opening brace there are two levels, the second of which the closing brace ends. -/
lemma level_inside {t c : Token} {us rest : List Token} (ht : t.kind = .sign .openBrace)
    (hc : c.kind = .sign .closeBrace) (h : Level (c :: rest) us) : Level rest (t :: us) := by
  rw [Level, behindCloseBrace_close_zero hc] at h
  rw [Level, behindCloseBrace_open ht, behindCloseBrace_add 0 0, ← h]
  rfl

lemma level_inside_nil {t : Token} {us : List Token} (ht : t.kind = .sign .openBrace)
    (h : Level [] us) : Level [] (t :: us) := by
  rw [Level] at h
  rw [Level, behindCloseBrace_open ht, behindCloseBrace_add 0 0, ← h]
  rfl

lemma level_block (hin : ∀ us : List Token, us.length < n → Tidy false us) (owner : Word)
    (hts : ts.length ≤ n) : Level (left (eventually (block (statements false) owner) ts)) ts := by
  cases ts with
  | nil => rfl
  | cons t us =>
      by_cases ht : t.kind = .sign .openBrace
      · obtain ⟨hlevel, hstop, hends⟩ := hin us (by rw [List.length_cons] at hts; omega)
        rw [eventually, block_open ht, ← eventually, eventually_runThen]
        cases h : eventually (statements false) us with
        | error s =>
            rw [readThen_error h, left_error, hstop h]
            rw [h, left_error, hstop h] at hlevel
            exact level_inside_nil ht hlevel
        | ok p =>
            obtain ⟨trees, rest⟩ := p
            rw [readThen_ok h, eventually_runThen, eventually_inOneGo]
            rw [h, left_ok] at hlevel
            cases rest with
            | nil => exact level_inside_nil ht hlevel
            | cons c rest =>
                have hc : c.kind = .sign .closeBrace := by simpa [endsStatements] using hends h
                rw [readThen_ok (expect_ok hc rest)]
                exact level_inside ht hc hlevel
      · rw [eventually, block_refuses ht]
        rfl

lemma level_otherwise (hin : ∀ us : List Token, us.length < n → Tidy false us) (t : Token)
    (test yes : Tree) (hts : ts.length ≤ n) :
    Level (left (eventually (otherwise (statements false) t test yes) ts)) ts := by
  unfold eventually otherwise
  split
  · rename_i hfollows
    cases ts with
    | nil => cases hfollows
    | cons e us =>
        have he : e.kind = .word .sino := by simpa [otherwiseFollows] using hfollows
        rw [List.drop_one, List.tail_cons, ← eventually, eventually_runThen]
        refine Level.trans ?_ (level_cons (by rw [he]; decide) us)
        refine (level_block hin .sino ?_).readThen fun _ => rfl
        rw [List.length_cons] at hts
        omega
  · rfl

/-- A condition and a block behind it stay at their level, with what follows them. -/
lemma level_guarded_block (hin : ∀ us : List Token, us.length < n → Tidy false us)
    {owner owner' : Word} {g : Tree → Tree → List Token → Run (Tree × List Token)}
    (hg : ∀ test tree (rest : List Token), rest.length ≤ n →
      Level (left (eventually (g test tree) rest)) rest)
    (hts : ts.length ≤ n) : Level (left (eventually (runThen (inOneGo (guarded owner)) fun test =>
      runThen (block (statements false) owner') (g test)) ts)) ts := by
  rw [eventually_runThen, eventually_inOneGo]
  refine ((lawful_guarded owner).level (fun h => h.plain.braceless) ts).readThen
    fun {test us} htest => ?_
  have hus := (lawful_guarded owner).shrinks ts
  rw [htest, left_ok] at hus
  rw [eventually_runThen]
  refine (level_block hin owner' (hus.length_le.trans hts)).readThen fun {tree rest} htree => ?_
  have hrest := shrinks_block (shrinks_statements false) owner' us
  rw [htree, left_ok] at hrest
  exact hg test tree rest ((hrest.trans hus).length_le.trans hts)

lemma level_statement (hin : ∀ us : List Token, us.length < n → Tidy false us)
    (hts : ts.length ≤ n + 1) : Level (left (eventually (statement (statements false)) ts)) ts := by
  cases ts with
  | nil => rfl
  | cons t us =>
      rw [List.length_cons] at hts
      cases starts t with
      | simple f hf h =>
          obtain ⟨vs, tree, hvs⟩ := hf.phrase
          have ht := ((braceless_cons t vs).mp hvs.braceless).1
          rw [eventually, h, ← eventually, eventually_inOneGo]
          exact (hf.level (fun h => ((braceless_cons t _).mp h.braceless).2) us).trans
            (level_cons ht us)
      | misplaced h => rw [eventually, h]; rfl
      | loop ht h =>
          rw [eventually, h, loop_eq, ← eventually]
          refine (level_guarded_block hin (fun test tree rest _ => ?_) (by omega)).trans
            (level_cons (by rw [ht]; decide) us)
          rfl
      | conditional ht h =>
          rw [eventually, h, conditional_eq, ← eventually]
          exact (level_guarded_block hin
            (fun test yes rest hrest => level_otherwise hin t test yes hrest)
            (by omega)).trans (level_cons (by rw [ht]; decide) us)

lemma level_turn (h : Level (left (eventually (statement (statements false)) ts)) ts) :
    Level (left (eventually (turn (statements false)) ts)) ts := by
  rw [eventually] at h ⊢
  rw [turn]
  cases hrun : (statement (statements false) ts).outcome with
  | ok p => rw [recovered_ok hrun]; rwa [hrun] at h
  | error s =>
      rw [hrun, left_error] at h
      by_cases hs : s.rest = []
      · rw [recovered_fatal hrun hs]
        exact h
      · rw [recovered_broken hrun hs]
        exact (level_resynchronize s.rest).trans h

/-- A turn stops only at the end of the input. -/
lemma turn_stop {inside : BlockReader} {s : Stop} (h : eventually (turn inside) ts = .error s) :
    s.rest = [] := by
  rw [eventually, turn] at h
  cases hrun : (statement inside ts).outcome with
  | ok p => rw [recovered_ok hrun] at h; cases h
  | error s' =>
      by_cases hs : s'.rest = []
      · rw [recovered_fatal hrun hs] at h
        cases h
        exact hs
      · rw [recovered_broken hrun hs] at h
        cases h

end Blocks

/-- **Lists of statements** are tidy. -/
theorem tidy (body : Bool) (ts : List Token) : Tidy body ts := by
  induction hn : ts.length using Nat.strong_induction_on generalizing body ts with
  | _ n ih =>
      have hin : ∀ us : List Token, us.length < n → Tidy false us :=
        fun us hus => ih us.length hus false us rfl
      cases hend : endsStatements body ts with
      | true =>
          have hrun : eventually (statements body) ts = .ok ([], ts) := by
            rw [eventually, statements_ends hend]; rfl
          refine ⟨by rw [hrun]; rfl, fun h => ?_, fun h => ?_⟩
          · rw [hrun] at h; cases h
          · rw [hrun] at h; cases h; exact hend
      | false =>
          have hrun : eventually (statements body) ts =
              readThen (eventually (turn (statements false))) (fun first =>
                readThen (eventually (statements body)) fun others rest =>
                  .ok (first ++ others, rest)) ts := by
            rw [eventually, statements_goesOn hend, ← eventually, eventually_runThen]
            simp only [eventually_runThen, eventually_done]
          have hturn := level_turn (level_statement hin (by omega : ts.length ≤ n + 1))
          have hothers : ∀ {first us}, eventually (turn (statements false)) ts = .ok (first, us) →
              Tidy body us := by
            intro first us hfirst
            refine ih us.length ?_ body us rfl
            obtain ⟨t, ts, rfl, ht⟩ := cons_of_goesOn hend
            have hle := length_turn_cons (shrinks_statements false) ht ts
            rw [hfirst, left_ok] at hle
            rw [← hn, List.length_cons]
            omega
          refine ⟨?_, fun {s} h => ?_, fun {trees rest} h => ?_⟩
          · rw [hrun]
            exact hturn.readThen fun hfirst => (hothers hfirst).level.readThen fun _ => rfl
          · rw [hrun] at h
            rcases readThen_eq_error h with hfirst | ⟨first, us, hfirst, h⟩
            · exact turn_stop hfirst
            · rcases readThen_eq_error h with hsecond | ⟨others, vs, _, h⟩
              · exact (hothers hfirst).stop hsecond
              · cases h
          · rw [hrun] at h
            obtain ⟨first, us, hfirst, h⟩ := readThen_eq_ok h
            obtain ⟨others, vs, hsecond, h⟩ := readThen_eq_ok h
            cases h
            exact (hothers hfirst).ends hsecond

/-! ## Programs -/

lemma Run.bind_assoc {γ : Type} (r : Run α) (f : α → Run β) (g : β → Run γ) :
    r >>= f >>= g = r >>= fun x => f x >>= g := by
  change andThen (andThen r f) g = andThen r fun x => andThen (f x) g
  unfold andThen
  cases r.outcome with
  | error s => rfl
  | ok x => cases h : (f x).outcome <;> simp [h]

lemma Run.done_bind (x : α) (f : α → Run β) : done x >>= f = f x := rfl

/-- Leaves the body of a program through the brace that closes it. -/
def leave (ts : List Token) : Run (Unit × List Token) :=
  closing ts >>= fun rest => Run.done ((), rest)

/-- Reads the body of a program that starts at `p`, through the brace that closes it. -/
def bodyThroughClose (p : Position) (name : Option Text) (start : List Token) :
    Run (Tree × List Token) :=
  runThen (statements true) (fun trees => runThen terminate fun terminator =>
    runThen leave fun _ rest =>
    Run.done (.node ⟨.program, name, p⟩ (blockNode start trees :: terminator), rest)) start

/-- Reads a program through the brace that closes it. -/
def throughClose (ts : List Token) : Run (Tree × List Token) :=
  runThen opening (bodyThroughClose (nextPosition ts)) ts

/-- What stands behind a program is all that is looked at behind its closing brace. -/
lemma program_eq (ts : List Token) :
    program ts = throughClose ts >>= fun p => trailing p.2 >>= fun _ => Run.done p.1 := by
  unfold throughClose bodyThroughClose runThen leave
  simp only [Run.bind_assoc, Run.done_bind]
  rfl

/-- The outcome is a value in front of the tokens that were searched for, or, if there are none, a
stop at the end of the input. -/
def Reaches (r : Reading α) : Except Stop (List Token) → Prop
  | .ok rest => ∃ x, r = .ok (x, rest)
  | .error _ => ∃ s, r = .error s ∧ s.rest = []

lemma Reaches.level {f : List Token → Reading α} {g : α → List Token → Reading β} {ts : List Token}
    (hf : Level (left (f ts)) ts) (hstop : ∀ {s}, f ts = .error s → s.rest = [])
    (hg : ∀ {x rest}, f ts = .ok (x, rest) → Reaches (g x rest) (behindCloseBrace 0 rest)) :
    Reaches (readThen f g ts) (behindCloseBrace 0 ts) := by
  rw [← hf]
  cases h : f ts with
  | ok p =>
      obtain ⟨x, rest⟩ := p
      rw [readThen_ok h]
      exact hg h
  | error s =>
      rw [readThen_error h, left_error, hstop h]
      exact ⟨s, rfl, hstop h⟩

lemma behindOpenBrace_append {us : List Token} (h : ∀ t ∈ us, t.kind ≠ .sign .openBrace)
    (rest : List Token) : behindOpenBrace (us ++ rest) = behindOpenBrace rest := by
  induction us with
  | nil => rfl
  | cons t us ih =>
      rw [List.cons_append, behindOpenBrace, if_neg (h t List.mem_cons_self)]
      exact ih fun u hu => h u (List.mem_cons_of_mem t hu)

lemma behindOpenBrace_cons {t : Token} (h : t.kind = .sign .openBrace) (rest : List Token) :
    behindOpenBrace (t :: rest) = .ok rest := by
  rw [behindOpenBrace, if_pos h]

lemma behindOpenBrace_error {ts : List Token} {s : Stop} (h : behindOpenBrace ts = .error s) :
    s.rest = [] := by
  fun_induction behindOpenBrace ts with
  | case1 => cases h; rfl
  | case2 => cases h
  | case3 t rest ht ih => exact ih h

/-- A heading has one opening brace, its last token. -/
lemma Opening.split {us : List Token} {name : Text} (h : Opening us name) :
    ∃ vs b, us = vs ++ [b] ∧ (∀ t ∈ vs, t.kind ≠ .sign .openBrace) ∧ b.kind = .sign .openBrace := by
  rcases h with ⟨p, n, o, c, b, rfl, hp, hn, ho, hc, hb, rfl⟩
  exact ⟨[p, n, o, c], b, rfl, by simp [hp, hn, ho, hc], hb⟩

/-- Reading goes on behind the first opening brace, whether the heading is in order or not. -/
lemma opening_reaches (ts : List Token) : Reaches (eventually opening ts) (behindOpenBrace ts) := by
  rw [eventually, opening]
  cases h : heading ts with
  | ok p =>
      obtain ⟨name, rest⟩ := p
      obtain ⟨us, rfl, hus⟩ := (lawful_heading.law ts).sound h
      obtain ⟨vs, b, rfl, hvs, hb⟩ := hus.split
      rw [List.append_assoc, behindOpenBrace_append hvs, List.singleton_append,
        behindOpenBrace_cons hb]
      exact ⟨some name, rfl⟩
  | error s =>
      obtain ⟨us, vs, name, hus, hopening⟩ := (lawful_heading.law ts).viable h
      have hvs : vs ≠ [] := by
        rintro rfl
        rw [List.append_nil] at hopening
        rw [hus, complete_heading s.rest hopening (apart_anything _)] at h
        cases h
      obtain ⟨ws, b, hws, hplain, _⟩ := hopening.split
      have hus' : ∀ t ∈ us, t.kind ≠ .sign .openBrace := by
        intro t ht
        refine hplain t ?_
        have hlast := congrArg List.dropLast hws
        rw [List.dropLast_concat, List.dropLast_append_of_ne_nil hvs] at hlast
        rw [← hlast]
        exact List.mem_append_left _ ht
      have hbehind : behindOpenBrace ts = behindOpenBrace s.rest := by
        conv_lhs => rw [hus]
        exact behindOpenBrace_append hus' s.rest
      rw [hbehind]
      by_cases hs : s.rest = []
      · simp only [passOver_fatal hs]
        rw [hs]
        exact ⟨s, rfl, hs⟩
      · simp only [passOver_of_ne hs]
        cases hopen : behindOpenBrace s.rest with
        | ok rest => exact ⟨none, rfl⟩
        | error s' => exact ⟨s', rfl, behindOpenBrace_error hopen⟩

section Ends

variable {t v : Token} {us vs rest : List Token}

/-- Without `terminar` nothing is taken. -/
lemma terminate_missing (ht : t.kind ≠ .word .terminar) (us : List Token) :
    terminate (t :: us) = ⟨[.before .terminate (t :: us)], .ok ([], t :: us)⟩ := by
  rw [terminate, expect_error ht]
  rfl

lemma terminate_ok (ht : t.kind = .word .terminar) (hv : v.kind = .sign .semicolon)
    (vs : List Token) :
    terminate (t :: v :: vs) = Run.done ([.node ⟨.terminate, none, t.position⟩ []], vs) := by
  rw [terminate, expect_ok ht]
  simp only [terminateSemicolon, expect_ok hv]
  rfl

/-- Without a semicolon behind `terminar` reading goes on as behind a broken statement. -/
lemma terminate_broken (ht : t.kind = .word .terminar) (hv : v.kind ≠ .sign .semicolon)
    (vs : List Token) :
    terminate (t :: v :: vs) = ⟨[.before .terminateSemicolon (v :: vs)],
      .ok ([.node ⟨.terminate, none, t.position⟩ []], (resynchronize (v :: vs)).2)⟩ := by
  rw [terminate, expect_ok ht]
  simp only [terminateSemicolon, expect_error hv]
  rfl

lemma terminate_fatal (ht : t.kind = .word .terminar) :
    terminate [t] = Run.stopped (.before .terminateSemicolon []) := by
  rw [terminate, expect_ok ht]
  rfl

/-- The last statement of a program is read, or reported as missing, at its level. -/
lemma level_terminate (ts : List Token) : Level (left (eventually terminate ts)) ts ∧
    ∀ {s}, eventually terminate ts = .error s → s.rest = [] := by
  rw [eventually]
  cases ts with
  | nil => exact ⟨rfl, by rintro _ ⟨⟩; rfl⟩
  | cons t us =>
      by_cases ht : t.kind = .word .terminar
      · have hcons : Level us (t :: us) := level_cons (by rw [ht]; decide) us
        cases us with
        | nil =>
            rw [terminate_fatal ht]
            exact ⟨hcons, by rintro _ ⟨⟩; rfl⟩
        | cons v vs =>
            by_cases hv : v.kind = .sign .semicolon
            · rw [terminate_ok ht hv]
              exact ⟨(level_cons (by rw [hv]; decide) vs).trans hcons, by rintro _ ⟨⟩⟩
            · rw [terminate_broken ht hv]
              exact ⟨(level_resynchronize (v :: vs)).trans hcons, by rintro _ ⟨⟩⟩
      · rw [terminate_missing ht]
        exact ⟨rfl, by rintro _ ⟨⟩⟩

lemma leave_close (ht : t.kind = .sign .closeBrace) (us : List Token) :
    leave (t :: us) = Run.done ((), us) := by
  rw [leave, closing, expect_ok ht]
  rfl

/-- What stands in front of the closing brace is passed over. -/
lemma leave_passed (ht : t.kind ≠ .sign .closeBrace) (h : behindCloseBrace 0 (t :: us) = .ok rest) :
    leave (t :: us) = ⟨[.before .closeAfterTerminate (t :: us)], .ok ((), rest)⟩ := by
  have hrest : (Stop.before .closeAfterTerminate (t :: us)).rest = t :: us := rfl
  rw [leave, closing, expect_error ht]
  simp only [hrest, h, passOver_of_ne (s := .before .closeAfterTerminate (t :: us)) (by simp)]
  rfl

/-- The body of a program is left through the brace that closes it, whatever stands in front of
that. -/
lemma leave_reaches (ts : List Token) : Reaches (eventually leave ts) (behindCloseBrace 0 ts) := by
  rw [eventually]
  cases ts with
  | nil => exact ⟨_, rfl, rfl⟩
  | cons t us =>
      by_cases ht : t.kind = .sign .closeBrace
      · rw [leave_close ht, behindCloseBrace_close_zero ht]
        exact ⟨(), rfl⟩
      · cases hclose : behindCloseBrace 0 (t :: us) with
        | ok rest =>
            rw [leave_passed ht hclose]
            exact ⟨(), rfl⟩
        | error s =>
            have hrest : (Stop.before .closeAfterTerminate (t :: us)).rest = t :: us := rfl
            rw [leave, closing, expect_error ht]
            simp only [hrest, hclose, passOver_of_ne (s := .before .closeAfterTerminate (t :: us))
              (by simp)]
            exact ⟨s, rfl, by rw [behindCloseBrace_error hclose]; rfl⟩

end Ends

/-- A program is read through the brace that closes its first opening one. -/
theorem throughClose_reaches (ts : List Token) :
    Reaches (eventually throughClose ts)
    (Except.bind (behindOpenBrace ts) (behindCloseBrace 0)) := by
  have hopening := opening_reaches ts
  rw [eventually, throughClose, ← eventually, eventually_runThen]
  cases hopen : behindOpenBrace ts with
  | error s =>
      rw [hopen] at hopening
      rcases hopening with ⟨s', hs', hrest⟩
      rw [readThen_error hs']
      exact ⟨s', rfl, hrest⟩
  | ok start =>
      rw [hopen] at hopening
      rcases hopening with ⟨name, hname⟩
      rw [readThen_ok hname, eventually, bodyThroughClose, ← eventually, eventually_runThen]
      refine Reaches.level (tidy true start).level (tidy true start).stop fun {trees us} _ => ?_
      rw [eventually_runThen]
      refine Reaches.level (level_terminate us).1 (level_terminate us).2 fun {terminator vs} _ => ?_
      rw [eventually_runThen]
      have hleave := leave_reaches vs
      cases hclose : behindCloseBrace 0 vs with
      | error s =>
          rw [hclose] at hleave
          rcases hleave with ⟨s', hs', hrest⟩
          rw [readThen_error hs']
          exact ⟨s', rfl, hrest⟩
      | ok rest =>
          rw [hclose] at hleave
          rcases hleave with ⟨x, hx⟩
          rw [readThen_ok hx]
          exact ⟨_, rfl⟩

end Imperativo.Grammar
