import Imperativo.Proofs.Grammar.Simple

/-!
# As many turns as there are tokens suffice

The statements of a block are read by a loop that is given a number of turns.  Here it is shown that
the number does not matter once it is as large as the number of tokens (`statementsWithin_eq`), so
the loop obeys an equation in which no turns occur.

* **`statements_ends`**, **`statements_goesOn`** — that equation.

The reason is that a run never gives tokens back (`Shrinks`), and that every turn uses one up: a
statement that was read takes its first token, and a broken one is passed over together with it.
-/

namespace Imperativo.Grammar

open Phrase

variable {α β : Type}

/-! ## Runs one after another -/

/-- Runs one part of the grammar, then another behind it. -/
def runThen (f : List Token → Run (α × List Token)) (g : α → List Token → Run (β × List Token))
    (ts : List Token) : Run (β × List Token) :=
  f ts >>= fun p => g p.1 p.2

/-- The run of a part that is read in one go. -/
def inOneGo (f : List Token → Reading α) (ts : List Token) : Run (α × List Token) :=
  Run.ofReading (f ts)

/-- What a run comes to in the end, whatever it passes over. -/
def eventually (f : List Token → Run (α × List Token)) (ts : List Token) : Reading α :=
  (f ts).outcome

lemma runThen_ok {f : List Token → Run (α × List Token)} {g : α → List Token → Run (β × List Token)}
    {ts rest : List Token} {x : α} (h : eventually f ts = .ok (x, rest)) :
    runThen f g ts = ⟨(f ts).passed ++ (g x rest).passed, (g x rest).outcome⟩ := by
  change (f ts).outcome = _ at h
  change Run.andThen _ _ = _
  rw [Run.andThen, h]

lemma runThen_error {f : List Token → Run (α × List Token)}
    {g : α → List Token → Run (β × List Token)}
    {ts : List Token} {s : Stop} (h : eventually f ts = .error s) :
    runThen f g ts = ⟨(f ts).passed, .error s⟩ := by
  change (f ts).outcome = _ at h
  change Run.andThen _ _ = _
  rw [Run.andThen, h]

lemma eventually_runThen (f : List Token → Run (α × List Token))
    (g : α → List Token → Run (β × List Token)) :
    eventually (runThen f g) = readThen (eventually f) fun x => eventually (g x) := by
  funext ts
  cases h : eventually f ts with
  | error s => rw [readThen_error h, eventually, runThen_error h]
  | ok p => rw [readThen_ok h, eventually, runThen_ok h, eventually]

@[simp] lemma eventually_inOneGo (f : List Token → Reading α) : eventually (inOneGo f) = f := by
  funext ts
  rw [eventually, inOneGo]
  cases f ts <;> rfl

@[simp] lemma eventually_done (x : α) :
    eventually (fun ts => Run.done (x, ts)) = fun ts => .ok (x, ts) := rfl

lemma runThen_inOneGo_ok {f : List Token → Reading α} {g : α → List Token → Run (β × List Token)}
    {ts rest : List Token} {x : α} (h : f ts = .ok (x, rest)) :
    runThen (inOneGo f) g ts = g x rest := by
  rw [runThen_ok (by rw [eventually_inOneGo]; exact h), inOneGo, h]
  rfl

lemma runThen_inOneGo_error {f : List Token → Reading α} {g : α → List Token → Run (β × List Token)}
    {ts : List Token} {s : Stop} (h : f ts = .error s) :
    runThen (inOneGo f) g ts = Run.stopped s := by
  rw [runThen_error (by rw [eventually_inOneGo]; exact h), inOneGo, h]
  rfl

/-- Runs in which the first parts agree, and the second ones on what the first leave, agree. -/
lemma runThen_congr {f f' : List Token → Run (α × List Token)}
    {g g' : α → List Token → Run (β × List Token)} {ts : List Token} (hf : f ts = f' ts)
    (hg : ∀ {x rest}, eventually f ts = .ok (x, rest) → g x rest = g' x rest) :
    runThen f g ts = runThen f' g' ts := by
  have hf' : eventually f' ts = eventually f ts := by rw [eventually, eventually, hf]
  cases h : eventually f ts with
  | error s => rw [runThen_error h, runThen_error (hf'.trans h), hf]
  | ok p => rw [runThen_ok h, runThen_ok (hf'.trans h), hf, hg h]

/-! ## Statements by their first token -/

/-- What reading a statement comes to, by its first token `t`: a statement without blocks, a loop, a
conditional, or nothing that could be a statement. -/
inductive Starts (t : Token) : Prop
  | simple (f : List Token → Reading Tree) (hf : Lawful f fun us tree => Simple (t :: us) tree)
      (h : ∀ inside rest, statement inside (t :: rest) = inOneGo f rest)
  | loop (ht : t.kind = .word .mientras)
      (h : ∀ inside rest, statement inside (t :: rest) = loop inside t rest)
  | conditional (ht : t.kind = .word .si)
      (h : ∀ inside rest, statement inside (t :: rest) = conditional inside t rest)
  | misplaced (h : ∀ inside rest, statement inside (t :: rest) =
      Run.stopped (.before (misplaced (t :: rest)) (t :: rest)))

lemma starts (t : Token) : Starts t := by
  cases ht : t.kind with
  | scalar type =>
      exact .simple _ (lawful_declaration ht) fun inside rest => by simp only [statement, ht]; rfl
  | identifier =>
      exact .simple _ (lawful_assignment ht) fun inside rest => by simp only [statement, ht]; rfl
  | word w =>
      cases w with
      | imprimir =>
          exact .simple _ (lawful_print ht) fun inside rest => by simp only [statement, ht]; rfl
      | leer =>
          exact .simple _ (lawful_read ht) fun inside rest => by simp only [statement, ht]; rfl
      | mientras => exact .loop ht fun inside rest => by simp only [statement, ht]
      | si => exact .conditional ht fun inside rest => by simp only [statement, ht]
      | _ => exact .misplaced fun inside rest => by simp only [statement, ht]
  | _ => exact .misplaced fun inside rest => by simp only [statement, ht]

section Blocks

variable {inside : BlockReader}

lemma block_eq (owner : Word) : block inside owner =
    runThen (inOneGo (expect (.sign .openBrace) (.blockOpen owner))) fun _ start =>
      runThen inside (fun trees =>
        runThen (inOneGo (expect (.sign .closeBrace) (.blockClose owner))) fun _ rest =>
        Run.done (blockNode start trees, rest)) start := rfl

lemma block_open {t : Token} (ht : t.kind = .sign .openBrace) (owner : Word) (start : List Token) :
    block inside owner (t :: start) = runThen inside (fun trees =>
      runThen (inOneGo (expect (.sign .closeBrace) (.blockClose owner))) fun _ rest =>
        Run.done (blockNode start trees, rest)) start := by
  rw [block_eq, runThen_inOneGo_ok (expect_ok ht start)]

lemma block_refuses {owner : Word} {t : Token} (ht : t.kind ≠ .sign .openBrace)
    (rest : List Token) :
    block inside owner (t :: rest) = Run.stopped (.before (.blockOpen owner) (t :: rest)) := by
  rw [block_eq, runThen_inOneGo_error (expect_error ht rest)]

lemma loop_eq (t : Token) : loop inside t = runThen (inOneGo (guarded .mientras)) fun test =>
    runThen (block inside .mientras) fun body ts =>
      Run.done (.node ⟨.loop, none, t.position⟩ [test, body], ts) := rfl

/-- Reads the second block of a conditional, if it has one. -/
def otherwise (inside : BlockReader) (t : Token) (test yes : Tree) (ts : List Token) :
    Run (Tree × List Token) :=
  if otherwiseFollows ts then
    runThen (block inside .sino)
      (fun no rest => Run.done (.node ⟨.alternative, none, t.position⟩ [test, yes, no], rest))
        (ts.drop 1)
  else Run.done (.node ⟨.conditional, none, t.position⟩ [test, yes], ts)

lemma conditional_eq (t : Token) : conditional inside t =
    runThen (inOneGo (guarded .si)) fun test =>
      runThen (block inside .si) fun yes => otherwise inside t test yes := rfl

end Blocks

/-! ## Runs never give tokens back -/

/-- The reading leaves an end of what it was given. -/
def Shrinks (f : List Token → Reading α) : Prop := ∀ ts, left (f ts) <:+ ts

lemma Lawful.shrinks {f : List Token → Reading α} {R : List Token → α → Prop} (hf : Lawful f R) :
    Shrinks f :=
  fun ts => (hf.law ts).suffix

lemma Shrinks.readThen {f : List Token → Reading α} {g : α → List Token → Reading β}
    (hf : Shrinks f) (hg : ∀ x, Shrinks (g x)) : Shrinks (readThen f g) := by
  intro ts
  have hts := hf ts
  cases h : f ts with
  | error s => rw [readThen_error h]; rwa [h] at hts
  | ok p => rw [readThen_ok h]; rw [h] at hts; exact (hg p.1 p.2).trans hts

lemma Shrinks.runThen {f : List Token → Run (α × List Token)}
    {g : α → List Token → Run (β × List Token)}
    (hf : Shrinks (eventually f)) (hg : ∀ x, Shrinks (eventually (g x))) :
    Shrinks (eventually (runThen f g)) := by
  rw [eventually_runThen]
  exact hf.readThen hg

lemma shrinks_done (x : α) : Shrinks (eventually fun ts => Run.done (x, ts)) :=
  fun ts => List.suffix_refl ts

lemma Shrinks.inOneGo {f : List Token → Reading α} (hf : Shrinks f) :
    Shrinks (eventually (inOneGo f)) := by
  rwa [eventually_inOneGo]

lemma resynchronizeAt_suffix (depth : Nat) (ts : List Token) :
    (resynchronizeAt depth ts).2 <:+ ts := by
  fun_induction resynchronizeAt depth ts with
  | case1 => exact List.suffix_refl _
  | case3 => exact List.suffix_refl _
  | case4 => exact List.suffix_cons _ _
  | case6 => exact List.suffix_cons _ _
  | _ => rename_i ih; exact ih.trans (List.suffix_cons _ _)

lemma resynchronize_suffix (ts : List Token) : (resynchronize ts).2 <:+ ts :=
  resynchronizeAt_suffix 0 ts

/-- Only a closing brace is not passed over. -/
lemma length_resynchronize_cons {t : Token} (h : t.kind ≠ .sign .closeBrace) (rest : List Token) :
    (resynchronize (t :: rest)).2.length ≤ rest.length := by
  unfold resynchronize resynchronizeAt
  split
  · exact (resynchronizeAt_suffix 1 rest).length_le
  · exact absurd ‹_› h
  · exact Nat.le_refl _
  · exact (resynchronizeAt_suffix 0 rest).length_le

section Blocks

variable {inside : BlockReader}

lemma shrinks_block (hin : Shrinks (eventually inside)) (owner : Word) :
    Shrinks (eventually (block inside owner)) := by
  rw [block_eq]
  refine (lawful_expect _ _).shrinks.inOneGo.runThen fun _ start => ?_
  exact (hin.runThen fun trees => (lawful_expect _ _).shrinks.inOneGo.runThen fun _ =>
    shrinks_done _) start

lemma shrinks_otherwise (hin : Shrinks (eventually inside)) (t : Token) (test yes : Tree) :
    Shrinks (eventually (otherwise inside t test yes)) := by
  intro ts
  unfold eventually otherwise
  split
  · exact (((shrinks_block hin .sino).runThen fun _ => shrinks_done _) _).trans
      (List.drop_suffix 1 ts)
  · exact List.suffix_refl ts

/-- A statement that was read has used up a token; a stop in it is somewhere in it or in front of
it. -/
lemma shrinks_statement (hin : Shrinks (eventually inside)) (t : Token) (rest : List Token) :
    (∀ {tree rest'}, eventually (statement inside) (t :: rest) = .ok (tree, rest') →
      rest' <:+ rest) ∧
    ∀ {s}, eventually (statement inside) (t :: rest) = .error s →
      s.rest = t :: rest ∨ s.rest <:+ rest := by
  have hsplit : ∀ {f : List Token → Run (Tree × List Token)},
      statement inside (t :: rest) = f rest → Shrinks (eventually f) →
      (∀ {tree rest'}, eventually (statement inside) (t :: rest) = .ok (tree, rest') →
        rest' <:+ rest) ∧
      ∀ {s}, eventually (statement inside) (t :: rest) = .error s →
        s.rest = t :: rest ∨ s.rest <:+ rest := by
    intro f hf hshrinks
    have hle := hshrinks rest
    rw [eventually, hf]
    exact ⟨fun h => by rwa [eventually, h] at hle, fun h => .inr (by rwa [eventually, h] at hle)⟩
  cases starts t with
  | simple f hf h => exact hsplit (h inside rest) hf.shrinks.inOneGo
  | loop _ h =>
      refine hsplit (h inside rest) ?_
      rw [loop_eq]
      exact (lawful_guarded _).shrinks.inOneGo.runThen fun _ => (shrinks_block hin _).runThen
        fun _ => shrinks_done _
  | conditional _ h =>
      refine hsplit (h inside rest) ?_
      rw [conditional_eq]
      exact (lawful_guarded _).shrinks.inOneGo.runThen fun test => (shrinks_block hin _).runThen
        fun yes => shrinks_otherwise hin t test yes
  | misplaced h =>
      rw [eventually, h]
      refine ⟨?_, ?_⟩
      · rintro tree rest' h
        cases h
      · rintro s h
        cases h
        exact .inl rfl

end Blocks

/-! ## Turns -/

lemma passOver_fatal {s : Stop} (h : s.rest = []) : Run.passOver s = Run.stopped s := by
  rw [Run.passOver, h]

lemma passOver_of_ne {s : Stop} (h : s.rest ≠ []) : Run.passOver s = ⟨[s], .ok ()⟩ := by
  unfold Run.passOver
  split
  · exact absurd ‹_› h
  · rfl

lemma recovered_ok {r : Run (Tree × List Token)} {tree : Tree} {rest : List Token}
    (h : r.outcome = .ok (tree, rest)) : recovered r = ⟨r.passed, .ok ([tree], rest)⟩ := by
  rw [recovered, h]

lemma recovered_fatal {r : Run (Tree × List Token)} {s : Stop} (h : r.outcome = .error s)
    (hs : s.rest = []) : recovered r = ⟨r.passed, .error s⟩ := by
  simp only [recovered, h, passOver_fatal hs]
  simp [Run.andThen, Run.stopped]

lemma recovered_broken {r : Run (Tree × List Token)} {s : Stop} (h : r.outcome = .error s)
    (hs : s.rest ≠ []) : recovered r = ⟨r.passed ++ [s], .ok ([], (resynchronize s.rest).2)⟩ := by
  simp only [recovered, h, passOver_of_ne hs]
  simp [Run.andThen, Run.done]

/-- One turn of the loop: reads a statement, or passes over it. -/
def turn (inside : BlockReader) (ts : List Token) : Run (List Tree × List Token) :=
  recovered (statement inside ts)

/-- Where a list of statements goes on there is a token, which closes no brace. -/
lemma cons_of_goesOn {body : Bool} {ts : List Token} (h : endsStatements body ts = false) :
    ∃ t us, ts = t :: us ∧ t.kind ≠ .sign .closeBrace := by
  cases ts with
  | nil => cases h
  | cons t us =>
      refine ⟨t, us, rfl, fun ht => ?_⟩
      simp [endsStatements, ht] at h

lemma statementsWithin_ends {body : Bool} {ts : List Token} (h : endsStatements body ts = true)
    (turns : Nat) : statementsWithin turns body ts = Run.done ([], ts) := by
  cases turns with
  | zero => rfl
  | succ turns => rw [statementsWithin, if_pos h]

lemma statementsWithin_goesOn {body : Bool} {ts : List Token} (h : endsStatements body ts = false)
    (turns : Nat) :
    statementsWithin (turns + 1) body ts = runThen (turn (statementsWithin turns false))
      (fun first =>
        runThen (statementsWithin turns body) fun others rest => Run.done (first ++ others, rest))
      ts := by
  rw [statementsWithin, if_neg (by rw [h]; exact Bool.false_ne_true)]
  rfl

section Blocks

variable {inside : BlockReader}

/-- A turn uses up at least the first token. -/
lemma length_turn_cons (hin : Shrinks (eventually inside)) {t : Token}
    (ht : t.kind ≠ .sign .closeBrace)
    (rest : List Token) : (left (eventually (turn inside) (t :: rest))).length ≤ rest.length := by
  obtain ⟨hok, herror⟩ := shrinks_statement hin t rest
  rw [eventually, turn]
  cases h : (statement inside (t :: rest)).outcome with
  | ok p =>
      rw [recovered_ok h]
      exact (hok h).length_le
  | error s =>
      by_cases hs : s.rest = []
      · rw [recovered_fatal h hs, left_error, hs]
        exact Nat.zero_le _
      · rw [recovered_broken h hs]
        rcases herror h with heq | hsuf
        · rw [heq]
          exact length_resynchronize_cons ht rest
        · exact ((resynchronize_suffix _).trans hsuf).length_le

lemma shrinks_turn (hin : Shrinks (eventually inside)) : Shrinks (eventually (turn inside)) := by
  intro ts
  cases ts with
  | nil => exact List.suffix_refl _
  | cons t rest =>
      obtain ⟨hok, herror⟩ := shrinks_statement hin t rest
      rw [eventually, turn]
      cases h : (statement inside (t :: rest)).outcome with
      | ok p =>
          rw [recovered_ok h]
          exact (hok h).trans (List.suffix_cons t rest)
      | error s =>
          have hsuf : s.rest <:+ t :: rest := (herror h).elim (fun heq => heq ▸ List.suffix_refl _)
            fun hsuf => hsuf.trans (List.suffix_cons t rest)
          by_cases hs : s.rest = []
          · rw [recovered_fatal h hs]
            exact hsuf
          · rw [recovered_broken h hs]
            exact (resynchronize_suffix _).trans hsuf

end Blocks

lemma shrinks_statementsWithin (turns : Nat) (body : Bool) :
    Shrinks (eventually (statementsWithin turns body)) := by
  induction turns generalizing body with
  | zero => exact shrinks_done []
  | succ turns ih =>
      intro ts
      cases h : endsStatements body ts with
      | true => rw [eventually, statementsWithin_ends h]; exact List.suffix_refl ts
      | false =>
          rw [eventually, statementsWithin_goesOn h]
          exact ((shrinks_turn (ih false)).runThen fun first => (ih body).runThen fun others =>
            shrinks_done _) ts

/-! ## The number of turns -/

section Blocks

variable {inside inside' : BlockReader} {n : Nat}

/-- Blocks are read alike if what stands in them is. -/
lemma block_congr (hin : ∀ us : List Token, us.length < n → inside us = inside' us) (owner : Word)
    {ts : List Token} (hts : ts.length ≤ n) : block inside owner ts = block inside' owner ts := by
  rw [block_eq, block_eq]
  refine runThen_congr rfl fun {_ start} hopen => ?_
  rw [eventually_inOneGo] at hopen
  refine runThen_congr (hin start ?_) fun _ => rfl
  obtain ⟨us, rfl, rfl, _⟩ := ((lawful_expect _ _).law ts).sound hopen
  simp only [List.cons_append, List.nil_append, List.length_cons] at hts
  omega

/-- Statements are read alike if what stands in their blocks is. -/
lemma statement_congr (hin : ∀ us : List Token, us.length < n → inside us = inside' us)
    (hshrinks : Shrinks (eventually inside)) {ts : List Token} (hts : ts.length ≤ n + 1) :
    statement inside ts = statement inside' ts := by
  cases ts with
  | nil => rfl
  | cons t rest =>
      rw [List.length_cons] at hts
      have hguarded : ∀ {owner : Word} {test : Tree} {us : List Token},
          eventually (inOneGo (guarded owner)) rest = .ok (test, us) → us.length ≤ n := by
        intro owner test us h
        have hsuf := (lawful_guarded owner).shrinks.inOneGo rest
        rw [h] at hsuf
        exact hsuf.length_le.trans (by omega)
      cases starts t with
      | simple f hf h => rw [h, h]
      | misplaced h => rw [h, h]
      | loop _ h =>
          rw [h, h, loop_eq, loop_eq]
          exact runThen_congr rfl fun htest =>
            runThen_congr (block_congr hin _ (hguarded htest)) fun _ => rfl
      | conditional _ h =>
          rw [h, h, conditional_eq, conditional_eq]
          refine runThen_congr rfl fun {test us} htest =>
            runThen_congr (block_congr hin _ (hguarded htest)) fun {yes vs} hyes => ?_
          have hvs := shrinks_block hshrinks .si us
          rw [hyes] at hvs
          unfold otherwise
          split
          · refine runThen_congr (block_congr hin _ ?_) fun _ => rfl
            exact ((List.drop_suffix 1 vs).trans hvs).length_le.trans (hguarded htest)
          · rfl

end Blocks

/-- A turn more makes no difference when there were as many as tokens. -/
lemma statementsWithin_succ (turns : Nat) (body : Bool) (ts : List Token) (h : ts.length ≤ turns) :
    statementsWithin (turns + 1) body ts = statementsWithin turns body ts := by
  induction turns generalizing body ts with
  | zero =>
      rw [Nat.le_zero, List.length_eq_zero_iff] at h
      subst h
      rfl
  | succ turns ih =>
      cases hend : endsStatements body ts with
      | true => rw [statementsWithin_ends hend, statementsWithin_ends hend]
      | false =>
          rw [statementsWithin_goesOn hend, statementsWithin_goesOn hend]
          have hturn : turn (statementsWithin (turns + 1) false) ts =
              turn (statementsWithin turns false) ts := by
            rw [turn, turn, statement_congr (n := turns) (fun us hus => ih false us hus.le)
              (shrinks_statementsWithin _ _) h]
          refine runThen_congr hturn fun {first rest} hfirst => runThen_congr (ih body rest ?_)
            fun _ => rfl
          obtain ⟨t, us, rfl, ht⟩ := cons_of_goesOn hend
          have hle := length_turn_cons (shrinks_statementsWithin (turns + 1) false) ht us
          rw [hfirst, left_ok] at hle
          rw [List.length_cons] at h
          omega

/-- **As many turns as there are tokens suffice.** -/
theorem statementsWithin_eq {turns : Nat} {body : Bool} {ts : List Token} (h : ts.length ≤ turns) :
    statementsWithin turns body ts = statements body ts := by
  induction turns, h using Nat.le_induction with
  | base => rfl
  | succ turns h ih => rw [statementsWithin_succ turns body ts h, ih]

lemma shrinks_statements (body : Bool) : Shrinks (eventually (statements body)) := fun ts =>
  shrinks_statementsWithin ts.length body ts

/-- At the end of its list nothing is read. -/
theorem statements_ends {body : Bool} {ts : List Token} (h : endsStatements body ts = true) :
    statements body ts = Run.done ([], ts) := statementsWithin_ends h _

/-- Elsewhere there is a turn, and then the others. -/
theorem statements_goesOn {body : Bool} {ts : List Token} (h : endsStatements body ts = false) :
    statements body ts = runThen (turn (statements false)) (fun first =>
      runThen (statements body) fun others rest => Run.done (first ++ others, rest)) ts := by
  obtain ⟨t, us, rfl, ht⟩ := cons_of_goesOn h
  rw [statements, List.length_cons, statementsWithin_goesOn h]
  refine runThen_congr ?_ fun {first rest} hfirst => runThen_congr (statementsWithin_eq ?_)
    fun _ => rfl
  · rw [turn, turn, statement_congr (n := us.length) (fun vs hvs => statementsWithin_eq hvs.le)
      (shrinks_statementsWithin _ _) (Nat.le_refl _)]
  · have hle := length_turn_cons (shrinks_statementsWithin us.length false) ht us
    rwa [hfirst] at hle

/-! ## What is passed over -/

/-- The stops that are passed over have tokens left, and no stop is counted as the end of the
input. -/
structure Honest (r : Run α) : Prop where
  passed : ∀ s ∈ r.passed, s.rest ≠ [] ∧ s.fault ≠ .unexpectedEnd
  outcome : ∀ s, r.outcome = .error s → s.fault ≠ .unexpectedEnd

lemma honest_done (x : α) : Honest (Run.done x) := ⟨by simp [Run.done], by simp [Run.done]⟩

lemma honest_stopped {s : Stop} (h : s.fault ≠ .unexpectedEnd) : Honest (Run.stopped s : Run α) :=
  ⟨by simp [Run.stopped], by rintro _ ⟨⟩; exact h⟩

lemma honest_passOver {s : Stop} (h : s.fault ≠ .unexpectedEnd) : Honest (Run.passOver s) := by
  by_cases hs : s.rest = []
  · rw [passOver_fatal hs]
    exact honest_stopped h
  · rw [passOver_of_ne hs]
    exact ⟨by simpa using ⟨hs, h⟩, by simp⟩

lemma Honest.bind {r : Run α} {g : α → Run β} (hr : Honest r) (hg : ∀ x, Honest (g x)) :
    Honest (r >>= g) := by
  change Honest (Run.andThen r g)
  cases h : r.outcome with
  | error s =>
      simp only [Run.andThen, h]
      refine ⟨hr.passed, ?_⟩
      rintro _ ⟨⟩
      exact hr.outcome s h
  | ok x =>
      simp only [Run.andThen, h]
      refine ⟨fun s hs => ?_, (hg x).outcome⟩
      exact (List.mem_append.mp hs).elim (hr.passed s) ((hg x).passed s)

lemma honest_ofReading {f : List Token → Reading α} {R : List Token → α → Prop} (hf : Lawful f R)
    (ts : List Token) : Honest (inOneGo f ts) := by
  rw [inOneGo]
  cases h : f ts with
  | ok p => exact honest_done p
  | error s => exact honest_stopped ((hf.law ts).classed h)

section Blocks

variable {inside : BlockReader}

lemma honest_block (hin : ∀ ts, Honest (inside ts)) (owner : Word) (ts : List Token) :
    Honest (block inside owner ts) := by
  rw [block_eq]
  exact (honest_ofReading (lawful_expect _ _) ts).bind fun _ => (hin _).bind fun _ =>
    (honest_ofReading (lawful_expect _ _) _).bind fun _ => honest_done _

lemma honest_otherwise (hin : ∀ ts, Honest (inside ts)) (t : Token) (test yes : Tree)
    (ts : List Token) : Honest (otherwise inside t test yes ts) := by
  unfold otherwise
  split
  · exact (honest_block hin _ _).bind fun _ => honest_done _
  · exact honest_done _

lemma honest_statement (hin : ∀ ts, Honest (inside ts)) (ts : List Token) :
    Honest (statement inside ts) := by
  cases ts with
  | nil => exact honest_stopped (Stop.fault_before _ _)
  | cons t rest =>
      cases starts t with
      | simple f hf h => rw [h]; exact honest_ofReading hf rest
      | misplaced h => rw [h]; exact honest_stopped (Stop.fault_before _ _)
      | loop _ h =>
          rw [h, loop_eq]
          exact (honest_ofReading (lawful_guarded _) rest).bind fun _ => (honest_block hin _ _).bind
            fun _ => honest_done _
      | conditional _ h =>
          rw [h, conditional_eq]
          exact (honest_ofReading (lawful_guarded _) rest).bind fun _ => (honest_block hin _ _).bind
            fun _ => honest_otherwise hin _ _ _ _

lemma honest_turn (hin : ∀ ts, Honest (inside ts)) (ts : List Token) : Honest (turn inside ts) := by
  have hstatement := honest_statement hin ts
  rw [turn]
  cases h : (statement inside ts).outcome with
  | ok p =>
      rw [recovered_ok h]
      exact ⟨hstatement.passed, by simp⟩
  | error s =>
      have hfault := hstatement.outcome s h
      by_cases hs : s.rest = []
      · rw [recovered_fatal h hs]
        exact ⟨hstatement.passed, by rintro _ ⟨⟩; exact hfault⟩
      · rw [recovered_broken h hs]
        refine ⟨fun s' hs' => ?_, by simp⟩
        rcases List.mem_append.mp hs' with hs' | hs'
        · exact hstatement.passed s' hs'
        · rw [List.mem_singleton.mp hs']
          exact ⟨hs, hfault⟩

end Blocks

lemma honest_statementsWithin (turns : Nat) (body : Bool) (ts : List Token) :
    Honest (statementsWithin turns body ts) := by
  induction turns generalizing body ts with
  | zero => exact honest_done _
  | succ turns ih =>
      cases h : endsStatements body ts with
      | true =>
          rw [statementsWithin_ends h]
          exact honest_done _
      | false =>
          rw [statementsWithin_goesOn h]
          exact (honest_turn (ih false) ts).bind fun _ => (ih body _).bind fun _ => honest_done _

lemma honest_statements (body : Bool) (ts : List Token) : Honest (statements body ts) :=
  honest_statementsWithin _ _ _

end Imperativo.Grammar
