import Imperativo.Proofs.Grammar.Descent

/-!
# Parsing makes progress

A part of the grammar that is read from some place among the tokens leaves a place that is not
further to the front, whether it comes to a value or stops (`GrammarPart`).  Each pass of the loop
of statements even moves on, though a statement can stop in front of its first token and the search
for a place to go on can stay where it is: the first happens in front of tokens that start no
statement, the second only in front of a closing brace, and there the loop has ended before.  So
the loop comes to an end, and the number of turns that it is given never cuts it short.

A stop that is passed over is paid for by a token of its own (`Pays`): a statement pays for what is
passed over in its blocks and has its first token left for the stop in it.  A missing `terminar`
does not pay by itself; but then the closing brace behind it is read without a stop.

* **`pays_statements`**, **`pays_throughClose`** — no more stops are passed over than tokens are
  taken.
* **`parse_progress`** — parsing makes progress, and records at most one error more than there are
  tokens.
-/

namespace Imperativo

namespace Grammar

variable {α β : Type}

/-! ## Places that are reached -/

/-- The parts of the grammar that read or pass over tokens.  Of what follows a program the first
token is looked at and not read. -/
inductive GrammarPart
  | expect (kind : Kind) (e : Expectation)
  | operand
  | term
  | expression
  | value (missing : Expectation)
  | relation
  | comparison
  | conjunction
  | disjunction
  | condition
  | names
  | content
  | contents
  | declaration (type : Scalar) (t : Token)
  | assignment (t : Token)
  | print (t : Token)
  | read (t : Token)
  | guarded (owner : Word)
  | block (owner : Word)
  | loop (t : Token)
  | conditional (t : Token)
  | statement
  | recovered
  | statements (body : Bool)
  | resynchronize
  | heading
  | behindOpenBrace
  | behindCloseBrace (depth : Nat)
  | opening
  | terminateSemicolon
  | terminate
  | closing
  | program

/-- The tokens that a search leaves: those behind what it looks for, or those from its stop on. -/
def leftBehind : Except Stop (List Token) → List Token
  | .ok rest => rest
  | .error s => s.rest

/-- The tokens that a part of the grammar leaves of `ts`. -/
def GrammarPart.left (ts : List Token) : GrammarPart → List Token
  | .expect kind e => Grammar.left (Grammar.expect kind e ts)
  | .operand => Grammar.left (Grammar.operand.read ts)
  | .term => Grammar.left (Grammar.term.read ts)
  | .expression => Grammar.left (Grammar.expression.read ts)
  | .value missing => Grammar.left ((Grammar.value missing).read ts)
  | .relation => Grammar.left (relationRead ts)
  | .comparison => Grammar.left (Grammar.comparison.read ts)
  | .conjunction => Grammar.left (Grammar.conjunction.read ts)
  | .disjunction => Grammar.left (Grammar.disjunction.read ts)
  | .condition => Grammar.left (Grammar.condition.read ts)
  | .names => Grammar.left (moreLeaves nameLeaf? .nextName ts)
  | .content => Grammar.left (leafRead contentLeaf? .printArgument ts)
  | .contents => Grammar.left (moreLeaves contentLeaf? .printArgument ts)
  | .declaration type t => Grammar.left (Grammar.declaration type t ts)
  | .assignment t => Grammar.left (Grammar.assignment t ts)
  | .print t => Grammar.left (Grammar.print t ts)
  | .read t => Grammar.left (Grammar.read t ts)
  | .guarded owner => Grammar.left (Grammar.guarded owner ts)
  | .block owner => Grammar.left (Grammar.block (Grammar.statements false) owner ts).outcome
  | .loop t => Grammar.left (Grammar.loop (Grammar.statements false) t ts).outcome
  | .conditional t => Grammar.left (Grammar.conditional (Grammar.statements false) t ts).outcome
  | .statement => Grammar.left (Grammar.statement (Grammar.statements false) ts).outcome
  | .recovered =>
      Grammar.left (Grammar.recovered (Grammar.statement (Grammar.statements false) ts)).outcome
  | .statements body => Grammar.left (Grammar.statements body ts).outcome
  | .resynchronize => (Grammar.resynchronize ts).2
  | .heading => Grammar.left (Grammar.heading ts)
  | .behindOpenBrace => leftBehind (Grammar.behindOpenBrace ts)
  | .behindCloseBrace depth => leftBehind (Grammar.behindCloseBrace depth ts)
  | .opening => Grammar.left (Grammar.opening ts).outcome
  | .terminateSemicolon => leftBehind (Grammar.terminateSemicolon ts).outcome
  | .terminate => Grammar.left (Grammar.terminate ts).outcome
  | .closing => leftBehind (Grammar.closing ts).outcome
  | .program => Grammar.left (throughClose ts).outcome

section Parts

variable (ts : List Token)

lemma shrinks_loop (t : Token) : Shrinks (eventually (loop (statements false) t)) := by
  rw [loop_eq]
  exact (lawful_guarded _).shrinks.inOneGo.runThen fun _ =>
    (shrinks_block (shrinks_statements false) _).runThen fun _ => shrinks_done _

lemma shrinks_conditional (t : Token) :
    Shrinks (eventually (conditional (statements false) t)) := by
  rw [conditional_eq]
  exact (lawful_guarded _).shrinks.inOneGo.runThen fun test =>
    (shrinks_block (shrinks_statements false) _).runThen fun yes =>
      shrinks_otherwise (shrinks_statements false) t test yes

/-- A search that leaves an end of `ts`, or stops at the end of the input, leaves an end of `ts`. -/
lemma leftBehind_search {found : Except Stop (List Token)}
    (hok : ∀ {rest}, found = .ok rest → rest <:+ ts)
    (herror : ∀ {s}, found = .error s → s.rest = []) : leftBehind found <:+ ts := by
  cases found with
  | ok rest => exact hok rfl
  | error s =>
      change s.rest <:+ ts
      rw [herror rfl]
      exact List.nil_suffix

lemma leftBehind_terminateSemicolon : leftBehind (terminateSemicolon ts).outcome <:+ ts := by
  have hsuffix := (lawful_expect (.sign .semicolon) .terminateSemicolon).shrinks ts
  unfold terminateSemicolon
  split
  · rename_i h
    rw [h] at hsuffix
    exact hsuffix
  · rename_i s h
    rw [h] at hsuffix
    by_cases hs : s.rest = []
    · rw [passOver_fatal hs]
      exact hsuffix
    · rw [passOver_of_ne hs]
      exact (resynchronize_suffix _).trans hsuffix

lemma leftBehind_closing : leftBehind (closing ts).outcome <:+ ts := by
  have hleave : left (leave ts).outcome = leftBehind (closing ts).outcome := by
    change left (Run.andThen _ _).outcome = _
    rw [Run.andThen]
    cases (closing ts).outcome <;> rfl
  rw [← hleave]
  exact (descends_leave ts).suffix_rest

/-- **No part of the grammar gives tokens back.** -/
theorem GrammarPart.suffix (part : GrammarPart) : part.left ts <:+ ts := by
  cases part with
  | expect kind e => exact (lawful_expect kind e).shrinks ts
  | operand => exact lawful_operand.shrinks ts
  | term => exact (lawful_chain lawful_operand).shrinks ts
  | expression => exact lawful_expression.shrinks ts
  | value missing => exact (lawful_value missing).shrinks ts
  | relation => exact lawful_relationRead.shrinks ts
  | comparison => exact lawful_comparison.shrinks ts
  | conjunction => exact (lawful_chain lawful_comparison).shrinks ts
  | disjunction => exact (lawful_chain (lawful_chain lawful_comparison)).shrinks ts
  | condition => exact lawful_condition.shrinks ts
  | names => exact lawful_names.shrinks ts
  | content => exact (lawful_leafRead _ ⟨Kind.identifier.token, _, rfl⟩).shrinks ts
  | contents => exact lawful_contents.shrinks ts
  | declaration type t =>
      exact (lawful_declaration (t := { t with kind := .scalar type }) rfl).shrinks ts
  | assignment t => exact (lawful_assignment (t := { t with kind := .identifier }) rfl).shrinks ts
  | print t => exact (lawful_print (t := { t with kind := .word .imprimir }) rfl).shrinks ts
  | read t => exact (lawful_read (t := { t with kind := .word .leer }) rfl).shrinks ts
  | guarded owner => exact (lawful_guarded owner).shrinks ts
  | block owner => exact shrinks_block (shrinks_statements false) owner ts
  | loop t => exact shrinks_loop t ts
  | conditional t => exact shrinks_conditional t ts
  | statement =>
      exact (descends_statement (fun us => descends_statementsWithin us.length false us)
        ts).suffix_rest
  | recovered => exact shrinks_turn (shrinks_statements false) ts
  | statements body => exact shrinks_statements body ts
  | resynchronize => exact resynchronize_suffix ts
  | heading => exact lawful_heading.shrinks ts
  | behindOpenBrace => exact leftBehind_search ts behindOpenBrace_suffix behindOpenBrace_error
  | behindCloseBrace depth =>
      exact leftBehind_search ts behindCloseBrace_suffix fun h => by
        rw [behindCloseBrace_error h]
        rfl
  | opening => exact (descends_opening ts).suffix_rest
  | terminateSemicolon => exact leftBehind_terminateSemicolon ts
  | terminate => exact (descends_terminate ts).suffix_rest
  | closing => exact leftBehind_closing ts
  | program => exact (descends_throughClose ts).suffix_rest

end Parts

/-! ## Stops are paid for -/

/-- The stops that the run passes over and the tokens that it leaves are together at most `n`. -/
def Pays (n : Nat) (r : Run (α × List Token)) : Prop :=
  r.passed.length + (left r.outcome).length ≤ n

section Payments

variable {n : Nat} {ts : List Token}

lemma Pays.mono {m : Nat} {r : Run (α × List Token)} (h : Pays n r) (hn : n ≤ m) : Pays m r :=
  Nat.le_trans h hn

lemma pays_ok {passed : List Stop} {x : α} {rest : List Token} :
    Pays n ⟨passed, .ok (x, rest)⟩ ↔ passed.length + rest.length ≤ n := .rfl

lemma pays_error {passed : List Stop} {s : Stop} :
    Pays n (⟨passed, .error s⟩ : Run (α × List Token)) ↔ passed.length + s.rest.length ≤ n := .rfl

lemma Pays.ok {r : Run (α × List Token)} {x : α} {rest : List Token} (h : Pays n r)
    (hr : r.outcome = .ok (x, rest)) : r.passed.length + rest.length ≤ n := by
  rwa [Pays, hr] at h

lemma Pays.error {r : Run (α × List Token)} {s : Stop} (h : Pays n r)
    (hr : r.outcome = .error s) : r.passed.length + s.rest.length ≤ n := by
  rwa [Pays, hr] at h

lemma pays_done (x : α) (ts : List Token) : Pays ts.length (Run.done (x, ts)) :=
  (Nat.zero_add _).le

lemma pays_stopped {s : Stop} (h : s.rest.length ≤ n) :
    Pays n (Run.stopped s : Run (α × List Token)) :=
  (Nat.zero_add _).le.trans h

lemma Lawful.pays {f : List Token → Reading α} {R : List Token → α → Prop} (hf : Lawful f R)
    (ts : List Token) : Pays ts.length (inOneGo f ts) := by
  have hle := (hf.law ts).length_le
  rw [inOneGo]
  cases h : f ts with
  | ok p => rw [h] at hle; exact (pays_done p.1 p.2).mono hle
  | error s => rw [h] at hle; exact pays_stopped hle

/-- The second part of a sequence has to pay only with the tokens that the first one leaves. -/
lemma Pays.runThen {f : List Token → Run (α × List Token)}
    {g : α → List Token → Run (β × List Token)} (hf : Pays n (f ts))
    (hg : ∀ {x rest}, eventually f ts = .ok (x, rest) → Pays rest.length (g x rest)) :
    Pays n (runThen f g ts) := by
  cases h : eventually f ts with
  | error s =>
      rw [runThen_error h, pays_error]
      exact hf.error h
  | ok p =>
      obtain ⟨x, rest⟩ := p
      have hfirst := hf.ok h
      have hsecond := hg h
      rw [runThen_ok h]
      rw [Pays] at hsecond ⊢
      simp only [List.length_append]
      omega

end Payments

/-! ## Statements -/

section Blocks

variable {inside : BlockReader}

lemma pays_block (hin : ∀ ts, Pays ts.length (inside ts)) (owner : Word) (ts : List Token) :
    Pays ts.length (block inside owner ts) := by
  rw [block_eq]
  exact ((lawful_expect _ _).pays ts).runThen fun {_ start} _ => (hin start).runThen
    fun {_ rest} _ => ((lawful_expect _ _).pays rest).runThen fun _ => pays_done _ _

lemma pays_otherwise (hin : ∀ ts, Pays ts.length (inside ts)) (t : Token) (test yes : Tree)
    (ts : List Token) : Pays ts.length (otherwise inside t test yes ts) := by
  unfold otherwise
  split
  · exact ((pays_block hin _ _).runThen fun _ => pays_done _ _).mono
      (List.drop_suffix 1 ts).length_le
  · exact pays_done _ _

/-- A statement keeps its first token, unless it stops in front of it. -/
lemma pays_statement (hin : ∀ ts, Pays ts.length (inside ts)) (t : Token) (rest : List Token) :
    Pays rest.length (statement inside (t :: rest)) ∨
      ∃ e, statement inside (t :: rest) = Run.stopped (.before e (t :: rest)) := by
  cases starts t with
  | simple f hf h =>
      rw [h]
      exact .inl (hf.pays rest)
  | misplaced h => exact .inr ⟨_, h inside rest⟩
  | loop _ h =>
      rw [h, loop_eq]
      exact .inl (((lawful_guarded _).pays rest).runThen fun _ =>
        (pays_block hin _ _).runThen fun _ => pays_done _ _)
  | conditional _ h =>
      rw [h, conditional_eq]
      exact .inl (((lawful_guarded _).pays rest).runThen fun _ =>
        (pays_block hin _ _).runThen fun _ => pays_otherwise hin _ _ _ _)

/-- The token that a statement keeps pays for the stop in it.  If it stops in front of that token,
the token is passed over, as it is no closing brace. -/
lemma pays_turn (hin : ∀ ts, Pays ts.length (inside ts)) {t : Token}
    (ht : t.kind ≠ .sign .closeBrace) (rest : List Token) :
    Pays (t :: rest).length (turn inside (t :: rest)) := by
  rw [turn]
  rcases pays_statement hin t rest with hpays | ⟨e, h⟩
  · cases h : (statement inside (t :: rest)).outcome with
    | ok p =>
        rw [recovered_ok h, pays_ok]
        exact (hpays.ok h).trans (Nat.le_succ _)
    | error s =>
        have hpaid := hpays.error h
        by_cases hs : s.rest = []
        · rw [recovered_fatal h hs, pays_error]
          exact hpaid.trans (Nat.le_succ _)
        · have hle := (resynchronize_suffix s.rest).length_le
          rw [recovered_broken h hs, pays_ok, List.length_append, List.length_singleton,
            List.length_cons]
          omega
  · have hle := length_resynchronize_cons ht rest
    rw [h, recovered_broken rfl (List.cons_ne_nil t rest), pays_ok, Stop.rest_before,
      List.length_cons]
    change 0 + 1 + _ ≤ _
    omega

end Blocks

lemma pays_statementsWithin (turns : Nat) (body : Bool) (ts : List Token) :
    Pays ts.length (statementsWithin turns body ts) := by
  induction turns generalizing body ts with
  | zero => exact pays_done [] ts
  | succ turns ih =>
      cases h : endsStatements body ts with
      | true =>
          rw [statementsWithin_ends h]
          exact pays_done [] ts
      | false =>
          obtain ⟨t, rest, rfl, ht⟩ := cons_of_goesOn h
          rw [statementsWithin_goesOn h]
          exact (pays_turn (ih false) ht rest).runThen fun _ => (ih body _).runThen
            fun _ => pays_done _ _

/-- **Lists of statements** pay for what is passed over in them. -/
theorem pays_statements (body : Bool) (ts : List Token) : Pays ts.length (statements body ts) :=
  pays_statementsWithin ts.length body ts

/-! ## Programs -/

section Programs

variable {ts rest : List Token}

lemma length_behindOpenBrace (h : behindOpenBrace ts = .ok rest) : rest.length < ts.length := by
  fun_induction behindOpenBrace ts with
  | case1 => cases h
  | case2 => cases h; exact Nat.lt_succ_self _
  | case3 t us _ ih => exact (ih h).trans (Nat.lt_succ_self _)

lemma length_behindCloseBrace {depth : Nat} (h : behindCloseBrace depth ts = .ok rest) :
    rest.length < ts.length := by
  fun_induction behindCloseBrace depth ts with
  | case1 => cases h
  | case3 => cases h; exact Nat.lt_succ_self _
  | _ => rename_i ih; exact (ih h).trans (Nat.lt_succ_self _)

/-- A stop that is passed over is paid for by what is searched through behind it. -/
lemma pays_search {s : Stop} {found : Except Stop (List Token)} (x : α)
    (hs : s.rest.length ≤ n) (hok : ∀ {rest}, found = .ok rest → rest.length < s.rest.length)
    (herror : ∀ {s'}, found = .error s' → s'.rest = []) :
    Pays n (Run.passOver s >>= fun _ =>
      Run.ofReading found >>= fun rest => Run.done (x, rest)) := by
  by_cases hrest : s.rest = []
  · rw [passOver_fatal hrest]
    exact pays_stopped hs
  · have hpos := List.length_pos_of_ne_nil hrest
    rw [passOver_of_ne hrest]
    cases found with
    | ok rest =>
        have hlt := hok rfl
        change 1 + rest.length ≤ n
        omega
    | error s' =>
        change 1 + s'.rest.length ≤ n
        rw [herror rfl, List.length_nil]
        omega

lemma pays_opening (ts : List Token) : Pays ts.length (opening ts) := by
  have hle := (lawful_heading.law ts).length_le
  unfold opening
  split
  · rename_i h
    rw [h] at hle
    exact (pays_done _ _).mono hle
  · rename_i s h
    rw [h] at hle
    exact pays_search _ hle length_behindOpenBrace behindOpenBrace_error

lemma pays_leave (ts : List Token) : Pays ts.length (leave ts) := by
  have hle := ((lawful_expect (.sign .closeBrace) .closeAfterTerminate).law ts).length_le
  unfold leave closing
  split
  · rename_i h
    rw [h] at hle
    exact (pays_done _ _).mono hle
  · rename_i s h
    rw [h] at hle
    rw [Run.bind_assoc]
    exact pays_search _ hle length_behindCloseBrace fun h => by rw [behindCloseBrace_error h]; rfl

/-- A semicolon that is missing behind `terminar` is paid for by `terminar`. -/
lemma pays_terminate {t : Token} (ht : t.kind = .word .terminar) (us : List Token) :
    Pays (t :: us).length (terminate (t :: us)) := by
  cases us with
  | nil =>
      rw [terminate_fatal ht]
      exact pays_stopped (Nat.zero_le _)
  | cons v vs =>
      by_cases hv : v.kind = .sign .semicolon
      · rw [terminate_ok ht hv]
        exact (pays_done _ vs).mono ((Nat.le_succ _).trans (Nat.le_succ _))
      · have hle := (resynchronize_suffix (v :: vs)).length_le
        rw [terminate_broken ht hv, Pays, left_ok, List.length_cons (a := t), List.length_singleton]
        omega

/-- A `terminar` that is missing in front of the closing brace is paid for by that brace. -/
lemma pays_ending (make : List Tree → Tree) (h : endsStatements true ts = true) :
    Pays ts.length (runThen terminate (fun terminator =>
      runThen leave fun _ rest => Run.done (make terminator, rest)) ts) := by
  have hleave : ∀ terminator us, Pays us.length
      (runThen leave (fun _ rest => Run.done (make terminator, rest)) us) :=
    fun _ us => (pays_leave us).runThen fun _ => pays_done _ _
  cases ts with
  | nil => exact pays_stopped (Nat.zero_le _)
  | cons t us =>
      by_cases ht : t.kind = .word .terminar
      · exact (pays_terminate ht us).runThen fun _ => hleave _ _
      · have hclose : t.kind = .sign .closeBrace := by simpa [endsStatements, ht] using h
        have hterminate := terminate_missing ht us
        rw [runThen_ok (by rw [eventually, hterminate]), hterminate,
          runThen_ok (by rw [eventually, leave_close hclose]; rfl), leave_close hclose]
        exact (Nat.add_comm 1 us.length).le

/-- **Programs** pay for what is passed over up to the brace that closes them. -/
theorem pays_throughClose (ts : List Token) : Pays ts.length (throughClose ts) := by
  unfold throughClose bodyThroughClose
  exact (pays_opening ts).runThen fun _ => (pays_statements true _).runThen
    fun h => pays_ending _ ((tidy true _).ends h)

/-- A program has at most one stop more than it has tokens. -/
lemma length_stops_program (ts : List Token) : (program ts).stops.length ≤ ts.length + 1 := by
  have hpays := pays_throughClose ts
  cases h : (throughClose ts).outcome with
  | error s =>
      have hpaid := hpays.error h
      rw [program_of_error h]
      simp only [Run.stops, List.length_append, List.length_singleton]
      omega
  | ok p =>
      obtain ⟨tree, rest⟩ := p
      have hpaid := hpays.ok h
      have htrailing : (trailing rest).passed.length ≤ rest.length := by
        cases rest with
        | nil => exact Nat.le_refl _
        | cons t rest => exact Nat.le_add_left _ _
      rw [program_of_ok h]
      simp only [Run.stops, List.length_append]
      omega

end Programs

lemma length_stops_readAll (p : Production) (ts : List Token) :
    (readAll p ts).stops.length ≤ 1 := by
  unfold readAll
  split
  · exact Nat.le_refl _
  · exact Nat.zero_le _
  · exact Nat.le_refl _

lemma length_stops_run (entry : Entry) (ts : List Token) :
    (entry.run ts).stops.length ≤ ts.length + 1 := by
  cases entry with
  | program => exact length_stops_program ts
  | expression => exact (length_stops_readAll _ ts).trans (Nat.le_add_left _ _)
  | condition => exact (length_stops_readAll _ ts).trans (Nat.le_add_left _ _)

/-! ## Progress -/

/-- Reading the tokens makes progress; places are numbers of tokens in front of them. -/
structure Advances (ts : List Token) : Prop where
  /-- No part of the grammar goes back, or beyond the last token. -/
  forward : ∀ (part : GrammarPart) (p : Nat), p ≤ ts.length →
    ∃ q, p ≤ q ∧ q ≤ ts.length ∧ part.left (ts.drop p) = ts.drop q
  /-- Each pass of the loop of statements leaves it, stops for good or moves on, be it behind a
  statement or behind what is passed over of one. -/
  pass : ∀ (body : Bool) (p : Nat), endsStatements body (ts.drop p) = true ∨
    (∃ s, (recovered (statement (statements false) (ts.drop p))).outcome = .error s ∧
      s.isFatal = true) ∨
    ∃ trees q, p < q ∧ q ≤ ts.length ∧
      (recovered (statement (statements false) (ts.drop p))).outcome = .ok (trees, ts.drop q)
  /-- The loop makes one pass after another. -/
  loop : ∀ (body : Bool) (us : List Token), statements body us =
    if endsStatements body us then Run.done ([], us)
    else recovered (statement (statements false) us) >>= fun first =>
      statements body first.2 >>= fun others => Run.done (first.1 ++ others.1, others.2)
  /-- It is not cut short by the number of its turns. -/
  turns : ∀ (body : Bool) (p turns : Nat), ts.length ≤ p + turns →
    statementsWithin turns body (ts.drop p) = statements body (ts.drop p) ∧
    ∀ trees us, (statementsWithin turns body (ts.drop p)).outcome = .ok (trees, us) →
      endsStatements body us = true

section Places

variable {ts us : List Token} {p : Nat}

lemma exists_drop_of_suffix (hp : p ≤ ts.length) (h : us <:+ ts.drop p) :
    ∃ q, p ≤ q ∧ q ≤ ts.length ∧ us = ts.drop q := by
  have hle := h.length_le
  have hus := List.suffix_iff_eq_drop.mp h
  rw [List.drop_drop] at hus
  rw [List.length_drop] at hle hus
  exact ⟨_, by omega, by omega, hus⟩

/-- A pass in front of a token that does not end the list comes behind that token. -/
lemma turn_goesOn {body : Bool} (h : endsStatements body ts = false) :
    (∃ s, (turn (statements false) ts).outcome = .error s ∧ s.isFatal = true) ∨
      ∃ trees rest, (turn (statements false) ts).outcome = .ok (trees, rest) ∧
        rest <:+ ts ∧ rest.length < ts.length := by
  obtain ⟨t, us, rfl, ht⟩ := cons_of_goesOn h
  have hsuffix := shrinks_turn (shrinks_statements false) (t :: us)
  have hlength := length_turn_cons (shrinks_statements false) ht us
  rw [eventually] at hsuffix hlength
  cases hturn : (turn (statements false) (t :: us)).outcome with
  | error s => exact .inl ⟨s, rfl, by rw [Stop.isFatal, turn_stop hturn]; rfl⟩
  | ok p =>
      rw [hturn] at hsuffix hlength
      exact .inr ⟨p.1, p.2, rfl, hsuffix, Nat.lt_succ_of_le hlength⟩

end Places

/-- **The tokens of every program are read with progress.** -/
theorem advances (ts : List Token) : Advances ts where
  forward part p hp := exists_drop_of_suffix hp (part.suffix (ts.drop p))
  pass body p := by
    cases h : endsStatements body (ts.drop p) with
    | true => exact .inl rfl
    | false =>
        have hp : p ≤ ts.length := by
          by_contra hgt
          rw [List.drop_of_length_le (by omega)] at h
          cases h
        rcases turn_goesOn h with hfatal | ⟨trees, rest, hturn, hsuffix, hlt⟩
        · exact .inr (.inl hfatal)
        · obtain ⟨q, hpq, hq, rfl⟩ := exists_drop_of_suffix hp hsuffix
          rw [List.length_drop, List.length_drop] at hlt
          exact .inr (.inr ⟨trees, q, by omega, hq, hturn⟩)
  loop body us := by
    cases h : endsStatements body us with
    | true => rw [if_pos rfl, statements_ends h]
    | false =>
        rw [if_neg Bool.false_ne_true, statements_goesOn h]
        rfl
  turns body p turns hturns := by
    have heq : statementsWithin turns body (ts.drop p) = statements body (ts.drop p) :=
      statementsWithin_eq (by rw [List.length_drop]; omega)
    refine ⟨heq, fun trees us h => ?_⟩
    rw [heq] at h
    exact (tidy body (ts.drop p)).ends h

end Grammar

open Grammar

/-- **Parsing makes progress.**  Whatever the tokens of a parser are, they are read forwards, every
pass of a loop of statements moves on unless it is the last one, and parsing records at most one
error more than there are tokens. -/
theorem parse_progress (parser : Parser) (entry : Entry) : Advances parser.tokens ∧
    ∃ errors, (parser.parse entry).log.entries = parser.log.entries ++ errors ∧
      errors.length ≤ parser.tokens.length + 1 := by
  refine ⟨advances parser.tokens, _, parser.entries_parse entry, ?_⟩
  rw [List.length_map]
  exact length_stops_run entry parser.tokens

/-- Without tokens there is an error. -/
example : ((Parser.ofTokens []).parse .program).log.size = 1 := by decide

end Imperativo
