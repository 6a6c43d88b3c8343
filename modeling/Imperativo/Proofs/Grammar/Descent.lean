import Imperativo.Proofs.Diagnostic.Merge
import Imperativo.Proofs.Grammar.Braces

/-!
# Errors are found from front to back

Recovery only ever passes over tokens, so each stop of a run has tokens behind it that stand at the
end of those behind the last stop (`Descent`).  That goes through every part of the grammar: a
broken statement is passed over from its stop on, a missing `terminar` is reported where the reading
goes on, and the end of the input leaves nothing to read.

* **`descent_program`** — the stops of a program follow one another through its tokens.
* **`entries_ascend`** — where the places of the tokens go up, so do those of the errors.
-/

namespace Imperativo.Grammar

open Run

variable {α β : Type}

/-! ## Stops that follow one another -/

/-- Stops that follow one another through `ts`, and from the last one on through to `rest`. -/
inductive Descent : List Token → List Stop → List Token → Prop
  | stay {ts rest : List Token} (h : rest <:+ ts) : Descent ts [] rest
  | pass {ts rest : List Token} {s : Stop} {stops : List Stop} (h : s.rest <:+ ts)
      (hrest : Descent s.rest stops rest) : Descent ts (s :: stops) rest

namespace Descent

variable {ts us rest : List Token} {stops stops' : List Stop}

lemma mono (h : Descent us stops rest) (hus : us <:+ ts) : Descent ts stops rest := by
  cases h with
  | stay h => exact .stay (h.trans hus)
  | pass h hrest => exact .pass (h.trans hus) hrest

lemma append (h : Descent ts stops us) (h' : Descent us stops' rest) :
    Descent ts (stops ++ stops') rest := by
  induction h with
  | stay h => exact h'.mono h
  | pass h _ ih => exact .pass h (ih h')

lemma concat {s : Stop} (h : Descent ts stops s.rest) : Descent ts (stops ++ [s]) s.rest :=
  h.append (.pass (List.suffix_refl _) (.stay (List.suffix_refl _)))

lemma suffix (h : Descent ts stops rest) : ∀ s ∈ stops, s.rest <:+ ts := by
  induction h with
  | stay => exact nofun
  | pass h _ ih => exact List.forall_mem_cons.mpr ⟨h, fun s hs => (ih s hs).trans h⟩

lemma suffix_rest (h : Descent ts stops rest) : rest <:+ ts := by
  induction h with
  | stay h => exact h
  | pass h _ ih => exact ih.trans h

lemma pairwise (h : Descent ts stops rest) : stops.Pairwise fun s s' => s'.rest <:+ s.rest := by
  induction h with
  | stay => exact .nil
  | pass _ hrest ih => exact List.pairwise_cons.mpr ⟨hrest.suffix, ih⟩

end Descent

/-! ## Runs -/

/-- The stops that a run from `ts` passes over follow one another through to what it leaves. -/
def Descends (ts : List Token) (r : Run (α × List Token)) : Prop :=
  Descent ts r.passed (left r.outcome)

section Runs

variable {ts : List Token} {r : Run (α × List Token)}

lemma Descends.ok {x : α} {rest : List Token} (h : Descends ts r)
    (hr : r.outcome = .ok (x, rest)) : Descent ts r.passed rest := by
  rw [Descends, hr] at h
  exact h

lemma Descends.error {s : Stop} (h : Descends ts r) (hr : r.outcome = .error s) :
    Descent ts r.passed s.rest := by
  rw [Descends, hr] at h
  exact h

lemma descends_done (x : α) {rest : List Token} (h : rest <:+ ts) :
    Descends ts (Run.done (x, rest)) := .stay h

lemma descends_stopped {s : Stop} (h : s.rest <:+ ts) :
    Descends ts (Run.stopped s : Run (α × List Token)) := .stay h

lemma descends_inOneGo {f : List Token → Reading α} {R : List Token → α → Prop} (hf : Lawful f R)
    (ts : List Token) : Descends ts (inOneGo f ts) := by
  have hsuffix := hf.shrinks ts
  rw [inOneGo]
  cases h : f ts with
  | ok p => rw [h] at hsuffix; exact descends_done _ hsuffix
  | error s => rw [h] at hsuffix; exact descends_stopped hsuffix

lemma Descends.bind {g : α × List Token → Run (β × List Token)} (hr : Descends ts r)
    (hg : ∀ x rest, Descends rest (g (x, rest))) : Descends ts (r >>= g) := by
  change Descends ts (Run.andThen r g)
  cases h : r.outcome with
  | error s =>
      simp only [Run.andThen, h]
      exact hr.error h
  | ok p =>
      simp only [Run.andThen, h]
      exact (hr.ok h).append (hg p.1 p.2)

/-- A stop can be passed over where it was found. -/
lemma descends_passOver {s : Stop} {next : Unit → Run (α × List Token)} (hs : s.rest <:+ ts)
    (hnext : Descends s.rest (next ())) : Descends ts (Run.passOver s >>= next) := by
  by_cases hrest : s.rest = []
  · rw [passOver_fatal hrest]
    exact descends_stopped hs
  · rw [passOver_of_ne hrest]
    exact .pass hs hnext

/-- A search that leaves an end of `ts`, or stops in front of one, passes over nothing. -/
lemma descends_search {found : Except Stop (List Token)} (x : α)
    (hok : ∀ {rest}, found = .ok rest → rest <:+ ts)
    (herror : ∀ {s}, found = .error s → s.rest = []) :
    Descends ts (Run.ofReading found >>= fun rest => Run.done (x, rest)) := by
  cases found with
  | ok rest => exact descends_done x (hok rfl)
  | error s => exact descends_stopped (by rw [herror rfl]; exact List.nil_suffix)

end Runs

/-! ## Statements -/

section Blocks

variable {inside : BlockReader}

lemma descends_block (hin : ∀ ts, Descends ts (inside ts)) (owner : Word) (ts : List Token) :
    Descends ts (block inside owner ts) := by
  rw [block_eq]
  exact (descends_inOneGo (lawful_expect _ _) ts).bind fun _ start => (hin start).bind
    fun _ rest => (descends_inOneGo (lawful_expect _ _) rest).bind
    fun _ _ => descends_done _ (List.suffix_refl _)

lemma descends_otherwise (hin : ∀ ts, Descends ts (inside ts)) (t : Token) (test yes : Tree)
    (ts : List Token) : Descends ts (otherwise inside t test yes ts) := by
  unfold otherwise
  split
  · exact Descent.mono ((descends_block hin _ _).bind fun _ _ =>
      descends_done _ (List.suffix_refl _)) (List.drop_suffix 1 ts)
  · exact descends_done _ (List.suffix_refl _)

lemma descends_statement (hin : ∀ ts, Descends ts (inside ts)) (ts : List Token) :
    Descends ts (statement inside ts) := by
  cases ts with
  | nil => exact descends_stopped (List.suffix_refl _)
  | cons t rest =>
      have hrest : rest <:+ t :: rest := List.suffix_cons t rest
      cases starts t with
      | simple f hf h =>
          rw [h]
          exact Descent.mono (descends_inOneGo hf rest) hrest
      | misplaced h =>
          rw [h]
          exact descends_stopped (List.suffix_refl _)
      | loop _ h =>
          rw [h, loop_eq]
          exact Descent.mono ((descends_inOneGo (lawful_guarded _) rest).bind fun _ us =>
            (descends_block hin _ us).bind fun _ _ => descends_done _ (List.suffix_refl _)) hrest
      | conditional _ h =>
          rw [h, conditional_eq]
          exact Descent.mono ((descends_inOneGo (lawful_guarded _) rest).bind fun _ us =>
            (descends_block hin _ us).bind fun _ vs => descends_otherwise hin _ _ _ vs) hrest

/-- A broken statement is passed over from its stop on. -/
lemma descends_turn (hin : ∀ ts, Descends ts (inside ts)) (ts : List Token) :
    Descends ts (turn inside ts) := by
  have hstatement := descends_statement hin ts
  rw [turn]
  cases h : (statement inside ts).outcome with
  | ok p =>
      rw [recovered_ok h]
      exact hstatement.ok h
  | error s =>
      by_cases hs : s.rest = []
      · rw [recovered_fatal h hs]
        exact hstatement.error h
      · rw [recovered_broken h hs]
        exact (hstatement.error h).append
          (.pass (List.suffix_refl _) (.stay (resynchronize_suffix _)))

end Blocks

lemma descends_statementsWithin (turns : Nat) (body : Bool) (ts : List Token) :
    Descends ts (statementsWithin turns body ts) := by
  induction turns generalizing body ts with
  | zero => exact descends_done _ (List.suffix_refl _)
  | succ turns ih =>
      cases h : endsStatements body ts with
      | true =>
          rw [statementsWithin_ends h]
          exact descends_done _ (List.suffix_refl _)
      | false =>
          rw [statementsWithin_goesOn h]
          exact (descends_turn (ih false) ts).bind fun _ us => (ih body us).bind
            fun _ _ => descends_done _ (List.suffix_refl _)

/-! ## Programs -/

lemma behindOpenBrace_suffix {ts rest : List Token} (h : behindOpenBrace ts = .ok rest) :
    rest <:+ ts := by
  fun_induction behindOpenBrace ts with
  | case1 => cases h
  | case2 => cases h; exact List.suffix_cons _ _
  | case3 t us _ ih => exact (ih h).trans (List.suffix_cons t us)

lemma behindCloseBrace_suffix {depth : Nat} {ts rest : List Token}
    (h : behindCloseBrace depth ts = .ok rest) : rest <:+ ts := by
  fun_induction behindCloseBrace depth ts with
  | case1 => cases h
  | case3 => cases h; exact List.suffix_cons _ _
  | _ => rename_i ih; exact (ih h).trans (List.suffix_cons _ _)

lemma descends_opening (ts : List Token) : Descends ts (opening ts) := by
  have hsuffix := lawful_heading.shrinks ts
  unfold opening
  split
  · rename_i h
    rw [h] at hsuffix
    exact descends_done _ hsuffix
  · rename_i s h
    rw [h] at hsuffix
    exact descends_passOver hsuffix (descends_search _ behindOpenBrace_suffix behindOpenBrace_error)

lemma descends_terminate (ts : List Token) : Descends ts (terminate ts) := by
  have hsuffix := (lawful_expect (.word .terminar) .terminate).shrinks ts
  unfold terminate
  split
  · rename_i t rest h
    rw [h] at hsuffix
    refine Descent.mono ?_ hsuffix
    have hrest := (lawful_expect (.sign .semicolon) .terminateSemicolon).shrinks rest
    unfold terminateSemicolon
    split
    · rename_i h'
      rw [h'] at hrest
      exact descends_done _ hrest
    · rename_i s h'
      rw [h'] at hrest
      rw [Run.bind_assoc]
      exact descends_passOver hrest (descends_done _ (resynchronize_suffix _))
  · rename_i s h
    clear hsuffix
    obtain rfl : s.rest = ts := by
      cases ts with
      | nil => cases h; rfl
      | cons t ts =>
          rw [expect] at h
          split at h
          · cases h
          · cases h; rfl
    exact descends_passOver (List.suffix_refl _) (descends_done _ (List.suffix_refl _))

lemma descends_leave (ts : List Token) : Descends ts (leave ts) := by
  have hsuffix := (lawful_expect (.sign .closeBrace) .closeAfterTerminate).shrinks ts
  unfold leave closing
  split
  · rename_i h
    rw [h] at hsuffix
    exact descends_done _ hsuffix
  · rename_i s h
    rw [h] at hsuffix
    rw [Run.bind_assoc]
    refine descends_passOver hsuffix (descends_search _ behindCloseBrace_suffix fun h => ?_)
    rw [behindCloseBrace_error h]
    rfl

lemma descends_throughClose (ts : List Token) : Descends ts (throughClose ts) := by
  unfold throughClose bodyThroughClose
  exact (descends_opening ts).bind fun _ start =>
    (descends_statementsWithin start.length true start).bind fun _ us =>
    (descends_terminate us).bind fun _ vs => (descends_leave vs).bind
    fun _ _ => descends_done _ (List.suffix_refl _)

lemma program_of_error {ts : List Token} {s : Stop} (h : (throughClose ts).outcome = .error s) :
    program ts = ⟨(throughClose ts).passed, .error s⟩ := by
  rw [program_eq]
  change Run.andThen _ _ = _
  rw [Run.andThen, h]

lemma program_of_ok {ts rest : List Token} {tree : Tree}
    (h : (throughClose ts).outcome = .ok (tree, rest)) :
    program ts = ⟨(throughClose ts).passed ++ (trailing rest).passed, .ok tree⟩ := by
  rw [program_eq]
  change Run.andThen _ _ = _
  rw [Run.andThen, h]
  cases rest <;> rfl

/-- **The stops of a program follow one another through its tokens.** -/
theorem descent_program (ts : List Token) : ∃ rest, Descent ts (program ts).stops rest := by
  have hclose := descends_throughClose ts
  cases h : (throughClose ts).outcome with
  | error s =>
      rw [program_of_error h]
      exact ⟨_, (hclose.error h).concat⟩
  | ok p =>
      obtain ⟨tree, rest⟩ := p
      rw [program_of_ok h]
      cases rest with
      | nil => exact ⟨_, (hclose.ok h).append (.stay (List.suffix_refl _))⟩
      | cons t rest =>
          exact ⟨t :: rest, (hclose.ok h).append
            (.pass (s := .before .endOfProgram (t :: rest)) (List.suffix_refl _)
              (.stay (List.suffix_refl _)))⟩

/-! ## Places of errors -/

lemma Stop.key_diagnostic_cons {s : Stop} {t : Token} {more : List Token} (h : s.rest = t :: more)
    (last : Position) : (s.diagnostic last).key = t.position.key := by
  rw [diagnostic, error, h]
  rfl

lemma Stop.key_diagnostic_nil {s : Stop} (h : s.rest = []) (last : Position) :
    (s.diagnostic last).key = last.key := by
  rw [diagnostic, error, h]
  rfl

/-- A stop behind another one is reported there or behind it, at the end of the input too, which is
reported at the last token. -/
lemma key_diagnostic_le {ts : List Token}
    (hup : ts.Pairwise fun t u => t.position.key ≤ u.position.key) {s s' : Stop}
    (hs : s.rest <:+ ts) (hs' : s'.rest <:+ s.rest) :
    (s.diagnostic (lastPosition ts)).key ≤ (s'.diagnostic (lastPosition ts)).key := by
  cases h : s.rest with
  | nil =>
      rw [h] at hs'
      rw [s.key_diagnostic_nil h, s'.key_diagnostic_nil (List.suffix_nil.mp hs')]
  | cons t more =>
      rw [h] at hs hs'
      have hle : ∀ u ∈ t :: more, t.position.key ≤ u.position.key :=
        List.forall_mem_cons.mpr ⟨le_refl _, (List.pairwise_cons.mp (hup.sublist hs.sublist)).1⟩
      rw [s.key_diagnostic_cons h]
      cases h' : s'.rest with
      | nil =>
          have hlast : ts.getLast? = (t :: more).getLast? := by
            obtain ⟨us, rfl⟩ := hs
            exact List.getLast?_append_of_ne_nil us (List.cons_ne_nil t more)
          rw [s'.key_diagnostic_nil h', lastPosition, hlast,
            List.getLast?_eq_some_getLast (List.cons_ne_nil t more)]
          exact hle _ (List.getLast_mem _)
      | cons u others =>
          rw [h'] at hs'
          rw [s'.key_diagnostic_cons h']
          exact hle u (hs'.subset List.mem_cons_self)

/-- **Where the places of the tokens go up, so do those of the errors.** -/
theorem entries_ascend {ts : List Token}
    (h : ts.Pairwise fun t u => t.position.key ≤ u.position.key) :
    ((Parser.ofTokens ts).parse .program).log.entries.Pairwise fun d e => d.key ≤ e.key := by
  obtain ⟨rest, hdescent⟩ := descent_program ts
  rw [Parser.parse_entries]
  exact List.pairwise_map.mpr (hdescent.pairwise.imp_of_mem fun hs _ hs' =>
    key_diagnostic_le h (hdescent.suffix _ hs) hs')

/-- The errors of a parse are those of the grammar. -/
lemma entries_stage (ts : List Token) (entry : Entry) :
    ∀ d ∈ ((Parser.ofTokens ts).parse entry).log.entries, d.stage = .grammar := by
  rw [Parser.parse_entries]
  intro d hd
  obtain ⟨s, _, rfl⟩ := List.mem_map.mp hd
  rfl

end Imperativo.Grammar
