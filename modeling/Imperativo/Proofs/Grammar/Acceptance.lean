import Imperativo.Proofs.Grammar.Parsing
import Imperativo.Proofs.Grammar.Rules

/-!
# The parser accepts the grammar and finds the first error

A list of tokens is grammatical when `program` derives its kinds, and viable when it can be
continued to a grammatical one.

* **`parse_decides`** — the log is empty exactly for grammatical lists; the first entry stands at
  the first token at which the list stops being viable; a viable list that is not grammatical has
  one entry, for the end of the input, and no tree.

The first stop of a run leaves a viable list in front of it (`LawfulAt.begins`).  Were the list
still viable with the next token, then by the law of readings the program that continues it would
stop there as well, and by completeness it does not (`Lawful.not_begins`).
-/

namespace Imperativo.Grammar

open Phrase

variable {ts us : List Token}

/-! ## Grammatical and viable lists -/

/-- The list is a program of the grammar. -/
def Grammatical (ts : List Token) : Prop := Derives (.symbol .program) (ts.map Token.kind)

/-- The list is the beginning of a program of the grammar. -/
def Viable (ts : List Token) : Prop := ∃ more, Grammatical (ts ++ more)

lemma grammatical_iff : Grammatical ts ↔ ∃ tree, Program ts tree := derives_program ts

lemma Viable.of_prefix (h : Viable ts) (hus : us <+: ts) : Viable us :=
  Beginning.of_prefix h hus

/-! ## The first stop of a program -/

/-- A run without stops comes to a value. -/
lemma Run.eq_done_of_stops {α : Type} {r : Run α} (h : r.stops = []) : ∃ x, r = done x := by
  obtain ⟨passed, outcome⟩ := r
  cases outcome with
  | error s => exact absurd h (by simp [stops])
  | ok x => rw [show passed = [] from h]; exact ⟨x, rfl⟩

/-- The first stop is the first of all stops. -/
lemma Run.head_stops {α : Type} {r : Run α} {s : Stop} (h : r.first = .error s) :
    r.stops.head? = some s := by
  obtain ⟨passed, outcome⟩ := r
  unfold first at h
  cases passed with
  | nil => rw [show outcome = .error s from h]; rfl
  | cons s' passed =>
      cases h
      cases outcome <;> rfl

/-- A first stop at the end of the input is the only one. -/
lemma Honest.eq_stopped {α : Type} {r : Run α} (hr : Honest r) {s : Stop} (h : r.first = .error s)
    (hs : s.rest = []) : r = Run.stopped s := by
  obtain ⟨passed, outcome⟩ := r
  unfold Run.first at h
  cases passed with
  | nil => rw [show outcome = .error s from h]; rfl
  | cons s' passed =>
      cases h
      exact absurd hs (hr.passed _ List.mem_cons_self).1

lemma programRead_error {s : Stop} (h : (program ts).first = .error s) :
    programRead ts = .error s := by
  rw [programRead_eq, h]
  rfl

/-- A grammatical list is read to its end. -/
lemma Grammatical.read (h : Grammatical ts) : ∃ tree, program ts = Run.done tree :=
  (grammatical_iff.mp h).imp fun _ => program_complete

lemma program_of_first {tree : Tree} (h : (program ts).first = .ok tree) : Program ts tree := by
  have hread : programRead ts = .ok (tree, []) := by
    rw [programRead_eq, h]
    rfl
  obtain ⟨us, rfl, hus⟩ := (lawful_program.law ts).sound hread
  rwa [List.append_nil]

lemma grammatical_of_first {tree : Tree} (h : (program ts).first = .ok tree) : Grammatical ts :=
  grammatical_iff.mpr ⟨tree, program_of_first h⟩

/-- A run without stops has read a program, and its value is the tree of that program. -/
lemma program_of_stops (h : (program ts).stops = []) :
    ∃ tree, program ts = Run.done tree ∧ Program ts tree := by
  obtain ⟨tree, htree⟩ := Run.eq_done_of_stops h
  exact ⟨tree, htree, program_of_first (by rw [htree]; rfl)⟩

lemma viable_iff : Viable ts ↔ Beginning (Phrases Program) ts :=
  exists_congr fun _ => grammatical_iff

/-- In front of the first stop the list is viable. -/
lemma viable_before {s : Stop} (h : (program ts).first = .error s) :
    ∃ us, ts = us ++ s.rest ∧ Viable us := by
  obtain ⟨us, hus, hbegins⟩ := (lawful_program.law ts).begins
  rw [programRead_error h] at hus
  exact ⟨us, hus, viable_iff.mpr hbegins⟩

/-- A list is not viable beyond its first stop. -/
lemma not_viable_behind {s : Stop} (h : (program ts).first = .error s) {t : Token}
    {more : List Token} (hus : ts = us ++ s.rest) (hs : s.rest = t :: more) :
    ¬ Viable (us ++ [t]) := by
  have hread : ∀ {us tree}, Program us tree → left (programRead us) = [] := by
    intro us tree hprogram
    rw [programRead_eq, program_complete hprogram]
    rfl
  have hleft : left (programRead (us ++ t :: more)) = t :: more := by
    rw [← hs, ← hus, programRead_error h]
    rfl
  rw [viable_iff]
  exact lawful_program.not_begins hread hleft

/-- A viable list stops at its end or not at all. -/
lemma Viable.rest_first {s : Stop} (hviable : Viable ts) (h : (program ts).first = .error s) :
    s.rest = [] := by
  obtain ⟨us, hus, _⟩ := viable_before h
  cases hs : s.rest with
  | nil => rfl
  | cons t more =>
      refine absurd (hviable.of_prefix ⟨more, ?_⟩) (not_viable_behind h hus hs)
      rw [hus, hs, List.append_assoc]
      rfl

/-- A list that cannot be continued to a program has a first stop, at the token with which it stops
being viable. -/
lemma first_not_viable (h : ¬ Viable ts) :
    ∃ us t more s, ts = us ++ t :: more ∧ Viable us ∧ ¬ Viable (us ++ [t]) ∧
    (program ts).stops.head? = some s ∧ s.rest = t :: more ∧ s.fault ≠ .unexpectedEnd := by
  cases hfirst : (program ts).first with
  | ok tree => exact absurd ⟨[], by rw [List.append_nil]; exact grammatical_of_first hfirst⟩ h
  | error s =>
      obtain ⟨us, hus, hviable⟩ := viable_before hfirst
      cases hs : s.rest with
      | nil => rw [hs, List.append_nil] at hus; exact absurd (hus ▸ hviable) h
      | cons t more =>
          exact ⟨us, t, more, s, by rw [hus, hs], hviable, not_viable_behind hfirst hus hs,
            Run.head_stops hfirst, hs,
            (lawful_program.law ts).classed (programRead_error hfirst)⟩

/-- The beginning of a program that is not one itself has one stop, at its end. -/
lemma Viable.stopped (hviable : Viable ts) (h : ¬ Grammatical ts) :
    ∃ s, program ts = Run.stopped s ∧ s.rest = [] := by
  cases hfirst : (program ts).first with
  | ok tree => exact absurd (grammatical_of_first hfirst) h
  | error s =>
      have hs := hviable.rest_first hfirst
      exact ⟨s, (honest_program ts).eq_stopped hfirst hs, hs⟩

/-! ## The parser -/

/-- **The parser decides the grammar** and reports the first error at the earliest token.  The log
is empty exactly for grammatical lists.  If some beginning of the list is not viable, the first
entry stands at the token with which the list stops being so, and is not about the end of the input.
If the list is the beginning of a program without being one, there is no tree, and the only entry
says that the input has ended, at its last token. -/
theorem parse_decides (ts : List Token) :
    (((Parser.ofTokens ts).parse .program).log.entries = [] ↔ Grammatical ts) ∧
    ((∃ us, us <+: ts ∧ ¬ Viable us) → ∃ k t d, ts[k]? = some t ∧ ¬ Viable (ts.take (k + 1)) ∧
      (∀ j < k, Viable (ts.take (j + 1))) ∧
      ((Parser.ofTokens ts).parse .program).log.entries.head? = some d ∧
        d.At t.position ∧ ∃ fault, d.cause = .grammar fault ∧ fault ≠ .unexpectedEnd) ∧
    (Viable ts → ¬ Grammatical ts → ((Parser.ofTokens ts).parse .program).tree = none ∧
      ∃ d, ((Parser.ofTokens ts).parse .program).log.entries = [d] ∧
      d.cause = .grammar .unexpectedEnd ∧ d.At ((ts.getLast?.map Token.position).getD ⟨1, 1⟩)) := by
  rw [Parser.parse_entries, Parser.parse_tree, Entry.run]
  refine ⟨⟨fun hempty => ?_, fun hgrammatical => ?_⟩, ?_, fun hviable hnot => ?_⟩
  · obtain ⟨tree, _, hprogram⟩ := program_of_stops (List.map_eq_nil_iff.mp hempty)
    exact grammatical_iff.mpr ⟨tree, hprogram⟩
  · obtain ⟨tree, htree⟩ := hgrammatical.read
    rw [htree]
    rfl
  · rintro ⟨vs, hvs, hnot⟩
    obtain ⟨us, t, more, s, rfl, hviable, hnot, hhead, hs, hfault⟩ :=
      first_not_viable fun hviable => hnot (hviable.of_prefix hvs)
    obtain ⟨hcause, hat⟩ := Stop.diagnostic_cons hs (lastPosition (us ++ t :: more))
    have hcut : us ++ t :: more = (us ++ [t]) ++ more := by rw [List.append_assoc]; rfl
    refine ⟨us.length, t, s.diagnostic _, ?_, ?_, fun j hj => ?_, ?_, hat, s.fault, hcause, hfault⟩
    · rw [List.getElem?_append_right (Nat.le_refl _), Nat.sub_self]
      rfl
    · rw [hcut, List.take_left' (by simp)]
      exact hnot
    · refine hviable.of_prefix ?_
      rw [List.take_append_of_le_length (by omega)]
      exact List.take_prefix _ _
    · rw [List.head?_map, hhead]
      rfl
  · obtain ⟨s, hstopped, hs⟩ := hviable.stopped hnot
    obtain ⟨hcause, hat⟩ := Stop.diagnostic_nil hs (lastPosition ts)
    rw [hstopped]
    exact ⟨rfl, s.diagnostic (lastPosition ts), rfl, hcause, hat⟩

end Imperativo.Grammar
