import Imperativo.Proofs.Grammar.Braces
import Imperativo.Proofs.Grammar.Ordinary

/-!
# The stops of a run

What holds of all stops of two runs holds of the stops of one behind the other (`StopsAre.bind`).  A
program is its heading, its statements and its end, and outside of the statements a stop neither
quotes a name nor is about a `sino` (`Stop.Quiet`).

* **`stopsAre_program`** — so all that matters in a program are the stops of its statements.
-/

namespace Imperativo.Grammar

variable {α β : Type}

/-- Every stop of the run, passed over or final, is as `P` says. -/
structure StopsAre (P : Stop → Prop) (r : Run α) : Prop where
  passed : ∀ s ∈ r.passed, P s
  stop : ∀ {s}, r.outcome = .error s → P s

section Stops

variable {P Q : Stop → Prop}

lemma StopsAre.of_mem {r : Run α} (h : StopsAre P r) {s : Stop} (hs : s ∈ r.stops) : P s := by
  rw [Run.stops] at hs
  split at hs
  · exact h.passed s hs
  · rename_i s' hr
    rcases List.mem_append.mp hs with hs | hs
    · exact h.passed s hs
    · rw [List.mem_singleton.mp hs]
      exact h.stop hr

lemma StopsAre.imp {r : Run α} (h : StopsAre P r) (hPQ : ∀ s, P s → Q s) : StopsAre Q r :=
  ⟨fun s hs => hPQ s (h.passed s hs), fun hr => hPQ _ (h.stop hr)⟩

lemma stopsAre_done (x : α) : StopsAre P (Run.done x) := ⟨nofun, nofun⟩

lemma stopsAre_stopped {s : Stop} (h : P s) : StopsAre P (Run.stopped s : Run α) :=
  ⟨nofun, by rintro _ ⟨⟩; exact h⟩

lemma StopsAre.bind {r : Run α} {g : α → Run β} (hr : StopsAre P r)
    (hg : ∀ {x}, r.outcome = .ok x → StopsAre P (g x)) : StopsAre P (r >>= g) := by
  change StopsAre P (Run.andThen r g)
  cases h : r.outcome with
  | error s =>
      simp only [Run.andThen, h]
      exact ⟨hr.passed, by rintro _ ⟨⟩; exact hr.stop h⟩
  | ok x =>
      simp only [Run.andThen, h]
      exact ⟨List.forall_mem_append.mpr ⟨hr.passed, (hg h).passed⟩, (hg h).stop⟩

lemma stopsAre_passOver {s : Stop} (h : P s) : StopsAre P (Run.passOver s) := by
  by_cases hs : s.rest = []
  · rw [passOver_fatal hs]
    exact stopsAre_stopped h
  · rw [passOver_of_ne hs]
    exact ⟨List.forall_mem_singleton.mpr h, nofun⟩

lemma stopsAre_ofReading {found : Except Stop α} (h : ∀ {s}, found = .error s → P s) :
    StopsAre P (Run.ofReading found) := by
  cases found with
  | ok x => exact stopsAre_done x
  | error s => exact stopsAre_stopped (h rfl)

/-- A broken statement that is passed over is reported with its own stop. -/
lemma StopsAre.recovered {r : Run (Tree × List Token)} (h : StopsAre P r) :
    StopsAre P (recovered r) := by
  unfold Grammar.recovered
  split
  · exact ⟨h.passed, by rintro _ ⟨⟩⟩
  · rename_i s hr
    have hpassed : StopsAre P (⟨r.passed, .ok ()⟩ : Run Unit) := ⟨h.passed, by rintro _ ⟨⟩⟩
    exact hpassed.bind fun {_} _ => (stopsAre_passOver (h.stop hr)).bind fun {_} _ => stopsAre_done _

end Stops

/-! ## Outside of the statements -/

/-- The stop quotes no name and is not about a `sino` without its `si`. -/
structure Stop.Quiet (s : Stop) : Prop where
  quotes : ∀ target, s.expectation ≠ .assignSign target
  fault : s.fault ≠ .danglingElse

lemma quiet_before {e : Expectation} (hquotes : ∀ target, e ≠ .assignSign target)
    (hfault : e.fault ≠ .danglingElse) (rest : List Token) : (Stop.before e rest).Quiet :=
  ⟨hquotes, hfault⟩

lemma quiet_heading {ts : List Token} {s : Stop} (h : heading ts = .error s) : s.Quiet := by
  have hs : s.Usual fun _ => False := usual_heading ts s h
  refine ⟨fun target htarget => ?_, ordinary_heading.ne_danglingElse h⟩
  have hexpected := hs.expected
  rwa [htarget] at hexpected

lemma quiet_behindOpenBrace {ts : List Token} {s : Stop} (h : behindOpenBrace ts = .error s) :
    s.Quiet := by
  fun_induction behindOpenBrace ts with
  | case1 => cases h; exact quiet_before (by rintro _ ⟨⟩) (by decide) []
  | case2 => cases h
  | case3 t rest _ ih => exact ih h

section Parts

variable (ts : List Token)

lemma quiet_opening : StopsAre Stop.Quiet (opening ts) := by
  unfold opening
  cases h : heading ts with
  | ok p => exact stopsAre_done _
  | error s =>
      refine (stopsAre_passOver (quiet_heading h)).bind fun {_} _ => ?_
      exact (stopsAre_ofReading quiet_behindOpenBrace).bind fun {_} _ => stopsAre_done _

lemma quiet_terminate : StopsAre Stop.Quiet (terminate ts) := by
  unfold terminate
  cases h : expect (.word .terminar) .terminate ts with
  | ok p =>
      refine StopsAre.bind ?_ fun {_} _ => stopsAre_done _
      unfold terminateSemicolon
      cases h' : expect (.sign .semicolon) .terminateSemicolon p.2 with
      | ok q => exact stopsAre_done _
      | error s =>
          have hs : s.Quiet :=
            expect_stops (quiet_before (by rintro _ ⟨⟩) (by decide)) _ _ h'
          exact (stopsAre_passOver hs).bind fun {_} _ => stopsAre_done _
  | error s =>
      have hs : s.Quiet := expect_stops (quiet_before (by rintro _ ⟨⟩) (by decide)) _ _ h
      exact (stopsAre_passOver hs).bind fun {_} _ => stopsAre_done _

lemma quiet_closing : StopsAre Stop.Quiet (closing ts) := by
  unfold closing
  cases h : expect (.sign .closeBrace) .closeAfterTerminate ts with
  | ok p => exact stopsAre_done _
  | error s =>
      have hs : s.Quiet := expect_stops (quiet_before (by rintro _ ⟨⟩) (by decide)) _ _ h
      refine (stopsAre_passOver hs).bind fun {_} _ => stopsAre_ofReading fun h => ?_
      rw [behindCloseBrace_error h]
      exact quiet_before (by rintro _ ⟨⟩) (by decide) []

lemma quiet_trailing : StopsAre Stop.Quiet (trailing ts) := by
  cases ts with
  | nil => exact stopsAre_done _
  | cons t ts => exact stopsAre_passOver (quiet_before (by rintro _ ⟨⟩) (by decide) (t :: ts))

end Parts

/-- **All that matters in a program are the stops of its statements.** -/
theorem stopsAre_program {P : Stop → Prop} {ts : List Token} (hquiet : ∀ s, s.Quiet → P s)
    (hstatements : ∀ {x}, (opening ts).outcome = .ok x → StopsAre P (statements true x.2)) :
    StopsAre P (program ts) :=
  ((quiet_opening ts).imp hquiet).bind fun {_} hopening =>
    (hstatements hopening).bind fun {_} _ =>
    ((quiet_terminate _).imp hquiet).bind fun {_} _ =>
    ((quiet_closing _).imp hquiet).bind fun {_} _ =>
    ((quiet_trailing _).imp hquiet).bind fun {_} _ => stopsAre_done _

end Imperativo.Grammar
