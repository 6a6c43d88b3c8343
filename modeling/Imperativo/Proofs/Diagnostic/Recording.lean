import Imperativo.Proofs.Diagnostic.Merge

/-!
# What a log keeps

The first error of a log is an index that stands beside the entries.  Recording sets it once, merging
sorts the entries under it and sets it anew, and clearing takes it away, so that nothing in a single
one of these rules says that the index still points at an entry later on.  What all of them keep is
more than that: the index is that of the first entry, and it is there exactly when an entry is
(`Marked`).  Recording needs all of it, because it leaves an index alone only if there is one.

* `Step`, `run` — recording, merging, replacing and dropping, in any order.
* `Step.Effect` — what a step makes of the entries.
* **`Marked.run`** — the index is that of the first entry, over a whole run.
* **`recording_sound`** — the first error is the first entry after any steps, and entries are dropped
  only by the steps that start a log anew.
-/

namespace Imperativo

namespace Log

variable {log : Log}

/-! ## Steps -/

/-- What can be done to a log.  The other log of a step may be any one, however it has come about. -/
inductive Step
  | push (d : Diagnostic)
  | extend (other : Log)
  | merge (other : Log)
  | replace (entries : List Diagnostic)
  | clear

/-- The log after a step. -/
def after (log : Log) : Step → Log
  | .push d => log.push d
  | .extend other => log.extend other
  | .merge other => log.merge other
  | .replace entries => ofList entries
  | .clear => log.clear

/-- The log after some steps. -/
def run (log : Log) (steps : List Step) : Log := steps.foldl after log

/-- What a step makes of the entries `old`.  Recording leaves them where they are, with the new ones
behind them; merging keeps all of them and of the new ones, once each; the other two steps start
anew. -/
def Step.Effect (old new : List Diagnostic) : Step → Prop
  | .push d => new = old ++ [d]
  | .extend other => new = old ++ other.entries
  | .merge other => new.Perm (old ++ other.entries)
  | .replace entries => new = entries
  | .clear => new = []

/-! ## Entries -/

lemma entries_extend (log other : Log) :
    (log.extend other).entries = log.entries ++ other.entries :=
  entries_foldl_push other.entries log

/-- Merging keeps every entry of both logs. -/
lemma merge_perm (a b : Log) : (a.merge b).entries.Perm (a.entries ++ b.entries) :=
  List.mergeSort_perm _ _

lemma effect_after (log : Log) (step : Step) :
    step.Effect log.entries (log.after step).entries := by
  cases step with
  | push d => rfl
  | extend other => exact log.entries_extend other
  | merge other => exact log.merge_perm other
  | replace entries => rfl
  | clear => rfl

/-- Every entry comes from one of the two stages. -/
lemma countStage_add_countStage (log : Log) :
    log.countStage .lexical + log.countStage .grammar = log.size := by
  have hother (d : Diagnostic) : (d.stage == .grammar) = !(d.stage == .lexical) := by
    cases d.stage <;> rfl
  simp only [countStage, size, hother]
  exact (List.length_eq_length_filter_add _).symm

/-! ## The first error -/

/-- The index is that of the first entry, and there is none if the log is empty. -/
def Marked (log : Log) : Prop := log.marker = markFirst log.entries

namespace Marked

lemma empty : Log.empty.Marked := rfl

lemma ofList (entries : List Diagnostic) : (ofList entries).Marked := rfl

lemma merge (a b : Log) : (a.merge b).Marked := rfl

/-- A log whose first entry is marked has nothing but its entries. -/
lemma ext {a b : Log} (ha : a.Marked) (hb : b.Marked) (h : a.entries = b.entries) : a = b := by
  have hmarker : a.marker = b.marker := by rw [ha, hb, h]
  obtain ⟨entries, marker⟩ := a
  exact congr (congrArg Log.mk h) hmarker

lemma push (h : log.Marked) (d : Diagnostic) : (log.push d).Marked := by
  change log.marker.or (some log.entries.length) = markFirst (log.entries ++ [d])
  rw [h]
  cases log.entries with
  | nil => rfl
  | cons e entries => rfl

lemma extend (h : log.Marked) (other : Log) : (log.extend other).Marked := by
  change (other.entries.foldl Log.push log).Marked
  generalize other.entries = entries
  induction entries generalizing log with
  | nil => exact h
  | cons d entries ih => exact ih (h.push d)

lemma after (h : log.Marked) (step : Step) : (log.after step).Marked := by
  cases step with
  | push d => exact h.push d
  | extend other => exact h.extend other
  | merge other => exact .merge log other
  | replace entries => exact .ofList entries
  | clear => rfl

/-- **The index is that of the first entry**, whatever is done to the log. -/
theorem run (h : log.Marked) (steps : List Step) : (log.run steps).Marked := by
  induction steps generalizing log with
  | nil => exact h
  | cons step steps ih => exact ih (h.after step)

lemma firstError?_eq (h : log.Marked) : log.firstError? = log.entries.head? := by
  rw [firstError?, h]
  cases log.entries with
  | nil => rfl
  | cons d entries => rfl

lemma marker_lt (h : log.Marked) : ∀ i ∈ log.marker, i < log.size := by
  intro i hi
  rw [h, markFirst] at hi
  split at hi
  · cases hi
  · rename_i hentries
    obtain rfl : 0 = i := Option.some.inj hi
    simpa [size, List.length_pos_iff] using hentries

end Marked

/-- The first error is the first entry, its index is one of an entry, and the entries of the two
stages are all that there are. -/
structure Sound (log : Log) : Prop where
  first_eq : log.firstError? = log.entries.head?
  first_eq_none : log.firstError? = none ↔ log.entries = []
  marker_lt : ∀ i ∈ log.marker, i < log.size
  stages_eq : log.countStage .lexical + log.countStage .grammar = log.size

lemma Marked.sound (h : log.Marked) : log.Sound where
  first_eq := h.firstError?_eq
  first_eq_none := by rw [h.firstError?_eq, List.head?_eq_none_iff]
  marker_lt := h.marker_lt
  stages_eq := log.countStage_add_countStage

/-- **A log keeps what is recorded.**  After any steps that a log begins with, its first error is its
first entry, so that there is none exactly when the log is empty, and the index of it is never out of
range; the entries of the two stages add up to all of them.  Whatever the next step is, it does to
the entries what `Step.Effect` says: only the steps that start anew drop any. -/
theorem recording_sound (steps : List Step) (step : Step) :
    (empty.run steps).Sound ∧
      step.Effect (empty.run steps).entries (empty.run (steps ++ [step])).entries := by
  have hmarked : (empty.run steps).Marked := Marked.empty.run steps
  have hnext : empty.run (steps ++ [step]) = (empty.run steps).after step := by
    simp [run]
  rw [hnext]
  exact ⟨hmarked.sound, effect_after _ step⟩

end Log

end Imperativo
