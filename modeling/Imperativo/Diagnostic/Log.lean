import Imperativo.Diagnostic.Basic

/-!
# Logs of diagnostics

A log keeps the diagnostics of one run in the order in which they were recorded, and remembers which
entry counts as the first error.  Recording appends; merging two logs sorts all entries by place and
keeps the order of entries that share one.

* `push`, `extend` — record one more diagnostic, or those of another log.
* `merge` — interleave another log by place.
* `ofList`, `clear` — a log with given entries, and with none.
* `firstError?` — the entry that a summary shows.
-/

namespace Imperativo

/-- The diagnostics of one run, with the index of the first error. -/
structure Log where
  entries : List Diagnostic
  marker : Option Nat
  deriving DecidableEq, Repr

namespace Log

/-- The log without entries. -/
def empty : Log := ⟨[], none⟩

instance : Inhabited Log := ⟨empty⟩

/-- The index that marks the first of `entries`, if there is one. -/
def markFirst (entries : List Diagnostic) : Option Nat := if entries.isEmpty then none else some 0

/-- A log with the given entries, the first of which counts as the first error. -/
def ofList (entries : List Diagnostic) : Log := ⟨entries, markFirst entries⟩

/-- Records one more diagnostic; a log without a first error takes it as such. -/
def push (log : Log) (d : Diagnostic) : Log :=
  ⟨log.entries ++ [d], log.marker.or (some log.entries.length)⟩

/-- Records every entry of another log, in order. -/
def extend (log other : Log) : Log := other.entries.foldl push log

/-- All entries of both logs sorted by place.  Entries at one place keep their order, those of `log`
standing before those of `other`; the earliest entry counts as the first error. -/
def merge (log other : Log) : Log :=
  ofList ((log.entries ++ other.entries).mergeSort Diagnostic.atOrBefore)

/-- Drops every entry; the next one to be recorded counts as the first error. -/
def clear (log : Log) : Log := { log with entries := [], marker := none }

/-- The entry that counts as the first error. -/
def firstError? (log : Log) : Option Diagnostic := log.marker.bind fun i => log.entries[i]?

/-- The number of entries. -/
def size (log : Log) : Nat := log.entries.length

/-- Whether there are no entries. -/
def isEmpty (log : Log) : Bool := log.entries.isEmpty

/-- The number of entries that come from one stage. -/
def countStage (log : Log) (stage : Stage) : Nat := (log.entries.filter fun d => d.stage == stage).length

/-- The lexical faults of the log, in order. -/
def lexicalFaults (log : Log) : List LexicalFault := log.entries.filterMap Diagnostic.lexicalFault?

/-- The grammar faults of the log, in order. -/
def grammarFaults (log : Log) : List GrammarFault := log.entries.filterMap Diagnostic.grammarFault?

/-- The summary line of the first error. -/
def firstErrorText? (log : Log) : Option Text := log.firstError?.map Diagnostic.text

/-- Entries that are recorded one after another stand behind those before. -/
theorem entries_foldl_push (ds : List Diagnostic) (log : Log) :
    (ds.foldl push log).entries = log.entries ++ ds := by
  induction ds generalizing log with
  | nil => exact (List.append_nil _).symm
  | cons d ds ih =>
    rw [List.foldl_cons, ih, push]
    simp

end Log

end Imperativo
