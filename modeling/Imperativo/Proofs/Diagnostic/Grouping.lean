import Imperativo.Proofs.Diagnostic.Recording

/-!
# How merges are grouped

Neither of two logs that are merged need be in order, so merging is no interleaving of sorted lists
and associativity is not that of a merge step.  It holds because a stable sort is determined by the
entries at each place, and at each place merging only joins: the entries of `a`, then those of `b`,
then those of `c`, whichever two logs are merged first (`StableSort.unique`).

* **`merged_merge`** — a merge has the entries of both sides, in the order of their places, and at
  each place those of the first side in front.
* **`merge_merge`** — how merges are grouped does not matter.
* **`merge_grouping`** — both of them, and that merging an empty log leaves a log in order alone.
-/

namespace Imperativo

/-- What stands at each place is all that a stable sort depends on. -/
lemma StableSort.of_same {entries entries' sorted : List Diagnostic}
    (h : StableSort entries sorted) (hsame : ∀ p, entries'.filter (fun d => d.place = p) =
      entries.filter fun d => d.place = p) : StableSort entries' sorted where
  ascends := h.ascends
  same p := (h.same p).trans (hsame p).symm

namespace Log

/-- The entries go up by line and then by column, an unknown column counting as zero. -/
def Ascends (log : Log) : Prop :=
  log.entries.Pairwise fun d e =>
    d.line < e.line ∨ d.line = e.line ∧ d.column.getD 0 ≤ e.column.getD 0

instance (log : Log) : Decidable log.Ascends :=
  inferInstanceAs (Decidable (List.Pairwise _ _))

lemma ascends_iff (log : Log) :
    log.Ascends ↔ log.entries.Pairwise fun d e => d.key ≤ e.key := by
  have hplace (d e : Diagnostic) : (d.line < e.line ∨ d.line = e.line ∧
      d.column.getD 0 ≤ e.column.getD 0) ↔ d.key ≤ e.key := by
    simp only [Diagnostic.key, Diagnostic.place, Prod.Lex.toLex_le_toLex]
  simp only [Ascends, hplace]

/-- The log has the entries of `a` and of `b`, each once and in the order of their places.  Those at
one place are those of `a` in their order, and then those of `b` in theirs. -/
structure Merged (a b log : Log) : Prop where
  perm : log.entries.Perm (a.entries ++ b.entries)
  ascends : log.Ascends
  ties : ∀ p, log.entries.filter (fun d => d.place = p) =
    a.entries.filter (fun d => d.place = p) ++ b.entries.filter fun d => d.place = p

/-- **A merge has the entries of both sides**, at each place those of the first side in front. -/
theorem merged_merge (a b : Log) : Merged a b (a.merge b) where
  perm := merge_perm a b
  ascends := (ascends_iff _).mpr (stableSort_merge a b).ascends
  ties p := by rw [(stableSort_merge a b).same, List.filter_append]

/-- **How merges are grouped does not matter.** -/
theorem merge_merge (a b c : Log) : (a.merge b).merge c = a.merge (b.merge c) := by
  have hleft : StableSort (a.entries ++ b.entries ++ c.entries) ((a.merge b).merge c).entries :=
    (stableSort_merge (a.merge b) c).of_same fun p => by
      simp only [List.filter_append, (merged_merge a b).ties]
  have hright : StableSort (a.entries ++ b.entries ++ c.entries) (a.merge (b.merge c)).entries :=
    (stableSort_merge a (b.merge c)).of_same fun p => by
      simp only [List.filter_append, (merged_merge b c).ties, List.append_assoc]
  exact (Marked.merge _ c).ext (.merge a _) (hleft.unique hright)

/-- Entries that are in order when they are joined are merged as they stand. -/
lemma merge_of_ascends {a b : Log} (hup : (ofList (a.entries ++ b.entries)).Ascends) :
    a.merge b = ofList (a.entries ++ b.entries) :=
  (Marked.merge a b).ext (.ofList _)
    ((stableSort_merge a b).eq_of_ascends ((ascends_iff _).mp hup))

/-- Nothing is merged into a log that is in order already. -/
lemma Marked.merge_eq_self {log other : Log} (h : log.Marked) (hup : log.Ascends)
    (hother : other.entries = []) : log.merge other = log := by
  have hentries : log.entries ++ other.entries = log.entries := by rw [hother, List.append_nil]
  rw [merge_of_ascends (by rwa [hentries]), hentries]
  exact (Marked.ofList _).ext h rfl

/-- **Merging is stable, and how it is grouped does not matter.**  Whatever the order of two logs, a
merge has every entry of both once, in the order of their places, and at each place those of the
first log in front, each side in its order.  Merging three logs comes to the same log, entries and
first error, whichever two are merged first.  A log that some steps have led to and that is in order
stays as it is when a log without entries is merged into it. -/
theorem merge_grouping :
    (∀ a b : Log, Merged a b (a.merge b)) ∧
    (∀ a b c : Log, (a.merge b).merge c = a.merge (b.merge c)) ∧
    ∀ (steps : List Step) (other : Log), (empty.run steps).Ascends → other.entries = [] →
      (empty.run steps).merge other = empty.run steps :=
  ⟨merged_merge, merge_merge, fun steps _ hup hother =>
    (Marked.empty.run steps).merge_eq_self hup hother⟩

end Log

end Imperativo
