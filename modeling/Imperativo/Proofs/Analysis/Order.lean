import Imperativo.Analysis
import Imperativo.Proofs.Grammar.Descent
import Imperativo.Proofs.Source.Order

/-!
# The log of an analysis is in order

Both stages record their diagnostics from front to back, so sorting only interleaves them: nothing
is lost, and neither side is reordered.

* **`analyze_in_order`** — the log of an analysis has the diagnostics of both stages in the order of
  their places, and its first error is a first one by place; when capital letters do not matter, it
  is the sorted log of a parser that reads the program itself.
-/

namespace Imperativo

/-- The log has the diagnostics of both stages, each side as it was recorded, in the order of their
places; where two share a place the lexical one comes first. -/
structure InOrder (lexical grammatical : List Diagnostic) (log : Log) : Prop where
  lexical_rises : lexical.Pairwise fun d e => d.key < e.key
  grammatical_ascends : grammatical.Pairwise fun d e => d.key ≤ e.key
  lexical_kept : log.entries.filter (fun d => d.stage = .lexical) = lexical
  grammatical_kept : log.entries.filter (fun d => d.stage = .grammar) = grammatical
  sorted : log.entries.Pairwise fun d e =>
    d.key < e.key ∨ d.key = e.key ∧ (d.stage = .grammar → e.stage = .grammar)
  first_eq_none : log.firstError? = none ↔ log.entries = []
  first_least : ∀ d ∈ log.firstError?, d ∈ log.entries ∧ ∀ e ∈ log.entries, d.key ≤ e.key

/-- Logs of the two stages that go up by place are merged in order. -/
theorem inOrder_merge {lexical grammatical : List Diagnostic} {log : Log}
    (hlog : log.entries = grammatical) (hl : lexical.Pairwise fun d e => d.key < e.key)
    (hg : grammatical.Pairwise fun d e => d.key ≤ e.key) (hls : ∀ d ∈ lexical, d.stage = .lexical)
    (hgs : ∀ d ∈ grammatical, d.stage = .grammar) :
    InOrder lexical grammatical ((Log.ofList lexical).merge log) := by
  have hsort := stableSort_merge (Log.ofList lexical) log
  rw [hlog] at hsort
  change StableSort (lexical ++ grammatical) _ at hsort
  have hfirst := firstError?_merge (Log.ofList lexical) log
  generalize (Log.ofList lexical).merge log = merged at hsort hfirst ⊢
  have hlexical : (lexical ++ grammatical).filter (fun d => d.stage = .lexical) = lexical := by
    rw [List.filter_append, List.filter_eq_self.mpr fun d hd => by simp [hls d hd],
      List.filter_eq_nil_iff.mpr fun d hd => by simp [hgs d hd], List.append_nil]
  have hgrammatical : (lexical ++ grammatical).filter (fun d => d.stage = .grammar) =
      grammatical := by
    rw [List.filter_append, List.filter_eq_nil_iff.mpr fun d hd => by simp [hls d hd],
      List.filter_eq_self.mpr fun d hd => by simp [hgs d hd], List.nil_append]
  refine ⟨hl, hg, ?_, ?_, hsort.pairwise ?_, ?_, ?_⟩
  · have h := hsort.filter fun d => d.stage = .lexical
    rw [hlexical] at h
    exact h.eq_of_ascends (hl.imp le_of_lt)
  · have h := hsort.filter fun d => d.stage = .grammar
    rw [hgrammatical] at h
    exact h.eq_of_ascends hg
  · refine List.pairwise_append.mpr ⟨?_, ?_, ?_⟩
    · refine List.pairwise_of_forall_mem_list fun d hd _ _ h => ?_
      rw [hls d hd] at h
      cases h
    · exact List.pairwise_of_forall_mem_list fun _ _ e he _ => hgs e he
    · exact fun _ _ e he _ => hgs e he
  · rw [hfirst, List.head?_eq_none_iff]
  · intro d hd
    rw [hfirst] at hd
    obtain ⟨others, hentries⟩ := List.head?_eq_some_iff.mp hd
    rw [hentries]
    have hup := hsort.ascends
    rw [hentries, List.pairwise_cons] at hup
    exact ⟨List.mem_cons_self, List.forall_mem_cons.mpr ⟨le_refl _, hup.1⟩⟩

lemma Parser.parse_entries_append (p : Parser) (entry : Entry) : (p.parse entry).log.entries =
    p.log.entries ++ ((Parser.ofTokens p.tokens).parse entry).log.entries := by
  rw [entries_parse, parse_entries]

/-- **The log of an analysis is in order.** -/
theorem analyze_in_order (a : Analyzer) (source : Text) :
    InOrder (tokenize a.settings.case source).2
      ((Parser.ofTokens (tokenize a.settings.case source).1).parse .program).log.entries
      (a.analyze source).1.log ∧
    (let b : Analyzer := { a with settings := a.settings.withCase .insensitive }
     let outcome := (Parser.ofSource source).parse .program
     (b.analyze source).1.ast = outcome.ast? ∧
       StableSort outcome.log.entries (b.analyze source).1.log.entries) := by
  refine ⟨?_, rfl, ?_⟩
  · exact inOrder_merge rfl (diagnostics_rising _ _)
      (Grammar.entries_ascend ((tokens_rising _ _).imp le_of_lt))
      (accounted_tokenize _ _).stage_eq (Grammar.entries_stage _ _)
  · rw [Parser.parse_entries_append]
    exact stableSort_merge (Log.ofList _) _

end Imperativo
