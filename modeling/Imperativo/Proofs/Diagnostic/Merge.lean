import Imperativo.Diagnostic.Log
import Mathlib.Data.Prod.Lex
import Mathlib.Tactic

/-!
# Merging logs

A merged log goes up by place, and entries that share a place keep their order.  `StableSort` says
so without saying how the sorting is done: at each place stand the entries that stood there before.
Only one list is sorted like that, so a list that goes up already is left alone, and sorting
commutes with leaving entries out.

* **`stableSort_merge`** — merging is a stable sort of the entries of both logs.
* **`StableSort.unique`** — there is only one.
* **`StableSort.pairwise`** — what holds of any two entries in their order holds of those that share
  a place.
-/

namespace Imperativo

/-! ## Places -/

/-- The place of a position.  Places are ordered by line and then by column. -/
def Position.key (p : Position) : ℕ ×ₗ ℕ := toLex (p.line, p.column)

namespace Diagnostic

variable {d e : Diagnostic}

/-- The place of a diagnostic. -/
def key (d : Diagnostic) : ℕ ×ₗ ℕ := toLex d.place

lemma key_eq_iff : d.key = e.key ↔ d.place = e.place :=
  toLex.injective.eq_iff

lemma atOrBefore_iff : d.atOrBefore e = true ↔ d.key ≤ e.key := by
  simp only [atOrBefore, key, place, Prod.Lex.toLex_le_toLex, Bool.or_eq_true, Bool.and_eq_true,
    decide_eq_true_eq, beq_iff_eq]

lemma atOrBefore_trans (d e f : Diagnostic) (hde : d.atOrBefore e = true)
    (hef : e.atOrBefore f = true) : d.atOrBefore f = true :=
  atOrBefore_iff.mpr ((atOrBefore_iff.mp hde).trans (atOrBefore_iff.mp hef))

lemma atOrBefore_total (d e : Diagnostic) : (d.atOrBefore e || e.atOrBefore d) = true := by
  rw [Bool.or_eq_true, atOrBefore_iff, atOrBefore_iff]
  exact le_total _ _

end Diagnostic

/-! ## Stable sorts -/

/-- The entries in the order of their places, those at one place as they stood before. -/
structure StableSort (entries sorted : List Diagnostic) : Prop where
  ascends : sorted.Pairwise fun d e => d.key ≤ e.key
  same : ∀ p, sorted.filter (fun d => d.place = p) = entries.filter fun d => d.place = p

namespace StableSort

variable {entries sorted sorted' : List Diagnostic}

lemma of_ascends (h : entries.Pairwise fun d e => d.key ≤ e.key) : StableSort entries entries :=
  ⟨h, fun _ => rfl⟩

lemma filter (h : StableSort entries sorted) (p : Diagnostic → Bool) :
    StableSort (entries.filter p) (sorted.filter p) where
  ascends := h.ascends.filter p
  same q := by rw [List.filter_comm, h.same, List.filter_comm]

/-- Where entries are the same at every place, the first one is at or before any of the others. -/
lemma head_le {d e : Diagnostic} {others others' : List Diagnostic}
    (hsame : ∀ p, (d :: others).filter (fun d => d.place = p) =
      (e :: others').filter fun d => d.place = p)
    (h : (e :: others').Pairwise fun d e => d.key ≤ e.key) : e.key ≤ d.key := by
  have hd : d ∈ (d :: others).filter fun e => e.place = d.place := by simp
  rw [hsame] at hd
  rcases List.mem_cons.mp (List.mem_filter.mp hd).1 with rfl | hd
  · exact le_refl _
  · exact (List.pairwise_cons.mp h).1 d hd

/-- **There is only one stable sort.** -/
theorem unique (h : StableSort entries sorted) (h' : StableSort entries sorted') :
    sorted = sorted' := by
  obtain ⟨h, hsame⟩ := h
  obtain ⟨h', hsame'⟩ := h'
  replace hsame p := (hsame p).trans (hsame' p).symm
  clear hsame'
  induction sorted generalizing sorted' with
  | nil =>
      cases sorted' with
      | nil => rfl
      | cons e _ => simpa using hsame e.place
  | cons d others ih =>
      cases sorted' with
      | nil => simpa using hsame d.place
      | cons e others' =>
          -- both lists begin at the same place, so with the same entry
          have hplace : e.place = d.place := Diagnostic.key_eq_iff.mp
            (le_antisymm (head_le hsame h') (head_le (fun p => (hsame p).symm) h))
          have hfirst := hsame d.place
          rw [List.filter_cons_of_pos (by simp), List.filter_cons_of_pos (by simp [hplace])] at hfirst
          obtain rfl := (List.cons.inj hfirst).1
          refine congrArg (d :: ·) (ih (List.pairwise_cons.mp h).2 (List.pairwise_cons.mp h').2
            fun p => ?_)
          have hp := hsame p
          rw [List.filter_cons, List.filter_cons] at hp
          split at hp
          · exact (List.cons.inj hp).2
          · exact hp

/-- What goes up already is left alone. -/
lemma eq_of_ascends (h : StableSort entries sorted)
    (hup : entries.Pairwise fun d e => d.key ≤ e.key) : sorted = entries :=
  h.unique (.of_ascends hup)

/-- **Two entries that share a place are in their old order.** -/
theorem pairwise (h : StableSort entries sorted) {R : Diagnostic → Diagnostic → Prop}
    (hR : entries.Pairwise R) :
    sorted.Pairwise fun d e => d.key < e.key ∨ d.key = e.key ∧ R d e := by
  rw [List.pairwise_iff_forall_sublist] at hR ⊢
  intro d e hde
  rcases (List.pairwise_iff_forall_sublist.mp h.ascends hde).lt_or_eq with hlt | heq
  · exact .inl hlt
  · have hplace : [d, e].filter (fun e => e.place = d.place) = [d, e] := by
      simp [Diagnostic.key_eq_iff.mp heq]
    have hfilter := hde.filter fun e => e.place = d.place
    rw [h.same, hplace] at hfilter
    exact .inr ⟨heq, hR (hfilter.trans List.filter_sublist)⟩

end StableSort

/-! ## Merging -/

/-- Sorting moves no entry past another one at the same place. -/
lemma filter_mergeSort (entries : List Diagnostic) (p : Nat × Nat) :
    (entries.mergeSort Diagnostic.atOrBefore).filter (fun d => d.place = p) =
      entries.filter fun d => d.place = p := by
  have hsame : (entries.filter fun d => d.place = p).Pairwise fun d e => d.atOrBefore e = true := by
    refine List.pairwise_of_forall_mem_list fun d hd e he => ?_
    have hd := of_decide_eq_true (List.mem_filter.mp hd).2
    have he := of_decide_eq_true (List.mem_filter.mp he).2
    exact Diagnostic.atOrBefore_iff.mpr (Diagnostic.key_eq_iff.mpr (hd.trans he.symm)).le
  have hsub := (List.sublist_mergeSort Diagnostic.atOrBefore_trans Diagnostic.atOrBefore_total hsame
    List.filter_sublist).filter fun d => d.place = p
  simp only [List.filter_filter, Bool.and_self] at hsub
  have hperm := (List.mergeSort_perm entries Diagnostic.atOrBefore).filter fun d => d.place = p
  exact (hsub.eq_of_length hperm.length_eq.symm).symm

/-- **Merging is a stable sort of the entries of both logs.** -/
theorem stableSort_merge (a b : Log) :
    StableSort (a.entries ++ b.entries) (a.merge b).entries where
  ascends := (List.pairwise_mergeSort Diagnostic.atOrBefore_trans Diagnostic.atOrBefore_total _).imp
    Diagnostic.atOrBefore_iff.mp
  same p := filter_mergeSort _ p

/-- The first error of a merged log is its first entry. -/
lemma firstError?_merge (a b : Log) : (a.merge b).firstError? = (a.merge b).entries.head? := by
  rw [Log.merge, Log.firstError?, Log.ofList, Log.markFirst]
  cases (a.entries ++ b.entries).mergeSort Diagnostic.atOrBefore <;> rfl

end Imperativo
