import Imperativo.Proofs.Grammar.FirstStop

/-!
# Which stops are about `terminar` and `sino`

A missing `terminar` and a `sino` without its `si` are classes of fault of their own.  Only the end
of a program can be waiting for the one word, and only where a statement should start can the other
be wrong.  Everything else that is waited for is usual; it is worded by the grammar alone, but for
the name of the variable that is assigned to.  One reading after another has usual stops if both do
(`Usual`), so a part of the grammar has usual stops as soon as all that it expects is usual.

* `usual_declaration`, `usual_assignment`, `usual_print`, `usual_read` — the statements without
  blocks.
* `usual_guarded` — conditions in parentheses, whose stops are of a class of their own.
* `usual_heading` — the heading of a program.
* **`usual_of_simple`** — whatever reads a statement without blocks has usual stops, and the only
  name they quote is that of its first token.
* **`Usual.ordinary`** — usual stops are not about `terminar` or `sino` (`Ordinary`).
-/

namespace Imperativo.Grammar

open Phrase

variable {α β : Type} {e : Expectation} {names names' : Text → Prop}

/-- Whether a fault is that `terminar` is missing, or that `sino` has no `si`. -/
def isExceptional : GrammarFault → Bool
  | .missingTerminate | .danglingElse => true
  | _ => false

/-- No stop of the reading is about a missing `terminar` or a `sino` without its `si`. -/
def Ordinary (f : List Token → Reading α) : Prop :=
  ∀ ts s, f ts = .error s → isExceptional s.fault = false

lemma Ordinary.ne_missingTerminate {f : List Token → Reading α} (hf : Ordinary f)
    {ts : List Token} {s : Stop} (h : f ts = .error s) : s.fault ≠ .missingTerminate := by
  intro hfault
  have hs := hf ts s h
  rw [hfault] at hs
  cases hs

lemma Ordinary.ne_danglingElse {f : List Token → Reading α} (hf : Ordinary f)
    {ts : List Token} {s : Stop} (h : f ts = .error s) : s.fault ≠ .danglingElse := by
  intro hfault
  have hs := hf ts s h
  rw [hfault] at hs
  cases hs

/-! ## Usual stops -/

/-- Anything but `terminar` at the end and the `si` of a `sino`; a name that is quoted is as `names`
says. -/
def Expectation.Usual (names : Text → Prop) : Expectation → Prop
  | .terminate | .elseBehindIf => False
  | .assignSign target => names target
  | _ => True

/-- Something usual was expected, and the class of fault is that of the expectation, or it stands in
a condition. -/
structure Stop.Usual (names : Text → Prop) (s : Stop) : Prop where
  expected : s.expectation.Usual names
  fault : s.fault = s.expectation.fault ∨ s.fault = .malformedCondition

/-- Every stop of the reading is usual. -/
def Usual (names : Text → Prop) (f : List Token → Reading α) : Prop :=
  ∀ ts s, f ts = .error s → s.Usual names

lemma usual_before (he : e.Usual names) (rest : List Token) : (Stop.before e rest).Usual names :=
  ⟨he, .inl rfl⟩

lemma isExceptional_of_usual (he : e.Usual names) : isExceptional e.fault = false := by
  cases e with
  | terminate => exact he.elim
  | elseBehindIf => exact he.elim
  | _ => rfl

lemma Expectation.Usual.imp (he : e.Usual names) (h : ∀ name, names name → names' name) :
    e.Usual names' := by
  cases e with
  | assignSign target => exact h target he
  | terminate => exact he
  | elseBehindIf => exact he
  | _ => trivial

lemma Stop.Usual.imp {s : Stop} (hs : s.Usual names) (h : ∀ name, names name → names' name) :
    s.Usual names' :=
  ⟨hs.expected.imp h, hs.fault⟩

/-- **Usual stops are not about `terminar` or `sino`.** -/
lemma Usual.ordinary {f : List Token → Reading α} (hf : Usual names f) : Ordinary f := by
  intro ts s h
  obtain ⟨he, hfault | hfault⟩ := hf ts s h
  · rw [hfault]
    exact isExceptional_of_usual he
  · rw [hfault]
    rfl

/-! ## Parts -/

lemma usual_pure (x : α) : Usual names fun ts => .ok (x, ts) := nofun

lemma Usual.readThen {f : List Token → Reading α} {g : α → List Token → Reading β}
    (hf : Usual names f) (hg : ∀ x, Usual names (g x)) : Usual names (readThen f g) := by
  intro ts s h
  rcases readThen_eq_error h with h | ⟨x, mid, _, h⟩
  · exact hf ts s h
  · exact hg x mid s h

/-- A token that is missing stops in front of what stands there. -/
lemma expect_stops {P : Stop → Prop} (he : ∀ rest, P (.before e rest)) {k : Kind} (ts : List Token)
    (s : Stop) (h : expect k e ts = .error s) : P s := by
  unfold expect at h
  split at h
  · cases h; exact he _
  · split at h
    · cases h
    · cases h; exact he _

lemma usual_expect {k : Kind} (he : e.Usual names) : Usual names (expect k e) :=
  expect_stops (usual_before he)

lemma ordinary_expect {k : Kind} (he : isExceptional e.fault = false) : Ordinary (expect k e) :=
  expect_stops (P := fun s => isExceptional s.fault = false) fun _ => he

lemma usual_leafRead {leaf? : Token → Option Tree} (he : e.Usual names) :
    Usual names (leafRead leaf? e) :=
  leafRead_stops (usual_before he)

lemma usual_moreLeaves {leaf? : Token → Option Tree} (he : e.Usual names) :
    Usual names (moreLeaves leaf? e) := by
  intro ts s h
  fun_induction moreLeaves leaf? e ts with
  | case1 => cases h
  | case2 => cases h; exact usual_before he _
  | case3 => cases h; exact usual_before he _
  | case4 _ _ _ _ _ _ _ hmore ih => cases h; exact ih hmore
  | case5 => cases h
  | case6 => cases h

lemma usual_chain {join? : Token → Option Heading} {item : Production}
    (hitem : Usual names item.read) : Usual names (chain join? item).read :=
  chain_stops hitem

lemma usual_value (he : e.Usual names) : Usual names (value e).read := by
  intro ts s h
  change valueRead e ts = .error s at h
  cases ts with
  | nil => cases h; exact usual_before he _
  | cons t rest =>
      cases ht : startsExpression t.kind with
      | true =>
          rw [valueRead_of_starts ht] at h
          exact usual_chain (usual_chain (usual_leafRead (by trivial))) _ _ h
      | false =>
          simp only [valueRead] at h
          split at h
          · rename_i hk; rw [hk] at ht; cases ht
          · rename_i hk; rw [hk] at ht; cases ht
          · rename_i hk; rw [hk] at ht; cases ht
          · cases h; exact usual_before (by trivial) _
          · cases h; exact usual_before he _

/-! ## Conditions -/

lemma usual_relationRead : Usual names relationRead := by
  intro ts s h
  unfold relationRead at h
  split at h
  · cases h; exact usual_before (by trivial) _
  · split at h
    · cases h
    · cases h; exact usual_before (by trivial) _

lemma usual_withoutRelation (tree : Tree) : Usual names (withoutRelation tree) := by
  intro ts s h
  unfold withoutRelation refuseRelation at h
  split at h
  · rename_i hrefuse
    cases h
    split at hrefuse
    · cases hrefuse
    · split at hrefuse
      · cases hrefuse; exact usual_before (by trivial) _
      · cases hrefuse
  · cases h

lemma usual_comparison : Usual names comparison.read := by
  rw [comparison_read]
  exact (usual_value (by trivial)).readThen fun _ => usual_relationRead.readThen fun _ =>
    (usual_value (by trivial)).readThen fun _ => usual_withoutRelation _

/-- All that goes wrong in a condition is of one class. -/
lemma usual_condition : Usual names condition.read := by
  intro ts s h
  simp only [condition_read] at h
  cases hread : disjunction.read ts with
  | ok x => rw [hread] at h; cases h
  | error s' =>
      rw [hread] at h
      cases h
      exact ⟨(usual_chain (usual_chain usual_comparison) ts s' hread).expected, .inr rfl⟩

lemma usual_guarded (owner : Word) : Usual names (guarded owner) := by
  rw [guarded_eq]
  exact (usual_expect (by trivial)).readThen fun _ => usual_condition.readThen fun _ =>
    (usual_expect (by trivial)).readThen fun _ => usual_pure _

lemma ordinary_guarded (owner : Word) : Ordinary (guarded owner) :=
  have h : Usual (fun _ => False) (guarded owner) := usual_guarded owner
  h.ordinary

/-! ## Statements and the heading -/

lemma usual_finishWith (he : e.Usual names) (tree : Tree) : Usual names (finishWith e tree) :=
  (usual_expect he).readThen fun _ => usual_pure tree

lemma usual_finishNames (tree : Tree) : Usual names (finishNames tree) := by
  intro ts s h
  cases hnames : refuseBehindNames ts with
  | ok _ =>
      rw [finishNames_of_ok hnames] at h
      exact usual_finishWith (by trivial) tree ts s h
  | error s' =>
      rw [finishNames, hnames] at h
      cases h
      unfold refuseBehindNames at hnames
      split at hnames
      · cases hnames
      · split at hnames
        · cases hnames; exact usual_before (by trivial) _
        · cases hnames; exact usual_before (by trivial) _
        · cases hnames

lemma usual_behindName (type : Scalar) (t name : Token) : Usual names (behindName type t name) := by
  intro ts s h
  unfold behindName at h
  split at h
  · cases h; exact usual_before (by trivial) _
  · split at h
    · exact (usual_value (by trivial)).readThen (fun _ => usual_finishWith (by trivial) _) _ s h
    · exact (usual_moreLeaves (by trivial)).readThen (fun _ => usual_finishNames _) _ s h

lemma usual_declaration (type : Scalar) (t : Token) : Usual names (declaration type t) := by
  rw [declaration_eq]
  exact (usual_expect (by trivial)).readThen fun name => usual_behindName type t name

lemma usual_assignment {t : Token} (ht : names (t.text?.getD [])) : Usual names (assignment t) := by
  rw [assignment_eq]
  exact (usual_expect (by exact ht)).readThen fun _ => (usual_value (by trivial)).readThen fun _ =>
    usual_finishWith (by trivial) _

lemma usual_print (t : Token) : Usual names (print t) := by
  rw [print_eq]
  exact (usual_expect (by trivial)).readThen fun _ => (usual_leafRead (by trivial)).readThen fun _ =>
    (usual_moreLeaves (by trivial)).readThen fun _ => (usual_expect (by trivial)).readThen fun _ =>
      usual_finishWith (by trivial) _

lemma usual_read (t : Token) : Usual names (read t) := by
  rw [read_eq]
  exact (usual_expect (by trivial)).readThen fun _ => usual_finishWith (by trivial) _

/-- **What reads a statement without blocks** has usual stops, which quote its first token only. -/
lemma usual_of_simple {t : Token} {f : List Token → Reading Tree}
    (hf : Lawful f fun us tree => Simple (t :: us) tree)
    (h : ∀ inside rest, statement inside (t :: rest) = inOneGo f rest) :
    Usual (· = t.text?.getD []) f := by
  have hread {g : List Token → Reading Tree}
      (hg : ∀ inside rest, statement inside (t :: rest) = inOneGo g rest) : f = g := by
    rw [← strictly_inOneGo f, ← strictly_inOneGo g]
    exact congrArg strictly (funext fun rest => (h (statements false) rest).symm.trans (hg _ rest))
  obtain ⟨us, tree, hphrase⟩ := hf.phrase
  cases hphrase with
  | initialization ht =>
      rw [hread (g := declaration _ t) fun inside rest => by simp only [statement, ht]; rfl]
      exact usual_declaration _ t
  | declaration ht =>
      rw [hread (g := declaration _ t) fun inside rest => by simp only [statement, ht]; rfl]
      exact usual_declaration _ t
  | assignment ht =>
      rw [hread (g := assignment t) fun inside rest => by simp only [statement, ht]; rfl]
      exact usual_assignment rfl
  | print ht =>
      rw [hread (g := print t) fun inside rest => by simp only [statement, ht]; rfl]
      exact usual_print t
  | read ht =>
      rw [hread (g := read t) fun inside rest => by simp only [statement, ht]; rfl]
      exact usual_read t

/-- Tokens that start no statement are never taken for a missing `terminar`. -/
lemma fault_misplaced (ts : List Token) : (misplaced ts).fault ≠ .missingTerminate := by
  unfold misplaced
  split
  · decide
  · split <;> (try split) <;> decide

lemma usual_heading : Usual names heading := by
  rw [heading_eq]
  exact (usual_expect (by trivial)).readThen fun _ => (usual_expect (by trivial)).readThen fun _ =>
    (usual_expect (by trivial)).readThen fun _ => (usual_expect (by trivial)).readThen fun _ =>
      (usual_expect (by trivial)).readThen fun _ => usual_pure _

lemma ordinary_heading : Ordinary heading :=
  have h : Usual (fun _ => False) heading := usual_heading
  h.ordinary

end Imperativo.Grammar
