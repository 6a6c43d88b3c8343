import Imperativo.Proofs.Grammar.Progress

/-!
# What is kept of a program

A program that is read past broken statements is no phrase, and neither is a loop in which
something is broken.  What is kept of it is still made of phrases: of statements without blocks, of
conditions, and of blocks that have only statements that were kept (`Kept`).  So a fact about the
nodes of a tree that holds of phrases is carried to every tree that is read, by induction on what is
kept.

* **`kept_statements`** — every statement that is read is kept.
* **`program_kept`** — the tree of a program is a heading and an end around statements that are
  kept.
-/

namespace Imperativo.Grammar

open Phrase

variable {α β : Type} {all : List Token}

/-! ## Trees that are kept -/

/-- The tree of a statement that was read from some of the tokens `all`; in its blocks there are
statements that were kept as well, and possibly broken ones that were not. -/
inductive Kept (all : List Token) : Tree → Prop
  | simple {us : List Token} {tree : Tree} (hus : us ⊆ all) (h : Simple us tree) : Kept all tree
  | loop {t : Token} {us start : List Token} {test : Tree} {body : List Tree} (ht : t ∈ all)
      (hus : us ⊆ all) (hg : Guard us test) (hbody : ∀ tree ∈ body, Kept all tree) :
      Kept all (.node ⟨.loop, none, t.position⟩ [test, blockNode start body])
  | conditional {t : Token} {us start : List Token} {test : Tree} {yes : List Tree} (ht : t ∈ all)
      (hus : us ⊆ all) (hg : Guard us test) (hyes : ∀ tree ∈ yes, Kept all tree) :
      Kept all (.node ⟨.conditional, none, t.position⟩ [test, blockNode start yes])
  | alternative {t : Token} {us start start' : List Token} {test : Tree} {yes no : List Tree}
      (ht : t ∈ all) (hus : us ⊆ all) (hg : Guard us test) (hyes : ∀ tree ∈ yes, Kept all tree)
      (hno : ∀ tree ∈ no, Kept all tree) :
      Kept all (.node ⟨.alternative, none, t.position⟩
        [test, blockNode start yes, blockNode start' no])

/-- The tree of a program that was read from the tokens `all`.  The program may have no name, and it
may not end with `terminar`. -/
inductive KeptProgram (all : List Token) : Tree → Prop
  | intro {name : Option Text} {place : Position} {start : List Token} {trees ending : List Tree}
      (hname : ∀ label ∈ name, ∃ t ∈ all, t.kind = .identifier ∧ label = t.text?.getD [])
      (htrees : ∀ tree ∈ trees, Kept all tree)
      (hending : ∀ tree ∈ ending, ∃ t ∈ all, tree = .node ⟨.terminate, none, t.position⟩ []) :
      KeptProgram all (.node ⟨.program, name, place⟩ (blockNode start trees :: ending))

/-! ## Readings of given tokens -/

/-- Of tokens that are among `all`, the part comes to a value as `P` says, and it leaves tokens that
are among `all`. -/
def Reads (all : List Token) (P : α → Prop) (f : List Token → Reading α) : Prop :=
  ∀ ts ⊆ all, ∀ x rest, f ts = .ok (x, rest) → P x ∧ rest ⊆ all

lemma Reads.readThen {P : α → Prop} {Q : β → Prop} {f : List Token → Reading α}
    {g : α → List Token → Reading β} (hf : Reads all P f) (hg : ∀ x, P x → Reads all Q (g x)) :
    Reads all Q (readThen f g) := by
  intro ts hts y rest h
  cases hread : f ts with
  | error s =>
      rw [readThen_error hread] at h
      cases h
  | ok p =>
      rw [readThen_ok hread] at h
      obtain ⟨hp, hleft⟩ := hf ts hts p.1 p.2 hread
      exact hg p.1 hp p.2 hleft y rest h

lemma Reads.runThen {P : α → Prop} {Q : β → Prop} {f : List Token → Run (α × List Token)}
    {g : α → List Token → Run (β × List Token)} (hf : Reads all P (eventually f))
    (hg : ∀ x, P x → Reads all Q (eventually (g x))) : Reads all Q (eventually (runThen f g)) := by
  rw [eventually_runThen]
  exact hf.readThen hg

lemma reads_done {P : α → Prop} {x : α} (h : P x) :
    Reads all P (eventually fun ts => Run.done (x, ts)) := by
  rintro ts hts _ _ ⟨⟩
  exact ⟨h, hts⟩

lemma Lawful.reads {R : List Token → α → Prop} {P : α → Prop} {f : List Token → Reading α}
    (hf : Lawful f R) (h : ∀ us ⊆ all, ∀ x, R us x → P x) :
    Reads all P (eventually (inOneGo f)) := by
  rw [eventually_inOneGo]
  intro ts hts x rest hread
  obtain ⟨us, rfl, hR⟩ := (hf.law ts).sound hread
  rw [List.append_subset] at hts
  exact ⟨h us hts.1 x hR, hts.2⟩

lemma reads_expect (k : Kind) (e : Expectation) :
    Reads all (fun t => t ∈ all ∧ t.kind = k) (eventually (inOneGo (expect k e))) :=
  (lawful_expect k e).reads fun us hus t ⟨heq, hk⟩ => ⟨hus (by simp [heq]), hk⟩

/-! ## Statements -/

/-- The tree of a block in which every statement is kept. -/
def KeptBlock (all : List Token) (tree : Tree) : Prop :=
  ∃ start trees, tree = blockNode start trees ∧ ∀ tree ∈ trees, Kept all tree

/-- Every statement that is read is kept. -/
abbrev ReadsKept (all : List Token) (inside : BlockReader) : Prop :=
  Reads all (fun trees => ∀ tree ∈ trees, Kept all tree) (eventually inside)

section Blocks

variable {inside : BlockReader}

lemma reads_block (hin : ReadsKept all inside) (owner : Word) :
    Reads all (KeptBlock all) (eventually (block inside owner)) := by
  rw [block_eq]
  refine (reads_expect _ _).runThen fun _ _ start hstart => ?_
  exact (hin.runThen fun trees htrees => (reads_expect _ _).runThen fun _ _ =>
    reads_done ⟨start, trees, rfl, htrees⟩) start hstart

lemma reads_guarded (owner : Word) :
    Reads all (fun test => ∃ us ⊆ all, Guard us test) (eventually (inOneGo (guarded owner))) :=
  (lawful_guarded owner).reads fun us hus _ h => ⟨us, hus, h⟩

lemma reads_otherwise (hin : ReadsKept all inside) {t : Token} {us : List Token} {test yes : Tree}
    (ht : t ∈ all) (hus : us ⊆ all) (hg : Guard us test) (hyes : KeptBlock all yes) :
    Reads all (Kept all) (eventually (otherwise inside t test yes)) := by
  obtain ⟨start, yes, rfl, hyes⟩ := hyes
  intro ts hts tree rest h
  unfold eventually otherwise at h
  split at h
  · refine ((reads_block hin .sino).runThen ?_) (ts.drop 1)
      (List.Subset.trans (List.drop_subset 1 ts) hts) tree rest h
    rintro _ ⟨start', no, rfl, hno⟩
    exact reads_done (.alternative ht hus hg hyes hno)
  · cases h
    exact ⟨.conditional ht hus hg hyes, hts⟩

lemma reads_statement (hin : ReadsKept all inside) :
    Reads all (Kept all) (eventually (statement inside)) := by
  intro ts hts tree rest h
  cases ts with
  | nil => cases h
  | cons t us =>
      rw [List.cons_subset] at hts
      cases starts t with
      | simple f hf hstatement =>
          rw [eventually, hstatement] at h
          have hkept : Reads all (Kept all) (eventually (inOneGo f)) :=
            hf.reads fun vs hvs tree hsimple =>
              .simple (List.cons_subset.mpr ⟨hts.1, hvs⟩) hsimple
          exact hkept us hts.2 tree rest h
      | misplaced hstatement =>
          rw [eventually, hstatement] at h
          cases h
      | loop _ hstatement =>
          rw [eventually, hstatement, loop_eq] at h
          refine (reads_guarded .mientras).runThen ?_ us hts.2 tree rest h
          rintro test ⟨vs, hvs, hg⟩
          refine (reads_block hin .mientras).runThen ?_
          rintro _ ⟨start, body, rfl, hbody⟩
          exact reads_done (.loop hts.1 hvs hg hbody)
      | conditional _ hstatement =>
          rw [eventually, hstatement, conditional_eq] at h
          refine (reads_guarded .si).runThen ?_ us hts.2 tree rest h
          rintro test ⟨vs, hvs, hg⟩
          exact (reads_block hin .si).runThen fun yes hyes =>
            reads_otherwise hin hts.1 hvs hg hyes

/-- A broken statement leaves no tree, and it is passed over. -/
lemma reads_turn (hin : ReadsKept all inside) (hdescends : ∀ ts, Descends ts (inside ts)) :
    ReadsKept all (turn inside) := by
  intro ts hts trees rest h
  have hsuffix : rest <:+ ts := ((descends_turn hdescends ts).ok h).suffix_rest
  have hleft : rest ⊆ all := List.Subset.trans hsuffix.subset hts
  rw [eventually, turn] at h
  cases hstatement : (statement inside ts).outcome with
  | ok p =>
      rw [recovered_ok hstatement] at h
      cases h
      have htree := (reads_statement hin ts hts p.1 p.2 hstatement).1
      exact ⟨by simpa using htree, hleft⟩
  | error s =>
      by_cases hs : s.rest = []
      · rw [recovered_fatal hstatement hs] at h
        cases h
      · rw [recovered_broken hstatement hs] at h
        cases h
        exact ⟨by simp, hleft⟩

end Blocks

lemma reads_statementsWithin (turns : Nat) (body : Bool) :
    ReadsKept all (statementsWithin turns body) := by
  induction turns generalizing body with
  | zero => exact reads_done (by simp)
  | succ turns ih =>
      intro ts hts trees rest h
      cases hends : endsStatements body ts with
      | true =>
          rw [eventually, statementsWithin_ends hends] at h
          cases h
          exact ⟨by simp, hts⟩
      | false =>
          rw [eventually, statementsWithin_goesOn hends] at h
          have hturn := reads_turn (ih false) (descends_statementsWithin turns false)
          have hturns : ReadsKept all (runThen (turn (statementsWithin turns false)) fun first =>
              runThen (statementsWithin turns body) fun others rest =>
                Run.done (first ++ others, rest)) :=
            hturn.runThen fun first hfirst => (ih body).runThen fun others hothers =>
              reads_done (List.forall_mem_append.mpr ⟨hfirst, hothers⟩)
          exact hturns ts hts trees rest h

/-- **Every statement that is read is kept**, whatever is broken around it. -/
theorem kept_statements (body : Bool) : ReadsKept all (statements body) :=
  fun ts hts => reads_statementsWithin ts.length body ts hts

/-! ## Programs -/

lemma reads_opening : Reads all
    (fun name => ∀ label ∈ name, ∃ t ∈ all, t.kind = .identifier ∧ label = t.text?.getD [])
    (eventually opening) := by
  intro ts hts name rest h
  have hsuffix : rest <:+ ts := ((descends_opening ts).ok h).suffix_rest
  refine ⟨?_, List.Subset.trans hsuffix.subset hts⟩
  unfold eventually opening at h
  split at h
  · rename_i hheading
    cases h
    obtain ⟨us, rfl, p, n, o, c, b, rfl, -, hn, -, -, -, rfl⟩ :=
      (lawful_heading.law _).sound hheading
    have hmem : n ∈ all := hts (by simp)
    simpa using ⟨n, hmem, hn, rfl⟩
  · rename_i s _
    -- the name is lost, whatever is found behind the heading
    by_cases hs : s.rest = []
    · rw [passOver_fatal hs] at h
      cases h
    · rw [passOver_of_ne hs] at h
      cases hfound : behindOpenBrace s.rest with
      | error s' =>
          rw [hfound] at h
          cases h
      | ok us =>
          rw [hfound] at h
          cases h
          simp

lemma reads_terminate : Reads all
    (fun trees => ∀ tree ∈ trees, ∃ t ∈ all, tree = .node ⟨.terminate, none, t.position⟩ [])
    (eventually terminate) := by
  intro ts hts trees rest h
  have hsuffix : rest <:+ ts := ((descends_terminate ts).ok h).suffix_rest
  refine ⟨?_, List.Subset.trans hsuffix.subset hts⟩
  unfold eventually terminate at h
  split at h
  · rename_i t us hexpect
    obtain ⟨vs, rfl, rfl, -⟩ := ((lawful_expect _ _).law _).sound hexpect
    have hmem : t ∈ all := hts (by simp)
    cases hsemi : (terminateSemicolon us).outcome with
    | error s =>
        simp only [bind, Run.andThen, hsemi] at h
        cases h
    | ok ws =>
        simp only [bind, Run.andThen, hsemi] at h
        cases h
        simpa using ⟨t, hmem, rfl⟩
  · rename_i s _
    by_cases hs : s.rest = []
    · rw [passOver_fatal hs] at h
      cases h
    · rw [passOver_of_ne hs] at h
      cases h
      simp

lemma reads_leave : Reads all (fun _ => True) (eventually leave) := by
  intro ts hts _ rest h
  have hsuffix : rest <:+ ts := ((descends_leave ts).ok h).suffix_rest
  exact ⟨trivial, List.Subset.trans hsuffix.subset hts⟩

/-- **The tree of a program** is a heading and an end around statements that are kept. -/
theorem program_kept {ts : List Token} {tree : Tree} (h : (program ts).outcome = .ok tree) :
    KeptProgram ts tree := by
  have hclose : Reads ts (KeptProgram ts)
      (eventually (runThen opening (bodyThroughClose (nextPosition ts)))) := by
    refine reads_opening.runThen fun name hname start hstart => ?_
    exact ((kept_statements true).runThen fun trees htrees => reads_terminate.runThen
      fun ending hending => reads_leave.runThen fun _ _ =>
      reads_done (.intro hname htrees hending)) start hstart
  cases hthrough : (throughClose ts).outcome with
  | error s =>
      rw [program_of_error hthrough] at h
      cases h
  | ok p =>
      rw [program_of_ok hthrough] at h
      cases h
      exact (hclose ts (List.Subset.refl ts) p.1 p.2 hthrough).1

end Imperativo.Grammar
