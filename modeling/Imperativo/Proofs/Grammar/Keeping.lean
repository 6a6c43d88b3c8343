import Imperativo.Proofs.Grammar.Ordinary
import Imperativo.Proofs.Tree.Promise

/-!
# What is read keeps its promises

The trees of phrases keep their promises, by induction on the phrase.  A loop or a conditional that
is kept may have broken statements in its blocks, so it need not be a phrase; its blocks have only
statements that were kept as well, so what a list of statements brings is settled by induction on
the turns of the loop that reads it (`Brings`).

* **`brings_statements`** — whatever is broken in a list of statements, those that are read keep
  their promises, and no stop on the way is about a missing `terminar`.
-/

namespace Imperativo.Grammar

open Phrase

variable {α β : Type} {ended named : Prop}

/-- The tree keeps its promises, and its kind is one of those that `p` marks. -/
structure Keeping (ended named : Prop) (p : NodeKind → Bool) (tree : Tree) : Prop where
  keeps : tree.Keeps ended named
  kind : p tree.kind = true

/-! ## Phrases -/

lemma Keeping.leaf {p : NodeKind → Bool} {kind : NodeKind} {label : Text}
    (h : Promised ended named kind (some label) []) (hkind : p kind = true) (place : Position) :
    Keeping ended named p (.leaf kind label place) :=
  ⟨.node h nofun, hkind⟩

lemma keeping_operandLeaf? {t : Token} {tree : Tree} (h : operandLeaf? t = some tree) :
    Keeping ended named NodeKind.isExpression tree := by
  unfold operandLeaf? at h
  split at h
  · cases h; exact .leaf (.number _) rfl _
  · cases h; exact .leaf (.number _) rfl _
  · cases h; exact .leaf (.variable _) rfl _
  · cases h

lemma keeping_variableLeaf (t : Token) :
    Keeping ended named (· == .variable) (variableLeaf t) :=
  .leaf (.variable _) rfl _

lemma keeping_nameLeaf? {t : Token} {tree : Tree} (h : nameLeaf? t = some tree) :
    Keeping ended named (· == .variable) tree := by
  unfold nameLeaf? at h
  split at h
  · cases h; exact keeping_variableLeaf t
  · cases h

lemma keeping_contentLeaf? {t : Token} {tree : Tree} (h : contentLeaf? t = some tree) :
    Keeping ended named (· == .content) tree := by
  unfold contentLeaf? at h
  split at h
  · cases h; exact .leaf (.content _) rfl _
  · cases h; exact .leaf (.content _) rfl _
  · cases h

/-- The heading makes a node of kinds that `p` marks out of two of them. -/
def Pairs (ended named : Prop) (p : NodeKind → Bool) (heading : Heading) : Prop :=
  ∀ {l r : NodeKind}, p l = true → p r = true →
    Promised ended named heading.kind heading.label [l, r] ∧ p heading.kind = true

lemma Keeping.join {p : NodeKind → Bool} {heading : Heading} {l r : Tree}
    (h : Pairs ended named p heading) (hl : Keeping ended named p l)
    (hr : Keeping ended named p r) : Keeping ended named p (.node heading [l, r]) := by
  obtain ⟨hpromised, hkind⟩ := h hl.kind hr.kind
  exact ⟨.node hpromised (by simpa using ⟨hl.keeps, hr.keeps⟩), hkind⟩

lemma Phrase.Chain.keeping {join? : Token → Option Heading} {Item : List Token → Tree → Prop}
    {p : NodeKind → Bool}
    (hjoin : ∀ {t heading}, join? t = some heading → Pairs ended named p heading)
    (hitem : ∀ {ts tree}, Item ts tree → Keeping ended named p tree) {ts : List Token} {tree : Tree}
    (h : Chain join? Item ts tree) : Keeping ended named p tree := by
  induction h with
  | item h => exact hitem h
  | join _ hop hr ih => exact .join (hjoin hop) ih (hitem hr)

lemma pairs_binary (op : Arithmetic) (place : Position) :
    Pairs ended named NodeKind.isExpression ⟨.binary op, none, place⟩ :=
  fun hl hr => ⟨.binary op hl hr, rfl⟩

lemma Phrase.Expression.keeping {ts : List Token} {tree : Tree} (h : Expression ts tree) :
    Keeping ended named NodeKind.isExpression tree := by
  refine Chain.keeping (fun {t heading} ht => ?_) (Chain.keeping (fun {t heading} ht => ?_) ?_) h
  · obtain ⟨op, -, -, rfl⟩ := joinSum?_some ht
    exact pairs_binary op t.position
  · obtain ⟨op, -, -, rfl⟩ := joinTerm?_some ht
    exact pairs_binary op t.position
  · rintro ts tree ⟨t, rfl, ht⟩
    exact keeping_operandLeaf? ht

lemma Phrase.Comparison.keeping {ts : List Token} {tree : Tree} (h : Comparison ts tree) :
    Keeping ended named NodeKind.isCondition tree := by
  cases h with
  | @intro us vs l r t op hl _ hr =>
      have hl' : Keeping ended named NodeKind.isExpression l := hl.keeping
      have hr' : Keeping ended named NodeKind.isExpression r := hr.keeping
      exact ⟨.node (.comparison op hl'.kind hr'.kind) (by simpa using ⟨hl'.keeps, hr'.keeps⟩), rfl⟩

lemma pairs_joinCondition? {tight : Bool} {t : Token} {heading : Heading}
    (h : joinCondition? tight t = some heading) :
    Pairs ended named NodeKind.isCondition heading := by
  obtain ⟨op, -, -, rfl⟩ := joinCondition?_some h
  exact fun hl hr => ⟨.combination op hl hr, rfl⟩

lemma Phrase.Condition.keeping {ts : List Token} {tree : Tree} (h : Condition ts tree) :
    Keeping ended named NodeKind.isCondition tree :=
  Chain.keeping pairs_joinCondition? (Chain.keeping pairs_joinCondition? Comparison.keeping) h

lemma Phrase.Guard.keeping {ts : List Token} {tree : Tree} (h : Guard ts tree) :
    Keeping ended named NodeKind.isCondition tree := by
  obtain ⟨-, h, -⟩ := h
  exact h.keeping

lemma Phrase.More.keeping {leaf? : Token → Option Tree} {p : NodeKind → Bool}
    (hleaf : ∀ {t tree}, leaf? t = some tree → Keeping ended named p tree) {ts : List Token}
    {trees : List Tree} (h : More leaf? ts trees) : ∀ tree ∈ trees, Keeping ended named p tree := by
  induction h with
  | nil => exact nofun
  | cons _ ht _ ih => exact List.forall_mem_cons.mpr ⟨hleaf ht, ih⟩

lemma kinds_of_keeping {kind : NodeKind} {trees : List Tree}
    (h : ∀ tree ∈ trees, Keeping ended named (· == kind) tree) :
    ∀ k ∈ trees.map Tree.kind, k = kind := by
  intro k hk
  obtain ⟨tree, htree, rfl⟩ := List.mem_map.mp hk
  exact eq_of_beq (h tree htree).kind

lemma Phrase.Simple.keeping {ts : List Token} {tree : Tree} (h : Simple ts tree) :
    Keeping ended named NodeKind.isStatement tree := by
  have hscalar : ∀ (type : Scalar) (place : Position),
      (Tree.leaf .scalar type.spelling.toList place).Keeps ended named :=
    fun type place => .node (.scalar type) nofun
  cases h with
  | @initialization _ _ _ _ _ value _ _ _ _ h _ =>
      have hvalue : Keeping ended named NodeKind.isExpression value := h.keeping
      refine ⟨.node (.initialization hvalue.kind) ?_, rfl⟩
      simpa using ⟨hscalar _ _, (keeping_variableLeaf _).keeps, hvalue.keeps⟩
  | @declaration _ t name _ names _ _ _ h _ =>
      have hnames : ∀ tree ∈ variableLeaf name :: names,
          Keeping ended named (· == .variable) tree :=
        List.forall_mem_cons.mpr ⟨keeping_variableLeaf name, h.keeping keeping_nameLeaf?⟩
      refine ⟨.node (.declaration (by simp) (kinds_of_keeping hnames)) ?_, rfl⟩
      exact List.forall_mem_cons.mpr ⟨hscalar _ _, fun tree htree => (hnames tree htree).keeps⟩
  | @assignment _ _ _ value _ _ _ h _ =>
      have hvalue : Keeping ended named NodeKind.isExpression value := h.keeping
      exact ⟨.node (.assignment _ hvalue.kind) (by simpa using hvalue.keeps), rfl⟩
  | @print _ _ _ _ first others _ _ _ _ ha h _ _ =>
      have harguments : ∀ tree ∈ first :: others, Keeping ended named (· == .content) tree :=
        List.forall_mem_cons.mpr ⟨keeping_contentLeaf? ha, h.keeping keeping_contentLeaf?⟩
      refine ⟨.node (.print (by simp) (kinds_of_keeping harguments)) ?_, rfl⟩
      exact fun tree htree => (harguments tree htree).keeps
  | read _ _ _ =>
      exact ⟨.node .read (by simpa using (keeping_variableLeaf _).keeps), rfl⟩

/-! ## Runs -/

/-- What the run comes to is as `P` says, and none of its stops is about a missing `terminar`. -/
structure Brings (P : α → Prop) (r : Run α) : Prop where
  value : ∀ x, r.outcome = .ok x → P x
  passed : ∀ s ∈ r.passed, s.fault ≠ .missingTerminate
  stop : ∀ s, r.outcome = .error s → s.fault ≠ .missingTerminate

lemma brings_done {P : α → Prop} {x : α} (h : P x) : Brings P (Run.done x) :=
  ⟨by rintro _ ⟨⟩; exact h, nofun, nofun⟩

lemma brings_stopped {P : α → Prop} {s : Stop} (h : s.fault ≠ .missingTerminate) :
    Brings P (Run.stopped s) :=
  ⟨nofun, nofun, by rintro _ ⟨⟩; exact h⟩

lemma brings_passOver {s : Stop} (h : s.fault ≠ .missingTerminate) :
    Brings (fun _ => True) (Run.passOver s) := by
  by_cases hs : s.rest = []
  · rw [passOver_fatal hs]
    exact brings_stopped h
  · rw [passOver_of_ne hs]
    exact ⟨fun _ _ => trivial, by simpa using h, nofun⟩

lemma Brings.bind {P : α → Prop} {Q : β → Prop} {r : Run α} {g : α → Run β} (hr : Brings P r)
    (hg : ∀ x, P x → Brings Q (g x)) : Brings Q (r >>= g) := by
  change Brings Q (Run.andThen r g)
  cases h : r.outcome with
  | error s =>
      simp only [Run.andThen, h]
      exact ⟨by rintro _ ⟨⟩, hr.passed, by rintro _ ⟨⟩; exact hr.stop s h⟩
  | ok x =>
      have hx := hg x (hr.value x h)
      simp only [Run.andThen, h]
      exact ⟨hx.value, fun s hs => (List.mem_append.mp hs).elim (hr.passed s) (hx.passed s),
        hx.stop⟩

lemma brings_inOneGo {f : List Token → Reading α} {R : List Token → α → Prop} {P : α → Prop}
    (hf : Lawful f R) (hstop : Ordinary f) (h : ∀ {us x}, R us x → P x) (ts : List Token) :
    Brings (fun p => P p.1) (inOneGo f ts) := by
  rw [inOneGo]
  cases hts : f ts with
  | error s => exact brings_stopped (hstop.ne_missingTerminate hts)
  | ok p =>
      obtain ⟨us, -, hR⟩ := (hf.law ts).sound hts
      exact brings_done (h hR)

lemma brings_expect (k : Kind) {e : Expectation} (he : isExceptional e.fault = false)
    (ts : List Token) : Brings (fun _ => True) (inOneGo (expect k e) ts) :=
  brings_inOneGo (P := fun _ => True) (lawful_expect k e) (ordinary_expect he) (fun _ => trivial) ts

/-! ## Statements with blocks -/

/-- The run comes to a tree with promises kept, of a kind that `p` marks. -/
abbrev BringsTree (ended named : Prop) (p : NodeKind → Bool) : Run (Tree × List Token) → Prop :=
  Brings fun x => Keeping ended named p x.1

/-- The run comes to statements with promises kept. -/
abbrev BringsStatements (ended named : Prop) : Run (List Tree × List Token) → Prop :=
  Brings fun x => ∀ tree ∈ x.1, Keeping ended named NodeKind.isStatement tree

lemma keeping_blockNode {trees : List Tree}
    (h : ∀ tree ∈ trees, Keeping ended named NodeKind.isStatement tree) (ts : List Token) :
    Keeping ended named (· == .block) (blockNode ts trees) := by
  refine ⟨.node (.block fun kind hkind => ?_) fun tree htree => (h tree htree).keeps, rfl⟩
  obtain ⟨tree, htree, rfl⟩ := List.mem_map.mp hkind
  exact (h tree htree).kind

section Blocks

variable {inside : BlockReader}

lemma brings_block (hin : ∀ ts, BringsStatements ended named (inside ts)) (owner : Word)
    (ts : List Token) : BringsTree ended named (· == .block) (block inside owner ts) := by
  rw [block_eq]
  exact (brings_expect _ (by rfl) ts).bind fun x _ => (hin x.2).bind fun _ htrees =>
    (brings_expect _ (by rfl) _).bind fun _ _ => brings_done (keeping_blockNode htrees x.2)

lemma brings_guarded (owner : Word) (ts : List Token) :
    BringsTree ended named NodeKind.isCondition (inOneGo (guarded owner) ts) :=
  brings_inOneGo (lawful_guarded owner) (ordinary_guarded owner) Guard.keeping ts

lemma keeping_loop {test body : Tree} (htest : Keeping ended named NodeKind.isCondition test)
    (hbody : Keeping ended named (· == .block) body) (place : Position) :
    Keeping ended named NodeKind.isStatement (.node ⟨.loop, none, place⟩ [test, body]) := by
  refine ⟨.node ?_ (by simpa using ⟨htest.keeps, hbody.keeps⟩), rfl⟩
  rw [List.map_cons, List.map_singleton, eq_of_beq hbody.kind]
  exact .loop htest.kind

lemma keeping_conditional {test yes : Tree} (htest : Keeping ended named NodeKind.isCondition test)
    (hyes : Keeping ended named (· == .block) yes) (place : Position) :
    Keeping ended named NodeKind.isStatement (.node ⟨.conditional, none, place⟩ [test, yes]) := by
  refine ⟨.node ?_ (by simpa using ⟨htest.keeps, hyes.keeps⟩), rfl⟩
  rw [List.map_cons, List.map_singleton, eq_of_beq hyes.kind]
  exact .conditional htest.kind

lemma keeping_alternative {test yes no : Tree}
    (htest : Keeping ended named NodeKind.isCondition test)
    (hyes : Keeping ended named (· == .block) yes) (hno : Keeping ended named (· == .block) no)
    (place : Position) :
    Keeping ended named NodeKind.isStatement
      (.node ⟨.alternative, none, place⟩ [test, yes, no]) := by
  refine ⟨.node ?_ (by simpa using ⟨htest.keeps, hyes.keeps, hno.keeps⟩), rfl⟩
  rw [List.map_cons, List.map_cons, List.map_singleton, eq_of_beq hyes.kind, eq_of_beq hno.kind]
  exact .alternative htest.kind

lemma brings_otherwise (hin : ∀ ts, BringsStatements ended named (inside ts)) (t : Token)
    {test yes : Tree} (htest : Keeping ended named NodeKind.isCondition test)
    (hyes : Keeping ended named (· == .block) yes) (ts : List Token) :
    BringsTree ended named NodeKind.isStatement (otherwise inside t test yes ts) := by
  unfold otherwise
  split
  · exact (brings_block hin _ _).bind fun _ hno =>
      brings_done (keeping_alternative htest hyes hno t.position)
  · exact brings_done (keeping_conditional htest hyes t.position)

lemma brings_statement (hin : ∀ ts, BringsStatements ended named (inside ts)) (ts : List Token) :
    BringsTree ended named NodeKind.isStatement (statement inside ts) := by
  cases ts with
  | nil => exact brings_stopped (by nofun)
  | cons t rest =>
      cases starts t with
      | simple f hf h =>
          rw [h]
          exact brings_inOneGo hf (usual_of_simple hf h).ordinary Simple.keeping rest
      | misplaced h =>
          rw [h]
          exact brings_stopped (fault_misplaced _)
      | loop _ h =>
          rw [h, loop_eq]
          exact (brings_guarded _ rest).bind fun _ htest => (brings_block hin _ _).bind
            fun _ hbody => brings_done (keeping_loop htest hbody t.position)
      | conditional _ h =>
          rw [h, conditional_eq]
          exact (brings_guarded _ rest).bind fun _ htest => (brings_block hin _ _).bind
            fun _ hyes => brings_otherwise hin t htest hyes _

/-- A broken statement leaves no tree. -/
lemma brings_turn (hin : ∀ ts, BringsStatements ended named (inside ts)) (ts : List Token) :
    BringsStatements ended named (turn inside ts) := by
  have hstatement := brings_statement hin ts
  rw [turn]
  cases h : (statement inside ts).outcome with
  | ok p =>
      rw [recovered_ok h]
      refine ⟨?_, hstatement.passed, by rintro _ ⟨⟩⟩
      rintro _ ⟨⟩
      simpa using hstatement.value p h
  | error s =>
      have hfault := hstatement.stop s h
      by_cases hs : s.rest = []
      · rw [recovered_fatal h hs]
        exact ⟨by rintro _ ⟨⟩, hstatement.passed, by rintro _ ⟨⟩; exact hfault⟩
      · rw [recovered_broken h hs]
        refine ⟨by rintro _ ⟨⟩; exact List.forall_mem_nil _, fun s' hs' => ?_, by rintro _ ⟨⟩⟩
        rcases List.mem_append.mp hs' with hs' | hs'
        · exact hstatement.passed s' hs'
        · rw [List.mem_singleton.mp hs']
          exact hfault

end Blocks

lemma brings_statementsWithin (turns : Nat) (body : Bool) (ts : List Token) :
    BringsStatements ended named (statementsWithin turns body ts) := by
  induction turns generalizing body ts with
  | zero => exact brings_done (by nofun)
  | succ turns ih =>
      cases h : endsStatements body ts with
      | true =>
          rw [statementsWithin_ends h]
          exact brings_done (by nofun)
      | false =>
          rw [statementsWithin_goesOn h]
          exact (brings_turn (ih false) ts).bind fun _ hfirst => (ih body _).bind
            fun _ hothers => brings_done (List.forall_mem_append.mpr ⟨hfirst, hothers⟩)

/-- **Whatever is broken in a list of statements, those that are read keep their promises.** -/
theorem brings_statements (body : Bool) (ts : List Token) :
    BringsStatements ended named (statements body ts) :=
  brings_statementsWithin _ _ _

end Imperativo.Grammar
