import Imperativo.Proofs.Grammar.Production

/-!
# Statements without blocks are read as the grammar says

Declarations, assignments, print and read statements are sequences of tokens, lists and expressions,
so their laws are those of their parts in a row.  Only a declaration looks ahead: behind its first
name it either reads a value or goes on with names.
-/

namespace Imperativo.Grammar

open Phrase

/-! ## The end of a statement -/

/-- The semicolon that completes a statement whose tree is `tree`. -/
def Finish (tree : Tree) : List Token → Tree → Prop :=
  Then (OfKind (.sign .semicolon)) fun _ => Pure tree

lemma finish_iff {tree : Tree} {us : List Token} {x : Tree} :
    Finish tree us x ↔ ∃ semi, us = [semi] ∧ semi.kind = .sign .semicolon ∧ x = tree := by
  constructor
  · rintro ⟨_, _, semi, rfl, ⟨rfl, hsemi⟩, rfl, rfl⟩
    exact ⟨semi, rfl, hsemi, rfl⟩
  · rintro ⟨semi, rfl, hsemi, rfl⟩
    exact ⟨[semi], [], semi, rfl, ⟨rfl, hsemi⟩, rfl, rfl⟩

lemma finishWith_eq (e : Expectation) (tree : Tree) :
    finishWith e tree = readThen (expect (.sign .semicolon) e) fun _ ts => .ok (tree, ts) := rfl

lemma lawful_finishWith (e : Expectation) (tree : Tree) :
    Lawful (finishWith e tree) (Finish tree) :=
  (lawful_expect (.sign .semicolon) e).bind fun _ => lawful_pure tree

lemma finishWith_ok {e : Expectation} {tree : Tree} {semi : Token}
    (h : semi.kind = .sign .semicolon)
    (rest : List Token) : finishWith e tree (semi :: rest) = .ok (tree, rest) := by
  rw [finishWith_eq, readThen_ok (expect_ok h rest)]

/-! ## Lists of leaves -/

section Leaves

variable {leaf? : Token → Option Tree} {e : Expectation}

lemma moreLeaves_other {t : Token} (h : t.kind ≠ .sign .comma) (rest : List Token) :
    moreLeaves leaf? e (t :: rest) = .ok ([], t :: rest) := by
  unfold moreLeaves
  rw [if_neg h]

lemma moreLeaves_comma {t : Token} (h : t.kind = .sign .comma) (rest : List Token) :
    moreLeaves leaf? e (t :: rest) = readThen (leafRead leaf? e) (fun leaf =>
      readThen (moreLeaves leaf? e) fun leaves ts => .ok (leaf :: leaves, ts)) rest := by
  cases rest with
  | nil => rw [moreLeaves, if_pos h]; rfl
  | cons u behind =>
      rw [moreLeaves, if_pos h]
      cases hu : leaf? u with
      | none =>
          have hread : leafRead leaf? e (u :: behind) = .error (.before e (u :: behind)) := by
            rw [leafRead, hu]
          rw [readThen_error hread]
      | some leaf =>
          have hread : leafRead leaf? e (u :: behind) = .ok (leaf, behind) := by rw [leafRead, hu]
          rw [readThen_ok hread]
          simp only
          split <;> rename_i hmore
          · rw [readThen_error hmore]
          · rw [readThen_ok hmore]

lemma left_moreLeaves_le (ts : List Token) : (left (moreLeaves leaf? e ts)).length ≤ ts.length := by
  fun_induction moreLeaves leaf? e ts with
  | case1 => exact Nat.le_refl _
  | case2 t _ => exact Nat.zero_le _
  | case3 t _ u behind _ => exact Nat.le_succ _
  | case4 t _ u behind leaf _ s hmore ih =>
      rw [hmore] at ih
      simp only [left_error, List.length_cons] at ih ⊢
      omega
  | case5 t _ u behind leaf _ leaves rest hmore ih =>
      rw [hmore] at ih
      simp only [left_ok, List.length_cons] at ih ⊢
      omega
  | case6 t rest _ => exact Nat.le_refl _

lemma lawful_moreLeaves (hleaf : Lawful (leafRead leaf? e) (Leaf leaf?)) :
    Lawful (moreLeaves leaf? e) (More leaf?) := by
  refine ⟨⟨[], [], .nil⟩, fun ts => ?_⟩
  induction hn : ts.length using Nat.strong_induction_on generalizing ts with
  | _ n ih =>
      cases ts with
      | nil => exact .nil_ok (by rw [moreLeaves]) left_moreLeaves_le .nil
      | cons t rest =>
          by_cases ht : t.kind = .sign .comma
          · refine .cons (moreLeaves_comma ht) ((hleaf.law rest).bind
              (S := fun leaf => Then (More leaf?) fun leaves => Pure (leaf :: leaves))
                (fun {leaf us} hread => ?_)
              (fun leaf us => left_readThen_le (left_moreLeaves_le us) fun _ _ => Nat.le_refl _)
              fun leaf => ⟨[], [leaf], [], [], [], rfl, .nil, rfl, rfl⟩) ?_
            · have hlt := length_of_leafRead hread
              refine (ih us.length ?_ us rfl).bind (fun _ => (lawful_pure _).law _)
                (fun _ _ => Nat.le_refl _) fun leaves => ⟨[], _, rfl, rfl⟩
              rw [← hn, List.length_cons]
              omega
            · rintro _ _ ⟨_, _, leaf, rfl, ⟨u, rfl, hu⟩, us, _, leaves, rfl, h, rfl, rfl⟩
              rw [List.append_nil]
              exact .cons ht hu h
          · exact .cons_ok (moreLeaves_other ht) .nil rest

/-- What continues a list of leaves. -/
def continuesLeaves : Kind → Bool
  | .sign .comma => true
  | _ => false

lemma complete_moreLeaves : Complete (moreLeaves leaf? e) (More leaf?) continuesLeaves := by
  intro us leaves rest h hrest
  induction h with
  | nil =>
      cases rest with
      | nil => rfl
      | cons t rest =>
          rw [apart_cons] at hrest
          refine moreLeaves_other (fun ht => ?_) rest
          rw [ht] at hrest
          cases hrest
  | @cons comma t us leaf leaves hc ht _ ih =>
      rw [List.cons_append, List.cons_append, moreLeaves_comma hc,
        readThen_ok (show leafRead leaf? e (t :: (us ++ rest)) = .ok (leaf, us ++ rest) by
          rw [leafRead, ht]),
        readThen_ok ih]

end Leaves

lemma lawful_names : Lawful (moreLeaves nameLeaf? .nextName) (More nameLeaf?) :=
  lawful_moreLeaves (lawful_leafRead _ ⟨⟨.identifier, none, Position.start⟩, _, rfl⟩)

lemma lawful_contents : Lawful (moreLeaves contentLeaf? .printArgument) (More contentLeaf?) :=
  lawful_moreLeaves (lawful_leafRead _ ⟨⟨.identifier, none, Position.start⟩, _, rfl⟩)

/-! ## Declarations -/

/-- The tree of a declaration without a value. -/
def declarationTree (type : Scalar) (t name : Token) (names : List Tree) : Tree :=
  .node ⟨.declaration, none, t.position⟩
    (.leaf .scalar type.spelling.toList t.position :: variableLeaf name :: names)

/-- The tree of a declaration with a value. -/
def initializationTree (type : Scalar) (t name : Token) (value : Tree) : Tree :=
  .node ⟨.initialization, none, t.position⟩
    [.leaf .scalar type.spelling.toList t.position, variableLeaf name, value]

/-- Reads the end of a list of declared names, behind which a value or a name without a comma is
refused. -/
def finishNames (tree : Tree) (ts : List Token) : Reading Tree :=
  Except.bind (refuseBehindNames ts) fun _ => finishWith .declarationSemicolon tree ts

lemma finishNames_of_ok {tree : Tree} {ts : List Token} (h : refuseBehindNames ts = .ok ()) :
    finishNames tree ts = finishWith .declarationSemicolon tree ts := by
  rw [finishNames, h]
  rfl

lemma finishNames_ok {tree : Tree} {semi : Token} (h : semi.kind = .sign .semicolon)
    (rest : List Token) : finishNames tree (semi :: rest) = .ok (tree, rest) := by
  rw [finishNames_of_ok (by simp only [refuseBehindNames, h]), finishWith_ok h]

lemma lawful_finishNames (tree : Tree) : Lawful (finishNames tree) (Finish tree) := by
  refine Lawful.ofHead (lawful_finishWith .declarationSemicolon tree).phrase
    ⟨.declarationSemicolon, rfl⟩ fun t => ?_
  by_cases hsemi : t.kind = .sign .semicolon
  · refine .inr ⟨_, _, lawful_pure tree, finishNames_ok hsemi, ?_⟩
    rintro us x ⟨rfl, rfl⟩
    exact finish_iff.mpr ⟨t, rfl, hsemi, rfl⟩
  · refine .inl ?_
    cases ht : t.kind with
    | assign =>
        refine .intro (e := .singleInitialization) fun rest => ?_
        simp only [finishNames, refuseBehindNames, ht]
        rfl
    | identifier =>
        refine .intro (e := .commaBetweenNames) fun rest => ?_
        simp only [finishNames, refuseBehindNames, ht]
        rfl
    | _ =>
        refine .intro (e := .declarationSemicolon) fun rest => ?_
        rw [finishNames_of_ok (by simp only [refuseBehindNames, ht]), finishWith_eq,
          readThen_error (expect_error hsemi rest)]

/-- Reads what follows the first name of a declaration. -/
def behindName (type : Scalar) (t name : Token) : List Token → Reading Tree
  | [] => .error (.before .declarationSemicolon [])
  | sign :: rest =>
    if sign.kind = .assign then
      readThen (value .declaredValue).read
        (fun v => finishWith .declarationSemicolon (initializationTree type t name v)) rest
    else
      readThen (moreLeaves nameLeaf? .nextName)
        (fun names => finishNames (declarationTree type t name names)) (sign :: rest)

/-- Where no value follows, names do. -/
lemma behindName_names {type : Scalar} {t name : Token} {ts : List Token} (hne : ts ≠ [])
    (h : Apart (· == .assign) ts) :
    behindName type t name ts = readThen (moreLeaves nameLeaf? .nextName)
      (fun names => finishNames (declarationTree type t name names)) ts := by
  cases ts with
  | nil => exact absurd rfl hne
  | cons sign rest =>
      rw [apart_cons, beq_eq_false_iff_ne] at h
      rw [behindName, if_neg h]

lemma declaration_eq (type : Scalar) (t : Token) : declaration type t =
    readThen (expect .identifier (.declaredName type)) (behindName type t) := by
  funext ts
  unfold declaration
  cases h : expect .identifier (.declaredName type) ts with
  | error s => rw [readThen_error h]; rfl
  | ok p =>
      obtain ⟨name, rest⟩ := p
      rw [readThen_ok h]
      cases rest with
      | nil => rfl
      | cons sign rest => rfl

lemma lawful_behindName {type : Scalar} {t : Token} (ht : t.kind = .scalar type) (name : Token) :
    Lawful (behindName type t name) fun us tree => name.kind = .identifier →
    Simple (t :: name :: us) tree := by
  have hlist : Lawful (readThen (moreLeaves nameLeaf? .nextName)
      fun names => finishNames (declarationTree type t name names))
      fun us tree => name.kind = .identifier → Simple (t :: name :: us) tree := by
    refine (lawful_names.bind fun names => lawful_finishNames _).mono ?_
    rintro _ _ ⟨us, _, names, rfl, h, hfinish⟩ hname
    obtain ⟨semi, rfl, hsemi, rfl⟩ := finish_iff.mp hfinish
    exact .declaration ht hname h hsemi
  refine .of_cons hlist.phrase (.inl ⟨_, rfl⟩) fun sign rest => ?_
  by_cases hs : sign.kind = .assign
  · refine .cons (fun rest => by rw [behindName, if_pos hs])
      (((lawful_value .declaredValue).bind fun v => lawful_finishWith _ _).law rest) ?_
    rintro _ _ ⟨us, _, v, rfl, h, hfinish⟩ hname
    obtain ⟨semi, rfl, hsemi, rfl⟩ := finish_iff.mp hfinish
    exact .initialization ht hname hs h hsemi
  · exact .of_eq (fun rest => by rw [behindName, if_neg hs]) (hlist.law _)

lemma lawful_declaration {type : Scalar} {t : Token} (ht : t.kind = .scalar type) :
    Lawful (declaration type t) fun us tree => Simple (t :: us) tree := by
  rw [declaration_eq]
  refine ((lawful_expect _ _).bind fun name => lawful_behindName ht name).mono ?_
  rintro _ _ ⟨_, us, name, rfl, ⟨rfl, hname⟩, h⟩
  exact h hname

/-! ## Assignments, print and read statements -/

lemma assignment_eq (t : Token) : assignment t =
    readThen (expect .assign (.assignSign (t.text?.getD []))) fun _ => readThen
    (value .assignedValue).read fun v => finishWith .assignmentSemicolon
        (.node ⟨.assignment, some (t.text?.getD []), t.position⟩ [v]) := rfl

lemma lawful_assignment {t : Token} (ht : t.kind = .identifier) :
    Lawful (assignment t) fun us tree => Simple (t :: us) tree := by
  rw [assignment_eq]
  refine ((lawful_expect _ _).bind fun _ => (lawful_value _).bind fun v =>
    lawful_finishWith _ _).mono ?_
  rintro _ _ ⟨_, _, sign, rfl, ⟨rfl, hs⟩, us, _, v, rfl, h, hfinish⟩
  obtain ⟨semi, rfl, hsemi, rfl⟩ := finish_iff.mp hfinish
  exact .assignment ht hs h hsemi

lemma print_eq (t : Token) : print t =
    readThen (expect (.sign .openParen) .printOpenParen) fun _ => readThen
    (leafRead contentLeaf? .printArgument)
      fun first => readThen (moreLeaves contentLeaf? .printArgument) fun others =>
        readThen (expect (.sign .closeParen) .printCloseParen) fun _ =>
          finishWith .printSemicolon (.node ⟨.print, none, t.position⟩ (first :: others)) := rfl

lemma lawful_print {t : Token} (ht : t.kind = .word .imprimir) :
    Lawful (print t) fun us tree => Simple (t :: us) tree := by
  rw [print_eq]
  refine ((lawful_expect _ _).bind fun _ => (lawful_leafRead .printArgument
    ⟨⟨.identifier, none, Position.start⟩, _, rfl⟩).bind fun first => lawful_contents.bind
      fun others => (lawful_expect _ _).bind fun _ => lawful_finishWith _ _).mono ?_
  rintro _ _ ⟨_, _, o, rfl, ⟨rfl, ho⟩, _, _, first, rfl, ⟨a, rfl, ha⟩, us, _, others, rfl, h, _, _,
    c, rfl, ⟨rfl, hc⟩, hfinish⟩
  obtain ⟨semi, rfl, hsemi, rfl⟩ := finish_iff.mp hfinish
  exact .print ht ho ha h hc hsemi

lemma read_eq (t : Token) : read t = readThen (expect .identifier .readName) fun name =>
    finishWith .readSemicolon (.node ⟨.read, none, t.position⟩ [variableLeaf name]) := rfl

lemma lawful_read {t : Token} (ht : t.kind = .word .leer) :
    Lawful (read t) fun us tree => Simple (t :: us) tree := by
  rw [read_eq]
  refine ((lawful_expect _ _).bind fun name => lawful_finishWith _ _).mono ?_
  rintro _ _ ⟨_, _, name, rfl, ⟨rfl, hn⟩, hfinish⟩
  obtain ⟨semi, rfl, hsemi, rfl⟩ := finish_iff.mp hfinish
  exact .read ht hn hsemi

/-! ## All of them -/

/-- Every statement without blocks is read as its tree, whatever follows it. -/
theorem statement_simple {ts : List Token} {tree : Tree} (h : Simple ts tree) (inside : BlockReader)
    (rest : List Token) : statement inside (ts ++ rest) = Run.done (tree, rest) := by
  cases h with
  | @initialization type t name sign us v semi ht hn hs h hsemi =>
      have hvalue := complete_value .declaredValue (semi :: rest) h (by rw [apart_cons, hsemi]; rfl)
      have hread : declaration type t (name :: sign :: (us ++ (semi :: rest))) =
          .ok (initializationTree type t name v, rest) := by
        rw [declaration_eq, readThen_ok (expect_ok hn _), behindName, if_pos hs, readThen_ok hvalue,
          finishWith_ok hsemi]
      simp only [List.append_assoc, List.cons_append, List.nil_append, statement, ht, hread]
      rfl
  | @declaration type t name us names semi ht hn h hsemi =>
      have hnames := complete_moreLeaves (e := .nextName) (semi :: rest) h
        (by rw [apart_cons, hsemi]; rfl)
      have hread : declaration type t (name :: (us ++ (semi :: rest))) =
          .ok (declarationTree type t name names, rest) := by
        rw [declaration_eq, readThen_ok (expect_ok hn _), behindName_names (by simp) ?_,
          readThen_ok hnames, finishNames_ok hsemi]
        cases h with
        | nil => rw [List.nil_append, apart_cons, hsemi]; rfl
        | cons hc _ _ => rw [List.cons_append, apart_cons, hc]; rfl
      simp only [List.append_assoc, List.cons_append, List.nil_append, statement, ht, hread]
      rfl
  | @assignment t sign us v semi ht hs h hsemi =>
      have hvalue := complete_value .assignedValue (semi :: rest) h (by rw [apart_cons, hsemi]; rfl)
      simp only [List.append_assoc, List.cons_append, List.nil_append, statement, ht, assignment_eq,
        readThen_ok (expect_ok hs _), readThen_ok hvalue, finishWith_ok hsemi]
      rfl
  | @print t o a us first others c semi ht ho ha h hc hsemi =>
      have hmore := complete_moreLeaves (e := .printArgument) (c :: semi :: rest) h
        (by rw [apart_cons, hc]; rfl)
      have hfirst : leafRead contentLeaf? .printArgument (a :: (us ++ c :: semi :: rest)) =
          .ok (first, us ++ c :: semi :: rest) := by rw [leafRead, ha]
      simp only [List.append_assoc, List.cons_append, List.nil_append, statement, ht, print_eq,
        readThen_ok (expect_ok ho _), readThen_ok hfirst, readThen_ok hmore,
        readThen_ok (expect_ok hc _),
        finishWith_ok hsemi]
      rfl
  | @read t name semi ht hn hsemi =>
      simp only [List.cons_append, List.nil_append, statement, ht, read_eq,
        readThen_ok (expect_ok hn _), finishWith_ok hsemi]
      rfl

end Imperativo.Grammar
