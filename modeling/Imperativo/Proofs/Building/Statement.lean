import Imperativo.Proofs.Building.Expression

/-!
# Statements are built as they are read

A broken statement may have added any number of nodes, of its own parts and of blocks inside it; all
of them stand behind the mark that was taken in front of it, so rolling back leaves the arena as it
was there (`follows_recovered`).  Hence a list of statements adds the trees of those that were read,
in a row, and nothing of the others.

* **`builds_statement`** — a statement is built as it is read, if the lists in its blocks are.
* **`builds_statements`** — so is a list of statements.
-/

namespace Imperativo.Building

open Grammar

variable {a b : Arena} {ts : List Token}

/-! ## Statements without blocks -/

lemma follows_finishWith {trees : List Tree} {ids : List Nat} (hrow : Grove a trees ids b)
    (e : Expectation) (heading : Heading) (ts : List Token) :
    FollowsTree a (Grammar.finishWith e (.node heading trees) ts)
      (finishWith e heading ids ts b) := by
  rw [finishWith_eq]
  exact follows_reading hrow.keeps fun _ => follows_addNode hrow _ fun hnode => .ok ⟨rfl, hnode⟩

section Leaves

variable {leaf? : Token → Option Tree} {e : Expectation}

lemma moreLeaves_eq {t : Token} (h : t.kind = .sign .comma) (rest : List Token) :
    moreLeaves leaf? e (t :: rest) = (do
      let (id, behind) ← leaf leaf? e rest
      let (ids, left) ← moreLeaves leaf? e behind
      return (id :: ids, left)) := by
  rw [moreLeaves.eq_def]
  simp only [if_pos h]
  cases rest with
  | nil => rfl
  | cons u behind =>
      rw [leaf]
      cases hu : leaf? u with
      | none => simp only [hu]; rfl
      | some tree => simp only [hu]; rfl

lemma builds_moreLeaves (hleaf : Leaves leaf?) :
    BuildsTrees (moreLeaves leaf? e) (Grammar.moreLeaves leaf? e) := by
  intro ts a
  induction hn : ts.length using Nat.strong_induction_on generalizing ts a with
  | _ n ih =>
      cases ts with
      | nil =>
          rw [moreLeaves, Grammar.moreLeaves]
          exact .ok ⟨rfl, .nil a⟩
      | cons t rest =>
          by_cases ht : t.kind = .sign .comma
          · rw [moreLeaves_eq ht, moreLeaves_comma ht]
            refine (builds_leaf hleaf e).then (List.prefix_refl _) fun {_ behind _ c} hread hfirst => ?_
            have hlt := length_of_leafRead hread
            have hothers := ih behind.length (by rw [← hn, List.length_cons]; omega) behind c rfl
            refine Follows.bind (hothers.mono hfirst.keeps) fun {x y _} _ hgrown => ?_
            exact .ok ⟨hgrown.rest_eq, hfirst.append hgrown.row⟩
          · rw [moreLeaves_other ht, moreLeaves.eq_def]
            simp only [if_neg ht]
            exact .ok ⟨rfl, .nil a⟩

end Leaves

lemma leaves_nameLeaf? : Leaves nameLeaf? := by
  intro t tree h
  unfold nameLeaf? at h
  split at h <;> cases h
  rfl

lemma leaves_contentLeaf? : Leaves contentLeaf? := by
  intro t tree h
  unfold contentLeaf? at h
  split at h <;> cases h <;> rfl

lemma builds_declaration (type : Scalar) (t : Token) :
    BuildsTree (declaration type t) (Grammar.declaration type t) := by
  intro ts a
  rw [declaration_eq]
  -- the leaf of the type is there before the name is looked for
  refine follows_addNode (.nil a) _ fun htype => ?_
  refine follows_reading htype.keeps fun {name rest} _ => ?_
  refine follows_addNode (.nil _) _ fun hname => ?_
  have hrow := htype.append hname
  cases rest with
  | nil => exact .error hrow.keeps
  | cons sign behind =>
      simp only [behindName]
      by_cases hsign : sign.kind = .assign
      · simp only [if_pos hsign]
        refine (builds_value _).then hrow.keeps fun _ hvalue => ?_
        exact follows_finishWith (hrow.append hvalue) _ _ _
      · simp only [if_neg hsign]
        refine (builds_moreLeaves leaves_nameLeaf?).then hrow.keeps fun _ hnames => ?_
        refine follows_ofReading (hrow.append hnames).keeps fun _ => ?_
        exact follows_finishWith (hrow.append hnames) _ _ _

lemma builds_assignment (t : Token) : BuildsTree (assignment t) (Grammar.assignment t) := by
  intro ts a
  rw [assignment_eq]
  refine follows_reading (List.prefix_refl _) fun _ => ?_
  refine (builds_value _).then (List.prefix_refl _) fun _ hvalue => ?_
  exact follows_finishWith hvalue _ _ _

lemma builds_print (t : Token) : BuildsTree (print t) (Grammar.print t) := by
  intro ts a
  rw [print_eq]
  refine follows_reading (List.prefix_refl _) fun _ => ?_
  refine (builds_leaf leaves_contentLeaf? _).then (List.prefix_refl _) fun _ hfirst => ?_
  refine (builds_moreLeaves leaves_contentLeaf?).then hfirst.keeps fun _ hothers => ?_
  have hrow := hfirst.append hothers
  refine follows_reading hrow.keeps fun _ => ?_
  exact follows_finishWith hrow _ _ _

lemma builds_read (t : Token) : BuildsTree (read t) (Grammar.read t) := by
  intro ts a
  rw [read_eq]
  refine follows_reading (List.prefix_refl _) fun _ => ?_
  refine follows_addNode (.nil a) _ fun hname => ?_
  exact follows_finishWith hname _ _ _

/-! ## Statements with blocks -/

lemma builds_guarded (owner : Word) : BuildsTree (guarded owner) (Grammar.guarded owner) := by
  intro ts a
  rw [guarded_eq]
  refine follows_reading (List.prefix_refl _) fun _ => ?_
  refine builds_condition.then (List.prefix_refl _) fun _ htest => ?_
  exact follows_reading htest.keeps fun _ => .ok ⟨rfl, htest⟩

section Blocks

variable {inside : BlockReader} {part : Part (List Nat)}

lemma builds_block (hin : BuildsTrees part (eventually inside)) (owner : Word) :
    BuildsTree (block part owner) (eventually (Grammar.block inside owner)) := by
  intro ts a
  rw [block_eq, eventually_runThen, eventually_inOneGo]
  refine follows_reading (List.prefix_refl _) fun {_ start} _ => ?_
  change Follows a _ (eventually (runThen inside _) start) _
  rw [eventually_runThen]
  refine hin.then (List.prefix_refl _) fun {trees rest ids c} _ hrow => ?_
  refine follows_addNode hrow _ fun {_ _} hnode => ?_
  rw [eventually_runThen, eventually_inOneGo]
  exact follows_reading hnode.keeps fun _ => .ok ⟨rfl, hnode⟩

lemma builds_loop (hin : BuildsTrees part (eventually inside)) (t : Token) :
    BuildsTree (loop part t) (eventually (Grammar.loop inside t)) := by
  intro ts a
  rw [loop_eq, eventually_runThen, eventually_inOneGo]
  refine (builds_guarded _).then (List.prefix_refl _) fun _ htest => ?_
  rw [eventually_runThen]
  refine (builds_block hin _).then htest.keeps fun _ hbody => ?_
  exact follows_addNode (htest.append hbody) _ fun hnode => .ok ⟨rfl, hnode⟩

lemma builds_conditional (hin : BuildsTrees part (eventually inside)) (t : Token) :
    BuildsTree (conditional part t) (eventually (Grammar.conditional inside t)) := by
  intro ts a
  rw [conditional_eq, eventually_runThen, eventually_inOneGo]
  refine (builds_guarded _).then (List.prefix_refl _) fun {test us _ _} _ htest => ?_
  rw [eventually_runThen]
  refine (builds_block hin _).then htest.keeps fun {yes rest _ _} _ hyes => ?_
  have hrow := htest.append hyes
  rw [eventually]
  unfold otherwise
  by_cases hno : otherwiseFollows rest = true
  · simp only [if_pos hno]
    change Follows a _ (eventually _ _) _
    rw [eventually_runThen]
    refine (builds_block hin _).then hrow.keeps fun _ hblock => ?_
    exact follows_addNode (hrow.append hblock) _ fun hnode => .ok ⟨rfl, hnode⟩
  · simp only [if_neg hno]
    exact follows_addNode hrow _ fun hnode => .ok ⟨rfl, hnode⟩

theorem builds_statement (hin : BuildsTrees part (eventually inside)) :
    BuildsTree (statement part) (eventually (Grammar.statement inside)) := by
  intro ts a
  cases ts with
  | nil => exact .error (List.prefix_refl _)
  | cons t rest =>
      have honce : ∀ {part : Part Nat} {f : List Token → Reading Tree}, BuildsTree part f →
          FollowsTree a (eventually (inOneGo f) rest) (part rest a) := fun h => by
        rw [eventually_inOneGo]
        exact h rest a
      rw [statement, eventually, Grammar.statement]
      cases t.kind with
      | scalar type => exact honce (builds_declaration type t)
      | identifier => exact honce (builds_assignment t)
      | word w =>
          cases w with
          | imprimir => exact honce (builds_print t)
          | leer => exact honce (builds_read t)
          | mientras => exact builds_loop hin t rest a
          | si => exact builds_conditional hin t rest a
          | _ => exact .error (List.prefix_refl _)
      | _ => exact .error (List.prefix_refl _)

/-- A statement that was read is kept; a broken one leaves no node. -/
lemma follows_recovered {r : Run (Tree × List Token)} {m : Builder (Nat × List Token)}
    (h : FollowsTree a r.outcome (m a)) :
    Follows a (Grown (fun trees => trees) (fun ids => ids) a) (Grammar.recovered r).outcome
      (recovered m a) := by
  rw [recovered]
  generalize m a = result at h
  cases hr : r.outcome with
  | ok x =>
      rw [hr] at h
      rw [recovered_ok hr]
      cases h with
      | ok h => exact .ok ⟨h.rest_eq, h.row⟩
  | error s =>
      rw [hr] at h
      cases h with
      | error h =>
          simp only [Arena.truncate_mark h]
          cases hs : s.rest with
          | nil =>
              rw [recovered_fatal hr hs, if_pos (by rw [Stop.isFatal, hs]; rfl)]
              exact .error (List.prefix_refl _)
          | cons t rest =>
              rw [recovered_broken hr (by rw [hs]; exact List.cons_ne_nil t rest),
                if_neg (by rw [Stop.isFatal, hs]; exact Bool.false_ne_true), hs]
              exact .ok ⟨rfl, .nil a⟩

end Blocks

/-! ## Lists of statements -/

lemma builds_statementsWithin (turns : Nat) (body : Bool) :
    BuildsTrees (statementsWithin turns body)
      (eventually (Grammar.statementsWithin turns body)) := by
  induction turns generalizing body with
  | zero => exact fun ts a => .ok ⟨rfl, .nil a⟩
  | succ turns ih =>
      intro ts a
      rw [statementsWithin]
      cases hend : endsStatements body ts with
      | true =>
          rw [eventually, statementsWithin_ends hend]
          exact .ok ⟨rfl, .nil a⟩
      | false =>
          rw [eventually, statementsWithin_goesOn hend]
          change Follows a _ (eventually (runThen _ _) ts) _
          rw [eventually_runThen]
          have hturn : BuildsTrees (fun ts => recovered (statement (statementsWithin turns false) ts))
              (eventually (turn (Grammar.statementsWithin turns false))) :=
            fun ts a => follows_recovered (builds_statement (ih false) ts a)
          refine hturn.then (List.prefix_refl _) fun {_ rest _ _} _ hfirst => ?_
          rw [eventually_runThen]
          refine (ih body).then hfirst.keeps fun _ hothers => ?_
          exact .ok ⟨rfl, hfirst.append hothers⟩

theorem builds_statements (body : Bool) :
    BuildsTrees (statements body) (eventually (Grammar.statements body)) :=
  fun ts a => builds_statementsWithin ts.length body ts a

end Imperativo.Building
