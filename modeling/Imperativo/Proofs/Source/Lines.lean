import Imperativo.Proofs.Source.Account

/-!
# Lines are tokenized on their own

No scanner reads across a newline: for each of them a newline behind its piece is as good as the
end of the program.  So what can stand in front of some text can stand there still when a newline
and anything more is put behind that text (`Stands.newline`), and the account of a program goes on,
behind a newline, with the account of what follows, moved down.

* **`tokenize_lines`** — a program, a newline and another program are tokenized as the two are on
  their own.
-/

namespace Imperativo

/-! ## Moving down -/

/-- The place `n` lines further down, in the same column. -/
def Position.down (n : Nat) (p : Position) : Position := ⟨p.line + n, p.column⟩

/-- The token, `n` lines further down. -/
def Token.down (n : Nat) (t : Token) : Token := t.moveTo (t.position.down n)

/-- The diagnostic, `n` lines further down. -/
def Diagnostic.down (n : Nat) (d : Diagnostic) : Diagnostic := { d with line := d.line + n }

namespace Position

lemma step_newline (p : Position) : p.step '\n' = ⟨p.line + 1, 1⟩ := rfl

lemma down_step (n : Nat) (p : Position) (c : Char) : (p.down n).step c = (p.step c).down n := by
  by_cases hc : c = '\n'
  · simp only [step, if_pos hc, down, Nat.add_right_comm]
  · simp only [step, if_neg hc, down]

lemma down_advance (n : Nat) (p : Position) (text : Text) :
    (p.down n).advance text = (p.advance text).down n := by
  induction text generalizing p with
  | nil => rfl
  | cons c text ih => rw [advance_cons, advance_cons, down_step, ih]

lemma line_advance (p : Position) (text : Text) :
    (p.advance text).line = p.line + text.count '\n' := by
  induction text generalizing p with
  | nil => rfl
  | cons c text ih =>
      rw [advance_cons, ih, List.count_cons]
      by_cases hc : c = '\n'
      · simp only [step, hc, beq_self_eq_true, if_true]
        omega
      · simp only [step, beq_iff_eq, hc, if_false, Nat.add_zero]

end Position

/-! ## A newline is as good as the end -/

/-- What is asked of the character behind a piece, and not of the end, may be asked of a newline. -/
lemma head?_newline {behind : Text} {P : Char → Prop} (h : ∀ c ∈ behind.head?, P c)
    (hnewline : P '\n') (more : Text) : ∀ c ∈ (behind ++ '\n' :: more).head?, P c := by
  cases behind with
  | nil =>
      intro c hc
      cases hc
      exact hnewline
  | cons d behind => exact h

lemma Whole.newline {p : Char → Bool} {run behind : Text} (hp : p '\n' = false)
    (h : Whole p run behind) (more : Text) : Whole p run (behind ++ '\n' :: more) :=
  ⟨h.all, head?_newline h.ends hp more⟩

namespace Piece

variable {case : KeywordCase} {text behind : Text}

lemma Blank.newline (h : Blank text behind) (more : Text) :
    Blank text (behind ++ '\n' :: more) := by
  cases h with
  | space h => exact .space h
  | comment h => exact .comment (h.newline rfl more)

lemma Lexeme.newline {kind : Kind} {value : Option Value} (h : Lexeme case text behind kind value)
    (more : Text) : Lexeme case text (behind ++ '\n' :: more) kind value := by
  cases h with
  | reserved hc h hkind hspelling => exact .reserved hc (h.newline rfl more) hkind hspelling
  | name hc h hfree => exact .name hc (h.newline rfl more) hfree
  | integer hc h hend hn => exact .integer hc (h.newline rfl more) (head?_newline hend rfl more) hn
  | float hwhole hfraction hend => exact .float hwhole hfraction (head?_newline hend rfl more)
  | character hc => exact .character hc
  | string h => exact .string h
  | sign s => exact .sign s
  | operator h hkind hspelling => exact .operator (h.newline rfl more) hkind hspelling

lemma Rejected.newline {fault : LexicalFault} {after : Text} (h : Rejected fault after)
    (more : Text) : Rejected fault (after ++ '\n' :: more) := by
  cases h with
  | tooLarge hc h hend hn =>
      exact .tooLarge hc (h.newline rfl more) (head?_newline hend rfl more) hn
  | fraction hwhole h hrun => exact .fraction hwhole (h.newline rfl more) hrun
  | point hd h => exact .point hd (h.newline rfl more)
  | lonePoint h => exact .lonePoint (head?_newline h rfl more)
  | name hdigits hc h => exact .name hdigits hc (h.newline rfl more)
  | unterminated h hend =>
      exact .unterminated (h.newline rfl more) (head?_newline hend (by decide) more)
  | empty => exact .empty
  | tooLong h hlength => exact .tooLong h hlength
  | openQuote h hend =>
      rw [List.append_assoc]
      exact .openQuote (h.newline rfl more) (head?_newline hend (by decide) more)
  | operator h hfree => exact .operator (h.newline rfl more) hfree
  | loneOperator h hfree => exact .loneOperator (h.newline rfl more) hfree
  | stray hc => exact .stray hc

/-- **What can stand in front of a text can stand in front of its lines.** -/
theorem Stands.newline {content : Content} (h : Stands case text behind content) (more : Text) :
    Stands case text (behind ++ '\n' :: more) content := by
  cases h with
  | blank h => exact .blank (h.newline more)
  | lexeme h => exact .lexeme (h.newline more)
  | lost h hnone =>
      refine .lost (h.newline more) fun hsalvages c hc => ?_
      -- the character behind the rejected text may now be the newline, which separates nothing
      rcases List.mem_append.mp hc with hc | hc
      · exact hnone hsalvages c (List.mem_append_left _ hc)
      · cases behind with
        | nil =>
            obtain rfl := List.mem_singleton.mp hc
            rfl
        | cons d behind => exact hnone hsalvages c (List.mem_append_right _ hc)
  | kept h hsalvages hsplit hfront hle hc =>
      refine .kept (h.newline more) hsalvages ?_ hfront hle hc
      rw [← List.append_assoc, hsplit, List.append_assoc, List.cons_append]

end Piece

/-! ## Accounts of lines -/

variable {case : KeywordCase}

lemma Accounted.down {p : Position} {source : Text} {ts : List Token} {ds : List Diagnostic}
    (h : Accounted case p source ts ds) (n : Nat) :
    Accounted case (p.down n) source (ts.map (Token.down n)) (ds.map (Diagnostic.down n)) := by
  induction h with
  | done => exact .done
  | blank h _ ih => exact .blank h (by rwa [Position.down_advance])
  | lexeme h _ ih => exact .lexeme h (by rwa [Position.down_advance])
  | lost h _ ih => exact .lost h (by rwa [Position.down_advance])
  | @kept p front behind c ts ds fault s h _ ih =>
      have hkept := Accounted.kept (p := p.down n) h (by rwa [Position.down_advance])
      rwa [Position.down_advance] at hkept

/-- The account of a program goes on behind a newline with the account of what follows. -/
lemma Accounted.newline {p : Position} {a b : Text} {ts ts' : List Token} {ds ds' : List Diagnostic}
    (h : Accounted case p a ts ds) (hb : Accounted case ((p.advance a).step '\n') b ts' ds') :
    Accounted case p (a ++ '\n' :: b) (ts ++ ts') (ds ++ ds') := by
  induction h with
  | @done p =>
      change Accounted case p (['\n'] ++ b) ts' ds'
      exact .blank (.blank (.space rfl)) hb
  | blank h _ ih =>
      rw [List.append_assoc]
      exact .blank (h.newline b) (ih (by rwa [← Position.advance_append]))
  | lexeme h _ ih =>
      rw [List.append_assoc]
      exact .lexeme (h.newline b) (ih (by rwa [← Position.advance_append]))
  | lost h _ ih =>
      rw [List.append_assoc]
      exact .lost (h.newline b) (ih (by rwa [← Position.advance_append]))
  | @kept p front behind c ts ds fault s h _ ih =>
      rw [List.append_assoc, List.cons_append]
      refine .kept (h.newline b) (ih ?_)
      rwa [← Position.advance_append, List.append_assoc, List.singleton_append]

/-- **Lines are tokenized on their own.**  Behind a newline, tokens and diagnostics are those of the
text that follows it, moved down by the lines in front of it. -/
theorem tokenize_lines (case : KeywordCase) (a b : Text) : tokenize case (a ++ '\n' :: b) =
    ((tokenize case a).1 ++ (tokenize case b).1.map (Token.down (1 + a.count '\n')),
      (tokenize case a).2 ++ (tokenize case b).2.map (Diagnostic.down (1 + a.count '\n'))) := by
  have hplace : (Position.start.advance a).step '\n' =
      Position.start.down (1 + a.count '\n') := by
    rw [Position.step_newline, Position.line_advance]
    simp only [Position.down, Position.start, Nat.add_comm]
  have hb := (accounted_tokenize case b).down (1 + a.count '\n')
  rw [← hplace] at hb
  exact ((accounted_tokenize case a).newline hb).tokenize_eq

end Imperativo
