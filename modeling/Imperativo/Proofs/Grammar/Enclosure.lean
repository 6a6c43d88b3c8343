import Imperativo.Proofs.Grammar.Braces
import Imperativo.Proofs.Grammar.Extension
import Imperativo.Proofs.Grammar.Parsing

/-!
# A program ends with the brace that closes its first one

* **`parse_enclosed`** — there is a tree exactly if the first opening brace has a matching closing
  one; the tokens behind that change nothing but for one entry about the first of them; without a
  tree the last entry, and no other, is for the end of the input.

Whether there is a tree is `throughClose_reaches`.  That the tokens behind the closing brace change
nothing is said for the run through that brace (`throughClose_continued`): the parts in front of it
leave at least the brace, so they are settled, and the last part takes no token behind it.
-/

namespace Imperativo.Grammar

open Phrase

variable {α : Type}

/-! ## Matching braces -/

/-- Tokens with their braces in pairs. -/
inductive Balanced : List Token → Prop
  | nil : Balanced []
  | other {t ts} (h : t.kind ≠ .sign .openBrace ∧ t.kind ≠ .sign .closeBrace) (hs : Balanced ts) :
      Balanced (t :: ts)
  | pair {o ts c us} (ho : o.kind = .sign .openBrace) (h : Balanced ts)
      (hc : c.kind = .sign .closeBrace) (hs : Balanced us) : Balanced (o :: ts ++ c :: us)

/-- The list ends with the brace that matches its first opening brace. -/
def Enclosed (ts : List Token) : Prop :=
  ∃ pre o inner c, ts = pre ++ o :: inner ++ [c] ∧ (∀ t ∈ pre, t.kind ≠ .sign .openBrace) ∧
    o.kind = .sign .openBrace ∧ Balanced inner ∧ c.kind = .sign .closeBrace

lemma Balanced.behindCloseBrace {ts : List Token} (h : Balanced ts) (depth : Nat)
    (rest : List Token) :
    behindCloseBrace depth (ts ++ rest) = Grammar.behindCloseBrace depth rest := by
  induction h generalizing depth rest with
  | nil => rfl
  | other h _ ih => rw [List.cons_append, behindCloseBrace_other h, ih]
  | pair ho _ hc _ ih ihs =>
      rw [List.append_assoc, List.cons_append, behindCloseBrace_open ho, ih, List.cons_append,
        behindCloseBrace_close_succ hc, ihs]

/-- What stands in front of the closing brace is balanced. -/
lemma balanced_of_behindCloseBrace {ts rest : List Token} (h : behindCloseBrace 0 ts = .ok rest) :
    ∃ inner c, ts = inner ++ c :: rest ∧ Balanced inner ∧ c.kind = .sign .closeBrace := by
  induction hn : ts.length using Nat.strong_induction_on generalizing ts rest with
  | _ n ih =>
      cases ts with
      | nil => cases h
      | cons t us =>
          rw [List.length_cons] at hn
          by_cases hclose : t.kind = .sign .closeBrace
          · rw [behindCloseBrace_close_zero hclose] at h
            cases h
            exact ⟨[], t, rfl, .nil, hclose⟩
          by_cases hopen : t.kind = .sign .openBrace
          · -- behind the brace that closes this one the search goes on at the level of the list
            rw [behindCloseBrace_open hopen, behindCloseBrace_add 0 0] at h
            cases hmid : behindCloseBrace 0 us with
            | error s => rw [hmid] at h; cases h
            | ok mid =>
                rw [hmid] at h
                obtain ⟨ts, c, rfl, hts, hc⟩ := ih us.length (by omega) hmid rfl
                rw [List.length_append, List.length_cons] at hn
                obtain ⟨vs, d, rfl, hvs, hd⟩ := ih mid.length (by omega) h rfl
                exact ⟨t :: ts ++ c :: vs, d, by simp, .pair hopen hts hc hvs, hd⟩
          · rw [behindCloseBrace_other ⟨hopen, hclose⟩] at h
            obtain ⟨inner, c, rfl, hinner, hc⟩ := ih us.length (by omega) h rfl
            exact ⟨t :: inner, c, rfl, .other ⟨hopen, hclose⟩ hinner, hc⟩

lemma behindOpenBrace_split {ts rest : List Token} (h : behindOpenBrace ts = .ok rest) :
    ∃ pre o, ts = pre ++ o :: rest ∧ (∀ t ∈ pre, t.kind ≠ .sign .openBrace) ∧
    o.kind = .sign .openBrace := by
  fun_induction behindOpenBrace ts with
  | case1 => cases h
  | case2 t us ht => cases h; exact ⟨[], t, rfl, by simp, ht⟩
  | case3 t us ht ih =>
      obtain ⟨pre, o, rfl, hpre, ho⟩ := ih h
      exact ⟨t :: pre, o, rfl, by simpa using ⟨ht, hpre⟩, ho⟩

/-- Where the first opening brace has its match. -/
lemma Enclosed.search {us : List Token} (h : Enclosed us) (post : List Token) :
    ∃ start, behindOpenBrace (us ++ post) = .ok start ∧ behindCloseBrace 0 start = .ok post := by
  rcases h with ⟨pre, o, inner, c, rfl, hpre, ho, hinner, hc⟩
  refine ⟨inner ++ c :: post, ?_, ?_⟩
  · rw [List.append_assoc, List.append_assoc, behindOpenBrace_append hpre, List.cons_append,
      behindOpenBrace_cons ho]
    rfl
  · rw [hinner.behindCloseBrace, behindCloseBrace_close_zero hc]

lemma enclosed_of_search {ts start post : List Token} (hopen : behindOpenBrace ts = .ok start)
    (hclose : behindCloseBrace 0 start = .ok post) : ∃ us, ts = us ++ post ∧ Enclosed us := by
  obtain ⟨pre, o, rfl, hpre, ho⟩ := behindOpenBrace_split hopen
  obtain ⟨inner, c, rfl, hinner, hc⟩ := balanced_of_behindCloseBrace hclose
  exact ⟨pre ++ o :: inner ++ [c], by simp, pre, o, inner, c, rfl, hpre, ho, hinner, hc⟩

/-! ## Whether there is a tree -/

lemma trailing_ok (ts : List Token) : (trailing ts).outcome = .ok () := by
  cases ts <;> rfl

/-- A program has a tree if its first opening brace has a match, and otherwise stops at the end of
the input. -/
lemma program_outcome (ts : List Token) :
    (∃ us post tree, ts = us ++ post ∧ Enclosed us ∧ (program ts).outcome = .ok tree) ∨
      (¬ ∃ us post, ts = us ++ post ∧ Enclosed us) ∧
        ∃ s, (program ts).outcome = .error s ∧ s.rest = [] := by
  have hreaches := throughClose_reaches ts
  have hprogram :
      (program ts).outcome = Except.bind (eventually throughClose ts) fun p => .ok p.1 := by
    rw [program_eq]
    change (Run.andThen _ _).outcome = _
    rw [Run.andThen, eventually]
    cases (throughClose ts).outcome with
    | error s => rfl
    | ok p =>
        change (Run.andThen _ _).outcome = _
        rw [Run.andThen, trailing_ok]
        rfl
  have hno : ∀ {s}, Except.bind (behindOpenBrace ts) (behindCloseBrace 0) = .error s →
      ¬ ∃ us post, ts = us ++ post ∧ Enclosed us := by
    rintro s herror ⟨us, post, rfl, henclosed⟩
    obtain ⟨start, hopen, hclose⟩ := henclosed.search post
    rw [hopen, Except.bind, hclose] at herror
    cases herror
  cases hsearch : Except.bind (behindOpenBrace ts) (behindCloseBrace 0) with
  | error s =>
      rw [hsearch] at hreaches
      rcases hreaches with ⟨s', hs', hrest⟩
      exact .inr ⟨hno hsearch, s', by rw [hprogram, hs']; rfl, hrest⟩
  | ok post =>
      rw [hsearch] at hreaches
      rcases hreaches with ⟨tree, htree⟩
      cases hopen : behindOpenBrace ts with
      | error s => rw [hopen] at hsearch; cases hsearch
      | ok start =>
          rw [hopen] at hsearch
          obtain ⟨us, rfl, hus⟩ := enclosed_of_search hopen hsearch
          exact .inl ⟨us, post, tree, rfl, hus, by rw [hprogram, htree]; rfl⟩

/-! ## What does not depend on the tokens behind -/

/-- Where the heading is broken, the first opening brace is found all the same. -/
lemma extendsAt_opening (ts : List Token) : ExtendsAt opening ts := by
  intro more hleft
  rw [eventually, opening] at hleft
  rw [opening, opening]
  cases h : heading ts with
  | ok p =>
      obtain ⟨name, rest⟩ := p
      rw [h] at hleft
      rw [(lawful_heading.law ts).extend more h hleft]
      exact .done _ rest more
  | error s =>
      rw [h] at hleft
      by_cases hs : s.rest = []
      · simp only [passOver_fatal hs] at hleft
        exact absurd hs hleft
      · obtain ⟨s', hs', hrest, hsame⟩ := (lawful_heading.law ts).refuse more h hs
        simp only [passOver_of_ne hs] at hleft ⊢
        cases hopen : behindOpenBrace s.rest with
        | error s'' =>
            rw [hopen] at hleft
            exact absurd (behindOpenBrace_error hopen) hleft
        | ok rest =>
            have hlone : ¬ LoneLiteral s.rest := by
              rintro ⟨t, ht, hliteral⟩
              rw [ht, behindOpenBrace] at hopen
              split at hopen
              · rename_i hkind
                rw [hkind] at hliteral
                cases hliteral
              · cases hopen
            obtain ⟨pre, o, hsplit, hpre, ho⟩ := behindOpenBrace_split hopen
            have hmore : behindOpenBrace (s.rest ++ more) = .ok (rest ++ more) := by
              rw [hsplit, List.append_assoc, behindOpenBrace_append hpre, List.cons_append,
                behindOpenBrace_cons ho]
            rw [hs', hsame hlone]
            simp only [Stop.rest_append, hmore, passOver_of_ne (s := s.append more) (by simp [hs])]
            exact ⟨rfl, by rintro _ _ ⟨⟩; rfl, by rintro _ ⟨⟩⟩

lemma extendsAt_terminate (ts : List Token) : ExtendsAt terminate ts := by
  intro more hleft
  rw [eventually] at hleft
  cases ts with
  | nil => exact absurd rfl hleft
  | cons t us =>
      by_cases ht : t.kind = .word .terminar
      · cases us with
        | nil =>
            rw [terminate_fatal ht] at hleft
            exact absurd rfl hleft
        | cons v vs =>
            rw [List.cons_append, List.cons_append]
            by_cases hv : v.kind = .sign .semicolon
            · rw [terminate_ok ht hv, terminate_ok ht hv]
              exact .done _ vs more
            · rw [terminate_broken ht hv] at hleft
              have hrest : (resynchronize (v :: (vs ++ more))).2 =
                  (resynchronize (v :: vs)).2 ++ more :=
                resynchronizeAt_append more hleft
              rw [terminate_broken ht hv, terminate_broken ht hv, hrest]
              exact ⟨rfl, by rintro _ _ ⟨⟩; rfl, by rintro _ ⟨⟩⟩
      · rw [List.cons_append, terminate_missing ht, terminate_missing ht]
        exact ⟨rfl, by rintro _ _ ⟨⟩; rfl, by rintro _ ⟨⟩⟩

/-- The end of the program takes no token behind the brace that closes it. -/
lemma leave_continued {ts rest : List Token} (h : behindCloseBrace 0 ts = .ok rest)
    (more : List Token) : (leave ts).ContinuedBy more (leave (ts ++ more)) := by
  cases ts with
  | nil => cases h
  | cons t us =>
      have hmore := behindCloseBrace_append more h
      by_cases ht : t.kind = .sign .closeBrace
      · rw [List.cons_append, leave_close ht, leave_close ht]
        exact .done _ us more
      · rw [List.cons_append] at hmore ⊢
        rw [leave_passed ht h, leave_passed ht hmore]
        exact ⟨rfl, by rintro _ _ ⟨⟩; rfl, by rintro _ ⟨⟩⟩

/-- Reading through the closing brace does not depend on the tokens behind it. -/
theorem throughClose_continued {us : List Token} (h : Enclosed us) (more : List Token) :
    (throughClose us).ContinuedBy more (throughClose (us ++ more)) := by
  obtain ⟨start, hopen, hclose⟩ := h.search []
  rw [List.append_nil] at hopen
  have hne : ∀ {vs}, Level vs start → vs ≠ [] := by
    rintro vs hlevel rfl
    rw [Level, hclose] at hlevel
    cases hlevel
  have hus : us ≠ [] := by
    rcases h with ⟨pre, o, inner, c, rfl, _⟩
    simp
  obtain ⟨name, hname⟩ : ∃ name, eventually opening us = .ok (name, start) := by
    have hreaches := opening_reaches us
    rwa [hopen] at hreaches
  have hstart : start ≠ [] := hne rfl
  rw [throughClose, throughClose, nextPosition_append hus]
  refine Run.ContinuedBy.runThen (extendsAt_opening us more (by rw [hname]; exact hstart))
    fun {name' start'} hname' => ?_
  rw [hname] at hname'
  cases hname'
  have hnode : ∀ trees, blockNode (start ++ more) trees = blockNode start trees := fun trees => by
    rw [blockNode, nextPosition_append hstart, blockNode]
  rw [bodyThroughClose, bodyThroughClose]
  simp only [hnode]
  -- each part leaves at least the closing brace, because it stays at the level of the body
  have hbody := (tidy true start).level
  refine Run.ContinuedBy.runThen (extends_statements true start more (hne hbody))
    fun {trees vs} htrees => ?_
  rw [htrees, left_ok] at hbody
  have hend := (level_terminate vs).1.trans hbody
  refine Run.ContinuedBy.runThen (extendsAt_terminate vs more (hne hend))
    fun {terminator ws} hterminator => ?_
  rw [hterminator, left_ok] at hend
  refine Run.ContinuedBy.runThen (leave_continued (by rw [← hclose]; exact hend) more)
    fun {_ rest} _ => ?_
  exact .done _ rest more

/-! ## The parser -/

/-- An entry about a token does not depend on what stands behind the input. -/
lemma Stop.diagnostic_append {s : Stop} (h : s.rest ≠ []) (more : List Token) (p q : Position) :
    (s.append more).diagnostic p = s.diagnostic q := by
  cases hrest : s.rest with
  | nil => exact absurd hrest h
  | cons t us => simp only [diagnostic, error, append, hrest, List.cons_append]

lemma throughClose_enclosed {us : List Token} (h : Enclosed us) :
    ∃ tree, eventually throughClose us = .ok (tree, []) := by
  obtain ⟨start, hopen, hclose⟩ := h.search []
  rw [List.append_nil] at hopen
  have hreaches := throughClose_reaches us
  rwa [hopen, Except.bind, hclose] at hreaches

/-- A program is read through its closing brace as if nothing stood behind it. -/
lemma program_enclosed {us : List Token} (h : Enclosed us) : ∃ tree, ∀ post, program (us ++ post) =
      ⟨(throughClose us).passed.map (fun s => s.append post) ++ (trailing post).passed,
        .ok tree⟩ := by
  obtain ⟨tree, htree⟩ := throughClose_enclosed h
  refine ⟨tree, fun post => ?_⟩
  have hcontinued := throughClose_continued h post
  have houtcome := hcontinued.ok htree
  have hpassed := hcontinued.passed
  have htrailing := trailing_ok post
  rw [program_eq]
  change Run.andThen _ _ = _
  rw [Run.andThen, houtcome, hpassed]
  change (⟨_ ++ (Run.andThen (trailing post) _).passed,
    (Run.andThen (trailing post) _).outcome⟩ : Run Tree) = _
  rw [Run.andThen, htrailing, Run.done, List.append_nil]

/-- The entries for what stands in front of the closing brace. -/
def entriesThroughClose (us : List Token) : List Diagnostic :=
  (throughClose us).passed.map (Stop.diagnostic (lastPosition us))

lemma honest_throughClose (us : List Token) : Honest (throughClose us) :=
  (honest_opening us).bind fun _ => (honest_statements true _).bind fun _ =>
    (honest_terminate _).bind fun _ =>
    ((honest_closing _).bind fun _ => honest_done _).bind fun _ => honest_done _

/-- What is passed over is not the end of the input. -/
lemma Honest.cause_ne {r : Run α} (hr : Honest r) (p : Position) :
    ∀ d ∈ r.passed.map (Stop.diagnostic p), d.cause ≠ .grammar .unexpectedEnd := by
  intro d hd
  obtain ⟨s, hs, rfl⟩ := List.mem_map.mp hd
  obtain ⟨hrest, hfault⟩ := hr.passed s hs
  obtain ⟨t, more, hcons⟩ := List.exists_cons_of_ne_nil hrest
  rw [(Stop.diagnostic_cons hcons p).1]
  simpa using hfault

/-- The entries of a program are those in front of its closing brace and those for what stands
behind it. -/
lemma entries_enclosed {us : List Token} (h : Enclosed us) (post : List Token) :
    ((Parser.ofTokens (us ++ post)).parse .program).log.entries =
      entriesThroughClose us ++
        (trailing post).passed.map (Stop.diagnostic (lastPosition (us ++ post))) := by
  obtain ⟨tree, htree⟩ := program_enclosed h
  rw [Parser.parse_entries, Entry.run, htree, Run.stops, List.map_append, List.map_map,
    entriesThroughClose]
  congr 1
  refine List.map_congr_left fun s hs => ?_
  exact Stop.diagnostic_append ((honest_throughClose us).passed s hs).1 post _ _

/-- **A program ends with the brace that closes its first one.**  There is a tree exactly if the
list begins with tokens that end with the match of their first opening brace.  The tree and the
entries for such tokens stay the same whatever stands behind them, none of these entries is about
the end of the input, and with a token behind them there is one more entry, the last one, which
stands at that token.  Without a tree the last entry, and no other, says that the input has ended,
at its last token. -/
theorem parse_enclosed :
    (∀ ts, ((Parser.ofTokens ts).parse .program).tree.isSome ↔
      ∃ us post, ts = us ++ post ∧ Enclosed us) ∧
    (∀ us, Enclosed us → ∃ tree entries, (∀ d ∈ entries, d.cause ≠ .grammar .unexpectedEnd) ∧
      ((Parser.ofTokens us).parse .program).tree = some tree ∧
      ((Parser.ofTokens us).parse .program).log.entries = entries ∧
      ∀ t more, ((Parser.ofTokens (us ++ t :: more)).parse .program).tree = some tree ∧
        ∃ d, ((Parser.ofTokens (us ++ t :: more)).parse .program).log.entries = entries ++ [d] ∧
          d.cause = .grammar .unexpectedToken ∧ d.At t.position) ∧
    (∀ ts, ((Parser.ofTokens ts).parse .program).tree = none → ∃ entries d,
      ((Parser.ofTokens ts).parse .program).log.entries = entries ++ [d] ∧
      (∀ e ∈ entries, e.cause ≠ .grammar .unexpectedEnd) ∧ d.cause = .grammar .unexpectedEnd ∧
        d.At ((ts.getLast?.map Token.position).getD ⟨1, 1⟩)) := by
  refine ⟨fun ts => ?_, fun us h => ?_, fun ts hnone => ?_⟩
  · rw [Parser.parse_tree, Entry.run]
    obtain ⟨us, post, tree, hts, hus, htree⟩ | ⟨hno, s, hs, _⟩ := program_outcome ts
    · rw [htree]
      exact iff_of_true rfl ⟨us, post, hts, hus⟩
    · rw [hs]
      exact iff_of_false (by simp [Except.toOption]) hno
  · obtain ⟨tree, htree⟩ := program_enclosed h
    have hus := htree []
    have hentries := entries_enclosed h []
    rw [List.append_nil] at hus hentries
    refine ⟨tree, entriesThroughClose us, (honest_throughClose us).cause_ne _, ?_, ?_,
      fun t more => ⟨?_, ?_⟩⟩
    · rw [Parser.parse_tree, Entry.run, hus]
      rfl
    · rw [hentries]
      exact List.append_nil _
    · rw [Parser.parse_tree, Entry.run, htree]
      rfl
    · rw [entries_enclosed h]
      obtain ⟨hcause, hat⟩ := Stop.diagnostic_cons (s := .before .endOfProgram (t :: more)) rfl
        (lastPosition (us ++ t :: more))
      exact ⟨_, rfl, hcause, hat⟩
  · rw [Parser.parse_tree, Entry.run] at hnone
    rw [Parser.parse_entries, Entry.run]
    obtain ⟨us, post, tree, _, _, htree⟩ | ⟨_, s, hs, hrest⟩ := program_outcome ts
    · rw [htree] at hnone
      cases hnone
    · obtain ⟨hcause, hat⟩ := Stop.diagnostic_nil hrest (lastPosition ts)
      refine ⟨(program ts).passed.map (Stop.diagnostic (lastPosition ts)),
        s.diagnostic (lastPosition ts), ?_, (honest_program ts).cause_ne _, hcause, hat⟩
      · rw [Run.stops, hs, List.map_append]
        rfl

end Imperativo.Grammar
