import Imperativo.Proofs.Grammar.Dangling
import Imperativo.Proofs.Grammar.Descent
import Imperativo.Proofs.Source.Order

/-!
# Which `sino` of a program is reported

The log of a parse says where a fault was found, and no two tokens of a program share a place.  So an
entry tells in front of which tokens the reading stopped (`mem_entries_iff`), and what is known of the
stops is known of the log.

* **`sino_reported`** — an entry about a missing `si` stands at a `sino`; a `sino` behind the block of
  a `si` has one exactly if a statement was broken off in front of the block and passed over together
  with it.
* `sino_reported_behind_si` — the second can happen, where the condition of the `si` is malformed.
-/

namespace Imperativo

open Grammar Phrase

variable {source : Text} {front behind more ts : List Token} {t u : Token}

/-- Where places go up, one place belongs to one end of the tokens. -/
lemma suffix_unique (hup : ts.Pairwise fun t u => t.position.key < u.position.key)
    (h : t :: behind <:+ ts) (h' : u :: more <:+ ts) (hplace : t.position = u.position) :
    t :: behind = u :: more := by
  -- of two ends one is an end of the other, and behind its first token there is no such place
  have hone {t u : Token} {behind more : List Token} (h : t :: behind <:+ ts)
      (hplace : t.position = u.position) (hsuffix : u :: more <:+ t :: behind) :
      t :: behind = u :: more := by
    rcases List.suffix_cons_iff.mp hsuffix with heq | hmore
    · exact heq.symm
    · have hlt := List.rel_of_pairwise_cons (hup.sublist h.sublist)
        (hmore.subset List.mem_cons_self)
      rw [hplace] at hlt
      exact absurd hlt (lt_irrefl _)
  rcases List.suffix_or_suffix_of_suffix h h' with hsuffix | hsuffix
  · exact (hone h' hplace.symm hsuffix).symm
  · exact hone h hplace hsuffix

/-- The log of a program has an entry about the fault at the token. -/
def Reported (source : Text) (fault : GrammarFault) (t : Token) : Prop :=
  ∃ d ∈ ((Parser.ofSource source).parse .program).log.entries,
    d.cause = .grammar fault ∧ d.At t.position

/-- An entry about a fault of the grammar comes from a stop. -/
lemma exists_stop {fault : GrammarFault} {d : Diagnostic}
    (hd : d ∈ ((Parser.ofSource source).parse .program).log.entries)
    (hcause : d.cause = .grammar fault) (hfault : fault ≠ .unexpectedEnd) :
    ∃ s ∈ (program (tokenize .insensitive source).1).stops, ∃ t more, s.rest = t :: more ∧
      s.fault = fault ∧ d.At t.position := by
  rw [Parser.entries_parse] at hd
  rcases List.mem_append.mp hd with hlexical | hgrammar
  · have hstage := (accounted_tokenize .insensitive source).stage_eq d hlexical
    rw [Diagnostic.stage, hcause] at hstage
    cases hstage
  · obtain ⟨s, hs, rfl⟩ := List.mem_map.mp hgrammar
    cases hrest : s.rest with
    | nil =>
        rw [(Stop.diagnostic_nil hrest _).1] at hcause
        cases hcause
        exact absurd rfl hfault
    | cons t more =>
        have hdiagnostic := s.diagnostic_cons hrest
          (lastPosition (Parser.ofSource source).tokens)
        rw [hdiagnostic.1] at hcause
        exact ⟨s, hs, t, more, hrest, Cause.grammar.inj hcause, hdiagnostic.2⟩

/-- **An entry at a token** comes from the stop in front of it. -/
theorem reported_iff {fault : GrammarFault} (hfault : fault ≠ .unexpectedEnd)
    (hts : (tokenize .insensitive source).1 = front ++ t :: behind) : Reported source fault t ↔
      ∃ s ∈ (program (tokenize .insensitive source).1).stops, s.fault = fault ∧
        s.rest = t :: behind := by
  constructor
  · rintro ⟨d, hd, hcause, hat⟩
    obtain ⟨s, hs, u, more, hrest, hsfault, hat'⟩ := exists_stop hd hcause hfault
    have hplace := hat.unique hat'
    obtain ⟨_, hdescent⟩ := descent_program (tokenize .insensitive source).1
    have hsuffix := hdescent.suffix s hs
    rw [hrest] at hsuffix
    have heq := suffix_unique (tokens_rising .insensitive source)
      (hts ▸ List.suffix_append front (t :: behind)) hsuffix hplace
    exact ⟨s, hs, hsfault, by rw [hrest, heq]⟩
  · rintro ⟨s, hs, rfl, hrest⟩
    refine ⟨s.diagnostic (lastPosition (tokenize .insensitive source).1), ?_,
      s.diagnostic_cons hrest _⟩
    rw [Parser.entries_parse]
    exact List.mem_append_right _ (List.mem_map_of_mem hs)

/-- **Which `sino` is reported.**  An entry about a missing `si` stands at a `sino`.  A `sino` behind
the block of a `si` has such an entry exactly if a statement was broken off in front of the block,
with no boundary in between, and passed over together with it. -/
theorem sino_reported (source : Text) :
    (∀ d ∈ ((Parser.ofSource source).parse .program).log.entries,
      d.cause = .grammar .danglingElse →
        ∃ t ∈ (tokenize .insensitive source).1, t.kind = .word .sino ∧ d.At t.position) ∧
    ∀ front hs bs t behind,
      (tokenize .insensitive source).1 = front ++ hs ++ bs ++ t :: behind →
      IfHeader hs → Braced bs → t.kind = .word .sino →
        (Reported source .danglingElse t ↔
          ∃ s ∈ rejections (tokenize .insensitive source).1, ∃ us, Plain us ∧
            s.rest = us ++ bs ++ t :: behind) := by
  constructor
  · intro d hd hcause
    obtain ⟨s, hs, t, more, hrest, hfault, hat⟩ := exists_stop hd hcause (by decide)
    obtain ⟨u, others, hrest', hu, before, hbefore, -⟩ :=
      atElse_of_mem hs (hrest ▸ List.cons_ne_nil t more) hfault
    obtain rfl : t = u := (List.cons.inj (hrest.symm.trans hrest')).1
    refine ⟨t, ?_, hu, hat⟩
    rw [hbefore, hrest]
    exact List.mem_append_right _ List.mem_cons_self
  · intro front hs bs t behind hts hhs hbs ht
    rw [reported_iff (by decide) hts]
    exact dangling_iff hhs hbs ht hts

/-- The condition of a loop breaks off in front of `si`, and the conditional, which is well formed, is
passed over together with the loop. -/
theorem sino_reported_passed_over :
    let source := "programa p()\x7bmientras(x<si(x<1)\x7b\x7dsino\x7b\x7d\x7d".toList
    ∃ front hs bs t behind, (tokenize .insensitive source).1 = front ++ hs ++ bs ++ t :: behind ∧
      IfHeader hs ∧ Braced bs ∧ t.kind = .word .sino ∧ Reported source .danglingElse t := by
  intro source
  let token (kind : Kind) (column : Nat) : Token := ⟨kind, none, ⟨1, column⟩⟩
  let x : Token := ⟨.identifier, some (.text ['x']), ⟨1, 28⟩⟩
  let one : Token := ⟨.integer, some (.integer 1), ⟨1, 30⟩⟩
  let hs := [token (.word .si) 25, token (.sign .openParen) 27, x, token (.relation .less) 29, one,
    token (.sign .closeParen) 31]
  let bs := [token (.sign .openBrace) 32, token (.sign .closeBrace) 33]
  let sino := token (.word .sino) 34
  let behind := (tokenize .insensitive source).1.drop 18
  have hts : (tokenize .insensitive source).1 =
      (tokenize .insensitive source).1.take 9 ++ hs ++ bs ++ sino :: behind := by decide +kernel
  have hhs : IfHeader hs :=
    ⟨_, _, [x, token (.relation .less) 29, one], _, rfl, rfl, rfl, rfl, .inl (by rw [Plain]; decide)⟩
  have hbs : Braced bs := ⟨_, [], _, rfl, rfl, .nil, rfl⟩
  have hstop : .before .rightExpression (hs ++ bs ++ sino :: behind) ∈
      rejections (tokenize .insensitive source).1 := by decide +kernel
  exact ⟨_, hs, bs, sino, behind, hts, hhs, hbs, rfl,
    ((sino_reported source).2 _ hs bs sino behind hts hhs hbs rfl).mpr
      ⟨_, hstop, hs, by rw [Plain]; decide, rfl⟩⟩

/-- A `sino` behind the block of a `si` may be reported: the condition of the `si` is malformed. -/
theorem sino_reported_behind_si : ¬ ∀ source front hs bs t behind,
    (tokenize .insensitive source).1 = front ++ hs ++ bs ++ t :: behind →
      IfHeader hs → Braced bs → t.kind = .word .sino → ¬ Reported source .danglingElse t := by
  intro h
  let source := "programa P() \x7b si (x < ) \x7b \x7d sino \x7b \x7d terminar; \x7d".toList
  let token (kind : Kind) (column : Nat) : Token := ⟨kind, none, ⟨1, column⟩⟩
  let x : Token := ⟨.identifier, some (.text ['x']), ⟨1, 20⟩⟩
  let hs := [token (.word .si) 16, token (.sign .openParen) 19, x, token (.relation .less) 22,
    token (.sign .closeParen) 24]
  let bs := [token (.sign .openBrace) 26, token (.sign .closeBrace) 28]
  have hreported : ∃ d ∈ ((Parser.ofSource source).parse .program).log.entries,
      d.cause = .grammar .danglingElse ∧ d.line = 1 ∧ d.column = some 30 := by decide +kernel
  exact h source ((tokenize .insensitive source).1.take 5) hs bs (token (.word .sino) 30)
    ((tokenize .insensitive source).1.drop 13) (by decide +kernel)
    ⟨_, _, [x, token (.relation .less) 22], _, rfl, rfl, rfl, rfl, .inl (by rw [Plain]; decide)⟩
    ⟨_, [], _, rfl, rfl, .nil, rfl⟩ rfl hreported

end Imperativo
