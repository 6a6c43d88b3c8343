import Imperativo.Proofs.Grammar.Ordinary
import Imperativo.Proofs.Grammar.Resynchronization

/-!
# Where statements should start

A statement should start behind an opening brace, behind a semicolon, behind a block, and where
reading goes on after a broken statement (`Reached`).  A conditional reads the `sino` behind its
first block itself; every other `sino` is met where a statement should start, and is reported there
as one without a `si` (`AtElse`).

* **`tracks_statements`** — what a list of statements passes over is reported at such places.

The places are said in terms of the tokens in front of them, so what has been read has to be found
there again: conditions and statements as phrases, blocks by their braces.  The opening brace that
matches a closing one is the same from wherever it is looked for (`braced_unique`), so a block is
known by its last token.
-/

namespace Imperativo.Grammar

open Phrase

variable {α β : Type}

/-! ## Blocks are matched from behind -/

/-- How many tokens of a kind there are. -/
def tally (k : Kind) (ts : List Token) : Nat := ts.countP fun t => t.kind == k

section Tally

variable {k : Kind} {t : Token} {ts us : List Token}

@[simp] lemma tally_append : tally k (ts ++ us) = tally k ts + tally k us := List.countP_append

lemma tally_cons : tally k (t :: ts) = tally k ts + if t.kind = k then 1 else 0 := by
  rw [tally, List.countP_cons]
  simp only [beq_iff_eq]
  rfl

lemma Balanced.tally_eq (h : Balanced ts) :
    tally (.sign .openBrace) ts = tally (.sign .closeBrace) ts := by
  induction h with
  | nil => rfl
  | other h _ ih => simp [tally_cons, h, ih]
  | pair ho _ hc _ ih ihs =>
      simp only [tally_append, tally_cons, ho, hc, ih, ihs]
      simp
      omega

/-- Towards the end of balanced tokens every brace that is opened is closed. -/
lemma Balanced.tally_le (h : Balanced ts) (hus : us <:+ ts) :
    tally (.sign .openBrace) us ≤ tally (.sign .closeBrace) us := by
  induction h generalizing us with
  | nil =>
      rw [List.suffix_nil.mp hus]
      exact Nat.le_refl _
  | other h hs ih =>
      rcases List.suffix_cons_iff.mp hus with rfl | hus
      · exact (Balanced.other h hs).tally_eq.le
      · exact ih hus
  | @pair o ts c vs ho hts hc hvs ih ihs =>
      obtain ⟨pre, hpre⟩ := hus
      rcases List.append_eq_append_iff.mp hpre with ⟨ws, hws, rfl⟩ | ⟨ws, rfl, hws⟩
      · -- the end starts in front of the closing brace
        have hle := hvs.tally_eq.le
        cases pre with
        | nil =>
            obtain rfl : o :: ts = ws := hws
            exact (Balanced.pair ho hts hc hvs).tally_eq.le
        | cons p pre =>
            cases hws
            have := ih (List.suffix_append pre ws)
            simp only [tally_append, tally_cons, hc]
            simp
            omega
      · cases ws with
        | nil =>
            obtain rfl : c :: vs = us := hws
            have := hvs.tally_eq.le
            simp only [tally_cons, hc]
            simp
            omega
        | cons w ws =>
            cases hws
            exact ihs (List.suffix_append ws us)

end Tally

/-- Tokens in braces. -/
def Braced (ts : List Token) : Prop :=
  ∃ o inner c, ts = o :: (inner ++ [c]) ∧ o.kind = .sign .openBrace ∧ Balanced inner ∧
    c.kind = .sign .closeBrace

/-- The brace that a closing one matches is found from behind in one way. -/
lemma open_unique {xs ys ts us : List Token} {o p : Token} (ho : o.kind = .sign .openBrace)
    (hp : p.kind = .sign .openBrace) (hts : Balanced ts) (hus : Balanced us)
    (h : xs ++ o :: ts = ys ++ p :: us) : xs = ys ∧ o = p ∧ ts = us := by
  -- an opening brace in front of balanced tokens is never inside balanced tokens
  have hnot {v : Token} {vs ws : List Token} (hv : v.kind = .sign .openBrace) (hvs : Balanced vs)
      (hws : Balanced ws) : ¬ v :: vs <:+ ws := by
    intro hsuffix
    have hle := hws.tally_le hsuffix
    have heq := hvs.tally_eq
    simp only [tally_cons, hv] at hle
    simp at hle
    omega
  rcases List.append_eq_append_iff.mp h with ⟨as, rfl, has⟩ | ⟨as, rfl, has⟩
  · cases as with
    | nil =>
        cases has
        exact ⟨(List.append_nil xs).symm, rfl, rfl⟩
    | cons a as =>
        cases has
        exact absurd (List.suffix_append as _) (hnot hp hus hts)
  · cases as with
    | nil =>
        cases has
        exact ⟨List.append_nil ys, rfl, rfl⟩
    | cons a as =>
        cases has
        exact absurd (List.suffix_append as _) (hnot ho hts hus)

lemma braced_unique {xs ys ts us : List Token} (hts : Braced ts) (hus : Braced us)
    (h : xs ++ ts = ys ++ us) : xs = ys ∧ ts = us := by
  obtain ⟨o, inner, c, rfl, ho, hinner, hc⟩ := hts
  obtain ⟨p, inner', d, rfl, hp, hinner', hd⟩ := hus
  rw [← List.cons_append, ← List.cons_append, ← List.append_assoc, ← List.append_assoc] at h
  obtain ⟨h, hlast⟩ := List.append_inj' h rfl
  obtain ⟨rfl, rfl, rfl⟩ := open_unique ho hp hinner hinner' h
  cases hlast
  exact ⟨rfl, rfl⟩

/-! ## Where statements should start -/

/-- The last token is a boundary. -/
def Bounded (ts : List Token) : Prop := ∃ us b, ts = us ++ [b] ∧ isBoundary b.kind = true

lemma bounded_concat {b : Token} (hb : isBoundary b.kind = true) (us : List Token) :
    Bounded (us ++ [b]) := ⟨us, b, rfl, hb⟩

lemma Braced.bounded {bs : List Token} (h : Braced bs) (us : List Token) : Bounded (us ++ bs) := by
  obtain ⟨o, inner, c, rfl, -, -, hc⟩ := h
  exact ⟨us ++ o :: inner, c, by simp, by rw [hc]; rfl⟩

/-- Behind the tokens `before` a statement should start, in front of `rest`: behind an opening brace
or a semicolon, behind the block of a loop, of a conditional or of its `sino`, or where reading goes
on after one of the stops. -/
inductive Reached (stops : List Stop) (before rest : List Token) : Prop
  | sign {us : List Token} {b : Token} (h : before = us ++ [b])
      (hb : b.kind = .sign .openBrace ∨ b.kind = .sign .semicolon)
  | loop {us gs bs : List Token} {t : Token} {test : Tree} (h : before = us ++ t :: gs ++ bs)
      (hus : Bounded us) (ht : t.kind = .word .mientras) (hg : Guard gs test) (hbs : Braced bs)
  | conditional {us bs : List Token} (h : before = us ++ bs) (hbs : Braced bs)
      (hrest : otherwiseFollows rest = false)
  | otherwise {us bs : List Token} {e : Token} (h : before = us ++ [e] ++ bs)
      (he : e.kind = .word .sino) (hbs : Braced bs)
  | broken {us vs : List Token} {b : Token} {s : Stop} (hs : s ∈ stops)
      (hrest : s.rest = vs ++ b :: rest) (h : before = us ++ (vs ++ [b]))
      (hb : isBoundary b.kind = true) (hgo : (resynchronize s.rest).2 = rest)

lemma Reached.bounded {stops : List Stop} {before rest : List Token}
    (h : Reached stops before rest) : Bounded before := by
  cases h with
  | sign h hb =>
      rw [h]
      exact bounded_concat (by rcases hb with hb | hb <;> rw [hb] <;> rfl) _
  | loop h _ _ _ hbs => rw [h]; exact hbs.bounded _
  | conditional h hbs _ => rw [h]; exact hbs.bounded _
  | otherwise h _ hbs => rw [h]; exact hbs.bounded _
  | broken _ _ h hb _ =>
      rw [h, ← List.append_assoc]
      exact bounded_concat hb _

section Tracking

variable (whole : List Token) (stops : List Stop)

/-- A statement should start in front of `rest`, an end of `whole`. -/
def Place (rest : List Token) : Prop :=
  ∃ before, whole = before ++ rest ∧ Reached stops before rest

/-- The stop stands at a `sino` where a statement should start. -/
def AtElse (s : Stop) : Prop :=
  ∃ t more, s.rest = t :: more ∧ t.kind = .word .sino ∧ Place whole stops s.rest

/-- What the run comes to is as `P` says, and every `sino` that it reports stands where a statement
should start. -/
structure Tracked (P : α → List Token → Prop) (r : Run (α × List Token)) : Prop where
  value : ∀ {x rest}, r.outcome = .ok (x, rest) → P x rest
  passed : ∀ s ∈ r.passed, s.fault = .danglingElse → AtElse whole stops s
  stop : ∀ {s}, r.outcome = .error s → s.rest ≠ [] → s.fault = .danglingElse →
    AtElse whole stops s

/-- The run is tracked if all that it passes over is among the stops. -/
def Tracks (P : α → List Token → Prop) (r : Run (α × List Token)) : Prop :=
  r.passed ⊆ stops → Tracked whole stops P r

variable {whole stops} {P : α → List Token → Prop} {Q : β → List Token → Prop}

lemma tracks_done {x : α} {rest : List Token} (h : P x rest) :
    Tracks whole stops P (Run.done (x, rest)) :=
  fun _ => ⟨by rintro _ _ ⟨⟩; exact h, nofun, nofun⟩

lemma tracks_stopped {s : Stop} (h : s.rest ≠ [] → s.fault = .danglingElse → AtElse whole stops s) :
    Tracks whole stops P (Run.stopped s) :=
  fun _ => ⟨nofun, nofun, by rintro _ ⟨⟩; exact h⟩

lemma Tracks.bind {r : Run (α × List Token)} {g : α × List Token → Run (β × List Token)}
    (hr : Tracks whole stops P r) (hg : ∀ x rest, P x rest → Tracks whole stops Q (g (x, rest))) :
    Tracks whole stops Q (r >>= g) := by
  change Tracks whole stops Q (Run.andThen r g)
  cases h : r.outcome with
  | error s =>
      simp only [Run.andThen, h]
      intro hsub
      have htracked := hr hsub
      exact ⟨by rintro _ _ ⟨⟩, htracked.passed, by rintro _ ⟨⟩; exact htracked.stop h⟩
  | ok x =>
      obtain ⟨x, rest⟩ := x
      simp only [Run.andThen, h]
      intro hsub
      obtain ⟨hsub, hsub'⟩ := List.append_subset.mp hsub
      have htracked := hr hsub
      have htracked' := hg x rest (htracked.value h) hsub'
      refine ⟨htracked'.value, ?_, htracked'.stop⟩
      exact List.forall_mem_append.mpr ⟨htracked.passed, htracked'.passed⟩

lemma Tracks.imp {P' : α → List Token → Prop} {r : Run (α × List Token)}
    (h : Tracks whole stops P r) (hP' : ∀ {x rest}, P x rest → P' x rest) :
    Tracks whole stops P' r :=
  fun hsub => ⟨fun hr => hP' ((h hsub).value hr), (h hsub).passed, (h hsub).stop⟩

/-- What the run comes to can be told from its outcome as well. -/
lemma Tracks.of_outcome {P' : α → List Token → Prop} {r : Run (α × List Token)}
    (h : Tracks whole stops P r) (hP' : ∀ {x rest}, r.outcome = .ok (x, rest) → P' x rest) :
    Tracks whole stops P' r :=
  fun hsub => ⟨hP', (h hsub).passed, (h hsub).stop⟩

lemma tracks_inOneGo {f : List Token → Reading α} {R : List Token → α → Prop} (hf : Lawful f R)
    (hstop : Ordinary f) (ts : List Token) :
    Tracks whole stops (fun x rest => ∃ us, ts = us ++ rest ∧ R us x) (inOneGo f ts) := by
  rw [inOneGo]
  cases h : f ts with
  | ok p => exact tracks_done ((hf.law ts).sound h)
  | error s => exact tracks_stopped fun _ hfault => absurd hfault (hstop.ne_danglingElse h)

end Tracking

/-! ## Statements -/

section Blocks

variable {whole : List Token} {stops : List Stop} {ts : List Token}

/-- A list of statements takes balanced tokens up to the brace that ends it. -/
lemma balanced_statements {body : Bool} {trees : List Tree} {rest : List Token}
    (h : (statements body ts).outcome = .ok (trees, rest)) :
    ∀ c more, rest = c :: more → c.kind = .sign .closeBrace →
      ∃ us, ts = us ++ rest ∧ Balanced us := by
  rintro c more hrest hc
  have hlevel := (tidy body ts).level
  rw [eventually, h, left_ok, hrest, Level, behindCloseBrace_close_zero hc] at hlevel
  obtain ⟨us, d, rfl, hus, -⟩ := balanced_of_behindCloseBrace hlevel.symm
  obtain ⟨vs, hvs⟩ := shrinks_statements body (us ++ d :: more)
  rw [eventually, h, left_ok, hrest] at hvs
  obtain ⟨rfl, hcons⟩ := List.append_inj' hvs rfl
  exact ⟨vs, by rw [hrest, hcons], hus⟩

/-- Reading goes on behind a boundary, or in front of a closing brace. -/
lemma resynchronize_cons {t : Token} {rest : List Token} (h : (resynchronize ts).2 = t :: rest)
    (ht : t.kind ≠ .sign .closeBrace) :
    ∃ us b, ts = us ++ b :: t :: rest ∧ isBoundary b.kind = true := by
  rcases plain_or_boundary ts with hplain | ⟨us, b, vs, rfl, hus, hb | hb | hb⟩
  · rw [resynchronize_plain hplain] at h
    cases h
  · rw [resynchronize_piece hus hb] at h
    cases h
    exact ⟨us, b, rfl, by rw [hb]; rfl⟩
  · rw [resynchronize_close hus hb] at h
    cases h
    exact absurd hb ht
  · rw [resynchronize_open hus hb] at h
    cases hsearch : behindCloseBrace 0 vs with
    | error s => rw [hsearch] at h; cases h
    | ok behind =>
        rw [hsearch] at h
        cases h
        obtain ⟨inner, c, rfl, -, hc⟩ := balanced_of_behindCloseBrace hsearch
        exact ⟨us ++ b :: inner, c, by simp, by rw [hc]; rfl⟩

/-- Where reading goes on after a broken statement, the next one should start. -/
lemma place_broken {s : Stop} (hs : s ∈ stops) (hsuffix : s.rest <:+ whole)
    (hgoesOn : endsStatements false (resynchronize s.rest).2 = false) :
    Place whole stops (resynchronize s.rest).2 := by
  obtain ⟨t, rest, hcons, ht⟩ := cons_of_goesOn hgoesOn
  obtain ⟨vs, b, hrest, hb⟩ := resynchronize_cons hcons ht
  obtain ⟨us, hus⟩ := hsuffix
  rw [hcons]
  refine ⟨us ++ (vs ++ [b]), ?_, .broken hs hrest rfl hb hcons⟩
  rw [← hus, hrest]
  simp

/-- What the blocks of a statement in front of `ts` are read by. -/
def TracksWithin (whole : List Token) (stops : List Stop) (n : Nat) : Prop :=
  ∀ start : List Token, start.length < n → Place whole stops start →
    Tracks whole stops (fun _ _ => True) (statements false start)

lemma tracks_block (hin : TracksWithin whole stops ts.length) (owner : Word)
    (before : List Token) (hwhole : whole = before ++ ts) :
    Tracks whole stops (fun _ rest => ∃ bs, ts = bs ++ rest ∧ Braced bs)
      (block (statements false) owner ts) := by
  rw [block_eq]
  refine (tracks_inOneGo (lawful_expect _ _) (ordinary_expect (by rfl)) ts).bind
    fun o start hopen => ?_
  obtain ⟨_, rfl, rfl, ho⟩ := hopen
  have hplace : Place whole stops start :=
    ⟨before ++ [o], by rw [hwhole, List.append_assoc], .sign rfl (.inl ho)⟩
  have hinside := (hin start (Nat.lt_succ_self _) hplace).of_outcome balanced_statements
  refine hinside.bind fun trees rest hrest => ?_
  refine (tracks_inOneGo (lawful_expect _ _) (ordinary_expect (by rfl)) rest).bind
    fun c more hclose => ?_
  obtain ⟨_, rfl, rfl, hc⟩ := hclose
  obtain ⟨inner, rfl, hinner⟩ := hrest c more rfl hc
  exact tracks_done ⟨o :: (inner ++ [c]), by simp, o, inner, c, rfl, ho, hinner, hc⟩

/-- A condition and a block behind it, with what follows them. -/
lemma tracks_guarded_block {t : Token} (hin : TracksWithin whole stops (t :: ts).length)
    {before : List Token} (hwhole : whole = before ++ t :: ts) {owner owner' : Word}
    {g : Tree → Tree → List Token → Run (Tree × List Token)}
    (hg : ∀ test tree gs bs rest, ts = gs ++ (bs ++ rest) → Guard gs test → Braced bs →
      Tracks whole stops (fun _ rest => Place whole stops rest) (g test tree rest)) :
    Tracks whole stops (fun _ rest => Place whole stops rest)
      (runThen (inOneGo (guarded owner)) (fun test =>
        runThen (block (statements false) owner') (g test)) ts) := by
  refine (tracks_inOneGo (lawful_guarded owner) (ordinary_guarded owner) ts).bind
    fun test mid htest => ?_
  obtain ⟨gs, rfl, hgs⟩ := htest
  have hin' : TracksWithin whole stops mid.length := fun start hstart => hin start (by
    rw [List.length_cons, List.length_append]
    omega)
  have hblock := tracks_block hin' owner' (before ++ t :: gs) (by rw [hwhole]; simp)
  refine hblock.bind fun tree rest hrest => ?_
  obtain ⟨bs, rfl, hbs⟩ := hrest
  exact hg test tree gs bs rest rfl hgs hbs

lemma tracks_otherwise {n : Nat} (hin : TracksWithin whole stops n) (hts : ts.length ≤ n)
    (t : Token) (test yes : Tree) (before : List Token) {bs : List Token}
    (hwhole : whole = before ++ bs ++ ts) (hbs : Braced bs) : Tracks whole stops (fun _ rest => Place whole stops rest)
      (otherwise (statements false) t test yes ts) := by
  unfold otherwise
  split
  · rename_i hfollows
    cases ts with
    | nil => cases hfollows
    | cons e us =>
        have he : e.kind = .word .sino := by simpa [otherwiseFollows] using hfollows
        rw [List.length_cons] at hts
        have hin' : TracksWithin whole stops us.length :=
          fun start hstart => hin start (by omega)
        have hblock := tracks_block hin' .sino (before ++ bs ++ [e]) (by rw [hwhole]; simp)
        refine hblock.bind fun no rest hrest => ?_
        obtain ⟨bs', rfl, hbs'⟩ := hrest
        refine tracks_done ⟨before ++ bs ++ [e] ++ bs', by rw [hwhole]; simp, .otherwise rfl he hbs'⟩
  · rename_i hfollows
    exact tracks_done ⟨before ++ bs, hwhole, .conditional rfl hbs (by simpa using hfollows)⟩

/-- Tokens that start no statement are taken for a `sino` without its `si` only if they start with
`sino`. -/
lemma fault_misplaced_eq (h : (misplaced ts).fault = .danglingElse) :
    ∃ t us, ts = t :: us ∧ t.kind = .word .sino := by
  unfold misplaced at h
  split at h
  · cases h
  · rename_i t us
    split at h
    · split at h <;> cases h
    · split at h <;> cases h
    · split at h <;> cases h
    · split at h <;> cases h
    · exact ⟨t, us, rfl, ‹_›⟩
    · cases h
    · cases h

lemma tracks_statement (hin : TracksWithin whole stops ts.length) (hplace : Place whole stops ts) :
    Tracks whole stops (fun _ rest => Place whole stops rest)
      (statement (statements false) ts) := by
  obtain ⟨before, hwhole, hreached⟩ := hplace
  have hmisplaced : Tracks whole stops (fun _ rest => Place whole stops rest)
      (Run.stopped (.before (misplaced ts) ts) : Run (Tree × List Token)) := by
    refine tracks_stopped fun _ hfault => ?_
    obtain ⟨t, us, rfl, ht⟩ := fault_misplaced_eq hfault
    exact ⟨t, us, rfl, ht, before, hwhole, hreached⟩
  cases ts with
  | nil => exact hmisplaced
  | cons t us =>
      cases starts t with
      | simple f hf h =>
          rw [h]
          have hstop := (usual_of_simple hf h).ordinary
          refine (tracks_inOneGo hf hstop us).imp fun {tree rest} h => ?_
          obtain ⟨vs, rfl, hvs⟩ := h
          obtain ⟨ws, semi, hws, -, hsemi⟩ := hvs.ends
          refine ⟨before ++ ws ++ [semi], ?_, .sign rfl (.inr hsemi)⟩
          rw [hwhole, ← List.cons_append, hws]
          simp
      | misplaced h =>
          rw [h]
          exact hmisplaced
      | loop ht h =>
          rw [h, loop_eq]
          refine tracks_guarded_block hin hwhole fun test body gs bs rest hus hgs hbs => ?_
          exact tracks_done ⟨before ++ t :: gs ++ bs, by rw [hwhole, hus]; simp,
            .loop rfl hreached.bounded ht hgs hbs⟩
      | conditional _ h =>
          rw [h, conditional_eq]
          refine tracks_guarded_block hin hwhole fun test yes gs bs rest hus _ hbs => ?_
          have hlength : rest.length ≤ (t :: us).length := by
            rw [hus]
            simp only [List.length_cons, List.length_append]
            omega
          exact tracks_otherwise hin hlength t test yes (before ++ t :: gs)
            (by rw [hwhole, hus]; simp) hbs

/-- Behind a turn there is a shorter list, at whose start a statement should start unless it ends
there. -/
lemma tracks_turn (hin : TracksWithin whole stops ts.length) (hplace : Place whole stops ts)
    (hgoesOn : endsStatements false ts = false) :
    Tracks whole stops (fun _ rest => rest.length < ts.length ∧
      (endsStatements false rest = false → Place whole stops rest))
      (turn (statements false) ts) := by
  obtain ⟨t, us, rfl, ht⟩ := cons_of_goesOn hgoesOn
  have hshorter {first : List Tree} {rest : List Token}
      (h : (turn (statements false) (t :: us)).outcome = .ok (first, rest)) :
      rest.length < (t :: us).length := by
    have hle := length_turn_cons (shrinks_statements false) ht us
    rw [eventually, h, left_ok] at hle
    exact Nat.lt_succ_of_le hle
  intro hsub
  have hstatement := tracks_statement hin hplace
  obtain ⟨before, hwhole, -⟩ := hplace
  cases h : (statement (statements false) (t :: us)).outcome with
  | ok p =>
      have hturn : turn (statements false) (t :: us) = _ := recovered_ok h
      rw [hturn] at hsub
      obtain ⟨hvalue, hpassed, -⟩ := hstatement hsub
      refine ⟨fun {first rest} hrun => ⟨hshorter hrun, ?_⟩, ?_, ?_⟩
      · rw [hturn] at hrun
        cases hrun
        exact fun _ => hvalue h
      · rw [hturn]
        exact hpassed
      · rw [hturn]
        rintro _ ⟨⟩
  | error s =>
      by_cases hs : s.rest = []
      · have hturn : turn (statements false) (t :: us) = _ := recovered_fatal h hs
        rw [hturn] at hsub ⊢
        exact ⟨by rintro _ _ ⟨⟩, (hstatement hsub).passed,
          by rintro _ ⟨⟩ hrest; exact absurd hs hrest⟩
      · have hturn : turn (statements false) (t :: us) = _ := recovered_broken h hs
        rw [hturn] at hsub
        obtain ⟨hsub, hmem⟩ := List.append_subset.mp hsub
        obtain ⟨-, hpassed, hstop⟩ := hstatement hsub
        refine ⟨fun {first rest} hrun => ⟨hshorter hrun, fun hends => ?_⟩, ?_, ?_⟩
        · rw [hturn] at hrun
          cases hrun
          have hsuffix : s.rest <:+ t :: us :=
            ((shrinks_statement (shrinks_statements false) t us).2 h).elim
              (fun heq => heq ▸ List.suffix_rfl) fun hsuf => hsuf.trans (List.suffix_cons t us)
          exact place_broken (hmem (List.mem_singleton_self s))
            (hsuffix.trans ⟨before, hwhole.symm⟩) hends
        · rw [hturn]
          refine List.forall_mem_append.mpr ⟨hpassed, List.forall_mem_singleton.mpr fun hfault => ?_⟩
          exact hstop h hs hfault
        · rw [hturn]
          rintro _ ⟨⟩

end Blocks

/-- Where the body of a program goes on, so would a block. -/
lemma goesOn_inside {body : Bool} {ts : List Token} (h : endsStatements body ts = false) :
    endsStatements false ts = false := by
  obtain ⟨t, us, rfl, ht⟩ := cons_of_goesOn h
  simpa [endsStatements] using ht

/-- **Lists of statements are tracked.** -/
theorem tracks_statements {whole : List Token} {stops : List Stop} (body : Bool) (ts : List Token)
    (hplace : endsStatements body ts = false → Place whole stops ts) :
    Tracks whole stops (fun _ _ => True) (statements body ts) := by
  induction hn : ts.length using Nat.strong_induction_on generalizing body ts with
  | _ n ih =>
      cases hends : endsStatements body ts with
      | true =>
          rw [statements_ends hends]
          exact tracks_done trivial
      | false =>
          have hin : TracksWithin whole stops ts.length :=
            fun start hstart hplace => ih start.length (hn ▸ hstart) false start (fun _ => hplace) rfl
          rw [statements_goesOn hends]
          refine (tracks_turn hin (hplace hends) (goesOn_inside hends)).bind fun first rest hrest => ?_
          have hothers := ih rest.length (hn ▸ hrest.1) body rest
            (fun h => hrest.2 (goesOn_inside h)) rfl
          exact hothers.bind fun _ _ _ => tracks_done trivial

end Imperativo.Grammar
