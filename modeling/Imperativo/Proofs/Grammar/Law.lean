import Imperativo.Grammar.Reading
import Mathlib.Tactic

/-!
# What every reading obeys

A reading takes tokens from the front of a list and looks at no more than the next token behind
them.  Two things follow for a reading `f` whose values are related by `R` to the tokens they were
read from.

* **The tokens taken are a phrase, or the beginning of one.**  If `f` comes to a value, the tokens
  in front of the rest are related to it; if it stops, they can be continued to tokens that are
  related to some value.
* **The outcome is settled by the tokens taken and the next one.**  If some token is left, more
  tokens behind the input are left as well and change nothing else; if none is left, then with more
  tokens behind the input the reading goes at least as far.

`Lawful f R` says both.  `Lawful.bind` shows that it passes from two readings to one after the
other, and `Lawful.ofHead` to a reading that chooses by its first token, so the law of a production
is put together from those of its parts.  `Complete f R p` is the converse of the first half: tokens
related to a value are read as that value, unless the token behind them is one that `p` says would
continue them.  Where phrases are read to their end, a lawful reading takes as much of a list as
phrases begin with (`LawfulAt.begins`, `Lawful.not_begins`).
-/

namespace Imperativo.Grammar

variable {α β : Type} {f : List Token → Reading α} {R : List Token → α → Prop}

/-! ## What is left -/

/-- The tokens that a reading leaves: those behind its value, or those from its stop on. -/
def left : Reading α → List Token
  | .ok (_, rest) => rest
  | .error s => s.rest

@[simp] lemma left_ok (x : α) (rest : List Token) : left (.ok (x, rest)) = rest := rfl

@[simp] lemma left_error (s : Stop) : left (.error s : Reading α) = s.rest := rfl

/-- The stop with more tokens behind those from it on. -/
def Stop.append (s : Stop) (more : List Token) : Stop := { s with rest := s.rest ++ more }

@[simp] lemma Stop.rest_append (s : Stop) (more : List Token) :
    (s.append more).rest = s.rest ++ more := rfl

@[simp] lemma Stop.rest_before (e : Expectation) (ts : List Token) : (Stop.before e ts).rest = ts :=
  rfl

/-- Whether a kind is that of a literal. -/
def isLiteral : Kind → Bool
  | .integer | .float | .character | .string => true
  | _ => false

/-- A literal with nothing behind it.  It is the one case in which what is expected depends on a
token behind the next one: in front of `=` it is taken for the target of an assignment. -/
def LoneLiteral (ts : List Token) : Prop := ∃ t, ts = [t] ∧ isLiteral t.kind = true

/-- The second stop is the first one with more tokens behind it. -/
def Stop.ContinuedBy (s : Stop) (more : List Token) (s' : Stop) : Prop :=
  s'.rest = s.rest ++ more ∧ (¬ LoneLiteral s.rest → s' = s.append more)

lemma Stop.continuedBy_append (s : Stop) (more : List Token) : s.ContinuedBy more (s.append more) :=
  ⟨rfl, fun _ => rfl⟩

/-- That the input has ended is told by what is left, never by the class of fault. -/
lemma Expectation.fault_ne (e : Expectation) : e.fault ≠ .unexpectedEnd := by
  cases e <;> exact fun h => by cases h

lemma Stop.fault_before (e : Expectation) (ts : List Token) :
    (Stop.before e ts).fault ≠ .unexpectedEnd := e.fault_ne

/-! ## The law -/

/-- The law of a reading on one list; the module header says what it comes to. -/
structure LawfulAt (f : List Token → Reading α) (R : List Token → α → Prop) (ts : List Token) :
    Prop where
  sound : ∀ {x rest}, f ts = .ok (x, rest) → ∃ us, ts = us ++ rest ∧ R us x
  viable : ∀ {s}, f ts = .error s → ∃ us vs x, ts = us ++ s.rest ∧ R (us ++ vs) x
  extend : ∀ {x rest} more, f ts = .ok (x, rest) → rest ≠ [] →
    f (ts ++ more) = .ok (x, rest ++ more)
  refuse : ∀ {s} more, f ts = .error s → s.rest ≠ [] →
    ∃ s', f (ts ++ more) = .error s' ∧ s.ContinuedBy more s'
  exhaust : ∀ more, left (f ts) = [] → (left (f (ts ++ more))).length ≤ more.length
  classed : ∀ {s}, f ts = .error s → s.fault ≠ .unexpectedEnd

/-- The law of a reading that has a phrase at all. -/
structure Lawful (f : List Token → Reading α) (R : List Token → α → Prop) : Prop where
  phrase : ∃ us x, R us x
  law : ∀ ts, LawfulAt f R ts

/-- What a lawful reading leaves stands at the end of what it was given. -/
lemma LawfulAt.suffix {ts : List Token} (hf : LawfulAt f R ts) : left (f ts) <:+ ts := by
  cases h : f ts with
  | ok p =>
      obtain ⟨us, hus, _⟩ := hf.sound h
      exact ⟨us, hus.symm⟩
  | error s =>
      obtain ⟨us, _, _, hus, _⟩ := hf.viable h
      exact ⟨us, hus.symm⟩

lemma LawfulAt.length_le {ts : List Token} (hf : LawfulAt f R ts) :
    (left (f ts)).length ≤ ts.length :=
  hf.suffix.length_le

/-- A reading that leaves a token was given one. -/
lemma LawfulAt.ne_nil {ts : List Token} (hf : LawfulAt f R ts) (h : left (f ts) ≠ []) : ts ≠ [] :=
  by
  rintro rfl
  exact h (List.suffix_nil.mp hf.suffix)

/-- The phrases may be described in another way. -/
lemma LawfulAt.mono {S : List Token → α → Prop} {ts : List Token} (hf : LawfulAt f R ts)
    (h : ∀ us x, R us x → S us x) : LawfulAt f S ts where
  sound hts := by
    obtain ⟨us, hus, hR⟩ := hf.sound hts
    exact ⟨us, hus, h _ _ hR⟩
  viable hts := by
    obtain ⟨us, vs, x, hus, hR⟩ := hf.viable hts
    exact ⟨us, vs, x, hus, h _ _ hR⟩
  extend := hf.extend
  refuse := hf.refuse
  exhaust := hf.exhaust
  classed := hf.classed

lemma Lawful.mono {S : List Token → α → Prop} (hf : Lawful f R) (h : ∀ us x, R us x → S us x) :
    Lawful f S where
  phrase := by
    obtain ⟨us, x, hR⟩ := hf.phrase
    exact ⟨us, x, h us x hR⟩
  law ts := (hf.law ts).mono h

/-! ## One reading behind another -/

/-- A phrase of `R` with value `x`, then a phrase of `S x`. -/
def Then (R : List Token → α → Prop) (S : α → List Token → β → Prop) (ts : List Token) (y : β) :
    Prop :=
  ∃ us vs x, ts = us ++ vs ∧ R us x ∧ S x vs y

/-- Reads with `f`, then with `g` behind it. -/
def readThen (f : List Token → Reading α) (g : α → List Token → Reading β) (ts : List Token) :
    Reading β :=
  Except.bind (f ts) fun p => g p.1 p.2

lemma readThen_ok {g : α → List Token → Reading β} {ts rest : List Token} {x : α}
    (h : f ts = .ok (x, rest)) : readThen f g ts = g x rest := by
  rw [readThen, h]
  rfl

lemma readThen_error {g : α → List Token → Reading β} {ts : List Token} {s : Stop}
    (h : f ts = .error s) : readThen f g ts = .error s := by
  rw [readThen, h]
  rfl

/-- A sequence that comes to a value has read both parts. -/
lemma readThen_eq_ok {g : α → List Token → Reading β} {ts rest : List Token} {y : β}
    (h : readThen f g ts = .ok (y, rest)) :
    ∃ x mid, f ts = .ok (x, mid) ∧ g x mid = .ok (y, rest) := by
  cases hfts : f ts with
  | error s => rw [readThen_error hfts] at h; cases h
  | ok p => exact ⟨p.1, p.2, rfl, by rw [← h, readThen_ok hfts]⟩

/-- A sequence that stops has stopped in its first part or behind it. -/
lemma readThen_eq_error {g : α → List Token → Reading β} {ts : List Token} {s : Stop}
    (h : readThen f g ts = .error s) :
    f ts = .error s ∨ ∃ x mid, f ts = .ok (x, mid) ∧ g x mid = .error s := by
  cases hfts : f ts with
  | error s' => rw [readThen_error hfts] at h; cases h; exact .inl rfl
  | ok p => exact .inr ⟨p.1, p.2, rfl, by rw [← h, readThen_ok hfts]⟩

/-- What matters of the second reading is what it does behind values of the first. -/
lemma readThen_congr {g g' : α → List Token → Reading β} {ts : List Token}
    (h : ∀ x rest, f ts = .ok (x, rest) → g x rest = g' x rest) :
    readThen f g ts = readThen f g' ts := by
  cases hfts : f ts with
  | error s => rw [readThen_error hfts, readThen_error hfts]
  | ok p => rw [readThen_ok hfts, readThen_ok hfts, h _ _ hfts]

/-- Readings one after another may be grouped in either way. -/
lemma readThen_assoc {γ : Type} {g : α → List Token → Reading β} {k : β → List Token → Reading γ}
    {ts : List Token} :
    readThen (readThen f g) k ts = readThen f (fun x => readThen (g x) k) ts := by
  cases hfts : f ts with
  | error s => rw [readThen_error (readThen_error hfts), readThen_error hfts]
  | ok p =>
      rw [readThen_ok hfts]
      unfold readThen
      rw [hfts]
      rfl

lemma left_readThen_le {g : α → List Token → Reading β} {ts : List Token} {n : Nat}
    (hf : (left (f ts)).length ≤ n) (hg : ∀ x rest, (left (g x rest)).length ≤ rest.length) :
    (left (readThen f g ts)).length ≤ n := by
  cases h : f ts with
  | error s => rw [readThen_error h]; rwa [h] at hf
  | ok p => rw [readThen_ok h]; rw [h] at hf; exact (hg p.1 p.2).trans hf

/-- A stop in the first reading can be continued through the second one, because that has a
phrase. -/
theorem LawfulAt.bind {g : α → List Token → Reading β} {S : α → List Token → β → Prop}
    {ts : List Token} (hf : LawfulAt f R ts)
    (hg : ∀ {x rest}, f ts = .ok (x, rest) → LawfulAt (g x) (S x) rest)
    (hle : ∀ x rest, (left (g x rest)).length ≤ rest.length) (hne : ∀ x, ∃ vs y, S x vs y) :
    LawfulAt (readThen f g) (Then R S) ts where
  sound := by
    intro y rest h
    obtain ⟨x, mid, hfts, hgmid⟩ := readThen_eq_ok h
    obtain ⟨us, rfl, hR⟩ := hf.sound hfts
    obtain ⟨vs, rfl, hS⟩ := (hg hfts).sound hgmid
    exact ⟨us ++ vs, by rw [List.append_assoc], us, vs, x, rfl, hR, hS⟩
  viable := by
    intro s h
    rcases readThen_eq_error h with hfts | ⟨x, mid, hfts, hgmid⟩
    · obtain ⟨us, ws, x, hus, hR⟩ := hf.viable hfts
      obtain ⟨vs, y, hS⟩ := hne x
      exact ⟨us, ws ++ vs, y, hus, us ++ ws, vs, x, by rw [List.append_assoc], hR, hS⟩
    · obtain ⟨us, rfl, hR⟩ := hf.sound hfts
      obtain ⟨vs, ws, y, rfl, hS⟩ := (hg hfts).viable hgmid
      exact ⟨us ++ vs, ws, y, by rw [List.append_assoc], us, vs ++ ws, x,
        by rw [List.append_assoc], hR, hS⟩
  extend := by
    intro y rest more h hrest
    obtain ⟨x, mid, hfts, hgmid⟩ := readThen_eq_ok h
    have hmid : mid ≠ [] := (hg hfts).ne_nil (by rwa [hgmid])
    rw [readThen_ok (hf.extend more hfts hmid)]
    exact (hg hfts).extend more hgmid hrest
  refuse := by
    intro s more h hrest
    rcases readThen_eq_error h with hfts | ⟨x, mid, hfts, hgmid⟩
    · obtain ⟨s', hs', hc⟩ := hf.refuse more hfts hrest
      exact ⟨s', readThen_error hs', hc⟩
    · have hmid : mid ≠ [] := (hg hfts).ne_nil (by rwa [hgmid])
      rw [readThen_ok (hf.extend more hfts hmid)]
      exact (hg hfts).refuse more hgmid hrest
  exhaust := by
    intro more h
    -- whatever `f` leaves of `ts ++ more`, the reading behind it leaves no more than that
    have hshrink : (left (readThen f g (ts ++ more))).length ≤ (left (f (ts ++ more))).length :=
      left_readThen_le (Nat.le_refl _) hle
    cases hfts : f ts with
    | error s =>
        rw [readThen_error hfts] at h
        exact hshrink.trans (hf.exhaust more (by rw [hfts]; exact h))
    | ok p =>
        obtain ⟨x, mid⟩ := p
        rw [readThen_ok hfts] at h
        by_cases hmid : mid = []
        · subst hmid
          exact hshrink.trans (hf.exhaust more (by rw [hfts]; rfl))
        · rw [readThen_ok (hf.extend more hfts hmid)]
          exact (hg hfts).exhaust more h
  classed := by
    intro s h
    rcases readThen_eq_error h with hfts | ⟨x, mid, hfts, hgmid⟩
    · exact hf.classed hfts
    · exact (hg hfts).classed hgmid

/-- **Sequences.**  A lawful reading with lawful ones behind it is lawful. -/
theorem Lawful.bind {g : α → List Token → Reading β} {S : α → List Token → β → Prop}
    (hf : Lawful f R) (hg : ∀ x, Lawful (g x) (S x)) : Lawful (readThen f g) (Then R S) where
  phrase := by
    obtain ⟨us, x, hR⟩ := hf.phrase
    obtain ⟨vs, y, hS⟩ := (hg x).phrase
    exact ⟨us ++ vs, y, us, vs, x, rfl, hR, hS⟩
  law ts := (hf.law ts).bind (fun _ => (hg _).law _) (fun x rest => ((hg x).law rest).length_le)
    fun x => (hg x).phrase

/-! ## By the first token -/

/-- `f` stops in front of every list that starts with `t`. -/
def Refuses (f : List Token → Reading α) (t : Token) : Prop :=
  ∃ e : List Token → Expectation, (∀ rest, f (t :: rest) = .error (.before (e rest) (t :: rest))) ∧
    ∀ rest more, ¬ LoneLiteral (t :: rest) → e (rest ++ more) = e rest

lemma Refuses.intro {t : Token} {e : Expectation}
    (h : ∀ rest, f (t :: rest) = .error (.before e (t :: rest))) : Refuses f t :=
  ⟨fun _ => e, h, fun _ _ _ => rfl⟩

/-- At the end of the input a reading may stop. -/
lemma LawfulAt.nil_error {e : Expectation} (h : f [] = .error (.before e []))
    (hle : ∀ ts, (left (f ts)).length ≤ ts.length) (hne : ∃ us x, R us x) : LawfulAt f R [] where
  sound hts := by rw [h] at hts; cases hts
  viable hts := by
    rcases hne with ⟨us, x, hR⟩
    rw [h] at hts
    cases hts
    exact ⟨[], us, x, rfl, hR⟩
  extend _ hts := by rw [h] at hts; cases hts
  refuse _ hts hrest := by rw [h] at hts; cases hts; exact absurd rfl hrest
  exhaust more _ := hle more
  classed hts := by rw [h] at hts; cases hts; exact e.fault_ne

/-- At the end of the input a reading may come to a value. -/
lemma LawfulAt.nil_ok {x : α} (h : f [] = .ok (x, []))
    (hle : ∀ ts, (left (f ts)).length ≤ ts.length) (hR : R [] x) : LawfulAt f R [] where
  sound hts := by rw [h] at hts; cases hts; exact ⟨[], rfl, hR⟩
  viable hts := by rw [h] at hts; cases hts
  extend _ hts hrest := by rw [h] at hts; cases hts; exact absurd rfl hrest
  refuse _ hts := by rw [h] at hts; cases hts
  exhaust more _ := hle more
  classed hts := by rw [h] at hts; cases hts

/-- In front of a token a reading may stop. -/
lemma LawfulAt.cons_error {t : Token} (h : Refuses f t) (hne : ∃ us x, R us x) (rest : List Token) :
    LawfulAt f R (t :: rest) := by
  rcases h with ⟨e, he, hlone⟩
  rcases hne with ⟨us, x, hR⟩
  refine ⟨fun hts => ?_, fun hts => ?_, fun _ hts => ?_, fun more hts _ => ?_, fun _ hts => ?_,
    fun hts => ?_⟩
  · rw [he] at hts; cases hts
  · rw [he] at hts; cases hts; exact ⟨[], us, x, rfl, hR⟩
  · rw [he] at hts; cases hts
  · rw [he] at hts
    cases hts
    refine ⟨_, he (rest ++ more), rfl, fun hl => ?_⟩
    rw [hlone rest more hl]
    rfl
  · rw [he] at hts; cases hts
  · rw [he] at hts; cases hts; exact (e rest).fault_ne

/-- In front of a token a reading may come to a value. -/
lemma LawfulAt.cons_ok {t : Token} {x : α} (h : ∀ rest, f (t :: rest) = .ok (x, t :: rest))
    (hR : R [] x) (rest : List Token) : LawfulAt f R (t :: rest) where
  sound hts := by rw [h] at hts; cases hts; exact ⟨[], rfl, hR⟩
  viable hts := by rw [h] at hts; cases hts
  extend more hts _ := by rw [h] at hts; cases hts; exact h (rest ++ more)
  refuse _ hts := by rw [h] at hts; cases hts
  exhaust _ hts := by rw [h] at hts; cases hts
  classed hts := by rw [h] at hts; cases hts

/-- Behind a token a reading may go on as another one. -/
lemma LawfulAt.cons {t : Token} {rest : List Token} {g : List Token → Reading α}
    {S : List Token → α → Prop} (h : ∀ rest, f (t :: rest) = g rest) (hg : LawfulAt g S rest)
    (hSR : ∀ us x, S us x → R (t :: us) x) :
    LawfulAt f R (t :: rest) where
  sound hts := by
    rw [h] at hts
    obtain ⟨us, rfl, hS⟩ := hg.sound hts
    exact ⟨t :: us, rfl, hSR us _ hS⟩
  viable hts := by
    rw [h] at hts
    obtain ⟨us, vs, x, hus, hS⟩ := hg.viable hts
    exact ⟨t :: us, vs, x, by rw [hus, List.cons_append], hSR _ x hS⟩
  extend more hts hrest := by
    rw [h] at hts
    rw [List.cons_append, h]
    exact hg.extend more hts hrest
  refuse more hts hrest := by
    rw [h] at hts
    rw [List.cons_append, h]
    exact hg.refuse more hts hrest
  exhaust more hts := by
    rw [h] at hts
    rw [List.cons_append, h]
    exact hg.exhaust more hts
  classed hts := by
    rw [h] at hts
    exact hg.classed hts

/-- In front of a token a reading may do what another one does. -/
lemma LawfulAt.of_eq {t : Token} {rest : List Token} {g : List Token → Reading α}
    (h : ∀ rest, f (t :: rest) = g (t :: rest)) (hg : LawfulAt g R (t :: rest)) :
    LawfulAt f R (t :: rest) where
  sound hts := hg.sound (h rest ▸ hts)
  viable hts := hg.viable (h rest ▸ hts)
  extend more hts hrest := by
    rw [List.cons_append, h]
    exact hg.extend more (h rest ▸ hts) hrest
  refuse more hts hrest := by
    rw [List.cons_append, h]
    exact hg.refuse more (h rest ▸ hts) hrest
  exhaust more hts := by
    rw [List.cons_append, h]
    exact hg.exhaust more (h rest ▸ hts)
  classed hts := hg.classed (h rest ▸ hts)

/-- Behind a first token `t` the reading `f` goes on as a lawful one whose phrases complete phrases
of `R`. -/
def GoesOn (f : List Token → Reading α) (R : List Token → α → Prop) (t : Token) : Prop :=
  ∃ (g : List Token → Reading α) (S : List Token → α → Prop), Lawful g S ∧
    (∀ rest, f (t :: rest) = g rest) ∧ ∀ us x, S us x → R (t :: us) x

/-- A reading is lawful when it is so on every list with a first token, and at the end of the input
stops or comes to a value there. -/
theorem Lawful.of_cons (hne : ∃ us x, R us x)
    (hnil : (∃ e, f [] = .error (.before e [])) ∨ ∃ x, f [] = .ok (x, []) ∧ R [] x)
    (hcons : ∀ t rest, LawfulAt f R (t :: rest)) : Lawful f R := by
  have hle : ∀ ts, (left (f ts)).length ≤ ts.length := by
    intro ts
    cases ts with
    | cons t rest => exact (hcons t rest).length_le
    | nil =>
        rcases hnil with ⟨e, he⟩ | ⟨x, hx, _⟩
        · rw [he]; exact Nat.le_refl _
        · rw [hx]; exact Nat.le_refl _
  refine ⟨hne, fun ts => ?_⟩
  cases ts with
  | cons t rest => exact hcons t rest
  | nil =>
      rcases hnil with ⟨e, he⟩ | ⟨x, hx, hR⟩
      · exact .nil_error he hle hne
      · exact .nil_ok hx hle hR

/-- **Choices.**  A reading that refuses the empty list and some first tokens, and goes on lawfully
behind the others, is lawful. -/
theorem Lawful.ofHead (hne : ∃ us x, R us x) (hnil : ∃ e, f [] = .error (.before e []))
    (hcons : ∀ t, Refuses f t ∨ GoesOn f R t) : Lawful f R := by
  refine .of_cons hne (.inl hnil) fun t rest => ?_
  rcases hcons t with h | ⟨g, S, hg, ht, hSR⟩
  · exact .cons_error h hne rest
  · exact .cons ht (hg.law rest) hSR

/-! ## Another class of fault -/

/-- The reading with its stops counted as another class of fault. -/
def withFault (fault : GrammarFault) : Reading α → Reading α
  | .error s => .error { s with fault := fault }
  | .ok x => .ok x

@[simp] lemma withFault_ok (fault : GrammarFault) (x : α × List Token) :
    withFault fault (.ok x) = .ok x := rfl

@[simp] lemma withFault_error (fault : GrammarFault) (s : Stop) :
    withFault fault (.error s : Reading α) = .error { s with fault := fault } := rfl

@[simp] lemma left_withFault (fault : GrammarFault) (r : Reading α) :
    left (withFault fault r) = left r := by
  cases r <;> rfl

lemma withFault_eq_ok {fault : GrammarFault} {r : Reading α} {x : α × List Token}
    (h : withFault fault r = .ok x) : r = .ok x := by
  cases r with
  | error s => cases h
  | ok y => exact h

lemma fault_of_withFault {fault : GrammarFault} {r : Reading α} {s : Stop}
    (h : withFault fault r = .error s) : s.fault = fault := by
  cases r with
  | error s' => cases h; rfl
  | ok x => cases h

lemma Lawful.withFault (hf : Lawful f R) {fault : GrammarFault} (hfault : fault ≠ .unexpectedEnd) :
    Lawful (fun ts => withFault fault (f ts)) R where
  phrase := hf.phrase
  law ts := by
    refine ⟨fun h => ?_, fun h => ?_, fun more h hrest => ?_, fun more h hrest => ?_, 
      fun more h => ?_, fun h => ?_⟩
    · cases hts : f ts with
      | error s => rw [hts] at h; cases h
      | ok x => rw [hts] at h; cases h; exact (hf.law ts).sound hts
    · cases hts : f ts with
      | error s =>
          rw [hts] at h
          cases h
          obtain ⟨us, vs, x, hus, hR⟩ := (hf.law ts).viable hts
          exact ⟨us, vs, x, hus, hR⟩
      | ok x => rw [hts] at h; cases h
    · cases hts : f ts with
      | error s => rw [hts] at h; cases h
      | ok x => rw [hts] at h; cases h; simp only [(hf.law ts).extend more hts hrest, withFault_ok]
    · cases hts : f ts with
      | ok x => rw [hts] at h; cases h
      | error s =>
          rw [hts] at h
          cases h
          obtain ⟨s', hs', hrest', hsame⟩ := (hf.law ts).refuse more hts hrest
          simp only [hs', withFault_error]
          exact ⟨_, rfl, hrest', fun hl => by rw [hsame hl]; rfl⟩
    · rw [left_withFault] at h ⊢
      exact (hf.law ts).exhaust more h
    · cases hts : f ts with
      | error s => rw [hts] at h; cases h; exact hfault
      | ok x => rw [hts] at h; cases h

/-! ## Completeness -/

/-- The list does not start with a token that `p` marks. -/
def Apart (p : Kind → Bool) (ts : List Token) : Prop := ∀ t ∈ ts.head?, p t.kind = false

@[simp] lemma apart_nil (p : Kind → Bool) : Apart p [] := by simp [Apart]

@[simp] lemma apart_cons (p : Kind → Bool) (t : Token) (ts : List Token) :
    Apart p (t :: ts) ↔ p t.kind = false := by simp [Apart]

lemma Apart.mono {p q : Kind → Bool} {ts : List Token} (h : Apart p ts)
    (hqp : ∀ k, q k = true → p k = true) : Apart q ts := by
  intro t ht
  cases hq : q t.kind
  · rfl
  · rw [← h t ht, hqp _ hq]

/-- Phrases are read as their values when the token behind them is none that `p` marks. -/
def Complete (f : List Token → Reading α) (R : List Token → α → Prop) (p : Kind → Bool) : Prop :=
  ∀ {us x} rest, R us x → Apart p rest → f (us ++ rest) = .ok (x, rest)

/-- A phrase with nothing behind it is read to its end. -/
lemma Complete.whole {p : Kind → Bool} {us : List Token} {x : α} (hf : Complete f R p)
    (h : R us x) : f us = .ok (x, []) := by
  have hread := hf [] h (apart_nil p)
  rwa [List.append_nil] at hread

/-- Nothing that may follow matters. -/
def anything : Kind → Bool := fun _ => false

lemma apart_anything (ts : List Token) : Apart anything ts := fun _ _ => rfl

/-! ## Beginnings -/

/-- The list is the beginning of one that is as `p` says. -/
def Beginning (p : List Token → Prop) (us : List Token) : Prop := ∃ more, p (us ++ more)

section Beginning

variable {p : List Token → Prop} {ts us : List Token}

lemma Beginning.of_prefix (h : Beginning p ts) (hus : us <+: ts) : Beginning p us := by
  obtain ⟨vs, rfl⟩ := hus
  obtain ⟨more, hmore⟩ := h
  exact ⟨vs ++ more, by rwa [← List.append_assoc]⟩

lemma Beginning.of_self (h : p ts) : Beginning p ts := ⟨[], by rwa [List.append_nil]⟩

end Beginning

/-- The list is a phrase for some value. -/
def Phrases (R : List Token → α → Prop) (ts : List Token) : Prop := ∃ x, R ts x

/-- What a lawful reading has taken is the beginning of a phrase. -/
lemma LawfulAt.begins {ts : List Token} (hf : LawfulAt f R ts) :
    ∃ us, ts = us ++ left (f ts) ∧ Beginning (Phrases R) us := by
  cases h : f ts with
  | ok p =>
      obtain ⟨us, hus, hR⟩ := hf.sound h
      exact ⟨us, hus, .of_self ⟨p.1, hR⟩⟩
  | error s =>
      obtain ⟨us, vs, x, hus, hR⟩ := hf.viable h
      exact ⟨us, hus, vs, x, hR⟩

/-- Tokens that are left stay so, with more behind them. -/
lemma LawfulAt.left_append {ts : List Token} (hf : LawfulAt f R ts) (h : left (f ts) ≠ [])
    (more : List Token) : left (f (ts ++ more)) = left (f ts) ++ more := by
  cases hts : f ts with
  | ok p =>
      rw [hts] at h
      rw [hf.extend more hts h]
      rfl
  | error s =>
      rw [hts] at h
      obtain ⟨s', hs', hrest, -⟩ := hf.refuse more hts h
      rw [hs']
      exact hrest

/-- **No phrase begins with more than what is taken**, when phrases are read to their end.  With
nothing left behind `t`, `more` would be all that is left of the whole list, and that is one token
too few; and what is left of the list up to `t` is left of every phrase that begins with it. -/
theorem Lawful.not_begins (hf : Lawful f R) (hread : ∀ {us x}, R us x → left (f us) = [])
    {us more : List Token} {t : Token} (h : left (f (us ++ t :: more)) = t :: more) :
    ¬ Beginning (Phrases R) (us ++ [t]) := by
  rintro ⟨vs, x, hR⟩
  have hleft : left (f (us ++ [t])) ≠ [] := by
    intro hnil
    have hle := (hf.law (us ++ [t])).exhaust more hnil
    rw [List.append_assoc, List.singleton_append, h, List.length_cons] at hle
    omega
  have hphrase := (hf.law (us ++ [t])).left_append hleft vs
  rw [hread hR] at hphrase
  exact hleft (List.append_eq_nil_iff.mp hphrase.symm).1

/-! ## One token -/

/-- A token of one kind. -/
def OfKind (k : Kind) (ts : List Token) (t : Token) : Prop := ts = [t] ∧ t.kind = k

/-- The value of a part of which nothing is read. -/
def Pure (x : α) (ts : List Token) (y : α) : Prop := ts = [] ∧ y = x

lemma lawful_pure (x : α) : Lawful (fun ts => .ok (x, ts)) (Pure x) :=
  .of_cons ⟨[], x, rfl, rfl⟩ (.inr ⟨x, rfl, rfl, rfl⟩) fun _ rest =>
    .cons_ok (fun _ => rfl) ⟨rfl, rfl⟩ rest

lemma expect_ok {k : Kind} {e : Expectation} {t : Token} (h : t.kind = k) (rest : List Token) :
    expect k e (t :: rest) = .ok (t, rest) := by
  rw [expect, if_pos h]

lemma expect_error {k : Kind} {e : Expectation} {t : Token} (h : t.kind ≠ k) (rest : List Token) :
    expect k e (t :: rest) = .error (.before e (t :: rest)) := by
  rw [expect, if_neg h]

lemma lawful_expect (k : Kind) (e : Expectation) : Lawful (expect k e) (OfKind k) := by
  refine Lawful.ofHead ⟨_, ⟨k, none, Position.start⟩, rfl, rfl⟩ ⟨e, rfl⟩ fun t => ?_
  by_cases ht : t.kind = k
  · refine .inr ⟨_, _, lawful_pure t, expect_ok ht, ?_⟩
    rintro us x ⟨rfl, rfl⟩
    exact ⟨rfl, ht⟩
  · exact .inl (.intro (expect_error ht))

end Imperativo.Grammar
