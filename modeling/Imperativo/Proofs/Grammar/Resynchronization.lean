import Imperativo.Proofs.Grammar.Enclosure

/-!
# Where a broken statement ends

A parser that passes over a broken statement stands in a list of tokens and counts the braces that it
opens on the way.  Here it is said without the count where it goes on: behind the first boundary if
that is a semicolon, in front of it if it is a closing brace, and behind the matching brace if it is
an opening one.

* `StopsAt` — the places at which passing over stops, in terms of the tokens alone.
* `Reader.synchronize` — the loop over the positions of a parser.  Its count of opened braces is
  taken down with a check, so a run in which it would have to go below zero has no result.
* **`Reader.synchronize_stops`** — the loop comes to its end at the one place where `StopsAt` holds,
  leaves behind exactly what `resynchronize` leaves, and changes nothing but position and mode.

Inside a block that is passed over, semicolons do not count and braces come in pairs, so there the
loop looks for what `behindCloseBrace` looks for (`resynchronizeAt_succ`).
-/

namespace Imperativo.Grammar

open Phrase

/-! ## Places to go on -/

/-- From position `p` of the tokens on, a broken statement is passed over up to a position, in which
mode.  Behind the end of the tokens there is nothing to pass over. -/
inductive StopsAt (ts : List Token) (p : Nat) : Nat → Mode → Prop
  | semicolon {us t vs} (h : ts.drop p = us ++ t :: vs) (hus : Plain us)
      (ht : t.kind = .sign .semicolon) : StopsAt ts p (p + us.length + 1) .normal
  | close {us t vs} (h : ts.drop p = us ++ t :: vs) (hus : Plain us)
      (ht : t.kind = .sign .closeBrace) : StopsAt ts p (p + us.length) .normal
  | block {us o inner c vs} (h : ts.drop p = us ++ o :: (inner ++ c :: vs)) (hus : Plain us)
      (ho : o.kind = .sign .openBrace) (hinner : Balanced inner) (hc : c.kind = .sign .closeBrace) :
      StopsAt ts p (p + us.length + 1 + inner.length + 1) .normal
  | unmatched {us o vs} (h : ts.drop p = us ++ o :: vs) (hus : Plain us)
      (ho : o.kind = .sign .openBrace)
      (hvs : ∀ inner c ws, vs = inner ++ c :: ws → Balanced inner → c.kind ≠ .sign .closeBrace) :
      StopsAt ts p (max p ts.length) .panic
  | plain (h : Plain (ts.drop p)) : StopsAt ts p (max p ts.length) .panic

/-! ## What is left behind -/

section Left

variable {t : Token} {us rest : List Token}

/-- Inside braces only their number matters. -/
lemma resynchronizeAt_succ (depth : Nat) (ts : List Token) : resynchronizeAt (depth + 1) ts =
    match behindCloseBrace depth ts with
    | .ok rest => (.normal, rest)
    | .error _ => (.panic, []) := by
  induction ts generalizing depth with
  | nil => rfl
  | cons t ts ih =>
      by_cases hopen : t.kind = .sign .openBrace
      · rw [behindCloseBrace_open hopen, ← ih, resynchronizeAt.eq_def]
        simp only [hopen]
      by_cases hclose : t.kind = .sign .closeBrace
      · cases depth with
        | zero =>
            rw [behindCloseBrace_close_zero hclose, resynchronizeAt.eq_def]
            simp only [hclose]
        | succ depth =>
            rw [behindCloseBrace_close_succ hclose, ← ih, resynchronizeAt.eq_def]
            simp only [hclose]
      · rw [behindCloseBrace_other ⟨hopen, hclose⟩, ← ih, resynchronizeAt.eq_def]
        simp only
        split
        · exact absurd ‹_› hopen
        · exact absurd ‹_› hclose
        · rfl
        · rfl

lemma resynchronize_close (h : Plain us) (ht : t.kind = .sign .closeBrace) :
    resynchronize (us ++ t :: rest) = (.normal, t :: rest) := by
  rw [resynchronize, resynchronizeAt_plain h, resynchronizeAt, ht]

lemma resynchronize_open (h : Plain us) (ht : t.kind = .sign .openBrace) :
    resynchronize (us ++ t :: rest) =
    match behindCloseBrace 0 rest with
    | .ok behind => (.normal, behind)
    | .error _ => (.panic, []) := by
  rw [resynchronize, resynchronizeAt_plain h, ← resynchronizeAt_succ, resynchronizeAt, ht]

lemma resynchronize_plain {ts : List Token} (h : Plain ts) : resynchronize ts = (.panic, []) := by
  rw [resynchronize, ← List.append_nil ts, resynchronizeAt_plain h, resynchronizeAt]

/-- Tokens are plain, or there is a first boundary among them. -/
lemma plain_or_boundary (ts : List Token) :
    Plain ts ∨ ∃ us t vs, ts = us ++ t :: vs ∧ Plain us ∧ (t.kind = .sign .semicolon ∨
      t.kind = .sign .closeBrace ∨ t.kind = .sign .openBrace) := by
  induction ts with
  | nil => exact .inl plain_nil
  | cons t ts ih =>
      by_cases ht : isBoundary t.kind = true
      · refine .inr ⟨[], t, ts, rfl, plain_nil, ?_⟩
        unfold isBoundary at ht
        split at ht
        · exact .inl ‹_›
        · exact .inr (.inr ‹_›)
        · exact .inr (.inl ‹_›)
        · cases ht
      rw [Bool.not_eq_true] at ht
      rcases ih with h | ⟨us, u, vs, rfl, hus, hu⟩
      · exact .inl (by simp [ht, h])
      · exact .inr ⟨t :: us, u, vs, rfl, by simp [ht, hus], hu⟩

end Left

/-! ## The place is the one where `resynchronize` goes on -/

section Places

variable {ts : List Token} {p : Nat}

/-- What is left at a place is what `resynchronize` leaves, and how much was passed over can be told
from it. -/
lemma StopsAt.left {q : Nat} {mode : Mode} (h : StopsAt ts p q mode) :
    resynchronize (ts.drop p) = (mode, ts.drop q) ∧
      q = p + ((ts.drop p).length - (ts.drop q).length) := by
  -- every position but the last two is that of tokens behind a known list
  have hbehind (us vs : List Token) (h : ts.drop p = us ++ vs) :
      ts.drop (p + us.length) = vs ∧
        p + us.length = p + ((ts.drop p).length - (ts.drop (p + us.length)).length) := by
    have hvs : ts.drop (p + us.length) = vs := by rw [← List.drop_drop, h, List.drop_left]
    refine ⟨hvs, ?_⟩
    rw [hvs, h, List.length_append]
    omega
  have hend : ts.drop (max p ts.length) = [] ∧
      max p ts.length = p + ((ts.drop p).length - (ts.drop (max p ts.length)).length) := by
    simp only [List.length_drop, List.drop_eq_nil_iff]
    omega
  cases h with
  | @semicolon us t vs h hus ht =>
      have hq := hbehind (us ++ [t]) vs (by rw [h, List.append_assoc]; rfl)
      rw [List.length_append, List.length_singleton, ← Nat.add_assoc] at hq
      refine ⟨?_, hq.2⟩
      rw [hq.1, h, resynchronize_piece hus ht]
  | @close us t vs h hus ht =>
      have hq := hbehind us (t :: vs) h
      refine ⟨?_, hq.2⟩
      rw [hq.1, h, resynchronize_close hus ht]
  | @block us o inner c vs h hus ho hinner hc =>
      have hq := hbehind (us ++ o :: (inner ++ [c])) vs (by simp [h])
      have hlength : p + (us ++ o :: (inner ++ [c])).length =
          p + us.length + 1 + inner.length + 1 := by
        simp only [List.length_append, List.length_cons, List.length_nil]
        omega
      rw [hlength] at hq
      refine ⟨?_, hq.2⟩
      rw [hq.1, h, resynchronize_open hus ho, hinner.behindCloseBrace,
        behindCloseBrace_close_zero hc]
  | @unmatched us o vs h hus ho hvs =>
      refine ⟨?_, hend.2⟩
      rw [hend.1, h, resynchronize_open hus ho]
      cases hsearch : behindCloseBrace 0 vs with
      | error s => rfl
      | ok rest =>
          obtain ⟨inner, c, hsplit, hinner, hc⟩ := balanced_of_behindCloseBrace hsearch
          exact absurd hc (hvs inner c rest hsplit hinner)
  | plain h =>
      refine ⟨?_, hend.2⟩
      rw [hend.1, resynchronize_plain h]

/-- A place in panic is one where nothing is left. -/
lemma StopsAt.ended {q : Nat} (h : StopsAt ts p q .panic) : ts.drop q = [] := by
  cases h <;> exact List.drop_eq_nil_of_le (le_max_right _ _)

variable (ts p) in
/-- From every position on there is a place. -/
lemma exists_stopsAt : ∃ q mode, StopsAt ts p q mode := by
  rcases plain_or_boundary (ts.drop p) with h | ⟨us, t, vs, h, hus, ht | ht | ht⟩
  · exact ⟨_, _, .plain h⟩
  · exact ⟨_, _, .semicolon h hus ht⟩
  · exact ⟨_, _, .close h hus ht⟩
  · cases hsearch : behindCloseBrace 0 vs with
    | ok rest =>
        obtain ⟨inner, c, rfl, hinner, hc⟩ := balanced_of_behindCloseBrace hsearch
        exact ⟨_, _, .block h hus ht hinner hc⟩
    | error s =>
        refine ⟨_, _, .unmatched h hus ht ?_⟩
        rintro inner c ws rfl hinner hc
        rw [hinner.behindCloseBrace, behindCloseBrace_close_zero hc] at hsearch
        cases hsearch

lemma stopsAt_iff (q : Nat) (mode : Mode) : StopsAt ts p q mode ↔
    mode = (resynchronize (ts.drop p)).1 ∧
      q = p + ((ts.drop p).length - (resynchronize (ts.drop p)).2.length) := by
  have hone {q : Nat} {mode : Mode} (h : StopsAt ts p q mode) :
      mode = (resynchronize (ts.drop p)).1 ∧
        q = p + ((ts.drop p).length - (resynchronize (ts.drop p)).2.length) := by
    obtain ⟨hleft, hq⟩ := h.left
    rw [hleft]
    exact ⟨rfl, hq⟩
  refine ⟨hone, ?_⟩
  rintro ⟨rfl, rfl⟩
  obtain ⟨q, mode, h⟩ := exists_stopsAt ts p
  obtain ⟨hmode, hq⟩ := hone h
  rw [← hmode, ← hq]
  exact h

end Places

/-! ## The loop of a parser -/

/-- A parser on its way through its tokens, with the nodes that it has made. -/
structure Reader extends Parser where
  position : Nat
  arena : Arena

namespace Reader

variable {r : Reader} {t : Token} {rest : List Token}

/-- The token at the position. -/
def peek? (r : Reader) : Option Token := r.tokens[r.position]?

/-- The tokens from the position on. -/
def ahead (r : Reader) : List Token := r.tokens.drop r.position

/-- Goes to the next token, unless the reader stands at the end. -/
def advance (r : Reader) : Reader :=
  if r.position < r.tokens.length then { r with position := r.position + 1 } else r

/-- A count less one.  Nothing is less than zero. -/
def oneLess? : Nat → Option Nat
  | 0 => none
  | n + 1 => some n

/-- Passes over tokens with `depth` opened braces around them. -/
def synchronizeAt (depth : Nat) (r : Reader) : Option Reader :=
  match h : r.peek? with
  | none => some r
  | some t =>
    if t.kind = .sign .semicolon ∧ depth = 0 then some { r.advance with mode := .normal }
    else if t.kind = .sign .closeBrace ∧ depth = 0 then some { r with mode := .normal }
    else if t.kind = .sign .closeBrace then
      (oneLess? depth).bind fun outer =>
        if outer = 0 then some { r.advance with mode := .normal } else synchronizeAt outer r.advance
    else if t.kind = .sign .openBrace then synchronizeAt (depth + 1) r.advance
    else synchronizeAt depth r.advance
termination_by r.tokens.length - r.position
decreasing_by
  all_goals
    have hlt : r.position < r.tokens.length := (List.getElem?_eq_some_iff.mp h).1
    simp only [advance, hlt, if_true]
    omega

/-- Passes over a broken statement. -/
def synchronize (r : Reader) : Option Reader := synchronizeAt 0 { r with mode := .panic }

/-- The reader behind some of the tokens ahead, with the others left. -/
def leave (r : Reader) (p : Mode × List Token) : Reader :=
  { r with mode := p.1, position := r.position + (r.ahead.length - p.2.length) }

lemma peek?_eq_head? (r : Reader) : r.peek? = r.ahead.head? := by
  rw [peek?, ahead, List.head?_drop]

lemma advance_of_ahead (h : r.ahead = t :: rest) :
    r.advance = { r with position := r.position + 1 } ∧ r.advance.ahead = rest := by
  have hlt : r.position < r.tokens.length := by
    have hlength := congrArg List.length h
    rw [ahead, List.length_drop, List.length_cons] at hlength
    omega
  have hadvance : r.advance = { r with position := r.position + 1 } := by rw [advance, if_pos hlt]
  refine ⟨hadvance, ?_⟩
  rw [hadvance, ahead, ← List.drop_drop]
  change r.ahead.drop 1 = rest
  rw [h]
  rfl

/-- What is left of the tokens behind the next one is reached in one step more. -/
lemma leave_advance (h : r.ahead = t :: rest) {p : Mode × List Token} (hp : p.2 <:+ rest) :
    r.advance.leave p = r.leave p := by
  obtain ⟨hadvance, hahead⟩ := advance_of_ahead h
  have hle := hp.length_le
  have hposition : r.position + 1 + (rest.length - p.2.length) =
      r.position + ((rest.length + 1) - p.2.length) := by omega
  rw [leave, leave, hahead, h, List.length_cons, hadvance, hposition]

/-- The loop passes over what `resynchronizeAt` passes over, and never takes the count below
zero. -/
lemma synchronizeAt_eq (depth : Nat) (r : Reader) (hmode : r.mode = .panic) :
    r.synchronizeAt depth = some (r.leave (resynchronizeAt depth r.ahead)) := by
  induction hts : r.ahead generalizing depth r with
  | nil =>
      rw [synchronizeAt]
      split
      · rw [resynchronizeAt, leave, hts, ← hmode]
        rfl
      · rename_i t ht
        rw [peek?_eq_head?, hts] at ht
        cases ht
  | cons t rest ih =>
      obtain ⟨hadvance, hahead⟩ := advance_of_ahead hts
      have hgoesOn (depth : Nat) : r.advance.synchronizeAt depth =
          some (r.leave (resynchronizeAt depth rest)) := by
        have hsuffix : (resynchronizeAt depth rest).2 <:+ rest := resynchronizeAt_suffix depth rest
        rw [ih depth r.advance (by rw [hadvance, ← hmode]) hahead, leave_advance hts hsuffix]
      have hbehind : some { r.advance with mode := .normal } = some (r.leave (.normal, rest)) := by
        rw [← leave_advance hts List.suffix_rfl, leave, hahead, Nat.sub_self]
        rfl
      have hbefore : some { r with mode := .normal } = some (r.leave (.normal, t :: rest)) := by
        rw [leave, hts, Nat.sub_self]
        rfl
      rw [synchronizeAt]
      split
      · rename_i hnone
        rw [peek?_eq_head?, hts] at hnone
        cases hnone
      rename_i u hu
      rw [peek?_eq_head?, hts] at hu
      cases hu
      -- the five branches of the loop
      rw [resynchronizeAt.eq_def]
      by_cases hsemicolon : t.kind = .sign .semicolon
      · cases depth with
        | zero => simp [hsemicolon, hbehind]
        | succ depth => simp [hsemicolon, hgoesOn]
      by_cases hclose : t.kind = .sign .closeBrace
      · rcases depth with _ | _ | outer
        · simp [hclose, hbefore]
        · simp [hclose, oneLess?, hbehind]
        · simp [hclose, oneLess?, hgoesOn]
      by_cases hopen : t.kind = .sign .openBrace
      · simp [hopen, hgoesOn]
      · simp only [hsemicolon, hclose, hopen, false_and, if_false, hgoesOn]

/-- **Passing over a broken statement** always comes to its end, at the one place that its boundaries
say, with the tokens ahead that `resynchronize` leaves.  Nothing of the parser changes but its
position and its mode, and it stays in panic only where no tokens are left. -/
theorem synchronize_stops (r : Reader) : ∃ position mode,
    r.synchronize = some { r with position, mode } ∧
    resynchronize r.ahead = (mode, r.tokens.drop position) ∧
    (mode = .panic → r.tokens.drop position = []) ∧
    ∀ q m, StopsAt r.tokens r.position q m ↔ q = position ∧ m = mode := by
  obtain ⟨position, mode, hplace⟩ := exists_stopsAt r.tokens r.position
  obtain ⟨hleft, hposition⟩ := hplace.left
  refine ⟨position, mode, ?_, hleft, ?_, ?_⟩
  · rw [synchronize, synchronizeAt_eq _ _ rfl]
    change some (leave { r with mode := .panic } (resynchronize (r.tokens.drop r.position))) = _
    rw [hleft, leave]
    change some { r with
      mode, position := r.position + (r.ahead.length - (r.tokens.drop position).length) } = _
    rw [ahead, ← hposition]
  · rintro rfl
    exact hplace.ended
  · intro q m
    rw [stopsAt_iff, hleft, ← hposition]
    exact And.comm

end Reader

end Imperativo.Grammar
