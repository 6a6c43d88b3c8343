import Imperativo.Proofs.Source.Spelling

/-!
# Pieces are cut as they are specified

Scanner by scanner: the piece that is cut from the front of a program can stand there, and whatever
can stand there is the piece that is cut.  So the relation of `Stands` determines the cutting, and
properties of the cutting can be read off the relation.

* **`fits_first`** — the piece at the front of a program is one that can stand there.
* **`Stands.front_eq`** — nothing else can stand there.
* **`Stands.cut_eq`** — a program is cut behind a piece that can stand at its front.
-/

namespace Imperativo.Piece

variable {case : KeywordCase} {c : Char} {rest : Text}

/-! ## The tables of spellings -/

/-- In a list of kinds with different spellings, the kind with a given one is found. -/
lemma find_spelling_iff {kinds : List Kind}
    (hunique : ∀ k ∈ kinds, ∀ k' ∈ kinds, k.spelling? = k'.spelling? → k = k') {word : Text}
    {kind : Kind} : (kinds.find? fun k => k.spelling? == some word) = some kind ↔
      kind ∈ kinds ∧ kind.spelling? = some word := by
  constructor
  · intro h
    exact ⟨List.mem_of_find?_eq_some h, by simpa using List.find?_some h⟩
  · rintro ⟨hkind, hspelling⟩
    cases h : kinds.find? fun k => k.spelling? == some word with
    | none =>
        have hnone := List.find?_eq_none.mp h kind hkind
        simp [hspelling] at hnone
    | some k =>
        have hk : k.spelling? = some word := by simpa using List.find?_some h
        rw [hunique k (List.mem_of_find?_eq_some h) kind hkind (hk.trans hspelling.symm)]

lemma find_spelling_eq_none {kinds : List Kind} {word : Text} :
    (kinds.find? fun k => k.spelling? == some word) = none ↔
      ∀ kind ∈ kinds, kind.spelling? ≠ some word := by
  rw [List.find?_eq_none]
  simp

lemma lookup_eq_some_iff {word : Text} {kind : Kind} : Reserved.lookup case word = some kind ↔
    kind ∈ Reserved.kinds ∧ kind.spelling? = some (Reserved.fold case word) :=
  find_spelling_iff (by decide)

lemma lookup_eq_none_iff {word : Text} : Reserved.lookup case word = none ↔
    ∀ kind ∈ Reserved.kinds, kind.spelling? ≠ some (Reserved.fold case word) :=
  find_spelling_eq_none

lemma operator?_eq_some_iff {run : Text} {kind : Kind} :
    operator? run = some kind ↔ kind ∈ operators ∧ kind.spelling? = some run :=
  find_spelling_iff (by decide)

lemma operator?_eq_none_iff {run : Text} :
    operator? run = none ↔ ∀ kind ∈ operators, kind.spelling? ≠ some run :=
  find_spelling_eq_none

/-! ## Words and operators -/

/-- A fault that is not searched for separators is its rejected text. -/
lemma Stands.plain {fault : LexicalFault} {behind : Text} (h : Rejected fault behind)
    (hplain : salvages fault = false) : Stands case fault.payload behind (.fault fault none) :=
  .lost h fun hsalvages => by rw [hplain] at hsalvages; cases hsalvages

lemma fits_word (hc : Text.isWordStart c = true) (rest : Text) :
    Fits case (c :: rest) (word case c rest) := by
  have hwhole := Whole.takeWhile Text.isWordChar rest
  have hsplit : c :: rest =
      (c :: rest.takeWhile Text.isWordChar) ++ rest.dropWhile Text.isWordChar := by
    rw [List.cons_append, List.takeWhile_append_dropWhile]
  rw [word]
  cases h : Reserved.lookup case (c :: rest.takeWhile Text.isWordChar) with
  | some kind =>
      obtain ⟨hkind, hspelling⟩ := lookup_eq_some_iff.mp h
      exact ⟨_, hsplit, .lexeme (.reserved hc hwhole hkind hspelling)⟩
  | none => exact ⟨_, hsplit, .lexeme (.name hc hwhole (lookup_eq_none_iff.mp h))⟩

lemma fits_operator (hc : isOperatorChar c = true) (rest : Text) :
    Fits case (c :: rest) (operator c rest) := by
  have hwhole := (Whole.takeWhile isOperatorChar rest).cons hc
  have hsplit : c :: rest =
      (c :: rest.takeWhile isOperatorChar) ++ rest.dropWhile isOperatorChar := by
    rw [List.cons_append, List.takeWhile_append_dropWhile]
  rw [operator]
  cases h : operator? (c :: rest.takeWhile isOperatorChar) with
  | some kind =>
      obtain ⟨hkind, hspelling⟩ := operator?_eq_some_iff.mp h
      exact ⟨_, hsplit, .lexeme (.operator hwhole hkind hspelling)⟩
  | none =>
      have hfree := operator?_eq_none_iff.mp h
      cases hrun : rest.takeWhile isOperatorChar with
      | nil =>
          rw [hrun] at hwhole hsplit hfree
          exact ⟨_, hsplit, .plain (.loneOperator hwhole hfree) rfl⟩
      | cons d more =>
          rw [hrun] at hwhole hsplit hfree
          exact ⟨_, hsplit, .plain (.operator hwhole hfree) rfl⟩

/-! ## Rejected spans -/

/-- A text has no separator, or a first one. -/
lemma first_separator (text : Text) : (∀ d ∈ text, separator? d = none) ∨
    ∃ front d s behind, text = front ++ d :: behind ∧ (∀ d ∈ front, separator? d = none) ∧
      separator? d = some s := by
  induction text with
  | nil => exact .inl nofun
  | cons d text ih =>
      cases hd : separator? d with
      | some s => exact .inr ⟨[], d, s, text, rfl, nofun, hd⟩
      | none =>
          rcases ih with hnone | ⟨front, e, s, behind, rfl, hfront, he⟩
          · exact .inl (List.forall_mem_cons.mpr ⟨hd, hnone⟩)
          · exact .inr ⟨d :: front, e, s, behind, rfl, List.forall_mem_cons.mpr ⟨hd, hfront⟩, he⟩

lemma whole_separator {front : Text} {d : Char} {s : Sign}
    (hfront : ∀ d ∈ front, separator? d = none) (hd : separator? d = some s) (behind : Text) :
    Whole (fun c => !isSeparator c) front (d :: behind) where
  all e he := by simp [isSeparator, hfront e he]
  ends e he := by
    cases he
    simp [isSeparator, hd]

lemma salvage_none {fault : LexicalFault} {span after : Text}
    (h : ∀ d ∈ span ++ after.take 1, separator? d = none) :
    salvage fault span after = ⟨span, .fault fault none⟩ := by
  have hdrop : (span ++ after.take 1).dropWhile (fun c => !isSeparator c) = [] :=
    List.dropWhile_eq_nil_iff.mpr fun d hd => by simp [isSeparator, h d hd]
  rw [salvage]
  simp only [hdrop]

lemma salvage_some {fault : LexicalFault} {span after front behind : Text} {d : Char} {s : Sign}
    (h : span ++ after.take 1 = front ++ d :: behind) (hfront : ∀ d ∈ front, separator? d = none)
    (hd : separator? d = some s) :
    salvage fault span after = ⟨front ++ [d], .fault fault (some s)⟩ := by
  have hwhole := whole_separator hfront hd behind
  rw [salvage]
  simp only [h, hwhole.dropWhile_eq, hwhole.takeWhile_eq, hd]

/-- What is searched for a separator is the rejected text and the character behind it. -/
lemma fits_salvage {fault : LexicalFault} {after : Text} (h : Rejected fault after)
    (hsalvages : salvages fault = true) :
    Fits case (fault.payload ++ after) (salvage fault fault.payload after) := by
  rcases first_separator (fault.payload ++ after.take 1) with hnone | ⟨front, d, s, behind, hsplit,
    hfront, hd⟩
  · rw [salvage_none hnone]
    exact ⟨after, rfl, .lost h fun _ => hnone⟩
  · have hall : fault.payload ++ after = front ++ d :: (behind ++ after.drop 1) := by
      rw [← List.cons_append, ← List.append_assoc, ← hsplit, List.append_assoc,
        List.take_append_drop]
    have hlength := congrArg List.length hsplit
    simp only [List.length_append, List.length_cons, List.length_take] at hlength
    rw [salvage_some hsplit hfront hd]
    exact ⟨behind ++ after.drop 1, by simpa using hall,
      .kept h hsalvages hall hfront (by omega) hd⟩

/-! ## Numbers -/

lemma digits_iff {text : Text} : (!text.isEmpty && text.all Char.isDigit) = true ↔ Digits text := by
  simp only [Bool.and_eq_true, Bool.not_eq_true', List.isEmpty_eq_false_iff, List.all_eq_true,
    Digits]

lemma fits_integer {more behind : Text} (hc : c.isDigit = true) (h : Whole Char.isDigit more behind)
    (hend : ∀ d ∈ behind.head?, continuesInteger d = false) :
    Fits case (c :: more ++ behind) (integer (c :: more)) := by
  rw [integer]
  by_cases hn : Text.ofDigits (c :: more) ≤ maxInteger
  · rw [if_pos hn]
    exact ⟨behind, rfl, .lexeme (.integer hc h hend hn)⟩
  · rw [if_neg hn]
    exact ⟨behind, rfl, .plain (.tooLarge hc h hend (by omega)) rfl⟩

lemma decimal_float {whole fraction : Text} (h : Digits fraction) :
    decimal whole ('.' :: fraction) = ⟨whole ++ '.' :: fraction,
      .lexeme .float (some (.float (Binary64.ofDecimal whole fraction)))⟩ := by
  rw [decimal]
  exact if_pos (digits_iff.mpr h)

lemma decimal_malformed {whole run : Text} (h : ¬ Digits run) :
    decimal whole ('.' :: run) = ⟨whole ++ '.' :: run,
      .fault (.malformedNumber (whole ++ '.' :: run)) none⟩ := by
  rw [decimal]
  exact if_neg fun hrun => h (digits_iff.mp hrun)

lemma fits_decimal {whole : Text} (hwhole : Digits whole) (behind : Text) :
    Fits case (whole ++ '.' :: behind) (decimal whole (('.' :: behind).takeWhile isNumberChar)) := by
  have hrun := Whole.takeWhile isNumberChar behind
  have hsplit : whole ++ '.' :: behind = (whole ++ '.' :: behind.takeWhile isNumberChar) ++
      behind.dropWhile isNumberChar := by
    rw [List.append_assoc, List.cons_append, List.takeWhile_append_dropWhile]
  rw [List.takeWhile_cons_of_pos rfl]
  by_cases hfraction : Digits (behind.takeWhile isNumberChar)
  · rw [decimal_float hfraction]
    exact ⟨_, hsplit, .lexeme (.float hwhole hfraction hrun.ends)⟩
  · rw [decimal_malformed hfraction]
    exact ⟨_, hsplit, .plain (.fraction hwhole hrun hfraction) rfl⟩

/-- A letter behind digits makes them the beginning of a name that is rejected. -/
lemma fits_name {digits behind : Text} {d : Char} (hdigits : Digits digits)
    (hd : Text.isWordStart d = true) :
    Fits case (digits ++ d :: behind)
      (salvage (.invalidIdentifier (digits ++ (d :: behind).takeWhile Text.isWordChar))
        (digits ++ (d :: behind).takeWhile Text.isWordChar)
        ((d :: behind).dropWhile Text.isWordChar)) := by
  have hd' : Text.isWordChar d = true := by simp [Text.isWordChar, hd]
  have hsplit : digits ++ d :: behind = (digits ++ d :: behind.takeWhile Text.isWordChar) ++
      behind.dropWhile Text.isWordChar := by
    rw [List.append_assoc, List.cons_append, List.takeWhile_append_dropWhile]
  rw [List.takeWhile_cons_of_pos hd', List.dropWhile_cons_of_pos hd', hsplit]
  exact fits_salvage (.name hdigits hd (.takeWhile _ behind)) rfl

lemma number_integer {more behind : Text} (h : Whole Char.isDigit more behind)
    (hend : ∀ d ∈ behind.head?, continuesInteger d = false) :
    number c (more ++ behind) = integer (c :: more) := by
  rw [number, h.takeWhile_eq, h.dropWhile_eq]
  cases behind with
  | nil => rfl
  | cons d behind =>
      have hd := hend d rfl
      simp only [continuesInteger, Bool.or_eq_false_iff, beq_eq_false_iff_ne] at hd
      simp only
      rw [if_neg hd.1, if_neg (by simp [hd.2])]

lemma number_decimal {more behind : Text} (h : Whole Char.isDigit more ('.' :: behind)) :
    number c (more ++ '.' :: behind) =
      decimal (c :: more) (('.' :: behind).takeWhile isNumberChar) := by
  rw [number, h.takeWhile_eq, h.dropWhile_eq]
  exact if_pos rfl

lemma number_name {more behind : Text} {d : Char} (h : Whole Char.isDigit more (d :: behind))
    (hd : Text.isWordStart d = true) : number c (more ++ d :: behind) =
      salvage (.invalidIdentifier (c :: more ++ (d :: behind).takeWhile Text.isWordChar))
        (c :: more ++ (d :: behind).takeWhile Text.isWordChar)
        ((d :: behind).dropWhile Text.isWordChar) := by
  have hpoint : d ≠ '.' := by rintro rfl; cases hd
  rw [number, h.takeWhile_eq, h.dropWhile_eq]
  simp only
  rw [if_neg hpoint, if_pos hd]

lemma fits_number (hc : c.isDigit = true) (rest : Text) :
    Fits case (c :: rest) (number c rest) := by
  have hwhole := Whole.takeWhile Char.isDigit rest
  have hdigits : Digits (c :: rest.takeWhile Char.isDigit) := ⟨by simp, (hwhole.cons hc).all⟩
  rw [← List.takeWhile_append_dropWhile (p := Char.isDigit) (l := rest)]
  generalize rest.takeWhile Char.isDigit = more at hwhole hdigits ⊢
  generalize rest.dropWhile Char.isDigit = behind at hwhole ⊢
  by_cases hend : ∀ d ∈ behind.head?, continuesInteger d = false
  · rw [number_integer hwhole hend]
    exact fits_integer hc hwhole hend
  · obtain ⟨d, behind, rfl, hd⟩ : ∃ d more, behind = d :: more ∧ continuesInteger d = true := by
      cases behind with
      | nil => simp at hend
      | cons d behind => exact ⟨d, behind, rfl, by simpa using hend⟩
    simp only [continuesInteger, Bool.or_eq_true, beq_iff_eq] at hd
    rcases hd with rfl | hd
    · rw [number_decimal hwhole]
      exact fits_decimal hdigits behind
    · rw [number_name hwhole hd]
      exact fits_name hdigits hd

lemma fits_point (rest : Text) : Fits case ('.' :: rest) (point rest) := by
  cases rest with
  | nil => exact ⟨[], rfl, .plain (.lonePoint (by simp)) rfl⟩
  | cons d rest =>
      rw [point]
      by_cases hd : d.isDigit = true
      · have hd' : isNumberChar d = true := by simp [isNumberChar, hd]
        rw [if_pos hd, List.takeWhile_cons_of_pos hd']
        refine ⟨rest.dropWhile isNumberChar, ?_, .plain (.point hd (.takeWhile _ rest)) rfl⟩
        simp [List.takeWhile_append_dropWhile]
      · rw [if_neg hd]
        refine ⟨d :: rest, rfl, .plain (.lonePoint fun e he => ?_) rfl⟩
        cases he
        simpa using hd

/-! ## Quoted texts -/

lemma isCharacterInside_iff : isCharacterInside c = true ↔ c ≠ '\'' ∧ c ≠ '\n' := by
  simp [isCharacterInside]

lemma isStringInside_iff : isStringInside c = true ↔ c ≠ '"' ∧ c ≠ '\n' := by
  simp [isStringInside]

lemma fits_character (rest : Text) : Fits case ('\'' :: rest) (character rest) := by
  have hwhole := Whole.takeWhile isCharacterInside rest
  have hinside : ∀ c ∈ rest.takeWhile isCharacterInside, c ≠ '\'' ∧ c ≠ '\n' :=
    fun c hc => isCharacterInside_iff.mp (hwhole.all c hc)
  have hsplit : '\'' :: rest =
      '\'' :: rest.takeWhile isCharacterInside ++ rest.dropWhile isCharacterInside := by
    rw [List.cons_append, List.takeWhile_append_dropWhile]
  rw [hsplit, character]
  generalize rest.takeWhile isCharacterInside = inside at hwhole hinside ⊢
  generalize rest.dropWhile isCharacterInside = behind at hwhole ⊢
  split
  · rename_i after
    have happend : '\'' :: inside ++ '\'' :: after = ('\'' :: inside ++ ['\'']) ++ after := by simp
    rw [happend]
    match inside with
    | [c] => exact ⟨after, rfl, .lexeme (.character (hinside c (by simp)))⟩
    | [] => exact fits_salvage .empty rfl
    | c :: d :: more => exact fits_salvage (.tooLong hinside (by simp)) rfl
  · rename_i hopen
    refine fits_salvage (.unterminated hwhole ?_) rfl
    rintro c hc rfl
    obtain ⟨after, rfl⟩ := List.head?_eq_some_iff.mp hc
    exact hopen after rfl

lemma fits_string (rest : Text) : Fits case ('"' :: rest) (string rest) := by
  have hwhole := Whole.takeWhile isStringInside rest
  have hsplit : rest = rest.takeWhile isStringInside ++ rest.dropWhile isStringInside :=
    List.takeWhile_append_dropWhile.symm
  rw [string]
  split
  · rename_i after hclosed
    rw [hclosed] at hsplit
    refine ⟨after, by simpa using hsplit, .lexeme (.string fun c hc => ?_)⟩
    exact isStringInside_iff.mp (hwhole.all c hc)
  · rename_i hopen
    refine ⟨rest, rfl, ?_⟩
    rw [hsplit]
    refine .plain (.openQuote hwhole ?_) rfl
    rintro c hc rfl
    obtain ⟨after, hafter⟩ := List.head?_eq_some_iff.mp hc
    exact hopen after hafter

/-! ## The front of a program -/

lemma fits_comment (rest : Text) : Fits case ('#' :: rest) (comment rest) := by
  refine ⟨rest.dropWhile (· != '\n'), ?_, .blank (.comment (.takeWhile _ rest))⟩
  rw [comment, List.cons_append, List.takeWhile_append_dropWhile]

/-- **What is cut can stand there.** -/
theorem fits_first (case : KeywordCase) (c : Char) (rest : Text) :
    Fits case (c :: rest) (first case c rest) := by
  by_cases hblank : isBlank c = true
  · rw [first_blank hblank]
    exact ⟨rest, rfl, .blank (.space hblank)⟩
  by_cases hcomment : c = '#'
  · subst hcomment
    exact fits_comment rest
  by_cases hword : Text.isWordStart c = true
  · rw [first_word hword]
    exact fits_word hword rest
  by_cases hdigit : c.isDigit = true
  · rw [first_number hdigit]
    exact fits_number hdigit rest
  by_cases hpoint : c = '.'
  · subst hpoint
    exact fits_point rest
  by_cases hquote : c = '\''
  · subst hquote
    exact fits_character rest
  by_cases hdouble : c = '"'
  · subst hdouble
    exact fits_string rest
  by_cases hoperator : isOperatorChar c = true
  · rw [first_operator hoperator]
    exact fits_operator hoperator rest
  cases hsign : sign? c with
  | some s =>
      have hspelling := sign?_eq_some hsign
      rw [first_sign hspelling]
      exact ⟨rest, rfl, .lexeme (hspelling ▸ .sign s)⟩
  | none =>
      have hstray : Stray c := ⟨by simpa using hblank, hcomment, by simpa using hword,
        by simpa using hdigit, hpoint, hquote, hdouble, hsign, by simpa using hoperator⟩
      rw [first_stray hstray]
      exact ⟨rest, rfl, .plain (.stray hstray) rfl⟩

/-! ## Nothing else can stand there -/

lemma front?_cons (case : KeywordCase) (c : Char) (rest : Text) :
    front? case (c :: rest) = some (first case c rest) := rfl

lemma Blank.front_eq {text behind : Text} (h : Blank text behind) :
    front? case (text ++ behind) = some ⟨text, .blank⟩ := by
  cases h with
  | space h => rw [List.singleton_append, front?_cons, first_blank h]
  | comment h => rw [List.cons_append, front?_cons, first_comment, Piece.comment,
      h.takeWhile_eq]

lemma Digits.cons {digits : Text} (h : Digits digits) :
    ∃ c more, digits = c :: more ∧ c.isDigit = true ∧ ∀ d ∈ more, d.isDigit = true := by
  obtain ⟨c, more, rfl⟩ := List.exists_cons_of_ne_nil h.1
  exact ⟨c, more, rfl, List.forall_mem_cons.mp h.2⟩

/-- Digits with a fraction behind a point are read as a decimal. -/
lemma front_decimal {whole run behind : Text} (hwhole : Digits whole)
    (hrun : Whole isNumberChar run behind) :
    front? case (whole ++ '.' :: run ++ behind) = some (decimal whole ('.' :: run)) := by
  obtain ⟨c, more, rfl, hc, hmore⟩ := hwhole.cons
  have hdigits : Whole Char.isDigit more ('.' :: (run ++ behind)) :=
    ⟨hmore, fun d hd => by cases hd; rfl⟩
  rw [List.append_assoc, List.cons_append, List.cons_append, front?_cons, first_number hc,
    number_decimal hdigits, ← List.cons_append, (hrun.cons rfl).takeWhile_eq]

lemma whole_character {inside : Text} (h : ∀ c ∈ inside, c ≠ '\'' ∧ c ≠ '\n') (behind : Text) :
    Whole isCharacterInside inside ('\'' :: behind) :=
  ⟨fun c hc => isCharacterInside_iff.mpr (h c hc), fun c hc => by cases hc; rfl⟩

lemma whole_string {inside : Text} (h : ∀ c ∈ inside, c ≠ '"' ∧ c ≠ '\n') (behind : Text) :
    Whole isStringInside inside ('"' :: behind) :=
  ⟨fun c hc => isStringInside_iff.mpr (h c hc), fun c hc => by cases hc; rfl⟩

lemma Lexeme.front_eq {text behind : Text} {kind : Kind} {value : Option Value}
    (h : Lexeme case text behind kind value) :
    front? case (text ++ behind) = some ⟨text, .lexeme kind value⟩ := by
  cases h with
  | reserved hc h hkind hspelling =>
      rw [List.cons_append, front?_cons, first_word hc, word, h.takeWhile_eq,
        lookup_eq_some_iff.mpr ⟨hkind, hspelling⟩]
  | name hc h hfree =>
      rw [List.cons_append, front?_cons, first_word hc, word, h.takeWhile_eq,
        lookup_eq_none_iff.mpr hfree]
  | integer hc h hend hn =>
      rw [List.cons_append, front?_cons, first_number hc, number_integer h hend,
        Piece.integer, if_pos hn]
  | @float _ fraction _ hwhole hfraction hend =>
      have hrun : Whole isNumberChar fraction behind :=
        ⟨fun d hd => by simp [isNumberChar, hfraction.2 d hd], hend⟩
      rw [front_decimal hwhole hrun, decimal_float hfraction]
  | @character c _ hc =>
      have hinside : ∀ d ∈ [c], d ≠ '\'' ∧ d ≠ '\n' := by simpa using hc
      have hwhole := whole_character hinside behind
      change some (Piece.character ([c] ++ '\'' :: behind)) = _
      rw [Piece.character, hwhole.dropWhile_eq, hwhole.takeWhile_eq]
      rfl
  | @string inside _ h =>
      have hwhole := whole_string h behind
      have hsplit : '"' :: inside ++ ['"'] ++ behind = '"' :: (inside ++ '"' :: behind) := by simp
      rw [hsplit, front?_cons, first_string, Piece.string, hwhole.dropWhile_eq, hwhole.takeWhile_eq]
      rfl
  | sign s =>
      obtain ⟨c, hc⟩ : ∃ c, s.spelling.toList = [c] := by cases s <;> exact ⟨_, rfl⟩
      rw [hc, List.singleton_append, front?_cons, first_sign hc]
  | operator h hkind hspelling =>
      obtain ⟨hc, hmore⟩ := List.forall_mem_cons.mp h.all
      rw [List.cons_append, front?_cons, first_operator hc, Piece.operator,
        Whole.takeWhile_eq ⟨hmore, h.ends⟩, operator?_eq_some_iff.mpr ⟨hkind, hspelling⟩]

/-- A rejected text is taken whole, and searched for a separator if its fault asks for that. -/
lemma Rejected.front_eq {fault : LexicalFault} {after : Text} (h : Rejected fault after) :
    front? case (fault.payload ++ after) =
      some (if salvages fault then salvage fault fault.payload after
        else ⟨fault.payload, .fault fault none⟩) := by
  cases h with
  | tooLarge hc h hend hn =>
      change front? case (_ :: _ ++ after) = _
      rw [List.cons_append, front?_cons, first_number hc, number_integer h hend, Piece.integer,
        if_neg (by omega)]
      rfl
  | fraction hwhole h hrun =>
      change front? case (_ ++ '.' :: _ ++ after) = _
      rw [front_decimal hwhole h, decimal_malformed hrun]
      rfl
  | @point d more _ hd h =>
      have hd' : isNumberChar d = true := by simp [isNumberChar, hd]
      change some (Piece.point (d :: more ++ after)) = _
      rw [List.cons_append, Piece.point, if_pos hd, ← List.cons_append, (h.cons hd').takeWhile_eq]
      rfl
  | lonePoint h =>
      change some (Piece.point after) = some (illegal '.')
      cases after with
      | nil => rfl
      | cons d after => rw [Piece.point, if_neg (by simp [h d rfl])]
  | @name digits c more _ hdigits hc h =>
      obtain ⟨d, others, rfl, hd, hothers⟩ := hdigits.cons
      have hc' : Text.isWordChar c = true := by simp [Text.isWordChar, hc]
      have hrun : Whole Char.isDigit others (c :: (more ++ after)) :=
        ⟨hothers, fun e he => by
          cases he
          cases hdigit : c.isDigit with
          | false => rfl
          | true => rw [isWordStart_of_isDigit hdigit] at hc; cases hc⟩
      change some (first case d (others ++ c :: more ++ after)) = _
      rw [List.append_assoc, List.cons_append, first_number hd, number_name hrun hc,
        ← List.cons_append, (h.cons hc').takeWhile_eq, (h.cons hc').dropWhile_eq]
      rfl
  | @unterminated inside _ h hend =>
      change some (Piece.character (inside ++ after)) = _
      rw [Piece.character, h.takeWhile_eq, h.dropWhile_eq]
      split
      · exact absurd rfl (hend _ rfl)
      · rfl
  | empty => rfl
  | @tooLong inside _ h hlength =>
      have hwhole := whole_character h after
      have hsplit : '\'' :: inside ++ ['\''] ++ after = '\'' :: (inside ++ '\'' :: after) := by simp
      change front? case ('\'' :: inside ++ ['\''] ++ after) = _
      rw [hsplit, front?_cons, first_character, Piece.character, hwhole.dropWhile_eq,
        hwhole.takeWhile_eq]
      obtain ⟨c, more, rfl⟩ := List.exists_cons_of_length_pos (Nat.zero_lt_of_lt hlength)
      obtain ⟨d, more, rfl⟩ := List.exists_cons_of_length_pos (Nat.lt_of_succ_lt_succ hlength)
      rfl
  | @openQuote inside after h hend =>
      change some (Piece.string (inside ++ after)) = _
      rw [Piece.string, h.dropWhile_eq]
      split
      · exact absurd rfl (hend _ rfl)
      · rfl
  | @operator c d more _ h hfree =>
      obtain ⟨hc, hmore⟩ := List.forall_mem_cons.mp h.all
      change front? case (c :: (d :: more) ++ after) = _
      rw [List.cons_append, front?_cons, first_operator hc, Piece.operator,
        Whole.takeWhile_eq ⟨hmore, h.ends⟩, operator?_eq_none_iff.mpr hfree]
      rfl
  | @loneOperator c _ h hfree =>
      change front? case (c :: ([] ++ after)) = _
      rw [front?_cons, first_operator (h.all c (by simp)), Piece.operator,
        Whole.takeWhile_eq ⟨by simp, h.ends⟩, operator?_eq_none_iff.mpr hfree]
      rfl
  | stray hc =>
      change some (first case _ after) = _
      rw [first_stray hc]
      rfl

/-- **What can stand there is cut.** -/
theorem Stands.front_eq {text behind : Text} {content : Content}
    (h : Stands case text behind content) : front? case (text ++ behind) = some ⟨text, content⟩ := by
  cases h with
  | blank h => exact h.front_eq
  | lexeme h => exact h.front_eq
  | @lost fault _ h hnone =>
      rw [h.front_eq]
      by_cases hsalvages : salvages fault = true
      · rw [if_pos hsalvages, salvage_none (hnone hsalvages)]
      · rw [if_neg hsalvages]
  | @kept fault after front _ c s h hsalvages hsplit hfront hle hc =>
      -- the first separator lies in the stretch that is searched
      have hreach : fault.payload ++ after.take 1 =
          front ++ c :: behind.take (fault.payload.length - front.length) := by
        have hlength : fault.payload.length + 1 =
            front.length + (fault.payload.length - front.length + 1) := by omega
        rw [← List.take_length_add_append, hsplit, hlength, List.take_length_add_append,
          List.take_succ_cons]
      rw [List.append_assoc, List.singleton_append, ← hsplit, h.front_eq, if_pos hsalvages,
        salvage_some hreach hfront hc]

/-! ## Whole programs -/

lemma Blank.ne_nil {text behind : Text} (h : Blank text behind) : text ≠ [] := by
  cases h <;> simp

lemma Lexeme.ne_nil {text behind : Text} {kind : Kind} {value : Option Value}
    (h : Lexeme case text behind kind value) : text ≠ [] := by
  cases h with
  | sign s => cases s <;> exact List.cons_ne_nil _ _
  | _ => simp

lemma Rejected.ne_nil {fault : LexicalFault} {after : Text} (h : Rejected fault after) :
    fault.payload ≠ [] := by
  cases h <;> simp [LexicalFault.payload]

lemma Stands.ne_nil {text behind : Text} {content : Content}
    (h : Stands case text behind content) : text ≠ [] := by
  cases h with
  | blank h => exact h.ne_nil
  | lexeme h => exact h.ne_nil
  | lost h => exact h.ne_nil
  | kept => simp

/-- **A program is cut behind a piece that can stand at its front.** -/
theorem Stands.cut_eq {text behind : Text} {content : Content}
    (h : Stands case text behind content) :
    cut case (text ++ behind) = ⟨text, content⟩ :: cut case behind := by
  obtain ⟨c, more, rfl⟩ := List.exists_cons_of_ne_nil h.ne_nil
  have hfirst : first case c (more ++ behind) = ⟨c :: more, content⟩ := Option.some.inj h.front_eq
  rw [List.cons_append, cut, hfirst]
  simp

end Imperativo.Piece
