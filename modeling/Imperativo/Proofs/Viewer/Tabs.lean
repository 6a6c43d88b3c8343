import Imperativo.Viewer.Highlight
import Mathlib.Tactic

/-!
# Blanks for tabs

A tab reaches to the next stop, and how many blanks that takes depends on the column in which it
stands, hence on all the tabs in front of it.  The column counts only up to the distance of the
stops (`expandTabsFrom_stop`), so that behind a stop a line goes on as it does at its start; and
what a line is turned into depends on the column in one way only (`Tabbed.unique`).

* `Tabbed` — what it means that blanks stand for the tabs of a line.
* **`expandTabs_stops`** — blanks stand for the tabs of a line and for nothing else; doing it twice
  changes nothing, and what follows a stop may be treated on its own.
-/

namespace Imperativo

/-- The second text is the first one with blanks for its tabs, if the two start in `column`.  A tab
is replaced by at least one blank and at most `width` of them, and the column behind them is a
multiple of `width`; any other character is kept, and takes one column. -/
inductive Tabbed (width : Nat) : Nat → Text → Text → Prop
  | done {column : Nat} : Tabbed width column [] []
  | character {column : Nat} {c : Char} {rest out : Text} (hc : c ≠ '\t')
      (h : Tabbed width (column + 1) rest out) : Tabbed width column (c :: rest) (c :: out)
  | tab {column pad : Nat} {rest out : Text} (hpos : 1 ≤ pad) (hle : pad ≤ width)
      (hstop : width ∣ column + pad) (h : Tabbed width (column + pad) rest out) :
      Tabbed width column ('\t' :: rest) (List.replicate pad ' ' ++ out)

variable {width column : Nat} {line : Text}

/-! ## Stops -/

/-- How many blanks a tab in `column` takes is settled by the next stop. -/
lemma pad_eq_iff (h : 0 < width) (pad : Nat) :
    1 ≤ pad ∧ pad ≤ width ∧ width ∣ column + pad ↔ pad = width - column % width := by
  have hlt : column % width < width := Nat.mod_lt _ h
  -- only the distance of the column from the last stop matters
  have hstop : width ∣ column + pad ↔ width ∣ column % width + pad := by
    have hsplit : column + pad = width * (column / width) + (column % width + pad) := by
      rw [← Nat.add_assoc, Nat.div_add_mod]
    rw [hsplit, Nat.dvd_add_right (Nat.dvd_mul_right _ _)]
  rw [hstop]
  constructor
  · rintro ⟨hpos, hle, hdvd⟩
    have hnext : column % width + pad = width :=
      Nat.eq_of_dvd_of_lt_two_mul (by omega) hdvd (by omega)
    omega
  · rintro rfl
    have hnext : column % width + (width - column % width) = width := by omega
    exact ⟨by omega, by omega, by rw [hnext]⟩

/-! ## The equations of a line -/

lemma expandTabsFrom_tab (width column : Nat) (rest : Text) :
    expandTabsFrom width column ('\t' :: rest) =
      List.replicate (width - column % width) ' ' ++
        expandTabsFrom width (column + (width - column % width)) rest := by
  rw [expandTabsFrom, if_pos rfl]

lemma expandTabsFrom_character {c : Char} (hc : c ≠ '\t') (rest : Text) :
    expandTabsFrom width column (c :: rest) = c :: expandTabsFrom width (column + 1) rest := by
  rw [expandTabsFrom, if_neg hc]

/-! ## What stands for the tabs -/

lemma tabbed_expandTabsFrom (h : 0 < width) (column : Nat) (line : Text) :
    Tabbed width column line (expandTabsFrom width column line) := by
  induction line generalizing column with
  | nil => exact .done
  | cons c rest ih =>
      by_cases hc : c = '\t'
      · subst hc
        obtain ⟨hpos, hle, hstop⟩ := (pad_eq_iff h _).mpr rfl
        rw [expandTabsFrom_tab]
        exact .tab hpos hle hstop (ih _)
      · rw [expandTabsFrom_character hc]
        exact .character hc (ih _)

/-- **There is one way to put blanks for the tabs of a line.** -/
lemma Tabbed.unique {out : Text} (hw : 0 < width) (h : Tabbed width column line out) :
    out = expandTabsFrom width column line := by
  induction h with
  | done => rfl
  | character hc _ ih => rw [expandTabsFrom_character hc, ih]
  | tab hpos hle hstop _ ih =>
      rw [expandTabsFrom_tab, ← (pad_eq_iff hw _).mp ⟨hpos, hle, hstop⟩, ih]

lemma Tabbed.tab_notMem {out : Text} (h : Tabbed width column line out) : '\t' ∉ out := by
  induction h with
  | done => exact List.not_mem_nil
  | character hc _ ih => exact List.not_mem_cons_of_ne_of_not_mem hc.symm ih
  | tab _ _ _ _ ih =>
      rw [List.mem_append, not_or]
      refine ⟨fun hmem => ?_, ih⟩
      cases (List.mem_replicate.mp hmem).2

/-- A line without tabs is kept. -/
lemma expandTabsFrom_of_notMem (h : '\t' ∉ line) (width column : Nat) :
    expandTabsFrom width column line = line := by
  induction line generalizing column with
  | nil => rfl
  | cons c rest ih =>
      rw [List.mem_cons, not_or] at h
      rw [expandTabsFrom_character (Ne.symm h.1), ih h.2]

/-! ## Columns and stops -/

/-- A line goes on in the column behind what its front is turned into. -/
lemma expandTabsFrom_append (width column : Nat) (a b : Text) :
    expandTabsFrom width column (a ++ b) = expandTabsFrom width column a ++
      expandTabsFrom width (column + (expandTabsFrom width column a).length) b := by
  induction a generalizing column with
  | nil => rfl
  | cons c a ih =>
      by_cases hc : c = '\t'
      · subst hc
        rw [List.cons_append, expandTabsFrom_tab, expandTabsFrom_tab, ih, List.append_assoc,
          List.length_append, List.length_replicate, Nat.add_assoc]
      · rw [List.cons_append, expandTabsFrom_character hc, expandTabsFrom_character hc, ih,
          List.cons_append, List.length_cons, Nat.add_assoc, Nat.add_comm 1]

/-- Columns that are a number of stops apart are as good as each other. -/
lemma expandTabsFrom_stop {shift : Nat} (h : width ∣ shift) (column : Nat) (line : Text) :
    expandTabsFrom width (column + shift) line = expandTabsFrom width column line := by
  induction line generalizing column with
  | nil => rfl
  | cons c rest ih =>
      by_cases hc : c = '\t'
      · have hmod : (column + shift) % width = column % width := by
          rw [Nat.add_mod, Nat.mod_eq_zero_of_dvd h, Nat.add_zero, Nat.mod_mod]
        subst hc
        rw [expandTabsFrom_tab, expandTabsFrom_tab, hmod, Nat.add_right_comm, ih]
      · rw [expandTabsFrom_character hc, expandTabsFrom_character hc, Nat.add_right_comm, ih]

/-- **Tabs are filled up to stops.**  Blanks stand for the tabs of a line, as they can in one way
only, and no tab is left; a width of zero counts as one.  A line without its tabs is kept, so that
doing it twice is the same as doing it once.  Where a front of the line is turned into a text that
ends at a stop, what follows is treated as a line of its own. -/
theorem expandTabs_stops (width : Nat) (line : Text) :
    (∀ out, Tabbed (max width 1) 0 line out ↔ out = expandTabs width line) ∧
      '\t' ∉ expandTabs width line ∧
      expandTabs width (expandTabs width line) = expandTabs width line ∧
      ∀ a b, line = a ++ b → max width 1 ∣ (expandTabs width a).length →
        expandTabs width line = expandTabs width a ++ expandTabs width b := by
  have hw : 0 < max width 1 := by omega
  have htabbed : Tabbed (max width 1) 0 line (expandTabs width line) :=
    tabbed_expandTabsFrom hw 0 line
  refine ⟨fun out => ⟨fun h => h.unique hw, ?_⟩, htabbed.tab_notMem, ?_, ?_⟩
  · rintro rfl
    exact htabbed
  · exact expandTabsFrom_of_notMem htabbed.tab_notMem _ _
  · rintro a b rfl hstop
    rw [expandTabs, expandTabsFrom_append]
    exact congrArg (_ ++ ·) (expandTabsFrom_stop hstop 0 b)

/-- Two tabs of different widths, and one behind a stop. -/
example : expandTabs 4 "ab\tñ\t\tc".toList = "ab  ñ       c".toList := by decide

end Imperativo
