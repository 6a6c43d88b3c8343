import Imperativo.Proofs.Diagnostic.Grouping
import Imperativo.Proofs.Viewer.Scrolling

/-!
# A jump shows the line of its diagnostic

A jump takes the diagnostic at the top of its pane and moves the window of the source to the line
that the diagnostic is on.  Neither of the two offsets need be in range where it is used: the one of
the diagnostics is, because the pane has just been drawn (`top_drawIn`), and the one of the source is
brought into range by the next drawing, which moves the window up at most, and never so far that the
line it started with leaves it at the bottom (`Pane.lt_clamp_add`).  That there is such a line at all
is what `line_analysis` says: diagnostics count newlines, and the pane has the lines of the program.

* **`showsLine_drawIn`** — a window that is moved to a line shows that line once it is drawn.
* **`jump_shows_line`** — after a jump, at any moment of a run, the line of the diagnostic is shown.
-/

namespace Imperativo

/-- An item at the offset stays in the window when the offset is brought into range. -/
lemma Pane.lt_clamp_add {offset total window : Nat} (h : offset < total) (hwindow : 0 < window) :
    offset < clamp offset total window + window := by
  unfold clamp
  split <;> omega

/-- The window of a pane with items. -/
lemma Pane.shown_items {p : Pane} {heading lines : List Line} (h : p.content = .items heading lines)
    (height offset : Nat) :
    p.shown height offset = (lines.drop offset).take (window height heading.length) := by
  rw [shown, h]

/-- Drawing a pane with items brings its offset into range. -/
lemma Pane.settledOffset_items {p : Pane} {heading lines : List Line}
    (h : p.content = .items heading lines) (height offset : Nat) :
    p.settledOffset height offset = clamp offset lines.length (window height heading.length) := by
  rw [settledOffset, h]

/-- A pane without a heading has all its rows for items. -/
lemma Pane.window_nil (height : Nat) : window height ([] : List Line).length = max (height - 2) 1 :=
  by
  simp only [window, visibleLines, List.length_nil]
  omega

lemma Focus.rows_pos (height : Nat) (f : Focus) : 0 < f.rows height := by
  cases f <;> simp only [rows] <;> omega

/-- The diagnostics of a program that is not empty are on its lines. -/
lemma line_of_ne_nil {case : KeywordCase} {source : Text} (hsource : source ≠ []) {d : Diagnostic}
    (hd : d ∈ (Analysis.ofSource case source).log.entries) :
    1 ≤ d.line ∧ d.line ≤ (Text.lines source).length := by
  have hlines : 0 < (Text.lines source).length :=
    Text.count_lt_length_linesAfter [] [] hsource
  have := line_analysis hd
  omega

namespace App

variable {app : App}

/-! ## The window of the source -/

/-- The window of the source has the line of a diagnostic, numbered and marked. -/
structure ShowsLine (app : App) (sizes : Focus → Size) (line : Nat) : Prop where
  offset_lt : app.offsets.source < line
  le_offset_add : line ≤ app.offsets.source + Focus.source.rows (sizes .source).height
  row : ∃ text, (Text.lines app.source)[line - 1]? = some text ∧
    ((app.pane .source).shown (sizes .source).height
      app.offsets.source)[line - 1 - app.offsets.source]? =
        some (sourceLine app.settings.case app.settings.tabWidth true line text)

/-- The items of the pane of the source are the lines of the program. -/
lemma content_source (app : App) :
    (app.pane .source).content = .items [] ((Text.lines app.source).zipIdx.map fun v =>
      sourceLine app.settings.case app.settings.tabWidth
        ((markedLines app.analysis.log).contains (v.2 + 1)) (v.2 + 1) v.1) := rfl

/-- What stands in a row of the window of the source. -/
lemma getElem?_shown_source (app : App) (height : Nat) {offset i : Nat} (hle : offset ≤ i)
    (hlt : i < offset + Focus.source.rows height) :
    ((app.pane .source).shown height offset)[i - offset]? =
      (Text.lines app.source)[i]?.map fun text => sourceLine app.settings.case
        app.settings.tabWidth ((markedLines app.analysis.log).contains (i + 1)) (i + 1) text := by
  have hrow : i - offset < Pane.window height ([] : List Line).length := by
    rw [Pane.window_nil]
    simp only [Focus.rows] at hlt
    omega
  have hat : offset + (i - offset) = i := by omega
  rw [Pane.shown_items (content_source app), List.getElem?_take_of_lt hrow, List.getElem?_drop,
    hat, List.getElem?_map, List.getElem?_zipIdx, Option.map_map, Nat.zero_add]
  rfl

/-- **A window that is moved to a line shows it once it is drawn**, if there is such a line and a
diagnostic is on it. -/
theorem showsLine_drawIn {d : Diagnostic} (hd : d ∈ app.analysis.log.entries) (hpos : 1 ≤ d.line)
    (hle : d.line ≤ (Text.lines app.source).length) (hoffset : app.offsets.source = d.line - 1)
    (sizes : Focus → Size) (width : Nat) : (app.drawIn sizes width).2.ShowsLine sizes d.line := by
  have hdrawn : (app.drawIn sizes width).2.offsets.source = Pane.clamp (d.line - 1)
      (Text.lines app.source).length (Focus.source.rows (sizes .source).height) := by
    have hdraw := offset_drawIn app sizes width .source
    rw [Pane.settledOffset_items (content_source app), Pane.window_nil, List.length_map,
      List.length_zipIdx] at hdraw
    rw [← hoffset]
    exact hdraw
  have hbelow := Pane.clamp_le (d.line - 1) (Text.lines app.source).length
    (Focus.source.rows (sizes .source).height)
  have habove : d.line - 1 < Pane.clamp (d.line - 1) (Text.lines app.source).length
      (Focus.source.rows (sizes .source).height) + Focus.source.rows (sizes .source).height :=
    Pane.lt_clamp_add (by omega) (Focus.rows_pos _ _)
  rw [← hdrawn] at hbelow habove
  have hnumber : d.line - 1 + 1 = d.line := by omega
  have hmarked : (markedLines app.analysis.log).contains d.line = true := by
    rw [List.contains_iff_mem]
    exact List.mem_map_of_mem hd
  have htext : (Text.lines app.source)[d.line - 1]? =
      some (Text.lines app.source)[d.line - 1] := List.getElem?_eq_getElem _
  refine ⟨by omega, by omega, _, htext, ?_⟩
  have hrow := getElem?_shown_source (app.drawIn sizes width).2 _ hbelow habove
  rw [hrow, hnumber]
  change (Text.lines app.source)[d.line - 1]?.map (sourceLine app.settings.case
    app.settings.tabWidth ((markedLines app.analysis.log).contains d.line) d.line) = _
  rw [htext, hmarked]
  rfl

/-! ## The top of the diagnostics -/

/-- After a drawing there is a diagnostic at the top of its pane, unless there is none at all. -/
lemma top_drawIn {case : KeywordCase} (hanalysis : app.analysis = Analysis.ofSource case app.source)
    (hentries : app.analysis.log.entries ≠ []) (sizes : Focus → Size) (width : Nat) :
    let drawn := (app.drawIn sizes width).2
    ∃ d, app.analysis.log.entries[drawn.offsets.diagnostics]? = some d ∧
      ((drawn.pane .diagnostics).shown (sizes .diagnostics).height
        drawn.offsets.diagnostics).head? = some (diagnosticRow d) := by
  intro drawn
  have hitems : 0 < app.items .diagnostics := List.length_pos_iff.mpr hentries
  have hlt : drawn.offsets.diagnostics < app.analysis.log.entries.length :=
    (settled_drawIn hanalysis sizes width hitems).lt_items
  have hne : ¬ app.analysis.log.isEmpty := by simpa [Log.isEmpty] using hentries
  have hcontent : (drawn.pane .diagnostics).content =
      .items [] (app.analysis.log.entries.map diagnosticRow) := if_neg hne
  have hwindow : Pane.window (sizes .diagnostics).height ([] : List Line).length ≠ 0 := by
    rw [Pane.window_nil]
    omega
  have htop := List.getElem?_eq_getElem hlt
  refine ⟨_, htop, ?_⟩
  rw [Pane.shown_items hcontent, List.head?_take, if_neg hwindow, List.head?_drop,
    List.getElem?_map, htop]
  rfl

/-- Enter in the pane of the diagnostics jumps to the one at the top. -/
lemma press_enter (hfocus : app.focus = .diagnostics) {d : Diagnostic}
    (hd : app.analysis.log.entries[app.offsets.diagnostics]? = some d) :
    app.press .enter = { app with
      offsets := app.offsets.set .source (d.line - 1), status := d.text, focus := .source } := by
  change (if app.focus = .diagnostics then app.jump else app) = _
  rw [if_pos hfocus, jump]
  simp only [hd]

/-- **A jump shows the line of its diagnostic.**  The diagnostics of a program that is not empty are
on its lines.  So, whatever keys were pressed and however large the panes were at each drawing, if
there is a diagnostic, the keys go to their pane and a drawing has just been made, then Enter makes
the diagnostic at the top of the pane the message and moves the focus to the source, where the next
drawing shows its line, whatever room there is. -/
theorem jump_shows_line (settings : Settings) (case : KeywordCase) (source fileName : Text)
    (hsource : source ≠ []) :
    (∀ d ∈ (Analysis.ofSource case source).log.entries,
      1 ≤ d.line ∧ d.line ≤ (Text.lines source).length) ∧
    ∀ (events : List Event) (sizes : Focus → Size) (width : Nat),
      let start := ofAnalysis settings source fileName (Analysis.ofSource case source)
      let app := start.run (events ++ [.draw sizes width])
      (Analysis.ofSource case source).log.entries ≠ [] → app.focus = .diagnostics →
      ∃ d, app.analysis.log.entries[app.offsets.diagnostics]? = some d ∧
        ((app.pane .diagnostics).shown (sizes .diagnostics).height
          app.offsets.diagnostics).head? = some (diagnosticRow d) ∧
        (app.press .enter).focus = .source ∧ (app.press .enter).status = d.text ∧
        ∀ sizes' width', ((app.press .enter).drawIn sizes' width').2.ShowsLine sizes' d.line := by
  refine ⟨fun d hd => line_of_ne_nil hsource hd, ?_⟩
  intro events sizes width start app hentries hfocus
  have hsame : start.SameProgram (start.run events) := .run start events
  have hanalysis : (start.run events).analysis =
      Analysis.ofSource case (start.run events).source := by
    rw [hsame.analysis_eq, hsame.source_eq]
    rfl
  have happ : app = ((start.run events).drawIn sizes width).2 := by
    simp [app, run, after]
  have hsameApp : start.SameProgram app := .run start _
  obtain ⟨d, htop, hshown⟩ := top_drawIn hanalysis (by rwa [hsame.analysis_eq]) sizes width
  rw [← happ] at htop hshown
  have hmem : d ∈ (Analysis.ofSource case source).log.entries := by
    have hd := List.mem_of_getElem? htop
    rwa [hsame.analysis_eq] at hd
  have htop' : app.analysis.log.entries[app.offsets.diagnostics]? = some d := by
    rw [hsameApp.analysis_eq, ← htop, hsame.analysis_eq]
  have hpress := press_enter hfocus htop'
  refine ⟨d, htop', hshown, by rw [hpress], by rw [hpress], fun sizes' width' => ?_⟩
  obtain ⟨hpos, hle⟩ := line_of_ne_nil hsource hmem
  rw [hpress]
  refine showsLine_drawIn ?_ hpos ?_ rfl sizes' width'
  · change d ∈ app.analysis.log.entries
    rwa [hsameApp.analysis_eq]
  · change d.line ≤ (Text.lines app.source).length
    rwa [hsameApp.source_eq]

/-- The second diagnostic, which is on the last of four lines, at the top of a window of one row,
and then that line in a window of two. -/
theorem jump_shows_line_last :
    let source := "programa p()\x7b\r\n\r\n\r\n x = ;".toList
    let start := ofSource .standard source "p.imp".toList
    let low : Focus → Size := fun _ => ⟨20, 3⟩
    let high : Focus → Size := fun _ => ⟨20, 4⟩
    let app := start.run [.draw low 40, .press .backTab, .press .down, .draw low 40]
    source ≠ [] ∧ start.analysis.log.entries ≠ [] ∧ app.focus = .diagnostics ∧
      app.offsets.diagnostics = 1 ∧ (app.press .enter).offsets.source = 3 ∧
      ((app.press .enter).drawIn high 40).2.offsets.source = 2 ∧
      ((app.press .enter).drawIn high 40).2.ShowsLine high 4 := by
  intro source start low high app
  have hsource : source ≠ [] := by decide
  -- sorting does not evaluate, but here nothing is moved
  let tokens := (tokenize .insensitive source).1
  let log := ((Parser.ofTokens tokens).parse .program).log
  have hlexical : (tokenize .insensitive source).2 = [] := by decide +kernel
  have hanalysis : Analysis.ofSource .insensitive source =
      ⟨tokens, ((Parser.ofTokens tokens).parse .program).ast?, Log.ofList log.entries⟩ := by
    change Analysis.mk _ _ ((Log.ofList (tokenize .insensitive source).2).merge log) = _
    rw [hlexical, Log.merge_of_ascends (by decide +kernel)]
    rfl
  have hstart : start = ofAnalysis .standard source "p.imp".toList ⟨tokens,
      ((Parser.ofTokens tokens).parse .program).ast?, Log.ofList log.entries⟩ :=
    congrArg (ofAnalysis .standard source "p.imp".toList) hanalysis
  have hentries : start.analysis.log.entries ≠ [] := by
    rw [hstart]
    decide +kernel
  have happ : app.focus = .diagnostics ∧ app.offsets.diagnostics = 1 ∧
      (app.analysis.log.entries[1]?).map Diagnostic.line = some 4 := by
    simp only [app]
    rw [hstart]
    decide +kernel
  have henter : (app.press .enter).offsets.source = 3 ∧
      ((app.press .enter).drawIn high 40).2.offsets.source = 2 := by
    simp only [app]
    rw [hstart]
    decide +kernel
  obtain ⟨hfocus, htop, hline⟩ := happ
  obtain ⟨d, hd, -, -, -, hshows⟩ :=
    (jump_shows_line .standard .insensitive source "p.imp".toList hsource).2
      [.draw low 40, .press .backTab, .press .down] low 40 hentries hfocus
  change app.analysis.log.entries[app.offsets.diagnostics]? = some d at hd
  rw [htop] at hd
  rw [hd, Option.map_some, Option.some_inj] at hline
  have hshown := hshows high 40
  rw [hline] at hshown
  exact ⟨hsource, hentries, hfocus, htop, henter.1, henter.2, hshown⟩

end App

end Imperativo
