import Imperativo.Proofs.Analysis.Outline
import Imperativo.Proofs.Analysis.Places
import Imperativo.Viewer.App

/-!
# Scrolling stays in range

Keys move offsets without a look at the panes, and a jump sets one to the line of a diagnostic, so
that between two drawings an offset may be anywhere up to the greatest one.  Every drawing brings it
back: in a pane with items it is then at most the number of items that do not fit, whatever room the
pane has.  This needs nothing of the keys before; what needs a walk over the whole run is that no
offset ever passes the greatest one (`Bounded.run`), on which the arithmetic of the keys relies, and
that the program shown is still the same (`SameProgram.run`).

* `Event`, `run` — keys and drawings in any order.
* **`settled_drawIn`** — after a drawing the window of a pane is in range.
* **`scrolled_press`** — a scroll key moves the offset of the focused pane and nothing else.
* **`scrolling_in_range`** — both of them, at any moment of a run.
-/

namespace Imperativo

/-! ## Offsets -/

namespace Offsets

variable {o o' : Offsets}

lemma get_set_self (o : Offsets) (f : Focus) (offset : Nat) : (o.set f offset).get f = offset := by
  cases f <;> rfl

lemma get_set_of_ne (o : Offsets) {f f' : Focus} (offset : Nat) (h : f' ≠ f) :
    (o.set f offset).get f' = o.get f' := by
  cases f <;> cases f' <;> first | rfl | exact absurd rfl h

lemma ext_get (h : ∀ f, o.get f = o'.get f) : o = o' := by
  obtain ⟨source, tokens, tree, diagnostics⟩ := o
  obtain rfl : source = o'.source := h .source
  obtain rfl : tokens = o'.tokens := h .tokens
  obtain rfl : tree = o'.tree := h .tree
  obtain rfl : diagnostics = o'.diagnostics := h .diagnostics
  rfl

end Offsets

/-! ## Windows -/

namespace Pane

lemma clamp_le (offset total window : Nat) : clamp offset total window ≤ offset := by
  unfold clamp
  split <;> omega

lemma clamp_le_sub (offset total window : Nat) :
    clamp offset total window ≤ total - window := by
  unfold clamp
  split <;> omega

lemma clamp_clamp (offset total window : Nat) :
    clamp (clamp offset total window) total window = clamp offset total window := by
  unfold clamp
  split <;> omega

/-- A window in range shows a full page, or everything. -/
lemma length_window {α : Type} (lines : List α) (offset window : Nat) :
    ((lines.drop (clamp offset lines.length window)).take window).length =
      min window lines.length := by
  have := clamp_le_sub offset lines.length window
  rw [List.length_take, List.length_drop]
  omega

lemma settledOffset_le (p : Pane) (height offset : Nat) :
    p.settledOffset height offset ≤ offset := by
  unfold settledOffset
  split
  · exact Nat.le_refl offset
  · exact clamp_le _ _ _

lemma settledOffset_settledOffset (p : Pane) (height offset : Nat) :
    p.settledOffset height (p.settledOffset height offset) = p.settledOffset height offset := by
  unfold settledOffset
  split
  · rfl
  · exact clamp_clamp _ _ _

end Pane

/-! ## Items -/

/-- The rows for items in a pane of `height` lines, of which the frame takes two and the heading of
the tokens one; one row is counted always. -/
def Focus.rows (height : Nat) : Focus → Nat
  | .tokens => max (max (height - 2) 1 - 1) 1
  | _ => max (height - 2) 1

/-- The lines of the pane of a sealed tree are the nodes of the tree. -/
lemma treeLines_seal (tree : Tree) :
    treeLines tree.seal = (tree.levels 0).map fun v => treeLine v.1 v.2 := by
  have hnode (v : Nat × Nat) :
      ((tree.seal.node? v.2).map fun node => treeLine v.1 node.heading) =
        (tree.seal.heading? v.2).map (treeLine v.1) := by
    rw [Ast.heading?, Option.map_map]
    rfl
  have hlevels := congrArg (List.filterMap fun (v : Nat × Option Heading) =>
    v.2.map (treeLine v.1)) tree.preorder_seal
  simp only [List.filterMap_map, Function.comp_def, Option.map_some] at hlevels
  simp only [treeLines, hnode, hlevels, List.filterMap_eq_map']

/-- The pane of the tree of a program has the lines of its outline. -/
lemma length_treeLines {case : KeywordCase} {source : Text} {ast : Ast}
    (h : (Analysis.ofSource case source).ast = some ast) :
    (treeLines ast).length = (Text.lines ast.outline).length := by
  have hast : ((Parser.ofTokens (tokenize case source).1).parse .program).ast? = some ast := h
  rw [parse_ast, Option.map_eq_some_iff] at hast
  obtain ⟨tree, htree, rfl⟩ := hast
  have hrows : ∀ row ∈ (tree.levels 0).map fun v => outlineRow v.1 v.2, '\n' ∉ row := by
    simp only [List.forall_mem_map]
    exact fun v hv => newline_notMem_outlineRow v.1 (newline_notMem_labels htree 0 v hv)
  rw [treeLines_seal, outline_seal, Text.lines_written hrows]
  simp only [List.length_map]

namespace App

variable {app app' : App}

/-- The number of items in each pane: lines of the program, tokens, lines of the outline, and
diagnostics. -/
def items (app : App) : Focus → Nat
  | .source => (Text.lines app.source).length
  | .tokens => app.analysis.tokens.length
  | .tree => ((app.analysis.ast.map Ast.outline).map fun o => (Text.lines o).length).getD 0
  | .diagnostics => app.analysis.log.size

/-- A pane with items shows them below a heading that leaves it its rows. -/
lemma content_pane {case : KeywordCase}
    (hanalysis : app.analysis = Analysis.ofSource case app.source) {f : Focus}
    (hitems : 0 < app.items f) :
    ∃ heading lines, (app.pane f).content = .items heading lines ∧ lines.length = app.items f ∧
      ∀ height, Pane.window height heading.length = f.rows height := by
  have hwindow (height : Nat) : Pane.window height 0 = max (height - 2) 1 := by
    simp only [Pane.window, Pane.visibleLines]
    omega
  cases f with
  | source =>
      refine ⟨[], _, rfl, ?_, hwindow⟩
      simp only [List.length_map, List.length_zipIdx, items]
  | tokens =>
      have hne : ¬ app.analysis.tokens.isEmpty := by
        simpa using List.ne_nil_of_length_pos hitems
      exact ⟨[tokensHeading], app.analysis.tokens.map tokenRow, if_neg hne, List.length_map _,
        fun _ => rfl⟩
  | tree =>
      cases hast : app.analysis.ast with
      | none => simp [items, hast] at hitems
      | some ast =>
          refine ⟨[], treeLines ast, ?_, ?_, hwindow⟩
          · rw [pane, hast]
            rfl
          · rw [items, hast]
            rw [hanalysis] at hast
            exact length_treeLines hast
  | diagnostics =>
      have hne : ¬ app.analysis.log.isEmpty := by
        simpa [Log.isEmpty] using List.ne_nil_of_length_pos hitems
      exact ⟨[], app.analysis.log.entries.map diagnosticRow, if_neg hne, List.length_map _, hwindow⟩

/-! ## Keys -/

/-- How far a scroll key moves an offset: a line, a page, or all the way. -/
def scrollStep? : Key → Option Int
  | .up => some (-1)
  | .down => some 1
  | .pageUp => some (-10)
  | .pageDown => some 10
  | .home => some (-maxOffset)
  | .last => some maxOffset
  | _ => none

/-- A scroll key moves the offset of the focused pane, to zero or the greatest offset at most. -/
lemma press_scroll (app : App) {key : Key} {step : Int} (hkey : scrollStep? key = some step) :
    ∃ move : Nat → Nat, app.press key = app.scroll move ∧ ∀ offset ≤ maxOffset,
      (move offset : Int) = max 0 (min (maxOffset : Int) (offset + step)) := by
  cases key with
  | up => cases hkey; exact ⟨(· - 1), rfl, by dsimp only; omega⟩
  | down => cases hkey; exact ⟨fun n => min (n + 1) maxOffset, rfl, by dsimp only; omega⟩
  | pageUp => cases hkey; exact ⟨(· - 10), rfl, by dsimp only; omega⟩
  | pageDown => cases hkey; exact ⟨fun n => min (n + 10) maxOffset, rfl, by dsimp only; omega⟩
  | home => cases hkey; exact ⟨fun _ => 0, rfl, by dsimp only; omega⟩
  | last => cases hkey; exact ⟨fun _ => maxOffset, rfl, by dsimp only; omega⟩
  | _ => cases hkey

/-- What a key can do: it moves the focus or ends the viewer, it scrolls the focused pane, or it
jumps to the line of a diagnostic. -/
lemma press_cases (app : App) (key : Key) :
    (∃ focus finished, app.press key = { app with focus := focus, finished := finished }) ∨
    (∃ step, scrollStep? key = some step) ∨
    ∃ d ∈ app.analysis.log.entries, app.press key = { app with
      offsets := app.offsets.set .source (d.line - 1), status := d.text, focus := .source } := by
  have hstay : ∃ focus finished, app = { app with focus := focus, finished := finished } :=
    ⟨app.focus, app.finished, rfl⟩
  cases key with
  | up | down | pageUp | pageDown | home | last => exact .inr (.inl ⟨_, rfl⟩)
  | tab => exact .inl ⟨app.focus.next, app.finished, rfl⟩
  | backTab => exact .inl ⟨app.focus.back, app.finished, rfl⟩
  | escape => exact .inl ⟨app.focus, true, rfl⟩
  | left | right => exact .inl hstay
  | char c =>
      have hpress : app.press (.char c) =
          if c = 'q' || c = 'Q' then { app with finished := true } else app := rfl
      rw [hpress]
      split
      · exact .inl ⟨app.focus, true, rfl⟩
      · exact .inl hstay
  | enter =>
      have hpress : app.press .enter = if app.focus = .diagnostics then app.jump else app := rfl
      rw [hpress]
      split
      · unfold jump
        split
        · exact .inl hstay
        · rename_i d hd
          exact .inr (.inr ⟨d, List.mem_of_getElem? hd, rfl⟩)
      · exact .inl hstay

/-! ## Runs -/

/-- What happens to a viewer: a key is pressed, or it is drawn in panes of some sizes. -/
inductive Event
  | press (key : Key)
  | draw (sizes : Focus → Size) (width : Nat)

/-- The viewer after an event. -/
def after (app : App) : Event → App
  | .press key => app.press key
  | .draw sizes width => (app.drawIn sizes width).2

/-- The viewer after some events. -/
def run (app : App) (events : List Event) : App := events.foldl after app

/-- Both viewers show the same program, with the same settings. -/
structure SameProgram (app app' : App) : Prop where
  analysis_eq : app'.analysis = app.analysis
  settings_eq : app'.settings = app.settings
  source_eq : app'.source = app.source

namespace SameProgram

lemma refl (app : App) : app.SameProgram app := ⟨rfl, rfl, rfl⟩

lemma trans {app'' : App} (h : app.SameProgram app') (h' : app'.SameProgram app'') :
    app.SameProgram app'' :=
  ⟨h'.analysis_eq.trans h.analysis_eq, h'.settings_eq.trans h.settings_eq,
    h'.source_eq.trans h.source_eq⟩

lemma items_eq (h : app.SameProgram app') (f : Focus) : app'.items f = app.items f := by
  cases f <;> simp only [items, h.analysis_eq, h.source_eq]

lemma press (app : App) (key : Key) : app.SameProgram (app.press key) := by
  rcases app.press_cases key with ⟨focus, finished, hpress⟩ | ⟨step, hkey⟩ | ⟨d, -, hpress⟩
  · rw [hpress]
    exact ⟨rfl, rfl, rfl⟩
  · obtain ⟨move, hpress, -⟩ := app.press_scroll hkey
    rw [hpress]
    exact ⟨rfl, rfl, rfl⟩
  · rw [hpress]
    exact ⟨rfl, rfl, rfl⟩

lemma after (app : App) (event : Event) : app.SameProgram (app.after event) := by
  cases event with
  | press key => exact press app key
  | draw sizes width => exact ⟨rfl, rfl, rfl⟩

/-- **The program stays the same over a run.** -/
theorem run (app : App) (events : List Event) : app.SameProgram (app.run events) := by
  induction events generalizing app with
  | nil => exact refl app
  | cons event events ih => exact (after app event).trans (ih (app.after event))

end SameProgram

/-- No offset is greater than the greatest one. -/
def Bounded (app : App) : Prop := ∀ f, app.offsets.get f ≤ maxOffset

/-- The offset after a drawing is the one that the pane settles at. -/
lemma offset_drawIn (app : App) (sizes : Focus → Size) (width : Nat) (f : Focus) :
    (app.drawIn sizes width).2.offsets.get f =
      (app.pane f).settledOffset (sizes f).height (app.offsets.get f) := by
  cases f <;> rfl

namespace Bounded

lemma set (h : app.Bounded) {f : Focus} {offset : Nat} (hle : offset ≤ maxOffset) :
    ∀ f', (app.offsets.set f offset).get f' ≤ maxOffset := by
  intro f'
  by_cases hf : f' = f
  · subst hf
    rwa [Offsets.get_set_self]
  · rw [Offsets.get_set_of_ne _ _ hf]
    exact h f'

lemma press (h : app.Bounded) (hlines : ∀ d ∈ app.analysis.log.entries, d.line ≤ maxOffset)
    (key : Key) : (app.press key).Bounded := by
  rcases app.press_cases key with ⟨focus, finished, hpress⟩ | ⟨step, hkey⟩ | ⟨d, hd, hpress⟩
  · rw [hpress]
    exact h
  · obtain ⟨move, hpress, hmove⟩ := app.press_scroll hkey
    have := hmove _ (h app.focus)
    rw [hpress]
    exact h.set (by omega)
  · rw [hpress]
    exact h.set ((Nat.sub_le _ _).trans (hlines d hd))

lemma after (h : app.Bounded) (hlines : ∀ d ∈ app.analysis.log.entries, d.line ≤ maxOffset)
    (event : Event) : (app.after event).Bounded := by
  cases event with
  | press key => exact h.press hlines key
  | draw sizes width =>
      intro f
      rw [App.after, offset_drawIn]
      exact (Pane.settledOffset_le _ _ _).trans (h f)

/-- **No offset ever passes the greatest one**, as long as no diagnostic is on a line beyond it. -/
theorem run (h : app.Bounded) (hlines : ∀ d ∈ app.analysis.log.entries, d.line ≤ maxOffset)
    (events : List Event) : (app.run events).Bounded := by
  induction events generalizing app with
  | nil => exact h
  | cons event events ih =>
      refine ih (h.after hlines event) ?_
      rwa [(SameProgram.after app event).analysis_eq]

end Bounded

/-! ## After a drawing -/

/-- The window of a pane with so many items is in range. -/
structure Settled (app : App) (sizes : Focus → Size) (f : Focus) (items : Nat) : Prop where
  /-- The offset is at most the number of items that do not fit. -/
  le_sub : app.offsets.get f ≤ items - f.rows (sizes f).height
  /-- There is an item at the offset. -/
  lt_items : app.offsets.get f < items
  /-- The page is full, or it has all the items. -/
  full : ((app.pane f).shown (sizes f).height (app.offsets.get f)).length =
    min (f.rows (sizes f).height) items

/-- **After a drawing the window of a pane with items is in range**, wherever it was before. -/
theorem settled_drawIn {case : KeywordCase}
    (hanalysis : app.analysis = Analysis.ofSource case app.source)
    (sizes : Focus → Size) (width : Nat) {f : Focus} (hitems : 0 < app.items f) :
    (app.drawIn sizes width).2.Settled sizes f (app.items f) := by
  obtain ⟨heading, lines, hcontent, hlength, hwindow⟩ := content_pane hanalysis hitems
  have hpane : (app.drawIn sizes width).2.pane f = app.pane f := rfl
  have hoffset : (app.drawIn sizes width).2.offsets.get f =
      Pane.clamp (app.offsets.get f) lines.length (f.rows (sizes f).height) := by
    rw [offset_drawIn, Pane.settledOffset, hcontent, ← hwindow]
  have hle := Pane.clamp_le_sub (app.offsets.get f) lines.length (f.rows (sizes f).height)
  have hrows : 0 < f.rows (sizes f).height := by
    cases f <;> simp only [Focus.rows] <;> omega
  rw [← hlength] at hitems ⊢
  refine ⟨hoffset ▸ hle, ?_, ?_⟩
  · rw [hoffset]
    omega
  · simp only [Pane.shown, hpane, hcontent, hoffset, hwindow]
    exact Pane.length_window lines _ _

/-- Drawing once more in the same sizes changes nothing. -/
lemma drawIn_drawIn (app : App) (sizes : Focus → Size) (width : Nat) :
    ((app.drawIn sizes width).2.drawIn sizes width).2 = (app.drawIn sizes width).2 := by
  have hoffsets : ((app.drawIn sizes width).2.drawIn sizes width).2.offsets =
      (app.drawIn sizes width).2.offsets := by
    refine Offsets.ext_get fun f => ?_
    have hpane : (app.drawIn sizes width).2.pane f = app.pane f := rfl
    rw [offset_drawIn _ sizes width f, hpane, offset_drawIn app sizes width f]
    exact Pane.settledOffset_settledOffset _ _ _
  change { (app.drawIn sizes width).2 with
    offsets := ((app.drawIn sizes width).2.drawIn sizes width).2.offsets } = _
  rw [hoffsets]

/-! ## After a scroll key -/

/-- The offset of the focused pane has moved by `step`, to zero or the greatest offset at most, and
nothing else has changed. -/
structure Scrolled (app app' : App) (step : Int) : Prop where
  moved : (app'.offsets.get app.focus : Int) =
    max 0 (min (maxOffset : Int) (app.offsets.get app.focus + step))
  others_eq : ∀ f ≠ app.focus, app'.offsets.get f = app.offsets.get f
  rest_eq : app' = { app with offsets := app'.offsets }

/-- **A scroll key moves the offset of the focused pane and nothing else.** -/
theorem scrolled_press (h : app.Bounded) {key : Key} {step : Int}
    (hkey : scrollStep? key = some step) : app.Scrolled (app.press key) step := by
  obtain ⟨move, hpress, hmove⟩ := app.press_scroll hkey
  rw [hpress]
  exact {
    moved := by rw [scroll, Offsets.get_set_self, hmove _ (h app.focus)]
    others_eq := fun f hf => Offsets.get_set_of_ne _ _ hf
    rest_eq := rfl }

/-- The keys for the focus change nothing else, and each undoes the other. -/
lemma press_tab (app : App) :
    app.press .tab = { app with focus := app.focus.next } ∧
    app.press .backTab = { app with focus := app.focus.back } ∧
    (app.press .tab).press .backTab = app ∧ (app.press .backTab).press .tab = app := by
  obtain ⟨analysis, settings, source, fileName, focus, offsets, finished, status⟩ := app
  refine ⟨rfl, rfl, ?_, ?_⟩ <;> cases focus <;> rfl

/-- **Scrolling stays in range.**  At any moment of a run, whatever keys were pressed and however
large the panes were at each drawing, no offset is greater than the greatest one; a drawing now
would leave the window of each pane that has items in range, so that a second one would change
nothing; a scroll key would move the offset of the focused pane, as far as there is room, and
nothing else; and the keys for the focus would change nothing else and undo each other.  A program is
held in memory, so it has no more characters than the greatest offset can count. -/
theorem scrolling_in_range (settings : Settings) (source fileName : Text)
    (hsource : source.length ≤ maxOffset) (events : List Event) :
    let start := App.ofSource settings source fileName
    let app := start.run events
    app.Bounded ∧
    (∀ sizes width, (∀ f, 0 < start.items f →
        (app.drawIn sizes width).2.Settled sizes f (start.items f)) ∧
      ((app.drawIn sizes width).2.drawIn sizes width).2 = (app.drawIn sizes width).2) ∧
    (∀ key step, scrollStep? key = some step → app.Scrolled (app.press key) step) ∧
    app.press .tab = { app with focus := app.focus.next } ∧
    app.press .backTab = { app with focus := app.focus.back } ∧
    (app.press .tab).press .backTab = app ∧ (app.press .backTab).press .tab = app := by
  intro start app
  have hsame : start.SameProgram app := .run start events
  have hbounded : app.Bounded := by
    have hzero : start.Bounded := by
      intro f
      cases f <;> exact Nat.zero_le _
    refine hzero.run (fun d hd => ?_) events
    obtain ⟨-, hline⟩ := line_analysis hd
    have := Text.length_lines_le source
    have : 1 ≤ maxOffset := by decide
    omega
  have hanalysis : app.analysis = Analysis.ofSource app.settings.case app.source := by
    rw [hsame.analysis_eq, hsame.settings_eq, hsame.source_eq]
    rfl
  refine ⟨hbounded, fun sizes width => ⟨fun f hitems => ?_, drawIn_drawIn app sizes width⟩,
    fun key step hkey => scrolled_press hbounded hkey, press_tab app⟩
  rw [← hsame.items_eq f] at hitems ⊢
  exact settled_drawIn hanalysis sizes width hitems

/-- A jump to the error on the second line, then the end of the program and one line more, which is
beyond the greatest offset; five lines do not fit in a pane with two rows. -/
theorem scrolling_in_range_past_end :
    let source := "programa p()\x7b\n x = ;\n\n terminar;\n\x7d".toList
    let sizes : Focus → Size := fun _ => ⟨20, 4⟩
    let start := App.ofSource .standard source "p.imp".toList
    let events := [.draw sizes 40, .press .backTab, .press .enter, .press .last, .press .down]
    let app := start.run events
    source.length ≤ maxOffset ∧ start.items .source = 5 ∧ app.focus = .source ∧
      app.offsets.source = maxOffset ∧ (app.drawIn sizes 40).2.Settled sizes .source 5 ∧
      app.Scrolled (app.press .up) (-1) := by
  intro source sizes start events app
  have hsource : source.length ≤ maxOffset := by decide +kernel
  have hitems : start.items .source = 5 := by decide +kernel
  have hfocus : app.focus = .source := by decide +kernel
  have hoffset : app.offsets.source = maxOffset := by decide +kernel
  obtain ⟨-, hdrawn, hkeys, -⟩ := scrolling_in_range .standard source "p.imp".toList hsource events
  have hsettled := (hdrawn sizes 40).1 .source (by rw [hitems]; decide)
  rw [hitems] at hsettled
  exact ⟨hsource, hitems, hfocus, hoffset, hsettled, hkeys .up (-1) rfl⟩

end App

end Imperativo
