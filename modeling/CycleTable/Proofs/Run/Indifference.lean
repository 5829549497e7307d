import CycleTable.Proofs.Run.Decision
import CycleTable.Proofs.Text.Lines
import Mathlib.Data.List.Flatten

/-!
# Options that make no difference

Two runs from the same files that differ in an option alone. To ask for more to be told adds lines
to the log and changes nothing else. A request for one entry leaves no use for the options of a
check or of an output, nor a check for those of an output, whether or not they could be carried out.
-/

namespace CycleTable

open Text

namespace Journal

variable {α β : Type}

/-- One journal logs all that another does, and perhaps more, on the way to the same result. -/
structure Extends (longer journal : Journal α) : Prop where
  result : longer.result = journal.result
  lines : journal.lines.Sublist longer.lines

theorem Extends.refl (journal : Journal α) : journal.Extends journal :=
  ⟨rfl, List.Sublist.refl _⟩

theorem Extends.bind {longer journal : Journal α} {next next' : α → Journal β}
    (h : longer.Extends journal) (hnext : ∀ value, (next' value).Extends (next value)) :
    (longer.bind next').Extends (journal.bind next) := by
  constructor
  · rw [result_bind, result_bind, h.result]
    congr 1
    funext value
    exact (hnext value).result
  · unfold Journal.bind
    rw [h.result]
    cases journal.result with
    | error failure => exact h.lines
    | ok value => exact h.lines.append (hnext value).lines

theorem Extends.ite {p : Prop} [Decidable p] {longer longer' journal journal' : Journal α}
    (h : longer.Extends journal) (h' : longer'.Extends journal') :
    (if p then longer else longer').Extends (if p then journal else journal') := by
  split
  · exact h
  · exact h'

theorem Extends.warn_if (p : Prop) [Decidable p] (line : String) {longer journal : Journal α}
    (h : longer.Extends journal) :
    (if p then (warn line).bind fun _ => longer else longer).Extends
      (if p then (warn line).bind fun _ => journal else journal) :=
  Extends.ite ((Extends.refl _).bind fun _ => h) h

theorem extends_note (line : String) : (note true line).Extends (note false line) :=
  ⟨rfl, List.nil_sublist _⟩

theorem Extends.finalLog {longer journal : Journal α} (h : longer.Extends journal) :
    journal.finalLog.Sublist longer.finalLog := by
  unfold Journal.finalLog
  rw [h.result]
  exact h.lines.append (List.Sublist.refl _)

end Journal

namespace Options

variable (options : Options) (read : Reader) (terminal : Bool) (table : Table)

theorem extends_checkFile (path : String) :
    (checkFile { options with verbose := true } table path read).Extends
      (checkFile { options with verbose := false } table path read) := by
  refine (Journal.Extends.refl _).bind fun recorded => ?_
  refine (Journal.Extends.refl _).bind fun _ => ?_
  exact (Journal.extends_note _).bind fun _ => Journal.Extends.refl _

theorem extends_encodeTable :
    (encodeTable { options with verbose := true } table).Extends
      (encodeTable { options with verbose := false } table) := by
  simp only [encodeTable, Journal.bind_eq]
  apply Journal.Extends.warn_if
  apply Journal.Extends.ite
  · refine (Journal.Extends.refl _).bind fun document => ?_
    exact (Journal.extends_note _).bind fun _ => Journal.Extends.refl _
  · exact Journal.Extends.refl _

theorem extends_act :
    (act { options with verbose := true } table read terminal).Extends
      (act { options with verbose := false } table read terminal) := by
  unfold act
  cases options.entry with
  | some id => exact Journal.Extends.refl _
  | none =>
      cases options.check with
      | some path =>
          exact (extends_checkFile options read table path).bind fun _ => Journal.Extends.refl _
      | none => exact (extends_encodeTable options table).bind fun _ => Journal.Extends.refl _

theorem extends_plan :
    (plan { options with verbose := true } read terminal).Extends
      (plan { options with verbose := false } read terminal) := by
  refine (Journal.Extends.refl _).bind fun table => ?_
  exact (Journal.extends_note _).bind fun _ => extends_act options read terminal table

theorem plan_of_entry (h : options.entry.isSome = true) (check : Option String) (format : Format)
    (symbol output : Option String) :
    plan { options with check, format, symbol, output } read terminal =
      options.plan read terminal := by
  rcases Option.isSome_iff_exists.mp h with ⟨id, hid⟩
  simp only [plan, act, hid]
  rfl

theorem plan_of_check (hentry : options.entry = none) (h : options.check.isSome = true)
    (format : Format) (symbol output : Option String) :
    plan { options with format, symbol, output } read terminal = options.plan read terminal := by
  rcases Option.isSome_iff_exists.mp h with ⟨path, hpath⟩
  simp only [plan, act, hentry, hpath]
  rfl

theorem result_encodeTable_symbol (hc : options.format ≠ .c) (hrust : options.format ≠ .rust)
    (symbol : Option String) :
    (encodeTable { options with symbol } table).result = (options.encodeTable table).result := by
  have hencode : table.encode options.format symbol =
      table.encode options.format options.symbol := by
    cases hformat : options.format with
    | c => exact absurd hformat hc
    | rust => exact absurd hformat hrust
    | binary | hex | listing => rfl
  simp only [encodeTable, Journal.bind_eq, Journal.result_warn_if, hencode]

theorem result_act_symbol (hc : options.format ≠ .c) (hrust : options.format ≠ .rust)
    (symbol : Option String) :
    (act { options with symbol } table read terminal).result =
      (options.act table read terminal).result := by
  rcases Option.eq_none_or_eq_some options.entry with hentry | ⟨id, hentry⟩
  · rcases Option.eq_none_or_eq_some options.check with hcheck | ⟨path, hcheck⟩
    · have hencode := result_encodeTable_symbol options table hc hrust symbol
      simp only [hentry, hcheck] at hencode
      simp only [act, hentry, hcheck, Journal.bind_eq, Journal.result_bind, hencode]
    · simp only [act, hentry, hcheck]
      rfl
  · simp only [act, hentry]

theorem result_plan_symbol (hc : options.format ≠ .c) (hrust : options.format ≠ .rust)
    (symbol : Option String) :
    (plan { options with symbol } read terminal).result = (options.plan read terminal).result := by
  have hload : loadTable { options with symbol } read = options.loadTable read := rfl
  simp only [plan, Journal.bind_eq, Journal.result_bind, hload,
    result_act_symbol options read terminal _ hc hrust symbol]

end Options

variable {options other : Options} {tree : FileTree} {terminal : Bool}

theorem log_run : (run options tree terminal).log =
    ((options.plan tree.read terminal).bind fun action =>
      (perform options tree action).2.2).finalLog := by
  rw [run_eq]
  cases hplan : (options.plan tree.read terminal).result with
  | error failure => simp only [Journal.bind, hplan, Journal.finalLog]
  | ok action => simp only [Journal.bind, hplan]

theorem perform_agrees (options other : Options) (tree : FileTree) (action : Action) :
    (perform other tree action).1 = (perform options tree action).1 ∧
      (perform other tree action).2.1 = (perform options tree action).2.1 ∧
      (perform other tree action).2.2.result = (perform options tree action).2.2.result := by
  cases action with
  | nothing | print bytes => exact ⟨rfl, rfl, rfl⟩
  | save path bytes =>
      cases hwrite : tree.write path bytes with
      | ok written =>
          simp only [perform_save_ok hwrite, Options.saved, Journal.bind_eq, Journal.result_bind,
            Journal.result_info, and_self]
      | error fault =>
          simp only [perform_save_error hwrite, Options.saved, Journal.bind_eq,
            Journal.result_bind, Journal.result_info, and_self]

theorem run_agrees_of_result_eq
    (h : (other.plan tree.read terminal).result = (options.plan tree.read terminal).result) :
    (run other tree terminal).exitCode = (run options tree terminal).exitCode ∧
      (run other tree terminal).stdout = (run options tree terminal).stdout ∧
      (run other tree terminal).files = (run options tree terminal).files := by
  rw [run_eq, run_eq]
  dsimp only
  rw [h]
  cases hresult : (options.plan tree.read terminal).result with
  | error failure => simp only [Journal.exitCode, h, hresult, and_self]
  | ok action =>
      rcases perform_agrees options other tree action with ⟨hstdout, hfiles, hrest⟩
      simp only [Journal.exitCode, Journal.result_bind, h, hrest, hstdout, hfiles, and_self]

theorem run_eq_of_plan_eq (hplan : other.plan tree.read terminal = options.plan tree.read terminal)
    (hperform : ∀ action, (options.plan tree.read terminal).result = .ok action →
      perform other tree action = perform options tree action) :
    run other tree terminal = run options tree terminal := by
  rw [run_eq, run_eq]
  cases hresult : (options.plan tree.read terminal).result with
  | error failure => simp only [hplan, hresult]
  | ok action => simp only [hplan, hresult, hperform action hresult]

theorem run_verbose (options : Options) (tree : FileTree) (terminal : Bool) :
    let quiet := run { options with verbose := false } tree terminal
    let loud := run { options with verbose := true } tree terminal
    loud.exitCode = quiet.exitCode ∧ loud.stdout = quiet.stdout ∧ loud.files = quiet.files ∧
      (textLines quiet.stderr).Sublist (textLines loud.stderr) := by
  have hplan := Options.extends_plan options tree.read terminal
  have hlog : (run { options with verbose := false } tree terminal).log.Sublist
      (run { options with verbose := true } tree terminal).log := by
    rw [log_run, log_run]
    exact (hplan.bind fun _ => Journal.Extends.refl _).finalLog
  rcases run_agrees_of_result_eq hplan.result with ⟨hexit, hstdout, hfiles⟩
  refine ⟨hexit, hstdout, hfiles, ?_⟩
  rw [Report.stderr, Report.stderr, textLines_unlines_eq_flatMap, textLines_unlines_eq_flatMap]
  exact (hlog.flatMap textLines).append (List.Sublist.refl _)

theorem run_of_entry (h : options.entry.isSome = true) (check : Option String) (format : Format)
    (symbol output : Option String) :
    run { options with check, format, symbol, output } tree terminal =
      run options tree terminal := by
  rcases Option.isSome_iff_exists.mp h with ⟨id, hid⟩
  apply run_eq_of_plan_eq
    (Options.plan_of_entry options tree.read terminal h check format symbol output)
  intro action haction
  rcases Options.result_plan_eq_ok_iff.mp haction with ⟨_, _, _, _, hdecides⟩
  cases hdecides with
  | entry => rfl
  | check hentry | print hentry | save hentry =>
      rw [hid] at hentry
      cases hentry

theorem run_of_check (hentry : options.entry = none) (h : options.check.isSome = true)
    (format : Format) (symbol output : Option String) :
    run { options with format, symbol, output } tree terminal = run options tree terminal := by
  rcases Option.isSome_iff_exists.mp h with ⟨path, hpath⟩
  apply run_eq_of_plan_eq
    (Options.plan_of_check options tree.read terminal hentry h format symbol output)
  intro action haction
  rcases Options.result_plan_eq_ok_iff.mp haction with ⟨_, _, _, _, hdecides⟩
  cases hdecides with
  | check => rfl
  | entry hid =>
      rw [hentry] at hid
      cases hid
  | print _ hcheck | save _ hcheck =>
      rw [hpath] at hcheck
      cases hcheck

/--
Options that should not matter do not. To ask for more to be told changes nothing but that lines
are added to the log. A request for one entry leads to the same outcome whatever is asked of a check
and of an output, and a check to the same whatever is asked of an output. A name for the array
changes neither the output nor a file in the formats that define none. All this is so on a terminal
too, where bare bytes are refused.
-/
theorem run_ignores_idle_options (options : Options) (tree : FileTree) (terminal : Bool) :
    (let quiet := run { options with verbose := false } tree terminal
      let loud := run { options with verbose := true } tree terminal
      loud.exitCode = quiet.exitCode ∧ loud.stdout = quiet.stdout ∧ loud.files = quiet.files ∧
        (textLines quiet.stderr).Sublist (textLines loud.stderr)) ∧
      (options.entry.isSome = true → ∀ check format symbol output,
        run { options with check, format, symbol, output } tree terminal =
          run options tree terminal) ∧
      (options.entry = none → options.check.isSome = true → ∀ format symbol output,
        run { options with format, symbol, output } tree terminal = run options tree terminal) ∧
      (options.format ≠ .c → options.format ≠ .rust → ∀ symbol,
        (run { options with symbol } tree terminal).stdout = (run options tree terminal).stdout ∧
          (run { options with symbol } tree terminal).files =
            (run options tree terminal).files) := by
  refine ⟨run_verbose options tree terminal, run_of_entry, run_of_check, ?_⟩
  intro hc hrust symbol
  have hresult := Options.result_plan_symbol options tree.read terminal hc hrust symbol
  exact (run_agrees_of_result_eq hresult).2

/-- A file that is missing is not looked for when an entry is asked for, a listing that is asked for
is not made when a file is checked, and bare bytes are kept from a terminal under any name. -/
theorem run_ignores_missing_check :
    let tree : FileTree := ⟨[(["list.txt"], utf8 "0 NOP\n")], [], []⟩
    let showing : Options := { entry := some 0x6C, verbose := true }
    let checking : Options := { check := some "missing.hex", descriptors := some "list.txt" }
    let binary : Options := { format := .binary }
    run { showing with
        check := some "missing.hex", format := .hex, symbol := some "t", output := some "list.txt" }
      tree = run showing tree ∧
    run { checking with format := .listing, symbol := none, output := some "table.txt" } tree =
      run checking tree ∧
    (run { binary with symbol := some "t" } tree true).stdout = (run binary tree true).stdout := by
  intro tree showing checking binary
  refine ⟨?_, ?_, ?_⟩
  · rcases run_ignores_idle_options showing tree false with ⟨_, hentry, _⟩
    exact hentry rfl _ _ _ _
  · rcases run_ignores_idle_options checking tree false with ⟨_, _, hcheck, _⟩
    exact hcheck rfl rfl _ _ _
  · rcases run_ignores_idle_options binary tree true with ⟨_, _, _, hsymbol⟩
    exact (hsymbol (by decide) (by decide) _).1

end CycleTable
