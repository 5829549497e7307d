import CycleTable.File
import CycleTable.Proofs.Descriptor.Loading
import CycleTable.Proofs.Run.Decision
import CycleTable.Proofs.Success
import CycleTable.Proofs.Table.Verdict

/-!
# What a run leaves behind

## Places of files

Where the path of a file leads, and what is found there after another file was written. A file
that was written reads back, and every path that led somewhere still leads to the same place.
-/

namespace CycleTable.FileTree

variable {tree written : FileTree} {path other : String} {location place : Location}
  {contents old : Bytes}

def placeOf (tree : FileTree) (path : String) : Except FileFault Location := do
  let parts ← wellFormed path
  let place ← tree.enterAll (tree.start path) parts.dropLast
  step place (parts.getLast?.getD "")

def SamePlace (tree : FileTree) (path other : String) : Prop :=
  ∃ location, tree.placeOf path = .ok location ∧ tree.placeOf other = .ok location

theorem read_eq_ok_iff :
    tree.read path = .ok contents ↔
      ∃ location, tree.placeOf path = .ok location ∧ tree.file? location = some contents := by
  simp only [read, placeOf, bind_eq_ok_iff]
  constructor
  · intro h
    rcases h with ⟨parts, hparts, start, hstart, location, hlocation, hfound⟩
    refine ⟨location, ⟨parts, hparts, start, hstart, hlocation⟩, ?_⟩
    split at hfound
    · next found hfile =>
      cases hfound
      exact hfile
    · cases hfound
  · intro h
    rcases h with ⟨location, ⟨parts, hparts, start, hstart, hlocation⟩, hfile⟩
    refine ⟨parts, hparts, start, hstart, location, hlocation, ?_⟩
    rw [hfile]
    rfl

theorem write_eq_ok_iff :
    tree.write path contents = .ok written ↔
      ∃ location, tree.placeFor path = .ok location ∧ written = tree.put location contents := by
  simp only [write, bind_eq_ok_iff]
  constructor
  · intro h
    rcases h with ⟨location, hlocation, hwritten⟩
    cases hwritten
    exact ⟨location, hlocation, rfl⟩
  · intro h
    rcases h with ⟨location, hlocation, rfl⟩
    exact ⟨location, hlocation, rfl⟩

theorem reverse_dropWhile_eq_self {parts : List String}
    (h : ¬ (parts.reverse.dropWhile String.isEmpty).reverse.length < parts.length) :
    (parts.reverse.dropWhile String.isEmpty).reverse = parts := by
  have hsuffix := List.dropWhile_suffix String.isEmpty (l := parts.reverse)
  rw [List.length_reverse] at h
  rw [hsuffix.eq_of_length_le (by rw [List.length_reverse]; omega), List.reverse_reverse]

theorem placeOf_of_placeFor (h : tree.placeFor path = .ok location) :
    tree.placeOf path = .ok location := by
  simp only [placeFor, bind_eq_ok_iff] at h
  rcases h with ⟨parts, hparts, start, hstart, hlast⟩
  split at hlast
  · cases hlast
  · next hlength =>
    have hnamed := reverse_dropWhile_eq_self hlength
    rw [hnamed] at hstart hlast
    rcases bind_eq_ok_iff.mp hlast with ⟨found, hfound, hfile⟩
    have hsame : found = location := by
      split at hfile
      · cases hfile
      · cases hfile
        rfl
    rw [hsame] at hfound
    simp only [placeOf, bind_eq_ok_iff]
    exact ⟨parts, hparts, start, hstart, hfound⟩

theorem isDirectory_put (location : Location) (contents : Bytes)
    (h : tree.isDirectory place = true) :
    (tree.put location contents).isDirectory place = true := by
  simp only [isDirectory, put, Bool.or_eq_true] at h ⊢
  rcases h with hnamed | hfile
  · exact Or.inl hnamed
  · right
    rcases List.any_eq_true.mp hfile with ⟨file, hmem, hbelow⟩
    rw [List.any_cons, Bool.or_eq_true]
    by_cases hreplaced : file.1 = location
    · left
      rw [← hreplaced]
      exact hbelow
    · right
      have hkept : (file.1 != location) = true := bne_iff_ne.mpr hreplaced
      exact List.any_eq_true.mpr ⟨file, List.mem_filter.mpr ⟨hmem, hkept⟩, hbelow⟩

theorem enter_put {part : String} {next : Location} (location : Location) (contents : Bytes)
    (h : tree.enter place part = .ok next) :
    (tree.put location contents).enter place part = .ok next := by
  simp only [enter, bind_eq_ok_iff] at h ⊢
  rcases h with ⟨reached, hstep, hnext⟩
  refine ⟨reached, hstep, ?_⟩
  split at hnext
  · next hdirectory =>
    rw [if_pos (isDirectory_put location contents hdirectory)]
    exact hnext
  · split at hnext
    · cases hnext
    · cases hnext

theorem enterAll_put {parts : List String} {last : Location} (location : Location)
    (contents : Bytes) (h : tree.enterAll place parts = .ok last) :
    (tree.put location contents).enterAll place parts = .ok last := by
  induction parts generalizing place with
  | nil => exact h
  | cons part rest ih =>
      simp only [enterAll, List.foldlM_cons, bind_eq_ok_iff] at h ⊢
      rcases h with ⟨next, hnext, hrest⟩
      exact ⟨next, enter_put location contents hnext, ih hrest⟩

theorem placeOf_put (location : Location) (contents : Bytes)
    (h : tree.placeOf path = .ok place) :
    (tree.put location contents).placeOf path = .ok place := by
  simp only [placeOf, bind_eq_ok_iff] at h ⊢
  rcases h with ⟨parts, hparts, start, hstart, hlast⟩
  exact ⟨parts, hparts, start, enterAll_put location contents hstart, hlast⟩

/-- One file was created or replaced, and nothing else was changed. -/
structure Replaced (tree : FileTree) (path : String) (contents : Bytes)
    (written : FileTree) : Prop where
  read : written.read path = .ok contents
  file : ∃ location, tree.placeOf path = .ok location ∧
    ∀ other, written.file? other =
      if other = location then some contents else tree.file? other
  directories : written.directories = tree.directories
  workingDirectory : written.workingDirectory = tree.workingDirectory

theorem replaced_of_write (h : tree.write path contents = .ok written) :
    tree.Replaced path contents written := by
  rcases write_eq_ok_iff.mp h with ⟨location, hlocation, rfl⟩
  have hplace := placeOf_of_placeFor hlocation
  constructor
  · refine read_eq_ok_iff.mpr ⟨location, placeOf_put location contents hplace, ?_⟩
    rw [file?_put, if_pos rfl]
  · exact ⟨location, hplace, fun other => file?_put tree location other contents⟩
  · rfl
  · rfl

theorem read_of_write (h : tree.write path contents = .ok written)
    (hread : tree.read other = .ok old) (hother : ¬ tree.SamePlace other path) :
    written.read other = .ok old := by
  rcases write_eq_ok_iff.mp h with ⟨location, hlocation, rfl⟩
  rcases read_eq_ok_iff.mp hread with ⟨place, hplace, hold⟩
  have hne : place ≠ location := by
    intro heq
    rw [heq] at hplace
    exact hother ⟨location, hplace, placeOf_of_placeFor hlocation⟩
  refine read_eq_ok_iff.mpr ⟨place, placeOf_put location contents hplace, ?_⟩
  rw [file?_put, if_neg hne]
  exact hold

end CycleTable.FileTree

/-!
## Where a run writes

A run that fails leaves the files and the standard output as they were. One that succeeds writes
to the one place that it was asked to write to, and there the whole of what it was asked for.
-/

namespace CycleTable

open Text

/-- What a run with a table leaves, by what it was asked for. -/
structure Options.Delivers (options : Options) (tree : FileTree) (table : Table)
    (outcome : Outcome) : Prop where
  entry : ∀ id, options.entry = some id → outcome.files = tree ∧
    ∃ lines, table.entryLines id = .ok lines ∧ outcome.stdout = utf8 (unlines lines)
  check : ∀ path, options.entry = none → options.check = some path →
    outcome.files = tree ∧ outcome.stdout = []
  print : options.entry = none → options.check = none → options.output = none →
    outcome.files = tree ∧
      table.encode options.format options.symbol = .ok outcome.stdout
  save : ∀ path, options.entry = none → options.check = none → options.output = some path →
    outcome.stdout = [] ∧ ∃ bytes, table.encode options.format options.symbol = .ok bytes ∧
      tree.Replaced path bytes outcome.files

variable {options : Options} {tree : FileTree} {terminal : Bool} {table : Table} {action : Action}

theorem delivers_of_performs {outcome : Outcome}
    (hdecides : options.Decides tree.read terminal table action)
    (hperforms : Performs tree action outcome.stdout outcome.files) :
    options.Delivers tree table outcome := by
  obtain ⟨⟨exitCode, stdout, log⟩, files⟩ := outcome
  cases hdecides with
  | entry hentry hlines =>
      cases hperforms
      constructor
      case entry =>
        intro id hid
        rw [hentry] at hid
        cases hid
        exact ⟨rfl, _, hlines, rfl⟩
      all_goals simp [hentry]
  | check hentry hcheck hmatches =>
      cases hperforms
      constructor
      case check => exact fun _ _ _ => ⟨rfl, rfl⟩
      all_goals simp [hentry, hcheck]
  | print hentry hcheck houtput _ hbytes =>
      cases hperforms
      constructor
      case print => exact fun _ _ _ => ⟨rfl, hbytes⟩
      all_goals simp [hentry, hcheck, houtput]
  | save hentry hcheck houtput hbytes =>
      cases hperforms with
      | save hwrite =>
          constructor
          case save =>
            intro path _ _ hpath
            rw [houtput] at hpath
            cases hpath
            exact ⟨rfl, _, hbytes, FileTree.replaced_of_write hwrite⟩
          all_goals simp [hentry, hcheck, houtput]

/--
Whatever a run is asked for and whatever files it meets, it prints nothing and changes no file if
it fails. If it succeeds, it has read its descriptors from the files as they were, an entry or a
check leaves every file as it was, and the table goes either to the standard output or to the one
file that is named.
-/
theorem run_writes_only_destination (options : Options) (tree : FileTree) (terminal : Bool) :
    ((run options tree terminal).exitCode ≠ 0 →
      (run options tree terminal).stdout = [] ∧ (run options tree terminal).files = tree) ∧
    ((run options tree terminal).exitCode = 0 →
      ∃ list table, options.Loads tree.read list ∧ Table.ofDescriptors list = .ok table ∧
        options.Delivers tree table (run options tree terminal)) := by
  constructor
  · intro h
    exact run_of_exitCode_ne_zero h
  · intro h
    rcases run_succeeds_iff.mp ⟨h, rfl, rfl⟩ with
      ⟨list, table, action, hloads, htable, hdecides, hperforms⟩
    exact ⟨list, table, hloads, htable, delivers_of_performs hdecides hperforms⟩

/-- A table saved over its own descriptors, its last entry shown, and one that was not made since
there are no descriptors. -/
theorem run_over_own_descriptors :
    let tree : FileTree := ⟨[(["list.txt"], Descriptor.idleFile)], [], []⟩
    let saving : Options :=
      { format := .binary, descriptors := some "list.txt", output := some "list.txt" }
    let showing : Options := { descriptors := some "list.txt", entry := some 0x101 }
    let failing : Options := { saving with descriptors := some "missing.txt" }
    (∃ table, Table.ofDescriptors Descriptor.idleList = .ok table ∧
      ((run saving tree).exitCode = 0 ∧ (run saving tree).stdout = [] ∧
        (run saving tree).files.read "list.txt" = .ok table.toBytes) ∧
      ∃ lines, table.entryLines 0x101 = .ok lines ∧ (run showing tree).exitCode = 0 ∧
        (run showing tree).stdout = utf8 (unlines lines) ∧ (run showing tree).files = tree) ∧
    (run failing tree).exitCode ≠ 0 ∧ (run failing tree).stdout = [] ∧
      (run failing tree).files = tree := by
  intro tree saving showing failing
  constructor
  · rcases Table.exists_ofDescriptors_idle with ⟨table, htable⟩
    have hread : tree.read "list.txt" = .ok Descriptor.idleFile := by rfl
    have hloads : ∀ options : Options, options.descriptors = some "list.txt" →
        options.Loads tree.read Descriptor.idleList := by
      intro options hpath
      exact Options.Loads.file hpath hread Descriptor.ofFile_idleFile
    -- what a run that succeeds delivers, it delivers of this table
    have hdelivers : ∀ options : Options, options.descriptors = some "list.txt" →
        (run options tree).exitCode = 0 → options.Delivers tree table (run options tree) := by
      intro options hpath hexit
      obtain ⟨list, made, hloaded, hmade, hdelivers⟩ :=
        (run_writes_only_destination options tree false).2 hexit
      rw [hloaded.unique (hloads options hpath), htable] at hmade
      cases hmade
      exact hdelivers
    refine ⟨table, htable, ?_, ?_⟩
    · have hwrite : tree.write "list.txt" table.toBytes =
          .ok (tree.put ["list.txt"] table.toBytes) := by rfl
      have hexit : (run saving tree).exitCode = 0 :=
        (run_succeeds_iff.mpr ⟨_, table, _, hloads saving rfl, htable,
          Options.Decides.save rfl rfl rfl rfl, Performs.save hwrite⟩).1
      obtain ⟨hstdout, bytes, hbytes, hreplaced⟩ :=
        (hdelivers saving rfl hexit).save "list.txt" rfl rfl rfl
      cases hbytes
      exact ⟨hexit, hstdout, hreplaced.read⟩
    · obtain ⟨entry, hentry, _⟩ := Table.exists_entry htable (by decide : 0x101 < entryCount)
      have hlines : ∃ lines, table.entryLines 0x101 = .ok lines := by
        rw [Table.entryLines, Table.entry?, hentry]
        exact ⟨_, rfl⟩
      obtain ⟨lines, hlines⟩ := hlines
      have hexit : (run showing tree).exitCode = 0 :=
        (run_succeeds_iff.mpr ⟨_, table, _, hloads showing rfl, htable,
          Options.Decides.entry rfl hlines, Performs.print _⟩).1
      obtain ⟨hfiles, shown, hshown, hstdout⟩ := (hdelivers showing rfl hexit).entry 0x101 rfl
      rw [hlines] at hshown
      cases hshown
      exact ⟨lines, hlines, hexit, hstdout, hfiles⟩
  · have hexit : (run failing tree).exitCode ≠ 0 := by
      rw [show (run failing tree).exitCode = 1 from rfl]
      decide
    exact ⟨hexit, (run_writes_only_destination failing tree false).1 hexit⟩

/-- Bare bytes are printed only where no terminal would show them. -/
theorem run_refuses_terminal (hentry : options.entry = none) (hcheck : options.check = none)
    (houtput : options.output = none) (hformat : options.format = .binary) :
    (run options tree true).exitCode ≠ 0 ∧ (run options tree true).stdout = [] ∧
      (run options tree true).files = tree := by
  have hexit : (run options tree true).exitCode ≠ 0 := by
    intro hzero
    obtain ⟨_, _, _, _, _, hdecides, _⟩ := run_succeeds_iff.mp ⟨hzero, rfl, rfl⟩
    cases hdecides with
    | entry hid =>
        rw [hentry] at hid
        cases hid
    | check _ hpath =>
        rw [hcheck] at hpath
        cases hpath
    | print _ _ _ hterminal => exact hterminal ⟨hformat, rfl⟩
    | save _ _ hpath =>
        rw [houtput] at hpath
        cases hpath
  exact ⟨hexit, run_of_exitCode_ne_zero hexit⟩

end CycleTable

/-!
## A check behind a run that saved

What one run saves passes the check of the next, as long as the name of the file tells the format
that it was saved in.
-/

namespace CycleTable

/-- The name of a file tells that it holds a table in this format. -/
def Format.IsToldBy (format : Format) (path : String) : Prop :=
  (format = .hex ∧ Path.hasExtension "hex" path = true) ∨
    (format = .binary ∧ Path.hasExtension "hex" path = false)

theorem Table.check_encode {list : List Descriptor} {table : Table} {format : Format}
    {symbol : Option String} {path : String} {bytes : Bytes}
    (h : ofDescriptors list = .ok table) (hformat : format.IsToldBy path)
    (hbytes : table.encode format symbol = .ok bytes) : table.check path (.ok bytes) = .ok () := by
  rcases hformat with ⟨rfl, hpath⟩ | ⟨rfl, hpath⟩
  · rw [encode_hex h, Except.ok.injEq] at hbytes
    rw [check_eq_ok_iff hpath, ← hbytes]
    exact IntelHex.Document.exists_ofFile_written (length_toBytes_le_maxImage h)
  · have hsame : table.toBytes = bytes := Except.ok.inj hbytes
    rw [check, Recorded.read, Recorded.decode, hpath]
    exact compare_eq_ok_iff.mpr hsame

theorem Options.Loads.of_write {first second : Options} {tree written : FileTree}
    {list : List Descriptor} {path : String} {bytes : Bytes} (h : first.Loads tree.read list)
    (hwrite : tree.write path bytes = .ok written)
    (hsame : second.descriptors = first.descriptors)
    (hother : ∀ source, first.descriptors = some source → ¬ tree.SamePlace source path) :
    second.Loads written.read list := by
  cases h with
  | standard hnone => exact Loads.standard (hsame.trans hnone)
  | file hsource hread hlist =>
      exact Loads.file (hsame.trans hsource)
        (FileTree.read_of_write hwrite hread (hother _ hsource)) hlist

/--
After a run that saved its table as a file whose name tells the format, a run that checks that
file against the same descriptors succeeds, unless the table was saved over the descriptors.
-/
theorem check_succeeds_after_save {saving checking : Options} {tree : FileTree} {path : String}
    {terminal later : Bool}
    (hsaving : saving.entry = none ∧ saving.check = none ∧ saving.output = some path)
    (hchecking : checking.entry = none ∧ checking.check = some path ∧
      checking.descriptors = saving.descriptors)
    (hformat : saving.format.IsToldBy path)
    (hother : ∀ source, saving.descriptors = some source → ¬ tree.SamePlace source path)
    (hexit : (run saving tree terminal).exitCode = 0) :
    (run checking (run saving tree terminal).files later).exitCode = 0 := by
  rcases hsaving with ⟨hentry, hcheck, houtput⟩
  rcases hchecking with ⟨hentry', hcheck', hsame⟩
  rcases run_succeeds_iff.mp ⟨hexit, rfl, rfl⟩ with
    ⟨list, table, action, hloads, htable, hdecides, hperforms⟩
  generalize (run saving tree terminal).files = written at hperforms ⊢
  generalize (run saving tree terminal).stdout = stdout at hperforms
  cases hdecides with
  | entry hid =>
      rw [hentry] at hid
      cases hid
  | check _ hpath =>
      rw [hcheck] at hpath
      cases hpath
  | print _ _ hnone =>
      rw [houtput] at hnone
      cases hnone
  | save _ _ hpath hbytes =>
      rw [houtput] at hpath
      cases hpath
      cases hperforms with
      | save hwrite =>
          have hread := (FileTree.replaced_of_write hwrite).read
          have hmatches := Table.check_encode htable hformat hbytes
          rw [← hread] at hmatches
          exact (run_succeeds_iff.mpr ⟨list, table, _, hloads.of_write hwrite hsame hother, htable,
            Options.Decides.check hentry' hcheck' hmatches, Performs.nothing⟩).1

/-- A hex document, and bare bytes under a name that is all extension to the eye only. -/
theorem check_succeeds_after_save_hex_and_binary :
    let tree : FileTree := ⟨[(["list.txt"], Descriptor.idleFile)], [], []⟩
    let saving (format : Format) (path : String) : Options :=
      { descriptors := some "list.txt", format, output := some path, symbol := some "TABLE" }
    let checking (path : String) : Options :=
      { descriptors := some "list.txt", check := some path }
    (run (checking "table.Hex") (run (saving .hex "table.Hex") tree).files).exitCode = 0 ∧
      (run (checking ".hex") (run (saving .binary ".hex") tree).files).exitCode = 0 := by
  intro tree saving checking
  rcases Table.exists_ofDescriptors_idle with ⟨table, htable⟩
  have hread : tree.read "list.txt" = .ok Descriptor.idleFile := by rfl
  have hsource : tree.placeOf "list.txt" = .ok ["list.txt"] := by rfl
  have hexit : ∀ format path location bytes, tree.placeFor path = .ok location →
      table.encode format (some "TABLE") = .ok bytes →
      (run (saving format path) tree).exitCode = 0 := by
    intro format path location bytes hplace hbytes
    exact (run_succeeds_iff.mpr ⟨_, table, _,
      Options.Loads.file rfl hread Descriptor.ofFile_idleFile, htable,
      Options.Decides.save rfl rfl rfl hbytes,
      Performs.save (FileTree.write_eq_ok_iff.mpr ⟨location, hplace, rfl⟩)⟩).1
  have hother : ∀ format path location, tree.placeOf path = .ok location →
      location ≠ ["list.txt"] → ∀ source, (saving format path).descriptors = some source →
        ¬ tree.SamePlace source path := by
    intro format path location hplace hne source hname hsame
    cases hname
    rcases hsame with ⟨shared, hfirst, hsecond⟩
    cases hsource.symm.trans hfirst
    cases hplace.symm.trans hsecond
    exact hne rfl
  constructor
  · exact check_succeeds_after_save ⟨rfl, rfl, rfl⟩ ⟨rfl, rfl, rfl⟩
      (Or.inl ⟨rfl, rfl⟩) (hother _ _ ["table.Hex"] rfl (by decide))
      (hexit _ _ ["table.Hex"] _ rfl (Table.encode_hex htable _))
  · exact check_succeeds_after_save ⟨rfl, rfl, rfl⟩ ⟨rfl, rfl, rfl⟩
      (Or.inr ⟨rfl, rfl⟩) (hother _ _ [".hex"] rfl (by decide))
      (hexit _ _ [".hex"] _ rfl rfl)

end CycleTable
