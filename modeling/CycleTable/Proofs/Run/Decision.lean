import CycleTable.Proofs.Success
import CycleTable.Run

/-!
# What a run decides

The result of each part of a plan, whatever is logged on the way to it, and what a run leaves
behind when its plan fails, when its plan asks for nothing to be saved, and when the file to be
saved can or cannot be created.
-/

namespace CycleTable

open Text

namespace Journal

variable {α β : Type}

@[simp] theorem result_pure (value : α) : (Journal.pure value).result = .ok value := rfl

@[simp] theorem result_bind (journal : Journal α) (next : α → Journal β) :
    (journal.bind next).result = journal.result >>= fun value => (next value).result := by
  unfold Journal.bind
  cases journal.result with
  | error failure => rfl
  | ok value => rfl

@[simp] theorem result_ofExcept (result : Except (Failure Fault) α) :
    (ofExcept result).result = result := rfl

@[simp] theorem result_ofFault (result : Except Fault α) :
    (ofFault result).result = result.mapError fun fault => Failure.mk fault none := rfl

@[simp] theorem result_info (line : String) : (info line).result = .ok () := rfl

@[simp] theorem result_warn (line : String) : (warn line).result = .ok () := rfl

@[simp] theorem result_note (verbose : Bool) (line : String) :
    (note verbose line).result = .ok () := by
  cases verbose with
  | false => rfl
  | true => rfl

theorem result_warn_if (p : Prop) [Decidable p] (line : String) (journal : Journal α) :
    (if p then (warn line).bind fun _ => journal else journal).result = journal.result := by
  split
  · rw [result_bind, result_warn]
    rfl
  · rfl

end Journal

namespace Options

variable {options : Options} {read other : Reader} {terminal : Bool} {table : Table}
  {list : List Descriptor} {action : Action}

/-- The descriptors that a run works from. -/
inductive Loads (options : Options) (read : Reader) : List Descriptor → Prop
  | standard (hdescriptors : options.descriptors = none) :
      Loads options read Descriptor.standard
  | file {path : String} {contents : Bytes} {list : List Descriptor}
      (hdescriptors : options.descriptors = some path) (hread : read path = .ok contents)
      (hlist : Descriptor.ofFile contents = .ok list) : Loads options read list

theorem Loads.unique {other : List Descriptor} (h : options.Loads read list)
    (hother : options.Loads read other) : list = other := by
  cases h with
  | standard hnone =>
      cases hother with
      | standard => rfl
      | file hpath =>
          rw [hnone] at hpath
          cases hpath
  | file hpath hread hlist =>
      cases hother with
      | standard hnone =>
          rw [hpath] at hnone
          cases hnone
      | file hpath' hread' hlist' =>
          cases hpath.symm.trans hpath'
          cases hread.symm.trans hread'
          exact Except.ok.inj (hlist.symm.trans hlist')

theorem result_loadTable_eq_ok_iff :
    (options.loadTable read).result = .ok table ↔
      ∃ list, options.Loads read list ∧ Table.ofDescriptors list = .ok table := by
  constructor
  · intro h
    unfold loadTable at h
    split at h
    · next hdescriptors => exact ⟨_, Loads.standard hdescriptors, h⟩
    · next path hdescriptors =>
      simp only [Journal.bind_eq, Journal.result_bind, Journal.result_ofFault,
        Journal.result_ofExcept, bind_eq_ok_iff, mapError_eq_ok_iff] at h
      rcases h with ⟨_, _, contents, hread, list, hlist, htable⟩
      exact ⟨list, Loads.file hdescriptors hread hlist, htable⟩
  · intro h
    rcases h with ⟨list, hloads, htable⟩
    cases hloads with
    | standard hdescriptors =>
        simp only [loadTable, hdescriptors]
        exact htable
    | file hdescriptors hread hlist =>
        simp only [loadTable, hdescriptors, Journal.bind_eq, Journal.result_bind,
          Journal.result_ofFault, bind_eq_ok_iff, mapError_eq_ok_iff]
        exact ⟨(), rfl, _, hread, list, hlist, htable⟩

theorem result_warnIgnored (types : List UInt8) : (warnIgnored types).result = .ok () := by
  induction types with
  | nil => rfl
  | cons type rest ih =>
      rw [warnIgnored, Journal.bind_eq, Journal.result_bind, Journal.result_warn]
      exact ih

theorem result_checkFile_eq_ok_iff {path : String} {done : Unit} :
    (options.checkFile table path read).result = .ok done ↔
      table.check path (read path) = .ok done := by
  simp only [checkFile, Table.check, Journal.bind_eq, Journal.result_bind, Journal.result_ofFault,
    Journal.result_note, result_warnIgnored, bind_eq_ok_iff, mapError_eq_ok_iff, true_and,
    exists_const]

theorem result_encodeTable_eq_ok_iff {bytes : Bytes} :
    (options.encodeTable table).result = .ok bytes ↔
      table.encode options.format options.symbol = .ok bytes := by
  simp only [encodeTable, Journal.bind_eq, Journal.result_warn_if]
  split
  · next hhex =>
    simp only [hhex, Table.encode, Journal.result_bind, Journal.result_ofFault,
      Journal.result_note, bind_eq_ok_iff, mapError_eq_ok_iff, true_and, exists_const]
    constructor
    · intro h
      rcases h with ⟨_, _, hbytes⟩
      exact hbytes
    · intro h
      rcases h with ⟨document, hdocument, hdisplay⟩
      exact ⟨document, hdocument, document, hdocument, hdisplay⟩
  · rw [Journal.result_ofFault, mapError_eq_ok_iff]

/-- What a run is left to do with its table. -/
inductive Decides (options : Options) (read : Reader) (terminal : Bool) (table : Table) :
    Action → Prop
  | entry {id : Nat} {lines : List String} (hentry : options.entry = some id)
      (hlines : table.entryLines id = .ok lines) :
      Decides options read terminal table (.print (utf8 (unlines lines)))
  | check {path : String} (hentry : options.entry = none) (hcheck : options.check = some path)
      (hmatches : table.check path (read path) = .ok ()) :
      Decides options read terminal table .nothing
  | print {bytes : Bytes} (hentry : options.entry = none) (hcheck : options.check = none)
      (houtput : options.output = none) (hterminal : ¬ (options.format = .binary ∧ terminal = true))
      (hbytes : table.encode options.format options.symbol = .ok bytes) :
      Decides options read terminal table (.print bytes)
  | save {path : String} {bytes : Bytes} (hentry : options.entry = none)
      (hcheck : options.check = none) (houtput : options.output = some path)
      (hbytes : table.encode options.format options.symbol = .ok bytes) :
      Decides options read terminal table (.save path bytes)

theorem result_act_eq_ok_iff :
    (options.act table read terminal).result = .ok action ↔
      options.Decides read terminal table action := by
  constructor
  · intro h
    unfold act at h
    split at h
    · next id _ hentry =>
      simp only [Journal.bind_eq, Journal.result_bind, Journal.result_ofFault, bind_eq_ok_iff,
        mapError_eq_ok_iff] at h
      rcases h with ⟨lines, hlines, ⟨⟩⟩
      exact Decides.entry hentry hlines
    · next path hentry hcheck =>
      simp only [Journal.bind_eq, Journal.result_bind, bind_eq_ok_iff,
        result_checkFile_eq_ok_iff] at h
      rcases h with ⟨_, hmatches, _, _, ⟨⟩⟩
      exact Decides.check hentry hcheck hmatches
    · next hentry hcheck =>
      simp only [Journal.bind_eq, Journal.result_bind, bind_eq_ok_iff,
        result_encodeTable_eq_ok_iff] at h
      rcases h with ⟨bytes, hbytes, haction⟩
      cases houtput : options.output with
      | none =>
          simp only [houtput] at haction
          split at haction
          · cases haction
          · next hterminal =>
            cases haction
            exact Decides.print hentry hcheck houtput hterminal hbytes
      | some path =>
          simp only [houtput] at haction
          cases haction
          exact Decides.save hentry hcheck houtput hbytes
  · intro h
    cases h with
    | entry hentry hlines =>
        simp only [act, hentry, Journal.bind_eq, Journal.result_bind, Journal.result_ofFault,
          hlines]
        rfl
    | check hentry hcheck hmatches =>
        simp only [act, hentry, hcheck, Journal.bind_eq, Journal.result_bind,
          result_checkFile_eq_ok_iff.mpr hmatches]
        rfl
    | print hentry hcheck houtput hterminal hbytes =>
        simp only [act, hentry, hcheck, houtput, hterminal, if_false, Journal.bind_eq,
          Journal.result_bind, result_encodeTable_eq_ok_iff.mpr hbytes]
        rfl
    | save hentry hcheck houtput hbytes =>
        simp only [act, hentry, hcheck, houtput, Journal.bind_eq, Journal.result_bind,
          result_encodeTable_eq_ok_iff.mpr hbytes]
        rfl

/-- A plan succeeds exactly when the descriptors load, make a table, and leave something to be
done with it. -/
theorem result_plan_eq_ok_iff :
    (options.plan read terminal).result = .ok action ↔
      ∃ list table, options.Loads read list ∧ Table.ofDescriptors list = .ok table ∧
        options.Decides read terminal table action := by
  simp only [plan, Journal.bind_eq, Journal.result_bind, Journal.result_note, bind_eq_ok_iff,
    result_loadTable_eq_ok_iff, result_act_eq_ok_iff, true_and, exists_const]
  constructor
  · intro h
    rcases h with ⟨table, ⟨list, hloads, htable⟩, hdecides⟩
    exact ⟨list, table, hloads, htable, hdecides⟩
  · intro h
    rcases h with ⟨list, table, hloads, htable, hdecides⟩
    exact ⟨table, ⟨list, hloads, htable⟩, hdecides⟩

theorem loadTable_congr (h : ∀ path ∈ options.inputs, read path = other path) :
    options.loadTable read = options.loadTable other := by
  unfold loadTable
  cases hpath : options.descriptors with
  | none => rfl
  | some path =>
      have hread : read path = other path := h path (by simp [inputs, hpath])
      simp only [hread]

theorem act_congr (h : ∀ path ∈ options.inputs, read path = other path) (table : Table)
    (terminal : Bool) : options.act table read terminal = options.act table other terminal := by
  unfold act
  cases hentry : options.entry with
  | some id => rfl
  | none =>
      cases hpath : options.check with
      | none => rfl
      | some path =>
          have hread : read path = other path := h path (by simp [inputs, hentry, hpath])
          simp only [checkFile, hread]

/-- A plan looks at no file that is not among the inputs. -/
theorem plan_congr (h : ∀ path ∈ options.inputs, read path = other path) (terminal : Bool) :
    options.plan read terminal = options.plan other terminal := by
  unfold plan
  rw [loadTable_congr h]
  simp only [act_congr h]

end Options

theorem Reader.ofFound_map (read : Reader) {path : String} {paths : List String}
    (h : path ∈ paths) :
    Reader.ofFound (paths.map fun path => (path, read path)) path = read path := by
  have hlookup : (paths.map fun path => (path, read path)).lookup path = some (read path) := by
    induction paths with
    | nil => cases h
    | cons other rest ih =>
        rw [List.map_cons, List.lookup_cons]
        by_cases hother : path = other
        · subst hother
          simp
        · rw [beq_false_of_ne hother]
          exact ih (List.mem_of_ne_of_mem hother h)
  rw [Reader.ofFound, hlookup]
  rfl

theorem FileTree.run_mapM_read (tree : FileTree) (terminal : Bool) (paths : List String) :
    (paths.mapM fun path => do return (path, ← (host terminal).read path)).run tree =
      pure (paths.map fun path => (path, tree.read path), tree) := by
  induction paths with
  | nil => rfl
  | cons path rest ih =>
      simp only [List.mapM_cons, StateT.run_bind, run_host_read, StateT.run_pure, pure_bind, ih,
        List.map_cons]

variable {options : Options} {tree : FileTree} {terminal : Bool} {action : Action}

theorem run_carryOut (options : Options) (tree : FileTree) (terminal : Bool) (action : Action) :
    (options.carryOut (FileTree.host terminal) action).run tree =
      (((perform options tree action).1, (perform options tree action).2.2),
        (perform options tree action).2.1) := by
  cases action with
  | nothing | print bytes | save path bytes => rfl

/-- A run reads what it may have to read before it plans, and plans as if it read on the way. -/
theorem run_eq (options : Options) (tree : FileTree) (terminal : Bool) :
    run options tree terminal =
      let planned := options.plan tree.read terminal
      match planned.result with
      | .error _ => ⟨⟨planned.exitCode, [], planned.finalLog⟩, tree⟩
      | .ok action =>
          let (stdout, files, rest) := perform options tree action
          let whole := planned.bind fun _ => rest
          ⟨⟨whole.exitCode, stdout, whole.finalLog⟩, files⟩ := by
  have hplan := options.plan_congr (fun path => Reader.ofFound_map tree.read) terminal
  unfold run Options.execute
  simp only [StateT.run_bind, FileTree.run_mapM_read, FileTree.run_host_isTerminal, pure_bind,
    hplan]
  cases hresult : (options.plan tree.read terminal).result with
  | error failure => rfl
  | ok action =>
      simp only [StateT.run_bind, run_carryOut, StateT.run_pure]
      rfl

theorem Journal.exitCode_eq_zero_iff {α : Type} {journal : Journal α} :
    journal.exitCode = 0 ↔ ∃ value, journal.result = .ok value := by
  unfold Journal.exitCode
  cases journal.result with
  | error failure => simp
  | ok value => simp

theorem run_of_error {failure : Failure Fault}
    (h : (options.plan tree.read terminal).result = .error failure) :
    (run options tree terminal).exitCode = 1 ∧ (run options tree terminal).stdout = [] ∧
      (run options tree terminal).files = tree := by
  rw [run_eq]
  simp only [h, Journal.exitCode, and_self]

theorem run_of_ok (h : (options.plan tree.read terminal).result = .ok action) :
    (run options tree terminal).stdout = (perform options tree action).1 ∧
      (run options tree terminal).files = (perform options tree action).2.1 ∧
      ((run options tree terminal).exitCode = 0 ↔
        (perform options tree action).2.2.result = .ok ()) := by
  rw [run_eq]
  simp only [h, Journal.exitCode_eq_zero_iff, Journal.result_bind, true_and]
  constructor
  · intro h
    rcases h with ⟨_, hrest⟩
    exact hrest
  · intro hrest
    exact ⟨(), hrest⟩

/-- What an action prints and the files that it leaves, when it succeeds. -/
inductive Performs (tree : FileTree) : Action → Bytes → FileTree → Prop
  | nothing : Performs tree .nothing [] tree
  | print (bytes : Bytes) : Performs tree (.print bytes) bytes tree
  | save {path : String} {bytes : Bytes} {written : FileTree}
      (hwrite : tree.write path bytes = .ok written) : Performs tree (.save path bytes) [] written

theorem performs_iff (options : Options) {stdout : Bytes} {files : FileTree} :
    Performs tree action stdout files ↔
      (perform options tree action).1 = stdout ∧ (perform options tree action).2.1 = files ∧
        (perform options tree action).2.2.result = .ok () := by
  constructor
  · intro h
    cases h with
    | nothing => exact ⟨rfl, rfl, rfl⟩
    | print bytes => exact ⟨rfl, rfl, rfl⟩
    | save hwrite =>
        rw [perform_save_ok hwrite]
        exact ⟨rfl, rfl, rfl⟩
  · intro h
    rcases h with ⟨rfl, rfl, hresult⟩
    cases action with
    | nothing => exact Performs.nothing
    | print bytes => exact Performs.print bytes
    | save path bytes =>
        cases hwrite : tree.write path bytes with
        | ok written =>
            rw [perform_save_ok hwrite]
            exact Performs.save hwrite
        | error fault =>
            rw [perform_save_error hwrite] at hresult
            cases hresult

/-- An action that fails prints nothing and leaves the files as they were. -/
theorem perform_of_result_ne_ok (h : (perform options tree action).2.2.result ≠ .ok ()) :
    (perform options tree action).1 = [] ∧ (perform options tree action).2.1 = tree := by
  cases action with
  | nothing => exact absurd rfl h
  | print bytes => exact absurd rfl h
  | save path bytes =>
      cases hwrite : tree.write path bytes with
      | ok written =>
          rw [perform_save_ok hwrite] at h
          exact absurd rfl h
      | error fault =>
          rw [perform_save_error hwrite]
          exact ⟨rfl, rfl⟩

/-- A run succeeds exactly when its plan and then its action do, and it leaves what they ask for. -/
theorem run_succeeds_iff {stdout : Bytes} {files : FileTree} :
    ((run options tree terminal).exitCode = 0 ∧ (run options tree terminal).stdout = stdout ∧
        (run options tree terminal).files = files) ↔
      ∃ list table action, options.Loads tree.read list ∧ Table.ofDescriptors list = .ok table ∧
        options.Decides tree.read terminal table action ∧ Performs tree action stdout files := by
  constructor
  · intro h
    rcases h with ⟨hexit, rfl, rfl⟩
    cases hplan : (options.plan tree.read terminal).result with
    | error failure =>
        rw [(run_of_error hplan).1] at hexit
        cases hexit
    | ok action =>
        rcases Options.result_plan_eq_ok_iff.mp hplan with ⟨list, table, hloads, htable, hdecides⟩
        rcases run_of_ok hplan with ⟨hstdout, hfiles, hzero⟩
        refine ⟨list, table, action, hloads, htable, hdecides,
          (performs_iff options).mpr ?_⟩
        exact ⟨hstdout.symm, hfiles.symm, hzero.mp hexit⟩
  · intro h
    rcases h with ⟨list, table, action, hloads, htable, hdecides, hperforms⟩
    have hplan := Options.result_plan_eq_ok_iff.mpr ⟨list, table, hloads, htable, hdecides⟩
    rcases run_of_ok hplan with ⟨hstdout, hfiles, hzero⟩
    rcases (performs_iff options).mp hperforms with ⟨hprints, hleaves, hdone⟩
    exact ⟨hzero.mpr hdone, hstdout.trans hprints, hfiles.trans hleaves⟩

theorem run_of_exitCode_ne_zero (h : (run options tree terminal).exitCode ≠ 0) :
    (run options tree terminal).stdout = [] ∧ (run options tree terminal).files = tree := by
  cases hplan : (options.plan tree.read terminal).result with
  | error failure => exact (run_of_error hplan).2
  | ok action =>
      rcases run_of_ok hplan with ⟨hstdout, hfiles, hzero⟩
      rw [hstdout, hfiles]
      exact perform_of_result_ne_ok fun hdone => h (hzero.mpr hdone)

end CycleTable
