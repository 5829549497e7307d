import CycleTable.Descriptor
import CycleTable.Fault
import CycleTable.File
import CycleTable.Options
import CycleTable.Table.Format

/-!
# Runs

What the options ask for is worked out in full before anything is written, so that a run
that fails leaves every file as it was.

## Journals

A result together with the lines that were logged on the way to it. A failure keeps what
was logged before it.
-/

namespace CycleTable

structure Journal (α : Type) where
  lines : List String
  result : Except (Failure Fault) α

namespace Journal

variable {α β : Type}

def pure (value : α) : Journal α :=
  ⟨[], .ok value⟩

def bind (journal : Journal α) (next : α → Journal β) : Journal β :=
  match journal.result with
  | .error failure => ⟨journal.lines, .error failure⟩
  | .ok value => ⟨journal.lines ++ (next value).lines, (next value).result⟩

instance : Monad Journal where
  pure := Journal.pure
  bind := Journal.bind

def ofExcept (result : Except (Failure Fault) α) : Journal α :=
  ⟨[], result⟩

def ofFault (result : Except Fault α) : Journal α :=
  ⟨[], result.mapError fun fault => Failure.mk fault none⟩

def log (line : String) : Journal Unit :=
  ⟨[line], .ok ()⟩

def info (line : String) : Journal Unit :=
  log (Text.blue "INFO" ++ ": " ++ line)

def warn (line : String) : Journal Unit :=
  log (Text.red "WARNING" ++ ": " ++ line)

def note (verbose : Bool) (line : String) : Journal Unit :=
  if verbose then log line else pure ()

@[simp] theorem bind_eq (journal : Journal α) (next : α → Journal β) :
    (journal >>= next) = journal.bind next := rfl

@[simp] theorem pure_eq (value : α) : (Pure.pure value : Journal α) = Journal.pure value := rfl

@[simp] theorem pure_bind (value : α) (next : α → Journal β) :
    (Journal.pure value).bind next = next value := by
  simp [Journal.pure, Journal.bind]

end Journal

/-! ## What is left to be done -/

open Text

/-- What is left to be done when nothing can go wrong with the table any more. -/
inductive Action
  | nothing
  | print (bytes : Bytes)
  | save (path : String) (bytes : Bytes)
  deriving DecidableEq, Repr

abbrev Reader := String → Except FileFault Bytes

/-- Files that have been read already. -/
def Reader.ofFound (found : List (String × Except FileFault Bytes)) : Reader :=
  fun path => (found.lookup path).getD (.error .notFound)

namespace Options

variable (options : Options)

def loadTable (read : Reader) : Journal Table :=
  match options.descriptors with
  | none => .ofExcept (Table.ofDescriptors Descriptor.standard)
  | some path => do
      .info ("Loading descriptors from " ++ path)
      let contents ← .ofFault ((read path).mapError Fault.file)
      let list ← .ofFault (Descriptor.ofFile contents)
      .ofExcept (Table.ofDescriptors list)

/-- The types of records that a hex document holds beside its data. -/
def warnIgnored : List UInt8 → Journal Unit
  | [] => pure ()
  | type :: rest => do
      .warn ("ignoring unsupported record type (" ++ toString type.toNat ++ ") in hex file.")
      warnIgnored rest

def checkFile (table : Table) (path : String) (read : Reader) : Journal Unit := do
  let recorded ← .ofFault (Recorded.read path (read path))
  warnIgnored recorded.ignored
  .note options.verbose
    ("read " ++ toString recorded.image.length ++ " bytes from " ++ path)
  .ofFault (table.compare recorded.image)

def encodeTable (table : Table) : Journal Bytes := do
  if options.symbol.isSome && !options.format.usesSymbol then
    .warn ("--symbol has no effect on " ++ options.format.name ++ " output")
  if options.format = .hex then do
    let document ← .ofFault table.hexDocument
    .note options.verbose (toString document.size ++ " hex records")
  .ofFault (table.encode options.format options.symbol)

/--
A request for one entry comes before a check, and that before writing the table. Bare bytes are
not printed on a terminal.
-/
def act (table : Table) (read : Reader) (terminal : Bool) : Journal Action :=
  match options.entry, options.check with
  | some id, _ => do
      let lines ← .ofFault (table.entryLines id)
      return .print (utf8 (unlines lines))
  | none, some path => do
      options.checkFile table path read
      .info (path ++ " matches the generated table")
      return .nothing
  | none, none => do
      let bytes ← options.encodeTable table
      match options.output with
      | some path => return .save path bytes
      | none =>
          if options.format = .binary ∧ terminal = true then .ofFault (.error .terminal)
          else return .print bytes

/-- The files that a run may have to read. -/
def inputs : List String :=
  options.descriptors.toList ++ if options.entry.isNone then options.check.toList else []

def plan (read : Reader) (terminal : Bool) : Journal Action := do
  let table ← options.loadTable read
  .note options.verbose
    ("generated " ++ toString table.entries.length ++ " entries (" ++
      toString table.cells.length ++ " cells)")
  options.act table read terminal

/-- What is logged of a file that was to be written. -/
def saved (path : String) (written : Except FileFault Unit) : Journal Unit := do
  .ofFault (written.mapError Fault.file)
  .info ("wrote " ++ options.format.name ++ " table: " ++ path)

end Options

end CycleTable

/-!
## Hosts

A plan carried out by a host: the machine that the program runs on, or a file tree in its place.
-/

namespace CycleTable

open Text

/-- What is seen of a run when it has ended, but for the files. -/
structure Report where
  exitCode : Nat
  stdout : Bytes
  /-- What went to the standard error, one text to each report. -/
  log : List String
  deriving DecidableEq, Repr

structure Outcome extends Report where
  files : FileTree
  deriving DecidableEq, Repr

def Report.stderr (report : Report) : String :=
  unlines report.log

/-- The log of a run that has ended. A failure is told twice: at length with its entry, and
behind the program's name. -/
def Journal.finalLog {α : Type} (journal : Journal α) : List String :=
  journal.lines ++ match journal.result with
    | .ok _ => []
    | .error failure =>
        [failure.diagnostic.display, "Error: " ++ failure.diagnostic.report]

def Journal.exitCode {α : Type} (journal : Journal α) : Nat :=
  match journal.result with
  | .ok _ => 0
  | .error _ => 1

/-- What a run needs of the machine that it is on. -/
structure Host (m : Type → Type) where
  read : String → m (Except FileFault Bytes)
  write : String → Bytes → m (Except FileFault Unit)
  /-- The standard output goes to a terminal. -/
  isTerminal : m Bool

namespace Options

variable {m : Type → Type} [Monad m] (options : Options) (host : Host m)

/-- What an action writes: to the standard output, and to the log. -/
def carryOut : Action → m (Bytes × Journal Unit)
  | .nothing => return ([], pure ())
  | .print bytes => return (bytes, pure ())
  | .save path bytes => do return ([], options.saved path (← host.write path bytes))

def execute : m Report := do
  let found ← options.inputs.mapM fun path => do return (path, ← host.read path)
  let planned := options.plan (Reader.ofFound found) (← host.isTerminal)
  match planned.result with
  | .error _ => return ⟨planned.exitCode, [], planned.finalLog⟩
  | .ok action => do
      let (stdout, rest) ← options.carryOut host action
      let whole := planned.bind fun _ => rest
      return ⟨whole.exitCode, stdout, whole.finalLog⟩

end Options

def FileTree.host (terminal : Bool) : Host (StateM FileTree) where
  read path tree := (tree.read path, tree)
  write path bytes tree :=
    match tree.write path bytes with
    | .ok written => (.ok (), written)
    | .error fault => (.error fault, tree)
  isTerminal tree := (terminal, tree)

namespace FileTree

variable {tree : FileTree} {path : String} {bytes : Bytes} (terminal : Bool)

theorem run_host_read (path : String) :
    ((host terminal).read path).run tree = pure (tree.read path, tree) := rfl

theorem run_host_isTerminal :
    (host terminal).isTerminal.run tree = pure (terminal, tree) := rfl

theorem run_host_write_ok {written : FileTree} (h : tree.write path bytes = .ok written) :
    ((host terminal).write path bytes).run tree = pure (.ok (), written) := by
  show (match tree.write path bytes with
    | .ok written => (Except.ok (), written)
    | .error fault => (Except.error fault, tree)) = _
  rw [h]
  rfl

theorem run_host_write_error {fault : FileFault} (h : tree.write path bytes = .error fault) :
    ((host terminal).write path bytes).run tree = pure (.error fault, tree) := by
  show (match tree.write path bytes with
    | .ok written => (Except.ok (), written)
    | .error fault => (Except.error fault, tree)) = _
  rw [h]
  rfl

end FileTree

/-- What an action writes: to the standard output, to the files, and to the log. -/
def perform (options : Options) (tree : FileTree) (action : Action) :
    Bytes × FileTree × Journal Unit :=
  let ((stdout, rest), files) := (options.carryOut (FileTree.host false) action).run tree
  (stdout, files, rest)

theorem perform_save_ok {options : Options} {tree written : FileTree} {path : String}
    {bytes : Bytes} (h : tree.write path bytes = .ok written) :
    perform options tree (.save path bytes) = ([], written, options.saved path (.ok ())) := by
  unfold perform Options.carryOut
  simp only [StateT.run_bind, FileTree.run_host_write_ok false h]
  rfl

theorem perform_save_error {options : Options} {tree : FileTree} {path : String} {bytes : Bytes}
    {fault : FileFault} (h : tree.write path bytes = .error fault) :
    perform options tree (.save path bytes) = ([], tree, options.saved path (.error fault)) := by
  unfold perform Options.carryOut
  simp only [StateT.run_bind, FileTree.run_host_write_error false h]
  rfl

/-- A run of the program on a file tree. -/
def run (options : Options) (tree : FileTree) (terminal : Bool := false) : Outcome :=
  let (report, files) := (options.execute (FileTree.host terminal)).run tree
  ⟨report, files⟩

end CycleTable
