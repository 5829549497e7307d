import CycleTable.Proofs.IntelHex.Session

/-!
# Documents changed in place

The operations on a document as steps that set its fields one after the other. A step that was
taken before a fault stays taken. The operations give and leave what they do as functions, and
after any session of them the flag tells whether the last record ends the document, which no
other record does.
-/

namespace CycleTable.IntelHex

/-- Work on a document that stays changed as far as the work has come. -/
abbrev InPlace := EStateM Fault Document Unit

theorem Document.IsSound.ended_iff_getLast? {document : Document} (h : document.IsSound) :
    document.ended = true ↔
      ∃ last, document.records.toList.getLast? = some last ∧ last.type = endType := by
  cases h with
  | ended hended =>
      obtain ⟨front, last, hrecords, hlast, _⟩ := hended
      refine iff_of_true rfl ⟨last, ?_, eq_of_beq hlast⟩
      rw [hrecords, List.getLast?_concat]
  | unended hopen =>
      refine iff_of_false Bool.false_ne_true ?_
      intro hend
      obtain ⟨last, hlast, htype⟩ := hend
      have hfalse := hopen last (List.mem_of_getLast? hlast)
      rw [Record.isEnd, htype] at hfalse
      cases hfalse

theorem Document.IsSound.type_ne_of_mem_dropLast {document : Document} (h : document.IsSound) :
    ∀ record ∈ document.records.toList.dropLast, record.type ≠ endType := by
  have hopen : ∀ record ∈ document.records.toList.dropLast, record.isEnd = false := by
    cases h with
    | ended hended =>
        obtain ⟨front, last, hrecords, _, hfront⟩ := hended
        rw [hrecords, List.dropLast_concat]
        exact hfront
    | unended hopen =>
        intro record hrecord
        exact hopen record ((List.dropLast_sublist _).subset hrecord)
  intro record hrecord htype
  have hfalse := hopen record hrecord
  rw [Record.isEnd, htype] at hfalse
  cases hfalse

namespace InPlace

def setEnded (ended : Bool) : InPlace :=
  modify fun document => { document with ended }

def push (record : Record) : InPlace :=
  modify fun document => { document with records := document.records.push record }

/-- The flag is set before the record is in its place. -/
def add (record : Record) : InPlace := do
  if (← get).ended then throw .recordAfterEnd
  setEnded record.isEnd
  push record

/-- The record is in its place before the flag is set. -/
def finish : InPlace := do
  if !(← get).ended then
    push .endOfFile
    setEnded true

def addLine (line : List Char) : InPlace :=
  match Record.ofLine line with
  | .error fault => throw fault
  | .ok none => pure ()
  | .ok (some record) => add record

def ofImage (image : Bytes) : InPlace := do
  if maxImage < image.length then throw .imageTooLarge
  (dataRecords image).forM add
  finish

def ofLines (lines : List (List Char)) : InPlace := do
  lines.forM addLine
  if !(← get).ended then throw .endMissing

/-- Work on an empty document, which takes the place of the old one unless the work fails. -/
def anew (work : InPlace) : InPlace := fun document =>
  match work .empty with
  | .ok () made => .ok () made
  | .error fault _ => .error fault document

def ofCommand : Command → InPlace
  | .new => anew (pure ())
  | .add record => add record
  | .finish => finish
  | .ofImage image => anew (ofImage image)
  | .ofLines lines => anew (ofLines lines)

def left (work : InPlace) (document : Document) : Document :=
  match work document with
  | .ok () next => next
  | .error _ next => next

/-- The document that a session in place leaves. A command that fails does not end the session. -/
def session (commands : List Command) : Document :=
  commands.foldl (fun document command => left (ofCommand command) document) .empty

/-- Work comes to the same as a function does with the document: the same fault, or none and the
document that the function makes. -/
def Realizes (work : InPlace) (document : Document) : Except Fault Document → Prop
  | .ok next => work document = .ok () next
  | .error fault => ∃ unfinished, work document = .error fault unfinished

variable {document : Document} {work more : InPlace} {outcome : Except Fault Document}
  {record : Record}

theorem add_of_ended (h : document.ended = true) :
    add record document = .error .recordAfterEnd document := by
  cases document with
  | mk records ended =>
      cases h
      rfl

theorem add_of_open (h : document.ended = false) :
    add record document = .ok () ⟨document.records.push record, record.isEnd⟩ := by
  cases document with
  | mk records ended =>
      cases h
      rfl

theorem realizes_finish (document : Document) :
    Realizes finish document (.ok document.finish) := by
  cases document with
  | mk records ended => cases ended <;> rfl

theorem realizes_add (record : Record) (document : Document) :
    Realizes (add record) document (document.add record) := by
  cases h : document.ended with
  | true =>
      rw [Document.add, if_pos h]
      exact ⟨document, add_of_ended h⟩
  | false =>
      rw [Document.add, if_neg (by simp [h])]
      exact add_of_open h

theorem realizes_addLine (line : List Char) (document : Document) :
    Realizes (addLine line) document (document.addLine line) := by
  unfold addLine Document.addLine
  cases Record.ofLine line with
  | error fault => exact ⟨document, rfl⟩
  | ok found =>
      cases found with
      | none => rfl
      | some record => exact realizes_add record document

theorem Realizes.bind {next : Document → Except Fault Document}
    (h : Realizes work document outcome)
    (hmore : ∀ made, outcome = .ok made → Realizes more made (next made)) :
    Realizes (work >>= fun _ => more) document (outcome >>= next) := by
  cases outcome with
  | error fault =>
      obtain ⟨unfinished, hwork⟩ := h
      exact ⟨unfinished, by simp only [bind, EStateM.bind, hwork]⟩
  | ok made =>
      have hwork : work document = .ok () made := h
      have hrun : (work >>= fun _ => more) document = more made := by
        simp only [bind, EStateM.bind, hwork]
      have hnext := hmore made rfl
      show Realizes (work >>= fun _ => more) document (next made)
      unfold Realizes at hnext ⊢
      rw [hrun]
      exact hnext

theorem realizes_forM {α : Type} {work : α → InPlace} {next : Document → α → Except Fault Document}
    (h : ∀ x document, Realizes (work x) document (next document x)) (xs : List α)
    (document : Document) : Realizes (xs.forM work) document (xs.foldlM next document) := by
  induction xs generalizing document with
  | nil => rfl
  | cons x xs ih =>
      rw [List.foldlM_cons]
      exact (h x document).bind fun made _ => ih made

theorem foldlM_add_of_open {records : List Record} (h : ∀ record ∈ records, record.isEnd = false)
    (front : Array Record) :
    records.foldlM Document.add ⟨front, false⟩ = .ok ⟨front ++ records.toArray, false⟩ := by
  induction records generalizing front with
  | nil => simp [pure, Except.pure]
  | cons record rest ih =>
      rw [List.forall_mem_cons] at h
      rw [List.foldlM_cons, bind_eq_ok_iff]
      refine ⟨⟨front.push record, false⟩, Document.add_eq_ok_iff.mpr ⟨rfl, by rw [h.1]⟩, ?_⟩
      rw [ih h.2]
      simp

theorem realizes_ofImage (image : Bytes) :
    Realizes (ofImage image) .empty (Document.ofImage image) := by
  by_cases hlarge : maxImage < image.length
  · rw [ofImage, Document.ofImage, if_pos hlarge, if_pos hlarge]
    exact ⟨.empty, rfl⟩
  · rw [ofImage, Document.ofImage, if_neg hlarge, if_neg hlarge]
    have hopen : ∀ record ∈ dataRecords image, record.isEnd = false :=
      fun record hrecord => (of_mem_dataRecords (Nat.le_of_not_lt hlarge) hrecord).2.1
    have hadd := realizes_forM realizes_add (dataRecords image) .empty
    have hfinish := hadd.bind fun made _ => realizes_finish made
    rw [Document.empty, foldlM_add_of_open hopen, Array.empty_append] at hfinish
    exact hfinish

theorem realizes_ofLines (lines : List (List Char)) :
    Realizes (ofLines lines) .empty (Document.ofLines lines) := by
  refine (realizes_forM realizes_addLine lines .empty).bind ?_
  intro made _
  cases made with
  | mk records ended =>
      cases ended with
      | true => rfl
      | false => exact ⟨⟨records, false⟩, rfl⟩

theorem left_of_realizes {next : Document} (h : Realizes work document (.ok next)) :
    left work document = next := by
  have hwork : work document = .ok () next := h
  rw [left, hwork]

theorem left_anew {command : Command} (h : Realizes work .empty (document.apply command)) :
    left (anew work) document = document.step command := by
  unfold Document.step
  cases hmade : document.apply command with
  | ok next =>
      rw [hmade] at h
      have hwork : work .empty = .ok () next := h
      simp only [left, anew, hwork]
  | error fault =>
      rw [hmade] at h
      obtain ⟨unfinished, hwork⟩ := h
      simp only [left, anew, hwork]

theorem left_add (record : Record) (document : Document) :
    left (add record) document = document.step (.add record) := by
  rw [left, Document.step, Document.apply, Document.add]
  cases h : document.ended with
  | true => rw [add_of_ended h, if_pos rfl]
  | false => rw [add_of_open h, if_neg Bool.false_ne_true]

theorem left_ofCommand (command : Command) (document : Document) :
    left (ofCommand command) document = document.step command := by
  cases command with
  | new => rfl
  | add record => exact left_add record document
  | finish => exact left_of_realizes (realizes_finish document)
  | ofImage image => exact left_anew (realizes_ofImage image)
  | ofLines lines => exact left_anew (realizes_ofLines lines)

theorem session_eq_after (commands : List Command) :
    session commands = Document.empty.after commands := by
  have hsteps : (fun document command => left (ofCommand command) document) = Document.step := by
    funext document command
    exact left_ofCommand command document
  rw [session, hsteps]
  rfl

theorem isSound_session (commands : List Command) : (session commands).IsSound := by
  rw [session_eq_after]
  exact Document.isSound_empty.after commands

/--
After any session the document is ended exactly if it has a last record and that record ends it;
no other record does. Adding to it fails exactly if it is ended, which leaves it unchanged, and
otherwise puts the record behind the others. Finishing it never fails; what it leaves is ended,
with one record more if it was not ended before, and is not changed by finishing it again.
-/
theorem ended_by_last_record (commands : List Command) :
    let document := session commands
    (document.ended = true ↔
      ∃ last, document.records.toList.getLast? = some last ∧ last.type = endType) ∧
    (∀ record ∈ document.records.toList.dropLast, record.type ≠ endType) ∧
    (∀ record,
      ((∃ fault kept, add record document = .error fault kept) ↔ document.ended = true) ∧
      (∀ fault kept, add record document = .error fault kept →
        fault = .recordAfterEnd ∧ kept = document) ∧
      ∀ next, add record document = .ok () next →
        next = ⟨document.records.push record, record.isEnd⟩) ∧
    ∃ next, finish document = .ok () next ∧ next.ended = true ∧
      next.records.toList =
        document.records.toList ++ (if document.ended then [] else [.endOfFile]) ∧
      finish next = .ok () next := by
  intro document
  have hsound : document.IsSound := isSound_session commands
  refine ⟨hsound.ended_iff_getLast?, hsound.type_ne_of_mem_dropLast, ?_, ?_⟩
  · intro record
    cases hended : document.ended with
    | true =>
        rw [add_of_ended hended]
        refine ⟨iff_of_true ⟨_, _, rfl⟩ rfl, ?_, ?_⟩
        · intro fault kept hfault
          cases hfault
          exact ⟨rfl, rfl⟩
        · intro next hnext
          cases hnext
    | false =>
        rw [add_of_open hended]
        refine ⟨iff_of_false (by simp) Bool.false_ne_true, ?_, ?_⟩
        · intro fault kept hfault
          cases hfault
        · intro next hnext
          cases hnext
          rfl
  · refine ⟨document.finish, realizes_finish document, Document.ended_finish document, ?_, ?_⟩
    · unfold Document.finish
      split
      · exact (List.append_nil _).symm
      · exact Array.toList_push
    · have hagain := realizes_finish document.finish
      rw [Document.finish_finish] at hagain
      exact hagain

example :
    session [.add (.ofData 0 [7]), .ofLines [":0100010008F6".toList], .finish, .add .endOfFile] =
      ⟨#[.ofData 0 [7], .endOfFile], true⟩ := by
  decide +kernel

end InPlace

end CycleTable.IntelHex
