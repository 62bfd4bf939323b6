import VlanTagger.Logger.Model

/-!
# Log records do not interleave

Any number of threads log at the same time, and any write may fail. The file is made of
one piece for each time the lock was taken: a whole record, or the part of a record up to
the failure.
-/
namespace VlanTagger.Logger

open Lib Lib.CString

def typeText (msgType : Int) : CString :=
  if msgType = 1 then ofString "\t[ERR] \t"
  else if msgType = 2 then ofString "\t[WARN]\t"
  else ofString "\t[INFO]\t"

def senderText (sender : Int) : CString :=
  if sender = 0 then ofString "INIT: "
  else if sender = 1 then ofString "PARS: "
  else if sender = 2 then ofString "SNIF: "
  else if sender = 3 then ofString "TAGG: "
  else if sender = 4 then ofString "SEND: "
  else ofString "UNK:  "

/-- The message as it is printed. -/
def message (expansion : CString) : CString := cstr (vsnprintf usrMsgSize expansion).1

/-- The line for a message. -/
def line (msgType sender : Int) (expansion : CString) (time : TimeText) : CString :=
  time.text ++ (typeText msgType ++ (senderText sender ++ (message expansion ++ ([chr '\n'] ++ []))))

/-- The value that a call returns when nothing fails. -/
def count (expansion : CString) (time : TimeText) : Option Int :=
  addInt (addInt (addInt (addInt (some (vsnprintf usrMsgSize expansion).2) time.text.length) 8) 6) 1

def Call.record (c : Call) : CString :=
  match c.expansion, c.time with
  | some expansion, some time => line c.msgType c.sender expansion time
  | _, _ => []

def Call.count (c : Call) : Option Int :=
  match c.expansion, c.time with
  | some expansion, some time => Logger.count expansion time
  | _, _ => none

section

variable {value : Option Int} {next : Program} {rest : CString}

/-- Every case of the switch writes its text, or releases the lock and returns -3. -/
theorem printType_guarded (msgType : Int) (h : Guarded (some (-3)) value next rest) :
    Guarded (some (-3)) value (printType msgType next) (typeText msgType ++ rest) := by
  unfold printType typeText
  by_cases hinfo : msgType = 0
  · subst hinfo
    exact .write h
  by_cases hwarning : msgType = 2
  · subst hwarning
    exact .write h
  by_cases herror : msgType = 1
  · subst herror
    exact .write h
  · simp only [hinfo, hwarning, herror, if_false]
    exact .write h

theorem printSender_guarded (sender : Int) (h : Guarded (some (-3)) value next rest) :
    Guarded (some (-3)) value (printSender sender next) (senderText sender ++ rest) := by
  unfold printSender senderText
  split
  · exact .write h
  split
  · exact .write h
  split
  · exact .write h
  split
  · exact .write h
  split
  · exact .write h
  · exact .write h

end

theorem printL_eq (msgType sender : Int) (expansion : CString) (time : TimeText) :
    ∃ body, printL ⟨msgType, sender, some expansion, some time⟩ = .lock body ∧
      Guarded (some (-3)) (count expansion time) body (line msgType sender expansion time) :=
  ⟨_, rfl, .write (printType_guarded _ (printSender_guarded _ (.write (.write .done))))⟩

theorem printL_cases (c : Call) : (∃ v, printL c = .ret v) ∨
    ∃ body, printL c = .lock body ∧ Guarded (some (-3)) c.count body c.record := by
  obtain ⟨msgType, sender, expansion, time⟩ := c
  cases expansion with
  | none => exact .inl ⟨_, rfl⟩
  | some expansion =>
    cases time with
    | none => exact .inl ⟨_, rfl⟩
    | some time => exact .inr (printL_eq msgType sender expansion time)

def logger : Recorder Call UInt8 (Option Int) where
  program := printL
  record := Call.record
  value := Call.count
  failure := some (-3)
  guarded := printL_cases

/-- The log file is made of contiguous pieces in the order of the locking. Behind each call
that has returned stands its whole record, or, if it returned -3, a part of it; only the
newest piece can be unfinished, and the lock is free when no call is behind its lock. -/
theorem log_records {Tid : Type*} [DecidableEq Tid] {content : CString}
    {tr : List (Act Tid Call UInt8 (Option Int))} {s : Shared Tid Call UInt8 (Option Int)}
    (h : (recorderSystem logger content).Run tr s) :
    s.file = content ++ ((piecesOf tr).reverse.map Piece.text).flatten ∧
    (piecesOf tr).reverse.map (fun p => (p.thread, p.call)) = lockings tr ∧
    (∀ p ∈ piecesOf tr, ∀ v, p.value = some v →
      (v = p.call.count ∧ p.text = p.call.record) ∨ (v = some (-3) ∧ p.text <+: p.call.record)) ∧
    (∀ p ∈ piecesOf tr, p.value = none →
      (p.closed = false ∧ s.owner = some p.thread ∧ p.text <+: p.call.record) ∨
      (p.closed = true ∧ ∃ v, s.thread p.thread = some (p.call, .ret v) ∧
        ((v = p.call.count ∧ p.text = p.call.record) ∨ (v = some (-3) ∧ p.text <+: p.call.record)))) ∧
    (∀ p older, piecesOf tr = p :: older → ∀ q ∈ older, q.closed = true) ∧
    ((∀ t, between t tr = false) → s.owner = none) := by
  have hrec := recorded_run h
  exact ⟨hrec.file, lockings_eq tr, hrec.settled, fun p hp hnone => hrec.pending hp hnone,
    fun p older hpieces q hq => hrec.closed_of_older hpieces hq, hrec.free⟩

def nine : TimeText := ⟨ofString "09:00", by decide, by decide⟩

/-- One thread fails behind the first character of its record; the other goes on behind it. -/
theorem log_records_failed :
    ∃ (tr : List (Act Nat Call UInt8 (Option Int))) (s : Shared Nat Call UInt8 (Option Int)),
      (recorderSystem logger []).Run tr s ∧ s.file = ofString "009:00" ∧
      s.file = [] ++ ((piecesOf tr).reverse.map Piece.text).flatten ∧
      (piecesOf tr).reverse.map (fun p => (p.thread, p.call)) = lockings tr := by
  let c : Call := ⟨132, -43, some (ofString "info"), some nine⟩
  have h0 : (recorderSystem logger []).Run [] ⟨none, [], fun _ : Nat => none⟩ := .start rfl
  have h1 := h0.snoc (RecorderStep.call (t := 0) (c := c) rfl)
  have h2 := h1.snoc (RecorderStep.lock (t := 0) (c := c) rfl rfl)
  have h3 := h2.snoc (RecorderStep.call (t := 1) (c := c) rfl)
  have h4 := h3.snoc (RecorderStep.fail (t := 0) (c := c) rfl (List.take_prefix 1 _))
  have h5 := h4.snoc (RecorderStep.unlock (t := 0) (c := c) rfl)
  have h6 := h5.snoc (RecorderStep.lock (t := 1) (c := c) rfl rfl)
  have h7 := h6.snoc (RecorderStep.write (t := 1) (c := c) rfl)
  have h8 := h7.snoc (RecorderStep.ret (t := 0) (c := c) rfl)
  exact ⟨_, _, h8, by decide +kernel, (log_records h8).1, (log_records h8).2.1⟩

end VlanTagger.Logger
