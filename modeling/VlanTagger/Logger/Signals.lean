import VlanTagger.Lib.Decimal
import VlanTagger.Lib.Interrupted
import VlanTagger.Logger.Records

/-!
# A signal while a thread logs

`signal_handler` of main.c logs before it stops the pipeline, and the mutex of the log is not
recursive. The records stay whole whatever the signals are. But a signal that reaches a thread
between the lock and the unlock of its `printL` makes the handler wait for the thread that it
interrupts: the log is never written again, and every thread that logs waits with it. In every
other state the lock can be released.
-/
namespace VlanTagger.Logger

open Lib Lib.CString

/-- `printL(INFO, INITIATOR, "Received signal %d, stopping pipeline", signal)` -/
def signalCall (signal : Nat) (time : Option TimeText) : Call :=
  ⟨0, 0, some (ofString "Received signal " ++ (decimal signal ++ ofString ", stopping pipeline")), time⟩

variable {Tid : Type*} [DecidableEq Tid] {content : CString}
  {tr : List (Act (Tid × Nat) Call UInt8 (Option Int))} {s : Interrupted Tid Call UInt8 (Option Int)}

/-- Any threads that log, with signals at any time, one inside the other: the file is made of
whole records and of beginnings of records as without signals; a signal inside the lock
makes the log stuck, one outside does not; and the lock can be released again exactly if the
log is not stuck, for else neither the file changes nor is the lock taken. -/
theorem log_with_signals (h : (interruptedSystem logger content).Run tr s) :
    (s.base.file = content ++ ((piecesOf tr).reverse.map Piece.text).flatten ∧
      ∀ p ∈ piecesOf tr, ∀ v, p.value = some v →
        (v = p.call.count ∧ p.text = p.call.record) ∨ (v = some (-3) ∧ p.text <+: p.call.record)) ∧
    (∀ t i d signal time s', s.base.owner = some (t, i) →
      InterruptedStep logger s (.call (t, d) (signalCall signal (some time))) s' → Stuck s') ∧
    (((interruptedSystem logger content).restrict Outside).Run tr s → ¬ Stuck s) ∧
    ((∃ tr' s', (interruptedSystem logger content).Path s tr' s' ∧ s'.base.owner = none) ↔ ¬ Stuck s) ∧
    (Stuck s → ∀ tr' s', (interruptedSystem logger content).Path s tr' s' →
      s'.base.file = s.base.file ∧ ∀ a c, .lock a c ∉ tr') := by
  have hrec := interrupted_recorded h
  refine ⟨⟨hrec.file, hrec.settled⟩, ?_, not_stuck_of_outside, release_iff_not_stuck h, ?_⟩
  · intro t i d signal time s' howner hs
    obtain ⟨body, hbody, -⟩ := printL_eq 0 0
      (ofString "Received signal " ++ (decimal signal ++ ofString ", stopping pipeline")) time
    have hprogram : logger.program (signalCall signal (some time)) = .lock body := hbody
    exact stuck_of_call h howner hprogram hs
  · intro hstuck tr' s' path
    obtain ⟨-, hfile, -, hlocks⟩ := stuck_forever h hstuck path
    exact ⟨hfile, hlocks⟩

/-- SIGTERM behind the first write of a record: the log ends in a time. -/
theorem log_with_signals_term :
    ∃ (tr : List (Act (Nat × Nat) Call UInt8 (Option Int)))
      (s : Interrupted Nat Call UInt8 (Option Int)),
      (interruptedSystem logger []).Run tr s ∧ s.base.file = ofString "09:00" ∧ Stuck s ∧
      ∀ tr' s', (interruptedSystem logger []).Path s tr' s' → s'.base.file = ofString "09:00" := by
  let c : Call := ⟨0, 0, some (ofString "info"), some nine⟩
  have h0 : (interruptedSystem logger []).Run [] ⟨⟨none, [], fun _ => none⟩, fun _ : Nat => 0⟩ := .start rfl
  have h1 := h0.snoc (.call (t := 0) (c := c) (.call rfl))
  have h2 := h1.snoc (.go (t := 0) (d := 0) rfl rfl rfl (.lock (c := c) rfl rfl))
  have h3 := h2.snoc (.go (t := 0) (d := 0) rfl rfl rfl (.write (c := c) rfl))
  have h4 := h3.snoc (.call (t := 0) (c := signalCall 15 (some nine)) (.call rfl))
  refine ⟨_, _, h4, by decide +kernel, ⟨0, 0, 1, rfl, by decide, by decide, _, _, rfl⟩, fun tr' s' path => ?_⟩
  rw [((log_with_signals h4).2.2.2.2 ⟨0, 0, 1, rfl, by decide, by decide, _, _, rfl⟩ tr' s' path).1]
  decide +kernel

end VlanTagger.Logger
