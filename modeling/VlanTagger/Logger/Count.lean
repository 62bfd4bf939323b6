import VlanTagger.Logger.Records

/-!
# The value printL returns

The README promises the number of the characters written. The sum starts from what
`vsnprintf` returns, which is the length of the whole expansion, also where the buffer
holds only its first 8191 characters.
-/
namespace VlanTagger.Logger

open Lib Lib.CString

variable {expansion : CString}

theorem run_printL (msgType sender : Int) (expansion : CString) (time : TimeText) :
    (printL ⟨msgType, sender, some expansion, some time⟩).run =
      (line msgType sender expansion time, count expansion time) := by
  obtain ⟨body, hbody, hguard⟩ := printL_eq msgType sender expansion time
  rw [hbody, Cmd.run, hguard.run]

theorem length_typeText (msgType : Int) : (typeText msgType).length = 8 := by
  unfold typeText
  split
  · rfl
  split
  · rfl
  · rfl

theorem length_senderText (sender : Int) : (senderText sender).length = 6 := by
  unfold senderText
  repeat' split
  all_goals rfl

theorem message_eq (h : 0 ∉ expansion) : message expansion = expansion.take 8191 := by
  have hmem : ∀ c ∈ expansion.take 8191, c ≠ 0 := by
    rintro c hc rfl
    exact h (List.mem_of_mem_take hc)
  exact List.takeWhile_eq_self_iff.mpr fun c hc => decide_eq_true (hmem c hc)

theorem length_message (h : 0 ∉ expansion) : (message expansion).length = min 8191 expansion.length := by
  rw [message_eq h, List.length_take]

theorem length_line (msgType sender : Int) (h : 0 ∉ expansion) (time : TimeText) :
    (line msgType sender expansion time).length = time.text.length + min 8191 expansion.length + 15 := by
  simp only [line, List.length_append, length_typeText, length_senderText, length_message h, List.length_nil,
    List.length_singleton]
  omega

theorem addInt_addInt (a : Option Int) (b : Int) {c : Int} (h : 0 ≤ c) :
    addInt (addInt a b) c = addInt a (b + c) := by
  cases a with
  | none => rfl
  | some x =>
    unfold addInt
    simp only [Option.bind_some]
    by_cases hxb : x + b ≤ intMax
    · simp only [hxb, if_true, Option.bind_some, Int.add_assoc]
    · have hxbc : ¬ x + (b + c) ≤ intMax := by omega
      simp only [hxb, hxbc, if_false, Option.bind_none]

/-- What the call returns, as one sum. -/
theorem count_eq (expansion : CString) (time : TimeText) :
    count expansion time = addInt (some (vsnprintf usrMsgSize expansion).2) (time.text.length + 15) := by
  rw [count, addInt_addInt _ _ (by decide), addInt_addInt _ _ (by decide), addInt_addInt _ _ (by decide)]
  congr 1

/-- `printL` returns the number of the characters it has written exactly if the message fits
its buffer. -/
theorem printL_counts_iff (msgType sender : Int) (h : 0 ∉ expansion) (time : TimeText) :
    (printL ⟨msgType, sender, some expansion, some time⟩).run.2 =
        some ((printL ⟨msgType, sender, some expansion, some time⟩).run.1.length : Int) ↔
      expansion.length ≤ 8191 := by
  have htime : time.text.length < 80 := time.length_lt
  rw [run_printL, length_line msgType sender h, count_eq, addInt, vsnprintf, Option.bind_some]
  simp only [Option.ite_none_right_eq_some, Option.some.injEq]
  by_cases hmax : (expansion.length : Int) ≤ intMax
  · rw [if_pos hmax]
    unfold intMax at hmax ⊢
    omega
  · rw [if_neg hmax]
    unfold intMax at hmax ⊢
    omega

theorem printL_counts_info : (printL ⟨132, -43, some (ofString "info"), some nine⟩).run.2 =
    some ((printL ⟨132, -43, some (ofString "info"), some nine⟩).run.1.length : Int) :=
  (printL_counts_iff 132 (-43) (by decide) nine).mpr (by decide)

/-- One character more than the buffer holds is counted and not written. -/
theorem printL_miscounts : ¬ ∀ (msgType sender : Int) (expansion : CString) (time : TimeText), 0 ∉ expansion →
    (printL ⟨msgType, sender, some expansion, some time⟩).run.2 =
      some ((printL ⟨msgType, sender, some expansion, some time⟩).run.1.length : Int) := by
  intro hall
  have hnul : (0 : UInt8) ∉ List.replicate 8192 (chr 'a') := by
    intro hmem
    exact absurd (List.eq_of_mem_replicate hmem) (by decide)
  have hcount := hall 0 0 (List.replicate 8192 (chr 'a')) nine hnul
  rw [run_printL, length_line 0 0 hnul, count_eq, vsnprintf, List.length_replicate] at hcount
  revert hcount
  decide

end VlanTagger.Logger
