import VlanTagger.Lib.CString
import VlanTagger.Lib.Critical

/-!
# printL of logger/logger.c

`printL` is the program of one call: the lock, the writes with the early return behind
each of them, and the unlock. The value it returns is none where the sum of the characters
overflows an `int`, which is undefined.
-/
namespace VlanTagger.Logger

open Lib Lib.CString

/-- `TIME_BUF_SIZE` -/
def timeBufSize : Nat := 80

/-- `USR_MSG_SIZE` -/
def usrMsgSize : Nat := 8192

/-- `INT_MAX` -/
def intMax : Int := 2147483647

/-- The text that `get_time` leaves in its buffer. -/
structure TimeText where
  text : CString
  length_lt : text.length < timeBufSize
  no_nul : 0 ∉ text

/-- A call of `printL`. The expansion of the format by the arguments is none for a NULL
format, and the time is none where `get_time` fails. -/
structure Call where
  msgType : Int
  sender : Int
  expansion : Option CString
  time : Option TimeText

abbrev Program := Cmd UInt8 (Option Int)

/-- `vsnprintf(buffer, size, ..)`: the text in the buffer and the returned value. -/
def vsnprintf (size : Nat) (expansion : CString) : CString × Int :=
  (expansion.take (size - 1), if (expansion.length : Int) ≤ intMax then expansion.length else -1)

/-- The sum of two `int` values of which the second is not negative. -/
def addInt (a : Option Int) (b : Int) : Option Int :=
  a.bind fun x => if x + b ≤ intMax then some (x + b) else none

/-- `switch (msg_type)` -/
def printType (msgType : Int) (next : Program) : Program :=
  if msgType = 0 then .write (ofString "\t[INFO]\t") (.unlock (.ret (some (-3)))) next
  else if msgType = 2 then .write (ofString "\t[WARN]\t") (.unlock (.ret (some (-3)))) next
  else if msgType = 1 then .write (ofString "\t[ERR] \t") (.unlock (.ret (some (-3)))) next
  else .write (ofString "\t[INFO]\t") (.unlock (.ret (some (-3)))) next

/-- `switch (sender)` -/
def printSender (sender : Int) (next : Program) : Program :=
  if sender = 0 then .write (ofString "INIT: ") (.unlock (.ret (some (-3)))) next
  else if sender = 1 then .write (ofString "PARS: ") (.unlock (.ret (some (-3)))) next
  else if sender = 2 then .write (ofString "SNIF: ") (.unlock (.ret (some (-3)))) next
  else if sender = 3 then .write (ofString "TAGG: ") (.unlock (.ret (some (-3)))) next
  else if sender = 4 then .write (ofString "SEND: ") (.unlock (.ret (some (-3)))) next
  else .write (ofString "UNK:  ") (.unlock (.ret (some (-3)))) next

def printL (c : Call) : Program :=
  match c.expansion with
  | none => .ret (some (-1))
  | some expansion =>
    let (buffer, returnedVal) := vsnprintf usrMsgSize expansion
    match c.time with
    | none => .ret (some (-2))
    | some timeBuff =>
      let returnedVal := addInt (some returnedVal) timeBuff.text.length
      let returnedVal := addInt returnedVal 8
      let returnedVal := addInt returnedVal 6
      let returnedVal := addInt returnedVal 1
      .lock (.write timeBuff.text (.unlock (.ret (some (-3))))
        (printType c.msgType (printSender c.sender
          (.write (cstr buffer) (.unlock (.ret (some (-3))))
            (.write [chr '\n'] (.unlock (.ret (some (-3)))) (.unlock (.ret returnedVal)))))))

end VlanTagger.Logger
