import Logtail.FileStream

/-!
# The scribe client

`scribe_send` with its batch. What the network and the server do is an
`Answer`; the code only decides which return value each outcome gives. A `Log`
call that throws or returns another code than OK counts as not stored.
-/

namespace ScribeSend

open FileStream

structure LogEntry where
  category : Bytes
  message : Bytes
  deriving DecidableEq

/-- How a call of `sendClient->Log(messages)` ends. Codes outside the
enumeration can arrive, the wire value is only cast. -/
inductive LogOutcome where
  | ok
  | tryLater
  | otherCode (code : Int)
  | transportException
  | exception
  deriving DecidableEq

inductive ConnCode where
  | connFatal
  | connOk
  | connTransient
  deriving DecidableEq

def LogOutcome.connCode : LogOutcome → ConnCode
  | .ok => .connOk
  | .tryLater => .connTransient
  | .otherCode _ => .connFatal
  | .transportException => .connFatal
  | .exception => .connFatal

/-- What the surroundings answer to the thread's next operation. Each operation
uses the components that concern it. -/
structure Answer where
  /-- `time(NULL)` -/
  clock : Int
  /-- whether `open()` connects -/
  opens : Bool
  /-- the end of a `Log` call -/
  outcome : LogOutcome
  /-- whether the transport is still open after that call -/
  alive : Bool
  /-- whether the checkpoint file can be opened for writing -/
  writable : Bool
  /-- the memory at the address that `new char[length]` returns, up to a NUL
  behind the buffer -/
  memory : Bytes
  /-- the indeterminate first value of a local variable without initializer -/
  garbage : Int

structure Client where
  messages : List LogEntry
  connected : Bool

namespace Client

def isOpen (c : Client) : Bool := c.connected

def reopened (c : Client) (ans : Answer) : Client := { c with connected := ans.opens }

def close (c : Client) : Client := { c with connected := false }

/-- `scribe_send::send`: the return value, the client afterwards and, if `Log`
was called, how that call ended. -/
def send (c : Client) (ans : Answer) : ConnCode × Client × Option LogOutcome :=
  if c.isOpen || ans.opens then
    (ans.outcome.connCode, { c with connected := ans.alive }, some ans.outcome)
  else (.connFatal, c.reopened ans, none)

@[simp] theorem reopened_messages (c : Client) (ans : Answer) :
    (c.reopened ans).messages = c.messages := rfl

@[simp] theorem close_messages (c : Client) : c.close.messages = c.messages := rfl

@[simp] theorem send_messages (c : Client) (ans : Answer) :
    (c.send ans).2.1.messages = c.messages := by
  unfold send
  split <;> rfl

end Client

theorem connCode_eq_connOk_iff (outcome : LogOutcome) :
    outcome.connCode = .connOk ↔ outcome = .ok := by
  cases outcome <;> simp [LogOutcome.connCode]

/-- CONN_OK means that `Log` was called and returned OK. -/
theorem send_connOk_iff (c : Client) (ans : Answer) :
    (c.send ans).1 = .connOk ↔ (c.send ans).2.2 = some .ok := by
  unfold Client.send
  split
  · simp [connCode_eq_connOk_iff]
  · simp

end ScribeSend
