import Logtail.Thrift
import Logtail.ScribeSend
import Logtail.Checkpoint

/-!
# The generated scribe service

`scribe_types.cpp` and `scribe.cpp`: how a batch is written, what the processor
makes of a message and what the client makes of the answer. The `__isset` flags
that nothing reads, the byte counts and the transport's `flush`, `writeEnd` and
`readEnd` are left out. The handler behind `scribeIf` is a parameter.
-/

namespace Scribe

open Wire FileStream ScribeSend Checkpoint Thrift

/-- `(ResultCode)ecast` keeps every value that arrives. -/
structure ResultCode where
  value : Int32
  deriving DecidableEq

namespace ResultCode

def OK : ResultCode := ⟨0⟩

def TRY_LATER : ResultCode := ⟨1⟩

end ResultCode

/-- `LogEntry()` -/
def LogEntry.empty : LogEntry := ⟨[], []⟩

/-- A field that is passed over. -/
def ignore {σ : Type} (P : TProtocol) (self : σ) (ftype : TType) : Reading σ := do
  P.skip ftype
  pure self

/-- The `switch (fid)` of `LogEntry::read`. -/
def LogEntry.readField (P : TProtocol) (self : LogEntry) : TType × Int16 → Reading LogEntry
  | (ftype, fid) =>
    if fid = 1 then
      if ftype = .string then do
        let category ← P.readString
        pure { self with category := category }
      else ignore P self ftype
    else if fid = 2 then
      if ftype = .string then do
        let message ← P.readString
        pure { self with message := message }
      else ignore P self ftype
    else ignore P self ftype

def LogEntry.read (P : TProtocol) : LogEntry → Reading LogEntry := P.struct (LogEntry.readField P)

def LogEntry.write (P : TProtocol) (self : LogEntry) : Bytes :=
  P.writeStructBegin (ascii "LogEntry")
    ++ P.writeFieldBegin (ascii "category") .string 1
    ++ P.writeString self.category
    ++ P.writeFieldEnd
    ++ P.writeFieldBegin (ascii "message") .string 2
    ++ P.writeString self.message
    ++ P.writeFieldEnd
    ++ P.writeFieldStop
    ++ P.writeStructEnd

structure LogArgs where
  messages : List LogEntry

/-- The vector is cleared and resized, each element is read in place. -/
def readMessages (P : TProtocol) : Reading (List LogEntry) := do
  let (_, size) ← P.readListBegin
  let messages ← (LogEntry.read P LogEntry.empty).times size.toNat
  P.readListEnd
  pure messages

def LogArgs.readField (P : TProtocol) (self : LogArgs) : TType × Int16 → Reading LogArgs
  | (ftype, fid) =>
    if fid = 1 then
      if ftype = .list then do
        let messages ← readMessages P
        pure { self with messages := messages }
      else ignore P self ftype
    else ignore P self ftype

def LogArgs.read (P : TProtocol) : LogArgs → Reading LogArgs := P.struct (LogArgs.readField P)

/-- `scribe_Log_args::write` and `scribe_Log_pargs::write` differ in the name of
the struct. `size()` is passed as a `uint32_t`. -/
def writeMessages (P : TProtocol) (name : String) (messages : List LogEntry) : Bytes :=
  P.writeStructBegin (ascii name)
    ++ P.writeFieldBegin (ascii "messages") .list 1
    ++ P.writeListBegin .struct (UInt32.ofNat messages.length)
    ++ messages.flatMap (LogEntry.write P)
    ++ P.writeListEnd
    ++ P.writeFieldEnd
    ++ P.writeFieldStop
    ++ P.writeStructEnd

def LogArgs.write (P : TProtocol) (self : LogArgs) : Bytes :=
  writeMessages P "scribe_Log_args" self.messages

def LogPargs.write (P : TProtocol) (messages : List LogEntry) : Bytes :=
  writeMessages P "scribe_Log_pargs" messages

/-- `success` with its `__isset` flag. -/
structure LogResult where
  success : Option ResultCode

def LogResult.readField (P : TProtocol) (self : LogResult) : TType × Int16 → Reading LogResult
  | (ftype, fid) =>
    if fid = 0 then
      if ftype = .i32 then do
        let ecast ← P.readI32
        pure { self with success := some ⟨ecast⟩ }
      else ignore P self ftype
    else ignore P self ftype

/-- `scribe_Log_result::read` and `scribe_Log_presult::read` have one body. -/
def LogResult.read (P : TProtocol) : LogResult → Reading LogResult :=
  P.struct (LogResult.readField P)

def LogResult.write (P : TProtocol) (self : LogResult) : Bytes :=
  P.writeStructBegin (ascii "scribe_Log_result")
    ++ (match self.success with
      | some code =>
        P.writeFieldBegin (ascii "success") .i32 0 ++ P.writeI32 code.value ++ P.writeFieldEnd
      | none => [])
    ++ P.writeFieldStop
    ++ P.writeStructEnd

/-! ## The client -/

def sendLog (P : TProtocol) (messages : List LogEntry) : Bytes :=
  P.writeMessageBegin (ascii "Log") .call 0 ++ LogPargs.write P messages ++ P.writeMessageEnd

/-- The sequence number of the answer is not compared. -/
def recvLog (P : TProtocol) : Reading ResultCode := do
  let (fname, mtype, _) ← P.readMessageBegin
  if mtype = .exception then do
    let x ← P.readApplicationException
    P.readMessageEnd
    Reader.throw (.applicationException x)
  else if mtype ≠ .reply then do
    P.skip .struct
    P.readMessageEnd
    Reader.throw (.applicationException ⟨.invalidMessageType, []⟩)
  else if fname ≠ ascii "Log" then do
    P.skip .struct
    P.readMessageEnd
    Reader.throw (.applicationException ⟨.wrongMethodName, []⟩)
  else do
    let result ← LogResult.read P ⟨none⟩
    P.readMessageEnd
    match result.success with
    | some code => pure code
    | none =>
      Reader.throw (.applicationException ⟨.missingResult, ascii "Log failed: unknown result"⟩)

/-! ## The processor -/

/-- `scribeIf::Log` on a handler with state `σ`. A `std::exception` is its
`what()`. -/
abbrev Handler (σ : Type) := σ → List LogEntry → Except Bytes ResultCode × σ

/-- The answer on the output protocol, and the handler's state. -/
abbrev Answered (σ : Type) := Bytes × σ

variable {σ : Type}

/-- What `process_Log` writes behind the handler's call. -/
def respond (P : TProtocol) (seqid : Int32) : Except Bytes ResultCode × σ → Answered σ
  | (.ok code, state) =>
    (P.writeMessageBegin (ascii "Log") .reply seqid ++ LogResult.write P ⟨some code⟩
      ++ P.writeMessageEnd, state)
  | (.error what, state) =>
    (P.writeMessageBegin (ascii "Log") .exception seqid
      ++ P.writeApplicationException ⟨.unknown, what⟩ ++ P.writeMessageEnd, state)

theorem respond_state (P : TProtocol) (seqid : Int32) (out : Except Bytes ResultCode × σ) :
    (respond P seqid out).2 = out.2 := by
  obtain ⟨result, state⟩ := out
  cases result <;> rfl

def processLog (P : TProtocol) (iface : Handler σ) (seqid : Int32) (state : σ) :
    Reading (Answered σ) := do
  let args ← LogArgs.read P ⟨[]⟩
  P.readMessageEnd
  pure (respond P seqid (iface state args.messages))

/-- The method table has the one entry "Log"; every other name goes to the
processor of the base service. -/
def processFn (P : TProtocol) (base : Bytes → Int32 → σ → Reading (Answered σ))
    (iface : Handler σ) (fname : Bytes) (seqid : Int32) (state : σ) : Reading (Answered σ) :=
  if fname = ascii "Log" then processLog P iface seqid state else base fname seqid state

def process (P : TProtocol) (base : Bytes → Int32 → σ → Reading (Answered σ))
    (iface : Handler σ) (state : σ) : Reading (Answered σ) := do
  let (fname, mtype, seqid) ← P.readMessageBegin
  if mtype ≠ .call ∧ mtype ≠ .oneway then do
    P.skip .struct
    P.readMessageEnd
    pure (P.writeMessageBegin fname .exception seqid
      ++ P.writeApplicationException ⟨.invalidMessageType, []⟩ ++ P.writeMessageEnd, state)
  else processFn P base iface fname seqid state

end Scribe
