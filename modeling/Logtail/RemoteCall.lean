import Logtail.Scribe
import Logtail.TBinaryProtocol

/-!
# A `Log` call over the wire

What is written is read back, whatever order, repetition or foreign fields the
writer of a newer version puts into a struct. A complete call reaches the handler
once with the batch that was sent, and its result comes back; a call or an answer
that is cut off reaches nobody.
-/

namespace Scribe

open Wire FileStream ScribeSend Checkpoint Thrift

/-- A field as the generated code writes it. -/
def namedField (P : TProtocol) (name : String) (type : TType) (fid : Int16) (payload : Bytes) :
    StructField :=
  ⟨P.writeFieldBegin (ascii name) type fid, (type, fid), payload⟩

theorem reads_ignore {σ : Type} {P : TProtocol} {ftype : TType} {payload : Bytes}
    (h : Reads (P.skip ftype) payload ()) (self : σ) : Reads (ignore P self ftype) payload self :=
  h.pass fun _ => self

/-! ## Entries -/

/-- What a field says to `LogEntry::read`. -/
inductive EntryItem where
  | category (text : Bytes)
  | message (text : Bytes)
  | unknown

namespace EntryItem

def put (e : LogEntry) : EntryItem → LogEntry
  | .category text => { e with category := text }
  | .message text => { e with message := text }
  | .unknown => e

/-- The text if the item is a category, or a message. -/
def category? : EntryItem → Option Bytes
  | .category text => some text
  | _ => none

def message? : EntryItem → Option Bytes
  | .message text => some text
  | _ => none

end EntryItem

/-- The field has one of the two identifiers with its type, or `skip` takes its
payload. -/
inductive Carries (P : TProtocol) (f : StructField) : EntryItem → Prop where
  | category {text : Bytes} (tag : f.tag = (.string, 1))
      (payload : Reads P.readString f.payload text) : Carries P f (.category text)
  | message {text : Bytes} (tag : f.tag = (.string, 2))
      (payload : Reads P.readString f.payload text) : Carries P f (.message text)
  | unknown (notCategory : f.tag ≠ (.string, 1)) (notMessage : f.tag ≠ (.string, 2))
      (notStop : f.tag.1 ≠ .stop) (payload : Reads (P.skip f.tag.1) f.payload ()) :
      Carries P f .unknown

theorem Carries.not_stop {P : TProtocol} {f : StructField} {item : EntryItem}
    (h : Carries P f item) : f.tag.1 ≠ .stop := by
  cases h with
  | category tag _ => simp [tag]
  | message tag _ => simp [tag]
  | unknown _ _ notStop _ => exact notStop

theorem reads_readField {P : TProtocol} {f : StructField} {item : EntryItem}
    (h : Carries P f item) (self : LogEntry) :
    Reads (LogEntry.readField P self f.tag) f.payload (item.put self) := by
  cases h with
  | category tag payload =>
    rw [tag]
    exact payload.pass fun category => { self with category := category }
  | message tag payload =>
    rw [tag]
    exact payload.pass fun message => { self with message := message }
  | unknown notCategory notMessage _ payload =>
    obtain ⟨header, ⟨ftype, fid⟩, bytes⟩ := f
    have hskip := reads_ignore payload self
    simp only [LogEntry.readField]
    split
    · rename_i hfid
      subst hfid
      rw [if_neg fun h => notCategory (by rw [h])]
      exact hskip
    · split
      · rename_i hfid
        subst hfid
        rw [if_neg fun h => notMessage (by rw [h])]
        exact hskip
      · exact hskip

/-- The last category and the last message win. -/
theorem foldl_put (items : List EntryItem) (self : LogEntry) :
    items.foldl EntryItem.put self =
      ⟨((items.filterMap EntryItem.category?).getLast?).getD self.category,
        ((items.filterMap EntryItem.message?).getLast?).getD self.message⟩ := by
  induction items generalizing self with
  | nil => rfl
  | cons item items ih =>
    rw [List.foldl_cons, ih]
    cases item with
    | category text =>
      simp [EntryItem.put, EntryItem.category?, EntryItem.message?, List.getLast?_cons]
    | message text =>
      simp [EntryItem.put, EntryItem.category?, EntryItem.message?, List.getLast?_cons]
    | unknown => simp [EntryItem.put, EntryItem.category?, EntryItem.message?]

/-- A struct with any fields, in any order and any number: `LogEntry::read` takes
all of it. -/
theorem reads_logEntry {P : TProtocol} (lawful : P.Lawful) {fields : List (StructField × EntryItem)}
    (header : ∀ x ∈ fields, Reads P.readFieldBegin x.1.header x.1.tag)
    (carries : ∀ x ∈ fields, Carries P x.1 x.2) (name : Bytes) (self : LogEntry) :
    Reads (LogEntry.read P self) (structBytes P name (fields.map Prod.fst))
      ((fields.map Prod.snd).foldl EntryItem.put self) := by
  have hread := reads_struct lawful Prod.fst (fun st x => x.2.put st)
    (fun x hx => ⟨header x hx, (carries x hx).not_stop⟩)
    (fun st x hx => reads_readField (carries x hx) st) name self
  rwa [List.foldl_map]

/-- An entry from any writer of this or a later version: the fields may come in any
order, repeatedly, or not at all, and between fields of unknown identifiers or
other types. The last category and the last message count; a field that is missing
keeps what the object held before. -/
theorem logEntry_read_fields {P : TProtocol} (lawful : P.Lawful)
    {fields : List (StructField × EntryItem)}
    (header : ∀ x ∈ fields, Reads P.readFieldBegin x.1.header x.1.tag)
    (carries : ∀ x ∈ fields, Carries P x.1 x.2) (name : Bytes) (self : LogEntry) (rest : Bytes) :
    (LogEntry.read P self).run (structBytes P name (fields.map Prod.fst) ++ rest) =
      .ok (⟨((fields.filterMap fun x => x.2.category?).getLast?).getD self.category,
        ((fields.filterMap fun x => x.2.message?).getLast?).getD self.message⟩, rest) := by
  have hread := (reads_logEntry lawful header carries name self).run rest
  rw [foldl_put, List.filterMap_map, List.filterMap_map] at hread
  exact hread

/-- A field of a later version, two messages, and a category of the wrong type. -/
def foreignFields : List (StructField × EntryItem) :=
  [(⟨Binary.writeFieldBegin .i32 7, (.i32, 7), [0, 0, 0, 1]⟩, .unknown),
    (namedField Binary.protocol "message" .string 2 (Binary.writeString [97]), .message [97]),
    (namedField Binary.protocol "category" .i32 1 [0, 0, 0, 2], .unknown),
    (namedField Binary.protocol "message" .string 2 (Binary.writeString [98]), .message [98])]

theorem logEntry_read_foreignFields :
    (LogEntry.read Binary.protocol ⟨[99], []⟩).run
        (structBytes Binary.protocol [] (foreignFields.map Prod.fst) ++ [1]) =
      .ok (⟨[99], [98]⟩, [1]) := by
  refine logEntry_read_fields Binary.lawful ?_ ?_ [] ⟨[99], []⟩ [1]
  · intro x hx
    simp only [foreignFields, List.mem_cons, List.not_mem_nil, or_false] at hx
    rcases hx with rfl | rfl | rfl | rfl <;> rfl
  · intro x hx
    simp only [foreignFields, List.mem_cons, List.not_mem_nil, or_false] at hx
    rcases hx with rfl | rfl | rfl | rfl
    · exact .unknown (by decide) (by decide) (by decide) rfl
    · exact .message rfl rfl
    · exact .unknown (by decide) (by decide) (by decide) rfl
    · exact .message rfl rfl

/-- What the wire format can say about a batch. -/
structure Sendable (messages : List LogEntry) : Prop where
  category : ∀ e ∈ messages, Sized e.category
  message : ∀ e ∈ messages, Sized e.message
  count : messages.length < 2 ^ 31

instance (messages : List LogEntry) : Decidable (Sendable messages) :=
  decidable_of_iff ((∀ e ∈ messages, Sized e.category) ∧ (∀ e ∈ messages, Sized e.message) ∧
    messages.length < 2 ^ 31) ⟨fun h => ⟨h.1, h.2.1, h.2.2⟩, fun h => ⟨h.1, h.2, h.3⟩⟩

theorem Sendable.piece {part whole : List LogEntry} (h : Sendable whole) (hpart : part <:+: whole) :
    Sendable part where
  category e he := h.category e (hpart.subset he)
  message e he := h.message e (hpart.subset he)
  count := Nat.lt_of_le_of_lt hpart.length_le h.count

variable {P : TProtocol} (lawful : P.Lawful)

section
include lawful

theorem reads_logEntry_write {e : LogEntry} (hc : Sized e.category) (hm : Sized e.message) :
    Reads (LogEntry.read P LogEntry.empty) (LogEntry.write P e) e := by
  let fields : List (StructField × EntryItem) :=
    [(namedField P "category" .string 1 (P.writeString e.category), .category e.category),
      (namedField P "message" .string 2 (P.writeString e.message), .message e.message)]
  have hbytes : LogEntry.write P e
      = structBytes P (ascii "LogEntry") (fields.map Prod.fst) := by
    simp [fields, LogEntry.write, structBytes, closed, Field.bytes, namedField]
  rw [hbytes]
  refine reads_logEntry lawful ?_ ?_ _ _
  · intro x hx
    rcases List.mem_pair.mp hx with rfl | rfl
    · exact lawful.fieldBegin _ .string 1 trivial
    · exact lawful.fieldBegin _ .string 2 trivial
  · intro x hx
    rcases List.mem_pair.mp hx with rfl | rfl
    · exact .category rfl (lawful.string _ hc)
    · exact .message rfl (lawful.string _ hm)

theorem reads_readMessages {messages : List LogEntry} (h : Sendable messages) :
    Reads (readMessages P)
      (P.writeListBegin .struct (UInt32.ofNat messages.length)
        ++ (messages.flatMap (LogEntry.write P) ++ P.writeListEnd)) messages := by
  have hcount := h.count
  have hsize : (UInt32.ofNat messages.length).toNat = messages.length := by
    rw [UInt32.toNat_ofNat']
    omega
  have hbegin := lawful.listBegin .struct (UInt32.ofNat messages.length) trivial (by omega)
  have helements := reads_times (LogEntry.write P) fun e he =>
    reads_logEntry_write lawful (h.category e he) (h.message e he)
  rw [← hsize] at helements
  exact hbegin.bind (helements.bind (lawful.listEnd.pass fun _ => messages))

/-- A whole batch is read back, whatever the arguments held before. -/
theorem reads_writeMessages {messages : List LogEntry} (h : Sendable messages) (name : String)
    (self : LogArgs) : Reads (LogArgs.read P self) (writeMessages P name messages) ⟨messages⟩ := by
  let field : StructField := namedField P "messages" .list 1
    (P.writeListBegin .struct (UInt32.ofNat messages.length)
      ++ (messages.flatMap (LogEntry.write P) ++ P.writeListEnd))
  have hbytes : writeMessages P name messages
      = structBytes P (ascii name) ([()].map fun _ => field) := by
    simp [field, writeMessages, structBytes, closed, Field.bytes, namedField]
  rw [hbytes]
  refine reads_struct lawful (fun _ => field) (fun _ _ => ⟨messages⟩) ?_ ?_ _ self
  · intro x _
    exact ⟨lawful.fieldBegin _ .list 1 trivial, by simp [field, namedField]⟩
  · intro st x _
    exact (reads_readMessages lawful h).pass fun messages => { st with messages := messages }

/-! ## Calls -/

theorem reads_result_write (code : ResultCode) (self : LogResult) :
    Reads (LogResult.read P self) (LogResult.write P ⟨some code⟩) ⟨some code⟩ := by
  let field : StructField := namedField P "success" .i32 0 (P.writeI32 code.value)
  have hbytes : LogResult.write P ⟨some code⟩
      = structBytes P (ascii "scribe_Log_result") ([()].map fun _ => field) := by
    simp [field, LogResult.write, structBytes, closed, Field.bytes, namedField]
  rw [hbytes]
  refine reads_struct lawful (fun _ => field) (fun _ _ => ⟨some code⟩) ?_ ?_ _ self
  · intro x _
    exact ⟨lawful.fieldBegin _ .i32 0 trivial, by simp [field, namedField]⟩
  · intro st x _
    exact (lawful.i32 code.value).pass fun ecast => { st with success := some ⟨ecast⟩ }

variable {σ : Type} (base : Bytes → Int32 → σ → Reading (Answered σ)) (iface : Handler σ)

/-- The processor takes a whole call and hands the handler the batch that was
sent. -/
theorem reads_process {messages : List LogEntry} (h : Sendable messages) (state : σ) :
    Reads (process P base iface state) (sendLog P messages)
      (respond P 0 (iface state messages)) := by
  have hbegin := lawful.messageBegin (ascii "Log") .call 0 (by decide) trivial
  have hargs := reads_writeMessages lawful h "scribe_Log_pargs" ⟨[]⟩
  rw [sendLog, List.append_assoc]
  exact hbegin.bind (hargs.bind (lawful.messageEnd.pass fun _ =>
    respond P 0 (iface state messages)))

theorem reads_recvLog (seqid : Int32) (code : ResultCode) (state : σ) :
    Reads (recvLog P) (respond P seqid (.ok code, state)).1 code := by
  have hbegin := lawful.messageBegin (ascii "Log") .reply seqid (by decide) trivial
  have hresult := reads_result_write lawful code ⟨none⟩
  rw [respond, List.append_assoc]
  exact hbegin.bind (hresult.bind (lawful.messageEnd.pass fun _ => code))

/-- A handler that throws is a call that throws. -/
theorem recvLog_of_exception (seqid : Int32) {what : Bytes} (hwhat : Sized what) (state : σ)
    (later : Bytes) :
    (recvLog P).run ((respond P seqid (.error what, state)).1 ++ later)
      = .error (.applicationException ⟨.unknown, what⟩) := by
  have hbegin := lawful.messageBegin (ascii "Log") .exception seqid (by decide) trivial
  have hx := lawful.applicationException ⟨.unknown, what⟩ trivial hwhat
  simp only [respond, List.append_assoc]
  refine (Reader.bind_run_of_ok (hbegin.run _) _).trans ?_
  refine (Reader.bind_run_of_ok (hx.run _) _).trans ?_
  exact Reader.bind_run_of_ok (lawful.messageEnd.run _) _

/-- A call returns OK only if the whole answer is there and is OK. -/
theorem recvLog_take {result : Except Bytes ResultCode}
    (hsized : ∀ what, result = .error what → Sized what) {τ : Type} (state : τ) (n : Nat) :
    (∃ e, (recvLog P).run ((respond P 0 (result, state)).1.take n) = .error e) ∨
      ∃ code, result = .ok code ∧ (respond P 0 (result, state)).1.length ≤ n ∧
        (recvLog P).run ((respond P 0 (result, state)).1.take n) = .ok (code, []) := by
  cases result with
  | ok code =>
    have hwhole := reads_recvLog lawful 0 code state
    rcases Nat.lt_or_ge n (respond P 0 (Except.ok code, state)).1.length with hn | hn
    · exact Or.inl (hwhole.take hn)
    · refine Or.inr ⟨code, rfl, hn, ?_⟩
      rw [List.take_of_length_le hn]
      exact hwhole
  | error what =>
    have hthrown := recvLog_of_exception lawful 0 (hsized what rfl) state []
    rw [List.append_nil] at hthrown
    exact Or.inl (Reader.take_of_error hthrown n)

/-- Over a connection that works, the caller sees what the handler did: the
handler is called once, with the batch that was sent, and its code or its
exception comes back. -/
theorem log_transparent {messages : List LogEntry} (h : Sendable messages) (state : σ)
    (hwhat : ∀ what, (iface state messages).1 = .error what → Sized what) (more later : Bytes) :
    ∃ reply, (process P base iface state).run (sendLog P messages ++ more)
        = .ok ((reply, (iface state messages).2), more) ∧
      (recvLog P).run (reply ++ later) = match (iface state messages).1 with
        | .ok code => .ok (code, later)
        | .error what => .error (.applicationException ⟨.unknown, what⟩) := by
  have hprocess := (reads_process lawful base iface h state).run more
  generalize iface state messages = out at hwhat hprocess ⊢
  obtain ⟨result, state'⟩ := out
  cases result with
  | ok code => exact ⟨_, hprocess, (reads_recvLog lawful 0 code state').run later⟩
  | error what => exact ⟨_, hprocess, recvLog_of_exception lawful 0 (hwhat what rfl) state' later⟩

/-- A call or an answer that is cut off at any byte is refused: the processor ends
with an exception before the handler is called, the client with an exception
instead of a code. -/
theorem cut_off_refused {messages : List LogEntry} (h : Sendable messages) (state : σ)
    (hwhat : ∀ what, (iface state messages).1 = .error what → Sized what) :
    (∀ n < (sendLog P messages).length,
      ∃ e, (process P base iface state).run ((sendLog P messages).take n) = .error e) ∧
    (∀ n < (respond P 0 (iface state messages)).1.length,
      ∃ e, (recvLog P).run ((respond P 0 (iface state messages)).1.take n) = .error e) := by
  constructor
  · intro n hn
    exact (reads_process lawful base iface h state).take hn
  · intro n hn
    rcases recvLog_take lawful hwhat (iface state messages).2 n with hcut | ⟨code, -, hlen, -⟩
    · exact hcut
    · exact absurd hn (Nat.not_lt.mpr hlen)

end

/-- A handler that keeps the batch, and throws on an empty one. -/
def keepingHandler : Handler (List (List LogEntry)) := fun state messages =>
  if messages = [] then (.error (ascii "empty"), state) else (.ok .OK, state ++ [messages])

theorem keepingHandler_sized (state : List (List LogEntry)) (messages : List LogEntry)
    (what : Bytes) (h : (keepingHandler state messages).1 = .error what) : Sized what := by
  unfold keepingHandler at h
  split at h
  · cases h
    decide
  · cases h

def sampleBatch : List LogEntry := [⟨[99], [97]⟩, ⟨[99], []⟩]

theorem sampleBatch_sendable : Sendable sampleBatch := ⟨by decide, by decide, by decide⟩

theorem log_transparent_sampleBatch :
    ∃ reply, (process Binary.protocol (fun _ _ _ => Reader.throw .protocolException)
          keepingHandler []).run (sendLog Binary.protocol sampleBatch ++ [7])
        = .ok ((reply, [sampleBatch]), [7]) ∧
      (recvLog Binary.protocol).run (reply ++ [8]) = .ok (.OK, [8]) :=
  log_transparent Binary.lawful _ keepingHandler sampleBatch_sendable []
    (keepingHandler_sized [] sampleBatch) [7] [8]

theorem cut_off_refused_sampleBatch :
    (∀ n < (sendLog Binary.protocol sampleBatch).length,
      ∃ e, (process Binary.protocol (fun _ _ _ => Reader.throw .protocolException)
        keepingHandler []).run ((sendLog Binary.protocol sampleBatch).take n) = .error e) ∧
    (∀ n < (respond Binary.protocol 0 (keepingHandler [] sampleBatch)).1.length,
      ∃ e, (recvLog Binary.protocol).run
        ((respond Binary.protocol 0 (keepingHandler [] sampleBatch)).1.take n) = .error e) :=
  cut_off_refused Binary.lawful _ keepingHandler sampleBatch_sendable []
    (keepingHandler_sized [] sampleBatch)

end Scribe
