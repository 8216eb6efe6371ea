import Logtail.Wire
import Logtail.FileStream
import Mathlib.Algebra.Ring.Nat

/-!
# The Thrift library as the generated code uses it

`TProtocol` and `TApplicationException` are not part of the repository, so a
protocol is a parameter. `Lawful` is what its documentation promises: what a
write call has put on the transport, the read call of the same name takes off
again. The value of a name that `readStructBegin` or `readFieldBegin` returns is
never looked at and left out.
-/

namespace Thrift

open Wire FileStream

/-- The field types that the generated code names, and the others. -/
inductive TType where
  | stop
  | i32
  | string
  | struct
  | list
  | other (code : UInt8)
  deriving DecidableEq

inductive TMessageType where
  | call
  | reply
  | exception
  | oneway
  | other (code : UInt8)
  deriving DecidableEq

inductive TApplicationExceptionType where
  | unknown
  | unknownMethod
  | invalidMessageType
  | wrongMethodName
  | badSequenceId
  | missingResult
  | other (code : Int32)
  deriving DecidableEq

structure TApplicationException where
  type : TApplicationExceptionType
  message : Bytes
  deriving DecidableEq

/-- What a read call can throw, and what the generated code throws itself. -/
inductive Thrown where
  | transportException
  | protocolException
  | applicationException (x : TApplicationException)
  deriving DecidableEq

abbrev Reading (β : Type) := Reader UInt8 Thrown β

/-- The header of a field: `none` for T_STOP. -/
def fieldHead : TType × Int16 → Option (TType × Int16)
  | (.stop, _) => none
  | field => some field

theorem fieldHead_of_ne {field : TType × Int16} (h : field.1 ≠ .stop) :
    fieldHead field = some field := by
  obtain ⟨type, fid⟩ := field
  cases type with
  | stop => exact absurd rfl h
  | _ => rfl

/-- `readFieldBegin`, and the test for T_STOP that ends every field loop. -/
def fieldHeader (readFieldBegin : Reading (TType × Int16))
    (field_consumes : ∀ {s field rest}, readFieldBegin.run s = .ok (field, rest) →
      fieldHead field ≠ none → rest.length < s.length) : Head UInt8 Thrown (TType × Int16) where
  reader := do
    let f ← readFieldBegin
    pure (fieldHead f)
  consumes := by
    intro s t rest h
    obtain ⟨f, mid, hf, hp⟩ := Reader.bind_run_eq_ok.mp h
    obtain ⟨hhead, rfl⟩ : fieldHead f = some t ∧ mid = rest := by simpa using hp
    exact field_consumes hf (by simp [hhead])

structure TProtocol where
  writeMessageBegin : Bytes → TMessageType → Int32 → Bytes
  writeMessageEnd : Bytes
  writeStructBegin : Bytes → Bytes
  writeStructEnd : Bytes
  writeFieldBegin : Bytes → TType → Int16 → Bytes
  writeFieldEnd : Bytes
  writeFieldStop : Bytes
  writeListBegin : TType → UInt32 → Bytes
  writeListEnd : Bytes
  writeI32 : Int32 → Bytes
  writeString : Bytes → Bytes
  /-- `x.write(oprot)` -/
  writeApplicationException : TApplicationException → Bytes
  readMessageBegin : Reading (Bytes × TMessageType × Int32)
  readMessageEnd : Reading Unit
  readStructBegin : Reading Unit
  readStructEnd : Reading Unit
  readFieldBegin : Reading (TType × Int16)
  readFieldEnd : Reading Unit
  readListBegin : Reading (TType × UInt32)
  readListEnd : Reading Unit
  readI32 : Reading Int32
  readString : Reading Bytes
  /-- `x.read(iprot)` -/
  readApplicationException : Reading TApplicationException
  skip : TType → Reading Unit
  /-- no field header is free -/
  field_consumes : ∀ {s field rest}, readFieldBegin.run s = .ok (field, rest) →
    fieldHead field ≠ none → rest.length < s.length

namespace TProtocol

def field (P : TProtocol) : Head UInt8 Thrown (TType × Int16) :=
  fieldHeader P.readFieldBegin P.field_consumes

variable {σ : Type}

/-- One round of a generated field loop behind the header. -/
def round (P : TProtocol) (body : σ → TType × Int16 → Reading σ) (self : σ) (f : TType × Int16) :
    Reading σ := do
  let self ← body self f
  P.readFieldEnd
  pure self

/-- The generated loop over the fields of a struct, between its begin and its
end. -/
def struct (P : TProtocol) (body : σ → TType × Int16 → Reading σ) (self : σ) : Reading σ := do
  P.readStructBegin
  let self ← P.field.loop (P.round body) self
  P.readStructEnd
  pure self

end TProtocol

/-- What the signed 32 bit length of a string can say. -/
def Sized (s : Bytes) : Prop := s.length < 2 ^ 31

instance (s : Bytes) : Decidable (Sized s) := inferInstanceAs (Decidable (_ < _))

/-- The types under which fields are written. -/
def TType.Written : TType → Prop
  | .stop => False
  | .other _ => False
  | _ => True

def TMessageType.Written : TMessageType → Prop
  | .other _ => False
  | _ => True

def TApplicationExceptionType.Written : TApplicationExceptionType → Prop
  | .other _ => False
  | _ => True

structure TProtocol.Lawful (P : TProtocol) : Prop where
  messageBegin : ∀ name type seqid, Sized name → type.Written →
    Reads P.readMessageBegin (P.writeMessageBegin name type seqid) (name, type, seqid)
  messageEnd : Reads P.readMessageEnd P.writeMessageEnd ()
  structBegin : ∀ name, Reads P.readStructBegin (P.writeStructBegin name) ()
  structEnd : Reads P.readStructEnd P.writeStructEnd ()
  fieldBegin : ∀ name type fid, type.Written →
    Reads P.readFieldBegin (P.writeFieldBegin name type fid) (type, fid)
  fieldEnd : Reads P.readFieldEnd P.writeFieldEnd ()
  fieldStop : ∃ fid, Reads P.readFieldBegin P.writeFieldStop (.stop, fid)
  listBegin : ∀ type size, type.Written → size.toNat < 2 ^ 31 →
    Reads P.readListBegin (P.writeListBegin type size) (type, size)
  listEnd : Reads P.readListEnd P.writeListEnd ()
  i32 : ∀ n, Reads P.readI32 (P.writeI32 n) n
  string : ∀ s, Sized s → Reads P.readString (P.writeString s) s
  applicationException : ∀ x : TApplicationException, x.type.Written → Sized x.message →
    Reads P.readApplicationException (P.writeApplicationException x) x

/-- One field of a struct: any bytes that are read as its header, and its
payload. -/
abbrev StructField := Field UInt8 (TType × Int16)

/-- The field with what `writeFieldEnd` puts behind it. -/
def closed (P : TProtocol) (f : StructField) : StructField :=
  { f with payload := f.payload ++ P.writeFieldEnd }

/-- The bytes of a struct with the given fields, whoever has written them. -/
def structBytes (P : TProtocol) (name : Bytes) (fields : List StructField) : Bytes :=
  P.writeStructBegin name
    ++ ((fields.flatMap fun f => (closed P f).bytes) ++ P.writeFieldStop ++ P.writeStructEnd)

/-- A generated loop that takes each field, in whatever state it has reached,
takes the struct. -/
theorem reads_struct {σ ι : Type} {P : TProtocol} (lawful : P.Lawful)
    {body : σ → TType × Int16 → Reading σ} (field : ι → StructField) (next : σ → ι → σ)
    {xs : List ι}
    (header : ∀ x ∈ xs,
      Reads P.readFieldBegin (field x).header (field x).tag ∧ (field x).tag.1 ≠ .stop)
    (payload : ∀ st, ∀ x ∈ xs, Reads (body st (field x).tag) (field x).payload (next st x))
    (name : Bytes) (self : σ) :
    Reads (P.struct body self) (structBytes P name (xs.map field)) (xs.foldl next self) := by
  obtain ⟨fid, hstop⟩ := lawful.fieldStop
  have hloop : Reads (P.field.loop (P.round body) self)
      ((xs.flatMap fun x => (closed P (field x)).bytes) ++ P.writeFieldStop)
      (xs.foldl next self) := by
    refine Reads.loop (hstop.pass fieldHead) (fun x => closed P (field x)) ?_
    intro st x hx
    obtain ⟨hheader, htype⟩ := header x hx
    refine ⟨?_, (payload st x hx).bind (lawful.fieldEnd.pass fun _ => _)⟩
    have hhead := hheader.pass fieldHead
    rwa [fieldHead_of_ne htype] at hhead
  rw [structBytes, List.flatMap_map]
  exact (lawful.structBegin name).bind (hloop.bind (lawful.structEnd.pass fun _ => _))

end Thrift
