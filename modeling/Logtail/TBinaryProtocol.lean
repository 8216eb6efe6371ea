import Logtail.Thrift

/-!
# The binary protocol

The protocol that `scribe_send::open` chooses, without version words
(`setStrict(false, false)`): numbers are big-endian, a string is its length and
its bytes, a struct is its fields and a zero byte. It keeps the laws that the
generated code relies on.
-/

namespace Thrift

open Wire FileStream Reader

/-- The last `k` digits of `n` to the base 256, the highest first. -/
def bigEndian : Nat → Nat → Bytes
  | 0, _ => []
  | k + 1, n => UInt8.ofNat (n / 256 ^ k) :: bigEndian k n

/-- One byte; a stream that has ended is a transport exception. -/
def readByte : Reading UInt8 := symbol .transportException

theorem reads_byte (b : UInt8) : Reads readByte [b] b := rfl

def readNumber : Nat → Reading Nat
  | 0 => pure 0
  | k + 1 => do
    let b ← readByte
    let n ← readNumber k
    pure (b.toNat * 256 ^ k + n)

/-- A number comes back up to the bytes that it is written in. -/
theorem reads_bigEndian (k n : Nat) : Reads (readNumber k) (bigEndian k n) (n % 256 ^ k) := by
  induction k with
  | zero =>
    rw [Nat.pow_zero, Nat.mod_one]
    exact reads_pure 0
  | succ k ih =>
    have hnext : Reads (readNumber (k + 1)) (bigEndian (k + 1) n)
        ((UInt8.ofNat (n / 256 ^ k)).toNat * 256 ^ k + n % 256 ^ k) :=
      (reads_byte (UInt8.ofNat (n / 256 ^ k))).bind (ih.pass fun _ => _)
    have hvalue :
        (UInt8.ofNat (n / 256 ^ k)).toNat * 256 ^ k + n % 256 ^ k = n % 256 ^ (k + 1) := by
      have hdigit : (UInt8.ofNat (n / 256 ^ k)).toNat = n / 256 ^ k % 256 := UInt8.toNat_ofNat'
      rw [hdigit, Nat.pow_succ, Nat.mod_mul, Nat.mul_comm, Nat.add_comm]
    rwa [hvalue] at hnext

namespace TType

def code : TType → UInt8
  | .stop => 0
  | .i32 => 8
  | .string => 11
  | .struct => 12
  | .list => 15
  | .other code => code

def ofCode (code : UInt8) : TType :=
  if code = 0 then .stop
  else if code = 8 then .i32
  else if code = 11 then .string
  else if code = 12 then .struct
  else if code = 15 then .list
  else .other code

theorem ofCode_code {type : TType} (h : type.Written) : ofCode type.code = type := by
  cases type with
  | stop => exact h.elim
  | other code => exact h.elim
  | _ => rfl

end TType

namespace TMessageType

def code : TMessageType → UInt8
  | .call => 1
  | .reply => 2
  | .exception => 3
  | .oneway => 4
  | .other code => code

def ofCode (code : UInt8) : TMessageType :=
  if code = 1 then .call
  else if code = 2 then .reply
  else if code = 3 then .exception
  else if code = 4 then .oneway
  else .other code

/-- A type that is written as a code of its own is read as itself. -/
theorem ofCode_code {type : TMessageType} (h : type.Written) : ofCode type.code = type := by
  cases type with
  | other code => exact h.elim
  | _ => rfl

end TMessageType

namespace TApplicationExceptionType

def code : TApplicationExceptionType → Int32
  | .unknown => 0
  | .unknownMethod => 1
  | .invalidMessageType => 2
  | .wrongMethodName => 3
  | .badSequenceId => 4
  | .missingResult => 5
  | .other code => code

def ofCode (code : Int32) : TApplicationExceptionType :=
  if code = 0 then .unknown
  else if code = 1 then .unknownMethod
  else if code = 2 then .invalidMessageType
  else if code = 3 then .wrongMethodName
  else if code = 4 then .badSequenceId
  else if code = 5 then .missingResult
  else .other code

theorem ofCode_code {type : TApplicationExceptionType} (h : type.Written) :
    ofCode type.code = type := by
  cases type with
  | other code => exact h.elim
  | _ => rfl

end TApplicationExceptionType

namespace Binary

def writeI16 (n : Int16) : Bytes := bigEndian 2 n.toUInt16.toNat

def writeI32 (n : Int32) : Bytes := bigEndian 4 n.toUInt32.toNat

def writeString (s : Bytes) : Bytes := bigEndian 4 s.length ++ s

def readI16 : Reading Int16 := do
  let n ← readNumber 2
  pure (UInt16.ofNat n).toInt16

def readI32 : Reading Int32 := do
  let n ← readNumber 4
  pure (UInt32.ofNat n).toInt32

/-- A length is a signed number; a negative one is refused. -/
def checkSize (n : Nat) : Reading Nat :=
  if n < 2 ^ 31 then pure n else Reader.throw .protocolException

def readSize : Reading Nat := do
  let n ← readNumber 4
  checkSize n

def readString : Reading Bytes := do
  let size ← readSize
  readByte.times size

theorem reads_writeI16 (n : Int16) : Reads readI16 (writeI16 n) n := by
  have h : Reads readI16 (writeI16 n) (UInt16.ofNat (n.toUInt16.toNat % 256 ^ 2)).toInt16 :=
    (reads_bigEndian 2 n.toUInt16.toNat).pass fun k => (UInt16.ofNat k).toInt16
  have hvalue : (UInt16.ofNat (n.toUInt16.toNat % 256 ^ 2)).toInt16 = n := by
    simp
  rwa [hvalue] at h

theorem reads_writeI32 (n : Int32) : Reads readI32 (writeI32 n) n := by
  have h : Reads readI32 (writeI32 n) (UInt32.ofNat (n.toUInt32.toNat % 256 ^ 4)).toInt32 :=
    (reads_bigEndian 4 n.toUInt32.toNat).pass fun k => (UInt32.ofNat k).toInt32
  have hvalue : (UInt32.ofNat (n.toUInt32.toNat % 256 ^ 4)).toInt32 = n := by
    simp
  rwa [hvalue] at h

/-- A size is read back as long as it is not negative as an `int32_t`. -/
theorem reads_size {n : Nat} (h : n < 2 ^ 31) : Reads readSize (bigEndian 4 n) n := by
  have hnumber := reads_bigEndian 4 n
  rw [Nat.mod_eq_of_lt (by omega)] at hnumber
  have hcheck : Reads (checkSize n) [] n := by
    rw [checkSize, if_pos h]
    exact reads_pure n
  have hsize : Reads readSize (bigEndian 4 n ++ []) n := hnumber.bind hcheck
  rwa [List.append_nil] at hsize

theorem reads_bytes (s : Bytes) : Reads (readByte.times s.length) s s := by
  have h := reads_times (fun b => [b]) fun b (_ : b ∈ s) => reads_byte b
  rwa [List.flatMap_singleton'] at h

theorem reads_writeString {s : Bytes} (h : Sized s) : Reads readString (writeString s) s :=
  (reads_size h).bind (reads_bytes s)

/-- Headers of fields: a type, and an identifier unless it is T_STOP. -/
def readFieldBegin : Reading (TType × Int16) := do
  let code ← readByte
  if TType.ofCode code = .stop then pure (.stop, 0)
  else do
    let fid ← readI16
    pure (TType.ofCode code, fid)

def writeFieldBegin (type : TType) (fid : Int16) : Bytes := type.code :: writeI16 fid

def readListBegin : Reading (TType × UInt32) := do
  let code ← readByte
  let size ← readSize
  pure (TType.ofCode code, UInt32.ofNat size)

/-- Without version words a message starts with its name. A negative length is
the version word of a newer writer and is refused here. -/
def readMessageBegin : Reading (Bytes × TMessageType × Int32) := do
  let name ← readString
  let code ← readByte
  let seqid ← readI32
  pure (name, TMessageType.ofCode code, seqid)

/-- `n` bytes of no interest. -/
def skipBytes (n : Nat) : Reading Unit := do
  let _ ← readByte.times n
  pure ()

/-- A field header takes up room, so a loop over fields ends. -/
theorem field_consumes {s rest : Bytes} {field : TType × Int16}
    (h : readFieldBegin.run s = .ok (field, rest)) : rest.length < s.length := by
  obtain ⟨code, mid, hcode, hrest⟩ := Reader.bind_run_eq_ok.mp h
  have hmid : mid.length < s.length := by
    cases s with
    | nil => cases hcode
    | cons b s =>
      cases hcode
      exact Nat.lt_succ_self _
  have hle := Reader.length_le _ hrest
  omega

def field : Head UInt8 Thrown (TType × Int16) :=
  fieldHeader readFieldBegin fun h _ => field_consumes h

/-- `skip` goes down to `depth` levels of nesting. The types with a code of their
own are bool, byte, double, i16, i64, map and set. -/
def skip : Nat → TType → Reading Unit
  | _, .stop => Reader.throw .protocolException
  | _, .i32 => skipBytes 4
  | _, .string => do
    let _ ← readString
    pure ()
  | 0, _ => Reader.throw .protocolException
  | depth + 1, .struct => field.loop (fun _ f => skip depth f.1) ()
  | depth + 1, .list => do
    let (type, size) ← readListBegin
    let _ ← (skip depth type).times size.toNat
    pure ()
  | depth + 1, .other code =>
    if code = 2 ∨ code = 3 then skipBytes 1
    else if code = 6 then skipBytes 2
    else if code = 4 ∨ code = 10 then skipBytes 8
    else if code = 13 then do
      let key ← readByte
      let value ← readByte
      let size ← readSize
      let _ ← (do
        skip depth (.ofCode key)
        skip depth (.ofCode value)).times size
      pure ()
    else if code = 14 then do
      let (type, size) ← readListBegin
      let _ ← (skip depth type).times size.toNat
      pure ()
    else Reader.throw .protocolException

/-- `TApplicationException::read`: field 1 is the message, field 2 the type. -/
def readExceptionField (x : TApplicationException) : TType × Int16 → Reading TApplicationException
  | (type, fid) =>
    if fid = 1 ∧ type = .string then do
      let message ← readString
      pure { x with message := message }
    else if fid = 2 ∧ type = .i32 then do
      let code ← readI32
      pure { x with type := .ofCode code }
    else do
      skip 64 type
      pure x

def readApplicationException : Reading TApplicationException :=
  field.loop readExceptionField ⟨.unknown, []⟩

def writeApplicationException (x : TApplicationException) : Bytes :=
  writeFieldBegin .string 1 ++ writeString x.message
    ++ writeFieldBegin .i32 2 ++ writeI32 x.type.code ++ [TType.stop.code]

def protocol : TProtocol where
  writeMessageBegin name type seqid := writeString name ++ type.code :: writeI32 seqid
  writeMessageEnd := []
  writeStructBegin _ := []
  writeStructEnd := []
  writeFieldBegin _ := writeFieldBegin
  writeFieldEnd := []
  writeFieldStop := [TType.stop.code]
  writeListBegin type size := type.code :: bigEndian 4 size.toNat
  writeListEnd := []
  writeI32 := writeI32
  writeString := writeString
  writeApplicationException := writeApplicationException
  readMessageBegin := readMessageBegin
  readMessageEnd := pure ()
  readStructBegin := pure ()
  readStructEnd := pure ()
  readFieldBegin := readFieldBegin
  readFieldEnd := pure ()
  readListBegin := readListBegin
  readListEnd := pure ()
  readI32 := readI32
  readString := readString
  readApplicationException := readApplicationException
  skip := skip 64
  field_consumes h _ := field_consumes h

theorem reads_fieldBegin {type : TType} (h : type.Written) (fid : Int16) :
    Reads readFieldBegin (writeFieldBegin type fid) (type, fid) := by
  refine (reads_byte type.code).bind ?_
  rw [TType.ofCode_code h, if_neg (by rintro rfl; exact h)]
  exact (reads_writeI16 fid).pass fun fid => (type, fid)

theorem reads_fieldStop : Reads readFieldBegin [TType.stop.code] (.stop, 0) := rfl

/-- The size of a list is written unsigned and read signed. -/
theorem reads_listBegin {type : TType} (h : type.Written) {size : UInt32}
    (hsize : size.toNat < 2 ^ 31) :
    Reads readListBegin (type.code :: bigEndian 4 size.toNat) (type, size) := by
  have hread : Reads readListBegin (type.code :: bigEndian 4 size.toNat)
      (TType.ofCode type.code, UInt32.ofNat size.toNat) :=
    (reads_byte type.code).bind ((reads_size hsize).pass fun _ => _)
  rwa [TType.ofCode_code h, UInt32.ofNat_toNat] at hread

theorem reads_messageBegin {name : Bytes} (hname : Sized name) {type : TMessageType}
    (h : type.Written) (seqid : Int32) :
    Reads readMessageBegin (writeString name ++ type.code :: writeI32 seqid)
      (name, type, seqid) := by
  have hread : Reads readMessageBegin (writeString name ++ ([type.code] ++ writeI32 seqid))
      (name, TMessageType.ofCode type.code, seqid) :=
    (reads_writeString hname).bind
      ((reads_byte type.code).bind ((reads_writeI32 seqid).pass fun _ => _))
  rwa [TMessageType.ofCode_code h] at hread

/-- What `TApplicationException::write` writes, `read` reads. -/
theorem reads_applicationException {x : TApplicationException} (h : x.type.Written)
    (hmessage : Sized x.message) :
    Reads readApplicationException (writeApplicationException x) x := by
  let fields :
      List (Field UInt8 (TType × Int16) × (TApplicationException → TApplicationException)) :=
    [(⟨writeFieldBegin .string 1, (.string, 1), writeString x.message⟩,
        fun y => { y with message := x.message }),
      (⟨writeFieldBegin .i32 2, (.i32, 2), writeI32 x.type.code⟩,
        fun y => { y with type := x.type })]
  have hloop : Reads (field.loop readExceptionField ⟨.unknown, []⟩)
      ((fields.flatMap fun f => f.1.bytes) ++ [TType.stop.code])
      (fields.foldl (fun y f => f.2 y) ⟨.unknown, []⟩) := by
    have hstop : Reads field.reader [TType.stop.code] none := reads_fieldStop.pass fieldHead
    refine Reads.loop hstop Prod.fst ?_
    intro y f hf
    rcases List.mem_pair.mp hf with rfl | rfl
    · refine ⟨(@reads_fieldBegin .string trivial 1).pass fieldHead, ?_⟩
      exact (reads_writeString hmessage).pass fun message => { y with message := message }
    · refine ⟨(@reads_fieldBegin .i32 trivial 2).pass fieldHead, ?_⟩
      have htype := TApplicationExceptionType.ofCode_code h
      have hread := (reads_writeI32 x.type.code).pass
        fun code => { y with type := TApplicationExceptionType.ofCode code }
      rw [htype] at hread
      exact hread
  have hbytes : writeApplicationException x
      = (fields.flatMap fun f => f.1.bytes) ++ [TType.stop.code] := by
    simp [fields, writeApplicationException, Field.bytes]
  rw [hbytes]
  exact hloop

/-- The binary protocol reads what it writes. -/
theorem lawful : protocol.Lawful where
  messageBegin _ _ seqid hname h := reads_messageBegin hname h seqid
  messageEnd := reads_pure ()
  structBegin _ := reads_pure ()
  structEnd := reads_pure ()
  fieldBegin _ _ fid h := reads_fieldBegin h fid
  fieldEnd := reads_pure ()
  fieldStop := ⟨0, reads_fieldStop⟩
  listBegin _ _ h hsize := reads_listBegin h hsize
  listEnd := reads_pure ()
  i32 := reads_writeI32
  string _ h := reads_writeString h
  applicationException _ h hmessage := reads_applicationException h hmessage

end Binary

end Thrift
