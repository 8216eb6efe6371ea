import Logtail.Conf

/-!
# The options of a model

`ModelRead::parseModel` assigns the members one by one and gives up at the first
necessary key that is missing; what it has assigned by then stays. All numbers
come from one reader of `long long`, through copies of one test, into members of
different types.
-/

namespace ModelRead

open Framing FileStream Checkpoint Conf

/-- The members that `parseModel` assigns. A number is `none` as long as it is not assigned. -/
structure Members where
  port : Bytes := []
  host : Bytes := []
  accesskey : Bytes := []
  defaultphone : Bytes := []
  defaultmail : Bytes := []
  alarmURL : Bytes := []
  alarmPostPrefix : Bytes := []
  secrekey : Bytes := []
  type : Bytes := []
  from_ : Bytes := []
  path : Bytes := []
  set_ : Bytes := []
  maxSendMsg : Option Int := none
  alarmTimeout : Option Int := none
  checkpointTime : Option Int := none
  backupPath : Bytes := []
  mailtoAlarm : Bytes := []
  phoneAlarm : Bytes := []
  logServerPort : Bytes := []
  timeout : Bytes := []

/-- An option without which `parseModel` returns false; the error names the key. -/
def necessary (modelconfig : StringMap) (key : String) (put : Bytes → Members → Members)
    (m : Members) : Except (String × Members) Members :=
  match modelconfig[ascii key]? with
  | some temp => .ok (put temp m)
  | none => .error (key, m)

/-- An option with a default text. -/
def optional (modelconfig : StringMap) (key default : String) : Bytes :=
  modelconfig[ascii key]?.getD (ascii default)

/-- An option with a default number, tested behind its conversion to the type of the
member. `garbage` is the indeterminate value that `StringToInt` returns for a blank text. -/
def positiveOption (modelconfig : StringMap) (key : String) (default : Int) (convert : Int → Int)
    (garbage : Int) : Int :=
  match modelconfig[ascii key]? with
  | none => default
  | some temp =>
    let t := convert ((stringToInt temp).getD garbage)
    if t ≤ 0 then default else t

def toLong (x : Int) : Int := x

def toUnsignedLong (x : Int) : Int := x % 2 ^ 64

def toInt (x : Int) : Int := Int.bmod x (2 ^ 32)

/-- The body of `parseModel`; `garbage` gives the indeterminate value of each call of
`StringToInt`. -/
def parseOptions (garbage : String → Int) (modelconfig : StringMap) :
    Except (String × Members) Members := do
  let m ← necessary modelconfig "port" (fun v m => { m with port := v }) {}
  let m ← necessary modelconfig "host" (fun v m => { m with host := v }) m
  let m ← necessary modelconfig "accesskey" (fun v m => { m with accesskey := v }) m
  let m := { m with
    defaultphone := optional modelconfig "defaultphone" "&gmsg_to=dip_logtail"
    defaultmail := optional modelconfig "defaultmail" "&gmail_to=dip_logtail"
    alarmURL := optional modelconfig "alarmURL" "http://monitor.sina.com.cn/cgi-bin/alertmail.cgi"
    alarmPostPrefix := optional modelconfig "alarmPostPrefix"
      "group_name=dpool&grade=-1&service_name=dip-logtail&object=scribe&subject="
    secrekey := optional modelconfig "secrekey" "null" }
  let m ← necessary modelconfig "type" (fun v m => { m with type := v }) m
  let m ← necessary modelconfig "from" (fun v m => { m with from_ := v }) m
  let m ← necessary modelconfig "path" (fun v m => { m with path := v }) m
  let m ← necessary modelconfig "set" (fun v m => { m with set_ := v }) m
  return { m with
    maxSendMsg := positiveOption modelconfig "max_send_msg" 5000 toLong (garbage "max_send_msg")
    alarmTimeout :=
      positiveOption modelconfig "alarm_timeout" 10 toUnsignedLong (garbage "alarm_timeout")
    checkpointTime :=
      positiveOption modelconfig "checkpoint_time" 5 toLong (garbage "checkpoint_time")
    backupPath := optional modelconfig "backup_path" "null"
    mailtoAlarm := optional modelconfig "mailto_alarm" "null"
    phoneAlarm := optional modelconfig "phone_alarm" "null"
    logServerPort := optional modelconfig "log_server_port" "null"
    timeout := optional modelconfig "timeout" "5000" }

/-- `ModelRead::parseModel`: the return value and the members afterwards. -/
def parseModel (garbage : String → Int) (modelconfig : StringMap) : Bool × Members :=
  match parseOptions garbage modelconfig with
  | .ok m => (true, m)
  | .error (_, m) => (false, m)

/-- The arguments of `set_host_port_timeout` in `start`, narrowed to `int`. -/
def hostPortTimeout (garbage : String → Int) (m : Members) : Bytes × Int × Int :=
  (m.host, toInt ((stringToInt m.port).getD (garbage "port")),
    toInt ((stringToInt m.timeout).getD (garbage "timeout")))

/-- The decimal integer that a text starts with, behind white space. -/
def leadingInteger (text : Bytes) : Option Int :=
  match text.dropWhile isSpace with
  | [] => none
  | b :: rest =>
    let digits := (if b = Decimal.minus ∨ b = 43 then rest else b :: rest).takeWhile Decimal.isDigit
    if digits = [] then none
    else
      some (if b = Decimal.minus then -(Decimal.readNat digits : Int) else Decimal.readNat digits)

def Blank (text : Bytes) : Prop := ∀ b ∈ text, isSpace b

instance (text : Bytes) : Decidable (Blank text) := inferInstanceAs (Decidable (∀ b ∈ text, _))

section

variable {text : Bytes}

theorem stringToInt_blank (h : Blank text) : stringToInt text = none := by
  rw [stringToInt, List.dropWhile_eq_nil_iff.mpr h]

theorem leadingInteger_blank (h : Blank text) : leadingInteger text = none := by
  rw [leadingInteger, List.dropWhile_eq_nil_iff.mpr h]

/-- Of any other text the number at its front is read, or 0. -/
theorem stringToInt_of_not_blank (h : ¬ Blank text) :
    stringToInt text = some (clamp ((leadingInteger text).getD 0)) := by
  cases hdrop : text.dropWhile isSpace with
  | nil => exact absurd (List.dropWhile_eq_nil_iff.mp hdrop) h
  | cons b rest =>
    simp only [stringToInt, leadingInteger, hdrop]
    by_cases hdigits : (if b = Decimal.minus ∨ b = 43 then rest else b :: rest).takeWhile
        Decimal.isDigit = []
    · simp [hdigits, Decimal.readNat]
    · simp [hdigits]

end

/-- What is behind a call that returns true. -/
structure Configured (garbage : String → Int) (modelconfig : StringMap) (m : Members) : Prop where
  port : modelconfig[ascii "port"]? = some m.port
  host : modelconfig[ascii "host"]? = some m.host
  accesskey : modelconfig[ascii "accesskey"]? = some m.accesskey
  type : modelconfig[ascii "type"]? = some m.type
  from_ : modelconfig[ascii "from"]? = some m.from_
  path : modelconfig[ascii "path"]? = some m.path
  set_ : modelconfig[ascii "set"]? = some m.set_
  maxSendMsg : m.maxSendMsg =
    some (positiveOption modelconfig "max_send_msg" 5000 toLong (garbage "max_send_msg"))
  alarmTimeout : m.alarmTimeout =
    some (positiveOption modelconfig "alarm_timeout" 10 toUnsignedLong (garbage "alarm_timeout"))
  checkpointTime : m.checkpointTime =
    some (positiveOption modelconfig "checkpoint_time" 5 toLong (garbage "checkpoint_time"))
  timeout : m.timeout = optional modelconfig "timeout" "5000"

/-- What is behind a call that returns false with a path: only `set` is missing, and no
number is assigned. -/
structure WithoutSet (modelconfig : StringMap) (m : Members) : Prop where
  port : ascii "port" ∈ modelconfig
  host : ascii "host" ∈ modelconfig
  accesskey : ascii "accesskey" ∈ modelconfig
  type : ascii "type" ∈ modelconfig
  from_ : ascii "from" ∈ modelconfig
  path : modelconfig[ascii "path"]? = some m.path
  set_ : ascii "set" ∉ modelconfig
  maxSendMsg : m.maxSendMsg = none
  checkpointTime : m.checkpointTime = none

theorem mem_of_getElem? {β : Type} {map : Std.ExtTreeMap Bytes β compare} {key : Bytes} {value : β}
    (h : map[key]? = some value) : key ∈ map := by
  rw [Std.ExtTreeMap.mem_iff_isSome_getElem?, h]
  rfl

theorem not_mem_of_getElem? {modelconfig : StringMap} {key : Bytes}
    (h : modelconfig[key]? = none) : key ∉ modelconfig := by
  rw [Std.ExtTreeMap.mem_iff_isSome_getElem?, h]
  exact nofun

/-- What `parseOptions` can come to. An error names a missing option, and only the last one
leaves a path behind. -/
def Outcome (garbage : String → Int) (modelconfig : StringMap) :
    Except (String × Members) Members → Prop
  | .ok m => Configured garbage modelconfig m
  | .error (key, m) =>
    (key ∈ ["port", "host", "accesskey", "type", "from", "path"] ∧ ascii key ∉ modelconfig ∧
      m.path = []) ∨
    (key = "set" ∧ WithoutSet modelconfig m)

theorem necessary_bind {modelconfig : StringMap} {P : Except (String × Members) Members → Prop}
    {key : String} {put : Bytes → Members → Members} {m : Members}
    {next : Members → Except (String × Members) Members}
    (missing : ascii key ∉ modelconfig → P (.error (key, m)))
    (present : ∀ temp, modelconfig[ascii key]? = some temp → P (next (put temp m))) :
    P (necessary modelconfig key put m >>= next) := by
  cases hkey : modelconfig[ascii key]? with
  | none =>
    rw [necessary, hkey]
    exact missing (not_mem_of_getElem? hkey)
  | some temp =>
    rw [necessary, hkey]
    exact present temp hkey

/-- The eight exits. -/
theorem parseOptions_outcome (garbage : String → Int) (modelconfig : StringMap) :
    Outcome garbage modelconfig (parseOptions garbage modelconfig) := by
  unfold parseOptions
  refine necessary_bind (fun h => Or.inl ⟨by simp, h, rfl⟩) fun port hport => ?_
  refine necessary_bind (fun h => Or.inl ⟨by simp, h, rfl⟩) fun host hhost => ?_
  refine necessary_bind (fun h => Or.inl ⟨by simp, h, rfl⟩) fun accesskey haccesskey => ?_
  refine necessary_bind (fun h => Or.inl ⟨by simp, h, rfl⟩) fun type htype => ?_
  refine necessary_bind (fun h => Or.inl ⟨by simp, h, rfl⟩) fun from_ hfrom => ?_
  refine necessary_bind (fun h => Or.inl ⟨by simp, h, rfl⟩) fun path hpath => ?_
  refine necessary_bind ?_ fun set_ hset => ?_
  · intro h
    exact Or.inr ⟨rfl, mem_of_getElem? hport, mem_of_getElem? hhost, mem_of_getElem? haccesskey,
      mem_of_getElem? htype, mem_of_getElem? hfrom, hpath, h, rfl, rfl⟩
  · exact ⟨hport, hhost, haccesskey, htype, hfrom, hpath, hset, rfl, rfl, rfl, rfl⟩

theorem parseModel_of_ok {garbage : String → Int} {modelconfig : StringMap} {m : Members}
    (h : parseOptions garbage modelconfig = .ok m) :
    parseModel garbage modelconfig = (true, m) := by
  rw [parseModel, h]

theorem parseModel_of_error {garbage : String → Int} {modelconfig : StringMap} {key : String}
    {m : Members} (h : parseOptions garbage modelconfig = .error (key, m)) :
    parseModel garbage modelconfig = (false, m) := by
  rw [parseModel, h]

def necessaryKeys : List String := ["port", "host", "accesskey", "type", "from", "path", "set"]

theorem parseModel_true_iff {garbage : String → Int} {modelconfig : StringMap} :
    (parseModel garbage modelconfig).1 = true ↔ ∀ key ∈ necessaryKeys, ascii key ∈ modelconfig := by
  have houtcome := parseOptions_outcome garbage modelconfig
  cases hparse : parseOptions garbage modelconfig with
  | ok m =>
    rw [hparse] at houtcome
    rw [parseModel_of_ok hparse]
    refine ⟨fun _ => ?_, fun _ => rfl⟩
    simp [necessaryKeys, mem_of_getElem? houtcome.port, mem_of_getElem? houtcome.host,
      mem_of_getElem? houtcome.accesskey, mem_of_getElem? houtcome.type,
      mem_of_getElem? houtcome.from_, mem_of_getElem? houtcome.path, mem_of_getElem? houtcome.set_]
  | error e =>
    rw [hparse] at houtcome
    rw [parseModel_of_error hparse]
    refine ⟨nofun, fun h => ?_⟩
    rcases houtcome with ⟨hkey, hnot, -⟩ | ⟨hkey, hset⟩
    · exact absurd (h e.1 (List.mem_append_left ["set"] hkey)) hnot
    · exact absurd (h "set" (by simp [necessaryKeys])) hset.set_

theorem configured_parseModel {garbage : String → Int} {modelconfig : StringMap}
    (h : (parseModel garbage modelconfig).1 = true) :
    Configured garbage modelconfig (parseModel garbage modelconfig).2 := by
  have houtcome := parseOptions_outcome garbage modelconfig
  cases hparse : parseOptions garbage modelconfig with
  | ok m =>
    rw [hparse] at houtcome
    rwa [parseModel_of_ok hparse]
  | error e =>
    rw [parseModel_of_error hparse] at h
    cases h

/-- The value that an option with a default is documented to have. -/
def documented (modelconfig : StringMap) (key : String) (default : Int) : Int :=
  match modelconfig[ascii key]?.bind leadingInteger with
  | some v => if 0 < v ∧ v < 2 ^ 63 then v else default
  | none => default

/-- Each number is the documented one, and `start` hands over the numbers that the two texts
denote. -/
structure Faithful (garbage : String → Int) (modelconfig : StringMap) (m : Members) : Prop where
  maxSendMsg : m.maxSendMsg = some (documented modelconfig "max_send_msg" 5000)
  alarmTimeout : m.alarmTimeout = some (documented modelconfig "alarm_timeout" 10)
  checkpointTime : m.checkpointTime = some (documented modelconfig "checkpoint_time" 5)
  port : leadingInteger m.port = some (hostPortTimeout garbage m).2.1
  timeout : leadingInteger m.timeout = some (hostPortTimeout garbage m).2.2

/-- The text is not blank, and a number in it fits. -/
def Survives (fits : Int → Prop) (text : Bytes) : Prop :=
  ¬ Blank text ∧ ∀ v, leadingInteger text = some v → fits v

/-- The text denotes an `int`. -/
def DenotesInt (text : Bytes) : Prop := ∃ v, leadingInteger text = some v ∧ -2 ^ 31 ≤ v ∧ v < 2 ^ 31

/-- The texts that survive their conversions: a number that is present fits in `long long`, the
alarm timeout has no minus sign, and port and timeout are `int`s. -/
structure Representable (modelconfig : StringMap) : Prop where
  maxSendMsg : ∀ text, modelconfig[ascii "max_send_msg"]? = some text → Survives (· < 2 ^ 63) text
  alarmTimeout : ∀ text, modelconfig[ascii "alarm_timeout"]? = some text →
    Survives (fun v => 0 ≤ v ∧ v < 2 ^ 63) text
  checkpointTime : ∀ text, modelconfig[ascii "checkpoint_time"]? = some text →
    Survives (· < 2 ^ 63) text
  port : ∀ text, modelconfig[ascii "port"]? = some text → DenotesInt text
  timeout : ∀ text, modelconfig[ascii "timeout"]? = some text → DenotesInt text

section

variable {modelconfig : StringMap} {key : String}

/-- One copy of the test. The conversion decides which numbers it gets right; a blank text
gives it whatever was in the variable. -/
theorem positiveOption_documented_iff {default : Int} {convert : Int → Int} {fits : Int → Prop}
    (zero : fits 0)
    (right : ∀ v, (if convert (clamp v) ≤ 0 then default else convert (clamp v)) =
      (if 0 < v ∧ v < 2 ^ 63 then v else default) ↔ fits v)
    (seven : (if convert 7 ≤ 0 then default else convert 7) ≠ default) :
    (∀ garbage, positiveOption modelconfig key default convert garbage =
        documented modelconfig key default) ↔
      ∀ text, modelconfig[ascii key]? = some text → Survives fits text := by
  cases hkey : modelconfig[ascii key]? with
  | none => simp [positiveOption, documented, hkey]
  | some text =>
    simp only [positiveOption, documented, hkey, Option.bind_some, Option.some.injEq, forall_eq']
    by_cases hblank : Blank text
    · simp only [stringToInt_blank hblank, leadingInteger_blank hblank, Option.getD_none]
      exact ⟨fun h => absurd (h 7) seven, fun h => absurd hblank h.1⟩
    · rw [stringToInt_of_not_blank hblank]
      simp only [Option.getD_some, forall_const]
      cases hnumber : leadingInteger text with
      | none =>
        have hzero := (right 0).mpr zero
        rw [if_neg (by omega : ¬ ((0 : Int) < 0 ∧ (0 : Int) < 2 ^ 63))] at hzero
        simp only [Option.getD_none, hzero, true_iff]
        exact ⟨hblank, by simp [hnumber]⟩
      | some v =>
        simp only [Option.getD_some, right v]
        refine ⟨fun h => ⟨hblank, ?_⟩, fun h => h.2 v hnumber⟩
        intro w hw
        rw [hnumber] at hw
        rwa [← Option.some.inj hw]

theorem positiveOption_pos {default : Int} (h : 0 < default) (convert : Int → Int) (garbage : Int) :
    0 < positiveOption modelconfig key default convert garbage := by
  unfold positiveOption
  split
  · exact h
  · simp only
    split_ifs <;> omega

theorem toLong_documented_iff {default : Int} (small : default = 5000 ∨ default = 5) :
    (∀ garbage, positiveOption modelconfig key default toLong garbage =
        documented modelconfig key default) ↔
      ∀ text, modelconfig[ascii key]? = some text → Survives (· < 2 ^ 63) text := by
  apply positiveOption_documented_iff
  · omega
  · intro v
    unfold toLong clamp
    split_ifs <;> omega
  · unfold toLong
    split_ifs <;> omega

theorem toUnsignedLong_documented_iff :
    (∀ garbage, positiveOption modelconfig key 10 toUnsignedLong garbage =
        documented modelconfig key 10) ↔
      ∀ text, modelconfig[ascii key]? = some text →
        Survives (fun v => 0 ≤ v ∧ v < 2 ^ 63) text := by
  apply positiveOption_documented_iff
  · omega
  · intro v
    unfold toUnsignedLong clamp
    split_ifs <;> omega
  · unfold toUnsignedLong
    split_ifs <;> omega

theorem toInt_clamp_iff {v : Int} : v = toInt (clamp v) ↔ -2 ^ 31 ≤ v ∧ v < 2 ^ 31 := by
  simp only [toInt, clamp, Int.bmod]
  omega

theorem denotes_iff {text : Bytes} (garbage : Int) :
    leadingInteger text = some (toInt ((stringToInt text).getD garbage)) ↔ DenotesInt text := by
  by_cases hblank : Blank text
  · simp [DenotesInt, leadingInteger_blank hblank]
  · rw [stringToInt_of_not_blank hblank]
    cases hnumber : leadingInteger text with
    | none => simp [DenotesInt, hnumber]
    | some v =>
      rw [Option.getD_some, Option.getD_some, Option.some.injEq, toInt_clamp_iff]
      simp [DenotesInt, hnumber]

end

/-- For every accepted map: whatever the uninitialized variables hold, the numbers are the
documented ones exactly when each text survives its conversion. -/
theorem faithful_iff_representable {modelconfig : StringMap} {garbage : String → Int}
    (accepted : (parseModel garbage modelconfig).1 = true) :
    (∀ garbage, Faithful garbage modelconfig (parseModel garbage modelconfig).2) ↔
      Representable modelconfig := by
  have hall : ∀ garbage, Configured garbage modelconfig (parseModel garbage modelconfig).2 := by
    intro garbage
    exact configured_parseModel (parseModel_true_iff.mpr (parseModel_true_iff.mp accepted))
  constructor
  · intro h
    have hconst : ∀ v : Int, Configured (fun _ => v) modelconfig _ ∧
        Faithful (fun _ => v) modelconfig _ :=
      fun v => ⟨hall fun _ => v, h fun _ => v⟩
    refine ⟨?_, ?_, ?_, ?_, ?_⟩
    · refine (toLong_documented_iff (Or.inl rfl)).mp fun v => ?_
      exact Option.some.inj ((hconst v).1.maxSendMsg.symm.trans (hconst v).2.maxSendMsg)
    · refine toUnsignedLong_documented_iff.mp fun v => ?_
      exact Option.some.inj ((hconst v).1.alarmTimeout.symm.trans (hconst v).2.alarmTimeout)
    · refine (toLong_documented_iff (Or.inr rfl)).mp fun v => ?_
      exact Option.some.inj ((hconst v).1.checkpointTime.symm.trans (hconst v).2.checkpointTime)
    · intro text htext
      rw [(hconst 0).1.port] at htext
      rw [← Option.some.inj htext]
      exact (denotes_iff _).mp (hconst 0).2.port
    · intro text htext
      have htimeout := (hconst 0).1.timeout
      rw [optional, htext, Option.getD_some] at htimeout
      rw [← htimeout]
      exact (denotes_iff _).mp (hconst 0).2.timeout
  · intro h garbage
    have hconfigured := hall garbage
    refine ⟨?_, ?_, ?_, ?_, ?_⟩
    · rw [hconfigured.maxSendMsg, (toLong_documented_iff (Or.inl rfl)).mpr h.maxSendMsg]
    · rw [hconfigured.alarmTimeout, toUnsignedLong_documented_iff.mpr h.alarmTimeout]
    · rw [hconfigured.checkpointTime, (toLong_documented_iff (Or.inr rfl)).mpr h.checkpointTime]
    · exact (denotes_iff _).mpr (h.port _ hconfigured.port)
    · refine (denotes_iff _).mpr ?_
      rw [hconfigured.timeout, optional]
      cases htext : modelconfig[ascii "timeout"]? with
      | none => exact ⟨5000, by decide, by decide, by decide⟩
      | some text => exact h.timeout text htext

/-- A section with the necessary options, and others. -/
def sampleEntries (others : List (Bytes × Bytes)) : List (Bytes × Bytes) :=
  [(ascii "port", ascii "1463"), (ascii "host", ascii "h"), (ascii "accesskey", ascii "k"),
    (ascii "type", ascii "www"), (ascii "from", ascii "f"), (ascii "path", ascii "p"),
    (ascii "set", ascii "s")] ++ others

theorem accepted_sampleEntries (garbage : String → Int) (others : List (Bytes × Bytes)) :
    (parseModel garbage (Sections.fill (sampleEntries others))).1 = true := by
  rw [parseModel_true_iff]
  intro key hkey
  rw [Sections.mem_fill, sampleEntries, List.map_append, List.mem_append]
  left
  revert key
  decide

def negativeLimit : StringMap :=
  Sections.fill (sampleEntries [(ascii "max_send_msg", ascii "-1")])

/-- A limit of `-1` is replaced by the default. -/
theorem faithful_negativeLimit :
    Faithful (fun _ => 0) negativeLimit (parseModel (fun _ => 0) negativeLimit).2 := by
  have hlimit : negativeLimit[ascii "max_send_msg"]? = some (ascii "-1") :=
    (Sections.getElem?_fill _ _).trans (by decide)
  have halarm : negativeLimit[ascii "alarm_timeout"]? = none :=
    (Sections.getElem?_fill _ _).trans (by decide)
  have hcheckpoint : negativeLimit[ascii "checkpoint_time"]? = none :=
    (Sections.getElem?_fill _ _).trans (by decide)
  have hport : negativeLimit[ascii "port"]? = some (ascii "1463") :=
    (Sections.getElem?_fill _ _).trans (by decide)
  have htimeout : negativeLimit[ascii "timeout"]? = none :=
    (Sections.getElem?_fill _ _).trans (by decide)
  have haccepted : (parseModel (fun _ => 0) negativeLimit).1 = true :=
    accepted_sampleEntries (fun _ => 0) [(ascii "max_send_msg", ascii "-1")]
  refine (faithful_iff_representable haccepted).mpr ?_ fun _ => 0
  constructor
  · rw [hlimit]
    rintro text ⟨⟩
    exact ⟨by decide, by decide⟩
  · simp [halarm]
  · simp [hcheckpoint]
  · rw [hport]
    rintro text ⟨⟩
    exact ⟨1463, by decide, by decide, by decide⟩
  · simp [htimeout]

def negativeTimeout : StringMap :=
  Sections.fill (sampleEntries [(ascii "alarm_timeout", ascii "-5")])

/-- A negative alarm timeout wraps around. -/
theorem not_faithful_negativeTimeout :
    (parseModel (fun _ => 0) negativeTimeout).1 = true ∧
      (parseModel (fun _ => 0) negativeTimeout).2.alarmTimeout = some (2 ^ 64 - 5) ∧
      ¬ Faithful (fun _ => 0) negativeTimeout (parseModel (fun _ => 0) negativeTimeout).2 := by
  have hvalue : negativeTimeout[ascii "alarm_timeout"]? = some (ascii "-5") :=
    (Sections.getElem?_fill _ _).trans (by decide)
  have haccepted : (parseModel (fun _ => 0) negativeTimeout).1 = true :=
    accepted_sampleEntries (fun _ => 0) [(ascii "alarm_timeout", ascii "-5")]
  have hwrapped : (parseModel (fun _ => 0) negativeTimeout).2.alarmTimeout = some (2 ^ 64 - 5) := by
    rw [(configured_parseModel haccepted).alarmTimeout, positiveOption, hvalue]
    decide
  refine ⟨haccepted, hwrapped, fun h => ?_⟩
  have hdocumented := hwrapped.symm.trans h.alarmTimeout
  rw [documented, hvalue] at hdocumented
  exact absurd hdocumented (by decide)

end ModelRead
