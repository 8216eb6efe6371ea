import Logtail.Forms
import Logtail.Launch
import Mathlib.Tactic.IntervalCases

/-!
# Alarms

`stillGood`, `read_backupfile` and `logtail_File` post an alarm for each opening of
the log file that fails, for each reconnect that fails, and for a backup file that is
not there. What is posted, and how often.
-/

namespace ModelRead

open Framing FileStream ScribeSend Checkpoint Conf Transitions

inductive Trouble where
  | canNotOpenFile
  | canNotLink
  | backupPathNotExist
  deriving DecidableEq

/-- `alarm_file_mess`, `alarm_send_mess` and `alarm_backup_mess`. -/
def Trouble.message : Trouble → Bytes
  | .canNotOpenFile => ascii "can_not_open_file"
  | .canNotLink => ascii "can_not_link"
  | .backupPathNotExist => ascii "backup_path_not_exist"

/-! ## What is posted -/

def ampersand : UInt8 := 38

/-- What libcurl is given. It takes C strings. -/
structure Post where
  url : Bytes
  timeout : Int
  fields : Bytes

/-- A default group, and behind it the configured list unless there is none. -/
def recipients (defaults list : Bytes) : Bytes :=
  if list ≠ [] ∧ list ≠ ascii "null" then defaults ++ ascii "," ++ list else defaults

/-- `dip_logtail_alarm_libcurlinterface`, which does not use its parameter `subject`. -/
def Model.dipLogtailAlarmLibcurlinterface (garbage : String → Int) (r : Model) (message : Bytes) :
    Post where
  url := cString r.members.alarmURL
  timeout := r.members.alarmTimeout.getD (garbage "alarm_timeout")
  fields := cString (r.members.alarmPostPrefix ++ r.localAn ++ ascii "_" ++ message ++
    recipients r.members.defaultmail r.members.mailtoAlarm ++
    recipients r.members.defaultphone r.members.phoneAlarm)

/-- The form that an alarm is meant to be. -/
def alarmForm (r : Model) (trouble : Trouble) : List (Bytes × Bytes) :=
  [(ascii "group_name", ascii "dpool"), (ascii "grade", ascii "-1"),
    (ascii "service_name", ascii "dip-logtail"), (ascii "object", ascii "scribe"),
    (ascii "subject", r.localAn ++ ascii "_" ++ trouble.message),
    (ascii "gmail_to", recipients (ascii "dip_logtail") r.members.mailtoAlarm),
    (ascii "gmsg_to", recipients (ascii "dip_logtail") r.members.phoneAlarm)]

/-- The three options that a form is made of have their defaults. -/
structure AlarmDefaults (m : Members) : Prop where
  defaultphone : m.defaultphone = ascii "&gmsg_to=dip_logtail"
  defaultmail : m.defaultmail = ascii "&gmail_to=dip_logtail"
  alarmPostPrefix : m.alarmPostPrefix =
    ascii "group_name=dpool&grade=-1&service_name=dip-logtail&object=scribe&subject="

theorem optional_default {modelconfig : StringMap} {key default : String}
    (h : ascii key ∉ modelconfig) : optional modelconfig key default = ascii default := by
  rw [optional, Std.ExtTreeMap.getElem?_eq_none h, Option.getD_none]

/-- They are assigned in front of the path: a call that fails before them leaves no path. -/
def DefaultsOrNoPath : Except (String × Members) Members → Prop
  | .ok m => AlarmDefaults m
  | .error (_, m) => m.path = [] ∨ AlarmDefaults m

theorem alarmDefaults_parseModel (garbage : String → Int) {modelconfig : StringMap}
    (h : ∀ key ∈ ["defaultphone", "defaultmail", "alarmPostPrefix"], ascii key ∉ modelconfig) :
    (parseModel garbage modelconfig).2.path = [] ∨
      AlarmDefaults (parseModel garbage modelconfig).2 := by
  have hdefaults : AlarmDefaults {
      defaultphone := optional modelconfig "defaultphone" "&gmsg_to=dip_logtail"
      defaultmail := optional modelconfig "defaultmail" "&gmail_to=dip_logtail"
      alarmPostPrefix := optional modelconfig "alarmPostPrefix"
        "group_name=dpool&grade=-1&service_name=dip-logtail&object=scribe&subject=" } :=
    ⟨optional_default (h "defaultphone" (by simp)), optional_default (h "defaultmail" (by simp)),
      optional_default (h "alarmPostPrefix" (by simp))⟩
  have hparse : DefaultsOrNoPath (parseOptions garbage modelconfig) := by
    unfold parseOptions
    refine necessary_bind (fun _ => Or.inl rfl) fun port _ => ?_
    refine necessary_bind (fun _ => Or.inl rfl) fun host _ => ?_
    refine necessary_bind (fun _ => Or.inl rfl) fun accesskey _ => ?_
    refine necessary_bind (fun _ => Or.inl rfl) fun type _ => ?_
    refine necessary_bind (fun _ => Or.inl rfl) fun from_ _ => ?_
    refine necessary_bind (fun _ => Or.inl rfl) fun path _ => ?_
    refine necessary_bind (fun _ => Or.inr ?_) fun set_ _ => ?_
    · exact ⟨hdefaults.1, hdefaults.2, hdefaults.3⟩
    · exact ⟨hdefaults.1, hdefaults.2, hdefaults.3⟩
  cases hresult : parseOptions garbage modelconfig with
  | ok m =>
    rw [hresult] at hparse
    rw [parseModel_of_ok hresult]
    exact Or.inr hparse
  | error e =>
    rw [hresult] at hparse
    rw [parseModel_of_error hresult]
    exact hparse

theorem alarmDefaults_of_runs {mode : Mode} {garbage : String → Int} {w : World} {filename : Bytes}
    {t : Running} (ht : Runs mode garbage w filename t)
    (h : ∀ key ∈ ["defaultphone", "defaultmail", "alarmPostPrefix"],
      ascii key ∉ t.model.modelconfig) : AlarmDefaults t.model.members := by
  obtain ⟨-, name, values, r, now, connected, -, hr, hstart⟩ := runs_iff.mp ht
  obtain ⟨hlookup, position, hmodel, -, -⟩ := start_spec hstart
  have hspec := setUp_spec hr
  rw [hmodel] at h ⊢
  have hvalues : ({ r with position := some position } : Model).modelconfig = values :=
    hspec.modelconfig
  rw [hvalues] at h
  rcases alarmDefaults_parseModel garbage h with hpath | hdefaults
  · rw [hspec.members, hpath, w.unnamed] at hlookup
    cases hlookup
  · rw [← hspec.members] at hdefaults
    exact hdefaults

theorem recipients_append (field defaults list : Bytes) :
    recipients (field ++ defaults) list = field ++ recipients defaults list := by
  unfold recipients
  split <;> simp

theorem mem_recipients_iff {b : UInt8} {defaults list : Bytes} (hdefaults : b ∉ defaults)
    (hcomma : b ∉ ascii ",") (hnull : b ∉ ascii "null") :
    b ∈ recipients defaults list ↔ b ∈ list := by
  unfold recipients
  split
  · simp [hdefaults, hcomma]
  · rename_i hnone
    by_cases hempty : list = []
    · simp [hempty, hdefaults]
    · obtain rfl : list = ascii "null" := by
        by_contra hlist
        exact hnone ⟨hempty, hlist⟩
      simp [hdefaults, hnull]

/-- Joined as the source joins them, the defaults give the form. -/
theorem fields_eq_write {r : Model} (h : AlarmDefaults r.members) (garbage : String → Int)
    (trouble : Trouble) :
    (r.dipLogtailAlarmLibcurlinterface garbage trouble.message).fields =
      cString (Forms.write ampersand equals (alarmForm r trouble)) := by
  have hmail : ascii "&gmail_to=dip_logtail" = ascii "&gmail_to=" ++ ascii "dip_logtail" := by
    decide
  have hphone : ascii "&gmsg_to=dip_logtail" = ascii "&gmsg_to=" ++ ascii "dip_logtail" := by
    decide
  rw [Model.dipLogtailAlarmLibcurlinterface, h.defaultphone, h.defaultmail, h.alarmPostPrefix,
    hmail, hphone, recipients_append, recipients_append]
  simp [Forms.write, alarmForm, Forms.writeField, List.intercalate_cons_cons, ascii, ampersand,
    equals]

theorem alarmForm_keys (r : Model) (trouble : Trouble) :
    ∀ f ∈ alarmForm r trouble, ampersand ∉ f.1 ∧ equals ∉ f.1 ∧ nul ∉ f.1 := by
  simp only [alarmForm, List.forall_mem_cons, List.not_mem_nil, false_imp_iff, implies_true]
  decide

theorem alarmForm_values {b : UInt8} (hfixed : ∀ text ∈ ["dpool", "-1", "dip-logtail", "scribe",
      "_", "dip_logtail", ",", "null"], b ∉ ascii text) (r : Model) {trouble : Trouble}
    (hmessage : b ∉ trouble.message) :
    (∀ f ∈ alarmForm r trouble, b ∉ f.2) ↔
      ∀ text ∈ [r.localAn, r.members.mailtoAlarm, r.members.phoneAlarm], b ∉ text := by
  simp only [List.forall_mem_cons, List.not_mem_nil, false_imp_iff, implies_true,
    and_true] at hfixed
  obtain ⟨hgroup, hgrade, hservice, hobject, hline, hdefault, hcomma, hnull⟩ := hfixed
  have hlist (list : Bytes) : b ∈ recipients (ascii "dip_logtail") list ↔ b ∈ list :=
    mem_recipients_iff hdefault hcomma hnull
  simp [alarmForm, hgroup, hgrade, hservice, hobject, hline, hlist, hmessage]

/-- An alarm reads as the form that it is meant to be exactly when the number of the machine
and the two lists have neither an ampersand nor a NUL. -/
theorem alarm_form_iff {mode : Mode} {garbage : String → Int} {w : World} {filename : Bytes}
    {t : Running} (ht : Runs mode garbage w filename t)
    (hdefaults : ∀ key ∈ ["defaultphone", "defaultmail", "alarmPostPrefix"],
      ascii key ∉ t.model.modelconfig) (trouble : Trouble) :
    Forms.read ampersand equals
        (t.model.dipLogtailAlarmLibcurlinterface garbage trouble.message).fields =
        alarmForm t.model trouble ↔
      ∀ text ∈ [t.model.localAn, t.model.members.mailtoAlarm, t.model.members.phoneAlarm],
        ampersand ∉ text ∧ nul ∉ text := by
  rw [fields_eq_write (alarmDefaults_of_runs ht hdefaults), cString]
  rw [Forms.read_takeWhile_write_iff (by simp [alarmForm]) (alarmForm_keys t.model trouble)
    (by decide) (by decide)]
  have hmessage : ampersand ∉ trouble.message ∧ nul ∉ trouble.message := by
    cases trouble <;> decide
  have hamp := alarmForm_values (b := ampersand) (by decide) t.model hmessage.1
  have hnul := alarmForm_values (b := nul) (by decide) t.model hmessage.2
  simp only [imp_and, forall_and, hamp, hnul]

/-- The model `a` has two lists. -/
def alarmConfig : Bytes :=
  ascii "[a]\nport=1\nhost=h\naccesskey=k\ntype=t\nfrom=f\npath=p\nset=s\n" ++
    ascii "mailto_alarm=m,n\nphone_alarm=1&grade=0\n"

/-- An ampersand in a list adds a field. -/
theorem alarm_form_ampersand :
    ∃ t, Runs .f (fun _ => 0) (sampleWorld alarmConfig [] []) (ascii "c") t ∧
      Forms.read ampersand equals (t.model.dipLogtailAlarmLibcurlinterface (fun _ => 0)
        (Trouble.message .canNotLink)).fields ≠ alarmForm t.model .canNotLink := by
  have defined : ∃ rs, main .f (fun _ => 0) (sampleWorld alarmConfig [] []) (ascii "c") = some rs :=
    setUpAll_isSome_iff.mpr fun h => absurd h (by decide)
  have hmem : (parseConfig (some alarmConfig))[ascii "a"]? =
      some ((parseConfig (some alarmConfig)).getD (ascii "a") ∅) :=
    Std.ExtTreeMap.getElem?_eq_some_getD (by decide)
  obtain ⟨t, ht, hvalues, hmembers⟩ := runs_of_lookup defined hmem (by decide)
  have hphone : ampersand ∈ t.model.members.phoneAlarm := by
    rw [hmembers]
    decide
  refine ⟨t, ht, fun heq => ?_⟩
  have hlists := (alarm_form_iff ht (by rw [hvalues]; decide) .canNotLink).mp heq
  exact (hlists t.model.members.phoneAlarm (by simp)).1 hphone

/-! ## How often -/

/-- The alarms of a thread, the seconds that its three loops have slept, and how often one
of them was entered. -/
structure Meter where
  alarms : List Trouble
  slept : Int
  outages : Nat

namespace Meter

def zero : Meter := ⟨[], 0, 0⟩

def alarm (c : Meter) (t : Trouble) : Meter := { c with alarms := c.alarms ++ [t] }

def sleep (c : Meter) (seconds : Int) : Meter := { c with slept := c.slept + seconds }

def outage (c : Meter) : Meter := { c with outages := c.outages + 1 }

/-- A thread step, as an observer of alarms and sleeps sees it. The loop of `stillGood` is
entered with `sleep_m=5`. -/
def after (c : Meter) (s : State) : Act → Meter
  | .external _ => c
  | .thread _ =>
    match s.pc with
    | .stillGood (.opening sleepM) =>
      if s.fs.path.isSome then c
      else ((if sleepM = 5 then c.outage else c).sleep sleepM).alarm .canNotOpenFile
    | .logtailFile .reopening => c.outage
    | .logtailFile (.waiting tM _) =>
      if s.scribeInter.isOpen then c else (c.sleep tM).alarm .canNotLink
    | .readBackupfile .opening =>
      if s.fs.backupPath.isSome then c else c.alarm .backupPathNotExist
    | .readBackupfile (.reopening _ _ _) => c.outage
    | .readBackupfile (.waiting _ tM _) =>
      if s.scribeInter.isOpen then c else (c.sleep tM).alarm .canNotLink
    | _ => c

/-- 320 for each alarm that a wait goes with, less the seconds of the waits, and less what
the first six waits of each outage fall short of 320. -/
def balance (c : Meter) : Int :=
  320 * c.alarms.length - 320 * c.alarms.count .backupPathNotExist - c.slept - 1605 * c.outages

end Meter

/-- The thread with its meter. -/
def metered (m : Config) (o : State × Meter) (a : Act) : State × Meter :=
  (step m o.1 a, o.2.after o.1 a)

/-- What the first `k` waits of an outage fall short of 320 each. -/
def shortfall (k : Nat) : Int := 320 * k - 5 * 2 ^ k + 5

/-- Between two outages: the next wait is 5 seconds doubled some times, and the account is
not overdrawn. -/
def Paid (tM b : Int) : Prop := b ≤ 0 ∧ ∃ k ≤ 6, tM = 5 * 2 ^ k

/-- In an outage: the waits that are still short are paid in advance. -/
def Waiting (tM b : Int) : Prop := ∃ k ≤ 6, tM = 5 * 2 ^ k ∧ b ≤ shortfall k - 1605

/-- The account at each place. -/
def Solvent (b : Int) : Pc → Prop
  | .stillGood (.opening sleepM) => (sleepM = 5 ∧ b ≤ 0) ∨ (sleepM ≠ 5 ∧ Waiting sleepM b)
  | .logtailFile (.waiting tM _) => Waiting tM b
  | .readBackupfile (.splitting _ tM _) => Paid tM b
  | .readBackupfile (.sending _ tM _) => Paid tM b
  | .readBackupfile (.reopening _ tM _) => Paid tM b
  | .readBackupfile (.waiting _ tM _) => Waiting tM b
  | _ => b ≤ 0

theorem shortfall_bounds {k : Nat} (hk : k ≤ 6) : 0 ≤ shortfall k ∧ shortfall k ≤ 1605 := by
  interval_cases k <;> decide

theorem paid_five {b : Int} (h : b ≤ 0) : Paid 5 b := ⟨h, 0, by omega, rfl⟩

/-- An outage is entered at its price. -/
theorem Paid.entered {tM b : Int} (h : Paid tM b) : Waiting tM (b - 1605) := by
  obtain ⟨hb, k, hk, htM⟩ := h
  have hbound := (shortfall_bounds hk).1
  exact ⟨k, hk, htM, by omega⟩

/-- An outage is left with the account in order. -/
theorem Waiting.paid {tM b : Int} (h : Waiting tM b) : Paid tM b := by
  obtain ⟨k, hk, htM, hb⟩ := h
  have hbound := (shortfall_bounds hk).2
  exact ⟨by omega, k, hk, htM⟩

/-- A wait pays for its alarm, up to what it is short of 320. -/
theorem Waiting.waited {tM b : Int} (h : Waiting tM b) :
    Waiting (if tM ≥ 300 then tM else 2 * tM) (b - tM + 320) := by
  obtain ⟨k, hk, rfl, hb⟩ := h
  rcases Nat.lt_or_ge k 6 with hlt | hge
  · have hsmall : ¬ (5 * 2 ^ k : Int) ≥ 300 := by interval_cases k <;> decide
    rw [if_neg hsmall]
    refine ⟨k + 1, hlt, ?_, ?_⟩
    · rw [pow_succ]
      omega
    · simp only [shortfall, pow_succ] at hb ⊢
      push_cast
      omega
  · obtain rfl : k = 6 := by omega
    exact ⟨6, Nat.le_refl 6, by decide, by omega⟩

/-- The stop test of `read_backupfile` has the same effect. -/
theorem Waiting.stop_eq {tM b : Int} (h : Waiting tM b) :
    (if tM > 300 then tM else 2 * tM) = if tM ≥ 300 then tM else 2 * tM := by
  obtain ⟨k, hk, rfl, -⟩ := h
  interval_cases k <;> decide

theorem Waiting.five_le {tM b : Int} (h : Waiting tM b) : 5 ≤ tM := by
  obtain ⟨k, hk, rfl, -⟩ := h
  interval_cases k <;> decide

section

variable (c : Meter) (seconds : Int)

theorem balance_alarm (t : Trouble) :
    (c.alarm t).balance = c.balance + if t = .backupPathNotExist then 0 else 320 := by
  simp only [Meter.balance, Meter.alarm, List.length_append, List.length_singleton,
    List.count_append]
  push_cast
  cases t with
  | canNotOpenFile =>
    simp
    omega
  | canNotLink =>
    simp
    omega
  | backupPathNotExist =>
    simp
    omega

@[simp] theorem balance_sleep : (c.sleep seconds).balance = c.balance - seconds := by
  simp only [Meter.balance, Meter.sleep]
  omega

@[simp] theorem balance_outage : c.outage.balance = c.balance - 1605 := by
  simp only [Meter.balance, Meter.outage]
  push_cast
  omega

end

variable {m : Config} {ans : Answer} {s : State} {c : Meter}

theorem solvent_logtailFile {place : LogtailPc} (hpc : s.pc = .logtailFile place)
    (h : Solvent c.balance s.pc) :
    Solvent (c.after s (.thread ans)).balance (logtailFile ans s place).pc := by
  rw [hpc] at h
  cases place with
  | polling =>
    simp only [Meter.after, hpc, logtailFile, State.goto_pc]
    exact Or.inl ⟨rfl, h⟩
  | checking =>
    simp only [Meter.after, hpc, logtailFile]
    split <;> exact h
  | sending =>
    simp only [Meter.after, hpc, logtailFile]
    split <;> exact h
  | reopening =>
    simp only [Meter.after, hpc, logtailFile, State.goto_pc, balance_outage]
    exact (paid_five h).entered
  | waiting tM allNum =>
    simp only [Meter.after, hpc, logtailFile]
    split
    · exact h.paid.1
    · simp only [State.goto_pc, balance_alarm, reduceCtorEq, if_false, balance_sleep]
      exact h.waited

theorem solvent_stillGood {place : StillGoodPc} (hpc : s.pc = .stillGood place)
    (h : Solvent c.balance s.pc) :
    Solvent (c.after s (.thread ans)).balance (stillGood m s place).pc := by
  rw [hpc] at h
  cases place with
  | opening sleepM =>
    simp only [Meter.after, hpc, stillGood]
    cases hpath : s.fs.path with
    | some ino =>
      simp only [Option.isSome_some, if_true, State.goto_pc]
      rcases h with ⟨-, hb⟩ | ⟨-, hwaiting⟩
      · exact hb
      · exact hwaiting.paid.1
    | none =>
      simp only [Option.isSome_none, Bool.false_eq_true, if_false, State.goto_pc,
        balance_alarm, reduceCtorEq, balance_sleep]
      rcases h with ⟨rfl, hb⟩ | ⟨hlater, hwaiting⟩
      · rw [if_pos rfl, balance_outage]
        exact Or.inr ⟨by decide, (paid_five hb).entered.waited⟩
      · rw [if_neg hlater]
        refine Or.inr ⟨?_, hwaiting.waited⟩
        have hfive := hwaiting.five_le
        split <;> omega
  | comparing =>
    simp only [Meter.after, hpc, stillGood]
    split <;> exact h
  | telling =>
    simp only [Meter.after, hpc, stillGood, State.goto_pc]
    exact h

theorem solvent_readBackupfile {place : BackupPc} (hpc : s.pc = .readBackupfile place)
    (h : Solvent c.balance s.pc) :
    Solvent (c.after s (.thread ans)).balance (readBackupfile m ans s place).pc := by
  rw [hpc] at h
  cases place with
  | opening =>
    simp only [Meter.after, hpc, readBackupfile]
    cases hbackup : s.fs.backupPath with
    | some ino => exact h
    | none =>
      simp only [Option.isSome_none, Bool.false_eq_true, if_false, State.goto_pc,
        balance_alarm, if_true, Int.add_zero]
      exact h
  | sizing ino =>
    simp only [Meter.after, hpc, readBackupfile]
    split <;> exact h
  | reading ino length =>
    simp only [Meter.after, hpc, readBackupfile, State.goto_pc]
    exact paid_five h
  | splitting lastmsg tM allNum =>
    simp only [Meter.after, hpc, readBackupfile]
    split
    · exact h.1
    · split <;> exact h
  | sending lastmsg tM allNum =>
    simp only [Meter.after, hpc, readBackupfile]
    split <;> exact h
  | reopening lastmsg tM allNum =>
    simp only [Meter.after, hpc, readBackupfile, State.goto_pc, balance_outage]
    exact h.entered
  | waiting lastmsg tM allNum =>
    simp only [Meter.after, hpc, readBackupfile]
    split
    · exact h.paid
    · simp only [State.goto_pc, balance_alarm, reduceCtorEq, if_false, balance_sleep]
      have hwaited := h.waited
      rwa [← h.stop_eq] at hwaited

theorem solvent_readLogFile {place : ReadPc} (hpc : s.pc = .readLogFile place)
    (h : Solvent c.balance s.pc) :
    Solvent (c.after s (.thread ans)).balance (readLogFile m s place).pc := by
  rw [hpc] at h
  simp only [Meter.after, hpc]
  cases place with
  | seeking => exact h
  | closing => exact h
  | getline =>
    simp only [readLogFile]
    split
    · exact h
    · split
      · exact h
      · split
        · exact h
        · simp only [State.tell_pc, State.queue_pc, hpc]
          exact h

theorem solvent_writeCheckpoint {place : CheckpointPc} (hpc : s.pc = .writeCheckpoint place)
    (h : Solvent c.balance s.pc) :
    Solvent (c.after s (.thread ans)).balance (writeCheckpoint m ans s place).pc := by
  rw [hpc] at h
  simp only [Meter.after, hpc]
  cases place with
  | timing =>
    simp only [writeCheckpoint]
    split <;> exact h
  | writing tTime writeInfo => exact h

theorem solvent_step {o : State × Meter} (h : Solvent o.2.balance o.1.pc) (a : Act) :
    Solvent (metered m o a).2.balance (metered m o a).1.pc := by
  obtain ⟨s, c⟩ := o
  cases a with
  | external fs => exact h
  | thread ans =>
    refine thread_cases (P := fun s' => Solvent (c.after s (.thread ans)).balance s'.pc)
      ?_ ?_ ?_ ?_ ?_
    · exact fun place hpc => solvent_logtailFile hpc h
    · exact fun place hpc => solvent_stillGood hpc h
    · exact fun place hpc => solvent_readBackupfile hpc h
    · exact fun place hpc => solvent_readLogFile hpc h
    · exact fun place hpc => solvent_writeCheckpoint hpc h

theorem Solvent.settled {b : Int} {pc : Pc} (h : Solvent b pc) : b ≤ 0 := by
  unfold Solvent at h
  split at h
  · rcases h with ⟨-, hb⟩ | ⟨-, hwaiting⟩
    · exact hb
    · exact hwaiting.paid.1
  · exact h.paid.1
  · exact h.1
  · exact h.1
  · exact h.1
  · exact h.paid.1
  · exact h

/-- Alarms do not come in floods. In every run, for every server and whatever happens to the
files: each alarm but that for a backup file goes with a wait, and of all these waits only
the first six of an outage are shorter than 320 seconds. -/
theorem alarms_bounded (m : Config) (fs : Fs) (checkpoint : Option Bytes) (position : Int)
    (oStat : Stat) (connected : Bool) (acts : List Act) :
    let c := (run (metered m) (started fs checkpoint position oStat connected, .zero) acts).2
    320 * (c.alarms.length : Int)
      ≤ c.slept + 1605 * c.outages + 320 * c.alarms.count .backupPathNotExist := by
  intro c
  have hstart : Solvent Meter.zero.balance (.logtailFile .polling) :=
    show Meter.zero.balance ≤ 0 by decide
  have hsolvent := invariant_every_run (I := fun o : State × Meter => Solvent o.2.balance o.1.pc)
    (fun _ a h => solvent_step (m := m) h a)
    (s := (started fs checkpoint position oStat connected, .zero)) hstart acts
  have hbalance : c.balance ≤ 0 := hsolvent.settled
  simp only [Meter.balance] at hbalance
  omega

end ModelRead
