import Logtail.ConfBytes
import Logtail.Attribution
import Logtail.BatchBound
import Logtail.BatchLedger

/-!
# One message, one line

The receiver splits what it is sent at newlines. The config file and the file with
the number of the machine are read line by line, so neither can bring a newline
into the prefix or the category, and a thread queues one line at a time.
-/

namespace ModelRead

open Framing FileStream ScribeSend Checkpoint Conf Transitions

/-- `int mm=temp_an.find('=')` -/
def equalsAt (tempAn : Bytes) : Int :=
  match cut equals tempAn with
  | none => -1
  | some (before, _) => Int.bmod before.length (2 ^ 32)

/-- `get_local_an`: the number of the machine stands behind the first equals sign of
the first line of its file; without the file the address takes its place. `none` is
the exception of `substr`. -/
def getLocalAn (sinainstall : Option Bytes) (eth0Ip : Bytes) : Option Bytes :=
  match sinainstall with
  | none => some (trimString eth0Ip)
  | some text =>
    let tempAn := upTo newline text
    let from_ := equalsAt tempAn + 1
    if from_ < 0 ∨ from_ > tempAn.length then none
    else some (trimString (tempAn.drop from_.toNat))

theorem newline_not_mem_getLocalAn {sinainstall : Option Bytes} {eth0Ip an : Bytes}
    (hip : newline ∉ eth0Ip) (h : getLocalAn sinainstall eth0Ip = some an) : newline ∉ an := by
  cases sinainstall with
  | none =>
    obtain rfl := Option.some.inj h
    exact fun hmem => hip (trimString_subset eth0Ip hmem)
  | some text =>
    simp only [getLocalAn] at h
    split at h
    · cases h
    · obtain rfl := Option.some.inj h
      intro hmem
      exact not_mem_upTo newline text ((List.drop_suffix _ _).subset (trimString_subset _ hmem))

/-- The members that prefix, category and record are made of. -/
structure MembersLacking (b : UInt8) (m : Members) : Prop where
  accesskey : b ∉ m.accesskey
  type : b ∉ m.type
  from_ : b ∉ m.from_
  path : b ∉ m.path
  set_ : b ∉ m.set_
  logServerPort : b ∉ m.logServerPort

section

variable {b : UInt8} {garbage : String → Int} {values : StringMap}

theorem not_mem_optional (h : Lacking b values) (key : String) {default : String}
    (hdefault : b ∉ ascii default) : b ∉ optional values key default := by
  unfold optional
  cases hkey : values[ascii key]? with
  | none => exact hdefault
  | some temp => exact (h _ _ hkey).2

/-- The members that `parseOptions` leaves, with an error or without. -/
def Leaves (P : Members → Prop) : Except (String × Members) Members → Prop
  | .ok m => P m
  | .error (_, m) => P m

theorem leaves_parseOptions (h : Lacking b values) (hnull : b ∉ ascii "null") :
    Leaves (MembersLacking b) (parseOptions garbage values) := by
  have hnil : b ∉ ([] : Bytes) := List.not_mem_nil
  unfold parseOptions
  refine necessary_bind (fun _ => ⟨hnil, hnil, hnil, hnil, hnil, hnil⟩) fun port _ => ?_
  refine necessary_bind (fun _ => ⟨hnil, hnil, hnil, hnil, hnil, hnil⟩) fun host _ => ?_
  refine necessary_bind (fun _ => ⟨hnil, hnil, hnil, hnil, hnil, hnil⟩) fun accesskey hkey => ?_
  have hkey := (h _ _ hkey).2
  refine necessary_bind (fun _ => ⟨hkey, hnil, hnil, hnil, hnil, hnil⟩) fun type htype => ?_
  have htype := (h _ _ htype).2
  refine necessary_bind (fun _ => ⟨hkey, htype, hnil, hnil, hnil, hnil⟩) fun from_ hfrom => ?_
  have hfrom := (h _ _ hfrom).2
  refine necessary_bind (fun _ => ⟨hkey, htype, hfrom, hnil, hnil, hnil⟩) fun path hpath => ?_
  have hpath := (h _ _ hpath).2
  refine necessary_bind (fun _ => ⟨hkey, htype, hfrom, hpath, hnil, hnil⟩) fun set_ hset => ?_
  exact ⟨hkey, htype, hfrom, hpath, (h _ _ hset).2, not_mem_optional h _ hnull⟩

/-- Whichever option is missing, the members hold values or nothing. -/
theorem membersLacking_parseModel (h : Lacking b values) (hnull : b ∉ ascii "null") :
    MembersLacking b (parseModel garbage values).2 := by
  have hleaves : Leaves (MembersLacking b) (parseOptions garbage values) :=
    leaves_parseOptions h hnull
  cases hparse : parseOptions garbage values with
  | ok m =>
    rw [hparse] at hleaves
    rw [parseModel_of_ok hparse]
    exact hleaves
  | error e =>
    rw [hparse] at hleaves
    rw [parseModel_of_error hparse]
    exact hleaves

end

section

variable {mode : Mode} {garbage : String → Int} {w : World} {filename : Bytes} {t : Running}

/-- A thread works on the members of its section. -/
theorem config_of_runs (h : Runs mode garbage w filename t) :
    ∃ (name : Bytes) (values : StringMap) (q : Model),
      (parseConfig (w.read filename))[name]? = some values ∧
      q.members = (parseModel garbage values).2 ∧ q.localAn = w.an ∧
      t.config.path = q.members.path ∧
      t.config.logPrefix = q.makePrefixCategory.logPrefix.getD [] ∧
      t.config.category = q.makePrefixCategory.category.getD [] := by
  obtain ⟨-, name, values, r, now, connected, hmem, hr, ht⟩ := runs_iff.mp h
  obtain ⟨-, position, -, hconfig, -⟩ := start_spec ht
  refine ⟨name, values, configured garbage w name values, hmem, rfl, rfl, ?_⟩
  rw [hconfig]
  cases mode with
  | f =>
    obtain rfl := Option.some.inj hr
    exact ⟨rfl, rfl, rfl⟩
  | r =>
    obtain ⟨mCheckpoint, -, rfl⟩ := Option.map_eq_some_iff.mp hr
    exact ⟨rfl, rfl, rfl⟩

/-- Prefix, category and path are free of newlines, whatever the files hold. -/
theorem newline_not_mem_config (han : newline ∉ w.an) (h : Runs mode garbage w filename t) :
    newline ∉ t.config.logPrefix ∧ newline ∉ t.config.category ∧ newline ∉ t.config.path := by
  obtain ⟨name, values, q, hmem, hmembers, hq, hpath, hlead, hcategory⟩ := config_of_runs h
  have hlacking : MembersLacking newline q.members := by
    rw [hmembers]
    exact membersLacking_parseModel (newline_lacking (w.read filename) name values hmem).2
      (by decide)
  rw [← hq] at han
  refine ⟨?_, ?_, hpath ▸ hlacking.path⟩
  · rw [hlead]
    have hmarks : newline ∉ ascii "_accesskey=" ∧ newline ∉ ascii "&_ip=" ∧
        newline ∉ ascii "&_port=" ∧ newline ∉ ascii "&_an=" ∧ newline ∉ ascii "&_data=" := by
      decide
    simp [Model.makePrefixCategory, hmarks, hlacking.accesskey, hlacking.from_,
      hlacking.logServerPort, han]
  · rw [hcategory]
    have hmark : newline ∉ ascii "_" := by decide
    simp [Model.makePrefixCategory, hmark, hlacking.type, hlacking.accesskey, hlacking.set_]

end

section

variable {m : Config} {s : State}

/-- What a step adds to the messages is an entry of one line. -/
theorem pushed_thread (m : Config) (ans : Answer) (s : State) :
    (thread m ans s).pushed = s.pushed ∨
      ∃ le, EntryOfLine m le ∧ (thread m ans s).pushed = s.pushed ++ [le] := by
  cases thread_works m ans s with
  | quiet pushed _ _ => exact Or.inl pushed
  | queues le entry pushed _ _ => exact Or.inr ⟨le, entry, pushed⟩
  | clears _ _ pushed _ _ => exact Or.inl pushed

/-- Only entries of one line are queued or have been passed to `Log`. -/
structure SendsLines (m : Config) (s : State) : Prop where
  pushed : ∀ le ∈ s.pushed, EntryOfLine m le
  balanced : Balanced s
  logged : ∀ batch outcome, Event.logged batch outcome ∈ s.history →
    ∀ le ∈ batch, EntryOfLine m le

theorem SendsLines.pending (h : SendsLines m s) :
    ∀ le ∈ s.scribeInter.messages, EntryOfLine m le := by
  intro le hle
  apply h.pushed
  rw [(balanced_iff s).mp h.balanced]
  exact List.mem_append_right _ hle

/-- A call of `Log` takes the batch as it is. -/
theorem logged_thread (m : Config) (ans : Answer) {batch : List LogEntry} {outcome : LogOutcome}
    (h : Event.logged batch outcome ∈ (thread m ans s).history) :
    Event.logged batch outcome ∈ s.history ∨ batch = s.scribeInter.messages := by
  by_cases hline : findsLine s
  · exact Or.inl ((grows_thread m ans hline).logged batch outcome h)
  · exact (holds_thread m ans hline).logged batch outcome h

theorem sendsLines_step (h : SendsLines m s) (a : Act) : SendsLines m (step m s a) := by
  cases a with
  | external fs => exact ⟨h.pushed, balanced_step m h.balanced (.external fs), h.logged⟩
  | thread ans =>
    refine ⟨?_, balanced_step m h.balanced (.thread ans), ?_⟩
    · intro le hle
      rcases pushed_thread m ans s with heq | ⟨new, hnew, heq⟩
      · rw [step, heq] at hle
        exact h.pushed le hle
      · rw [step, heq, List.mem_append, List.mem_singleton] at hle
        rcases hle with hle | rfl
        · exact h.pushed le hle
        · exact hnew
    · intro batch outcome hb
      rcases logged_thread m ans hb with hb | rfl
      · exact h.logged batch outcome hb
      · exact h.pending

theorem sendsLines_started (m : Config) (fs : Fs) (checkpoint : Option Bytes) (position : Int)
    (oStat : Stat) (connected : Bool) :
    SendsLines m (started fs checkpoint position oStat connected) where
  pushed := nofun
  balanced := balanced_started fs checkpoint position oStat connected
  logged := nofun

end

/-- The receiver finds one line in the message, of this category. -/
structure SingleLine (m : Config) (le : LogEntry) : Prop where
  category : le.category = m.category
  onCategory : newline ∉ le.category
  logPrefix : m.logPrefix <+: le.message
  /-- a newline stands at the end at most -/
  onMessage : newline ∉ le.message.dropLast

theorem singleLine_of_entry {m : Config} (hlead : newline ∉ m.logPrefix)
    (hcategory : newline ∉ m.category) {le : LogEntry} (h : EntryOfLine m le) :
    SingleLine m le := by
  obtain ⟨line, hline, rfl | rfl⟩ := h
  · have hmessage : (liveEntry m line).message = (m.logPrefix ++ line) ++ [newline] := rfl
    refine ⟨rfl, hcategory, ⟨line ++ [newline], ?_⟩, ?_⟩
    · rw [hmessage, List.append_assoc]
    · rw [hmessage, List.dropLast_concat, List.mem_append, not_or]
      exact ⟨hlead, hline⟩
  · have hmessage : (backupEntry m line).message = m.logPrefix ++ line := rfl
    refine ⟨rfl, hcategory, ⟨line, rfl⟩, ?_⟩
    intro hmem
    rw [hmessage] at hmem
    rcases List.mem_append.mp (List.dropLast_subset _ hmem) with hmem | hmem
    · exact hlead hmem
    · exact hline hmem

/-- For every config file, both modes, every number of the machine, every file content,
every interleaving, rotation and server: whatever a thread passes to `Log`, sent or
not, is one line in each message, behind its prefix and under its category. -/
theorem logged_singleLine {mode : Mode} {garbage : String → Int} {w : World} {filename : Bytes}
    {sinainstall : Option Bytes} {eth0Ip : Bytes} (address : newline ∉ eth0Ip)
    (an : getLocalAn sinainstall eth0Ip = some w.an) {t : Running}
    (ht : Runs mode garbage w filename t) (acts : List Act) :
    ∀ batch outcome, .logged batch outcome ∈ (run (step t.config) t.state acts).history →
      ∀ le ∈ batch, SingleLine t.config le := by
  intro batch outcome hlogged le hle
  obtain ⟨hlead, hcategory, -⟩ :=
    newline_not_mem_config (newline_not_mem_getLocalAn address an) ht
  have hstart : SendsLines t.config t.state := by
    obtain ⟨-, name, values, r, now, connected, -, -, hr⟩ := runs_iff.mp ht
    obtain ⟨p, -, rfl⟩ := Option.map_eq_some_iff.mp hr
    exact sendsLines_started _ _ _ _ _ _
  have hrun := invariant_every_run (fun s a (h : SendsLines t.config s) => sendsLines_step h a)
    hstart acts
  exact singleLine_of_entry hlead hcategory (hrun.logged batch outcome hlogged le hle)

/-- The log file of the model `a` has a line when the thread starts. -/
def loggingWorld : World :=
  sampleWorld (ascii "[a]\nport=1\nhost=h\naccesskey=k\ntype=t\nfrom=f\npath=p\nset=s\n")
    (ascii "x\n") []

def loggingThread : Option Running :=
  (main .f (fun _ => 0) loggingWorld (ascii "c")).bind fun rs =>
    rs.head?.bind (start (fun _ => 0) loggingWorld 0 true)

/-- A second line comes, and a poll. -/
def loggingActs : List Act :=
  .external { loggingWorld.fs { path := ascii "p" } with
    file := Function.update loggingWorld.file 1 (ascii "x\ny\n") } ::
    List.replicate 10 (.thread (allWell 1))

theorem runs_loggingThread {t : Running} (h : loggingThread = some t) :
    Runs .f (fun _ => 0) loggingWorld (ascii "c") t := by
  unfold loggingThread at h
  obtain ⟨rs, hrs, h⟩ := Option.bind_eq_some_iff.mp h
  obtain ⟨r, hr, ht⟩ := Option.bind_eq_some_iff.mp h
  exact ⟨rs, hrs, r, List.mem_of_mem_head? hr, 0, true, ht⟩

theorem logged_singleLine_secondLine :
    ∃ t batch, Runs .f (fun _ => 0) loggingWorld (ascii "c") t ∧
      Event.logged batch .ok ∈ (run (step t.config) t.state loggingActs).history ∧
      batch.length = 1 ∧ ∀ le ∈ batch, SingleLine t.config le := by
  have hcalls : (loggingThread.map fun t =>
      (run (step t.config) t.state loggingActs).acked.map List.length) = some [1] := by decide
  obtain ⟨t, ht, hacked⟩ := Option.map_eq_some_iff.mp hcalls
  obtain ⟨batch, hbatch, hlength⟩ := List.map_eq_singleton_iff.mp hacked
  have hlogged := logged_of_mem_acked (hbatch ▸ List.mem_singleton_self batch)
  exact ⟨t, batch, runs_loggingThread ht, hlogged, hlength,
    @logged_singleLine .f (fun _ => 0) loggingWorld (ascii "c") none [] (by decide) (by decide) t
      (runs_loggingThread ht) loggingActs batch .ok hlogged⟩

end ModelRead
