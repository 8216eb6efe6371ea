import Logtail.Process
import Logtail.Served

/-!
# The whole program

All threads of a process with their connections, and all servers that they reach. A
server is reached under the host and the port that its model names; threads of
different models may reach one server in turn. Each model sees of this a served life
of its own.
-/

namespace ModelRead

open Framing FileStream ScribeSend Checkpoint Conf Thrift Scribe Transitions Simulation

/-- The threads with their connections. `stored` has the batches of each model that a
server has answered with OK, wherever it was. -/
structure Program (σ : Type) where
  process : Process
  /-- the states of all servers -/
  servers : σ
  stored : Bytes → List (List LogEntry)
  inbox : Bytes → Bytes
  lost : Bytes → Nat

inductive ProgramAct (σ : Type) where
  /-- a step of the thread of this model, and the fate of its call -/
  | thread (name : Bytes) (ans : Answer) (link : Link)
  /-- other processes change the log files -/
  | external (w : World)
  /-- other clients, and the servers themselves -/
  | servers (state : σ)
  /-- the process is killed and started with `-r` -/
  | restart (l : Launch)

variable {σ : Type}

/-- The server that a thread was handed to. -/
def Running.server (reach : Bytes → Int → Server σ) (t : Running) : Server σ :=
  reach t.handed.1 t.handed.2.1

namespace Program

def launched (mode : Mode) (l : Launch) (state : σ) : Program σ :=
  ⟨l.process mode, state, fun _ => [], fun _ => [], fun _ => 0⟩

def network (p : Program σ) (name : Bytes) (t : Running) : Network σ :=
  ⟨p.process.view t, (p.servers, p.stored name), p.inbox name, p.lost name⟩

def turn (P : TProtocol) (reach : Bytes → Int → Server σ) (p : Program σ) (name : Bytes)
    (t : Running) (ans : Answer) (link : Link) : Program σ :=
  let srv := t.server reach
  let n := netStep P srv t.config (p.network name t) (.thread ans link)
  { process := p.process.turn name t ((p.network name t).told P srv ans link)
    servers := n.server.1
    stored := Function.update p.stored name n.server.2
    inbox := Function.update p.inbox name n.inbox
    lost := Function.update p.lost name n.lost }

end Program

def programStep (P : TProtocol) (reach : Bytes → Int → Server σ) (p : Program σ) :
    ProgramAct σ → Program σ
  | .thread name ans link =>
    match p.process.next name with
    | .none => p
    | .ends => { p with process := p.process.ended, inbox := fun _ => [] }
    | .step t => p.turn P reach name t ans link
  | .external w => { p with process := processStep p.process (.external w) }
  | .servers state => { p with servers := state }
  | .restart l => { p with process := l.process .r, inbox := fun _ => [] }

/-- What the model `name` sees of an action: the calls of other threads change the
servers only. -/
def observed (P : TProtocol) (reach : Bytes → Int → Server σ) (name : Bytes) (p : Program σ) :
    ProgramAct σ → List (ServedAct σ)
  | .thread name' ans link =>
    match p.process.next name' with
    | .none => []
    | .ends => [.kill]
    | .step _ =>
      if name' = name then [.net (.thread ans link)]
      else [.net (.server (programStep P reach p (.thread name' ans link)).servers)]
  | .external w =>
    match p.process.threads name with
    | some t => [.net (.external (w.fs t.model.members))]
    | none => []
  | .servers state => [.net (.server state)]
  | .restart l =>
    match (l.process .r).threads name with
    | some t =>
      [.net (.external (l.w.fs t.model.members)), .kill,
        .start (t.server reach) t.config (l.garbage "check_position") (l.garbage "position")
          (l.connected name)]
    | none => []

/-- The thread of `name` is in its served life. -/
structure Attends (reach : Bytes → Int → Server σ) (name : Bytes) (p : Program σ)
    (w : Served σ) : Prop where
  life : InLife name p.process w.lives
  srv : ∀ t, p.process.threads name = some t → t.server reach = w.srv
  server : (p.servers, p.stored name) = w.server
  inbox : p.inbox name = w.inbox
  lost : p.lost name = w.lost

/-- The batches of the model fit the wire format. Whole lines are appended to its log
file, and in every start with `-r` the section makes the same messages. -/
def Conducted (m : Config) (ino : Nat) (name : Bytes) (p : Program σ) : ProgramAct σ → Prop
  | .thread name' ans link =>
    name' = name → ∀ t, p.process.threads name = some t →
      Sends (p.network name t) (.thread ans link)
  | .external w => Orderly m ino name p.process (.external w)
  | .servers _ => True
  | .restart l => Orderly m ino name p.process (.restart l)

variable {P : TProtocol} {reach : Bytes → Int → Server σ} {name : Bytes} {p : Program σ}
  {w : Served σ} {m : Config} {ino : Nat}

theorem Attends.network_eq (h : Attends reach name p w) {t : Running}
    (ht : p.process.threads name = some t) :
    p.network name t = w.network ∧ t.config = w.lives.config := by
  obtain ⟨t', ht', hconfig, hview⟩ := h.life.thread
  obtain rfl := Option.some.inj (ht'.symm.trans ht)
  refine ⟨?_, hconfig⟩
  simp only [Program.network, Served.network, hview, h.server, h.inbox, h.lost]

theorem attends_thread (h : Attends reach name p w) (ans : Answer) (link : Link) {t : Running}
    (ht : p.process.threads name = some t) (alive : p.process.alive = true) :
    Attends reach name (p.turn P reach name t ans link)
      (servedStep P w (.net (.thread ans link))) := by
  obtain ⟨hnetwork, hconfig⟩ := h.network_eq ht
  have hsrv := h.srv t ht
  have hlife := inLife_thread h.life ((p.network name t).told P (t.server reach) ans link) ht alive
  have hrunning : w.lives.running = true := h.life.running.trans alive
  simp only [servedStep, if_pos hrunning]
  refine ⟨?_, ?_, ?_, ?_, ?_⟩
  · rw [hnetwork, hsrv] at hlife
    simp only [Program.turn, hnetwork, hsrv]
    exact hlife
  · intro u hu
    simp only [Program.turn, Process.turn, Function.update_self, Option.some.injEq] at hu
    rw [← hu]
    exact hsrv
  · simp only [Program.turn, Served.transfer, Function.update_self, hnetwork, hsrv, hconfig]
  · simp only [Program.turn, Served.transfer, Function.update_self, hnetwork, hsrv, hconfig]
  · simp only [Program.turn, Served.transfer, Function.update_self, hnetwork, hsrv, hconfig]

/-- Where the model's own things stay, a change of the servers is all that it sees. -/
theorem attends_servers (h : Attends reach name p w) {p' : Program σ}
    (life : InLife name p'.process w.lives)
    (threads : p'.process.threads name = p.process.threads name)
    (stored : p'.stored name = p.stored name) (inbox : p'.inbox name = p.inbox name)
    (lost : p'.lost name = p.lost name) :
    Attends reach name p' (servedStep P w (.net (.server p'.servers))) where
  life := life
  srv t ht := h.srv t (threads ▸ ht)
  server := Prod.ext rfl (stored.trans (congrArg Prod.snd h.server))
  inbox := inbox.trans h.inbox
  lost := lost.trans h.lost

theorem attends_other (h : Attends reach name p w) {name' : Bytes} (hother : name' ≠ name)
    (ans : Answer) (link : Link) {t' : Running} (ht' : p.process.threads name' = some t') :
    Attends reach name (p.turn P reach name' t' ans link)
      (servedStep P w (.net (.server (p.turn P reach name' t' ans link).servers))) := by
  refine attends_servers h (inLife_other h.life _ hother ht') ?_ ?_ ?_ ?_
  · exact Function.update_of_ne hother.symm _ _
  · exact Function.update_of_ne hother.symm _ _
  · exact Function.update_of_ne hother.symm _ _
  · exact Function.update_of_ne hother.symm _ _

/-- The division by zero closes all connections. -/
theorem attends_ended (h : Attends reach name p w) :
    Attends reach name { p with process := p.process.ended, inbox := fun _ => [] }
      (servedStep P w .kill) :=
  ⟨inLife_ended h.life, h.srv, h.server, rfl, h.lost⟩

theorem attends_external (h : Attends reach name p w) (world : World) {t : Running}
    (ht : p.process.threads name = some t) :
    Attends reach name (programStep P reach p (.external world))
      (servedStep P w (.net (.external (world.fs t.model.members)))) := by
  refine ⟨inLife_external h.life world ht, ?_, h.server, h.inbox, h.lost⟩
  intro u hu
  obtain ⟨u', hu', rfl⟩ := Option.map_eq_some_iff.mp hu
  exact h.srv u' hu'

theorem attends_restart (h : Attends reach name p w) {l : Launch}
    (reloads : Reloads name p.process (.restart l)) :
    Attends reach name (programStep P reach p (.restart l))
      (run (servedStep P) w (observed P reach name p (.restart l))) := by
  obtain ⟨t, ht⟩ := Option.isSome_iff_exists.mp reloads.2.2
  have hlife := inLife_restart h.life reloads
  simp only [seen, ht] at hlife
  simp only [observed, ht, programStep]
  refine ⟨hlife, ?_, h.server, rfl, h.lost⟩
  intro u hu
  obtain rfl := Option.some.inj (hu.symm.trans ht)
  rfl

theorem attends_step (h : Attends reach name p w) (a : ProgramAct σ)
    (conducted : Conducted m ino name p a) :
    Attends reach name (programStep P reach p a)
      (run (servedStep P) w (observed P reach name p a)) := by
  cases a with
  | thread name' ans link =>
    simp only [programStep, observed]
    cases hnext : p.process.next name' with
    | none => exact h
    | ends => exact attends_ended (P := P) h
    | step t' =>
      obtain ⟨ht', halive⟩ := next_step hnext
      by_cases hname : name' = name
      · subst hname
        simp only [if_true]
        exact attends_thread h ans link ht' halive
      · simp only [if_neg hname]
        exact attends_other h hname ans link ht'
  | external world =>
    obtain ⟨t, ht, -⟩ := h.life.thread
    simp only [observed, ht]
    exact attends_external h world ht
  | servers state =>
    have hlife : InLife name ({ p with servers := state } : Program σ).process w.lives := h.life
    exact attends_servers h hlife rfl rfl rfl rfl
  | restart l => exact attends_restart h conducted.1

theorem servedRule_observed (h : Attends reach name p w) (a : ProgramAct σ)
    (conducted : Conducted m ino name p a) :
    Guarded (servedStep P) (ServedRule m ino) w (observed P reach name p a) := by
  obtain ⟨t, ht, -⟩ := h.life.thread
  cases a with
  | thread name' ans link =>
    simp only [observed]
    split
    · trivial
    · exact ⟨trivial, trivial⟩
    · split
      · rename_i hname
        have hsends := conducted hname t ht
        rw [(h.network_eq ht).1] at hsends
        exact ⟨hsends, trivial⟩
      · exact ⟨trivial, trivial⟩
  | external world =>
    have hrule := lifeRule_seen (m := m) h.life (.external world) conducted
    simp only [seen, ht] at hrule
    simp only [observed, ht]
    exact ⟨hrule.1, trivial⟩
  | servers state => exact ⟨trivial, trivial⟩
  | restart l =>
    obtain ⟨t', ht'⟩ := Option.isSome_iff_exists.mp conducted.1.2.2
    have hrule := lifeRule_seen (m := m) h.life (.restart l) conducted
    simp only [seen, ht'] at hrule
    simp only [observed, ht']
    exact ⟨hrule.1, trivial, hrule.2.2.1, trivial⟩

theorem follows_served (m : Config) (ino : Nat) (name : Bytes) :
    Follows (programStep P reach) (servedStep P) (observed P reach name) (Attends reach name)
      (Conducted m ino name) (ServedRule m ino) where
  related _ _ a h conducted := attends_step h a conducted
  allowed _ _ a h conducted := servedRule_observed h a conducted

theorem attends_launched {mode : Mode} {l : Launch} {t : Running} (plain : l.Plain)
    (ht : (l.process mode).threads name = some t) (state : σ) :
    Attends reach name (Program.launched mode l state)
      (Served.fresh (t.server reach) t.life state) where
  life := inLife_process plain ht
  srv u hu := by
    obtain rfl := Option.some.inj (hu.symm.trans ht)
    rfl
  server := rfl
  inbox := rfl
  lost := rfl

/-- From the config file to the servers' stores, for each model, every interleaving of
all threads, servers and other processes, every cut of requests and answers, and any
number of kills at any point and starts with `-r`: the model is in a served life of its
own, and all lines in front of its position, in their order, are stored or wait in its
batch, except at most the lines that the starts have skipped. -/
theorem storedInFront_program (lawful : P.Lawful) {l : Launch} {name : Bytes} {t : Running}
    {ino : Nat} (plain : l.Plain) (ht : (l.process .f).threads name = some t)
    (hino : l.w.lookup t.model.members.path = some ino) (lines : Terminated newline (l.w.file ino))
    (small : (l.w.file ino).length < 2 ^ 63)
    (old : RecordOf t.config (· = (l.w.file ino).length) (l.w.read (writtenName name))) (state : σ)
    {acts : List (ProgramAct σ)}
    (conducted : Guarded (programStep P reach) (Conducted t.config ino name)
      (Program.launched .f l state) acts) :
    let p := run (programStep P reach) (Program.launched .f l state) acts
    let w := run (servedStep P) (Served.fresh (t.server reach) t.life state)
      (seenIn (programStep P reach) (observed P reach name) (Program.launched .f l state) acts)
    Attends reach name p w ∧ StoredInFront t.config ino (l.w.file ino).length w := by
  intro p w
  have hattends : Attends reach name (Program.launched .f l state)
      (Served.fresh (t.server reach) t.life state) := attends_launched plain ht state
  have hfollows : Follows (programStep P reach) (servedStep P) (observed P reach name)
      (Attends reach name) (Conducted t.config ino name) (ServedRule t.config ino) :=
    follows_served t.config ino name
  refine ⟨hfollows.run_related hattends conducted, ?_⟩
  have hrule := hfollows.run_allowed hattends conducted
  have hpath := path_ne_nil ht hino
  have hopened : Opened (l.w.fs t.model.members) ino (l.w.file ino).length (l.w.file ino).length :=
    ⟨hino, Nat.le_refl _, Nat.le_refl _⟩
  have hstart : ∃ before earlier, Serving t.config ino (l.w.file ino).length before earlier
      (Served.fresh (t.server reach) t.life state) := by
    rw [life_of_first ht hino]
    exact ⟨_, _, serving_fresh (t.server reach) t.config hopened lines small old
      (l.connected name) state⟩
  obtain ⟨before, earlier, hserving⟩ := invariant_run
    (I := fun w => ∃ before earlier, Serving t.config ino (l.w.file ino).length before earlier w)
    (fun _ a h ha => serving_step lawful hpath h a ha) hstart hrule
  exact hserving.storedInFront

/-! ## A kill behind a lost answer -/

/-- A step of a thread whose batch fits the wire format. -/
def Fits (name : Bytes) (p : Program σ) : ProgramAct σ → Prop
  | .thread name' ans link =>
    name' = name →
      (p.process.threads name).all
        (fun t => Sends (p.network name t) (.thread ans link)) = true
  | _ => False

instance (name : Bytes) (p : Program σ) (a : ProgramAct σ) : Decidable (Fits name p a) :=
  match a with
  | .thread _ _ _ => inferInstanceAs (Decidable (_ → _))
  | .external _ => isFalse id
  | .servers _ => isFalse id
  | .restart _ => isFalse id

theorem conducted_of_fits {a : ProgramAct σ} (h : Fits name p a) : Conducted m ino name p a := by
  cases a with
  | thread name' ans link =>
    intro hname t ht
    exact forall_of_all (h hname) ht
  | external w => exact h.elim
  | servers state => exact h.elim
  | restart l => exact h.elim

theorem conducted_threads {acts : List (ProgramAct σ)}
    (h : Guarded (programStep P reach) (Fits name) p acts) :
    Guarded (programStep P reach) (Conducted m ino name) p acts :=
  guarded_mono (fun _ _ => conducted_of_fits) h

def storingStep : Program Unit → ProgramAct Unit → Program Unit :=
  programStep Binary.protocol fun _ _ => storingServer

/-- Both threads write their records. -/
def bothRecord : List (ProgramAct Unit) :=
  (List.replicate 7 [.thread (ascii "a") (allWell 0) ⟨0, 0, []⟩,
    .thread (ascii "b") (allWell 0) ⟨0, 0, []⟩]).flatten

def recordedPair : Program Unit := run storingStep (.launched .f firstLaunch ()) bothRecord

/-- The line `y` is stored, and three bytes of the answer arrive. -/
def cutting : List (ProgramAct Unit) :=
  List.replicate 12 (.thread (ascii "a") (allWell 1) ⟨10000, 3, [1]⟩)

def untold : Program Unit := run storingStep recordedPair (.external grownWorld :: cutting)

/-- The process is killed, and finds the records of before. -/
def thirdLaunch : Launch :=
  pairLaunch (pairWorld (ascii "x\ny\n") (untold.process.record (ascii "a"))
    (untold.process.record (ascii "b")))

/-- The line is read again, and stored again. -/
def repeating : List (ProgramAct Unit) :=
  List.replicate 12 (.thread (ascii "a") (allWell 1) ⟨10000, 10000, []⟩)

theorem storedInFront_program_untold :
    ∃ t w, (firstLaunch.process .f).threads (ascii "a") = some t ∧
      Attends (fun _ _ => storingServer) (ascii "a")
        (run storingStep untold (.restart thirdLaunch :: repeating)) w ∧
      StoredInFront t.config 1 2 w := by
  have hsome : ((firstLaunch.process .f).threads (ascii "a")).isSome := by decide
  obtain ⟨t, ht⟩ := Option.isSome_iff_exists.mp hsome
  have hall : ((firstLaunch.process .f).threads (ascii "a")).all
      (fun t => firstLaunch.w.lookup t.model.members.path = some 1) = true := by
    decide
  have hgrown : Orderly t.config 1 (ascii "a") recordedPair.process (.external grownWorld) := by
    refine ⟨trivial, ?_⟩
    intro u hu
    have hfiles : (recordedPair.process.threads (ascii "a")).all (fun u =>
        (grownWorld.fs u.model.members).path = some 1 ∧
          (grownWorld.fs u.model.members).file 1 = u.state.fs.file 1 ++ ascii "y\n" ∧
            ((grownWorld.fs u.model.members).file 1).length < 2 ^ 63) = true := by
      decide +kernel
    obtain ⟨hpath, hfile, hsmall⟩ := forall_of_all hfiles hu
    exact ⟨⟨hpath, ascii "y\n", by decide, hfile⟩, hsmall⟩
  have hrestart : Orderly t.config 1 (ascii "a") untold.process (.restart thirdLaunch) :=
    orderly_restart ht ⟨plain_of_keys (by decide +kernel), by decide +kernel, by decide +kernel⟩
      (by decide +kernel) (by decide +kernel)
  have conducted : Guarded storingStep (Conducted t.config 1 (ascii "a"))
      (.launched .f firstLaunch ())
      ((bothRecord ++ .external grownWorld :: cutting) ++ .restart thirdLaunch :: repeating) := by
    rw [guarded_append, guarded_append, run_append]
    exact ⟨⟨conducted_threads (by decide +kernel), hgrown, conducted_threads (by decide +kernel)⟩,
      hrestart, conducted_threads (by decide +kernel)⟩
  have hstored := storedInFront_program Binary.lawful plain_firstLaunch ht (forall_of_all hall ht)
    (by decide) (by decide) (recordOf_firstLaunch _ _) () conducted
  rw [run_append, run_append] at hstored
  exact ⟨t, _, ht, hstored⟩

end ModelRead
