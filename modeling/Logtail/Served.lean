import Logtail.Lifetimes
import Logtail.StoredLines
import Mathlib.Data.List.Flatten

/-!
# Many lives on a lossy connection

The connection ends with its process, and the server stays. Whatever a life was told
to be stored is in the store, so it covers the lines of all lives.
-/

namespace ModelRead

open Framing FileStream ScribeSend Delivery Thrift Scribe Transitions Coverage

/-- The lives of a thread, the server that the present one sends to, and the batches
that all of them have stored. -/
structure Served (σ : Type) where
  srv : Server σ
  lives : Lives
  server : σ × List (List LogEntry)
  inbox : Bytes
  lost : Nat

inductive ServedAct (σ : Type) where
  | net (a : NetAct σ)
  | kill
  /-- a start with `-r`, which may find another server -/
  | start (srv : Server σ) (config : Config) (garbage position : Int) (connected : Bool)

variable {σ : Type}

namespace Served

def network (w : Served σ) : Network σ := ⟨w.lives.thread, w.server, w.inbox, w.lost⟩

/-- An action of the network, and what the thread sees of it. -/
def transfer (P : TProtocol) (w : Served σ) (a : NetAct σ) : Served σ :=
  let n := netStep P w.srv w.lives.config w.network a
  { w with
    lives := run lifeStep w.lives ((w.network.shown P w.srv a).map .act)
    server := n.server
    inbox := n.inbox
    lost := n.lost }

end Served

/-- A call that a kill interrupts is one whose answer is lost. -/
def servedStep (P : TProtocol) (w : Served σ) : ServedAct σ → Served σ
  | .net (.thread ans link) => if w.lives.running then w.transfer P (.thread ans link) else w
  | .net (.external fs) => w.transfer P (.external fs)
  | .net (.server state) => w.transfer P (.server state)
  | .kill => { w with lives := lifeStep w.lives .kill, inbox := [] }
  | .start srv config garbage position connected =>
    if w.lives.running then w
    else
      { w with
        srv := srv
        lives := lifeStep w.lives (.start config garbage position connected)
        inbox := [] }

/-- The batches that are sent fit the wire format, and each life goes by its rule. -/
def ServedRule (m : Config) (ino : Nat) (w : Served σ) : ServedAct σ → Prop
  | .net (.thread ans link) => Sends w.network (.thread ans link)
  | .net (.external fs) => LifeRule m ino w.lives (.act (.external fs))
  | .net (.server _) => True
  | .kill => True
  | .start _ config garbage position connected =>
    LifeRule m ino w.lives (.start config garbage position connected)

variable {P : TProtocol} {m : Config} {ino first : Nat} {w : Served σ}

/-- The network goes on as on its own, or nothing happens because no process runs. -/
theorem network_servedStep (w : Served σ) (a : NetAct σ) :
    servedStep P w (.net a) = w ∨
      (servedStep P w (.net a)).network = netStep P w.srv w.lives.config w.network a ∧
        (servedStep P w (.net a)).lives.sent = w.lives.sent := by
  cases a with
  | server state => exact Or.inr ⟨rfl, rfl⟩
  | external fs => exact Or.inr ⟨rfl, rfl⟩
  | thread ans link =>
    by_cases hrunning : w.lives.running
    · refine Or.inr ⟨?_, ?_⟩
      · have hthread := thread_netStep P w.srv w.lives.config w.network (.thread ans link)
        simp only [Network.shown, run_cons, run_nil] at hthread
        simp only [servedStep, if_pos hrunning, Served.transfer, Served.network, Network.shown,
          List.map_cons, List.map_nil, run_cons, run_nil, lifeStep]
        exact congrArg (fun s =>
          { netStep P w.srv w.lives.config w.network (.thread ans link) with thread := s })
          hthread.symm
      · simp only [servedStep, if_pos hrunning, Served.transfer, Network.shown, List.map_cons,
          List.map_nil, run_cons, run_nil, lifeStep]
    · left
      simp only [servedStep, if_neg hrunning]

/-- The invariant: the store begins with what the earlier lives have stored, and that
holds all they were told of. -/
structure Serving (m : Config) (ino first : Nat) (before : Bytes) (earlier : List (List LogEntry))
    (w : Served σ) : Prop where
  surviving : Surviving m ino first before w.lives
  conveys : ∃ missed o, Conveys earlier missed o w.network
  sent : w.lives.sent.Sublist earlier.flatten

section

variable {before : Bytes} {earlier : List (List LogEntry)}

theorem surviving_net (path : m.path ≠ []) (h : Surviving m ino first before w.lives)
    {a : NetAct σ} (rule : ServedRule m ino w (.net a)) :
    Surviving m ino first before (servedStep P w (.net a)).lives := by
  cases a with
  | server state => exact h
  | external fs => exact surviving_external h rule
  | thread ans link =>
    simp only [servedStep]
    split
    · exact surviving_thread path h _
    · exact h

theorem serving_net (lawful : P.Lawful) (path : m.path ≠ [])
    (h : Serving m ino first before earlier w) {a : NetAct σ}
    (rule : ServedRule m ino w (.net a)) :
    Serving m ino first before earlier (servedStep P w (.net a)) := by
  have hsurviving : Surviving m ino first before (servedStep P w (.net a)).lives :=
    surviving_net path h.surviving rule
  have hsends : Sends w.network a := by
    cases a with
    | thread ans link => exact rule
    | external fs => trivial
    | server state => trivial
  rcases network_servedStep (P := P) w a with hw | ⟨hnetwork, hsent⟩
  · rw [hw]
    exact h
  obtain ⟨missed, o, ho⟩ := h.conveys
  refine ⟨hsurviving, ?_, ?_⟩
  · rw [hnetwork]
    exact ⟨missed, conveys_step lawful w.srv w.lives.config ho a hsends⟩
  · rw [hsent]
    exact h.sent

/-- What the present life was told of is in the store. -/
theorem Serving.acked (h : Serving m ino first before earlier w) :
    (w.lives.sent ++ w.lives.thread.acked.flatten).Sublist w.server.2.flatten := by
  obtain ⟨missed, o, ho⟩ := h.conveys
  have hacked : w.lives.thread.acked.Sublist o.kept := by
    have hshown : w.lives.thread.acked = o.ledger.acked := ho.shows.acked
    rw [hshown]
    exact o.acked_sublist_kept
  have hkept : w.server.2 = earlier ++ o.kept := ho.kept
  rw [hkept, List.flatten_append]
  exact h.sent.append hacked.flatten

/-- A kill closes the connection. -/
theorem serving_kill (h : Serving m ino first before earlier w) :
    Serving m ino first before earlier (servedStep P w .kill) := by
  obtain ⟨missed, o, ho⟩ := h.conveys
  exact ⟨surviving_kill h.surviving, ⟨missed, o, ho.shows, ho.kept, ho.lost,
    fun hne => absurd rfl hne⟩, h.sent⟩

theorem started_of_restart {config : Config} {garbage position : Int} {fs : Fs}
    {checkpoint : Option Bytes} {connected : Bool} {s : State}
    (h : restart config garbage position fs checkpoint connected = some s) :
    ∃ position' oStat, s = started fs checkpoint position' oStat connected := by
  simp only [restart, Option.bind_eq_bind, Option.bind_eq_some_iff] at h
  obtain ⟨mCheckpoint, -, p, -, hs⟩ := h
  exact ⟨p.1, p.2, (Option.some.inj hs).symm⟩

theorem serving_start (h : Serving m ino first before earlier w)
    (srv : Server σ) (config : Config) (garbage position : Int) (connected : Bool)
    (rule : ServedRule m ino w (.start srv config garbage position connected)) :
    ∃ before' earlier', Serving m ino first before' earlier'
      (servedStep P w (.start srv config garbage position connected)) := by
  simp only [servedStep]
  split
  · exact ⟨before, earlier, h⟩
  obtain ⟨before', hsurviving⟩ :=
    surviving_start h.surviving config garbage position connected rule
  rcases lifeStep_start w.lives config garbage position connected with hw | ⟨s, hs, hw⟩
  · rw [hw] at hsurviving ⊢
    obtain ⟨missed, o, ho⟩ := h.conveys
    exact ⟨before', earlier, hsurviving,
      ⟨missed, o, ho.shows, ho.kept, ho.lost, fun hne => absurd rfl hne⟩, h.sent⟩
  · rw [hw] at hsurviving ⊢
    obtain ⟨position', oStat, rfl⟩ := started_of_restart hs
    refine ⟨before', w.server.2, hsurviving, ⟨w.lost, Offers.empty, ⟨rfl, rfl, rfl⟩, ?_, rfl, ?_⟩,
      h.acked⟩
    · simp [Served.network, Offers.empty, Offers.kept]
    · exact fun hne => absurd rfl hne

end

theorem serving_step (lawful : P.Lawful) (path : m.path ≠ [])
    (h : ∃ before earlier, Serving m ino first before earlier w) (a : ServedAct σ)
    (rule : ServedRule m ino w a) :
    ∃ before earlier, Serving m ino first before earlier (servedStep P w a) := by
  obtain ⟨before, earlier, h⟩ := h
  cases a with
  | net a => exact ⟨before, earlier, serving_net lawful path h rule⟩
  | kill => exact ⟨before, earlier, serving_kill h⟩
  | start srv config garbage position connected =>
    exact serving_start h srv config garbage position connected rule

/-- All lines in front of the read position are in the store or wait in the batch,
except at most the skipped ones. -/
def StoredInFront (m : Config) (ino first : Nat) (w : Served σ) : Prop :=
  ∃ front, front <+: (w.lives.thread.fs.file ino).drop first ∧ Terminated newline front ∧
    w.lives.thread.position = first + front.length ∧
      AllBut w.lives.skipped ((records newline front).map (liveEntry m))
        (w.server.2.flatten ++ w.lives.thread.scribeInter.messages)

theorem Serving.storedInFront {before : Bytes} {earlier : List (List LogEntry)}
    (h : Serving m ino first before earlier w) : StoredInFront m ino first w := by
  obtain ⟨front, hfront, hterm, hposition, hall⟩ := h.surviving.coversLines
  refine ⟨front, hfront, hterm, hposition, hall.mono ?_⟩
  rw [(balanced_iff _).mp h.surviving.balanced, ← List.append_assoc]
  exact h.acked.append (List.Sublist.refl _)

/-- The first process, with nothing stored. -/
def Served.fresh (srv : Server σ) (lives : Lives) (state : σ) : Served σ :=
  ⟨srv, lives, (state, []), [], 0⟩

theorem serving_fresh (srv : Server σ) (m : Config) {fs : Fs} {size : Nat}
    (opened : Opened fs ino first size) (lines : Terminated newline (fs.file ino))
    (small : (fs.file ino).length < 2 ^ 63) {checkpoint : Option Bytes}
    (old : RecordOf m (· = first) checkpoint) (connected : Bool) (state : σ) :
    Serving m ino first [] []
      (Served.fresh srv (Lives.started m fs checkpoint first ⟨ino, size⟩ connected) state) where
  surviving := surviving_started m opened lines small old connected
  conveys := ⟨0, Offers.empty, conveys_started fs checkpoint first ⟨ino, size⟩ connected state⟩
  sent := List.Sublist.refl []

end ModelRead
