import Logtail.RemoteCall
import Logtail.Retransmission
import Logtail.BatchLedger
import Logtail.Frames

/-!
# The tail thread and the scribe server over a lossy connection

The thread of `ModelRead` with the generated client, a server that runs the
generated processor, and the connection between them. The network may cut the
request or the answer at any byte; what comes later stays on the connection until
`open()` makes a new socket. The server's handler, its base service, other
clients and its restarts are arbitrary.
-/

namespace ModelRead

open Wire FileStream ScribeSend Delivery Thrift Scribe Transitions

/-- How `send` sees the end of `sendClient->Log(messages)`. -/
def outcomeOf : Except Thrown (ResultCode × Bytes) → LogOutcome
  | .ok (code, _) =>
    if code = .OK then .ok
    else if code = .TRY_LATER then .tryLater
    else .otherCode code.value.toInt
  | .error .transportException => .transportException
  | .error _ => .exception

theorem outcomeOf_eq_ok_iff (out : Except Thrown (ResultCode × Bytes)) :
    outcomeOf out = .ok ↔ ∃ rest, out = .ok (.OK, rest) := by
  cases out with
  | ok value =>
    obtain ⟨code, rest⟩ := value
    simp only [outcomeOf]
    by_cases hok : code = .OK
    · simp [hok]
    · by_cases hlater : code = .TRY_LATER <;> simp [hok, hlater]
  | error e => cases e <;> simp [outcomeOf]

/-- The handler says that it has stored the batch. -/
def stores : Except Bytes ResultCode → Bool
  | .ok code => code = .OK
  | .error _ => false

/-- The handler with a record of the batches it has answered with OK. -/
def recording {σ : Type} (iface : Handler σ) : Handler (σ × List (List LogEntry)) :=
  fun state messages =>
    let out := iface state.1 messages
    (out.1, out.2, if stores out.1 then state.2 ++ [messages] else state.2)

structure Server (σ : Type) where
  iface : Handler σ
  /-- the processor of the base service -/
  base : Bytes → Int32 → σ × List (List LogEntry) →
    Thrift.Reading (Answered (σ × List (List LogEntry)))
  /-- what a handler throws fits into an answer -/
  sized : ∀ state messages what, (iface state messages).1 = .error what → Sized what

/-- A message that the processor cannot read ends the connection without an answer. -/
def Server.serve {σ : Type} (srv : Server σ) (P : TProtocol) (state : σ × List (List LogEntry))
    (request : Bytes) : Answered (σ × List (List LogEntry)) :=
  match (process P srv.base (recording srv.iface) state).run request with
  | .ok (answered, _) => answered
  | .error _ => ([], state)

/-- How many bytes of the request reach the server, how many bytes of its answer
arrive before the timeout, and what a failed call leaves on the connection. -/
structure Link where
  request : Nat
  answer : Nat
  left : Bytes

structure Network (σ : Type) where
  thread : State
  server : σ × List (List LogEntry)
  /-- bytes on the current connection that no call has read -/
  inbox : Bytes
  /-- stored batches of which the thread was not told -/
  lost : Nat

/-- The thread is about to call `send`, and the connection is or gets open. -/
def callsLog (s : State) (ans : Answer) : Bool :=
  match s.pc with
  | .logtailFile .sending => s.scribeInter.isOpen || ans.opens
  | .readBackupfile (.sending _ _ _) => s.scribeInter.isOpen || ans.opens
  | _ => false

/-- The thread is about to call `open()` on its own. -/
def callsOpen (s : State) : Bool :=
  match s.pc with
  | .logtailFile .reopening => true
  | .logtailFile (.waiting _ _) => !s.scribeInter.isOpen
  | .readBackupfile (.reopening _ _ _) => true
  | .readBackupfile (.waiting _ _ _) => !s.scribeInter.isOpen
  | _ => false

inductive NetAct (σ : Type) where
  | thread (ans : Answer) (link : Link)
  | external (fs : Fs)
  | server (state : σ)

variable {σ : Type} (P : TProtocol) (srv : Server σ) (m : Config)

namespace Network

/-- The bytes a call finds: `send` opens a new socket if the old one is closed. -/
def unread (w : Network σ) : Bytes := if w.thread.scribeInter.isOpen then w.inbox else []

def answered (w : Network σ) (link : Link) : Answered (σ × List (List LogEntry)) :=
  srv.serve P w.server ((sendLog P w.thread.scribeInter.messages).take link.request)

/-- What the call gives back. -/
def received (w : Network σ) (link : Link) : Except Thrown (ResultCode × Bytes) :=
  (recvLog P).run (w.unread ++ (w.answered P srv link).1.take link.answer)

/-- What is on the connection behind the call. -/
def behind (w : Network σ) (link : Link) : Bytes :=
  match w.received P srv link with
  | .ok (_, rest) => rest ++ (w.answered P srv link).1.drop link.answer
  | .error _ => link.left

def answer (w : Network σ) (ans : Answer) (link : Link) : Answer :=
  { ans with outcome := outcomeOf (w.received P srv link) }

end Network

def netStep (w : Network σ) : NetAct σ → Network σ
  | .thread ans link =>
    if callsLog w.thread ans then
      { thread := step m w.thread (.thread (w.answer P srv ans link))
        server := (w.answered P srv link).2
        inbox := w.behind P srv link
        lost := if (w.answered P srv link).2.2 ≠ w.server.2
            ∧ outcomeOf (w.received P srv link) ≠ .ok then w.lost + 1 else w.lost }
    else
      { w with
        thread := step m w.thread (.thread ans)
        inbox := if callsOpen w.thread then [] else w.inbox }
  | .external fs => { w with thread := step m w.thread (.external fs) }
  | .server state => { w with server := (state, w.server.2) }

/-- What the thread is told: where it calls `Log`, the outcome is that of the call. -/
def Network.told (w : Network σ) (ans : Answer) (link : Link) : Answer :=
  if callsLog w.thread ans then w.answer P srv ans link else ans

/-- What the thread sees of an action. -/
def Network.shown (w : Network σ) : NetAct σ → List Act
  | .thread ans link => [.thread (w.told P srv ans link)]
  | .external fs => [.external fs]
  | .server _ => []

/-- The thread of the network is the thread of the model. -/
theorem thread_netStep (w : Network σ) (a : NetAct σ) :
    (netStep P srv m w a).thread = run (step m) w.thread (w.shown P srv a) := by
  cases a with
  | server state => rfl
  | external fs => rfl
  | thread ans link =>
    simp only [netStep, Network.shown, Network.told]
    split <;> rfl

/-! ## One call -/

variable {P : TProtocol} {srv : Server σ} {m : Config}

/-- An answer takes up room on the connection, so silence is no answer. -/
theorem recvLog_nil (lawful : P.Lawful) : ∃ e, (recvLog P).run [] = .error e := by
  have hok := reads_recvLog lawful 0 .OK ()
  have hlater := reads_recvLog lawful 0 .TRY_LATER ()
  exact Reads.cut_off (w := []) hok (hok.ne_nil hlater (by decide))

/-- A request that is cut off does not reach the handler and gets no answer. -/
theorem serve_cut (lawful : P.Lawful) (srv : Server σ) {messages : List LogEntry}
    (h : Sendable messages) (state : σ × List (List LogEntry)) {n : Nat}
    (hn : n < (sendLog P messages).length) :
    srv.serve P state ((sendLog P messages).take n) = ([], state) := by
  obtain ⟨e, he⟩ := (reads_process lawful srv.base (recording srv.iface) h state).take hn
  simp only [Server.serve, he]

theorem serve_whole (lawful : P.Lawful) (srv : Server σ) {messages : List LogEntry}
    (h : Sendable messages) (state : σ × List (List LogEntry)) {n : Nat}
    (hn : (sendLog P messages).length ≤ n) :
    srv.serve P state ((sendLog P messages).take n)
      = respond P 0 (recording srv.iface state messages) := by
  have hwhole := reads_process lawful srv.base (recording srv.iface) h state
  rw [List.take_of_length_le hn]
  simp only [Server.serve]
  rw [hwhole]

/-- What one call can do to the store and to the connection. -/
inductive Exchange (P : TProtocol) (srv : Server σ) (w : Network σ) (link : Link) : Prop where
  | dropped (store : (w.answered P srv link).2.2 = w.server.2)
      (failed : outcomeOf (w.received P srv link) ≠ .ok)
  | unanswered (store : (w.answered P srv link).2.2 = w.server.2 ++ [w.thread.scribeInter.messages])
      (failed : outcomeOf (w.received P srv link) ≠ .ok)
  | answered (store : (w.answered P srv link).2.2 = w.server.2 ++ [w.thread.scribeInter.messages])
      (ok : outcomeOf (w.received P srv link) = .ok) (behind : w.behind P srv link = [])

theorem outcomeOf_error_ne_ok (e : Thrown) : outcomeOf (.error e) ≠ .ok := by
  cases e <;> simp [outcomeOf]

theorem exchange_cases (lawful : P.Lawful) (srv : Server σ) {w : Network σ}
    (h : Sendable w.thread.scribeInter.messages) (hunread : w.unread = []) (link : Link) :
    Exchange P srv w link := by
  rcases Nat.lt_or_ge link.request (sendLog P w.thread.scribeInter.messages).length with hn | hn
  · have hserve := serve_cut lawful srv h w.server hn
    obtain ⟨e, he⟩ := recvLog_nil lawful
    refine .dropped ?_ ?_
    · simp only [Network.answered, hserve]
    · simp only [Network.received, Network.answered, hserve, hunread, List.take_nil,
        List.append_nil, he]
      exact outcomeOf_error_ne_ok e
  · have hserve := serve_whole lawful srv h w.server hn
    have hanswered : w.answered P srv link
        = respond P 0 (recording srv.iface w.server w.thread.scribeInter.messages) := hserve
    have hreceived : w.received P srv link = (recvLog P).run
        ((respond P 0 (recording srv.iface w.server w.thread.scribeInter.messages)).1.take
          link.answer) := by
      simp only [Network.received, hunread, List.nil_append, hanswered]
    have hstore : (w.answered P srv link).2.2
        = if stores (srv.iface w.server.1 w.thread.scribeInter.messages).1 then
            w.server.2 ++ [w.thread.scribeInter.messages] else w.server.2 := by
      rw [hanswered, respond_state]
      rfl
    rcases recvLog_take lawful (srv.sized w.server.1 w.thread.scribeInter.messages)
      (recording srv.iface w.server w.thread.scribeInter.messages).2 link.answer with
      ⟨e, he⟩ | ⟨code, hcode, hlen, hread⟩
    · have hfailed : outcomeOf (w.received P srv link) ≠ .ok := by
        rw [hreceived]
        exact (congrArg outcomeOf he).trans_ne (outcomeOf_error_ne_ok e)
      split at hstore
      · exact .unanswered hstore hfailed
      · exact .dropped hstore hfailed
    · have hout : w.received P srv link = .ok (code, []) := hreceived.trans hread
      rw [hcode] at hstore
      by_cases hok : code = .OK
      · subst hok
        refine .answered (by simpa [stores] using hstore) ?_ ?_
        · rw [hout]
          rfl
        · have hdrop : (w.answered P srv link).1.drop link.answer = [] := by
            rw [hanswered]
            exact List.drop_eq_nil_of_le hlen
          simp only [Network.behind, hout, hdrop, List.append_nil]
      · refine .dropped (by simpa [stores, hok] using hstore) ?_
        rw [hout, ne_eq, outcomeOf_eq_ok_iff]
        rintro ⟨rest, hrest⟩
        cases hrest
        exact hok rfl

/-! ## Steps without a call -/

theorem send_without_call {c : Client} {ans : Answer} (h : (c.isOpen || ans.opens) = false) :
    c.send ans = (.connFatal, c.reopened ans, none) := by
  unfold Client.send
  rw [h]
  rfl

/-- Without a call the store is not touched, and the offers go on. -/
theorem shows_without_call {o : Offers LogEntry} {s : State} (h : Shows o.ledger s) {ans : Answer}
    (hcall : callsLog s ans = false) :
    ∃ o' : Offers LogEntry,
      Shows o'.ledger (step m s (.thread ans)) ∧ o'.kept = o.kept ∧ o'.lost = o.lost := by
  cases thread_works m ans s with
  | quiet pushed acked pending =>
    exact ⟨o, ⟨pushed.trans h.pushed, acked.trans h.acked, pending.trans h.pending⟩, rfl, rfl⟩
  | queues le _ pushed acked pending =>
    refine ⟨o.push le, ⟨?_, acked.trans h.acked, ?_⟩, rfl, rfl⟩
    · exact pushed.trans (congrArg (· ++ [le]) h.pushed)
    · exact pending.trans (congrArg (· ++ [le]) h.pending)
  | clears sending ok _ _ _ =>
    -- CONN_OK comes of a call only
    exfalso
    have hopen : (s.scribeInter.isOpen || ans.opens) = false := by
      unfold Sending at sending
      split at sending
      · rename_i hpc
        simpa only [callsLog, hpc] using hcall
      · rename_i hpc
        simpa only [callsLog, hpc] using hcall
      · exact sending.elim
    rw [send_without_call hopen] at ok
    cases ok

/-! ## Steps with a call -/

/-- The next step closes the connection and opens another. -/
def Reopening : Pc → Prop
  | .logtailFile .reopening => True
  | .readBackupfile (.reopening _ _ _) => True
  | _ => False

theorem send_with_call {c : Client} {ans : Answer} (h : (c.isOpen || ans.opens) = true) :
    (c.send ans).1 = ans.outcome.connCode := by
  unfold Client.send
  rw [h]
  rfl

theorem step_of_sent {s : State} {ans : Answer} (h : (s.scribeInter.isOpen || ans.opens) = true)
    (failed done : Pc) :
    (if (s.scribeInter.send ans).1 = .connFatal ∨ (s.scribeInter.send ans).1 = .connTransient then
        (s.send ans).goto failed else (s.send ans).clear.goto done)
      = if ans.outcome = .ok then (s.send ans).clear.goto done else (s.send ans).goto failed := by
  rw [send_with_call h]
  cases ans.outcome <;> simp [LogOutcome.connCode]

/-- Both callers clear the batch behind OK and reopen the connection otherwise. -/
theorem step_of_callsLog {s : State} {ans : Answer} (h : callsLog s ans = true) :
    ∃ failed done, Reopening failed ∧ step m s (.thread ans)
      = if ans.outcome = .ok then (s.send ans).clear.goto done else (s.send ans).goto failed := by
  unfold callsLog at h
  split at h
  · rename_i hpc
    refine ⟨.logtailFile .reopening, .logtailFile .polling, trivial, ?_⟩
    simp only [step, thread_logtailFile m _ hpc, logtailFile]
    exact step_of_sent h _ _
  · rename_i lastmsg tM allNum hpc
    refine ⟨.readBackupfile (.reopening lastmsg tM allNum),
      .readBackupfile (.splitting lastmsg tM allNum), trivial, ?_⟩
    simp only [step, thread_readBackupfile m _ hpc, readBackupfile]
    exact step_of_sent h _ _
  · cases h

theorem connCode_of_callsLog {s : State} {ans : Answer} (h : callsLog s ans = true) :
    (s.scribeInter.send ans).1 = ans.outcome.connCode := by
  unfold callsLog at h
  split at h
  · exact send_with_call h
  · exact send_with_call h
  · cases h

theorem not_reopening_of_callsLog {s : State} {ans : Answer} (h : callsLog s ans = true) :
    ¬ Reopening s.pc := by
  unfold callsLog at h
  split at h
  · rename_i hpc
    rw [hpc]
    exact id
  · rename_i hpc
    rw [hpc]
    exact id
  · cases h

theorem callsOpen_of_reopening {s : State} (h : Reopening s.pc) : callsOpen s = true := by
  unfold Reopening at h
  split at h
  · rename_i hpc
    simp only [callsOpen, hpc]
  · rename_i hpc
    simp only [callsOpen, hpc]
  · exact h.elim

/-- What a run of the network keeps: behind the batches of earlier threads the store
holds the offers of this one, the thread shows their ledger, and only a connection
that is about to be replaced has bytes on it. -/
structure Conveys (earlier : List (List LogEntry)) (missed : Nat) (o : Offers LogEntry)
    (w : Network σ) : Prop where
  shows : Shows o.ledger w.thread
  kept : w.server.2 = earlier ++ o.kept
  lost : w.lost = missed + o.lost
  inbox : w.inbox ≠ [] → Reopening w.thread.pc

/-- Each batch that the thread sends fits the wire format. -/
def Sends (w : Network σ) : NetAct σ → Prop
  | .thread ans _ => callsLog w.thread ans = true → Sendable w.thread.scribeInter.messages
  | _ => True

instance (w : Network σ) (a : NetAct σ) : Decidable (Sends w a) :=
  match a with
  | .thread _ _ => inferInstanceAs (Decidable (_ = true → _))
  | .external _ => isTrue trivial
  | .server _ => isTrue trivial

theorem Conveys.unread {earlier : List (List LogEntry)} {missed : Nat} {o : Offers LogEntry}
    {w : Network σ} (h : Conveys earlier missed o w)
    (hpc : ¬ Reopening w.thread.pc) : w.unread = [] := by
  have hinbox : w.inbox = [] := by
    by_contra hne
    exact hpc (h.inbox hne)
  unfold Network.unread
  rw [hinbox]
  split <;> rfl

/-- Without earlier threads the store is what the offers keep. -/
theorem Conveys.first {o : Offers LogEntry} {w : Network σ} (h : Conveys [] 0 o w) :
    w.server.2 = o.kept ∧ w.lost = o.lost :=
  ⟨h.kept, h.lost.trans (Nat.zero_add _)⟩

/-- A call as the ledger of the thread sees it. -/
theorem shows_call {o : Offers LogEntry} {s : State} (h : Shows o.ledger s) {ans : Answer}
    (hcall : callsLog s ans = true) :
    (ans.outcome = .ok → Shows o.takeAnswered.ledger (step m s (.thread ans))) ∧
      (ans.outcome ≠ .ok →
        Shows o.ledger (step m s (.thread ans)) ∧ Reopening (step m s (.thread ans)).pc) := by
  obtain ⟨failed, done, hfailed, hstep⟩ := step_of_callsLog (m := m) hcall
  have hcode := connCode_of_callsLog hcall
  constructor
  · intro hok
    rw [hstep, if_pos hok]
    exact shows_goto (shows_send_clear h (hcode.trans (by rw [hok]; rfl))) done
  · intro hne
    rw [hstep, if_neg hne]
    refine ⟨shows_goto (shows_send_failed h ?_) failed, hfailed⟩
    rw [hcode, ne_eq, connCode_eq_connOk_iff]
    exact hne

section

variable {earlier : List (List LogEntry)} {missed : Nat} {o : Offers LogEntry} {w : Network σ}

theorem conveys_call (lawful : P.Lawful) (srv : Server σ) (m : Config)
    (h : Conveys earlier missed o w) {ans : Answer} (link : Link)
    (hcall : callsLog w.thread ans = true)
    (hsendable : Sendable w.thread.scribeInter.messages) :
    ∃ o', Conveys earlier missed o' (netStep P srv m w (.thread ans link)) := by
  have hunread := h.unread (not_reopening_of_callsLog hcall)
  have hpending := h.shows.pending
  have hcall' : callsLog w.thread (w.answer P srv ans link) = true := hcall
  obtain ⟨hdone, hfails⟩ := shows_call (m := m) h.shows hcall'
  simp only [netStep, hcall, if_true]
  rcases exchange_cases lawful srv hsendable hunread link with
    ⟨hstore, hne⟩ | ⟨hstore, hne⟩ | ⟨hstore, hok, hbehind⟩
  · obtain ⟨hshows, hpc⟩ := hfails hne
    exact ⟨o, hshows, hstore.trans h.kept, by simp [hstore, h.lost], fun _ => hpc⟩
  · obtain ⟨hshows, hpc⟩ := hfails hne
    refine ⟨o.takeUnanswered, hshows, ?_, ?_, fun _ => hpc⟩
    · rw [hstore, h.kept, hpending, Offers.kept_takeUnanswered, List.append_assoc]
    · simp [hstore, hne, h.lost, Nat.add_assoc]
  · refine ⟨o.takeAnswered, hdone hok, ?_, ?_, fun hne => absurd hbehind hne⟩
    · rw [hstore, h.kept, hpending, Offers.kept_takeAnswered, List.append_assoc]
    · simp [hok, h.lost]

theorem conveys_step (lawful : P.Lawful) (srv : Server σ) (m : Config)
    (h : Conveys earlier missed o w) (a : NetAct σ) (hsends : Sends w a) :
    ∃ o', Conveys earlier missed o' (netStep P srv m w a) := by
  cases a with
  | server state => exact ⟨o, h.shows, h.kept, h.lost, h.inbox⟩
  | external fs => exact ⟨o, shows_kept h.shows rfl rfl, h.kept, h.lost, h.inbox⟩
  | thread ans link =>
    cases hcall : callsLog w.thread ans with
    | true => exact conveys_call lawful srv m h link hcall (hsends hcall)
    | false =>
      obtain ⟨o', hshows, hkept, hlost⟩ := shows_without_call (m := m) h.shows hcall
      refine ⟨o', ?_⟩
      simp only [netStep, hcall, Bool.false_eq_true, if_false]
      refine ⟨hshows, h.kept.trans (by rw [hkept]), h.lost.trans (by rw [hlost]), ?_⟩
      intro hne
      by_cases hreopen : Reopening w.thread.pc
      · rw [callsOpen_of_reopening hreopen] at hne
        exact absurd rfl hne
      · have hinbox : w.inbox = [] := by
          by_contra hbytes
          exact hreopen (h.inbox hbytes)
        rw [hinbox] at hne
        simp at hne

/-- The network at the start of the tail loop. -/
def Network.started (fs : Fs) (checkpoint : Option Bytes) (position : Int) (oStat : Stat)
    (connected : Bool) (state : σ) : Network σ where
  thread := ModelRead.started fs checkpoint position oStat connected
  server := (state, [])
  inbox := []
  lost := 0

theorem conveys_started (fs : Fs) (checkpoint : Option Bytes) (position : Int) (oStat : Stat)
    (connected : Bool) (state : σ) :
    Conveys [] 0 Offers.empty (Network.started fs checkpoint position oStat connected state) where
  shows := ⟨rfl, rfl, rfl⟩
  kept := rfl
  lost := rfl
  inbox hne := absurd rfl hne

theorem conveys_run (lawful : P.Lawful) (srv : Server σ) (m : Config)
    (h : Conveys earlier missed o w) {acts : List (NetAct σ)}
    (hsends : Guarded (netStep P srv m) Sends w acts) :
    ∃ o', Conveys earlier missed o' (run (netStep P srv m) w acts) :=
  invariant_run (I := fun w => ∃ o, Conveys earlier missed o w)
    (fun _ a ⟨_, hw⟩ ha => conveys_step lawful srv m hw a ha) ⟨o, h⟩ hsends

end

end ModelRead
