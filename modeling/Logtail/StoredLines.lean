import Logtail.LossyLink
import Logtail.Draining
import Logtail.Startup
import Logtail.TBinaryProtocol

/-!
# What the server has stored

The main results on the thread, the wire and the server together: every
acknowledged batch is stored, a second copy comes from a lost answer only, no
call takes the answer of another call, and what is stored are lines of the log
file in their order.
-/

namespace ModelRead

open Framing FileStream ScribeSend Delivery Thrift Scribe Transitions Inevitability

variable {σ : Type} {P : TProtocol} {srv : Server σ} {m : Config}

/-- The acknowledged batches are in the store in their order. Everything else in
the store is an earlier copy: the copies of a batch come before it, each
continuing the one before, and there is one for each lost answer. -/
structure AtLeastOnce (w : Network σ) : Prop where
  acked : w.thread.acked.Sublist w.server.2
  count : w.server.2.length = w.thread.acked.length + w.lost
  groups : ∃ (stored : List (Stored LogEntry)) (copies : List (List LogEntry)),
    w.thread.acked = stored.map Stored.batch ∧
      w.server.2 = stored.flatMap Stored.group ++ copies ∧
      Growing (copies ++ [w.thread.scribeInter.messages])

theorem Conveys.atLeastOnce {o : Offers LogEntry} {w : Network σ} (h : Conveys [] 0 o w) :
    AtLeastOnce w where
  acked := by
    rw [h.shows.acked, h.kept]
    exact o.acked_sublist_kept
  count := by
    rw [h.shows.acked, h.first.1, h.first.2]
    exact o.length_kept
  groups := by
    refine ⟨o.stored, o.copies, h.shows.acked.trans o.acked, h.kept, ?_⟩
    rw [h.shows.pending]
    exact o.growing

/-- For every lawful protocol, server, start and run, with the request or the
answer of every call cut anywhere. -/
theorem atLeastOnce_run (lawful : P.Lawful) (srv : Server σ) (m : Config) (fs : Fs)
    (checkpoint : Option Bytes) (position : Int) (oStat : Stat) (connected : Bool) (state : σ)
    {acts : List (NetAct σ)}
    (hsends : Guarded (netStep P srv m) Sends
      (Network.started fs checkpoint position oStat connected state) acts) :
    Always (netStep P srv m) AtLeastOnce
      (Network.started fs checkpoint position oStat connected state) acts := by
  apply always_mono (P := fun w => ∃ o, Conveys [] 0 o w)
  · rintro w ⟨o, h⟩
    exact h.atLeastOnce
  · exact invariant_always (fun _ a ⟨_, h⟩ ha => conveys_step lawful srv m h a ha)
      ⟨_, conveys_started fs checkpoint position oStat connected state⟩ hsends

/-- The store holds every queued record exactly once, up to the pending batch, if
and only if no answer to a stored batch was lost. -/
theorem exactlyOnce_iff (lawful : P.Lawful) (srv : Server σ) (m : Config) (fs : Fs)
    (checkpoint : Option Bytes) (position : Int) (oStat : Stat) (connected : Bool) (state : σ)
    {acts : List (NetAct σ)}
    (hsends : Guarded (netStep P srv m) Sends
      (Network.started fs checkpoint position oStat connected state) acts) :
    let w :=
      run (netStep P srv m) (Network.started fs checkpoint position oStat connected state) acts
    (w.server.2 = w.thread.acked ↔ w.lost = 0) ∧
      (w.lost = 0 → w.thread.pushed = w.server.2.flatten ++ w.thread.scribeInter.messages) := by
  obtain ⟨o, h⟩ := conveys_run lawful srv m
    (conveys_started fs checkpoint position oStat connected state) hsends
  have hiff := o.kept_eq_acked_iff
  rw [← h.first.1, ← h.first.2, ← h.shows.acked] at hiff
  refine ⟨hiff, ?_⟩
  intro hlost
  rw [hiff.mpr hlost]
  exact (balanced_iff _).mp ⟨o.ledger, h.shows⟩

/-- A call reads its own answer: nothing of an earlier call is left on the
connection, and OK means that the server has stored this batch in this call. -/
def OwnAnswer (P : TProtocol) (srv : Server σ) (w : Network σ) : NetAct σ → Prop
  | .thread ans link => callsLog w.thread ans = true →
    w.unread = [] ∧
      (outcomeOf (w.received P srv link) = .ok →
        (w.answered P srv link).2.2 = w.server.2 ++ [w.thread.scribeInter.messages])
  | _ => True

theorem ownAnswer_run (lawful : P.Lawful) (srv : Server σ) (m : Config) (fs : Fs)
    (checkpoint : Option Bytes) (position : Int) (oStat : Stat) (connected : Bool) (state : σ)
    {acts : List (NetAct σ)}
    (hsends : Guarded (netStep P srv m) Sends
      (Network.started fs checkpoint position oStat connected state) acts) :
    Guarded (netStep P srv m) (OwnAnswer P srv)
      (Network.started fs checkpoint position oStat connected state) acts := by
  refine guarded_of_invariant (I := fun w => ∃ o, Conveys [] 0 o w) (R := Sends)
    (fun _ a ⟨_, h⟩ ha => conveys_step lawful srv m h a ha) ?_
    ⟨_, conveys_started fs checkpoint position oStat connected state⟩ hsends
  rintro w (ans | fs | state) ⟨o, h⟩ ha
  · rename_i link
    intro hcall
    have hunread := h.unread (not_reopening_of_callsLog hcall)
    refine ⟨hunread, ?_⟩
    intro hok
    rcases exchange_cases lawful srv (ha hcall) hunread link with
      ⟨-, hne⟩ | ⟨hstore, -⟩ | ⟨hstore, -, -⟩
    · exact absurd hok hne
    · exact hstore
    · exact hstore
  · trivial
  · trivial

/-! ## Lines of the log file -/

/-- Whole lines are appended to the log file; nothing else happens to it. -/
def NetAppends (ino : Nat) (w : Network σ) : NetAct σ → Prop
  | .external fs => Appends (Terminated newline) ino w.thread (.external fs)
  | _ => True

theorem lined_netStep {ino start : Nat} {w : Network σ} {a : NetAct σ}
    (h : Lined m ino start w.thread) (appends : NetAppends ino w a) :
    Lined m ino start (netStep P srv m w a).thread := by
  rw [thread_netStep]
  cases a with
  | server state => exact h
  | external fs => exact lined_step (a := .external fs) h appends
  | thread ans link => exact lined_step (a := .thread _) h trivial

theorem linesOf_threadStep {ino start : Nat} (w : Network σ) (ans : Answer) (link : Link) :
    linesOf m ino start (netStep P srv m w (.thread ans link)).thread
      = linesOf m ino start w.thread := by
  rw [thread_netStep, linesOf, linesOf]
  simp only [Network.shown, run_cons, run_nil, step, thread_fs]

theorem mem_kept_cases {o : Offers LogEntry} {batch : List LogEntry} (h : batch ∈ o.kept) :
    ∃ whole, (whole ∈ o.ledger.acked ∨ whole = o.ledger.pending) ∧ batch <+: whole := by
  rcases List.mem_append.mp h with hgroup | hcopy
  · obtain ⟨b, hb, hbatch⟩ := List.mem_flatMap.mp hgroup
    refine ⟨b.batch, Or.inl ?_, ?_⟩
    · rw [o.acked]
      exact List.mem_map_of_mem hb
    · rcases List.mem_append.mp hbatch with hcopy | hlast
      · exact (List.pairwise_append.mp b.growing).2.2 batch hcopy b.batch List.mem_cons_self
      · cases List.mem_singleton.mp hlast
        exact List.prefix_refl _
  · exact ⟨o.ledger.pending, Or.inr rfl,
      (List.pairwise_append.mp o.growing).2.2 batch hcopy o.ledger.pending List.mem_cons_self⟩

/-- Everything in the store is a piece of what was queued. -/
theorem Conveys.infix_pushed {o : Offers LogEntry} {w : Network σ} (h : Conveys [] 0 o w)
    {batch : List LogEntry} (hbatch : batch ∈ w.server.2) : batch <:+: w.thread.pushed := by
  rw [h.kept] at hbatch
  obtain ⟨whole, hwhole, hprefix⟩ := mem_kept_cases hbatch
  refine hprefix.isInfix.trans ?_
  rw [h.shows.pushed, o.ledger.balanced]
  rcases hwhole with hacked | rfl
  · obtain ⟨before, behind, hsplit⟩ := List.append_of_mem hacked
    rw [hsplit]
    exact ⟨before.flatten, behind.flatten ++ o.ledger.pending, by simp⟩
  · exact (List.suffix_append _ _).isInfix

/-- On a file to which whole lines are appended: every batch in the store is a run
of consecutive lines, the acknowledged batches are stored in their order, and
together with the pending batch they are the first lines of the file. -/
structure StoresLines (m : Config) (ino start : Nat) (w : Network σ) : Prop where
  batches : ∀ batch ∈ w.server.2, batch <:+: linesOf m ino start w.thread
  acked : w.thread.acked.Sublist w.server.2
  first : w.thread.acked.flatten ++ w.thread.scribeInter.messages <+: linesOf m ino start w.thread

theorem storesLines_of_conveys {o : Offers LogEntry} {w : Network σ} {ino start : Nat}
    (h : Conveys [] 0 o w) (hlined : Lined m ino start w.thread) : StoresLines m ino start w where
  batches batch hbatch := (h.infix_pushed hbatch).trans hlined.tailsOnly.1.isInfix
  acked := h.atLeastOnce.acked
  first := by
    rw [← (balanced_iff _).mp ⟨o.ledger, h.shows⟩]
    exact hlined.tailsOnly.1

theorem sendable_of_lines {ino start : Nat} {w : Network σ} {o : Offers LogEntry}
    (hw : Conveys [] 0 o w) (hlined : Lined m ino start w.thread)
    (hlines : Sendable (linesOf m ino start w.thread)) :
    Sendable w.thread.scribeInter.messages := by
  have hfirst := (storesLines_of_conveys hw hlined).first
  exact hlines.piece ((List.suffix_append _ _).isInfix.trans hfirst.isInfix)

/-- The batches of a file whose lines fit the wire format fit it too. -/
theorem sends_threads (lawful : P.Lawful) {ino start : Nat} :
    ∀ {steps : List (Answer × Link)} {w : Network σ}, (∃ o, Conveys [] 0 o w) →
      Lined m ino start w.thread → Sendable (linesOf m ino start w.thread) →
      Guarded (netStep P srv m) Sends w (steps.map fun s => .thread s.1 s.2)
  | [], _, _, _, _ => trivial
  | (ans, link) :: steps, w, ⟨o, hw⟩, hlined, hlines => by
    have hsendable := sendable_of_lines hw hlined hlines
    refine ⟨fun _ => hsendable, sends_threads lawful ?_ (lined_netStep hlined trivial) ?_⟩
    · exact conveys_step lawful srv m hw (.thread ans link) fun _ => hsendable
    · rwa [linesOf_threadStep]

/-- From the log file to the store, in every state of every run: whatever happens
to the requests and the answers, the store holds lines of the file only, in runs
as they stand there, and all of those that the thread has let go. -/
theorem storesLines_run (lawful : P.Lawful) (srv : Server σ) (m : Config) {fs : Fs}
    {ino start size : Nat} (opened : Opened fs ino start size)
    (lines : Terminated newline (fs.file ino)) (checkpoint : Option Bytes) (connected : Bool)
    (state : σ) {acts : List (NetAct σ)}
    (hsends : Guarded (netStep P srv m) Sends
      (Network.started fs checkpoint start ⟨ino, size⟩ connected state) acts)
    (appends : Guarded (netStep P srv m) (NetAppends ino)
      (Network.started fs checkpoint start ⟨ino, size⟩ connected state) acts) :
    Always (netStep P srv m) (StoresLines m ino start)
      (Network.started fs checkpoint start ⟨ino, size⟩ connected state) acts := by
  apply always_mono (P := fun w => (∃ o, Conveys [] 0 o w) ∧ Lined m ino start w.thread)
  · rintro w ⟨⟨o, h⟩, hlined⟩
    exact storesLines_of_conveys h hlined
  · refine invariant_always ?_ ?_ (guarded_and hsends appends)
    · rintro w a ⟨⟨o, h⟩, hlined⟩ ⟨ha, happends⟩
      exact ⟨conveys_step lawful srv m h a ha, lined_netStep hlined happends⟩
    · exact ⟨⟨_, conveys_started fs checkpoint start ⟨ino, size⟩ connected state⟩,
        lined_started m opened lines checkpoint connected⟩

/-! ## Every line arrives -/

section

variable {ino start : Nat}

end

/-- The server takes every batch. -/
def Server.Accepting (srv : Server σ) : Prop :=
  ∀ state messages, (srv.iface state messages).1 = .ok .OK

section

variable {ino start : Nat} {ans : Answer} {w : Network σ}

end

theorem netAppends_threads {ino : Nat} (steps : List (Answer × Link)) (w : Network σ) :
    Guarded (netStep P srv m) (NetAppends ino) w (steps.map fun s => .thread s.1 s.2) := by
  induction steps generalizing w with
  | nil => trivial
  | cons s steps ih => exact ⟨trivial, ih _⟩

/-- A server that stores everything and knows no other method. -/
def storingServer : Server Unit where
  iface _ _ := (.ok .OK, ())
  base _ _ _ := Wire.Reader.throw .protocolException
  sized _ _ _ h := by cases h

/-- One line in the log file. -/
def sampleNetwork : Network Unit :=
  Network.started (oneFile 1 [97, newline]) none 0 ⟨1, 2⟩ true ()

/-- Of the answer to the first call three bytes arrive, later ones arrive whole. -/
def lossySteps : List (Answer × Link) :=
  List.replicate 14 (allWell 1, ⟨1000, 3, [1, 2]⟩) ++
    List.replicate 10 (allWell 1, ⟨1000, 1000, []⟩)

def lossyActs : List (NetAct Unit) := lossySteps.map fun s => .thread s.1 s.2

theorem sampleNetwork_opened : Opened (oneFile 1 [97, newline]) 1 0 2 :=
  ⟨rfl, Nat.zero_le _, by decide⟩

theorem sampleNetwork_sendable :
    Sendable (linesOf (shortModel .cxx11) 1 0 sampleNetwork.thread) := by
  have hlines : linesOf (shortModel .cxx11) 1 0 sampleNetwork.thread
      = [⟨[99], [61, 97, newline]⟩] := by decide
  rw [hlines]
  exact ⟨by decide, by decide, by decide⟩

theorem sampleNetwork_lined : Lined (shortModel .cxx11) 1 0 sampleNetwork.thread :=
  lined_started _ sampleNetwork_opened (by decide) none true

theorem lossyActs_sends :
    Guarded (netStep Binary.protocol storingServer (shortModel .cxx11)) Sends sampleNetwork
      lossyActs :=
  sends_threads Binary.lawful ⟨_, conveys_started _ none 0 _ true ()⟩ sampleNetwork_lined
    sampleNetwork_sendable

theorem atLeastOnce_lossyActs :
    AtLeastOnce (run (netStep Binary.protocol storingServer (shortModel .cxx11)) sampleNetwork
      lossyActs) :=
  always_last (atLeastOnce_run Binary.lawful storingServer (shortModel .cxx11)
    (oneFile 1 [97, newline]) none 0 ⟨1, 2⟩ true () lossyActs_sends)

/-- The one line is stored twice. -/
theorem not_exactlyOnce_lossyActs :
    let w := run (netStep Binary.protocol storingServer (shortModel .cxx11)) sampleNetwork lossyActs
    w.server.2 ≠ w.thread.acked := by
  intro w hsame
  have hlost : w.lost = 1 := by decide +kernel
  have hiff := (exactlyOnce_iff Binary.lawful storingServer (shortModel .cxx11)
    (oneFile 1 [97, newline]) none 0 ⟨1, 2⟩ true () lossyActs_sends).1
  have hzero : w.lost = 0 := hiff.mp hsame
  omega

theorem ownAnswer_lossyActs :
    Guarded (netStep Binary.protocol storingServer (shortModel .cxx11))
      (OwnAnswer Binary.protocol storingServer) sampleNetwork lossyActs :=
  ownAnswer_run Binary.lawful storingServer (shortModel .cxx11)
    (oneFile 1 [97, newline]) none 0 ⟨1, 2⟩ true () lossyActs_sends

theorem storesLines_lossyActs :
    StoresLines (shortModel .cxx11) 1 0
      (run (netStep Binary.protocol storingServer (shortModel .cxx11)) sampleNetwork lossyActs) :=
  always_last (storesLines_run Binary.lawful storingServer (shortModel .cxx11)
    sampleNetwork_opened (by decide) none true () lossyActs_sends
    (netAppends_threads lossySteps sampleNetwork))

end ModelRead
