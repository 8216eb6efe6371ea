import Mathlib.Data.List.Infix

/-!
# Readers of a byte stream

A reader takes its value from the front of what has arrived. It may only use
what it takes: with more behind the stream it does the same. Both laws are part
of the type, so a value that came off a stream does not depend on how the stream
goes on, and a message that is cut off is not taken for another message.
-/

namespace Wire

structure Reader (α ε β : Type) where
  run : List α → Except ε (β × List α)
  within : ∀ {s b rest}, run s = .ok (b, rest) → rest <:+ s
  stable : ∀ {s b rest}, run s = .ok (b, rest) →
    ∀ more, run (s ++ more) = .ok (b, rest ++ more)

namespace Reader

variable {α ε β γ σ τ : Type}

protected def pure (b : β) : Reader α ε β where
  run s := .ok (b, s)
  within := by
    intro s b rest h
    cases h
    exact List.suffix_refl s
  stable := by
    intro s b rest h more
    cases h
    rfl

protected def bindRun (r : Reader α ε β) (k : β → Reader α ε γ) (s : List α) :
    Except ε (γ × List α) :=
  match r.run s with
  | .ok (b, mid) => (k b).run mid
  | .error e => .error e

theorem bindRun_eq_ok {r : Reader α ε β} {k : β → Reader α ε γ} {s : List α} {c : γ}
    {rest : List α} :
    Reader.bindRun r k s = .ok (c, rest) ↔
      ∃ b mid, r.run s = .ok (b, mid) ∧ (k b).run mid = .ok (c, rest) := by
  unfold Reader.bindRun
  constructor
  · intro h
    split at h
    · rename_i b mid hr
      exact ⟨b, mid, hr, h⟩
    · cases h
  · rintro ⟨b, mid, hr, hk⟩
    simp only [hr, hk]

protected def bind (r : Reader α ε β) (k : β → Reader α ε γ) : Reader α ε γ where
  run := Reader.bindRun r k
  within := by
    intro s c rest h
    obtain ⟨b, mid, hr, hk⟩ := bindRun_eq_ok.mp h
    exact ((k b).within hk).trans (r.within hr)
  stable := by
    intro s c rest h more
    obtain ⟨b, mid, hr, hk⟩ := bindRun_eq_ok.mp h
    exact bindRun_eq_ok.mpr ⟨b, mid ++ more, r.stable hr more, (k b).stable hk more⟩

instance : Monad (Reader α ε) where
  pure := Reader.pure
  bind := Reader.bind

/-- A reader that takes nothing and gives up. -/
def throw (e : ε) : Reader α ε β where
  run _ := .error e
  within := by
    intro s b rest h
    cases h
  stable := by
    intro s b rest h more
    cases h

/-- One symbol, or `e` when the stream has ended. -/
def symbol (e : ε) : Reader α ε α where
  run
    | [] => .error e
    | a :: s => .ok (a, s)
  within := by
    intro s a rest h
    cases s with
    | nil => cases h
    | cons x s =>
      cases h
      exact List.suffix_cons a rest
  stable := by
    intro s a rest h more
    cases s with
    | nil => cases h
    | cons x s =>
      cases h
      rfl

/-- The same reader `n` times, one value behind the other. -/
def times (r : Reader α ε β) : Nat → Reader α ε (List β)
  | 0 => pure []
  | n + 1 => do
    let b ← r
    let bs ← times r n
    pure (b :: bs)

@[simp] theorem pure_run (b : β) (s : List α) :
    (pure b : Reader α ε β).run s = .ok (b, s) := rfl

@[simp] theorem throw_run (e : ε) (s : List α) :
    (throw e : Reader α ε β).run s = .error e := rfl

theorem bind_run (r : Reader α ε β) (k : β → Reader α ε γ) (s : List α) :
    (r >>= k).run s = Reader.bindRun r k s := rfl

theorem bind_run_of_ok {r : Reader α ε β} {s : List α} {b : β} {mid : List α}
    (h : r.run s = .ok (b, mid)) (k : β → Reader α ε γ) :
    (r >>= k).run s = (k b).run mid := by
  simp only [bind_run, Reader.bindRun, h]

theorem bind_run_of_error {r : Reader α ε β} {s : List α} {e : ε} (h : r.run s = .error e)
    (k : β → Reader α ε γ) : (r >>= k).run s = .error e := by
  simp only [bind_run, Reader.bindRun, h]

theorem bind_run_eq_ok {r : Reader α ε β} {k : β → Reader α ε γ} {s : List α} {c : γ}
    {rest : List α} :
    (r >>= k).run s = .ok (c, rest) ↔
      ∃ b mid, r.run s = .ok (b, mid) ∧ (k b).run mid = .ok (c, rest) :=
  bindRun_eq_ok

theorem length_le (r : Reader α ε β) {s : List α} {b : β} {rest : List α}
    (h : r.run s = .ok (b, rest)) : rest.length ≤ s.length :=
  (r.within h).length_le

end Reader

/-! ## What a reader makes of a piece of the stream -/

variable {α ε β γ σ τ : Type}

/-- The reader takes exactly `w` and its value is `b`. -/
def Reads (r : Reader α ε β) (w : List α) (b : β) : Prop := r.run w = .ok (b, [])

theorem Reads.run {r : Reader α ε β} {w : List α} {b : β} (h : Reads r w b) (rest : List α) :
    r.run (w ++ rest) = .ok (b, rest) :=
  r.stable h rest

theorem reads_pure (b : β) : Reads (pure b : Reader α ε β) [] b := rfl

theorem Reads.bind {r : Reader α ε β} {k : β → Reader α ε γ} {w w' : List α} {b : β} {c : γ}
    (h : Reads r w b) (h' : Reads (k b) w' c) : Reads (r >>= k) (w ++ w') c :=
  Reader.bind_run_eq_ok.mpr ⟨b, w', h.run w', h'⟩

/-- The last reader of a sequence only passes its value on. -/
theorem Reads.pass {r : Reader α ε β} {w : List α} {b : β} (h : Reads r w b) (f : β → γ) :
    Reads (r >>= fun b => pure (f b)) w (f b) :=
  Reader.bind_run_eq_ok.mpr ⟨b, [], h, rfl⟩

/-- A stream has one reading: value and extent are determined. -/
theorem Reads.unique {r : Reader α ε β} {w w' rest rest' : List α} {b b' : β} (h : Reads r w b)
    (h' : Reads r w' b') (same : w ++ rest = w' ++ rest') : b = b' ∧ w = w' ∧ rest = rest' := by
  have hrun := h.run rest
  rw [same, h'.run rest'] at hrun
  obtain ⟨rfl, rfl⟩ : b' = b ∧ rest' = rest := by simpa using hrun
  exact ⟨rfl, List.append_cancel_right same, rfl⟩

/-- What a reader takes as a whole it does not accept cut off, not even as
something else. -/
theorem Reads.cut_off {r : Reader α ε β} {w missing : List α} {b : β}
    (h : Reads r (w ++ missing) b) (hmissing : missing ≠ []) : ∃ e, r.run w = .error e := by
  cases hw : r.run w with
  | error e => exact ⟨e, rfl⟩
  | ok out =>
    obtain ⟨b', rest⟩ := out
    have hrun := r.stable hw missing
    rw [h] at hrun
    obtain ⟨_, hrest⟩ : b = b' ∧ [] = rest ++ missing := by simpa using hrun
    exact absurd (List.append_eq_nil_iff.mp hrest.symm).2 hmissing

theorem Reads.take {r : Reader α ε β} {w : List α} {b : β} (h : Reads r w b) {n : Nat}
    (hn : n < w.length) : ∃ e, r.run (w.take n) = .error e := by
  have hmissing : w.drop n ≠ [] := by
    rw [ne_eq, List.drop_eq_nil_iff]
    omega
  rw [← List.take_append_drop n w] at h
  exact h.cut_off hmissing

/-- What is refused as a whole is not accepted cut off either. -/
theorem Reader.take_of_error {r : Reader α ε β} {w : List α} {e : ε} (h : r.run w = .error e)
    (n : Nat) : ∃ e', r.run (w.take n) = .error e' := by
  cases hw : r.run (w.take n) with
  | error e' => exact ⟨e', rfl⟩
  | ok out =>
    obtain ⟨b, rest⟩ := out
    have hwhole := r.stable hw (w.drop n)
    rw [List.take_append_drop, h] at hwhole
    cases hwhole

/-- Two values that can be read take up room on the stream. -/
theorem Reads.ne_nil {r : Reader α ε β} {w w' : List α} {b b' : β} (h : Reads r w b)
    (h' : Reads r w' b') (hne : b ≠ b') : w ≠ [] := by
  rintro rfl
  have hsame : ([] : List α) ++ w' = w' ++ [] := by simp
  exact hne (h.unique h' hsame).1

theorem reads_times {r : Reader α ε β} (write : β → List α) :
    ∀ {bs : List β}, (∀ b ∈ bs, Reads r (write b) b) →
      Reads (r.times bs.length) (bs.flatMap write) bs
  | [], _ => reads_pure []
  | b :: bs, h => by
    have hb := h b List.mem_cons_self
    have hbs := reads_times write fun b' hb' => h b' (List.mem_cons_of_mem b hb')
    exact hb.bind (hbs.pass (List.cons b))

/-! ## Records of tagged fields -/

/-- Reads the header of the next field. `none` ends the record; a tag takes up
room on the stream. -/
structure Head (α ε τ : Type) where
  reader : Reader α ε (Option τ)
  consumes : ∀ {s t rest}, reader.run s = .ok (some t, rest) → rest.length < s.length

namespace Head

/-- The loop over the fields of a record, given up after `n` of them. -/
def rounds (head : Head α ε τ) (body : σ → τ → Reader α ε σ) : Nat → σ → Reader α ε σ
  | 0, st => pure st
  | n + 1, st => do
    match ← head.reader with
    | none => pure st
    | some t =>
      let st' ← body st t
      rounds head body n st'

variable {head : Head α ε τ} {body : σ → τ → Reader α ε σ}

theorem rounds_of_stop {s rest : List α} (h : head.reader.run s = .ok (none, rest)) (n : Nat)
    (st : σ) : (rounds head body (n + 1) st).run s = .ok (st, rest) :=
  Reader.bind_run_of_ok h _

theorem rounds_of_error {s : List α} {e : ε} (h : head.reader.run s = .error e) (n : Nat)
    (st : σ) : (rounds head body (n + 1) st).run s = .error e :=
  Reader.bind_run_of_error h _

theorem rounds_of_field {s rest : List α} {t : τ} (h : head.reader.run s = .ok (some t, rest))
    (n : Nat) (st : σ) :
    (rounds head body (n + 1) st).run s = (body st t >>= rounds head body n).run rest :=
  Reader.bind_run_of_ok h _

/-- A stream has no more fields than symbols, so more rounds change nothing. -/
theorem rounds_enough {n k : Nat} {s : List α} (hn : s.length < n) (hk : s.length < k) (st : σ) :
    (rounds head body n st).run s = (rounds head body k st).run s := by
  induction n generalizing k s st with
  | zero => omega
  | succ n ih =>
    obtain ⟨k, rfl⟩ : ∃ j, k = j + 1 := ⟨k - 1, by omega⟩
    cases hs : head.reader.run s with
    | error e => rw [rounds_of_error hs, rounds_of_error hs]
    | ok out =>
      obtain ⟨t, rest⟩ := out
      cases t with
      | none => rw [rounds_of_stop hs, rounds_of_stop hs]
      | some t =>
        have hrest := head.consumes hs
        rw [rounds_of_field hs, rounds_of_field hs]
        cases hb : (body st t).run rest with
        | error e => rw [Reader.bind_run_of_error hb, Reader.bind_run_of_error hb]
        | ok out =>
          obtain ⟨st', rest'⟩ := out
          have hrest' := Reader.length_le _ hb
          rw [Reader.bind_run_of_ok hb, Reader.bind_run_of_ok hb]
          exact ih (by omega) (by omega) st'

/-- `while (true)` over the fields. The number of rounds is no bound: the loop
obeys the two unfolding laws below. -/
def loop (head : Head α ε τ) (body : σ → τ → Reader α ε σ) (st : σ) : Reader α ε σ where
  run s := (rounds head body (s.length + 1) st).run s
  within h := (rounds head body _ st).within h
  stable := by
    intro s b rest h more
    have hlen : s.length < (s ++ more).length + 1 := by
      rw [List.length_append]
      omega
    rw [rounds_enough (Nat.lt_succ_self _) hlen] at h
    exact (rounds head body _ st).stable h more

theorem loop_of_stop {s rest : List α} (h : head.reader.run s = .ok (none, rest)) (st : σ) :
    (loop head body st).run s = .ok (st, rest) :=
  rounds_of_stop h _ st

theorem loop_of_field {s rest : List α} {t : τ} (h : head.reader.run s = .ok (some t, rest))
    (st : σ) : (loop head body st).run s = (body st t >>= loop head body).run rest := by
  have hrest := head.consumes h
  refine (rounds_of_field h _ st).trans ?_
  cases hb : (body st t).run rest with
  | error e => rw [Reader.bind_run_of_error hb, Reader.bind_run_of_error hb]
  | ok out =>
    obtain ⟨st', rest'⟩ := out
    have hrest' := Reader.length_le _ hb
    rw [Reader.bind_run_of_ok hb, Reader.bind_run_of_ok hb]
    have hn : rest'.length < s.length := by omega
    exact rounds_enough hn (Nat.lt_succ_self rest'.length) st'

end Head

/-- One field as it stands on the stream. -/
structure Field (α τ : Type) where
  header : List α
  tag : τ
  payload : List α

namespace Field

def bytes (f : Field α τ) : List α := f.header ++ f.payload

/-- The loop takes the field and goes from `st` to `st'`. -/
structure Taken (head : Head α ε τ) (body : σ → τ → Reader α ε σ) (st : σ) (f : Field α τ)
    (st' : σ) : Prop where
  header : Reads head.reader f.header (some f.tag)
  payload : Reads (body st f.tag) f.payload st'

end Field

/-- A record written as one field for each `x`, closed by `stop`. -/
theorem Reads.loop {ι : Type} {head : Head α ε τ} {body : σ → τ → Reader α ε σ} {stop : List α}
    (hstop : Reads head.reader stop none) (field : ι → Field α τ) {next : σ → ι → σ} :
    ∀ {xs : List ι} {st : σ}, (∀ st, ∀ x ∈ xs, (field x).Taken head body st (next st x)) →
      Reads (head.loop body st) ((xs.flatMap fun x => (field x).bytes) ++ stop)
        (xs.foldl next st)
  | [], st, _ => Head.loop_of_stop hstop st
  | x :: xs, st, h => by
    have hx := h st x List.mem_cons_self
    have hrest : Reads (head.loop body (next st x))
        ((xs.flatMap fun x => (field x).bytes) ++ stop) (xs.foldl next (next st x)) :=
      Reads.loop hstop field fun st x' hx' => h st x' (List.mem_cons_of_mem x hx')
    have hbytes : ((x :: xs).flatMap fun x => (field x).bytes) ++ stop
        = (field x).header
          ++ ((field x).payload ++ ((xs.flatMap fun x => (field x).bytes) ++ stop)) := by
      simp [Field.bytes]
    rw [Reads, hbytes, Head.loop_of_field (hx.header.run _)]
    exact hx.payload.bind hrest

end Wire
