import StatsRelay.Bytes

/-! # The sender task: `client_task`

`client_task` (`statsd_client.rs`) assembles the buffers a TCP sender writes.  Each pass of
its loop takes what its `select!` yields: a PDU from the receive queue, which it appends to
`buf` followed by one `'\n'`, flushing when `buf` reaches `SEND_THRESHOLD`; a tick of the
ticker, which flushes a non-empty `buf`; or the closed queue, which flushes a non-empty
`buf` and otherwise ends the task.  A flush hands the frozen buffer to `client_sender`
over a channel and starts a fresh one; when `client_sender` is gone the send fails and the
task returns.

The model is one step per pass of the loop (`clientTaskStep`, `none` when the task
returns), with the writer's exit as an event of its environment.  The invariant `TaskInv`
holds in every state a run reaches: the handed buffers followed by `buf` are the received
PDUs, each with its newline, in arrival order; every handed buffer is non-empty and ends
with a newline; `buf` stays below the threshold (`taskInv_run`).  When the queue closes
while the writer is there, the task ends with every PDU handed exactly once
(`clientTask_hands_every_pdu`).  Between two ticks, PDUs that stay below the threshold are
handed over as one buffer by the second tick (`clientTask_combines_burst`). -/

namespace StatsRelay.StatsdClient

/-- `SEND_THRESHOLD`. -/
def sendThreshold : ℕ := 10 * 1024

/-- What a pass of the loop of `client_task` sees, and the exit of the writer. -/
inductive TaskEvent where
  /-- `recv.recv()` yielded a PDU, given by `pdu.as_bytes()`. -/
  | pdu (bytes : Bytes)
  /-- `recv.recv()` yielded `None`: every client handle is gone. -/
  | closed
  /-- `ticker_recv.recv()` fired. -/
  | tick
  /-- `client_sender` returned; from now on `buf_sender.send` fails. -/
  | writerExit
  deriving DecidableEq, Repr

/-- The state of `client_task` and its counters. -/
structure ClientTask where
  buf : Bytes
  /-- The buffers `buf_sender.send` delivered to `client_sender`, in order. -/
  handed : List Bytes
  /-- Whether `client_sender` still receives. -/
  writerOpen : Bool
  backoffSend : ℕ
  delayedSends : ℕ
  messagesQueued : ℕ
  deriving DecidableEq, Repr

namespace ClientTask

/-- The task when it starts, with an empty buffer. -/
def init : ClientTask := ⟨[], [], true, 0, 0, 0⟩

/-- `buf_sender.send(buf.freeze())`, then `buf = BytesMut::with_capacity(..)`; `none` when
the send fails and the task returns. -/
def flush (s : ClientTask) : Option ClientTask :=
  if s.writerOpen then some { s with handed := s.handed ++ [s.buf], buf := [] } else none

theorem flush_eq_some {t t' : ClientTask} :
    t.flush = some t' ↔ t.writerOpen = true ∧ { t with handed := t.handed ++ [t.buf], buf := [] } = t' := by
  simp [flush]

end ClientTask

/-- One pass of the loop of `client_task`; `none` when the task returns. -/
def clientTaskStep (s : ClientTask) : TaskEvent → Option ClientTask
  | .pdu p =>
    let s := { s with buf := s.buf ++ p ++ [newline], messagesQueued := s.messagesQueued + 1 }
    if s.buf.length < sendThreshold then some { s with backoffSend := s.backoffSend + 1 }
    else s.flush
  | .closed => if s.buf = [] then none else s.flush
  | .tick => if s.buf = [] then some s else { s with delayedSends := s.delayedSends + 1 }.flush
  | .writerExit => some { s with writerOpen := false }

/-- `client_task` over a sequence of events: the state after the last one, `none` once the
task has returned. -/
def clientTask (s : ClientTask) : List TaskEvent → Option ClientTask
  | [] => some s
  | e :: es => (clientTaskStep s e).bind (clientTask · es)

/-- The PDUs among a run's events, in arrival order. -/
def pdusOf (es : List TaskEvent) : List Bytes :=
  es.filterMap fun | .pdu p => some p | _ => none

/-- The bytes `client_task` queues for PDUs: each PDU followed by one newline. -/
def frameAll (pdus : List Bytes) : Bytes := (pdus.map (· ++ [newline])).flatten

/-! ### The invariant -/

/-- What holds between two passes of the loop, `pdus` being the PDUs received so far. -/
structure TaskInv (pdus : List Bytes) (s : ClientTask) : Prop where
  concat : s.handed.flatten ++ s.buf = frameAll pdus
  handed_ends : ∀ b ∈ s.handed, b.getLast? = some newline
  buf_ends : s.buf = [] ∨ s.buf.getLast? = some newline
  buf_lt : s.buf.length < sendThreshold

/-- Everything a pass can do: append a PDU to a buffer that stays below the threshold,
append one and flush the full buffer, flush a non-empty buffer on the closed queue or a
tick, let a tick pass on an empty buffer, or record the writer's exit. -/
theorem clientTaskStep_cases {s s' : ClientTask} {e : TaskEvent} (h : clientTaskStep s e = some s') :
    (∃ p, e = .pdu p ∧ (s.buf ++ p ++ [newline]).length < sendThreshold ∧
      s' = { s with buf := s.buf ++ p ++ [newline], messagesQueued := s.messagesQueued + 1,
                    backoffSend := s.backoffSend + 1 }) ∨
    (∃ p, e = .pdu p ∧
      { s with buf := s.buf ++ p ++ [newline], messagesQueued := s.messagesQueued + 1 }.flush = some s') ∨
    ((e = .closed ∨ e = .tick) ∧ s.buf ≠ [] ∧ ∃ d, { s with delayedSends := d }.flush = some s') ∨
    (e = .tick ∧ s.buf = [] ∧ s' = s) ∨
    (e = .writerExit ∧ s' = { s with writerOpen := false }) := by
  cases e with
  | pdu p =>
    simp only [clientTaskStep] at h
    split at h
    · cases h; exact .inl ⟨p, rfl, ‹_›, rfl⟩
    · exact .inr (.inl ⟨p, rfl, h⟩)
  | closed =>
    obtain ⟨hne, h⟩ := Option.ite_none_left_eq_some.1 h
    exact .inr (.inr (.inl ⟨.inl rfl, hne, _, h⟩))
  | tick =>
    simp only [clientTaskStep] at h
    split at h
    · cases h; exact .inr (.inr (.inr (.inl ⟨rfl, ‹_›, rfl⟩)))
    · exact .inr (.inr (.inl ⟨.inr rfl, ‹_›, _, h⟩))
  | writerExit => cases h; exact .inr (.inr (.inr (.inr ⟨rfl, rfl⟩)))

theorem taskInv_init : TaskInv [] ClientTask.init :=
  ⟨rfl, by simp [ClientTask.init], .inl rfl, by decide⟩

theorem taskInv_flush {pdus : List Bytes} {s s' : ClientTask} (h : s.flush = some s')
    (hc : s.handed.flatten ++ s.buf = frameAll pdus) (hh : ∀ b ∈ s.handed, b.getLast? = some newline)
    (hb : s.buf.getLast? = some newline) : TaskInv pdus s' := by
  obtain ⟨-, rfl⟩ := ClientTask.flush_eq_some.1 h
  refine ⟨by simpa using hc, fun b hb' => ?_, .inl rfl, by simp [sendThreshold]⟩
  rcases List.mem_append.1 hb' with hb' | hb'
  · exact hh b hb'
  · rw [List.mem_singleton.1 hb']; exact hb

theorem taskInv_step {pdus : List Bytes} {s s' : ClientTask} {e : TaskEvent} (hi : TaskInv pdus s)
    (h : clientTaskStep s e = some s') : TaskInv (pdus ++ pdusOf [e]) s' := by
  have hpdu : ∀ p, s.handed.flatten ++ (s.buf ++ p ++ [newline]) = frameAll (pdus ++ [p]) := fun p => by
    rw [frameAll, List.map_append, List.flatten_append, ← frameAll, ← hi.concat]
    simp
  rcases clientTaskStep_cases h with ⟨p, rfl, hlt, rfl⟩ | ⟨p, rfl, hf⟩ | ⟨he, hne, _, hf⟩ | ⟨rfl, -, rfl⟩ |
    ⟨rfl, rfl⟩
  · exact ⟨hpdu p, hi.handed_ends, .inr (by simp), hlt⟩
  · exact taskInv_flush hf (hpdu p) hi.handed_ends (by simp)
  · have he : pdusOf [e] = [] := by rcases he with rfl | rfl <;> rfl
    exact taskInv_flush hf (by simpa [he] using hi.concat) hi.handed_ends (hi.buf_ends.resolve_left hne)
  · simpa [pdusOf] using hi
  · simpa [pdusOf] using ⟨hi.1, hi.2, hi.3, hi.4⟩

theorem pdusOf_cons (e : TaskEvent) (es : List TaskEvent) : pdusOf (e :: es) = pdusOf [e] ++ pdusOf es := by
  cases e <;> rfl

theorem taskInv_run {pdus : List Bytes} {s : ClientTask} (hi : TaskInv pdus s) :
    ∀ {es : List TaskEvent} {s' : ClientTask}, clientTask s es = some s' →
      TaskInv (pdus ++ pdusOf es) s'
  | [], s', h => by cases h; simpa [pdusOf] using hi
  | e :: es, s', h => by
    simp only [clientTask, Option.bind_eq_some] at h
    obtain ⟨s₁, h₁, h₂⟩ := h
    have := taskInv_run (taskInv_step hi h₁) h₂
    rwa [List.append_assoc, ← pdusOf_cons] at this

theorem writerOpen_step {s s' : ClientTask} {e : TaskEvent} (he : e ≠ .writerExit)
    (h : clientTaskStep s e = some s') : s'.writerOpen = s.writerOpen := by
  rcases clientTaskStep_cases h with ⟨-, -, -, rfl⟩ | ⟨_, -, hf⟩ | ⟨-, -, _, hf⟩ | ⟨-, -, rfl⟩ | ⟨rfl, -⟩
  · rfl
  · obtain ⟨-, rfl⟩ := ClientTask.flush_eq_some.1 hf; rfl
  · obtain ⟨-, rfl⟩ := ClientTask.flush_eq_some.1 hf; rfl
  · rfl
  · exact absurd rfl he

/-- A pass hands its writer nothing, or one non-empty buffer. -/
theorem handed_step_one {s s' : ClientTask} {e : TaskEvent} (h : clientTaskStep s e = some s') :
    s'.handed = s.handed ∨ ∃ b, b ≠ [] ∧ s'.handed = s.handed ++ [b] := by
  rcases clientTaskStep_cases h with ⟨-, -, -, rfl⟩ | ⟨_, -, hf⟩ | ⟨-, hne, _, hf⟩ | ⟨-, -, rfl⟩ | ⟨-, rfl⟩
  · exact .inl rfl
  · obtain ⟨-, rfl⟩ := ClientTask.flush_eq_some.1 hf; exact .inr ⟨_, by simp, rfl⟩
  · obtain ⟨-, rfl⟩ := ClientTask.flush_eq_some.1 hf; exact .inr ⟨_, hne, rfl⟩
  · exact .inl rfl
  · exact .inl rfl

/-- A pass only appends to the buffers handed to the writer. -/
theorem handed_step {s s' : ClientTask} {e : TaskEvent} (h : clientTaskStep s e = some s') :
    ∃ l, s'.handed = s.handed ++ l :=
  (handed_step_one h).elim (fun h => ⟨[], by rw [h, List.append_nil]⟩) fun ⟨_, _, h⟩ => ⟨_, h⟩

/-- While the writer is there, every pass but one on the closed queue goes on. -/
theorem clientTaskStep_isSome {s : ClientTask} (ho : s.writerOpen = true) {e : TaskEvent} (he : e ≠ .closed) :
    (clientTaskStep s e).isSome := by
  cases e with
  | closed => exact absurd rfl he
  | pdu p => simp only [clientTaskStep]; split_ifs <;> simp [ClientTask.flush, ho]
  | tick => simp only [clientTaskStep]; split_ifs <;> simp [ClientTask.flush, ho]
  | writerExit => rfl

/-- A pass on a PDU hands over, or keeps in `buf`, the old buffer followed by the PDU and its
newline. -/
theorem clientTaskStep_pdu_frames {s s' : ClientTask} {p : Bytes} (h : clientTaskStep s (.pdu p) = some s') :
    ∃ l, s'.handed = s.handed ++ l ∧ l.flatten ++ s'.buf = s.buf ++ p ++ [newline] := by
  rcases clientTaskStep_cases h with ⟨_, he, -, rfl⟩ | ⟨_, he, hf⟩ | ⟨he, -⟩ | ⟨he, -⟩ | ⟨he, -⟩
  · cases he; exact ⟨[], by simp, by simp⟩
  · cases he; obtain ⟨-, rfl⟩ := ClientTask.flush_eq_some.1 hf; exact ⟨_, rfl, by simp⟩
  · rcases he with he | he <;> cases he
  · cases he
  · cases he

/-- A tick hands over the buffer when it is not empty; either way `buf` is empty after it. -/
theorem clientTaskStep_tick_frames {s s' : ClientTask} (h : clientTaskStep s .tick = some s') :
    ∃ l, s'.handed = s.handed ++ l ∧ l.flatten = s.buf ∧ s'.buf = [] := by
  rcases clientTaskStep_cases h with ⟨_, he, -⟩ | ⟨_, he, -⟩ | ⟨-, -, _, hf⟩ | ⟨-, hb, rfl⟩ | ⟨he, -⟩
  · cases he
  · cases he
  · obtain ⟨-, rfl⟩ := ClientTask.flush_eq_some.1 hf; exact ⟨_, rfl, by simp, rfl⟩
  · exact ⟨[], by simp, by simp [hb], hb⟩
  · cases he

/-- `messages_queued` counts the PDUs the task has taken. -/
theorem messagesQueued_step {s s' : ClientTask} {e : TaskEvent} (h : clientTaskStep s e = some s') :
    s'.messagesQueued = s.messagesQueued + (pdusOf [e]).length := by
  rcases clientTaskStep_cases h with ⟨_, rfl, -, rfl⟩ | ⟨_, rfl, hf⟩ | ⟨he, -, _, hf⟩ | ⟨rfl, -, rfl⟩ |
    ⟨rfl, rfl⟩
  · rfl
  · obtain ⟨-, rfl⟩ := ClientTask.flush_eq_some.1 hf; rfl
  · obtain ⟨-, rfl⟩ := ClientTask.flush_eq_some.1 hf; rcases he with rfl | rfl <;> rfl
  · rfl
  · rfl

theorem writerOpen_run {s : ClientTask} (hs : s.writerOpen = true) :
    ∀ {es : List TaskEvent} {s' : ClientTask}, (∀ e ∈ es, e ≠ .writerExit) →
      clientTask s es = some s' → s'.writerOpen = true
  | [], _, _, h => by cases h; exact hs
  | e :: es, _, he, h => by
    simp only [clientTask, Option.bind_eq_some] at h
    obtain ⟨s₁, h₁, h₂⟩ := h
    exact writerOpen_run ((writerOpen_step (he e (by simp)) h₁).trans hs)
      (fun e' h' => he e' (by simp [h'])) h₂

/-- **Write combining keeps every PDU, in order.**  In every state a run of `client_task`
reaches, the handed buffers followed by `buf` are the received PDUs, each with its newline,
in arrival order; each handed buffer is non-empty and ends with a newline; `buf` is shorter
than `SEND_THRESHOLD`.  While the writer accepts every buffer, a task that returns on the
closed queue has handed every received PDU exactly once, in order. -/
theorem clientTask_hands_every_pdu (es : List TaskEvent) (s : ClientTask)
    (h : clientTask ClientTask.init es = some s) :
    s.handed.flatten ++ s.buf = frameAll (pdusOf es) ∧
      (∀ b ∈ s.handed, b ≠ [] ∧ b.getLast? = some newline) ∧ s.buf.length < sendThreshold ∧
      ((∀ e ∈ es, e ≠ .writerExit) → clientTaskStep s .closed = none →
        s.handed.flatten = frameAll (pdusOf es)) := by
  have hi := taskInv_run taskInv_init h
  rw [List.nil_append] at hi
  refine ⟨hi.concat, fun b hb => ⟨fun e => by simpa [e] using hi.handed_ends b hb, hi.handed_ends b hb⟩,
    hi.buf_lt, fun hw hexit => ?_⟩
  have hopen := writerOpen_run rfl hw h
  have hbuf : s.buf = [] := by
    by_contra hne
    simp [clientTaskStep, hne, ClientTask.flush, hopen] at hexit
  simpa [hbuf] using hi.concat

theorem clientTask_hands_every_pdu_tick_between :
    clientTask ClientTask.init [.pdu [97], .tick, .pdu [98]] = some ⟨[98, 10], [[97, 10]], true, 2, 1, 2⟩ ∧
      [[97, 10]].flatten ++ [98, 10] = frameAll (pdusOf [.pdu [97], .tick, .pdu [98]]) :=
  ⟨rfl, (clientTask_hands_every_pdu [.pdu [97], .tick, .pdu [98]] ⟨[98, 10], [[97, 10]], true, 2, 1, 2⟩
    rfl).1⟩

/-! ### Write combining -/

theorem clientTask_append (s : ClientTask) (es es' : List TaskEvent) :
    clientTask s (es ++ es') = (clientTask s es).bind (clientTask · es') := by
  induction es generalizing s with
  | nil => rfl
  | cons e es ih =>
    simp only [List.cons_append, clientTask]
    cases clientTaskStep s e <;> simp [ih]

theorem frameAll_eq_nil {pdus : List Bytes} : frameAll pdus = [] ↔ pdus = [] := by
  cases pdus <;> simp [frameAll]

/-- PDUs that keep the buffer below `SEND_THRESHOLD` are only appended to it. -/
theorem clientTask_pdus_below_threshold : ∀ (ps : List Bytes) (s : ClientTask),
    s.buf.length + (frameAll ps).length < sendThreshold →
      clientTask s (ps.map .pdu) =
        some { s with buf := s.buf ++ frameAll ps, messagesQueued := s.messagesQueued + ps.length,
                      backoffSend := s.backoffSend + ps.length }
  | [], s, _ => by simp [clientTask, frameAll]
  | p :: ps, s, h => by
    have hf : frameAll (p :: ps) = p ++ [newline] ++ frameAll ps := by simp [frameAll]
    rw [hf] at h
    simp only [List.length_append, List.length_singleton] at h
    have hstep : clientTaskStep s (.pdu p) =
        some { s with buf := s.buf ++ p ++ [newline], messagesQueued := s.messagesQueued + 1,
                      backoffSend := s.backoffSend + 1 } := by
      simp only [clientTaskStep, List.length_append, List.length_singleton]
      rw [if_pos (by omega)]
    simp only [List.map_cons, clientTask, hstep, Option.some_bind]
    rw [clientTask_pdus_below_threshold ps _ (by simp; omega), hf]
    simp only [List.append_assoc, List.length_cons, Nat.add_assoc, Nat.add_comm 1]

/-- **A burst between two ticks is handed over as one buffer.**  After any run that ends
with a tick, while the writer is there, PDUs whose framed bytes stay below `SEND_THRESHOLD`
followed by the next tick hand the writer exactly one buffer, those PDUs each with its
newline in arrival order, or nothing when there is none; the buffer is empty again. -/
theorem clientTask_combines_burst {es : List TaskEvent} {s : ClientTask}
    (h : clientTask ClientTask.init (es ++ [.tick]) = some s) (ho : s.writerOpen = true)
    (ps : List Bytes) (hsmall : (frameAll ps).length < sendThreshold) :
    ∃ s', clientTask s (ps.map .pdu ++ [.tick]) = some s' ∧
      s'.handed = s.handed ++ (if ps = [] then [] else [frameAll ps]) ∧ s'.buf = [] := by
  have hbuf : s.buf = [] := by
    rw [clientTask_append, Option.bind_eq_some] at h
    obtain ⟨s₀, -, h₁⟩ := h
    obtain ⟨_, -, -, hb⟩ := clientTaskStep_tick_frames (s := s₀) (by simpa [clientTask] using h₁)
    exact hb
  rw [clientTask_append, clientTask_pdus_below_threshold ps s (by simpa [hbuf] using hsmall), Option.some_bind]
  by_cases hps : ps = []
  · subst hps
    simp [clientTask, clientTaskStep, hbuf, frameAll]
  · simp [clientTask, clientTaskStep, hbuf, frameAll_eq_nil, hps, ClientTask.flush, ho]

theorem clientTask_combines_burst_two_pdus :
    clientTask ClientTask.init ([.pdu [97]] ++ [.tick]) = some ⟨[], [[97, 10]], true, 1, 1, 1⟩ ∧
      (⟨[], [[97, 10]], true, 1, 1, 1⟩ : ClientTask).writerOpen = true ∧
      (frameAll [[98], [99]]).length < sendThreshold ∧
      ∃ s', clientTask ⟨[], [[97, 10]], true, 1, 1, 1⟩ ([[98], [99]].map .pdu ++ [.tick]) = some s' ∧
        s'.handed = [[97, 10]] ++ (if [[98], [99]] = ([] : List Bytes) then [] else [frameAll [[98], [99]]]) ∧
        s'.buf = [] :=
  ⟨rfl, rfl, by decide, @clientTask_combines_burst [.pdu [97]] _ rfl rfl _ (by decide)⟩


end StatsRelay.StatsdClient
