import StatsRelay.DataPath
import StatsRelay.StatsdClient.ClientSender

/-! # From `provide_statsd_pdu` to the wire

Each sender task of a target is a pair: `client_task` assembles buffers and sends them over
`buf_sender`, and its `client_sender` takes them from `buf_recv` and writes them to the
endpoint, reconnecting after every failed write.  This module joins the data path of
`DataPath` with the writers, and a run is any interleaving of the events of all of them.

* The buffers a task handed over (`ClientTask.handed`) are the contents of its buffer
  channel in order, and a writer counts those it has received (`Writer.taken`).  The
  channel is `mpsc::channel(10)`: a send waits while ten buffers are not taken.  A pass of
  the task is taken as happening when its send completes, so it can happen only when the
  buffers it leaves untaken fit in the channel (`Pipeline.pass`).
* A writer's events are those of `clientSenderStep`, except that `recv` takes the next
  handed buffer (`Pipeline.take`), and that the writer returns when `ClientSender.returns`
  says so; `recv` yields `None` only once its task has returned and every handed buffer was
  taken.  When a writer returns, its task sees the exit (`writerExit`), and the task's next
  send fails.  The model keeps each writer's last state.

`PipeInv` adds to `RelayInv` that every writer has received exactly the first `taken`
buffers its task handed, and satisfies `SenderInv` for their bytes, and that at most ten
buffers wait in each channel.  Hence along every interleaving, for every task, the bytes
each connection of its writer wrote, each followed by the rest of the one line its failure
discarded, then the writer's buffer, the buffers in the channel and the task's buffer, are
the framed PDUs the task took from its channel; and those are a subsequence, in order, of
the PDUs the target routes to it (`pipeline_wire_in_order`). -/

namespace StatsRelay.Wire

open Backends StatsdClient DataPath

variable {P : Type}

/-- The writer of a task: its `client_sender`, how many of the task's handed buffers it has
received, and whether it still runs. -/
structure Writer where
  sender : ClientSender
  taken : ℕ
  running : Bool
  deriving DecidableEq, Repr

/-- A target with its sender tasks and their writers (`none` where no task was started). -/
structure Pipeline (P : Type) where
  relay : Relay P
  writers : ℕ → Option Writer

/-- The target `StatsdBackend::new(conf)` starts: each task and its writer just spawned. -/
def Pipeline.init (conf : StatsdDuplicateTo) : Pipeline P :=
  ⟨Relay.init conf,
    fun t => if t < (StatsdBackend.new conf).spawned then some ⟨ClientSender.init, 0, true⟩ else none⟩

/-- What happens next anywhere in the target. -/
inductive PipelineEvent (P : Type) where
  /-- A `provide_statsd_pdu` or a pass of a task (a writer's exit comes from the writer). -/
  | relay (e : RelayEvent P)
  /-- The writer of task `t` returns from `recv.recv()`. -/
  | take (t : ℕ)
  /-- Any other event of the writer of task `t`. -/
  | sender (t : ℕ) (e : SenderEvent)
  deriving DecidableEq, Repr

/-- The capacity of `buf_sender` (`mpsc::channel(10)`). -/
def bufChannelCapacity : ℕ := 10

/-- The buffers task `t` handed and its writer has not taken fit in their channel. -/
def fits (r : Relay P) (ws : ℕ → Option Writer) (t : ℕ) : Bool :=
  match r.tasks t, ws t with
  | some task, some w => decide (task.handed.length ≤ w.taken + bufChannelCapacity)
  | _, _ => true

variable (ops : PduOps P) (asBytes : P → Bytes)

/-- A pass of task `t` on `e`: `buf_sender.send` waits for room in the channel, so the pass
completes only when what it leaves untaken fits. -/
def Pipeline.pass (s : Pipeline P) (t : ℕ) (e : RelayEvent P) : Option (Pipeline P) :=
  (relayStep ops asBytes s.relay e).bind fun r => if fits r s.writers t then some { s with relay := r } else none

/-- Writer `w` of task `t` goes on as `w'`. -/
def Pipeline.setWriter (s : Pipeline P) (t : ℕ) (w' : Writer) : Pipeline P :=
  { s with writers := Function.update s.writers t (some w') }

/-- Writer `w` of task `t` returned: it keeps its last state, and the task sees the exit if
it still runs. -/
def Pipeline.writerGone (s : Pipeline P) (t : ℕ) (w : Writer) : Pipeline P :=
  ⟨(relayStep ops asBytes s.relay (.writerExit t)).getD s.relay,
    Function.update s.writers t (some { w with running := false })⟩

/-- Writer `w` of task `t` returns from `recv.recv()`: with the next buffer the task
handed, or with `None` once the task has returned and every buffer was taken. -/
def Pipeline.take (s : Pipeline P) (t : ℕ) (w : Writer) (task : ClientTask) : Option (Pipeline P) :=
  match task.handed[w.taken]? with
  | some buf =>
    (clientSenderStep w.sender (.recv (some buf))).map fun sn => s.setWriter t ⟨sn, w.taken + 1, true⟩
  | none =>
    if (s.relay.queues t).closed = true ∧ w.sender.returns (.recv none) then
      some (s.writerGone ops asBytes t w)
    else none

/-- One event; `none` when it cannot happen. -/
def pipelineStep (s : Pipeline P) : PipelineEvent P → Option (Pipeline P)
  | .relay (.writerExit _) => none
  | .relay (.provide p) => (relayStep ops asBytes s.relay (.provide p)).map fun r => { s with relay := r }
  | .relay (.recv t) => s.pass ops asBytes t (.recv t)
  | .relay (.tick t) => s.pass ops asBytes t (.tick t)
  | .take t =>
    (s.writers t).bind fun w => (s.relay.tasks t).bind fun task =>
      if w.running then s.take ops asBytes t w task else none
  | .sender _ (.recv _) => none
  | .sender t e =>
    (s.writers t).bind fun w =>
      if w.running then
        if w.sender.returns e then some (s.writerGone ops asBytes t w)
        else (clientSenderStep w.sender e).map fun sn => s.setWriter t { w with sender := sn }
      else none

/-- A run of the whole target. -/
def pipeline (s : Pipeline P) : List (PipelineEvent P) → Option (Pipeline P)
  | [] => some s
  | e :: es => (pipelineStep ops asBytes s e).bind (pipeline · es)

/-- The PDUs provided along a run, in order. -/
def inputsOf (es : List (PipelineEvent P)) : List P :=
  es.filterMap fun | .relay (.provide p) => some p | _ => none

theorem inputsOf_cons (e : PipelineEvent P) (es : List (PipelineEvent P)) :
    inputsOf (e :: es) = inputsOf [e] ++ inputsOf es := by
  rcases e with (_ | _ | _ | _) | _ | _ <;> rfl

theorem pipeline_append (s : Pipeline P) (es₁ es₂ : List (PipelineEvent P)) :
    pipeline ops asBytes s (es₁ ++ es₂) = (pipeline ops asBytes s es₁).bind (pipeline ops asBytes · es₂) := by
  induction es₁ generalizing s with
  | nil => rfl
  | cons e es ih => simp only [List.cons_append, pipeline, Option.bind_assoc, List.append_eq, ih]

/-! ### The writers' invariant -/

/-- Every writer has received the first `taken` buffers its task handed, and
`client_sender`'s invariant holds for their bytes. -/
def WritersInv (r : Relay P) (ws : ℕ → Option Writer) : Prop :=
  ∀ t task w, r.tasks t = some task → ws t = some w →
    w.taken ≤ task.handed.length ∧ SenderInv (task.handed.take w.taken).flatten w.sender

/-- The invariant of a run from a target `b`, `inputs` being the PDUs provided so far. -/
structure PipeInv (b : StatsdBackend) (inputs : List P) (s : Pipeline P) : Prop where
  relay : RelayInv ops asBytes b inputs s.relay
  writers : WritersInv s.relay s.writers
  room : ∀ t, fits s.relay s.writers t = true

section Writers

variable {r r' : Relay P} {ws : ℕ → Option Writer}

/-- Tasks that only append to their handed buffers keep every writer's invariant. -/
theorem writersInv_of_handed (hw : WritersInv r ws)
    (hr : ∀ t task', r'.tasks t = some task' → ∃ task l, r.tasks t = some task ∧ task'.handed = task.handed ++ l) :
    WritersInv r' ws := fun t task' w ht hwt => by
  obtain ⟨task, l, ht₀, hl⟩ := hr t task' ht
  obtain ⟨hle, hinv⟩ := hw t task w ht₀ hwt
  rw [hl, List.take_append_of_le_length hle, List.length_append]
  exact ⟨hle.trans (Nat.le_add_right _ _), hinv⟩

theorem writersInv_update (hw : WritersInv r ws) {t : ℕ} {w' : Writer}
    (h : ∀ task, r.tasks t = some task →
      w'.taken ≤ task.handed.length ∧ SenderInv (task.handed.take w'.taken).flatten w'.sender) :
    WritersInv r (Function.update ws t (some w')) := fun t' task w ht hwt => by
  by_cases htt : t' = t
  · subst htt
    rw [Function.update_same, Option.some.injEq] at hwt
    exact hwt ▸ h task ht
  · rw [Function.update_noteq htt] at hwt
    exact hw t' task w ht hwt

/-- A writer that has taken at least as many buffers as before keeps every channel within
its capacity. -/
theorem fits_update (hf : ∀ t, fits r ws t = true) {t : ℕ} {w : Writer} (hw : ws t = some w)
    (w' : Writer) (hle : w.taken ≤ w'.taken) : ∀ t', fits r (Function.update ws t (some w')) t' = true := by
  intro t'
  by_cases htt : t' = t
  · subst htt
    have h := hf t'
    simp only [fits, hw, Function.update_same] at h ⊢
    split at h <;> simp_all
    omega
  · simpa only [fits, Function.update_noteq htt] using hf t'

/-- Tasks that hand no more buffers keep every channel within its capacity. -/
theorem fits_of_handed_le (hf : ∀ t, fits r ws t = true)
    (hr : ∀ t task', r'.tasks t = some task' → ∃ task, r.tasks t = some task ∧ task'.handed.length ≤ task.handed.length) :
    ∀ t, fits r' ws t = true := by
  intro t
  have h := hf t
  cases ht' : r'.tasks t with
  | none => simp [fits, ht']
  | some task' =>
    obtain ⟨task, ht, hle⟩ := hr t task' ht'
    cases hw : ws t <;> simp_all [fits]
    omega

end Writers

/-! ### Steps keep the invariant -/

section Steps

variable {b : StatsdBackend} {inputs : List P} {s s' : Pipeline P}

theorem pipeInv_relay (hi : PipeInv ops asBytes b inputs s) {e : RelayEvent P} {r : Relay P}
    (h : relayStep ops asBytes s.relay e = some r) (hroom : ∀ t, fits r s.writers t = true) :
    PipeInv ops asBytes b (inputs ++ providedOf [e]) { s with relay := r } :=
  ⟨relayInv_step ops asBytes hi.relay h,
    writersInv_of_handed hi.writers fun _ _ ht => relayStep_handed ops asBytes h ht, hroom⟩

/-- A `provide_statsd_pdu` leaves every task as it was. -/
theorem relayStep_provide_tasks {r r' : Relay P} {p : P} (h : relayStep ops asBytes r (.provide p) = some r') :
    r'.tasks = r.tasks := by
  cases h; rfl

/-- A pass of task `t` leaves every other task as it was. -/
theorem relayStep_tasks_ne {r r' : Relay P} {t t' : ℕ} {e : RelayEvent P}
    (he : e = .recv t ∨ e = .tick t ∨ e = .writerExit t) (h : relayStep ops asBytes r e = some r')
    (ht : t' ≠ t) : r'.tasks t' = r.tasks t' := by
  rcases he with rfl | rfl | rfl <;> simp only [relayStep] at h
  · split at h
    · cases h
    · exact (taskStep_other h ht).1
  all_goals exact (taskStep_other h ht).1

/-- A writer's exit hands its task no buffer. -/
theorem relayStep_writerExit_handed {r r' : Relay P} {t : ℕ}
    (h : relayStep ops asBytes r (.writerExit t) = some r') :
    ∀ t' task', r'.tasks t' = some task' → ∃ task, r.tasks t' = some task ∧ task'.handed.length ≤ task.handed.length := by
  intro t' task' ht'
  by_cases htt : t' = t
  · subst htt
    have hs : r.taskStep t' [] (r.queues t').pending .writerExit = some r' := h
    obtain ⟨task, htask, -, ⟨task'', hstep, hs', -⟩ | ⟨-, hs', -⟩⟩ := taskStep_self hs <;>
      rw [hs'] at ht' <;> cases ht'
    · cases hstep; exact ⟨task, htask, le_rfl⟩
    · exact ⟨_, htask, le_rfl⟩
  · exact ⟨task', (relayStep_tasks_ne ops asBytes (.inr (.inr rfl)) h htt) ▸ ht', le_rfl⟩

/-- A pass of task `t` that fits keeps every channel within its capacity. -/
theorem pipeInv_pass (hi : PipeInv ops asBytes b inputs s) {t : ℕ} {e : RelayEvent P}
    (he : e = .recv t ∨ e = .tick t) (h : s.pass ops asBytes t e = some s') :
    PipeInv ops asBytes b (inputs ++ providedOf [e]) s' := by
  obtain ⟨r, hr, h⟩ := Option.bind_eq_some.1 h
  obtain ⟨hfit, ⟨⟩⟩ := Option.ite_none_right_eq_some.1 h
  refine pipeInv_relay ops asBytes hi hr fun t' => ?_
  by_cases htt : t' = t
  · exact htt ▸ hfit
  · have hold := hi.room t'
    simpa only [fits, relayStep_tasks_ne ops asBytes (he.imp_right .inl) hr htt] using hold

theorem pipeInv_writerGone (hi : PipeInv ops asBytes b inputs s) {t : ℕ} {w : Writer}
    (hw : s.writers t = some w) : PipeInv ops asBytes b inputs (s.writerGone ops asBytes t w) := by
  have hws : WritersInv s.relay (Function.update s.writers t (some { w with running := false })) :=
    writersInv_update hi.writers fun task ht => hi.writers t task w ht hw
  have hroom := fits_update hi.room hw { w with running := false } le_rfl
  unfold Pipeline.writerGone
  cases h : relayStep ops asBytes s.relay (.writerExit t) with
  | none => exact ⟨hi.relay, hws, hroom⟩
  | some r =>
    exact ⟨by simpa [providedOf] using relayInv_step ops asBytes hi.relay h,
      writersInv_of_handed hws fun _ _ ht => relayStep_handed ops asBytes h ht,
      fits_of_handed_le hroom (relayStep_writerExit_handed ops asBytes h)⟩

/-- A writer that takes the next handed buffer keeps the invariant: the buffer ends with a
newline, as every handed buffer does. -/
theorem pipeInv_take (hi : PipeInv ops asBytes b inputs s) {t : ℕ} {w : Writer} {task : ClientTask}
    (hw : s.writers t = some w) (ht : s.relay.tasks t = some task)
    (h : s.take ops asBytes t w task = some s') : PipeInv ops asBytes b inputs s' := by
  unfold Pipeline.take at h
  split at h
  · next buf hbuf =>
    obtain ⟨sn, hsn, rfl⟩ := Option.map_eq_some'.1 h
    obtain ⟨htask, -⟩ := hi.relay.flow t task ht
    obtain ⟨-, hinv⟩ := hi.writers t task w ht hw
    have hends : buf.getLast? = some newline := htask.handed_ends buf (List.getElem?_mem hbuf)
    have hsn' := senderInv_step hinv (by simpa [receivedOf] using hends) hsn
    refine ⟨hi.relay, writersInv_update hi.writers fun task' ht' => ?_,
      fits_update hi.room hw ⟨sn, w.taken + 1, true⟩ (Nat.le_succ _)⟩
    cases ht.symm.trans ht'
    refine ⟨(List.getElem?_eq_some_iff.1 hbuf).1, ?_⟩
    rw [List.take_succ, hbuf]
    simpa [receivedOf] using hsn'
  · obtain ⟨-, ⟨⟩⟩ := Option.ite_none_right_eq_some.1 h
    exact pipeInv_writerGone ops asBytes hi hw

/-- A writer event other than `recv` keeps the invariant: it receives nothing. -/
theorem pipeInv_sender (hi : PipeInv ops asBytes b inputs s) {t : ℕ} {w : Writer} {e : SenderEvent}
    (hw : s.writers t = some w) (he : receivedOf [e] = [])
    (h : (if w.sender.returns e then some (s.writerGone ops asBytes t w)
      else (clientSenderStep w.sender e).map fun sn => s.setWriter t { w with sender := sn }) = some s') :
    PipeInv ops asBytes b inputs s' := by
  split at h
  · cases h; exact pipeInv_writerGone ops asBytes hi hw
  · obtain ⟨sn, hsn, rfl⟩ := Option.map_eq_some'.1 h
    refine ⟨hi.relay, writersInv_update hi.writers fun task ht => ?_,
      fits_update hi.room hw { w with sender := sn } le_rfl⟩
    obtain ⟨hle, hinv⟩ := hi.writers t task w ht hw
    exact ⟨hle, by simpa [he] using senderInv_step hinv (by simp [he]) hsn⟩

/-- One event keeps the invariant, a provided PDU joining the inputs. -/
theorem pipeInv_step (hi : PipeInv ops asBytes b inputs s) {e : PipelineEvent P}
    (h : pipelineStep ops asBytes s e = some s') : PipeInv ops asBytes b (inputs ++ inputsOf [e]) s' := by
  cases e with
  | relay e =>
    cases e with
    | writerExit t => cases h
    | provide p =>
      simp only [pipelineStep] at h
      obtain ⟨r, hr, rfl⟩ := Option.map_eq_some'.1 h
      exact pipeInv_relay ops asBytes hi hr fun t => by
        simpa only [fits, relayStep_provide_tasks ops asBytes hr] using hi.room t
    | recv t => exact pipeInv_pass ops asBytes hi (.inl rfl) h
    | tick t => exact pipeInv_pass ops asBytes hi (.inr rfl) h
  | take t =>
    obtain ⟨w, hw, h⟩ := Option.bind_eq_some.1 h
    obtain ⟨task, ht, h⟩ := Option.bind_eq_some.1 h
    obtain ⟨-, h⟩ := Option.ite_none_right_eq_some.1 h
    simpa [inputsOf] using pipeInv_take ops asBytes hi hw ht h
  | sender t e =>
    cases e with
    | recv => cases h
    | _ =>
      obtain ⟨w, hw, h⟩ := Option.bind_eq_some.1 h
      obtain ⟨-, h⟩ := Option.ite_none_right_eq_some.1 h
      simpa [inputsOf] using pipeInv_sender ops asBytes hi hw (by rfl) h

theorem pipeInv_run :
    ∀ {es : List (PipelineEvent P)} {ins : List P} {s s' : Pipeline P}, PipeInv ops asBytes b ins s →
      pipeline ops asBytes s es = some s' → PipeInv ops asBytes b (ins ++ inputsOf es) s'
  | [], _, _, _, hi, h => by cases h; simpa [inputsOf] using hi
  | e :: es, _, _, _, hi, h => by
    obtain ⟨s₁, h₁, h₂⟩ := Option.bind_eq_some.1 h
    have := pipeInv_run (pipeInv_step ops asBytes hi h₁) h₂
    rwa [List.append_assoc, ← inputsOf_cons] at this

end Steps

theorem pipeInv_init (conf : StatsdDuplicateTo) :
    PipeInv ops asBytes (StatsdBackend.new conf) [] (Pipeline.init conf : Pipeline P) := by
  refine ⟨relayInv_init ops asBytes conf, fun t task w ht hw => ?_, fun t => ?_⟩
  · by_cases hlt : t < (StatsdBackend.new conf).spawned
    · simp only [Pipeline.init, Relay.init, if_pos hlt, Option.some.injEq] at ht hw
      subst ht hw
      exact ⟨le_rfl, senderInv_init⟩
    · simp [Pipeline.init, Relay.init, hlt] at ht
  · by_cases hlt : t < (StatsdBackend.new conf).spawned <;>
      simp [fits, Pipeline.init, Relay.init, hlt, ClientTask.init]

/-- What the invariant says of one task and its writer: at most ten buffers wait in their
channel, and the bytes of the writer's connections, with one discarded line rest per
aborted connection, then the writer's buffer, the buffers in the channel and the task's
buffer, are the framed PDUs the task took, which are in turn routed to it in order. -/
theorem PipeInv.wire {b : StatsdBackend} {inputs : List P} {s : Pipeline P}
    (hi : PipeInv ops asBytes b inputs s) {t : ℕ} {task : ClientTask} {w : Writer}
    (ht : s.relay.tasks t = some task) (hw : s.writers t = some w) :
    (task.handed.drop w.taken).length ≤ bufChannelCapacity ∧
      ∃ ds : List Bytes, ds.length = w.sender.connectionsAborted ∧ (∀ d ∈ ds, LineRest d) ∧
        trail w.sender.closed ds ++ w.sender.conn.getD [] ++
            (w.sender.buf ++ (task.handed.drop w.taken).flatten ++ task.buf) =
          frameAll ((s.relay.took t).map asBytes) ∧
        (s.relay.took t ++ (s.relay.queues t).pending).Sublist (routed ops b t inputs) := by
  obtain ⟨htask, hsub⟩ := hi.relay.flow t task ht
  obtain ⟨-, ⟨ds, hlen, hds, heq⟩, -, habort, -⟩ := hi.writers t task w ht hw
  have hroom := hi.room t
  simp only [fits, ht, hw, decide_eq_true_eq] at hroom
  refine ⟨by rw [List.length_drop]; omega, ds, habort ▸ hlen, hds, ?_, hsub⟩
  calc trail w.sender.closed ds ++ w.sender.conn.getD [] ++
          (w.sender.buf ++ (task.handed.drop w.taken).flatten ++ task.buf)
      _ = (task.handed.take w.taken).flatten ++ (task.handed.drop w.taken).flatten ++ task.buf := by
        rw [← heq]; simp only [List.append_assoc]
      _ = frameAll ((s.relay.took t).map asBytes) := by
        rw [← List.flatten_append, List.take_append_drop, htask.concat]

/-- **What reaches the wire is what the ring routed, in order.**  Along every interleaving
of `provide_statsd_pdu` calls, passes of the sender tasks and events of their writers, from
the target `StatsdBackend::new(conf)` starts, for every task and its writer, running or
returned: at most ten buffers wait in their channel; the bytes written on each closed
connection of the writer, each followed by the rest of one line (no other newline, then a
newline) its failure discarded, one per aborted connection, then the bytes written on the
open connection, then the writer's buffer, the buffers waiting in the channel and the
task's buffer, are the PDUs the task took from its channel, each with its newline.  And
those PDUs followed by what still waits in the task's channel are a subsequence, in order,
of the provided PDUs that the target's filter passes and its ring sends to that task, with
the target's prefix and suffix.  So an endpoint receives only PDUs routed to it, each at
most once and in order, and loses one line per failed connection. -/
theorem pipeline_wire_in_order (conf : StatsdDuplicateTo) (es : List (PipelineEvent P))
    (s : Pipeline P) (h : pipeline ops asBytes (Pipeline.init conf) es = some s) (t : ℕ)
    (task : ClientTask) (w : Writer) (ht : s.relay.tasks t = some task) (hw : s.writers t = some w) :
    (task.handed.drop w.taken).length ≤ bufChannelCapacity ∧
      ∃ ds : List Bytes, ds.length = w.sender.connectionsAborted ∧ (∀ d ∈ ds, LineRest d) ∧
        trail w.sender.closed ds ++ w.sender.conn.getD [] ++
            (w.sender.buf ++ (task.handed.drop w.taken).flatten ++ task.buf) =
          frameAll ((s.relay.took t).map asBytes) ∧
        (s.relay.took t ++ (s.relay.queues t).pending).Sublist
          (((StatsdBackend.new conf).routedTo ops t (inputsOf es)).map ((StatsdBackend.new conf).outgoing ops)) := by
  have hi := pipeInv_run ops asBytes (pipeInv_init ops asBytes conf) h
  rw [List.nil_append] at hi
  exact hi.wire ops asBytes ht hw

theorem pipeline_wire_in_order_one_line :
    ∃ s : Pipeline Bytes,
      pipeline (⟨id, fun p a c => a ++ p ++ c, fun _ => 0, fun _ _ => true⟩ : PduOps Bytes) id
          (Pipeline.init ⟨["a"], none, none, none, none⟩)
          [.relay (.provide [97]), .relay (.recv 0), .relay (.tick 0), .sender 0 .connected, .take 0,
            .sender 0 (.wrote 2)] = some s ∧
        s.relay.tasks 0 = some ⟨[], [[97, 10]], true, 1, 1, 1⟩ ∧ s.relay.took 0 = [[97]] ∧
        s.writers 0 = some ⟨⟨.receiving, [], some [97, 10], [], 2, 0, 1, 0⟩, 1, true⟩ ∧
        ([[97, 10]].drop 1).length ≤ bufChannelCapacity ∧
        ∃ ds : List Bytes, ds.length = 0 ∧ (∀ d ∈ ds, LineRest d) ∧
          trail [] ds ++ [97, 10] ++ ([] ++ ([[97, 10]].drop 1).flatten ++ []) =
            frameAll ((s.relay.took 0).map id) ∧
          (s.relay.took 0 ++ (s.relay.queues 0).pending).Sublist
            (((StatsdBackend.new ⟨["a"], none, none, none, none⟩).routedTo
                (⟨id, fun p a c => a ++ p ++ c, fun _ => 0, fun _ _ => true⟩ : PduOps Bytes) 0
                (inputsOf [.relay (.provide [97]), .relay (.recv 0), .relay (.tick 0),
                  .sender 0 .connected, .take 0, .sender 0 (.wrote 2)])).map
              ((StatsdBackend.new ⟨["a"], none, none, none, none⟩).outgoing
                (⟨id, fun p a c => a ++ p ++ c, fun _ => 0, fun _ _ => true⟩ : PduOps Bytes))) :=
  ⟨_, rfl, rfl, rfl, rfl, pipeline_wire_in_order _ id _ _ _ (by exact rfl) 0 ⟨[], [[97, 10]], true, 1, 1, 1⟩
    ⟨⟨.receiving, [], some [97, 10], [], 2, 0, 1, 0⟩, 1, true⟩ (by exact rfl) (by exact rfl)⟩

end StatsRelay.Wire
