import StatsRelay.Wire

/-! # Nothing is stuck: what waits for a task can reach the wire

The results of `Wire` bound what a writer puts on the wire, and a model that never wrote
anything would satisfy them too.  This module shows the other direction for a target
without failures.  From every state a run reaches in which a task and its writer run, the
task's channel is open and the writer is connected and waits for a buffer, the run can go
on so that

* the writer takes every buffer it has not taken yet and writes it whole
  (`pipeline_write_all`, by induction on those buffers), after which no buffer waits for
  it (`CaughtUp`);
* the task takes the PDUs waiting in its channel one at a time, and after each pass the
  writer takes and writes what the pass handed over, so that every send finds room in the
  buffer channel of capacity ten (`CaughtUp.pass_write`, then `pipeline_recv_write`, and
  `pipeline_recv_all` by induction on those PDUs);
* a tick flushes the task's buffer, and the writer writes it (`pipeline_tick_write`).

After that the channel is empty, and the writer's connection holds, after what it held, the
task's untaken buffers, its buffer and the waiting PDUs, framed, in order
(`pipeline_drains`). -/

namespace StatsRelay.Wire

open Backends StatsdClient DataPath

variable {P : Type} (ops : PduOps P) (asBytes : P → Bytes)

/-! ### One event each -/

section Events

variable {s : Pipeline P} {t : ℕ} {task task' : ClientTask} {w : Writer}

theorem pipelineStep_recv {p : P} {rest : List P} (hp : (s.relay.queues t).pending = p :: rest)
    (hq : (s.relay.queues t).closed = false) (ht : s.relay.tasks t = some task)
    (hs : clientTaskStep task (.pdu (asBytes p)) = some task') (hw : s.writers t = some w)
    (hfit : task'.handed.length ≤ w.taken + bufChannelCapacity) :
    pipelineStep ops asBytes s (.relay (.recv t)) =
      some { s with relay := { s.relay with
        queues := Function.update s.relay.queues t { s.relay.queues t with pending := rest },
        tasks := Function.update s.relay.tasks t (some task'),
        took := Function.update s.relay.took t (s.relay.took t ++ [p]) } } := by
  simp [pipelineStep, Pipeline.pass, relayStep, hp, taskStep_of_step hq ht hs, fits, hw, hfit]

theorem pipelineStep_tick (hq : (s.relay.queues t).closed = false) (ht : s.relay.tasks t = some task)
    (hs : clientTaskStep task .tick = some task') (hw : s.writers t = some w)
    (hfit : task'.handed.length ≤ w.taken + bufChannelCapacity) :
    pipelineStep ops asBytes s (.relay (.tick t)) =
      some { s with relay := { s.relay with
        queues := Function.update s.relay.queues t { s.relay.queues t with pending := (s.relay.queues t).pending },
        tasks := Function.update s.relay.tasks t (some task'),
        took := Function.update s.relay.took t (s.relay.took t ++ []) } } := by
  simp [pipelineStep, Pipeline.pass, relayStep, taskStep_of_step hq ht hs, fits, hw, hfit]

theorem pipelineStep_take {b : Bytes} {sn : ClientSender} (hw : s.writers t = some w)
    (hrun : w.running = true) (ht : s.relay.tasks t = some task) (hb : task.handed[w.taken]? = some b)
    (hs : clientSenderStep w.sender (.recv (some b)) = some sn) :
    pipelineStep ops asBytes s (.take t) = some (s.setWriter t ⟨sn, w.taken + 1, true⟩) := by
  simp [pipelineStep, hw, ht, hrun, Pipeline.take, hb, hs]

theorem pipelineStep_wrote {n : ℕ} {sn : ClientSender} (hw : s.writers t = some w)
    (hrun : w.running = true) (hs : clientSenderStep w.sender (.wrote n) = some sn) :
    pipelineStep ops asBytes s (.sender t (.wrote n)) = some (s.setWriter t { w with sender := sn }) := by
  simp [pipelineStep, hw, hrun, ClientSender.returns, hs]

end Events

/-- A pass hands its writer at most one buffer, and no empty one. -/
theorem handed_step_drop {task task' : ClientTask} {e : TaskEvent} (hs : clientTaskStep task e = some task')
    {l : List Bytes} (hl : task'.handed = task.handed ++ l) : l.length ≤ 1 ∧ ∀ b ∈ l, b ≠ [] := by
  rcases handed_step_one hs with h | ⟨b, hb, h⟩ <;> rw [hl] at h
  · simp [List.append_right_eq_self.1 h]
  · simp [List.append_cancel_left h, hb]

/-! ### The writer -/

/-- A connected writer waiting for a buffer takes every untaken buffer of its task and
writes each whole; the target is left as it was, and the writer waits again. -/
theorem pipeline_write_all {t : ℕ} {task : ClientTask} :
    ∀ (bufs : List Bytes) {s : Pipeline P} {w : Writer} {c : Bytes}, s.relay.tasks t = some task →
      task.handed.drop w.taken = bufs → (∀ b ∈ bufs, b ≠ []) → s.writers t = some w → w.running = true →
      w.sender.pc = .receiving → w.sender.conn = some c →
      ∃ s' w', pipeline ops asBytes s (bufs.flatMap fun b => [.take t, .sender t (.wrote b.length)]) = some s' ∧
        s'.relay = s.relay ∧ s'.writers t = some w' ∧ w'.running = true ∧ w'.sender.pc = .receiving ∧
        w'.taken = w.taken + bufs.length ∧ w'.sender.conn = some (c ++ bufs.flatten)
  | [], s, w, c, _, _, _, hw, hrun, hpc, hc => ⟨s, w, rfl, rfl, hw, hrun, hpc, rfl, by simpa using hc⟩
  | b :: bufs, s, w, c, ht, hd, hne, hw, hrun, hpc, hc => by
    have hb : task.handed[w.taken]? = some b := by
      have := congrArg (·[0]?) hd
      simp only [List.getElem?_drop, Nat.add_zero] at this
      simpa using this
    have hbne : b ≠ [] := hne b (List.mem_cons_self _ _)
    let sn₁ : ClientSender := { w.sender with buf := b }.next
    have hpc₁ : sn₁.pc = .writing := by simp [sn₁, ClientSender.next_pc, hbne, hc]
    let sn₂ : ClientSender := { sn₁ with buf := [], conn := some (c ++ b), bytesSent := sn₁.bytesSent + b.length }.next
    let s₁ := s.setWriter t ⟨sn₁, w.taken + 1, true⟩
    have hw₁ : s₁.writers t = some ⟨sn₁, w.taken + 1, true⟩ := by simp [s₁, Pipeline.setWriter]
    obtain ⟨s', w', hrun', hrel, hw', hrunw', hpc', htk', hc'⟩ :=
      pipeline_write_all bufs (s := s₁.setWriter t ⟨sn₂, w.taken + 1, true⟩) (w := ⟨sn₂, w.taken + 1, true⟩)
        ht (by rw [← List.tail_drop, hd]; rfl) (fun b' h' => hne b' (List.mem_cons_of_mem _ h'))
        (by simp [Pipeline.setWriter]) rfl (by simp [sn₂, ClientSender.next_pc]) rfl
    refine ⟨s', w', ?_, hrel, hw', hrunw', hpc', by simp only [htk', List.length_cons]; omega, by simpa using hc'⟩
    show (pipelineStep ops asBytes s (.take t)).bind (fun s₁ =>
      (pipelineStep ops asBytes s₁ (.sender t (.wrote b.length))).bind (pipeline ops asBytes · _)) = _
    rw [pipelineStep_take ops asBytes hw hrun ht hb (clientSenderStep_recv_of_receiving hpc b), Option.some_bind,
      pipelineStep_wrote ops asBytes (n := b.length) hw₁ rfl (clientSenderStep_wrote_buf (c := c) hpc₁ (by simp [sn₁, hc])),
      Option.some_bind]
    exact hrun'

/-- Task `t` runs on an open channel with its writer there for it, and the writer runs,
waits for a buffer on a connection that holds `c`, and has taken every buffer the task
handed. -/
structure CaughtUp (s : Pipeline P) (t : ℕ) (task : ClientTask) (w : Writer) (c : Bytes) : Prop where
  task_eq : s.relay.tasks t = some task
  channel_open : (s.relay.queues t).closed = false
  writerOpen : task.writerOpen = true
  writer_eq : s.writers t = some w
  running : w.running = true
  receiving : w.sender.pc = .receiving
  conn : w.sender.conn = some c
  taken : w.taken = task.handed.length

/-- After a pass the writer, which had taken every buffer, finds room in the buffer channel:
a pass hands it at most one buffer. -/
theorem CaughtUp.fits {s : Pipeline P} {t : ℕ} {task task₁ : ClientTask} {w : Writer} {c : Bytes}
    (hc : CaughtUp s t task w c) {e : TaskEvent} (hs : clientTaskStep task e = some task₁) :
    task₁.handed.length ≤ w.taken + bufChannelCapacity := by
  rcases handed_step_one hs with h | ⟨b, -, h⟩ <;> simp [h, hc.taken, bufChannelCapacity]

/-- A pass of task `t` that handed `l` over and kept its channel open, followed by the writer
writing `l`: the writer, which had taken every buffer before the pass, is caught up again. -/
theorem CaughtUp.pass_write {s s₁ : Pipeline P} {t : ℕ} {task task₁ : ClientTask} {w : Writer} {c : Bytes}
    (hc : CaughtUp s t task w c) {e : TaskEvent} (hs : clientTaskStep task e = some task₁) (he : e ≠ .writerExit)
    {l : List Bytes} (hl : task₁.handed = task.handed ++ l) {ev : PipelineEvent P}
    (hstep : pipelineStep ops asBytes s ev = some s₁) (ht₁ : s₁.relay.tasks t = some task₁)
    (hq₁ : (s₁.relay.queues t).closed = false) (hw₁ : s₁.writers t = some w) :
    ∃ more s', pipeline ops asBytes s more = some s' ∧ s'.relay = s₁.relay ∧
      ∃ w', CaughtUp s' t task₁ w' (c ++ l.flatten) := by
  obtain ⟨s', w', hrun, hrel, hw', hrunw', hpc', htk', hc'⟩ := pipeline_write_all ops asBytes l ht₁
    (by rw [hl, hc.taken, List.drop_left]) (handed_step_drop hs hl).2 hw₁ hc.running hc.receiving hc.conn
  refine ⟨_ :: _, s', by rw [pipeline, hstep, Option.some_bind]; exact hrun, hrel, w', hrel ▸ ht₁, hrel ▸ hq₁,
    (writerOpen_step he hs).trans hc.writerOpen, hw', hrunw', hpc', hc', ?_⟩
  rw [htk', hc.taken, hl, List.length_append]

/-! ### The task -/

/-- One PDU: the task takes it, which fits since the writer has taken every buffer, and the
writer writes what the pass handed over. -/
theorem pipeline_recv_write {s : Pipeline P} {t : ℕ} {task : ClientTask} {w : Writer} {c : Bytes}
    (hc : CaughtUp s t task w c) {p : P} {rest : List P} (hp : (s.relay.queues t).pending = p :: rest) :
    ∃ more s' task' w' c', pipeline ops asBytes s more = some s' ∧ CaughtUp s' t task' w' c' ∧
      (s'.relay.queues t).pending = rest ∧ c' ++ task'.buf = c ++ task.buf ++ (asBytes p ++ [newline]) := by
  obtain ⟨task₁, hs⟩ := Option.isSome_iff_exists.1 (clientTaskStep_isSome hc.writerOpen (e := .pdu (asBytes p)) nofun)
  obtain ⟨l, hl, hf⟩ := clientTaskStep_pdu_frames hs
  obtain ⟨more, s', hrun, hrel, w', hc'⟩ := hc.pass_write ops asBytes hs nofun hl
    (pipelineStep_recv ops asBytes hp hc.channel_open hc.task_eq hs hc.writer_eq (hc.fits hs)) (by simp)
    (by simp [hc.channel_open]) hc.writer_eq
  refine ⟨more, s', task₁, w', _, hrun, hc', by simp [hrel], ?_⟩
  rw [List.append_assoc, hf]; simp

/-- The task takes every PDU waiting in its open channel, each pass followed by the writer
writing what it handed over; what the connection and the task's buffer hold grows by those
PDUs, framed. -/
theorem pipeline_recv_all {t : ℕ} :
    ∀ (pend : List P) {s : Pipeline P} {task : ClientTask} {w : Writer} {c : Bytes},
      CaughtUp s t task w c → (s.relay.queues t).pending = pend →
      ∃ more s' task' w' c', pipeline ops asBytes s more = some s' ∧ CaughtUp s' t task' w' c' ∧
        (s'.relay.queues t).pending = [] ∧ c' ++ task'.buf = c ++ task.buf ++ frameAll (pend.map asBytes)
  | [], s, task, w, c, hc, hp => ⟨[], s, task, w, c, rfl, hc, hp, by simp [frameAll]⟩
  | p :: rest, _, _, _, _, hc, hp => by
    obtain ⟨m₁, s₁, task₁, w₁, c₁, hrun₁, hc₁, hp₁, hf₁⟩ := pipeline_recv_write ops asBytes hc hp
    obtain ⟨m₂, s₂, task₂, w₂, c₂, hrun₂, hc₂, hp₂, hf₂⟩ := pipeline_recv_all rest hc₁ hp₁
    refine ⟨m₁ ++ m₂, s₂, task₂, w₂, c₂, by rw [pipeline_append, hrun₁, Option.some_bind]; exact hrun₂,
      hc₂, hp₂, ?_⟩
    rw [hf₂, hf₁]; simp [frameAll]

/-- A tick flushes the task's buffer and the writer writes it. -/
theorem pipeline_tick_write {s : Pipeline P} {t : ℕ} {task : ClientTask} {w : Writer} {c : Bytes}
    (hc : CaughtUp s t task w c) :
    ∃ more s' w', pipeline ops asBytes s more = some s' ∧
      (s'.relay.queues t).pending = (s.relay.queues t).pending ∧ s'.writers t = some w' ∧
      w'.sender.conn = some (c ++ task.buf) := by
  obtain ⟨task₁, hs⟩ := Option.isSome_iff_exists.1 (clientTaskStep_isSome hc.writerOpen (e := .tick) nofun)
  obtain ⟨l, hl, hf, -⟩ := clientTaskStep_tick_frames hs
  obtain ⟨more, s', hrun, hrel, w', hc'⟩ := hc.pass_write ops asBytes hs nofun hl
    (pipelineStep_tick ops asBytes hc.channel_open hc.task_eq hs hc.writer_eq (hc.fits hs)) (by simp)
    (by simp [hc.channel_open]) hc.writer_eq
  exact ⟨more, s', w', hrun, by simp [hrel], hc'.writer_eq, by rw [hc'.conn, hf]⟩

/-! ### Draining a task -/

/-- **Nothing is stuck.**  From every state a run reaches from the target
`StatsdBackend::new(conf)` in which task `t` and its writer run, the task's channel is open,
its writer is still there for it, and the writer is connected (having written `c` on the
stream) and waits for a buffer: the run can go on, with no failure and no send waiting for
room, to a state where the channel is empty and the writer's connection holds `c` followed
by the task's untaken buffers, its current buffer, and every PDU that waited in the
channel, each with its newline, in order. -/
theorem pipeline_drains (conf : StatsdDuplicateTo) (es : List (PipelineEvent P)) (s : Pipeline P)
    (h : pipeline ops asBytes (Pipeline.init conf) es = some s) (t : ℕ) (task : ClientTask) (w : Writer)
    (c : Bytes) (ht : s.relay.tasks t = some task) (hq : (s.relay.queues t).closed = false)
    (ho : task.writerOpen = true) (hw : s.writers t = some w) (hrun : w.running = true)
    (hpc : w.sender.pc = .receiving) (hc : w.sender.conn = some c) :
    ∃ more s', pipeline ops asBytes s more = some s' ∧ (s'.relay.queues t).pending = [] ∧
      ∃ w', s'.writers t = some w' ∧
        w'.sender.conn = some (c ++ (task.handed.drop w.taken).flatten ++ task.buf ++
          frameAll ((s.relay.queues t).pending.map asBytes)) := by
  have hi := pipeInv_run ops asBytes (pipeInv_init ops asBytes conf) h
  obtain ⟨hle, -⟩ := hi.writers t task w ht hw
  obtain ⟨htask, -⟩ := hi.relay.flow t task ht
  -- the writer first takes and writes every buffer waiting in its channel
  obtain ⟨s₁, w₁, hrun₁, hrel₁, hw₁, hrunw₁, hpc₁, htk₁, hc₁⟩ := pipeline_write_all ops asBytes _ ht rfl
    (fun b hb he => by simpa [he] using htask.handed_ends b (List.mem_of_mem_drop hb)) hw hrun hpc hc
  have hcu : CaughtUp s₁ t task w₁ (c ++ (task.handed.drop w.taken).flatten) :=
    ⟨hrel₁ ▸ ht, hrel₁ ▸ hq, ho, hw₁, hrunw₁, hpc₁, hc₁, by rw [htk₁, List.length_drop]; omega⟩
  obtain ⟨m₂, s₂, task₂, w₂, c₂, hrun₂, hc₂, hp₂, hf₂⟩ := pipeline_recv_all ops asBytes _ hcu (by rw [hrel₁])
  obtain ⟨m₃, s₃, w₃, hrun₃, hp₃, hw₃, hc₃⟩ := pipeline_tick_write ops asBytes hc₂
  refine ⟨(task.handed.drop w.taken).flatMap (fun b => [.take t, .sender t (.wrote b.length)]) ++ m₂ ++ m₃, s₃, ?_,
    hp₃.trans hp₂, w₃, hw₃, ?_⟩
  · rw [pipeline_append, pipeline_append, hrun₁, Option.some_bind, hrun₂, Option.some_bind]; exact hrun₃
  · rw [hc₃, hf₂]

theorem pipeline_drains_one_pdu :
    ∃ s : Pipeline Bytes,
      pipeline (⟨id, fun p a c => a ++ p ++ c, fun _ => 0, fun _ _ => true⟩ : PduOps Bytes) id
          (Pipeline.init ⟨["a"], none, none, none, none⟩) [.relay (.provide [97]), .sender 0 .connected] = some s ∧
        s.relay.tasks 0 = some ClientTask.init ∧ (s.relay.queues 0).closed = false ∧
        s.writers 0 = some ⟨⟨.receiving, [], some [], [], 0, 0, 1, 0⟩, 0, true⟩ ∧
        ∃ more s', pipeline (⟨id, fun p a c => a ++ p ++ c, fun _ => 0, fun _ _ => true⟩ : PduOps Bytes) id s more =
            some s' ∧ (s'.relay.queues 0).pending = [] ∧
          ∃ w', s'.writers 0 = some w' ∧
            w'.sender.conn = some ([] ++ (ClientTask.init.handed.drop 0).flatten ++ ClientTask.init.buf ++
              frameAll ((s.relay.queues 0).pending.map id)) :=
  ⟨_, rfl, rfl, rfl, rfl, pipeline_drains _ id ⟨["a"], none, none, none, none⟩
    [.relay (.provide [97]), .sender 0 .connected] _ rfl 0 _ ⟨⟨.receiving, [], some [], [], 0, 0, 1, 0⟩, 0, true⟩
    [] (by exact rfl) (by exact rfl) rfl (by exact rfl) rfl rfl rfl⟩

end StatsRelay.Wire
