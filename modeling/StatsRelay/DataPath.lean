import StatsRelay.Fanout
import StatsRelay.StatsdClient.ClientTask

/-! # The data path of one target: fan-out, channels and sender tasks

A duplication target hands each PDU to the channel of the sender task its ring picks
(`provide_statsd_pdu`), and each task's `client_task` loop takes the PDUs from its channel,
one per pass, and assembles the buffers it hands to its writer.  The two sides run
concurrently: the model is the target with its channels and the state of every task, and a
run is any interleaving of the events of both sides (`relayStep`).  When a task returns,
its receiver is dropped: the channel closes and what was waiting in it is lost, so later
`try_send` calls to that task fail; the model keeps the task's last state, whose handed
buffers stay with the writer.  The ring does not change along a run (no reload), so no
channel is closed from the sending side, and a closed channel means a returned task.

The state keeps, as a history variable, the PDUs each task has taken from its channel
(`Relay.took`).  `RelayInv` is the run invariant: for every task, those PDUs followed by
what still waits in the channel are a subsequence, in arrival order, of the PDUs the ring
routes to that task, and the task's buffers satisfy `TaskInv` for them.  Hence, along every interleaving, every task has handed to its writer,
or holds in its buffer, exactly the framed PDUs it took, and these and the PDUs still
queued for it come in the order they were provided, none twice
(`relay_delivers_in_order`). -/

namespace StatsRelay.DataPath

open Backends StatsdClient

variable {P : Type}

/-- A target with its sender tasks: the target, the channels, and each task's state
(`none` when no task was started under that identity); a task whose channel is closed has
returned, and its state is the last one it had. -/
structure Relay (P : Type) where
  backend : StatsdBackend
  queues : Queues P
  tasks : ℕ → Option ClientTask
  /-- History: the PDUs each task took from its channel, in order, on the passes after which
  it went on (the PDU of a pass on which it returns is lost with its channel). -/
  took : ℕ → List P

/-- The target `StatsdBackend::new(conf)` starts: each task it spawned runs, waiting on an
empty channel. -/
def Relay.init (conf : StatsdDuplicateTo) : Relay P :=
  ⟨StatsdBackend.new conf, Queues.empty,
    fun t => if t < (StatsdBackend.new conf).spawned then some ClientTask.init else none, fun _ => []⟩

/-- What happens next on either side. -/
inductive RelayEvent (P : Type) where
  /-- `Backends::provide_statsd_pdu(pdu)` from an ingress task. -/
  | provide (pdu : P)
  /-- Task `t`'s `recv.recv()` yields the first PDU of its channel. -/
  | recv (t : ℕ)
  /-- Task `t`'s ticker fires. -/
  | tick (t : ℕ)
  /-- Task `t`'s `client_sender` returns. -/
  | writerExit (t : ℕ)
  deriving DecidableEq, Repr

/-- Task `t` takes one pass on `e`, having taken `taken` from its channel and leaving `rest`
in it; when `client_task` returns, the channel closes and drops what waits in it.  `none`
when task `t` was not started or has returned. -/
def Relay.taskStep (s : Relay P) (t : ℕ) (taken rest : List P) (e : TaskEvent) : Option (Relay P) :=
  if (s.queues t).closed then none
  else
    (s.tasks t).map fun task =>
      match clientTaskStep task e with
      | some task' =>
        { s with queues := Function.update s.queues t { s.queues t with pending := rest },
                 tasks := Function.update s.tasks t (some task'),
                 took := Function.update s.took t (s.took t ++ taken) }
      | none => { s with queues := Function.update s.queues t ⟨[], true⟩ }

variable (ops : PduOps P) (asBytes : P → Bytes)

/-- One event; `none` when it cannot happen (a task that does not run, or a `recv` on an
empty channel). -/
def relayStep (s : Relay P) : RelayEvent P → Option (Relay P)
  | .provide pdu =>
    some { s with backend := (s.backend.provideStatsdPdu ops s.queues pdu).1,
                  queues := (s.backend.provideStatsdPdu ops s.queues pdu).2 }
  | .recv t =>
    match (s.queues t).pending with
    | [] => none
    | p :: rest => s.taskStep t [p] rest (.pdu (asBytes p))
  | .tick t => s.taskStep t [] (s.queues t).pending .tick
  | .writerExit t => s.taskStep t [] (s.queues t).pending .writerExit

/-- A run: the state after the events, `none` if one of them cannot happen. -/
def relay (s : Relay P) : List (RelayEvent P) → Option (Relay P)
  | [] => some s
  | e :: es => (relayStep ops asBytes s e).bind (relay · es)

/-- The PDUs provided along a run, in order. -/
def providedOf (es : List (RelayEvent P)) : List P :=
  es.filterMap fun | .provide p => some p | _ => none

/-! ### Steps of a task -/

section TaskStep

variable {s s' : Relay P} {t : ℕ} {taken rest : List P} {e : TaskEvent}

/-- A pass of task `t` leaves every other task, channel and history alone. -/
theorem taskStep_other (h : s.taskStep t taken rest e = some s') {t' : ℕ} (ht : t' ≠ t) :
    s'.tasks t' = s.tasks t' ∧ s'.queues t' = s.queues t' ∧ s'.took t' = s.took t' := by
  obtain ⟨-, h⟩ := Option.ite_none_left_eq_some.1 h
  obtain ⟨task, -, rfl⟩ := Option.map_eq_some'.1 h
  split <;> simp [Function.update_noteq ht]

theorem taskStep_backend (h : s.taskStep t taken rest e = some s') : s'.backend = s.backend := by
  obtain ⟨-, h⟩ := Option.ite_none_left_eq_some.1 h
  obtain ⟨task, -, rfl⟩ := Option.map_eq_some'.1 h
  split <;> rfl

/-- A pass of task `t` runs its loop once, on an open channel: the task goes on with `rest`
in its channel and `taken` added to what it took, or it has returned and its channel is
closed and empty. -/
theorem taskStep_self (h : s.taskStep t taken rest e = some s') :
    ∃ task, s.tasks t = some task ∧ (s.queues t).closed = false ∧
      ((∃ task', clientTaskStep task e = some task' ∧ s'.tasks t = some task' ∧
          s'.queues t = { s.queues t with pending := rest } ∧ s'.took t = s.took t ++ taken) ∨
        (clientTaskStep task e = none ∧ s'.tasks t = some task ∧ s'.queues t = ⟨[], true⟩ ∧
          s'.took t = s.took t)) := by
  obtain ⟨hopen, h⟩ := Option.ite_none_left_eq_some.1 h
  obtain ⟨task, htask, rfl⟩ := Option.map_eq_some'.1 h
  refine ⟨task, htask, by simpa using hopen, ?_⟩
  split
  · next task' hstep => exact .inl ⟨task', hstep, by simp, by simp, by simp⟩
  · next hstep => exact .inr ⟨hstep, htask, by simp, rfl⟩

theorem taskStep_of_step {task task' : ClientTask} (hq : (s.queues t).closed = false)
    (ht : s.tasks t = some task) (hs : clientTaskStep task e = some task') :
    s.taskStep t taken rest e =
      some { s with queues := Function.update s.queues t { s.queues t with pending := rest },
                    tasks := Function.update s.tasks t (some task'),
                    took := Function.update s.took t (s.took t ++ taken) } := by
  simp [Relay.taskStep, hq, ht, hs]

/-- A pass of task `t` only appends to the buffers any task has handed to its writer. -/
theorem taskStep_handed (h : s.taskStep t taken rest e = some s') {t' : ℕ} {task' : ClientTask}
    (ht : s'.tasks t' = some task') : ∃ task l, s.tasks t' = some task ∧ task'.handed = task.handed ++ l := by
  by_cases htt : t' = t
  · subst htt
    obtain ⟨task, htask, -, ⟨task'', hstep, hs', -⟩ | ⟨-, hs', -⟩⟩ := taskStep_self h <;>
      rw [hs'] at ht <;> cases ht
    · obtain ⟨l, hl⟩ := handed_step hstep
      exact ⟨task, l, htask, hl⟩
    · exact ⟨_, [], htask, (List.append_nil _).symm⟩
  · rw [(taskStep_other h htt).1] at ht
    exact ⟨task', [], ht, (List.append_nil _).symm⟩

end TaskStep

/-- The PDUs that pass the target's filter and that its ring sends to task `t`, with the
target's prefix and suffix: what task `t` may receive. -/
def routed (b : StatsdBackend) (t : ℕ) (inputs : List P) : List P :=
  (b.routedTo ops t inputs).map (b.outgoing ops)

theorem routed_append (b : StatsdBackend) (t : ℕ) (xs ys : List P) :
    routed ops b t (xs ++ ys) = routed ops b t xs ++ routed ops b t ys := by
  simp [routed, StatsdBackend.routedTo, List.filter_append]

/-! ### The run invariant -/

/-- What holds of task `t` between events, `inputs` being the PDUs provided so far: once
it was started, the PDUs it took from its channel satisfy `TaskInv`, and they and the PDUs
still waiting are a subsequence of what the ring routes to it. -/
def TaskFlow (b : StatsdBackend) (inputs : List P) (s : Relay P) (t : ℕ) : Prop :=
  ∀ task, s.tasks t = some task → TaskInv ((s.took t).map asBytes) task ∧
    (s.took t ++ (s.queues t).pending).Sublist (routed ops b t inputs)

/-- The invariant of a run from a target `b`: the target is `b` up to its `warning_log`,
and every task flows. -/
structure RelayInv (b : StatsdBackend) (inputs : List P) (s : Relay P) : Prop where
  backend : ∃ w, s.backend = { b with warningLog := w }
  flow : ∀ t, TaskFlow ops asBytes b inputs s t

theorem taskFlow_append {b : StatsdBackend} {inputs : List P} {s : Relay P} {t : ℕ}
    (h : TaskFlow ops asBytes b inputs s t) (more : List P) :
    TaskFlow ops asBytes b (inputs ++ more) s t := fun task ht => by
  obtain ⟨hi, hsub⟩ := h task ht
  exact ⟨hi, routed_append ops b t inputs more ▸ hsub.trans (List.sublist_append_left _ _)⟩

/-! ### Steps keep the invariant -/

section Steps

variable {b : StatsdBackend} {inputs : List P}

/-- A pass of task `t` that takes `taken` from the front of its channel keeps every task
flowing. -/
theorem flow_taskStep {s s' : Relay P} {t : ℕ} {taken rest : List P} {e : TaskEvent}
    (hf : ∀ t, TaskFlow ops asBytes b inputs s t) (hq : (s.queues t).pending = taken ++ rest)
    (he : pdusOf [e] = taken.map asBytes) (h : s.taskStep t taken rest e = some s') :
    ∀ t', TaskFlow ops asBytes b inputs s' t' := by
  intro t' task' ht'
  by_cases htt : t' = t
  · subst htt
    obtain ⟨task, htask, -, ⟨task'', hstep, hs', hq', htook⟩ | ⟨-, hs', hq', htook⟩⟩ := taskStep_self h <;>
      rw [hs'] at ht' <;> cases ht' <;> obtain ⟨hinv, hsub⟩ := hf t' _ htask <;> rw [htook]
    · refine ⟨?_, ?_⟩
      · have := taskInv_step hinv hstep
        rwa [he, ← List.map_append] at this
      · rw [hq', List.append_assoc, ← hq]
        exact hsub
    · refine ⟨hinv, ?_⟩
      simp only [hq', List.append_nil]
      exact (List.sublist_append_left _ _).trans hsub
  · obtain ⟨htk, hqu, htook⟩ := taskStep_other h htt
    rw [htk] at ht'
    rw [htook, hqu]
    exact hf t' task' ht'

/-- A `provide_statsd_pdu` keeps every task flowing, the PDU joining the inputs. -/
theorem relayInv_provide {s : Relay P} (hi : RelayInv ops asBytes b inputs s) (pdu : P) :
    RelayInv ops asBytes b (inputs ++ [pdu])
      { s with backend := (s.backend.provideStatsdPdu ops s.queues pdu).1,
               queues := (s.backend.provideStatsdPdu ops s.queues pdu).2 } := by
  obtain ⟨w, hb⟩ := hi.backend
  have hmono := fun t => taskFlow_append ops asBytes (hi.flow t) [pdu]
  rcases StatsdBackend.provideStatsdPdu_cases ops s.backend s.queues pdu with
    ⟨-, hst⟩ | ⟨c, ha, hp, ⟨-, hst⟩ | ⟨-, hst⟩⟩ <;> simp only [hst]
  · exact ⟨⟨w, hb⟩, hmono⟩
  · refine ⟨⟨w, hb⟩, fun t task ht => ?_⟩
    obtain ⟨hinv, hsub⟩ := hi.flow t task ht
    refine ⟨hinv, ?_⟩
    rw [Queues.push_pending]
    split
    · next htc =>
      subst htc
      have ha' : b.admits ops pdu = true := by rw [hb] at ha; exact ha
      have hp' : b.pick ops pdu = some c := by rw [hb] at hp; exact hp
      have hr : routed ops b c.task [pdu] = [b.outgoing ops pdu] := by
        simp [routed, StatsdBackend.routedTo, ha', hp']
      rw [routed_append, hr, hb, StatsdBackend.outgoing_warningLog, ← List.append_assoc]
      exact hsub.append (List.Sublist.refl _)
    · rw [routed_append]
      exact hsub.trans (List.sublist_append_left _ _)
  · exact ⟨⟨w + 1, by rw [hb]⟩, hmono⟩

/-- Everything an event can do: a `provide_statsd_pdu`, or a pass of a task on an open
channel that takes `taken` (the PDU of a `recv`, nothing otherwise) from its front. -/
theorem relayStep_cases {s s' : Relay P} {e : RelayEvent P} (h : relayStep ops asBytes s e = some s') :
    (∃ pdu, e = .provide pdu ∧ s' = { s with backend := (s.backend.provideStatsdPdu ops s.queues pdu).1,
                                               queues := (s.backend.provideStatsdPdu ops s.queues pdu).2 }) ∨
    (∃ t taken rest te, providedOf [e] = [] ∧ (s.queues t).pending = taken ++ rest ∧
      pdusOf [te] = taken.map asBytes ∧ s.taskStep t taken rest te = some s') := by
  cases e with
  | provide pdu => cases h; exact .inl ⟨pdu, rfl, rfl⟩
  | recv t =>
    simp only [relayStep] at h
    split at h
    · cases h
    · next p rest hq => exact .inr ⟨t, [p], rest, .pdu (asBytes p), rfl, hq, rfl, h⟩
  | tick t => exact .inr ⟨t, [], _, .tick, rfl, rfl, rfl, h⟩
  | writerExit t => exact .inr ⟨t, [], _, .writerExit, rfl, rfl, rfl, h⟩

/-- An event only appends to the buffers any task has handed to its writer. -/
theorem relayStep_handed {s s' : Relay P} {e : RelayEvent P} (h : relayStep ops asBytes s e = some s')
    {t : ℕ} {task' : ClientTask} (ht : s'.tasks t = some task') :
    ∃ task l, s.tasks t = some task ∧ task'.handed = task.handed ++ l := by
  rcases relayStep_cases ops asBytes h with ⟨_, -, rfl⟩ | ⟨_, _, _, _, -, -, -, hs⟩
  · exact ⟨task', [], ht, (List.append_nil _).symm⟩
  · exact taskStep_handed hs ht

theorem providedOf_cons (e : RelayEvent P) (es : List (RelayEvent P)) :
    providedOf (e :: es) = providedOf [e] ++ providedOf es := by
  cases e <;> rfl

/-- One event keeps the invariant, a provided PDU joining the inputs. -/
theorem relayInv_step {s s' : Relay P} (hi : RelayInv ops asBytes b inputs s) {e : RelayEvent P}
    (h : relayStep ops asBytes s e = some s') :
    RelayInv ops asBytes b (inputs ++ providedOf [e]) s' := by
  rcases relayStep_cases ops asBytes h with ⟨pdu, rfl, rfl⟩ | ⟨_, taken, _, _, he, hq, hte, hs⟩
  · exact relayInv_provide ops asBytes hi pdu
  · rw [he, List.append_nil]
    exact ⟨taskStep_backend hs ▸ hi.backend, flow_taskStep ops asBytes hi.flow hq hte hs⟩

theorem relayInv_run :
    ∀ {es : List (RelayEvent P)} {ins : List P} {s s' : Relay P}, RelayInv ops asBytes b ins s →
      relay ops asBytes s es = some s' → RelayInv ops asBytes b (ins ++ providedOf es) s'
  | [], _, _, _, hi, h => by cases h; simpa [providedOf] using hi
  | e :: es, _, _, _, hi, h => by
    obtain ⟨s₁, h₁, h₂⟩ := Option.bind_eq_some.1 h
    have := relayInv_run (relayInv_step ops asBytes hi h₁) h₂
    rwa [List.append_assoc, ← providedOf_cons] at this

end Steps

/-! ### Runs from `StatsdBackend::new` -/

theorem relayInv_init (conf : StatsdDuplicateTo) :
    RelayInv ops asBytes (StatsdBackend.new conf) [] (Relay.init conf : Relay P) := by
  refine ⟨⟨_, rfl⟩, fun t task ht => ⟨?_, List.nil_sublist _⟩⟩
  simp only [Relay.init] at ht
  split at ht
  · cases ht; exact taskInv_init
  · cases ht

/-- **Every task writes what it takes, in order.**  Along every interleaving of
`provide_statsd_pdu` calls and passes of the sender tasks, from the target
`StatsdBackend::new(conf)` starts, every task, running or returned: the buffers it handed to
its writer, then its current buffer, are the PDUs it took from its channel, each with its
newline; every handed buffer ends with a newline and the current one is below
`SEND_THRESHOLD`; and the PDUs it took followed by what still waits in the channel are a
subsequence, in order, of the provided PDUs that the target's filter passes and its ring
sends to that task, with the target's prefix and suffix.  So no PDU reaches a writer twice,
out of order, or through another endpoint's task. -/
theorem relay_delivers_in_order (conf : StatsdDuplicateTo) (es : List (RelayEvent P))
    (s : Relay P) (h : relay ops asBytes (Relay.init conf) es = some s) (t : ℕ) (task : ClientTask)
    (ht : s.tasks t = some task) :
    task.handed.flatten ++ task.buf = frameAll ((s.took t).map asBytes) ∧
      (∀ b ∈ task.handed, b ≠ [] ∧ b.getLast? = some newline) ∧ task.buf.length < sendThreshold ∧
      (s.took t ++ (s.queues t).pending).Sublist
        (((StatsdBackend.new conf).routedTo ops t (providedOf es)).map
          ((StatsdBackend.new conf).outgoing ops)) := by
  have hi := relayInv_run ops asBytes (relayInv_init ops asBytes conf) h
  obtain ⟨hinv, hsub⟩ := hi.flow t task ht
  refine ⟨hinv.concat, fun b hb => ⟨fun he => ?_, hinv.handed_ends b hb⟩, hinv.buf_lt, hsub⟩
  simpa [he] using hinv.handed_ends b hb

theorem relay_delivers_in_order_one_pdu :
    ∃ s : Relay Bytes,
      relay (⟨id, fun p a c => a ++ p ++ c, fun _ => 0, fun _ _ => true⟩ : PduOps Bytes) id
          (Relay.init ⟨["a"], none, none, none, none⟩) [.provide [97], .recv 0] = some s ∧
        s.tasks 0 = some ⟨[97, 10], [], true, 1, 0, 1⟩ ∧ s.took 0 = [[97]] ∧
        [[]].flatten ++ [97, 10] = frameAll ((s.took 0).map id) ∧
          (∀ b ∈ ([] : List Bytes), b ≠ [] ∧ b.getLast? = some newline) ∧
          ([97, 10] : Bytes).length < sendThreshold ∧
          (s.took 0 ++ (s.queues 0).pending).Sublist
            (((StatsdBackend.new ⟨["a"], none, none, none, none⟩).routedTo
                (⟨id, fun p a c => a ++ p ++ c, fun _ => 0, fun _ _ => true⟩ : PduOps Bytes) 0
                (providedOf [.provide [97], .recv 0])).map
              ((StatsdBackend.new ⟨["a"], none, none, none, none⟩).outgoing
                (⟨id, fun p a c => a ++ p ++ c, fun _ => 0, fun _ _ => true⟩ : PduOps Bytes))) :=
  ⟨_, rfl, rfl, rfl,
    relay_delivers_in_order _ id _ _ _ (by exact rfl) 0 ⟨[97, 10], [], true, 1, 0, 1⟩ (by exact rfl)⟩

end StatsRelay.DataPath
