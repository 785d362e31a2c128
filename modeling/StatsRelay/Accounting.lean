import StatsRelay.DataPath

/-! # Accounting: where every PDU that reaches `try_send` went

A PDU that passes a target's filter on a ring with a client reaches `try_send`.  From
there it joins the channel of its task or, when the channel is full or closed, is counted
in `warning_log`; a task takes the PDUs of its channel one at a time and counts each in
`messages_queued`.  The one place a PDU leaves the books is a task's return: its receiver
is dropped with whatever still waits in its channel.

* `Relay.held`: the PDUs a task holds, waiting in its channel or counted by its
  `messages_queued`; `Relay.tally` sums them over a list of tasks.
* `AccInv`: every PDU that reached `try_send` is counted in `warning_log`, held by a task
  of the ring, or was lost with the channel of a task of the ring that returned.

Hence along every interleaving, `warning_log` plus what the ring's tasks hold is at most
the number of PDUs that reached `try_send`, and equal to it while every channel is open
(`relay_accounts`): no PDU is lost or counted twice before a task returns. -/

namespace StatsRelay.DataPath

open Backends StatsdClient

variable {P : Type} (ops : PduOps P) (asBytes : P → Bytes)

/-- The PDUs task `t` holds: those waiting in its channel, and those it took, as its
`messages_queued` counts them. -/
def Relay.held (s : Relay P) (t : ℕ) : ℕ :=
  (s.queues t).pending.length + ((s.tasks t).map (·.messagesQueued)).getD 0

/-- The PDUs the tasks `ts` hold. -/
def Relay.tally (s : Relay P) : List ℕ → ℕ
  | [] => 0
  | t :: ts => s.held t + s.tally ts

/-- The tasks of a target's ring, each once. -/
def ringTasks (b : StatsdBackend) : List ℕ := (b.ring.members.map (·.task)).dedup

/-- The PDUs of `inputs` that reach `try_send` at target `b`. -/
def toSend (b : StatsdBackend) (inputs : List P) : List P :=
  inputs.filter fun p => b.admits ops p && (b.pick ops p).isSome

/-! ### Sums over tasks -/

section Tally

variable {s s' : Relay P}

theorem tally_eq (hq : s'.queues = s.queues) (ht : s'.tasks = s.tasks) :
    ∀ ts : List ℕ, s'.tally ts = s.tally ts
  | [] => rfl
  | t :: ts => by simp only [Relay.tally, Relay.held, hq, ht, tally_eq hq ht ts]

/-- Changing what one task holds changes the sum by as much, once per occurrence. -/
theorem tally_congr {t : ℕ} (h : ∀ t', t' ≠ t → s'.held t' = s.held t') :
    ∀ ts : List ℕ, s'.tally ts + ts.count t * s.held t = s.tally ts + ts.count t * s'.held t
  | [] => by simp [Relay.tally]
  | u :: ts => by
    have ih := tally_congr h ts
    rw [Relay.tally, Relay.tally, List.count_cons]
    by_cases hu : u = t
    · subst hu; simp only [beq_self_eq_true, if_true, Nat.succ_mul]; omega
    · simp only [h u hu, beq_iff_eq, hu, if_false, Nat.add_zero]; omega

theorem tally_backend (x : StatsdBackend) (ts : List ℕ) : ({ s with backend := x } : Relay P).tally ts = s.tally ts :=
  @tally_eq P s { s with backend := x } rfl rfl ts

theorem count_ringTasks {b : StatsdBackend} {t : ℕ} :
    (ringTasks b).count t = if t ∈ ringTasks b then 1 else 0 := by
  split_ifs with ht
  · exact List.count_eq_one_of_mem (List.nodup_dedup _) ht
  · exact List.count_eq_zero_of_not_mem ht

end Tally

/-! ### The books -/

/-- The accounting of a run from target `b`, `inputs` being the PDUs provided so far: the
target is `b` up to its `warning_log`; only the ring's tasks ever hold a waiting PDU; and
the PDUs that reached `try_send` are those counted in `warning_log`, those the ring's tasks
hold, and those lost with the channel of a task of the ring that returned. -/
structure AccInv (b : StatsdBackend) (inputs : List P) (s : Relay P) : Prop where
  backend : s.backend = { b with warningLog := s.backend.warningLog }
  outside : ∀ t, t ∉ ringTasks b → (s.queues t).pending = []
  books : ∃ lost, s.backend.warningLog + s.tally (ringTasks b) + lost = (toSend ops b inputs).length ∧
    (lost = 0 ∨ ∃ t ∈ ringTasks b, (s.queues t).closed = true)

section Steps

variable {b : StatsdBackend} {inputs : List P} {s s' : Relay P}

theorem toSend_append_singleton (pdu : P) :
    toSend ops b (inputs ++ [pdu]) =
      toSend ops b inputs ++ if b.admits ops pdu && (b.pick ops pdu).isSome then [pdu] else [] := by
  unfold toSend
  split_ifs with h <;> simp [List.filter_append, h]

/-- A `provide_statsd_pdu` keeps the books: a PDU that reaches `try_send` joins the channel
of a task of the ring or is counted in `warning_log`. -/
theorem accInv_provide (hi : AccInv ops b inputs s) (pdu : P) :
    AccInv ops b (inputs ++ [pdu])
      { s with backend := (s.backend.provideStatsdPdu ops s.queues pdu).1,
               queues := (s.backend.provideStatsdPdu ops s.queues pdu).2 } := by
  obtain ⟨lost, hbooks, hlost⟩ := hi.books
  have hb := hi.backend
  have hadm : s.backend.admits ops pdu = b.admits ops pdu := by
    rw [hb, StatsdBackend.admits_warningLog]
  have hpick : s.backend.pick ops pdu = b.pick ops pdu := by
    rw [hb, StatsdBackend.pick_warningLog]
  rcases StatsdBackend.provideStatsdPdu_cases ops s.backend s.queues pdu with
    ⟨hno, hst⟩ | ⟨c, ha, hp, ⟨-, hst⟩ | ⟨-, hst⟩⟩ <;> simp only [hst]
  · have hno' : (b.admits ops pdu && (b.pick ops pdu).isSome) = false := by
      rw [← hadm, ← hpick]; rcases hno with h | h <;> simp [h]
    refine ⟨hb, hi.outside, lost, ?_, hlost⟩
    rw [toSend_append_singleton, hno', if_neg Bool.false_ne_true, List.append_nil, ← hbooks,
      tally_backend]
  · rw [hadm] at ha; rw [hpick] at hp
    have hmem : c.task ∈ ringTasks b :=
      List.mem_dedup.2 (List.mem_map_of_mem _ (StatsdBackend.pick_mem ops hp))
    have hsum := @tally_congr P s { s with queues := s.queues.push c.task (s.backend.outgoing ops pdu) }
      c.task (fun t' ht' => by simp [Relay.held, ht']) (ringTasks b)
    rw [count_ringTasks, if_pos hmem] at hsum
    refine ⟨hb, fun t ht => ?_, lost, ?_, ?_⟩
    · have hne : t ≠ c.task := fun he => ht (he ▸ hmem)
      simp [hne, hi.outside t ht]
    · rw [toSend_append_singleton, if_pos (by simp [ha, hp]), List.length_append, ← hbooks]
      simp only [Relay.held, Queues.push_pending, if_true, List.length_append, List.length_singleton] at hsum
      simp only [List.length_singleton]
      omega
    · exact hlost.imp_right fun ⟨t, ht, hc⟩ => ⟨t, ht, by simpa using hc⟩
  · rw [hadm] at ha; rw [hpick] at hp
    refine ⟨by rw [hb], hi.outside, lost, ?_, hlost⟩
    rw [toSend_append_singleton, if_pos (by simp [ha, hp]), List.length_append, ← hbooks,
      tally_backend]
    simp only [List.length_singleton]
    omega

/-- A pass of task `t` keeps what the task holds, or the task returns and drops what waited
in its channel, which is then closed. -/
theorem held_taskStep {t : ℕ} {taken rest : List P} {e : TaskEvent} (h : s.taskStep t taken rest e = some s')
    (hq : (s.queues t).pending = taken ++ rest) (he : pdusOf [e] = taken.map asBytes) :
    s'.held t = s.held t ∨ (s'.held t + (s.queues t).pending.length = s.held t ∧ (s'.queues t).closed = true) := by
  obtain ⟨task, htask, -, ⟨task', hstep, hs', hq', -⟩ | ⟨-, hs', hq', -⟩⟩ := taskStep_self h
  · have hm := messagesQueued_step hstep
    rw [he, List.length_map] at hm
    left
    simp only [Relay.held, hs', hq', htask, hq, Option.map_some', Option.getD_some, hm, List.length_append]
    omega
  · right
    simp [Relay.held, hs', hq', htask, Nat.add_comm]

/-- A pass of a task keeps the books; a task of the ring that returns moves what waited in
its channel to the lost PDUs. -/
theorem accInv_taskStep (hi : AccInv ops b inputs s) {t : ℕ} {taken rest : List P} {e : TaskEvent}
    (h : s.taskStep t taken rest e = some s') (hq : (s.queues t).pending = taken ++ rest)
    (he : pdusOf [e] = taken.map asBytes) : AccInv ops b inputs s' := by
  obtain ⟨lost, hbooks, hlost⟩ := hi.books
  have hother : ∀ t', t' ≠ t → s'.held t' = s.held t' := fun t' ht' => by
    obtain ⟨hta, hqu, -⟩ := taskStep_other h ht'
    simp [Relay.held, hta, hqu]
  have hsum := tally_congr hother (ringTasks b)
  obtain ⟨task, -, hopen, -⟩ := taskStep_self h
  have hclosed : ∀ t', (s.queues t').closed = true → (s'.queues t').closed = true := fun t' hc => by
    have ht' : t' ≠ t := fun he' => by rw [he', hopen] at hc; cases hc
    rw [(taskStep_other h ht').2.1]; exact hc
  have hlost' : lost = 0 ∨ ∃ t ∈ ringTasks b, (s'.queues t).closed = true :=
    hlost.imp_right fun ⟨t₀, ht₀, hc₀⟩ => ⟨t₀, ht₀, hclosed t₀ hc₀⟩
  refine ⟨(taskStep_backend h).symm ▸ hi.backend, fun t' ht' => ?_, ?_⟩
  · by_cases htt : t' = t
    · subst htt
      have hnil : taken ++ rest = [] := hq ▸ hi.outside t' ht'
      obtain ⟨task, -, -, ⟨_, -, -, hq', -⟩ | ⟨-, -, hq', -⟩⟩ := taskStep_self h <;> rw [hq']
      exact (List.append_eq_nil.1 hnil).2
    · rw [(taskStep_other h htt).2.1]; exact hi.outside t' ht'
  · rw [taskStep_backend h]
    by_cases hmem : t ∈ ringTasks b
    · rw [count_ringTasks, if_pos hmem] at hsum
      rcases held_taskStep asBytes h hq he with hheld | ⟨hheld, hc⟩
      · exact ⟨lost, by omega, hlost'⟩
      · exact ⟨lost + (s.queues t).pending.length, by omega, .inr ⟨t, hmem, hc⟩⟩
    · rw [count_ringTasks, if_neg hmem] at hsum
      exact ⟨lost, by omega, hlost'⟩

theorem accInv_step (hi : AccInv ops b inputs s) {e : RelayEvent P} (h : relayStep ops asBytes s e = some s') :
    AccInv ops b (inputs ++ providedOf [e]) s' := by
  rcases relayStep_cases ops asBytes h with ⟨pdu, rfl, rfl⟩ | ⟨_, _, _, _, he, hq, hte, hs⟩
  · exact accInv_provide ops hi pdu
  · rw [he, List.append_nil]
    exact accInv_taskStep ops asBytes hi hs hq hte

theorem accInv_run :
    ∀ {es : List (RelayEvent P)} {ins : List P} {s s' : Relay P}, AccInv ops b ins s →
      relay ops asBytes s es = some s' → AccInv ops b (ins ++ providedOf es) s'
  | [], _, _, _, hi, h => by cases h; simpa [providedOf] using hi
  | e :: es, _, _, _, hi, h => by
    obtain ⟨s₁, h₁, h₂⟩ := Option.bind_eq_some.1 h
    have := accInv_run (accInv_step ops asBytes hi h₁) h₂
    rwa [List.append_assoc, ← providedOf_cons] at this

end Steps

theorem tally_init (conf : StatsdDuplicateTo) : ∀ ts : List ℕ, (Relay.init conf : Relay P).tally ts = 0
  | [] => rfl
  | t :: ts => by
    rw [Relay.tally, tally_init conf ts, Relay.held]
    by_cases ht : t < (StatsdBackend.new conf).spawned <;> simp [Relay.init, Queues.empty, ht, ClientTask.init]

theorem accInv_init (conf : StatsdDuplicateTo) :
    AccInv ops (StatsdBackend.new conf) [] (Relay.init conf : Relay P) :=
  ⟨rfl, fun _ _ => rfl, ⟨0, by rw [tally_init]; rfl, .inl rfl⟩⟩

/-- **Every PDU that reaches `try_send` is accounted for.**  Along every interleaving of
`provide_statsd_pdu` calls and passes of the sender tasks, from the target
`StatsdBackend::new(conf)` starts: `warning_log` plus the PDUs the ring's tasks hold
(waiting in their channels, or taken and counted by their `messages_queued`) is at most the
number of provided PDUs that passed the filter on a ring with a client; and while every
channel of the ring is open, it is exactly that number.  So a PDU is lost without a count
only with the channel of a task that has returned. -/
theorem relay_accounts (conf : StatsdDuplicateTo) (es : List (RelayEvent P)) (s : Relay P)
    (h : relay ops asBytes (Relay.init conf) es = some s) :
    s.backend.warningLog + s.tally (ringTasks (StatsdBackend.new conf)) ≤
        (toSend ops (StatsdBackend.new conf) (providedOf es)).length ∧
      ((∀ t ∈ ringTasks (StatsdBackend.new conf), (s.queues t).closed = false) →
        s.backend.warningLog + s.tally (ringTasks (StatsdBackend.new conf)) =
          (toSend ops (StatsdBackend.new conf) (providedOf es)).length) := by
  obtain ⟨-, -, lost, hbooks, hlost⟩ := accInv_run ops asBytes (accInv_init ops conf) h
  rw [List.nil_append] at hbooks
  refine ⟨by omega, fun hopen => ?_⟩
  rcases hlost with rfl | ⟨t, ht, hc⟩
  · omega
  · rw [hopen t ht] at hc; cases hc

theorem relay_accounts_one_pdu :
    ∃ s : Relay Bytes,
      relay (⟨id, fun p a c => a ++ p ++ c, fun _ => 0, fun _ _ => true⟩ : PduOps Bytes) id
          (Relay.init ⟨["a"], none, none, none, none⟩) [.provide [97], .recv 0] = some s ∧
        s.tally (ringTasks (StatsdBackend.new ⟨["a"], none, none, none, none⟩)) = 1 ∧
        (s.backend.warningLog + s.tally (ringTasks (StatsdBackend.new ⟨["a"], none, none, none, none⟩)) ≤
            (toSend (⟨id, fun p a c => a ++ p ++ c, fun _ => 0, fun _ _ => true⟩ : PduOps Bytes)
              (StatsdBackend.new ⟨["a"], none, none, none, none⟩) (providedOf [.provide [97], .recv 0])).length ∧
          ((∀ t ∈ ringTasks (StatsdBackend.new ⟨["a"], none, none, none, none⟩), (s.queues t).closed = false) →
            s.backend.warningLog + s.tally (ringTasks (StatsdBackend.new ⟨["a"], none, none, none, none⟩)) =
              (toSend (⟨id, fun p a c => a ++ p ++ c, fun _ => 0, fun _ _ => true⟩ : PduOps Bytes)
                (StatsdBackend.new ⟨["a"], none, none, none, none⟩) (providedOf [.provide [97], .recv 0])).length)) :=
  ⟨_, rfl, rfl, relay_accounts _ id ⟨["a"], none, none, none, none⟩ [.provide [97], .recv 0] _ rfl⟩

end StatsRelay.DataPath
