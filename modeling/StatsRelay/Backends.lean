import Mathlib.Data.List.Basic
import StatsRelay.Bytes

/-! # Duplication targets: `StatsdBackend`

A `StatsdBackend` (`backends.rs`) is one duplication target: a ring of client handles,
each driving a sender task for one endpoint.  `StatsdBackend::new` builds the ring from the
shard map, memoizing clients by endpoint so that repeated endpoints share one task.
`reload_backends` reads the old ring into a map from endpoint to client, scanning the slots
`0..len` through `pick_from(i as u32)`, then builds the new ring from the new shard map,
cloning an old client where the map has one and starting a fresh client otherwise.

A client handle is its endpoint and the identity of the task it drives; clones share the
task.  A fresh client gets the next identity of the target's task counter.  What the two
ring builders guarantee: on every old ring of at most `2 ^ 32` slots, `reload_backends`
puts a client for `m[i]` in slot `i`, an old one whenever `m[i]` was an old endpoint and a
fresh one only otherwise (`reloadBackends_slots`), and it starts one task per shard no old
client serves (`reloadBackends_reuses_old_clients`).  The bound is the one the scan's
`i as u32` needs to read every slot.  `StatsdBackend::new` keeps one task per
endpoint (`new_one_task_per_endpoint`), but `reload_backends` does not memoize the fresh
clients it creates, so a new endpoint repeated in the shard map gets one task per
occurrence (`reloadBackends_duplicates_fresh_endpoint`).  Reloading the shard map a target
was built from keeps its ring and starts no task (`new_reloadBackends_same_map`). -/

namespace StatsRelay.Backends

/-- A handle to a sender task (`StatsdClient`); clones share the task. -/
structure StatsdClient where
  endpoint : String
  /-- The sender task and its queue (the shared `Arc<StatsdClientInner>`). -/
  task : ℕ
  /-- The capacity of the task's receive queue. -/
  channelBuffer : ℕ
  deriving DecidableEq, Repr

/-- Modelled from the spec: `shard::Ring`, an ordered sequence of clients, replaced whole
on reconfiguration. -/
structure Ring (C : Type) where
  members : List C
  deriving DecidableEq, Repr

namespace Ring

variable {C : Type}

/-- Modelled from the spec: `Ring::new()`. -/
def new : Ring C := ⟨[]⟩

/-- Modelled from the spec: `Ring::push(c)`. -/
def push (r : Ring C) (c : C) : Ring C := ⟨r.members ++ [c]⟩

/-- Modelled from the spec: `Ring::len()`. -/
def len (r : Ring C) : ℕ := r.members.length

/-- Modelled from the spec: `Ring::pick_from(code)`, the member at `code mod len`; `none`
on an empty ring. -/
def pickFrom (r : Ring C) (code : ℕ) : Option C := r.members[code % r.members.length]?

end Ring

/-- Modelled from the spec: `config::StatsdDuplicateTo`, one `duplicate_to` entry. -/
structure StatsdDuplicateTo where
  shardMap : List String
  /-- `prefix`. -/
  metricPrefix : Option String
  /-- `suffix`. -/
  metricSuffix : Option String
  inputFilter : Option String
  inputBlacklist : Option String
  deriving DecidableEq, Repr

/-- A `HashMap<String, StatsdClient>`; `insert` replaces. -/
def Memo := String → Option StatsdClient

/-- `HashMap::new()`. -/
def Memo.empty : Memo := fun _ => none

/-- `memoize.insert(k, v)`. -/
def Memo.insert (m : Memo) (k : String) (v : StatsdClient) : Memo :=
  fun k' => if k' = k then some v else m k'

/-- A duplication target, with the number of sender tasks it has started. -/
structure StatsdBackend where
  conf : StatsdDuplicateTo
  ring : Ring StatsdClient
  /-- The patterns of the compiled `RegexSet`, when there are any. -/
  inputFilter : Option (List String)
  warningLog : ℕ
  /-- The sender tasks started so far; the next fresh client drives task `spawned`. -/
  spawned : ℕ

/-- `StatsdClient::new(endpoint, 100000)` as the target's `spawned`-th task. -/
def StatsdClient.new (endpoint : String) (spawned : ℕ) : StatsdClient := ⟨endpoint, spawned, 100000⟩

/-! ### Building the ring -/

/-- What the loop of `StatsdBackend::new` carries: the ring, the memo and the task count. -/
structure RingBuild where
  ring : Ring StatsdClient
  memoize : Memo
  spawned : ℕ

/-- One shard of `StatsdBackend::new`: reuse the memoized client, or start one and
memoize it. -/
def newRingStep (st : RingBuild) (endpoint : String) : RingBuild :=
  match st.memoize endpoint with
  | some client => { st with ring := st.ring.push client }
  | none =>
    let client := StatsdClient.new endpoint st.spawned
    ⟨st.ring.push client, st.memoize.insert endpoint client, st.spawned + 1⟩

/-- The input filter of `StatsdBackend::new`: the blacklist, then the filter. -/
def inputFilters (conf : StatsdDuplicateTo) : Option (List String) :=
  let filters := conf.inputBlacklist.toList ++ conf.inputFilter.toList
  if filters.length > 0 then some filters else none

/-- `StatsdBackend::new(conf)`. -/
def StatsdBackend.new (conf : StatsdDuplicateTo) : StatsdBackend :=
  let st := conf.shardMap.foldl newRingStep ⟨Ring.new, Memo.empty, 0⟩
  ⟨conf, st.ring, inputFilters conf, 0, st.spawned⟩

/-- One slot of the scan of the old ring in `reload_backends`. -/
def memoizeSlot (ring : Ring StatsdClient) (m : Memo) (i : ℕ) : Memo :=
  match ring.pickFrom (asU32 i) with
  | some client => m.insert client.endpoint client
  | none => m

/-- One shard of `reload_backends`: clone the memoized client, or start one (not
memoized). -/
def reloadRingStep (memoize : Memo) (st : Ring StatsdClient × ℕ) (shard : String) :
    Ring StatsdClient × ℕ :=
  match memoize shard with
  | some client => (st.1.push client, st.2)
  | none => (st.1.push (StatsdClient.new shard st.2), st.2 + 1)

/-- `reload_backends(shard_map)`. -/
def StatsdBackend.reloadBackends (b : StatsdBackend) (shardMap : List String) : StatsdBackend :=
  let memoize := (List.range b.ring.len).foldl (memoizeSlot b.ring) Memo.empty
  let st := shardMap.foldl (reloadRingStep memoize) (Ring.new, b.spawned)
  { b with ring := st.1, spawned := st.2 }

/-! ### `StatsdBackend::new` -/

@[simp] theorem Memo.insert_apply (m : Memo) (k k' : String) (v : StatsdClient) :
    m.insert k v k' = if k' = k then some v else m k' := rfl

@[simp] theorem Ring.push_members {C : Type} (r : Ring C) (c : C) :
    (r.push c).members = r.members ++ [c] := rfl

/-- The memo of the construction loop maps each endpoint to a client for it, and every
client in the ring is the one memoized for its endpoint. -/
structure RingBuild.Memoized (st : RingBuild) : Prop where
  endpoint_eq : ∀ k c, st.memoize k = some c → c.endpoint = k
  memoized : ∀ c ∈ st.ring.members, st.memoize c.endpoint = some c

theorem memoized_newRingStep {st : RingBuild} (h : st.Memoized) (e : String) :
    (newRingStep st e).Memoized := by
  unfold newRingStep
  split
  · next c hc =>
    refine ⟨h.endpoint_eq, fun c' hc' => ?_⟩
    rcases List.mem_append.1 hc' with hc' | hc'
    · exact h.memoized c' hc'
    · rw [List.mem_singleton.1 hc', h.endpoint_eq e c hc, hc]
  · next hn =>
    refine ⟨fun k c hk => ?_, fun c hc => ?_⟩
    · simp only [Memo.insert_apply] at hk
      split at hk
      · cases hk; simp_all [StatsdClient.new]
      · exact h.endpoint_eq k c hk
    · simp only [Ring.push_members, List.mem_append, List.mem_singleton] at hc
      rcases hc with hc | rfl
      · have hce : c.endpoint ≠ e := fun he => by simpa [he, hn] using h.memoized c hc
        simpa [hce] using h.memoized c hc
      · simp [StatsdClient.new]

theorem memoized_foldl_newRingStep :
    ∀ (shards : List String) {st : RingBuild}, st.Memoized → (shards.foldl newRingStep st).Memoized
  | [], _, h => h
  | e :: es, _, h => memoized_foldl_newRingStep es (memoized_newRingStep h e)

/-- `StatsdBackend::new` gives each endpoint one sender task: two slots with the same
endpoint hold the same client. -/
theorem new_one_task_per_endpoint (conf : StatsdDuplicateTo) :
    ∀ c₁ ∈ (StatsdBackend.new conf).ring.members, ∀ c₂ ∈ (StatsdBackend.new conf).ring.members,
      c₁.endpoint = c₂.endpoint → c₁ = c₂ := by
  have h : (conf.shardMap.foldl newRingStep ⟨Ring.new, Memo.empty, 0⟩).Memoized :=
    memoized_foldl_newRingStep _ ⟨fun _ _ h => (nomatch h), fun _ h => (nomatch h)⟩
  intro c₁ h₁ c₂ h₂ he
  have e₁ := h.memoized c₁ h₁
  rw [he, h.memoized c₂ h₂] at e₁
  exact (Option.some.inj e₁).symm

theorem new_one_task_per_endpoint_repeated :
    StatsdClient.new "a" 0 ∈ (StatsdBackend.new ⟨["a", "b", "a"], none, none, none, none⟩).ring.members ∧
      ∀ c ∈ (StatsdBackend.new ⟨["a", "b", "a"], none, none, none, none⟩).ring.members,
        c.endpoint = "a" → c = StatsdClient.new "a" 0 :=
  ⟨by decide, fun c hc he => new_one_task_per_endpoint _ c hc _ (by decide) he⟩

/-! ### The scan of the old ring -/

theorem pickFrom_mem {C : Type} {r : Ring C} {code : ℕ} {c : C} (h : r.pickFrom code = some c) :
    c ∈ r.members :=
  List.getElem?_mem h

/-- On a ring of at most `2 ^ 32` slots, `pick_from(i as u32)` is slot `i`. -/
theorem pickFrom_asU32 {C : Type} (r : Ring C) (hlen : r.len ≤ 2 ^ 32) {i : ℕ} (hi : i < r.len) :
    r.pickFrom (asU32 i) = r.members[i]? := by
  have hi' : i < 2 ^ 32 := lt_of_lt_of_le hi hlen
  rw [Ring.pickFrom, asU32, Nat.mod_eq_of_lt hi', Nat.mod_eq_of_lt (show i < r.members.length from hi)]

theorem memoizeSlot_of_pickFrom {ring : Ring StatsdClient} {i : ℕ} {c : StatsdClient}
    (h : ring.pickFrom (asU32 i) = some c) (m : Memo) :
    memoizeSlot ring m i = m.insert c.endpoint c := by
  simp only [memoizeSlot, h]

theorem memoizeSlot_of_pickFrom_none {ring : Ring StatsdClient} {i : ℕ}
    (h : ring.pickFrom (asU32 i) = none) (m : Memo) : memoizeSlot ring m i = m := by
  simp only [memoizeSlot, h]

theorem memoizeSlot_ne_none (ring : Ring StatsdClient) {m : Memo} {k : String} (hk : m k ≠ none)
    (i : ℕ) : memoizeSlot ring m i k ≠ none := by
  rcases hc : ring.pickFrom (asU32 i) with _ | c
  · rwa [memoizeSlot_of_pickFrom_none hc]
  · rw [memoizeSlot_of_pickFrom hc, Memo.insert_apply]; split <;> simp_all

/-- The scan never forgets an endpoint. -/
theorem foldl_memoizeSlot_ne_none (ring : Ring StatsdClient) :
    ∀ (l : List ℕ) {m : Memo} {k : String}, m k ≠ none → l.foldl (memoizeSlot ring) m k ≠ none
  | [], _, _, hk => hk
  | i :: l, _, _, hk => foldl_memoizeSlot_ne_none ring l (memoizeSlot_ne_none ring hk i)

/-- The scan memoizes the endpoint of every slot it picks. -/
theorem foldl_memoizeSlot_of_mem (ring : Ring StatsdClient) {c : StatsdClient} :
    ∀ {l : List ℕ} {i : ℕ}, i ∈ l → ring.pickFrom (asU32 i) = some c →
      ∀ m, l.foldl (memoizeSlot ring) m c.endpoint ≠ none
  | i' :: l, i, hi, hc, m => by
    rcases List.mem_cons.1 hi with rfl | hi
    · refine foldl_memoizeSlot_ne_none ring l ?_
      simp [memoizeSlot, hc]
    · exact foldl_memoizeSlot_of_mem ring hi hc _

/-- The scan memoizes only clients of the ring, each under its own endpoint. -/
theorem foldl_memoizeSlot_sound (ring : Ring StatsdClient) :
    ∀ (l : List ℕ) {m : Memo}, (∀ k c, m k = some c → c ∈ ring.members ∧ c.endpoint = k) →
      ∀ k c, l.foldl (memoizeSlot ring) m k = some c → c ∈ ring.members ∧ c.endpoint = k
  | [], _, hm => hm
  | i :: l, m, hm => by
    refine foldl_memoizeSlot_sound ring l fun k c hk => ?_
    rcases hc' : ring.pickFrom (asU32 i) with _ | c'
    · exact hm k c (by rwa [memoizeSlot_of_pickFrom_none hc'] at hk)
    · rw [memoizeSlot_of_pickFrom hc', Memo.insert_apply] at hk
      split at hk
      · cases hk; exact ⟨pickFrom_mem hc', by simp_all⟩
      · exact hm k c hk

/-- What the memo of `reload_backends` knows of the old ring: only its clients, under their
own endpoints, and (on a ring of at most `2 ^ 32` slots) every one of its endpoints. -/
structure MemoOf (memo : Memo) (old : List StatsdClient) : Prop where
  sound : ∀ k c, memo k = some c → c ∈ old ∧ c.endpoint = k
  complete : ∀ c ∈ old, memo c.endpoint ≠ none

theorem memoOf_scan (b : StatsdBackend) (hlen : b.ring.len ≤ 2 ^ 32) :
    MemoOf ((List.range b.ring.len).foldl (memoizeSlot b.ring) Memo.empty) b.ring.members := by
  refine ⟨foldl_memoizeSlot_sound b.ring _ fun _ _ h => (nomatch h), fun c hc => ?_⟩
  obtain ⟨i, hi, rfl⟩ := List.getElem_of_mem hc
  exact foldl_memoizeSlot_of_mem b.ring (List.mem_range.2 hi)
    ((pickFrom_asU32 b.ring hlen hi).trans (List.getElem?_eq_getElem hi)) _

/-! ### `reload_backends` -/

/-- A slot of a reloaded ring: an old client, or a fresh one, for an endpoint no old client
has, driving a task started at or after `spawned`. -/
def OldOrFresh (old : List StatsdClient) (spawned : ℕ) (c : StatsdClient) : Prop :=
  c ∈ old ∨ (c.endpoint ∉ old.map (·.endpoint) ∧ spawned ≤ c.task)

theorem reloadRingStep_spec {memo : Memo} {old : List StatsdClient} (hm : MemoOf memo old)
    (st : Ring StatsdClient × ℕ) (shard : String) :
    ∃ c, (reloadRingStep memo st shard).1.members = st.1.members ++ [c] ∧ c.endpoint = shard ∧
      OldOrFresh old st.2 c ∧ st.2 ≤ (reloadRingStep memo st shard).2 := by
  unfold reloadRingStep
  split
  · next c hc => exact ⟨c, rfl, (hm.sound _ _ hc).2, .inl (hm.sound _ _ hc).1, le_rfl⟩
  · next hn =>
    refine ⟨_, rfl, rfl, .inr ⟨fun h => ?_, le_rfl⟩, Nat.le_succ _⟩
    obtain ⟨c, hc, he⟩ := List.mem_map.1 h
    exact hm.complete c hc (by simpa [he, StatsdClient.new] using hn)

theorem foldl_reloadRingStep {memo : Memo} {old : List StatsdClient} (hm : MemoOf memo old)
    {sp₀ : ℕ} : ∀ (shards : List String) (st : Ring StatsdClient × ℕ), sp₀ ≤ st.2 →
      (∀ c ∈ st.1.members, OldOrFresh old sp₀ c) →
      (shards.foldl (reloadRingStep memo) st).1.members.map (·.endpoint) =
          st.1.members.map (·.endpoint) ++ shards ∧
        ∀ c ∈ (shards.foldl (reloadRingStep memo) st).1.members, OldOrFresh old sp₀ c
  | [], _, _, hst => ⟨by simp, hst⟩
  | s :: ss, st, hsp, hst => by
    obtain ⟨c, hmem, hce, hc, hle⟩ := reloadRingStep_spec hm st s
    have hst' : ∀ c' ∈ (reloadRingStep memo st s).1.members, OldOrFresh old sp₀ c' := by
      rw [hmem]
      intro c' hc'
      rcases List.mem_append.1 hc' with h | h
      · exact hst c' h
      · rw [List.mem_singleton.1 h]; exact Or.imp_right (And.imp_right hsp.trans) hc
    have ih := foldl_reloadRingStep hm ss _ (hsp.trans hle) hst'
    refine ⟨?_, ih.2⟩
    rw [List.foldl_cons, ih.1, hmem]
    simp [hce]

/-- **Reload keeps live clients.**  On an old ring of at most `2 ^ 32` slots,
`reload_backends(m)` puts in slot `i` a client for `m[i]`: an old client whenever `m[i]`
was an old endpoint, and a fresh one, driving a task started by this reload, only for an
endpoint no old client has. -/
theorem reloadBackends_slots (b : StatsdBackend) (m : List String) (hlen : b.ring.len ≤ 2 ^ 32) :
    (b.reloadBackends m).ring.members.map (·.endpoint) = m ∧
      ∀ c ∈ (b.reloadBackends m).ring.members,
        c ∈ b.ring.members ∨ (c.endpoint ∉ b.ring.members.map (·.endpoint) ∧ b.spawned ≤ c.task) := by
  have h := foldl_reloadRingStep (memoOf_scan b hlen) m (Ring.new, b.spawned) le_rfl
    (fun _ h => (nomatch h))
  exact ⟨by simpa using h.1, h.2⟩

theorem reloadBackends_slots_ring_of_two :
    (StatsdBackend.new ⟨["a", "b"], none, none, none, none⟩).ring.len ≤ 2 ^ 32 ∧
      ((StatsdBackend.new ⟨["a", "b"], none, none, none, none⟩).reloadBackends
          ["b", "c"]).ring.members.map (·.endpoint) = ["b", "c"] :=
  ⟨by decide, (reloadBackends_slots _ ["b", "c"] (by decide)).1⟩

/-- The memo has a client for a shard exactly when some old client has its endpoint. -/
theorem MemoOf.eq_none_iff {memo : Memo} {old : List StatsdClient} (hm : MemoOf memo old)
    (s : String) : memo s = none ↔ s ∉ old.map (·.endpoint) := by
  refine ⟨fun hn hs => ?_, fun hs => ?_⟩
  · obtain ⟨c, hc, rfl⟩ := List.mem_map.1 hs
    exact hm.complete c hc hn
  · rcases hc : memo s with _ | c
    · rfl
    · exact absurd (List.mem_map.2 ⟨c, hm.sound s c hc⟩) hs

/-- The task counter of a reload grows by one for each shard no old client serves. -/
theorem foldl_reloadRingStep_spawned {memo : Memo} {old : List StatsdClient} (hm : MemoOf memo old) :
    ∀ (shards : List String) (st : Ring StatsdClient × ℕ),
      (shards.foldl (reloadRingStep memo) st).2 =
        st.2 + (shards.filter fun e => e ∉ old.map (·.endpoint)).length
  | [], _ => rfl
  | s :: ss, st => by
    rw [List.foldl_cons, foldl_reloadRingStep_spawned hm ss, List.filter_cons]
    unfold reloadRingStep
    split
    · next c hc =>
      have hs : s ∈ old.map (·.endpoint) := List.mem_map.2 ⟨c, hm.sound s c hc⟩
      simp [hs]
    · next hn =>
      simp only [(hm.eq_none_iff s).1 hn, not_false_eq_true, decide_True, if_true, List.length_cons]
      omega

/-- **Reload reuses old clients.**  On an old ring of at most `2 ^ 32` slots (the ring is
indexed by `u32`), `reload_backends(m)` gives a ring whose slot `i` holds a client for `m[i]`;
a client for an endpoint of the old ring is one of the old clients, with its sender task and
queue, and the reload starts exactly one task for each shard whose endpoint no old client has. -/
theorem reloadBackends_reuses_old_clients (b : StatsdBackend) (m : List String)
    (hlen : b.ring.len ≤ 2 ^ 32) :
    (b.reloadBackends m).ring.members.map (·.endpoint) = m ∧
      (∀ c ∈ (b.reloadBackends m).ring.members,
        c.endpoint ∈ b.ring.members.map (·.endpoint) → c ∈ b.ring.members) ∧
      (b.reloadBackends m).spawned =
        b.spawned + (m.filter fun e => e ∉ b.ring.members.map (·.endpoint)).length := by
  have hm := memoOf_scan b hlen
  have h := foldl_reloadRingStep hm m (Ring.new, b.spawned) le_rfl (fun _ h => (nomatch h))
  refine ⟨by simpa using h.1, fun c hc he => ?_, foldl_reloadRingStep_spawned hm m _⟩
  exact (h.2 c hc).resolve_right fun hf => hf.1 he

theorem reloadBackends_reuses_old_clients_ring_of_two :
    (StatsdBackend.new ⟨["a", "b"], none, none, none, none⟩).ring.len ≤ 2 ^ 32 ∧
      ((StatsdBackend.new ⟨["a", "b"], none, none, none, none⟩).reloadBackends
          ["b", "c", "c"]).spawned = 4 :=
  ⟨by decide, (reloadBackends_reuses_old_clients _ ["b", "c", "c"] (by decide)).2.2.trans (by decide)⟩

/-- `reload_backends` does not memoize the clients it starts: an endpoint new to the ring
and repeated in the shard map gets one sender task per slot. -/
theorem reloadBackends_duplicates_fresh_endpoint :
    ((StatsdBackend.new ⟨["a"], none, none, none, none⟩).reloadBackends ["b", "b"]).ring.members =
      [StatsdClient.new "b" 1, StatsdClient.new "b" 2] := by
  decide

/-! ### Reloading an unchanged shard map -/

theorem newRingStep_endpoints {st : RingBuild} (h : st.Memoized) (e : String) :
    (newRingStep st e).ring.members.map (·.endpoint) = st.ring.members.map (·.endpoint) ++ [e] := by
  unfold newRingStep
  split
  · next c hc => simp [h.endpoint_eq e c hc]
  · simp [StatsdClient.new]

/-- The ring of `StatsdBackend::new` has one slot per entry of the shard map, for that entry. -/
theorem foldl_newRingStep_endpoints : ∀ (shards : List String) {st : RingBuild}, st.Memoized →
    (shards.foldl newRingStep st).ring.members.map (·.endpoint) = st.ring.members.map (·.endpoint) ++ shards
  | [], _, _ => by simp
  | e :: es, st, h => by
    rw [List.foldl_cons, foldl_newRingStep_endpoints es (memoized_newRingStep h e), newRingStep_endpoints h e,
      List.append_assoc, List.singleton_append]

/-- Reloading the endpoints of old clients, one client per endpoint, clones each of them back. -/
theorem foldl_reloadRingStep_same {memo : Memo} {old : List StatsdClient} (hm : MemoOf memo old)
    (huniq : ∀ c₁ ∈ old, ∀ c₂ ∈ old, c₁.endpoint = c₂.endpoint → c₁ = c₂) :
    ∀ l : List StatsdClient, (∀ c ∈ l, c ∈ old) → ∀ st : Ring StatsdClient × ℕ,
      (l.map (·.endpoint)).foldl (reloadRingStep memo) st = (⟨st.1.members ++ l⟩, st.2)
  | [], _, ⟨⟨_⟩, _⟩ => by simp
  | c :: l, hl, st => by
    have hc := hl c (List.mem_cons_self _ _)
    obtain ⟨c', hc'⟩ := Option.ne_none_iff_exists'.1 (hm.complete c hc)
    obtain rfl : c' = c := huniq c' (hm.sound _ _ hc').1 c hc (hm.sound _ _ hc').2
    rw [List.map_cons, List.foldl_cons, reloadRingStep, hc',
      foldl_reloadRingStep_same hm huniq l (fun c' h => hl c' (List.mem_cons_of_mem _ h))]
    simp

/-- On a target with one client per endpoint, reloading the endpoints of its ring keeps the
target as it is. -/
theorem reloadBackends_own_endpoints (b : StatsdBackend) (hlen : b.ring.len ≤ 2 ^ 32)
    (huniq : ∀ c₁ ∈ b.ring.members, ∀ c₂ ∈ b.ring.members, c₁.endpoint = c₂.endpoint → c₁ = c₂) :
    b.reloadBackends (b.ring.members.map (·.endpoint)) = b := by
  simp only [StatsdBackend.reloadBackends, foldl_reloadRingStep_same (memoOf_scan b hlen) huniq _ (fun _ h => h)]
  rfl

/-- **Reloading the shard map a target was built from changes nothing.**  For every shard
map of at most `2 ^ 32` entries, `reload_backends` with the shard map `StatsdBackend::new`
built the target from leaves its ring as it was, every slot holding the same client and
sender task, and starts no task.  The one client per endpoint of `StatsdBackend::new` is what
this needs: after a reload that started two tasks for one endpoint, as `reload_backends` can,
a further reload can change the ring. -/
theorem new_reloadBackends_same_map (conf : StatsdDuplicateTo) (hlen : conf.shardMap.length ≤ 2 ^ 32) :
    (StatsdBackend.new conf).reloadBackends conf.shardMap = StatsdBackend.new conf := by
  have h0 : RingBuild.Memoized ⟨Ring.new, Memo.empty, 0⟩ := ⟨fun _ _ h => (nomatch h), fun _ h => (nomatch h)⟩
  have hmem := memoized_foldl_newRingStep conf.shardMap h0
  have hmap : (StatsdBackend.new conf).ring.members.map (·.endpoint) = conf.shardMap := by
    simpa using foldl_newRingStep_endpoints conf.shardMap h0
  have huniq : ∀ c₁ ∈ (StatsdBackend.new conf).ring.members, ∀ c₂ ∈ (StatsdBackend.new conf).ring.members,
      c₁.endpoint = c₂.endpoint → c₁ = c₂ := fun c₁ h₁ c₂ h₂ he => by
    have e₁ := hmem.memoized c₁ h₁
    rw [he, hmem.memoized c₂ h₂] at e₁
    exact (Option.some.inj e₁).symm
  have hring : (StatsdBackend.new conf).ring.len ≤ 2 ^ 32 := by
    rw [Ring.len, ← List.length_map _ (·.endpoint), hmap]; exact hlen
  calc (StatsdBackend.new conf).reloadBackends conf.shardMap
      = (StatsdBackend.new conf).reloadBackends ((StatsdBackend.new conf).ring.members.map (·.endpoint)) := by
        rw [hmap]
    _ = StatsdBackend.new conf := reloadBackends_own_endpoints _ hring huniq

theorem new_reloadBackends_same_map_repeated :
    ["a", "b", "a"].length ≤ 2 ^ 32 ∧
      (StatsdBackend.new ⟨["a", "b", "a"], none, none, none, none⟩).reloadBackends ["a", "b", "a"] =
        StatsdBackend.new ⟨["a", "b", "a"], none, none, none, none⟩ :=
  ⟨by decide, new_reloadBackends_same_map ⟨["a", "b", "a"], none, none, none, none⟩ (by decide)⟩

end StatsRelay.Backends
