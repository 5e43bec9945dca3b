import SingleTape.Proofs.Scheduler.Protocol

/-!
The rate limit over whole histories, with pauses, stale ticks and changes of the limit anywhere.
A tick is compared with the baseline only, but no tick that was honored is later than the baseline,
so a render keeps its distance from all of them. Ticks that are dropped leave no trace: without them
a history goes on in the same way.
-/

namespace SingleTape

/-- All that is asked of the arithmetic of doubles: at this rate limit, a longer one of these gaps
passes whenever a shorter one does. -/
def RateLimit.Orders (limit : RateLimit) (gaps : List Duration) : Prop :=
  ∀ d ∈ gaps, ∀ e ∈ gaps, d.nanos ≤ e.nanos → limit.passes d = true → limit.passes e = true

instance (limit : RateLimit) (gaps : List Duration) : Decidable (limit.Orders gaps) :=
  inferInstanceAs (Decidable (∀ d ∈ gaps, ∀ e ∈ gaps, _ → _ → _))

namespace Scheduler

def Operation.timestamp? : Operation → Option Duration
  | .tick now => some now
  | _ => none

def timestamps (ops : List Operation) : List Duration := ops.filterMap Operation.timestamp?

def gaps (ops : List Operation) : List Duration :=
  (timestamps ops).flatMap fun later =>
    ((timestamps ops).filter (·.nanos < later.nanos)).map later.since

/-- Whether a call is a tick later than the baseline, made while paused. -/
def Call.passesOver (c : Call) : Bool :=
  match c.operation, c.before.previous with
  | .tick now, some previous => !c.before.launched && decide (previous.nanos < now.nanos)
  | _, _ => false

/-- Whether a call is a tick that emits nothing, other than one that passes over time. -/
def Call.dropped (c : Call) : Bool :=
  c.operation.timestamp?.isSome && c.events.isEmpty && !c.passesOver

def kept (s : Scheduler) (ops : List Operation) : List Operation :=
  ((s.calls ops).filter (!·.dropped)).map Call.operation

variable {s s' : Scheduler} {op : Operation} {ops : List Operation} {fresh : List Event}

theorem mem_timestamps {t : Duration} (h : .tick t ∈ ops) : t ∈ timestamps ops :=
  List.mem_filterMap.mpr ⟨_, h, rfl⟩

theorem since_mem_gaps {t u : Duration} (ht : .tick t ∈ ops) (hu : .tick u ∈ ops)
    (hlt : u.nanos < t.nanos) : t.since u ∈ gaps ops := by
  have hm : u ∈ (timestamps ops).filter (·.nanos < t.nanos) :=
    List.mem_filter.mpr ⟨mem_timestamps hu, decide_eq_true hlt⟩
  exact List.mem_flatMap.mpr ⟨t, mem_timestamps ht, List.mem_map_of_mem hm⟩

theorem nanos_lt_of_increasing {earlier later : List Operation} {p now : Duration}
    (h : (timestamps (earlier ++ .tick now :: later)).Pairwise (·.nanos < ·.nanos))
    (hp : .tick p ∈ earlier) : p.nanos < now.nanos := by
  rw [timestamps, List.filterMap_append, List.pairwise_append] at h
  exact h.2.2 p (mem_timestamps hp) now List.mem_cons_self

theorem timed_of_honoredAt {u : Duration} (h : honoredAt? op fresh = some u) :
    op = .tick u ∧ (.baseline ∈ fresh ∨ .render ∈ fresh) := by
  cases op with
  | tick now =>
    rw [honoredAt?] at h
    split at h
    · rename_i ht
      cases h
      exact ⟨rfl, ht⟩
    · cases h
  | _ => cases h

theorem Effect.baseline_of_honoredAt {u : Duration} (h : Effect s op s' fresh)
    (hu : honoredAt? op fresh = some u) : op = .tick u ∧ s'.previous = some u := by
  obtain ⟨rfl, ht⟩ := timed_of_honoredAt hu
  obtain ⟨now, ho, -, hp, -⟩ := h.timed ht
  cases ho
  exact ⟨rfl, hp⟩

/-- Behind an honored tick the baseline is the timestamp of some tick, at least the honored one. -/
theorem baseline_of_honored {u : Duration} (hu : u ∈ s.honored ops) :
    .tick u ∈ ops ∧ ∃ p, (s.afterAll ops).previous = some p ∧ u.nanos ≤ p.nanos ∧
      .tick p ∈ ops := by
  induction ops using List.reverseRecOn with
  | nil => cases hu
  | append_singleton ops op ih =>
    have he := (s.afterAll ops).perform_effect op
    rw [honored_append, honored_singleton, List.mem_append, Option.mem_toList] at hu
    rw [afterAll_append, afterAll_cons, afterAll_nil]
    rcases hu with hu | hu
    · obtain ⟨hm, p, hp, hle, hpm⟩ := ih hu
      refine ⟨List.mem_append_left _ hm, ?_⟩
      rcases he.previous_cases with hs | ⟨now, rfl, hs, hlt⟩
      · exact ⟨p, hs.trans hp, hle, List.mem_append_left _ hpm⟩
      · have hpn := Nat.le_of_lt (hlt p hp)
        exact ⟨now, hs, Nat.le_trans hle hpn, List.mem_append_right _ (List.mem_singleton_self _)⟩
    · obtain ⟨rfl, hs⟩ := he.baseline_of_honoredAt hu
      have hm : .tick u ∈ ops ++ [.tick u] := List.mem_append_right _ (List.mem_singleton_self _)
      exact ⟨hm, u, hs, Nat.le_refl _, hm⟩

/-- No honored tick is closer to a render than the baseline, and the baseline is far enough. -/
theorem render_passes_honored {earlier later : List Operation} {t u : Duration}
    (horders : (s.afterAll earlier).rateLimit.Orders (gaps (earlier ++ .tick t :: later)))
    (hr : .render ∈ (s.afterAll earlier).emitted [.tick t]) (hu : u ∈ s.honored earlier) :
    u.nanos < t.nanos ∧ (s.afterAll earlier).rateLimit.passes (t.since u) = true := by
  obtain ⟨hum, p, hp, hle, hpm⟩ := baseline_of_honored hu
  rw [emitted_singleton] at hr
  have he := (s.afterAll earlier).perform_effect (.tick t)
  obtain ⟨q, hq, hlt, -, hpass, -⟩ := he.of_render hr
  cases hp.symm.trans hq
  have hut := Nat.lt_of_le_of_lt hle hlt
  have htm : .tick t ∈ earlier ++ .tick t :: later := by simp
  have hshort := since_mem_gaps htm (List.mem_append_left _ hpm) hlt
  have hlong := since_mem_gaps htm (List.mem_append_left _ hum) hut
  have hgaps : (t.since p).nanos ≤ (t.since u).nanos := Nat.sub_le_sub_left hle t.nanos
  exact ⟨hut, horders _ hshort _ hlong hgaps hpass⟩

theorem Effect.silent_cases {now : Duration} (h : Effect s op s' fresh) (ho : op = .tick now)
    (hf : fresh = []) :
    s' = s ∨ ∃ p, s.previous = some p ∧ p.nanos < now.nanos ∧ s.launched = false ∧
      s' = { s with previous := some now } := by
  subst ho
  cases h with
  | flagged hflag => cases hflag
  | @slid _ p hp hlt hl => exact Or.inr ⟨p, hp, hlt, hl, rfl⟩
  | initialized => cases hf
  | rendered => cases hf
  | _ => exact Or.inl rfl

theorem Call.dropped_tick {c : Call} (h : c.dropped = true) :
    (∃ now, c.operation = .tick now) ∧ c.events = [] ∧ c.passesOver = false := by
  rw [dropped, Bool.and_eq_true, Bool.and_eq_true, Bool.not_eq_true', List.isEmpty_iff] at h
  obtain ⟨⟨ho, he⟩, hp⟩ := h
  refine ⟨?_, he, hp⟩
  cases hop : c.operation with
  | tick now => exact ⟨now, rfl⟩
  | _ => simp [hop, Operation.timestamp?] at ho

theorem Call.passesOver_tick {c : Call} {now p : Duration} (ho : c.operation = .tick now)
    (hp : c.before.previous = some p) (hlt : p.nanos < now.nanos)
    (hl : c.before.launched = false) : c.passesOver = true := by
  simp [passesOver, ho, hp, hl, hlt]

theorem perform_of_dropped (h : (s.call op).dropped = true) : (s.perform op).1 = s := by
  obtain ⟨⟨now, ho⟩, hf, hover⟩ := Call.dropped_tick h
  rcases (s.perform_effect op).silent_cases ho hf with hs | ⟨p, hp, hlt, hl, -⟩
  · exact hs
  · -- The tick passes over time while paused, and such a tick is not dropped.
    cases hover.symm.trans (Call.passesOver_tick ho hp hlt hl)

theorem kept_of_dropped (h : (s.call op).dropped = true) : s.kept (op :: ops) = s.kept ops := by
  rw [kept, calls, List.filter_cons_of_neg (by simp [h]), perform_of_dropped h]
  rfl

theorem kept_of_not_dropped (h : (s.call op).dropped = false) :
    s.kept (op :: ops) = op :: (s.perform op).1.kept ops := by
  rw [kept, calls, List.filter_cons_of_pos (by simp [h])]
  rfl

theorem calls_kept (s : Scheduler) (ops : List Operation) :
    s.calls (s.kept ops) = (s.calls ops).filter (!·.dropped) := by
  induction ops generalizing s with
  | nil => rfl
  | cons op ops ih =>
    cases h : (s.call op).dropped with
    | true =>
      rw [kept_of_dropped h, calls, List.filter_cons_of_neg (by simp [h]), perform_of_dropped h]
      exact ih s
    | false =>
      rw [kept_of_not_dropped h, calls, calls, List.filter_cons_of_pos (by simp [h])]
      exact congrArg _ (ih _)

theorem afterAll_kept (s : Scheduler) (ops : List Operation) :
    s.afterAll (s.kept ops) = s.afterAll ops := by
  induction ops generalizing s with
  | nil => rfl
  | cons op ops ih =>
    cases h : (s.call op).dropped with
    | true =>
      rw [kept_of_dropped h, afterAll_cons, perform_of_dropped h]
      exact ih s
    | false =>
      rw [kept_of_not_dropped h, afterAll_cons, afterAll_cons]
      exact ih _

theorem flatMap_filter_dropped {α : Type} (f : Call → List α)
    (hf : ∀ c : Call, c.events = [] → f c = []) (cs : List Call) :
    (cs.filter (!·.dropped)).flatMap f = cs.flatMap f := by
  induction cs with
  | nil => rfl
  | cons c cs ih =>
    cases h : c.dropped with
    | true =>
      rw [List.filter_cons_of_neg (by simp [h]), List.flatMap_cons, ih,
        hf c (Call.dropped_tick h).2.1, List.nil_append]
    | false => rw [List.filter_cons_of_pos (by simp [h]), List.flatMap_cons, List.flatMap_cons, ih]

theorem emitted_kept (s : Scheduler) (ops : List Operation) :
    s.emitted (s.kept ops) = s.emitted ops := by
  rw [emitted, calls_kept]
  apply flatMap_filter_dropped
  intro c hc
  exact hc

theorem delivered_kept (s : Scheduler) (ops : List Operation) :
    s.delivered (s.kept ops) = s.delivered ops := by
  rw [delivered, calls_kept]
  apply flatMap_filter_dropped
  intro c hc
  rw [hc]
  rfl

/-- How far apart the honored ticks of a history are, and what the other ones leave behind. -/
structure SpacingLaws (s : Scheduler) (ops : List Operation) : Prop where
  spaced : ∀ earlier t later, ops = earlier ++ .tick t :: later →
    .render ∈ (s.afterAll earlier).emitted [.tick t] → ∀ u ∈ s.honored earlier,
      u.nanos < t.nanos ∧ (s.afterAll earlier).rateLimit.passes (t.since u) = true
  silent : ∀ c ∈ s.calls ops, ∀ now, c.operation = .tick now → c.events = [] →
    c.after = c.before ∨ ∃ p, c.before.previous = some p ∧ p.nanos < now.nanos ∧
      c.before.launched = false ∧ c.after = { c.before with previous := some now }
  remaining : s.calls (s.kept ops) = (s.calls ops).filter (!·.dropped)
  same_events : s.emitted (s.kept ops) = s.emitted ops
  same_deliveries : s.delivered (s.kept ops) = s.delivered ops
  same_state : s.afterAll (s.kept ops) = s.afterAll ops

/-- The rate limit in force at a render holds for all ticks that were honored before it, and dropped
ticks leave no trace, in any history of any scheduler. -/
theorem histories_keep_rate_limit (s : Scheduler) (ops : List Operation)
    (horders : ∀ c ∈ s.calls ops, c.before.rateLimit.Orders (gaps ops)) : SpacingLaws s ops where
  spaced earlier t later hops hr u hu := by
    subst hops
    have hc : (s.afterAll earlier).call (.tick t) ∈ s.calls (earlier ++ .tick t :: later) := by
      rw [calls_append]
      exact List.mem_append_right _ List.mem_cons_self
    have hlimit := horders _ hc
    exact render_passes_honored hlimit hr hu
  silent c hc now ho hf := (s.calls_effect ops c hc).silent_cases ho hf
  remaining := s.calls_kept ops
  same_events := s.emitted_kept ops
  same_deliveries := s.delivered_kept ops
  same_state := s.afterAll_kept ops

/-- A history with a tick too soon, one that is stale, one while paused, and a raised limit. -/
def uneven : List Operation :=
  [.tick ⟨5⟩, .launch, .tick ⟨10 ^ 9⟩, .tick ⟨12 * 10 ^ 8⟩, .tick ⟨16 * 10 ^ 8⟩, .tick ⟨10 ^ 9⟩,
    .pause, .tick ⟨2 * 10 ^ 9⟩, .setRateLimit 10, .toggle, .setRateLimit 0, .tick ⟨205 * 10 ^ 7⟩,
    .tick ⟨22 * 10 ^ 8⟩]

theorem uneven_history_keeps_rate_limit :
    ∃ s, withRateLimit 2 = .ok s ∧
      s.emitted uneven =
        [.change, .launch, .baseline, .render, .change, .change, .launch, .render] ∧
      s.kept uneven = [.launch, .tick ⟨10 ^ 9⟩, .tick ⟨16 * 10 ^ 8⟩, .pause, .tick ⟨2 * 10 ^ 9⟩,
        .setRateLimit 10, .toggle, .setRateLimit 0, .tick ⟨22 * 10 ^ 8⟩] ∧ SpacingLaws s uneven := by
  have hs : withRateLimit 2 = .ok { new with rateLimit := ⟨2, by decide⟩ } := rfl
  have hlimits : (calls { new with rateLimit := ⟨2, by decide⟩ } uneven).map
      (·.before.rateLimit) = List.replicate 9 ⟨2, by decide⟩ ++ List.replicate 4 ⟨10, by decide⟩ :=
    rfl
  have htwo : RateLimit.Orders ⟨2, by decide⟩ (gaps uneven) := by decide +kernel
  have hten : RateLimit.Orders ⟨10, by decide⟩ (gaps uneven) := by decide +kernel
  refine ⟨_, hs, by decide +kernel, by decide +kernel, histories_keep_rate_limit _ uneven ?_⟩
  intro c hc
  have hm := List.mem_map_of_mem (f := fun c : Call => c.before.rateLimit) hc
  rw [hlimits, List.mem_append, List.mem_replicate, List.mem_replicate] at hm
  rcases hm with ⟨-, hm⟩ | ⟨-, hm⟩
  · rw [hm]
    exact htwo
  · rw [hm]
    exact hten

end Scheduler

end SingleTape
