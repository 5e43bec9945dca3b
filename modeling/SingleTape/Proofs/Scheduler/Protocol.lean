import Mathlib.Algebra.Ring.Parity
import SingleTape.Proofs.Scheduler.History

/-!
The protocol of events over whole histories: which operations emit what, in which order, and who
gets it.
-/

namespace SingleTape.Scheduler

variable {s s' : Scheduler} {op : Operation} {fresh : List Event}

theorem Effect.flag_cases (h : Effect s op s' fresh) :
    (∃ flag, op.flag? s.launched = some flag ∧ s'.launched = flag ∧
      fresh = flagEvents s.launched flag ∧ s'.previous = s.previous) ∨
      (op.flag? s.launched = none ∧ s'.launched = s.launched ∧ .change ∉ fresh ∧
        .launch ∉ fresh) := by
  cases h with
  | @flagged op flag hf => exact Or.inl ⟨flag, hf, rfl, rfl, rfl⟩
  | _ => exact Or.inr ⟨rfl, rfl, by simp, by simp⟩

theorem Effect.launched_eq (h : Effect s op s' fresh) :
    s'.launched = (op.flag? s.launched).getD s.launched := by
  rcases h.flag_cases with ⟨flag, hf, hl, -⟩ | ⟨hf, hl, -⟩
  · rw [hf, hl, Option.getD_some]
  · rw [hf, hl, Option.getD_none]

theorem count_change_flagEvents (before after : Bool) :
    (flagEvents before after).count .change = if before = after then 0 else 1 := by
  cases before <;> cases after <;> rfl

theorem count_launch_flagEvents (before after : Bool) :
    (flagEvents before after).count .launch = if after then 1 else 0 := by
  cases before <;> cases after <;> rfl

theorem timed_not_mem_flagEvents (before after : Bool) :
    .baseline ∉ flagEvents before after ∧ .render ∉ flagEvents before after := by
  cases before <;> cases after <;> decide

theorem Effect.count_change (h : Effect s op s' fresh) :
    fresh.count .change = if s.launched = s'.launched then 0 else 1 := by
  rcases h.flag_cases with ⟨flag, -, rfl, rfl, -⟩ | ⟨-, hl, hc, -⟩
  · exact count_change_flagEvents _ _
  · rw [if_pos hl.symm]
    exact List.count_eq_zero.mpr hc

theorem Effect.count_launch (h : Effect s op s' fresh) :
    fresh.count .launch =
      if (op.flag? s.launched).isSome = true ∧ s'.launched = true then 1 else 0 := by
  rcases h.flag_cases with ⟨flag, hf, rfl, rfl, -⟩ | ⟨hf, -, -, hl⟩
  · rw [count_launch_flagEvents, hf]
    simp
  · rw [hf, if_neg (by simp)]
    exact List.count_eq_zero.mpr hl

theorem Effect.count_baseline (h : Effect s op s' fresh) :
    (if s.isInitialized then 1 else 0) + fresh.count .baseline =
      if s'.isInitialized then 1 else 0 := by
  cases h with
  | @flagged _ flag =>
    rw [List.count_eq_zero.mpr (timed_not_mem_flagEvents s.launched flag).1]
    rfl
  | initialized hp => simp [isInitialized, hp]
  | slid hp => simp [isInitialized, hp]
  | rendered hp => simp [isInitialized, hp, honoring]
  | _ => rfl

theorem Effect.timed (h : Effect s op s' fresh) (ht : .baseline ∈ fresh ∨ .render ∈ fresh) :
    ∃ now, op = .tick now ∧ s.launched = true ∧ s'.previous = some now ∧
      ∀ p, s.previous = some p → p.nanos < now.nanos := by
  cases h with
  | flagged =>
    have hn := timed_not_mem_flagEvents s.launched
    exact absurd ht (not_or.mpr (hn _))
  | @initialized now hp hl =>
    refine ⟨now, rfl, hl, rfl, ?_⟩
    intro p h
    cases hp.symm.trans h
  | @rendered now p hp hlt hl =>
    refine ⟨now, rfl, hl, rfl, ?_⟩
    intro q h
    cases hp.symm.trans h
    exact hlt
  | _ => simp at ht

theorem Effect.initialized_of_render (h : Effect s op s' fresh) (hr : .render ∈ fresh) :
    s.isInitialized = true := by
  cases h with
  | @flagged _ flag => exact absurd hr (timed_not_mem_flagEvents s.launched flag).2
  | rendered hp => simp [isInitialized, hp]
  | _ => simp at hr

theorem Effect.length_le (h : Effect s op s' fresh) {now : Duration} (ht : op = .tick now) :
    fresh.length ≤ 1 := by
  subst ht
  cases h with
  | flagged hf => cases hf
  | _ => simp

theorem Effect.first {now : Duration} (h : Effect s (.tick now) s' fresh)
    (hl : s.launched = true) (hi : s.isInitialized = false) : fresh = [.baseline] := by
  have hn : s.previous = none := by simpa [isInitialized] using hi
  rcases h.first_cases hn with ⟨hs, -⟩ | ⟨-, -, hf⟩
  · cases hl.symm.trans hs
  · exact hf

theorem Effect.in_time {now p : Duration} (h : Effect s (.tick now) s' fresh)
    (hl : s.launched = true) (hp : s.previous = some p) (hlt : p.nanos < now.nanos)
    (hr : s.rateLimit.passes (now.since p) = true) : fresh = [.render] := by
  rcases h.later_cases hp hlt with ⟨hs, -⟩ | ⟨-, hn, -⟩ | ⟨-, -, -, hf⟩
  · cases hl.symm.trans hs
  · cases hr.symm.trans hn
  · exact hf

theorem Effect.previous_cases (h : Effect s op s' fresh) :
    s'.previous = s.previous ∨ ∃ now, op = .tick now ∧ s'.previous = some now ∧
      ∀ p, s.previous = some p → p.nanos < now.nanos := by
  cases h with
  | @initialized now hp =>
    refine Or.inr ⟨now, rfl, rfl, ?_⟩
    intro p hq
    cases hp.symm.trans hq
  | @slid now p hp hlt =>
    refine Or.inr ⟨now, rfl, rfl, ?_⟩
    intro q hq
    cases hp.symm.trans hq
    exact hlt
  | @rendered now p hp hlt =>
    refine Or.inr ⟨now, rfl, rfl, ?_⟩
    intro q hq
    cases hp.symm.trans hq
    exact hlt
  | _ => exact Or.inl rfl

theorem Effect.previous_le (h : Effect s op s' fresh) {p : Duration} (hp : s.previous = some p) :
    ∃ q, s'.previous = some q ∧ p.nanos ≤ q.nanos := by
  rcases h.previous_cases with hs | ⟨now, -, hs, hlt⟩
  · exact ⟨p, hs.trans hp, Nat.le_refl _⟩
  · exact ⟨now, hs, Nat.le_of_lt (hlt p hp)⟩

theorem Effect.honoredAt_cases (h : Effect s op s' fresh) :
    (∃ now, honoredAt? op fresh = some now ∧ s'.previous = some now ∧
      ∀ p, s.previous = some p → p.nanos < now.nanos) ∨ honoredAt? op fresh = none := by
  by_cases ht : .baseline ∈ fresh ∨ .render ∈ fresh
  · obtain ⟨now, rfl, -, hp, hlt⟩ := h.timed ht
    exact Or.inl ⟨now, if_pos ht, hp, hlt⟩
  · right
    cases op with
    | tick now => exact if_neg ht
    | _ => rfl

/-- What is true of a scheduler, the events it has emitted so far and the timestamps it has honored
so far. -/
structure Consistent (s : Scheduler) (es : List Event) (ts : List Duration) : Prop where
  baselines : es.count .baseline = if s.isInitialized then 1 else 0
  preceded : ∀ k, es[k]? = some .render → .baseline ∈ es.take k
  parity : s.launched = true ↔ Odd (es.count .change)
  increasing : ts.Pairwise fun t u => t.nanos < u.nanos
  bounded : ∀ t ∈ ts, ∃ p, s.previous = some p ∧ t.nanos ≤ p.nanos

variable {es : List Event} {ts : List Duration}

theorem Consistent.baseline_mem_iff (h : Consistent s es ts) :
    .baseline ∈ es ↔ s.isInitialized = true := by
  rw [← List.count_pos_iff, h.baselines]
  cases s.isInitialized <;> simp

theorem Consistent.preceded_append (h : Consistent s es ts) (he : Effect s op s' fresh) (k : Nat)
    (hk : (es ++ fresh)[k]? = some .render) : .baseline ∈ (es ++ fresh).take k := by
  by_cases hlt : k < es.length
  · rw [List.getElem?_append_left hlt] at hk
    rw [List.take_append_of_le_length (Nat.le_of_lt hlt)]
    exact h.preceded k hk
  · -- The render is new, so the baseline was set before this operation.
    have hle := Nat.le_of_not_lt hlt
    rw [List.getElem?_append_right hle] at hk
    have hr : .render ∈ fresh := List.mem_of_getElem? hk
    have hb := h.baseline_mem_iff.mpr (he.initialized_of_render hr)
    rw [List.take_append, List.take_of_length_le hle]
    exact List.mem_append_left _ hb

theorem Consistent.bounded_append (h : Consistent s es ts) (he : Effect s op s' fresh) :
    ∀ t ∈ ts ++ (honoredAt? op fresh).toList, ∃ p, s'.previous = some p ∧ t.nanos ≤ p.nanos := by
  intro t ht
  rcases List.mem_append.mp ht with ht | ht
  · obtain ⟨p, hp, hle⟩ := h.bounded t ht
    obtain ⟨q, hq, hpq⟩ := he.previous_le hp
    exact ⟨q, hq, Nat.le_trans hle hpq⟩
  · rcases he.honoredAt_cases with ⟨now, hh, hq, -⟩ | hh
    · rw [hh, Option.toList_some, List.mem_singleton] at ht
      exact ⟨now, hq, Nat.le_of_eq (congrArg _ ht)⟩
    · simp [hh] at ht

theorem Consistent.increasing_append (h : Consistent s es ts) (he : Effect s op s' fresh) :
    (ts ++ (honoredAt? op fresh).toList).Pairwise fun t u => t.nanos < u.nanos := by
  rcases he.honoredAt_cases with ⟨now, hh, -, hlt⟩ | hh
  · -- All timestamps before are at most the one that the new one is compared with.
    rw [hh, Option.toList_some, List.pairwise_append]
    refine ⟨h.increasing, List.pairwise_singleton _ _, fun t ht u hu => ?_⟩
    obtain ⟨p, hp, hle⟩ := h.bounded t ht
    rw [List.mem_singleton.mp hu]
    exact Nat.lt_of_le_of_lt hle (hlt p hp)
  · rw [hh, Option.toList_none, List.append_nil]
    exact h.increasing

theorem Consistent.parity_append (h : Consistent s es ts) (he : Effect s op s' fresh) :
    s'.launched = true ↔ Odd ((es ++ fresh).count .change) := by
  have hp := h.parity
  rw [List.count_append, he.count_change]
  cases hs : s.launched <;> cases hs' : s'.launched <;> simp_all [Nat.odd_add_one]

theorem Consistent.step (h : Consistent s es ts) (he : Effect s op s' fresh) :
    Consistent s' (es ++ fresh) (ts ++ (honoredAt? op fresh).toList) where
  baselines := by rw [List.count_append, h.baselines, he.count_baseline]
  preceded := h.preceded_append he
  parity := h.parity_append he
  increasing := h.increasing_append he
  bounded := h.bounded_append he

inductive Fresh : Scheduler → Prop where
  | new : Fresh new
  | limited {rate : Float} {s : Scheduler} : withRateLimit rate = .ok s → Fresh s

theorem Fresh.eq (h : Fresh s) : ∃ limit, s = { Scheduler.new with rateLimit := limit } := by
  cases h with
  | new => exact ⟨.unbounded, rfl⟩
  | @limited rate s h =>
    rw [withRateLimit] at h
    cases hr : RateLimit.ofFloat rate with
    | error e => simp [hr, bind, Except.bind] at h
    | ok limit =>
      refine ⟨limit, ?_⟩
      simpa [hr, bind, Except.bind] using h.symm

theorem Fresh.consistent (h : Fresh s) (ops : List Operation) :
    Consistent (s.afterAll ops) (s.emitted ops) (s.honored ops) := by
  obtain ⟨limit, rfl⟩ := h.eq
  refine afterAll_induction (p := Consistent) ?_ (fun _ _ _ _ _ _ he hc => hc.step he) ops
  exact ⟨rfl, by simp, by simp [Scheduler.new], List.Pairwise.nil, by simp⟩

/-- What one operation of a history does. -/
structure CallLaws (c : Call) : Prop where
  timed : .baseline ∈ c.events ∨ .render ∈ c.events →
    (∃ now, c.operation = .tick now) ∧ c.before.launched = true
  single : ∀ now, c.operation = .tick now → c.events.length ≤ 1
  first : ∀ now, c.operation = .tick now → c.before.launched = true →
    c.before.isInitialized = false → c.events = [.baseline]
  inTime : ∀ now p, c.operation = .tick now → c.before.launched = true →
    c.before.previous = some p → p.nanos < now.nanos →
      c.before.rateLimit.passes (now.since p) = true → c.events = [.render]
  flag : ∀ flag, c.operation.flag? c.before.launched = some flag →
    c.after.launched = flag ∧
      c.events = (if c.before.launched = flag then [] else [.change]) ++
        if flag then [.launch] else []
  other : c.operation.flag? c.before.launched = none →
    c.after.launched = c.before.launched ∧ .change ∉ c.events
  launch : c.events.count .launch =
    if (c.operation.flag? c.before.launched).isSome = true ∧ c.after.launched = true then 1 else 0

theorem callLaws {c : Call} (h : Effect c.before c.operation c.after c.events) : CallLaws c where
  timed ht := by
    obtain ⟨now, hop, hl, -⟩ := h.timed ht
    exact ⟨⟨now, hop⟩, hl⟩
  single now hop := h.length_le hop
  first now hop hl hi := (hop ▸ h).first hl hi
  inTime now p hop hl hp hlt hr := (hop ▸ h).in_time hl hp hlt hr
  flag flag hflag := by
    rcases h.flag_cases with ⟨b, hf, hl, he, -⟩ | ⟨hf, -⟩
    · cases hflag.symm.trans hf
      exact ⟨hl, he⟩
    · cases hflag.symm.trans hf
  other hnone := by
    rcases h.flag_cases with ⟨b, hf, -⟩ | ⟨-, hl, hc, -⟩
    · cases hnone.symm.trans hf
    · exact ⟨hl, hc⟩
  launch := h.count_launch

/-- Who gets the events of a history, and in which order. -/
structure DeliveryLaws (s : Scheduler) (ops : List Operation) : Prop where
  listeners : (s.afterAll ops).listeners = ops.count .subscribe
  rounds : ∀ earlier op later, ops = earlier ++ op :: later →
    s.delivered ops = s.delivered earlier ++
      ((s.afterAll earlier).emitted [op]).flatMap (round (earlier.count .subscribe)) ++
      (s.afterAll (earlier ++ [op])).delivered later
  receives : ∀ earlier later, ops = earlier ++ .subscribe :: later →
    s.received ops (earlier.count .subscribe) =
      (s.afterAll (earlier ++ [.subscribe])).emitted later
  nobody_else : ∀ listener, ops.count .subscribe ≤ listener → s.received ops listener = []

theorem Fresh.listeners (h : Fresh s) (ops : List Operation) :
    (s.afterAll ops).listeners = ops.count .subscribe := by
  obtain ⟨limit, rfl⟩ := h.eq
  rw [listeners_afterAll]
  exact Nat.zero_add _

theorem received_of_missing {listener : Nat} {ops : List Operation}
    (h : (s.afterAll ops).listeners ≤ listener) : s.received ops listener = [] := by
  induction ops generalizing s with
  | nil => rfl
  | cons op ops ih =>
    have he := s.perform_effect op
    have hl : s.listeners ≤ listener := by
      rw [listeners_afterAll] at h
      omega
    rw [← List.singleton_append, received_append, received, delivered_singleton, he.deliveries,
      received_rounds, if_neg (Nat.not_lt.mpr hl)]
    exact ih h

theorem Fresh.deliveryLaws (h : Fresh s) (ops : List Operation) : DeliveryLaws s ops where
  listeners := h.listeners ops
  rounds earlier op later hops := by
    rw [hops, List.append_cons, delivered_append, delivered_append, delivered_singleton,
      ((s.afterAll earlier).perform_effect op).deliveries, emitted_singleton, h.listeners]
  receives earlier later hops := by
    have hnone : s.received (earlier ++ [.subscribe]) (earlier.count .subscribe) = [] := by
      have hm : s.received earlier (earlier.count .subscribe) = [] :=
        received_of_missing (Nat.le_of_eq (h.listeners earlier))
      rw [received_append, hm]
      rfl
    have hthere : earlier.count .subscribe < (s.afterAll (earlier ++ [.subscribe])).listeners := by
      rw [h.listeners, List.count_append]
      exact Nat.lt_succ_self _
    rw [hops, List.append_cons, received_append, hnone, List.nil_append]
    exact received_of_subscribed hthere later
  nobody_else listener hl := received_of_missing (by rwa [h.listeners])

/-- What a history emits, by which operations, and who gets it. -/
structure EventLaws (s : Scheduler) (ops : List Operation) : Prop where
  baseline_once : (s.emitted ops).count .baseline ≤ 1
  baseline_first : ∀ k, (s.emitted ops)[k]? = some .render → .baseline ∈ (s.emitted ops).take k
  initialized : (s.afterAll ops).isInitialized = true ↔ .baseline ∈ s.emitted ops
  increasing : (s.honored ops).Pairwise fun t u => t.nanos < u.nanos
  launched : (s.afterAll ops).launched = true ↔ Odd ((s.emitted ops).count .change)
  calls : ∀ c ∈ s.calls ops, CallLaws c
  deliveries : DeliveryLaws s ops

/-- The protocol of events, after any operations in any order and with any timestamps. -/
theorem histories_follow_protocol (s : Scheduler) (hs : Fresh s) (ops : List Operation) :
    EventLaws s ops := by
  have hc := hs.consistent ops
  refine ⟨?_, hc.preceded, hc.baseline_mem_iff.symm, hc.increasing, hc.parity, ?_,
    hs.deliveryLaws ops⟩
  · rw [hc.baselines]
    split <;> omega
  · intro c hm
    exact callLaws (s.calls_effect ops c hm)

/-- A history with a listener that comes late, a stale tick, one while paused and one too soon. -/
theorem limited_history_follows_protocol :
    ∃ s, withRateLimit 2 = .ok s ∧ EventLaws s [.subscribe, .tick ⟨5⟩, .toggle, .tick ⟨7⟩,
      .subscribe, .launch, .tick ⟨7⟩, .tick ⟨8⟩, .setRateLimit 0, .tick ⟨10 ^ 9⟩, .pause,
      .tick ⟨2 * 10 ^ 9⟩, .setLaunched true, .tick ⟨3 * 10 ^ 9⟩] := by
  have h : withRateLimit 2 = .ok { new with rateLimit := ⟨2, by decide⟩ } := rfl
  exact ⟨_, h, histories_follow_protocol _ (.limited h) _⟩

end SingleTape.Scheduler
