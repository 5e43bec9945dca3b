import SingleTape.Proofs.Scheduler.Elapsed
import SingleTape.Proofs.Scheduler.Pauses

/-!
Two schedulers that get the same calls at different rate limits. The faster one may drop a tick that
the slower one honors, if it has honored one since. So it is not ahead tick by tick, but it has
never rendered less; and when both have rendered as often, the baseline of the faster one is not
later.
-/

namespace SingleTape

/-- All that is asked of the arithmetic of doubles: at these rate limits, a gap that passes does so
at every higher one of them, and so does every longer one of these gaps. -/
def RateLimit.Graded (limits : List RateLimit) (gaps : List Duration) : Prop :=
  ∀ r ∈ limits, ∀ r' ∈ limits, r.perSecond ≤ r'.perSecond →
    ∀ d ∈ gaps, ∀ e ∈ gaps, d.nanos ≤ e.nanos → r.passes d = true → r'.passes e = true

instance (limits : List RateLimit) (gaps : List Duration) :
    Decidable (RateLimit.Graded limits gaps) :=
  inferInstanceAs (Decidable (∀ r ∈ limits, ∀ r' ∈ limits, _ → ∀ d ∈ gaps, ∀ e ∈ gaps, _ → _ → _))

namespace Scheduler

variable {s s' : Scheduler} {op : Operation} {ops : List Operation} {fresh : List Event}

theorem withRateLimit_perSecond (limit : RateLimit) :
    withRateLimit limit.perSecond = .ok { new with rateLimit := limit } := by
  rw [withRateLimit, RateLimit.ofFloat, dif_pos limit.positive]
  rfl

theorem Effect.rateLimit_eq (h : Effect s op s' fresh) (hop : ∀ rate, op ≠ .setRateLimit rate) :
    s'.rateLimit = s.rateLimit := by
  cases h with
  | @limited rate => exact absurd rfl (hop rate)
  | _ => rfl

theorem rateLimit_afterAll (s : Scheduler) (h : ∀ rate, .setRateLimit rate ∉ ops) :
    (s.afterAll ops).rateLimit = s.rateLimit := by
  induction ops generalizing s with
  | nil => rfl
  | cons op ops ih =>
    have hop : ∀ rate, op ≠ .setRateLimit rate := by
      rintro rate rfl
      exact h rate List.mem_cons_self
    have hops : ∀ rate, .setRateLimit rate ∉ ops := by
      intro rate hm
      exact h rate (List.mem_cons_of_mem _ hm)
    rw [afterAll_cons, ih _ hops]
    exact (s.perform_effect op).rateLimit_eq hop

theorem Effect.untimed (h : Effect s op s' fresh) (hop : ∀ now, op ≠ .tick now) :
    s'.previous = s.previous ∧ fresh.count .render = 0 := by
  rcases h.time_cases with ⟨hp, -, -, hr⟩ | ⟨now, ho, -⟩ | ⟨now, _, ho, -⟩ | ⟨now, _, ho, -⟩
  · exact ⟨hp, List.count_eq_zero.mpr hr⟩
  · exact absurd ho (hop now)
  · exact absurd ho (hop now)
  · exact absurd ho (hop now)

/-- The second scheduler, after so many renders, is not behind the first one. -/
structure Ahead (slow fast : Scheduler) (slowRenders fastRenders : Nat) : Prop where
  launched : fast.launched = slow.launched
  initialized : fast.isInitialized = slow.isInitialized
  renders : slowRenders ≤ fastRenders
  baseline : slowRenders = fastRenders → ∀ p q, slow.previous = some p → fast.previous = some q →
    q.nanos ≤ p.nanos

section

variable {slow fast slow' fast' : Scheduler} {es fs : List Event} {m n : Nat} {now p q : Duration}

theorem ahead_of_previous (hl : fast.launched = slow.launched) (hm : m ≤ n)
    (hp : slow.previous = some p) (hq : fast.previous = some q) (hle : q.nanos ≤ p.nanos) :
    Ahead slow fast m n := by
  refine ⟨hl, ?_, hm, ?_⟩
  · rw [isInitialized, isInitialized, hp, hq]
    rfl
  · intro _ a b ha hb
    cases hp.symm.trans ha
    cases hq.symm.trans hb
    exact hle

theorem Ahead.previous_none (h : Ahead slow fast m n) (hp : slow.previous = none) :
    fast.previous = none := by
  have hi := h.initialized
  rw [isInitialized, isInitialized, hp] at hi
  exact Option.not_isSome_iff_eq_none.mp (by simp [hi])

theorem Ahead.previous_some (h : Ahead slow fast m n) (hp : slow.previous = some p) :
    ∃ q, fast.previous = some q := by
  have hi := h.initialized
  rw [isInitialized, isInitialized, hp] at hi
  exact Option.isSome_iff_exists.mp hi

theorem Ahead.untimed (h : Ahead slow fast m n) (he : Effect slow op slow' es)
    (hf : Effect fast op fast' fs) (hop : ∀ now, op ≠ .tick now) :
    Ahead slow' fast' (m + es.count .render) (n + fs.count .render) := by
  obtain ⟨hp, hes⟩ := he.untimed hop
  obtain ⟨hq, hfs⟩ := hf.untimed hop
  rw [hes, hfs]
  refine ⟨?_, ?_, h.renders, ?_⟩
  · rw [he.launched_eq, hf.launched_eq, h.launched]
  · rw [isInitialized, isInitialized, hp, hq]
    exact h.initialized
  · rw [hp, hq]
    exact h.baseline

theorem Ahead.first_tick (h : Ahead slow fast m n) (he : Effect slow (.tick now) slow' es)
    (hf : Effect fast (.tick now) fast' fs) (hp : slow.previous = none) :
    Ahead slow' fast' (m + es.count .render) (n + fs.count .render) := by
  have hq := h.previous_none hp
  have hl := h.launched
  rcases he.first_cases hp with ⟨hs, rfl, rfl⟩ | ⟨hs, rfl, rfl⟩
  · rcases hf.first_cases hq with ⟨-, rfl, rfl⟩ | ⟨hs', -⟩
    · exact h
    · cases hs'.symm.trans (hl.trans hs)
  · rcases hf.first_cases hq with ⟨hs', -⟩ | ⟨-, rfl, rfl⟩
    · cases hs'.symm.trans (hl.trans hs)
    · exact ahead_of_previous hl h.renders rfl rfl (Nat.le_refl _)

/-- The faster scheduler drops a tick that the slower one honors only if it has rendered more often
before. -/
theorem Ahead.later_tick (h : Ahead slow fast m n) (he : Effect slow (.tick now) slow' es)
    (hf : Effect fast (.tick now) fast' fs) (hp : slow.previous = some p)
    (hq : fast.previous = some q) (hpn : p.nanos < now.nanos) (hqn : q.nanos < now.nanos)
    (hpass : q.nanos ≤ p.nanos → slow.rateLimit.passes (now.since p) = true →
      fast.rateLimit.passes (now.since q) = true) :
    Ahead slow' fast' (m + es.count .render) (n + fs.count .render) := by
  have hl := h.launched
  have hm := h.renders
  rcases he.later_cases hp hpn with ⟨hs, rfl, rfl⟩ | ⟨hs, hr, rfl, rfl⟩ | ⟨hs, hr, rfl, rfl⟩
  · rcases hf.later_cases hq hqn with ⟨-, rfl, rfl⟩ | ⟨hs', -⟩ | ⟨hs', -⟩
    · exact ahead_of_previous hl hm rfl rfl (Nat.le_refl _)
    · cases hs'.symm.trans (hl.trans hs)
    · cases hs'.symm.trans (hl.trans hs)
  · rcases hf.later_cases hq hqn with ⟨hs', -⟩ | ⟨-, -, rfl, rfl⟩ | ⟨-, -, rfl, rfl⟩
    · cases hs'.symm.trans (hl.trans hs)
    · exact h
    · -- The faster one has rendered more often now, wherever the baselines are.
      refine ⟨hl, ?_, Nat.le_succ_of_le hm, ?_⟩
      · rw [isInitialized, isInitialized, hp]
        rfl
      · intro hmn
        exact absurd hmn (Nat.ne_of_lt (Nat.lt_succ_of_le hm))
  · rcases hf.later_cases hq hqn with ⟨hs', -⟩ | ⟨-, hr', rfl, rfl⟩ | ⟨-, -, rfl, rfl⟩
    · cases hs'.symm.trans (hl.trans hs)
    · have hne : m ≠ n := by
        intro hmn
        have hle := h.baseline hmn p q hp hq
        cases hr'.symm.trans (hpass hle hr)
      have hlt : m + 1 ≤ n := Nat.lt_of_le_of_ne hm hne
      exact ahead_of_previous hl hlt rfl hq (Nat.le_of_lt hqn)
    · exact ahead_of_previous hl (Nat.succ_le_succ hm) rfl rfl (Nat.le_refl _)

end

/-- What two schedulers do with the same calls if the second one has the higher rate limit. -/
structure FasterLaws (slow fast : Scheduler) (ops : List Operation) : Prop where
  renders : ∀ earlier, earlier <+: ops →
    (slow.emitted earlier).count .render ≤ (fast.emitted earlier).count .render
  launched : ∀ earlier, earlier <+: ops →
    (fast.afterAll earlier).launched = (slow.afterAll earlier).launched
  baseline : ∀ earlier op, earlier ++ [op] <+: ops →
    (.baseline ∈ (fast.afterAll earlier).emitted [op] ↔
      .baseline ∈ (slow.afterAll earlier).emitted [op])

section

variable {slow fast : RateLimit} {earlier : List Operation}

theorem passes_of_graded {p q now : Duration} (hgraded : RateLimit.Graded [slow, fast] (gaps ops))
    (hle : slow.perSecond ≤ fast.perSecond) (hn : .tick now ∈ ops) (hp : .tick p ∈ ops)
    (hq : .tick q ∈ ops) (hpn : p.nanos < now.nanos) (hqp : q.nanos ≤ p.nanos)
    (hpass : slow.passes (now.since p) = true) : fast.passes (now.since q) = true := by
  have hpg := since_mem_gaps hn hp hpn
  have hqg := since_mem_gaps hn hq (Nat.lt_of_le_of_lt hqp hpn)
  have hgap : (now.since p).nanos ≤ (now.since q).nanos := Nat.sub_le_sub_left hqp now.nanos
  exact hgraded slow (by simp) fast (by simp) hle _ hpg _ hqg hgap hpass

/-- However far two schedulers have come with the same calls, the one with the higher rate limit is
not behind. -/
theorem ahead_afterAll (hle : slow.perSecond ≤ fast.perSecond)
    (hgraded : RateLimit.Graded [slow, fast] (gaps ops))
    (hsteady : ∀ rate, .setRateLimit rate ∉ ops)
    (hincreasing : (timestamps ops).Pairwise (·.nanos < ·.nanos)) (hpre : earlier <+: ops) :
    Ahead (afterAll { new with rateLimit := slow } earlier)
      (afterAll { new with rateLimit := fast } earlier)
      ((emitted { new with rateLimit := slow } earlier).count .render)
      ((emitted { new with rateLimit := fast } earlier).count .render) := by
  induction earlier using List.reverseRecOn with
  | nil =>
    refine ⟨rfl, rfl, Nat.le_refl _, ?_⟩
    intro _ p q hp
    cases hp
  | append_singleton earlier op ih =>
    have h := ih ((List.prefix_append _ _).trans hpre)
    have he := (afterAll { new with rateLimit := slow } earlier).perform_effect op
    have hf := (afterAll { new with rateLimit := fast } earlier).perform_effect op
    rw [afterAll_append, afterAll_append, emitted_append, emitted_append, List.count_append,
      List.count_append, emitted_singleton, emitted_singleton]
    by_cases hop : ∃ now, op = .tick now
    · obtain ⟨now, rfl⟩ := hop
      cases hp : (afterAll { new with rateLimit := slow } earlier).previous with
      | none => exact h.first_tick he hf hp
      | some p =>
        obtain ⟨later, hops⟩ := hpre
        rw [List.append_assoc, List.singleton_append] at hops
        subst hops
        obtain ⟨q, hq⟩ := h.previous_some hp
        have hpm := tick_mem_of_previous rfl hp
        have hqm := tick_mem_of_previous rfl hq
        have hpn := nanos_lt_of_increasing hincreasing hpm
        have hqn := nanos_lt_of_increasing hincreasing hqm
        have hearlier : ∀ rate, .setRateLimit rate ∉ earlier := by
          intro rate hm
          exact hsteady rate (List.mem_append_left _ hm)
        apply h.later_tick he hf hp hq hpn hqn
        rw [rateLimit_afterAll _ hearlier, rateLimit_afterAll _ hearlier]
        intro hqp hpass
        exact passes_of_graded hgraded hle (by simp) (List.mem_append_left _ hpm)
          (List.mem_append_left _ hqm) hpn hqp hpass
    · exact h.untimed he hf (not_exists.mp hop)

theorem baseline_mem_emitted_iff (s : Scheduler) (op : Operation) :
    .baseline ∈ s.emitted [op] ↔
      s.isInitialized = false ∧ (s.afterAll [op]).isInitialized = true := by
  have hb := (s.perform_effect op).count_baseline
  rw [emitted_singleton, afterAll_cons, afterAll_nil, ← List.count_pos_iff]
  generalize (s.perform op).2.count .baseline = count at hb ⊢
  cases hs : s.isInitialized with
  | false => cases hs' : (s.perform op).1.isInitialized <;> simp_all
  | true => cases hs' : (s.perform op).1.isInitialized <;> simp_all

end

/-- A higher rate limit never renders less, and makes no difference to the baseline and to the
launched flag. -/
theorem faster_schedulers_render_more (slow fast : RateLimit)
    (hle : slow.perSecond ≤ fast.perSecond) (ops : List Operation)
    (hsteady : ∀ rate, .setRateLimit rate ∉ ops)
    (hincreasing : (timestamps ops).Pairwise (·.nanos < ·.nanos))
    (hgraded : RateLimit.Graded [slow, fast] (gaps ops)) :
    ∃ s t, withRateLimit slow.perSecond = .ok s ∧ withRateLimit fast.perSecond = .ok t ∧
      FasterLaws s t ops := by
  refine ⟨_, _, withRateLimit_perSecond slow, withRateLimit_perSecond fast, ?_, ?_, ?_⟩
  · intro earlier hpre
    exact (ahead_afterAll hle hgraded hsteady hincreasing hpre).renders
  · intro earlier hpre
    exact (ahead_afterAll hle hgraded hsteady hincreasing hpre).launched
  · intro earlier op hpre
    have hbefore := ahead_afterAll hle hgraded hsteady hincreasing
      ((List.prefix_append earlier [op]).trans hpre)
    have hafter := ahead_afterAll hle hgraded hsteady hincreasing hpre
    rw [baseline_mem_emitted_iff, baseline_mem_emitted_iff, ← afterAll_append, ← afterAll_append,
      hbefore.initialized, hafter.initialized]

/-- A history in which the faster one of two schedulers drops a tick that the slower one honors. -/
def drifting : List Operation :=
  [.launch, .tick ⟨0⟩, .tick ⟨4 * 10 ^ 8⟩, .tick ⟨5 * 10 ^ 8⟩, .subscribe, .tick ⟨9 * 10 ^ 8⟩,
    .pause, .tick ⟨10 ^ 9⟩, .toggle, .tick ⟨15 * 10 ^ 8⟩]

theorem drifting_schedulers_render_more :
    ∃ s t, withRateLimit 2 = .ok s ∧ withRateLimit 3 = .ok t ∧
      s.emitted (drifting.take 4) = [.change, .launch, .baseline, .render] ∧
      t.emitted (drifting.take 4) = [.change, .launch, .baseline, .render] ∧
      s.honored drifting = [⟨0⟩, ⟨5 * 10 ^ 8⟩, ⟨15 * 10 ^ 8⟩] ∧
      t.honored drifting = [⟨0⟩, ⟨4 * 10 ^ 8⟩, ⟨9 * 10 ^ 8⟩, ⟨15 * 10 ^ 8⟩] ∧
      FasterLaws s t drifting := by
  have hgraded : RateLimit.Graded [⟨2, by decide⟩, ⟨3, by decide⟩] (gaps drifting) := by
    decide +kernel
  have hsteady : ∀ rate, .setRateLimit rate ∉ drifting := by
    intro rate
    simp [drifting]
  obtain ⟨s, t, hs, ht, hlaws⟩ := faster_schedulers_render_more ⟨2, by decide⟩ ⟨3, by decide⟩
    (by decide) drifting hsteady (by decide) hgraded
  cases hs
  cases ht
  exact ⟨_, _, rfl, rfl, by decide +kernel, by decide +kernel, by decide +kernel, by decide +kernel,
    hlaws⟩

end Scheduler

end SingleTape
