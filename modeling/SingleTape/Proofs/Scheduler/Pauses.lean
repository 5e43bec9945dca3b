import SingleTape.Proofs.Scheduler.Elapsed
import SingleTape.Proofs.Scheduler.Spacing

/-!
What counts as elapsed, and pauses. Time is counted in spans, each from the tick that set the
baseline to one that renders. A tick that comes while paused ends the span, so no tick of a pause is
inside of one. A pause that no tick falls into leaves no trace, and counts like the time around it.
-/

namespace SingleTape.Scheduler

variable {s s' : Scheduler} {ops : List Operation} {fresh : List Event} {p now : Duration}

/-- A span that is counted: the tick `p` behind the operations `front` sets the baseline, which
stays through the operations `between`, and the tick `now` renders. -/
structure Span (s : Scheduler) (ops front : List Operation) (p : Duration)
    (between : List Operation) (now : Duration) (later : List Operation) : Prop where
  split : ops = front ++ .tick p :: between ++ .tick now :: later
  set : (s.afterAll front).previous ≠ some p
  kept : ∀ mid, mid <+: between → (s.afterAll (front ++ .tick p :: mid)).previous = some p
  rendered : .render ∈ (s.afterAll (front ++ .tick p :: between)).emitted [.tick now]

/-- Whether no operation inside of a counted span leaves the scheduler paused. -/
def CountsNoPause (s : Scheduler) (ops : List Operation) : Prop :=
  ∀ front p between now later, Span s ops front p between now later →
    ∀ mid, mid <+: between → mid ≠ [] → (s.afterAll (front ++ .tick p :: mid)).launched = true

/-- Whether a tick comes right before every operation that ends a pause, once there is a
baseline. -/
def TicksEndPauses (s : Scheduler) (ops : List Operation) : Prop :=
  ∀ n < ops.length, (s.afterAll (ops.take n)).launched = false →
    (s.afterAll (ops.take (n + 1))).launched = true →
      (s.afterAll (ops.take n)).previous = none ∨
        ((ops.take n).getLast?.bind Operation.timestamp?).isSome = true

instance (s : Scheduler) (ops : List Operation) : Decidable (TicksEndPauses s ops) :=
  inferInstanceAs (Decidable (∀ n < _, _ → _ → _))

/-- A baseline was set by a tick, and has been the baseline ever since. -/
theorem exists_setting_tick (hs : s.previous = none) (hp : (s.afterAll ops).previous = some p) :
    ∃ front between, ops = front ++ .tick p :: between ∧ (s.afterAll front).previous ≠ some p ∧
      ∀ mid, mid <+: between → (s.afterAll (front ++ .tick p :: mid)).previous = some p := by
  induction ops using List.reverseRecOn with
  | nil => cases hs.symm.trans hp
  | append_singleton ops op ih =>
    have hq := hp
    rw [afterAll_append, afterAll_cons, afterAll_nil] at hq
    rcases ((s.afterAll ops).perform_effect op).previous_cases with hk | ⟨now, rfl, hk, hlt⟩
    · obtain ⟨front, between, rfl, hset, hkept⟩ := ih (hk.symm.trans hq)
      refine ⟨front, between ++ [op], by simp, hset, ?_⟩
      intro mid hmid
      rcases List.prefix_concat_iff.mp hmid with rfl | hmid
      · simpa using hp
      · exact hkept mid hmid
    · cases hk.symm.trans hq
      refine ⟨ops, [], rfl, ?_, ?_⟩
      · intro hsame
        exact Nat.lt_irrefl _ (hlt p hsame)
      · intro mid hmid
        rw [List.prefix_nil.mp hmid]
        exact hp

theorem tick_mem_of_previous (hs : s.previous = none) (hp : (s.afterAll ops).previous = some p) :
    .tick p ∈ ops := by
  obtain ⟨front, between, rfl, -⟩ := exists_setting_tick hs hp
  simp

theorem Effect.deferred_of_kept (h : Effect s (.tick now) s' fresh) (hp : s.previous = some p)
    (hp' : s'.previous = some p) (hlt : p.nanos < now.nanos) :
    s.launched = true ∧ s.rateLimit.passes (now.since p) = false ∧ s' = s ∧ fresh = [] := by
  have hne : some now ≠ some p := by
    intro heq
    cases heq
    exact Nat.lt_irrefl _ hlt
  rcases h.later_cases hp hlt with ⟨-, rfl, -⟩ | hd | ⟨-, -, rfl, -⟩
  · exact absurd hp' hne
  · exact hd
  · exact absurd hp' hne

section

variable {front between later : List Operation}

theorem Span.rendering (h : Span s ops front p between now later) :
    p.nanos < now.nanos ∧ (s.afterAll (front ++ .tick p :: between)).launched = true ∧
      s.afterAll (front ++ .tick p :: between ++ [.tick now]) =
        (s.afterAll (front ++ .tick p :: between)).honoring p now := by
  have hr := h.rendered
  rw [emitted_singleton] at hr
  have he := (s.afterAll (front ++ .tick p :: between)).perform_effect (.tick now)
  obtain ⟨q, hq, hlt, hl, -, hs⟩ := he.of_render hr
  cases (h.kept between (List.prefix_refl _)).symm.trans hq
  refine ⟨hlt, hl, ?_⟩
  rw [afterAll_append, afterAll_cons, afterAll_nil]
  exact hs

theorem Span.tick_inside (h : Span s ops front p between now later) {mid rest : List Operation}
    {t : Duration} (hb : between = mid ++ .tick t :: rest) (ht : p.nanos < t.nanos) :
    (s.afterAll (front ++ .tick p :: mid)).launched = true ∧
      (s.afterAll (front ++ .tick p :: mid)).emitted [.tick t] = [] := by
  subst hb
  have hbefore := h.kept mid (List.prefix_append _ _)
  have hafter := h.kept (mid ++ [.tick t]) (by simp)
  rw [← List.cons_append, ← List.append_assoc, afterAll_append, afterAll_cons,
    afterAll_nil] at hafter
  have he := (s.afterAll (front ++ .tick p :: mid)).perform_effect (.tick t)
  obtain ⟨hl, -, -, hf⟩ := he.deferred_of_kept hbefore hafter ht
  rw [emitted_singleton]
  exact ⟨hl, hf⟩

theorem exists_relaunch (hs : s.launched = false) (hl : (s.afterAll ops).launched = true) :
    ∃ inner op tail, ops = inner ++ op :: tail ∧ (s.afterAll inner).launched = false ∧
      (s.afterAll (inner ++ [op])).launched = true := by
  induction ops generalizing s with
  | nil => exact absurd (hs.symm.trans hl) Bool.false_ne_true
  | cons op ops ih =>
    cases hop : (s.perform op).1.launched with
    | true => exact ⟨[], op, ops, rfl, hs, hop⟩
    | false =>
      obtain ⟨inner, relaunch, tail, rfl, hlow, hhigh⟩ := ih hop hl
      exact ⟨op :: inner, relaunch, tail, rfl, hlow, hhigh⟩

theorem TicksEndPauses.tick_before {earlier later : List Operation} {op : Operation}
    (h : TicksEndPauses s (earlier ++ op :: later)) (hlow : (s.afterAll earlier).launched = false)
    (hhigh : (s.afterAll (earlier ++ [op])).launched = true) :
    (s.afterAll earlier).previous = none ∨ ∃ init t, earlier = init ++ [.tick t] := by
  have hlen : earlier.length < (earlier ++ op :: later).length := by simp
  have hstep := h earlier.length hlen
  have htake : (earlier ++ op :: later).take (earlier.length + 1) = earlier ++ [op] :=
    List.take_length_add_append 1
  rw [List.take_left, htake] at hstep
  rcases hstep hlow hhigh with hnone | htick
  · exact .inl hnone
  · obtain rfl | ⟨init, last, rfl⟩ := List.eq_nil_or_concat earlier
    · cases htick
    · rw [List.concat_eq_append, List.getLast?_concat, Option.bind_some] at htick
      cases last with
      | tick t => exact .inr ⟨init, t, List.concat_eq_append⟩
      | _ => cases htick

/-- Where timestamps increase, a tick in a span comes too soon, and that only while launched. -/
theorem Span.launched_behind_tick (h : Span s ops front p between now later)
    (hincreasing : (timestamps ops).Pairwise (·.nanos < ·.nanos)) {mid rest : List Operation}
    {t : Duration} (hb : between = mid ++ .tick t :: rest) :
    (s.afterAll (front ++ .tick p :: (mid ++ [.tick t]))).launched = true := by
  have hlt : p.nanos < t.nanos := by
    have hops : ops = (front ++ .tick p :: mid) ++ .tick t :: (rest ++ .tick now :: later) := by
      rw [h.split, hb]
      simp
    rw [hops] at hincreasing
    exact nanos_lt_of_increasing hincreasing (by simp)
  obtain ⟨hl, -⟩ := h.tick_inside hb hlt
  rw [← List.cons_append, ← List.append_assoc, afterAll_append, afterAll_cons, afterAll_nil,
    (perform_effect _ _).launched_eq]
  exact hl

/-- No operation inside of a span leaves the scheduler paused: the launch that ends the pause would
come right behind a tick of the span. -/
theorem Span.launched_inside (h : Span s ops front p between now later)
    (hincreasing : (timestamps ops).Pairwise (·.nanos < ·.nanos)) (hticks : TicksEndPauses s ops)
    {mid : List Operation} (hmid : mid <+: between) (hne : mid ≠ []) :
    (s.afterAll (front ++ .tick p :: mid)).launched = true := by
  by_contra hpaused
  obtain ⟨rest, rfl⟩ := hmid
  have hend := h.rendering.2.1
  rw [← List.cons_append, ← List.append_assoc, afterAll_append] at hend
  obtain ⟨inner, op, tail, rfl, hlow, hhigh⟩ :=
    exists_relaunch (Bool.eq_false_iff.mpr hpaused) hend
  rw [← afterAll_append, List.append_assoc, List.cons_append] at hlow hhigh
  have hops : ops = (front ++ .tick p :: (mid ++ inner)) ++ op :: (tail ++ .tick now :: later) := by
    rw [h.split]
    simp
  rw [hops] at hticks
  rcases hticks.tick_before hlow (by simpa using hhigh) with hnone | ⟨init, t, hinit⟩
  · have hkept := h.kept (mid ++ inner) (by simp)
    cases hnone.symm.trans hkept
  · obtain hnil | ⟨before, last, hlast⟩ := List.eq_nil_or_concat (mid ++ inner)
    · exact hne (List.append_eq_nil_iff.mp hnil).1
    rw [List.concat_eq_append] at hlast
    rw [hlast, ← List.cons_append, ← List.append_assoc] at hinit
    obtain ⟨-, hlast'⟩ := List.append_inj' hinit rfl
    cases hlast'
    have hsplit : mid ++ (inner ++ op :: tail) = before ++ .tick t :: op :: tail := by
      rw [← List.append_assoc, hlast]
      simp
    rw [hlast] at hlow
    cases (h.launched_behind_tick hincreasing hsplit).symm.trans hlow

end

/-- What the spans of a history are. Each render ends one, which is what it adds to the elapsed
time; and no later tick inside of it came while paused. Where timestamps increase and a tick comes
right before every launch, no pause is counted at all. -/
structure SpanLaws (s : Scheduler) (ops : List Operation) : Prop where
  spans : ∀ earlier now later, ops = earlier ++ .tick now :: later →
    .render ∈ (s.afterAll earlier).emitted [.tick now] →
      ∃ front p between, earlier = front ++ .tick p :: between ∧
        Span s ops front p between now later
  counted : ∀ front p between now later, Span s ops front p between now later →
    p.nanos < now.nanos ∧ (s.afterAll (front ++ .tick p :: between)).launched = true ∧
      (s.afterAll (front ++ .tick p :: between ++ [.tick now])).elapsed =
        (s.afterAll (front ++ .tick p :: between)).elapsed.add (now.since p)
  inside : ∀ front p between now later, Span s ops front p between now later →
    ∀ mid t rest, between = mid ++ .tick t :: rest → p.nanos < t.nanos →
      (s.afterAll (front ++ .tick p :: mid)).launched = true ∧
        (s.afterAll (front ++ .tick p :: mid)).emitted [.tick t] = []
  paused : (timestamps ops).Pairwise (·.nanos < ·.nanos) → TicksEndPauses s ops →
    CountsNoPause s ops

/-- Time is counted from tick to tick: a pause is left out of it as far as ticks fall into it, in
any history. -/
theorem paused_ticks_end_spans (s : Scheduler) (hs : Fresh s) (ops : List Operation) :
    SpanLaws s ops := by
  have hnone : s.previous = none := by
    obtain ⟨limit, rfl⟩ := hs.eq
    rfl
  refine ⟨?_, ?_, ?_, ?_⟩
  · intro earlier now later hops hr
    have hfresh := hr
    rw [emitted_singleton] at hfresh
    obtain ⟨p, hp, -⟩ := ((s.afterAll earlier).perform_effect (.tick now)).of_render hfresh
    obtain ⟨front, between, rfl, hset, hkept⟩ := exists_setting_tick hnone hp
    exact ⟨front, p, between, rfl, by simpa using hops, hset, hkept, hr⟩
  · intro front p between now later h
    obtain ⟨hlt, hl, hs'⟩ := h.rendering
    refine ⟨hlt, hl, ?_⟩
    rw [hs']
    rfl
  · intro front p between now later h mid t rest hb ht
    exact h.tick_inside hb ht
  · intro hincreasing hticks front p between now later h mid hmid hne
    exact h.launched_inside hincreasing hticks hmid hne

def interrupted : List Operation :=
  [.launch, .tick ⟨0⟩, .pause, .tick ⟨4⟩, .toggle, .setRateLimit 400000000, .tick ⟨6⟩, .tick ⟨7⟩,
    .pause, .setLaunched true, .tick ⟨12⟩]

theorem interrupted_history_spans :
    SpanLaws new interrupted ∧ new.honored interrupted = [⟨0⟩, ⟨7⟩, ⟨12⟩] ∧
      (new.afterAll interrupted).elapsed = ⟨8⟩ :=
  ⟨paused_ticks_end_spans new .new interrupted, by decide +kernel, by decide +kernel⟩

example : TicksEndPauses new [.launch, .tick ⟨0⟩, .pause, .tick ⟨4⟩, .tick ⟨6⟩, .toggle,
    .tick ⟨9⟩] := by
  decide +kernel

def tickless : List Operation :=
  [.launch, .tick ⟨0⟩, .pause, .launch, .tick ⟨10 * 10 ^ 9⟩]

/-- The pause is inside of a span and counts as elapsed. -/
theorem tickless_pause_counted :
    (timestamps tickless).Pairwise (·.nanos < ·.nanos) ∧ ¬ CountsNoPause new tickless ∧
      (new.afterAll tickless).elapsed = ⟨10 * 10 ^ 9⟩ := by
  refine ⟨by decide, ?_, by decide +kernel⟩
  intro h
  have hspan : Span new tickless [.launch] ⟨0⟩ [.pause, .launch] ⟨10 * 10 ^ 9⟩ [] := by
    refine ⟨rfl, by decide, ?_, by decide +kernel⟩
    intro mid hmid
    rcases List.prefix_cons_iff.mp hmid with rfl | ⟨rest, rfl, hrest⟩
    · rfl
    · rcases List.prefix_cons_iff.mp hrest with rfl | ⟨last, rfl, hlast⟩
      · rfl
      · rw [List.prefix_nil.mp hlast]
        rfl
  have hl := h _ _ _ _ _ hspan [.pause] (by decide) (by decide)
  cases hl

end SingleTape.Scheduler
