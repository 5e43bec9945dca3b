import Mathlib.Algebra.BigOperators.Group.List.Basic
import Mathlib.Algebra.Ring.Int.Defs
import SingleTape.Proofs.Scheduler.Protocol

/-!
The account of time over whole histories. The baseline is always the first timestamp, the elapsed
time and what was passed over while paused, added up; so no difference of spans is ever negative
and no sum of them too long.
-/

namespace SingleTape

namespace Duration

def since? (later earlier : Duration) : Option Duration :=
  if earlier.nanos ≤ later.nanos then some (later.since earlier) else none

def add? (d e : Duration) : Option Duration :=
  if (d.add e).nanos ≤ longest.nanos then some (d.add e) else none

theorem since?_of_le {later earlier : Duration} (h : earlier.nanos ≤ later.nanos) :
    later.since? earlier = some (later.since earlier) := if_pos h

theorem add?_of_le {d e : Duration} (h : d.nanos + e.nanos ≤ longest.nanos) :
    d.add? e = some (d.add e) := if_pos h

end Duration

namespace Scheduler

/-- One tick in the bounded arithmetic of spans. There is no answer where a difference would be
negative or a sum too long. -/
def tick? (s : Scheduler) (now : Duration) : Option (Scheduler × List Event) :=
  match s.previous with
  | none =>
    if s.launched then some ({ s with previous := some now }, [.baseline]) else some (s, [])
  | some previous =>
    if now.nanos ≤ previous.nanos then some (s, [])
    else if !s.launched then some ({ s with previous := some now }, [])
    else do
      let gap ← now.since? previous
      if s.rateLimit.passes gap then do
        let elapsed ← s.elapsed.add? gap
        some ({ s with
          elapsed
          measuredRate := 1.0 / gap.seconds
          previous := some now }, [.render])
      else some (s, [])

/-- How long after the baseline of its moment a tick comes. -/
def Call.lead (c : Call) : Int :=
  match c.operation, c.before.previous with
  | .tick now, some previous => now.nanos - previous.nanos
  | _, _ => 0

def Call.counted (c : Call) : Int := if .render ∈ c.events then c.lead else 0

/-- What a call passes over: the lead of a tick that moves the baseline while paused. -/
def Call.slide (c : Call) : Int :=
  if c.before.launched = false ∧ c.after.previous ≠ c.before.previous then c.lead else 0

def Call.first? (c : Call) : Option Duration :=
  match c.operation with
  | .tick now => if .baseline ∈ c.events then some now else none
  | _ => none

def counted (cs : List Call) : Int := (cs.map Call.counted).sum

def slides (cs : List Call) : Int := (cs.map Call.slide).sum

def first? (cs : List Call) : Option Duration := cs.findSome? Call.first?

variable {s s' : Scheduler} {op : Operation} {fresh : List Event} {cs : List Call}

theorem counted_concat (cs : List Call) (c : Call) : counted (cs ++ [c]) = counted cs + c.counted := by
  simp [counted]

theorem slides_concat (cs : List Call) (c : Call) : slides (cs ++ [c]) = slides cs + c.slide := by
  simp [slides]

theorem first?_concat (cs : List Call) (c : Call) :
    first? (cs ++ [c]) = (first? cs).or c.first? := by
  simp [first?, List.findSome?_append]

theorem Effect.time_cases (h : Effect s op s' fresh) :
    (s'.previous = s.previous ∧ s'.elapsed = s.elapsed ∧ .baseline ∉ fresh ∧ .render ∉ fresh) ∨
    (∃ now, op = .tick now ∧ s.previous = none ∧ s.launched = true ∧
      s' = { s with previous := some now } ∧ fresh = [.baseline]) ∨
    (∃ now p, op = .tick now ∧ s.previous = some p ∧ p.nanos < now.nanos ∧ s.launched = false ∧
      s' = { s with previous := some now } ∧ fresh = []) ∨
    (∃ now p, op = .tick now ∧ s.previous = some p ∧ p.nanos < now.nanos ∧ s.launched = true ∧
      s' = s.honoring p now ∧ fresh = [.render]) := by
  cases h with
  | @flagged _ flag =>
    obtain ⟨hb, hr⟩ := timed_not_mem_flagEvents s.launched flag
    exact Or.inl ⟨rfl, rfl, hb, hr⟩
  | @initialized now hp hl => exact Or.inr (Or.inl ⟨now, rfl, hp, hl, rfl, rfl⟩)
  | @slid now p hp ht hl => exact Or.inr (Or.inr (Or.inl ⟨now, p, rfl, hp, ht, hl, rfl, rfl⟩))
  | @rendered now p hp ht hl _ =>
    exact Or.inr (Or.inr (Or.inr ⟨now, p, rfl, hp, ht, hl, rfl, rfl⟩))
  | _ => exact Or.inl ⟨rfl, rfl, by simp, by simp⟩

theorem Call.lead_tick {c : Call} {now p : Duration} (ho : c.operation = .tick now)
    (hp : c.before.previous = some p) : c.lead = now.nanos - p.nanos := by
  rw [lead, ho, hp]

theorem Call.counted_of_render {c : Call} (h : .render ∈ c.events) : c.counted = c.lead := if_pos h

theorem Call.counted_of_not_render {c : Call} (h : .render ∉ c.events) : c.counted = 0 := if_neg h

theorem Call.slide_of_still {c : Call} (h : c.after.previous = c.before.previous) :
    c.slide = 0 := by
  apply if_neg
  rintro ⟨-, hn⟩
  exact hn h

theorem Call.slide_of_launched {c : Call} (h : c.before.launched = true) : c.slide = 0 := by
  apply if_neg
  rintro ⟨hl, -⟩
  cases h.symm.trans hl

theorem Call.slide_of_moved {c : Call} (hl : c.before.launched = false)
    (hp : c.after.previous ≠ c.before.previous) : c.slide = c.lead := if_pos ⟨hl, hp⟩

theorem Call.first?_of_not_baseline {c : Call} (h : .baseline ∉ c.events) : c.first? = none := by
  rw [first?]
  split
  · exact if_neg h
  · rfl

/-- The account of a scheduler after some calls. -/
structure Accounted (s : Scheduler) (cs : List Call) : Prop where
  elapsed : (s.elapsed.nanos : Int) = counted cs
  slides : 0 ≤ slides cs
  unset : s.previous = none → first? cs = none ∧ counted cs = 0 ∧ Scheduler.slides cs = 0
  balance : ∀ p, s.previous = some p → ∃ f, first? cs = some f ∧
    (p.nanos : Int) = f.nanos + counted cs + Scheduler.slides cs

theorem Accounted.still {c : Call} (h : Accounted s cs) (hp : s'.previous = s.previous)
    (he : s'.elapsed = s.elapsed) (hc : c.counted = 0) (hs : c.slide = 0) (hf : c.first? = none) :
    Accounted s' (cs ++ [c]) := by
  constructor
  · rw [he, counted_concat, hc, Int.add_zero]
    exact h.elapsed
  · rw [slides_concat, hs, Int.add_zero]
    exact h.slides
  · intro hn
    rw [first?_concat, counted_concat, slides_concat, hc, hs, hf, Option.or_none, Int.add_zero,
      Int.add_zero]
    exact h.unset (hp ▸ hn)
  · intro p hq
    rw [first?_concat, counted_concat, slides_concat, hc, hs, hf, Option.or_none, Int.add_zero,
      Int.add_zero]
    exact h.balance p (hp ▸ hq)

theorem Accounted.initialized {c : Call} {now : Duration} (h : Accounted s cs)
    (hp : s.previous = none) (hc : c.counted = 0) (hs : c.slide = 0) (hf : c.first? = some now) :
    Accounted { s with previous := some now } (cs ++ [c]) := by
  obtain ⟨hfn, hcn, hsn⟩ := h.unset hp
  constructor
  · rw [counted_concat, hc, Int.add_zero]
    exact h.elapsed
  · rw [slides_concat, hs, Int.add_zero]
    exact h.slides
  · intro hn
    cases hn
  · intro p hq
    cases hq
    refine ⟨now, ?_, ?_⟩
    · rw [first?_concat, hfn, hf, Option.none_or]
    · rw [counted_concat, slides_concat, hcn, hsn, hc, hs]
      omega

theorem Accounted.moved {c : Call} {now p : Duration} (h : Accounted s cs)
    (hp : s.previous = some p) (hp' : s'.previous = some now)
    (he : (s'.elapsed.nanos : Int) = s.elapsed.nanos + c.counted) (hs : 0 ≤ c.slide)
    (hsum : c.counted + c.slide = now.nanos - p.nanos) : Accounted s' (cs ++ [c]) := by
  obtain ⟨f, hfirst, hbalance⟩ := h.balance p hp
  have hslides := h.slides
  constructor
  · rw [he, counted_concat, h.elapsed]
  · rw [slides_concat]
    omega
  · intro hn
    cases hn.symm.trans hp'
  · intro q hq
    cases hp'.symm.trans hq
    refine ⟨f, ?_, ?_⟩
    · rw [first?_concat, hfirst, Option.some_or]
    · rw [counted_concat, slides_concat]
      omega

theorem Accounted.step (h : Accounted s cs) (he : Effect s op s' fresh) :
    Accounted s' (cs ++ [⟨s, op, s', fresh⟩]) := by
  rcases he.time_cases with ⟨hp, hel, hb, hr⟩ | ⟨now, rfl, hp, hl, rfl, rfl⟩ |
    ⟨now, p, rfl, hp, hlt, hl, rfl, rfl⟩ | ⟨now, p, rfl, hp, hlt, hl, rfl, rfl⟩
  · apply h.still hp hel
    · exact Call.counted_of_not_render hr
    · exact Call.slide_of_still hp
    · exact Call.first?_of_not_baseline hb
  · apply h.initialized hp
    · exact Call.counted_of_not_render (by simp)
    · exact Call.slide_of_launched hl
    · rfl
  · have hne : some now ≠ s.previous := by
      rw [hp]
      intro h
      cases h
      exact Nat.lt_irrefl _ hlt
    have hc : Call.counted ⟨s, .tick now, { s with previous := some now }, []⟩ = 0 :=
      Call.counted_of_not_render (by simp)
    have hs : Call.slide ⟨s, .tick now, { s with previous := some now }, []⟩ =
        now.nanos - p.nanos :=
      (Call.slide_of_moved hl hne).trans (Call.lead_tick rfl hp)
    apply h.moved hp rfl
    · rw [hc, Int.add_zero]
    · rw [hs]
      omega
    · rw [hc, hs, Int.zero_add]
  · have hc : Call.counted ⟨s, .tick now, s.honoring p now, [.render]⟩ = now.nanos - p.nanos :=
      (Call.counted_of_render (by simp)).trans (Call.lead_tick rfl hp)
    have hs : Call.slide ⟨s, .tick now, s.honoring p now, [.render]⟩ = 0 :=
      Call.slide_of_launched hl
    apply h.moved hp rfl
    · rw [hc]
      simp only [honoring, Duration.add, Duration.since]
      omega
    · exact Int.le_of_eq hs.symm
    · rw [hc, hs, Int.add_zero]

theorem Fresh.accounted (h : Fresh s) (ops : List Operation) :
    Accounted (s.afterAll ops) (s.calls ops) := by
  obtain ⟨limit, rfl⟩ := h.eq
  induction ops using List.reverseRecOn with
  | nil =>
    refine ⟨rfl, Int.le_refl 0, ?_, ?_⟩
    · intro _
      exact ⟨rfl, rfl, rfl⟩
    · intro p hp
      cases hp
  | append_singleton ops op ih =>
    rw [afterAll_append, calls_append]
    exact ih.step (Scheduler.perform_effect _ op)

/-- The elapsed time and the lead of a later tick are together no longer than its timestamp. -/
theorem Accounted.room {now p : Duration} (h : Accounted s cs) (hp : s.previous = some p)
    (ht : p.nanos < now.nanos) : s.elapsed.nanos + (now.since p).nanos ≤ now.nanos := by
  obtain ⟨f, -, hbalance⟩ := h.balance p hp
  have hslides := h.slides
  have helapsed := h.elapsed
  simp only [Duration.since]
  omega

theorem Accounted.tick?_eq {now : Duration} (h : Accounted s cs)
    (hn : now.nanos ≤ Duration.longest.nanos) : s.tick? now = some (s.tick now) := by
  cases hp : s.previous with
  | none => cases hl : s.launched <;> simp [Scheduler.tick?, tick, hp, hl]
  | some p =>
    by_cases hle : now.nanos ≤ p.nanos
    · simp [Scheduler.tick?, tick, hp, hle]
    · have hlt := Nat.lt_of_not_le hle
      have hs := Duration.since?_of_le (Nat.le_of_lt hlt)
      have ha := Duration.add?_of_le (Nat.le_trans (h.room hp hlt) hn)
      cases hl : s.launched with
      | false => simp [Scheduler.tick?, tick, hp, hle, hl]
      | true =>
        cases hr : s.rateLimit.passes (now.since p) with
        | false => simp [Scheduler.tick?, tick, hp, hle, hl, hs, hr]
        | true => simp [Scheduler.tick?, tick, hp, hle, hl, hs, ha, hr]

/-- What one operation of a history does to time. -/
structure CallTimeLaws (c : Call) : Prop where
  bounded : ∀ now, c.operation = .tick now → c.before.tick? now = some (c.after, c.events)
  rendered : .render ∈ c.events → ∃ now p gap, c.operation = .tick now ∧
    c.before.previous = some p ∧ now.since? p = some gap ∧
      c.before.elapsed.add? gap = some c.after.elapsed
  elapsed_le : c.before.elapsed.nanos ≤ c.after.elapsed.nanos
  baseline_le : ∀ p, c.before.previous = some p →
    ∃ q, c.after.previous = some q ∧ p.nanos ≤ q.nanos
  changes : c.after.elapsed ≠ c.before.elapsed →
    (∃ now, c.operation = .tick now) ∧ .render ∈ c.events

theorem Effect.elapsed_cases (h : Effect s op s' fresh) :
    s'.elapsed = s.elapsed ∨
      ∃ now p, op = .tick now ∧ s' = s.honoring p now ∧ fresh = [.render] := by
  rcases h.time_cases with ⟨-, he, -⟩ | ⟨now, -, -, -, rfl, -⟩ | ⟨now, p, -, -, -, -, rfl, -⟩ |
    ⟨now, p, ho, -, -, -, hs, hf⟩
  · exact Or.inl he
  · exact Or.inl rfl
  · exact Or.inl rfl
  · exact Or.inr ⟨now, p, ho, hs, hf⟩

theorem Effect.elapsed_le (h : Effect s op s' fresh) : s.elapsed.nanos ≤ s'.elapsed.nanos := by
  rcases h.elapsed_cases with he | ⟨now, p, -, rfl, -⟩
  · rw [he]
  · exact Nat.le_add_right _ _

theorem Effect.rendered_of_elapsed_ne (h : Effect s op s' fresh) (hne : s'.elapsed ≠ s.elapsed) :
    (∃ now, op = .tick now) ∧ .render ∈ fresh := by
  rcases h.elapsed_cases with he | ⟨now, p, ho, -, rfl⟩
  · exact absurd he hne
  · exact ⟨⟨now, ho⟩, List.mem_singleton_self _⟩

theorem Accounted.callTimeLaws (h : Accounted s cs)
    (ht : ∀ now, op = .tick now → now.nanos ≤ Duration.longest.nanos) :
    CallTimeLaws (s.call op) := by
  have he := s.perform_effect op
  constructor
  · intro now ho
    cases ho
    exact h.tick?_eq (ht now rfl)
  · intro hr
    rcases he.time_cases with ⟨-, -, -, hn⟩ | ⟨now, -, -, -, -, hf⟩ | ⟨now, p, -, -, -, -, -, hf⟩ |
      ⟨now, p, ho, hp, hlt, -, hs, -⟩
    · exact absurd hr hn
    · rw [call, hf] at hr
      simp at hr
    · rw [call, hf] at hr
      simp at hr
    · refine ⟨now, p, now.since p, ho, hp, Duration.since?_of_le (Nat.le_of_lt hlt), ?_⟩
      rw [call, hs]
      exact Duration.add?_of_le (Nat.le_trans (h.room hp hlt) (ht now ho))
  · exact he.elapsed_le
  · intro p hp
    exact he.previous_le hp
  · exact he.rendered_of_elapsed_ne

/-- The account of the elapsed time after a history, and what each of its operations adds. -/
structure TimeLaws (s : Scheduler) (ops : List Operation) : Prop where
  initialized : (first? (s.calls ops)).isSome = (s.afterAll ops).isInitialized
  baseline : ∀ f, first? (s.calls ops) = some f → ∃ p, (s.afterAll ops).previous = some p ∧
    (p.nanos : Int) = f.nanos + (s.afterAll ops).elapsed.nanos + slides (s.calls ops) ∧
      f.nanos + (s.afterAll ops).elapsed.nanos ≤ p.nanos
  elapsed : ((s.afterAll ops).elapsed.nanos : Int) = counted (s.calls ops)
  calls : ∀ c ∈ s.calls ops, CallTimeLaws c

/-- Time is accounted for without loss and without overflow, after any operations in any order and
with any timestamps that can be represented. -/
theorem elapsed_time_accounted (s : Scheduler) (hs : Fresh s) (ops : List Operation)
    (ht : ∀ now, .tick now ∈ ops → now.nanos ≤ Duration.longest.nanos) : TimeLaws s ops := by
  have h := hs.accounted ops
  constructor
  · cases hp : (s.afterAll ops).previous with
    | none => simp [isInitialized, hp, (h.unset hp).1]
    | some p =>
      obtain ⟨f, hf, -⟩ := h.balance p hp
      simp [isInitialized, hp, hf]
  · intro f hf
    cases hp : (s.afterAll ops).previous with
    | none => cases hf.symm.trans (h.unset hp).1
    | some p =>
      obtain ⟨g, hg, hbalance⟩ := h.balance p hp
      cases hf.symm.trans hg
      have helapsed := h.elapsed
      have hslides := h.slides
      refine ⟨p, rfl, ?_, ?_⟩ <;> omega
  · exact h.elapsed
  · intro c hc
    obtain ⟨earlier, op, later, rfl, rfl⟩ := exists_of_mem_calls hc
    apply (hs.accounted earlier).callTimeLaws
    rintro now rfl
    exact ht now (by simp)

/-- A history with paused, stale and deferred ticks and the last timestamp there is. -/
theorem longest_history_accounted :
    TimeLaws new [.tick ⟨3⟩, .launch, .tick ⟨5⟩, .tick ⟨9⟩, .pause, .tick ⟨4⟩, .tick ⟨20⟩,
      .setRateLimit 2, .toggle, .tick ⟨21⟩, .tick Duration.longest, .tick ⟨0⟩] := by
  apply elapsed_time_accounted new .new
  intro now hm
  simp only [List.mem_cons, Operation.tick.injEq, reduceCtorEq, List.not_mem_nil, or_false,
    false_or] at hm
  rcases hm with rfl | rfl | rfl | rfl | rfl | rfl | rfl | rfl <;> decide

end Scheduler

end SingleTape
