import SingleTape.Scheduler

/-!
All that a single operation on a scheduler can do: the state it leaves and the events it emits, with
the conditions under which it does so.
-/

namespace SingleTape.Scheduler

def Operation.flag? (launched : Bool) : Operation → Option Bool
  | .launch => some true
  | .pause => some false
  | .toggle => some !launched
  | .setLaunched launched => some launched
  | .subscribe | .setRateLimit _ | .tick _ => none

def flagEvents (before after : Bool) : List Event :=
  (if before = after then [] else [.change]) ++ if after then [.launch] else []

def honoring (s : Scheduler) (previous now : Duration) : Scheduler :=
  { s with
    elapsed := s.elapsed.add (now.since previous)
    measuredRate := 1.0 / (now.since previous).seconds
    previous := some now }

/-- The effects of operations. A tick has six of them: there is no baseline yet, and it is paused or
launched; the tick is stale; it comes while paused, too soon, or in time. -/
inductive Effect (s : Scheduler) : Operation → Scheduler → List Event → Prop where
  | subscribed : Effect s .subscribe s.subscribe []
  | limited {rate : Float} {limit : RateLimit} (h : RateLimit.ofFloat rate = .ok limit) :
      Effect s (.setRateLimit rate) { s with rateLimit := limit } []
  | refused {rate : Float} {e : Error} (h : RateLimit.ofFloat rate = .error e) :
      Effect s (.setRateLimit rate) s []
  | flagged {op : Operation} {flag : Bool} (h : op.flag? s.launched = some flag) :
      Effect s op { s with launched := flag } (flagEvents s.launched flag)
  | ignored {now : Duration} (hp : s.previous = none) (hl : s.launched = false) :
      Effect s (.tick now) s []
  | initialized {now : Duration} (hp : s.previous = none) (hl : s.launched = true) :
      Effect s (.tick now) { s with previous := some now } [.baseline]
  | stale {now p : Duration} (hp : s.previous = some p) (ht : now.nanos ≤ p.nanos) :
      Effect s (.tick now) s []
  | slid {now p : Duration} (hp : s.previous = some p) (ht : p.nanos < now.nanos)
      (hl : s.launched = false) : Effect s (.tick now) { s with previous := some now } []
  | deferred {now p : Duration} (hp : s.previous = some p) (ht : p.nanos < now.nanos)
      (hl : s.launched = true) (hr : s.rateLimit.passes (now.since p) = false) :
      Effect s (.tick now) s []
  | rendered {now p : Duration} (hp : s.previous = some p) (ht : p.nanos < now.nanos)
      (hl : s.launched = true) (hr : s.rateLimit.passes (now.since p) = true) :
      Effect s (.tick now) (s.honoring p now) [.render]

theorem tick_effect (s : Scheduler) (now : Duration) :
    Effect s (.tick now) (s.tick now).1 (s.tick now).2 := by
  cases hp : s.previous with
  | none =>
    cases hl : s.launched with
    | false =>
      have ht : s.tick now = (s, []) := by simp [tick, hp, hl]
      rw [ht]
      exact .ignored hp hl
    | true =>
      have ht : s.tick now = ({ s with previous := some now }, [.baseline]) := by
        simp [tick, hp, hl]
      rw [ht]
      exact .initialized hp hl
  | some p =>
    by_cases hn : now.nanos ≤ p.nanos
    · have ht : s.tick now = (s, []) := by simp [tick, hp, hn]
      rw [ht]
      exact .stale hp hn
    have hlt := Nat.lt_of_not_le hn
    cases hl : s.launched with
    | false =>
      have ht : s.tick now = ({ s with previous := some now }, []) := by simp [tick, hp, hn, hl]
      rw [ht]
      exact .slid hp hlt hl
    | true =>
      cases hr : s.rateLimit.passes (now.since p) with
      | false =>
        have ht : s.tick now = (s, []) := by simp [tick, hp, hn, hl, hr]
        rw [ht]
        exact .deferred hp hlt hl hr
      | true =>
        have ht : s.tick now = (s.honoring p now, [.render]) := by
          simp [tick, hp, hn, hl, hr, honoring]
        rw [ht]
        exact .rendered hp hlt hl hr

theorem perform_effect (s : Scheduler) (op : Operation) :
    Effect s op (s.perform op).1 (s.perform op).2 := by
  cases op with
  | subscribe => exact .subscribed
  | launch => exact .flagged rfl
  | pause => exact .flagged rfl
  | toggle => exact .flagged rfl
  | setLaunched launched => exact .flagged rfl
  | setRateLimit rate =>
    cases hr : RateLimit.ofFloat rate with
    | ok limit =>
      have hs : s.perform (.setRateLimit rate) = ({ s with rateLimit := limit }, []) := by
        simp [perform, setRateLimit, hr, bind, Except.bind]
      rw [hs]
      exact .limited hr
    | error e =>
      have hs : s.perform (.setRateLimit rate) = (s, []) := by
        simp [perform, setRateLimit, hr, bind, Except.bind]
      rw [hs]
      exact .refused hr
  | tick now => exact s.tick_effect now

section

variable {s s' : Scheduler} {now p : Duration} {fresh : List Event}

theorem Effect.first_cases (h : Effect s (.tick now) s' fresh)
    (hp : s.previous = none) :
    (s.launched = false ∧ s' = s ∧ fresh = []) ∨
      (s.launched = true ∧ s' = { s with previous := some now } ∧ fresh = [.baseline]) := by
  cases h with
  | flagged hf => cases hf
  | ignored _ hl => exact Or.inl ⟨hl, rfl, rfl⟩
  | initialized _ hl => exact Or.inr ⟨hl, rfl, rfl⟩
  | stale hq => cases hp.symm.trans hq
  | slid hq => cases hp.symm.trans hq
  | deferred hq => cases hp.symm.trans hq
  | rendered hq => cases hp.symm.trans hq

/-- A tick later than the baseline moves it while paused, comes too soon, or is honored. -/
theorem Effect.later_cases (h : Effect s (.tick now) s' fresh)
    (hp : s.previous = some p) (hlt : p.nanos < now.nanos) :
    (s.launched = false ∧ s' = { s with previous := some now } ∧ fresh = []) ∨
      (s.launched = true ∧ s.rateLimit.passes (now.since p) = false ∧ s' = s ∧ fresh = []) ∨
      (s.launched = true ∧ s.rateLimit.passes (now.since p) = true ∧ s' = s.honoring p now ∧
        fresh = [.render]) := by
  cases h with
  | flagged hf => cases hf
  | ignored hq => cases hp.symm.trans hq
  | initialized hq => cases hp.symm.trans hq
  | stale hq hle =>
    cases hp.symm.trans hq
    exact absurd hlt (Nat.not_lt.mpr hle)
  | slid hq _ hl => exact Or.inl ⟨hl, rfl, rfl⟩
  | deferred hq _ hl hr =>
    cases hp.symm.trans hq
    exact Or.inr (Or.inl ⟨hl, hr, rfl, rfl⟩)
  | rendered hq _ hl hr =>
    cases hp.symm.trans hq
    exact Or.inr (Or.inr ⟨hl, hr, rfl, rfl⟩)

/-- A tick that renders is honored: it comes while launched, later than the baseline and in time. -/
theorem Effect.of_render (h : Effect s (.tick now) s' fresh) (hr : .render ∈ fresh) :
    ∃ p, s.previous = some p ∧ p.nanos < now.nanos ∧ s.launched = true ∧
      s.rateLimit.passes (now.since p) = true ∧ s' = s.honoring p now := by
  cases h with
  | flagged hf => cases hf
  | @rendered _ p hp hlt hl hpass => exact ⟨p, hp, hlt, hl, hpass, rfl⟩
  | _ => simp at hr

end

end SingleTape.Scheduler
