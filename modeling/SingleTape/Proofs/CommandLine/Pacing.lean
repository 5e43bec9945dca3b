import SingleTape.CommandLine.Job
import SingleTape.Proofs.Scheduler.Effects
import SingleTape.Proofs.Session.Coherence

/-!
A job that is paced by a scheduler prints what it would print without pace. Each of its turns pulls
one record or stays where it is, whatever the clock says.
-/

namespace SingleTape

open CommandLine

variable {s t : Session} {records : List Record} {limit turns : Nat}

theorem Scheduler.Effect.tick_launched {s s' : Scheduler} {now : Duration} {fresh : List Event}
    (h : Effect s (.tick now) s' fresh) (hl : s.launched = true) :
    s'.launched = true ∧ (fresh = [.render] ∨ .render ∉ fresh) := by
  cases h with
  | flagged hf => cases hf
  | rendered => exact ⟨hl, Or.inl rfl⟩
  | initialized => exact ⟨hl, Or.inr (by simp)⟩
  | _ => exact ⟨hl, Or.inr List.not_mem_nil⟩

namespace Paced

theorem deliver_append_of_quiet {events : List Event} (h : .render ∉ events) (later : List Event) :
    deliver s (events ++ later) = deliver s later := by
  induction events with
  | nil => rfl
  | cons event events ih =>
    rw [List.mem_cons, not_or] at h
    obtain ⟨he, hes⟩ := h
    have hq : s.handle event = (.ok none, s) := Session.handle_quiet (Or.inl (Ne.symm he))
    rw [List.cons_append, deliver, hq]
    simp only [ih hes]
    cases deliver s later <;> rfl

theorem deliver_render (ha : s.auto = true) {pulled : Option Record}
    (hn : s.next = (.ok pulled, t)) : deliver s [.render] = .ok (pulled.toList, t) := by
  rw [deliver, Session.handle_render ha, hn]
  simp [deliver, bind, Except.bind]

/-- The scheduler runs, and what waits for the session pulls nothing. -/
structure Ready (p : Paced) : Prop where
  auto : p.session.auto = true
  launched : p.scheduler.launched = true
  quiet : .render ∉ p.queue

theorem ready_start (ha : s.auto = true) (rate : RateLimit) : (start s rate).Ready := by
  have hq : (start s rate).queue = [.change, .launch] := rfl
  exact ⟨ha, rfl, by simp [hq]⟩

theorem turn_of_deliver {p : Paced} {now : Duration}
    (h : deliver p.session (p.queue ++ (p.scheduler.tick now).2) = .ok (records, t)) :
    p.turn now = .ok (records, ⟨t, (p.scheduler.tick now).1, [], p.steps + records.length⟩) := by
  simp only [turn, h, bind, Except.bind]

theorem Ready.turn_honored {p : Paced} (h : p.Ready) {now : Duration}
    (hr : (p.scheduler.tick now).2 = [.render]) {pulled : Option Record}
    (hn : p.session.next = (.ok pulled, t)) :
    p.turn now = .ok (pulled.toList,
      ⟨t, (p.scheduler.tick now).1, [], p.steps + pulled.toList.length⟩) := by
  apply turn_of_deliver
  rw [deliver_append_of_quiet h.quiet, hr, deliver_render h.auto hn]

theorem Ready.turn_dropped {p : Paced} (h : p.Ready) {now : Duration}
    (hr : .render ∉ (p.scheduler.tick now).2) :
    p.turn now = .ok ([], ⟨p.session, (p.scheduler.tick now).1, [], p.steps⟩) := by
  apply turn_of_deliver
  rw [deliver_append_of_quiet h.quiet, ← List.append_nil (p.scheduler.tick now).2,
    deliver_append_of_quiet hr, deliver]

theorem Ready.turn {p : Paced} (h : p.Ready) (hs : p.session.Coherent) (now : Duration) :
    ∃ pulled : Option Record, ∃ next : Paced, p.turn now = .ok (pulled.toList, next) ∧
      p.session.Brings pulled.toList next.session ∧
      next.steps = p.steps + pulled.toList.length ∧ next.Ready := by
  obtain ⟨hl, hr⟩ := (p.scheduler.tick_effect now).tick_launched h.launched
  rcases hr with hr | hr
  · obtain ⟨pulled, t, hn, hb⟩ := hs.pull
    have hturn := h.turn_honored hr hn
    exact ⟨pulled, _, hturn, hb, rfl, hb.auto.trans h.auto, hl, List.not_mem_nil⟩
  · exact ⟨none, _, h.turn_dropped hr, .nil _, rfl, h.auto, hl, List.not_mem_nil⟩

/-- An honored tick is never lost on a session that has a record left. -/
theorem Ready.turn_brings {p : Paced} (h : p.Ready) (hs : p.session.Coherent)
    (hx : ¬ p.session.Exhausted) {now : Duration} (hr : .render ∈ (p.scheduler.tick now).2) :
    ∃ record next, p.turn now = .ok ([record], next) := by
  rcases hs.next_cases with ⟨hx', -⟩ | ⟨-, record, t, hn, -⟩
  · exact absurd hx' hx
  · obtain ⟨-, hr' | hr'⟩ := (p.scheduler.tick_effect now).tick_launched h.launched
    · exact ⟨record, _, h.turn_honored hr' hn⟩
    · exact absurd hr hr'

end Paced

namespace CommandLine.Job

/-- A job on its way from the session `s`, paced or not, after so many turns and with the records
they have printed. Without pace, there is a record for each turn. -/
inductive Reached (s : Session) (limit : Nat) : Bool → Nat → List Record → Job → Prop where
  | stepped {records : List Record} {t : Session} (hb : s.Brings records t)
      (hl : records.length ≤ limit) :
      Reached s limit false records.length records (.stepped t records.length)
  | paced {turns : Nat} {records : List Record} {p : Paced} (hb : s.Brings records p.session)
      (hl : records.length ≤ limit) (hsteps : p.steps = records.length) (hr : p.Ready) :
      Reached s limit true turns records (.paced p)

variable {isPaced : Bool} {job : Job}

theorem Reached.brings (h : Reached s limit isPaced turns records job) :
    s.Brings records job.session := by
  cases h with
  | stepped hb => exact hb
  | paced hb => exact hb

theorem Reached.steps (h : Reached s limit isPaced turns records job) :
    job.steps = records.length := by
  cases h with
  | stepped => rfl
  | paced _ _ hsteps => exact hsteps

theorem Reached.bound (h : Reached s limit isPaced turns records job) :
    records.length ≤ limit := by
  cases h with
  | stepped _ hl => exact hl
  | paced _ hl => exact hl

theorem Reached.ready {p : Paced} (h : Reached s limit isPaced turns records (.paced p)) :
    p.Ready := by
  cases h with
  | paced _ _ _ hr => exact hr

theorem turn_stepped (hs : s.Coherent) {steps : Nat} (hg : (stepped s steps).goesOn limit = true)
    (now : Duration) :
    ∃ record t, (stepped s steps).turn now = .ok ([record], stepped t (steps + 1)) ∧
      s.next = (.ok (some record), t) ∧ steps < limit := by
  simp only [goesOn, Bool.and_eq_true, Bool.not_eq_true', decide_eq_true_iff] at hg
  obtain ⟨⟨hcompiled, hunfinished⟩, hlt⟩ := hg
  rcases hs.next_cases with ⟨hx, -⟩ | ⟨-, record, t, hn, -⟩
  · simp [Session.Exhausted, hcompiled, hunfinished] at hx
  · refine ⟨record, t, ?_, hn, hlt⟩
    rw [turn, hn]
    rfl

theorem Reached.turn (h : Reached s limit isPaced turns records job) (hs : s.Coherent)
    (hg : job.goesOn limit = true) (now : Duration) :
    ∃ fresh next, job.turn now = .ok (fresh, next) ∧
      Reached s limit isPaced (turns + 1) (records ++ fresh) next := by
  have hc := h.brings.coherent hs
  cases h with
  | stepped hb hl =>
    obtain ⟨record, u, hturn, hn, hlt⟩ := turn_stepped hc hg now
    have hlen : (records ++ [record]).length = records.length + 1 := List.length_append
    refine ⟨[record], .stepped u (records.length + 1), hturn, ?_⟩
    rw [← hlen]
    exact .stepped (hb.append (.cons hn (.nil u))) (by omega)
  | @paced _ _ p hb hl hsteps hr =>
    simp only [goesOn, Paced.goesOn, Bool.and_eq_true, decide_eq_true_iff] at hg
    obtain ⟨pulled, next, hturn, hb', hsteps', hr'⟩ := hr.turn hc now
    have hp : pulled.toList.length ≤ 1 := Option.length_toList_le
    have hlen : (records ++ pulled.toList).length = records.length + pulled.toList.length :=
      List.length_append
    refine ⟨pulled.toList, .paced next, ?_, .paced (hb.append hb') (by omega) (by omega) hr'⟩
    rw [Job.turn, hturn]
    rfl

theorem Reached.run (h : Reached s limit isPaced turns records job) (hs : s.Coherent)
    (clock : List Duration) :
    ∃ taken more next, job.run limit clock = .ok (more, next) ∧
      Reached s limit isPaced taken (records ++ more) next ∧
      (next.goesOn limit = true → taken = turns + clock.length) := by
  induction clock generalizing turns records job with
  | nil => exact ⟨turns, [], job, rfl, by rwa [List.append_nil], fun _ => rfl⟩
  | cons now later ih =>
    cases hg : job.goesOn limit with
    | false =>
      refine ⟨turns, [], job, by simp [Job.run, hg], by rwa [List.append_nil], fun hn => ?_⟩
      cases hg.symm.trans hn
    | true =>
      obtain ⟨fresh, next, hturn, hr⟩ := h.turn hs hg now
      obtain ⟨taken, more, last, hrun, hl, htaken⟩ := ih hr
      refine ⟨taken, fresh ++ more, last, ?_, by rwa [← List.append_assoc], fun hn => ?_⟩
      · simp [Job.run, hg, hturn, hrun, bind, Except.bind]
      · rw [htaken hn, List.length_cons]
        omega

theorem Reached.ends (h : Reached s limit isPaced turns records job)
    (hg : job.goesOn limit = false) : limit = records.length ∨ job.session.Exhausted := by
  have hl := h.bound
  cases h with
  | @stepped _ t =>
    simp only [goesOn, Bool.and_eq_false_iff, Bool.not_eq_false', decide_eq_false_iff_not] at hg
    rcases hg with (hg | hg) | hg
    · exact Or.inr (Or.inl hg)
    · exact Or.inr (Or.inr hg)
    · exact Or.inl (by omega)
  | @paced _ _ p _ _ hsteps hr =>
    simp only [goesOn, Paced.goesOn, hr.auto, Bool.true_and, Bool.and_eq_false_iff,
      Bool.not_eq_false', decide_eq_false_iff_not] at hg
    rcases hg with hg | hg
    · exact Or.inr (Or.inr hg)
    · exact Or.inl (by omega)

/-- All records of a job that has ended are those of one bulk. -/
theorem Reached.skip (h : Reached s limit isPaced turns records job) (hs : s.Coherent)
    (hg : job.goesOn limit = false) : s.skip limit = (.ok records, job.session) := by
  obtain ⟨rest, hrest⟩ := Nat.exists_eq_add_of_le h.bound
  have hnone : job.session.skip rest = (.ok [], job.session) := by
    rcases h.ends hg with hl | hx
    · obtain rfl : rest = 0 := by omega
      rfl
    · exact (h.brings.coherent hs).skip_exhausted hx rest
  rw [hrest, h.brings.skip, hnone]
  simp [Except.map]

theorem Reached.isPrefix (h : Reached s limit isPaced turns records job) {all : List Record}
    (hall : s.skip limit = (.ok all, t)) : records <+: all := by
  obtain ⟨rest, hrest⟩ := Nat.exists_eq_add_of_le h.bound
  rw [hrest, h.brings.skip] at hall
  cases hm : (job.session.skip rest).1 with
  | error e => simp [hm, Except.map] at hall
  | ok more =>
    simp only [hm, Except.map, Prod.mk.injEq, Except.ok.injEq] at hall
    exact ⟨more, hall.1⟩

theorem run_stepped (hs : s.Coherent) {readings : List Duration} (hr : limit ≤ readings.length) :
    ∃ all t, (stepped s 0).run limit readings = .ok (all, stepped t all.length) ∧
      (stepped t all.length).goesOn limit = false ∧ s.skip limit = (.ok all, t) := by
  have h0 : Reached s limit false 0 [] (stepped s 0) := .stepped (.nil s) (Nat.zero_le _)
  obtain ⟨taken, all, job, hrun, hreached, htaken⟩ := h0.run hs readings
  rw [List.nil_append] at hreached
  have hg : job.goesOn limit = false := by
    -- Each reading has brought a record, which makes too many for a job that goes on.
    rw [← Bool.not_eq_true]
    intro hg
    have hturns := htaken hg
    cases hreached with
    | stepped hb hl =>
      simp only [goesOn, Bool.and_eq_true, decide_eq_true_iff] at hg
      omega
  have hskip := hreached.skip hs hg
  cases hreached with
  | stepped => exact ⟨all, _, hrun, hg, hskip⟩

/-- What a paced job has printed, and what it prints in its next turn and in all, in comparison with
all records of the job without pace and the session these leave. -/
structure PaceLaws (limit : Nat) (all : List Record) (t : Session) (printed : List Record)
    (p : Paced) : Prop where
  part : printed <+: all
  steps : p.steps = printed.length
  bound : printed.length ≤ limit
  single : ∀ now, ∃ fresh next, p.turn now = .ok (fresh, next) ∧ fresh.length ≤ 1
  honored : ¬ p.session.Exhausted → ∀ now, .render ∈ (p.scheduler.tick now).2 →
    ∃ record next, p.turn now = .ok ([record], next)
  exit : p.goesOn limit = false → printed = all ∧ p.session = t

theorem Reached.paceLaws {p : Paced} (h : Reached s limit isPaced turns records (.paced p))
    (hs : s.Coherent) {all : List Record} (hall : s.skip limit = (.ok all, t)) :
    PaceLaws limit all t records p where
  part := h.isPrefix hall
  steps := h.steps
  bound := h.bound
  single now := by
    obtain ⟨pulled, next, hturn, -⟩ := h.ready.turn (h.brings.coherent hs) now
    exact ⟨_, next, hturn, Option.length_toList_le⟩
  honored hx now hr := h.ready.turn_brings (h.brings.coherent hs) hx hr
  exit hg := by
    have heq := (h.skip hs hg).symm.trans hall
    simp only [Prod.mk.injEq, Except.ok.injEq] at heq
    exact heq

/-- Whatever the rate and the clock, and whatever was done to the session before, pacing changes
neither the records nor what they leave. -/
theorem pace_keeps_records (blank : Symbol) (ops : List Session.Operation) (rate : RateLimit)
    (limit : Nat) :
    let s := (Session.new blank).afterAll ops
    ∃ all t, s.skip limit = (.ok all, t) ∧
      (∀ readings, limit ≤ readings.length →
        (stepped s 0).run limit readings = .ok (all, stepped t all.length) ∧
          (stepped t all.length).goesOn limit = false) ∧
      (s.auto = true → ∀ clock, ∃ printed p,
        (paced (.start s rate)).run limit clock = .ok (printed, paced p) ∧
          PaceLaws limit all t printed p) ∧
      (s.auto = false → ∀ clock,
        (paced (.start s rate)).run limit clock = .ok ([], paced (.start s rate))) := by
  intro s
  have hs : s.Coherent := Session.coherent_afterAll blank ops
  have hlen : limit ≤ (List.replicate limit Duration.zero).length := by simp
  obtain ⟨all, t, -, -, hall⟩ := run_stepped hs hlen
  refine ⟨all, t, hall, fun readings hr => ?_, fun ha clock => ?_, fun ha clock => ?_⟩
  · obtain ⟨all', t', hrun, hg, hskip⟩ := run_stepped hs hr
    cases hskip.symm.trans hall
    exact ⟨hrun, hg⟩
  · have h0 : Reached s limit true 0 [] (paced (.start s rate)) :=
      .paced (.nil s) (Nat.zero_le _) rfl (Paced.ready_start ha rate)
    obtain ⟨_, printed, job, hrun, hreached, -⟩ := h0.run hs clock
    have hlaws := hreached
    cases hreached with
    | @paced _ _ p => exact ⟨printed, p, hrun, hlaws.paceLaws hs hall⟩
  · have hg : (paced (.start s rate)).goesOn limit = false := by
      simp [goesOn, Paced.goesOn, Paced.start, ha]
    cases clock with
    | nil => rfl
    | cons now later => simp [Job.run, hg]

/-- A clock that stands still and runs back, with auto mode on and off. -/
theorem unsteady_clock_keeps_records :
    let s := (Session.new "0").afterAll [.compile "0(1) => -1(0) R" "1"]
    let auto := (Session.new "0").afterAll [.compile "0(1) => -1(0) R" "1", .setAuto true]
    (∃ all t printed p, (stepped auto 0).run 1 [⟨0⟩] = .ok (all, stepped t all.length) ∧
      (paced (.start auto .unbounded)).run 1 [⟨5⟩, ⟨5⟩, ⟨3⟩, ⟨9⟩] = .ok (printed, paced p) ∧
      PaceLaws 1 all t printed p) ∧
    (paced (.start s .unbounded)).run 1 [⟨5⟩, ⟨9⟩] = .ok ([], paced (.start s .unbounded)) := by
  intro s auto
  have hs : s.auto = false := Session.auto_afterAll _ _
  have hauto : auto.auto = true := Session.auto_afterAll _ _
  constructor
  · obtain ⟨all, t, -, hstepped, hpaced, -⟩ := pace_keeps_records "0"
      [.compile "0(1) => -1(0) R" "1", .setAuto true] .unbounded 1
    obtain ⟨printed, p, hrun, hlaws⟩ := hpaced hauto [⟨5⟩, ⟨5⟩, ⟨3⟩, ⟨9⟩]
    exact ⟨all, t, printed, p, (hstepped [⟨0⟩] (by decide)).1, hrun, hlaws⟩
  · obtain ⟨_, _, -, -, -, hoff⟩ := pace_keeps_records "0"
      [.compile "0(1) => -1(0) R" "1"] .unbounded 1
    exact hoff hs _

end CommandLine.Job

end SingleTape
