import Mathlib.Data.List.Induction
import SingleTape.Proofs.Scheduler.Effects

/-!
Whole histories of a scheduler: its operations one after the other, with the events each of them
emits and the deliveries of these to the listeners.
-/

namespace SingleTape.Scheduler

/-- An operation in its place in a history. -/
structure Call where
  before : Scheduler
  operation : Operation
  after : Scheduler
  events : List Event

def call (s : Scheduler) (op : Operation) : Call where
  before := s
  operation := op
  after := (s.perform op).1
  events := (s.perform op).2

def calls (s : Scheduler) : List Operation → List Call
  | [] => []
  | op :: ops => s.call op :: (s.perform op).1.calls ops

def afterAll (s : Scheduler) (ops : List Operation) : Scheduler :=
  ops.foldl (fun s op => (s.perform op).1) s

def emitted (s : Scheduler) (ops : List Operation) : List Event := (s.calls ops).flatMap Call.events

/-- The timestamp of a tick that was honored or set the baseline. -/
def honoredAt? (op : Operation) (events : List Event) : Option Duration :=
  match op with
  | .tick now => if .baseline ∈ events ∨ .render ∈ events then some now else none
  | _ => none

def honored (s : Scheduler) (ops : List Operation) : List Duration :=
  (s.calls ops).filterMap fun c => honoredAt? c.operation c.events

def delivered (s : Scheduler) (ops : List Operation) : List Delivery :=
  (s.calls ops).flatMap fun c => c.after.deliveries c.events

def received (s : Scheduler) (ops : List Operation) (listener : Nat) : List Event :=
  ((s.delivered ops).filter (·.listener = listener)).map (·.event)

variable {s : Scheduler} {op : Operation} {ops later : List Operation}

@[simp] theorem afterAll_nil (s : Scheduler) : s.afterAll [] = s := rfl

@[simp] theorem afterAll_cons (s : Scheduler) (op : Operation) (ops : List Operation) :
    s.afterAll (op :: ops) = (s.perform op).1.afterAll ops := rfl

theorem afterAll_append (s : Scheduler) (ops later : List Operation) :
    s.afterAll (ops ++ later) = (s.afterAll ops).afterAll later := List.foldl_append

theorem calls_append (s : Scheduler) (ops later : List Operation) :
    s.calls (ops ++ later) = s.calls ops ++ (s.afterAll ops).calls later := by
  induction ops generalizing s with
  | nil => rfl
  | cons op ops ih => rw [List.cons_append, calls, ih, calls, List.cons_append, afterAll_cons]

theorem emitted_append (s : Scheduler) (ops later : List Operation) :
    s.emitted (ops ++ later) = s.emitted ops ++ (s.afterAll ops).emitted later := by
  rw [emitted, calls_append, List.flatMap_append]
  rfl

theorem honored_append (s : Scheduler) (ops later : List Operation) :
    s.honored (ops ++ later) = s.honored ops ++ (s.afterAll ops).honored later := by
  rw [honored, calls_append, List.filterMap_append]
  rfl

theorem delivered_append (s : Scheduler) (ops later : List Operation) :
    s.delivered (ops ++ later) = s.delivered ops ++ (s.afterAll ops).delivered later := by
  rw [delivered, calls_append, List.flatMap_append]
  rfl

theorem received_append (s : Scheduler) (ops later : List Operation) (listener : Nat) :
    s.received (ops ++ later) listener =
      s.received ops listener ++ (s.afterAll ops).received later listener := by
  rw [received, delivered_append, List.filter_append, List.map_append]
  rfl

theorem emitted_singleton (s : Scheduler) (op : Operation) : s.emitted [op] = (s.perform op).2 := by
  simp [emitted, calls, call]

theorem honored_singleton (s : Scheduler) (op : Operation) :
    s.honored [op] = (honoredAt? op (s.perform op).2).toList := by
  rw [honored, calls, calls, List.filterMap_cons, call]
  cases honoredAt? op (s.perform op).2 <;> rfl

theorem delivered_singleton (s : Scheduler) (op : Operation) :
    s.delivered [op] = (s.perform op).1.deliveries (s.perform op).2 := by
  simp [delivered, calls, call]

theorem calls_effect (s : Scheduler) (ops : List Operation) :
    ∀ c ∈ s.calls ops, Effect c.before c.operation c.after c.events := by
  induction ops generalizing s with
  | nil => simp [calls]
  | cons op ops ih => exact List.forall_mem_cons.mpr ⟨s.perform_effect op, ih _⟩

theorem exists_of_mem_calls {c : Call} (h : c ∈ s.calls ops) :
    ∃ earlier op later, ops = earlier ++ op :: later ∧ c = (s.afterAll earlier).call op := by
  induction ops generalizing s with
  | nil => cases h
  | cons op ops ih =>
    rcases List.mem_cons.mp h with rfl | hc
    · exact ⟨[], op, ops, rfl, rfl⟩
    · obtain ⟨earlier, next, later, rfl, rfl⟩ := ih hc
      exact ⟨op :: earlier, next, later, rfl, rfl⟩

/-- What holds at first and is kept by each effect holds after any history. -/
theorem afterAll_induction {p : Scheduler → List Event → List Duration → Prop} (h : p s [] [])
    (hstep : ∀ s op s' es fresh ts, Effect s op s' fresh → p s es ts →
      p s' (es ++ fresh) (ts ++ (honoredAt? op fresh).toList))
    (ops : List Operation) : p (s.afterAll ops) (s.emitted ops) (s.honored ops) := by
  induction ops using List.reverseRecOn with
  | nil => exact h
  | append_singleton ops op ih =>
    rw [afterAll_append, emitted_append, honored_append, emitted_singleton, honored_singleton]
    exact hstep _ op _ _ _ _ ((s.afterAll ops).perform_effect op) ih

theorem Effect.listeners {s' : Scheduler} {fresh : List Event} (h : Effect s op s' fresh) :
    s'.listeners = s.listeners + [op].count .subscribe := by
  cases h with
  | flagged hf => cases op <;> first | rfl | cases hf
  | _ => rfl

theorem listeners_afterAll (s : Scheduler) (ops : List Operation) :
    (s.afterAll ops).listeners = s.listeners + ops.count .subscribe := by
  induction ops generalizing s with
  | nil => rfl
  | cons op ops ih =>
    have hc : (op :: ops).count .subscribe = [op].count .subscribe + ops.count .subscribe := by
      rw [← List.count_append, List.singleton_append]
    rw [afterAll_cons, ih, (s.perform_effect op).listeners, hc, Nat.add_assoc]

def round (listeners : Nat) (event : Event) : List Delivery :=
  (List.range listeners).map fun listener => ⟨listener, event⟩

theorem deliveries_eq (s : Scheduler) (events : List Event) :
    s.deliveries events = events.flatMap (round s.listeners) := rfl

theorem filter_round (listeners listener : Nat) (event : Event) :
    (round listeners event).filter (·.listener = listener) =
      if listener < listeners then [⟨listener, event⟩] else [] := by
  induction listeners with
  | zero => rfl
  | succ n ih =>
    have hr : round (n + 1) event = round n event ++ [⟨n, event⟩] := by
      simp [round, List.range_succ]
    rw [hr, List.filter_append, ih]
    by_cases hn : n = listener
    · subst n
      simp
    · have hi : listener < n + 1 ↔ listener < n := by omega
      simp [hn, hi]

theorem received_rounds (listeners listener : Nat) (events : List Event) :
    ((events.flatMap (round listeners)).filter (·.listener = listener)).map (·.event) =
      if listener < listeners then events else [] := by
  induction events with
  | nil => simp
  | cons event events ih =>
    rw [List.flatMap_cons, List.filter_append, List.map_append, ih, filter_round]
    split <;> rfl

theorem Effect.deliveries {s' : Scheduler} {fresh : List Event} (h : Effect s op s' fresh) :
    s'.deliveries fresh = fresh.flatMap (round s.listeners) := by
  rw [deliveries_eq]
  cases h with
  -- The one operation that changes the listeners emits nothing.
  | subscribed => rfl
  | _ => rfl

theorem received_of_subscribed {listener : Nat} (h : listener < s.listeners)
    (ops : List Operation) : s.received ops listener = s.emitted ops := by
  induction ops generalizing s with
  | nil => rfl
  | cons op ops ih =>
    have he := s.perform_effect op
    have hl : listener < (s.perform op).1.listeners := by
      rw [he.listeners]
      omega
    rw [← List.singleton_append, received_append, emitted_append, received, delivered_singleton,
      emitted_singleton, he.deliveries, received_rounds, if_pos h]
    exact congrArg _ (ih hl)

end SingleTape.Scheduler
