import SingleTape.Proofs.Execution.Calls
import SingleTape.Proofs.Pool.Sharing
import SingleTape.Proofs.Table.Reports

/-!
Histories of a pool: machines are created, copied, edited and launched, and runs are called, in any
order. A pool answers each operation as if all of its machines and runs had a table of their own.
-/

namespace SingleTape

def Machine.edit (machine : Machine) (op : Table.Operation) : Table.Report × Machine :=
  (machine.table.report op, { machine with table := machine.table.perform op })

theorem Machine.serve_edit (machine : Machine) (ops : List Table.Operation) :
    (serve edit machine ops).2 = ⟨machine.blank, ops.foldl Table.perform machine.table⟩ := by
  induction ops generalizing machine with
  | nil => rfl
  | cons op ops ih => exact ih _

namespace Pool

inductive Operation where
  | create (machine : Machine)
  | clone (m : Nat)
  | edit (m : Nat) (op : Table.Operation)
  | launch (m : Nat) (tape : Tape)
  | launchSeed (m : Nat) (seed : String)
  | call (r : Nat) (op : Execution.Operation)

inductive Answer where
  | created (m : Nat)
  | edited (m : Nat) (report : Table.Report)
  | launched (result : Except Error Nat)
  | called (r : Nat) (answer : Execution.Answer)
  | missing

def perform (p : Pool) : Operation → Answer × Pool
  | .create machine => (.created p.owners.length, p.add machine)
  | .clone m =>
    match p.copy m with
    | some q => (.created p.owners.length, q)
    | none => (.missing, p)
  | .edit m op =>
    match p.edit m fun t => (t.report op, t.perform op) with
    | some (report, q) => (.edited m report, q)
    | none => (.missing, p)
  | .launch m tape =>
    match p.launch m tape with
    | some q => (.launched (.ok p.runs.length), q)
    | none => (.missing, p)
  | .launchSeed m seed =>
    match p.launchSeed m seed with
    | some (.ok q) => (.launched (.ok p.runs.length), q)
    | some (.error fault) => (.launched (.error fault), p)
    | none => (.missing, p)
  | .call r op =>
    match p.call r (·.perform op) with
    | some (answer, q) => (.called r answer, q)
    | none => (.missing, p)

/-- What a pool that was empty has become. -/
def reached (ops : List Operation) : Pool := (serve perform empty ops).2

theorem reached_concat (ops : List Operation) (op : Operation) :
    reached (ops ++ [op]) = ((reached ops).perform op).2 := by
  simp only [reached, serve_snd, List.foldl_concat]

/-- The operation starts this run. The machine to launch is looked up. -/
inductive Operation.Starts (look : Nat → Option Machine) : Operation → Execution → Prop where
  | launch {m : Nat} {machine : Machine} (hm : look m = some machine) (tape : Tape) :
    Starts look (.launch m tape) (.start machine.table tape)
  | launchSeed {m : Nat} {machine : Machine} {seed : String} {tape : Tape}
    (hm : look m = some machine) (ht : Tape.ofSeed seed machine.blank = .ok tape) :
    Starts look (.launchSeed m seed) (.start machine.table tape)

inductive Operation.Founds (look : Nat → Option Machine) : Operation → Machine → Prop where
  | create (machine : Machine) : Founds look (.create machine) machine
  | clone {m : Nat} {machine : Machine} (hm : look m = some machine) :
    Founds look (.clone m) machine

def Operation.callOf (r : Nat) : Operation → Option Execution.Operation
  | call n op => if n = r then some op else none
  | _ => none

def Operation.editOf (m : Nat) : Operation → Option Table.Operation
  | edit n op => if n = m then some op else none
  | _ => none

inductive Operation.Misses (machines : List Machine) (runs : List Execution) :
    Operation → Prop where
  | clone {m : Nat} (hm : machines[m]? = none) : Misses machines runs (.clone m)
  | edit {m : Nat} (hm : machines[m]? = none) (op : Table.Operation) :
    Misses machines runs (.edit m op)
  | launch {m : Nat} (hm : machines[m]? = none) (tape : Tape) :
    Misses machines runs (.launch m tape)
  | launchSeed {m : Nat} (hm : machines[m]? = none) (seed : String) :
    Misses machines runs (.launchSeed m seed)
  | call {r : Nat} (hr : runs[r]? = none) (op : Execution.Operation) :
    Misses machines runs (.call r op)

/-- Everything an operation can do where machines and runs have a table of their own each. -/
inductive Effect (machines : List Machine) (runs : List Execution) :
    Operation → Answer → List Machine → List Execution → Prop where
  | started {op : Operation} {e : Execution} (h : op.Starts (machines[·]?) e) :
    Effect machines runs op (.launched (.ok runs.length)) machines (runs ++ [e])
  | founded {op : Operation} {machine : Machine} (h : op.Founds (machines[·]?) machine) :
    Effect machines runs op (.created machines.length) (machines ++ [machine]) runs
  | edited {m : Nat} {machine : Machine} (hm : machines[m]? = some machine)
    (op : Table.Operation) :
    Effect machines runs (.edit m op) (.edited m (machine.edit op).1)
      (machines.set m (machine.edit op).2) runs
  | called {r : Nat} {e : Execution} (hr : runs[r]? = some e) (op : Execution.Operation) :
    Effect machines runs (.call r op) (.called r (e.perform op).1) machines
      (runs.set r (e.perform op).2)
  | refused {m : Nat} {machine : Machine} {seed : String} {fault : Error}
    (hm : machines[m]? = some machine) (ht : Tape.ofSeed seed machine.blank = .error fault) :
    Effect machines runs (.launchSeed m seed) (.launched (.error fault)) machines runs
  | missing {op : Operation} (h : op.Misses machines runs) :
    Effect machines runs op .missing machines runs

variable {p : Pool} {machines : List Machine} {runs : List Execution} {m r : Nat} {op : Operation}
  {e : Execution} {machine : Machine}

theorem Operation.Misses.callOf (h : op.Misses machines runs) (hr : runs[r]? = some e) :
    op.callOf r = none := by
  cases h with
  | call hn own =>
    refine if_neg ?_
    rintro rfl
    cases hn.symm.trans hr
  | clone | edit | launch | launchSeed => rfl

theorem Operation.Misses.editOf (h : op.Misses machines runs)
    (hm : machines[m]? = some machine) : op.editOf m = none := by
  cases h with
  | edit hn own =>
    refine if_neg ?_
    rintro rfl
    cases hn.symm.trans hm
  | clone | launch | launchSeed | call => rfl

theorem Shows.owner_missing (h : p.Shows machines runs) (hm : machines[m]? = none) :
    p.owners[m]? = none := by
  rw [List.getElem?_eq_none_iff] at hm ⊢
  exact h.owners_length ▸ hm

theorem Shows.run_missing (h : p.Shows machines runs) (hr : runs[r]? = none) :
    p.runs[r]? = none := by
  rw [List.getElem?_eq_none_iff] at hr ⊢
  exact h.runs_length ▸ hr

theorem Shows.start (h : p.Shows machines runs) (hs : op.Starts (machines[·]?) e) :
    ∃ q, p.perform op = (.launched (.ok runs.length), q) ∧ q.Shows machines (runs ++ [e]) := by
  cases hs with
  | launch hm tape =>
    obtain ⟨q, hq, hs⟩ := h.launch hm tape
    exact ⟨q, by simp [Pool.perform, hq, h.runs_length], hs⟩
  | launchSeed hm ht =>
    have hp := (h.machine? _).trans hm
    obtain ⟨q, hq, hs⟩ := h.launch hm _
    exact ⟨q, by simp [Pool.perform, Pool.launchSeed, hp, ht, hq, h.runs_length], hs⟩

theorem Shows.found (h : p.Shows machines runs) (hf : op.Founds (machines[·]?) machine) :
    ∃ q, p.perform op = (.created machines.length, q) ∧
      q.Shows (machines ++ [machine]) runs := by
  cases hf with
  | create => exact ⟨p.add machine, by simp [Pool.perform, h.owners_length], h.add machine⟩
  | clone hm =>
    obtain ⟨q, hq, hs⟩ := h.copy hm
    exact ⟨q, by simp [Pool.perform, hq, h.owners_length], hs⟩

theorem Shows.misses (h : p.Shows machines runs) (hm : op.Misses machines runs) :
    p.perform op = (.missing, p) := by
  cases hm with
  | clone hm => simp [Pool.perform, Pool.copy, h.owner_missing hm]
  | edit hm own => simp [Pool.perform, Pool.edit, Pool.own, h.owner_missing hm]
  | launch hm tape => simp [Pool.perform, Pool.launch, h.owner_missing hm]
  | launchSeed hm seed => simp [Pool.perform, Pool.launchSeed, (h.machine? _).trans hm]
  | call hr own => simp [Pool.perform, Pool.call, h.run_missing hr]

/-- The pool answers the operation as if nothing were shared, and looks that way afterwards. -/
def Agrees (p : Pool) (machines : List Machine) (runs : List Execution) (op : Operation) : Prop :=
  ∃ machines' runs', Effect machines runs op (p.perform op).1 machines' runs' ∧
    (p.perform op).2.Shows machines' runs'

theorem Shows.agrees_of_starts (h : p.Shows machines runs) (hs : op.Starts (machines[·]?) e) :
    p.Agrees machines runs op := by
  obtain ⟨q, hq, hshows⟩ := h.start hs
  rw [Agrees, hq]
  exact ⟨_, _, .started hs, hshows⟩

theorem Shows.agrees_of_founds (h : p.Shows machines runs)
    (hf : op.Founds (machines[·]?) machine) : p.Agrees machines runs op := by
  obtain ⟨q, hq, hshows⟩ := h.found hf
  rw [Agrees, hq]
  exact ⟨_, _, .founded hf, hshows⟩

theorem Shows.agrees_of_misses (h : p.Shows machines runs) (hm : op.Misses machines runs) :
    p.Agrees machines runs op := by
  rw [Agrees, h.misses hm]
  exact ⟨_, _, .missing hm, h⟩

theorem Shows.perform (h : p.Shows machines runs) (op : Operation) :
    p.Agrees machines runs op := by
  cases op with
  | create machine => exact h.agrees_of_founds (.create machine)
  | clone m =>
    cases hm : machines[m]? with
    | none => exact h.agrees_of_misses (.clone hm)
    | some machine => exact h.agrees_of_founds (.clone hm)
  | edit m own =>
    cases hm : machines[m]? with
    | none => exact h.agrees_of_misses (.edit hm own)
    | some machine =>
      obtain ⟨q, hq, hshows⟩ := h.edit hm fun t => (t.report own, t.perform own)
      simp only [Agrees, Pool.perform, hq]
      exact ⟨_, _, .edited hm own, hshows⟩
  | launch m tape =>
    cases hm : machines[m]? with
    | none => exact h.agrees_of_misses (.launch hm tape)
    | some machine => exact h.agrees_of_starts (.launch hm tape)
  | launchSeed m seed =>
    cases hm : machines[m]? with
    | none => exact h.agrees_of_misses (.launchSeed hm seed)
    | some machine =>
      cases ht : Tape.ofSeed seed machine.blank with
      | error fault =>
        simp only [Agrees, Pool.perform, Pool.launchSeed, h.machine?, hm, Option.bind_eq_bind,
          Option.bind_some, ht]
        exact ⟨_, _, .refused hm ht, h⟩
      | ok tape => exact h.agrees_of_starts (.launchSeed hm ht)
  | call r own =>
    cases hr : runs[r]? with
    | none => exact h.agrees_of_misses (.call hr own)
    | some e =>
      obtain ⟨q, hq, hshows⟩ := h.call hr (·.perform own) (e.table_perform own)
      simp only [Agrees, Pool.perform, hq]
      exact ⟨_, _, .called hr own, hshows⟩

def Sound (p : Pool) : Prop := ∃ machines runs, p.Shows machines runs

theorem Sound.perform (h : p.Sound) (op : Operation) : (p.perform op).2.Sound := by
  obtain ⟨machines, runs, hp⟩ := h
  obtain ⟨machines', runs', -, hs⟩ := hp.perform op
  exact ⟨machines', runs', hs⟩

theorem reached_sound (ops : List Operation) : (reached ops).Sound := by
  induction ops using List.reverseRecOn with
  | nil => exact ⟨[], [], shows_empty⟩
  | append_singleton ops op ih =>
    rw [reached_concat]
    exact ih.perform op

end Pool

end SingleTape
