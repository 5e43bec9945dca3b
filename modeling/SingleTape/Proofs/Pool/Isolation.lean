import SingleTape.Proofs.Pool.Histories

/-!
Machines and runs do not disturb one another. Whatever else is done in between, a run answers its
own calls as a run of the same table on the same tape would that is alone, and a machine has the
table that its own edits have made.
-/

namespace SingleTape.Pool

variable {p : Pool} {machines machines' : List Machine} {runs runs' : List Execution} {m r : Nat}
  {op : Operation} {answer : Answer} {e : Execution} {machine : Machine}

def Answer.ofRun (r : Nat) : Answer → Option Execution.Answer
  | called n answer => if n = r then some answer else none
  | _ => none

def Answer.ofMachine (m : Nat) : Answer → Option Table.Report
  | edited n report => if n = m then some report else none
  | _ => none

def callsTo (r : Nat) (ops : List Operation) : List Execution.Operation :=
  ops.filterMap (Operation.callOf r)

def answersOf (r : Nat) (answers : List Answer) : List Execution.Answer :=
  answers.filterMap (Answer.ofRun r)

def editsTo (m : Nat) (ops : List Operation) : List Table.Operation :=
  ops.filterMap (Operation.editOf m)

def reportsOf (m : Nat) (answers : List Answer) : List Table.Report :=
  answers.filterMap (Answer.ofMachine m)

theorem Effect.on_run (h : Effect machines runs op answer machines' runs')
    (hr : runs[r]? = some e) :
    (op.callOf r = none ∧ answer.ofRun r = none ∧ runs'[r]? = some e) ∨
      ∃ own, op.callOf r = some own ∧ answer.ofRun r = some (e.perform own).1 ∧
        runs'[r]? = some (e.perform own).2 := by
  have hlt : r < runs.length := (List.getElem?_eq_some_iff.mp hr).1
  cases h with
  | started hs =>
    refine Or.inl ⟨?_, rfl, (List.getElem?_append_left hlt).trans hr⟩
    cases hs <;> rfl
  | founded hf =>
    refine Or.inl ⟨?_, rfl, hr⟩
    cases hf <;> rfl
  | edited hm own => exact Or.inl ⟨rfl, rfl, hr⟩
  | @called n e' hn own =>
    by_cases heq : n = r
    · subst n
      obtain rfl : e = e' := Option.some.inj (hr.symm.trans hn)
      exact Or.inr ⟨own, if_pos rfl, if_pos rfl, List.getElem?_set_self hlt⟩
    · exact Or.inl ⟨if_neg heq, if_neg heq, (List.getElem?_set_ne heq).trans hr⟩
  | refused hm ht => exact Or.inl ⟨rfl, rfl, hr⟩
  | missing h => exact Or.inl ⟨h.callOf hr, rfl, hr⟩

theorem Effect.on_machine (h : Effect machines runs op answer machines' runs')
    (hm : machines[m]? = some machine) :
    (op.editOf m = none ∧ answer.ofMachine m = none ∧ machines'[m]? = some machine) ∨
      ∃ own, op.editOf m = some own ∧ answer.ofMachine m = some (machine.edit own).1 ∧
        machines'[m]? = some (machine.edit own).2 := by
  have hlt : m < machines.length := (List.getElem?_eq_some_iff.mp hm).1
  cases h with
  | started hs =>
    refine Or.inl ⟨?_, rfl, hm⟩
    cases hs <;> rfl
  | founded hf =>
    refine Or.inl ⟨?_, rfl, (List.getElem?_append_left hlt).trans hm⟩
    cases hf <;> rfl
  | @edited n other hn own =>
    by_cases heq : n = m
    · subst n
      obtain rfl : machine = other := Option.some.inj (hm.symm.trans hn)
      exact Or.inr ⟨own, if_pos rfl, if_pos rfl, List.getElem?_set_self hlt⟩
    · exact Or.inl ⟨if_neg heq, if_neg heq, (List.getElem?_set_ne heq).trans hm⟩
  | called hr own => exact Or.inl ⟨rfl, rfl, hm⟩
  | refused hm' ht => exact Or.inl ⟨rfl, rfl, hm⟩
  | missing h => exact Or.inl ⟨h.editOf hm, rfl, hm⟩

theorem Effect.starts (h : Effect machines runs op answer machines' runs')
    (hold : runs[r]? = none) (hnew : runs'[r]? = some e) :
    op.Starts (machines[·]?) e ∧ r = runs.length := by
  cases h with
  | started hs =>
    obtain ⟨hr, rfl⟩ := last_of_new hold hnew
    exact ⟨hs, hr⟩
  | called => cases (none_of_set hold _ _).symm.trans hnew
  | founded | edited | refused | missing => simp [hold] at hnew

theorem Effect.founds (h : Effect machines runs op answer machines' runs')
    (hold : machines[m]? = none) (hnew : machines'[m]? = some machine) :
    op.Founds (machines[·]?) machine ∧ m = machines.length := by
  cases h with
  | founded hf =>
    obtain ⟨hm, rfl⟩ := last_of_new hold hnew
    exact ⟨hf, hm⟩
  | edited => cases (none_of_set hold _ _).symm.trans hnew
  | started | called | refused | missing => simp [hold] at hnew

/-- Something in a pool. Asked one of its own operations it does what it does alone, and no other
operation touches it. -/
structure Component {σ ω ρ : Type} (act : σ → ω → ρ × σ) where
  look : Pool → Option σ
  own : Operation → Option ω
  told : Answer → Option ρ
  step : ∀ {p : Pool} {s : σ}, p.Sound → look p = some s → ∀ op,
    (own op = none ∧ told (p.perform op).1 = none ∧ look (p.perform op).2 = some s) ∨
      ∃ asked, own op = some asked ∧ told (p.perform op).1 = some (act s asked).1 ∧
        look (p.perform op).2 = some (act s asked).2

theorem Component.alone {σ ω ρ : Type} {act : σ → ω → ρ × σ} (c : Component act) {s : σ}
    (hp : p.Sound) (hs : c.look p = some s) (ops : List Operation) :
    (serve perform p ops).1.filterMap c.told = (serve act s (ops.filterMap c.own)).1 ∧
      c.look (serve perform p ops).2 = some (serve act s (ops.filterMap c.own)).2 := by
  induction ops generalizing p s with
  | nil => exact ⟨rfl, hs⟩
  | cons op ops ih =>
    -- Another operation drops out of both lists, and one of its own is asked here as there.
    have hnext := hp.perform op
    rcases c.step hp hs op with ⟨hown, htold, hlook⟩ | ⟨asked, hown, htold, hlook⟩
    · obtain ⟨has, hend⟩ := ih hnext hlook
      rw [serve_cons, List.filterMap_cons_none hown, List.filterMap_cons_none htold]
      exact ⟨has, hend⟩
    · obtain ⟨has, hend⟩ := ih hnext hlook
      rw [serve_cons, List.filterMap_cons_some hown, List.filterMap_cons_some htold, serve_cons,
        has]
      exact ⟨rfl, hend⟩

def runComponent (r : Nat) : Component Execution.perform where
  look p := p.run? r
  own := Operation.callOf r
  told := Answer.ofRun r
  step := by
    rintro p e ⟨machines, runs, h⟩ hr op
    obtain ⟨machines', runs', heffect, h'⟩ := h.perform op
    rw [h'.run?]
    exact heffect.on_run ((h.run? r).symm.trans hr)

def machineComponent (m : Nat) : Component Machine.edit where
  look p := p.machine? m
  own := Operation.editOf m
  told := Answer.ofMachine m
  step := by
    rintro p machine ⟨machines, runs, h⟩ hm op
    obtain ⟨machines', runs', heffect, h'⟩ := h.perform op
    rw [h'.machine?]
    exact heffect.on_machine ((h.machine? m).symm.trans hm)

/-- In the course of these operations, the run answers its own calls as it would alone. -/
structure RunsAlone (p : Pool) (r : Nat) (e : Execution) (ops : List Operation) : Prop where
  answers : answersOf r (serve perform p ops).1 = (e.history (callsTo r ops)).1
  state : (serve perform p ops).2.run? r = some (e.afterAll (callsTo r ops))

/-- In the course of these operations, the machine is changed by its own successful edits alone. -/
structure EditedAlone (p : Pool) (m : Nat) (machine : Machine) (ops : List Operation) : Prop where
  reports : reportsOf m (serve perform p ops).1 = (serve Machine.edit machine (editsTo m ops)).1
  machine : (serve perform p ops).2.machine? m = some ⟨machine.blank,
    ((editsTo m ops).filter Table.Operation.succeeds).foldl Table.perform machine.table⟩

theorem Sound.run_alone (h : p.Sound) (hr : p.run? r = some e) (ops : List Operation) :
    RunsAlone p r e ops := by
  obtain ⟨has, hend⟩ := (runComponent r).alone h hr ops
  exact ⟨has, hend⟩

theorem Sound.machine_alone (h : p.Sound) (hm : p.machine? m = some machine)
    (ops : List Operation) : EditedAlone p m machine ops := by
  obtain ⟨has, hend⟩ := (machineComponent m).alone h hm ops
  rw [Machine.serve_edit, ← Table.foldl_perform_filter] at hend
  exact ⟨has, hend⟩

theorem exists_arrival {β : Type} (look : Pool → Option β) (hempty : look empty = none)
    {ops : List Operation} {b : β} (h : look (reached ops) = some b) :
    ∃ before op later first, ops = before ++ op :: later ∧ look (reached before) = none ∧
      look ((reached before).perform op).2 = some first := by
  induction ops using List.reverseRecOn generalizing b with
  | nil => cases hempty.symm.trans h
  | append_singleton ops op ih =>
    cases hold : look (reached ops) with
    | some first =>
      obtain ⟨before, arrival, later, first, hops, hnew⟩ := ih hold
      exact ⟨before, arrival, later ++ [op], first, by simp [hops], hnew⟩
    | none =>
      rw [reached_concat] at h
      exact ⟨ops, op, [], b, rfl, hold, h⟩

theorem started_of_run? {ops : List Operation} (hr : (reached ops).run? r = some e) :
    ∃ before op later start, ops = before ++ op :: later ∧
      op.Starts (reached before).machine? start ∧ r = (reached before).runs.length := by
  obtain ⟨before, op, later, start, hops, hold, hnew⟩ := exists_arrival (·.run? r) rfl hr
  obtain ⟨machines, runs, h⟩ := reached_sound before
  obtain ⟨machines', runs', heffect, h'⟩ := h.perform op
  rw [h.run?] at hold
  rw [h'.run?] at hnew
  obtain ⟨hs, hlast⟩ := heffect.starts hold hnew
  rw [← funext h.machine?] at hs
  exact ⟨before, op, later, start, hops, hs, hlast.trans h.runs_length.symm⟩

theorem founded_of_machine? {ops : List Operation}
    (hm : (reached ops).machine? m = some machine) :
    ∃ before op later first, ops = before ++ op :: later ∧
      op.Founds (reached before).machine? first ∧ m = (reached before).owners.length := by
  obtain ⟨before, op, later, first, hops, hold, hnew⟩ := exists_arrival (·.machine? m) rfl hm
  obtain ⟨machines, runs, h⟩ := reached_sound before
  obtain ⟨machines', runs', heffect, h'⟩ := h.perform op
  rw [h.machine?] at hold
  rw [h'.machine?] at hnew
  obtain ⟨hf, hlast⟩ := heffect.founds hold hnew
  rw [← funext h.machine?] at hf
  exact ⟨before, op, later, first, hops, hf, hlast.trans h.owners_length.symm⟩

theorem Sound.run_started (h : p.Sound) (hs : op.Starts p.machine? e) :
    (p.perform op).1 = .launched (.ok p.runs.length) ∧
      (p.perform op).2.run? p.runs.length = some e := by
  obtain ⟨machines, runs, h⟩ := h
  rw [funext h.machine?] at hs
  obtain ⟨q, hq, h'⟩ := h.start hs
  rw [hq, h.runs_length]
  exact ⟨rfl, (h'.run? _).trans List.getElem?_concat_length⟩

theorem Sound.machine_founded (h : p.Sound) (hf : op.Founds p.machine? machine) :
    (p.perform op).1 = .created p.owners.length ∧
      (p.perform op).2.machine? p.owners.length = some machine := by
  obtain ⟨machines, runs, h⟩ := h
  rw [funext h.machine?] at hf
  obtain ⟨q, hq, h'⟩ := h.found hf
  rw [hq, h.owners_length]
  exact ⟨rfl, (h'.machine? _).trans List.getElem?_concat_length⟩

theorem Sound.edit_answer (h : p.Sound) (hm : p.machine? m = some machine)
    (own : Table.Operation) :
    (p.perform (.edit m own)).1 = .edited m (machine.table.report own) := by
  obtain ⟨machines, runs, h⟩ := h
  obtain ⟨q, hq, -⟩ := h.edit ((h.machine? m).symm.trans hm) fun t => (t.report own, t.perform own)
  simp only [Pool.perform, hq]

theorem Sound.failed_edit (h : p.Sound) (hm : p.machine? m = some machine)
    {own : Table.Operation} (hf : own.succeeds = false) :
    (p.perform (.edit m own)).2.machine? = p.machine? ∧
      (p.perform (.edit m own)).2.run? = p.run? := by
  -- The cells may change all the same: the machine moves before it is known that the edit fails.
  obtain ⟨machines, runs, h⟩ := h
  have hm' : machines[m]? = some machine := (h.machine? m).symm.trans hm
  obtain ⟨q, hq, h'⟩ := h.edit hm' fun t => (t.report own, t.perform own)
  rw [Table.perform_of_not_succeeds hf, set_of_getElem? hm'] at h'
  have hp : (p.perform (.edit m own)).2 = q := by simp only [Pool.perform, hq]
  rw [hp, funext h'.machine?, funext h.machine?, funext h'.run?, funext h.run?]
  exact ⟨rfl, rfl⟩

/-- Machines and runs are numbered as they come, and none of them disturbs another. -/
structure IsolationLaws (ops : List Operation) : Prop where
  run : ∀ op start, op.Starts (reached ops).machine? start →
    ((reached ops).perform op).1 = .launched (.ok (reached ops).runs.length) ∧
    ∀ later, RunsAlone ((reached ops).perform op).2 (reached ops).runs.length start later
  machine : ∀ op first, op.Founds (reached ops).machine? first →
    ((reached ops).perform op).1 = .created (reached ops).owners.length ∧
    ∀ later, EditedAlone ((reached ops).perform op).2 (reached ops).owners.length first later
  started : ∀ r e, (reached ops).run? r = some e →
    ∃ before op later start, ops = before ++ op :: later ∧
      op.Starts (reached before).machine? start ∧ r = (reached before).runs.length
  founded : ∀ m machine, (reached ops).machine? m = some machine →
    ∃ before op later first, ops = before ++ op :: later ∧
      op.Founds (reached before).machine? first ∧ m = (reached before).owners.length
  edit : ∀ m machine own, (reached ops).machine? m = some machine →
    ∃ report, ((reached ops).perform (.edit m own)).1 = .edited m report ∧
      (report.fault? = none ↔ own.succeeds = true)
  failed_load : ∀ m machine block fault, (reached ops).machine? m = some machine →
    readInstructions block = .error fault →
    ((reached ops).perform (.edit m (.load block))).1 = .edited m (.loaded (.error fault)) ∧
      ((reached ops).perform (.edit m (.load block))).2.machine? = (reached ops).machine? ∧
      ((reached ops).perform (.edit m (.load block))).2.run? = (reached ops).run?

theorem machines_and_runs_isolated (ops : List Operation) : IsolationLaws ops := by
  have h := reached_sound ops
  constructor
  · intro op start hs
    obtain ⟨hanswer, hrun⟩ := h.run_started hs
    exact ⟨hanswer, (h.perform op).run_alone hrun⟩
  · intro op first hf
    obtain ⟨hanswer, hmachine⟩ := h.machine_founded hf
    exact ⟨hanswer, (h.perform op).machine_alone hmachine⟩
  · exact fun _ _ => started_of_run?
  · exact fun _ _ => founded_of_machine?
  · intro m machine own hm
    exact ⟨_, h.edit_answer hm own, machine.table.fault?_report own⟩
  · intro m machine block fault hm hb
    have hf : (Table.Operation.load block).succeeds = false := by
      simp [Table.Operation.succeeds, hb, Except.isOk, Except.toBool]
    refine ⟨?_, h.failed_edit hm hf⟩
    rw [h.edit_answer hm, Table.report, Table.load_error hb]
    rfl

/-- A run has the cell of its machine for its table until the machine is edited. -/
example (machine : Machine) (tape : Tape) :
    (reached [.create machine, .launch 0 tape]).cells = [⟨machine.table, 2⟩] ∧
      (reached [.create machine, .launch 0 tape, .edit 0 .clear]).cells =
        [⟨machine.table, 1⟩, ⟨.empty, 1⟩] :=
  ⟨rfl, rfl⟩

end SingleTape.Pool
