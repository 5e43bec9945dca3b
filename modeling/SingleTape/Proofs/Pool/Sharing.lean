import SingleTape.Proofs.Pool.Holders

/-!
Sharing tables does not show. A pool looks like a list of machines and a list of runs that each have
a table of their own, and what is done to one of them leaves the others as they were.
-/

namespace SingleTape.Pool

variable {α : Type} {p q : Pool} {m r : Nat} {machine : Machine} {e : Execution} {tape : Tape}
  {machines : List Machine} {runs : List Execution}

/-- The pool looks like these machines and these runs. -/
structure Shows (p : Pool) (machines : List Machine) (runs : List Execution) : Prop where
  counted : p.Counted
  owners_length : p.owners.length = machines.length
  runs_length : p.runs.length = runs.length
  machine? : ∀ m, p.machine? m = machines[m]?
  run? : ∀ r, p.run? r = runs[r]?

theorem shows_empty : Shows empty [] [] where
  counted := counted_empty
  owners_length := rfl
  runs_length := rfl
  machine? _ := rfl
  run? _ := rfl

theorem Shows.add (h : p.Shows machines runs) (machine : Machine) :
    (p.add machine).Shows (machines ++ [machine]) runs := by
  have hkeep : ∀ {i}, i < p.cells.length →
      tableIn (p.add machine).cells i = tableIn p.cells i := fun hi => tableIn_concat_of_lt hi _
  have hnew : tableIn (p.add machine).cells p.cells.length = some machine.table :=
    tableIn_concat_length _ _
  refine ⟨?_, ?_, h.runs_length, fun m => ?_, fun r => ?_⟩
  · exact h.counted.push rfl (references_owner ⟨machine.blank, p.cells.length⟩ rfl rfl)
  · simp [Pool.add, h.owners_length]
  · rw [machine?_concat rfl hnew fun _ _ ho => hkeep (h.counted.owner_lt ho), getElem?_concat,
      h.owners_length, h.machine?]
  · rw [← h.run?]
    exact run?_congr rfl fun run hr => hkeep (h.counted.run_lt hr)

theorem Shows.copy (h : p.Shows machines runs) (hm : machines[m]? = some machine) :
    ∃ q, p.copy m = some q ∧ q.Shows (machines ++ [machine]) runs := by
  obtain ⟨owner, ho, hb, ht⟩ := machine?_eq_some_iff.mp ((h.machine? m).trans hm)
  refine ⟨⟨hold p.cells owner.cell, p.owners ++ [owner], p.runs⟩, by simp [Pool.copy, ho], ?_, ?_,
    h.runs_length, fun n => ?_, fun r => ?_⟩
  · exact h.counted.hold (h.counted.owner_lt ho) rfl (references_owner owner rfl rfl)
  · simp [h.owners_length]
  · have hnew : tableIn (hold p.cells owner.cell) owner.cell = some machine.table := by
      rw [tableIn_hold, ht]
    rw [machine?_concat rfl hnew fun _ _ _ => tableIn_hold _ _ _, getElem?_concat,
      h.owners_length, h.machine?, hb]
  · rw [← h.run?]
    exact run?_congr rfl fun _ _ => tableIn_hold _ _ _

theorem Shows.launch (h : p.Shows machines runs) (hm : machines[m]? = some machine)
    (tape : Tape) :
    ∃ q, p.launch m tape = some q ∧ q.Shows machines (runs ++ [machine.launch tape]) := by
  have hm := (h.machine? m).trans hm
  obtain ⟨owner, ho, -, ht⟩ := machine?_eq_some_iff.mp hm
  refine ⟨⟨hold p.cells owner.cell, p.owners,
      p.runs ++ [⟨owner.cell, .of (machine.launch tape)⟩]⟩, by simp [Pool.launch, ho, hm], ?_,
    h.owners_length, ?_, fun n => ?_, fun r => ?_⟩
  · exact h.counted.hold (h.counted.owner_lt ho) rfl (references_run ⟨owner.cell, _⟩ rfl rfl)
  · simp [h.runs_length]
  · rw [← h.machine?]
    exact machine?_congr rfl fun _ _ => tableIn_hold _ _ _
  · have hnew : tableIn (hold p.cells owner.cell) owner.cell = some machine.table := by
      rw [tableIn_hold, ht]
    rw [run?_concat rfl hnew fun _ _ _ => tableIn_hold _ _ _, getElem?_concat, h.runs_length,
      h.run?]
    rfl

theorem Shows.move (h : p.Shows machines runs) {owner : Owner} (ho : p.owners[m]? = some owner)
    {table : Table} (ht : tableIn p.cells owner.cell = some table) :
    (p.move m owner table).Shows machines runs := by
  have hm : m < p.owners.length := (List.getElem?_eq_some_iff.mp ho).1
  have hkeep : ∀ {i}, i < p.cells.length →
      tableIn (p.move m owner table).cells i = tableIn p.cells i := by
    intro i hi
    rw [Pool.move, tableIn_concat_of_lt (by simpa using hi), tableIn_release]
  have hnew : tableIn (p.move m owner table).cells p.cells.length = some table := by
    have hlen := length_release p.cells owner.cell
    rw [Pool.move, ← hlen, tableIn_concat_length]
  refine ⟨h.counted.move ho table, by simp [Pool.move, h.owners_length], h.runs_length,
    fun n => ?_, fun r => ?_⟩
  · rw [← h.machine?]
    by_cases hn : m = n
    · subst n
      have ho' : (p.move m owner table).owners[m]? =
          some { owner with cell := p.cells.length } := by
        simp [Pool.move, hm]
      have hold : p.machine? m = some ⟨owner.blank, table⟩ :=
        machine?_eq_some_iff.mpr ⟨owner, ho, rfl, ht⟩
      rw [hold]
      exact machine?_eq_some_iff.mpr ⟨_, ho', rfl, hnew⟩
    · have ho' : (p.move m owner table).owners[n]? = p.owners[n]? := by
        simp [Pool.move, hn]
      exact machine?_congr ho' fun owner ho => hkeep (h.counted.owner_lt ho)
  · rw [← h.run?]
    exact run?_congr rfl fun run hr => hkeep (h.counted.run_lt hr)

theorem Shows.own (h : p.Shows machines runs) {owner : Owner} (ho : p.owners[m]? = some owner) :
    (p.own m).Shows machines runs := by
  rcases h.counted.own_cases ho with ⟨-, heq⟩ | ⟨table, ht, heq⟩
  · rwa [heq]
  · rw [heq]
    exact h.move ho ht

/-- Writing into a cell shows on its only holder and nowhere else. -/
theorem Shows.write (h : p.Shows machines runs) {owner : Owner} (ho : p.owners[m]? = some owner)
    (hs : p.Sole m owner.cell) (table : Table) :
    Shows { p with cells := Pool.write p.cells owner.cell table }
      (machines.set m ⟨owner.blank, table⟩) runs := by
  have hm : m < machines.length := h.owners_length ▸ (List.getElem?_eq_some_iff.mp ho).1
  refine ⟨?_, by simp [h.owners_length], h.runs_length, fun n => ?_, fun r => ?_⟩
  · intro i
    rw [holdersIn_write]
    exact h.counted i
  · by_cases hn : m = n
    · subst n
      rw [List.getElem?_set_self hm]
      exact machine?_eq_some_iff.mpr
        ⟨owner, ho, rfl, tableIn_write_self (h.counted.owner_lt ho) table⟩
    · rw [List.getElem?_set_ne hn, ← h.machine?]
      refine machine?_congr rfl fun other hother => ?_
      exact tableIn_write_of_ne (hs.owners n other hother (Ne.symm hn)) table
  · rw [← h.run?]
    exact run?_congr rfl fun run hr => tableIn_write_of_ne (hs.runs r run hr) table

theorem Shows.edit (h : p.Shows machines runs) (hm : machines[m]? = some machine)
    (change : Table → α × Table) :
    ∃ q, p.edit m change = some ((change machine.table).1, q) ∧
      q.Shows (machines.set m { machine with table := (change machine.table).2 }) runs := by
  obtain ⟨owner, ho, -⟩ := machine?_eq_some_iff.mp ((h.machine? m).trans hm)
  have hown := h.own ho
  obtain ⟨-, owner', ho', -, hs⟩ := h.counted.own_sole ho
  obtain ⟨owner'', ho'', hb, ht⟩ := machine?_eq_some_iff.mp ((hown.machine? m).trans hm)
  obtain rfl : owner' = owner'' := Option.some.inj (ho'.symm.trans ho'')
  have hw := hown.write ho' hs (change machine.table).2
  rw [hb] at hw
  exact ⟨_, by simp only [Pool.edit, ho', Option.bind_eq_bind, Option.bind_some, ht], hw⟩

theorem Shows.call (h : p.Shows machines runs) (hr : runs[r]? = some e)
    (ask : Execution → α × Execution) (hk : (ask e).2.table = e.table) :
    ∃ q, p.call r ask = some ((ask e).1, q) ∧ q.Shows machines (runs.set r (ask e).2) := by
  have he := (h.run? r).trans hr
  obtain ⟨run, hrun, table, ht, hon⟩ := run?_eq_some_iff.mp he
  have hlt : r < p.runs.length := (List.getElem?_eq_some_iff.mp hrun).1
  have htable : (ask e).2.table = table := by rw [hk, ← hon]; rfl
  refine ⟨{ p with runs := p.runs.set r { run with progress := .of (ask e).2 } },
    by simp [Pool.call, hrun, he], ?_, h.owners_length, by simp [h.runs_length], fun m => ?_,
    fun n => ?_⟩
  · have hcells : (p.runs.set r { run with progress := .of (ask e).2 }).map (·.cell) =
        p.runs.map (·.cell) := by
      have hcell : (p.runs.map (·.cell))[r]? = some run.cell := by simp [hrun]
      rw [List.map_set, set_of_getElem? hcell]
    intro i
    have hi := h.counted i
    rw [references] at hi ⊢
    simpa only [hcells] using hi
  · rw [← h.machine?]
    rfl
  · by_cases hn : r = n
    · subst n
      rw [List.getElem?_set_self (h.runs_length ▸ hlt)]
      refine run?_eq_some_iff.mpr ⟨_, List.getElem?_set_self hlt, table, ht, ?_⟩
      rw [← htable, Progress.on_of]
    · rw [List.getElem?_set_ne hn, ← h.run?]
      exact run?_congr (List.getElem?_set_ne hn) fun _ _ => rfl

end SingleTape.Pool
