import SingleTape.General.Lists
import SingleTape.Pool

/-!
The cells of a pool and their holders. Each cell counts the machines and runs that hold it, so a
machine whose cell counts one is its only holder, and asking to own a table makes a machine that.
-/

namespace SingleTape.Pool

variable {α : Type} {p q : Pool} {cells : List Cell} {i j m r : Nat} {owner : Owner} {run : Run}
  {cell : Cell} {table : Table} {machine : Machine} {e : Execution} {tape : Tape}
  {machines : List Machine} {runs : List Execution}

def holdersIn (cells : List Cell) (i : Nat) : Nat := (cells[i]?.map (·.holders)).getD 0

@[simp] theorem length_release (cells : List Cell) (i : Nat) :
    (release cells i).length = cells.length := List.length_modify _ _ _

@[simp] theorem tableIn_hold (cells : List Cell) (i j : Nat) :
    tableIn (hold cells i) j = tableIn cells j := by
  by_cases h : i = j <;> simp [tableIn, hold, h, Function.comp_def]

@[simp] theorem tableIn_release (cells : List Cell) (i j : Nat) :
    tableIn (release cells i) j = tableIn cells j := by
  by_cases h : i = j <;> simp [tableIn, release, h, Function.comp_def]

theorem tableIn_write_self (h : i < cells.length) (table : Table) :
    tableIn (write cells i table) i = some table := by
  simp [tableIn, write, h]

theorem tableIn_write_of_ne (h : i ≠ j) (table : Table) :
    tableIn (write cells i table) j = tableIn cells j := by
  simp [tableIn, write, h]

theorem tableIn_concat_of_lt (h : i < cells.length) (cell : Cell) :
    tableIn (cells ++ [cell]) i = tableIn cells i := by
  simp [tableIn, List.getElem?_append_left h]

theorem tableIn_concat_length (cells : List Cell) (cell : Cell) :
    tableIn (cells ++ [cell]) cells.length = some cell.table := by
  simp [tableIn]

theorem holdersIn_hold (h : i < cells.length) (j : Nat) :
    holdersIn (hold cells i) j = holdersIn cells j + if i = j then 1 else 0 := by
  by_cases hj : i = j
  · subst j
    simp [holdersIn, hold, h]
  · simp [holdersIn, hold, hj]

theorem holdersIn_release (cells : List Cell) (i j : Nat) :
    holdersIn (release cells i) j = holdersIn cells j - if i = j then 1 else 0 := by
  by_cases hj : i = j
  · subst j
    cases h : cells[i]? <;> simp [holdersIn, release, h]
  · simp [holdersIn, release, hj]

@[simp] theorem holdersIn_write (cells : List Cell) (i j : Nat) (table : Table) :
    holdersIn (write cells i table) j = holdersIn cells j := by
  by_cases h : i = j <;> simp [holdersIn, write, h, Function.comp_def]

theorem holdersIn_concat (cells : List Cell) (cell : Cell) (j : Nat) :
    holdersIn (cells ++ [cell]) j =
      if cells.length = j then cell.holders else holdersIn cells j := by
  rw [holdersIn, getElem?_concat]
  split <;> rfl

theorem machine?_eq_some_iff :
    p.machine? m = some machine ↔ ∃ owner, p.owners[m]? = some owner ∧
      owner.blank = machine.blank ∧ tableIn p.cells owner.cell = some machine.table := by
  cases machine
  cases ho : p.owners[m]? with
  | none => simp [machine?, ho]
  | some owner => cases ht : tableIn p.cells owner.cell <;> simp [machine?, ho, ht]

theorem run?_eq_some_iff :
    p.run? r = some e ↔ ∃ run, p.runs[r]? = some run ∧
      ∃ table, tableIn p.cells run.cell = some table ∧ run.progress.on table = e := by
  cases hr : p.runs[r]? with
  | none => simp [run?, hr]
  | some run => cases ht : tableIn p.cells run.cell <;> simp [run?, hr, ht]

theorem machine?_congr (ho : q.owners[m]? = p.owners[m]?)
    (ht : ∀ owner, p.owners[m]? = some owner →
      tableIn q.cells owner.cell = tableIn p.cells owner.cell) :
    q.machine? m = p.machine? m := by
  rw [machine?, machine?, ho]
  cases h : p.owners[m]? with
  | none => rfl
  | some owner => simp [ht owner h]

theorem run?_congr (hr : q.runs[r]? = p.runs[r]?)
    (ht : ∀ run, p.runs[r]? = some run → tableIn q.cells run.cell = tableIn p.cells run.cell) :
    q.run? r = p.run? r := by
  rw [run?, run?, hr]
  cases h : p.runs[r]? with
  | none => rfl
  | some run => simp [ht run h]

theorem machine?_concat (ho : q.owners = p.owners ++ [owner])
    (ht : tableIn q.cells owner.cell = some table)
    (hkeep : ∀ (m : Nat) (owner : Owner), p.owners[m]? = some owner →
      tableIn q.cells owner.cell = tableIn p.cells owner.cell) (m : Nat) :
    q.machine? m = if p.owners.length = m then some ⟨owner.blank, table⟩ else p.machine? m := by
  have hm : q.owners[m]? = if p.owners.length = m then some owner else p.owners[m]? := by
    rw [ho]
    exact getElem?_concat _ _ _
  by_cases hlast : p.owners.length = m
  · rw [if_pos hlast] at hm ⊢
    exact machine?_eq_some_iff.mpr ⟨owner, hm, rfl, ht⟩
  · rw [if_neg hlast] at hm ⊢
    exact machine?_congr hm (hkeep m)

theorem run?_concat (hr : q.runs = p.runs ++ [run]) (ht : tableIn q.cells run.cell = some table)
    (hkeep : ∀ (r : Nat) (run : Run), p.runs[r]? = some run →
      tableIn q.cells run.cell = tableIn p.cells run.cell) (r : Nat) :
    q.run? r = if p.runs.length = r then some (run.progress.on table) else p.run? r := by
  have hm : q.runs[r]? = if p.runs.length = r then some run else p.runs[r]? := by
    rw [hr]
    exact getElem?_concat _ _ _
  by_cases hlast : p.runs.length = r
  · rw [if_pos hlast] at hm ⊢
    exact run?_eq_some_iff.mpr ⟨run, hm, table, ht, rfl⟩
  · rw [if_neg hlast] at hm ⊢
    exact run?_congr hm (hkeep r)

/-- The cells that machines and runs hold, one for each holder. -/
def references (p : Pool) : List Nat := p.owners.map (·.cell) ++ p.runs.map (·.cell)

def Counted (p : Pool) : Prop := ∀ i, holdersIn p.cells i = p.references.count i

theorem references_owner (owner : Owner) (ho : q.owners = p.owners ++ [owner])
    (hr : q.runs = p.runs) : q.references.Perm (owner.cell :: p.references) := by
  rw [references, references, ho, hr, List.map_append, List.map_singleton, List.append_assoc]
  exact List.perm_middle

theorem references_run (run : Run) (ho : q.owners = p.owners)
    (hr : q.runs = p.runs ++ [run]) : q.references.Perm (run.cell :: p.references) := by
  rw [references, references, ho, hr, List.map_append, List.map_singleton, ← List.append_assoc]
  exact List.perm_append_singleton _ _

theorem Counted.lt (h : p.Counted) (hi : i ∈ p.references) : i < p.cells.length := by
  by_contra hn
  have hz : holdersIn p.cells i = 0 := by
    simp [holdersIn, List.getElem?_eq_none (Nat.le_of_not_lt hn)]
  rw [h i] at hz
  exact List.count_eq_zero.mp hz hi

theorem Counted.owner_lt (h : p.Counted) (ho : p.owners[m]? = some owner) :
    owner.cell < p.cells.length :=
  h.lt (List.mem_append_left _ (List.mem_map_of_mem (List.mem_of_getElem? ho)))

theorem Counted.run_lt (h : p.Counted) (hr : p.runs[r]? = some run) :
    run.cell < p.cells.length :=
  h.lt (List.mem_append_right _ (List.mem_map_of_mem (List.mem_of_getElem? hr)))

theorem counted_empty : Counted empty := fun _ => rfl

theorem Counted.hold (h : p.Counted) (hi : i < p.cells.length)
    (hc : q.cells = Pool.hold p.cells i) (hr : q.references.Perm (i :: p.references)) :
    q.Counted := by
  intro j
  rw [hc, holdersIn_hold hi, h j, hr.count_eq, List.count_cons]
  simp

theorem Counted.push (h : p.Counted) (hc : q.cells = p.cells ++ [⟨table, 1⟩])
    (hr : q.references.Perm (p.cells.length :: p.references)) : q.Counted := by
  intro j
  rw [hc, holdersIn_concat, hr.count_eq, List.count_cons, ← h j]
  by_cases hj : p.cells.length = j
  · subst j
    simp [holdersIn]
  · simp [hj]

theorem references_move (ho : p.owners[m]? = some owner) (table : Table) :
    (owner.cell :: (p.move m owner table).references).Perm (p.cells.length :: p.references) := by
  have hcell : (p.owners.map (·.cell))[m]? = some owner.cell := by simp [ho]
  have hmap : (p.move m owner table).references =
      (p.owners.map (·.cell)).set m p.cells.length ++ p.runs.map (·.cell) := by
    simp [references, move, List.map_set]
  rw [hmap, references, ← List.cons_append, ← List.cons_append]
  exact (set_perm hcell p.cells.length).append_right _

theorem Counted.move (h : p.Counted) (ho : p.owners[m]? = some owner) (table : Table) :
    (p.move m owner table).Counted := by
  intro j
  -- A holder is counted in the new cell and no longer in the old one.
  have hcount := (references_move ho table).count_eq j
  have hj := h j
  rw [List.count_cons, List.count_cons] at hcount
  have hcells : (p.move m owner table).cells = release p.cells owner.cell ++ [⟨table, 1⟩] := rfl
  rw [hcells, holdersIn_concat, length_release, holdersIn_release, hj]
  by_cases hnew : p.cells.length = j
  · have hne : owner.cell ≠ j := hnew ▸ Nat.ne_of_lt (h.owner_lt ho)
    have hz : holdersIn p.cells j = 0 := by simp [holdersIn, ← hnew]
    simp only [hnew, if_pos, beq_iff_eq, if_neg hne] at hcount ⊢
    omega
  · simp only [if_neg hnew, beq_iff_eq] at hcount ⊢
    omega

/-- No other machine and no run holds the cell. -/
structure Sole (p : Pool) (m : Nat) (cell : Nat) : Prop where
  owners : ∀ (n : Nat) (owner : Owner), p.owners[n]? = some owner → n ≠ m → cell ≠ owner.cell
  runs : ∀ (r : Nat) (run : Run), p.runs[r]? = some run → cell ≠ run.cell

theorem Counted.sole (h : p.Counted) (ho : p.owners[m]? = some owner)
    (hone : holdersIn p.cells owner.cell = 1) : p.Sole m owner.cell := by
  have hcount : p.references.count owner.cell = 1 := (h _).symm.trans hone
  have hm : m < p.owners.length := (List.getElem?_eq_some_iff.mp ho).1
  have hplace : p.references[m]? = some owner.cell := by
    rw [references, List.getElem?_append_left (by simpa using hm), List.getElem?_map, ho]
    rfl
  constructor
  · intro n other hn hne heq
    have hlt : n < p.owners.length := (List.getElem?_eq_some_iff.mp hn).1
    have hother : p.references[n]? = some owner.cell := by
      rw [references, List.getElem?_append_left (by simpa using hlt), List.getElem?_map, hn, heq]
      rfl
    exact hne (eq_of_count_eq_one hcount hother hplace)
  · intro r run hr heq
    have hother : p.references[p.owners.length + r]? = some owner.cell := by
      rw [references, List.getElem?_append_right (by simp), List.length_map,
        Nat.add_sub_cancel_left, List.getElem?_map, hr, heq]
      rfl
    have := eq_of_count_eq_one hcount hplace hother
    omega

/-- After it was asked to own its table, a machine is its only holder. -/
theorem Counted.own_cases (h : p.Counted) (ho : p.owners[m]? = some owner) :
    (holdersIn p.cells owner.cell = 1 ∧ p.own m = p) ∨
      ∃ table, tableIn p.cells owner.cell = some table ∧ p.own m = p.move m owner table := by
  obtain ⟨cell, hc⟩ : ∃ cell, p.cells[owner.cell]? = some cell :=
    ⟨_, List.getElem?_eq_getElem (h.owner_lt ho)⟩
  by_cases hone : cell.holders = 1
  · exact Or.inl ⟨by simp [holdersIn, hc, hone], by simp [own, ho, hc, hone]⟩
  · exact Or.inr ⟨cell.table, by simp [tableIn, hc], by simp [own, ho, hc, hone]⟩

theorem Counted.own_sole (h : p.Counted) (ho : p.owners[m]? = some owner) :
    (p.own m).Counted ∧ ∃ owner', (p.own m).owners[m]? = some owner' ∧
      owner'.blank = owner.blank ∧ (p.own m).Sole m owner'.cell := by
  rcases h.own_cases ho with ⟨hone, heq⟩ | ⟨table, -, heq⟩
  · rw [heq]
    exact ⟨h, owner, ho, rfl, h.sole ho hone⟩
  · have hm : m < p.owners.length := (List.getElem?_eq_some_iff.mp ho).1
    have ho' : (p.move m owner table).owners[m]? =
        some { owner with cell := p.cells.length } := by
      simp [Pool.move, hm]
    have hone : holdersIn (p.move m owner table).cells p.cells.length = 1 := by
      simp [Pool.move, holdersIn_concat]
    rw [heq]
    exact ⟨h.move ho table, _, ho', rfl, (h.move ho table).sole ho' hone⟩

end SingleTape.Pool
