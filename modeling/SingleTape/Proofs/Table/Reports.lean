import SingleTape.Proofs.Table.History

/-!
What the edits of a table tell, and which of them succeed.
-/

namespace SingleTape.Table

inductive Report where
  | replaced (previous : Option Response)
  | loaded (result : Except Error (List Request))
  | cleared

def report (t : Table) : Operation → Report
  | .set q r => .replaced (t.set q r).1
  | .load block => .loaded ((t.load block).map (·.1))
  | .clear => .cleared

def Report.fault? : Report → Option Error
  | loaded (.error fault) => some fault
  | _ => none

/-- All edits succeed but the load of a block with a bad line. -/
def Operation.succeeds : Operation → Bool
  | load block => (readInstructions block).isOk
  | _ => true

theorem fault?_report (t : Table) (op : Operation) :
    (t.report op).fault? = none ↔ op.succeeds = true := by
  cases op with
  | set q r => exact ⟨fun _ => rfl, fun _ => rfl⟩
  | load block =>
    cases hb : readInstructions block with
    | error fault => simp [report, load_error hb, Except.map, Report.fault?, Operation.succeeds,
        hb, Except.isOk, Except.toBool]
    | ok is => simp [report, load_ok hb, Except.map, Report.fault?, Operation.succeeds, hb,
        Except.isOk, Except.toBool]
  | clear => exact ⟨fun _ => rfl, fun _ => rfl⟩

theorem perform_of_not_succeeds {op : Operation} (h : op.succeeds = false) (t : Table) :
    t.perform op = t := by
  cases op with
  | set q r => cases h
  | load block =>
    cases hb : readInstructions block with
    | error fault => simp [perform, load_error hb]
    | ok is => simp [Operation.succeeds, hb, Except.isOk, Except.toBool] at h
  | clear => cases h

theorem foldl_perform_filter (t : Table) (ops : List Operation) :
    (ops.filter Operation.succeeds).foldl perform t = ops.foldl perform t := by
  induction ops generalizing t with
  | nil => rfl
  | cons op ops ih =>
    cases hs : op.succeeds with
    | true => rw [List.filter_cons_of_pos hs, List.foldl_cons, List.foldl_cons, ih]
    | false =>
      have hne : ¬ op.succeeds = true := by simp [hs]
      rw [List.filter_cons_of_neg hne, List.foldl_cons, perform_of_not_succeeds hs, ih]

end SingleTape.Table
