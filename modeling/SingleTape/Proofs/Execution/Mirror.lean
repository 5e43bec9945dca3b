import SingleTape.Proofs.Execution.Calls
import SingleTape.Proofs.Execution.Focus
import SingleTape.Proofs.Table.Written

/-!
Left and right are mirror images. If they are exchanged in every response of a table, its run on a
single cell is the mirror image of the run before. Seen from the head, the two sides of the tape are
exchanged; that the tape grows in another way on the left than on the right cannot be seen there.
-/

namespace SingleTape

def Move.mirror : Move → Move
  | left => right
  | stay => stay
  | right => left

def Response.mirror (r : Response) : Response := { r with move := r.move.mirror }

def Instruction.mirror (i : Instruction) : Instruction := { i with response := i.response.mirror }

/-- The table with left and right exchanged in every response. -/
def Table.mirror (t : Table) : Table := { t with entries := t.entries.map Instruction.mirror }

def Record.mirror (r : Record) : Record := ⟨r.request, r.tape.length - 1 - r.index, r.tape.reverse⟩

def Step.mirror : Step → Step
  | moved record => moved record.mirror
  | final record => final record.mirror
  | halted => halted

def Focus.mirror (f : Focus) : Focus := ⟨f.state, f.right, f.here, f.left⟩

def Tape.single (symbol blank : Symbol) : Tape := ⟨[symbol], blank, List.cons_ne_nil _ _⟩

namespace Table

variable {t : Table} {log : List Instruction} {q : Request}

theorem keys_mirror (t : Table) : t.mirror.keys = t.keys := by
  simp [keys, Table.mirror, Instruction.mirror, Function.comp_def]

theorem find?_mirror (is : List Instruction) (q : Request) :
    ((is.map Instruction.mirror).find? fun i => i.request = q).map (·.response) =
      ((is.find? fun i => i.request = q).map (·.response)).map Response.mirror := by
  rw [List.find?_map, Option.map_map, Option.map_map]
  rfl

theorem stored?_mirror (t : Table) (q : Request) :
    t.mirror.stored? q = (t.stored? q).map Response.mirror := by
  rw [stored?, stored?, Table.mirror, Array.toList_map, find?_mirror]

theorem Sound.mirror (h : t.Sound) : t.mirror.Sound := by
  refine ⟨?_, ?_⟩
  · rw [keys_mirror]
    exact h.nodup
  · intro q
    rw [keys_mirror]
    exact h.index q

theorem latest_mirror (log : List Instruction) (q : Request) :
    latest (log.map Instruction.mirror) q = (latest log q).map Response.mirror := by
  rw [latest, latest, ← List.map_reverse, find?_mirror]

theorem answer_mirror (log : List Instruction) (q : Request) :
    answer (log.map Instruction.mirror) q = (answer log q).mirror := by
  rw [answer, answer, latest_mirror]
  cases latest log q <;> rfl

theorem Holds.mirror (h : t.Holds log) : t.mirror.Holds (log.map Instruction.mirror) := by
  refine ⟨h.sound.mirror, ?_, ?_⟩
  · rw [keys_mirror, h.keys]
    simp [Instruction.mirror, Function.comp_def]
  · intro q
    rw [stored?_mirror, h.stored, latest_mirror]

theorem built_sets (is : List Instruction) :
    built (is.map fun i => .set i.request i.response) = (empty.setAll is).2 := by
  induction is using List.reverseRecOn with
  | nil => rfl
  | append_singleton is i ih =>
    rw [built] at ih
    rw [setAll_concat, built, List.map_append, List.foldl_append, ih]
    rfl

/-- A sound table can be built by setting its entries one after the other. -/
theorem Sound.exists_built (h : t.Sound) : ∃ ops, (built ops == t) = true := by
  refine ⟨t.entries.toList.map fun i => .set i.request i.response, ?_⟩
  have he := (setAll_empty h.nodup).2
  rw [built_sets]
  exact ((Sound.empty.setAll _).beq_iff h).mpr (Array.toList_inj.mp he)

end Table

namespace Focus

theorem apply_mirror (blank : Symbol) (f : Focus) (r : Response) :
    f.mirror.apply blank r.mirror = (f.apply blank r).mirror := by
  cases hm : r.move <;> simp [Focus.apply, Focus.mirror, Response.mirror, Move.mirror, hm]

theorem semiconj_mirror (log : List Instruction) (blank : Symbol) :
    Function.Semiconj mirror (step (Table.answer log) blank)
      (step (Table.answer (log.map Instruction.mirror)) blank) := by
  intro f
  have hq : f.mirror.request = f.request := rfl
  by_cases hs : f.state < 0
  · have hs' : f.mirror.state < 0 := hs
    rw [step, step, if_pos hs, if_pos hs']
  · have hs' : ¬ f.mirror.state < 0 := hs
    rw [step, step, if_neg hs, if_neg hs', hq, Table.answer_mirror, apply_mirror]

theorem cells_mirror (f : Focus) : f.mirror.cells = f.cells.reverse := by
  simp [cells, mirror]

end Focus

namespace Execution

variable {e e' : Execution} {f : Focus} {table : Table} {log : List Instruction}

/-- The second run is the mirror image of the first one, and its next step is, too. -/
structure Mirrored (e e' : Execution) : Prop where
  state : e'.state = e.state
  stepCount : e'.stepCount = e.stepCount
  length : e'.tape.length = e.tape.length
  cells : e'.tape.cells = e.tape.cells.reverse
  cursor : e'.cursor + e.cursor + 1 = e.tape.length
  step : e'.advance.1 = e.advance.1.map Step.mirror

theorem Faces.record_mirror (h : Faces e f) (h' : Faces e' f.mirror) :
    e'.record = e.record.mirror := by
  have hq : f.mirror.request = f.request := rfl
  have hi : f.cells.length - 1 - f.left.length = f.right.length := by
    rw [f.length_cells]
    omega
  rw [record, record, Record.mirror, h.request, h'.request, hq, h.cells, h'.cells, h.cursor,
    h'.cursor, f.cells_mirror, hi]
  rfl

/-- On a single cell the run of the mirrored table starts with the focus of the other one, which is
its own mirror image, and has the mirrored focus from then on. -/
theorem after_faces_mirror (ht : table.Holds log) (symbol blank : Symbol) (n : Nat) :
    ∃ f, Faces ((start table (.single symbol blank)).after n) f ∧
      Faces ((start table.mirror (.single symbol blank)).after n) f.mirror := by
  have hf : (Focus.start [symbol] blank).mirror = Focus.start [symbol] blank := rfl
  have hn := (Focus.semiconj_mirror log blank).iterate_right n (Focus.start [symbol] blank)
  refine ⟨_, after_faces ht (.single symbol blank) n, ?_⟩
  have h' := after_faces ht.mirror (.single symbol blank) n
  rw [hf] at hn
  exact hn ▸ h'

theorem Faces.state_mirror (h : Faces e f) (h' : Faces e' f.mirror) : e'.state = e.state :=
  h'.state.trans h.state.symm

theorem Faces.mirrored (h : Faces e f) (h' : Faces e' f.mirror)
    (hc : e'.stepCount = e.stepCount) (hn : e'.advance.1 = e.advance.1.map Step.mirror) :
    Mirrored e e' := by
  have hlen : e'.tape.length = e.tape.length := by
    rw [h.length, h'.length]
    simp only [Focus.mirror]
    omega
  refine ⟨h.state_mirror h', hc, hlen, ?_, ?_, hn⟩
  · rw [h.cells, h'.cells, f.cells_mirror]
  · rw [h.cursor, h'.cursor, h.length]
    simp only [Focus.mirror]
    omega

theorem records_mirror (ht : table.Holds log) (symbol blank : Symbol) (n : Nat) :
    (start table.mirror (.single symbol blank)).records n =
      ((start table (.single symbol blank)).records n).map Record.mirror := by
  have hs := start_sound ht.sound (.single symbol blank)
  have hs' := start_sound ht.sound.mirror (.single symbol blank)
  apply List.ext_getElem?
  intro i
  obtain ⟨f, h, h'⟩ := after_faces_mirror ht symbol blank i
  rw [hs'.getElem?_records, List.getElem?_map, hs.getElem?_records, h.state_mirror h',
    h.record_mirror h']
  split <;> rfl

theorem after_mirrored (ht : table.Holds log) (symbol blank : Symbol) (n : Nat) :
    Mirrored ((start table (.single symbol blank)).after n)
      ((start table.mirror (.single symbol blank)).after n) := by
  have hs := start_sound ht.sound (.single symbol blank)
  have hs' := start_sound ht.sound.mirror (.single symbol blank)
  obtain ⟨f, h, h'⟩ := after_faces_mirror ht symbol blank n
  obtain ⟨g, k, k'⟩ := after_faces_mirror ht symbol blank (n + 1)
  apply h.mirrored h'
  · rw [hs.stepCount_after, hs'.stepCount_after, records_mirror ht, List.length_map]
    rfl
  · rw [hs.advance_after, hs'.advance_after, h.state_mirror h', k.state_mirror k',
      h.record_mirror h']
    simp only [Except.map]
    split
    · rfl
    · split <;> rfl

/-- What a table and its mirror image do on a tape. -/
structure MirrorLaws (table : Table) (tape : Tape) : Prop where
  runs : ∀ n, Mirrored ((start table tape).after n) ((start table.mirror tape).after n)
  records : ∀ n, ((start table.mirror tape).run n).1 =
    ((start table tape).run n).1.map (List.map Record.mirror)

/-- Whatever was set, loaded and cleared: the mirrored table can be built too, and on a single cell
its run is the mirror image of the run of the table. -/
theorem mirrored_tables_mirror_runs (ops : List Table.Operation) (symbol blank : Symbol) :
    (∃ others, (Table.built others == (Table.built ops).mirror) = true) ∧
      MirrorLaws (Table.built ops) (.single symbol blank) := by
  have ht := Table.built_holds ops
  refine ⟨ht.sound.mirror.exists_built, ?_, ?_⟩
  · intro n
    exact after_mirrored ht symbol blank n
  · intro n
    rw [(start_sound ht.sound _).run, (start_sound ht.sound.mirror _).run, records_mirror ht]
    rfl

end Execution

end SingleTape
