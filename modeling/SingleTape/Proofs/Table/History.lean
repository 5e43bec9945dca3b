import Mathlib.Data.Finset.Card
import Mathlib.Data.List.Dedup
import SingleTape.General.Lists
import SingleTape.Proofs.Table.Invariant

/-!
Tables over whole histories of insertions, loads and clears. A table holds what was inserted since
it was cleared last: the requests in the order of their first insertion, each with the response of
its last one.
-/

namespace SingleTape.Table

inductive Operation where
  | set (q : Request) (r : Response)
  | load (block : String)
  | clear
  deriving DecidableEq, Repr

def perform (t : Table) : Operation → Table
  | .set q r => (t.set q r).2
  | .load block =>
    match t.load block with
    | .ok (_, t) => t
    | .error _ => t
  | .clear => .empty

def built (ops : List Operation) : Table := ops.foldl perform empty

/-- What was inserted since the last clear, if `log` was inserted before the operation. -/
def Operation.extend (log : List Instruction) : Operation → List Instruction
  | .set q r => log ++ [⟨q, r⟩]
  | .load block =>
    match readInstructions block with
    | .ok is => log ++ is
    | .error _ => log
  | .clear => []

def inserted (ops : List Operation) : List Instruction := ops.foldl Operation.extend []

/-- The response that came in last for a request. -/
def latest (log : List Instruction) (q : Request) : Option Response :=
  (log.reverse.find? fun i => i.request = q).map (·.response)

def answer (log : List Instruction) (q : Request) : Response :=
  (latest log q).getD q.unanswered

@[simp] theorem latest_nil (q : Request) : latest [] q = none := rfl

theorem latest_concat (log : List Instruction) (i : Instruction) (q : Request) :
    latest (log ++ [i]) q = if q = i.request then some i.response else latest log q := by
  by_cases hq : q = i.request
  · subst q
    simp [latest]
  · simp [latest, hq, Ne.symm hq]

/-- A sound table with exactly the contents of a log. -/
structure Holds (t : Table) (log : List Instruction) : Prop where
  sound : t.Sound
  keys : t.keys = (log.map (·.request)).eraseDups
  stored : ∀ q, t.stored? q = latest log q

theorem holds_empty : Holds empty [] := by
  refine ⟨.empty, ?_, fun q => ?_⟩
  · simp [Table.keys, Table.empty]
  · simp [stored?, Table.empty]

theorem Holds.mem_keys {t : Table} {log : List Instruction} (h : Holds t log) (q : Request) :
    q ∈ t.keys ↔ q ∈ log.map (·.request) := by
  rw [h.keys, List.mem_eraseDups]

theorem Holds.set {t : Table} {log : List Instruction} (h : Holds t log) (q : Request)
    (r : Response) : Holds (t.set q r).2 (log ++ [⟨q, r⟩]) := by
  refine ⟨h.sound.set q r, ?_, fun p => ?_⟩
  · rw [h.sound.keys_set, List.map_append, List.map_singleton, eraseDups_concat, ← h.keys]
    simp only [h.mem_keys]
  · rw [h.sound.stored?_set, latest_concat, h.stored]

theorem Holds.setAll {t : Table} {log : List Instruction} (h : Holds t log)
    (is : List Instruction) : Holds (t.setAll is).2 (log ++ is) := by
  induction is using List.reverseRecOn with
  | nil => simpa using h
  | append_singleton is i ih =>
    rw [setAll_concat, ← List.append_assoc]
    exact ih.set i.request i.response

theorem Holds.perform {t : Table} {log : List Instruction} (h : Holds t log) (op : Operation) :
    Holds (t.perform op) (op.extend log) := by
  cases op with
  | set q r => exact h.set q r
  | load block =>
    cases hb : readInstructions block with
    | error e => simpa [Table.perform, load_error hb, Operation.extend, hb] using h
    | ok is => simpa [Table.perform, load_ok hb, Operation.extend, hb] using h.setAll is
  | clear => exact holds_empty

/-- Every history leaves a sound table with the contents of its log. -/
theorem built_holds (ops : List Operation) : Holds (built ops) (inserted ops) := by
  induction ops using List.reverseRecOn with
  | nil => exact holds_empty
  | append_singleton ops op ih =>
    rw [built, inserted, List.foldl_concat, List.foldl_concat]
    exact ih.perform op

theorem Sound.keys_prefix_load {t : Table} (h : t.Sound) (block : String) :
    t.keys <+: (t.perform (.load block)).keys := by
  cases hb : readInstructions block with
  | error e => simp [Table.perform, load_error hb]
  | ok is => simpa [Table.perform, load_ok hb] using h.keys_prefix_setAll is

theorem Holds.size_eq {t : Table} {log : List Instruction} (h : Holds t log) :
    t.size = (log.map (·.request)).toFinset.card := by
  calc
    t.size = t.keys.length := by simp [Table.size, Table.keys]
    _ = t.keys.toFinset.card := (List.toFinset_card_of_nodup h.sound.nodup).symm
    _ = (log.map (·.request)).toFinset.card := by
      congr 1
      ext q
      rw [List.mem_toFinset, List.mem_toFinset, h.mem_keys]

/-- What a table with the contents of a log does: it is the map from each request of the log to the
response that came in last. The places of its keys never change, whatever is set or loaded next. -/
structure MapLaws (t : Table) (log : List Instruction) : Prop where
  distinct : t.keys.Nodup
  places : ∀ q (slot : Nat), t.index[q]? = some slot ↔ t.keys[slot]? = some q
  answers : ∀ q, t.respond q = .ok (answer log q)
  members : ∀ q, t.contains q = true ↔ q ∈ log.map (·.request)
  previous : ∀ q r, (t.set q r).1 = latest log q
  update : ∀ q r p, (t.set q r).2.respond p = if p = q then .ok r else t.respond p
  order : t.keys = (log.map (·.request)).eraseDups
  set_keeps : ∀ q r, t.keys <+: (t.set q r).2.keys
  load_keeps : ∀ block, t.keys <+: (t.perform (.load block)).keys
  count : t.size = (log.map (·.request)).toFinset.card

/-- Whatever was set, loaded and cleared, a table is the map of what was inserted since the last
clear, and equality of tables is equality of their entries. -/
theorem built_map_laws (ops : List Operation) :
    MapLaws (built ops) (inserted ops) ∧
      ∀ others, (built ops == built others) = true ↔
        (built ops).entries = (built others).entries := by
  have h := built_holds ops
  refine ⟨?_, fun others => h.sound.beq_iff (built_holds others).sound⟩
  exact {
    distinct := h.sound.nodup
    places := fun q slot => h.sound.index_eq_some_iff
    answers := fun q => by rw [h.sound.respond, h.stored, answer]
    members := fun q => by rw [h.sound.contains, h.mem_keys]
    previous := fun q r => by rw [h.sound.set_fst, h.stored]
    update := fun q r p => by
      rw [(h.sound.set q r).respond, h.sound.respond, h.sound.stored?_set]
      by_cases hp : p = q <;> simp [hp]
    order := h.keys
    set_keeps := h.sound.keys_prefix_set
    load_keeps := h.sound.keys_prefix_load
    count := h.size_eq }

end SingleTape.Table
