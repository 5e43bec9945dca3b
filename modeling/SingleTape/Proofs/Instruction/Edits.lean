import Mathlib.Logic.Relation
import SingleTape.Proofs.Instruction.Blocks
import SingleTape.Proofs.Table.History

/-!
Edits of a block that keep what it answers. Of several instructions for a request only the last one
counts, an instruction to stay as one is says the same as no instruction, and negative states are
never asked for.
-/

namespace SingleTape

def said (lines : List (List Char)) : List Instruction :=
  lines.filterMap fun line => (Instruction.ofChars line).toOption

/-- What can be done to lines without an effect on runs: lines for distinct requests change places,
or a line goes that is overridden further down, that is the only one for its request and keeps
everything as it is, or that is for a negative state. -/
inductive Edit : List (List Char) → List (List Char) → Prop where
  | reordered {front lines lines' back : List (List Char)} (hp : lines.Perm lines')
      (h : ((said lines).map (·.request)).Nodup) :
      Edit (front ++ lines ++ back) (front ++ lines' ++ back)
  | overridden {front back : List (List Char)} {line : List Char} {i : Instruction}
      (hi : Instruction.ofChars line = .ok i) (h : i.request ∈ (said back).map (·.request)) :
      Edit (front ++ line :: back) (front ++ back)
  | identity {front back : List (List Char)} {line : List Char} {i : Instruction}
      (hi : Instruction.ofChars line = .ok i) (hr : i.response = i.request.unanswered)
      (h : i.request ∉ (said (front ++ back)).map (·.request)) :
      Edit (front ++ line :: back) (front ++ back)
  | negative {front back : List (List Char)} {line : List Char} {i : Instruction}
      (hi : Instruction.ofChars line = .ok i) (h : i.request.state < 0) :
      Edit (front ++ line :: back) (front ++ back)

namespace Table

variable {log : List Instruction} {is js : List Instruction} {i : Instruction} {q : Request}

theorem latest_append (log later : List Instruction) (q : Request) :
    latest (log ++ later) q = (latest later q).or (latest log q) := by
  rw [latest, List.reverse_append, List.find?_append, Option.map_or]
  rfl

theorem latest_cons (i : Instruction) (is : List Instruction) (q : Request) :
    latest (i :: is) q = (latest is q).or (if q = i.request then some i.response else none) := by
  rw [← List.singleton_append, latest_append]
  congr 1
  exact latest_concat [] i q

theorem latest_eq_none_iff : latest log q = none ↔ q ∉ log.map (·.request) := by
  simp [latest]

theorem latest_perm (hp : is.Perm js) (h : (is.map (·.request)).Nodup) (q : Request) :
    latest is q = latest js q := by
  induction hp with
  | nil => rfl
  | cons i _ ih => rw [latest_cons, latest_cons, ih (List.nodup_cons.mp h).2]
  | swap i j is =>
    have hne : j.request ≠ i.request := by
      intro heq
      simp [heq] at h
    rw [latest_cons, latest_cons, latest_cons, latest_cons, Option.or_assoc, Option.or_assoc]
    congr 1
    by_cases hi : q = i.request
    · have hj : q ≠ j.request := hi ▸ hne.symm
      rw [if_neg hj, Option.or_none, Option.none_or]
    · rw [if_neg hi, Option.or_none, Option.none_or]
  | trans hp _ ih ih' => rw [ih h, ih' ((hp.map _).nodup_iff.mp h)]

theorem answer_remove (h : q ≠ i.request) (is js : List Instruction) :
    answer (is ++ i :: js) q = answer (is ++ js) q := by
  rw [answer, answer, latest_append, latest_append, latest_cons, if_neg h, Option.or_none]

end Table

variable {lines lines' : List (List Char)} {block block' : String} {is : List Instruction}

def Readable (lines : List (List Char)) : Prop :=
  ∀ line ∈ lines, ∃ i, Instruction.ofChars line = .ok i

theorem said_append (lines lines' : List (List Char)) :
    said (lines ++ lines') = said lines ++ said lines' :=
  List.filterMap_append

theorem said_cons {line : List Char} {i : Instruction} (h : Instruction.ofChars line = .ok i)
    (lines : List (List Char)) : said (line :: lines) = i :: said lines := by
  rw [said, List.filterMap_cons, h]
  rfl

theorem forall₂_iff_said :
    List.Forall₂ (fun line i => Instruction.ofChars line = .ok i) lines is ↔
      Readable lines ∧ said lines = is := by
  constructor
  · intro h
    induction h with
    | nil => exact ⟨List.forall_mem_nil _, rfl⟩
    | cons hl _ ih =>
      refine ⟨List.forall_mem_cons.mpr ⟨⟨_, hl⟩, ih.1⟩, ?_⟩
      rw [said_cons hl, ih.2]
  · rintro ⟨h, rfl⟩
    induction lines with
    | nil => exact .nil
    | cons line lines ih =>
      obtain ⟨⟨i, hi⟩, hl⟩ := List.forall_mem_cons.mp h
      rw [said_cons hi]
      exact .cons hi (ih hl)

theorem readInstructions_ok_iff :
    readInstructions block = .ok is ↔
      Readable (inkedLines block.toList) ∧ said (inkedLines block.toList) = is := by
  rw [readInstructions, Instruction.block_ok_iff, forall₂_iff_said]

theorem Edit.subset (h : Edit lines lines') : lines' ⊆ lines := by
  intro line hl
  cases h with
  | reordered hp _ => simpa [hp.mem_iff] using hl
  | overridden | identity | negative =>
    simp only [List.mem_append, List.mem_cons] at hl ⊢
    tauto

theorem Edit.readable (h : Edit lines lines') (hr : Readable lines) : Readable lines' := by
  intro line hl
  exact hr line (h.subset hl)

/-- What is answered for the states of a run that goes on is the same after an edit. -/
theorem Edit.answer_eq (h : Edit lines lines') {q : Request} (hq : 0 ≤ q.state) :
    Table.answer (said lines) q = Table.answer (said lines') q := by
  cases h with
  | @reordered front lines lines' back hp hn =>
    have hs : Table.latest (said lines) q = Table.latest (said lines') q :=
      Table.latest_perm (hp.filterMap _) hn q
    simp only [said_append, Table.answer, Table.latest_append, hs]
  | @overridden front back line i hi hb =>
    rw [said_append, said_cons hi, said_append]
    by_cases hqi : q = i.request
    · subst hqi
      have hne : Table.latest (said back) i.request ≠ none := by
        intro hnone
        exact Table.latest_eq_none_iff.mp hnone hb
      obtain ⟨r, hr⟩ := Option.ne_none_iff_exists'.mp hne
      simp only [Table.answer, Table.latest_append, Table.latest_cons, hr, Option.some_or]
    · exact Table.answer_remove hqi _ _
  | @identity front back line i hi hr hb =>
    rw [said_append, said_cons hi, said_append]
    by_cases hqi : q = i.request
    · subst hqi
      rw [← Table.latest_eq_none_iff, said_append, Table.latest_append,
        Option.or_eq_none_iff] at hb
      simp only [Table.answer, Table.latest_append, Table.latest_cons, hb.1, hb.2, if_pos,
        Option.none_or, Option.or_none, Option.getD_some, Option.getD_none, hr]
    · exact Table.answer_remove hqi _ _
  | @negative front back line i hi hneg =>
    have hqi : q ≠ i.request := by
      rintro rfl
      exact Int64.not_lt.mpr hq hneg
    rw [said_append, said_cons hi, said_append, Table.answer_remove hqi]

theorem edits_answer_eq (h : Relation.ReflTransGen Edit lines lines') (hr : Readable lines) :
    Readable lines' ∧ ∀ q : Request, 0 ≤ q.state →
      Table.answer (said lines) q = Table.answer (said lines') q := by
  induction h with
  | refl => exact ⟨hr, fun _ _ => rfl⟩
  | tail _ he ih =>
    refine ⟨he.readable ih.1, ?_⟩
    intro q hq
    rw [ih.2 q hq, he.answer_eq hq]

/-- Whatever edits are made to an accepted block, the block is accepted after them and answers as
before. -/
theorem edited_block_answers (hb : readInstructions block = .ok is)
    (h : Relation.ReflTransGen Edit (inkedLines block.toList) (inkedLines block'.toList)) :
    ∃ js, readInstructions block' = .ok js ∧
      ∀ q : Request, 0 ≤ q.state → Table.answer is q = Table.answer js q := by
  obtain ⟨hr, rfl⟩ := readInstructions_ok_iff.mp hb
  obtain ⟨hr', ha⟩ := edits_answer_eq h hr
  exact ⟨_, readInstructions_ok_iff.mpr ⟨hr', rfl⟩, ha⟩

end SingleTape
