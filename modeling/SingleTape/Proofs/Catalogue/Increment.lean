import Mathlib.Data.List.TakeWhile
import SingleTape.Catalogue
import SingleTape.Proofs.Execution.Focus
import SingleTape.Proofs.Execution.Halting
import SingleTape.Proofs.Session.History

/-!
The binary increment on every seed. It runs to the first blank behind the leading digits, and back
over them until the carry is gone. The carry is followed from the last digit on, so digits stand in
reverse there, the least significant one first.
-/

namespace SingleTape.Program

open Execution (start)

def isBit (s : Symbol) : Bool := s = "0" || s = "1"

def bitValue (s : Symbol) : Nat := if s = "1" then 1 else 0

def binaryValue (ds : List Symbol) : Nat := ds.foldl (fun value d => 2 * value + bitValue d) 0

def trailingOnes (ds : List Symbol) : Nat := (ds.reverse.takeWhile (· = "1")).length

/-- One more than these digits, on both sides the least significant one first. -/
def successorDigits : List Symbol → List Symbol
  | [] => ["1"]
  | d :: ds => if d = "1" then "0" :: successorDigits ds else "1" :: ds

variable {ds : List Symbol} {d : Symbol}

theorem isBit_iff : isBit d = true ↔ d = "0" ∨ d = "1" := by simp [isBit]

theorem binaryValue_reverse_cons (d : Symbol) (ds : List Symbol) :
    binaryValue (d :: ds).reverse = 2 * binaryValue ds.reverse + bitValue d := by
  simp [binaryValue]

theorem binaryValue_successorDigits (h : ∀ d ∈ ds, isBit d = true) :
    binaryValue (successorDigits ds).reverse = binaryValue ds.reverse + 1 := by
  induction ds with
  | nil => rfl
  | cons d ds ih =>
    obtain ⟨hd, hds⟩ := List.forall_mem_cons.mp h
    rcases isBit_iff.mp hd with rfl | rfl
    · simp [successorDigits, binaryValue, bitValue]
    · have hv := ih hds
      rw [successorDigits, if_pos rfl, binaryValue_reverse_cons, binaryValue_reverse_cons, hv]
      simp only [bitValue]
      simp
      omega

theorem isBit_successorDigits (h : ∀ d ∈ ds, isBit d = true) :
    ∀ d ∈ successorDigits ds, isBit d = true := by
  induction ds with
  | nil => simp [successorDigits, isBit]
  | cons d ds ih =>
    obtain ⟨-, hds⟩ := List.forall_mem_cons.mp h
    rw [successorDigits]
    split
    · exact List.forall_mem_cons.mpr ⟨rfl, ih hds⟩
    · exact List.forall_mem_cons.mpr ⟨rfl, hds⟩

theorem length_successorDigits (ds : List Symbol) :
    (successorDigits ds).length =
      if ∀ d ∈ ds, d = "1" then ds.length + 1 else ds.length := by
  induction ds with
  | nil => rfl
  | cons d ds ih =>
    rw [successorDigits]
    by_cases hd : d = "1"
    · rw [if_pos hd, List.length_cons, ih]
      simp only [List.forall_mem_cons, hd, true_and, List.length_cons]
      split <;> rfl
    · rw [if_neg hd, if_neg (fun h => hd (h d List.mem_cons_self))]
      rfl

def incrementInstructions : List Instruction :=
  [⟨⟨0, "0"⟩, ⟨0, "0", .right⟩⟩, ⟨⟨0, "1"⟩, ⟨0, "1", .right⟩⟩, ⟨⟨0, "_"⟩, ⟨1, "_", .left⟩⟩,
    ⟨⟨1, "1"⟩, ⟨1, "0", .left⟩⟩, ⟨⟨1, "0"⟩, ⟨-1, "1", .stay⟩⟩, ⟨⟨1, "_"⟩, ⟨-1, "1", .stay⟩⟩]

def incrementTable : Table := (Table.empty.setAll incrementInstructions).2

theorem machine_binaryIncrement : binaryIncrement.machine = .ok ⟨"_", incrementTable⟩ := by
  have hi : readInstructions binaryIncrement.instructions = .ok incrementInstructions := rfl
  have hl := Table.load_ok hi Table.empty
  rw [machine, Machine.load]
  simp [Machine.withBlank, hl, bind, Except.bind, incrementTable]
  rfl

theorem incrementTable_holds : incrementTable.Holds incrementInstructions :=
  Table.holds_empty.setAll incrementInstructions

def incrementStep : Focus → Focus := Focus.step (Table.answer incrementInstructions) "_"

def scanning (passed cells : List Symbol) : Focus := ⟨0, passed, cells.headD "_", cells.tail⟩

def carrying (ds cells : List Symbol) : Focus := ⟨1, ds.tail, ds.headD "_", cells⟩

theorem incrementStep_scanning {passed cells : List Symbol} {r : Response}
    (h : Table.answer incrementInstructions ⟨0, cells.headD "_"⟩ = r) :
    incrementStep (scanning passed cells) = (scanning passed cells).apply "_" r := by
  refine Focus.step_of_answer ?_ h
  change ¬ (0 : State) < 0
  decide

theorem incrementStep_carrying {ds cells : List Symbol} {r : Response}
    (h : Table.answer incrementInstructions ⟨1, ds.headD "_"⟩ = r) :
    incrementStep (carrying ds cells) = (carrying ds cells).apply "_" r := by
  refine Focus.step_of_answer ?_ h
  change ¬ (1 : State) < 0
  decide

theorem scan (h : ∀ d ∈ ds, isBit d = true) (passed rest : List Symbol) :
    incrementStep^[ds.length] (scanning passed (ds ++ rest)) =
      scanning (ds.reverse ++ passed) rest := by
  induction ds generalizing passed with
  | nil => rfl
  | cons d ds ih =>
    obtain ⟨hd, hds⟩ := List.forall_mem_cons.mp h
    have hstep : incrementStep (scanning passed (d :: ds ++ rest)) =
        scanning (d :: passed) (ds ++ rest) := by
      rcases isBit_iff.mp hd with rfl | rfl
      · exact incrementStep_scanning rfl
      · exact incrementStep_scanning rfl
    rw [List.length_cons, Function.iterate_succ_apply, hstep, ih hds]
    simp

theorem turn (ds : List Symbol) {rest : List Symbol} (h : rest.headD "_" = "_") :
    incrementStep (scanning ds rest) = carrying ds ("_" :: rest.tail) := by
  have ha : Table.answer incrementInstructions ⟨0, rest.headD "_"⟩ = ⟨1, "_", .left⟩ := by
    rw [h]
    rfl
  exact incrementStep_scanning ha

theorem carry (h : ∀ d ∈ ds, isBit d = true) (cells : List Symbol) :
    ∃ f, incrementStep^[(ds.takeWhile (· = "1")).length] (carrying ds cells) = f ∧ f.state = 1 ∧
      (incrementStep f).state = -1 ∧
        (incrementStep f).cells = (successorDigits ds).reverse ++ cells := by
  induction ds generalizing cells with
  | nil =>
    have hstep : incrementStep (carrying [] cells) = ⟨-1, [], "1", cells⟩ :=
      incrementStep_carrying rfl
    refine ⟨carrying [] cells, rfl, rfl, ?_, ?_⟩
    · rw [hstep]
    · rw [hstep]
      rfl
  | cons d ds ih =>
    obtain ⟨hd, hds⟩ := List.forall_mem_cons.mp h
    rcases isBit_iff.mp hd with rfl | rfl
    · have hstep : incrementStep (carrying ("0" :: ds) cells) = ⟨-1, ds, "1", cells⟩ :=
        incrementStep_carrying rfl
      refine ⟨carrying ("0" :: ds) cells, rfl, rfl, ?_, ?_⟩
      · rw [hstep]
      · rw [hstep]
        simp [Focus.cells, successorDigits]
    · have hstep : incrementStep (carrying ("1" :: ds) cells) = carrying ds ("0" :: cells) :=
        incrementStep_carrying rfl
      obtain ⟨f, hf, hstate, hlast, hcells⟩ := ih hds ("0" :: cells)
      refine ⟨f, ?_, hstate, hlast, ?_⟩
      · simpa [Function.iterate_succ_apply, hstep] using hf
      · simpa [successorDigits] using hcells

def leadingBits (tokens : List Symbol) : List Symbol := tokens.takeWhile isBit

def trailingTokens (tokens : List Symbol) : List Symbol := tokens.dropWhile isBit

/-- A run that increments these digits, with `rest` behind them. -/
structure Increments (e : Execution) (digits rest : List Symbol) : Prop where
  halts : ∀ n, (e.after n).isHalted = true ↔ digits.length + trailingOnes digits + 2 ≤ n
  ends : ∃ result, (∀ d ∈ result, isBit d = true) ∧
    binaryValue result = binaryValue digits + 1 ∧
    result.length = (if ∀ d ∈ digits, d = "1" then digits.length + 1 else digits.length) ∧
    ∀ n, digits.length + trailingOnes digits + 2 ≤ n →
      (e.after n).stepCount = digits.length + trailingOnes digits + 2 ∧ (e.after n).state = -1 ∧
        (e.after n).tape.cells = result ++ if rest = [] then ["_"] else rest

/-- A run that never halts, however many records are pulled from it. -/
def Endless (e : Execution) : Prop :=
  ∀ n, ∃ records, e.run n = (.ok records, e.after n) ∧ records.length = n ∧
    (e.after n).isHalted = false

variable {tape : Tape} {digits rest : List Symbol}

theorem launchSeed_increment {seed : String} {tokens : List Symbol}
    (h : readSeed seed = .ok tokens) :
    Machine.launchSeed ⟨"_", incrementTable⟩ seed =
      .ok (start incrementTable ⟨tokens, "_", readSeed_ne_nil h⟩) := by
  rw [Machine.launchSeed, Tape.ofSeed_ok h]
  rfl

theorem after_faces_increment (hb : tape.blank = "_") (n : Nat) :
    ((start incrementTable tape).after n).Faces (incrementStep^[n] (scanning [] tape.cells)) := by
  have hf := Execution.after_faces incrementTable_holds tape n
  rwa [hb] at hf

/-- All transitions but the last one: the digits are scanned, the head turns, and the ones at the
end are carried. -/
theorem scan_turn_carry (hd : ∀ d ∈ digits, isBit d = true) (hr : rest.headD "_" = "_") :
    ∃ f, incrementStep^[digits.length + trailingOnes digits + 1]
      (scanning [] (digits ++ rest)) = f ∧ f.state = 1 ∧ (incrementStep f).state = -1 ∧
        (incrementStep f).cells =
          (successorDigits digits.reverse).reverse ++ if rest = [] then ["_"] else rest := by
  have hd' : ∀ d ∈ digits.reverse, isBit d = true := by simpa using hd
  obtain ⟨f, hf, hstate, hlast, hcells⟩ := carry hd' ("_" :: rest.tail)
  have hcount : digits.length + trailingOnes digits + 1 =
      trailingOnes digits + (1 + digits.length) := by omega
  have hrest : "_" :: rest.tail = if rest = [] then ["_"] else rest := by
    cases rest with
    | nil => rfl
    | cons token rest => simpa using hr.symm
  refine ⟨f, ?_, hstate, hlast, ?_⟩
  · rw [hcount, Function.iterate_add_apply, Function.iterate_add_apply, scan hd, List.append_nil,
      Function.iterate_one, turn _ hr]
    exact hf
  · rw [hcells, hrest]

theorem increments (hb : tape.blank = "_") (hc : tape.cells = digits ++ rest)
    (hd : ∀ d ∈ digits, isBit d = true) (hr : rest.headD "_" = "_") :
    Increments (start incrementTable tape) digits rest := by
  have hs := Execution.start_sound incrementTable_holds.sound tape
  have hd' : ∀ d ∈ digits.reverse, isBit d = true := by simpa using hd
  obtain ⟨f, hf, hstate, hlast, hcells⟩ := scan_turn_carry hd hr
  have hrun : ¬ ((start incrementTable tape).after
      (digits.length + trailingOnes digits + 1)).state < 0 := by
    rw [(after_faces_increment hb _).state, hc, hf, hstate]
    decide
  have hfinal := after_faces_increment hb (digits.length + trailingOnes digits + 2)
  rw [Function.iterate_succ_apply', hc, hf] at hfinal
  have hhalt : ((start incrementTable tape).after
      (digits.length + trailingOnes digits + 2)).state < 0 := by
    rw [hfinal.state, hlast]
    decide
  constructor
  · intro n
    rw [Execution.isHalted, decide_eq_true_iff]
    by_cases hn : digits.length + trailingOnes digits + 1 < n
    · rw [(hs.after_of_last hrun hhalt hn).1]
      exact iff_of_true hhalt hn
    · exact iff_of_false (hs.not_halted_before hrun (Nat.le_of_not_lt hn)) hn
  · refine ⟨(successorDigits digits.reverse).reverse, ?_, ?_, ?_, ?_⟩
    · simpa using isBit_successorDigits hd'
    · rw [binaryValue_successorDigits hd', List.reverse_reverse]
    · simpa using length_successorDigits digits.reverse
    · intro n hn
      obtain ⟨hx, hsteps⟩ := hs.after_of_last hrun hhalt hn
      refine ⟨hsteps.trans (Nat.zero_add _), ?_, ?_⟩
      · rw [hx, hfinal.state, hlast]
      · rw [hx, hfinal.cells, hcells]

/-- A token that is neither a digit nor blank has no entry, so the head stays there. -/
theorem endless {token : Symbol} (hb : tape.blank = "_") (hc : tape.cells = digits ++ token :: rest)
    (hd : ∀ d ∈ digits, isBit d = true) (ht : isBit token = false) (hne : token ≠ "_") :
    Endless (start incrementTable tape) := by
  have hs := Execution.start_sound incrementTable_holds.sound tape
  have hf := after_faces_increment hb digits.length
  rw [hc, scan hd, List.append_nil] at hf
  have hrun : ¬ ((start incrementTable tape).after digits.length).state < 0 := by
    rw [hf.state]
    change ¬ (0 : State) < 0
    decide
  have hmissing : ((start incrementTable tape).after digits.length).request ∉
      ((start incrementTable tape).after digits.length).table.keys := by
    have hq : (scanning digits.reverse (token :: rest)).request = ⟨0, token⟩ := rfl
    have htable : (start incrementTable tape).table = incrementTable := rfl
    obtain ⟨h0, h1⟩ : token ≠ "0" ∧ token ≠ "1" := by simpa [isBit] using ht
    rw [hf.request, hq, hs.table_after, htable, incrementTable_holds.mem_keys]
    simp [incrementInstructions, h0, h1, hne]
  have hstuck := (hs.after digits.length).stuck_of_missing hrun hmissing
  intro n
  have hn : ¬ ((start incrementTable tape).after n).state < 0 := by
    by_cases hle : n ≤ digits.length
    · exact hs.not_halted_before hrun hle
    · obtain ⟨m, rfl⟩ := Nat.exists_eq_add_of_le (Nat.le_of_not_le hle)
      have hm := hstuck.running m
      rw [← Execution.after_add] at hm
      simpa [Execution.isHalted] using hm
  refine ⟨_, hs.run n, hs.length_records_of_not_halted hn, ?_⟩
  simpa [Execution.isHalted] using hn

/-- On every seed: if a blank or nothing stands behind its leading digits, the program adds one to
them and halts; with any other token there, it never halts. -/
theorem binaryIncrement_adds_one (seed : String) (tokens : List Symbol)
    (h : readSeed seed = .ok tokens) :
    ∃ m e, binaryIncrement.machine = .ok m ∧ m.launchSeed seed = .ok e ∧
      (trailingTokens tokens = [] ∨ (trailingTokens tokens).head? = some "_" →
        Increments e (leadingBits tokens) (trailingTokens tokens)) ∧
      (∀ token, (trailingTokens tokens).head? = some token → token ≠ "_" → Endless e) := by
  have hc : tokens = leadingBits tokens ++ trailingTokens tokens :=
    List.takeWhile_append_dropWhile.symm
  have hd : ∀ d ∈ leadingBits tokens, isBit d = true := fun d hm => List.mem_takeWhile_imp hm
  refine ⟨_, _, machine_binaryIncrement, launchSeed_increment h, ?_, ?_⟩
  · intro hr
    apply increments rfl hc hd
    rcases hr with hr | hr
    · rw [hr]
      rfl
    · rw [List.headD_eq_head?_getD, hr]
      rfl
  · intro token hr hne
    have hbit := List.head?_dropWhile_not isBit tokens
    rw [trailingTokens] at hr
    simp only [hr] at hbit
    obtain ⟨rest, hrest⟩ := List.head?_eq_some_iff.mp hr
    rw [trailingTokens, hrest] at hc
    exact endless rfl hc hd hbit hne

/-- One seed whose carry leaves the digits, with a token behind the blank, and one without a blank. -/
theorem overflowing_seed_increments :
    (∃ m e, binaryIncrement.machine = .ok m ∧ m.launchSeed "1 1 _ 7" = .ok e ∧
      Increments e ["1", "1"] ["_", "7"]) ∧
    ∃ m e, binaryIncrement.machine = .ok m ∧ m.launchSeed "1 7" = .ok e ∧ Endless e := by
  constructor
  · have hseed : readSeed "1 1 _ 7" = .ok ["1", "1", "_", "7"] := rfl
    obtain ⟨m, e, hm, he, hblank, -⟩ := binaryIncrement_adds_one _ _ hseed
    exact ⟨m, e, hm, he, hblank (Or.inr rfl)⟩
  · have hseed : readSeed "1 7" = .ok ["1", "7"] := rfl
    obtain ⟨m, e, hm, he, -, hother⟩ := binaryIncrement_adds_one _ _ hseed
    exact ⟨m, e, hm, he, hother "7" rfl (by decide)⟩

end SingleTape.Program
