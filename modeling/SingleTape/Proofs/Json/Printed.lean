import SingleTape.Json.Writer
import SingleTape.Proofs.Json.Numbers

/-!
Compact JSON stands on one line: no control character is in what is written.
-/

namespace SingleTape.Json

variable {cs rest : List Char} {c : Char}

def Printed (cs : List Char) : Prop := ∀ c ∈ cs, 0x20 ≤ c.toNat

theorem printed_nil : Printed [] := by
  intro c hc
  cases hc

theorem printed_cons : Printed (c :: cs) ↔ 0x20 ≤ c.toNat ∧ Printed cs := List.forall_mem_cons

theorem printed_append : Printed (cs ++ rest) ↔ Printed cs ∧ Printed rest := by
  simp only [Printed, List.mem_append, or_imp, forall_and]

theorem Printed.newline_free (h : Printed cs) : ∀ c ∈ cs, (c == '\n') = false := by
  intro c hc
  rw [beq_eq_false_iff_ne]
  rintro rfl
  exact absurd (h _ hc) (by decide)

theorem le_toNat_hexDigit {n : Nat} (h : n < 16) : 0x20 ≤ (hexDigit n).toNat := by
  revert h
  revert n
  decide

theorem printed_escape (c : Char) : Printed (escape c) := by
  unfold escape
  split
  case h_8 _ _ _ _ _ _ _ _ =>
    by_cases hc : c.toNat < 0x20
    · rw [if_pos hc]
      have hhigh : 0x20 ≤ (hexDigit (c.toNat / 16)).toNat := le_toNat_hexDigit (by omega)
      have hlow : 0x20 ≤ (hexDigit (c.toNat % 16)).toNat := le_toNat_hexDigit (by omega)
      simp [printed_cons, printed_nil, hhigh, hlow]
    · rw [if_neg hc, printed_cons]
      exact ⟨Nat.le_of_not_lt hc, printed_nil⟩
  all_goals simp [printed_cons, printed_nil]

theorem printed_writeText (s : String) : Printed (writeText s) := by
  rw [writeText, printed_append, printed_cons]
  refine ⟨⟨by decide, ?_⟩, by simp [printed_cons, printed_nil]⟩
  intro c hc
  obtain ⟨d, -, hd⟩ := List.mem_flatMap.mp hc
  exact printed_escape d c hd

theorem printed_natural (n : Nat) : Printed (Decimal.natural n) := by
  intro c hc
  have hdigit := isDigit_of_mem_natural hc
  simp only [Char.isDigit, Bool.and_eq_true, decide_eq_true_eq] at hdigit
  exact Nat.le_trans (by decide) hdigit.1

theorem printed_writeInteger (i : Int) : Printed (writeInteger i) := by
  rw [writeInteger, Decimal.integer]
  by_cases hi : i < 0
  · rw [if_pos hi, printed_cons]
    exact ⟨by decide, printed_natural i.natAbs⟩
  · rw [if_neg hi]
    exact printed_natural i.natAbs

theorem printed_intercalate {parts : List (List Char)} (h : ∀ part ∈ parts, Printed part) :
    Printed (List.intercalate [','] parts) := by
  induction parts with
  | nil =>
    rw [List.intercalate_nil]
    exact printed_nil
  | cons part parts ih =>
    obtain ⟨hp, hps⟩ := List.forall_mem_cons.mp h
    cases parts with
    | nil =>
      rw [List.intercalate_singleton]
      exact hp
    | cons next parts =>
      rw [List.intercalate_cons_cons, printed_append, printed_append, printed_cons]
      exact ⟨⟨hp, by decide, printed_nil⟩, ih hps⟩

theorem printed_writeList {values : List (List Char)} (h : ∀ value ∈ values, Printed value) :
    Printed (writeList values) := by
  rw [writeList, printed_append, printed_cons]
  exact ⟨⟨by decide, printed_intercalate h⟩, by simp [printed_cons, printed_nil]⟩

theorem printed_writeObject {members : List (String × List Char)}
    (h : ∀ member ∈ members, Printed member.2) : Printed (writeObject members) := by
  rw [writeObject, printed_append, printed_cons]
  refine ⟨⟨by decide, printed_intercalate ?_⟩, by simp [printed_cons, printed_nil]⟩
  intro part hpart
  obtain ⟨⟨name, value⟩, hm, rfl⟩ := List.mem_map.mp hpart
  change Printed (writeMember name value)
  rw [writeMember, printed_append, printed_cons]
  exact ⟨printed_writeText name, by decide, h (name, value) hm⟩

end SingleTape.Json
