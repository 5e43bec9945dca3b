import SingleTape.General.Lists
import SingleTape.Text.Blank

/-!
What trimming leaves of a text: all of it but the blank characters at its two ends.
-/

namespace SingleTape.Text

/-- `t` is `cs` without blank characters in front and behind, and has none there itself. -/
structure Trims (cs t : List Char) : Prop where
  split : ∃ front back, cs = front ++ t ++ back ∧
    (∀ c ∈ front, isBlank c = true) ∧ ∀ c ∈ back, isBlank c = true
  first : ∀ c ∈ t.head?, isBlank c = false
  last : ∀ c ∈ t.getLast?, isBlank c = false

theorem trims_trim (cs : List Char) : Trims cs (trim cs) := by
  obtain ⟨front, hf, hfb, hfh⟩ := exists_dropWhile isBlank cs
  obtain ⟨back, hb, hbb, hbh⟩ := exists_dropWhile isBlank (cs.dropWhile isBlank).reverse
  have hs : cs.dropWhile isBlank = trim cs ++ back.reverse := by
    rw [trim, ← List.reverse_append, ← hb, List.reverse_reverse]
  constructor
  · refine ⟨front, back.reverse, ?_, hfb, by simpa using hbb⟩
    rw [List.append_assoc, ← hs, ← hf]
  · intro c hc
    apply hfh
    rw [hs, List.head?_append, Option.mem_def.mp hc]
    rfl
  · intro c hc
    apply hbh
    rw [trim, List.getLast?_reverse] at hc
    exact hc

/-- Nothing else is left of a text than what trimming leaves. -/
theorem trims_iff {cs t : List Char} : Trims cs t ↔ t = trim cs := by
  constructor
  · intro h
    obtain ⟨front, back, rfl, hf, hb⟩ := h.split
    rcases eq_or_ne t [] with rfl | ht
    · have hfb : ∀ c ∈ front ++ back, isBlank c = true := by
        intro c hc
        exact (List.mem_append.mp hc).elim (hf c) (hb c)
      rw [trim, List.append_nil, List.dropWhile_eq_nil_iff.mpr hfb]
      rfl
    · rw [trim, List.append_assoc, dropWhile_append hf, List.reverse_append,
        dropWhile_append (by simpa using hb), List.reverse_reverse]
      · rw [List.head?_reverse]
        exact h.last
      · cases t with
        | nil => exact absurd rfl ht
        | cons c t => exact h.first
  · rintro rfl
    exact trims_trim cs

/-- A text with no blank character at its ends. -/
structure Bare (cs : List Char) : Prop where
  first : ∀ c ∈ cs.head?, isBlank c = false
  last : ∀ c ∈ cs.getLast?, isBlank c = false

theorem bare_of_forall {cs : List Char} (h : ∀ c ∈ cs, isBlank c = false) : Bare cs :=
  ⟨fun c hc => h c (List.mem_of_head? hc), fun c hc => h c (List.mem_of_getLast? hc)⟩

theorem Bare.join {a b : List Char} (ha : Bare a) (hb : Bare b) (hane : a ≠ []) (hbne : b ≠ [])
    (between : List Char) : Bare (a ++ between ++ b) := by
  constructor
  · intro c hc
    apply ha.first
    rwa [List.append_assoc, List.head?_append, List.head?_eq_some_head hane, Option.some_or,
      ← List.head?_eq_some_head hane] at hc
  · intro c hc
    apply hb.last
    rwa [List.getLast?_append, List.getLast?_eq_some_getLast hbne, Option.some_or,
      ← List.getLast?_eq_some_getLast hbne] at hc

variable {t front back : List Char}

theorem Bare.trims (h : Bare t) (hf : ∀ c ∈ front, isBlank c = true)
    (hb : ∀ c ∈ back, isBlank c = true) : Trims (front ++ t ++ back) t :=
  ⟨⟨front, back, rfl, hf, hb⟩, h.first, h.last⟩

theorem Bare.trims_self (h : Bare t) : Trims t t := by
  have hnil : ∀ c ∈ ([] : List Char), isBlank c = true := by simp
  have ht := h.trims hnil hnil
  rwa [List.nil_append, List.append_nil] at ht

end SingleTape.Text
