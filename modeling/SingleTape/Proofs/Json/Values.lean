import SingleTape.Proofs.Json.Glyphs
import SingleTape.Proofs.Json.Numerals
import SingleTape.Proofs.Json.Objects

/-!
The grammar of JSON values, with any white space between their tokens. A value of any depth is
passed over up to its last character, whatever lists and objects it stands in.
-/

namespace SingleTape.Json

variable {cs rest space behind v : List Char} {c : Char} {stack : List Frame} {frame : Frame}

instance (cs : List Char) : Decidable (Spaces cs) :=
  decidable_of_iff (cs.all isSpace = true) List.all_eq_true

abbrev Spacing := { cs : List Char // Spaces cs }

def quoted (gs : List Glyph) : List Char := '"' :: (glyphText gs ++ ['"'])

structure Element where
  front : Spacing
  value : List Char
  back : Spacing

def Element.text (e : Element) : List Char := e.front ++ (e.value ++ e.back)

structure Member where
  front : Spacing
  key : List Glyph
  mid : Spacing
  gap : Spacing
  value : List Char
  back : Spacing

def Member.text (m : Member) : List Char :=
  m.front ++ (quoted m.key ++ (m.mid ++ ':' :: (m.gap ++ (m.value ++ m.back))))

def listText (es : List Element) (inner : Spacing) : List Char :=
  '[' :: (List.intercalate [','] (es.map Element.text) ++ (inner ++ [']']))

def objectText (ms : List Member) (inner : Spacing) : List Char :=
  '{' :: (List.intercalate [','] (ms.map Member.text) ++ (inner ++ ['}']))

inductive IsValue : List Char → Prop
  | null : IsValue "null".toList
  | bool (b : Bool) : IsValue (writeBool b)
  | number {n : Numeral} {cs : List Char} : n.Signed cs → IsValue cs
  | text (gs : List Glyph) : IsValue (quoted gs)
  | list {es : List Element} (inner : Spacing) :
      (∀ e ∈ es, IsValue e.value) → IsValue (listText es inner)
  | object {ms : List Member} (inner : Spacing) :
      (∀ m ∈ ms, IsValue m.value) → IsValue (objectText ms inner)

theorem quoted_append (gs : List Glyph) (rest : List Char) :
    quoted gs ++ rest = '"' :: (glyphText gs ++ '"' :: rest) := by
  simp [quoted]

theorem Element.text_append (e : Element) (rest : List Char) :
    e.text ++ rest = e.front ++ (e.value ++ (e.back ++ rest)) := by
  simp [text]

theorem Member.text_append (m : Member) (rest : List Char) :
    m.text ++ rest = m.front ++ '"' :: (glyphText m.key ++
      '"' :: (m.mid ++ ':' :: (m.gap ++ (m.value ++ (m.back ++ rest))))) := by
  simp [text, quoted]

theorem listText_append (es : List Element) (inner : Spacing) (rest : List Char) :
    listText es inner ++ rest =
      '[' :: (List.intercalate [','] (es.map Element.text) ++ (inner ++ ']' :: rest)) := by
  simp [listText]

theorem objectText_append (ms : List Member) (inner : Spacing) (rest : List Char) :
    objectText ms inner ++ rest =
      '{' :: (List.intercalate [','] (ms.map Member.text) ++ (inner ++ '}' :: rest)) := by
  simp [objectText]

theorem Numeral.Signed.exists_first {n : Numeral} (h : n.Signed cs) :
    ∃ c rest, cs = c :: rest ∧ (c = '-' ∨ c.isDigit = true) := by
  obtain ⟨digits, htext, rfl⟩ := h
  by_cases hn : n.negative = true
  · exact ⟨'-', digits, if_pos hn, .inl rfl⟩
  · obtain ⟨c, rest, rfl, hc⟩ := htext.exists_digit
    exact ⟨c, rest, if_neg hn, .inr hc⟩

theorem IsValue.valued (h : IsValue v) : Valued v := by
  cases h with
  | null => exact ⟨_, _, rfl, rfl, by decide⟩
  | bool b => cases b <;> exact ⟨_, _, rfl, rfl, by decide⟩
  | number h =>
    obtain ⟨c, rest, rfl, hc⟩ := h.exists_first
    refine ⟨c, rest, rfl, ?_, ?_⟩
    · rcases hc with rfl | hc
      · rfl
      · exact isSpace_of_isDigit hc
    · rintro rfl
      simp at hc
  | text gs => exact ⟨_, _, rfl, rfl, by decide⟩
  | list inner h => exact ⟨_, _, rfl, rfl, by decide⟩
  | object inner h => exact ⟨_, _, rfl, rfl, by decide⟩

def Frame.opening : Frame → Char
  | list => '['
  | object => '{'

theorem skipRest_open (h : skipSpace cs = frame.opening :: rest) :
    skipRest .value stack cs = skipRest .first (frame :: stack) rest := by
  cases frame with
  | list =>
    change skipSpace cs = '[' :: rest at h
    rw [skipRest]
    split <;> simp_all
  | object =>
    change skipSpace cs = '{' :: rest at h
    rw [skipRest]
    split <;> simp_all

theorem skipRest_scalar (h : skipSpace cs = c :: rest) (hlist : c ≠ '[') (hobject : c ≠ '{')
    (hscalar : skipScalar (c :: rest) = .ok behind) :
    skipRest .value stack cs = skipRest .next stack behind := by
  rw [skipRest]
  split
  · next h' =>
    cases h.symm.trans h'
    exact absurd rfl hlist
  · next h' =>
    cases h.symm.trans h'
    exact absurd rfl hobject
  · rw [← h] at hscalar
    split
    · next h' =>
      cases hscalar.symm.trans h'
      rfl
    · next h' => cases hscalar.symm.trans h'

theorem skipRest_first_closing (h : skipSpace cs = frame.closing :: rest) :
    skipRest .first (frame :: stack) cs = skipRest .next stack rest := by
  rw [skipRest.eq_def .first (frame :: stack) cs]
  dsimp only
  split
  · next h' => cases h.symm.trans h'
  · next h' =>
    cases h.symm.trans h'
    exact if_pos rfl

theorem skipRest_next_closing (h : skipSpace cs = frame.closing :: rest) :
    skipRest .next (frame :: stack) cs = skipRest .next stack rest := by
  rw [skipRest.eq_def .next (frame :: stack) cs]
  dsimp only
  split
  · next h' => cases h.symm.trans h'
  · next h' =>
    cases h.symm.trans h'
    exact if_pos rfl

theorem skipRest_first_element (h : skipSpace cs = c :: rest) (hc : c ≠ ']') :
    skipRest .first (.list :: stack) cs = skipRest .value (.list :: stack) cs := by
  rw [skipRest.eq_def .first (.list :: stack) cs]
  dsimp only
  split
  · next h' => cases h.symm.trans h'
  · next h' =>
    cases h.symm.trans h'
    exact if_neg hc

theorem skipRest_next_element (h : skipSpace cs = ',' :: rest) :
    skipRest .next (.list :: stack) cs = skipRest .value (.list :: stack) rest := by
  rw [skipRest.eq_def .next (.list :: stack) cs]
  dsimp only
  split
  · next h' => cases h.symm.trans h'
  · next h' =>
    cases h.symm.trans h'
    rw [if_neg (by decide), if_pos rfl]

theorem skipRest_first_member (h : skipSpace cs = '"' :: rest) (hkey : skipKey cs = .ok v) :
    skipRest .first (.object :: stack) cs = skipRest .value (.object :: stack) v := by
  rw [skipRest.eq_def .first (.object :: stack) cs]
  dsimp only
  split
  · next h' => cases h.symm.trans h'
  · next h' =>
    cases h.symm.trans h'
    rw [if_neg (by decide)]
    split
    · next h' =>
      cases hkey.symm.trans h'
      rfl
    · next h' => cases hkey.symm.trans h'

theorem skipRest_next_member (h : skipSpace cs = ',' :: rest) (hkey : skipKey rest = .ok v) :
    skipRest .next (.object :: stack) cs = skipRest .value (.object :: stack) v := by
  rw [skipRest.eq_def .next (.object :: stack) cs]
  dsimp only
  split
  · next h' => cases h.symm.trans h'
  · next h' =>
    cases h.symm.trans h'
    rw [if_neg (by decide), if_pos rfl]
    split
    · next h' =>
      cases hkey.symm.trans h'
      rfl
    · next h' => cases hkey.symm.trans h'

theorem skipKey_member (hs : Spaces space) (gs : List Glyph) (mid : Spacing) (rest : List Char) :
    skipKey (space ++ '"' :: (glyphText gs ++ '"' :: (mid ++ ':' :: rest))) = .ok rest := by
  have hcolon : readColon (mid ++ ':' :: rest) = .ok rest := by
    rw [readColon, skipSpace_append mid.2, skipSpace_cons rfl]
    rfl
  rw [skipKey, skipSpace_append hs, skipSpace_cons rfl]
  simp only [skipText_glyphs, bind, Except.bind, hcolon]

theorem skipSpace_opening (hs : Spaces space) (frame : Frame) (rest : List Char) :
    skipSpace (space ++ frame.opening :: rest) = frame.opening :: rest := by
  rw [skipSpace_append hs]
  apply skipSpace_cons
  cases frame <;> rfl

theorem skipSpace_closing (hs : Spaces space) (frame : Frame) (rest : List Char) :
    skipSpace (space ++ frame.closing :: rest) = frame.closing :: rest := by
  rw [skipSpace_append hs]
  apply skipSpace_cons
  cases frame <;> rfl

/-- The text is passed over wherever a value may stand. -/
def Skipped (v : List Char) : Prop :=
  ∀ ⦃stack : List Frame⦄ ⦃space behind : List Char⦄, Spaces space → Ended behind →
    skipRest .value stack (space ++ (v ++ behind)) = skipRest .next stack behind

theorem skipped_scalar (hspace : isSpace c = false) (hlist : c ≠ '[') (hobject : c ≠ '{')
    (h : ∀ ⦃behind⦄, Ended behind → skipScalar (c :: (rest ++ behind)) = .ok behind) :
    Skipped (c :: rest) := by
  intro stack space behind hs hb
  apply skipRest_scalar _ hlist hobject (h hb)
  rw [skipSpace_append hs, List.cons_append, skipSpace_cons hspace]

theorem skipped_null : Skipped "null".toList :=
  skipped_scalar rfl (by decide) (by decide) fun behind _ =>
    Reader.readWordRest_append ['u', 'l', 'l'] behind

theorem skipped_bool (b : Bool) : Skipped (writeBool b) := by
  cases b with
  | true => exact skipped_scalar rfl (by decide) (by decide) fun behind _ =>
      Reader.readWordRest_append ['r', 'u', 'e'] behind
  | false => exact skipped_scalar rfl (by decide) (by decide) fun behind _ =>
      Reader.readWordRest_append ['a', 'l', 's', 'e'] behind

theorem skipped_quoted (gs : List Glyph) : Skipped (quoted gs) :=
  skipped_scalar rfl (by decide) (by decide) fun behind _ => by
    rw [List.append_assoc]
    exact skipText_glyphs gs behind

theorem skipScalar_digit (h : c.isDigit = true) (cs : List Char) : skipScalar (c :: cs) =
    (readNumeral .badNumber false (c :: cs)).map fun read => read.2 := by
  rw [skipScalar, if_pos h]
  · cases readNumeral .badNumber false (c :: cs) <;> rfl
  all_goals
    rintro rfl
    simp at h

theorem skipped_number {n : Numeral} (h : n.Signed v) : Skipped v := by
  obtain ⟨digits, htext, rfl⟩ := h
  cases hn : n.negative with
  | true =>
    apply skipped_scalar rfl (by decide) (by decide)
    intro behind hb
    have hread : readNumeral .badNumber n.negative (digits ++ behind) = .ok (n, behind) :=
      htext.readNumeral hb
    rw [hn] at hread
    simp only [skipScalar, hread, bind, Except.bind]
  | false =>
    obtain ⟨c, rest, rfl, hc⟩ := htext.exists_digit
    apply skipped_scalar (isSpace_of_isDigit hc)
    · rintro rfl
      cases hc
    · rintro rfl
      cases hc
    · intro behind hb
      have hread : readNumeral .badNumber n.negative (c :: rest ++ behind) = .ok (n, behind) :=
        htext.readNumeral hb
      rw [hn, List.cons_append] at hread
      rw [skipScalar_digit hc, hread]
      rfl

/-- Behind an element of a list, the further ones are passed over up to the end of the list. -/
theorem skipRest_elements {es : List Element} (h : ∀ e ∈ es, Skipped e.value)
    (hs : Spaces space) (inner : Spacing) : skipRest .next (.list :: stack)
      (space ++ ((es.map Element.text).flatMap (',' :: ·) ++ (inner ++ ']' :: behind))) =
        skipRest .next stack behind := by
  induction es generalizing space with
  | nil =>
    apply skipRest_next_closing
    rw [skipSpace_append hs]
    exact skipSpace_closing inner.2 .list behind
  | cons e es ih =>
    obtain ⟨he, hes⟩ := List.forall_mem_cons.mp h
    have hended := ended_spaces e.back.2
      (ended_commas (es.map Element.text) (ended_spaces inner.2 (ended_bracket behind)))
    rw [List.map_cons, List.flatMap_cons, List.append_assoc, List.cons_append, e.text_append,
      skipRest_next_element (by rw [skipSpace_append hs, skipSpace_cons rfl]),
      he e.front.2 hended, ih hes e.back.2]

theorem skipRest_members {ms : List Member} (h : ∀ m ∈ ms, Skipped m.value) (hs : Spaces space)
    (inner : Spacing) : skipRest .next (.object :: stack)
      (space ++ ((ms.map Member.text).flatMap (',' :: ·) ++ (inner ++ '}' :: behind))) =
        skipRest .next stack behind := by
  induction ms generalizing space with
  | nil =>
    apply skipRest_next_closing
    rw [skipSpace_append hs]
    exact skipSpace_closing inner.2 .object behind
  | cons m ms ih =>
    obtain ⟨hm, hms⟩ := List.forall_mem_cons.mp h
    have hended := ended_spaces m.back.2
      (ended_commas (ms.map Member.text) (ended_brace inner.2 behind))
    rw [List.map_cons, List.flatMap_cons, List.append_assoc, List.cons_append, m.text_append,
      skipRest_next_member (by rw [skipSpace_append hs, skipSpace_cons rfl])
        (skipKey_member m.front.2 m.key m.mid _),
      hm m.gap.2 hended, ih hms m.back.2]

theorem skipped_list {es : List Element} (inner : Spacing) (hv : ∀ e ∈ es, Valued e.value)
    (h : ∀ e ∈ es, Skipped e.value) : Skipped (listText es inner) := by
  intro stack space behind hs _
  rw [listText_append]
  refine (skipRest_open (skipSpace_opening hs .list _)).trans ?_
  cases es with
  | nil => exact skipRest_first_closing (skipSpace_closing inner.2 .list behind)
  | cons e es =>
    obtain ⟨he, hes⟩ := List.forall_mem_cons.mp h
    obtain ⟨c, rest, hc, hspace, hend⟩ := hv e List.mem_cons_self
    have hended := ended_spaces e.back.2
      (ended_commas (es.map Element.text) (ended_spaces inner.2 (ended_bracket behind)))
    have hfirst (tail : List Char) :
        skipSpace (e.front ++ (e.value ++ tail)) = c :: (rest ++ tail) := by
      rw [skipSpace_append e.front.2, hc, List.cons_append, skipSpace_cons hspace]
    rw [List.map_cons, intercalate_comma, List.append_assoc, e.text_append,
      skipRest_first_element (hfirst _) hend, he e.front.2 hended, skipRest_elements hes e.back.2]

theorem skipped_object {ms : List Member} (inner : Spacing) (h : ∀ m ∈ ms, Skipped m.value) :
    Skipped (objectText ms inner) := by
  intro stack space behind hs _
  rw [objectText_append]
  refine (skipRest_open (skipSpace_opening hs .object _)).trans ?_
  cases ms with
  | nil => exact skipRest_first_closing (skipSpace_closing inner.2 .object behind)
  | cons m ms =>
    obtain ⟨hm, hms⟩ := List.forall_mem_cons.mp h
    have hended := ended_spaces m.back.2
      (ended_commas (ms.map Member.text) (ended_brace inner.2 behind))
    have hquote (tail : List Char) : skipSpace (m.front ++ '"' :: tail) = '"' :: tail := by
      rw [skipSpace_append m.front.2, skipSpace_cons rfl]
    rw [List.map_cons, intercalate_comma, List.append_assoc, m.text_append,
      skipRest_first_member (hquote _) (skipKey_member m.front.2 m.key m.mid _),
      hm m.gap.2 hended, skipRest_members hms m.back.2]

/-- Any value is passed over. Inside of it strings need not be decodable. -/
theorem IsValue.skipped (h : IsValue v) : Skipped v := by
  induction h with
  | null => exact skipped_null
  | bool b => exact skipped_bool b
  | number h => exact skipped_number h
  | text gs => exact skipped_quoted gs
  | list inner h ih => exact skipped_list inner (fun e he => (h e he).valued) ih
  | object inner h ih => exact skipped_object inner ih

theorem IsValue.skipValue (h : IsValue v) (hs : Spaces space) (hb : Ended behind) :
    skipValue (space ++ (v ++ behind)) = .ok behind := by
  rw [Json.skipValue, h.skipped hs hb, skipRest]

end SingleTape.Json
