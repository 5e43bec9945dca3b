import Mathlib.Data.List.Forall2
import SingleTape.Json.Shape
import SingleTape.Proofs.Json.Numbers
import SingleTape.Proofs.Json.Strings

/-!
Values inside a longer text. A reader takes a text for a value if it does so wherever the text
stands; this is kept by everything readers are made from.
-/

namespace SingleTape.Json

variable {α β : Type} {r : Reader α} {a : α} {b : β}
variable {space text cs rest behind : List Char} {c : Char} {wanted : Wanted}

def Spaces (cs : List Char) : Prop := ∀ c ∈ cs, isSpace c = true

theorem spaces_nil : Spaces [] := by
  intro c hc
  cases hc

theorem spaces_cons : Spaces (c :: cs) ↔ isSpace c = true ∧ Spaces cs := List.forall_mem_cons

theorem skipSpace_append (h : Spaces space) (cs : List Char) :
    skipSpace (space ++ cs) = skipSpace cs :=
  List.dropWhile_append_of_pos h

theorem isSpace_of_isDigit (h : c.isDigit = true) : isSpace c = false := by
  by_contra hs
  simp only [isSpace, Bool.not_eq_false, Bool.or_eq_true, beq_iff_eq] at hs
  rcases hs with ((rfl | rfl) | rfl) | rfl
  all_goals exact absurd h (by decide)

theorem skipSpace_cons (h : isSpace c = false) (cs : List Char) : skipSpace (c :: cs) = c :: cs := by
  simp [skipSpace, h]

theorem skipSpace_append_right (h : skipSpace cs = c :: rest) (behind : List Char) :
    skipSpace (cs ++ behind) = c :: (rest ++ behind) := by
  rw [skipSpace] at h
  rw [skipSpace, List.dropWhile_append, h]
  rfl

namespace Reader

/-- The reader takes this text for the value. White space in front of it is passed over; what is
behind it is left alone, if it does not go on like a number. -/
def Reads (r : Reader α) (text : List Char) (a : α) : Prop :=
  ∀ ⦃space behind : List Char⦄, Spaces space → Ended behind →
    r.run (space ++ (text ++ behind)) = .ok (a, behind)

theorem Reads.refine {f : α → Except Defect β} (h : r.Reads text a) (hf : f a = .ok b) :
    (r.refine f).Reads text b := by
  intro space behind hs hb
  simp only [Reader.refine, h hs hb, hf, bind, Except.bind]

theorem Reads.map (h : r.Reads text a) (f : α → β) : (r.map f).Reads text (f a) := h.refine rfl

theorem Reads.document (h : r.Reads text a) : r.document (String.ofList text) = .ok a := by
  have hrun : r.run text = .ok (a, []) := by
    have := h spaces_nil ended_nil
    rwa [List.nil_append, List.append_nil] at this
  rw [Reader.document, String.toList_ofList, hrun]
  rfl

theorem reads_text (s : String) : Reader.text.Reads (writeText s) s := by
  intro space behind hs _
  change takeText (space ++ (writeText s ++ behind)) = _
  rw [takeText, skipSpace_append hs, writeText_append, skipSpace_cons rfl]
  exact readText_escaped s behind

theorem readWordRest_append (word behind : List Char) :
    readWordRest word (word ++ behind) = .ok behind := by
  induction word with
  | nil => rw [List.nil_append, readWordRest]
  | cons c word ih => rw [List.cons_append, readWordRest, if_pos rfl, ih]

theorem reads_bool (b : Bool) : Reader.bool.Reads (writeBool b) b := by
  intro space behind hs _
  change takeBool (space ++ (writeBool b ++ behind)) = _
  rw [takeBool, skipSpace_append hs]
  cases b with
  | false =>
    change Except.bind (readWordRest ['a', 'l', 's', 'e'] (['a', 'l', 's', 'e'] ++ behind)) _ = _
    rw [readWordRest_append]
    rfl
  | true =>
    change Except.bind (readWordRest ['r', 'u', 'e'] (['r', 'u', 'e'] ++ behind)) _ = _
    rw [readWordRest_append]
    rfl

theorem reads_number {n : Number} (h : takeNumber wanted text = .ok (n, [])) :
    (Reader.number wanted).Reads text n := by
  intro space behind hs hb
  change takeNumber wanted (space ++ (text ++ behind)) = _
  rw [takeNumber, skipSpace_append hs]
  unfold takeNumber at h
  split at h
  · next rest hsign =>
    rw [skipSpace_append_right hsign]
    exact readNumber_append h hb
  · next c rest hplain hc =>
    rw [skipSpace_append_right hc]
    by_cases hd : c.isDigit = true
    · rw [if_pos hd] at h
      simp only [hd]
      exact readNumber_append h hb
    · rw [if_neg hd] at h
      cases h
  · cases h

theorem takeNumber_digit (h : c.isDigit = true) (cs : List Char) :
    takeNumber wanted (c :: cs) = readNumber false (c :: cs) := by
  rw [takeNumber, skipSpace_cons (isSpace_of_isDigit h)]
  split
  · next hsign =>
    cases hsign
    cases h
  · next hc =>
    cases hc
    exact if_pos h
  · next hc => cases hc

theorem takeNumber_integer {i : Int} (hlow : Int64.minValue.toInt ≤ i) (hhigh : i < UInt64.size) :
    takeNumber wanted (writeInteger i) = .ok (.integer i, []) := by
  rw [writeInteger, Decimal.integer]
  by_cases hi : i < 0
  · have hv : -(i.natAbs : Int) = i := by omega
    have h := readNumber_negative (n := i.natAbs) (by omega) (by omega)
    rw [hv] at h
    rw [if_pos hi, takeNumber, skipSpace_cons rfl]
    exact h
  · have hv : (i.natAbs : Int) = i := by omega
    have h := readNumber_natural (n := i.natAbs) (by omega)
    rw [hv] at h
    rw [if_neg hi]
    obtain ⟨d, ds, hd⟩ := List.exists_cons_of_ne_nil (natural_ne_nil i.natAbs)
    have hdigit : d.isDigit = true := isDigit_of_mem_natural (hd ▸ List.mem_cons_self)
    rw [hd] at h ⊢
    rw [takeNumber_digit hdigit]
    exact h

theorem reads_integerIn {low high i : Int} (hi : low ≤ i ∧ i ≤ high)
    (hlow : Int64.minValue.toInt ≤ i) (hhigh : i < UInt64.size) :
    (Reader.integerIn wanted low high).Reads (writeInteger i) i :=
  (reads_number (takeNumber_integer hlow hhigh)).refine (if_pos hi)

theorem reads_signed64 (x : Int64) : Reader.signed64.Reads (writeInteger x.toInt) x.toInt := by
  apply reads_integerIn ⟨x.minValue_le_toInt, x.toInt_le⟩ x.minValue_le_toInt
  have := x.toInt_lt
  have hsize : UInt64.size = 18446744073709551616 := rfl
  omega

theorem reads_unsigned64 {n : Nat} (h : n < UInt64.size) :
    Reader.unsigned64.Reads (writeInteger n) n := by
  have hmin : Int64.minValue.toInt = -9223372036854775808 := rfl
  have hn : Reader.Reads (Reader.integerIn .unsigned64 0 (UInt64.size - 1)) (writeInteger n) n :=
    reads_integerIn (by omega) (by omega) (by omega)
  have hmap := hn.map Int.toNat
  rwa [Int.toNat_natCast] at hmap

theorem reads_double {x : Float} (h : Reader.double.run text = .ok (x, [])) :
    Reader.double.Reads text x := by
  obtain ⟨⟨n, rest⟩, hn, h⟩ := exists_of_bind_eq_ok h
  obtain ⟨y, hy, h⟩ := exists_of_bind_eq_ok h
  cases hy
  cases h
  exact (reads_number hn).map _

theorem exists_of_double {x : Float} (h : Reader.double.run text = .ok (x, rest)) :
    ∃ c cs, skipSpace text = c :: cs ∧ c ≠ 'n' := by
  obtain ⟨⟨n, r⟩, hn, -⟩ := exists_of_bind_eq_ok h
  change takeNumber .double text = _ at hn
  unfold takeNumber at hn
  split at hn
  · next cs hsign => exact ⟨'-', cs, hsign, by decide⟩
  · next c cs _ hc =>
    refine ⟨c, cs, hc, ?_⟩
    rintro rfl
    cases hn
  · cases hn

theorem reads_null_orNull (a : α) (r : Reader α) : (r.orNull a).Reads "null".toList a := by
  intro space behind hs _
  simp only [Reader.orNull, skipSpace_append hs]
  change Except.bind (readWordRest ['u', 'l', 'l'] (['u', 'l', 'l'] ++ behind)) _ = _
  rw [readWordRest_append]
  rfl

theorem Reads.orNull (h : r.Reads text a) (null : α) (htext : skipSpace text = c :: rest)
    (hc : c ≠ 'n') : (r.orNull null).Reads text a := by
  intro space behind hs hb
  simp only [Reader.orNull, skipSpace_append hs, skipSpace_append_right htext, h hs hb]
  split
  · next hnull =>
    cases hnull
    exact absurd rfl hc
  · rfl

theorem reads_variant {named : List (String × α)} {name : String} (h : named.lookup name = some a) :
    (Reader.variant named).Reads (writeText name) a := by
  intro space behind hs _
  have hquote : isSpace '"' = false := rfl
  simp only [Reader.variant, skipSpace_append hs, writeText_append, skipSpace_cons hquote,
    readText_escaped, lookupVariant, h, bind, Except.bind]

end Reader

theorem intercalate_comma (part : List Char) (parts : List (List Char)) :
    List.intercalate [','] (part :: parts) = part ++ parts.flatMap (',' :: ·) := by
  induction parts generalizing part with
  | nil => simp
  | cons next parts ih =>
    rw [List.intercalate_cons_cons, ih, List.flatMap_cons, List.append_assoc]
    rfl

theorem ended_commas (parts : List (List Char)) (h : Ended behind) :
    Ended (parts.flatMap (',' :: ·) ++ behind) := by
  cases parts with
  | nil => exact h
  | cons part parts =>
    rw [List.flatMap_cons, List.append_assoc, List.cons_append, ended_cons]
    decide

/-- The text begins with a value: not with white space, nor with the end of a list. -/
def Valued (cs : List Char) : Prop := ∃ c rest, cs = c :: rest ∧ isSpace c = false ∧ c ≠ ']'

theorem valued_writeText (s : String) : Valued (writeText s) :=
  ⟨'"', _, rfl, rfl, by decide⟩

theorem toElement_end (first : Bool) (rest : List Char) :
    toElement first (']' :: rest) = .ok none := by
  rw [toElement, skipSpace_cons rfl]
  rfl

theorem Valued.toElement_first (h : Valued cs) (rest : List Char) :
    toElement true (cs ++ rest) = .ok (some (cs ++ rest)) := by
  obtain ⟨c, cs, rfl, hs, hend⟩ := h
  rw [List.cons_append, toElement, skipSpace_cons hs]
  simp

theorem Valued.toElement_comma (h : Valued cs) (rest : List Char) :
    toElement false (',' :: (cs ++ rest)) = .ok (some (cs ++ rest)) := by
  obtain ⟨c, cs, rfl, hs, hend⟩ := h
  have hcomma : isSpace ',' = false := rfl
  rw [List.cons_append, toElement, skipSpace_cons hcomma]
  simp [skipSpace_cons hs, hend]

theorem readElements_end (taken : List α) (h : toElement taken.isEmpty cs = .ok none)
    (hend : readListEnd cs = .ok rest) : readElements r taken cs = .ok (taken.reverse, rest) := by
  unfold readElements
  split
  · next h' => cases h.symm.trans h'
  · rw [hend]
    rfl
  · next h' => cases h.symm.trans h'

theorem readElements_next (taken : List α) (h : toElement taken.isEmpty cs = .ok (some text))
    (hr : r.run text = .ok (a, rest)) :
    readElements r taken cs = readElements r (a :: taken) rest := by
  rw [readElements]
  split
  · next h' => cases h.symm.trans h'
  · next h' => cases h.symm.trans h'
  · next h' =>
    cases h.symm.trans h'
    split
    · next hr' => cases hr.symm.trans hr'
    · next hr' =>
      cases hr.symm.trans hr'
      rfl

theorem ended_bracket (behind : List Char) : Ended (']' :: behind) := by
  rw [ended_cons]
  decide

theorem readListEnd_bracket (behind : List Char) : readListEnd (']' :: behind) = .ok behind := by
  rw [readListEnd, skipSpace_cons rfl]
  rfl

/-- Behind an element that was read, the further ones have a comma each in front of them. -/
theorem readElements_commas {texts : List (List Char)} {as : List α}
    (h : List.Forall₂ r.Reads texts as) (hv : ∀ text ∈ texts, Valued text) (last : α)
    (taken : List α) (behind : List Char) :
    readElements r (last :: taken) (texts.flatMap (',' :: ·) ++ ']' :: behind) =
      .ok ((last :: taken).reverse ++ as, behind) := by
  induction h generalizing last taken with
  | nil =>
    rw [List.flatMap_nil, List.nil_append, List.append_nil]
    exact readElements_end _ (toElement_end _ behind) (readListEnd_bracket behind)
  | @cons text a texts as ha _ ih =>
    obtain ⟨hv, hvs⟩ := List.forall_mem_cons.mp hv
    have hrest := ended_commas texts (ended_bracket behind)
    have helement := hv.toElement_comma (texts.flatMap (',' :: ·) ++ ']' :: behind)
    rw [List.flatMap_cons, List.append_assoc, List.cons_append,
      readElements_next (last :: taken) helement (ha spaces_nil hrest), ih hvs]
    simp

theorem Reader.reads_list {texts : List (List Char)} {as : List α}
    (h : List.Forall₂ r.Reads texts as) (hv : ∀ text ∈ texts, Valued text) :
    (Reader.list r).Reads (writeList texts) as := by
  intro space behind hs _
  have hbracket : isSpace '[' = false := rfl
  simp only [Reader.list, skipSpace_append hs, writeList, List.cons_append, List.append_assoc,
    skipSpace_cons hbracket, List.nil_append]
  cases h with
  | nil => exact readElements_end [] (toElement_end true behind) (readListEnd_bracket behind)
  | @cons text a texts as ha hs =>
    obtain ⟨hv, hvs⟩ := List.forall_mem_cons.mp hv
    have hrest := ended_commas texts (ended_bracket behind)
    have helement := hv.toElement_first (texts.flatMap (',' :: ·) ++ ']' :: behind)
    rw [intercalate_comma, List.append_assoc,
      readElements_next [] helement (ha spaces_nil hrest), readElements_commas hs hvs]
    rfl

end SingleTape.Json
