import SingleTape.Text.Blank

/-!
Cutting a text at separators undoes joining pieces that have none in them.
-/

namespace SingleTape.Text

variable {sep : Char → Bool} {piece : List Char} {d : Char}

theorem pieces_cons_other {c : Char} (h : sep c = false) {cs p : List Char}
    {ps : List (List Char)} (hp : pieces sep cs = p :: ps) :
    pieces sep (c :: cs) = (c :: p) :: ps := by
  rw [pieces] at hp
  simp [pieces, h, hp]

theorem pieces_of_free (h : ∀ c ∈ piece, sep c = false) : pieces sep piece = [piece] := by
  induction piece with
  | nil => rfl
  | cons c piece ih =>
    obtain ⟨hc, hp⟩ := List.forall_mem_cons.mp h
    exact pieces_cons_other hc (ih hp)

theorem pieces_append (hd : sep d = true) (front rest : List Char) :
    pieces sep (front ++ d :: rest) = pieces sep front ++ pieces sep rest := by
  induction front with
  | nil => exact pieces_cons_sep hd rest
  | cons c front ih =>
    cases hc : sep c with
    | true => rw [List.cons_append, pieces_cons_sep hc, ih, pieces_cons_sep hc, List.cons_append]
    | false =>
      obtain ⟨p, ps, hp⟩ := List.exists_cons_of_ne_nil (pieces_ne_nil sep front)
      rw [hp, List.cons_append] at ih
      rw [List.cons_append, pieces_cons_other hc ih, pieces_cons_other hc hp, List.cons_append]

theorem length_pieces (sep : Char → Bool) (cs : List Char) :
    (pieces sep cs).length = cs.countP sep + 1 := by
  induction cs with
  | nil => rfl
  | cons c cs ih =>
    cases hc : sep c with
    | true => rw [pieces_cons_sep hc, List.length_cons, ih, List.countP_cons_of_pos hc]
    | false =>
      obtain ⟨p, ps, hp⟩ := List.exists_cons_of_ne_nil (pieces_ne_nil sep cs)
      rw [hp] at ih
      rw [pieces_cons_other hc hp, List.countP_cons_of_neg (by simp [hc]), ← ih,
        List.length_cons, List.length_cons]

theorem free_of_mem_pieces {cs : List Char} (h : piece ∈ pieces sep cs) :
    ∀ c ∈ piece, sep c = false := by
  induction cs generalizing piece with
  | nil =>
    rw [pieces_nil, List.mem_singleton] at h
    simp [h]
  | cons d cs ih =>
    cases hd : sep d with
    | true =>
      rw [pieces_cons_sep hd, List.mem_cons] at h
      rcases h with rfl | h
      · simp
      · exact ih h
    | false =>
      obtain ⟨first, rest, hp⟩ := List.exists_cons_of_ne_nil (pieces_ne_nil sep cs)
      rw [pieces_cons_other hd hp, List.mem_cons] at h
      rw [hp] at ih
      rcases h with rfl | h
      · exact List.forall_mem_cons.mpr ⟨hd, ih List.mem_cons_self⟩
      · exact ih (List.mem_cons_of_mem _ h)

theorem pieces_append_sep (h : ∀ c ∈ piece, sep c = false) (hd : sep d = true)
    (rest : List Char) : pieces sep (piece ++ d :: rest) = piece :: pieces sep rest := by
  rw [pieces_append hd, pieces_of_free h, List.singleton_append]

theorem pieces_intercalate {ps : List (List Char)} (hne : ps ≠ [])
    (h : ∀ piece ∈ ps, ∀ c ∈ piece, sep c = false) (hd : sep d = true) :
    pieces sep (List.intercalate [d] ps) = ps := by
  induction ps with
  | nil => exact absurd rfl hne
  | cons piece ps ih =>
    obtain ⟨hp, hps⟩ := List.forall_mem_cons.mp h
    cases ps with
    | nil =>
      rw [List.intercalate_singleton]
      exact pieces_of_free hp
    | cons next ps =>
      rw [List.intercalate_cons_cons, List.append_assoc, List.singleton_append,
        pieces_append_sep hp hd, ih (by simp) hps]

end SingleTape.Text
