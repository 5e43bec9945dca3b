import Mathlib.Data.List.Induction
import Mathlib.Data.List.Nodup
import SingleTape.Table

/-!
The representation invariant of a table: no request stands twice among the entries, and the index
names the place of each. A table that keeps it is a map, read off its entries by `stored?`.
-/

namespace SingleTape.Table

def keys (t : Table) : List Request := t.entries.toList.map (·.request)

def stored? (t : Table) (q : Request) : Option Response :=
  (t.entries.toList.find? fun i => i.request = q).map (·.response)

structure Sound (t : Table) : Prop where
  nodup : t.keys.Nodup
  index : ∀ q, t.index[q]? = t.keys.idxOf? q

variable {t : Table} {p q : Request} {r x : Response}

theorem getElem?_keys (t : Table) (slot : Nat) :
    t.keys[slot]? = t.entries[slot]?.map (·.request) := by
  simp [keys]

theorem stored?_eq_none_iff : t.stored? q = none ↔ q ∉ t.keys := by
  simp [stored?, keys]

theorem slot_unique (h : t.keys.Nodup) {i j : Nat} {a b : Instruction}
    (hi : t.entries[i]? = some a) (hj : t.entries[j]? = some b) (hab : a.request = b.request) :
    i = j := by
  have hki : t.keys[i]? = some a.request := by simp [getElem?_keys, hi]
  have hkj : t.keys[j]? = some a.request := by simp [getElem?_keys, hj, hab]
  have hlt : i < t.keys.length := (List.getElem?_eq_some_iff.mp hki).1
  exact (List.getElem?_inj hlt h).mp (hki.trans hkj.symm)

theorem stored?_eq_some_iff (h : t.keys.Nodup) :
    t.stored? q = some x ↔ ∃ slot : Nat, t.entries[slot]? = some ⟨q, x⟩ := by
  constructor
  · intro hs
    obtain ⟨⟨p, y⟩, hf, rfl⟩ := Option.map_eq_some_iff.mp hs
    have hp : p = q := by simpa using List.find?_some hf
    subst p
    obtain ⟨slot, hslot⟩ := List.mem_iff_getElem?.mp (List.mem_of_find?_eq_some hf)
    exact ⟨slot, by simpa using hslot⟩
  · rintro ⟨slot, hslot⟩
    have hmem : (⟨q, x⟩ : Instruction) ∈ t.entries.toList :=
      List.mem_iff_getElem?.mpr ⟨slot, by simpa using hslot⟩
    cases hf : t.entries.toList.find? fun i => i.request = q with
    | none => simpa using List.find?_eq_none.mp hf _ hmem
    | some a =>
      have ha : a.request = q := by simpa using List.find?_some hf
      obtain ⟨i, hi⟩ := List.mem_iff_getElem?.mp (List.mem_of_find?_eq_some hf)
      have hi : t.entries[i]? = some a := by simpa using hi
      have := slot_unique h hi hslot ha
      subst i
      have : a = ⟨q, x⟩ := Option.some.inj (hi.symm.trans hslot)
      simp [stored?, hf, this]

theorem Sound.empty : Sound empty := by
  constructor
  · simp [keys, Table.empty]
  · simp [keys, Table.empty]

/-- What the index answers: the place of the request, or nothing if there is no entry for it. -/
theorem Sound.index_cases (h : t.Sound) (q : Request) :
    (∃ slot x, t.index[q]? = some slot ∧ t.entries[slot]? = some ⟨q, x⟩) ∨
      (t.index[q]? = none ∧ q ∉ t.keys) := by
  cases hq : t.index[q]? with
  | none => exact Or.inr ⟨rfl, List.idxOf?_eq_none_iff.mp ((h.index q).symm.trans hq)⟩
  | some slot =>
    obtain ⟨hlt, hk, -⟩ := List.idxOf?_eq_some_iff.mp ((h.index q).symm.trans hq)
    have hk : t.keys[slot]? = some q := List.getElem?_eq_some_iff.mpr ⟨hlt, hk⟩
    rw [getElem?_keys] at hk
    obtain ⟨⟨p, x⟩, he, rfl⟩ := Option.map_eq_some_iff.mp hk
    exact Or.inl ⟨slot, x, rfl, he⟩

theorem Sound.index_eq_some_iff (h : t.Sound) {slot : Nat} :
    t.index[q]? = some slot ↔ t.keys[slot]? = some q := by
  rw [h.index]
  constructor
  · intro hi
    obtain ⟨hlt, hq, -⟩ := List.idxOf?_eq_some_iff.mp hi
    exact List.getElem?_eq_some_iff.mpr ⟨hlt, hq⟩
  · intro hk
    obtain ⟨hlt, hq⟩ := List.getElem?_eq_some_iff.mp hk
    refine List.idxOf?_eq_some_iff.mpr ⟨hlt, hq, fun j hj hjq => ?_⟩
    have hjs := (h.nodup.getElem_inj_iff).mp (hjq.trans hq.symm)
    omega

theorem Sound.respond (h : t.Sound) (q : Request) :
    t.respond q = .ok ((t.stored? q).getD q.unanswered) := by
  rcases h.index_cases q with ⟨slot, x, hi, he⟩ | ⟨hi, hn⟩
  · have hs := (stored?_eq_some_iff h.nodup).mpr ⟨slot, he⟩
    simp [Table.respond, hi, he, hs]
  · simp [Table.respond, hi, stored?_eq_none_iff.mpr hn]

theorem Sound.contains (h : t.Sound) (q : Request) : t.contains q = true ↔ q ∈ t.keys := by
  rw [Table.contains, Std.HashMap.contains_eq_isSome_getElem?, h.index, List.isSome_idxOf?]

/-- Setting a response overwrites the entry of a known request and pushes one for a new request. -/
theorem Sound.set_cases (h : t.Sound) (q : Request) (r : Response) :
    (∃ slot x, t.entries[slot]? = some ⟨q, x⟩ ∧
      t.set q r = (some x, { t with entries := t.entries.setIfInBounds slot ⟨q, r⟩ })) ∨
      (q ∉ t.keys ∧ t.set q r = (none, t.push q r)) := by
  rcases h.index_cases q with ⟨slot, x, hi, he⟩ | ⟨hi, hn⟩
  · obtain ⟨hlt, hx⟩ := Array.getElem?_eq_some_iff.mp he
    refine Or.inl ⟨slot, x, he, ?_⟩
    simp [Table.set, hi, hlt, hx, Array.setIfInBounds]
  · exact Or.inr ⟨hn, by simp [Table.set, hi]⟩

theorem Sound.set_fst (h : t.Sound) (q : Request) (r : Response) :
    (t.set q r).1 = t.stored? q := by
  rcases h.set_cases q r with ⟨slot, x, he, hs⟩ | ⟨hn, hs⟩
  · rw [hs, (stored?_eq_some_iff h.nodup).mpr ⟨slot, he⟩]
  · rw [hs, stored?_eq_none_iff.mpr hn]

theorem keys_push (t : Table) (q : Request) (r : Response) : (t.push q r).keys = t.keys ++ [q] := by
  simp [keys, push]

theorem Sound.keys_set (h : t.Sound) (q : Request) (r : Response) :
    (t.set q r).2.keys = if q ∈ t.keys then t.keys else t.keys ++ [q] := by
  rcases h.set_cases q r with ⟨slot, x, he, hs⟩ | ⟨hn, hs⟩
  · have hk : t.keys[slot]? = some q := by simp [getElem?_keys, he]
    obtain ⟨hlt, hq⟩ := List.getElem?_eq_some_iff.mp hk
    have hm : q ∈ t.keys := List.mem_of_getElem? hk
    rw [hs, if_pos hm]
    calc
      _ = t.keys.set slot q := by simp [keys, List.map_set]
      _ = t.keys.set slot t.keys[slot] := by rw [hq]
      _ = t.keys := List.set_getElem_self hlt
  · rw [hs, if_neg hn, keys_push]

theorem Sound.nodup_set (h : t.Sound) (q : Request) (r : Response) :
    (t.set q r).2.keys.Nodup := by
  rw [h.keys_set]
  by_cases hq : q ∈ t.keys
  · rw [if_pos hq]
    exact h.nodup
  · rw [if_neg hq]
    exact List.concat_eq_append ▸ h.nodup.concat hq

theorem stored?_push (t : Table) (p q : Request) (r : Response) (hq : q ∉ t.keys) :
    (t.push q r).stored? p = if p = q then some r else t.stored? p := by
  by_cases hp : p = q
  · subst p
    have hn := stored?_eq_none_iff.mpr hq
    simp only [stored?, Option.map_eq_none_iff] at hn
    simp [stored?, push, List.find?_append, hn]
  · simp [stored?, push, List.find?_append, hp, Ne.symm hp]

theorem Sound.stored?_set (h : t.Sound) (p q : Request) (r : Response) :
    (t.set q r).2.stored? p = if p = q then some r else t.stored? p := by
  rcases h.set_cases q r with ⟨slot, y, he, hs⟩ | ⟨hq, hs⟩
  · have hlt : slot < t.entries.size := (Array.getElem?_eq_some_iff.mp he).1
    have hn := h.nodup_set q r
    rw [hs] at hn ⊢
    apply Option.ext
    intro x
    rw [stored?_eq_some_iff hn]
    simp only [Array.getElem?_setIfInBounds]
    by_cases hp : p = q
    · subst p
      rw [if_pos rfl]
      constructor
      · rintro ⟨i, hi⟩
        by_cases his : slot = i
        · subst i
          simpa [hlt] using hi
        · rw [if_neg his] at hi
          exact absurd (slot_unique h.nodup he hi rfl) his
      · intro hx
        exact ⟨slot, by simpa [hlt] using hx⟩
    · rw [if_neg hp, stored?_eq_some_iff h.nodup]
      constructor
      · rintro ⟨i, hi⟩
        by_cases his : slot = i
        · subst i
          simp [hlt, Ne.symm hp] at hi
        · exact ⟨i, by simpa [his] using hi⟩
      · rintro ⟨i, hi⟩
        have his : slot ≠ i := by
          rintro rfl
          simp only [he, Option.some.injEq, Instruction.mk.injEq] at hi
          exact hp hi.1.symm
        exact ⟨i, by simpa [his] using hi⟩
  · rw [hs, stored?_push t p q r hq]

theorem index_push (h : t.Sound) (p q : Request) (r : Response) (hq : q ∉ t.keys) :
    (t.push q r).index[p]? = (t.push q r).keys.idxOf? p := by
  have hlen : t.entries.size = t.keys.length := by simp [keys]
  rw [keys_push, push, Std.HashMap.getElem?_insert, h.index, List.idxOf?, List.findIdx?_append,
    ← List.idxOf?]
  by_cases hp : q = p
  · subst p
    simp [List.idxOf?_eq_none_iff.mpr hq, hlen]
  · simp [hp]

theorem Sound.set (h : t.Sound) (q : Request) (r : Response) : (t.set q r).2.Sound := by
  refine ⟨h.nodup_set q r, fun p => ?_⟩
  rcases h.set_cases q r with ⟨slot, x, he, hs⟩ | ⟨hq, hs⟩
  · have hm : q ∈ t.keys := List.mem_of_getElem? (i := slot) (by simp [getElem?_keys, he])
    rw [h.keys_set, if_pos hm, hs]
    exact h.index p
  · rw [hs]
    exact index_push h p q r hq

/-- Two sound tables are the same if their entries are: the index follows from them. -/
theorem Sound.beq_iff {u : Table} (ht : t.Sound) (hu : u.Sound) :
    (t == u) = true ↔ t.entries = u.entries := by
  change (t.entries == u.entries && t.index == u.index) = true ↔ _
  rw [Bool.and_eq_true, beq_iff_eq]
  refine ⟨fun h => h.1, fun h => ⟨h, ?_⟩⟩
  have hk : t.keys = u.keys := by rw [keys, h, keys]
  apply Std.HashMap.Equiv.beq
  apply Std.HashMap.Equiv.of_forall_getElem?_eq
  intro q
  rw [ht.index, hu.index, hk]

@[simp] theorem setAll_nil (t : Table) : t.setAll [] = ([], t) := rfl

theorem setAll_concat (t : Table) (is : List Instruction) (i : Instruction) :
    t.setAll (is ++ [i]) =
      ((t.setAll is).1 ++
          (if ((t.setAll is).2.set i.request i.response).1.isSome then [i.request] else []),
        ((t.setAll is).2.set i.request i.response).2) := by
  simp only [setAll, List.foldl_append, List.foldl_cons, List.foldl_nil]
  split <;> simp_all

theorem Sound.setAll (ht : t.Sound) (is : List Instruction) :
    (t.setAll is).2.Sound := by
  induction is using List.reverseRecOn with
  | nil => exact ht
  | append_singleton is i ih =>
    rw [setAll_concat]
    exact ih.set i.request i.response

theorem Sound.keys_prefix_set (ht : t.Sound) (q : Request) (r : Response) :
    t.keys <+: (t.set q r).2.keys := by
  rw [ht.keys_set]
  split
  · exact List.prefix_refl _
  · exact List.prefix_append _ _

theorem Sound.keys_prefix_setAll (ht : t.Sound) (is : List Instruction) :
    t.keys <+: (t.setAll is).2.keys := by
  induction is using List.reverseRecOn with
  | nil => exact List.prefix_refl _
  | append_singleton is i ih =>
    rw [setAll_concat]
    exact ih.trans ((ht.setAll is).keys_prefix_set i.request i.response)

theorem load_ok {block : String} {is : List Instruction} (h : readInstructions block = .ok is)
    (t : Table) : t.load block = .ok (t.setAll is) := by
  rw [load, h]
  rfl

theorem load_error {block : String} {e : Error} (h : readInstructions block = .error e)
    (t : Table) : t.load block = .error e := by
  rw [load, h]
  rfl

end SingleTape.Table
