import SingleTape.Proofs.Instruction.Blocks
import SingleTape.Proofs.Table.History

/-!
Tables written out, one instruction a line in the order of their entries, and read back.
-/

namespace SingleTape.Table

def text (t : Table) : String := Grammar.blockText t.entries.toList

def Worded (t : Table) : Prop := ∀ i ∈ t.entries.toList, i.Worded

variable {t : Table} {block : String} {is : List Instruction}

theorem worded_empty : Worded empty := by
  simp [Worded, Table.empty]

theorem Sound.worded_set (h : t.Sound) (ht : t.Worded) {i : Instruction} (hi : i.Worded) :
    (t.set i.request i.response).2.Worded := by
  rcases h.set_cases i.request i.response with ⟨slot, x, -, hs⟩ | ⟨-, hs⟩
  · rw [hs]
    intro j hj
    rw [Array.toList_setIfInBounds] at hj
    rcases List.mem_or_eq_of_mem_set hj with hj | rfl
    · exact ht j hj
    · exact hi
  · rw [hs]
    intro j hj
    rw [push, Array.toList_push, List.mem_append, List.mem_singleton] at hj
    rcases hj with hj | rfl
    · exact ht j hj
    · exact hi

theorem Sound.worded_setAll (h : t.Sound) (ht : t.Worded) (hi : ∀ i ∈ is, i.Worded) :
    (t.setAll is).2.Worded := by
  induction is using List.reverseRecOn with
  | nil => exact ht
  | append_singleton is i ih =>
    rw [setAll_concat]
    have hfront := ih fun j hj => hi j (List.mem_append_left _ hj)
    exact (h.setAll is).worded_set hfront (hi i (by simp))

theorem setAll_empty (h : (is.map (·.request)).Nodup) :
    (empty.setAll is).1 = [] ∧ (empty.setAll is).2.entries.toList = is := by
  induction is using List.reverseRecOn with
  | nil => exact ⟨rfl, rfl⟩
  | append_singleton is i ih =>
    rw [List.map_append, List.map_singleton, List.nodup_append] at h
    obtain ⟨hfront, -, hnew⟩ := h
    obtain ⟨hr, he⟩ := ih hfront
    have hk : i.request ∉ (empty.setAll is).2.keys := by
      rw [keys, he]
      intro hm
      exact hnew _ hm _ (List.mem_singleton_self _) rfl
    have hs := (Sound.empty.setAll is).set_cases i.request i.response
    rcases hs with ⟨slot, x, hslot, -⟩ | ⟨-, hs⟩
    · exact absurd (List.mem_of_getElem? (by rw [getElem?_keys, hslot]; rfl)) hk
    · rw [setAll_concat, hs, hr]
      refine ⟨rfl, ?_⟩
      rw [push, Array.toList_push, he]

theorem loaded_worded {repeated : List Request} (h : empty.load block = .ok (repeated, t)) :
    t.Sound ∧ t.Worded := by
  cases hb : readInstructions block with
  | error e => cases (load_error hb empty).symm.trans h
  | ok is =>
    cases (load_ok hb empty).symm.trans h
    have hw := Grammar.worded_of_read hb
    exact ⟨Sound.empty.setAll is, Sound.empty.worded_setAll worded_empty hw⟩

theorem ofBlock_ok_iff :
    ofBlock block = .ok t ↔ ∃ repeated, empty.load block = .ok (repeated, t) := by
  rw [ofBlock]
  cases hl : empty.load block with
  | error e => simp [bind, Except.bind]
  | ok result =>
    cases result
    simp [bind, Except.bind]

/-- What reading the text of a table comes to: the same table, with no request overwritten. -/
structure ReadsBack (t : Table) : Prop where
  parsed : ∃ u, ofBlock t.text = .ok u ∧ (u == t) = true ∧ u.entries = t.entries
  loaded : ∃ u, empty.load t.text = .ok ([], u)

theorem Sound.readsBack (h : t.Sound) (ht : t.Worded) : t.ReadsBack := by
  obtain ⟨hr, he⟩ := setAll_empty h.nodup
  have hu : (Table.empty.setAll t.entries.toList).2.Sound := Sound.empty.setAll _
  have he := Array.toList_inj.mp he
  have hl : Table.empty.load t.text = .ok ([], (Table.empty.setAll t.entries.toList).2) := by
    rw [text, load_ok (Grammar.read_blockText ht), ← hr]
  exact ⟨⟨_, ofBlock_ok_iff.mpr ⟨[], hl⟩, (hu.beq_iff h).mpr he, he⟩, _, hl⟩

/-- Whatever was set, loaded and cleared: a table whose symbols are words is read back from its
text. The symbols of a table that was itself read are words. -/
theorem written_tables_read_back :
    (∀ ops, (built ops).Worded → (built ops).ReadsBack) ∧
      ∀ block t, (ofBlock block = .ok t ↔ ∃ repeated, empty.load block = .ok (repeated, t)) ∧
        (ofBlock block = .ok t → t.Worded ∧ t.ReadsBack) := by
  refine ⟨fun ops hw => (built_holds ops).sound.readsBack hw, fun block t => ⟨ofBlock_ok_iff, ?_⟩⟩
  intro h
  obtain ⟨repeated, hl⟩ := ofBlock_ok_iff.mp h
  obtain ⟨hs, hw⟩ := loaded_worded hl
  exact ⟨hw, hs.readsBack hw⟩

/-- The least and the greatest state in a table, and a block in which a request comes twice. -/
theorem extreme_states_read_back :
    (built [.load "7(a) => 0(b) S", .clear,
      .set ⟨Int64.minValue, "_"⟩ ⟨Int64.maxValue, "Z9", .left⟩]).ReadsBack ∧
    ∃ t, ofBlock "0(1)=>1(0)L\n\n 0 (1) => -1(1) S" = .ok t ∧ t.Worded ∧ t.ReadsBack := by
  constructor
  · apply written_tables_read_back.1
    have hq : Grammar.Word "_".toList := ⟨by decide, by simp⟩
    have hr : Grammar.Word "Z9".toList := ⟨by decide, by simp⟩
    have hw : Instruction.Worded ⟨⟨Int64.minValue, "_"⟩, ⟨Int64.maxValue, "Z9", .left⟩⟩ := ⟨hq, hr⟩
    exact Sound.empty.worded_set worded_empty hw
  · have hi : readInstructions "0(1)=>1(0)L\n\n 0 (1) => -1(1) S" =
        .ok [⟨⟨0, "1"⟩, ⟨1, "0", .left⟩⟩, ⟨⟨0, "1"⟩, ⟨-1, "1", .stay⟩⟩] := rfl
    have ht := ofBlock_ok_iff.mpr ⟨_, load_ok hi empty⟩
    exact ⟨_, ht, (written_tables_read_back.2 _ _).2 ht⟩

end SingleTape.Table
