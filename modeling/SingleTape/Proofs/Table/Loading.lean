import SingleTape.Proofs.Table.History

/-!
Loading a block at once. The last of its instructions for a request wins, requests keep the places
where they first came in, and the requests that were known already are told, one for each time.
-/

namespace SingleTape.Table

/-- The requests of a list that are not known, in the order of their first occurrence. -/
def newcomers (known qs : List Request) : List Request := (qs.filter (· ∉ known)).eraseDups

/-- The requests of a list that are known or stand further up in it as well, in order and one for
each time. -/
def recurring (known qs : List Request) : List Request :=
  (qs.zipIdx.filter fun (q, n) => q ∈ known ∨ q ∈ qs.take n).map Prod.fst

variable {t u : Table} {known qs : List Request} {q : Request}

theorem newcomers_concat (known qs : List Request) (q : Request) :
    newcomers known (qs ++ [q]) =
      newcomers known qs ++ if q ∈ known ∨ q ∈ qs then [] else [q] := by
  rw [newcomers, newcomers, List.filter_append]
  by_cases hk : q ∈ known
  · simp [hk]
  · have hs : [q].filter (· ∉ known) = [q] := by simp [hk]
    rw [hs, eraseDups_concat]
    by_cases hq : q ∈ qs <;> simp [hk, hq]

theorem recurring_concat (known qs : List Request) (q : Request) :
    recurring known (qs ++ [q]) =
      recurring known qs ++ if q ∈ known ∨ q ∈ qs then [q] else [] := by
  -- What stands above a request is not changed by what comes behind it.
  have hfront : qs.zipIdx.filter (fun (p, n) => p ∈ known ∨ p ∈ (qs ++ [q]).take n) =
      qs.zipIdx.filter fun (p, n) => p ∈ known ∨ p ∈ qs.take n := by
    apply List.filter_congr
    rintro ⟨p, n⟩ hp
    have hn : n < qs.length := List.snd_lt_of_mem_zipIdx hp
    simp only [List.take_append_of_le_length (Nat.le_of_lt hn)]
  rw [recurring, recurring, List.zipIdx_append, List.filter_append, List.map_append, hfront]
  by_cases h : q ∈ known ∨ q ∈ qs
  · rw [if_pos h]
    simp [h]
  · rw [if_neg h]
    simp [h]

theorem length_newcomers_add (known qs : List Request) :
    (newcomers known qs).length + (recurring known qs).length = qs.length := by
  induction qs using List.reverseRecOn with
  | nil => rfl
  | append_singleton qs q ih =>
    rw [newcomers_concat, recurring_concat]
    split <;> simp only [List.length_append, List.length_nil, List.length_singleton] <;> omega

theorem mem_newcomers_iff : q ∈ newcomers known qs ↔ q ∈ qs ∧ q ∉ known := by
  rw [newcomers, List.mem_eraseDups, List.mem_filter, decide_eq_true_iff]

theorem recurring_of_known (h : ∀ q ∈ qs, q ∈ known) : recurring known qs = qs := by
  have hall : qs.zipIdx.filter (fun (q, n) => q ∈ known ∨ q ∈ qs.take n) = qs.zipIdx := by
    apply List.filter_eq_self.mpr
    intro x hx
    simpa using Or.inl (h x.1 (List.fst_mem_of_mem_zipIdx hx))
  rw [recurring, hall, List.zipIdx_map_fst]

theorem Sound.keys_setAll (h : t.Sound) (is : List Instruction) :
    (t.setAll is).2.keys = t.keys ++ newcomers t.keys (is.map (·.request)) := by
  induction is using List.reverseRecOn with
  | nil => simp [newcomers]
  | append_singleton is i ih =>
    rw [setAll_concat, (h.setAll is).keys_set, ih, List.map_append, List.map_singleton,
      newcomers_concat]
    by_cases hi : i.request ∈ t.keys ∨ i.request ∈ is.map (·.request)
    · have hm : i.request ∈ t.keys ++ newcomers t.keys (is.map (·.request)) := by
        rw [List.mem_append, mem_newcomers_iff]
        tauto
      rw [if_pos hm, if_pos hi, List.append_nil]
    · have hm : i.request ∉ t.keys ++ newcomers t.keys (is.map (·.request)) := by
        rw [List.mem_append, mem_newcomers_iff]
        tauto
      rw [if_neg hm, if_neg hi, List.append_assoc]

theorem Sound.mem_keys_setAll (h : t.Sound) (is : List Instruction) (q : Request) :
    q ∈ (t.setAll is).2.keys ↔ q ∈ t.keys ∨ q ∈ is.map (·.request) := by
  rw [h.keys_setAll, List.mem_append, mem_newcomers_iff]
  tauto

theorem Sound.repeated_setAll (h : t.Sound) (is : List Instruction) :
    (t.setAll is).1 = recurring t.keys (is.map (·.request)) := by
  induction is using List.reverseRecOn with
  | nil => rfl
  | append_singleton is i ih =>
    have hset : ((t.setAll is).2.set i.request i.response).1.isSome ↔
        i.request ∈ t.keys ∨ i.request ∈ is.map (·.request) := by
      rw [(h.setAll is).set_fst, Option.isSome_iff_ne_none, ne_eq, stored?_eq_none_iff,
        h.mem_keys_setAll, not_not]
    rw [setAll_concat, List.map_append, List.map_singleton, recurring_concat, ih]
    simp only [hset]

/-- The response of the last instruction for a request wins, or else the one from before. -/
theorem Sound.stored?_setAll (h : t.Sound) (is : List Instruction) (q : Request) :
    (t.setAll is).2.stored? q = (latest is q).or (t.stored? q) := by
  induction is using List.reverseRecOn with
  | nil => rfl
  | append_singleton is i ih =>
    rw [setAll_concat, (h.setAll is).stored?_set, latest_concat, ih]
    split <;> rfl

theorem size_eq_length_keys (t : Table) : t.size = t.keys.length := by
  simp [size, keys]

theorem Sound.size_setAll (h : t.Sound) (is : List Instruction) :
    (t.setAll is).2.size + (t.setAll is).1.length = t.size + is.length := by
  have hn := length_newcomers_add t.keys (is.map (·.request))
  rw [List.length_map] at hn
  rw [size_eq_length_keys, size_eq_length_keys, h.keys_setAll, h.repeated_setAll,
    List.length_append]
  omega

/-- The entries of a sound table are determined by its keys and the responses stored for them. -/
theorem Sound.entries_ext (ht : t.Sound) (hu : u.Sound) (hk : t.keys = u.keys)
    (hs : ∀ q, t.stored? q = u.stored? q) : t.entries = u.entries := by
  apply Array.ext_getElem?
  intro slot
  have hslot : t.entries[slot]?.map (·.request) = u.entries[slot]?.map (·.request) := by
    rw [← getElem?_keys, ← getElem?_keys, hk]
  cases he : t.entries[slot]? with
  | none =>
    rw [he, Option.map_none, eq_comm, Option.map_eq_none_iff] at hslot
    exact hslot.symm
  | some a =>
    rw [he, Option.map_some, eq_comm, Option.map_eq_some_iff] at hslot
    obtain ⟨b, hb, hab⟩ := hslot
    have hta := (stored?_eq_some_iff ht.nodup).mpr ⟨slot, he⟩
    have hub := (stored?_eq_some_iff hu.nodup).mpr ⟨slot, hb⟩
    rw [hs, ← hab, hub, Option.some.injEq] at hta
    rw [hb, Option.some.injEq]
    cases a
    cases b
    simp_all

theorem setAll_append (t : Table) (is js : List Instruction) :
    t.setAll (is ++ js) =
      ((t.setAll is).1 ++ ((t.setAll is).2.setAll js).1, ((t.setAll is).2.setAll js).2) := by
  induction js using List.reverseRecOn with
  | nil => simp
  | append_singleton js j ih =>
    rw [← List.append_assoc, setAll_concat, ih, setAll_concat, List.append_assoc]

theorem Sound.setAll_again (h : t.Sound) (is : List Instruction) :
    ((t.setAll is).2.setAll is).1 = is.map (·.request) ∧
      ((t.setAll is).2.setAll is).2.entries = (t.setAll is).2.entries := by
  have hu := h.setAll is
  have hknown : ∀ q ∈ is.map (·.request), q ∈ (t.setAll is).2.keys := by
    intro q hq
    exact (h.mem_keys_setAll is q).mpr (Or.inr hq)
  have hnone : newcomers (t.setAll is).2.keys (is.map (·.request)) = [] := by
    apply List.eq_nil_iff_forall_not_mem.mpr
    intro q hq
    obtain ⟨hm, hn⟩ := mem_newcomers_iff.mp hq
    exact hn (hknown q hm)
  refine ⟨?_, (hu.setAll is).entries_ext hu ?_ fun q => ?_⟩
  · rw [hu.repeated_setAll, recurring_of_known hknown]
  · rw [hu.keys_setAll, hnone, List.append_nil]
  · rw [hu.stored?_setAll, h.stored?_setAll]
    cases latest is q <;> rfl

/-- What loading the instructions `is` makes of the table `t`: the table `u` and the requests that
it tells to be repeated. -/
structure LoadLaws (t u : Table) (is : List Instruction) (repeated : List Request) : Prop where
  keys : u.keys = t.keys ++ newcomers t.keys (is.map (·.request))
  stored : ∀ q, u.stored? q = (latest is q).or (t.stored? q)
  answers : ∀ q, u.respond q = ((latest is q).map .ok).getD (t.respond q)
  repeats : repeated = recurring t.keys (is.map (·.request))
  size : u.size + repeated.length = t.size + is.length

theorem Sound.loadLaws (h : t.Sound) (is : List Instruction) :
    LoadLaws t (t.setAll is).2 is (t.setAll is).1 where
  keys := h.keys_setAll is
  stored := h.stored?_setAll is
  answers q := by
    rw [(h.setAll is).respond, h.respond, h.stored?_setAll]
    cases latest is q <;> rfl
  repeats := h.repeated_setAll is
  size := h.size_setAll is

/-- Whatever was set, loaded and cleared before, a block is loaded as a whole or not at all. Loading
it twice makes no difference to the table, and all of its requests are told then. -/
theorem bulk_load_laws (ops : List Operation) (block : String) :
    (∀ e, readInstructions block = .error e →
      (built ops).load block = .error e ∧ (built ops).perform (.load block) = built ops) ∧
    ∀ is, readInstructions block = .ok is →
      ∃ repeated u, (built ops).load block = .ok (repeated, u) ∧
        (built ops).perform (.load block) = u ∧ LoadLaws (built ops) u is repeated ∧
        ∃ v, u.load block = .ok (is.map (·.request), v) ∧ (v == u) = true := by
  have h := (built_holds ops).sound
  refine ⟨fun e he => ?_, fun is hi => ?_⟩
  · have hl := load_error he (built ops)
    exact ⟨hl, by rw [perform, hl]⟩
  · have hl := load_ok hi (built ops)
    have hu := h.setAll is
    obtain ⟨hr, he⟩ := h.setAll_again is
    have hagain : ((built ops).setAll is).2.load block =
        .ok (is.map (·.request), (((built ops).setAll is).2.setAll is).2) := by
      rw [load_ok hi, ← hr]
    exact ⟨((built ops).setAll is).1, ((built ops).setAll is).2, hl, by rw [perform, hl],
      h.loadLaws is, _, hagain, ((hu.setAll is).beq_iff hu).mpr he⟩

/-- A block with a bad line, and one that repeats a request of the table and one of its own. -/
theorem repeating_block_loaded :
    (built [.set ⟨1, "b"⟩ ⟨0, "b", .stay⟩]).load "0(a) => 1(a) R\n0(a\n" =
      .error (.inLine 2 (.malformed .line "0(a")) ∧
    ∃ repeated u,
      (built [.set ⟨1, "b"⟩ ⟨0, "b", .stay⟩]).load "0(a)=>1(a)R\n1(b)=>0(c)L\n\n0(a)=>2(a)S" =
        .ok (repeated, u) ∧
      u.keys = [⟨1, "b"⟩, ⟨0, "a"⟩] ∧ repeated = [⟨1, "b"⟩, ⟨0, "a"⟩] := by
  have hk : (built [.set ⟨1, "b"⟩ ⟨0, "b", .stay⟩]).keys = [⟨1, "b"⟩] :=
    (built_holds [.set ⟨1, "b"⟩ ⟨0, "b", .stay⟩]).keys
  have hbad : readInstructions "0(a) => 1(a) R\n0(a\n" =
      .error (.inLine 2 (.malformed .line "0(a")) := rfl
  have hgood : readInstructions "0(a)=>1(a)R\n1(b)=>0(c)L\n\n0(a)=>2(a)S" =
      .ok [⟨⟨0, "a"⟩, ⟨1, "a", .right⟩⟩, ⟨⟨1, "b"⟩, ⟨0, "c", .left⟩⟩,
        ⟨⟨0, "a"⟩, ⟨2, "a", .stay⟩⟩] := rfl
  refine ⟨((bulk_load_laws _ _).1 _ hbad).1, ?_⟩
  obtain ⟨repeated, u, hl, -, hlaws, -⟩ :=
    (bulk_load_laws [.set ⟨1, "b"⟩ ⟨0, "b", .stay⟩] _).2 _ hgood
  refine ⟨repeated, u, hl, ?_, ?_⟩
  · rw [hlaws.keys, hk]
    decide
  · rw [hlaws.repeats, hk]
    decide

end SingleTape.Table
