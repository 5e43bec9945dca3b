import SingleTape.Proofs.Json.Values

/-!
Objects with any members. A known member goes into the draft of a structure, any other one is passed
over; what cannot be read so is refused.
-/

namespace SingleTape.Json

variable {α β σ : Type} {r : Reader α} {cs rest space behind v value : List Char} {c : Char}

namespace Reader

/-- The reader takes no value from this text, wherever it stands. -/
def Refuses (r : Reader α) (text : List Char) : Prop :=
  ∀ ⦃space behind : List Char⦄, Spaces space → Ended behind →
    ∃ defect, r.run (space ++ (text ++ behind)) = .error defect

/-- The reader takes a value up to its last character or refuses it. -/
def Decides (r : Reader α) : Prop := ∀ ⦃v⦄, IsValue v → (∃ a, r.Reads v a) ∨ r.Refuses v

theorem Refuses.map (h : r.Refuses v) (f : α → β) : (r.map f).Refuses v := by
  intro space behind hs hb
  obtain ⟨defect, hrun⟩ := h hs hb
  exact ⟨defect, by simp only [Reader.map, refine, hrun, bind, Except.bind]⟩

theorem Decides.map (h : r.Decides) (f : α → β) : (r.map f).Decides := by
  intro v hv
  rcases h hv with ⟨a, ha⟩ | hrefuses
  · exact .inl ⟨f a, ha.map f⟩
  · exact .inr (hrefuses.map f)

theorem refuses_text (hspace : isSpace c = false) (hc : c ≠ '"') (rest : List Char) :
    text.Refuses (c :: rest) := by
  intro space behind hs _
  refine ⟨mismatch .text (c :: (rest ++ behind)), ?_⟩
  change takeText _ = _
  rw [takeText, skipSpace_append hs, List.cons_append, skipSpace_cons hspace]
  split
  · next h =>
    cases h
    exact absurd rfl hc
  · rfl

theorem reads_quoted {gs : List Glyph} {s : List Char} (h : decode gs = some s) :
    text.Reads (quoted gs) (String.ofList s) := by
  intro space behind hs _
  change takeText _ = _
  rw [takeText, skipSpace_append hs, quoted_append, skipSpace_cons rfl]
  exact readText_glyphs h behind

theorem refuses_quoted {gs : List Glyph} (h : decode gs = none) : text.Refuses (quoted gs) := by
  intro space behind hs _
  change ∃ defect, takeText _ = _
  rw [takeText, skipSpace_append hs, quoted_append, skipSpace_cons rfl]
  exact readText_refused h behind

theorem decides_text : text.Decides := by
  intro v h
  cases h with
  | null => exact .inr (refuses_text rfl (by decide) _)
  | bool b => cases b <;> exact .inr (refuses_text rfl (by decide) _)
  | number h =>
    obtain ⟨c, rest, rfl, hc⟩ := h.exists_first
    right
    rcases hc with rfl | hc
    · exact refuses_text rfl (by decide) rest
    · apply refuses_text (isSpace_of_isDigit hc)
      rintro rfl
      cases hc
  | text gs =>
    cases hd : decode gs with
    | none => exact .inr (refuses_quoted hd)
    | some s => exact .inl ⟨_, reads_quoted hd⟩
  | list inner h => exact .inr (refuses_text rfl (by decide) _)
  | object inner h => exact .inr (refuses_text rfl (by decide) _)

theorem refuses_bool (hspace : isSpace c = false) (htrue : c ≠ 't') (hfalse : c ≠ 'f')
    (rest : List Char) : bool.Refuses (c :: rest) := by
  intro space behind hs _
  refine ⟨mismatch .boolean (c :: (rest ++ behind)), ?_⟩
  change takeBool _ = _
  rw [takeBool, skipSpace_append hs, List.cons_append, skipSpace_cons hspace]
  split
  · next h =>
    cases h
    exact absurd rfl htrue
  · next h =>
    cases h
    exact absurd rfl hfalse
  · rfl

theorem decides_bool : bool.Decides := by
  intro v h
  cases h with
  | null => exact .inr (refuses_bool rfl (by decide) (by decide) _)
  | bool b => exact .inl ⟨b, reads_bool b⟩
  | number h =>
    obtain ⟨c, rest, rfl, hc⟩ := h.exists_first
    right
    rcases hc with rfl | hc
    · exact refuses_bool rfl (by decide) (by decide) rest
    · apply refuses_bool (isSpace_of_isDigit hc)
      · rintro rfl
        cases hc
      · rintro rfl
        cases hc
  | text gs => exact .inr (refuses_bool rfl (by decide) (by decide) _)
  | list inner h => exact .inr (refuses_bool rfl (by decide) (by decide) _)
  | object inner h => exact .inr (refuses_bool rfl (by decide) (by decide) _)

end Reader

def Number.toDouble : Number → Float
  | .integer i => Float.ofInt i
  | .double x => x

namespace Reader

theorem run_double {n : Numeral} (h : n.Signed v) (hs : Spaces space) (hb : Ended behind) :
    Reader.double.run (space ++ (v ++ behind)) =
      n.value.map fun number => (number.toDouble, behind) := by
  change Except.bind (takeNumber .double (space ++ (v ++ behind))) _ = _
  rw [takeNumber_signed h hs hb]
  cases n.value <;> rfl

theorem reads_signed {n : Numeral} {number : Number} (h : n.Signed v)
    (hv : n.value = .ok number) : double.Reads v number.toDouble := by
  intro space behind hs hb
  rw [run_double h hs hb, hv]
  rfl

theorem refuses_double (hspace : isSpace c = false) (hc : c ≠ '-') (hd : c.isDigit = false)
    (rest : List Char) : double.Refuses (c :: rest) := by
  intro space behind hs _
  refine ⟨mismatch .double (c :: (rest ++ behind)), ?_⟩
  change Except.bind (takeNumber .double _) _ = _
  rw [takeNumber_spaces hs, takeNumber, List.cons_append, skipSpace_cons hspace]
  split
  · next h =>
    cases h
    exact absurd rfl hc
  · next h =>
    cases h
    rw [if_neg (by simp [hd])]
    rfl
  · next h => cases h

theorem decides_double : double.Decides := by
  intro v h
  cases h with
  | null => exact .inr (refuses_double rfl (by decide) rfl _)
  | bool b => cases b <;> exact .inr (refuses_double rfl (by decide) rfl _)
  | @number n cs h =>
    cases hv : n.value with
    | ok number => exact .inl ⟨_, reads_signed h hv⟩
    | error defect =>
      right
      intro space behind hs hb
      exact ⟨defect, by rw [run_double h hs hb, hv]; rfl⟩
  | text gs => exact .inr (refuses_double rfl (by decide) rfl _)
  | list inner h => exact .inr (refuses_double rfl (by decide) rfl _)
  | object inner h => exact .inr (refuses_double rfl (by decide) rfl _)

theorem eq_null_of_first (h : IsValue ('n' :: rest)) : 'n' :: rest = "null".toList := by
  generalize hv : 'n' :: rest = v at h
  cases h with
  | null => rfl
  | bool b => cases b <;> cases hv
  | number h =>
    obtain ⟨c, rest, rfl, hc⟩ := h.exists_first
    cases hv
    simp at hc
  | text gs => cases hv
  | list inner h => cases hv
  | object inner h => cases hv

theorem Decides.orNull (h : r.Decides) (null : α) : (r.orNull null).Decides := by
  intro v hv
  obtain ⟨c, rest, rfl, hspace, -⟩ := hv.valued
  by_cases hc : c = 'n'
  · subst hc
    rw [eq_null_of_first hv]
    exact .inl ⟨null, reads_null_orNull null r⟩
  · rcases h hv with ⟨a, ha⟩ | hrefuses
    · exact .inl ⟨a, ha.orNull null (skipSpace_cons hspace rest) hc⟩
    · right
      intro space behind hs hb
      obtain ⟨defect, hrun⟩ := hrefuses hs hb
      refine ⟨defect, ?_⟩
      simp only [Reader.orNull, skipSpace_append hs, List.cons_append, skipSpace_cons hspace]
      split
      · next hnull =>
        cases hnull
        exact absurd rfl hc
      · exact hrun

end Reader

variable {shape : Shape σ α} {ms : List Member} {draft draft' draft'' : σ} {name : String}
variable {first : Bool}

theorem readMembers_refused {defect : Defect} (h : toKey first cs = .error defect) :
    readMembers shape draft first cs = .error defect := by
  rw [readMembers]
  split
  · next h' =>
    cases h.symm.trans h'
    rfl
  · next h' => cases h.symm.trans h'
  · next h' => cases h.symm.trans h'

/-- Members one behind the other. There is no comma in front of the first one of an object. -/
def joined (first : Bool) (ms : List Member) : List Char :=
  if first then List.intercalate [','] (ms.map Member.text)
  else (ms.map Member.text).flatMap (',' :: ·)

theorem joined_cons (first : Bool) (m : Member) (ms : List Member) :
    joined first (m :: ms) = (if first then [] else [',']) ++ (m.text ++ joined false ms) := by
  cases first with
  | true => exact intercalate_comma m.text (ms.map Member.text)
  | false => exact List.flatMap_cons ..

theorem toKey_spaces (hs : Spaces space) (first : Bool) (cs : List Char) :
    toKey first (space ++ cs) = toKey first cs := by
  rw [toKey, toKey, skipSpace_append hs]

theorem toKey_member {m : Member} {key : List Char} (hkey : decode m.key = some key)
    (hs : Spaces space) (rest : List Char) :
    toKey first (space ++ ((if first then [] else [',']) ++ (m.text ++ rest))) =
      .ok (some (String.ofList key), m.mid ++ ':' :: (m.gap ++ (m.value ++ (m.back ++ rest)))) := by
  rw [toKey_spaces hs, m.text_append]
  cases first with
  | true => exact toKey_first m.front.2 (readText_glyphs hkey _)
  | false => exact toKey_comma m.front.2 (readText_glyphs hkey _)

theorem toKey_refused {m : Member} (hkey : decode m.key = none) (hs : Spaces space)
    (rest : List Char) : ∃ defect,
      toKey first (space ++ ((if first then [] else [',']) ++ (m.text ++ rest))) =
        .error defect := by
  obtain ⟨defect, hread⟩ := readText_refused hkey
    (m.mid ++ ':' :: (m.gap ++ (m.value ++ (m.back ++ rest))))
  have hcomma : isSpace ',' = false := rfl
  have hquote : isSpace '"' = false := rfl
  refine ⟨defect, ?_⟩
  rw [toKey_spaces hs, m.text_append]
  cases first with
  | true =>
    simp [toKey, skipSpace_append m.front.2, skipSpace_cons hquote, hread, bind, Except.bind]
  | false =>
    simp [toKey, skipSpace_cons hcomma, skipSpace_append m.front.2, skipSpace_cons hquote, hread,
      bind, Except.bind]

theorem readColon_spaces (mid : Spacing) (rest : List Char) :
    readColon (mid ++ ':' :: rest) = .ok rest := by
  rw [readColon, skipSpace_append mid.2, skipSpace_cons rfl]
  rfl

theorem ended_joined (m : Member) (ms : List Member) (inner : Spacing) (behind : List Char) :
    Ended (m.back ++ (joined false ms ++ (inner ++ '}' :: behind))) :=
  ended_spaces m.back.2 (ended_commas (ms.map Member.text) (ended_brace inner.2 behind))

/-- Reading these members makes the second draft of the first one: a known member is a field that
was not read before, and its reader takes the value; an unknown member is passed over. -/
inductive Gathers (shape : Shape σ α) : σ → List Member → σ → Prop
  | nil (draft : σ) : Gathers shape draft [] draft
  | field {draft draft' draft'' : σ} {m : Member} {key : List Char} {field : Field σ}
      {ms : List Member} :
      decode m.key = some key → shape.fields.find? (·.name == String.ofList key) = some field →
      field.isRead draft = false → (field.reader draft).Reads m.value draft' →
      Gathers shape draft' ms draft'' → Gathers shape draft (m :: ms) draft''
  | unknown {draft draft' : σ} {m : Member} {key : List Char} {ms : List Member} :
      decode m.key = some key → shape.fields.find? (·.name == String.ofList key) = none →
      IsValue m.value → Gathers shape draft ms draft' → Gathers shape draft (m :: ms) draft'

theorem Gathers.readMembers (h : Gathers shape draft ms draft') (first : Bool)
    (hs : Spaces space) (inner : Spacing) (behind : List Char) :
    readMembers shape draft first (space ++ (joined first ms ++ (inner ++ '}' :: behind))) =
      .ok (draft', behind) := by
  induction h generalizing first space with
  | nil draft =>
    have hempty : joined first [] = [] := by cases first <;> rfl
    apply readMembers_end
    rw [hempty, List.nil_append, toKey_spaces hs]
    exact toKey_end inner.2 first behind
  | @field _ draft' _ m key field ms hkey hfield hread hvalue _ ih =>
    rw [joined_cons, List.append_assoc, List.append_assoc,
      readMembers_member (toKey_member hkey hs _) (readColon_spaces m.mid _), hfield]
    dsimp only
    rw [hread, if_neg Bool.false_ne_true, hvalue m.gap.2 (ended_joined m ms inner behind)]
    exact ih false m.back.2
  | @unknown _ _ m key ms hkey hfield hvalue _ ih =>
    rw [joined_cons, List.append_assoc, List.append_assoc,
      readMembers_member (toKey_member hkey hs _) (readColon_spaces m.mid _), hfield]
    dsimp only
    rw [hvalue.skipValue m.gap.2 (ended_joined m ms inner behind)]
    exact ih false m.back.2

/-- If the readers of the fields decide about any value, members that do not make a draft are
refused. -/
theorem readMembers_of_not_gathers (hfields : ∀ field ∈ shape.fields, ∀ draft,
      (field.reader draft).Decides) (hvalues : ∀ m ∈ ms, IsValue m.value)
    (h : ¬ ∃ draft', Gathers shape draft ms draft') (first : Bool) (hs : Spaces space)
    (inner : Spacing) (behind : List Char) : ∃ defect,
      readMembers shape draft first (space ++ (joined first ms ++ (inner ++ '}' :: behind))) =
        .error defect := by
  induction ms generalizing draft first space with
  | nil => exact absurd ⟨draft, .nil draft⟩ h
  | cons m ms ih =>
    obtain ⟨hvalue, hvalues⟩ := List.forall_mem_cons.mp hvalues
    rw [joined_cons, List.append_assoc, List.append_assoc]
    cases hkey : decode m.key with
    | none =>
      obtain ⟨defect, hrefused⟩ :=
        toKey_refused hkey hs (joined false ms ++ (inner ++ '}' :: behind))
      exact ⟨defect, readMembers_refused hrefused⟩
    | some key =>
      rw [readMembers_member (toKey_member hkey hs _) (readColon_spaces m.mid _)]
      cases hfield : shape.fields.find? (·.name == String.ofList key) with
      | none =>
        dsimp only
        rw [hvalue.skipValue m.gap.2 (ended_joined m ms inner behind)]
        apply ih hvalues _ false m.back.2
        rintro ⟨draft', hms⟩
        exact h ⟨draft', .unknown hkey hfield hvalue hms⟩
      | some field =>
        dsimp only
        by_cases hread : field.isRead draft = true
        · exact ⟨.duplicateField (String.ofList key), if_pos hread⟩
        rw [if_neg hread]
        rcases hfields field (List.mem_of_find?_eq_some hfield) draft hvalue with
          ⟨draft', hreads⟩ | hrefuses
        · rw [hreads m.gap.2 (ended_joined m ms inner behind)]
          apply ih hvalues _ false m.back.2
          rintro ⟨draft'', hms⟩
          exact h ⟨draft'', .field hkey hfield (Bool.eq_false_iff.mpr hread) hreads hms⟩
        · obtain ⟨defect, hrun⟩ := hrefuses m.gap.2 (ended_joined m ms inner behind)
          exact ⟨defect, by rw [hrun]; rfl⟩

theorem reader_objectText (hs : Spaces space) (ms : List Member) (inner : Spacing)
    (behind : List Char) : shape.reader.run (space ++ (objectText ms inner ++ behind)) =
      (readMembers shape shape.start true (joined true ms ++ (inner ++ '}' :: behind))).bind
        fun read => (shape.finish read.1).map fun a => (a, read.2) := by
  have hbrace : isSpace '{' = false := rfl
  have hjoined : List.intercalate [','] (ms.map Member.text) = joined true ms := rfl
  simp only [Shape.reader, skipSpace_append hs, objectText_append, skipSpace_cons hbrace, hjoined,
    bind, Except.bind]
  cases readMembers shape shape.start true (joined true ms ++ (inner ++ '}' :: behind)) with
  | error defect => rfl
  | ok read => cases shape.finish read.1 <;> rfl

/-- An object whose members make a draft is read as the structure of the draft. -/
theorem Gathers.reads {a : α} (h : Gathers shape shape.start ms draft)
    (ha : shape.finish draft = .ok a) (inner : Spacing) :
    shape.reader.Reads (objectText ms inner) a := by
  intro space behind hs _
  have hmembers := h.readMembers true spaces_nil inner behind
  rw [List.nil_append] at hmembers
  rw [reader_objectText hs, hmembers]
  simp only [Except.bind, ha, Except.map]

theorem refuses_of_not_gathers (hfields : ∀ field ∈ shape.fields, ∀ draft,
      (field.reader draft).Decides) (hvalues : ∀ m ∈ ms, IsValue m.value)
    (h : ¬ ∃ draft, Gathers shape shape.start ms draft) (inner : Spacing) :
    shape.reader.Refuses (objectText ms inner) := by
  intro space behind hs _
  obtain ⟨defect, hmembers⟩ :=
    readMembers_of_not_gathers hfields hvalues h true spaces_nil inner behind
  rw [List.nil_append] at hmembers
  exact ⟨defect, by rw [reader_objectText hs, hmembers]; rfl⟩

structure Document where
  lead : Spacing
  members : List Member
  inner : Spacing
  trail : Spacing
  valid : ∀ m ∈ members, IsValue m.value

def Document.text (d : Document) : String :=
  String.ofList (d.lead ++ (objectText d.members d.inner ++ d.trail))

theorem Document.ended_trail (d : Document) : Ended (d.trail : List Char) := by
  have := ended_spaces d.trail.2 ended_nil
  rwa [List.append_nil] at this

theorem Document.read {d : Document} {a : α}
    (h : r.Reads (objectText d.members d.inner) a) : r.document d.text = .ok a := by
  have htrail : skipSpace (d.trail : List Char) = [] := by
    have := skipSpace_append d.trail.2 []
    rwa [List.append_nil] at this
  rw [Reader.document, text, String.toList_ofList, h d.lead.2 d.ended_trail]
  simp only [bind, Except.bind, htrail, if_pos]

theorem Document.refused {d : Document} (h : r.Refuses (objectText d.members d.inner)) :
    ∃ defect, r.document d.text = .error defect := by
  obtain ⟨defect, hrun⟩ := h d.lead.2 d.ended_trail
  exact ⟨defect, by rw [Reader.document, text, String.toList_ofList, hrun]; rfl⟩

end SingleTape.Json
