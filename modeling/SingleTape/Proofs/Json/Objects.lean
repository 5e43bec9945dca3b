import SingleTape.Proofs.Json.Reads

/-!
Written objects. A structure is read from an object whose members are its fields, each with a text
that the reader of the field takes for the value.
-/

namespace SingleTape.Json

variable {σ α : Type} {shape : Shape σ α} {field : Field σ} {draft draft' draft'' : σ}
variable {front gap back value cs rest behind : List Char} {name : String} {first : Bool}

theorem toKey_end (hb : Spaces back) (first : Bool) (behind : List Char) :
    toKey first (back ++ '}' :: behind) = .ok (none, behind) := by
  rw [toKey, skipSpace_append hb, skipSpace_cons rfl]
  rfl

theorem toKey_first (hf : Spaces front) (hname : readText cs = .ok (name, rest)) :
    toKey true (front ++ '"' :: cs) = .ok (some name, rest) := by
  rw [toKey, skipSpace_append hf, skipSpace_cons rfl]
  simp [hname, bind, Except.bind]

theorem toKey_comma (hf : Spaces front) (hname : readText cs = .ok (name, rest)) :
    toKey false (',' :: (front ++ '"' :: cs)) = .ok (some name, rest) := by
  have hcomma : isSpace ',' = false := rfl
  have hquote : isSpace '"' = false := rfl
  rw [toKey, skipSpace_cons hcomma]
  simp [skipSpace_append hf, skipSpace_cons hquote, hname, bind, Except.bind]

theorem readMembers_end (h : toKey first cs = .ok (none, rest)) (draft : σ) :
    readMembers shape draft first cs = .ok (draft, rest) := by
  rw [readMembers]
  split
  · next h' => cases h.symm.trans h'
  · next h' =>
    cases h.symm.trans h'
    rfl
  · next h' => cases h.symm.trans h'

/-- What becomes of a member with this key: a field not read before is read, any other member is
passed over. -/
theorem readMembers_member (hkey : toKey first cs = .ok (some name, rest))
    (hcolon : readColon rest = .ok value) : readMembers shape draft first cs =
      match shape.fields.find? (·.name == name) with
      | some field =>
        if field.isRead draft then .error (.duplicateField name)
        else ((field.reader draft).run value).bind fun read =>
          readMembers shape read.1 false read.2
      | none => (skipValue value).bind fun rest => readMembers shape draft false rest := by
  conv => lhs; rw [readMembers]
  split
  · next h => cases hkey.symm.trans h
  · next h => cases hkey.symm.trans h
  · next h =>
    cases hkey.symm.trans h
    cases hfield : shape.fields.find? (·.name == name) with
    | some field =>
      dsimp only
      by_cases hread : field.isRead draft = true
      · rw [if_pos hread, if_pos hread]
      · rw [if_neg hread, if_neg hread]
        split
        · next h => cases hcolon.symm.trans h
        · next h =>
          cases hcolon.symm.trans h
          split
          · next h => rw [h]; rfl
          · next h => rw [h]; rfl
    | none =>
      dsimp only
      split
      · next h => cases hcolon.symm.trans h
      · next h =>
        cases hcolon.symm.trans h
        split
        · next h => rw [h]; rfl
        · next h => rw [h]; rfl

theorem readMembers_field (hkey : toKey first cs = .ok (some name, rest))
    (hfield : shape.fields.find? (·.name == name) = some field)
    (hread : field.isRead draft = false) (hcolon : readColon rest = .ok value)
    (hvalue : (field.reader draft).run value = .ok (draft', behind)) :
    readMembers shape draft first cs = readMembers shape draft' false behind := by
  rw [readMembers_member hkey hcolon, hfield]
  dsimp only
  rw [hread, if_neg Bool.false_ne_true, hvalue]
  rfl

def spacedMember (front gap : List Char) (name : String) (value : List Char) : List Char :=
  front ++ (writeText name ++ ':' :: (gap ++ value))

def spacedObject (front gap back : List Char) (members : List (String × List Char)) : List Char :=
  '{' :: (List.intercalate [',']
    (members.map fun (name, value) => spacedMember front gap name value) ++ (back ++ ['}']))

theorem writeObject_eq (members : List (String × List Char)) :
    writeObject members = spacedObject [] [] [] members := rfl

theorem writeLines_eq (members : List (String × List Char)) :
    writeLines members = spacedObject ['\n', ' ', ' '] [' '] ['\n'] members := rfl

/-- Reading these members makes the second draft of the first one: each is a field that was not
read before, and its reader takes the text of the member for the value put into the draft. -/
inductive Fills (shape : Shape σ α) : σ → List (String × List Char) → σ → Prop
  | nil (draft : σ) : Fills shape draft [] draft
  | cons {draft draft' draft'' : σ} {name : String} {value : List Char} {field : Field σ}
      {members : List (String × List Char)} :
      shape.fields.find? (·.name == name) = some field → field.isRead draft = false →
      (field.reader draft).Reads value draft' → Fills shape draft' members draft'' →
      Fills shape draft ((name, value) :: members) draft''

theorem Fills.member {β : Type} {r : Reader β} {set : σ → β → σ} {known : String}
    {isRead : σ → Bool} {b : β} {members : List (String × List Char)}
    (hfield : shape.fields.find? (·.name == name) =
      some ⟨known, isRead, fun draft => r.map (set draft)⟩)
    (hread : isRead draft = false) (hvalue : r.Reads value b)
    (hms : Fills shape (set draft b) members draft') :
    Fills shape draft ((name, value) :: members) draft' :=
  .cons hfield hread (hvalue.map (set draft)) hms

theorem readColon_colon (rest : List Char) : readColon (':' :: rest) = .ok rest := by
  rw [readColon, skipSpace_cons rfl]
  rfl

theorem ended_spaces (h : Spaces back) (hb : Ended behind) : Ended (back ++ behind) := by
  cases back with
  | nil => exact hb
  | cons c back =>
    have hc : isSpace c = true := h c List.mem_cons_self
    simp only [isSpace, Bool.or_eq_true, beq_iff_eq] at hc
    rw [List.cons_append, ended_cons]
    rcases hc with ((rfl | rfl) | rfl) | rfl
    all_goals decide

theorem ended_brace (hb : Spaces back) (behind : List Char) : Ended (back ++ '}' :: behind) := by
  apply ended_spaces hb
  rw [ended_cons]
  decide

theorem spacedMember_append (front gap : List Char) (name : String) (value rest : List Char) :
    spacedMember front gap name value ++ rest =
      front ++ '"' :: (name.toList.flatMap escape ++ '"' :: ':' :: (gap ++ (value ++ rest))) := by
  simp [spacedMember, writeText]

theorem Fills.readMembers_commas {members : List (String × List Char)}
    (h : Fills shape draft members draft') (hf : Spaces front) (hg : Spaces gap)
    (hb : Spaces back) (behind : List Char) :
    readMembers shape draft false
      ((members.map fun (name, value) => spacedMember front gap name value).flatMap (',' :: ·) ++
        (back ++ '}' :: behind)) = .ok (draft', behind) := by
  induction h with
  | nil draft => exact readMembers_end (toKey_end hb false behind) draft
  | @cons draft draft' draft'' name value field members hfield hread hvalue _ ih =>
    have hrest := ended_commas
      (members.map fun (name, value) => spacedMember front gap name value) (ended_brace hb behind)
    rw [List.map_cons, List.flatMap_cons, List.append_assoc, List.cons_append, spacedMember_append,
      readMembers_field (toKey_comma hf (readText_escaped name _)) hfield hread
        (readColon_colon _) (hvalue hg hrest), ih]

/-- The structure is read from an object that fills its draft. -/
theorem Fills.reads {members : List (String × List Char)} {a : α}
    (h : Fills shape shape.start members draft) (ha : shape.finish draft = .ok a)
    (hf : Spaces front) (hg : Spaces gap) (hb : Spaces back) :
    shape.reader.Reads (spacedObject front gap back members) a := by
  intro space behind hs _
  have hbrace : isSpace '{' = false := rfl
  suffices hmembers : readMembers shape shape.start true
      (List.intercalate [','] (members.map fun (name, value) => spacedMember front gap name value)
        ++ (back ++ '}' :: behind)) = .ok (draft, behind) by
    simp only [Shape.reader, skipSpace_append hs, spacedObject, List.cons_append,
      List.append_assoc, List.nil_append, skipSpace_cons hbrace, hmembers, ha, bind, Except.bind]
  -- the first member alone has no comma in front of it
  generalize shape.start = start at h ⊢
  cases h with
  | nil => exact readMembers_end (toKey_end hb true behind) draft
  | @cons _ draft' _ name value field members hfield hread hvalue hms =>
    have hrest := ended_commas
      (members.map fun (name, value) => spacedMember front gap name value) (ended_brace hb behind)
    rw [List.map_cons, intercalate_comma, List.append_assoc, spacedMember_append,
      readMembers_field (toKey_first hf (readText_escaped name _)) hfield hread
        (readColon_colon _) (hvalue hg hrest)]
    exact hms.readMembers_commas hf hg hb behind

theorem Fills.reads_object {members : List (String × List Char)} {a : α}
    (h : Fills shape shape.start members draft) (ha : shape.finish draft = .ok a) :
    shape.reader.Reads (writeObject members) a := by
  rw [writeObject_eq]
  exact h.reads ha spaces_nil spaces_nil spaces_nil

theorem Fills.reads_lines {members : List (String × List Char)} {a : α}
    (h : Fills shape shape.start members draft) (ha : shape.finish draft = .ok a) :
    shape.reader.Reads (writeLines members) a := by
  rw [writeLines_eq]
  apply h.reads ha
  · simp [spaces_cons, spaces_nil, isSpace]
  · simp [spaces_cons, spaces_nil, isSpace]
  · simp [spaces_cons, spaces_nil, isSpace]

end SingleTape.Json
