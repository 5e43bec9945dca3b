import SingleTape.Proofs.Decimal.Arithmetic
import SingleTape.Proofs.Json.Members
import SingleTape.Settings.Json

/-!
Settings are imported by name. Neither the order of the members of an object counts, nor what other
members stand among them, nor the white space between its tokens.
-/

namespace SingleTape.Settings

open Json
open Decimal (number? number?_of_unpack number?_ofInt)

inductive Key where
  | instructions
  | tape
  | blank
  | rateLimit
  | auto
  deriving DecidableEq, Repr

def Key.Value : Key → Type
  | instructions => String
  | tape => String
  | blank => Symbol
  | rateLimit => Float
  | auto => Bool

variable {s t : Settings} {j k : Key} {draft draft' : Draft} {v key : List Char}
variable {ms : List Member} {m : Member}

def get (s : Settings) : (k : Key) → k.Value
  | .instructions => s.instructions
  | .tape => s.tape
  | .blank => s.blank
  | .rateLimit => s.rateLimit
  | .auto => s.auto

theorem eq_of_get (h : ∀ k, s.get k = t.get k) : s = t := by
  cases s
  cases t
  rw [Settings.mk.injEq]
  exact ⟨h .instructions, h .tape, h .blank, h .rateLimit, h .auto⟩

def Draft.get? (d : Draft) : (k : Key) → Option k.Value
  | .instructions => d.instructions
  | .tape => d.tape
  | .blank => d.blank
  | .rateLimit => d.rateLimit
  | .auto => d.auto

def Draft.put (d : Draft) : (k : Key) → k.Value → Draft
  | .instructions, a => { d with instructions := some a }
  | .tape, a => { d with tape := some a }
  | .blank, a => { d with blank := some a }
  | .rateLimit, a => { d with rateLimit := some a }
  | .auto, a => { d with auto := some a }

theorem Draft.get?_put (d : Draft) (k : Key) (a : k.Value) : (d.put k a).get? k = some a := by
  cases k <;> rfl

theorem Draft.get?_put_of_ne (d : Draft) (a : k.Value) (h : j ≠ k) :
    (d.put k a).get? j = d.get? j := by
  cases k <;> cases j <;> first | rfl | exact absurd rfl h

theorem Draft.get_complete (d : Draft) (k : Key) :
    d.complete.get k = (d.get? k).getD (default.get k) := by
  cases k <;> rfl

theorem Draft.get?_start (k : Key) : shape.start.get? k = none := by
  cases k <;> rfl

namespace Key

def name : Key → String
  | instructions => "instructions"
  | tape => "tape"
  | blank => "blank"
  | rateLimit => "rateLimit"
  | auto => "auto"

def all : List Key := [instructions, tape, blank, rateLimit, auto]

def ofName? (name : String) : Option Key := all.find? (·.name == name)

def reader : (k : Key) → Reader k.Value
  | instructions => Reader.text
  | tape => Reader.text
  | blank => Reader.text
  | rateLimit => rateReader
  | auto => Reader.bool

theorem decides_reader (k : Key) : k.reader.Decides := by
  cases k with
  | instructions => exact Reader.decides_text
  | tape => exact Reader.decides_text
  | blank => exact Reader.decides_text
  | rateLimit => exact Reader.decides_double.orNull _
  | auto => exact Reader.decides_bool

def field (k : Key) : Json.Field Draft where
  name := k.name
  isRead d := (d.get? k).isSome
  reader d := k.reader.map (d.put k)

theorem fields_eq : shape.fields = all.map field := rfl

theorem find?_fields (name : String) :
    shape.fields.find? (·.name == name) = (ofName? name).map field := by
  rw [fields_eq, List.find?_map]
  rfl

theorem decides_field : ∀ field ∈ shape.fields, ∀ draft, (field.reader draft).Decides := by
  intro field hfield draft
  rw [fields_eq] at hfield
  obtain ⟨k, -, rfl⟩ := List.mem_map.mp hfield
  exact k.decides_reader.map (draft.put k)

/-- The text of a string that decodes to this one. -/
def IsText (v : List Char) (s : String) : Prop :=
  ∃ gs text, v = quoted gs ∧ decode gs = some text ∧ s = String.ofList text

def IsRate (v : List Char) (x : Float) : Prop :=
  v = "null".toList ∧ x = 1.0 / 0.0 ∨
    ∃ n number, Numeral.Signed n v ∧ n.value = .ok number ∧ x = number.toDouble

def Denotes : (k : Key) → List Char → k.Value → Prop
  | instructions => IsText
  | tape => IsText
  | blank => IsText
  | rateLimit => IsRate
  | auto => fun v b => v = writeBool b

theorem IsText.reads {text : String} (h : IsText v text) : Reader.text.Reads v text := by
  obtain ⟨gs, cs, rfl, hdecode, rfl⟩ := h
  exact Reader.reads_quoted hdecode

theorem IsRate.reads {x : Float} (h : IsRate v x) : rateReader.Reads v x := by
  rcases h with ⟨rfl, rfl⟩ | ⟨n, number, hsigned, hvalue, rfl⟩
  · exact Reader.reads_null_orNull _ _
  · obtain ⟨c, rest, rfl, hc⟩ := hsigned.exists_first
    have hspace : isSpace c = false := by
      rcases hc with rfl | hc
      · rfl
      · exact isSpace_of_isDigit hc
    apply (Reader.reads_signed hsigned hvalue).orNull _ (skipSpace_cons hspace rest)
    rintro rfl
    simp at hc

theorem Denotes.reads {a : k.Value} (h : k.Denotes v a) : k.reader.Reads v a := by
  cases k with
  | instructions => exact IsText.reads h
  | tape => exact IsText.reads h
  | blank => exact IsText.reads h
  | rateLimit => exact IsRate.reads h
  | auto =>
    cases h
    exact Reader.reads_bool _

theorem Denotes.unique {a b : k.Value} (ha : k.Denotes v a) (hb : k.Denotes v b) : a = b := by
  have hread := (ha.reads spaces_nil ended_nil).symm.trans (hb.reads spaces_nil ended_nil)
  exact (Prod.mk.inj (Except.ok.inj hread)).1

end Key

def setting? (m : Member) : Option (Key × List Char) :=
  (decode m.key).bind fun key => (Key.ofName? (String.ofList key)).map fun k => (k, m.value)

/-- What members say about the settings. Members with other keys say nothing. -/
def entries (ms : List Member) : List (Key × List Char) := ms.filterMap setting?

/-- All keys can be decoded, and every setting is there at most once, with a value of its type. -/
structure Typed (ms : List Member) : Prop where
  keys : ∀ m ∈ ms, (decode m.key).isSome = true
  once : ((entries ms).map Prod.fst).Nodup
  values : ∀ e ∈ entries ms, ∃ a, e.1.Denotes e.2 a

theorem entries_setting (hkey : decode m.key = some key)
    (hname : Key.ofName? (String.ofList key) = some k) (ms : List Member) :
    entries (m :: ms) = (k, m.value) :: entries ms := by
  have hentry : setting? m = some (k, m.value) := by
    rw [setting?, hkey, Option.bind_some, hname]
    rfl
  rw [entries, List.filterMap_cons_some hentry, entries]

theorem entries_unknown (hkey : decode m.key = some key)
    (hname : Key.ofName? (String.ofList key) = none) (ms : List Member) :
    entries (m :: ms) = entries ms := by
  have hentry : setting? m = none := by rw [setting?, hkey, Option.bind_some, hname]; rfl
  rw [entries, List.filterMap_cons_none hentry, entries]

structure Draft.Holds (draft draft' : Draft) (es : List (Key × List Char)) : Prop where
  said : ∀ k v, (k, v) ∈ es → ∃ a, k.Denotes v a ∧ draft'.get? k = some a
  kept : ∀ k, (∀ v, (k, v) ∉ es) → draft'.get? k = draft.get? k

theorem Draft.Holds.cons {a : k.Value} {es : List (Key × List Char)}
    (h : (draft.put k a).Holds draft' es) (ha : k.Denotes v a) (hother : ∀ w, (k, w) ∉ es) :
    draft.Holds draft' ((k, v) :: es) where
  said := by
    intro j w hmem
    rcases List.mem_cons.mp hmem with heq | hmem
    · cases heq
      refine ⟨a, ha, ?_⟩
      rw [h.kept k hother, draft.get?_put]
    · exact h.said j w hmem
  kept := by
    intro j hj
    have hne : j ≠ k := by
      rintro rfl
      exact hj v List.mem_cons_self
    rw [h.kept j fun w hmem => hj w (List.mem_cons_of_mem _ hmem), draft.get?_put_of_ne a hne]

/-- Members of the right types make a draft of what they say. -/
theorem gathers (hvalid : ∀ m ∈ ms, IsValue m.value) (h : Typed ms)
    (hfree : ∀ e ∈ entries ms, draft.get? e.1 = none) :
    ∃ draft', Gathers shape draft ms draft' ∧ draft.Holds draft' (entries ms) := by
  induction ms generalizing draft with
  | nil => exact ⟨draft, .nil draft, ⟨by simp [entries], fun _ _ => rfl⟩⟩
  | cons m ms ih =>
    obtain ⟨hvalue, hvalid⟩ := List.forall_mem_cons.mp hvalid
    obtain ⟨hkey, hkeys⟩ := List.forall_mem_cons.mp h.keys
    obtain ⟨key, hkey⟩ := Option.isSome_iff_exists.mp hkey
    obtain ⟨-, honce, hvalues⟩ := h
    have hfield := Key.find?_fields (String.ofList key)
    cases hname : Key.ofName? (String.ofList key) with
    | none =>
      rw [entries_unknown hkey hname] at honce hvalues hfree ⊢
      rw [hname] at hfield
      obtain ⟨draft', hgathers, hholds⟩ := ih hvalid ⟨hkeys, honce, hvalues⟩ hfree
      exact ⟨draft', .unknown hkey hfield hvalue hgathers, hholds⟩
    | some k =>
      rw [entries_setting hkey hname] at honce hvalues hfree ⊢
      rw [hname] at hfield
      obtain ⟨⟨a, ha⟩, hvalues⟩ := List.forall_mem_cons.mp hvalues
      obtain ⟨hunread, hfree⟩ := List.forall_mem_cons.mp hfree
      obtain ⟨hother, honce⟩ := List.nodup_cons.mp honce
      have hfree' : ∀ e ∈ entries ms, (draft.put k a).get? e.1 = none := by
        intro e he
        rw [draft.get?_put_of_ne a, hfree e he]
        intro heq
        exact hother (List.mem_map.mpr ⟨e, he, heq⟩)
      obtain ⟨draft', hgathers, hholds⟩ := ih hvalid ⟨hkeys, honce, hvalues⟩ hfree'
      refine ⟨draft', .field hkey hfield ?_ (ha.reads.map (draft.put k)) hgathers, ?_⟩
      · exact Option.isSome_eq_false_iff.mpr (Option.isNone_iff_eq_none.mpr hunread)
      · apply hholds.cons ha
        intro w hmem
        exact hother (List.mem_map.mpr ⟨(k, w), hmem, rfl⟩)

theorem nodup_of_gathers (h : Gathers shape draft ms draft') :
    ((entries ms).map Prod.fst).Nodup ∧ ∀ e ∈ entries ms, draft.get? e.1 = none := by
  induction h with
  | nil draft => exact ⟨List.nodup_nil, by simp [entries]⟩
  | @unknown _ _ m key ms hkey hfield _ _ ih =>
    rw [Key.find?_fields, Option.map_eq_none_iff] at hfield
    rwa [entries_unknown hkey hfield]
  | @field draft draft' _ m key field ms hkey hfield hread hvalue _ ih =>
    obtain ⟨honce, hfree⟩ := ih
    rw [Key.find?_fields] at hfield
    obtain ⟨k, hname, rfl⟩ := Option.map_eq_some_iff.mp hfield
    have hunread : draft.get? k = none :=
      Option.isNone_iff_eq_none.mp (Option.isSome_eq_false_iff.mp hread)
    obtain ⟨a, rfl⟩ : ∃ a, draft.put k a = draft' := by
      obtain ⟨⟨a, rest⟩, -, h⟩ := exists_of_bind_eq_ok (hvalue spaces_nil ended_nil)
      cases h
      exact ⟨a, rfl⟩
    have hother : ∀ e ∈ entries ms, e.1 ≠ k := by
      rintro e he rfl
      have := hfree e he
      rw [draft.get?_put] at this
      cases this
    rw [entries_setting hkey hname]
    refine ⟨List.nodup_cons.mpr ⟨?_, honce⟩, List.forall_mem_cons.mpr ⟨hunread, ?_⟩⟩
    · intro hmem
      obtain ⟨e, he, heq⟩ := List.mem_map.mp hmem
      exact hother e he heq
    · intro e he
      rw [← hfree e he, draft.get?_put_of_ne a (hother e he)]

/-- The settings are what the entries say, and defaults for what they do not mention. -/
structure Reflects (es : List (Key × List Char)) (s : Settings) : Prop where
  said : ∀ k v, (k, v) ∈ es → k.Denotes v (s.get k)
  defaults : ∀ k, (∀ v, (k, v) ∉ es) → s.get k = default.get k

theorem Draft.Holds.reflects {es : List (Key × List Char)} (h : shape.start.Holds draft es) :
    Reflects es draft.complete where
  said := by
    intro k v hmem
    obtain ⟨a, ha, hget⟩ := h.said k v hmem
    rwa [draft.get_complete, hget]
  defaults := by
    intro k hk
    rw [draft.get_complete, h.kept k hk, get?_start]
    rfl

theorem Reflects.unique {es es' : List (Key × List Char)} (hs : Reflects es s)
    (ht : Reflects es' t) (hmem : ∀ e, e ∈ es ↔ e ∈ es') : s = t := by
  apply eq_of_get
  intro k
  by_cases hk : ∃ v, (k, v) ∈ es
  · obtain ⟨v, hv⟩ := hk
    exact (hs.said k v hv).unique (ht.said k v ((hmem _).mp hv))
  · have habsent : ∀ v, (k, v) ∉ es := fun v hv => hk ⟨v, hv⟩
    rw [hs.defaults k habsent, ht.defaults k fun v hv => habsent v ((hmem _).mpr hv)]

theorem exists_ofJson {d : Document} (h : Typed d.members) :
    ∃ s, ofJson d.text = .ok s ∧ Reflects (entries d.members) s := by
  have hfree : ∀ e ∈ entries d.members, shape.start.get? e.1 = none := by
    intro e _
    exact Draft.get?_start e.1
  obtain ⟨draft, hgathers, hholds⟩ := gathers d.valid h hfree
  have hread : shape.reader.document d.text = .ok draft.complete :=
    Document.read (hgathers.reads rfl d.inner)
  exact ⟨draft.complete, by rw [ofJson, hread]; rfl, hholds.reflects⟩

/-- A rate that is written as an integer of at most 64 bits is that integer, if a double is. -/
theorem number?_rate {n : Numeral} {x : Float} (h : Key.rateLimit.Denotes v x)
    (hsigned : n.Signed v) (hfits : n.Fits) (hdouble : ∃ y, number? y = some (n.integer : ℚ)) :
    number? x = some (n.integer : ℚ) := by
  have hdenotes : ∀ number, n.value = .ok number → Key.rateLimit.Denotes v number.toDouble :=
    fun number hvalue => .inr ⟨n, number, hsigned, hvalue, rfl⟩
  rcases hfits.value with hvalue | hvalue | ⟨hzero, hvalue⟩
  · rw [h.unique (hdenotes _ hvalue)]
    exact number?_ofInt hdouble
  · rw [h.unique (hdenotes _ hvalue)]
    exact number?_ofInt hdouble
  · rw [h.unique (hdenotes _ hvalue), hzero]
    rfl

/-- How an object of settings is imported: by name, with defaults for what is not there, integers of
at most 64 bits without a rounding that they do not need. The order of the members plays no part,
and a setting that is given twice is an error, whatever its values are. -/
structure ImportLaws (d : Document) : Prop where
  imported : Typed d.members → ∃ s, ofJson d.text = .ok s ∧ Reflects (entries d.members) s
  integers : Typed d.members → ∀ (v : List Char) (n : Numeral),
    (.rateLimit, v) ∈ entries d.members → n.Signed v → n.Fits →
    (∃ y, number? y = some (n.integer : ℚ)) →
      ∃ s, ofJson d.text = .ok s ∧ number? s.rateLimit = some (n.integer : ℚ)
  unordered : Typed d.members → ∀ e : Document, (∀ m ∈ e.members, (decode m.key).isSome = true) →
    (entries d.members).Perm (entries e.members) → ofJson e.text = ofJson d.text
  repeated : ¬ ((entries d.members).map Prod.fst).Nodup →
    ∃ message, ofJson d.text = .error (.badSettings message)

theorem objects_imported_by_name (d : Document) : ImportLaws d where
  imported := exists_ofJson
  integers := by
    intro h v n hmem hsigned hfits hdouble
    obtain ⟨s, hs, hreflects⟩ := exists_ofJson h
    exact ⟨s, hs, number?_rate (hreflects.said .rateLimit v hmem) hsigned hfits hdouble⟩
  unordered := by
    intro h e hkeys hperm
    have he : Typed e.members := by
      refine ⟨hkeys, (hperm.map Prod.fst).nodup_iff.mp h.once, ?_⟩
      intro entry hmem
      exact h.values entry (hperm.mem_iff.mpr hmem)
    obtain ⟨s, hs, hreflects⟩ := exists_ofJson h
    obtain ⟨t, ht, hreflects'⟩ := exists_ofJson he
    rw [hs, ht, hreflects.unique hreflects' fun _ => hperm.mem_iff]
  repeated := by
    intro h
    have hnone : ¬ ∃ draft, Gathers shape shape.start d.members draft := by
      rintro ⟨draft, hgathers⟩
      exact h (nodup_of_gathers hgathers).1
    obtain ⟨defect, hrefused⟩ :=
      Document.refused (refuses_of_not_gathers Key.decides_field d.valid hnone d.inner)
    exact ⟨defect.message, by rw [ofJson, hrefused]; rfl⟩

def tight : Spacing := ⟨[], spaces_nil⟩

def loose : Spacing := ⟨[' '], by decide⟩

def member (front : Spacing) (key : List Glyph) (gap : Spacing) (value : List Char) : Member :=
  ⟨front, key, tight, gap, value, tight⟩

def noteKey : List Glyph := plainGlyphs ['n', 'o', 't', 'e'] (by decide)

def autoKey : List Glyph := plainGlyphs ['a', 'u', 't', 'o'] (by decide)

def ateLimit : List Glyph := plainGlyphs ['a', 't', 'e', 'L', 'i', 'm', 'i', 't'] (by decide)

/-- A rate with an escape in its key, and a flag behind a member that holds a key of the settings
itself. -/
def mixedObject : Document where
  lead := ⟨['\n'], by decide⟩
  members :=
    [member tight noteKey tight (listText
        [⟨tight, writeBool true, tight⟩,
          ⟨tight, objectText [member tight autoKey tight "null".toList] tight, tight⟩] tight),
      member tight (.code '0' '0' '7' '2' 0x72 rfl :: ateLimit) loose (Decimal.natural 3),
      member loose autoKey tight (writeBool false),
      member tight noteKey tight (objectText [] tight)]
  inner := tight
  trail := tight
  valid := by
    simp only [member, List.forall_mem_cons]
    refine ⟨.list _ ?_, .number (Numeral.signed_natural 3), .bool false, .object _ ?_, ?_⟩
    · simp only [List.forall_mem_cons]
      refine ⟨.bool true, .object _ ?_, ?_⟩
      · simp only [List.forall_mem_cons]
        exact ⟨.null, by simp⟩
      · simp
    · simp
    · simp

theorem entries_mixedObject :
    entries mixedObject.members = [(.rateLimit, Decimal.natural 3), (.auto, writeBool false)] := by
  decide

theorem denotes_three : Key.rateLimit.Denotes (Decimal.natural 3) (3.0 : Float) :=
  .inr ⟨_, .integer 3, Numeral.signed_natural 3, rfl, rfl⟩

theorem typed_mixedObject : Typed mixedObject.members where
  keys := by decide
  once := by
    rw [entries_mixedObject]
    decide
  values := by
    rw [entries_mixedObject]
    simp only [List.forall_mem_cons]
    exact ⟨⟨_, denotes_three⟩, ⟨false, rfl⟩, by simp⟩

theorem mixed_object_imported :
    mixedObject.text = "\n\x7b\"note\":[true,\x7b\"auto\":null\x7d]," ++
      "\"\\u0072ateLimit\": 3, \"auto\":false,\"note\":\x7b\x7d\x7d" ∧
    ofJson mixedObject.text = .ok { default with rateLimit := 3.0, auto := false } := by
  refine ⟨by decide +kernel, ?_⟩
  obtain ⟨s, hs, hreflects⟩ := (objects_imported_by_name mixedObject).imported typed_mixedObject
  have hexpected : Reflects (entries mixedObject.members)
      { default with rateLimit := 3.0, auto := false } := by
    rw [entries_mixedObject]
    constructor
    · intro k v hmem
      simp only [List.mem_cons, List.not_mem_nil, or_false] at hmem
      rcases hmem with heq | heq
      · cases heq
        exact denotes_three
      · cases heq
        rfl
    · intro k hk
      cases k with
      | instructions => rfl
      | tape => rfl
      | blank => rfl
      | rateLimit => exact absurd List.mem_cons_self (hk _)
      | auto => exact absurd (List.mem_cons_of_mem _ List.mem_cons_self) (hk _)
  rw [hs, hreflects.unique hexpected fun _ => Iff.rfl]

/-- A rate of more than 64 bits that a double is equal to. -/
def longRate : Document where
  lead := tight
  members := [member tight (.plain 'r' (by decide) (by decide) (by decide) :: ateLimit) loose
    (Decimal.natural 30000000000000012288)]
  inner := tight
  trail := tight
  valid := by
    simp only [member, List.forall_mem_cons]
    exact ⟨.number (Numeral.signed_natural 30000000000000012288), by simp⟩

theorem value_longRate : Numeral.value ⟨false, Decimal.natural 30000000000000012288, [], none⟩ =
    .ok (.double (Float.ofBits 0x43fa055690d9db82)) := by
  have habsorb : absorb 0 (Decimal.natural 30000000000000012288) =
      (3000000000000001228, ['8']) := by decide
  have hscale : scale (Float.ofNat 3000000000000001228) 1 =
      .ok (Float.ofBits 0x43fa055690d9db82) := by
    rw [scale, if_pos (by decide), if_neg (by decide), if_neg (by decide +kernel)]
    exact congrArg Except.ok (by decide +kernel)
  simp only [Numeral.value, habsorb]
  change (scale (Float.ofNat 3000000000000001228) 1).map _ = _
  rw [hscale]
  rfl

/-- It is rounded twice, and becomes the double in front of the one that is equal to it. -/
theorem long_integer_rounded :
    longRate.text = "\x7b\"rateLimit\": 30000000000000012288\x7d" ∧ Typed longRate.members ∧
    number? (Float.ofBits 0x43fa055690d9db83) = some 30000000000000012288 ∧
    ∃ s, ofJson longRate.text = .ok s ∧ number? s.rateLimit = some 30000000000000008192 := by
  have hentries :
      entries longRate.members = [(.rateLimit, Decimal.natural 30000000000000012288)] := by decide
  have hrate : Key.rateLimit.Denotes (Decimal.natural 30000000000000012288)
      (Float.ofBits 0x43fa055690d9db82) :=
    .inr ⟨_, _, Numeral.signed_natural _, value_longRate, rfl⟩
  have htyped : Typed longRate.members := by
    refine ⟨by decide, by rw [hentries]; decide, ?_⟩
    rw [hentries]
    simp only [List.forall_mem_cons]
    exact ⟨⟨_, hrate⟩, by simp⟩
  obtain ⟨s, hs, hreflects⟩ := exists_ofJson htyped
  have hs' : s.rateLimit = Float.ofBits 0x43fa055690d9db82 :=
    (hreflects.said .rateLimit _ (hentries ▸ List.mem_cons_self)).unique hrate
  refine ⟨by decide +kernel, htyped, ?_, s, hs, ?_⟩
  · rw [number?_of_unpack (s := .positive) (m := 7324218750000003) (e := 12) (by decide) rfl]
    norm_num [Float.Model.UnpackedFloat.Sign.apply]
  · rw [hs', number?_of_unpack (s := .positive) (m := 7324218750000002) (e := 12) (by decide) rfl]
    norm_num [Float.Model.UnpackedFloat.Sign.apply]

end SingleTape.Settings
