import FiraClient.Library.Schema

/-!
# Schemas that grow

A schema extends another one if it has its fields, which do to the part of a message that the other
one has what they did before, and besides them fields that leave this part alone. Who reads by the
shorter schema then reads messages of the longer one as this part: what it does not know it passes
over, and finds the same field next, since either way a field ends where its tag says.
-/

namespace Wire

variable {M M' N : Type*}

/-- What its tag announces is what the field reads. -/
structure Field.Whole (field : Field M) : Prop where
  shape : field.tag % 8 ≠ 3
  ends : ∀ {payload : Payload}, payload.WellFormed → field.tag % 8 = payload.shape →
    ∀ {depth message rest result}, field.read depth message (payload.encode ++ rest) = some result →
      result.2 = rest

/-- `seen` does to what `see` shows of a message what the field does to the message. -/
structure Field.SeenAs (see : M' → M) (field : Field M') (seen : Field M) : Prop where
  tag : seen.tag = field.tag
  read : ∀ depth message bytes, seen.read depth (see message) bytes =
    (field.read depth message bytes).map fun result => (see result.1, result.2)

def Field.Unseen (see : M' → M) (field : Field M') : Prop :=
  ∀ ⦃depth message bytes result⦄, field.read depth message bytes = some result →
    see result.1 = see message

inductive Extends (see : M' → M) : List (Field M') → List (Field M) → Prop
  | nil : Extends see [] []
  | shared {field : Field M'} {seen : Field M} {fields : List (Field M')}
      {others : List (Field M)} (hwhole : field.Whole) (hseen : field.SeenAs see seen)
      (hextends : Extends see fields others) : Extends see (field :: fields) (seen :: others)
  | further {field : Field M'} {fields : List (Field M')} {others : List (Field M)}
      (hwhole : field.Whole) (hunseen : field.Unseen see)
      (hunknown : lookup others field.tag = none) (hextends : Extends see fields others) :
      Extends see (field :: fields) others

section Lookup

variable {see : M' → M} {fields : List (Field M')} {others : List (Field M)}

theorem lookup_cons (field : Field M) (others : List (Field M)) (tag : ℕ) :
    lookup (field :: others) tag = if field.tag = tag then some field else lookup others tag := by
  by_cases htag : field.tag = tag <;> simp [lookup, htag]

theorem Extends.lookup_eq_none (hextends : Extends see fields others) {tag : ℕ}
    (hnone : lookup fields tag = none) : lookup others tag = none := by
  induction hextends with
  | nil => rfl
  | shared hwhole hseen hextends ih =>
      rw [lookup_cons] at hnone ⊢
      rw [hseen.tag]
      split at hnone
      · cases hnone
      · rename_i htag
        rw [if_neg htag]
        exact ih hnone
  | further hwhole hunseen hunknown hextends ih =>
      rw [lookup_cons] at hnone
      split at hnone
      · cases hnone
      · exact ih hnone

theorem Extends.lookup_eq_some (hextends : Extends see fields others) {tag : ℕ} {field : Field M'}
    (hsome : lookup fields tag = some field) :
    field.tag = tag ∧ field.Whole ∧
      ((∃ seen, lookup others tag = some seen ∧ field.SeenAs see seen) ∨
        lookup others tag = none ∧ field.Unseen see) := by
  induction hextends with
  | nil => cases hsome
  | shared hwhole hseen hextends ih =>
      rw [lookup_cons] at hsome
      split at hsome
      · rename_i htag
        cases hsome
        refine ⟨htag, hwhole, .inl ⟨_, ?_, hseen⟩⟩
        rw [lookup_cons, hseen.tag, if_pos htag]
      · rename_i htag
        rw [lookup_cons, hseen.tag, if_neg htag]
        exact ih hsome
  | further hwhole hunseen hunknown hextends ih =>
      rw [lookup_cons] at hsome
      split at hsome
      · rename_i htag
        cases hsome
        exact ⟨htag, hwhole, .inr ⟨htag ▸ hunknown, hunseen⟩⟩
      · exact ih hsome

/-- **Older readers.** Of well formed fields that the longer schema reads as a message, the shorter
one reads what it sees of this message. -/
theorem Extends.parse (hextends : Extends see fields others) {written : Fields}
    (hwritten : written.WellFormed) {depth : ℕ} {message result : M'}
    (hparse : Wire.parse fields depth message written.encode = some result) :
    Wire.parse others depth (see message) written.encode = some (see result) := by
  induction written generalizing message with
  | nil =>
      rw [Fields.encode, parse_nil] at hparse ⊢
      rw [Option.some.inj hparse]
  | scalar number payload rest ih =>
      obtain ⟨hnumber, hpayload, hrest⟩ := hwritten
      simp only [Fields.encode] at hparse ⊢
      have htag := readTag_number hnumber payload.shape_lt (payload.encode ++ rest.encode)
      have hshape : (8 * number + payload.shape) % 8 = payload.shape := by
        have := payload.shape_lt
        omega
      cases hlookup : lookup fields (8 * number + payload.shape) with
      | none =>
          rw [parse_unknown htag hlookup, skip_payload depth hnumber.1 hpayload,
            Option.bind_some] at hparse
          rw [parse_unknown htag (hextends.lookup_eq_none hlookup),
            skip_payload depth hnumber.1 hpayload, Option.bind_some]
          exact ih hrest hparse
      | some field =>
          obtain ⟨hfield, hwhole, hothers⟩ := hextends.lookup_eq_some hlookup
          rw [parse_known htag hlookup] at hparse
          obtain ⟨next, hread, hparse⟩ := Option.bind_eq_some_iff.mp hparse
          have hends : next.2 = rest.encode := hwhole.ends hpayload (hfield ▸ hshape) hread
          rw [hends] at hparse
          have hsees := ih hrest hparse
          rcases hothers with ⟨seen, hseen, hseenAs⟩ | ⟨hunknown, hunseen⟩
          · rw [parse_known htag hseen, hseenAs.read, hread, Option.map_some, Option.bind_some,
              hends]
            exact hsees
          · rw [parse_unknown htag hunknown, skip_payload depth hnumber.1 hpayload,
              Option.bind_some, ← hunseen hread]
            exact hsees
  | group number members rest _ ih =>
      obtain ⟨hnumber, hmembers, hrest⟩ := hwritten
      simp only [Fields.encode] at hparse ⊢
      have htag := readTag_number hnumber (show 3 < 8 by decide)
        (members.encode ++ (Varint.encode (8 * number + 4) ++ rest.encode))
      have hlookup : lookup fields (8 * number + 3) = none := by
        by_contra hknown
        obtain ⟨field, hfield⟩ := Option.ne_none_iff_exists'.mp hknown
        obtain ⟨htag, hwhole, -⟩ := hextends.lookup_eq_some hfield
        exact hwhole.shape (by omega)
      rw [parse_unknown htag hlookup, skip_members hmembers depth hnumber] at hparse
      rw [parse_unknown htag (hextends.lookup_eq_none hlookup), skip_members hmembers depth hnumber]
      split at hparse
      · rw [Option.bind_some] at hparse
        rw [if_pos ‹_›, Option.bind_some]
        exact ih hrest hparse
      · cases hparse

end Lookup

/-! ### Message fields -/

section Messages

variable {tag : ℕ} {inner : List (Field N)}

theorem messageField_whole {get : M → N} {set : M → N → M} (hshape : tag % 8 = 2) :
    (messageField tag inner get set).Whole where
  shape := by
    rw [messageField, hshape]
    decide
  ends := by
    intro payload hpayload hfield depth message rest result hread
    cases depth with
    | zero => cases hread
    | succ depth =>
        cases payload with
        | delimited content =>
            have hlength := readLength_encode hpayload (content ++ rest)
            simp only [messageField, readMessage, Payload.encode, List.append_assoc, hlength]
              at hread
            obtain ⟨value, -, rfl⟩ := Option.map_eq_some_iff.mp hread
            exact List.drop_left
        | varint value => exact absurd (hshape.symm.trans hfield) (by simp [Payload.shape])
        | fixed64 content => exact absurd (hshape.symm.trans hfield) (by simp [Payload.shape])
        | fixed32 content => exact absurd (hshape.symm.trans hfield) (by simp [Payload.shape])

theorem messageField_seenAs {see : M' → M} {get : M → N} {set : M → N → M} {get' : M' → N}
    {set' : M' → N → M'} (hget : ∀ message, get (see message) = get' message)
    (hset : ∀ message value, set (see message) value = see (set' message value)) :
    (messageField tag inner get' set').SeenAs see (messageField tag inner get set) where
  tag := rfl
  read := by
    intro depth message bytes
    cases depth with
    | zero => rfl
    | succ depth =>
        simp only [messageField, readMessage, hget]
        cases readLength bytes with
        | none => rfl
        | some sized => simp [Option.map_map, Function.comp_def, hset]

theorem messageField_unseen {see : M' → M} {get : M' → N} {set : M' → N → M'}
    (hset : ∀ message value, see (set message value) = see message) :
    (messageField tag inner get set).Unseen see := by
  intro depth message bytes result hread
  obtain ⟨_, _, _, value, -, -, -, rfl⟩ := readMessage_eq_some hread
  exact hset message value

end Messages

end Wire
