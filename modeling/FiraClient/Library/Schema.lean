import FiraClient.Library.Wire

/-!
# Reading messages by a schema

A schema lists the fields a reader knows. Reading a message goes over the bytes field by field and
changes the message at hand; a field that holds a message of its own reads it one level deeper, from
as many bytes as its length says or as there are.

`Absorbs` says what a run of bytes does to any message, whatever follows it. Runs of bytes compose,
so what a written message does when it is read is put together from what its fields do.
-/

namespace Wire

structure Field (M : Type*) where
  tag : ℕ
  read : ℕ → M → List UInt8 → Option (M × List UInt8)
  read_le : ∀ {depth message bytes result}, read depth message bytes = some result →
    result.2.length ≤ bytes.length

section Parse

variable {M : Type*}

def lookup (fields : List (Field M)) (tag : ℕ) : Option (Field M) :=
  fields.find? fun field => field.tag = tag

def parseLoop (fields : List (Field M)) (depth : ℕ) : Loop (M × List UInt8) (Option M) where
  body := fun state =>
    if state.2 = [] then .inl (some state.1)
    else
      match readTag state.2 with
      | none => .inl none
      | some (tag, rest) =>
          match lookup fields tag with
          | some field =>
              match field.read depth state.1 rest with
              | none => .inl none
              | some next => .inr next
          | none =>
              match skip depth tag rest with
              | none => .inl none
              | some rest => .inr (state.1, rest)
  size := fun state => state.2.length
  exhausted := fun _ => none

/-- What the bytes make of a message, if all of them can be read. -/
def parse (fields : List (Field M)) (depth : ℕ) (message : M) (bytes : List UInt8) : Option M :=
  (parseLoop fields depth).run (message, bytes)

variable {fields : List (Field M)} {depth : ℕ} {message : M}

theorem parseLoop_round {state next : M × List UInt8}
    (hbody : (parseLoop fields depth).body state = .inr next) :
    ∃ tag rest, readTag state.2 = some (tag, rest) ∧
      ((∃ field, lookup fields tag = some field ∧ field.read depth state.1 rest = some next) ∨
        ∃ after, skip depth tag rest = some after ∧ next = (state.1, after)) := by
  simp only [parseLoop] at hbody
  split at hbody
  · cases hbody
  split at hbody
  · cases hbody
  · rename_i tag rest htag
    refine ⟨tag, rest, htag, ?_⟩
    split at hbody
    · rename_i field hfield
      split at hbody
      · cases hbody
      · rename_i result hread
        cases hbody
        exact .inl ⟨field, hfield, hread⟩
    · split at hbody
      · cases hbody
      · rename_i after hskip
        cases hbody
        exact .inr ⟨after, hskip, rfl⟩

theorem parseLoop_leave {state : M × List UInt8} {outcome : Option M} {result : M}
    (hbody : (parseLoop fields depth).body state = .inl outcome) (houtcome : outcome = some result) :
    result = state.1 := by
  subst houtcome
  simp only [parseLoop] at hbody
  split at hbody
  · cases hbody
    rfl
  split at hbody
  · cases hbody
  · split at hbody <;> split at hbody <;> cases hbody

theorem parseLoop_decreasing : (parseLoop fields depth).Decreasing := by
  intro state next hbody
  obtain ⟨tag, rest, htag, hnext⟩ := parseLoop_round hbody
  have hlt := length_lt_of_readTag htag
  rcases hnext with ⟨field, hfield, hread⟩ | ⟨after, hskip, rfl⟩
  · exact (field.read_le hread).trans_lt hlt
  · exact (skip_shortens depth hskip).trans_lt hlt

theorem parse_nil : parse fields depth message [] = some message :=
  Loop.run_leave rfl

theorem parse_untagged {bytes : List UInt8} (hbytes : bytes ≠ []) (htag : readTag bytes = none) :
    parse fields depth message bytes = none := by
  refine Loop.run_leave ?_
  simp only [parseLoop, if_neg hbytes, htag]

theorem ne_nil_of_readTag {tag : ℕ} {bytes rest : List UInt8}
    (htag : readTag bytes = some (tag, rest)) : bytes ≠ [] := by
  rintro rfl
  exact Nat.not_lt_zero _ (length_lt_of_readTag htag)

theorem parse_known {tag : ℕ} {bytes rest : List UInt8} {field : Field M}
    (htag : readTag bytes = some (tag, rest)) (hfield : lookup fields tag = some field) :
    parse fields depth message bytes =
      (field.read depth message rest).bind fun next => parse fields depth next.1 next.2 := by
  have hbody : (parseLoop fields depth).body (message, bytes) =
      match field.read depth message rest with
      | none => .inl none
      | some next => .inr next := by
    simp only [parseLoop, if_neg (ne_nil_of_readTag htag), htag, hfield]
  unfold parse
  cases hread : field.read depth message rest with
  | none =>
      rw [hread] at hbody
      rw [Loop.run_leave hbody, Option.bind_none]
  | some next =>
      rw [hread] at hbody
      rw [Loop.run_round parseLoop_decreasing hbody, Option.bind_some]

theorem parse_unknown {tag : ℕ} {bytes rest : List UInt8} (htag : readTag bytes = some (tag, rest))
    (hfield : lookup fields tag = none) :
    parse fields depth message bytes =
      (skip depth tag rest).bind fun rest => parse fields depth message rest := by
  have hbody : (parseLoop fields depth).body (message, bytes) =
      match skip depth tag rest with
      | none => .inl none
      | some rest => .inr (message, rest) := by
    simp only [parseLoop, if_neg (ne_nil_of_readTag htag), htag, hfield]
  unfold parse
  cases hskip : skip depth tag rest with
  | none =>
      rw [hskip] at hbody
      rw [Loop.run_leave hbody, Option.bind_none]
  | some rest =>
      rw [hskip] at hbody
      rw [Loop.run_round parseLoop_decreasing hbody, Option.bind_some]

end Parse

/-! ### Kinds of fields -/

section Kinds

variable {M N α : Type*}

structure Decoder (α : Type*) where
  decode : List UInt8 → Option (α × List UInt8)
  decode_le : ∀ {bytes result}, decode bytes = some result → result.2.length ≤ bytes.length

def valueField (tag : ℕ) (decoder : Decoder α) (set : M → α → M) : Field M where
  tag := tag
  read := fun _ message bytes =>
    (decoder.decode bytes).map fun result => (set message result.1, result.2)
  read_le := by
    intro depth message bytes result hread
    obtain ⟨decoded, hdecode, rfl⟩ := Option.map_eq_some_iff.mp hread
    exact decoder.decode_le hdecode

/-- A length is what 64 bits of the numeral say, if it is less than `2 ^ 31`. -/
def readLength (bytes : List UInt8) : Option (ℕ × List UInt8) :=
  match Varint.decode 10 bytes with
  | none => none
  | some (value, rest) =>
      if value % 2 ^ 64 < 2 ^ 31 then some (value % 2 ^ 64, rest) else none

def readMessage (fields : List (Field N)) (get : M → N) (set : M → N → M) :
    ℕ → M → List UInt8 → Option (M × List UInt8)
  | 0, _, _ => none
  | depth + 1, message, bytes =>
      match readLength bytes with
      | none => none
      | some (length, rest) =>
          (parse fields depth (get message) (rest.take length)).map fun inner =>
            (set message inner, rest.drop length)

theorem readMessage_unsized (fields : List (Field N)) (get : M → N) (set : M → N → M) (depth : ℕ)
    (message : M) {bytes : List UInt8} (hread : readLength bytes = none) :
    readMessage fields get set depth message bytes = none := by
  cases depth with
  | zero => rfl
  | succ depth => simp only [readMessage, hread]

theorem readMessage_eq_some {fields : List (Field N)} {get : M → N} {set : M → N → M} {depth : ℕ}
    {message : M} {bytes : List UInt8} {next : M × List UInt8}
    (hread : readMessage fields get set depth message bytes = some next) :
    ∃ inner length rest value, depth = inner + 1 ∧ readLength bytes = some (length, rest) ∧
      parse fields inner (get message) (rest.take length) = some value ∧
      next = (set message value, rest.drop length) := by
  cases depth with
  | zero => cases hread
  | succ inner =>
      simp only [readMessage] at hread
      split at hread
      · cases hread
      · rename_i length rest hlength
        obtain ⟨value, hparse, rfl⟩ := Option.map_eq_some_iff.mp hread
        exact ⟨inner, length, rest, value, rfl, hlength, hparse, rfl⟩

theorem decode_of_readLength {length : ℕ} {bytes rest : List UInt8}
    (hread : readLength bytes = some (length, rest)) :
    ∃ value, Varint.decode 10 bytes = some (value, rest) ∧ length = value % 2 ^ 64 ∧
      length < 2 ^ 31 := by
  unfold readLength at hread
  split at hread
  · cases hread
  · rename_i value after hdecode
    split at hread
    · rename_i hsize
      obtain ⟨rfl, rfl⟩ := Prod.mk.inj (Option.some.inj hread)
      exact ⟨value, hdecode, rfl, hsize⟩
    · cases hread

theorem length_lt_of_readLength {length : ℕ} {bytes rest : List UInt8}
    (hread : readLength bytes = some (length, rest)) : rest.length < bytes.length := by
  obtain ⟨value, hdecode, -⟩ := decode_of_readLength hread
  exact Varint.length_lt_of_decode hdecode

theorem readLength_encode {length : ℕ} (hlength : length < 2 ^ 31) (rest : List UInt8) :
    readLength (Varint.encode length ++ rest) = some (length, rest) := by
  have hfits : length < 128 ^ 10 := hlength.trans (by decide)
  have hmod : length % 2 ^ 64 = length := Nat.mod_eq_of_lt (hlength.trans (by decide))
  simp only [readLength, Varint.decode_encode (by decide) hfits, hmod, if_pos hlength]

def messageField (tag : ℕ) (fields : List (Field N)) (get : M → N) (set : M → N → M) :
    Field M where
  tag := tag
  read := readMessage fields get set
  read_le := by
    intro depth message bytes result hread
    obtain ⟨inner, length, rest, value, -, hlength, -, rfl⟩ := readMessage_eq_some hread
    have hdrop : (rest.drop length).length ≤ rest.length := by simp
    exact hdrop.trans (length_lt_of_readLength hlength).le

end Kinds

/-! ### What a run of bytes does -/

section Absorbs

variable {M N α : Type*} {fields : List (Field M)} {depth : ℕ}

def Absorbs (fields : List (Field M)) (depth : ℕ) (bytes : List UInt8) (change : M → M) : Prop :=
  ∀ message rest, parse fields depth message (bytes ++ rest) =
    parse fields depth (change message) rest

theorem Absorbs.nil : Absorbs fields depth [] id := fun _ _ => rfl

theorem Absorbs.congr {bytes : List UInt8} {change change' : M → M}
    (habsorbs : Absorbs fields depth bytes change)
    (hchange : ∀ message, change message = change' message) :
    Absorbs fields depth bytes change' := by
  rwa [← funext hchange]

theorem Absorbs.append {first second : List UInt8} {change change' : M → M}
    (hfirst : Absorbs fields depth first change) (hsecond : Absorbs fields depth second change') :
    Absorbs fields depth (first ++ second) fun message => change' (change message) := by
  intro message rest
  rw [List.append_assoc, hfirst, hsecond]

theorem Absorbs.ite {condition : Prop} [Decidable condition] {bytes : List UInt8}
    {change : M → M} (habsorbs : condition → Absorbs fields depth bytes change) :
    Absorbs fields depth (if condition then bytes else []) fun message =>
      if condition then change message else message := by
  intro message rest
  by_cases hcondition : condition
  · simp only [if_pos hcondition]
    exact habsorbs hcondition message rest
  · simp only [if_neg hcondition, List.nil_append]

theorem Absorbs.flatMap {encode : α → List UInt8} {change : M → α → M} {items : List α}
    (habsorbs : ∀ item ∈ items, Absorbs fields depth (encode item) fun message =>
      change message item) :
    Absorbs fields depth (items.flatMap encode) fun message => items.foldl change message := by
  induction items with
  | nil => exact Absorbs.nil
  | cons item items ih =>
      have hfirst := habsorbs item List.mem_cons_self
      have hothers := ih fun other hother => habsorbs other (List.mem_cons_of_mem _ hother)
      exact hfirst.append hothers

theorem Absorbs.parse_eq {bytes : List UInt8} {change : M → M}
    (habsorbs : Absorbs fields depth bytes change) (message : M) :
    parse fields depth message bytes = some (change message) := by
  have hall := habsorbs message []
  rwa [List.append_nil, parse_nil] at hall

theorem absorbs_value {tag : ℕ} {decoder : Decoder α} {set : M → α → M}
    (hfield : lookup fields tag = some (valueField tag decoder set))
    (htag : 0 < tag ∧ tag < 2 ^ 32) {bytes : List UInt8} {value : α}
    (hdecode : ∀ rest, decoder.decode (bytes ++ rest) = some (value, rest)) :
    Absorbs fields depth (Varint.encode tag ++ bytes) fun message => set message value := by
  intro message rest
  rw [List.append_assoc, parse_known (readTag_encode htag.1 htag.2 _) hfield]
  simp only [valueField, hdecode, Option.map_some, Option.bind_some]

theorem absorbs_message {tag : ℕ} {inner : List (Field N)} {get : M → N} {set : M → N → M}
    (hfield : lookup fields tag = some (messageField tag inner get set))
    (htag : 0 < tag ∧ tag < 2 ^ 32) {bytes : List UInt8} {change : N → N}
    (hlength : bytes.length < 2 ^ 31) (hbytes : Absorbs inner depth bytes change) :
    Absorbs fields (depth + 1) (Varint.encode tag ++ (Varint.encode bytes.length ++ bytes))
      fun message => set message (change (get message)) := by
  intro message rest
  rw [List.append_assoc, parse_known (readTag_encode htag.1 htag.2 _) hfield]
  simp only [messageField, readMessage, List.append_assoc, readLength_encode hlength,
    List.take_left, List.drop_left, hbytes.parse_eq, Option.map_some, Option.bind_some]

/-- A message that is shorter than its length says ends where the bytes end. -/
theorem parse_message_short {tag : ℕ} {inner : List (Field N)} {get : M → N} {set : M → N → M}
    (hfield : lookup fields tag = some (messageField tag inner get set))
    (htag : 0 < tag ∧ tag < 2 ^ 32) {length : ℕ} {bytes : List UInt8}
    (hlength : length < 2 ^ 31) (hshort : bytes.length ≤ length) {message : M} {result : N}
    (hparse : parse inner depth (get message) bytes = some result) :
    parse fields (depth + 1) message (Varint.encode tag ++ (Varint.encode length ++ bytes)) =
      some (set message result) := by
  rw [parse_known (readTag_encode htag.1 htag.2 _) hfield]
  simp only [messageField, readMessage, readLength_encode hlength, List.take_of_length_le hshort,
    List.drop_of_length_le hshort, hparse, Option.map_some, Option.bind_some, parse_nil]

/-- **Fields the schema does not have** change nothing, unless they nest too deep. -/
theorem parse_foreign {foreign : Fields} (hforeign : foreign.WellFormed)
    (htags : ∀ tag ∈ foreign.tags, lookup fields tag = none) (message : M) (rest : List UInt8) :
    parse fields depth message (foreign.encode ++ rest) =
      if foreign.nesting ≤ depth then parse fields depth message rest else none := by
  induction foreign with
  | nil => simp only [Fields.encode, List.nil_append, Fields.nesting, Nat.zero_le, if_true]
  | scalar number payload others ih =>
      obtain ⟨hnumber, hpayload, hothers⟩ := hforeign
      have hhead := htags _ List.mem_cons_self
      have htail := ih hothers fun tag htag => htags tag (List.mem_cons_of_mem _ htag)
      simp only [Fields.encode, List.append_assoc]
      rw [parse_unknown (readTag_number hnumber payload.shape_lt _) hhead,
        skip_payload depth hnumber.1 hpayload, Option.bind_some, htail, Fields.nesting]
  | group number members others _ ih =>
      obtain ⟨hnumber, hmembers, hothers⟩ := hforeign
      have hhead := htags _ List.mem_cons_self
      have htail := ih hothers fun tag htag => htags tag (List.mem_cons_of_mem _ htag)
      simp only [Fields.encode, List.append_assoc]
      rw [parse_unknown (readTag_number hnumber (show 3 < 8 by decide) _) hhead,
        skip_members hmembers depth hnumber]
      by_cases hnesting : members.nesting < depth
      · have hiff : others.nesting ≤ depth ↔
            (Fields.group number members others).nesting ≤ depth := by
          simp only [Fields.nesting]
          omega
        simp only [if_pos hnesting, Option.bind_some, htail, hiff]
      · rw [if_neg hnesting, Option.bind_none, Fields.nesting, if_neg (by omega)]

theorem absorbs_foreign {foreign : Fields} (hforeign : foreign.WellFormed)
    (htags : ∀ tag ∈ foreign.tags, lookup fields tag = none)
    (hnesting : foreign.nesting ≤ depth) : Absorbs fields depth foreign.encode id := by
  intro message rest
  rw [parse_foreign hforeign htags, if_pos hnesting, id]

end Absorbs

end Wire
