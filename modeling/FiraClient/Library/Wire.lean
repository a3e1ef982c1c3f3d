import FiraClient.Library.Loop
import FiraClient.Library.Varint
import Mathlib.Data.List.Find

/-!
# Tagged fields on the wire

A message is a run of fields, each a tag and what belongs to it; the tag names the field in its
upper bits and the shape of what follows in its lower three. A reader of messages of one type knows
some tags and passes over the rest, whose shapes are enough to find where they end. Groups and
messages inside others nest at most as deep as the reader is given.

A schema says what each known field does to the message read so far. What a run of bytes does to a
message is then a function of it, and runs written one after the other compose.
-/

namespace Wire

/-! ### Pieces -/

/-- The first `count` bytes and the rest, if there are that many. -/
def cut (count : ℕ) (bytes : List UInt8) : Option (List UInt8 × List UInt8) :=
  if count ≤ bytes.length then some (bytes.take count, bytes.drop count) else none

def littleEndian : List UInt8 → ℕ
  | [] => 0
  | byte :: bytes => byte.toNat + 256 * littleEndian bytes

def toLittleEndian : ℕ → ℕ → List UInt8
  | 0, _ => []
  | count + 1, n => UInt8.ofNat (n % 256) :: toLittleEndian count (n / 256)

/-- A tag is not zero, and 32 bits of the numeral count. -/
def readTag (bytes : List UInt8) : Option (ℕ × List UInt8) :=
  match Varint.decode 10 bytes with
  | none => none
  | some (value, rest) => if value % 2 ^ 32 = 0 then none else some (value % 2 ^ 32, rest)

theorem cut_append {count : ℕ} {front rest : List UInt8} (hfront : front.length = count) :
    cut count (front ++ rest) = some (front, rest) := by
  subst hfront
  simp [cut]

theorem length_of_cut {count : ℕ} {bytes front rest : List UInt8}
    (hcut : cut count bytes = some (front, rest)) : count + rest.length = bytes.length := by
  unfold cut at hcut
  split at hcut
  · rename_i hle
    obtain ⟨-, rfl⟩ := Prod.mk.inj (Option.some.inj hcut)
    rw [List.length_drop]
    exact Nat.add_sub_cancel' hle
  · cases hcut

theorem length_le_of_cut {count : ℕ} {bytes front rest : List UInt8}
    (hcut : cut count bytes = some (front, rest)) : rest.length ≤ bytes.length :=
  length_of_cut hcut ▸ Nat.le_add_left _ _

theorem length_toLittleEndian (count n : ℕ) : (toLittleEndian count n).length = count := by
  induction count generalizing n with
  | zero => rfl
  | succ count ih => rw [toLittleEndian, List.length_cons, ih]

theorem littleEndian_toLittleEndian {count n : ℕ} (hn : n < 256 ^ count) :
    littleEndian (toLittleEndian count n) = n := by
  induction count generalizing n with
  | zero =>
      rw [pow_zero, Nat.lt_one_iff] at hn
      rw [hn]
      rfl
  | succ count ih =>
      have hdiv : n / 256 < 256 ^ count := by
        rw [Nat.div_lt_iff_lt_mul (by decide), ← pow_succ]
        exact hn
      rw [toLittleEndian, littleEndian, ih hdiv, Varint.toNat_ofNat_of_lt (by omega)]
      omega

theorem decode_of_readTag {tag : ℕ} {bytes rest : List UInt8}
    (htag : readTag bytes = some (tag, rest)) :
    ∃ value, Varint.decode 10 bytes = some (value, rest) ∧ tag = value % 2 ^ 32 ∧ tag ≠ 0 := by
  unfold readTag at htag
  split at htag
  · cases htag
  · rename_i value after hdecode
    split at htag
    · cases htag
    · rename_i hzero
      obtain ⟨rfl, rfl⟩ := Prod.mk.inj (Option.some.inj htag)
      exact ⟨value, hdecode, rfl, hzero⟩

theorem length_lt_of_readTag {tag : ℕ} {bytes rest : List UInt8}
    (htag : readTag bytes = some (tag, rest)) : rest.length < bytes.length := by
  obtain ⟨value, hdecode, -⟩ := decode_of_readTag htag
  exact Varint.length_lt_of_decode hdecode

theorem readTag_eq_some {tag : ℕ} {bytes rest : List UInt8}
    (htag : readTag bytes = some (tag, rest)) : 0 < tag ∧ tag < 2 ^ 32 := by
  obtain ⟨value, -, rfl, hne⟩ := decode_of_readTag htag
  exact ⟨Nat.pos_of_ne_zero hne, Nat.mod_lt _ (by decide)⟩

theorem readTag_encode {tag : ℕ} (hpos : 0 < tag) (htag : tag < 2 ^ 32) (rest : List UInt8) :
    readTag (Varint.encode tag ++ rest) = some (tag, rest) := by
  have hfits : tag < 128 ^ 10 := htag.trans (by decide)
  rw [readTag, Varint.decode_encode (by decide) hfits]
  simp only [Nat.mod_eq_of_lt htag, if_neg hpos.ne']

/-! ### Fields nobody asked for -/

/-- What a tag announces, passed over; `skipGroup` passes over the members of a group, up to and
with the tag that ends the group of that number. -/
def skipShape (skipGroup : ℕ → List UInt8 → Option (List UInt8)) (tag : ℕ) (bytes : List UInt8) :
    Option (List UInt8) :=
  if tag / 8 = 0 then none
  else
    match tag % 8 with
    | 0 => (Varint.decode 10 bytes).map Prod.snd
    | 1 => (cut 8 bytes).map Prod.snd
    | 2 =>
        match Varint.decode 10 bytes with
        | none => none
        | some (length, rest) =>
            if length % 2 ^ 32 < 2 ^ 31 then (cut (length % 2 ^ 32) rest).map Prod.snd else none
    | 3 => skipGroup (tag / 8) bytes
    | 5 => (cut 4 bytes).map Prod.snd
    | _ => none

def groupLoop (skipMember : ℕ → List UInt8 → Option (List UInt8)) (number : ℕ) :
    Loop (List UInt8) (Option (List UInt8)) where
  body := fun bytes =>
    match readTag bytes with
    | none => .inl none
    | some (tag, rest) =>
        if tag % 8 = 4 then .inl (if tag / 8 = number then some rest else none)
        else
          match skipMember tag rest with
          | none => .inl none
          | some rest => .inr rest
  size := List.length
  exhausted := fun _ => none

def skip : ℕ → ℕ → List UInt8 → Option (List UInt8)
  | 0 => skipShape fun _ _ => none
  | depth + 1 => skipShape fun number bytes => (groupLoop (skip depth) number).run bytes

def Shortens (pass : ℕ → List UInt8 → Option (List UInt8)) : Prop :=
  ∀ ⦃tag bytes rest⦄, pass tag bytes = some rest → rest.length ≤ bytes.length

theorem skipShape_shortens {skipGroup : ℕ → List UInt8 → Option (List UInt8)}
    (hgroup : Shortens skipGroup) : Shortens (skipShape skipGroup) := by
  intro tag bytes rest hskip
  unfold skipShape at hskip
  split at hskip
  · cases hskip
  split at hskip
  · obtain ⟨⟨value, after⟩, hdecode, rfl⟩ := Option.map_eq_some_iff.mp hskip
    exact (Varint.length_lt_of_decode hdecode).le
  · obtain ⟨⟨front, after⟩, hcut, rfl⟩ := Option.map_eq_some_iff.mp hskip
    exact length_le_of_cut hcut
  · split at hskip
    · cases hskip
    · rename_i length after hdecode
      split at hskip
      · obtain ⟨⟨front, after'⟩, hcut, rfl⟩ := Option.map_eq_some_iff.mp hskip
        exact (length_le_of_cut hcut).trans (Varint.length_lt_of_decode hdecode).le
      · cases hskip
  · exact hgroup hskip
  · obtain ⟨⟨front, after⟩, hcut, rfl⟩ := Option.map_eq_some_iff.mp hskip
    exact length_le_of_cut hcut
  · cases hskip

section Group

variable {skipMember : ℕ → List UInt8 → Option (List UInt8)} {number : ℕ}

theorem groupLoop_body_round {bytes rest : List UInt8}
    (hbody : (groupLoop skipMember number).body bytes = .inr rest) :
    ∃ tag after, readTag bytes = some (tag, after) ∧ tag % 8 ≠ 4 ∧
      skipMember tag after = some rest := by
  simp only [groupLoop] at hbody
  split at hbody
  · cases hbody
  · rename_i tag after htag
    split at hbody
    · cases hbody
    · rename_i hshape
      split at hbody
      · cases hbody
      · rename_i rest' hskip
        cases hbody
        exact ⟨tag, after, htag, hshape, hskip⟩

theorem groupLoop_decreasing (hmember : Shortens skipMember) :
    (groupLoop skipMember number).Decreasing := by
  intro bytes rest hbody
  obtain ⟨tag, after, htag, -, hskip⟩ := groupLoop_body_round hbody
  exact (hmember hskip).trans_lt (length_lt_of_readTag htag)

section Rounds

variable {tag : ℕ} {bytes rest : List UInt8}

theorem groupLoop_untagged (htag : readTag bytes = none) :
    (groupLoop skipMember number).run bytes = none := by
  apply Loop.run_leave
  simp only [groupLoop, htag]

theorem groupLoop_endGroup (htag : readTag bytes = some (tag, rest)) (hshape : tag % 8 = 4) :
    (groupLoop skipMember number).run bytes = if tag / 8 = number then some rest else none := by
  apply Loop.run_leave
  simp only [groupLoop, htag, if_pos hshape]

theorem groupLoop_member (hmember : Shortens skipMember)
    (htag : readTag bytes = some (tag, rest)) (hshape : tag % 8 ≠ 4) :
    (groupLoop skipMember number).run bytes =
      (skipMember tag rest).bind (groupLoop skipMember number).run := by
  cases hskip : skipMember tag rest with
  | none =>
      have hleave : (groupLoop skipMember number).body bytes = .inl none := by
        simp only [groupLoop, htag, if_neg hshape, hskip]
      exact Loop.run_leave hleave
  | some after =>
      have hround : (groupLoop skipMember number).body bytes = .inr after := by
        simp only [groupLoop, htag, if_neg hshape, hskip]
      exact Loop.run_round (groupLoop_decreasing hmember) hround

end Rounds

theorem groupLoop_shortens (hmember : Shortens skipMember) :
    Shortens fun number bytes => (groupLoop skipMember number).run bytes := by
  intro number bytes rest hrun
  refine Loop.run_induction (groupLoop_decreasing hmember)
    (fun bytes result => ∀ rest, result = some rest → rest.length ≤ bytes.length) ?_ ?_
    bytes rest hrun
  · intro bytes result hbody rest hresult
    subst hresult
    simp only [groupLoop] at hbody
    split at hbody
    · cases hbody
    · rename_i tag after htag
      split at hbody
      · split at hbody
        · cases hbody
          exact (length_lt_of_readTag htag).le
        · cases hbody
      · split at hbody <;> cases hbody
  · intro bytes next hbody ih rest hresult
    exact (ih rest hresult).trans (groupLoop_decreasing hmember hbody).le

end Group

theorem skip_shortens (depth : ℕ) : Shortens (skip depth) := by
  induction depth with
  | zero => exact skipShape_shortens fun _ _ _ hskip => by cases hskip
  | succ depth ih => exact skipShape_shortens (groupLoop_shortens ih)

/-! ### Well formed fields

Any fields, written as a sender that knows them would: a reader that does not know them passes over
all of them exactly when their groups nest no deeper than it may follow. -/

inductive Payload where
  | varint (value : ℕ)
  | fixed64 (content : List UInt8)
  | delimited (content : List UInt8)
  | fixed32 (content : List UInt8)

inductive Fields where
  | nil
  | scalar (number : ℕ) (payload : Payload) (rest : Fields)
  | group (number : ℕ) (members rest : Fields)

def Payload.shape : Payload → ℕ
  | varint _ => 0
  | fixed64 _ => 1
  | delimited _ => 2
  | fixed32 _ => 5

def Payload.encode : Payload → List UInt8
  | varint value => Varint.encode value
  | fixed64 content => content
  | delimited content => Varint.encode content.length ++ content
  | fixed32 content => content

def Payload.WellFormed : Payload → Prop
  | varint value => value < 2 ^ 64
  | fixed64 content => content.length = 8
  | delimited content => content.length < 2 ^ 31
  | fixed32 content => content.length = 4

namespace Fields

def encode : Fields → List UInt8
  | nil => []
  | scalar number payload rest =>
      Varint.encode (8 * number + payload.shape) ++ (payload.encode ++ rest.encode)
  | group number members rest =>
      Varint.encode (8 * number + 3) ++
        (members.encode ++ (Varint.encode (8 * number + 4) ++ rest.encode))

def WellFormed : Fields → Prop
  | nil => True
  | scalar number payload rest =>
      (0 < number ∧ number < 2 ^ 29) ∧ payload.WellFormed ∧ rest.WellFormed
  | group number members rest =>
      (0 < number ∧ number < 2 ^ 29) ∧ members.WellFormed ∧ rest.WellFormed

/-- How deep the groups nest. -/
def nesting : Fields → ℕ
  | nil => 0
  | scalar _ _ rest => rest.nesting
  | group _ members rest => max (members.nesting + 1) rest.nesting

def tags : Fields → List ℕ
  | nil => []
  | scalar number payload rest => (8 * number + payload.shape) :: rest.tags
  | group number _ rest => (8 * number + 3) :: rest.tags

end Fields

theorem Payload.shape_lt (payload : Payload) : payload.shape < 8 := by
  cases payload <;> simp [shape]

theorem Payload.shape_ne_endGroup (payload : Payload) : payload.shape ≠ 4 := by
  cases payload <;> simp [shape]

theorem readTag_number {number shape : ℕ} (hnumber : 0 < number ∧ number < 2 ^ 29)
    (hshape : shape < 8) (rest : List UInt8) :
    readTag (Varint.encode (8 * number + shape) ++ rest) = some (8 * number + shape, rest) :=
  readTag_encode (by omega) (by omega) rest

theorem skipShape_payload (skipGroup : ℕ → List UInt8 → Option (List UInt8)) {number : ℕ}
    (hnumber : 0 < number) {payload : Payload} (hpayload : payload.WellFormed)
    (rest : List UInt8) :
    skipShape skipGroup (8 * number + payload.shape) (payload.encode ++ rest) = some rest := by
  have hdiv : ¬ (8 * number + payload.shape) / 8 = 0 := by omega
  have hmod : (8 * number + payload.shape) % 8 = payload.shape := by
    have := payload.shape_lt
    omega
  rw [skipShape, if_neg hdiv, hmod]
  cases payload with
  | varint value =>
      have hfits : value < 128 ^ 10 := lt_trans hpayload (by decide)
      simp only [Payload.shape, Payload.encode, Varint.decode_encode (by decide) hfits,
        Option.map_some]
  | fixed64 content =>
      simp only [Payload.shape, Payload.encode, cut_append hpayload, Option.map_some]
  | delimited content =>
      have hlength : content.length < 2 ^ 31 := hpayload
      have hfits : content.length < 128 ^ 10 := hlength.trans (by decide)
      have hmod : content.length % 2 ^ 32 = content.length :=
        Nat.mod_eq_of_lt (hlength.trans (by decide))
      simp only [Payload.shape, Payload.encode, List.append_assoc,
        Varint.decode_encode (by decide) hfits, hmod, if_pos hlength, cut_append rfl,
        Option.map_some]
  | fixed32 content =>
      simp only [Payload.shape, Payload.encode, cut_append hpayload, Option.map_some]

theorem skip_payload (depth : ℕ) {number : ℕ} (hnumber : 0 < number) {payload : Payload}
    (hpayload : payload.WellFormed) (rest : List UInt8) :
    skip depth (8 * number + payload.shape) (payload.encode ++ rest) = some rest := by
  cases depth with
  | zero => exact skipShape_payload _ hnumber hpayload rest
  | succ depth => exact skipShape_payload _ hnumber hpayload rest

theorem skip_group {depth number : ℕ} (hnumber : 0 < number) (bytes : List UInt8) :
    skip (depth + 1) (8 * number + 3) bytes = (groupLoop (skip depth) number).run bytes := by
  have hdiv : (8 * number + 3) / 8 = number := by omega
  have hmod : (8 * number + 3) % 8 = 3 := by omega
  simp only [skip, skipShape, hdiv, if_neg hnumber.ne', hmod]

theorem skip_group_zero {number : ℕ} (bytes : List UInt8) :
    skip 0 (8 * number + 3) bytes = none := by
  have hmod : (8 * number + 3) % 8 = 3 := by omega
  rw [skip, skipShape, hmod]
  split <;> rfl

theorem skip_endGroup (depth : ℕ) {tag : ℕ} (hshape : tag % 8 = 4) (bytes : List UInt8) :
    skip depth tag bytes = none := by
  cases depth <;> rw [skip, skipShape, hshape] <;> split <;> rfl

/-- **Groups.** The members of a group are passed over if their own groups nest no deeper than is
left to the reader, and otherwise refused. -/
theorem groupLoop_members {members : Fields} (hmembers : members.WellFormed) (depth : ℕ)
    {number : ℕ} (hnumber : 0 < number ∧ number < 2 ^ 29) (rest : List UInt8) :
    (groupLoop (skip depth) number).run
        (members.encode ++ (Varint.encode (8 * number + 4) ++ rest)) =
      if members.nesting ≤ depth then some rest else none := by
  induction members generalizing depth number rest with
  | nil =>
      have hdiv : (8 * number + 4) / 8 = number := by omega
      have hmod : (8 * number + 4) % 8 = 4 := by omega
      have htag := readTag_number hnumber (show 4 < 8 by decide) rest
      rw [Fields.encode, List.nil_append, groupLoop_endGroup htag hmod, if_pos hdiv,
        Fields.nesting, if_pos (Nat.zero_le depth)]
  | scalar inner payload others ih =>
      obtain ⟨hinner, hpayload, hothers⟩ := hmembers
      have hshape : (8 * inner + payload.shape) % 8 ≠ 4 := by
        have hlt := payload.shape_lt
        have hne := payload.shape_ne_endGroup
        omega
      have htag := readTag_number hinner payload.shape_lt
      simp only [Fields.encode, List.append_assoc]
      rw [groupLoop_member (skip_shortens depth) (htag _) hshape,
        skip_payload depth hinner.1 hpayload, Option.bind_some, ih hothers depth hnumber rest,
        Fields.nesting]
  | group inner deeper others ihDeeper ihOthers =>
      obtain ⟨hinner, hdeeper, hothers⟩ := hmembers
      have hshape : (8 * inner + 3) % 8 ≠ 4 := by omega
      have htag := readTag_number hinner (show 3 < 8 by decide)
      simp only [Fields.encode, List.append_assoc]
      rw [groupLoop_member (skip_shortens depth) (htag _) hshape]
      cases depth with
      | zero => rw [skip_group_zero, Option.bind_none, Fields.nesting, if_neg (by omega)]
      | succ depth =>
          rw [skip_group hinner.1, ihDeeper hdeeper depth hinner]
          by_cases hnesting : deeper.nesting ≤ depth
          · have hiff : others.nesting ≤ depth + 1 ↔
                (Fields.group inner deeper others).nesting ≤ depth + 1 := by
              simp only [Fields.nesting]
              omega
            rw [if_pos hnesting, Option.bind_some, ihOthers hothers (depth + 1) hnumber rest]
            simp only [hiff]
          · rw [if_neg hnesting, Option.bind_none, Fields.nesting, if_neg (by omega)]

theorem skip_members {members : Fields} (hmembers : members.WellFormed) (depth : ℕ) {number : ℕ}
    (hnumber : 0 < number ∧ number < 2 ^ 29) (rest : List UInt8) :
    skip depth (8 * number + 3) (members.encode ++ (Varint.encode (8 * number + 4) ++ rest)) =
      if members.nesting < depth then some rest else none := by
  cases depth with
  | zero => rw [skip_group_zero, if_neg (Nat.not_lt_zero _)]
  | succ depth =>
      rw [skip_group hnumber.1, groupLoop_members hmembers depth hnumber]
      simp only [Nat.lt_succ_iff]

end Wire
