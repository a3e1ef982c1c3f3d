import FiraClient.Library.Schema

/-!
# Messages no larger than their bytes

Where no field adds more to the size of a message than the bytes it reads, with one for its tag, a
message that is read is no larger than the one at hand and the bytes together. With the size of the
message as it would be written, what is read is written again in no more bytes.
-/

namespace Wire

variable {M N α : Type*}

/-- What the field reads pays for what it adds, as long as everything stays below the limit. -/
def Field.Conserves (size : M → ℕ) (limit : ℕ) (field : Field M) : Prop :=
  ∀ ⦃depth message bytes result⦄, field.read depth message bytes = some result →
    size message + bytes.length < limit →
    size result.1 + result.2.length ≤ size message + bytes.length + 1

section Parse

variable {fields : List (Field M)} {size : M → ℕ} {limit : ℕ}

theorem lookup_mem {tag : ℕ} {field : Field M} (hfield : lookup fields tag = some field) :
    field ∈ fields :=
  List.mem_of_find?_eq_some hfield

/-- **Sizes.** The message has no more than what was there and what came. -/
theorem parse_size_le (hfields : ∀ field ∈ fields, field.Conserves size limit) {depth : ℕ}
    {message result : M} {bytes : List UInt8}
    (hparse : parse fields depth message bytes = some result)
    (hlimit : size message + bytes.length < limit) :
    size result ≤ size message + bytes.length := by
  refine Loop.run_induction parseLoop_decreasing
    (fun state outcome => ∀ result, outcome = some result →
      size state.1 + state.2.length < limit → size result ≤ size state.1 + state.2.length)
    ?_ ?_ (message, bytes) result hparse hlimit
  · intro state outcome hbody result houtcome _
    rw [parseLoop_leave hbody houtcome]
    exact Nat.le_add_right _ _
  · intro state next hbody ih result hresult hstate
    obtain ⟨tag, rest, htag, hnext⟩ := parseLoop_round hbody
    have hshorter := length_lt_of_readTag htag
    have hpaid : size next.1 + next.2.length ≤ size state.1 + state.2.length := by
      rcases hnext with ⟨field, hfield, hread⟩ | ⟨after, hskip, rfl⟩
      · have hconserves := hfields field (lookup_mem hfield) hread (by omega)
        omega
      · have hskipped := skip_shortens depth hskip
        change size state.1 + after.length ≤ _
        omega
    exact (ih result hresult (by omega)).trans hpaid

end Parse

section Kinds

variable {size : M → ℕ} {limit tag : ℕ}

theorem valueField_conserves {decoder : Decoder α} {set : M → α → M}
    (hset : ∀ message bytes result, decoder.decode bytes = some result →
      size (set message result.1) + result.2.length ≤ size message + bytes.length + 1) :
    (valueField tag decoder set).Conserves size limit := by
  intro depth message bytes result hread _
  obtain ⟨decoded, hdecode, rfl⟩ := Option.map_eq_some_iff.mp hread
  exact hset message bytes decoded hdecode

theorem length_encode_le_of_readLength {length : ℕ} {bytes rest : List UInt8}
    (hread : readLength bytes = some (length, rest)) :
    (Varint.encode length).length + rest.length ≤ bytes.length := by
  obtain ⟨value, hdecode, rfl, -⟩ := decode_of_readLength hread
  have hvalue := Varint.length_encode_le_of_decode hdecode
  have hmod := Varint.length_encode_mono (Nat.mod_le value (2 ^ 64))
  omega

/-- A message field adds its tag and its length to the message it holds. -/
theorem messageField_conserves {inner : List (Field N)} {innerSize : N → ℕ} {get : M → N}
    {set : M → N → M} (hinner : ∀ field ∈ inner, field.Conserves innerSize limit)
    (hget : ∀ message, innerSize (get message) ≤ size message)
    (hset : ∀ message value length, innerSize value ≤ innerSize (get message) + length →
      size message + length < limit →
      size (set message value) ≤ size message + 1 + (Varint.encode length).length + length) :
    (messageField tag inner get set).Conserves size limit := by
  intro depth message bytes result hread hlimit
  obtain ⟨below, length, rest, value, -, hlength, hparse, rfl⟩ := readMessage_eq_some hread
  have hnumeral := length_encode_le_of_readLength hlength
  have hmono : (Varint.encode (rest.take length).length).length ≤
      (Varint.encode length).length :=
    Varint.length_encode_mono (List.length_take_le _ _)
  have hsplit : (rest.take length).length + (rest.drop length).length = rest.length := by
    rw [← List.length_append, List.take_append_drop]
  have hthere := hget message
  have hvalue := parse_size_le hinner hparse (by omega)
  have hpaid := hset message value _ hvalue (by omega)
  simp only
  omega

end Kinds

end Wire
