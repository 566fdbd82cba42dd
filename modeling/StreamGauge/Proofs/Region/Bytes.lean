import StreamGauge.Scalar.Codec

/-!
# Reading after writing

What `Bytes.put` leaves in a store:

* `read?_put_same`: a read of the written range gives the written bytes;
* `read?_put_disjoint`: a read of any other range gives what it gave before;
* `readValue?_put_same`, `readValue?_put_disjoint`: the same for a value stored as some kind, which
  comes back as `Kind.convert` makes it;
* `readValue?_of_zeroed`: a new store holds the zero of a kind (`Kind.zero`) wherever one is read.

Values of one kind lie in strides of its size, and two strides do not share a byte
(`strides_disjoint`).
-/

namespace StreamGauge

namespace Kind

/-- Zero, as a slot of zero bytes holds it. -/
def zero : Kind → Value
  | f32 => .ofFloat (Float32.ofBits 0).toFloat
  | f64 => .float ⟨0⟩
  | _ => .int 0

theorem decode_replicate (k : Kind) : k.decode (List.replicate k.size 0) = k.zero := by
  cases k <;> rfl

theorem zero_eq {k : Kind} (hk : k.isInteger = true) : k.zero = k.convert (.int 0) := by
  cases k with
  | f32 | f64 => cases hk
  | _ => rfl

end Kind

namespace Bytes

variable {store : Bytes}

theorem getElem?_put (store : Bytes) (offset : Nat) (bytes : List UInt8) (i : Nat) :
    (store.put offset bytes)[i]? =
      if offset ≤ i ∧ i < offset + bytes.length ∧ i < store.size then bytes[i - offset]?
      else store[i]? := by
  induction bytes generalizing store offset with
  | nil =>
    rw [if_neg (by simp only [List.length_nil]; omega)]
    rfl
  | cons b rest ih =>
    rw [put, ih, Array.size_setIfInBounds, Array.getElem?_setIfInBounds, List.length_cons]
    by_cases hi : offset = i
    · subst hi
      rw [if_neg (by omega), if_pos rfl]
      by_cases hs : offset < store.size
      · rw [if_pos hs, if_pos ⟨Nat.le_refl _, by omega, hs⟩, Nat.sub_self]
        rfl
      · rw [if_neg hs, if_neg (by omega)]
        exact (Array.getElem?_eq_none (by omega)).symm
    · rw [if_neg hi]
      by_cases hlt : offset < i
      · have hcons : (b :: rest)[i - offset]? = rest[i - (offset + 1)]? := by
          rw [show i - offset = i - (offset + 1) + 1 by omega, List.getElem?_cons_succ]
        rw [hcons]
        split <;> split <;> first | rfl | omega
      · rw [if_neg (by omega), if_neg (by omega)]

/-- The bytes that a read gives, one by one. -/
theorem read?_eq_some_iff {offset count : Nat} {bytes : List UInt8} :
    store.read? offset count = some bytes ↔
      offset + count ≤ store.size ∧ bytes.length = count ∧
        ∀ i < count, store[offset + i]? = bytes[i]? := by
  unfold read?
  constructor
  · intro h
    split at h
    case isFalse => cases h
    case isTrue hle =>
      cases h
      refine ⟨hle, by simp; omega, fun i hi => ?_⟩
      rw [Array.getElem?_toList, Array.getElem?_extract, if_pos (by omega)]
  · rintro ⟨hle, hlen, hget⟩
    rw [if_pos hle]
    congr 1
    apply List.ext_getElem?
    intro i
    by_cases hi : i < count
    · rw [Array.getElem?_toList, Array.getElem?_extract, if_pos (by omega)]
      exact hget i hi
    · rw [List.getElem?_eq_none (by simp; omega), List.getElem?_eq_none (by omega)]

theorem isSome_read? {offset count : Nat} (h : offset + count ≤ store.size) :
    ∃ bytes, store.read? offset count = some bytes := by
  simp [read?, h]

theorem read?_put_same (store : Bytes) (offset : Nat) (bytes : List UInt8)
    (h : offset + bytes.length ≤ store.size) :
    (store.put offset bytes).read? offset bytes.length = some bytes := by
  rw [read?_eq_some_iff, size_put]
  refine ⟨h, rfl, fun i hi => ?_⟩
  rw [getElem?_put, if_pos (by omega), Nat.add_sub_cancel_left]

theorem read?_put_disjoint {offset o count : Nat} {bytes : List UInt8}
    (h : o + count ≤ offset ∨ offset + bytes.length ≤ o) :
    (store.put offset bytes).read? o count = store.read? o count := by
  by_cases hle : o + count ≤ store.size
  · obtain ⟨bs, hbs⟩ := isSome_read? hle
    obtain ⟨-, hlen, hget⟩ := read?_eq_some_iff.mp hbs
    rw [hbs, read?_eq_some_iff, size_put]
    refine ⟨hle, hlen, fun i hi => ?_⟩
    rw [getElem?_put, if_neg (by omega)]
    exact hget i hi
  · simp [read?, hle]

/-- A stored value comes back as its kind keeps it. -/
theorem readValue?_put_same {k : Kind} {offset : Nat} {v : Value}
    (h : offset + k.size ≤ store.size) :
    (store.put offset (k.encode v)).readValue? k offset = some (k.convert v) := by
  have hread := read?_put_same store offset (k.encode v)
    (by rwa [Kind.length_encode])
  rw [Kind.length_encode] at hread
  rw [readValue?, hread]
  rfl

theorem readValue?_put_disjoint {k k' : Kind} {offset o : Nat} {v : Value}
    (h : o + k'.size ≤ offset ∨ offset + k.size ≤ o) :
    (store.put offset (k.encode v)).readValue? k' o = store.readValue? k' o := by
  rw [readValue?, read?_put_disjoint (by rwa [Kind.length_encode]), readValue?]

theorem isSome_readValue? (store : Bytes) {k : Kind} {offset : Nat}
    (h : offset + k.size ≤ store.size) : ∃ v, store.readValue? k offset = some v := by
  obtain ⟨bs, hbs⟩ := isSome_read? h
  exact ⟨k.decode bs, by rw [readValue?, hbs]; rfl⟩

@[simp]
theorem size_zeroed (count : Nat) : (zeroed count).size = count := Array.size_replicate

theorem readValue?_of_zeroed {k : Kind} {offset count : Nat} (h : offset + k.size ≤ count) :
    (zeroed count).readValue? k offset = some k.zero := by
  have hread : (zeroed count).read? offset k.size = some (List.replicate k.size 0) := by
    rw [read?_eq_some_iff, size_zeroed]
    refine ⟨h, List.length_replicate, fun i hi => ?_⟩
    rw [zeroed, Array.getElem?_replicate, if_pos (by omega), List.getElem?_replicate, if_pos hi]
  rw [readValue?, hread, Option.map_some, Kind.decode_replicate]

theorem readValue?_zeroed {k : Kind} (hk : k.isInteger = true) {offset count : Nat}
    (h : offset + k.size ≤ count) :
    (zeroed count).readValue? k offset = some (k.convert (.int 0)) := by
  rw [readValue?_of_zeroed h, Kind.zero_eq hk]

/-! ## Strides -/

/-- One stride ends before the next one begins. -/
theorem stride_le {j k : Nat} (h : j < k) (size : Nat) : j * size + size ≤ k * size := by
  rw [← Nat.succ_mul]
  exact Nat.mul_le_mul_right size h

theorem strides_disjoint {j k : Nat} (hne : j ≠ k) (size : Nat) :
    j * size + size ≤ k * size ∨ k * size + size ≤ j * size := by
  rcases Nat.lt_or_gt_of_ne hne with hlt | hgt
  · exact .inl (stride_le hlt size)
  · exact .inr (stride_le hgt size)

end Bytes

end StreamGauge
