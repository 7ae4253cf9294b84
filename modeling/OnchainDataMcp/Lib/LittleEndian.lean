import OnchainDataMcp.Lib.Radix

/-!
# Little-endian numbers

* `encode` / `decode` — a number as so many bytes, the least significant first, and back;
* `decode_encode` — it is read back.
-/

namespace OnchainDataMcp.Lib.LittleEndian

def encode (width n : ℕ) : List UInt8 := (Radix.padded 256 width n).reverse.map UInt8.ofNat

def decode (bytes : List UInt8) : ℕ := Radix.value 256 (bytes.reverse.map UInt8.toNat)

variable {width n : ℕ}

theorem length_encode (h : n < 256 ^ width) : (encode width n).length = width := by
  rw [encode, List.length_map, List.length_reverse, Radix.length_padded (by decide) h]

theorem decode_encode (width n : ℕ) : decode (encode width n) = n := by
  have hbytes : (Radix.padded 256 width n).map (UInt8.toNat ∘ UInt8.ofNat) =
      Radix.padded 256 width n := by
    refine (List.map_congr_left fun d hd => ?_).trans (List.map_id' _)
    exact UInt8.toNat_ofNat_of_lt' (Radix.lt_of_mem_padded (by decide) hd)
  rw [decode, encode, ← List.map_reverse, List.reverse_reverse, List.map_map, hbytes,
    Radix.value_padded]

theorem decode_lt {bytes : List UInt8} : decode bytes < 256 ^ bytes.length := by
  have hdigits : ∀ d ∈ bytes.reverse.map UInt8.toNat, d < 256 := by
    intro d hd
    obtain ⟨b, -, rfl⟩ := List.mem_map.mp hd
    exact b.toNat_lt
  have h := Radix.value_lt (by decide) hdigits
  rwa [List.length_map, List.length_reverse] at h

end OnchainDataMcp.Lib.LittleEndian
