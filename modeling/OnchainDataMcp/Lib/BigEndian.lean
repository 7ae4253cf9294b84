import OnchainDataMcp.Lib.Radix

/-!
# Big-endian numbers

* `encode` / `decode` — a number as so many bytes, the most significant first, and back;
* `decode_encode` / `encode_decode` — nothing is lost.
-/

namespace OnchainDataMcp.Lib.BigEndian

def encode (width n : ℕ) : List UInt8 := (Radix.padded 256 width n).map UInt8.ofNat

def decode (bytes : List UInt8) : ℕ := Radix.value 256 (bytes.map UInt8.toNat)

variable {width n : ℕ} {bytes : List UInt8}

theorem lt_of_mem_bytes (bytes : List UInt8) : ∀ d ∈ bytes.map UInt8.toNat, d < 256 := by
  intro d hd
  obtain ⟨b, -, rfl⟩ := List.mem_map.mp hd
  exact b.toNat_lt

theorem length_encode (h : n < 256 ^ width) : (encode width n).length = width := by
  rw [encode, List.length_map, Radix.length_padded (by decide) h]

theorem decode_encode (width n : ℕ) : decode (encode width n) = n := by
  have hbytes : (Radix.padded 256 width n).map (UInt8.toNat ∘ UInt8.ofNat) =
      Radix.padded 256 width n := by
    refine (List.map_congr_left fun d hd => ?_).trans (List.map_id' _)
    exact UInt8.toNat_ofNat_of_lt' (Radix.lt_of_mem_padded (by decide) hd)
  rw [decode, encode, List.map_map, hbytes, Radix.value_padded]

theorem encode_decode (bytes : List UInt8) : encode bytes.length (decode bytes) = bytes := by
  have hdigits : Radix.padded 256 bytes.length (decode bytes) = bytes.map UInt8.toNat := by
    have h := Radix.padded_value (by decide) (lt_of_mem_bytes bytes)
    rwa [List.length_map] at h
  rw [encode, hdigits, List.map_map]
  exact (List.map_congr_left fun b _ => UInt8.ofNat_toNat).trans (List.map_id' _)

theorem decode_lt (bytes : List UInt8) : decode bytes < 256 ^ bytes.length := by
  have h := Radix.value_lt (by decide) (lt_of_mem_bytes bytes)
  rwa [List.length_map] at h

/-- Bytes are told by their number and their value. -/
theorem eq_encode (hlength : bytes.length = width) (hvalue : decode bytes = n) :
    bytes = encode width n := by
  rw [← hlength, ← hvalue, encode_decode]

end OnchainDataMcp.Lib.BigEndian
