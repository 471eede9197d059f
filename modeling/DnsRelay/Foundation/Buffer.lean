import DnsRelay.Foundation.Outcome
import Mathlib.Data.Nat.Bitwise
import Mathlib.Data.List.Basic

/-!
# Octet buffers with checked access

A buffer is a list of octets of the object's size. `load` and `store` are stuck
outside the object; `octet` and `overlay` are their total counterparts, about which
the frame lemmas speak. Sixteen and thirty-two bit fields are big-endian.
-/
namespace DnsRelay.Foundation

abbrev Bytes := List UInt8

/-- The octet at an index, zero past the end. -/
def octet (b : Bytes) (i : Nat) : UInt8 := b.getD i 0

/-- Replace the octets from `off` on by `bs`. -/
def overlay (b : Bytes) (off : Nat) (bs : Bytes) : Bytes :=
  b.take off ++ bs ++ b.drop (off + bs.length)

variable {ε : Type}

def load (b : Bytes) (i : Nat) : Outcome ε UInt8 :=
  match b[i]? with
  | some v => .ok v
  | none => .stuck

def store (b : Bytes) (off : Nat) (bs : Bytes) : Outcome ε Bytes :=
  if off + bs.length ≤ b.length then .ok (overlay b off bs) else .stuck

/-- `memcpy` of the first `n` octets of `src` to `b + off`. -/
def copyFrom (b : Bytes) (off : Nat) (src : Bytes) (n : Nat) : Outcome ε Bytes :=
  if n ≤ src.length then store b off (src.take n) else .stuck

theorem load_of_lt {b : Bytes} {i : Nat} (h : i < b.length) :
    (load b i : Outcome ε UInt8) = .ok (octet b i) := by
  simp [load, octet, h]

theorem store_of_le {b bs : Bytes} {off : Nat} (h : off + bs.length ≤ b.length) :
    (store b off bs : Outcome ε Bytes) = .ok (overlay b off bs) :=
  if_pos h

theorem copyFrom_of_le {b src : Bytes} {off n : Nat} (hn : n ≤ src.length)
    (h : off + n ≤ b.length) :
    (copyFrom b off src n : Outcome ε Bytes) = .ok (overlay b off (src.take n)) := by
  rw [copyFrom, if_pos hn, store_of_le (by rw [List.length_take]; omega)]

theorem octet_of_lt {b : Bytes} {i : Nat} (h : i < b.length) : octet b i = b[i] := by
  simp [octet, h]

theorem length_overlay {b bs : Bytes} {off : Nat} (h : off + bs.length ≤ b.length) :
    (overlay b off bs).length = b.length := by
  simp only [overlay, List.length_append, List.length_take, List.length_drop]
  omega

/-- Frame: an overlay changes nothing outside its window. -/
theorem octet_overlay_outside {b bs : Bytes} {off i : Nat} (h : off + bs.length ≤ b.length)
    (hi : i < off ∨ off + bs.length ≤ i) : octet (overlay b off bs) i = octet b i := by
  have htake : (b.take off).length = off := by rw [List.length_take]; omega
  simp only [octet, overlay, List.getD_eq_getElem?_getD]
  rcases hi with hlt | hge
  · rw [List.append_assoc, List.getElem?_append_left (by omega), List.getElem?_take_of_lt hlt]
  · rw [List.getElem?_append_right (by simp only [List.length_append]; omega),
      List.getElem?_drop]
    congr 2
    simp only [List.length_append]
    omega

theorem octet_overlay_inside {b bs : Bytes} {off j : Nat} (h : off + bs.length ≤ b.length)
    (hj : j < bs.length) : octet (overlay b off bs) (off + j) = octet bs j := by
  have htake : (b.take off).length = off := by rw [List.length_take]; omega
  simp only [octet, overlay, List.getD_eq_getElem?_getD]
  rw [List.append_assoc, List.getElem?_append_right (by omega), htake, Nat.add_sub_cancel_left,
    List.getElem?_append_left hj]

theorem take_overlay {b bs : Bytes} {off : Nat} (h : off + bs.length ≤ b.length) :
    (overlay b off bs).take (off + bs.length) = b.take off ++ bs := by
  have htake : (b.take off).length = off := by rw [List.length_take]; omega
  rw [overlay, List.take_append_of_le_length (by simp only [List.length_append]; omega)]
  exact List.take_of_length_le (by simp only [List.length_append]; omega)

theorem overlay_nil (b : Bytes) (off : Nat) : overlay b off [] = b := by
  simp [overlay]

theorem drop_overlay {b bs : Bytes} {off n : Nat} (h : off + bs.length ≤ b.length)
    (hn : off + bs.length ≤ n) : (overlay b off bs).drop n = b.drop n := by
  have htake : (b.take off).length = off := by rw [List.length_take]; omega
  have hpre : (b.take off ++ bs).length = off + bs.length := by rw [List.length_append, htake]
  obtain ⟨k, rfl⟩ := Nat.exists_eq_add_of_le hn
  rw [overlay, ← hpre, List.drop_length_add_append, List.drop_drop]

/-- Two writes that meet are one write. -/
theorem overlay_overlay {b xs ys : Bytes} {off : Nat}
    (h : off + xs.length + ys.length ≤ b.length) :
    overlay (overlay b off xs) (off + xs.length) ys = overlay b off (xs ++ ys) := by
  have hx : off + xs.length ≤ b.length := by omega
  rw [overlay, take_overlay hx, drop_overlay hx (by omega)]
  simp [overlay, Nat.add_assoc, List.append_assoc]

theorem overlay_overlay_before {b xs ys : Bytes} {off : Nat}
    (h : off + xs.length + ys.length ≤ b.length) :
    overlay (overlay b (off + xs.length) ys) off xs = overlay b off (xs ++ ys) := by
  have htake : (b.take (off + xs.length)).length = off + xs.length := by
    rw [List.length_take]; omega
  have hfirst : (overlay b (off + xs.length) ys).take off = b.take off := by
    rw [overlay, List.append_assoc, List.take_append_of_le_length (by omega), List.take_take,
      Nat.min_eq_left (by omega)]
  have hrest : (overlay b (off + xs.length) ys).drop (off + xs.length) =
      ys ++ b.drop (off + xs.length + ys.length) := by
    rw [overlay, List.append_assoc]
    exact List.drop_left' htake
  rw [overlay, hfirst, hrest]
  simp [overlay, Nat.add_assoc, List.append_assoc]

/-- A second write at the same place covers the front of the first. -/
theorem overlay_overlay_start {b xs ys : Bytes} (hle : ys.length ≤ xs.length) :
    overlay (overlay b 0 xs) 0 ys = overlay b 0 (ys ++ xs.drop ys.length) := by
  simp only [overlay, List.take_zero, List.nil_append, Nat.zero_add, List.length_append,
    List.length_drop, Nat.add_sub_cancel' hle, List.append_assoc]
  rw [List.drop_append_of_le_length hle]

theorem store_append {b xs ys : Bytes} {off : Nat}
    (h : off + xs.length + ys.length ≤ b.length) :
    (store (overlay b off xs) (off + xs.length) ys : Outcome ε Bytes) =
      .ok (overlay b off (xs ++ ys)) := by
  rw [store_of_le (by rw [length_overlay (by omega)]; exact h), overlay_overlay h]

theorem take_overlay_zero {b xs : Bytes} (h : xs.length ≤ b.length) :
    (overlay b 0 xs).take xs.length = xs := by
  have hfit : 0 + xs.length ≤ b.length := by omega
  simpa using take_overlay hfit

def be16 (hi lo : UInt8) : UInt16 := (hi.toUInt16 <<< 8) ||| lo.toUInt16

def be32 (b0 b1 b2 b3 : UInt8) : UInt32 :=
  (b0.toUInt32 <<< 24) ||| (b1.toUInt32 <<< 16) ||| (b2.toUInt32 <<< 8) ||| b3.toUInt32

def bytes16 (v : UInt16) : Bytes := [((v >>> 8) &&& 0xff).toUInt8, (v &&& 0xff).toUInt8]

def bytes32 (v : UInt32) : Bytes :=
  [((v >>> 24) &&& 0xff).toUInt8, ((v >>> 16) &&& 0xff).toUInt8,
    ((v >>> 8) &&& 0xff).toUInt8, (v &&& 0xff).toUInt8]

@[simp] theorem length_bytes16 (v : UInt16) : (bytes16 v).length = 2 := rfl

@[simp] theorem length_bytes32 (v : UInt32) : (bytes32 v).length = 4 := rfl

theorem be16_toNat (hi lo : UInt8) : (be16 hi lo).toNat = hi.toNat * 256 + lo.toNat := by
  have hhi := hi.toNat_lt
  have hlo := lo.toNat_lt
  simp only [be16, UInt16.toNat_or, UInt16.toNat_shiftLeft, UInt8.toNat_toUInt16]
  have hs : hi.toNat <<< 8 = hi.toNat * 256 := Nat.shiftLeft_eq _ _
  have hm : hi.toNat <<< (UInt16.toNat 8 % 16) % 2 ^ 16 = hi.toNat <<< 8 := by
    change hi.toNat <<< 8 % 2 ^ 16 = _
    omega
  rw [hm, ← Nat.shiftLeft_add_eq_or_of_lt (by omega), hs]

theorem bytes16_toNat (v : UInt16) :
    ((v >>> 8) &&& 0xff).toUInt8.toNat = v.toNat / 256 ∧
      (v &&& 0xff).toUInt8.toNat = v.toNat % 256 := by
  have hv : v.toNat < 65536 := v.toNat_lt
  constructor
  · rw [UInt16.toNat_toUInt8, UInt16.toNat_and]
    change ((v >>> 8).toNat &&& 2 ^ 8 - 1) % 2 ^ 8 = _
    rw [Nat.and_two_pow_sub_one_eq_mod, UInt16.toNat_shiftRight]
    change v.toNat >>> 8 % _ % _ = _
    rw [Nat.shiftRight_eq_div_pow]
    omega
  · rw [UInt16.toNat_toUInt8, UInt16.toNat_and]
    change (v.toNat &&& 2 ^ 8 - 1) % 2 ^ 8 = _
    rw [Nat.and_two_pow_sub_one_eq_mod]
    omega

@[simp] theorem be16_bytes16 (v : UInt16) :
    be16 ((v >>> 8) &&& 0xff).toUInt8 (v &&& 0xff).toUInt8 = v := by
  apply UInt16.toNat_inj.mp
  rw [be16_toNat, (bytes16_toNat v).1, (bytes16_toNat v).2]
  omega

private theorem byte_of_shift (v k : UInt32) (hk : k.toNat < 32) :
    ((v >>> k) &&& 0xff).toUInt8.toNat = v.toNat / 2 ^ k.toNat % 256 := by
  rw [UInt32.toNat_toUInt8, UInt32.toNat_and]
  change ((v >>> k).toNat &&& 2 ^ 8 - 1) % 2 ^ 8 = _
  rw [Nat.and_two_pow_sub_one_eq_mod, UInt32.toNat_shiftRight, Nat.mod_eq_of_lt hk,
    Nat.shiftRight_eq_div_pow]
  omega

theorem be32_toNat (b0 b1 b2 b3 : UInt8) : (be32 b0 b1 b2 b3).toNat =
    ((b0.toNat * 256 + b1.toNat) * 256 + b2.toNat) * 256 + b3.toNat := by
  have h0 := b0.toNat_lt
  have h1 := b1.toNat_lt
  have h2 := b2.toNat_lt
  have h3 := b3.toNat_lt
  have s0 : (b0.toUInt32 <<< 24).toNat = b0.toNat <<< 24 := by
    rw [UInt32.toNat_shiftLeft, UInt8.toNat_toUInt32]
    change b0.toNat <<< 24 % 2 ^ 32 = _
    rw [Nat.shiftLeft_eq]; omega
  have s1 : (b1.toUInt32 <<< 16).toNat = b1.toNat <<< 16 := by
    rw [UInt32.toNat_shiftLeft, UInt8.toNat_toUInt32]
    change b1.toNat <<< 16 % 2 ^ 32 = _
    rw [Nat.shiftLeft_eq]; omega
  have s2 : (b2.toUInt32 <<< 8).toNat = b2.toNat <<< 8 := by
    rw [UInt32.toNat_shiftLeft, UInt8.toNat_toUInt32]
    change b2.toNat <<< 8 % 2 ^ 32 = _
    rw [Nat.shiftLeft_eq]; omega
  have e1 : b0.toNat <<< 24 ||| b1.toNat <<< 16 = (b0.toNat * 256 + b1.toNat) <<< 16 := by
    rw [← Nat.shiftLeft_add_eq_or_of_lt (by rw [Nat.shiftLeft_eq]; omega)]
    simp only [Nat.shiftLeft_eq]; omega
  have e2 : (b0.toNat * 256 + b1.toNat) <<< 16 ||| b2.toNat <<< 8 =
      ((b0.toNat * 256 + b1.toNat) * 256 + b2.toNat) <<< 8 := by
    rw [← Nat.shiftLeft_add_eq_or_of_lt (by rw [Nat.shiftLeft_eq]; omega)]
    simp only [Nat.shiftLeft_eq]; omega
  simp only [be32, UInt32.toNat_or, s0, s1, s2, UInt8.toNat_toUInt32]
  rw [e1, e2, ← Nat.shiftLeft_add_eq_or_of_lt (by omega), Nat.shiftLeft_eq]

@[simp] theorem be32_bytes32 (v : UInt32) :
    be32 ((v >>> 24) &&& 0xff).toUInt8 ((v >>> 16) &&& 0xff).toUInt8
      ((v >>> 8) &&& 0xff).toUInt8 (v &&& 0xff).toUInt8 = v := by
  have hv : v.toNat < 4294967296 := v.toNat_lt
  have h3 : (v &&& 0xff).toUInt8.toNat = v.toNat % 256 := by
    simpa using byte_of_shift v 0 (by decide)
  apply UInt32.toNat_inj.mp
  rw [be32_toNat, byte_of_shift v 24 (by decide), byte_of_shift v 16 (by decide),
    byte_of_shift v 8 (by decide), h3]
  change ((v.toNat / 2 ^ 24 % 256 * 256 + v.toNat / 2 ^ 16 % 256) * 256 + v.toNat / 2 ^ 8 % 256) *
    256 + v.toNat % 256 = v.toNat
  omega

/-- The sixteen-bit field at an index. -/
def u16At (b : Bytes) (i : Nat) : UInt16 := be16 (octet b i) (octet b (i + 1))

/-- The thirty-two-bit field at an index. -/
def u32At (b : Bytes) (i : Nat) : UInt32 :=
  be32 (octet b i) (octet b (i + 1)) (octet b (i + 2)) (octet b (i + 3))

theorem octet_append_add (front b : Bytes) (i : Nat) :
    octet (front ++ b) (front.length + i) = octet b i := by
  rw [octet, octet, List.getD_append_right _ _ _ _ (Nat.le_add_right _ _), Nat.add_sub_cancel_left]

theorem u16At_append_add (front b : Bytes) (i : Nat) :
    u16At (front ++ b) (front.length + i) = u16At b i := by
  simp only [u16At, Nat.add_assoc, octet_append_add]

theorem u32At_append_add (front b : Bytes) (i : Nat) :
    u32At (front ++ b) (front.length + i) = u32At b i := by
  simp only [u32At, Nat.add_assoc, octet_append_add]

theorem u16At_overlay {b : Bytes} {off : Nat} {v : UInt16} (h : off + 2 ≤ b.length) :
    u16At (overlay b off (bytes16 v)) off = v := by
  have hfit : off + (bytes16 v).length ≤ b.length := h
  have h0 := octet_overlay_inside hfit (j := 0) (by simp)
  have h1 := octet_overlay_inside hfit (j := 1) (by simp)
  rw [Nat.add_zero] at h0
  rw [u16At, h0, h1]
  exact be16_bytes16 v

theorem u32At_overlay {b : Bytes} {off : Nat} {v : UInt32} (h : off + 4 ≤ b.length) :
    u32At (overlay b off (bytes32 v)) off = v := by
  have hfit : off + (bytes32 v).length ≤ b.length := h
  have h0 := octet_overlay_inside hfit (j := 0) (by simp)
  have h1 := octet_overlay_inside hfit (j := 1) (by simp)
  have h2 := octet_overlay_inside hfit (j := 2) (by simp)
  have h3 := octet_overlay_inside hfit (j := 3) (by simp)
  rw [Nat.add_zero] at h0
  rw [u32At, h0, h1, h2, h3]
  exact be32_bytes32 v

end DnsRelay.Foundation
