import EmbeddedC.Lib.OnesComplement

/-!
# Homework 19: the checksum of the IPv4 header

The client fills in an IPv4 header, adds up its ten 16-bit words and stores the complement of the
sum.  A receiver accepts the header if the one's complement sum of all ten words, the checksum
included, is `0xFFFF`.

* `IpHeader`, `IpHeader.words`: `struct iphdr` in the memory of a little-endian machine;
* `checksum`: the loop over the header and the folding, with the types of the source;
* `Accepted`: what a receiver computes, in either byte order;
* `header_accepted`: the headers that are accepted; `header_rejected`: one that is not.

The source reads the words as `short`, so that a word of `0x8000` or more counts `0x10000` too
little, and it folds the sum once.
-/

namespace EmbeddedC.LinkLayer

open OnesComplement

/-- `struct iphdr`, with the values the fields have in memory. -/
structure IpHeader where
  ihl : BitVec 4
  version : BitVec 4
  tos : BitVec 8
  totLen : BitVec 16
  id : BitVec 16
  fragOff : BitVec 16
  ttl : BitVec 8
  protocol : BitVec 8
  check : BitVec 16
  saddr : BitVec 32
  daddr : BitVec 32
  deriving DecidableEq

/-- The ten words of a header, as a little-endian machine reads them. -/
def IpHeader.words (h : IpHeader) : List (BitVec 16) :=
  [h.tos ++ (h.version ++ h.ihl), h.totLen, h.id, h.fragOff, h.protocol ++ h.ttl, h.check,
    h.saddr.setWidth 16, h.saddr.extractLsb' 16 16, h.daddr.setWidth 16, h.daddr.extractLsb' 16 16]

/-- The loop: `temp_csum` is an `int`, `*csum_ptr` a `short`. -/
def tempCsum (words : List (BitVec 16)) : BitVec 32 :=
  words.foldl (fun temp word => temp + word.signExtend 32) 0

/-- `(temp_csum & 0xFFFF) + (short)(temp_csum >> 16)`, stored into 16 bits. -/
def foldCsum (temp : BitVec 32) : BitVec 16 :=
  ((temp &&& 0xFFFF) + ((temp.sshiftRight 16).setWidth 16).signExtend 32).setWidth 16

/-- The checksum that the client computes for a header. -/
def checksum (h : IpHeader) : BitVec 16 := ~~~ foldCsum (tempCsum h.words)

/-- The header that the client sends: `check` is set to 0 before the checksum is computed. -/
def client (h : IpHeader) : IpHeader :=
  { h with check := checksum { h with check := 0 } }

/-- `htons` -/
def htons (x : BitVec 16) : BitVec 16 := x.setWidth 8 ++ x.extractLsb' 8 8

/-- The header as the source fills it in, for given addresses: 20 bytes of header, 8 of the UDP
header and 10 of the message, with `IPHDR_ID`, `IPHDR_DONT_FRAGMENT_FLAG`, `IPHDR_TTL` and
`IPPROTO_UDP`. -/
def ipHeader (saddr daddr : BitVec 32) : IpHeader where
  ihl := 5
  version := 4
  tos := 0
  totLen := htons (20 + 8 + 10)
  id := htons 0x7F00
  fragOff := htons 0x4000
  ttl := 64
  protocol := 17
  check := 0
  saddr := saddr
  daddr := daddr

/-- What a receiver checks: the one's complement sum of the words, in its own byte order. -/
structure Accepted (h : IpHeader) : Prop where
  littleEndian : ocSum 0x10000 (h.words.map BitVec.toNat) = 0xFFFF
  bigEndian : ocSum 0x10000 (h.words.map fun word => swap 0x100 word.toNat) = 0xFFFF

/-- The sum of the words. -/
def IpHeader.total (h : IpHeader) : ℕ := (h.words.map BitVec.toNat).sum

/-- The words with the sign bit. -/
def IpHeader.negative (h : IpHeader) : ℕ := h.words.countP BitVec.msb

/-! ### The receiver's sum -/

theorem accepted_iff (h : IpHeader) : Accepted h ↔ 0xFFFF ∣ h.total ∧ h.total ≠ 0 := by
  have hlt : ∀ w ∈ h.words.map BitVec.toNat, w < 0x10000 := by
    simpa using fun (w : BitVec 16) _ => w.isLt
  have hswap := ocSum_swap (b := 0x100) (by omega) hlt
  rw [List.map_map] at hswap
  have hsum := ocSum_eq_max_iff (B := 0x10000) (by omega) hlt
  exact ⟨fun hacc => hsum.1 hacc.littleEndian, fun hdvd => ⟨hsum.2 hdvd, hswap.2 (hsum.2 hdvd)⟩⟩

/-! ### The client's sum -/

theorem toNat_signExtend (w : BitVec 16) : (w.signExtend 32).toNat =
    w.toNat + if w.msb then 2 ^ 32 - 2 ^ 16 else 0 := by
  rw [BitVec.toNat_signExtend, BitVec.toNat_setWidth, Nat.mod_eq_of_lt (by omega)]

/-- The loop adds `0x10000` too little for every word with the sign bit. -/
theorem toNat_foldl (words : List (BitVec 16)) (temp : BitVec 32) :
    (words.foldl (fun temp word => temp + word.signExtend 32) temp).toNat =
      (temp.toNat + (words.map BitVec.toNat).sum +
        words.countP BitVec.msb * (2 ^ 32 - 2 ^ 16)) % 2 ^ 32 := by
  induction words generalizing temp with
  | nil => simpa using (Nat.mod_eq_of_lt temp.isLt).symm
  | cons w words ih =>
    rw [List.foldl_cons, ih, BitVec.toNat_add, toNat_signExtend, List.map_cons, List.sum_cons,
      List.countP_cons]
    split <;> omega

theorem toNat_tempCsum (h : IpHeader) :
    (tempCsum h.words).toNat = (h.total + h.negative * (2 ^ 32 - 2 ^ 16)) % 2 ^ 32 := by
  rw [tempCsum, toNat_foldl, IpHeader.total, IpHeader.negative]
  simp

/-- The carries of the sum, as a `short`. -/
theorem sshiftRight_setWidth (temp : BitVec 32) :
    (temp.sshiftRight 16).setWidth 16 = temp.extractLsb' 16 16 := by
  ext i hi
  rw [BitVec.getElem_setWidth, BitVec.getLsbD_sshiftRight, BitVec.getElem_extractLsb',
    if_pos (by omega), decide_eq_false (by omega), Bool.not_false, Bool.true_and]

theorem toNat_foldCsum (temp : BitVec 32) :
    (foldCsum temp).toNat = (temp.toNat % 2 ^ 16 + temp.toNat / 2 ^ 16) % 2 ^ 16 := by
  have hand : temp.toNat &&& (0xFFFF : BitVec 32).toNat = temp.toNat % 2 ^ 16 :=
    Nat.and_two_pow_sub_one_eq_mod _ 16
  rw [foldCsum, sshiftRight_setWidth, BitVec.toNat_setWidth, BitVec.toNat_add, toNat_signExtend,
    BitVec.toNat_and, hand, BitVec.extractLsb'_toNat, Nat.shiftRight_eq_div_pow]
  split <;> omega

theorem toNat_checksum (h : IpHeader) :
    (checksum h).toNat = 2 ^ 16 - 1 - (foldCsum (tempCsum h.words)).toNat := BitVec.toNat_not

/-! ### Which headers are accepted -/

/-- A word with the sign bit contributes half of the range to the sum. -/
theorem negative_mul_le (words : List (BitVec 16)) :
    words.countP BitVec.msb * 0x8000 ≤ (words.map BitVec.toNat).sum := by
  induction words with
  | nil => simp
  | cons w words ih =>
    rw [List.countP_cons, List.map_cons, List.sum_cons]
    split <;> rename_i hw
    · have hle : 0x8000 ≤ w.toNat := by simpa [BitVec.msb_eq_decide] using hw
      rw [Nat.succ_mul, Nat.add_comm w.toNat]
      exact Nat.add_le_add ih hle
    · exact ih.trans (Nat.le_add_left _ _)

theorem total_lt (h : IpHeader) : h.total < 10 * 2 ^ 16 := by
  have hle : ∀ w ∈ h.words.map BitVec.toNat, w ≤ 2 ^ 16 - 1 := by
    simpa using fun (w : BitVec 16) _ => Nat.le_of_lt_succ w.isLt
  have hsum := List.sum_le_card_nsmul _ _ hle
  rw [List.length_map] at hsum
  exact hsum.trans_lt (by simp [IpHeader.words])

theorem negative_le (h : IpHeader) : h.negative ≤ 10 := List.countP_le_length

/-- The checksum is one of the words. -/
theorem total_check (h : IpHeader) (check : BitVec 16) :
    { h with check := check }.total = { h with check := 0 }.total + check.toNat := by
  have hzero : (0 : BitVec 16).toNat = 0 := rfl
  simp only [IpHeader.total, IpHeader.words, List.map_cons, List.sum_cons]
  omega

/-- The words count as they should, and folding the sum once is enough. -/
structure Folds (h : IpHeader) : Prop where
  nonneg : ∀ word ∈ h.words, word.msb = false
  no_carry : h.total % 0x10000 + h.total / 0x10000 < 0x10000

theorem folds_iff (h : IpHeader) :
    Folds h ↔ h.negative = 0 ∧ h.total % 0x10000 + h.total / 0x10000 < 0x10000 := by
  have hnonneg : h.negative = 0 ↔ ∀ word ∈ h.words, word.msb = false := by
    simp [IpHeader.negative, List.countP_eq_zero]
  rw [hnonneg]
  exact ⟨fun hf => ⟨hf.nonneg, hf.no_carry⟩, fun hf => ⟨hf.1, hf.2⟩⟩

/-- The folded sum, in terms of the low half `r` of the sum of the words, its carries `q`, and the
number `k` of sign bits: each of them takes one from the carries. -/
theorem fold_eq {q r k temp : ℕ} (hr : r < 0x10000) (hq : q < 10) (hk : k ≤ 10)
    (htemp : temp = (0x10000 * q + r + k * (2 ^ 32 - 2 ^ 16)) % 2 ^ 32) :
    (temp % 2 ^ 16 + temp / 2 ^ 16) % 2 ^ 16 =
      if q + r < k then q + r + 0x10000 - k
      else if q + r < k + 0x10000 then q + r - k else q + r - k - 0x10000 := by
  have hlow : temp % 2 ^ 16 = r := by omega
  have hhigh : temp / 2 ^ 16 = if k ≤ q then q - k else q + 0x10000 - k := by
    split <;> omega
  rw [hlow, hhigh]
  split_ifs <;> omega

/-- Modulo `0xFFFF` the folded sum is right if there are no sign bits, and no second carry. -/
theorem dvd_iff {q r k check : ℕ} (hr : r < 0x10000) (hq : q < 10) (hk : k ≤ 10)
    (hneg : k * 0x8000 ≤ 0x10000 * q + r)
    (hcheck : check = 2 ^ 16 - 1 - if q + r < k then q + r + 0x10000 - k
      else if q + r < k + 0x10000 then q + r - k else q + r - k - 0x10000) :
    (0xFFFF ∣ 0x10000 * q + r + check ∧ 0x10000 * q + r + check ≠ 0) ↔
      k = 0 ∧ r + q < 0x10000 := by
  have hsum : 0x10000 * q + r + check = 0xFFFF * q + (q + r + check) := by omega
  rw [hsum, Nat.dvd_add_right (Nat.dvd_mul_right ..)]
  split_ifs at hcheck <;> omega

/-- **The checksum.** For every header, whatever its fields and addresses, a receiver accepts what
the client sends exactly if no word of the header, read in memory order, is `0x8000` or more, and
the carries of the sum, added to its low half, do not carry again. -/
theorem header_accepted (h : IpHeader) :
    Accepted (client h) ↔ Folds { h with check := 0 } := by
  have htotal : (client h).total = _ := total_check h (checksum { h with check := 0 })
  generalize { h with check := (0 : BitVec 16) } = z at htotal ⊢
  have hneg : z.negative * 0x8000 ≤ z.total := negative_mul_le z.words
  have hlt := total_lt z
  have hr : z.total % 0x10000 < 0x10000 := Nat.mod_lt _ (by omega)
  have hq : z.total / 0x10000 < 10 := by omega
  have hdiv : 0x10000 * (z.total / 0x10000) + z.total % 0x10000 = z.total := Nat.div_add_mod _ _
  have hfold := fold_eq hr hq (negative_le z) (by rw [hdiv, ← toNat_tempCsum])
  have hiff := dvd_iff hr hq (negative_le z) (hdiv.symm ▸ hneg)
    (by rw [← hfold, ← toNat_foldCsum, ← toNat_checksum])
  rw [hdiv] at hiff
  rw [accepted_iff, folds_iff, htotal, hiff]

/-- A header with the source address 192.168.0.1. -/
def privateHeader : IpHeader := ipHeader 0x0100A8C0 0x0F02000A

/-- The two bytes `C0 A8` of the address are a negative word. -/
theorem header_rejected : ¬ ∀ h, Accepted (client h) := fun h =>
  absurd (h privateHeader).littleEndian (by decide)

/-- The header that is sent with the addresses of the source, 10.0.2.15, is accepted. -/
example : Accepted (client (ipHeader 0x0F02000A 0x0F02000A)) := ⟨by decide, by decide⟩

end EmbeddedC.LinkLayer
