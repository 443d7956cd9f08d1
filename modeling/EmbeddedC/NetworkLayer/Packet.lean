import EmbeddedC.Lib.CString
import EmbeddedC.Lib.OnesComplement

/-!
# Homework 18: packets of the network layer

A raw socket delivers IPv4 headers, UDP headers and payloads.  The options of an IPv4 header are
four bytes each, at most ten of them.

* `word`, `htons`: two bytes in network order;
* `Packet`, `Packet.bytes`: a well-formed packet;
* `Packet.sourceAt`, `Packet.destAt`, `Packet.msg`: what stands where a packet without options has
  its ports and its payload;
* `LooksPlain`: the ports and the text of the payload are found there; `looksPlain_of_ihl`:
  without options they are.

A byte is a character below 256.
-/

namespace EmbeddedC.NetworkLayer

open CString OnesComplement

/-- `IPHDR_SIZE` -/
def iphdrSize : ℕ := 20

/-- `UDPHDR_SIZE` -/
def udphdrSize : ℕ := 8

/-- `MSG_SIZE` -/
def msgSize : ℕ := 10

/-- `PACKET_LEN` -/
def packetLen : ℕ := iphdrSize + udphdrSize + msgSize

/-- `SERVER_PORT` -/
def serverPort : ℕ := 6789

/-- `CLIENT_PORT` -/
def clientPort : ℕ := 9876

/-- The value of two bytes in network order. -/
def word (bytes : List Char) (off : ℕ) : ℕ :=
  256 * (bytes.getD off nul).toNat + (bytes.getD (off + 1) nul).toNat

/-- The two bytes of `htons(x)` in memory. -/
def htons (x : ℕ) : List Char := [Char.ofNat (x / 256), Char.ofNat (x % 256)]

/-- A well-formed IPv4/UDP packet: `header` is the IPv4 header with its options, of version 4 and
protocol 17, with its length, the total length and the checksum. -/
structure Packet where
  ihl : ℕ
  header : List Char
  source : ℕ
  dest : ℕ
  check : ℕ
  payload : List Char
  ihl_ge : 5 ≤ ihl
  ihl_le : ihl ≤ 15
  length_header : header.length = 4 * ihl
  version : header[0]? = some (Char.ofNat (4 * 16 + ihl))
  totLen : word header 2 = 4 * ihl + udphdrSize + payload.length
  protocol : header[9]? = some (Char.ofNat 17)
  checked : ocSum 0x10000 ((List.range (2 * ihl)).map fun i => word header (2 * i)) = 0xFFFF
  source_lt : source < 0x10000
  dest_lt : dest < 0x10000
  check_lt : check < 0x10000
  bytes_lt : ∀ c ∈ header ++ payload, c.toNat < 256

namespace Packet

/-- The UDP header. -/
def udphdr (p : Packet) : List Char :=
  htons p.source ++ htons p.dest ++ htons (udphdrSize + p.payload.length) ++ htons p.check

/-- What the socket delivers. -/
def bytes (p : Packet) : List Char := p.header ++ (p.udphdr ++ p.payload)

/-- The source address. -/
def saddr (p : Packet) : List Char := (p.header.drop 12).take 4

/-- The first `PACKET_LEN` bytes. -/
def received (p : Packet) : List Char := p.bytes.take packetLen

/-- The payload, as far as it is among the first `PACKET_LEN` bytes. -/
def receivedPayload (p : Packet) : List Char :=
  p.payload.take (packetLen - (4 * p.ihl + udphdrSize))

/-- Where a packet without options has its source port. -/
def sourceAt (p : Packet) : ℕ := word p.bytes iphdrSize

/-- Where a packet without options has its destination port. -/
def destAt (p : Packet) : ℕ := word p.bytes (iphdrSize + 2)

/-- Where a packet without options has its payload. -/
def msg (p : Packet) : List Char := p.received.drop (iphdrSize + udphdrSize)

/-- The ports and the text of the payload are where a packet without options has them. -/
structure LooksPlain (p : Packet) : Prop where
  source : p.sourceAt = p.source
  dest : p.destAt = p.dest
  message : text p.msg = text p.receivedPayload

end Packet

/-! ### Words -/

variable {front back : List Char} {off x : ℕ}

/-- A word that was stored is read. -/
theorem word_htons (hx : x < 0x10000) (front back : List Char) :
    word (front ++ htons x ++ back) front.length = x := by
  have hhigh : (front ++ htons x ++ back).getD front.length nul = Char.ofNat (x / 256) := by
    simp [List.getD, htons]
  have hlow : (front ++ htons x ++ back).getD (front.length + 1) nul = Char.ofNat (x % 256) := by
    simp [List.getD, htons]
  rw [word, hhigh, hlow, toNat_ofNat (by omega), toNat_ofNat (by omega), Nat.div_add_mod]

theorem toNat_lt_of_mem_map {ns : List ℕ} (hns : ∀ n ∈ ns, n < 256) {c : Char}
    (hc : c ∈ ns.map Char.ofNat) : c.toNat < 256 := by
  obtain ⟨n, hn, rfl⟩ := List.mem_map.1 hc
  rw [toNat_ofNat (hns n hn)]
  exact hns n hn

/-- A word is read in front of other bytes. -/
theorem word_append (h : off + 1 < front.length) (back : List Char) :
    word (front ++ back) off = word front off := by
  simp [word, List.getD, List.getElem?_append_left (Nat.lt_of_succ_lt h),
    List.getElem?_append_left h]

theorem word_take {bytes : List Char} {n : ℕ} (h : off + 1 < n) :
    word (bytes.take n) off = word bytes off := by
  simp [word, List.getD, List.getElem?_take_of_lt (Nat.lt_of_succ_lt h),
    List.getElem?_take_of_lt h]

/-! ### Packets -/

variable {p : Packet}

namespace Packet

@[simp] theorem length_udphdr (p : Packet) : p.udphdr.length = udphdrSize := rfl

theorem length_bytes (p : Packet) :
    p.bytes.length = 4 * p.ihl + udphdrSize + p.payload.length := by
  rw [bytes, List.length_append, List.length_append, length_header, length_udphdr, Nat.add_assoc]

/-- The headers are among the first `PACKET_LEN` bytes if there are no options. -/
theorem le_length_received (p : Packet) : iphdrSize + udphdrSize ≤ p.received.length := by
  have hihl := p.ihl_ge
  rw [received, List.length_take, length_bytes, packetLen, iphdrSize, udphdrSize, msgSize]
  omega

theorem length_received_le (p : Packet) : p.received.length ≤ packetLen := List.length_take_le _ _

/-- With options there are more bytes. -/
theorem length_receivedPayload_le (p : Packet) :
    p.receivedPayload.length ≤ p.msg.length := by
  have hihl := p.ihl_ge
  rw [msg, received, receivedPayload, List.length_drop, List.length_take, List.length_take,
    length_bytes, packetLen, iphdrSize, udphdrSize, msgSize]
  omega

theorem length_header_of_ihl (h : p.ihl = 5) : p.header.length = iphdrSize := by
  rw [p.length_header, h]
  rfl

theorem msg_of_ihl (h : p.ihl = 5) : p.msg = p.receivedPayload := by
  have hfront : (p.header ++ p.udphdr).length = iphdrSize + udphdrSize := by
    rw [List.length_append, length_header_of_ihl h, length_udphdr]
  rw [msg, received, receivedPayload, bytes, ← List.append_assoc, ← hfront, List.drop_take,
    List.drop_left, hfront, h]
  rfl

theorem looksPlain_of_ihl (h : p.ihl = 5) : p.LooksPlain := by
  have hheader := length_header_of_ihl h
  constructor
  · have hbytes : p.bytes = p.header ++ htons p.source ++ (htons p.dest ++
        htons (udphdrSize + p.payload.length) ++ htons p.check ++ p.payload) := by
      simp [bytes, udphdr]
    -- behind 20 bytes of header
    rw [sourceAt, hbytes, ← hheader]
    exact word_htons p.source_lt _ _
  · have hbytes : p.bytes = (p.header ++ htons p.source) ++ htons p.dest ++
        (htons (udphdrSize + p.payload.length) ++ htons p.check ++ p.payload) := by
      simp [bytes, udphdr]
    have hfront : (p.header ++ htons p.source).length = iphdrSize + 2 := by
      rw [List.length_append, hheader]
      rfl
    rw [destAt, hbytes, ← hfront]
    exact word_htons p.dest_lt _ _
  · rw [msg_of_ihl h]

end Packet

end EmbeddedC.NetworkLayer
