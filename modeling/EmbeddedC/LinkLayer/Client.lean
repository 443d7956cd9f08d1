import EmbeddedC.NetworkLayer.Client

/-!
# Homework 19: the addresses and the frames of the client

The client reads two MAC addresses with `%x`, which stores four bytes for each of the six numbers of
an address, and then receives frames until one seems to be for it.

* `scanMac`, `scanMac_eq`: three bytes behind an address are overwritten by zeros;
* `macs`, `macs_intact`: when both addresses are right, wherever the arrays are;
* `receiveLoop`, `Stops`: the loop, and what in `packet` ends it;
* `held`: what `packet` holds, behind a short frame the bytes of earlier ones;
* `reply_reported`: when the reply of the server is reported.
-/

namespace EmbeddedC.LinkLayer.Receive

open CString
open NetworkLayer (iphdrSize udphdrSize word clientPort serverMsg Packet)

/-- `ETH_ALEN` -/
def ethAlen : ℕ := 6

/-- `ETHHDR_SIZE` -/
def ethhdrSize : ℕ := 14

/-- `PACKET_LEN` -/
def packetLen : ℕ := ethhdrSize + NetworkLayer.packetLen

/-- The bytes of an `unsigned int` on a little-endian machine. -/
def uint (v : ℕ) : List Char :=
  [v % 256, v / 256 % 256, v / 256 ^ 2 % 256, v / 256 ^ 3 % 256].map Char.ofNat

/-- What the conversions `%x` store for the numbers `values`, at `&mac[0]`, `&mac[1]` and so on,
where the array is at `off`. -/
def scanMac (mem : List Char) (off : ℕ) : List ℕ → List Char
  | [] => mem
  | v :: values => scanMac (overwrite mem off (uint v)) (off + 1) values

/-- An array of `ETH_ALEN` bytes. -/
def macAt (mem : List Char) (off : ℕ) : List Char := (mem.drop off).take ethAlen

/-- `src_mac` and `dest_mac` are read, in this order. -/
def scanMacs (mem : List Char) (src dest : ℕ) (srcMac destMac : List ℕ) : List Char :=
  scanMac (scanMac mem src srcMac) dest destMac

/-- What is printed, and the number of the frame at which the loop has stopped. -/
structure Report where
  index : ℕ
  dhost : List Char
  msg : List Char
  addr : List Char
  port : ℕ
  shost : List Char
  deriving DecidableEq

/-- The loop; `none` when it goes on. -/
def receiveLoop (srcMac destMac packet : List Char) : List (List Char) → Option Report
  | [] => none
  | frame :: frames =>
    let packet := overwrite packet 0 (frame.take packetLen)
    if (packet.take ethAlen = srcMac ∧ (packet.drop ethAlen).take ethAlen = destMac) ∨
        word packet (ethhdrSize + iphdrSize + 2) = clientPort then
      some ⟨0, packet.take ethAlen, text (packet.drop (ethhdrSize + iphdrSize + udphdrSize)),
        (packet.drop (ethhdrSize + 12)).take 4, word packet (ethhdrSize + iphdrSize),
        (packet.drop ethAlen).take ethAlen⟩
    else (receiveLoop srcMac destMac packet frames).map fun r => { r with index := r.index + 1 }

/-- The client, from the addresses on.  `packet` begins with what it has sent. -/
def client (mem : List Char) (src dest : ℕ) (srcMac destMac : List ℕ) (packet : List Char)
    (frames : List (List Char)) : Option Report :=
  let mem := scanMacs mem src dest srcMac destMac
  receiveLoop (macAt mem src) (macAt mem dest) packet frames

/-- The loop stops at a frame, or at what `packet` holds: its addresses are those of the two arrays,
or it seems to be for the client's port. -/
def Stops (srcMac destMac frame : List Char) : Prop :=
  (frame.take ethAlen = srcMac ∧ (frame.drop ethAlen).take ethAlen = destMac) ∨
    word frame (ethhdrSize + iphdrSize + 2) = clientPort

instance (srcMac destMac frame : List Char) : Decidable (Stops srcMac destMac frame) :=
  inferInstanceAs (Decidable (_ ∨ _))

/-- What `packet` holds after some frames. -/
def held (packet : List Char) (frames : List (List Char)) : List Char :=
  frames.foldl (fun packet frame => overwrite packet 0 (frame.take packetLen)) packet

/-- The loop stops at none of the frames. -/
def Passed (srcMac destMac packet : List Char) (frames : List (List Char)) : Prop :=
  ∀ before ∈ frames.inits, before ≠ [] → ¬ Stops srcMac destMac (held packet before)

instance (srcMac destMac packet : List Char) (frames : List (List Char)) :
    Decidable (Passed srcMac destMac packet frames) :=
  inferInstanceAs (Decidable (∀ before ∈ frames.inits, _ → _))

/-- The Ethernet header of a frame with an IPv4 packet. -/
def ethhdr (dhost shost : List Char) : List Char := dhost ++ (shost ++ [Char.ofNat 8, nul])

/-- A frame with an IPv4 packet, which may be padded. -/
def frameOf (dhost shost : List Char) (p : Packet) (padding : List Char) : List Char :=
  ethhdr dhost shost ++ (p.bytes ++ padding)

/-- The bytes of an address. -/
structure Mac where
  values : List ℕ
  length : values.length = ethAlen
  lt : ∀ v ∈ values, v < 256

def Mac.bytes (mac : Mac) : List Char := mac.values.map Char.ofNat

/-- The arrays are in the memory, with room behind them, and do not overlap. -/
structure Placed (mem : List Char) (src dest : ℕ) : Prop where
  src_le : src + ethAlen + 3 ≤ mem.length
  dest_le : dest + ethAlen + 3 ≤ mem.length
  apart : src + ethAlen ≤ dest ∨ dest + ethAlen ≤ src

variable {mem : List Char} {off src dest i v : ℕ} {values : List ℕ} {srcMac destMac : Mac}

/-! ### Addresses -/

theorem uint_of_lt (h : v < 256) : uint v = Char.ofNat v :: List.replicate 3 nul := by
  have h0 : v % 256 = v := Nat.mod_eq_of_lt h
  have h1 : v / 256 = 0 := Nat.div_eq_of_lt h
  have h2 : v / 256 ^ 2 = 0 := Nat.div_eq_of_lt (by omega)
  have h3 : v / 256 ^ 3 = 0 := Nat.div_eq_of_lt (by omega)
  rw [uint, h0, h1, h2, h3]
  rfl

/-- All but the first of the bytes that were written are overwritten. -/
theorem overwrite_tail {c : Char} {old new : List Char} (h : old.length ≤ new.length) :
    overwrite (overwrite mem off (c :: old)) (off + 1) new = overwrite mem off (c :: new) := by
  refine List.ext_getElem? fun i => ?_
  simp only [getElem?_overwrite, length_overwrite, List.length_cons]
  by_cases hi : off + 1 ≤ i
  · have hsub : i - off = i - (off + 1) + 1 := by omega
    rw [hsub, List.getElem?_cons_succ, List.getElem?_cons_succ]
    split_ifs <;> first | rfl | omega
  · by_cases hoff : off = i
    · subst hoff
      simp
    · rw [if_neg (by omega), if_neg (by omega), if_neg (by omega)]

/-- Each store overwrites the zeros of the one before. -/
theorem scanMac_eq (hne : values ≠ []) (hlt : ∀ v ∈ values, v < 256) : scanMac mem off values =
    overwrite mem off (values.map Char.ofNat ++ List.replicate 3 nul) := by
  induction values generalizing mem off with
  | nil => exact absurd rfl hne
  | cons v values ih =>
    rw [scanMac, uint_of_lt (hlt v List.mem_cons_self)]
    cases values with
    | nil => rfl
    | cons w values =>
      rw [ih (by simp) fun u hu => hlt u (List.mem_cons_of_mem v hu), overwrite_tail (by simp)]
      rfl

theorem Mac.length_bytes (mac : Mac) : mac.bytes.length = ethAlen := by
  rw [bytes, List.length_map, mac.length]

theorem Mac.scanMac (mac : Mac) : Receive.scanMac mem off mac.values =
    overwrite mem off (mac.bytes ++ List.replicate 3 nul) := by
  refine scanMac_eq (fun hnil => ?_) mac.lt
  have := mac.length
  rw [hnil] at this
  cases this

/-- The bytes of an array. -/
theorem getElem?_macAt : (macAt mem off)[i]? = if i < ethAlen then mem[off + i]? else none := by
  rw [macAt]
  split
  · rw [List.getElem?_take_of_lt ‹_›, List.getElem?_drop]
  · exact List.getElem?_eq_none (by rw [List.length_take]; omega)

/-- An address is read into an array. -/
theorem macAt_scanMac (h : off + ethAlen + 3 ≤ mem.length) (mac : Mac) :
    macAt (overwrite mem off (mac.bytes ++ List.replicate 3 nul)) off = mac.bytes := by
  refine List.ext_getElem? fun i => ?_
  have hlength := mac.length_bytes
  rw [getElem?_macAt]
  split
  · rename_i hi
    rw [getElem?_overwrite, List.length_append, List.length_replicate, hlength,
      if_pos (by omega), Nat.add_sub_cancel_left, List.getElem?_append_left (by omega)]
  · rw [List.getElem?_eq_none (by omega)]

theorem Mac.getElem?_bytes (mac : Mac) (i : ℕ) :
    mac.bytes[i]? = some nul ↔ mac.values[i]? = some 0 := by
  rw [bytes, List.getElem?_map, Option.map_eq_some_iff]
  constructor
  · rintro ⟨v, hv, hnul⟩
    rwa [(ofNat_eq_nul (mac.lt v (List.mem_of_getElem? hv))).1 hnul] at hv
  · exact fun h => ⟨0, h, rfl⟩

/-- What is left of the client's address. -/
theorem getElem?_src (h : Placed mem src dest) (srcMac destMac : Mac) (hi : i < ethAlen) :
    (macAt (scanMacs mem src dest srcMac.values destMac.values) src)[i]? =
      if dest + ethAlen ≤ src + i ∧ src + i < dest + ethAlen + 3 then some nul
      else srcMac.bytes[i]? := by
  have hsrc := h.src_le
  have hdest := h.dest_le
  have hapart := h.apart
  have hsrcLength := srcMac.length_bytes
  have hdestLength := destMac.length_bytes
  rw [getElem?_macAt, if_pos hi, scanMacs, srcMac.scanMac, destMac.scanMac, getElem?_overwrite,
    length_overwrite, List.length_append, List.length_replicate, hdestLength]
  by_cases hin : dest ≤ src + i ∧ src + i < dest + (ethAlen + 3)
  · -- behind the server's address
    rw [if_pos (by omega), if_pos (by omega), List.getElem?_append_right (by omega),
      List.getElem?_replicate, if_pos (by omega)]
  · rw [if_neg (by omega), if_neg (by omega), getElem?_overwrite, List.length_append,
      List.length_replicate, hsrcLength, if_pos (by omega), Nat.add_sub_cancel_left,
      List.getElem?_append_left (by omega)]

/-- **The addresses.** Wherever the two arrays are, the server's address is right, and the client's
is unless its array begins less than three bytes behind the server's and these bytes, which are
overwritten, were not zeros. -/
theorem macs_intact (h : Placed mem src dest) (srcMac destMac : Mac) :
    macAt (scanMacs mem src dest srcMac.values destMac.values) dest = destMac.bytes ∧
    (macAt (scanMacs mem src dest srcMac.values destMac.values) src = srcMac.bytes ↔
      ∀ i < ethAlen, dest + ethAlen ≤ src + i → src + i < dest + ethAlen + 3 →
        srcMac.values[i]? = some 0) := by
  constructor
  · rw [scanMacs, srcMac.scanMac, destMac.scanMac]
    exact macAt_scanMac (by rw [length_overwrite]; exact h.dest_le) destMac
  · constructor
    · intro heq i hi hlow hhigh
      have hread := getElem?_src h srcMac destMac hi
      rw [heq, if_pos ⟨hlow, hhigh⟩] at hread
      exact (srcMac.getElem?_bytes i).1 hread
    · intro hzero
      refine List.ext_getElem? fun i => ?_
      by_cases hi : i < ethAlen
      · rw [getElem?_src h srcMac destMac hi]
        split
        · rename_i hin
          exact ((srcMac.getElem?_bytes i).2 (hzero i hi hin.1 hin.2)).symm
        · rfl
      · rw [getElem?_macAt, if_neg hi, List.getElem?_eq_none]
        rw [srcMac.length_bytes]
        omega

/-- `08:00:27:72:e7:cf`, the server's address. -/
def serverMac : Mac := ⟨[0x08, 0x00, 0x27, 0x72, 0xe7, 0xcf], rfl, by decide⟩

/-- `08:00:27:01:02:03` -/
def clientMac : Mac := ⟨[0x08, 0x00, 0x27, 0x01, 0x02, 0x03], rfl, by decide⟩

/-- If the client's array is right behind the server's, its first three bytes are overwritten. -/
theorem macs_intact_behind :
    macAt (scanMacs (List.replicate 20 nul) 6 0 clientMac.values serverMac.values) 0 =
      serverMac.bytes ∧
    macAt (scanMacs (List.replicate 20 nul) 6 0 clientMac.values serverMac.values) 6 ≠
      clientMac.bytes := by
  have hplaced : Placed (List.replicate 20 nul) 6 0 := ⟨by decide, by decide, by decide⟩
  have h := macs_intact hplaced clientMac serverMac
  exact ⟨h.1, fun heq => absurd (h.2.1 heq 0) (by decide)⟩

/-! ### Frames -/

section Frames

variable {srcMac destMac packet frame sent behind padding : List Char} {pre post : List (List Char)}
  {last : Char} {dhost shost : Mac} {p : Packet}

/-- What is reported of a frame, when `rest` is behind the first `PACKET_LEN` bytes. -/
def reportOf (frame rest : List Char) : Report where
  index := 0
  dhost := frame.take ethAlen
  msg := text ((frame.take packetLen ++ rest).drop (ethhdrSize + iphdrSize + udphdrSize))
  addr := (frame.drop (ethhdrSize + 12)).take 4
  port := word frame (ethhdrSize + iphdrSize)
  shost := (frame.drop ethAlen).take ethAlen

/-- What is reported when the loop stops at once. -/
def firstReport (packet : List Char) : Report :=
  ⟨0, packet.take ethAlen, text (packet.drop (ethhdrSize + iphdrSize + udphdrSize)),
    (packet.drop (ethhdrSize + 12)).take 4, word packet (ethhdrSize + iphdrSize),
    (packet.drop ethAlen).take ethAlen⟩

theorem receiveLoop_of_stops (h : Stops srcMac destMac (held packet [frame]))
    (frames : List (List Char)) : receiveLoop srcMac destMac packet (frame :: frames) =
      some (firstReport (held packet [frame])) := if_pos h

theorem receiveLoop_of_not_stops (h : ¬ Stops srcMac destMac (held packet [frame]))
    (frames : List (List Char)) : receiveLoop srcMac destMac packet (frame :: frames) =
      (receiveLoop srcMac destMac (held packet [frame]) frames).map
        fun r => { r with index := r.index + 1 } := if_neg h

/-- One frame after another. -/
theorem passed_cons : Passed srcMac destMac packet (frame :: pre) ↔
    ¬ Stops srcMac destMac (held packet [frame]) ∧
      Passed srcMac destMac (held packet [frame]) pre := by
  simp only [Passed, List.inits_cons, List.mem_cons, List.mem_map]
  constructor
  · refine fun h => ⟨h [frame] (.inr ⟨[], by simp, rfl⟩) (by simp), fun before hmem _ => ?_⟩
    exact h (frame :: before) (.inr ⟨before, hmem, rfl⟩) (by simp)
  · rintro ⟨hfirst, hrest⟩ before (rfl | ⟨before, hmem, rfl⟩) hne
    · exact absurd rfl hne
    · by_cases hnil : before = []
      · rwa [hnil]
      · exact hrest before hmem hnil

theorem length_held (packet : List Char) (frames : List (List Char)) :
    (held packet frames).length = packet.length := by
  induction frames generalizing packet with
  | nil => rfl
  | cons frame frames ih => exact (ih _).trans (length_overwrite _ _ _)

/-- A frame that fills `packet`. -/
theorem held_concat (h : packetLen ≤ packet.length) (hframe : packetLen ≤ frame.length)
    (before : List (List Char)) : held packet (before ++ [frame]) =
      frame.take packetLen ++ (held packet before).drop packetLen := by
  have hlength : (frame.take packetLen).length = packetLen := List.length_take_of_le hframe
  rw [held, List.foldl_append]
  change overwrite (held packet before) 0 (frame.take packetLen) = _
  rw [overwrite_front (by rw [hlength, length_held]; exact h), hlength]

theorem take_filled (hframe : packetLen ≤ frame.length) (rest : List Char) {off n : ℕ}
    (hoff : off + n ≤ packetLen) :
    ((frame.take packetLen ++ rest).drop off).take n = (frame.drop off).take n := by
  have hlength : (frame.take packetLen).length = packetLen := List.length_take_of_le hframe
  rw [List.take_drop, List.take_append_of_le_length (by omega), List.take_take,
    Nat.min_eq_left hoff, ← List.take_drop]

theorem take_ethAlen_filled (hframe : packetLen ≤ frame.length) (rest : List Char) :
    (frame.take packetLen ++ rest).take ethAlen = frame.take ethAlen := by
  have hle : 0 + ethAlen ≤ packetLen := by decide
  simpa using take_filled hframe rest hle

theorem word_filled (hframe : packetLen ≤ frame.length) (rest : List Char) {off : ℕ}
    (hoff : off + 1 < packetLen) : word (frame.take packetLen ++ rest) off = word frame off := by
  have hlength : (frame.take packetLen).length = packetLen := List.length_take_of_le hframe
  rw [NetworkLayer.word_append (by omega), NetworkLayer.word_take hoff]

/-- Behind a frame that fills `packet` earlier ones do not count. -/
theorem stops_held (h : packetLen ≤ packet.length) (hframe : packetLen ≤ frame.length)
    (before : List (List Char)) : Stops srcMac destMac (held packet (before ++ [frame])) ↔
      Stops srcMac destMac frame := by
  rw [held_concat h hframe, Stops, Stops, take_ethAlen_filled hframe,
    take_filled hframe _ (by decide), word_filled hframe _ (by decide)]

theorem firstReport_held (h : packetLen ≤ packet.length) (hframe : packetLen ≤ frame.length)
    (before : List (List Char)) : firstReport (held packet (before ++ [frame])) =
      reportOf frame ((held packet before).drop packetLen) := by
  rw [held_concat h hframe, firstReport, reportOf, take_ethAlen_filled hframe,
    take_filled hframe _ (by decide), take_filled hframe _ (by decide),
    word_filled hframe _ (by decide)]

theorem length_ethhdr (dhost shost : Mac) :
    (ethhdr dhost.bytes shost.bytes).length = ethhdrSize := by
  simp [ethhdr, Mac.length_bytes, ethAlen, ethhdrSize]

theorem word_drop (front bytes : List Char) (off : ℕ) :
    word (front ++ bytes) (front.length + off) = word bytes off := by
  simp only [word, List.getD, List.getElem?_append_right (Nat.le_add_right _ _), Nat.add_assoc,
    Nat.add_sub_cancel_left]

/-- What stands in the packet of a frame. -/
theorem word_frameOf (dhost shost : Mac) (p : Packet) (padding : List Char) {off : ℕ}
    (hoff : off + 1 < p.bytes.length) :
    word (frameOf dhost.bytes shost.bytes p padding) (ethhdrSize + off) = word p.bytes off := by
  rw [frameOf, ← length_ethhdr dhost shost, word_drop, NetworkLayer.word_append hoff]

/-- A reply of the server. -/
structure IsReply (p : Packet) : Prop where
  ihl : p.ihl = 5
  dest : p.dest = clientPort
  payload : p.payload = serverMsg

theorem IsReply.length_bytes (h : IsReply p) : p.bytes.length = NetworkLayer.packetLen := by
  rw [p.length_bytes, h.ihl, h.payload]
  rfl

theorem IsReply.stops (h : IsReply p) :
    Stops srcMac destMac (frameOf dhost.bytes shost.bytes p padding) := by
  right
  rw [Nat.add_assoc, word_frameOf dhost shost p padding (by rw [h.length_bytes]; decide)]
  exact (Packet.looksPlain_of_ihl h.ihl).dest.trans h.dest

theorem IsReply.report (h : IsReply p) (rest : List Char) :
    reportOf (frameOf dhost.bytes shost.bytes p padding) rest =
      ⟨0, dhost.bytes, "Server".toList, p.saddr, p.source, shost.bytes⟩ := by
  have hlength := length_ethhdr dhost shost
  have hheader : p.header.length = iphdrSize := Packet.length_header_of_ihl h.ihl
  have hdhost : (frameOf dhost.bytes shost.bytes p padding).take ethAlen = dhost.bytes := by
    rw [frameOf, ethhdr, List.append_assoc, List.take_left' dhost.length_bytes]
  have hshost : ((frameOf dhost.bytes shost.bytes p padding).drop ethAlen).take ethAlen =
      shost.bytes := by
    rw [frameOf, ethhdr, List.append_assoc, List.drop_left' dhost.length_bytes, List.append_assoc,
      List.take_left' shost.length_bytes]
  have hmsg : ((frameOf dhost.bytes shost.bytes p padding).take packetLen ++ rest).drop
      (ethhdrSize + iphdrSize + udphdrSize) = serverMsg ++ rest := by
    have hfront : (ethhdr dhost.bytes shost.bytes ++ p.bytes).length = packetLen := by
      rw [List.length_append, hlength, h.length_bytes]
      rfl
    have hheaders : (ethhdr dhost.bytes shost.bytes ++ p.header ++ p.udphdr).length =
        ethhdrSize + iphdrSize + udphdrSize := by
      rw [List.length_append, List.length_append, hlength, hheader, Packet.length_udphdr]
    rw [frameOf, ← List.append_assoc, List.take_left' hfront, Packet.bytes, ← List.append_assoc,
      ← List.append_assoc, List.append_assoc _ p.payload, List.drop_left' hheaders, h.payload]
  have haddr : ((frameOf dhost.bytes shost.bytes p padding).drop (ethhdrSize + 12)).take 4 =
      p.saddr := by
    have hlong : 4 ≤ (p.header.drop 12).length := by
      rw [List.length_drop, hheader]
      decide
    rw [frameOf, ← hlength, ← List.drop_drop, List.drop_left, Packet.bytes, List.append_assoc,
      List.drop_append_of_le_length (by rw [hheader]; decide),
      List.take_append_of_le_length hlong, Packet.saddr]
  have hsource : word (frameOf dhost.bytes shost.bytes p padding) (ethhdrSize + iphdrSize) =
      p.source := by
    rw [word_frameOf dhost shost p padding (by rw [h.length_bytes]; decide)]
    exact (Packet.looksPlain_of_ihl h.ihl).source
  have hnul : nul ∈ serverMsg := by
    decide
  rw [reportOf, hdhost, hshost, hmsg, haddr, hsource, text_append_of_mem hnul]
  rfl

theorem receiveLoop_reply (h : packetLen ≤ packet.length) (hreply : IsReply p) :
    receiveLoop srcMac destMac packet
        (pre ++ frameOf dhost.bytes shost.bytes p padding :: post) =
      some ⟨pre.length, dhost.bytes, "Server".toList, p.saddr, p.source, shost.bytes⟩ ↔
    Passed srcMac destMac packet pre := by
  induction pre generalizing packet with
  | nil =>
    have hlong : packetLen ≤ (frameOf dhost.bytes shost.bytes p padding).length := by
      rw [frameOf, List.length_append, length_ethhdr, List.length_append, hreply.length_bytes]
      exact Nat.add_le_add_left (Nat.le_add_right _ _) _
    have hstops : Stops srcMac destMac
        (held packet ([] ++ [frameOf dhost.bytes shost.bytes p padding])) :=
      (stops_held h hlong []).2 hreply.stops
    rw [List.nil_append, receiveLoop_of_stops hstops, ← List.nil_append [frameOf _ _ _ _],
      firstReport_held h hlong, hreply.report]
    simp [Passed]
  | cons f pre ih =>
    rw [passed_cons, ← ih (by rwa [length_held]), List.cons_append]
    by_cases hstops : Stops srcMac destMac (held packet [f])
    · -- the report is on this frame
      rw [receiveLoop_of_stops hstops]
      simp [hstops, firstReport]
    · rw [receiveLoop_of_not_stops hstops, and_iff_right hstops, Option.map_eq_some_iff]
      constructor
      · rintro ⟨r, hr, heq⟩
        obtain rfl : r = ⟨pre.length, dhost.bytes, "Server".toList, p.saddr, p.source,
            shost.bytes⟩ := by
          cases r
          simpa using heq
        exact hr
      · exact fun hr => ⟨_, hr, rfl⟩

theorem passed_iff (h : packetLen ≤ packet.length) (hpre : ∀ f ∈ pre, packetLen ≤ f.length) :
    Passed srcMac destMac packet pre ↔ ∀ f ∈ pre, ¬ Stops srcMac destMac f := by
  induction pre generalizing packet with
  | nil => simp [Passed]
  | cons f pre ih =>
    have hf := hpre f List.mem_cons_self
    rw [passed_cons, List.forall_mem_cons, ← List.nil_append [f], stops_held h hf,
      ih (by rwa [length_held]) fun g hg => hpre g (List.mem_cons_of_mem f hg)]

end Frames

/-- **The reply.** It is reported exactly if at no earlier frame `packet` has the two addresses, as
they have been read, or the client's port where an UDP packet without options has its destination.
When each frame fills `packet`, what counts is what it has at these places itself. -/
theorem reply_reported {src dest : ℕ} {srcMac destMac : List ℕ}
    {mem sent behind padding : List Char}
    {last : Char} {pre post : List (List Char)} {p : Packet} {dhost shost : Mac}
    (hsent : sent.length = packetLen) (hreply : IsReply p) :
    (client mem src dest srcMac destMac (sent ++ last :: behind)
        (pre ++ frameOf dhost.bytes shost.bytes p padding :: post) =
      some ⟨pre.length, dhost.bytes, "Server".toList, p.saddr, p.source, shost.bytes⟩ ↔
    Passed (macAt (scanMacs mem src dest srcMac destMac) src)
      (macAt (scanMacs mem src dest srcMac destMac) dest) (sent ++ last :: behind) pre) ∧
    ((∀ f ∈ pre, packetLen ≤ f.length) →
      (Passed (macAt (scanMacs mem src dest srcMac destMac) src)
        (macAt (scanMacs mem src dest srcMac destMac) dest) (sent ++ last :: behind) pre ↔
      ∀ f ∈ pre, ¬ Stops (macAt (scanMacs mem src dest srcMac destMac) src)
        (macAt (scanMacs mem src dest srcMac destMac) dest) f)) := by
  have hpacket : packetLen ≤ (sent ++ last :: behind).length := by
    rw [List.length_append]
    omega
  exact ⟨receiveLoop_reply hpacket hreply, passed_iff hpacket⟩

/-- A reply from `10.0.2.15` to `10.0.2.15`. -/
def replyPacket : Packet := { NetworkLayer.shortPacket with
  header := [0x45, 0, 0, 38, 0, 0, 0x40, 0, 64, 17, 0x22, 0xAA, 10, 0, 2, 15, 10, 0, 2, 15].map
    Char.ofNat
  payload := serverMsg
  length_header := by decide
  version := by decide
  totLen := by decide
  protocol := by decide
  checked := by decide
  bytes_lt := by
    intro c hc
    rcases List.mem_append.1 hc with hheader | hpayload
    · exact NetworkLayer.toNat_lt_of_mem_map (by decide) hheader
    · have hall : serverMsg.all (fun c => decide (c.toNat < 256)) = true := by decide
      exact of_decide_eq_true (List.all_eq_true.1 hall c hpayload) }

/-- Behind a frame that is not for the client, and a short one. -/
theorem reply_reported_third : client (List.replicate 20 nul) 0 6 clientMac.values serverMac.values
      (List.replicate packetLen nul ++ [nul]) ([List.replicate 60 'x', List.replicate 20 'y'] ++
        [frameOf clientMac.bytes serverMac.bytes replyPacket []]) =
    some ⟨2, clientMac.bytes, "Server".toList, replyPacket.saddr, replyPacket.source,
      serverMac.bytes⟩ :=
  (reply_reported (by decide) ⟨rfl, rfl, rfl⟩).1.2 (by decide)

end EmbeddedC.LinkLayer.Receive
