import EmbeddedC.NetworkLayer.Packet

/-!
# Homework 18: the client of the network layer

The client receives one packet after the other into the array it has sent its own packet from, and
reads all of them as packets without options.

* `client`: the loop, from the packet that was sent on;
* `Correct`: the loop stops at the first packet for the client, and reports its source port and the
  text of its payload;
* `left`, `getElem?_left`: the bytes that earlier packets leave in the array;
* `client_skip`, `client_stop`: runs of the loop;
* `Readable`, `client_correct`: the packets that are reported correctly; `client_stale`: a short
  payload in front of what was sent;
* `client_reply`: the reply of the server is one of them.

The array is followed by other memory, and its last byte is never written to.  All packets arrive
without an error.
-/

namespace EmbeddedC.NetworkLayer

open CString

/-- The packet that was sent.  The fields that are filled in automatically are 0 here. -/
def sentPacket : List Char :=
  [0x45, 0, 0, 0, 0, 0, 0, 0, 64, 17, 0, 0, 0, 0, 0, 0, 127, 0, 0, 1].map Char.ofNat ++
    (htons clientPort ++ htons serverPort ++ htons (udphdrSize + msgSize) ++ htons 0) ++
    strncpy msgSize "Client".toList

/-- `recvfrom(server_fd, packet, PACKET_LEN, ..)` -/
def recvfrom (packet : List Char) (p : Packet) : List Char := overwrite packet 0 p.received

/-- The packet at which the loop has stopped, and what is printed. -/
structure Report where
  index : ℕ
  msg : List Char
  addr : List Char
  port : ℕ
  deriving DecidableEq

/-- The loop; `none` when it goes on. -/
def receiveLoop (packet : List Char) : List Packet → Option Report
  | [] => none
  | p :: ps =>
    let packet := recvfrom packet p
    if word packet (iphdrSize + 2) = clientPort then
      some ⟨0, text (packet.drop (iphdrSize + udphdrSize)), (packet.drop 12).take 4,
        word packet iphdrSize⟩
    else (receiveLoop packet ps).map fun r => { r with index := r.index + 1 }

/-- The client.  `last` is `packet[PACKET_LEN]`, and `behind` the memory behind the array. -/
def client (last : Char) (behind : List Char) (packets : List Packet) : Option Report :=
  receiveLoop (sentPacket ++ last :: behind) packets

/-- The first packet for the client is reported. -/
def Correct (packets : List Packet) : Option Report → Prop
  | none => ∀ p ∈ packets, p.dest ≠ clientPort
  | some r => ∃ p, packets[r.index]? = some p ∧ p.dest = clientPort ∧
      (∀ q ∈ packets.take r.index, q.dest ≠ clientPort) ∧
      r.port = p.source ∧ r.msg = text p.receivedPayload

/-- The packet is for the client, or seems to be. -/
def Concerns (p : Packet) : Prop := p.dest = clientPort ∨ p.destAt = clientPort

instance (p : Packet) : Decidable (Concerns p) := inferInstanceAs (Decidable (_ ∨ _))

/-- A packet that comes after others is reported correctly: it is for the client, it has no options
or those look like the headers, and its text ends with a NUL, maybe one that was left behind it. -/
structure Readable (last : Char) (pre : List Packet) (p : Packet) : Prop where
  dest : p.dest = clientPort
  plain : p.ihl = 5 ∨ p.LooksPlain
  ends : nul ∈ p.msg ∨
    lastAt ((sentPacket ++ [last]) :: pre.map Packet.received) p.received.length = some nul

variable {packet : List Char} {p : Packet} {pre post packets : List Packet} {last : Char}
  {behind : List Char}

/-! ### Receiving -/

theorem recvfrom_eq (h : packetLen ≤ packet.length) (p : Packet) :
    recvfrom packet p = p.received ++ packet.drop p.received.length :=
  overwrite_front (p.length_received_le.trans h)

@[simp] theorem length_recvfrom (packet : List Char) (p : Packet) :
    (recvfrom packet p).length = packet.length := length_overwrite _ _ _

/-- The headers are those of the packet. -/
theorem word_recvfrom (h : packetLen ≤ packet.length) {off : ℕ}
    (hoff : off + 1 < iphdrSize + udphdrSize) (p : Packet) :
    word (recvfrom packet p) off = word p.bytes off := by
  have hlt : off + 1 < p.received.length := hoff.trans_le p.le_length_received
  have htake : off + 1 < packetLen := hlt.trans_le p.length_received_le
  rw [recvfrom_eq h, word_append hlt, Packet.received, word_take htake]

/-- The text of the packet may go on with what was there. -/
theorem drop_recvfrom (h : packetLen ≤ packet.length) (p : Packet) :
    (recvfrom packet p).drop (iphdrSize + udphdrSize) =
      p.msg ++ packet.drop p.received.length := by
  rw [recvfrom_eq h, List.drop_append_of_le_length p.le_length_received, Packet.msg]

theorem saddr_recvfrom (h : packetLen ≤ packet.length) (p : Packet) :
    ((recvfrom packet p).drop 12).take 4 = p.saddr := by
  have hheader : 12 + 4 ≤ p.header.length := by
    have hihl := p.ihl_ge
    rw [p.length_header]
    omega
  have hreceived : 12 + 4 ≤ p.received.length := le_trans (by decide) p.le_length_received
  have htake : 12 + 4 ≤ packetLen := by decide
  rw [Packet.saddr, List.take_drop, List.take_drop, recvfrom_eq h,
    List.take_append_of_le_length hreceived, Packet.received, List.take_take,
    Nat.min_eq_left htake, Packet.bytes, List.take_append_of_le_length hheader]

theorem receiveLoop_skip (h : packetLen ≤ packet.length) (hp : p.destAt ≠ clientPort)
    (ps : List Packet) : receiveLoop packet (p :: ps) =
      (receiveLoop (recvfrom packet p) ps).map fun r => { r with index := r.index + 1 } := by
  rw [receiveLoop, word_recvfrom h (by decide)]
  exact if_neg hp

theorem receiveLoop_stop (h : packetLen ≤ packet.length) (hp : p.destAt = clientPort)
    (ps : List Packet) : receiveLoop packet (p :: ps) =
      some ⟨0, text (p.msg ++ packet.drop p.received.length), p.saddr, p.sourceAt⟩ := by
  rw [receiveLoop, word_recvfrom h (by decide), word_recvfrom h (by decide), drop_recvfrom h,
    saddr_recvfrom h]
  exact if_pos hp

/-! ### Runs -/

/-- Packets that do not seem to be for the client. -/
theorem receiveLoop_append (h : packetLen ≤ packet.length)
    (hpre : ∀ q ∈ pre, q.destAt ≠ clientPort) (ps : List Packet) :
    receiveLoop packet (pre ++ ps) = (receiveLoop (pre.foldl recvfrom packet) ps).map fun r =>
      { r with index := r.index + pre.length } := by
  induction pre generalizing packet with
  | nil => exact Option.map_id'.symm
  | cons q pre ih =>
    have hlen : packetLen ≤ (recvfrom packet q).length := by rwa [length_recvfrom]
    rw [List.cons_append, receiveLoop_skip h (hpre q List.mem_cons_self),
      ih hlen fun q' hq => hpre q' (List.mem_cons_of_mem q hq), Option.map_map]
    rfl

/-- The array, and the memory behind it, after some packets. -/
def left (last : Char) (behind : List Char) (pre : List Packet) : List Char :=
  pre.foldl recvfrom (sentPacket ++ last :: behind)

theorem left_eq (last : Char) (behind : List Char) (pre : List Packet) :
    left last behind pre = (pre.map Packet.received).foldl
      (fun bytes new => overwrite bytes 0 new) (sentPacket ++ last :: behind) := by
  rw [List.foldl_map]
  rfl

theorem length_sentPacket : sentPacket.length = packetLen := by decide

theorem packetLen_lt_left (last : Char) (behind : List Char) (pre : List Packet) :
    packetLen < (left last behind pre).length := by
  rw [left_eq, length_foldl_overwrite, List.length_append, List.length_cons, length_sentPacket]
  omega

/-- In the array there is what the last packet has left that reaches so far. -/
theorem getElem?_left (last : Char) (behind : List Char) (pre : List Packet) {off : ℕ}
    (hoff : off ≤ packetLen) : (left last behind pre)[off]? =
      lastAt ((sentPacket ++ [last]) :: pre.map Packet.received) off := by
  have hfits : ∀ new ∈ pre.map Packet.received,
      new.length ≤ (sentPacket ++ last :: behind).length := by
    intro new hnew
    obtain ⟨p, -, rfl⟩ := List.mem_map.1 hnew
    exact p.length_received_le.trans (packetLen_lt_left last behind []).le
  have harray : (sentPacket ++ last :: behind)[off]? = (sentPacket ++ [last])[off]? := by
    have hsplit : sentPacket ++ last :: behind = sentPacket ++ [last] ++ behind := by simp
    rw [hsplit, List.getElem?_append_left]
    rw [List.length_append, length_sentPacket, List.length_singleton]
    omega
  rw [left_eq, getElem?_foldl_overwrite hfits]
  simp only [lastAt, List.filterMap_cons, harray]

/-- Packets that do not seem to be for the client. -/
theorem client_append (hpre : ∀ q ∈ pre, q.destAt ≠ clientPort) (ps : List Packet) :
    client last behind (pre ++ ps) = (receiveLoop (left last behind pre) ps).map fun r =>
      { r with index := r.index + pre.length } :=
  receiveLoop_append (packetLen_lt_left last behind []).le hpre ps

theorem client_skip (h : ∀ q ∈ packets, q.destAt ≠ clientPort) :
    client last behind packets = none := by
  rw [← List.append_nil packets, client_append h []]
  rfl

theorem client_stop (hpre : ∀ q ∈ pre, q.destAt ≠ clientPort) (hp : p.destAt = clientPort) :
    client last behind (pre ++ p :: post) =
      some ⟨pre.length, text (p.msg ++ (left last behind pre).drop p.received.length), p.saddr,
        p.sourceAt⟩ := by
  rw [client_append hpre, receiveLoop_stop (packetLen_lt_left last behind pre).le hp,
    Option.map_some]
  simp

/-! ### Reports -/

/-- The text that is reported is the right one. -/
theorem text_left_iff (last : Char) (behind : List Char) (pre : List Packet) (p : Packet) :
    text (p.msg ++ (left last behind pre).drop p.received.length) = text p.receivedPayload ↔
      text p.msg = text p.receivedPayload ∧ (nul ∈ p.msg ∨
        lastAt ((sentPacket ++ [last]) :: pre.map Packet.received) p.received.length =
          some nul) := by
  rw [text_append_eq_iff ((length_text_le _).trans p.length_receivedPayload_le),
    text_drop_eq_nil (p.length_received_le.trans_lt (packetLen_lt_left last behind pre)),
    getElem?_left last behind pre p.length_received_le]

/-- Packets that the loop does not stop at are not for the client. -/
theorem Correct.dest_ne (h : Correct (pre ++ post) (client last behind (pre ++ post)))
    (hpre : ∀ q ∈ pre, q.destAt ≠ clientPort) : ∀ q ∈ pre, q.dest ≠ clientPort := by
  intro q hq
  rw [client_append hpre] at h
  cases hloop : receiveLoop (left last behind pre) post with
  | none =>
    rw [hloop] at h
    exact h q (List.mem_append_left _ hq)
  | some r =>
    rw [hloop] at h
    obtain ⟨-, -, -, hfirst, -⟩ := h
    have htake : (pre ++ post).take (r.index + pre.length) = pre ++ post.take r.index := by
      rw [Nat.add_comm, List.take_length_add_append]
    refine hfirst q ?_
    dsimp only
    rw [htake]
    exact List.mem_append_left _ hq

/-- **Reports.** The first packet for the client is reported exactly if the first one that seems to
be for the client is one, has no options, or some that look like the headers, and has a text that
ends with a NUL, in its first `PACKET_LEN` bytes or left behind these in the array. -/
theorem client_correct (last : Char) (behind : List Char) (packets : List Packet) :
    Correct packets (client last behind packets) ↔
      ∀ pre p post, packets = pre ++ p :: post → (∀ q ∈ pre, ¬ Concerns q) → Concerns p →
        Readable last pre p := by
  have hskip {pre : List Packet} (hpre : ∀ q ∈ pre, ¬ Concerns q) :
      ∀ q ∈ pre, q.destAt ≠ clientPort := fun q hq hdest => hpre q hq (.inr hdest)
  constructor
  · rintro h pre p post rfl hpre hp
    by_cases hstop : p.destAt = clientPort
    · -- the loop stops here
      rw [client_stop (hskip hpre) hstop] at h
      obtain ⟨p', hget, hdest, -, hport, hmsg⟩ := h
      obtain rfl : p = p' := by simpa using hget
      obtain ⟨htext, hends⟩ := (text_left_iff last behind pre p).1 hmsg
      exact ⟨hdest, .inr ⟨hport, hstop.trans hdest.symm, htext⟩, hends⟩
    · -- the packet is for the client, and the loop goes on
      have hsplit : pre ++ p :: post = (pre ++ [p]) ++ post := by simp
      rw [hsplit] at h
      refine absurd (hp.resolve_right hstop) (h.dest_ne ?_ p (by simp))
      intro q hq
      rcases List.mem_append.1 hq with hq | hq
      · exact hskip hpre q hq
      · rw [List.mem_singleton.1 hq]
        exact hstop
  · intro h
    cases hfind : packets.find? (Concerns ·) with
    | none =>
      have hnone : ∀ q ∈ packets, ¬ Concerns q := by simpa using hfind
      rw [client_skip (hskip hnone)]
      exact fun q hq hdest => hnone q hq (.inl hdest)
    | some p =>
      obtain ⟨hp, pre, post, rfl, hpre⟩ := List.find?_eq_some_iff_append.1 hfind
      have hfirst : ∀ q ∈ pre, ¬ Concerns q := by simpa using hpre
      have hread := h pre p post rfl hfirst (by simpa using hp)
      have hplain : p.LooksPlain := hread.plain.elim Packet.looksPlain_of_ihl id
      rw [client_stop (hskip hfirst) (hplain.dest.trans hread.dest)]
      refine ⟨p, by simp, hread.dest, ?_, hplain.source, ?_⟩
      · intro q hq hdest
        rw [List.take_left] at hq
        exact hfirst q hq (.inl hdest)
      · exact (text_left_iff last behind pre p).2 ⟨hplain.message, hread.ends⟩

/-- From `127.0.0.1` to `127.0.0.1`, with the text `Hi`. -/
def shortPacket : Packet where
  ihl := 5
  header := [0x45, 0, 0, 30, 0, 0, 0, 0, 64, 17, 0x7C, 0xCD, 127, 0, 0, 1, 127, 0, 0, 1].map
    Char.ofNat
  source := serverPort
  dest := clientPort
  check := 0
  payload := ['H', 'i']
  ihl_ge := by decide
  ihl_le := by decide
  length_header := by decide
  version := by decide
  totLen := by decide
  protocol := by decide
  checked := by decide
  source_lt := by decide
  dest_lt := by decide
  check_lt := by decide
  bytes_lt := by
    intro c hc
    rcases List.mem_append.1 hc with hheader | hpayload
    · exact toNat_lt_of_mem_map (by decide) hheader
    · rcases List.mem_pair.1 hpayload with rfl | rfl <;> decide

/-- Behind a short text comes the end of what the client has sent. -/
theorem client_stale : ¬ ∀ (last : Char) (behind : List Char) (packets : List Packet),
    Correct packets (client last behind packets) := by
  intro hall
  have hclient : client nul [] [shortPacket] =
      some ⟨0, "Hiient".toList, shortPacket.saddr, serverPort⟩ := by decide
  have h := hall nul [] [shortPacket]
  rw [hclient] at h
  obtain ⟨p, hget, -, -, -, hmsg⟩ := h
  obtain rfl : shortPacket = p := Option.some.inj hget
  revert hmsg
  decide

/-! ### The reply of the server -/

/-- The message that the server sends. -/
def serverMsg : List Char := strncpy msgSize "Server".toList

/-- A reply without options is reported with its text, whatever is in the array and whatever comes
later. -/
theorem client_reply (hpre : ∀ q ∈ pre, q.destAt ≠ clientPort) (hihl : p.ihl = 5)
    (hdest : p.dest = clientPort) (hpayload : p.payload = serverMsg) :
    client last behind (pre ++ p :: post) =
      some ⟨pre.length, "Server".toList, p.saddr, p.source⟩ := by
  have hplain := Packet.looksPlain_of_ihl hihl
  have hmsg : p.msg = serverMsg := by
    rw [Packet.msg_of_ihl hihl, Packet.receivedPayload, hpayload, hihl]
    rfl
  have hends : nul ∈ p.msg := by
    rw [hmsg]
    decide
  rw [client_stop hpre (hplain.dest.trans hdest), text_append_of_mem hends, hmsg, hplain.source]
  rfl

end EmbeddedC.NetworkLayer
