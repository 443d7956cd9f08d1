import EmbeddedC.Ipc.Channels

/-!
# Homework 9: the FIFOs of the second task

The first process writes to the FIFO `fifo_ftos` and reads from `fifo_stof`, the second one the
other way round.  To open a FIFO is to wait until the other side opens it, too, and a read loop ends
at a NUL, or when nobody can write any more.

* `firstCalls`, `secondCalls`: the system calls of `first_process` and `second_process`;
* `Open`: which ends are open, and who must have come how far, in every reachable state;
* `fifo_exchange`: in every order of the calls, both processes end if the first message has a NUL,
  and wait for each other if it has none.
-/

namespace EmbeddedC.Ipc.Fifos

open CString (nul)
open Pipe (End Op)

/-- `close`, and the first half of `open`, which goes on with `Op.await`. -/
abbrev close (e : End) : Op Char := .hold e (-1)

abbrev opening (e : End) : Op Char := .hold e 1

/-- `while (read(receivefd, &buf, 1) > 0 && buf != '\0')` -/
abbrev readLoop : Op Char := .read (· == nul)

/-- What `first_process` does with `fifo_ftos` (`forth`) and `fifo_stof` (`back`). -/
def firstCalls (message : List Char) : List Call :=
  [.forth (opening .write), .forth (.await .read), .forth (.write message),
    .back (opening .read), .back (.await .write), .back readLoop, .put '\n',
    .forth (close .write), .back (close .read)]

/-- What `second_process` does with them. -/
def secondCalls (answer : List Char) : List Call :=
  [.forth (opening .read), .forth (.await .write), .forth readLoop, .put '\n',
    .back (opening .write), .back (.await .read), .back (.write answer),
    .forth (close .read), .back (close .write)]

/-- `"hello!"`, 7 bytes -/
def hello : List Char := "hello!".toList ++ [nul]

/-- `"hi!"`, 4 bytes -/
def hi : List Char := "hi!".toList ++ [nul]

/-- The calls of both processes, with the two messages. -/
def task (message answer : List Char) : Duet Call Store :=
  duet (firstCalls message) (secondCalls answer)

/-- Nobody has opened the FIFOs. -/
def made (capacity : ℕ) : Store :=
  ⟨⟨capacity, [], 0, 0, false, false⟩, ⟨capacity, [], 0, 0, false, false⟩, [], [], false⟩

/-- An end that a process opens and closes with these calls. -/
def held (first last n : ℕ) : ℤ := if first < n ∧ n ≤ last then 1 else 0

/-- The ends that are open, and who must have come how far. -/
structure Open (s : Duet.State Store) : Prop where
  forthReaders : s.store.forth.readers = held 0 7 s.right
  forthWriters : s.store.forth.writers = held 0 7 s.left
  backReaders : s.store.back.readers = held 3 8 s.left
  backWriters : s.store.back.writers = held 4 8 s.right
  forthRead : s.store.forth.readerCame = true ↔ 0 < s.right
  forthWritten : s.store.forth.writerCame = true ↔ 0 < s.left
  backRead : s.store.back.readerCame = true ↔ 3 < s.left
  backWritten : s.store.back.writerCame = true ↔ 4 < s.right
  firstOpened : 1 < s.left → 0 < s.right
  secondOpened : 1 < s.right → 0 < s.left
  message : s.left ≤ 2 → s.store.forth.data = []
  answer : s.right ≤ 6 → s.store.back.data = []
  greeted : 2 < s.right → 2 < s.left
  answered : 4 < s.left → 4 < s.right
  finished : 5 < s.left → 6 < s.right

variable {message answer text text' rest : List Char} {capacity : ℕ} {s t : Duet.State Store}
  {n m : ℕ} {k k' : Store} {c : Call} {done : Bool}

theorem open_made : Open ⟨0, 0, made capacity⟩ := by
  constructor <;> simp [made, held]

theorem Open.first (hs : Open ⟨n, m, k⟩) (hc : (firstCalls message)[n]? = some c)
    (hexec : exec .left c k = some (done, k')) : Open ⟨n + done.toNat, m, k'⟩ := by
  obtain ⟨hforthR, hforthW, hbackR, hbackW, hcameFR, hcameFW, hcameBR, hcameBW, hfirst, hsecond,
    hmessage, hanswer, hgreeted, hanswered, hfinished⟩ := hs
  dsimp only [held] at *
  match n with
  | 0 | 3 | 6 | 7 | 8 =>
    obtain rfl := Option.some.inj hc
    obtain ⟨rfl, rfl⟩ := Prod.mk.inj (Option.some.inj hexec)
    constructor <;> simp [held, Store.print, *] <;> omega
  | 1 =>
    obtain rfl := Option.some.inj hc
    obtain ⟨r, hact, heq⟩ := Option.map_eq_some_iff.1 hexec
    have hcame := hcameFR.1 (Pipe.came_of_await hact)
    obtain rfl := Pipe.await_eq_some hact
    obtain ⟨rfl, rfl⟩ := Prod.mk.inj heq
    constructor <;> simp [held, Store.print, *]
    all_goals omega
  | 4 =>
    obtain rfl := Option.some.inj hc
    obtain ⟨r, hact, heq⟩ := Option.map_eq_some_iff.1 hexec
    have hcame := hcameBW.1 (Pipe.came_of_await hact)
    obtain rfl := Pipe.await_eq_some hact
    obtain ⟨rfl, rfl⟩ := Prod.mk.inj heq
    constructor <;> simp [held, Store.print, *]
    omega
  | 2 =>
    obtain rfl := Option.some.inj hc
    obtain ⟨r, hact, heq⟩ := Option.map_eq_some_iff.1 hexec
    obtain ⟨-, -, rfl⟩ := Pipe.write_eq_some hact
    obtain ⟨rfl, rfl⟩ := Prod.mk.inj heq
    constructor <;> simp [held, Store.print, *]
    omega
  | 5 =>
    obtain rfl := Option.some.inj hc
    obtain ⟨r, hact, heq⟩ := Option.map_eq_some_iff.1 hexec
    obtain ⟨-, hwriters, rfl⟩ | ⟨b, data, hdata, rfl⟩ := Pipe.read_eq_some hact <;>
      obtain ⟨rfl, rfl⟩ := Prod.mk.inj heq
    · -- the end of the file: the second process has opened its end, and closed it
      constructor <;> simp [held, Store.print, *] <;> omega
    · have hwritten : 6 < m := by
        by_contra hle
        rw [hanswer (by omega)] at hdata
        cases hdata
      cases hstop : b == nul <;> constructor <;> simp [held, Store.print, *]
  | n + 9 => cases hc

theorem Open.second (hs : Open ⟨n, m, k⟩) (hc : (secondCalls answer)[m]? = some c)
    (hexec : exec .right c k = some (done, k')) : Open ⟨n, m + done.toNat, k'⟩ := by
  obtain ⟨hforthR, hforthW, hbackR, hbackW, hcameFR, hcameFW, hcameBR, hcameBW, hfirst, hsecond,
    hmessage, hanswer, hgreeted, hanswered, hfinished⟩ := hs
  dsimp only [held] at *
  match m with
  | 0 | 3 | 4 | 7 | 8 =>
    obtain rfl := Option.some.inj hc
    obtain ⟨rfl, rfl⟩ := Prod.mk.inj (Option.some.inj hexec)
    constructor <;> simp [held, Store.print, *] <;> omega
  | 1 =>
    obtain rfl := Option.some.inj hc
    obtain ⟨r, hact, heq⟩ := Option.map_eq_some_iff.1 hexec
    have hcame := hcameFW.1 (Pipe.came_of_await hact)
    obtain rfl := Pipe.await_eq_some hact
    obtain ⟨rfl, rfl⟩ := Prod.mk.inj heq
    constructor <;> simp [held, Store.print, *] <;> omega
  | 5 =>
    obtain rfl := Option.some.inj hc
    obtain ⟨r, hact, heq⟩ := Option.map_eq_some_iff.1 hexec
    have hcame := hcameBR.1 (Pipe.came_of_await hact)
    obtain rfl := Pipe.await_eq_some hact
    obtain ⟨rfl, rfl⟩ := Prod.mk.inj heq
    constructor <;> simp [held, Store.print, *]
    omega
  | 6 =>
    obtain rfl := Option.some.inj hc
    obtain ⟨r, hact, heq⟩ := Option.map_eq_some_iff.1 hexec
    obtain ⟨-, -, rfl⟩ := Pipe.write_eq_some hact
    obtain ⟨rfl, rfl⟩ := Prod.mk.inj heq
    constructor <;> simp [held, Store.print, *]
  | 2 =>
    obtain rfl := Option.some.inj hc
    obtain ⟨r, hact, heq⟩ := Option.map_eq_some_iff.1 hexec
    obtain ⟨-, hwriters, rfl⟩ | ⟨b, data, hdata, rfl⟩ := Pipe.read_eq_some hact <;>
      obtain ⟨rfl, rfl⟩ := Prod.mk.inj heq
    · -- the end of the file: the first process has opened its end, and closed it
      constructor <;> simp [held, Store.print, *] <;> omega
    · have hwritten : 2 < n := by
        by_contra hle
        rw [hmessage (by omega)] at hdata
        cases hdata
      cases hstop : b == nul <;> constructor <;> simp [held, Store.print, *] <;> omega
  | m + 9 => cases hc

theorem Open.call (hs : Open s) (h : Duet.Call (task message answer) s t) : Open t := by
  cases h with
  | left hc hexec => exact hs.first hc hexec
  | right hc hexec => exact hs.second hc hexec

/-- Calls that are both enabled leave each other alone. -/
theorem Open.commutes (hs : Open s) : (task message answer).Commutes s := by
  intro c d hc hd
  refine commute_of_clear ?_
  obtain ⟨n, m, k⟩ := s
  obtain ⟨hforthR, hforthW, hbackR, hbackW, -, -, -, -, hfirst, hsecond, -, -, hgreeted, hanswered,
    hfinished⟩ := hs
  dsimp only [held] at *
  change (firstCalls message)[n]? = _ at hc
  change (secondCalls answer)[m]? = _ at hd
  match n with
  | 0 | 1 | 2 | 3 | 4 | 5 | 6 | 7 | 8 =>
    obtain rfl := Option.some.inj hc
    match m with
    | 0 | 1 | 2 | 3 | 4 | 5 | 6 | 7 | 8 =>
      obtain rfl := Option.some.inj hd
      first
      | trivial
      | simp [Clear, Pipe.Apart, *]
    | m + 9 => cases hd
  | n + 9 => cases hc

/-! ### One run, and all others -/

/-- A FIFO that both sides have opened. -/
def fifo (capacity : ℕ) (data : List Char) (readers writers : ℤ) : Pipe Char :=
  ⟨capacity, data, readers, writers, true, true⟩

/-- The bytes behind the first NUL. -/
def behind (bytes : List Char) : List Char := bytes.drop (CString.strlen bytes + 1)

/-- Each process has printed the other's text, and a newline. -/
def final (message answer : List Char) (capacity : ℕ) : Store :=
  ⟨fifo capacity (behind message) 0 0, fifo capacity (behind answer) 0 0,
    CString.text answer ++ ['\n'], CString.text message ++ ['\n'], false⟩

/-- The second process waits for more bytes, the first one for somebody to open `fifo_stof`. -/
def waiting (message : List Char) (capacity : ℕ) : Store :=
  ⟨fifo capacity [] 1 1, ⟨capacity, [], 1, 0, true, false⟩, [], message, false⟩

/-- The first process has written, and both have opened `fifo_ftos`. -/
theorem leads_written (hmessage : message.length ≤ capacity) :
    (task message answer).Leads ⟨0, 0, made capacity⟩
      ⟨4, 2, ⟨fifo capacity message 1 1, ⟨capacity, [], 1, 0, true, false⟩, [], [], false⟩⟩ := by
  have hopen : (task message answer).Leads ⟨0, 0, made capacity⟩
      ⟨1, 0, ⟨⟨capacity, [], 0, 1, false, true⟩, ⟨capacity, [], 0, 0, false, false⟩, [], [],
        false⟩⟩ :=
    Duet.leads_left_play productive (l := (firstCalls message).take 1) rfl rfl
  have hopened : (task message answer).Leads
      ⟨1, 0, ⟨⟨capacity, [], 0, 1, false, true⟩, ⟨capacity, [], 0, 0, false, false⟩, [], [],
        false⟩⟩
      ⟨1, 2, ⟨fifo capacity [] 1 1, ⟨capacity, [], 0, 0, false, false⟩, [], [], false⟩⟩ :=
    Duet.leads_right_play productive (l := (secondCalls answer).take 2) rfl rfl
  have hwrite : (task message answer).Leads
      ⟨1, 2, ⟨fifo capacity [] 1 1, ⟨capacity, [], 0, 0, false, false⟩, [], [], false⟩⟩
      ⟨4, 2, ⟨fifo capacity message 1 1, ⟨capacity, [], 1, 0, true, false⟩, [], [], false⟩⟩ :=
    Duet.leads_left_play productive (l := ((firstCalls message).drop 1).take 3) rfl (by
      simp [Duet.play, duet, firstCalls, exec, Pipe.act, Store.print, fifo,
        Nat.not_lt.2 hmessage])
  exact hopen.trans (hopened.trans hwrite)

/-- Nothing goes on in a state in which both processes wait. -/
theorem rests_waiting : ((task message answer).machine (made capacity)).Rests
    ⟨4, 2, waiting message capacity⟩ := by
  rintro t ⟨-, hstep⟩
  rcases Duet.call_iff.2 hstep with ⟨hc, hexec⟩ | ⟨hc, hexec⟩
  · obtain rfl := Option.some.inj hc
    cases hexec
  · obtain rfl := Option.some.inj hc
    cases hexec

theorem leads_waiting (hmessage : message.length ≤ capacity) (hnul : nul ∉ message) :
    (task message answer).Leads ⟨0, 0, made capacity⟩ ⟨4, 2, waiting message capacity⟩ := by
  have hstop : ∀ c ∈ message, (c == nul) = false := fun c hc =>
    beq_false_of_ne fun heq => hnul (heq ▸ hc)
  exact (leads_written hmessage).trans (leads_forth rfl hstop (List.append_nil message).symm)

/-! ### A NUL in the first message -/

theorem text_notMem : ∀ c ∈ CString.text message, (c == nul) = false := fun _ hc =>
  beq_false_of_ne fun heq => CString.nul_notMem_text message (heq ▸ hc)

theorem text_behind (hnul : nul ∈ message) :
    message = CString.text message ++ nul :: behind message := by
  obtain ⟨rest, hrest⟩ := CString.exists_eq_text_append hnul
  have hbehind : behind message = rest := by
    rw [behind, CString.strlen, ← List.drop_drop]
    nth_rewrite 2 [hrest]
    rw [List.drop_left, List.drop_one, List.tail_cons]
  rw [hbehind]
  exact hrest

theorem behind_of_notMem (hnul : nul ∉ message) : behind message = [] :=
  List.drop_eq_nil_of_le (by rw [CString.strlen, CString.text_of_notMem hnul]; omega)

/-- The second process has read the first text, and has answered. -/
theorem leads_answered (hmessage : message.length ≤ capacity) (hanswer : answer.length ≤ capacity)
    (hnul : nul ∈ message) : (task message answer).Leads ⟨0, 0, made capacity⟩
      ⟨4, 9, ⟨fifo capacity (behind message) 0 1, fifo capacity answer 1 0, [],
        CString.text message ++ ['\n'], false⟩⟩ := by
  have hread : (task message answer).Leads
      ⟨4, 2, ⟨fifo capacity message 1 1, ⟨capacity, [], 1, 0, true, false⟩, [], [], false⟩⟩
      ⟨4, 2, ⟨fifo capacity (nul :: behind message) 1 1, ⟨capacity, [], 1, 0, true, false⟩, [],
        CString.text message, false⟩⟩ :=
    leads_forth rfl text_notMem (text_behind hnul)
  have hwrite : (task message answer).Leads
      ⟨4, 2, ⟨fifo capacity (nul :: behind message) 1 1, ⟨capacity, [], 1, 0, true, false⟩, [],
        CString.text message, false⟩⟩
      ⟨4, 9, ⟨fifo capacity (behind message) 0 1, fifo capacity answer 1 0, [],
        CString.text message ++ ['\n'], false⟩⟩ :=
    Duet.leads_right_play productive (l := (secondCalls answer).drop 2) rfl (by
      simp [Duet.play, duet, secondCalls, exec, Pipe.act, Store.print, fifo,
        Nat.not_lt.2 hanswer])
  exact (leads_written hmessage).trans (hread.trans hwrite)

theorem leads_final (hmessage : message.length ≤ capacity) (hanswer : answer.length ≤ capacity)
    (hnul : nul ∈ message) :
    (task message answer).Leads ⟨0, 0, made capacity⟩ ⟨9, 9, final message answer capacity⟩ := by
  refine (leads_answered hmessage hanswer hnul).trans ?_
  have hawait : (task message answer).Leads
      ⟨4, 9, ⟨fifo capacity (behind message) 0 1, fifo capacity answer 1 0, [],
        CString.text message ++ ['\n'], false⟩⟩
      ⟨5, 9, ⟨fifo capacity (behind message) 0 1, fifo capacity answer 1 0, [],
        CString.text message ++ ['\n'], false⟩⟩ :=
    Duet.leads_left productive rfl rfl
  refine hawait.trans ?_
  by_cases hnul' : nul ∈ answer
  · -- the first process finds the NUL
    refine (leads_back rfl text_notMem (text_behind hnul')).trans ?_
    exact Duet.leads_left_play productive (l := (firstCalls message).drop 5) rfl (by
      simp [Duet.play, duet, firstCalls, exec, Pipe.act, Store.print, fifo, final])
  · -- it is at the end of the file
    have hstop : ∀ c ∈ answer, (c == nul) = false := fun c hc =>
      beq_false_of_ne fun heq => hnul' (heq ▸ hc)
    refine (leads_back rfl hstop (List.append_nil answer).symm).trans ?_
    exact Duet.leads_left_play productive (l := (firstCalls message).drop 5) rfl (by
      simp [Duet.play, duet, firstCalls, exec, Pipe.act, Store.print, fifo, final,
        behind_of_notMem hnul', CString.text_of_notMem hnul'])

/-- **The FIFOs of the second task.**  In whatever order the calls are made, both processes come to
their ends if there is a NUL in the first message, each having printed the other's text; without
one, each of them waits for the other. -/
theorem fifo_exchange (hmessage : message.length ≤ capacity) (hanswer : answer.length ≤ capacity) :
    ((task message answer).machine (made capacity)).Inevitable
      (fun s => s = if nul ∈ message then ⟨9, 9, final message answer capacity⟩
        else ⟨4, 2, waiting message capacity⟩) ⟨0, 0, made capacity⟩ := by
  split
  · rename_i hnul
    exact Duet.inevitable_of_commute productive open_made (fun _ _ hs h => hs.call h)
      (fun _ hs => hs.commutes) (leads_final hmessage hanswer hnul) (Duet.Ended.rests ⟨rfl, rfl⟩)
  · rename_i hnul
    exact Duet.inevitable_of_commute productive open_made (fun _ _ hs h => hs.call h)
      (fun _ hs => hs.commutes) (leads_waiting hmessage hnul) rests_waiting

/-- The messages of the source, in a FIFO of 64 KiB. -/
theorem fifo_exchange_hello :
    ((task hello hi).machine (made 65536)).Inevitable
      (fun s => s = if nul ∈ hello then ⟨9, 9, final hello hi 65536⟩
        else ⟨4, 2, waiting hello 65536⟩) ⟨0, 0, made 65536⟩ :=
  fifo_exchange (by decide) (by decide)

end EmbeddedC.Ipc.Fifos
