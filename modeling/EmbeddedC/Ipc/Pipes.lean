import EmbeddedC.Ipc.Channels

/-!
# Homework 9: the pipes of the first task

The parent writes to the pipe `pipe_ptoc` and reads from `pipe_ctop`, the child the other way round.
Both have all four ends open after `fork`, and a read loop ends when nobody can write any more.

* `parentCalls`, `childCalls`: the system calls of `first_task`, in their order;
* `Open`: which ends are open, and who must have come how far, in every reachable state;
* `pipe_exchange`: in every order of the calls, both messages arrive, and both processes end.
-/

namespace EmbeddedC.Ipc.Pipes

open Pipe (End Op)

/-- `close` of one end. -/
abbrev close (e : End) : Op Char := .hold e (-1)

/-- `while (read(fd, &buf, 1) > 0)` -/
abbrev readLoop : Op Char := .read fun _ => false

/-- What the parent does with `pipe_ptoc` (`forth`) and `pipe_ctop` (`back`). -/
def parentCalls (greeting : List Char) : List Call :=
  [.back (close .write), .forth (close .read), .forth (.write greeting), .forth (close .write),
    .back readLoop, .put '\n', .back (close .read), .wait]

/-- What the child does with them. -/
def childCalls (answer : List Char) : List Call :=
  [.forth (close .write), .back (close .read), .forth readLoop, .put '\n', .back (.write answer),
    .forth (close .read), .back (close .write), .exit]

/-- `"Greetings!"`, 11 bytes -/
def greetings : List Char := "Greetings!".toList ++ [CString.nul]

/-- `"Hello!"`, 7 bytes -/
def hello : List Char := "Hello!".toList ++ [CString.nul]

/-- The calls of both processes, with the two messages. -/
def task (greeting answer : List Char) : Duet Call Store :=
  duet (parentCalls greeting) (childCalls answer)

/-- A pipe, whose ends are open in some processes. -/
def pipe (capacity : ℕ) (data : List Char) (readers writers : ℤ) : Pipe Char :=
  ⟨capacity, data, readers, writers, true, true⟩

/-- After `fork`, both processes have all ends open. -/
def forked (capacity : ℕ) : Store := ⟨pipe capacity [] 2 2, pipe capacity [] 2 2, [], [], false⟩

/-- An end that a process closes with its call number `last`. -/
def held (last n : ℕ) : ℤ := if n ≤ last then 1 else 0

/-- The ends that are open, and who must have come how far. -/
structure Open (s : Duet.State Store) : Prop where
  forthReaders : s.store.forth.readers = held 1 s.left + held 5 s.right
  forthWriters : s.store.forth.writers = held 3 s.left + held 0 s.right
  backReaders : s.store.back.readers = held 6 s.left + held 1 s.right
  backWriters : s.store.back.writers = held 0 s.left + held 6 s.right
  greeted : 2 < s.right → 3 < s.left
  answered : 4 < s.left → 6 < s.right

variable {greeting answer : List Char} {capacity : ℕ} {s t : Duet.State Store}

theorem open_forked : Open ⟨0, 0, forked capacity⟩ := ⟨rfl, rfl, rfl, rfl, by simp, by simp⟩

theorem Open.parent {n m : ℕ} {k k' : Store} {c : Call} {done : Bool} (hs : Open ⟨n, m, k⟩)
    (hc : (parentCalls greeting)[n]? = some c) (hexec : exec .left c k = some (done, k')) :
    Open ⟨n + done.toNat, m, k'⟩ := by
  obtain ⟨hforthR, hforthW, hbackR, hbackW, hgreeted, hanswered⟩ := hs
  match n with
  | 0 | 1 | 3 | 5 | 6 =>
    obtain rfl := Option.some.inj hc
    obtain ⟨rfl, rfl⟩ := Prod.mk.inj (Option.some.inj hexec)
    constructor <;> simp [held, Store.print] at * <;> omega
  | 2 =>
    obtain rfl := Option.some.inj hc
    obtain ⟨r, hact, heq⟩ := Option.map_eq_some_iff.1 hexec
    obtain ⟨-, -, rfl⟩ := Pipe.write_eq_some hact
    obtain ⟨rfl, rfl⟩ := Prod.mk.inj heq
    constructor <;> simp [held, Store.print] at * <;> omega
  | 4 =>
    obtain rfl := Option.some.inj hc
    obtain ⟨r, hact, heq⟩ := Option.map_eq_some_iff.1 hexec
    obtain ⟨-, hwriters, rfl⟩ | ⟨b, data, -, rfl⟩ := Pipe.read_eq_some hact <;>
      obtain ⟨rfl, rfl⟩ := Prod.mk.inj heq
    · -- the end of the file: the child has closed its end
      constructor <;> simp [held, Store.print] at * <;> omega
    · constructor <;> simp [held, Store.print] at * <;> omega
  | 7 =>
    obtain rfl := Option.some.inj hc
    obtain ⟨-, heq⟩ := wait_eq_some hexec
    obtain ⟨rfl, rfl⟩ := Prod.mk.inj heq
    constructor <;> simp [held] at * <;> omega
  | n + 8 => cases hc

theorem Open.child {n m : ℕ} {k k' : Store} {c : Call} {done : Bool} (hs : Open ⟨n, m, k⟩)
    (hc : (childCalls answer)[m]? = some c) (hexec : exec .right c k = some (done, k')) :
    Open ⟨n, m + done.toNat, k'⟩ := by
  obtain ⟨hforthR, hforthW, hbackR, hbackW, hgreeted, hanswered⟩ := hs
  match m with
  | 0 | 1 | 3 | 5 | 6 | 7 =>
    obtain rfl := Option.some.inj hc
    obtain ⟨rfl, rfl⟩ := Prod.mk.inj (Option.some.inj hexec)
    constructor <;> simp [held, Store.print] at * <;> omega
  | 2 =>
    obtain rfl := Option.some.inj hc
    obtain ⟨r, hact, heq⟩ := Option.map_eq_some_iff.1 hexec
    obtain ⟨-, hwriters, rfl⟩ | ⟨b, data, -, rfl⟩ := Pipe.read_eq_some hact <;>
      obtain ⟨rfl, rfl⟩ := Prod.mk.inj heq
    · -- the end of the file: the parent has closed its end
      constructor <;> simp [held, Store.print] at * <;> omega
    · constructor <;> simp [held, Store.print] at * <;> omega
  | 4 =>
    obtain rfl := Option.some.inj hc
    obtain ⟨r, hact, heq⟩ := Option.map_eq_some_iff.1 hexec
    obtain ⟨-, -, rfl⟩ := Pipe.write_eq_some hact
    obtain ⟨rfl, rfl⟩ := Prod.mk.inj heq
    constructor <;> simp [held, Store.print] at * <;> omega
  | m + 8 => cases hc

theorem Open.call (hs : Open s) (h : Duet.Call (task greeting answer) s t) : Open t := by
  cases h with
  | left hc hexec => exact hs.parent hc hexec
  | right hc hexec => exact hs.child hc hexec

/-- Calls that are both enabled leave each other alone. -/
theorem Open.commutes (hs : Open s) : (task greeting answer).Commutes s := by
  intro c d hc hd
  refine commute_of_clear ?_
  obtain ⟨n, m, k⟩ := s
  obtain ⟨hforthR, hforthW, hbackR, hbackW, hgreeted, hanswered⟩ := hs
  change (parentCalls greeting)[n]? = _ at hc
  change (childCalls answer)[m]? = _ at hd
  match n with
  | 0 | 1 | 2 | 3 | 4 | 5 | 6 | 7 =>
    obtain rfl := Option.some.inj hc
    match m with
    | 0 | 1 | 2 | 3 | 4 | 5 | 6 | 7 =>
      obtain rfl := Option.some.inj hd
      first
      | trivial
      | simp [Clear, Pipe.Apart, held] at * <;> omega
    | m + 8 => cases hd
  | n + 8 => cases hc

/-! ### One run, and all others -/

/-- Each process has printed what the other one has written, and a newline. -/
def final (greeting answer : List Char) (capacity : ℕ) : Store :=
  ⟨pipe capacity [] 0 0, pipe capacity [] 0 0, answer ++ ['\n'], greeting ++ ['\n'], true⟩

theorem leads_final (hgreeting : greeting.length ≤ capacity) (hanswer : answer.length ≤ capacity) :
    (task greeting answer).Leads ⟨0, 0, forked capacity⟩
      ⟨8, 8, final greeting answer capacity⟩ := by
  -- the parent writes, and closes its end
  have hwrite : (task greeting answer).Leads ⟨0, 0, forked capacity⟩
      ⟨4, 0, ⟨pipe capacity greeting 1 1, pipe capacity [] 2 1, [], [], false⟩⟩ :=
    Duet.leads_left_play productive (l := (parentCalls greeting).take 4) rfl (by
      simp [Duet.play, duet, parentCalls, exec, Pipe.act, Store.print, forked, pipe,
        Nat.not_lt.2 hgreeting])
  -- the child closes the ends it does not use, and reads
  have hclose : (task greeting answer).Leads
      ⟨4, 0, ⟨pipe capacity greeting 1 1, pipe capacity [] 2 1, [], [], false⟩⟩
      ⟨4, 2, ⟨pipe capacity greeting 1 0, pipe capacity [] 1 1, [], [], false⟩⟩ :=
    Duet.leads_right_play productive (l := (childCalls answer).take 2) rfl rfl
  have hread : (task greeting answer).Leads
      ⟨4, 2, ⟨pipe capacity greeting 1 0, pipe capacity [] 1 1, [], [], false⟩⟩
      ⟨4, 2, ⟨pipe capacity [] 1 0, pipe capacity [] 1 1, [], greeting, false⟩⟩ :=
    leads_forth rfl (fun _ _ => rfl) (List.append_nil greeting).symm
  -- it is at the end of the file; it writes, closes its ends and exits
  have hanswered : (task greeting answer).Leads
      ⟨4, 2, ⟨pipe capacity [] 1 0, pipe capacity [] 1 1, [], greeting, false⟩⟩
      ⟨4, 8, ⟨pipe capacity [] 0 0, pipe capacity answer 1 0, [], greeting ++ ['\n'], true⟩⟩ :=
    Duet.leads_right_play productive (l := (childCalls answer).drop 2) rfl (by
      simp [Duet.play, duet, childCalls, exec, Pipe.act, Store.print, pipe,
        Nat.not_lt.2 hanswer])
  -- the parent reads, is at the end of the file, and waits for the child
  have hback : (task greeting answer).Leads
      ⟨4, 8, ⟨pipe capacity [] 0 0, pipe capacity answer 1 0, [], greeting ++ ['\n'], true⟩⟩
      ⟨4, 8, ⟨pipe capacity [] 0 0, pipe capacity [] 1 0, answer, greeting ++ ['\n'], true⟩⟩ :=
    leads_back rfl (fun _ _ => rfl) (List.append_nil answer).symm
  have hend : (task greeting answer).Leads
      ⟨4, 8, ⟨pipe capacity [] 0 0, pipe capacity [] 1 0, answer, greeting ++ ['\n'], true⟩⟩
      ⟨8, 8, final greeting answer capacity⟩ :=
    Duet.leads_left_play productive (l := (parentCalls greeting).drop 4) rfl (by
      simp [Duet.play, duet, parentCalls, exec, Pipe.act, Store.print, pipe, final])
  exact hwrite.trans <| hclose.trans <| hread.trans <| hanswered.trans <| hback.trans hend

/-- **The pipes of the first task.**  If both messages fit in a pipe, then in whatever order the
calls are made both processes come to their ends, each having printed all that the other one has
written, with the pipes empty and closed. -/
theorem pipe_exchange (hgreeting : greeting.length ≤ capacity)
    (hanswer : answer.length ≤ capacity) :
    ((task greeting answer).machine (forked capacity)).Inevitable
      (fun s => s = ⟨8, 8, final greeting answer capacity⟩) ⟨0, 0, forked capacity⟩ :=
  Duet.inevitable_of_commute productive open_forked (fun _ _ hs h => hs.call h)
    (fun _ hs => hs.commutes) (leads_final hgreeting hanswer) (Duet.Ended.rests ⟨rfl, rfl⟩)

/-- The messages of the source, in a pipe of 64 KiB. -/
theorem pipe_exchange_greetings :
    ((task greetings hello).machine (forked 65536)).Inevitable
      (fun s => s = ⟨8, 8, final greetings hello 65536⟩) ⟨0, 0, forked 65536⟩ :=
  pipe_exchange (by decide) (by decide)

end EmbeddedC.Ipc.Pipes
