import EmbeddedC.Sockets.Datagram

/-!
# Homework 15: a connection between two processes

The server binds its socket to a file, listens and accepts, and the client connects to the file, in
at most `T1_CONN_RETRIES` attempts.  The server sends a message, and the client answers.

* `serverCalls`, `clientCalls`: the system calls of `first_task`, in their order;
* `Talk`: who has come how far, in every reachable state;
* `decided_at_listen`: both processes end if the client has not given up when the server listens;
  otherwise the server waits for a connection for ever.
-/

namespace EmbeddedC.Sockets.Stream

open Duet (Side)
open Datagram (File Text)

/-- The server's file, whether it listens and whether the client is connected, the `index` of the
client's loop, the messages that are on their way, what has been printed, and the exit status of the
client. -/
structure Store where
  file : File
  listening : Bool
  connected : Bool
  index : ℕ
  toServer : List Text
  toClient : List Text
  serverOut : Option Text
  clientOut : Option Text
  exited : Option Bool

inductive Call
  /-- the server's loop around `bind` -/
  | bind
  | listen
  | accept
  /-- the client's loop around `connect` -/
  | connect
  | send
  /-- `recv`, and `printf` -/
  | recv
  | exit
  /-- `wait(NULL)` -/
  | wait
  | unlink

/-- `T1_CONN_RETRIES` -/
def t1ConnRetries : ℕ := 5

def t1ServerMsg : Text := "Hello".toList

def t1ClientMsg : Text := "Hi".toList

/-- The server's calls.  When the client has closed the connection, the server finds its own message
in `msg`. -/
def execServer (c : Call) (k : Store) : Option (Bool × Store) :=
  match c with
  | .bind =>
    if k.file = .absent then some (true, { k with file := .bound })
    else some (false, { k with file := .absent })
  | .listen => some (true, { k with listening := true })
  | .accept => if k.connected then some (true, k) else none
  | .send => some (true, { k with toClient := k.toClient ++ [t1ServerMsg] })
  | .recv =>
    match k.toServer with
    | msg :: rest => some (true, { k with toServer := rest, serverOut := some msg })
    | [] => if k.exited.isSome then some (true, { k with serverOut := some t1ServerMsg }) else none
  | .wait => if k.exited.isSome then some (true, k) else none
  | .unlink => some (true, { k with file := .absent })
  | .connect | .exit => none

/-- The client's calls.  An attempt to connect fails unless somebody listens. -/
def execClient (c : Call) (k : Store) : Option (Bool × Store) :=
  match c with
  | .connect =>
    if k.file = .bound ∧ k.listening then some (true, { k with connected := true })
    else if k.index + 1 < t1ConnRetries then some (false, { k with index := k.index + 1 })
    else some (false, { k with exited := some false })
  | .recv =>
    match k.toClient with
    | msg :: rest => some (true, { k with toClient := rest, clientOut := some msg })
    | [] => none
  | .send => some (true, { k with toServer := k.toServer ++ [t1ClientMsg] })
  | .exit => some (true, { k with exited := some true })
  | .bind | .listen | .accept | .wait | .unlink => none

/-- A client that has exited makes no calls. -/
def exec (side : Side) (c : Call) (k : Store) : Option (Bool × Store) :=
  match side with
  | .left => execServer c k
  | .right => if k.exited.isSome then none else execClient c k

def serverCalls : List Call := [.bind, .listen, .accept, .send, .recv, .wait, .unlink]

def clientCalls : List Call := [.connect, .recv, .send, .exit]

def task : Duet Call Store := ⟨serverCalls, clientCalls, exec⟩

/-- The client has been forked; an earlier run may have left the file. -/
def forked (file : File) : Store := ⟨file, false, false, 0, [], [], none, none, none⟩

/-- Who has come how far. -/
structure Talk (s : Duet.State Store) : Prop where
  index : s.store.index < t1ConnRetries
  unbound : s.left = 0 → s.store.file ≠ .bound
  bound : 0 < s.left → s.left ≤ 6 → s.store.file = .bound
  unlinked : 6 < s.left → s.store.file = .absent
  listening : s.store.listening = true ↔ 1 < s.left
  connected : s.store.connected = true ↔ 0 < s.right
  toServer : s.store.toServer = if 2 < s.right ∧ s.left ≤ 4 then [t1ClientMsg] else []
  toClient : s.store.toClient = if 3 < s.left ∧ s.right ≤ 1 then [t1ServerMsg] else []
  serverOut : s.store.serverOut = if 4 < s.left then some t1ClientMsg else none
  clientOut : s.store.clientOut = if 1 < s.right then some t1ServerMsg else none
  listened : 0 < s.right → 1 < s.left
  accepted : 2 < s.left → 0 < s.right
  greeted : 1 < s.right → 3 < s.left
  answered : 4 < s.left → 2 < s.right
  failed : s.store.exited = some false → s.right = 0
  exited : s.store.exited = some true ↔ 3 < s.right
  waited : 5 < s.left → 3 < s.right

/-- Both processes have ended, have printed the other's message, and have left no file. -/
def Success (s : Duet.State Store) : Prop :=
  s.left = 7 ∧ s.right = 4 ∧ s.store.serverOut = some t1ClientMsg ∧
    s.store.clientOut = some t1ServerMsg ∧ s.store.file = .absent

/-- The client has exited with a failure, and the server is at `accept`. -/
def Hung (s : Duet.State Store) : Prop :=
  s.left = 2 ∧ s.right = 0 ∧ s.store.exited = some false ∧ s.store.connected = false

/-- No run can go on for ever. -/
def weight (s : Duet.State Store) : ℕ :=
  2 * (7 - s.left) + (if s.store.file = .stale then 1 else 0) + 2 * (4 - s.right) +
    (t1ConnRetries - s.store.index) + if s.store.exited = none then 1 else 0

variable {file : File} {s t : Duet.State Store} {n m : ℕ} {k k' : Store} {c : Call} {done : Bool}

theorem talk_forked (hfile : file ≠ .bound) : Talk ⟨0, 0, forked file⟩ := by
  constructor <;> simp [forked, t1ConnRetries, hfile]

theorem Talk.server (hs : Talk ⟨n, m, k⟩) (hc : serverCalls[n]? = some c)
    (hexec : execServer c k = some (done, k')) :
    Talk ⟨n + done.toNat, m, k'⟩ ∧ weight ⟨n + done.toNat, m, k'⟩ < weight ⟨n, m, k⟩ := by
  obtain ⟨hindex, hunbound, hbound, hunlinked, hlistening, hconnected, htoServer, htoClient,
    hserverOut, hclientOut, hlistened, haccepted, hgreeted, hanswered, hfailed, hexited,
    hwaited⟩ := hs
  dsimp only at *
  match n with
  | 0 =>
    obtain rfl := Option.some.inj hc
    rw [execServer] at hexec
    split at hexec <;> cases hexec
    · refine ⟨?_, by grind [weight]⟩
      constructor <;> grind
    · have hstale := File.eq_stale ‹_› (hunbound rfl)
      refine ⟨?_, by grind [weight]⟩
      constructor <;> grind
  | 1 | 3 | 6 =>
    obtain rfl := Option.some.inj hc
    cases hexec
    refine ⟨?_, by grind [weight]⟩
    constructor <;> grind
  | 2 =>
    obtain rfl := Option.some.inj hc
    rw [execServer] at hexec
    split at hexec <;> cases hexec
    refine ⟨?_, by grind [weight]⟩
    constructor <;> grind
  | 4 =>
    obtain rfl := Option.some.inj hc
    rw [execServer] at hexec
    split at hexec
    · cases hexec
      have hsent : 2 < m := by grind
      refine ⟨?_, by grind [weight]⟩
      constructor <;> grind
    · -- the client has sent its message before it exits
      rename_i hempty
      split at hexec
      · rename_i hdone
        obtain ⟨status, hstatus⟩ := Option.isSome_iff_exists.1 hdone
        cases status <;> grind
      · cases hexec
  | 5 =>
    obtain rfl := Option.some.inj hc
    rw [execServer] at hexec
    split at hexec <;> cases hexec
    rename_i hdone
    have hend : 3 < m := by
      obtain ⟨status, hstatus⟩ := Option.isSome_iff_exists.1 hdone
      cases status <;> grind
    refine ⟨?_, by grind [weight]⟩
    constructor <;> grind
  | n + 7 => cases hc

theorem Talk.client (hs : Talk ⟨n, m, k⟩) (hrunning : k.exited = none)
    (hc : clientCalls[m]? = some c) (hexec : execClient c k = some (done, k')) :
    Talk ⟨n, m + done.toNat, k'⟩ ∧ weight ⟨n, m + done.toNat, k'⟩ < weight ⟨n, m, k⟩ := by
  obtain ⟨hindex, hunbound, hbound, hunlinked, hlistening, hconnected, htoServer, htoClient,
    hserverOut, hclientOut, hlistened, haccepted, hgreeted, hanswered, hfailed, hexited,
    hwaited⟩ := hs
  dsimp only at *
  match m with
  | 0 =>
    obtain rfl := Option.some.inj hc
    rw [execClient] at hexec
    split at hexec
    · cases hexec
      refine ⟨?_, by grind [weight]⟩
      constructor <;> grind
    · split at hexec <;> cases hexec
      · refine ⟨?_, by grind [weight]⟩
        constructor <;> grind
      · refine ⟨?_, by grind [weight]⟩
        constructor <;> grind
  | 1 =>
    obtain rfl := Option.some.inj hc
    rw [execClient] at hexec
    split at hexec <;> cases hexec
    have hsent : 3 < n := by grind
    refine ⟨?_, by grind [weight]⟩
    constructor <;> grind
  | 2 | 3 =>
    obtain rfl := Option.some.inj hc
    cases hexec
    refine ⟨?_, by grind [weight]⟩
    constructor <;> grind
  | m + 4 => cases hc

theorem Talk.call (hs : Talk s) (h : Duet.Call task s t) : Talk t ∧ weight t < weight s := by
  cases h with
  | left hc hexec => exact hs.server hc hexec
  | right hc hexec =>
    change (if _ then _ else _) = _ at hexec
    split at hexec
    · cases hexec
    · rename_i hrunning
      exact hs.client (by simpa using hrunning) hc hexec

theorem call_server (hc : serverCalls[n]? = some c) (h : (execServer c k).isSome) :
    ∃ t, Duet.Call task ⟨n, m, k⟩ t :=
  Duet.left_enabled hc h

theorem call_client (hrunning : k.exited = none) (hc : clientCalls[m]? = some c)
    (h : (execClient c k).isSome) : ∃ t, Duet.Call task ⟨n, m, k⟩ t := by
  have hexec : task.exec .right c k = execClient c k := if_neg (by simp [hrunning])
  exact Duet.right_enabled hc (by rwa [hexec])

/-- An attempt to connect succeeds or fails at once. -/
theorem call_connect (hrunning : k.exited = none) : ∃ t, Duet.Call task ⟨n, 0, k⟩ t := by
  refine call_client hrunning (c := .connect) rfl ?_
  rw [execClient]
  split
  · rfl
  · split <;> rfl

/-- Some process goes on, unless both have ended or the client has given up. -/
theorem Talk.progress (hs : Talk s) (hwithin : task.Within s) (hend : ¬ (Success s ∨ Hung s)) :
    ∃ t, Duet.Call task s t := by
  obtain ⟨n, m, k⟩ := s
  have hn : n ≤ 7 := hwithin.1
  have hm : m ≤ 4 := hwithin.2
  obtain ⟨hindex, hunbound, hbound, hunlinked, hlistening, hconnected, htoServer, htoClient,
    hserverOut, hclientOut, hlistened, haccepted, hgreeted, hanswered, hfailed, hexited,
    hwaited⟩ := hs
  dsimp only at *
  have hrunning (hpos : 0 < m) (hle : m ≤ 3) : k.exited = none := by
    cases hstatus : k.exited with
    | none => rfl
    | some status => cases status <;> grind
  match n with
  | 0 =>
    refine call_server (c := .bind) rfl ?_
    rw [execServer]
    split <;> rfl
  | 1 | 3 | 6 => exact call_server rfl rfl
  | 2 =>
    by_cases hconn : k.connected = true
    · exact call_server (c := .accept) rfl (by simp [execServer, hconn])
    · have hzero : m = 0 := by grind
      subst hzero
      cases hstatus : k.exited with
      | none => exact call_connect hstatus
      | some status =>
        cases status with
        | true => grind
        | false => exact absurd (.inr ⟨rfl, rfl, hstatus, by simpa using hconn⟩) hend
  | 4 =>
    have hpos := haccepted (by omega)
    match m with
    | 1 => exact call_client (hrunning hpos (by simp)) (c := .recv) rfl (by
        simp [execClient, htoClient])
    | 2 => exact call_client (hrunning hpos (by simp)) (c := .send) rfl rfl
    | 3 | 4 => exact call_server (c := .recv) rfl (by simp [execServer, htoServer])
  | 5 =>
    by_cases hdone : 3 < m
    · exact call_server (c := .wait) rfl (by simp [execServer, hexited.2 hdone])
    · obtain rfl : m = 3 := by
        have := hanswered (by omega)
        omega
      exact call_client (hrunning (by simp) (by simp)) (c := .exit) rfl rfl
  | n + 7 =>
    obtain rfl : n = 0 := by omega
    obtain rfl : m = 4 := by
      have := hwaited (by omega)
      omega
    exact absurd (.inl ⟨rfl, rfl, hserverOut, hclientOut, hunlinked (by omega)⟩) hend

/-! ### What decides -/

/-- Once the server listens, no attempt fails. -/
def Listening (s : Duet.State Store) : Prop := 1 < s.left ∧ s.store.exited ≠ some false

/-- The client has exited with a failure. -/
def GaveUp (s : Duet.State Store) : Prop := s.store.exited = some false

theorem exited_server (h : execServer c k = some (done, k')) : k'.exited = k.exited := by
  cases c with
  | listen | send | unlink => cases h; rfl
  | bind | accept | wait =>
    rw [execServer] at h
    split at h <;> cases h <;> rfl
  | recv =>
    rw [execServer] at h
    split at h
    · cases h; rfl
    · split at h <;> cases h
      rfl
  | connect | exit => cases h

theorem GaveUp.call (hs : GaveUp s) (h : Duet.Call task s t) : GaveUp t := by
  cases h with
  | left hc hexec => exact (exited_server hexec).trans hs
  | right hc hexec =>
    change (if _ then _ else _) = _ at hexec
    rw [GaveUp] at hs
    simp [hs] at hexec

theorem Listening.call (htalk : Talk s) (hs : Listening s) (h : Duet.Call task s t) :
    Listening t := by
  obtain ⟨n, m, k⟩ := s
  obtain ⟨hlistens, hexited⟩ := hs
  cases h with
  | left hc hexec =>
    refine ⟨Nat.lt_add_right _ hlistens, ?_⟩
    rw [exited_server hexec]
    exact hexited
  | @right c done k' hc hexec =>
    refine ⟨hlistens, ?_⟩
    change (if _ then _ else _) = _ at hexec
    split at hexec
    · cases hexec
    change clientCalls[m]? = some c at hc
    have hall := htalk
    obtain ⟨-, -, hbound, -, hlistening, -, -, -, -, -, -, haccepted, -, -, -, -, hwaited⟩ := hall
    dsimp only at *
    match m with
    | 0 =>
      obtain rfl := Option.some.inj hc
      have hfile : k.file = .bound := hbound (by omega) (by omega)
      rw [execClient, if_pos ⟨hfile, hlistening.2 hlistens⟩] at hexec
      cases hexec
      exact hexited
    | 1 =>
      obtain rfl := Option.some.inj hc
      rw [execClient] at hexec
      split at hexec <;> cases hexec
      exact hexited
    | 2 =>
      obtain rfl := Option.some.inj hc
      cases hexec
      exact hexited
    | 3 =>
      obtain rfl := Option.some.inj hc
      cases hexec
      simp
    | m + 4 => cases hc

theorem talk_of_reachable (hfile : file ≠ .bound)
    (h : (task.machine (forked file)).Reachable s) : Talk s ∧ task.Within s := by
  refine h.invariant (I := fun s => Talk s ∧ task.Within s) ?_ fun _ a _ _ hs hstep => ?_
  · rintro _ rfl
    exact ⟨talk_forked hfile, Nat.zero_le _, Nat.zero_le _⟩
  · have hcall := Duet.call_iff.2 ⟨a, hstep⟩
    exact ⟨(hs.1.call hcall).1, hcall.within hs.2⟩

/-- **The connection.**  Every run ends in one of two ways: both processes end, each having printed
the other's message, or the server waits for a connection for ever.  It is the first as soon as the
server listens before the client has given up, and the second as soon as the client has given up. -/
theorem decided_at_listen (hfile : file ≠ .bound)
    (hs : (task.machine (forked file)).Reachable s) :
    (task.machine (forked file)).Inevitable (fun t => Success t ∨ Hung t) s ∧
      (Listening s → (task.machine (forked file)).Inevitable Success s) ∧
      (GaveUp s → (task.machine (forked file)).Inevitable Hung s) := by
  have htalk := talk_of_reachable hfile hs
  refine ⟨?_, fun hlistening => ?_, fun hgaveUp => ?_⟩
  · refine Duet.inevitable_of_weight (I := fun s => Talk s ∧ task.Within s) weight htalk
      (fun s t hs ht => ?_) (fun s hs hend => hs.1.progress hs.2 hend) _
    obtain ⟨htalk, hlt⟩ := hs.1.call ht
    exact ⟨⟨htalk, ht.within hs.2⟩, hlt⟩
  · refine Duet.inevitable_of_weight (I := fun s => (Talk s ∧ task.Within s) ∧ Listening s) weight
      ⟨htalk, hlistening⟩ (fun s t hs ht => ?_) (fun s hs hend => ?_) _
    · obtain ⟨htalk, hlt⟩ := hs.1.1.call ht
      exact ⟨⟨⟨htalk, ht.within hs.1.2⟩, hs.2.call hs.1.1 ht⟩, hlt⟩
    · exact hs.1.1.progress hs.1.2 fun h => h.elim hend fun hhung => hs.2.2 hhung.2.2.1
  · refine Duet.inevitable_of_weight (I := fun s => (Talk s ∧ task.Within s) ∧ GaveUp s) weight
      ⟨htalk, hgaveUp⟩ (fun s t hs ht => ?_) (fun s hs hend => ?_) _
    · obtain ⟨htalk, hlt⟩ := hs.1.1.call ht
      exact ⟨⟨⟨htalk, ht.within hs.1.2⟩, hs.2.call ht⟩, hlt⟩
    · refine hs.1.1.progress hs.1.2 fun h => h.elim (fun hsuccess => ?_) hend
      have hexited := hs.1.1.exited.2 (by rw [hsuccess.2.1]; omega)
      rw [show s.store.exited = some false from hs.2] at hexited
      cases hexited

/-- Five attempts have failed before the server listens. -/
def refused : Duet.State Store := ⟨0, 0, ⟨.stale, false, false, 4, [], [], none, none, some false⟩⟩

theorem refused_run : (task.machine (forked .stale)).run ⟨0, 0, forked .stale⟩
    [.right, .right, .right, .right, .right] = some refused := rfl

theorem decided_at_listen_refused :
    (task.machine (forked .stale)).Inevitable (fun t => Success t ∨ Hung t) refused ∧
      (Listening refused → (task.machine (forked .stale)).Inevitable Success refused) ∧
      (GaveUp refused → (task.machine (forked .stale)).Inevitable Hung refused) :=
  @decided_at_listen .stale refused (by decide)
    (Machine.reachable_of_run rfl refused_run)

end EmbeddedC.Sockets.Stream
