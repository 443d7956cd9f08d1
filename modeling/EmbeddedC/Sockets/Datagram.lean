import EmbeddedC.Lib.Duet

/-!
# Homework 15: datagrams between two processes

The server and the client bind their sockets to a file each; the client sends a message to the
server's file, and the server one to the client's.  The server removes a file that is in its way,
and the client does not.

* `serverCalls`, `clientCalls`: the system calls of `second_task`, in their order;
* `Talk`: who has come how far, in every reachable state;
* `success_or_hung`: either both processes end, or the client has given up and the server waits for
  ever;
* `either_of_absent`: both happen;
* `hung_for_good`: in any sequence of runs, after one that hangs all others hang as well.
-/

namespace EmbeddedC.Sockets.Datagram

open Duet (Side)

abbrev Text := List Char

/-- The file that a socket is bound to; it is stale when its socket has been closed. -/
inductive File
  | absent
  | stale
  | bound
  deriving DecidableEq

/-- The socket is closed. -/
def File.close : File → File
  | .bound => .stale
  | file => file

/-- The two files, the `index` of the client's loops, the datagrams that are on their way, what has
been printed, and the exit status of the client. -/
structure Store where
  serverFile : File
  clientFile : File
  index : ℕ
  toServer : List Text
  toClient : List Text
  serverOut : Option Text
  clientOut : Option Text
  exited : Option Bool

inductive Call
  /-- the loops around `bind`, of the server and of the client -/
  | bind
  /-- the client's loop around `connect` -/
  | connect
  | send
  /-- `recvfrom` of the server, `recv` of the client, and `printf` -/
  | recv
  | exit
  /-- `wait(NULL)` -/
  | wait
  | unlinkServer
  | unlinkClient

/-- `T2_CONN_RETRIES` -/
def t2ConnRetries : ℕ := 5

def t2ServerMsg : Text := "Hello".toList

def t2ClientMsg : Text := "Hi".toList

/-- `exit(EXIT_FAILURE)` of the client. -/
def Store.fail (k : Store) : Store :=
  { k with exited := some false, clientFile := k.clientFile.close }

/-- One more turn of a loop, or the last one. -/
def Store.retry (k : Store) : Store :=
  if k.index + 1 < t2ConnRetries then { k with index := k.index + 1 } else k.fail

/-- The server's calls.  A file in its way is unlinked; to send to a file without a socket would be
an error. -/
def execServer (c : Call) (k : Store) : Option (Bool × Store) :=
  match c with
  | .bind =>
    if k.serverFile = .absent then some (true, { k with serverFile := .bound })
    else some (false, { k with serverFile := .absent })
  | .recv =>
    match k.toServer with
    | [] => none
    | msg :: rest => some (true, { k with toServer := rest, serverOut := some msg })
  | .send =>
    if k.clientFile = .bound then some (true, { k with toClient := k.toClient ++ [t2ServerMsg] })
    else none
  | .wait => if k.exited.isSome then some (true, k) else none
  | .unlinkServer => some (true, { k with serverFile := .absent })
  | .unlinkClient => some (true, { k with clientFile := .absent })
  | .connect | .exit => none

/-- The client's calls.  Without the server's file, it does not try again to connect. -/
def execClient (c : Call) (k : Store) : Option (Bool × Store) :=
  match c with
  | .bind =>
    if k.clientFile = .absent then some (true, { k with clientFile := .bound, index := 0 })
    else some (false, k.retry)
  | .connect =>
    match k.serverFile with
    | .bound => some (true, { k with index := 0 })
    | .stale => some (false, k.retry)
    | .absent => some (false, k.fail)
  | .send => some (true, { k with toServer := k.toServer ++ [t2ClientMsg] })
  | .recv =>
    match k.toClient with
    | [] => none
    | msg :: rest => some (true, { k with toClient := rest, clientOut := some msg })
  | .exit => some (true, { k with exited := some true, clientFile := k.clientFile.close })
  | .wait | .unlinkServer | .unlinkClient => none

/-- A client that has exited makes no calls. -/
def exec (side : Side) (c : Call) (k : Store) : Option (Bool × Store) :=
  match side with
  | .left => execServer c k
  | .right => if k.exited.isSome then none else execClient c k

def serverCalls : List Call := [.bind, .recv, .send, .wait, .unlinkServer, .unlinkClient]

def clientCalls : List Call := [.bind, .connect, .send, .recv, .exit]

def task : Duet Call Store := ⟨serverCalls, clientCalls, exec⟩

/-- The client has been forked; earlier runs may have left the files. -/
def forked (serverFile clientFile : File) : Store :=
  ⟨serverFile, clientFile, 0, [], [], none, none, none⟩

/-- Who has come how far, when the client's file was `old` at first. -/
structure Talk (old : File) (s : Duet.State Store) : Prop where
  index : s.store.index < t2ConnRetries
  unbound : s.left = 0 → s.store.serverFile ≠ .bound
  bound : 0 < s.left → s.left ≤ 4 → s.store.serverFile = .bound
  unlinked : 4 < s.left → s.store.serverFile = .absent
  kept : s.right = 0 → s.store.clientFile = old
  opened : 0 < s.right → s.store.exited = none → s.store.clientFile = .bound
  closed : 0 < s.right → s.store.exited ≠ none → s.left ≤ 5 → s.store.clientFile = .stale
  removed : 5 < s.left → s.store.clientFile = .absent
  fresh : 0 < s.right → old = .absent
  toServer : s.store.toServer = if 2 < s.right ∧ s.left ≤ 1 then [t2ClientMsg] else []
  toClient : s.store.toClient = if 2 < s.left ∧ s.right ≤ 3 then [t2ServerMsg] else []
  serverOut : s.store.serverOut = if 1 < s.left then some t2ClientMsg else none
  clientOut : s.store.clientOut = if 3 < s.right then some t2ServerMsg else none
  received : 1 < s.left → 2 < s.right
  answered : 3 < s.right → 2 < s.left
  failed : s.store.exited = some false → s.right ≤ 1 ∧ (old = .absent → s.right = 1)
  exited : s.store.exited = some true ↔ 4 < s.right
  waited : 3 < s.left → 4 < s.right

/-- Both processes have ended, have printed the other's message, and have left no file. -/
def Success (s : Duet.State Store) : Prop :=
  s.left = 6 ∧ s.right = 5 ∧ s.store.serverOut = some t2ClientMsg ∧
    s.store.clientOut = some t2ServerMsg ∧ s.store.serverFile = .absent ∧
    s.store.clientFile = .absent

/-- The client has exited with a failure, and has left its file; the server is at `recvfrom`. -/
def Hung (s : Duet.State Store) : Prop :=
  s.left = 1 ∧ s.store.exited = some false ∧ s.store.toServer = [] ∧ s.store.clientFile = .stale

/-- No run can go on for ever. -/
def weight (s : Duet.State Store) : ℕ :=
  2 * (6 - s.left) + (if s.store.serverFile = .stale then 1 else 0) + 8 * (5 - s.right) +
    (t2ConnRetries - s.store.index) + if s.store.exited = none then 1 else 0

variable {old serverFile clientFile : File} {s t : Duet.State Store} {n m : ℕ} {k k' : Store}
  {c : Call} {done : Bool}

theorem File.eq_stale {file : File} (h : file ≠ .absent) (h' : file ≠ .bound) : file = .stale := by
  cases file with
  | absent => exact absurd rfl h
  | stale => rfl
  | bound => exact absurd rfl h'

theorem talk_forked (hserver : serverFile ≠ .bound) :
    Talk clientFile ⟨0, 0, forked serverFile clientFile⟩ := by
  constructor <;> simp [forked, t2ConnRetries, hserver]

theorem Talk.server (hs : Talk old ⟨n, m, k⟩) (hc : serverCalls[n]? = some c)
    (hexec : execServer c k = some (done, k')) :
    Talk old ⟨n + done.toNat, m, k'⟩ ∧ weight ⟨n + done.toNat, m, k'⟩ < weight ⟨n, m, k⟩ := by
  obtain ⟨hindex, hunbound, hbound, hunlinked, hkept, hclient, hclosed, hremoved, hfresh, htoServer,
    htoClient, hserverOut, hclientOut, hreceived, hanswered, hfailed, hexited, hwaited⟩ := hs
  dsimp only at *
  match n with
  | 0 =>
    obtain rfl := Option.some.inj hc
    rw [execServer] at hexec
    split at hexec <;> cases hexec
    · refine ⟨?_, by grind [weight]⟩
      constructor <;> grind
    · have hstale := File.eq_stale ‹_› (hunbound rfl)
      refine ⟨?_, by grind [weight]⟩
      constructor <;> grind
  | 1 =>
    obtain rfl := Option.some.inj hc
    rw [execServer] at hexec
    split at hexec
    · cases hexec
    · rename_i hmsgs
      cases hexec
      have hsent : 2 < m := by grind
      refine ⟨?_, by grind [weight]⟩
      constructor <;> grind
  | 2 =>
    obtain rfl := Option.some.inj hc
    rw [execServer] at hexec
    split at hexec <;> cases hexec
    refine ⟨?_, by grind [weight]⟩
    constructor <;> grind
  | 3 =>
    obtain rfl := Option.some.inj hc
    rw [execServer] at hexec
    split at hexec <;> cases hexec
    rename_i hdone
    have hend : 4 < m := by
      obtain ⟨status, hstatus⟩ := Option.isSome_iff_exists.1 hdone
      cases status <;> grind
    refine ⟨?_, by grind [weight]⟩
    constructor <;> grind
  | 4 | 5 =>
    obtain rfl := Option.some.inj hc
    cases hexec
    refine ⟨?_, by grind [weight]⟩
    constructor <;> grind
  | n + 6 => cases hc

/-- The client exits with a failure. -/
theorem Talk.fail (hs : Talk old ⟨n, m, k⟩) (hold : old ≠ .bound) (hm : m ≤ 1)
    (hrunning : k.exited = none) (hfirst : m = 0 → old ≠ .absent) :
    Talk old ⟨n, m, k.fail⟩ ∧ weight ⟨n, m, k.fail⟩ < weight ⟨n, m, k⟩ := by
  obtain ⟨hindex, hunbound, hbound, hunlinked, hkept, hopened, hclosed, hremoved, hfresh, htoServer,
    htoClient, hserverOut, hclientOut, hreceived, hanswered, hfailed, hexited, hwaited⟩ := hs
  dsimp only at *
  refine ⟨?_, by grind [weight, Store.fail]⟩
  constructor <;> grind [Store.fail, File.close]

/-- It tries again, unless this was the last time. -/
theorem Talk.retry (hs : Talk old ⟨n, m, k⟩) (hold : old ≠ .bound) (hm : m ≤ 1)
    (hrunning : k.exited = none) (hfirst : m = 0 → old ≠ .absent) :
    Talk old ⟨n, m, k.retry⟩ ∧ weight ⟨n, m, k.retry⟩ < weight ⟨n, m, k⟩ := by
  rw [Store.retry]
  split
  · obtain ⟨hindex, hunbound, hbound, hunlinked, hkept, hopened, hclosed, hremoved, hfresh,
      htoServer, htoClient, hserverOut, hclientOut, hreceived, hanswered, hfailed, hexited,
      hwaited⟩ := hs
    dsimp only at *
    refine ⟨?_, by grind [weight]⟩
    constructor <;> grind
  · exact hs.fail hold hm hrunning hfirst

theorem Talk.client (hs : Talk old ⟨n, m, k⟩) (hold : old ≠ .bound) (hrunning : k.exited = none)
    (hc : clientCalls[m]? = some c) (hexec : execClient c k = some (done, k')) :
    Talk old ⟨n, m + done.toNat, k'⟩ ∧ weight ⟨n, m + done.toNat, k'⟩ < weight ⟨n, m, k⟩ := by
  have hall := hs
  obtain ⟨hindex, hunbound, hbound, hunlinked, hkept, hopened, hclosed, hremoved, hfresh, htoServer,
    htoClient, hserverOut, hclientOut, hreceived, hanswered, hfailed, hexited, hwaited⟩ := hall
  dsimp only at *
  match m with
  | 0 =>
    obtain rfl := Option.some.inj hc
    rw [execClient] at hexec
    split at hexec
    · cases hexec
      refine ⟨?_, by grind [weight, t2ConnRetries]⟩
      constructor <;> grind [t2ConnRetries]
    · obtain ⟨rfl, rfl⟩ := Prod.mk.inj (Option.some.inj hexec)
      exact hs.retry hold (by simp) hrunning (by grind)
  | 1 =>
    obtain rfl := Option.some.inj hc
    rw [execClient] at hexec
    split at hexec
    · cases hexec
      refine ⟨?_, by grind [weight, t2ConnRetries]⟩
      constructor <;> grind [t2ConnRetries]
    · obtain ⟨rfl, rfl⟩ := Prod.mk.inj (Option.some.inj hexec)
      exact hs.retry hold (by simp) hrunning (by simp)
    · obtain ⟨rfl, rfl⟩ := Prod.mk.inj (Option.some.inj hexec)
      exact hs.fail hold (by simp) hrunning (by simp)
  | 2 =>
    obtain rfl := Option.some.inj hc
    cases hexec
    refine ⟨?_, by grind [weight, t2ConnRetries]⟩
    constructor <;> grind
  | 3 =>
    obtain rfl := Option.some.inj hc
    rw [execClient] at hexec
    split at hexec
    · cases hexec
    · cases hexec
      refine ⟨?_, by grind [weight, t2ConnRetries]⟩
      constructor <;> grind
  | 4 =>
    obtain rfl := Option.some.inj hc
    cases hexec
    refine ⟨?_, by grind [weight, t2ConnRetries]⟩
    constructor <;> grind [File.close]
  | m + 5 => cases hc

theorem Talk.call (hold : old ≠ .bound) (hs : Talk old s) (h : Duet.Call task s t) :
    Talk old t ∧ weight t < weight s := by
  cases h with
  | left hc hexec => exact hs.server hc hexec
  | right hc hexec =>
    change (if _ then _ else _) = _ at hexec
    split at hexec
    · cases hexec
    · rename_i hrunning
      exact hs.client hold (by simpa using hrunning) hc hexec

theorem call_server (hc : serverCalls[n]? = some c) (h : (execServer c k).isSome) :
    ∃ t, Duet.Call task ⟨n, m, k⟩ t :=
  Duet.left_enabled hc h

theorem call_client (hrunning : k.exited = none) (hc : clientCalls[m]? = some c)
    (h : (execClient c k).isSome) : ∃ t, Duet.Call task ⟨n, m, k⟩ t := by
  have hexec : task.exec .right c k = execClient c k := if_neg (by simp [hrunning])
  exact Duet.right_enabled hc (by rwa [hexec])

/-- A client that has not given up goes on until it has sent its message. -/
theorem Talk.client_call (hs : Talk old ⟨n, m, k⟩) (hm : m ≤ 2) (hrunning : k.exited = none) :
    ∃ t, Duet.Call task ⟨n, m, k⟩ t := by
  match m with
  | 0 =>
    refine call_client hrunning (c := .bind) rfl ?_
    rw [execClient]
    split <;> rfl
  | 1 =>
    refine call_client hrunning (c := .connect) rfl ?_
    rw [execClient]
    split <;> rfl
  | 2 => exact call_client hrunning (c := .send) rfl rfl
  | m + 3 => omega

/-- Some process goes on, unless both have ended or the client has given up. -/
theorem Talk.progress (hold : old ≠ .bound) (hs : Talk old s) (hwithin : task.Within s)
    (hend : ¬ (Success s ∨ Hung s)) : ∃ t, Duet.Call task s t := by
  obtain ⟨n, m, k⟩ := s
  have hn : n ≤ 6 := hwithin.1
  have hm : m ≤ 5 := hwithin.2
  have hall := hs
  obtain ⟨hindex, hunbound, hbound, hunlinked, hkept, hopened, hclosed, hremoved, hfresh, htoServer,
    htoClient, hserverOut, hclientOut, hreceived, hanswered, hfailed, hexited, hwaited⟩ := hall
  dsimp only at *
  match n with
  | 0 =>
    refine call_server (c := .bind) rfl ?_
    rw [execServer]
    split <;> rfl
  | 1 =>
    by_cases hsent : 2 < m
    · exact call_server (c := .recv) rfl (by simp [execServer, htoServer, hsent])
    · cases hstatus : k.exited with
      | none => exact hs.client_call (by omega) hstatus
      | some status =>
        cases status with
        | true => grind
        | false =>
          obtain ⟨hle, hfirst⟩ := hfailed hstatus
          have hstale : k.clientFile = .stale := by
            by_cases hzero : m = 0
            · have hne : old ≠ .absent := fun h => by
                have := hfirst h
                omega
              rw [hkept hzero, File.eq_stale hne hold]
            · exact hclosed (by omega) (by simp [hstatus]) (by omega)
          have hempty : k.toServer = [] := by simpa [hsent] using htoServer
          exact absurd (.inr ⟨rfl, hstatus, hempty, hstale⟩) hend
  | 2 =>
    have hthree : m = 3 := by grind
    have hrunning : k.exited = none := by
      cases hstatus : k.exited with
      | none => rfl
      | some status => cases status <;> grind
    exact call_server (c := .send) rfl
      (by simp [execServer, hopened (by omega) hrunning])
  | 3 =>
    cases hstatus : k.exited with
    | some status => exact call_server (c := .wait) rfl (by simp [execServer, hstatus])
    | none =>
      have hthree := hreceived (by omega)
      match m with
      | 3 => exact call_client hstatus (c := .recv) rfl (by simp [execClient, htoClient])
      | 4 => exact call_client hstatus (c := .exit) rfl rfl
      | 5 =>
        have hdone := hexited.2 (by omega)
        rw [hstatus] at hdone
        cases hdone
  | 4 | 5 => exact call_server rfl rfl
  | n + 6 =>
    obtain rfl : n = 0 := by omega
    obtain rfl : m = 5 := by
      have := hwaited (by omega)
      omega
    exact absurd (.inl ⟨rfl, rfl, hserverOut, hclientOut, hunlinked (by omega),
      hremoved (by omega)⟩) hend

/-- **A run** ends in one of two ways. -/
theorem success_or_hung (hserver : serverFile ≠ .bound) (hclient : clientFile ≠ .bound) :
    (task.machine (forked serverFile clientFile)).Inevitable (fun s => Success s ∨ Hung s)
      ⟨0, 0, forked serverFile clientFile⟩ := by
  refine Duet.inevitable_of_weight (I := fun s => Talk clientFile s ∧ task.Within s) weight
    ⟨talk_forked hserver, Nat.zero_le _, Nat.zero_le _⟩ (fun s t hs ht => ?_)
    (fun s hs hend => ?_) _
  · obtain ⟨htalk, hlt⟩ := hs.1.call hclient ht
    exact ⟨⟨htalk, ht.within hs.2⟩, hlt⟩
  · exact hs.1.progress hclient hs.2 hend

/-! ### One run after another -/

/-- Nothing goes on after the end of a run. -/
theorem rests_of_end {k₀ : Store} (h : Success s ∨ Hung s) : (task.machine k₀).Rests s := by
  obtain ⟨n, m, k⟩ := s
  obtain ⟨rfl, rfl, -⟩ | ⟨rfl, hstatus, hempty, -⟩ := h
  · exact Duet.Ended.rests ⟨rfl, rfl⟩
  · rintro t ⟨-, hstep⟩
    cases Duet.call_iff.2 hstep with
    | left hc hexec =>
      obtain rfl := Option.some.inj hc
      change execServer .recv k = _ at hexec
      rw [execServer, hempty] at hexec
      cases hexec
    | right hc hexec =>
      change (if _ then _ else _) = _ at hexec
      have hexited : k.exited.isSome = true := by
        rw [show k.exited = some false from hstatus]
        rfl
      rw [if_pos hexited] at hexec
      cases hexec

/-- A run that begins with these files, and goes on as long as it can. -/
def Run (serverFile clientFile : File) (t : Duet.State Store) : Prop :=
  (task.machine (forked serverFile clientFile)).Path Machine.anyStep
      ⟨0, 0, forked serverFile clientFile⟩ t ∧
    (task.machine (forked serverFile clientFile)).Rests t

/-- The ends of runs, of which each begins with the files that the one before has left; a server
that hangs is killed. -/
inductive Runs : File → File → List (Duet.State Store) → Prop
  | nil {serverFile clientFile : File} : Runs serverFile clientFile []
  | cons {serverFile clientFile : File} {t : Duet.State Store} {ends : List (Duet.State Store)}
    (hrun : Run serverFile clientFile t)
    (hrest : Runs t.store.serverFile.close t.store.clientFile.close ends) :
    Runs serverFile clientFile (t :: ends)

theorem Run.ends (hserver : serverFile ≠ .bound) (hclient : clientFile ≠ .bound)
    (h : Run serverFile clientFile t) : Success t ∨ Hung t :=
  (success_or_hung hserver hclient).of_rests
    (fun _ t hs hmove => absurd hmove (rests_of_end hs t)) h.1 h.2

theorem Run.talk (hserver : serverFile ≠ .bound) (hclient : clientFile ≠ .bound)
    (h : Run serverFile clientFile t) : Talk clientFile t :=
  h.1.invariant (I := Talk clientFile) (talk_forked hserver) fun _ a _ _ hs _ hstep =>
    (hs.call hclient (Duet.call_iff.2 ⟨a, hstep⟩)).1

/-- Where the client's file has been left, the client cannot bind its socket. -/
theorem Run.hung_of_stale (hserver : serverFile ≠ .bound) (h : Run serverFile .stale t) :
    Hung t := by
  obtain hsuccess | hhung := h.ends hserver (by simp)
  · have hfresh := (h.talk hserver (by simp)).fresh
    rw [hsuccess.2.1] at hfresh
    cases hfresh (by simp)
  · exact hhung

theorem File.close_ne (file : File) : file.close ≠ .bound := by cases file <;> simp [File.close]

theorem Runs.all_hung {ends : List (Duet.State Store)} (hserver : serverFile ≠ .bound)
    (h : Runs serverFile .stale ends) : ∀ t ∈ ends, Hung t := by
  induction ends generalizing serverFile with
  | nil => exact fun _ ht => absurd ht (List.not_mem_nil)
  | cons t ends ih =>
    cases h with
    | cons hrun hrest =>
      have hhung := hrun.hung_of_stale hserver
      rw [hhung.2.2.2] at hrest
      intro u hu
      obtain rfl | hu := List.mem_cons.1 hu
      · exact hhung
      · exact ih (File.close_ne _) hrest u hu

/-- Without the client's file, the order of the calls decides. -/
theorem either_of_absent (hserver : serverFile ≠ .bound) :
    (∃ t, Run serverFile .absent t ∧ Success t) ∧ ∃ t, Run serverFile .absent t ∧ Hung t := by
  have hsuccess : Success ⟨6, 5, ⟨.absent, .absent, 0, [], [], some t2ClientMsg, some t2ServerMsg,
      some true⟩⟩ := ⟨rfl, rfl, rfl, rfl, rfl, rfl⟩
  have hhung (index : ℕ) : Hung ⟨1, 1, ⟨.bound, .stale, index, [], [], none, none, some false⟩⟩ :=
    ⟨rfl, rfl, rfl, rfl⟩
  have hrun {k₀ : Store} {t : Duet.State Store} (steps : List Side)
      (hsteps : (task.machine k₀).run ⟨0, 0, k₀⟩ steps = some t) :
      (task.machine k₀).Path Machine.anyStep ⟨0, 0, k₀⟩ t := Machine.path_of_runUnder hsteps
  cases serverFile with
  | absent =>
    refine ⟨⟨_, ⟨hrun [.left, .right, .right, .right, .left, .left, .right, .right, .left, .left,
      .left] rfl, rests_of_end (.inl hsuccess)⟩, hsuccess⟩, ?_⟩
    -- there is no server yet
    exact ⟨_, ⟨hrun [.right, .right, .left] rfl, rests_of_end (.inr (hhung 0))⟩, hhung 0⟩
  | stale =>
    refine ⟨⟨_, ⟨hrun [.left, .left, .right, .right, .right, .left, .left, .right, .right, .left,
      .left, .left] rfl, rests_of_end (.inl hsuccess)⟩, hsuccess⟩, ?_⟩
    -- five attempts come to nothing
    exact ⟨_, ⟨hrun [.right, .right, .right, .right, .right, .right, .left, .left] rfl,
      rests_of_end (.inr (hhung 4))⟩, hhung 4⟩
  | bound => exact absurd rfl hserver

/-- **The client's file.**  Every run comes to one of two ends, and after a run that hangs, whose
server has to be killed, all later ones hang as well, in whatever order the calls are made. -/
theorem hung_for_good {ends : List (Duet.State Store)} (hserver : serverFile ≠ .bound)
    (hclient : clientFile ≠ .bound) (h : Runs serverFile clientFile ends) :
    (task.machine (forked serverFile clientFile)).Inevitable (fun s => Success s ∨ Hung s)
      ⟨0, 0, forked serverFile clientFile⟩ ∧
    (∀ t ∈ ends, Success t ∨ Hung t) ∧ ends.Pairwise fun s t => Hung s → Hung t := by
  refine ⟨success_or_hung hserver hclient, ?_⟩
  induction h with
  | nil => exact ⟨fun _ ht => absurd ht List.not_mem_nil, .nil⟩
  | @cons serverFile clientFile t ends hrun hrest ih =>
    obtain ⟨hends, hpairs⟩ := ih (File.close_ne _) (File.close_ne _)
    refine ⟨List.forall_mem_cons.2 ⟨hrun.ends hserver hclient, hends⟩, hpairs.cons ?_⟩
    rintro u hu ⟨-, -, -, hstale⟩
    rw [hstale] at hrest
    exact hrest.all_hung (File.close_ne _) u hu

/-- A run in which the client comes first, and the next one. -/
def hungEnds : List (Duet.State Store) :=
  [⟨1, 1, ⟨.bound, .stale, 0, [], [], none, none, some false⟩⟩,
    ⟨1, 0, ⟨.bound, .stale, 4, [], [], none, none, some false⟩⟩]

theorem runs_hungEnds : Runs .absent .absent hungEnds := by
  have hrun {k₀ : Store} {t : Duet.State Store} (steps : List Side)
      (hsteps : (task.machine k₀).run ⟨0, 0, k₀⟩ steps = some t) (hhung : Hung t) :
      (task.machine k₀).Path Machine.anyStep ⟨0, 0, k₀⟩ t ∧ (task.machine k₀).Rests t :=
    ⟨Machine.path_of_runUnder hsteps, rests_of_end (.inr hhung)⟩
  refine .cons (hrun [.right, .right, .left] rfl ⟨rfl, rfl, rfl, rfl⟩) (.cons ?_ .nil)
  exact hrun [.right, .right, .right, .right, .right, .left, .left] rfl ⟨rfl, rfl, rfl, rfl⟩

theorem hung_for_good_twice :
    (task.machine (forked .absent .absent)).Inevitable (fun s => Success s ∨ Hung s)
      ⟨0, 0, forked .absent .absent⟩ ∧
    (∀ t ∈ hungEnds, Success t ∨ Hung t) ∧ hungEnds.Pairwise fun s t => Hung s → Hung t :=
  hung_for_good (by decide) (by decide) runs_hungEnds

end EmbeddedC.Sockets.Datagram
