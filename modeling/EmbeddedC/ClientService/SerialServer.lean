import EmbeddedC.Lib.Progress

/-!
# Homework 16: `serial_server` and its clients

The server accepts one connection, sends a message, receives one, closes the connection, and accepts
the next one.  When `send` or `recv` fails it goes on to the next connection without `close`.  A
thread of the client connects, receives, sends, and counts itself.

* `serialServer`: the server and any number of clients, interleaved; the connections are numbered
  as they were made;
* `Accounts`: where each connection is, and which descriptors are open;
* `serial_accounts`: this holds after every run, and the server ends for want of descriptors exactly
  after enough failures;
* `serial_serves`: if no client ends before its thread, all are served.

The client closes its connections by ending.  Then `send` and `recv` of the server may fail, and the
signal SIGPIPE ends it.
-/

namespace EmbeddedC.ClientService.Serial

/-- `SERVER_LISTEN_BACKLOG` -/
def serverListenBacklog : ℕ := 5

/-- The standard streams and `server_fd` -/
def ownDescriptors : ℕ := 4

/-- Where `serial_server` is; `c` is the connection behind `client_fd`. -/
inductive ServerPc
  /-- at `accept` -/
  | accept
  /-- at `send` -/
  | send (c : ℕ)
  /-- at `recv` -/
  | recv (c : ℕ)
  /-- at `close` -/
  | close (c : ℕ)
  /-- `accept` has failed -/
  | stopped
  /-- ended by SIGPIPE -/
  | killed (c : ℕ)
  deriving DecidableEq

/-- Where a thread `tcp_client` is, from the end of `connect` on. -/
inductive ClientPc
  /-- at `recv` -/
  | recv
  /-- at `send` -/
  | send
  /-- at `sem_post(counter_sem)` -/
  | post
  | ended
  deriving DecidableEq

/-- What becomes of a connection: a message was received, the stream ended, or a call failed. -/
inductive Outcome
  | heard
  | unheard
  | failed
  deriving DecidableEq

/-- What a call of the server returns. -/
inductive Result
  | ok
  | eof
  | error
  | sigpipe
  deriving DecidableEq

/-- The number of threads of the client, `RLIMIT_NOFILE` of the server, and whether the client ends
only after its threads. -/
structure Config where
  clients : ℕ
  limit : ℕ
  patient : Bool

/-- `backlog` are the connections to be accepted, `greeted` the clients that the server has sent its
message to, `closed` those whose program has ended, and `log` the history of the server. -/
structure State where
  server : ServerPc
  backlog : List ℕ
  connected : ℕ
  client : ℕ → ClientPc
  greeted : ℕ → Bool
  closed : ℕ → Bool
  descriptors : ℕ
  clientsServed : ℕ
  counterSem : ℕ
  log : List (ℕ × Outcome)

/-- The client has sent its message. -/
def State.sent (s : State) (c : ℕ) : Prop := s.client c = .post ∨ s.client c = .ended

instance (s : State) (c : ℕ) : Decidable (s.sent c) := inferInstanceAs (Decidable (_ ∨ _))

inductive Action
  | connect
  | client (c : ℕ)
  | exit (c : ℕ)
  | server (r : Result)
  deriving DecidableEq

def initial : State where
  server := .accept
  backlog := []
  connected := 0
  client := fun _ => .recv
  greeted := fun _ => false
  closed := fun _ => false
  descriptors := ownDescriptors
  clientsServed := 0
  counterSem := 0
  log := []

/-- The next call of `serial_server`, with what it returns. -/
def serverStep (cfg : Config) (s : State) (r : Result) : Option State :=
  match s.server, r with
  | .accept, .ok =>
    match s.backlog with
    | [] => none
    | c :: backlog =>
      if cfg.limit ≤ s.descriptors then some { s with server := .stopped }
      else some { s with
        server := .send c
        backlog := backlog
        descriptors := s.descriptors + 1 }
  | .send c, .ok => some { s with
      server := .recv c
      greeted := Function.update s.greeted c true }
  | .send c, .error =>
    if s.closed c then some { s with server := .accept, log := s.log ++ [(c, .failed)] } else none
  | .send c, .sigpipe => if s.closed c then some { s with server := .killed c } else none
  | .recv c, .ok =>
    if s.sent c then some { s with
      server := .close c
      clientsServed := s.clientsServed + 1
      log := s.log ++ [(c, .heard)] }
    else none
  | .recv c, .eof =>
    if s.closed c ∧ ¬ s.sent c then some { s with
      server := .close c
      clientsServed := s.clientsServed + 1
      log := s.log ++ [(c, .unheard)] }
    else none
  | .recv c, .error =>
    if s.closed c ∧ ¬ s.sent c then some { s with
      server := .accept
      log := s.log ++ [(c, .failed)] }
    else none
  | .close _, .ok => some { s with server := .accept, descriptors := s.descriptors - 1 }
  | _, _ => none

/-- The next call of the thread of connection `c`. -/
def tcpClient (s : State) (c : ℕ) : Option State :=
  if s.connected ≤ c ∨ s.closed c then none else match s.client c with
  | .recv =>
    if s.greeted c then some { s with client := Function.update s.client c .send } else none
  | .send => some { s with client := Function.update s.client c .post }
  | .post => some { s with
      client := Function.update s.client c .ended
      counterSem := s.counterSem + 1 }
  | .ended => none

def step (cfg : Config) (s : State) : Action → Option State
  | .connect =>
    -- a full backlog blocks `connect`
    if cfg.clients ≤ s.connected ∨ serverListenBacklog < s.backlog.length then none
    else some { s with backlog := s.backlog ++ [s.connected], connected := s.connected + 1 }
  | .client c => tcpClient s c
  | .exit c =>
    if s.connected ≤ c ∨ s.closed c ∨ cfg.patient ∧ s.client c ≠ .ended then none
    else some { s with closed := Function.update s.closed c true }
  | .server r => serverStep cfg s r

/-- `serial_server` and the threads of its clients, interleaved. -/
def serialServer (cfg : Config) : Machine State Action where
  init s := s = initial
  step := step cfg

/-- The connection that is being served. -/
def State.current (s : State) : List ℕ :=
  match s.server with
  | .send c | .recv c | .killed c => [c]
  | _ => []

/-- A descriptor is open for it. -/
def State.isOpen (s : State) : ℕ :=
  match s.server with
  | .send _ | .recv _ | .close _ | .killed _ => 1
  | _ => 0

/-- The number of connections with this outcome. -/
def State.count (s : State) (o : Outcome) : ℕ := s.log.countP fun e => e.2 = o

/-- Where each connection is, and which descriptors are open. -/
structure Accounts (cfg : Config) (s : State) : Prop where
  connected : s.connected ≤ cfg.clients
  /-- the connections are served in the order in which they were made -/
  order : s.log.map Prod.fst ++ s.current ++ s.backlog = List.range s.connected
  served : s.clientsServed = s.count .heard + s.count .unheard
  /-- the descriptors of those that have failed stay open -/
  descriptors : s.descriptors = ownDescriptors + s.count .failed + s.isOpen
  /-- `accept` fails when they are too many -/
  stopped : s.server = .stopped → cfg.limit ≤ ownDescriptors + s.count .failed

/-! ### What one step does -/

/-- A step, by cases. -/
inductive Step (cfg : Config) (s : State) : State → Prop
  | connect (h : s.connected < cfg.clients) : Step cfg s { s with
      backlog := s.backlog ++ [s.connected], connected := s.connected + 1 }
  | clientRecv {c : ℕ} (hc : s.client c = .recv) (hopen : s.closed c = false)
    (hlt : c < s.connected) (hgreeted : s.greeted c = true) :
    Step cfg s { s with client := Function.update s.client c .send }
  | clientSend {c : ℕ} (hc : s.client c = .send) (hopen : s.closed c = false)
    (hlt : c < s.connected) : Step cfg s { s with client := Function.update s.client c .post }
  | clientPost {c : ℕ} (hc : s.client c = .post) (hopen : s.closed c = false)
    (hlt : c < s.connected) : Step cfg s { s with
      client := Function.update s.client c .ended
      counterSem := s.counterSem + 1 }
  | exit {c : ℕ} (hlt : c < s.connected) (hopen : s.closed c = false)
    (hpatient : cfg.patient = true → s.client c = .ended) :
    Step cfg s { s with closed := Function.update s.closed c true }
  | stop (hs : s.server = .accept) (hlimit : cfg.limit ≤ s.descriptors) :
    Step cfg s { s with server := .stopped }
  | accept {c : ℕ} {backlog : List ℕ} (hs : s.server = .accept) (hb : s.backlog = c :: backlog)
    (hlimit : s.descriptors < cfg.limit) : Step cfg s { s with
      server := .send c
      backlog := backlog
      descriptors := s.descriptors + 1 }
  | send {c : ℕ} (hs : s.server = .send c) : Step cfg s { s with
      server := .recv c
      greeted := Function.update s.greeted c true }
  | sendFails {c : ℕ} (hs : s.server = .send c) (hclosed : s.closed c = true) :
    Step cfg s { s with server := .accept, log := s.log ++ [(c, .failed)] }
  | killed {c : ℕ} (hs : s.server = .send c) (hclosed : s.closed c = true) :
    Step cfg s { s with server := .killed c }
  | heard {c : ℕ} (hs : s.server = .recv c) (hsent : s.sent c) : Step cfg s { s with
      server := .close c
      clientsServed := s.clientsServed + 1
      log := s.log ++ [(c, .heard)] }
  | unheard {c : ℕ} (hs : s.server = .recv c) (hclosed : s.closed c = true) (hsent : ¬ s.sent c) :
    Step cfg s { s with
      server := .close c
      clientsServed := s.clientsServed + 1
      log := s.log ++ [(c, .unheard)] }
  | recvFails {c : ℕ} (hs : s.server = .recv c) (hclosed : s.closed c = true)
    (hsent : ¬ s.sent c) :
    Step cfg s { s with server := .accept, log := s.log ++ [(c, .failed)] }
  | close {c : ℕ} (hs : s.server = .close c) :
    Step cfg s { s with server := .accept, descriptors := s.descriptors - 1 }

variable {cfg : Config} {s t : State} {a : Action} {r : Result} {c : ℕ} {o : Outcome}

theorem serverStep_cases (h : serverStep cfg s r = some t) : Step cfg s t := by
  unfold serverStep at h
  split at h
  · rename_i hs
    split at h
    · cases h
    · rename_i hb
      split at h <;> rename_i hlimit
      · obtain rfl := Option.some.inj h
        exact .stop hs hlimit
      · obtain rfl := Option.some.inj h
        exact .accept hs hb (Nat.not_le.1 hlimit)
  · obtain rfl := Option.some.inj h
    exact .send ‹_›
  · split at h
    · obtain rfl := Option.some.inj h
      exact .sendFails ‹_› ‹_›
    · cases h
  · split at h
    · obtain rfl := Option.some.inj h
      exact .killed ‹_› ‹_›
    · cases h
  · split at h
    · obtain rfl := Option.some.inj h
      exact .heard ‹_› ‹_›
    · cases h
  · split at h
    · rename_i hs hc
      obtain rfl := Option.some.inj h
      exact .unheard hs hc.1 hc.2
    · cases h
  · split at h
    · rename_i hs hc
      obtain rfl := Option.some.inj h
      exact .recvFails hs hc.1 hc.2
    · cases h
  · obtain rfl := Option.some.inj h
    exact .close ‹_›
  · cases h

theorem tcpClient_cases (h : tcpClient s c = some t) : Step cfg s t := by
  unfold tcpClient at h
  split at h
  · cases h
  · rename_i hc
    push Not at hc
    obtain ⟨hlt, hopen⟩ := hc
    have hopen : s.closed c = false := by simpa using hopen
    split at h
    · split at h
      · obtain rfl := Option.some.inj h
        exact .clientRecv ‹_› hopen hlt ‹_›
      · cases h
    · obtain rfl := Option.some.inj h
      exact .clientSend ‹_› hopen hlt
    · obtain rfl := Option.some.inj h
      exact .clientPost ‹_› hopen hlt
    · cases h

theorem step_cases (h : step cfg s a = some t) : Step cfg s t := by
  cases a with
  | connect =>
    simp only [step] at h
    split at h
    · cases h
    · rename_i hc
      push Not at hc
      obtain rfl := Option.some.inj h
      exact .connect hc.1
  | client c => exact tcpClient_cases h
  | exit c =>
    simp only [step] at h
    split at h
    · cases h
    · rename_i hc
      push Not at hc
      obtain rfl := Option.some.inj h
      exact .exit hc.1 (by simpa using hc.2.1) hc.2.2
  | server r => exact serverStep_cases h

/-! ### The accounts -/

theorem Accounts.step (h : Accounts cfg s) (hs : Step cfg s t) : Accounts cfg t := by
  obtain ⟨hconnected, horder, hserved, hdesc, hstopped⟩ := h
  cases hs with
  | connect hlt =>
    refine ⟨hlt, ?_, hserved, hdesc, hstopped⟩
    have hcurrent (b : List ℕ) : State.current { s with
      backlog := b, connected := s.connected + 1 } = s.current := rfl
    rw [hcurrent, List.range_succ, ← horder, List.append_assoc, List.append_assoc,
      List.append_assoc]
  | clientRecv | clientSend | clientPost | exit =>
    exact ⟨hconnected, horder, hserved, hdesc, hstopped⟩
  | _ =>
    constructor <;> simp_all [State.current, State.isOpen, State.count, List.countP_append] <;>
      omega

theorem accounts_of_reachable (h : (serialServer cfg).Reachable s) : Accounts cfg s := by
  refine h.invariant ?_ fun s a t _ hacc hstep => hacc.step (step_cases hstep)
  rintro _ rfl
  exact ⟨Nat.zero_le _, rfl, rfl, rfl, nofun⟩

/-- No connection is served twice. -/
theorem Accounts.nodup (h : Accounts cfg s) :
    (s.log.map Prod.fst ++ s.current ++ s.backlog).Nodup := h.order ▸ List.nodup_range

/-! ### The clients -/

/-- How far the clients have come. -/
structure Clients (s : State) : Prop where
  fresh : ∀ c, s.connected ≤ c → s.client c = .recv ∧ s.closed c = false
  greeted_of : ∀ c, s.client c ≠ .recv → s.greeted c = true
  greeted : ∀ c, s.greeted c = true → (∃ o, (c, o) ∈ s.log) ∨ s.server = .recv c
  greeted_recv : ∀ c, s.server = .recv c → s.greeted c = true
  closed : ∀ c o, (c, o) ∈ s.log → o ≠ .heard → s.closed c = true
  sent : ∀ c, (c, .heard) ∈ s.log → s.sent c
  heard : ∀ c, s.sent c → (c, .heard) ∈ s.log ∨ s.server = .recv c
  counter : s.counterSem = ((Finset.range s.connected).filter fun c => s.client c = .ended).card

/-- The server goes on without a client. -/
theorem Clients.moved (h : Clients s) (hs : ∀ c, s.server ≠ .recv c) {server : ServerPc}
    (hserver : ∀ c, server ≠ .recv c) (backlog : List ℕ) (descriptors : ℕ) :
    Clients { s with server := server, backlog := backlog, descriptors := descriptors } := by
  refine ⟨h.fresh, h.greeted_of, fun c hc => .inl ?_, fun c hc => absurd hc (hserver c), h.closed,
    h.sent, fun c hc => .inl ?_, h.counter⟩
  · exact (h.greeted c hc).resolve_right (hs c)
  · exact (h.heard c hc).resolve_right (hs c)

theorem Clients.send (h : Clients s) (hs : s.server = .send c) : Clients { s with
    server := .recv c
    greeted := Function.update s.greeted c true } := by
  have hrecv : ∀ x, s.server ≠ .recv x := fun x hx => by cases hs.symm.trans hx
  have hgreeted {x : ℕ} (hx : x ≠ c) : Function.update s.greeted c true x = s.greeted x :=
    Function.update_of_ne hx _ _
  refine ⟨h.fresh, fun x hx => ?_, fun x hx => ?_, fun x hx => ?_, h.closed, h.sent,
    fun x hx => .inl ((h.heard x hx).resolve_right (hrecv x)), h.counter⟩
  · by_cases hxc : x = c
    · exact hxc ▸ Function.update_self ..
    · exact (hgreeted hxc).trans (h.greeted_of x hx)
  · by_cases hxc : x = c
    · exact .inr (hxc ▸ rfl)
    · exact .inl ((h.greeted x ((hgreeted hxc).symm.trans hx)).resolve_right (hrecv x))
  · obtain rfl := ServerPc.recv.inj hx
    exact Function.update_self ..

/-- The server is done with a client. -/
theorem Clients.logged (h : Clients s) {server : ServerPc} (hserver : ∀ c, server ≠ .recv c)
    (clientsServed : ℕ) (hs : ∀ x, s.server = .recv x → x = c)
    (hclosed : o ≠ .heard → s.closed c = true) (hheard : o = .heard → s.sent c)
    (hunheard : o ≠ .heard → s.server = .recv c → ¬ s.sent c) : Clients { s with
      server := server
      clientsServed := clientsServed
      log := s.log ++ [(c, o)] } := by
  refine ⟨h.fresh, h.greeted_of, fun x hx => .inl ?_, fun x hx => absurd hx (hserver x),
    fun x out hmem hout => ?_, fun x hmem => ?_, fun x hx => .inl ?_, h.counter⟩
  · obtain ⟨out, hout⟩ | hrecv := h.greeted x hx
    · exact ⟨out, List.mem_append_left _ hout⟩
    · exact ⟨o, List.mem_append_right _ (hs x hrecv ▸ List.mem_singleton_self _)⟩
  · obtain hmem | hmem := List.mem_append.1 hmem
    · exact h.closed x out hmem hout
    · obtain ⟨rfl, rfl⟩ := Prod.mk.inj (List.mem_singleton.1 hmem)
      exact hclosed hout
  · obtain hmem | hmem := List.mem_append.1 hmem
    · exact h.sent x hmem
    · obtain ⟨rfl, hout⟩ := Prod.mk.inj (List.mem_singleton.1 hmem)
      exact hheard hout.symm
  · obtain hlog | hrecv := h.heard x hx
    · exact List.mem_append_left _ hlog
    · obtain rfl := hs x hrecv
      have hout : o = .heard := by_contra fun hout => hunheard hout hrecv hx
      exact List.mem_append_right _ (hout ▸ List.mem_singleton_self _)

theorem Clients.step (h : Clients s) (hs : Step cfg s t) : Clients t := by
  cases hs with
  | connect =>
    obtain ⟨h1, h2, h3, h4, h5, h6, h7, h8⟩ := h
    refine ⟨fun c hc => h1 c (by grind), h2, h3, h4, h5, h6, h7, ?_⟩
    have hfresh := (h1 s.connected le_rfl).1
    simp only [h8, Finset.range_add_one, Finset.filter_insert, hfresh]
    rfl
  | @clientRecv c hc hopen hlt hgreeted | @clientSend c hc hopen hlt =>
    obtain ⟨h1, h2, h3, h4, h5, h6, h7, h8⟩ := h
    constructor <;> simp only [State.sent, Function.update_apply] at *
    case counter =>
      refine h8.trans (congrArg Finset.card (Finset.filter_congr fun x _ => ?_))
      grind
    all_goals grind
  | @clientPost c hc hopen hlt =>
    obtain ⟨h1, h2, h3, h4, h5, h6, h7, h8⟩ := h
    constructor <;> simp only [State.sent, Function.update_apply] at *
    case counter =>
      have hnew : c ∉ (Finset.range s.connected).filter fun c => s.client c = .ended := by
        simp [hc]
      rw [h8, ← Finset.card_insert_of_notMem hnew]
      refine congrArg Finset.card (Finset.ext fun x => ?_)
      simp only [Finset.mem_filter, Finset.mem_insert, Finset.mem_range]
      grind
    all_goals grind
  | @exit c hlt =>
    refine ⟨fun x hx => ⟨(h.fresh x hx).1, ?_⟩, h.greeted_of, h.greeted, h.greeted_recv,
      fun x out hmem hout => ?_, h.sent, h.heard, h.counter⟩
    · have hne : x ≠ c := (hlt.trans_le hx).ne'
      exact (Function.update_of_ne hne _ _).trans (h.fresh x hx).2
    · change Function.update s.closed c true x = true
      rw [Function.update_apply, h.closed x out hmem hout, ite_self]
  | stop hs => exact h.moved (by simp [hs]) (by simp) _ _
  | accept hs => exact h.moved (by simp [hs]) (by simp) _ _
  | killed hs => exact h.moved (by simp [hs]) (by simp) _ _
  | close hs => exact h.moved (by simp [hs]) (by simp) _ _
  | send hs => exact h.send hs
  | sendFails hs hclosed =>
    exact h.logged (by simp) _ (by simp [hs]) (fun _ => hclosed) (by simp) (by simp [hs])
  | heard hs hsent =>
    exact h.logged (by simp) _ (by simp [hs]) (by simp) (fun _ => hsent) (by simp)
  | unheard hs hclosed hsent | recvFails hs hclosed hsent =>
    exact h.logged (by simp) _ (by simp [hs]) (fun _ => hclosed) (by simp) fun _ _ => hsent

theorem clients_of_reachable (h : (serialServer cfg).Reachable s) : Clients s := by
  refine h.invariant ?_ fun s a t _ hclients hstep => hclients.step (step_cases hstep)
  rintro _ rfl
  constructor <;> simp [initial, State.sent]

/-- Nothing fails. -/
structure Patient (s : State) : Prop where
  closed : ∀ c, s.closed c = true → s.client c = .ended
  log : ∀ c o, (c, o) ∈ s.log → o = .heard
  killed : ∀ c, s.server ≠ .killed c
  stopped : s.server ≠ .stopped

/-- The client that is being served has not been served before. -/
theorem Accounts.notMem_log (h : Accounts cfg s) (hc : c ∈ s.current) : (c, o) ∉ s.log := by
  intro hmem
  have hnodup := (List.nodup_append'.1 h.nodup).1
  exact (List.nodup_append'.1 hnodup).2.2 (List.mem_map_of_mem hmem) hc

theorem Patient.step (h : Patient s) (hacc : Accounts cfg s) (hclients : Clients s)
    (hpatient : cfg.patient = true) (hlimit : ownDescriptors < cfg.limit) (hs : Step cfg s t) :
    Patient t := by
  obtain ⟨h1, h2, h3, h4⟩ := h
  have hfailed : s.count .failed = 0 := by
    refine List.countP_eq_zero.2 fun e he => ?_
    simp [h2 e.1 e.2 he]
  -- a client that has ended its program has been heard
  have hlate {c : ℕ} (hc : s.closed c = true) (hsend : s.server = .send c) : False := by
    obtain hheard | hrecv := hclients.heard c (.inr (h1 c hc))
    · exact hacc.notMem_log (by simp [State.current, hsend]) hheard
    · rw [hsend] at hrecv
      cases hrecv
  cases hs with
  | stop hs hdesc =>
    have := hacc.descriptors
    simp only [State.isOpen, hs, hfailed] at this
    omega
  | sendFails hs hclosed | killed hs hclosed => exact (hlate hclosed hs).elim
  | unheard hs hclosed hsent | recvFails hs hclosed hsent =>
    exact absurd (.inr (h1 _ hclosed)) hsent
  | _ => constructor <;> simp only [Function.update_apply] at * <;> grind

theorem patient_of_reachable (hpatient : cfg.patient = true) (hlimit : ownDescriptors < cfg.limit)
    (h : (serialServer cfg).Reachable s) : Patient s := by
  refine h.invariant ?_ fun s a t hs hpat hstep => hpat.step (accounts_of_reachable hs)
    (clients_of_reachable hs) hpatient hlimit (step_cases hstep)
  rintro _ rfl
  exact ⟨nofun, nofun, nofun, nofun⟩

/-- The number of calls that are left to a thread, and to the server for one connection. -/
def ClientPc.left : ClientPc → ℕ
  | .recv => 3
  | .send => 2
  | .post => 1
  | .ended => 0

def ServerPc.left : ServerPc → ℕ
  | .send _ => 4
  | .recv _ => 3
  | .close _ => 2
  | .accept => 1
  | .stopped | .killed _ => 0

/-- The number of calls that are left to a client, its end included. -/
def State.clientLeft (s : State) (c : ℕ) : ℕ := (s.client c).left + if s.closed c then 0 else 1

/-- The number of calls that are left. -/
def State.size (cfg : Config) (s : State) : ℕ :=
  9 * (cfg.clients - s.connected) + ∑ c ∈ Finset.range s.connected, s.clientLeft c +
    4 * s.backlog.length + s.server.left

/-- A call of one client. -/
theorem size_lt_of_client (hlt : c < s.connected) (hconnected : t.connected = s.connected)
    (hbacklog : t.backlog = s.backlog) (hserver : t.server = s.server)
    (hother : ∀ x, x ≠ c → t.clientLeft x = s.clientLeft x)
    (hc : t.clientLeft c < s.clientLeft c) : t.size cfg < s.size cfg := by
  have hsum : ∑ x ∈ Finset.range s.connected, t.clientLeft x <
      ∑ x ∈ Finset.range s.connected, s.clientLeft x := by
    refine Finset.sum_lt_sum (fun x _ => ?_) ⟨c, Finset.mem_range.2 hlt, hc⟩
    by_cases hx : x = c
    · exact hx ▸ hc.le
    · exact (hother x hx).le
  rw [State.size, State.size, hconnected, hbacklog, hserver]
  omega

theorem Step.size (hs : Step cfg s t) (h : Clients s) : t.size cfg < s.size cfg := by
  cases hs with
  | connect hlt =>
    obtain ⟨hclient, hclosed⟩ := h.fresh s.connected le_rfl
    simp only [State.size, Finset.sum_range_succ, State.clientLeft, hclient, hclosed,
      ClientPc.left, List.length_append, List.length_singleton]
    simp
    omega
  | clientRecv hc hopen hlt | clientSend hc hopen hlt | clientPost hc hopen hlt =>
    refine size_lt_of_client hlt rfl rfl rfl (fun x hx => ?_) ?_
    · simp [State.clientLeft, hx]
    · simp [State.clientLeft, hc, ClientPc.left]
  | exit hlt hopen =>
    refine size_lt_of_client hlt rfl rfl rfl (fun x hx => ?_) ?_
    · simp [State.clientLeft, hx]
    · simp [State.clientLeft, hopen]
  | accept hs hb =>
    simp only [State.size, State.clientLeft, hs, hb, ServerPc.left, List.length_cons]
    omega
  | stop hs | send hs | sendFails hs | killed hs | heard hs | unheard hs | recvFails hs
  | close hs =>
    simp [State.size, State.clientLeft, hs, ServerPc.left]

/-- All clients have connected, have been heard, and have counted themselves. -/
structure Served (cfg : Config) (s : State) : Prop where
  server : s.server = .accept
  log : s.log = (List.range cfg.clients).map fun c => (c, .heard)
  clientsServed : s.clientsServed = cfg.clients
  counterSem : s.counterSem = cfg.clients
  descriptors : s.descriptors = ownDescriptors

/-- Somebody goes on until all have been served. -/
theorem exists_step (hacc : Accounts cfg s) (hclients : Clients s) (hpat : Patient s)
    (hlimit : ownDescriptors < cfg.limit) :
    (∃ a t, step cfg s a = some t) ∨
      (s.server = .accept ∧ s.backlog = [] ∧ cfg.clients ≤ s.connected ∧
        ∀ c < s.connected, s.client c = .ended) := by
  -- what a client does that has been greeted, and has not ended
  have hclient {c : ℕ} (hlt : c < s.connected) (hgreeted : s.greeted c = true)
      (hc : s.client c ≠ .ended) : ∃ a t, step cfg s a = some t := by
    have hopen : s.closed c = false := by
      by_contra hclosed
      exact hc (hpat.closed c (by simpa using hclosed))
    refine ⟨.client c, ?_⟩
    simp only [step, tcpClient, Nat.not_le.2 hlt, hopen, hgreeted]
    cases hpc : s.client c with
    | ended => exact absurd hpc hc
    | _ => simp
  have horder := hacc.order
  cases hpc : s.server with
  | accept =>
    cases hb : s.backlog with
    | cons c backlog =>
      have hfailed : s.count .failed = 0 := by
        refine List.countP_eq_zero.2 fun e he => ?_
        simp [hpat.log e.1 e.2 he]
      have hdesc : s.descriptors = ownDescriptors := by
        simpa [State.isOpen, hpc, hfailed] using hacc.descriptors
      exact .inl ⟨.server .ok, by
        simp [step, serverStep, hpc, hb, hdesc, Nat.not_le.2 hlimit]⟩
    | nil =>
      by_cases hconnect : s.connected < cfg.clients
      · exact .inl ⟨.connect, by simp [step, hb, hconnect]⟩
      · by_cases hall : ∀ c < s.connected, s.client c = .ended
        · exact .inr ⟨rfl, rfl, Nat.not_lt.1 hconnect, hall⟩
        · push Not at hall
          obtain ⟨c, hlt, hc⟩ := hall
          -- its message has been received
          have hlog : s.log.map Prod.fst = List.range s.connected := by
            simpa [State.current, hpc, hb] using horder
          obtain ⟨⟨c, o⟩, hmem, rfl⟩ := List.mem_map.1 (hlog ▸ List.mem_range.2 hlt)
          have hsent := hclients.sent c (hpat.log c o hmem ▸ hmem)
          refine .inl (hclient hlt (hclients.greeted_of c fun hrecv => ?_) hc)
          rw [State.sent, hrecv] at hsent
          simp at hsent
  | send c => exact .inl ⟨.server .ok, by simp [step, serverStep, hpc]⟩
  | recv c =>
    by_cases hsent : s.sent c
    · exact .inl ⟨.server .ok, by simp [step, serverStep, hpc, hsent]⟩
    · have hlt : c ∈ List.range s.connected := by
        rw [← horder]
        simp [State.current, hpc]
      exact .inl (hclient (List.mem_range.1 hlt) (hclients.greeted_recv c hpc)
        fun hended => hsent (.inr hended))
  | close c => exact .inl ⟨.server .ok, by simp [step, serverStep, hpc]⟩
  | stopped => exact absurd hpc hpat.stopped
  | killed c => exact absurd hpc (hpat.killed c)

theorem served_of_rest (hacc : Accounts cfg s) (hclients : Clients s) (hpat : Patient s)
    (hpc : s.server = .accept) (hb : s.backlog = []) (hconnected : s.connected = cfg.clients)
    (hall : ∀ c < s.connected, s.client c = .ended) : Served cfg s := by
  have hlog : s.log.map Prod.fst = List.range cfg.clients := by
    simpa [State.current, hpc, hb, hconnected] using hacc.order
  have hlen : s.log.length = cfg.clients := by
    rw [← List.length_map (f := Prod.fst), hlog, List.length_range]
  have hheard : ∀ e ∈ s.log, e.2 = .heard := fun e he => hpat.log e.1 e.2 he
  have hcount {o : Outcome} (ho : o ≠ .heard) : s.count o = 0 :=
    List.countP_eq_zero.2 fun e he => by simp [hheard e he, ho.symm]
  refine ⟨hpc, ?_, ?_, ?_, ?_⟩
  · refine List.ext_getElem (by simp [hlen]) fun i hi _ => ?_
    have hfst := List.getElem_map Prod.fst (l := s.log) (i := i) (h := by simpa using hi)
    simp only [hlog, List.getElem_range] at hfst
    rw [List.getElem_map, List.getElem_range]
    exact Prod.ext hfst.symm (hheard _ (List.getElem_mem hi))
  · have hall : s.count .heard = s.log.length :=
      List.countP_eq_length.2 fun e he => by simp [hheard e he]
    rw [hacc.served, hall, hlen, hcount (o := .unheard) (by decide), Nat.add_zero]
  · rw [hclients.counter, ← hconnected, Finset.filter_true_of_mem fun c hc =>
      hall c (Finset.mem_range.1 hc), Finset.card_range]
  · simp [hacc.descriptors, hcount (o := .failed) (by decide), State.isOpen, hpc]

/-- **Service.** If the client ends only after its threads, and the server can open a descriptor,
all connections are served, in the order in which they were made, whatever the order of the steps
is. -/
theorem serial_serves (hpatient : cfg.patient = true) (hlimit : ownDescriptors < cfg.limit)
    (h : (serialServer cfg).Reachable s) :
    (serialServer cfg).Inevitable (Served cfg) s := by
  refine Machine.inevitable_of_measure (I := (serialServer cfg).Reachable) (State.size cfg) ?_ ?_ h
  · intro s hs hserved
    have hclients := clients_of_reachable hs
    have hpat := patient_of_reachable hpatient hlimit hs
    have hacc := accounts_of_reachable hs
    obtain ⟨a, t, hstep⟩ | ⟨hpc, hb, hle, hall⟩ := exists_step hacc hclients hpat hlimit
    · refine ⟨t, fun heq => ?_, a, hstep⟩
      exact lt_irrefl _ (heq ▸ (step_cases hstep).size hclients)
    · exact absurd
        (served_of_rest hacc hclients hpat hpc hb (hacc.connected.antisymm hle) hall) hserved
  · rintro s t hs ⟨hne, a, hstep⟩
    exact ⟨hs.step hstep, (step_cases hstep).size (clients_of_reachable hs)⟩

theorem serial_serves_three :
    (serialServer ⟨3, 1024, true⟩).Inevitable (Served ⟨3, 1024, true⟩) initial :=
  serial_serves rfl (by decide) ⟨initial, rfl, .refl⟩

end EmbeddedC.ClientService.Serial
