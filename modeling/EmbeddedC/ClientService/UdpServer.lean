import EmbeddedC.Lib.Machine
import EmbeddedC.Lib.Slots
import EmbeddedC.ClientService.Acceptor

/-!
# Homework 16: `multiproto_server` and `udp_client`, the UDP path

A `udp_client` sends a datagram to the listener; the main thread puts its endpoint into
`udp_endpoints_q`; a `_udp_server_thread` takes it, greets the client from its own socket, which
it uses for one client after the other, receives one message and answers it.

* `Endpoint`, `Datagram`, `recvfrom`: sockets and the datagrams under way;
* `MainPc`, `UdpThreadPc`, `ClientPc`: where the main thread, a worker and a client are;
* `mainStep`, `tcpClient`, `contact`, `udpServerThread`, `udpClient`: the next call of each;
* `udpService`: all of them, interleaved;
* `ThreadStep`, `ClientStep`, `MainStep`: what one call does.

The main thread serves both protocols in one loop; of the TCP half it is kept here that it takes the
main thread away from the UDP path (`MainPc.tcp`).

The sockets of workers and clients stay open, so that no endpoint is used twice.  Datagrams
arrive in any order; they can get lost, and others can arrive.  `CLIENT_MODE` is `TERMINATING`:
the bodies of the `do` loops run once.
-/

namespace EmbeddedC.ClientService.Udp

/-! ### Datagrams -/

/-- An address and a port. -/
inductive Endpoint
  /-- `SERVER_UDP_PORT` -/
  | listener
  /-- the socket of worker `i` -/
  | worker (i : ℕ)
  /-- the socket of client `c` -/
  | client (c : ℕ)
  /-- any other socket -/
  | other (n : ℕ)
  deriving DecidableEq

inductive Msg
  /-- filled with 0 by `memset` -/
  | zeros
  /-- `CLIENT_MSG`: "Client" -/
  | client
  /-- `SERVER_MSG`: "Server" -/
  | server
  deriving DecidableEq

structure Datagram where
  src : Endpoint
  dst : Endpoint
  msg : Msg
  deriving DecidableEq

/-- `recvfrom` on the socket `self` takes the `k`-th datagram under way, if it is for `self`. -/
def recvfrom (net : List Datagram) (self : Endpoint) (k : ℕ) : Option (Datagram × List Datagram) :=
  match net[k]? with
  | some d => if d.dst = self then some (d, net.eraseIdx k) else none
  | none => none

theorem recvfrom_eq_some {net net' : List Datagram} {self : Endpoint} {k : ℕ} {d : Datagram}
    (h : recvfrom net self k = some (d, net')) : d.dst = self ∧ net.Perm (d :: net') := by
  unfold recvfrom at h
  split at h
  · rename_i hd
    split at h
    · cases h
      obtain ⟨hk, rfl⟩ := List.getElem?_eq_some_iff.1 hd
      exact ⟨‹_›, (List.getElem_cons_eraseIdx_perm hk).symm⟩
    · cases h
  · cases h

theorem recvfrom_of_mem {net : List Datagram} {d : Datagram} (h : d ∈ net) :
    ∃ k net', recvfrom net d.dst k = some (d, net') := by
  obtain ⟨k, hk⟩ := List.getElem?_of_mem h
  exact ⟨k, net.eraseIdx k, by simp [recvfrom, hk]⟩

/-! ### Control states -/

/-- Where the main thread is; `e` is its `client_endp`, `left` counts
`pthread_create` calls to come. -/
inductive MainPc
  /-- before the main loop: the default threads are created -/
  | create (left : ℕ)
  /-- at `poll` -/
  | poll
  /-- in the TCP half of the loop's body; `ready` tells whether `poll` has seen a datagram -/
  | tcp (ready : Bool)
  /-- at `recvfrom`, behind the TCP half -/
  | recv
  /-- at `sem_getvalue(free_udp_threads_sem)` -/
  | checkFree (e : Endpoint)
  /-- at `sem_getvalue(busy_udp_threads_sem)` -/
  | checkBusy (e : Endpoint)
  /-- in the growth branch -/
  | grow (e : Endpoint) (left : ℕ)
  /-- at `mq_send(udp_endpoints_q)` -/
  | send (e : Endpoint)
  deriving DecidableEq

/-- Where a `_udp_server_thread` is; `e` is its `endp`. -/
inductive UdpThreadPc
  /-- opening the queue, the semaphores and the socket, then the first
  `sem_post(free_udp_threads_sem)` -/
  | starting
  /-- at `mq_receive(udp_endpoints_q)` -/
  | receive
  /-- at the first `sendto` -/
  | greet (e : Endpoint)
  /-- at `sem_wait(free_udp_threads_sem)` -/
  | waitFree (e : Endpoint)
  /-- at `sem_post(busy_udp_threads_sem)` -/
  | postBusy (e : Endpoint)
  /-- at `recvfrom` -/
  | recv (e : Endpoint)
  /-- at `puts("Incorrect endpoint")` -/
  | incorrectEndpoint
  /-- at the second `sendto` -/
  | answer (e : Endpoint)
  /-- at `sem_wait(busy_udp_threads_sem)` -/
  | waitBusy
  /-- at `sem_post(free_udp_threads_sem)` -/
  | postFree
  /-- at `sem_post(clients_count_sem)` -/
  | postServed
  /-- after `return` -/
  | returned
  deriving DecidableEq

/-- Where a `udp_client` is; `server` is the endpoint it has saved. -/
inductive ClientPc
  /-- at the first `sendto` -/
  | sendHello
  /-- at the first `recvfrom` -/
  | recvGreeting
  /-- at `sem_post(udp_counter_sem)` -/
  | postCounter (server : Endpoint)
  /-- at the second `sendto` -/
  | sendMsg (server : Endpoint)
  /-- at the second `recvfrom` -/
  | recvAnswer (server : Endpoint)
  /-- at `puts("Incorrect endpoint")` -/
  | incorrectEndpoint
  /-- after its last statement -/
  | done
  /-- after `exit` -/
  | exited
  deriving DecidableEq

namespace MainPc

/-- The endpoint the main thread has received and not sent on. -/
def hand : MainPc → Option Endpoint
  | .create _ | .poll | .tcp _ | .recv => none
  | .checkFree e | .checkBusy e | .grow e _ | .send e => some e

end MainPc

/-- The main thread, the workers, the clients and what they share.  `greeted`, `received` and
`answered` are the histories of the workers' successful calls: the worker, its `endp`, and for
`received` also the sender of the datagram. -/
structure State where
  main : MainPc
  udpThreadsCount : ℕ
  udpThreads : List UdpThreadPc
  udpEndpointsQ : List Endpoint
  freeUdpThreadsSem : ℕ
  busyUdpThreadsSem : ℕ
  servedUdpClients : ℕ
  clients : List ClientPc
  udpCounterSem : ℕ
  net : List Datagram
  greeted : List (ℕ × Endpoint)
  received : List (ℕ × Endpoint × Endpoint)
  answered : List (ℕ × Endpoint)

/-- What can happen next: a call of the main thread other than `poll` and `recvfrom`; its `poll`,
when it sees a TCP client; its `recvfrom`; a call of worker `i` or of client `c`, a new client; a
datagram that none of them has sent, or the loss of one.  `ok` tells whether a `sendto` or
`recvfrom` succeeds, `k` which datagram is received. -/
inductive Action
  | main
  | tcp
  | contact (k : ℕ)
  | thread (i : ℕ) (ok : Bool) (k : ℕ)
  | connect
  | client (c : ℕ) (ok : Bool) (k : ℕ)
  | inject (d : Datagram)
  | lose (k : ℕ)
  deriving DecidableEq

/-- Before the first `pthread_create`: semaphores set to 0, empty queues. -/
def initial : State where
  main := .create serverDefAlloc
  udpThreadsCount := serverDefAlloc
  udpThreads := []
  udpEndpointsQ := []
  freeUdpThreadsSem := 0
  busyUdpThreadsSem := 0
  servedUdpClients := 0
  clients := []
  udpCounterSem := 0
  net := []
  greeted := []
  received := []
  answered := []

/-! ### Steps -/

/-- Move worker `i` to `pc`. -/
def State.setThread (s : State) (i : ℕ) (pc : UdpThreadPc) : State :=
  { s with udpThreads := s.udpThreads.set i pc }

/-- Move client `c` to `pc`. -/
def State.setClient (s : State) (c : ℕ) (pc : ClientPc) : State :=
  { s with clients := s.clients.set c pc }

/-- The main thread's next call, other than `poll` and `recvfrom`. -/
def mainStep (s : State) : Option State :=
  match s.main with
  | .create 0 => some { s with main := .poll }
  | .create (left + 1) =>
    some { s with main := .create left, udpThreads := s.udpThreads ++ [.starting] }
  | .poll | .recv => none
  -- the TCP half is over
  | .tcp ready => some { s with main := if ready then .recv else .poll }
  | .checkFree e =>
    some { s with main := if s.freeUdpThreadsSem = 0 then .checkBusy e else .send e }
  | .checkBusy e =>
    -- otherwise `usleep`, and the loop looks at the free threads again
    some { s with main :=
      if s.busyUdpThreadsSem = s.udpThreadsCount then .grow e serverDefAlloc else .checkFree e }
  | .grow e 0 =>
    some { s with main := .send e, udpThreadsCount := s.udpThreadsCount + serverDefAlloc }
  | .grow e (left + 1) =>
    some { s with main := .grow e left, udpThreads := s.udpThreads ++ [.starting] }
  | .send e =>
    -- blocks while the queue is full
    (MessageQueue.send serverQMaxmsg s.udpEndpointsQ e).map fun q =>
      { s with main := .poll, udpEndpointsQ := q }

/-- `poll` sees a TCP client, and whether there is a datagram too; one that is under way counts. -/
def tcpClient (s : State) : Option State :=
  match s.main with
  | .poll => some { s with main := .tcp (s.net.any (·.dst = .listener)) }
  | _ => none

/-- The main thread receives a datagram on the listener's socket. -/
def contact (s : State) (k : ℕ) : Option State :=
  match s.main with
  | .poll | .recv => (recvfrom s.net .listener k).map fun (d, net) =>
      { s with main := .checkFree d.src, net := net }
  | _ => none

/-- The next call of worker `i`; `none` while it blocks. -/
def udpServerThread (s : State) (i : ℕ) (ok : Bool) (k : ℕ) : Option State :=
  match s.udpThreads[i]? with
  | none => none
  | some .starting =>
    some { s.setThread i .receive with freeUdpThreadsSem := s.freeUdpThreadsSem + 1 }
  | some .receive =>
    (MessageQueue.receive (fun _ => 0) s.udpEndpointsQ).map fun (e, q) =>
      { s.setThread i (.greet e) with udpEndpointsQ := q }
  | some (.greet e) =>
    if ok then
      some { s.setThread i (.waitFree e) with
        net := s.net ++ [⟨.worker i, e, .server⟩]
        greeted := s.greeted ++ [(i, e)] }
    else some (s.setThread i .returned)
  | some (.waitFree e) =>
    if s.freeUdpThreadsSem = 0 then none else
      some { s.setThread i (.postBusy e) with freeUdpThreadsSem := s.freeUdpThreadsSem - 1 }
  | some (.postBusy e) =>
    some { s.setThread i (.recv e) with busyUdpThreadsSem := s.busyUdpThreadsSem + 1 }
  | some (.recv e) =>
    if ok then
      (recvfrom s.net (.worker i) k).map fun (d, net) =>
        { s.setThread i (if e = d.src then .answer e else .incorrectEndpoint) with
          net := net
          received := s.received ++ [(i, e, d.src)] }
    else some (s.setThread i .waitBusy)
  | some .incorrectEndpoint => some (s.setThread i .waitBusy)
  | some (.answer e) =>
    if ok then
      some { s.setThread i .waitBusy with
        net := s.net ++ [⟨.worker i, e, .server⟩]
        answered := s.answered ++ [(i, e)] }
    else some (s.setThread i .waitBusy)
  | some .waitBusy =>
    if s.busyUdpThreadsSem = 0 then none else
      some { s.setThread i .postFree with busyUdpThreadsSem := s.busyUdpThreadsSem - 1 }
  | some .postFree =>
    some { s.setThread i .postServed with freeUdpThreadsSem := s.freeUdpThreadsSem + 1 }
  | some .postServed =>
    some { s.setThread i .receive with servedUdpClients := s.servedUdpClients + 1 }
  | some .returned => none

/-- The next call of client `c`; `none` while it blocks. -/
def udpClient (s : State) (c : ℕ) (ok : Bool) (k : ℕ) : Option State :=
  match s.clients[c]? with
  | none => none
  | some .sendHello =>
    if ok then
      some { s.setClient c .recvGreeting with
        net := s.net ++ [⟨.client c, .listener, .zeros⟩] }
    else some (s.setClient c .exited)
  | some .recvGreeting =>
    if ok then
      (recvfrom s.net (.client c) k).map fun (d, net) =>
        { s.setClient c (.postCounter d.src) with net := net }
    else some (s.setClient c .exited)
  | some (.postCounter server) =>
    some { s.setClient c (.sendMsg server) with udpCounterSem := s.udpCounterSem + 1 }
  | some (.sendMsg server) =>
    if ok then
      some { s.setClient c (.recvAnswer server) with
        net := s.net ++ [⟨.client c, server, .client⟩] }
    else some (s.setClient c .exited)
  | some (.recvAnswer server) =>
    if ok then
      (recvfrom s.net (.client c) k).map fun (d, net) =>
        { s.setClient c (if d.src = server then .done else .incorrectEndpoint) with net := net }
    else some (s.setClient c .exited)
  | some .incorrectEndpoint => some (s.setClient c .exited)
  | some .done | some .exited => none

def step (s : State) : Action → Option State
  | .main => mainStep s
  | .tcp => tcpClient s
  | .contact k => contact s k
  | .thread i ok k => udpServerThread s i ok k
  | .connect => some { s with clients := s.clients ++ [.sendHello] }
  | .client c ok k => udpClient s c ok k
  | .inject d => some { s with net := s.net ++ [d] }
  | .lose k => some { s with net := s.net.eraseIdx k }

/-- `multiproto_server`, UDP path, with any number of `udp_client`s, interleaved. -/
def udpService : Machine State Action where
  init s := s = initial
  step := step

/-! ### What one call does -/

namespace UdpThreadPc

/-- The worker's last post of `free_udp_threads_sem` has not been taken back. -/
def posted : UdpThreadPc → Bool
  | .receive | .greet _ | .waitFree _ | .postServed | .returned => true
  | _ => false

/-- The worker is between its post of `busy_udp_threads_sem` and its wait on it. -/
def isBusy : UdpThreadPc → Bool
  | .recv _ | .incorrectEndpoint | .answer _ | .waitBusy => true
  | _ => false

/-- The phases between which a worker moves without a change to queue and datagrams. -/
inductive Moves : UdpThreadPc → UdpThreadPc → Prop
  | starting : Moves .starting .receive
  | waitFree (e : Endpoint) : Moves (.waitFree e) (.postBusy e)
  | postBusy (e : Endpoint) : Moves (.postBusy e) (.recv e)
  | incorrectEndpoint : Moves .incorrectEndpoint .waitBusy
  | waitBusy : Moves .waitBusy .postFree
  | postFree : Moves .postFree .postServed
  | postServed : Moves .postServed .receive

/-- Where a worker goes when its call fails. -/
inductive Fails : UdpThreadPc → UdpThreadPc → Prop
  | greet (e : Endpoint) : Fails (.greet e) .returned
  | recv (e : Endpoint) : Fails (.recv e) .waitBusy
  | answer (e : Endpoint) : Fails (.answer e) .waitBusy

end UdpThreadPc

/-- What one call of worker `i` can do. -/
inductive ThreadStep (s : State) (i : ℕ) : Bool → State → Prop
  | move {ok : Bool} {pc pc' : UdpThreadPc} {free busy served : ℕ}
      (hpc : s.udpThreads[i]? = some pc) (hmoves : pc.Moves pc')
      (hfree : free + (if pc.posted then 1 else 0) =
        s.freeUdpThreadsSem + if pc'.posted then 1 else 0)
      (hbusy : busy + (if pc.isBusy then 1 else 0) =
        s.busyUdpThreadsSem + if pc'.isBusy then 1 else 0) :
      ThreadStep s i ok { s.setThread i pc' with
        freeUdpThreadsSem := free
        busyUdpThreadsSem := busy
        servedUdpClients := served }
  | take {ok : Bool} {e : Endpoint} {q : List Endpoint} (hpc : s.udpThreads[i]? = some .receive)
      (hq : s.udpEndpointsQ = e :: q) :
      ThreadStep s i ok { s.setThread i (.greet e) with udpEndpointsQ := q }
  | greet {e : Endpoint} (hpc : s.udpThreads[i]? = some (.greet e)) :
      ThreadStep s i true { s.setThread i (.waitFree e) with
        net := s.net ++ [⟨.worker i, e, .server⟩]
        greeted := s.greeted ++ [(i, e)] }
  | recv {e : Endpoint} {d : Datagram} {net : List Datagram}
      (hpc : s.udpThreads[i]? = some (.recv e)) (hdst : d.dst = .worker i)
      (hnet : s.net.Perm (d :: net)) :
      ThreadStep s i true
        { s.setThread i (if e = d.src then .answer e else .incorrectEndpoint) with
          net := net
          received := s.received ++ [(i, e, d.src)] }
  | answer {e : Endpoint} (hpc : s.udpThreads[i]? = some (.answer e)) :
      ThreadStep s i true { s.setThread i .waitBusy with
        net := s.net ++ [⟨.worker i, e, .server⟩]
        answered := s.answered ++ [(i, e)] }
  | fail {pc pc' : UdpThreadPc} (hpc : s.udpThreads[i]? = some pc) (hfails : pc.Fails pc') :
      ThreadStep s i false (s.setThread i pc')

theorem udpServerThread_step {s t : State} {i k : ℕ} {ok : Bool}
    (h : udpServerThread s i ok k = some t) : ThreadStep s i ok t := by
  unfold udpServerThread at h
  split at h <;> rename_i hpc
  · cases h
  · obtain rfl := Option.some.inj h
    exact .move hpc .starting rfl rfl
  · obtain ⟨⟨e, q⟩, hq, rfl⟩ := Option.map_eq_some_iff.1 h
    exact .take hpc (MessageQueue.receive_const.1 hq)
  · split at h <;> obtain rfl := Option.some.inj h
    · obtain rfl : ok = true := ‹_›
      exact .greet hpc
    · obtain rfl : ok = false := by simpa using ‹¬ ok = true›
      exact .fail hpc (.greet _)
  · split at h
    · cases h
    · obtain rfl := Option.some.inj h
      refine .move hpc (.waitFree _) ?_ rfl
      simp only [UdpThreadPc.posted, if_true, Bool.false_eq_true, if_false]
      omega
  · obtain rfl := Option.some.inj h
    exact .move hpc (.postBusy _) rfl rfl
  · split at h
    · obtain rfl : ok = true := ‹_›
      obtain ⟨⟨d, net⟩, hd, rfl⟩ := Option.map_eq_some_iff.1 h
      obtain ⟨hdst, hnet⟩ := recvfrom_eq_some hd
      exact .recv hpc hdst hnet
    · obtain rfl : ok = false := by simpa using ‹¬ ok = true›
      obtain rfl := Option.some.inj h
      exact .fail hpc (.recv _)
  · obtain rfl := Option.some.inj h
    exact .move hpc .incorrectEndpoint rfl rfl
  · split at h <;> obtain rfl := Option.some.inj h
    · obtain rfl : ok = true := ‹_›
      exact .answer hpc
    · obtain rfl : ok = false := by simpa using ‹¬ ok = true›
      exact .fail hpc (.answer _)
  · split at h
    · cases h
    · obtain rfl := Option.some.inj h
      refine .move hpc .waitBusy rfl ?_
      simp only [UdpThreadPc.isBusy, if_true, Bool.false_eq_true, if_false]
      omega
  · obtain rfl := Option.some.inj h
    exact .move hpc .postFree rfl rfl
  · obtain rfl := Option.some.inj h
    exact .move hpc .postServed rfl rfl
  · cases h

/-- What one call of client `c` can do. -/
inductive ClientStep (s : State) (c : ℕ) : Bool → State → Prop
  | hello (hpc : s.clients[c]? = some .sendHello) :
      ClientStep s c true { s.setClient c .recvGreeting with
        net := s.net ++ [⟨.client c, .listener, .zeros⟩] }
  | greeting {d : Datagram} {net : List Datagram} (hpc : s.clients[c]? = some .recvGreeting)
      (hdst : d.dst = .client c) (hnet : s.net.Perm (d :: net)) :
      ClientStep s c true { s.setClient c (.postCounter d.src) with net := net }
  | counter {ok : Bool} {server : Endpoint} (hpc : s.clients[c]? = some (.postCounter server)) :
      ClientStep s c ok
        { s.setClient c (.sendMsg server) with udpCounterSem := s.udpCounterSem + 1 }
  | msg {server : Endpoint} (hpc : s.clients[c]? = some (.sendMsg server)) :
      ClientStep s c true { s.setClient c (.recvAnswer server) with
        net := s.net ++ [⟨.client c, server, .client⟩] }
  | answer {server : Endpoint} {d : Datagram} {net : List Datagram}
      (hpc : s.clients[c]? = some (.recvAnswer server)) (hdst : d.dst = .client c)
      (hnet : s.net.Perm (d :: net)) :
      ClientStep s c true
        { s.setClient c (if d.src = server then .done else .incorrectEndpoint) with net := net }
  | exit {ok : Bool} {pc : ClientPc} (hpc : s.clients[c]? = some pc)
      (hfail : ok = false ∨ pc = .incorrectEndpoint) : ClientStep s c ok (s.setClient c .exited)

theorem udpClient_step {s t : State} {c k : ℕ} {ok : Bool} (h : udpClient s c ok k = some t) :
    ClientStep s c ok t := by
  unfold udpClient at h
  split at h <;> rename_i hpc
  · cases h
  · split at h <;> obtain rfl := Option.some.inj h
    · obtain rfl : ok = true := ‹_›
      exact .hello hpc
    · exact .exit hpc (.inl (by simpa using ‹¬ ok = true›))
  · split at h
    · obtain rfl : ok = true := ‹_›
      obtain ⟨⟨d, net⟩, hd, rfl⟩ := Option.map_eq_some_iff.1 h
      obtain ⟨hdst, hnet⟩ := recvfrom_eq_some hd
      exact .greeting hpc hdst hnet
    · obtain rfl := Option.some.inj h
      exact .exit hpc (.inl (by simpa using ‹¬ ok = true›))
  · obtain rfl := Option.some.inj h
    exact .counter hpc
  · split at h <;> obtain rfl := Option.some.inj h
    · obtain rfl : ok = true := ‹_›
      exact .msg hpc
    · exact .exit hpc (.inl (by simpa using ‹¬ ok = true›))
  · split at h
    · obtain rfl : ok = true := ‹_›
      obtain ⟨⟨d, net⟩, hd, rfl⟩ := Option.map_eq_some_iff.1 h
      obtain ⟨hdst, hnet⟩ := recvfrom_eq_some hd
      exact .answer hpc hdst hnet
    · obtain rfl := Option.some.inj h
      exact .exit hpc (.inl (by simpa using ‹¬ ok = true›))
  · obtain rfl := Option.some.inj h
    exact .exit hpc (.inr rfl)
  · cases h
  · cases h

/-- What one call of the main thread can do, other than `poll` and `recvfrom`. -/
inductive MainStep (s : State) : State → Prop
  | started (hmain : s.main = .create 0) : MainStep s { s with main := .poll }
  | create {left : ℕ} (hmain : s.main = .create (left + 1)) :
      MainStep s { s with main := .create left, udpThreads := s.udpThreads ++ [.starting] }
  | back {ready : Bool} (hmain : s.main = .tcp ready) :
      MainStep s { s with main := if ready then .recv else .poll }
  | free {e : Endpoint} (hmain : s.main = .checkFree e) (hfree : s.freeUdpThreadsSem ≠ 0) :
      MainStep s { s with main := .send e }
  | notFree {e : Endpoint} (hmain : s.main = .checkFree e) (hfree : s.freeUdpThreadsSem = 0) :
      MainStep s { s with main := .checkBusy e }
  | allBusy {e : Endpoint} (hmain : s.main = .checkBusy e) :
      MainStep s { s with main := .grow e serverDefAlloc }
  | notBusy {e : Endpoint} (hmain : s.main = .checkBusy e) :
      MainStep s { s with main := .checkFree e }
  | grown {e : Endpoint} (hmain : s.main = .grow e 0) :
      MainStep s { s with main := .send e, udpThreadsCount := s.udpThreadsCount + serverDefAlloc }
  | grow {e : Endpoint} {left : ℕ} (hmain : s.main = .grow e (left + 1)) :
      MainStep s { s with main := .grow e left, udpThreads := s.udpThreads ++ [.starting] }
  | send {e : Endpoint} (hmain : s.main = .send e) :
      MainStep s { s with main := .poll, udpEndpointsQ := s.udpEndpointsQ ++ [e] }

theorem mainStep_step {s t : State} (h : mainStep s = some t) : MainStep s t := by
  unfold mainStep at h
  split at h <;> rename_i hmain
  · exact Option.some.inj h ▸ .started hmain
  · exact Option.some.inj h ▸ .create hmain
  · cases h
  · cases h
  · exact Option.some.inj h ▸ .back hmain
  · obtain rfl := Option.some.inj h
    split
    · exact .notFree hmain ‹_›
    · exact .free hmain ‹_›
  · obtain rfl := Option.some.inj h
    split
    · exact .allBusy hmain
    · exact .notBusy hmain
  · exact Option.some.inj h ▸ .grown hmain
  · exact Option.some.inj h ▸ .grow hmain
  · obtain ⟨q, hq, rfl⟩ := Option.map_eq_some_iff.1 h
    obtain ⟨-, rfl⟩ := MessageQueue.send_eq_some hq
    exact .send hmain

theorem tcpClient_eq_some {s t : State} (h : tcpClient s = some t) :
    s.main = .poll ∧ t = { s with main := .tcp (s.net.any (·.dst = .listener)) } := by
  unfold tcpClient at h
  split at h
  · exact ⟨‹_›, (Option.some.inj h).symm⟩
  · cases h

theorem contact_eq_some {s t : State} {k : ℕ} (h : contact s k = some t) :
    (s.main = .poll ∨ s.main = .recv) ∧ ∃ d net, d.dst = .listener ∧ s.net.Perm (d :: net) ∧
      t = { s with main := .checkFree d.src, net := net } := by
  have hmain : s.main = .poll ∨ s.main = .recv := by
    unfold contact at h
    split at h
    · exact .inl ‹_›
    · exact .inr ‹_›
    · cases h
  have hrecv : ((recvfrom s.net .listener k).map fun p : Datagram × List Datagram =>
      { s with main := .checkFree p.1.src, net := p.2 }) = some t := by
    rcases hmain with hpc | hpc <;> simpa only [contact, hpc] using h
  obtain ⟨⟨d, net⟩, hd, rfl⟩ := Option.map_eq_some_iff.1 hrecv
  obtain ⟨hdst, hnet⟩ := recvfrom_eq_some hd
  exact ⟨hmain, d, net, hdst, hnet, rfl⟩

end EmbeddedC.ClientService.Udp
