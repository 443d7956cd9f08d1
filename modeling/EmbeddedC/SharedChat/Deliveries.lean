import EmbeddedC.Lib.Mailbox
import EmbeddedC.SharedChat.Login

/-!
# Homework 13: what a client shows is what the server wrote

The `stoc` half of a user's memory, with `stc_sem` and `srv_sem`, is a mailbox from the server to
the `msg_handler` of the client that has mapped it.  The server waits for `srv_sem` after every
command but the user lists of the registration branch, whose answers stay in `srv_sem` and let the
server go on after a later command that has not been read.

* `State.stocBox`: the mailbox of the user at `i` and client `c`;
* `stocBox_server`, `stocBox_handler`: each step is a step of the mailbox, or leaves it alone;
* `replies_read`: the commands shown, in every run in which the server writes only to users who
  have read the lists it did not wait for; `list_unread`: a list that is never read.
-/

namespace EmbeddedC.SharedChat

open Chatroom (Text)

/-! ### The mailbox -/

/-- The segment holds a command as the server sends it. -/
def HoldsReply (m : UsrMsg) (e : Command) : Prop :=
  e.comm = m.comm ∧ (e.comm = .msgSnd ∨ e.comm = .updUsrlist) ∧ m.msg ≠ none ∧ e.text = m.msg

theorem Send.comm_eq (send : Send) : send.comm = .msgSnd ∨ send.comm = .updUsrlist := by
  cases send <;> simp [Send.comm]

namespace ServerPc

/-- The server is the writer of `stoc` of the user at `i`. -/
def sender (i : ℕ) : ServerPc → Mailbox.Writer
  | .writeMsg _ k | .copyMsg _ k | .post _ k => if k = i then .writing else .idle
  | .wait _ k => if k = i then .waiting else .idle
  | _ => .idle

/-- What the server has written so far, where it sends the texts `text`. -/
def sent (i : ℕ) (text : Send → Text) : ServerPc → UsrMsg → Prop
  | .writeMsg send k | .copyMsg send k => fun m => k = i → m.comm = send.comm
  | .post send k => fun m => k = i → m = ⟨send.comm, some (text send)⟩
  | _ => fun _ => True

end ServerPc

namespace HandlerPc

/-- A `msg_handler` is the reader of `stoc`. -/
def reader : HandlerPc → Mailbox.Reader
  | .readComm | .readMsg _ => .reading
  | .postSrv => .answering
  | _ => .away

/-- What a `msg_handler` has found out about the command. -/
def known : HandlerPc → Command → Prop
  | .readMsg comm => fun e => e.comm = comm
  | _ => fun _ => True

end HandlerPc

/-- The `stoc` half of the memory of the user at `i`, between the server and a `msg_handler`. -/
def Shm.stocBox (m : Shm) (i : ℕ) (server : ServerPc) (text : Send → Text) (handler : HandlerPc) :
    Mailbox Command UsrMsg where
  writer := server.sender i
  reader := handler.reader
  plan := server.sent i text
  known := handler.known
  place := m.stoc
  full := m.stcSem
  ack := m.srvSem
  unwaited := m.joins
  unanswered := 0
  written := m.written
  read := m.shown

namespace State

/-- Where the `msg_handler` of client `c` is on the memory of the user at `i`. -/
def listener (s : State) (c i : ℕ) : HandlerPc :=
  match s.clients[c]? with
  | some cl => if cl.shmBuf = some i then cl.handler else .off
  | none => .off

/-- The mailbox from the server to client `c` in the memory of the user at `i`. -/
def stocBox (s : State) (c i : ℕ) : Mailbox Command UsrMsg :=
  (s.shm i).stocBox i s.server s.text (s.listener c i)

end State

/-! ### Steps of the server -/

section Server

variable {s t : State} {m m' : Shm} {i k : ℕ} {pc pc' : ServerPc} {text text' : Send → Text}
  {hpc hpc' : HandlerPc}

theorem ServerPc.sent_of_idle (h : pc.sender i = .idle) (text : Send → Text) :
    pc.sent i text = fun _ => True := by
  cases pc with
  | writeMsg send k | copyMsg send k | post send k =>
    have hk : k ≠ i := fun hk => by simp [sender, hk] at h
    simp [sent, hk]
  | _ => rfl

theorem stocBox_congr (hhalf : m'.stocHalf = m.stocHalf) :
    m'.stocBox i pc text hpc = m.stocBox i pc text hpc := by
  simp only [Shm.stocHalf, Prod.mk.injEq] at hhalf
  obtain ⟨hstoc, hstc, hsrv, hwritten, hshown, hjoins⟩ := hhalf
  simp only [Shm.stocBox, hstoc, hstc, hsrv, hwritten, hshown, hjoins]

/-- The mailbox does not depend on where the server is as long as it does not write. -/
theorem stocBox_idle (hs : pc.sender i = .idle) (ht : pc'.sender i = .idle) :
    m.stocBox i pc' text' hpc = m.stocBox i pc text hpc := by
  simp only [Shm.stocBox, hs, ht, ServerPc.sent_of_idle hs, ServerPc.sent_of_idle ht]

/-- A step of the server on the memory of the user at `k`. -/
theorem stocBox_update {c : ℕ} (hpc : s.server = pc) (hshm : t.shm = Function.update s.shm k m)
    (hserver : t.server = pc') (htext : t.text = s.text) (hclients : t.clients = s.clients)
    (hself : i = k → Mailbox.Step HoldsReply ((s.shm k).stocBox k pc s.text (s.listener c k))
      (m.stocBox k pc' s.text (s.listener c k)))
    (hother : i ≠ k → pc.sender i = .idle ∧ pc'.sender i = .idle) :
    t.stocBox c i = s.stocBox c i ∨ Mailbox.Step HoldsReply (s.stocBox c i) (t.stocBox c i) := by
  have hlistener : t.listener c i = s.listener c i := by simp only [State.listener, hclients]
  simp only [State.stocBox, hlistener, hshm, hserver, hpc, htext]
  by_cases hi : i = k
  · subst hi
    rw [Function.update_self]
    exact .inr (hself rfl)
  · rw [Function.update_of_ne hi]
    exact .inl (stocBox_idle (hother hi).1 (hother hi).2)

theorem ServerPc.sender_other (hi : i ≠ k) (send : Send) :
    (writeMsg send k).sender i = .idle ∧ (copyMsg send k).sender i = .idle ∧
      (post send k).sender i = .idle ∧ (wait send k).sender i = .idle := by
  simp [sender, hi.symm]

theorem ServerPc.sender_next (send : Send) (k i : ℕ) : (send.next k).sender i = .idle := by
  cases send <;> rfl

theorem ServerPc.Moves.sender (h : pc.Moves pc') (i : ℕ) :
    pc.sender i = .idle ∧ pc'.sender i = .idle := by
  cases h with
  | leave send k => cases send <;> exact ⟨rfl, rfl⟩
  | _ => exact ⟨rfl, rfl⟩

/-- A step of the server that does not write to the user at `i`. -/
theorem stocBox_quiet {c : ℕ} (hpc : s.server = pc)
    (hhalf : (t.shm i).stocHalf = (s.shm i).stocHalf) (hserver : t.server = pc')
    (hclients : t.clients = s.clients) (hidle : pc.sender i = .idle ∧ pc'.sender i = .idle) :
    t.stocBox c i = s.stocBox c i := by
  have hlistener : t.listener c i = s.listener c i := by simp only [State.listener, hclients]
  simp only [State.stocBox, hlistener, hserver, hpc]
  exact (stocBox_congr hhalf).trans (stocBox_idle hidle.1 hidle.2)

/-- A step of the server is a step of the mailbox, or leaves it alone, if the server begins to write
only when the last command has been read. -/
theorem stocBox_server {junk : Text} (h : ServerStep s junk t) (c i : ℕ)
    (hclear : ∀ send, s.server = .writeComm send i →
      (s.shm i).stcSem = 0 ∧ (s.listener c i).reader ≠ .reading) :
    t.stocBox c i = s.stocBox c i ∨ Mailbox.Step HoldsReply (s.stocBox c i) (t.stocBox c i) := by
  cases h with
  | move hpc hmoves => exact .inl (stocBox_quiet hpc rfl rfl rfl (hmoves.sender i))
  | login hpc | register hpc | writeId hpc | copyId hpc | postStc hpc | loggedIn hpc | unlink hpc
  | postUsr hpc | message hpc | newName hpc => exact .inl (stocBox_quiet hpc rfl rfl rfl ⟨rfl, rfl⟩)
  | take hpc | readMsg hpc | answer hpc | rename hpc =>
    exact .inl (stocBox_quiet hpc (State.update_shm_congr Shm.stocHalf s.shm i _ rfl) rfl rfl
      ⟨rfl, rfl⟩)
  | @plain index pc hpc hnext =>
    refine .inl (stocBox_quiet hpc (State.update_shm_congr Shm.stocHalf s.shm i _ rfl) rfl rfl
      ⟨rfl, ?_⟩)
    split at hnext <;> first | (subst hnext; rfl) | exact hnext.elim
  | @drop index pc list hpc hnext =>
    refine .inl (stocBox_quiet hpc rfl rfl rfl ⟨rfl, ?_⟩)
    split at hnext <;> subst hnext <;> rfl
  | @writeComm send k hpc =>
    refine stocBox_update hpc rfl rfl rfl rfl (fun hi => ?_) fun hi =>
      ⟨rfl, (ServerPc.sender_other hi send).1⟩
    subst hi
    have hstep : Mailbox.Step HoldsReply
      ((s.shm i).stocBox i (.writeComm send i) s.text (s.listener c i)) _ :=
      .begin { (s.shm i).stoc with comm := send.comm } (fun m => m.comm = send.comm) rfl
        (hclear send hpc) rfl
    simpa [Shm.stocBox, ServerPc.sender, ServerPc.sent] using hstep
  | @writeMsg send k hpc =>
    refine stocBox_update hpc rfl rfl rfl rfl (fun hi => ?_) fun hi =>
      ⟨(ServerPc.sender_other hi send).1, (ServerPc.sender_other hi send).2.1⟩
    subst hi
    have hstep : Mailbox.Step HoldsReply
      ((s.shm i).stocBox i (.writeMsg send i) s.text (s.listener c i)) _ :=
      .write { (s.shm i).stoc with msg := none } (fun m => m.comm = send.comm) (if_pos rfl)
        fun hsent => hsent rfl
    simpa [Shm.stocBox, ServerPc.sender, ServerPc.sent] using hstep
  | @copyMsg send k hpc =>
    refine stocBox_update hpc rfl rfl rfl rfl (fun hi => ?_) fun hi =>
      ⟨(ServerPc.sender_other hi send).2.1, (ServerPc.sender_other hi send).2.2.1⟩
    subst hi
    have hstep : Mailbox.Step HoldsReply
      ((s.shm i).stocBox i (.copyMsg send i) s.text (s.listener c i)) _ :=
      .write { (s.shm i).stoc with msg := some (s.text send) }
        (fun m => m = ⟨send.comm, some (s.text send)⟩) (if_pos rfl)
        fun hsent => congrArg (UsrMsg.mk · (some (s.text send))) (hsent rfl)
    simpa [Shm.stocBox, ServerPc.sender, ServerPc.sent] using hstep
  | @postJoined k hpc =>
    refine stocBox_update hpc rfl rfl rfl rfl (fun hi => ?_) fun hi =>
      ⟨(ServerPc.sender_other hi .joined).2.2.1, rfl⟩
    subst hi
    have hstep : Mailbox.Step HoldsReply
      ((s.shm i).stocBox i (.post .joined i) s.text (s.listener c i)) _ :=
      .postOnly ⟨.updUsrlist, some (s.text .joined)⟩ (fun _ => True) (if_pos rfl)
        fun m hsent => ⟨by rw [hsent rfl]; rfl, .inr rfl, by simp [hsent rfl], by rw [hsent rfl]⟩
    simpa [Shm.stocBox, ServerPc.sender, ServerPc.sent] using hstep
  | @post send k hpc hsend =>
    refine stocBox_update hpc rfl rfl rfl rfl (fun hi => ?_) fun hi =>
      ⟨(ServerPc.sender_other hi send).2.2.1, (ServerPc.sender_other hi send).2.2.2⟩
    subst hi
    have hstep : Mailbox.Step HoldsReply
      ((s.shm i).stocBox i (.post send i) s.text (s.listener c i)) _ :=
      .post ⟨send.comm, some (s.text send)⟩ (fun _ => True) (if_pos rfl)
        fun m hsent => ⟨by rw [hsent rfl], send.comm_eq, by simp [hsent rfl], by rw [hsent rfl]⟩
    simpa [Shm.stocBox, ServerPc.sender, ServerPc.sent] using hstep
  | @resume send k hpc hsrv =>
    refine stocBox_update hpc rfl rfl rfl rfl (fun hi => ?_) fun hi =>
      ⟨(ServerPc.sender_other hi send).2.2.2, ServerPc.sender_next send k i⟩
    subst hi
    have hnext := ServerPc.sender_next send i i
    have hstep : Mailbox.Step HoldsReply
      ((s.shm i).stocBox i (.wait send i) s.text (s.listener c i)) _ := .resume (if_pos rfl) hsrv
    simp only [Shm.stocBox, hnext, ServerPc.sent_of_idle hnext]
    simpa [Shm.stocBox, ServerPc.sender, ServerPc.sent] using hstep

end Server

/-! ### Steps of the clients -/

section Client

variable {s t : State} {c c' i i' : ℕ} {cl : Client} {f : Client → Client}

theorem listener_eq (hcl : s.clients[c]? = some cl) (hi : cl.shmBuf = some i) :
    s.listener c i = cl.handler := by
  simp [State.listener, hcl, hi]

theorem stocBox_eq (hcl : s.clients[c]? = some cl) (hi : cl.shmBuf = some i) :
    s.stocBox c i = (s.shm i).stocBox i s.server s.text cl.handler := by
  rw [State.stocBox, listener_eq hcl hi]

theorem stocBox_setHandler {pc : HandlerPc}
    (hclients : t.clients = s.clients.modify c fun cl => { cl with handler := pc })
    (hcl : s.clients[c]? = some cl) (hi : cl.shmBuf = some i) :
    t.stocBox c i = (t.shm i).stocBox i t.server t.text pc := by
  have hcl' : t.clients[c]? = some { cl with handler := pc } := by simp [hclients, hcl]
  exact stocBox_eq hcl' hi

theorem HandlerPc.known_of_away {pc : HandlerPc} (h : pc.reader = .away) :
    pc.known = fun _ => True := by
  cases pc <;> first | rfl | cases h

/-- A step of a client that does not read. -/
theorem stocBox_modify (hserver : t.server = s.server) (htext : t.text = s.text)
    (hhalf : (t.shm i).stocHalf = (s.shm i).stocHalf)
    (hclients : t.clients = s.clients.modify c' f) (hcl : s.clients[c']? = some cl)
    (hs : cl.shmBuf = some i → cl.handler.reader = .away)
    (ht : (f cl).shmBuf = some i → (f cl).handler.reader = .away) :
    t.stocBox c i = s.stocBox c i := by
  by_cases hc : c' = c
  · subst hc
    have hs' : (s.listener c' i).reader = .away := by
      simp only [State.listener, hcl]
      split
      · exact hs ‹_›
      · rfl
    have ht' : (t.listener c' i).reader = .away := by
      simp only [State.listener, hclients, List.getElem?_modify_eq, hcl, Option.map_eq_map,
        Option.map_some]
      split
      · exact ht ‹_›
      · rfl
    rw [State.stocBox, hserver, htext, stocBox_congr hhalf, State.stocBox]
    simp only [Shm.stocBox, hs', ht', HandlerPc.known_of_away hs', HandlerPc.known_of_away ht']
  · have hlistener : t.listener c i = s.listener c i := by
      simp only [State.listener, hclients, List.getElem?_modify_ne _ _ hc]
    rw [State.stocBox, hlistener, hserver, htext]
    exact stocBox_congr hhalf

/-- A step of a client that keeps its memory and its `msg_handler`. -/
theorem listener_modify (hclients : t.clients = s.clients.modify c' f)
    (hf : ∀ cl, s.clients[c']? = some cl →
      (f cl).shmBuf = cl.shmBuf ∧ (f cl).handler = cl.handler) :
    t.listener c i = s.listener c i := by
  simp only [State.listener, hclients]
  by_cases hc : c' = c
  · subst hc
    rw [List.getElem?_modify_eq]
    cases hcl : s.clients[c']? with
    | none => rfl
    | some cl =>
      obtain ⟨hshmBuf, hhandler⟩ := hf cl hcl
      simp only [Option.map_eq_map, Option.map_some, hshmBuf, hhandler]
  · rw [List.getElem?_modify_ne _ _ hc]

/-- A step of the `msg_handler` of client `c` on the memory it has mapped is a step of the mailbox,
or leaves it alone. -/
theorem stocBox_handler {junk : Text} (hok : Mailbox.Ok HoldsReply (s.stocBox c i))
    (hcl : s.clients[c]? = some cl) (hi : cl.shmBuf = some i)
    (h : HandlerStep s c i junk cl t) :
    t.stocBox c i = s.stocBox c i ∨ Mailbox.Step HoldsReply (s.stocBox c i) (t.stocBox c i) := by
  have heq := stocBox_eq hcl hi
  have hset (g : Shm → Shm) (pc : HandlerPc) : ((s.modifyShm i g).setHandler c pc).stocBox c i =
      (g (s.shm i)).stocBox i s.server s.text pc :=
    (stocBox_setHandler rfl hcl hi).trans
      (congrArg (Shm.stocBox · i s.server s.text pc) (s.shm_modifyShm_self i g))
  cases h with
  | take hpc hstc =>
    rw [hpc] at heq
    rw [hset, heq]
    exact .inr (.take rfl hstc)
  | readComm hpc hcomm =>
    rw [hpc] at heq
    rw [heq, stocBox_setHandler (t := s.setHandler c _) rfl hcl hi]
    exact .inr (.learn (fun e : Command => e.comm = (s.shm i).stoc.comm) rfl fun e he => he.1)
  | quit hpc hcomm =>
    -- the server does not send `disconnect`
    obtain ⟨-, e, -, ⟨hplace, hsent, -⟩, -⟩ := hok.reading (by rw [heq, hpc]; rfl)
    rw [hplace.trans hcomm] at hsent
    obtain hsent | hsent := hsent <;> cases hsent
  | ignore hpc hcomm =>
    obtain ⟨-, e, -, ⟨hplace, hsent, -⟩, -⟩ := hok.reading (by rw [heq, hpc]; rfl)
    rw [hplace] at hsent
    exact absurd hsent (not_or.2 hcomm)
  | @readMsg comm hpc =>
    rw [hpc] at heq
    rw [hset, heq]
    refine .inr (.read (⟨comm, some ((s.shm i).stoc.msg.getD junk)⟩ : Command) _ rfl ?_)
    rintro ⟨comm', text⟩ ⟨-, -, hmsg, htext⟩ hknown
    obtain ⟨text', hmsg⟩ := Option.ne_none_iff_exists'.1 hmsg
    change (s.shm i).stoc.msg = some text' at hmsg
    rw [Command.mk.injEq]
    exact ⟨hknown.symm, by simpa [Shm.stocBox, hmsg] using htext.symm⟩
  | postSrv hpc =>
    rw [hpc] at heq
    rw [hset, heq]
    exact .inr (.answer rfl)

/-- A step of a client that keeps its memory and its `msg_handler` leaves the mailbox alone. -/
theorem stocBox_keep (hserver : t.server = s.server) (htext : t.text = s.text)
    (hhalf : (t.shm i).stocHalf = (s.shm i).stocHalf)
    (hclients : t.clients = s.clients.modify c' f)
    (hf : ∀ cl, s.clients[c']? = some cl →
      (f cl).shmBuf = cl.shmBuf ∧ (f cl).handler = cl.handler) :
    t.stocBox c i = s.stocBox c i := by
  rw [State.stocBox, listener_modify hclients hf, hserver, htext]
  exact stocBox_congr hhalf

end Client

/-! ### Every run -/

/-- The `msg_handler` of the user at `k` has shown a command and is about to post `srv_sem`. -/
def State.answering (s : State) (k : ℕ) : Bool :=
  s.clients.any fun cl => cl.shmBuf = some k ∧ cl.handler = .postSrv

/-- The user to whom the server begins to write a command. -/
def ServerPc.begins : ServerPc → Option ℕ
  | .writeComm _ k => some k
  | _ => none

/-- No wait times out, and the server begins to write a command into a user's memory only when
`srv_sem`, with an answer that is about to be posted, counts all the lists that the registration
branch has posted to the user. -/
def Answered (s : State) : Action → Prop
  | .timeout => False
  | .server _ => ∀ k ∈ s.server.begins,
      (s.shm k).srvSem + (if s.answering k then 1 else 0) = (s.shm k).joins
  | _ => True

instance (s : State) : (a : Action) → Decidable (Answered s a)
  | .timeout => instDecidableFalse
  | .server _ => inferInstanceAs (Decidable (∀ k ∈ s.server.begins,
      (s.shm k).srvSem + (if s.answering k then 1 else 0) = (s.shm k).joins))
  | .connect _ | .client _ _ | .say _ _ | .pressF3 _ | .handler _ _ | .kill _ =>
    instDecidableTrue

theorem answering_eq {s : State} {c i : ℕ} (hsole : s.Sole c i) :
    s.answering i = true ↔ (s.listener c i).reader = .answering := by
  simp only [State.answering, List.any_eq_true, decide_eq_true_eq]
  constructor
  · rintro ⟨cl, hmem, hi, hpc⟩
    obtain ⟨c', hcl⟩ := List.getElem?_of_mem hmem
    obtain rfl := hsole c' cl hcl hi
    rw [listener_eq hcl hi, hpc]
    rfl
  · intro hreader
    cases hcl : s.clients[c]? with
    | none => simp [State.listener, hcl, HandlerPc.reader] at hreader
    | some cl =>
      simp only [State.listener, hcl] at hreader
      split at hreader
      · refine ⟨cl, List.mem_of_getElem? hcl, ‹_›, ?_⟩
        cases hpc : cl.handler <;> rw [hpc] at hreader <;> first | rfl | cases hreader
      · cases hreader

theorem stocBox_step {s t : State} {a : Action} {c i : ℕ} (hok : s.ClientsOk) (h : ChatStep s a t)
    (hsole : s.Sole c i) (hanswered : Answered s a)
    (hbox : Mailbox.Ok HoldsReply (s.stocBox c i)) : Mailbox.Ok HoldsReply (t.stocBox c i) := by
  cases h with
  | server h =>
    refine (stocBox_server h c i fun send hpc => ?_).elim (fun heq => heq ▸ hbox) hbox.step
    -- the server writes only when all replies were read
    refine (hbox.answered_iff ?_).1 ?_
    · change s.server.sender i = .idle
      rw [hpc]
      rfl
    · have hcount := hanswered i (by rw [hpc]; rfl)
      simp only [answering_eq hsole] at hcount
      exact hcount
  | timeout h => exact hanswered.elim
  | connect login =>
    have hlistener : State.listener { s with clients := s.clients ++ [newClient login] } c i =
        s.listener c i := by
      simp only [State.listener]
      rcases lt_trichotomy c s.clients.length with h | rfl | h
      · rw [List.getElem?_append_left h]
      · simp [newClient]
      · rw [List.getElem?_eq_none (by simpa using h), List.getElem?_eq_none h.le]
    rw [State.stocBox, hlistener]
    exact hbox
  | @login c' junk cl t hcl halive h =>
    have heq : t.stocBox c i = s.stocBox c i := by
      cases h with
      | lockUsr hpc | writeName hpc | copyName hpc | postCts hpc | waitStc hpc | readId hpc
      | openShm hpc | postSrv hpc =>
        -- the handler has not been started yet
        have hoff : cl.handler.reader = .away := by
          rw [(hok c' cl hcl).off (.inl (by rw [hpc]; rfl))]
          rfl
        exact stocBox_modify rfl rfl rfl rfl hcl (fun _ => hoff) fun _ => hoff
    exact heq ▸ hbox
  | @main c' junk i' cl t hcl halive hi hpc h =>
    obtain ⟨m, f, rfl, hhalf, -, hmove⟩ := mainLoop_frame h
    have hmove := hmove cl rfl
    have hhalf := State.update_shm_congr Shm.stocHalf s.shm i i' hhalf
    have heq : State.stocBox { s with
        shm := Function.update s.shm i' m
        clients := s.clients.modify c' f } c i = s.stocBox c i := by
      by_cases hspawn : cl.pc = .spawn
      · refine stocBox_modify rfl rfl hhalf rfl hcl (fun _ => ?_) fun _ => ?_
        · rw [(hok c' cl hcl).off (.inr hspawn)]
          rfl
        · rw [hmove.handler, if_pos hspawn]
          rfl
      · refine stocBox_keep rfl rfl hhalf rfl fun cl' hcl' => ?_
        obtain rfl := Option.some.inj (hcl.symm.trans hcl')
        exact ⟨hmove.shmBuf, hmove.handler.trans (if_neg hspawn)⟩
    exact heq ▸ hbox
  | @input _ c' cl pc hcl halive hmain hinput =>
    have heq : (s.setClient c' pc).stocBox c i = s.stocBox c i :=
      stocBox_keep rfl rfl rfl rfl fun _ _ => ⟨rfl, rfl⟩
    exact heq ▸ hbox
  | @handler c' i' junk cl t hcl halive hi h =>
    -- only one client has mapped the memory
    by_cases hi' : i' = i
    · subst hi'
      obtain rfl := hsole c' cl hcl hi
      exact (stocBox_handler hbox hcl hi h).elim (fun heq => heq ▸ hbox) hbox.step
    · obtain ⟨m, f, rfl, hf⟩ := h.frame
      have hother : cl.shmBuf ≠ some i := hi ▸ fun h => hi' (Option.some.inj h)
      have heq : State.stocBox { s with
          shm := Function.update s.shm i' m
          clients := s.clients.modify c' f } c i = s.stocBox c i :=
        stocBox_modify rfl rfl (congrArg Shm.stocHalf (Function.update_of_ne (Ne.symm hi') _ _)) rfl
          hcl (fun h => absurd h hother) fun h => absurd ((hf cl).symm.trans h) hother
      exact heq ▸ hbox
  | kill c' =>
    have heq : (s.modifyClient c' fun cl => { cl with alive := false }).stocBox c i =
        s.stocBox c i :=
      stocBox_keep rfl rfl rfl rfl fun _ _ => ⟨rfl, rfl⟩
    exact heq ▸ hbox

/-- The commands shown are those written, in order, up to one and with their texts: none is left
to read when the server writes, and a `msg_handler` reads a command only as it has been written. -/
structure State.RepliesRead (s : State) (i : ℕ) : Prop where
  in_order : (s.shm i).shown <+: (s.shm i).written
  at_most_one : (s.shm i).written.length ≤ (s.shm i).shown.length + 1
  before_next : s.server.sender i = .writing → (s.shm i).shown = (s.shm i).written
  sole : ∃ c, s.Sole c i
  as_written (c : ℕ) (cl : Client) : s.clients[c]? = some cl → cl.shmBuf = some i →
    cl.handler.reader = .reading → s.server.sender i ≠ .writing ∧
    ∃ e, (s.shm i).written = (s.shm i).shown ++ [e] ∧ HoldsReply (s.shm i).stoc e

theorem stocBox_ok {s : State} (hs : sharedChat.ReachableUnder Answered s) {c i : ℕ}
    (hsole : s.Sole c i) : Mailbox.Ok HoldsReply (s.stocBox c i) := by
  revert hsole
  refine hs.invariant (I := fun s => s.Sole c i → Mailbox.Ok HoldsReply (s.stocBox c i))
    (fun s hinit _ => ?_) fun s a t hs ih hanswered h hsole => ?_
  · obtain rfl := hinit
    exact ⟨rfl, Nat.zero_le _, nofun, rfl⟩
  · have hok := clients_ok hs.reachable
    have hstep := step_chatStep h
    have hsole' := sole_of_step hok hstep hsole
    exact stocBox_step hok hstep hsole' hanswered (ih hsole')

theorem exists_sole {s : State} (hs : sharedChat.ReachableUnder Timely s) (i : ℕ) :
    ∃ c, s.Sole c i := by
  by_cases h : ∃ (c : ℕ) (cl : Client), s.clients[c]? = some cl ∧ cl.shmBuf = some i
  · obtain ⟨c, cl, hcl, hi⟩ := h
    exact ⟨c, sole_of_timely hs hcl hi⟩
  · exact ⟨0, fun c cl hcl hi => absurd ⟨c, cl, hcl, hi⟩ h⟩

/-- The server removes a new user only after a time-out. -/
theorem ServerStep.not_unlink {s t : State} {junk : Text} (h : ServerStep s junk t) :
    t.server ≠ .unlink := by
  cases h with
  | move _ hmoves =>
    cases hmoves with
    | leave send => cases send <;> nofun
    | _ => nofun
  | @resume send => cases send <;> nofun
  | plain _ hnext => split at hnext <;> first | (subst hnext; nofun) | exact hnext.elim
  | drop _ hnext => split at hnext <;> subst hnext <;> nofun
  | _ => nofun

theorem not_unlink {s : State} (hs : sharedChat.ReachableUnder Answered s) :
    s.server ≠ .unlink := by
  refine hs.invariant (I := fun s => s.server ≠ .unlink) (fun s hinit => ?_)
    fun s a t _ ih hanswered h => ?_
  · obtain rfl := hinit
    nofun
  · cases step_chatStep h with
    | server h => exact h.not_unlink
    | timeout => exact hanswered.elim
    | connect | input | kill => exact ih
    | login _ _ h => cases h <;> exact ih
    | main _ _ _ _ h =>
      obtain ⟨m, f, rfl, -⟩ := mainLoop_frame h
      exact ih
    | handler _ _ _ h =>
      obtain ⟨m, f, rfl, -⟩ := h.frame
      exact ih

/-- **Every command is read once, before the next one is written**, in every run in which no wait
times out and the server writes only to users who have read the lists it did not wait for. -/
theorem replies_read {s : State} (hs : sharedChat.ReachableUnder Answered s) (i : ℕ) :
    s.RepliesRead i := by
  have htimely : sharedChat.ReachableUnder Timely s := hs.mono_of_reachable fun s a hs _ => by
    cases a with
    | server => exact fun hpc => absurd hpc (not_unlink hs)
    | _ => trivial
  obtain ⟨c, hsole⟩ := exists_sole htimely i
  have hok := stocBox_ok hs hsole
  refine ⟨hok.in_order.1, hok.in_order.2, fun h => (hok.read_eq h).symm, ⟨c, hsole⟩, ?_⟩
  intro c' cl hcl hi hreading
  obtain rfl := hsole c' cl hcl hi
  have hreader : (s.stocBox c' i).reader = .reading := (stocBox_eq hcl hi).symm ▸ hreading
  obtain ⟨hwriter, e, hwritten, hholds, -⟩ := hok.reading hreader
  exact ⟨hwriter, e, hwritten, hholds⟩

/-- The condition is exact: where it fails for the first time, the server writes over a command that
has not been read. -/
theorem answered_of_read {s t : State} (hs : sharedChat.ReachableUnder Answered s) {send : Send}
    {k : ℕ} {junk : Text} (hpc : s.server = .writeComm send k)
    (h : thirdTaskServer s junk = some t) (hread : t.RepliesRead k) :
    (s.shm k).srvSem + (if s.answering k then 1 else 0) = (s.shm k).joins := by
  obtain ⟨c, hsole⟩ := (replies_read hs k).sole
  have hok := stocBox_ok hs hsole
  have hsender : s.server.sender k = .idle := by rw [hpc]; rfl
  have hall : (s.shm k).shown = (s.shm k).written := by
    simp only [thirdTaskServer, hpc] at h
    obtain rfl := Option.some.inj h
    simpa using hread.before_next (if_pos rfl)
  have hcount := (hok.answered_iff hsender).2 (hok.clear_of_read hall.symm)
  simp only [answering_eq hsole]
  exact hcount

/-- The `msg_handler` of client `c` takes, reads and answers a command. -/
def reads (c : ℕ) : List Action := List.replicate 4 (.handler c [])

/-- A client registers, reads the list, says something and reads the server's message. -/
def oneHeard : State := (sharedChat.runUnder Answered initial
  (Action.connect ['a'] :: requested 0 ++ adopted 0 ++ serverSteps 8 ++ reads 0 ++
    Action.say 0 ['h'] :: clientSteps 0 4 ++ serverSteps 9 ++ reads 0)).get (by decide +kernel)

theorem replies_read_oneHeard : oneHeard.RepliesRead 0 :=
  replies_read (Machine.reachableUnder_of_run rfl (Option.some_get _).symm) 0

/-- No wait times out. -/
def NoTimeout (_ : State) (a : Action) : Prop := a ≠ .timeout

instance (s : State) (a : Action) : Decidable (NoTimeout s a) :=
  inferInstanceAs (Decidable (a ≠ .timeout))

/-- A client says something before its `msg_handler` looks at the list, which the server
overwrites; the `msg_handler` then shows the message twice. -/
def overwritten : State := (sharedChat.runUnder NoTimeout initial
  (Action.connect ['a'] :: requested 0 ++ adopted 0 ++ serverSteps 8 ++
    Action.say 0 ['h'] :: clientSteps 0 4 ++ serverSteps 9 ++ reads 0 ++ reads 0)).get
  (by decide +kernel)

/-- The list is never read, and the message twice. -/
theorem list_unread : ¬ ∀ s, sharedChat.ReachableUnder NoTimeout s → ∀ i, s.RepliesRead i := by
  intro h
  have hread := h overwritten (Machine.reachableUnder_of_run rfl (Option.some_get _).symm) 0
  exact absurd hread.in_order (by decide +kernel)

end EmbeddedC.SharedChat
