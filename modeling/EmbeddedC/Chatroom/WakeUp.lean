import EmbeddedC.Chatroom.Login

/-!
# The chatroom: notifications

The notification of a client's queue fires once, when a message arrives in the empty queue.
After it has fired, a `handle_msg` thread empties the queue and registers it again.

* `Chan.Quiet`: a registered notification means that nothing waits;
* `LostWakeup`: messages wait that nobody will show;
* `Drained`: no message arrives between the last receive and the registration;
* `no_lost_wakeup`: then no wake-up is lost.
-/

namespace EmbeddedC.Chatroom

/-- Nothing waits while the notification is registered. -/
def Chan.Quiet (c : Chan) : Prop := c.armed = true → c.stoc = []

theorem Chan.quiet_kept : Chan.ServerKept Chan.Quiet where
  fresh := fun _ _ => rfl
  send := fun c m h => by
    unfold Chan.sendStoc
    split
    · exact h
    · split
      · exact fun harmed => by cases harmed
      · -- the notification is registered and not used up: something waited
        rename_i hwaits
        intro harmed
        simp only at harmed
        simp [harmed, h harmed] at hwaits
  recv := fun c m c' h hm => by
    obtain ⟨q, -, rfl⟩ := Chan.recvCtos_eq_some hm
    exact h
  link := fun c b h => h

/-- The main thread reaches its main loop when its queue is empty. -/
theorem session_quiet {login : Text} {c c' : Chan} {pc : SessionPc}
    (h : session login c pc = some (c', .main)) : c'.Quiet := by
  cases pc with
  | openRcv | openSnd =>
    simp only [session] at h
    split at h <;> cases h
  | notify =>
    simp only [session] at h
    split at h <;> cases h
  | setName | main | leaving | exited => cases h
  | drain =>
    simp only [session] at h
    split at h
    · cases h
      exact fun _ => Chan.recvStoc_eq_none ‹_›
    · split at h <;> cases h

/-- A `handle_msg` thread that registers the notification of an empty queue. -/
theorem handleMsg_quiet {c c' : Chan} {j : ℕ} {exits : Bool} (hc : c.Quiet)
    (hdrained : c.handlers[j]? = some .notify → c.stoc = [])
    (h : handleMsg c j = some (c', exits)) : c'.Quiet := by
  unfold handleMsg at h
  split at h
  · cases h
  · split at h
    · cases h
      exact hc
    · rename_i m c₁ hm
      obtain ⟨q, hq, rfl⟩ := Chan.recvStoc_eq_some hm
      have hquiet : c.armed = true → q = [] := fun harmed => by
        rw [hc harmed] at hq
        cases hq
      split at h <;> cases h <;> exact hquiet
  · have hempty := hdrained ‹_›
    dsimp only at h
    split at h <;> cases h <;> exact fun _ => hempty

/-! ### Clients in their main loop -/

/-- Nothing waits for a client in its main loop whose notification is registered. -/
def Awake (s : State) : Prop :=
  ∀ (c : ℕ) (login : Text) (k : ℕ), s.clients[c]? = some ⟨login, .session k .main⟩ →
    (s.kernel.chan k).Quiet

/-- Messages wait for client `c`, which is in its main loop; no `handle_msg` thread is there, and
none will be, because the notification is registered and the queue is not empty. -/
def LostWakeup (s : State) (c : ℕ) : Prop :=
  ∃ (login : Text) (k : ℕ), s.clients[c]? = some ⟨login, .session k .main⟩ ∧
    (s.kernel.chan k).stoc ≠ [] ∧ (s.kernel.chan k).handlers = [] ∧
    (s.kernel.chan k).armed = true

/-- The id of a client that is in its main loop. -/
def Client.mainId (cl : Client) : Option ℕ :=
  match cl.pc with
  | .session k .main => some k
  | _ => none

/-- When a `handle_msg` thread registers the notification again while the main thread is in its
main loop, the queue is empty. -/
def Drained (s : State) : Action → Prop
  | .handler c j => ∀ cl ∈ s.clients[c]?, ∀ k ∈ cl.mainId,
      (s.kernel.chan k).handlers[j]? = some .notify → (s.kernel.chan k).stoc = []
  | _ => True

instance (s : State) : (a : Action) → Decidable (Drained s a)
  | .handler c _ => inferInstanceAs (Decidable (∀ cl ∈ s.clients[c]?, ∀ k ∈ cl.mainId, _ → _))
  | .server _ | .serverExit | .connect _ | .client _ | .say .. | .clientExit _ =>
    instDecidableTrue

/-- A step of client `c`, which touches the queues of its own id only. -/
theorem Awake.client {s t : State} {c : ℕ} {cl : Client} {pc : ClientPc} (h : Awake s)
    (hs : chatroom.Reachable s) (hc : s.clients[c]? = some cl)
    (hclients : t.clients = s.clients.set c { cl with pc := pc })
    (hothers : ∀ k, cl.id ≠ some k → t.kernel.chan k = s.kernel.chan k)
    (hown : ∀ k, pc = .session k .main → (t.kernel.chan k).Quiet) : Awake t := by
  intro d login k hd
  rw [hclients] at hd
  by_cases hcd : c = d
  · subst hcd
    rw [List.getElem?_set_self', hc] at hd
    cases hd
    exact hown k rfl
  · rw [List.getElem?_set_ne hcd] at hd
    rw [hothers k fun hid => hcd ?_]
    · exact h d login k hd
    · exact idOf_unique hs (k := k) (by rw [idOf, hc]; exact hid) (by rw [idOf, hd]; rfl)

theorem loginClient_not_main {K : Kernel} {pc : ClientPc} {p : Kernel × ClientPc}
    (h : loginClient K pc = some p) (k : ℕ) : p.2 ≠ .session k .main := by
  cases pc with
  | openLogin =>
    simp only [loginClient] at h
    split at h <;> cases h
    simp
  | request | resend =>
    obtain ⟨q, -, rfl⟩ := Option.map_eq_some_iff.1 h
    simp
  | receive =>
    obtain ⟨⟨m, q⟩, -, rfl⟩ := Option.map_eq_some_iff.1 h
    dsimp only
    split
    · simp
    · split <;> simp
  | gone | session => cases h

theorem SessionPc.exit_ne_main {pc pc' : SessionPc} (h : pc.exit = some pc') : pc' ≠ .main := by
  cases pc <;> cases h <;> simp

/-- A `handle_msg` thread after whose call the main thread is in its main loop has not called
`exit`. -/
theorem SessionPc.main_of_exit {pc : SessionPc} {exits : Bool}
    (h : (if exits then pc.exit.getD pc else pc) = .main) : pc = .main := by
  cases exits with
  | false => exact h
  | true => cases pc <;> cases h

/-- A step of client `c` on the queues of its id `k`. -/
theorem Awake.session {s : State} {c k : ℕ} {cl : Client} {pc pc' : SessionPc} {ch : Chan}
    (h : Awake s) (hs : chatroom.Reachable s) (hc : s.clients[c]? = some cl)
    (hpc : cl.pc = .session k pc) (hown : pc' = .main → ch.Quiet) :
    Awake ({ s with kernel := s.kernel.modify k fun _ => ch }.setClient c cl (.session k pc')) := by
  refine h.client hs hc rfl (fun j hj => ?_) fun j hj => ?_
  · have hjk : j ≠ k := fun hjk => hj (by simp [Client.id, hpc, hjk])
    exact Kernel.modify_chan_of_ne s.kernel (fun _ => ch) hjk
  · obtain ⟨rfl, hmain⟩ := ClientPc.session.inj hj
    simp only [State.setClient, Kernel.modify_chan_self]
    exact hown hmain

theorem Awake.clientStep {s t : State} {a : Action} (h : Awake s) (hs : chatroom.Reachable s)
    (hdrained : Drained s a) (hstep : ClientStep s a t) : Awake t := by
  cases hstep with
  | connect =>
    intro c login k hc
    obtain hc | ⟨-, heq⟩ := List.getElem?_concat_eq_some.1 hc
    · exact h c login k hc
    · cases heq
  | login hc hp =>
    exact h.client hs hc rfl (fun j _ => congrFun (loginClient_chan hp) j) fun j hj =>
      absurd hj (loginClient_not_main hp j)
  | session hc hpc hch =>
    refine h.session hs hc hpc fun hmain => ?_
    subst hmain
    exact session_quiet hch
  | @say _ k₀ _ text =>
    intro d login k hd
    refine Kernel.modify_forall (K := s.kernel) (k := k₀)
      (f := (·.sendCtos ⟨t3UserPrio, text, .direct⟩))
      (P := fun j ch => (s.kernel.chan j).Quiet → ch.Quiet)
      (fun _ => id) (fun hq => ?_) k (h d login k hd)
    obtain ⟨-, hsend⟩ | ⟨-, hsend⟩ := (s.kernel.chan k₀).sendCtos_cases
      ⟨t3UserPrio, text, .direct⟩ <;> rw [hsend] <;> exact hq
  | exit hc hpc =>
    refine h.client hs hc rfl (fun _ _ => rfl) fun k hk => ?_
    subst hk
    unfold ClientPc.exit at hpc
    split at hpc
    all_goals try cases hpc
    obtain ⟨pc', hexit, heq⟩ := Option.map_eq_some_iff.1 hpc
    cases heq
    exact absurd rfl (SessionPc.exit_ne_main hexit)
  | @handler c j k cl pc ch exits hc hpc hch =>
    refine h.session hs hc hpc fun hmain => ?_
    obtain rfl := SessionPc.main_of_exit hmain
    obtain ⟨login, pc₀⟩ := cl
    obtain rfl : pc₀ = .session k .main := hpc
    exact handleMsg_quiet (h c login k hc) (hdrained _ hc k rfl) hch

theorem Awake.step {s t : State} {a : Action} (h : Awake s) (hs : chatroom.Reachable s)
    (hdrained : Drained s a) (hstep : chatroom.step s a = some t) : Awake t := by
  obtain ⟨junk, rfl, hserver, hclients⟩ | ⟨rfl, rfl⟩ | hclient := step_cases hstep
  · intro c login k hc
    exact Chan.quiet_kept.serverStep hserver k (h c login k (hclients ▸ hc))
  · exact h
  · exact h.clientStep hs hdrained hclient

theorem awake_of_reachable {s : State} (h : chatroom.ReachableUnder Drained s) : Awake s := by
  refine h.invariant (I := Awake) (fun s hs => ?_) fun s a t hs hawake hdrained hstep =>
    hawake.step hs.reachable hdrained hstep
  obtain ⟨index, rfl⟩ := hs
  intro c login k hc
  simp [initial] at hc

/-- **Notifications.** No wake-up is lost in a run in which every `handle_msg` thread registers
the notification of an empty queue. -/
theorem no_lost_wakeup {s : State} (h : chatroom.ReachableUnder Drained s) (c : ℕ) :
    ¬ LostWakeup s c := by
  rintro ⟨login, k, hc, hwaits, -, harmed⟩
  exact hwaits (awake_of_reachable h c login k hc harmed)

/-- A client logs in and says something, and a `handle_msg` thread shows what it is sent. -/
def notified : List Action := firstChat ++ List.replicate 3 (.handler 0 0)

def rearmed : State :=
  (chatroom.runUnder Drained (initial 0) (notified ++ [.handler 0 0])).get (by decide +kernel)

theorem no_lost_wakeup_rearmed : ¬ LostWakeup rearmed 0 :=
  no_lost_wakeup (Machine.reachableUnder_of_run ⟨0, rfl⟩ (Option.some_get _).symm) 0

/-- Another message arrives before the thread registers the notification. -/
def asleep : State :=
  (chatroom.run (initial 0) (notified ++ [.say 0 "bye".toList] ++ serverSteps 4 ++
    [.handler 0 0])).get (by decide +kernel)

/-- The client does not show it. -/
theorem wakeup_lost : ¬ ∀ s, chatroom.Reachable s → ∀ c, ¬ LostWakeup s c := by
  intro h
  refine h asleep (Machine.reachable_of_run ⟨0, rfl⟩ (Option.some_get _).symm) 0
    ⟨"ann".toList, 1, ?_, ?_, ?_, ?_⟩ <;> decide +kernel

end EmbeddedC.Chatroom
