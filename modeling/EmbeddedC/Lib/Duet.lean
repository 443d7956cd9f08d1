import EmbeddedC.Lib.Progress

/-!
# Two processes that call a kernel

Each of two processes makes the calls of a script, one after the other.  A call reads and changes
what the processes share; it is blocked, is over, or has to be made again, as the `read` of a loop.

* `Duet`, `Duet.machine`: the scripts and what the calls do; the processes, interleaved;
* `Commute`: two calls of the two processes, both enabled, in either order;
* `left_enabled`, `right_enabled`: a process that is not blocked can go on;
* `inevitable_of_commute`: if calls that are both enabled commute, one run that ends stands for all;
* `inevitable_of_weight`, `inevitable_ended`: if some call is enabled until the end, both scripts
  are played to their ends;
* `once`: calls that are never made again;
* `leads_left`, `leads_right`, `leads_left_again`, `leads_right_again`: single calls of such a run;
* `play`, `leads_left_play`, `leads_right_play`: calls of one process in succession.
-/

/-- The two processes. -/
inductive Duet.Side
  | left
  | right
  deriving DecidableEq

/-- `exec` says whether the call is over, and what it leaves; `none` where it is blocked. -/
structure Duet (ι κ : Type) where
  left : List ι
  right : List ι
  exec : Duet.Side → ι → κ → Option (Bool × κ)

namespace Duet

/-- The number of calls that are over, of each process, and what they share. -/
structure State (κ : Type) where
  left : ℕ
  right : ℕ
  store : κ

variable {ι κ : Type} {D : Duet ι κ} {s t u : State κ} {k k' k₁ k₂ : κ} {c d : ι} {n m : ℕ}
  {I : State κ → Prop}

def step (D : Duet ι κ) (s : State κ) : Side → Option (State κ)
  | .left => (D.left[s.left]?).bind fun c => (D.exec .left c s.store).map fun r =>
      ⟨s.left + r.1.toNat, s.right, r.2⟩
  | .right => (D.right[s.right]?).bind fun c => (D.exec .right c s.store).map fun r =>
      ⟨s.left, s.right + r.1.toNat, r.2⟩

/-- The two processes, interleaved; they begin with `k`. -/
def machine (D : Duet ι κ) (k : κ) : Machine (State κ) Side where
  init s := s = ⟨0, 0, k⟩
  step := D.step

/-- Both scripts have been played. -/
def Ended (D : Duet ι κ) (s : State κ) : Prop := s.left = D.left.length ∧ s.right = D.right.length

/-- What happens in one step, by cases. -/
inductive Call (D : Duet ι κ) (s : State κ) : State κ → Prop
  | left {c : ι} {done : Bool} {k : κ} (hc : D.left[s.left]? = some c)
    (hexec : D.exec .left c s.store = some (done, k)) : Call D s ⟨s.left + done.toNat, s.right, k⟩
  | right {c : ι} {done : Bool} {k : κ} (hc : D.right[s.right]? = some c)
    (hexec : D.exec .right c s.store = some (done, k)) :
    Call D s ⟨s.left, s.right + done.toNat, k⟩

theorem call_iff {k₀ : κ} : Call D s t ↔ ∃ a, (D.machine k₀).step s a = some t := by
  constructor
  · rintro (⟨hc, hexec⟩ | ⟨hc, hexec⟩)
    · refine ⟨.left, ?_⟩
      change D.step s .left = _
      rw [step, hc, Option.bind_some, hexec]
      rfl
    · refine ⟨.right, ?_⟩
      change D.step s .right = _
      rw [step, hc, Option.bind_some, hexec]
      rfl
  · rintro ⟨a, h⟩
    change D.step s a = _ at h
    cases a with
    | left =>
      obtain ⟨c, hc, h⟩ := Option.bind_eq_some_iff.1 h
      obtain ⟨⟨done, k⟩, hexec, rfl⟩ := Option.map_eq_some_iff.1 h
      exact .left hc hexec
    | right =>
      obtain ⟨c, hc, h⟩ := Option.bind_eq_some_iff.1 h
      obtain ⟨⟨done, k⟩, hexec, rfl⟩ := Option.map_eq_some_iff.1 h
      exact .right hc hexec

/-- A call can be made when it is not blocked. -/
theorem left_enabled (hc : D.left[n]? = some c) (h : (D.exec .left c k).isSome) :
    ∃ t, Call D ⟨n, m, k⟩ t := by
  obtain ⟨⟨done, k'⟩, hexec⟩ := Option.isSome_iff_exists.1 h
  exact ⟨_, .left hc hexec⟩

theorem right_enabled (hc : D.right[m]? = some c) (h : (D.exec .right c k).isSome) :
    ∃ t, Call D ⟨n, m, k⟩ t := by
  obtain ⟨⟨done, k'⟩, hexec⟩ := Option.isSome_iff_exists.1 h
  exact ⟨_, .right hc hexec⟩

/-- A call that is to be made again has changed something. -/
def Productive (D : Duet ι κ) : Prop :=
  ∀ a c k k', D.exec a c k = some (false, k') → k' ≠ k

theorem Call.moves {k₀ : κ} (hprod : D.Productive) (h : Call D s t) : (D.machine k₀).Moves s t := by
  refine ⟨?_, call_iff.1 h⟩
  obtain ⟨left, right, k⟩ := s
  rintro heq
  cases h with
  | @left c done k' _ hexec =>
    cases done with
    | false => exact hprod _ _ _ _ hexec (congrArg State.store heq)
    | true => exact absurd (congrArg State.left heq) (Nat.succ_ne_self left)
  | @right c done k' _ hexec =>
    cases done with
    | false => exact hprod _ _ _ _ hexec (congrArg State.store heq)
    | true => exact absurd (congrArg State.right heq) (Nat.succ_ne_self right)

/-- If both calls are enabled, either order is possible, and gives the same. -/
def Commute (D : Duet ι κ) (c d : ι) (k : κ) : Prop :=
  ∀ r₁ r₂, D.exec .left c k = some r₁ → D.exec .right d k = some r₂ →
    ∃ k', D.exec .right d r₁.2 = some (r₂.1, k') ∧ D.exec .left c r₂.2 = some (r₁.1, k')

/-- The calls that are enabled in `s` commute. -/
def Commutes (D : Duet ι κ) (s : State κ) : Prop :=
  ∀ c d, D.left[s.left]? = some c → D.right[s.right]? = some d → D.Commute c d s.store

theorem diamond {k₀ : κ} (hprod : D.Productive) (hcomm : ∀ s, I s → D.Commutes s) :
    (D.machine k₀).Diamond I := by
  rintro s t u hs ⟨-, ht⟩ ⟨-, hu⟩
  have hboth {c d : ι} {r₁ r₂ : Bool × κ} (hc : D.left[s.left]? = some c)
      (hd : D.right[s.right]? = some d) (h₁ : D.exec .left c s.store = some r₁)
      (h₂ : D.exec .right d s.store = some r₂) :
      ∃ v, (D.machine k₀).Moves ⟨s.left + r₁.1.toNat, s.right, r₁.2⟩ v ∧
        (D.machine k₀).Moves ⟨s.left, s.right + r₂.1.toNat, r₂.2⟩ v := by
    obtain ⟨k', hd', hc'⟩ := hcomm s hs c d hc hd r₁ r₂ h₁ h₂
    exact ⟨⟨s.left + r₁.1.toNat, s.right + r₂.1.toNat, k'⟩,
      (Call.right (s := ⟨_, s.right, r₁.2⟩) hd hd').moves hprod,
      (Call.left (s := ⟨s.left, _, r₂.2⟩) hc hc').moves hprod⟩
  rcases call_iff.2 ht with ⟨hc, h₁⟩ | ⟨hc, h₁⟩ <;> rcases call_iff.2 hu with ⟨hd, h₂⟩ | ⟨hd, h₂⟩
  · obtain rfl := Option.some.inj (hc.symm.trans hd)
    obtain ⟨rfl, rfl⟩ := Prod.mk.inj (Option.some.inj (h₁.symm.trans h₂))
    exact .inl rfl
  · exact .inr (hboth hc hd h₁ h₂)
  · obtain ⟨v, hv, hv'⟩ := hboth hd hc h₂ h₁
    exact .inr ⟨v, hv', hv⟩
  · obtain rfl := Option.some.inj (hc.symm.trans hd)
    obtain ⟨rfl, rfl⟩ := Prod.mk.inj (Option.some.inj (h₁.symm.trans h₂))
    exact .inl rfl

/-- Some run leads from `s` to `t`. -/
def Leads (D : Duet ι κ) (s t : State κ) : Prop := ∀ k₀, ∃ n, (D.machine k₀).Changes n s t

theorem Leads.refl (D : Duet ι κ) (s : State κ) : D.Leads s s := fun _ => ⟨0, .zero⟩

theorem Leads.trans (h : D.Leads s t) (h' : D.Leads t u) : D.Leads s u := fun k₀ => by
  obtain ⟨n, hn⟩ := h k₀
  obtain ⟨m, hm⟩ := h' k₀
  exact ⟨n + m, hn.trans hm⟩

theorem Leads.path (h : D.Leads s t) (k₀ : κ) : (D.machine k₀).Path Machine.anyStep s t := by
  obtain ⟨_, hn⟩ := h k₀
  exact hn.path

theorem Call.leads (hprod : D.Productive) (h : Call D s t) : D.Leads s t :=
  fun _ => ⟨1, .succ (h.moves hprod) .zero⟩

/-- **One run stands for all**, if calls that are both enabled commute. -/
theorem inevitable_of_commute (hprod : D.Productive) (hinit : I ⟨0, 0, k⟩)
    (hcall : ∀ s t, I s → Call D s t → I t) (hcomm : ∀ s, I s → D.Commutes s)
    (hleads : D.Leads ⟨0, 0, k⟩ t) (hrest : (D.machine k).Rests t) :
    (D.machine k).Inevitable (fun u => u = t) ⟨0, 0, k⟩ := by
  obtain ⟨n, hn⟩ := hleads k
  exact Machine.inevitable_of_diamond (diamond hprod hcomm)
    (fun s t hs hmove => hcall s t hs (call_iff.2 hmove.2)) hinit hn hrest

/-- There is no call after the last one. -/
theorem Ended.rests {k₀ : κ} (h : D.Ended s) : (D.machine k₀).Rests s := by
  rintro t ⟨-, hstep⟩
  rcases call_iff.2 hstep with ⟨hc, -⟩ | ⟨hc, -⟩
  · rw [h.1, List.getElem?_length] at hc
    cases hc
  · rw [h.2, List.getElem?_length] at hc
    cases hc

/-- Every call is over at once. -/
def Single (D : Duet ι κ) : Prop := ∀ a c k r, D.exec a c k = some r → r.1 = true

theorem Single.productive (h : D.Single) : D.Productive := fun a c k k' hexec => by
  cases h a c k (false, k') hexec

theorem Single.lt (hsingle : D.Single) (h : Call D s t) :
    D.left.length - t.left + (D.right.length - t.right) <
      D.left.length - s.left + (D.right.length - s.right) := by
  cases h with
  | left hc hexec =>
    have hlt := (List.getElem?_eq_some_iff.1 hc).1
    obtain rfl := hsingle _ _ _ _ hexec
    simp only [Bool.toNat_true]
    omega
  | right hc hexec =>
    have hlt := (List.getElem?_eq_some_iff.1 hc).1
    obtain rfl := hsingle _ _ _ _ hexec
    simp only [Bool.toNat_true]
    omega

/-- No process has made more calls than there are. -/
def Within (D : Duet ι κ) (s : State κ) : Prop :=
  s.left ≤ D.left.length ∧ s.right ≤ D.right.length

theorem Call.within (hs : D.Within s) (h : Call D s t) : D.Within t := by
  have hle (done : Bool) : done.toNat ≤ 1 := Bool.toNat_le done
  cases h with
  | @left c done k hc hexec =>
    have hlt := (List.getElem?_eq_some_iff.1 hc).1
    exact ⟨(Nat.add_le_add_left (hle done) _).trans hlt, hs.2⟩
  | @right c done k hc hexec =>
    have hlt := (List.getElem?_eq_some_iff.1 hc).1
    exact ⟨hs.1, (Nat.add_le_add_left (hle done) _).trans hlt⟩

/-- **Progress.**  Some call is enabled until `P` holds, and each makes `weight` smaller. -/
theorem inevitable_of_weight {P : State κ → Prop} (weight : State κ → ℕ) (hs : I s)
    (hcall : ∀ s t, I s → Call D s t → I t ∧ weight t < weight s)
    (hprogress : ∀ s, I s → ¬ P s → ∃ t, Call D s t) (k₀ : κ) :
    (D.machine k₀).Inevitable P s := by
  refine Machine.inevitable_of_measure (I := I) weight (fun s hs hP => ?_) (fun s t hs hmove => ?_)
    hs
  · obtain ⟨t, ht⟩ := hprogress s hs hP
    refine ⟨t, ?_, call_iff.1 ht⟩
    rintro rfl
    exact absurd (hcall t t hs ht).2 (lt_irrefl _)
  · exact hcall s t hs (call_iff.2 hmove.2)

/-- **Both scripts are played**, if some call is enabled until then. -/
theorem inevitable_ended (hsingle : D.Single) (hinit : I ⟨0, 0, k⟩)
    (hcall : ∀ s t, I s → Call D s t → I t)
    (hprogress : ∀ s, I s → D.Within s → ¬ D.Ended s → ∃ t, Call D s t) :
    (D.machine k).Inevitable (fun s => I s ∧ D.Ended s) ⟨0, 0, k⟩ := by
  refine inevitable_of_weight (I := fun s => I s ∧ D.Within s)
    (fun s => D.left.length - s.left + (D.right.length - s.right))
    ⟨hinit, Nat.zero_le _, Nat.zero_le _⟩ (fun s t hs ht => ?_) (fun s hs hend => ?_) k
  · exact ⟨⟨hcall s t hs.1 ht, ht.within hs.2⟩, hsingle.lt ht⟩
  · exact hprogress s hs.1 hs.2 fun h => hend ⟨hs.1, h⟩

/-! ### Calls that are never made again -/

/-- `perform` says what a call leaves; `none` where it is blocked. -/
def once (left right : List ι) (perform : Side → ι → κ → Option κ) : Duet ι κ :=
  ⟨left, right, fun a c k => (perform a c k).map (true, ·)⟩

section Once

variable {left right : List ι} {perform : Side → ι → κ → Option κ}

theorem once_single : (once left right perform).Single := fun _ _ _ _ h => by
  obtain ⟨_, -, rfl⟩ := Option.map_eq_some_iff.1 h
  rfl

/-- What happens in one step, by cases. -/
theorem Call.of_once (h : Call (once left right perform) s t) :
    (∃ c k', left[s.left]? = some c ∧ perform .left c s.store = some k' ∧
      t = ⟨s.left + 1, s.right, k'⟩) ∨
    ∃ c k', right[s.right]? = some c ∧ perform .right c s.store = some k' ∧
      t = ⟨s.left, s.right + 1, k'⟩ := by
  cases h with
  | left hc hexec =>
    obtain ⟨k', hk, heq⟩ := Option.map_eq_some_iff.1 hexec
    obtain ⟨rfl, rfl⟩ := Prod.mk.inj heq
    exact .inl ⟨_, k', hc, hk, rfl⟩
  | right hc hexec =>
    obtain ⟨k', hk, heq⟩ := Option.map_eq_some_iff.1 hexec
    obtain ⟨rfl, rfl⟩ := Prod.mk.inj heq
    exact .inr ⟨_, k', hc, hk, rfl⟩

theorem exists_call_left (hc : left[n]? = some c) (h : (perform .left c k).isSome) :
    ∃ t, Call (once left right perform) ⟨n, m, k⟩ t :=
  left_enabled hc (by simpa [once] using h)

theorem exists_call_right (hc : right[m]? = some c) (h : (perform .right c k).isSome) :
    ∃ t, Call (once left right perform) ⟨n, m, k⟩ t :=
  right_enabled hc (by simpa [once] using h)

end Once

/-! ### Single calls -/

theorem leads_left (hprod : D.Productive) (hc : D.left[n]? = some c)
    (hexec : D.exec .left c k = some (true, k')) : D.Leads ⟨n, m, k⟩ ⟨n + 1, m, k'⟩ :=
  (Call.left (s := ⟨n, m, k⟩) hc hexec).leads hprod

theorem leads_right (hprod : D.Productive) (hc : D.right[m]? = some c)
    (hexec : D.exec .right c k = some (true, k')) : D.Leads ⟨n, m, k⟩ ⟨n, m + 1, k'⟩ :=
  (Call.right (s := ⟨n, m, k⟩) hc hexec).leads hprod

theorem leads_left_again (hprod : D.Productive) (hc : D.left[n]? = some c)
    (hexec : D.exec .left c k = some (false, k')) : D.Leads ⟨n, m, k⟩ ⟨n, m, k'⟩ :=
  (Call.left (s := ⟨n, m, k⟩) hc hexec).leads hprod

theorem leads_right_again (hprod : D.Productive) (hc : D.right[m]? = some c)
    (hexec : D.exec .right c k = some (false, k')) : D.Leads ⟨n, m, k⟩ ⟨n, m, k'⟩ :=
  (Call.right (s := ⟨n, m, k⟩) hc hexec).leads hprod

/-! ### Calls of one process in succession -/

/-- What calls leave that are over at once, one after the other. -/
def play (D : Duet ι κ) (a : Side) : List ι → κ → Option κ
  | [], k => some k
  | c :: cs, k =>
    match D.exec a c k with
    | some (true, k') => D.play a cs k'
    | _ => none

theorem play_cons {a : Side} {cs : List ι} (h : D.play a (c :: cs) k = some k') :
    ∃ k₁, D.exec a c k = some (true, k₁) ∧ D.play a cs k₁ = some k' := by
  rw [play] at h
  split at h
  · exact ⟨_, ‹_›, h⟩
  · cases h

theorem leads_left_play (hprod : D.Productive) {l rest : List ι}
    (hleft : D.left.drop n = l ++ rest) (hplay : D.play .left l k = some k') :
    D.Leads ⟨n, m, k⟩ ⟨n + l.length, m, k'⟩ := by
  induction l generalizing n k with
  | nil => exact Option.some.inj hplay ▸ Leads.refl D _
  | cons c l ih =>
    obtain ⟨k₁, hexec, hrest⟩ := play_cons hplay
    have hc : D.left[n]? = some c := by
      rw [← List.head?_drop, hleft, List.cons_append, List.head?_cons]
    have hdrop : D.left.drop (n + 1) = l ++ rest := by
      rw [← List.tail_drop, hleft, List.cons_append, List.tail_cons]
    rw [List.length_cons, Nat.add_comm l.length, ← Nat.add_assoc]
    exact (leads_left hprod hc hexec).trans (ih hdrop hrest)

theorem leads_right_play (hprod : D.Productive) {l rest : List ι}
    (hright : D.right.drop m = l ++ rest) (hplay : D.play .right l k = some k') :
    D.Leads ⟨n, m, k⟩ ⟨n, m + l.length, k'⟩ := by
  induction l generalizing m k with
  | nil => exact Option.some.inj hplay ▸ Leads.refl D _
  | cons c l ih =>
    obtain ⟨k₁, hexec, hrest⟩ := play_cons hplay
    have hc : D.right[m]? = some c := by
      rw [← List.head?_drop, hright, List.cons_append, List.head?_cons]
    have hdrop : D.right.drop (m + 1) = l ++ rest := by
      rw [← List.tail_drop, hright, List.cons_append, List.tail_cons]
    rw [List.length_cons, Nat.add_comm l.length, ← Nat.add_assoc]
    exact (leads_right hprod hc hexec).trans (ih hdrop hrest)

end Duet
