import EmbeddedC.Lib.Progress

/-!
# Processes that fork and wait

The processes of a family call `fork`, print a line, call `waitpid` for the processes they have
created, and call `exit`.  Whoever ends before a process that it has created loses it to `init`.

* `Family`: the calls of each process; everybody forks first, prints, and waits for everybody that
  it has created;
* `Family.machine`: the processes, interleaved; `fork` may return any process ID that is not in use;
* `Family.Inv`: what is known of a process from the calls that are left;
* `Family.inevitable_final`: everybody ends;
* `Family.Final.output`: everybody has printed its own process ID and that of its creator;
* `Family.exists_order`: in any order.
-/

/-- A system call of a process: each call of `fork` creates a process of its own. -/
inductive Family.Call (ι : Type)
  | fork (child : ι)
  /-- prints the process ID, and that of the parent -/
  | put
  | waitpid (child : ι)
  /-- prints what the calls of `waitpid` have stored -/
  | result
  | exit (status : ℕ)
  deriving DecidableEq

/-- The order of the calls. -/
def Family.Call.stage {ι : Type} : Family.Call ι → ℕ
  | .fork _ => 0
  | .put => 1
  | .waitpid _ => 2
  | .result => 3
  | .exit _ => 4

/-- The calls of the processes that `root` and its descendants create. -/
structure Family (ι : Type) where
  root : ι
  script : ι → List (Family.Call ι)
  status : ι → ℕ
  depth : ι → ℕ
  nodup : ∀ i, (script i).Nodup
  sorted : ∀ i, (script i).Pairwise fun a b => a.stage ≤ b.stage
  put_mem : ∀ i, .put ∈ script i
  waited : ∀ p c, .waitpid c ∈ script p ↔ .fork c ∈ script p
  result_iff : ∀ i, .result ∈ script i ↔ i = root
  exits : ∀ i st, .exit st ∈ script i ↔ st = status i
  creator : ∀ i, i ≠ root → ∃ p, .fork i ∈ script p
  no_creator : ∀ p, .fork root ∉ script p
  once : ∀ p q c, .fork c ∈ script p → .fork c ∈ script q → p = q
  deeper : ∀ p c, .fork c ∈ script p → depth p < depth c

namespace Family

inductive Life
  | unborn
  | alive
  | zombie (status : ℕ)
  | reaped
  deriving DecidableEq

/-- The status is in the second byte of what `waitpid` stores. -/
def wstatus (status : ℕ) : ℕ := 256 * (status % 256)

/-- What is printed. -/
inductive Line (ι : Type)
  | ids (i : ι) (pid ppid : ℕ)
  | result (statuses : List (Option ℕ))
  deriving DecidableEq

/-- `rest` are the calls still to be made, `parent` is `none` for a child of `init` or of the shell,
and `got` is what `waitpid` has stored for a child. -/
structure State (ι : Type) where
  life : ι → Life
  rest : ι → List (Call ι)
  pid : ι → ℕ
  parent : ι → Option ι
  got : ι → Option ℕ
  output : List (Line ι)

/-- Whose line it is. -/
def Line.who {ι : Type} : Line ι → Option ι
  | .ids i _ _ => some i
  | .result _ => none

/-- The processes that have printed their lines, in this order. -/
def State.order {ι : Type} (s : State ι) : List ι := s.output.filterMap Line.who

/-- The process ID is in use. -/
def State.Used {ι : Type} (s : State ι) (pid : ℕ) : Prop :=
  ∃ i, s.life i ≠ .unborn ∧ s.life i ≠ .reaped ∧ s.pid i = pid

variable {ι : Type} [Fintype ι] [DecidableEq ι] {F : Family ι} {s t : State ι} {i j p c : ι}
  {a b : Call ι} {tail : List (Call ι)} {pid : ℕ}

instance (s : State ι) (pid : ℕ) : Decidable (s.Used pid) :=
  inferInstanceAs (Decidable (∃ _, _))

/-- The children that a process waits for. -/
def children (F : Family ι) (i : ι) : List ι := (F.script i).filterMap fun
  | .waitpid c => some c
  | _ => none

/-- `getppid()`; `outside` is the process ID of the parent of `root`. -/
def getppid (F : Family ι) (outside : ℕ) (s : State ι) (i : ι) : ℕ :=
  match s.parent i with
  | some p => s.pid p
  | none => if i = F.root then outside else 1

def State.after (s : State ι) (i : ι) (tail : List (Call ι)) : State ι :=
  { s with rest := Function.update s.rest i tail }

/-- The next call of `i`; if it is `fork`, it returns `pid`. -/
def step (F : Family ι) (outside : ℕ) (s : State ι) : ι × ℕ → Option (State ι)
  | (i, pid) => if s.life i ≠ .alive then none else match s.rest i with
    | [] => none
    | .fork c :: tail =>
      if s.life c ≠ .unborn ∨ s.Used pid ∨ pid ≤ 1 ∨ pid = outside then none
      else some { s.after i tail with
        life := Function.update s.life c .alive
        pid := Function.update s.pid c pid
        parent := Function.update s.parent c (some i) }
    | .put :: tail => some { s.after i tail with
        output := s.output ++ [.ids i (s.pid i) (getppid F outside s i)] }
    | .waitpid c :: tail =>
      match s.life c with
      | .alive => none
      | .zombie status => some { s.after i tail with
          life := Function.update s.life c .reaped
          got := Function.update s.got c (some (wstatus status)) }
      -- there is no such child
      | .unborn | .reaped => some (s.after i tail)
    | .result :: tail => some { s.after i tail with
        output := s.output ++ [.result ((F.children i).map s.got)] }
    | .exit status :: _ => some { s.after i [] with
        life := Function.update s.life i (.zombie status)
        parent := fun j => if s.parent j = some i then none else s.parent j }

/-- `root` is called. -/
def initial (F : Family ι) (pid : ℕ) : State ι where
  life := Function.update (fun _ => .unborn) F.root .alive
  rest := F.script
  pid := fun _ => pid
  parent := fun _ => none
  got := fun _ => none
  output := []

/-- The processes, interleaved. -/
def machine (F : Family ι) (outside : ℕ) : Machine (State ι) (ι × ℕ) where
  init s := ∃ pid, s = F.initial pid
  step := F.step outside

/-! ### What one call does -/

/-- The next call of `i`, by cases. -/
inductive Step (F : Family ι) (outside : ℕ) (s : State ι) (i : ι) : State ι → Prop
  | fork {c : ι} {pid : ℕ} {tail : List (Call ι)} (hrest : s.rest i = .fork c :: tail)
    (hc : s.life c = .unborn) (hpid : ¬ s.Used pid) :
    Step F outside s i { s.after i tail with
      life := Function.update s.life c .alive
      pid := Function.update s.pid c pid
      parent := Function.update s.parent c (some i) }
  | put {tail : List (Call ι)} (hrest : s.rest i = .put :: tail) :
    Step F outside s i { s.after i tail with
      output := s.output ++ [.ids i (s.pid i) (getppid F outside s i)] }
  | waitpid {c : ι} {status : ℕ} {tail : List (Call ι)} (hrest : s.rest i = .waitpid c :: tail)
    (hc : s.life c = .zombie status) :
    Step F outside s i { s.after i tail with
      life := Function.update s.life c .reaped
      got := Function.update s.got c (some (wstatus status)) }
  | echild {c : ι} {tail : List (Call ι)} (hrest : s.rest i = .waitpid c :: tail)
    (hc : s.life c = .unborn ∨ s.life c = .reaped) : Step F outside s i (s.after i tail)
  | result {tail : List (Call ι)} (hrest : s.rest i = .result :: tail) :
    Step F outside s i { s.after i tail with
      output := s.output ++ [.result ((F.children i).map s.got)] }
  | exit {status : ℕ} {tail : List (Call ι)} (hrest : s.rest i = .exit status :: tail) :
    Step F outside s i { s.after i [] with
      life := Function.update s.life i (.zombie status)
      parent := fun j => if s.parent j = some i then none else s.parent j }

theorem step_cases {outside : ℕ} (h : F.step outside s (i, pid) = some t) :
    s.life i = .alive ∧ Step F outside s i t := by
  simp only [step] at h
  split at h
  · cases h
  · rename_i halive
    refine ⟨not_not.1 halive, ?_⟩
    split at h
    · cases h
    · rename_i hrest
      split at h
      · cases h
      · rename_i hfork
        push Not at hfork
        obtain rfl := Option.some.inj h
        exact .fork hrest hfork.1 hfork.2.1
    · rename_i hrest
      obtain rfl := Option.some.inj h
      exact .put hrest
    · rename_i hrest
      split at h <;> rename_i hc
      · cases h
      · obtain rfl := Option.some.inj h
        exact .waitpid hrest hc
      · obtain rfl := Option.some.inj h
        exact .echild hrest (.inl hc)
      · obtain rfl := Option.some.inj h
        exact .echild hrest (.inr hc)
    · rename_i hrest
      obtain rfl := Option.some.inj h
      exact .result hrest
    · rename_i hrest
      obtain rfl := Option.some.inj h
      exact .exit hrest

/-! ### The calls that are left -/

omit [Fintype ι] [DecidableEq ι] in
/-- Behind a call come only later ones. -/
theorem stage_le (h : a :: tail <:+ F.script i) (hb : b ∈ tail) : a.stage ≤ b.stage ∧ b ≠ a := by
  have hsorted := List.pairwise_cons.1 ((F.sorted i).sublist h.sublist)
  have hnodup := List.nodup_cons.1 ((F.nodup i).sublist h.sublist)
  exact ⟨hsorted.1 b hb, fun hba => hnodup.1 (hba ▸ hb)⟩

/-- What is known of a process from the calls that are left. -/
structure Inv (F : Family ι) (s : State ι) : Prop where
  suffix : ∀ i, s.rest i <:+ F.script i
  unborn : ∀ i, s.life i = .unborn → s.rest i = F.script i
  ended_iff : ∀ i, s.rest i = [] ↔ s.life i ≠ .unborn ∧ s.life i ≠ .alive
  born_iff : ∀ p c, .fork c ∈ F.script p → (s.life c = .unborn ↔ .fork c ∈ s.rest p)
  reaped_iff : ∀ p c, .fork c ∈ F.script p → (s.life c = .reaped ↔ .waitpid c ∉ s.rest p)
  root_unborn : s.life F.root ≠ .unborn
  root_reaped : s.life F.root ≠ .reaped
  root_parent : s.parent F.root = none
  parent : ∀ p c, .fork c ∈ F.script p → s.life c = .alive → s.parent c = some p
  zombie : ∀ i status, s.life i = .zombie status → status = F.status i
  got : ∀ i, s.life i = .reaped → s.got i = some (wstatus (F.status i))

omit [Fintype ι] [DecidableEq ι] in
/-- Nothing comes behind `exit`. -/
theorem tail_of_exit {status : ℕ} (h : .exit status :: tail <:+ F.script i) : tail = [] := by
  refine List.eq_nil_iff_forall_not_mem.2 fun b hb => ?_
  obtain ⟨hle, hne⟩ := stage_le h hb
  cases b with
  | exit status' =>
    have h1 := (F.exits i _).1 (h.mem List.mem_cons_self)
    have h2 := (F.exits i _).1 (h.mem (List.mem_cons_of_mem _ hb))
    exact hne (by rw [h1, h2])
  | _ => simp [Call.stage] at hle

omit [Fintype ι] [DecidableEq ι] in
/-- As long as `exit` has not been called, it is to come. -/
theorem exit_mem {rest : List (Call ι)} (h : rest <:+ F.script i) (hne : rest ≠ []) :
    .exit (F.status i) ∈ rest := by
  obtain ⟨pre, hpre⟩ := h
  have hexit : .exit (F.status i) ∈ pre ++ rest := hpre ▸ (F.exits i _).2 rfl
  refine (List.mem_append.1 hexit).resolve_left fun hmem => ?_
  have hsorted := F.sorted i
  have hnodup := F.nodup i
  rw [← hpre] at hsorted hnodup
  obtain ⟨b, hb⟩ := List.exists_mem_of_ne_nil rest hne
  have hle := (List.pairwise_append.1 hsorted).2.2 _ hmem _ hb
  cases b with
  | exit status =>
    have hstatus := (F.exits i status).1 (hpre ▸ List.mem_append_right pre hb)
    exact List.disjoint_of_nodup_append hnodup hmem (hstatus ▸ hb)
  | _ => simp [Call.stage] at hle

omit [Fintype ι] in
theorem Step.rest {outside : ℕ} (hs : Step F outside s i t) (hsuf : s.rest i <:+ F.script i) :
    ∃ a tail, s.rest i = a :: tail ∧ t.rest = Function.update s.rest i tail := by
  cases hs with
  | exit hrest =>
    have htail := tail_of_exit (hrest ▸ hsuf)
    exact ⟨_, _, hrest, by rw [htail]; rfl⟩
  | fork hrest | put hrest | waitpid hrest | echild hrest | result hrest => exact ⟨_, _, hrest, rfl⟩

omit [Fintype ι] in
theorem Inv.step {outside : ℕ} (h : F.Inv s) (hi : s.life i = .alive) (hs : Step F outside s i t) :
    F.Inv t := by
  obtain ⟨h1, h2, h3, h4, h5, h6, h7, h8, h9, h10, h11⟩ := h
  have hsuf := h1 i
  have hmem := fun a => hsuf.mem (a := a)
  have hexit := exit_mem hsuf
  have hnew : ∀ j, t.rest j <:+ F.script j := by
    obtain ⟨a, tail, hrest, ht⟩ := hs.rest hsuf
    intro j
    rw [ht, Function.update_apply]
    split
    · rename_i hj
      subst hj
      exact (List.suffix_cons a tail).trans (hrest ▸ hsuf)
    · exact h1 j
  cases hs with
  | @fork c pid tail hrest hc hpid =>
    rw [hrest] at hsuf hmem hexit
    have hle := fun b hb => stage_le (b := b) hsuf hb
    have hone := fun p hp => F.once p i c hp (hmem _ List.mem_cons_self)
    constructor <;> simp only [State.after, Function.update_apply] at hnew ⊢
    · exact hnew
    all_goals clear hnew; grind
  | @put tail hrest =>
    rw [hrest] at hsuf hmem hexit
    constructor <;> simp only [State.after, Function.update_apply] at hnew ⊢
    · exact hnew
    all_goals clear hnew; grind
  | @waitpid c status tail hrest hc =>
    rw [hrest] at hsuf hmem hexit
    have hle := fun b hb => stage_le (b := b) hsuf hb
    have hone := fun p hp => F.once p i c hp ((F.waited i c).1 (hmem _ List.mem_cons_self))
    have hroot : c ≠ F.root := fun hc =>
      F.no_creator i (hc ▸ (F.waited i c).1 (hmem _ List.mem_cons_self))
    constructor <;> simp only [State.after, Function.update_apply] at hnew ⊢
    · exact hnew
    all_goals clear hnew; grind
  | @echild c tail hrest hc =>
    rw [hrest] at hsuf hmem hexit
    have hle := fun b hb => stage_le (b := b) hsuf hb
    have hfork := (F.waited i c).1 (hmem _ List.mem_cons_self)
    -- the child has been created, and has not been waited for
    exfalso
    grind [Call.stage]
  | @result tail hrest =>
    rw [hrest] at hsuf hmem hexit
    constructor <;> simp only [State.after, Function.update_apply] at hnew ⊢
    · exact hnew
    all_goals clear hnew; grind
  | @exit status tail hrest =>
    rw [hrest] at hsuf hmem hexit
    obtain rfl := tail_of_exit hsuf
    have hstatus := (F.exits i status).1 (hmem _ List.mem_cons_self)
    constructor <;> simp only [State.after, Function.update_apply] at hnew ⊢
    · exact hnew
    all_goals clear hnew; grind

omit [Fintype ι] in
theorem inv_initial (F : Family ι) (pid : ℕ) : F.Inv (F.initial pid) := by
  have hne : ∀ i, F.script i ≠ [] := fun i h => List.not_mem_nil (h ▸ F.put_mem i)
  have hwaited := F.waited
  have hroot := F.no_creator
  constructor <;> simp only [initial, Function.update_apply] <;> grind

theorem inv_of_reachable {outside : ℕ} (h : (F.machine outside).Reachable s) : F.Inv s := by
  refine h.invariant ?_ fun s a t _ hinv hstep => ?_
  · rintro _ ⟨pid, rfl⟩
    exact inv_initial F pid
  · obtain ⟨halive, hs⟩ := step_cases hstep
    exact hinv.step halive hs

/-! ### What is printed -/

omit [Fintype ι] [DecidableEq ι] in
/-- What has been called comes before what is left. -/
theorem stage_le_of_called {rest : List (Call ι)} (h : rest <:+ F.script i) (ha : a ∈ F.script i)
    (hcalled : a ∉ rest) (hb : b ∈ rest) : a.stage ≤ b.stage := by
  obtain ⟨pre, hpre⟩ := h
  have hsorted := F.sorted i
  rw [← hpre] at hsorted ha
  exact (List.pairwise_append.1 hsorted).2.2 a ((List.mem_append.1 ha).resolve_right hcalled) b hb

omit [Fintype ι] in
/-- When `root` has waited for all its children, everybody else has ended. -/
theorem Inv.reaped_of_root (h : F.Inv s) (hroot : ∀ c, .waitpid c ∉ s.rest F.root)
    (hi : i ≠ F.root) : s.life i = .reaped := by
  induction hn : F.depth i using Nat.strong_induction_on generalizing i with
  | _ n ih =>
    obtain ⟨p, hp⟩ := F.creator i hi
    refine (h.reaped_iff p i hp).2 ?_
    by_cases hpr : p = F.root
    · exact hpr ▸ hroot i
    · have hreaped := ih (F.depth p) (hn ▸ F.deeper p i hp) hpr rfl
      have hrest := (h.ended_iff p).2 (by simp [hreaped])
      simp [hrest]

omit [Fintype ι] in
/-- Once `root` has printed the result, it is the only process. -/
theorem Inv.eq_root (h : F.Inv s) (hresult : .result ∉ s.rest F.root) (hi : s.life i = .alive) :
    i = F.root := by
  by_contra hne
  have hreaped : s.life i = .reaped := h.reaped_of_root (fun c hc => ?_) hne
  · rw [hi] at hreaped
    cases hreaped
  · have hle := stage_le_of_called (h.suffix _) ((F.result_iff _).2 rfl) hresult hc
    simp [Call.stage] at hle

omit [Fintype ι] in
theorem Inv.getppid (outside : ℕ) (h : F.Inv s) (hi : s.life i = .alive) :
    (i = F.root → F.getppid outside s i = outside) ∧
      ∀ p, .fork i ∈ F.script p → F.getppid outside s i = s.pid p := by
  constructor
  · rintro rfl
    rw [Family.getppid, h.root_parent]
    exact if_pos rfl
  · intro p hp
    rw [Family.getppid, h.parent p i hp hi]

omit [Fintype ι] [DecidableEq ι] in
theorem mem_children : c ∈ F.children i ↔ .waitpid c ∈ F.script i := by
  simp only [children, List.mem_filterMap]
  constructor
  · rintro ⟨b, hb, hc⟩
    split at hc
    · obtain rfl := Option.some.inj hc
      exact hb
    · cases hc
  · exact fun h => ⟨_, h, rfl⟩

omit [Fintype ι] [DecidableEq ι] in
/-- The result is printed when all children of `root` have ended. -/
theorem Inv.got_of_result (h : F.Inv s) (hrest : s.rest F.root = .result :: tail) :
    (F.children F.root).map s.got =
      (F.children F.root).map fun c => some (wstatus (F.status c)) := by
  refine List.map_congr_left fun c hc => h.got c ?_
  refine (h.reaped_iff F.root c ((F.waited _ c).1 (mem_children.1 hc))).2 fun hmem => ?_
  rw [hrest] at hmem
  obtain hmem | hmem := List.mem_cons.1 hmem
  · cases hmem
  · have hle := (stage_le (hrest ▸ h.suffix F.root) hmem).1
    simp [Call.stage] at hle

/-- What has been printed. -/
structure Printed (F : Family ι) (outside : ℕ) (s : State ι) : Prop where
  nodup : s.order.Nodup
  mem_iff : ∀ i, i ∈ s.order ↔ .put ∉ s.rest i
  born : ∀ i pid ppid, .ids i pid ppid ∈ s.output → s.life i ≠ .unborn
  own : ∀ i pid ppid, .ids i pid ppid ∈ s.output → pid = s.pid i
  root : ∀ pid ppid, .ids F.root pid ppid ∈ s.output → ppid = outside
  creator : ∀ i pid ppid p, .ids i pid ppid ∈ s.output → .fork i ∈ F.script p → ppid = s.pid p
  none : .result ∈ s.rest F.root → ∀ l, .result l ∉ s.output
  last : .result ∉ s.rest F.root → ∃ front,
    s.output = front ++ [.result ((F.children F.root).map fun c => some (wstatus (F.status c)))] ∧
      ∀ l, .result l ∉ front

omit [Fintype ι] in
theorem Printed.step {outside : ℕ} (h : F.Printed outside s) (hinv : F.Inv s)
    (hi : s.life i = .alive) (hs : Step F outside s i t) : F.Printed outside t := by
  obtain ⟨h1, h2, h3, h4, h5, h6, h7, h8⟩ := h
  have hsuf := hinv.suffix i
  have hcalled := fun hr b hb => stage_le_of_called (b := b) (hinv.suffix F.root)
    ((F.result_iff F.root).2 rfl) hr hb
  cases hs with
  | @fork c pid tail hrest hc hpid =>
    have hborn := hinv.born_iff
    have hunborn := hinv.unborn c hc
    constructor <;> simp only [State.after, Function.update_apply, State.order] at *
    all_goals grind
  | @put tail hrest =>
    obtain ⟨hroot, hcreator⟩ := hinv.getppid outside hi
    have hnew : i ∉ s.order := fun hmem => (h2 i).1 hmem (hrest ▸ List.mem_cons_self)
    have honly : .result ∈ s.rest F.root := by
      by_contra hr
      obtain rfl := hinv.eq_root hr hi
      have hle := hcalled hr .put (hrest ▸ List.mem_cons_self)
      simp [Call.stage] at hle
    rw [hrest] at hsuf
    have hle := fun b hb => stage_le (b := b) hsuf hb
    constructor <;> simp only [State.after, Function.update_apply, State.order] at *
    all_goals grind [Line.who]
  | @waitpid c status tail hrest hc =>
    constructor <;> simp only [State.after, Function.update_apply, State.order] at *
    all_goals grind
  | @echild c tail hrest hc =>
    constructor <;> simp only [State.after, Function.update_apply, State.order] at *
    all_goals grind
  | @result tail hrest =>
    obtain rfl := (F.result_iff i).1 (hsuf.mem (hrest ▸ List.mem_cons_self))
    have hgot := hinv.got_of_result hrest
    rw [hrest] at hsuf
    have hle := fun b hb => stage_le (b := b) hsuf hb
    constructor <;> simp only [State.after, Function.update_apply, State.order] at *
    case last => exact fun _ => ⟨s.output, by rw [hgot], h7 (hrest ▸ List.mem_cons_self)⟩
    all_goals grind [Line.who]
  | @exit status tail hrest =>
    rw [hrest] at hsuf
    obtain rfl := tail_of_exit hsuf
    constructor <;> simp only [State.after, Function.update_apply, State.order] at *
    all_goals grind

theorem printed_of_reachable {outside : ℕ} (h : (F.machine outside).Reachable s) :
    F.Printed outside s := by
  refine h.invariant ?_ fun s a t hs hprinted hstep => ?_
  · rintro _ ⟨pid, rfl⟩
    have hput := F.put_mem
    have hresult := (F.result_iff F.root).2 rfl
    constructor <;> simp only [initial, State.order] <;> grind
  · obtain ⟨halive, hstep⟩ := step_cases hstep
    exact hprinted.step (inv_of_reachable hs) halive hstep

/-! ### Everybody ends -/

/-- All processes have ended, and only `root` has not been waited for. -/
structure Final (F : Family ι) (s : State ι) : Prop where
  root : s.life F.root = .zombie (F.status F.root)
  others : ∀ i, i ≠ F.root → s.life i = .reaped

/-- The number of calls that are left. -/
def State.size (s : State ι) : ℕ := ∑ i, (s.rest i).length

theorem Step.size {outside : ℕ} (hs : Step F outside s i t) (hsuf : s.rest i <:+ F.script i) :
    t.size < s.size := by
  obtain ⟨a, tail, hrest, ht⟩ := hs.rest hsuf
  refine Finset.sum_lt_sum (fun j _ => ?_) ⟨i, Finset.mem_univ i, ?_⟩
  · rw [ht, Function.update_apply]
    split
    · rename_i hj
      rw [hj, hrest]
      exact Nat.le_succ _
    · exact le_rfl
  · rw [ht, Function.update_self, hrest]
    exact Nat.lt_succ_self _

omit [DecidableEq ι] in
/-- There are process IDs that are not in use. -/
theorem exists_unused (s : State ι) (n : ℕ) : ∃ pid, n < pid ∧ ¬ s.Used pid := by
  obtain ⟨pid, hpid⟩ :=
    Infinite.exists_notMem_finset (Finset.univ.image s.pid ∪ Finset.range (n + 1))
  simp only [Finset.mem_union, Finset.mem_image, Finset.mem_range, not_or, Finset.mem_univ,
    true_and] at hpid
  exact ⟨pid, by omega, fun ⟨i, _, _, hi⟩ => hpid.1 ⟨i, hi⟩⟩

/-- A call that is not blocked makes the rest shorter. -/
theorem moves_of_step {outside pid : ℕ} (hinv : F.Inv s)
    (h : (F.machine outside).step s (i, pid) = some t) : (F.machine outside).Moves s t := by
  refine ⟨?_, (i, pid), h⟩
  rintro rfl
  exact lt_irrefl _ ((step_cases h).2.size (hinv.suffix i))

omit [Fintype ι] [DecidableEq ι] in
/-- A child for which a process waits has been created. -/
theorem Inv.life_of_waitpid (h : F.Inv s) (hrest : s.rest i = .waitpid c :: tail) :
    s.life c = .alive ∨ s.life c = .zombie (F.status c) := by
  have hsuf := hrest ▸ h.suffix i
  have hfork := (F.waited i c).1 (hsuf.mem List.mem_cons_self)
  have hborn : s.life c ≠ .unborn := fun hc => by
    have hmem := (h.born_iff i c hfork).1 hc
    rw [hrest] at hmem
    obtain hmem | hmem := List.mem_cons.1 hmem
    · cases hmem
    · have hle := (stage_le hsuf hmem).1
      simp [Call.stage] at hle
  have hreaped : s.life c ≠ .reaped := fun hc =>
    (h.reaped_iff i c hfork).1 hc (hrest ▸ List.mem_cons_self)
  cases hc : s.life c with
  | unborn => exact absurd hc hborn
  | alive => exact .inl rfl
  | zombie status => exact .inr (by rw [h.zombie c status hc])
  | reaped => exact absurd hc hreaped

/-- A process whose next call is not `waitpid` is not blocked. -/
theorem Inv.exists_step (h : F.Inv s) (outside : ℕ) (hi : s.life i = .alive)
    (hwait : ∀ c tail, s.rest i = .waitpid c :: tail → s.life c ≠ .alive) :
    ∃ pid t, (F.machine outside).step s (i, pid) = some t := by
  obtain ⟨a, tail, hrest⟩ : ∃ a tail, s.rest i = a :: tail :=
    List.exists_cons_of_ne_nil fun hnil => ((h.ended_iff i).1 hnil).2 hi
  cases a with
  | fork c =>
    have hfork : .fork c ∈ F.script i := (hrest ▸ h.suffix i).mem List.mem_cons_self
    have hc : s.life c = .unborn := (h.born_iff i c hfork).2 (hrest ▸ List.mem_cons_self)
    obtain ⟨pid, hlt, hused⟩ := exists_unused s (outside + 1)
    have hone : ¬ pid ≤ 1 := by omega
    have hout : pid ≠ outside := by omega
    exact ⟨pid, by simp [machine, Family.step, hi, hrest, hc, hused, hone, hout]⟩
  | waitpid c =>
    have hc := (h.life_of_waitpid hrest).resolve_left (hwait c tail hrest)
    exact ⟨0, by simp [machine, Family.step, hi, hrest, hc]⟩
  | put | result | exit status => exact ⟨0, by simp [machine, Family.step, hi, hrest]⟩

/-- As long as `root` has not ended, somebody is not blocked. -/
theorem Inv.exists_moves (h : F.Inv s) (outside : ℕ) (hroot : s.life F.root = .alive) :
    ∃ t, (F.machine outside).Moves s t := by
  classical
  -- the youngest generation that is alive has nobody to wait for
  obtain ⟨i, hi, hmax⟩ := (Finset.univ.filter fun i => s.life i = .alive).exists_max_image F.depth
    ⟨F.root, by simpa using hroot⟩
  have halive : s.life i = .alive := by simpa using hi
  obtain ⟨pid, t, ht⟩ := h.exists_step outside halive fun c tail hrest hc => by
    have hwait : .waitpid c ∈ F.script i := (hrest ▸ h.suffix i).mem List.mem_cons_self
    have hlt := F.deeper i c ((F.waited i c).1 hwait)
    have hle := hmax c (by simpa using hc)
    omega
  exact ⟨t, moves_of_step h ht⟩

omit [Fintype ι] in
theorem Inv.final (h : F.Inv s) (hroot : s.life F.root ≠ .alive) : F.Final s := by
  have hrest : s.rest F.root = [] := (h.ended_iff _).2 ⟨h.root_unborn, hroot⟩
  constructor
  · cases hlife : s.life F.root with
    | unborn => exact absurd hlife h.root_unborn
    | alive => exact absurd hlife hroot
    | zombie status => rw [h.zombie _ status hlife]
    | reaped => exact absurd hlife h.root_reaped
  · exact fun i hi => h.reaped_of_root (fun c hc => List.not_mem_nil (hrest ▸ hc)) hi

/-- **Everybody ends.** -/
theorem inevitable_final {outside : ℕ} (h : (F.machine outside).Reachable s) :
    (F.machine outside).Inevitable F.Final s := by
  refine Machine.inevitable_of_measure (I := F.Inv) State.size ?_ ?_ (inv_of_reachable h)
  · intro s hinv hfinal
    refine hinv.exists_moves outside ?_
    by_contra hroot
    exact hfinal (hinv.final hroot)
  · rintro s t hinv ⟨-, ⟨i, pid⟩, hstep⟩
    obtain ⟨halive, hs⟩ := step_cases hstep
    exact ⟨hinv.step halive hs, hs.size (hinv.suffix i)⟩

/-- **What is printed.** Everybody has printed its line, the result comes last, and the process IDs
are right. -/
structure Output (F : Family ι) (outside : ℕ) (s : State ι) : Prop where
  order : s.order.Perm Finset.univ.toList
  lines : ∃ ppid : ι → ℕ, ppid F.root = outside ∧
    (∀ p c, .fork c ∈ F.script p → ppid c = s.pid p) ∧
    s.output = s.order.map (fun i => .ids i (s.pid i) (ppid i)) ++
      [.result ((F.children F.root).map fun c => some (wstatus (F.status c)))]

omit [Fintype ι] [DecidableEq ι] in
/-- Lines are known by who has printed them. -/
theorem eq_map_who {pid ppid : ι → ℕ} {front : List (Line ι)}
    (h : ∀ line ∈ front, ∃ i, line = .ids i (pid i) (ppid i)) :
    front = (front.filterMap Line.who).map fun i => .ids i (pid i) (ppid i) := by
  induction front with
  | nil => rfl
  | cons line front ih =>
    obtain ⟨i, rfl⟩ := h line List.mem_cons_self
    rw [List.filterMap_cons]
    dsimp only [Line.who]
    rw [List.map_cons, ← ih fun l hl => h l (List.mem_cons_of_mem _ hl)]

theorem Final.output {outside : ℕ} (hfinal : F.Final s) (h : (F.machine outside).Reachable s) :
    F.Output outside s := by
  have hinv := inv_of_reachable h
  have hprinted := printed_of_reachable h
  have hrest : ∀ i, s.rest i = [] := fun i => (hinv.ended_iff i).2 (by
    by_cases hi : i = F.root
    · simp [hi, hfinal.root]
    · simp [hfinal.others i hi])
  constructor
  · refine (List.perm_ext_iff_of_nodup hprinted.nodup (Finset.nodup_toList _)).2 fun i => ?_
    simp [hprinted.mem_iff, hrest]
  · choose creator hcreator using F.creator
    refine ⟨fun i => if hi : i = F.root then outside else s.pid (creator i hi), dif_pos rfl, ?_, ?_⟩
    · intro p c hc
      have hne : c ≠ F.root := fun hroot => F.no_creator p (hroot ▸ hc)
      dsimp only
      rw [dif_neg hne, F.once p _ c hc (hcreator c hne)]
    · obtain ⟨front, hfront, hresult⟩ := hprinted.last (by simp [hrest])
      have horder : s.order = front.filterMap Line.who := by
        rw [State.order, hfront, List.filterMap_append]
        exact List.append_nil _
      rw [horder, ← eq_map_who, hfront]
      intro line hline
      have hmem : line ∈ s.output := hfront ▸ List.mem_append_left _ hline
      cases line with
      | result l => exact absurd hline (hresult l)
      | ids i pid ppid =>
        refine ⟨i, ?_⟩
        rw [hprinted.own i pid ppid hmem]
        by_cases hi : i = F.root
        · subst hi
          rw [hprinted.root pid ppid hmem, dif_pos rfl]
        · rw [hprinted.creator i pid ppid _ hmem (hcreator i hi), dif_neg hi]

/-! ### In any order -/

omit [Fintype ι] [DecidableEq ι] in
/-- A call of `fork` that is left is the next call. -/
theorem Inv.next_of_fork (h : F.Inv s) (hfork : .fork c ∈ s.rest i) :
    ∃ c' tail, s.rest i = .fork c' :: tail := by
  obtain ⟨a, tail, hrest⟩ := List.exists_cons_of_ne_nil (List.ne_nil_of_mem hfork)
  have hsuf := hrest ▸ h.suffix i
  rw [hrest] at hfork
  obtain rfl | hmem := List.mem_cons.1 hfork
  · exact ⟨c, tail, hrest⟩
  · have hle := (stage_le hsuf hmem).1
    cases a with
    | fork c' => exact ⟨c', tail, hrest⟩
    | _ => simp [Call.stage] at hle

omit [Fintype ι] [DecidableEq ι] in
/-- Without one, `put` is the next call if it is left. -/
theorem Inv.next_of_put (h : F.Inv s) (hfork : ∀ c, .fork c ∉ s.rest i) (hput : .put ∈ s.rest i) :
    ∃ tail, s.rest i = .put :: tail := by
  obtain ⟨a, tail, hrest⟩ := List.exists_cons_of_ne_nil (List.ne_nil_of_mem hput)
  have hsuf := hrest ▸ h.suffix i
  rw [hrest] at hput
  obtain rfl | hmem := List.mem_cons.1 hput
  · exact ⟨tail, hrest⟩
  · have hle := (stage_le hsuf hmem).1
    cases a with
    | fork c => exact absurd (hrest ▸ List.mem_cons_self) (hfork c)
    | put => exact ⟨tail, hrest⟩
    | _ => simp [Call.stage] at hle

/-- Everybody can be created before anything is printed. -/
theorem exists_created {outside : ℕ} (h : (F.machine outside).Reachable s) (hout : s.output = []) :
    ∃ t, (F.machine outside).Path Machine.anyStep s t ∧ t.output = [] ∧
      ∀ i, t.life i = .alive ∧ ∀ c, .fork c ∉ t.rest i := by
  induction hn : s.size using Nat.strong_induction_on generalizing s with
  | _ n ih =>
    have hinv := inv_of_reachable h
    by_cases hfork : ∃ i c, s.life i = .alive ∧ .fork c ∈ s.rest i
    · -- one more call of `fork`
      obtain ⟨i, c, halive, hmem⟩ := hfork
      obtain ⟨c', tail, hrest⟩ := hinv.next_of_fork hmem
      obtain ⟨pid, t, hstep⟩ := hinv.exists_step outside halive fun d tl htl => by
        rw [hrest] at htl
        cases htl
      have hs := (step_cases hstep).2
      have htout : t.output = [] := by
        cases hs with
        | fork | waitpid | echild | exit => exact hout
        | put h' | result h' => exact absurd (hrest.symm.trans h') (by simp)
      obtain ⟨u, hpath, hu⟩ := ih t.size (hn ▸ hs.size (hinv.suffix i)) (h.step hstep) htout rfl
      exact ⟨u, (Machine.Path.single trivial hstep).trans hpath, hu⟩
    · push Not at hfork
      have hput : ∀ i, .put ∈ s.rest i := fun i => by
        have hmem := (printed_of_reachable h).mem_iff i
        rw [State.order, hout] at hmem
        simpa using hmem
      have halive : ∀ i, s.life i = .alive := by
        have hlife {i : ι} (hborn : s.life i ≠ .unborn) : s.life i = .alive := by
          by_contra hlife
          exact List.ne_nil_of_mem (hput i) ((hinv.ended_iff i).2 ⟨hborn, hlife⟩)
        intro i
        induction hd : F.depth i using Nat.strong_induction_on generalizing i with
        | _ d ihd =>
          by_cases hi : i = F.root
          · exact hlife (hi ▸ hinv.root_unborn)
          · obtain ⟨p, hp⟩ := F.creator i hi
            have hpalive := ihd _ (hd ▸ F.deeper p i hp) p rfl
            exact hlife fun hborn => hfork p i hpalive ((hinv.born_iff p i hp).1 hborn)
      exact ⟨s, .refl, hout, fun i => ⟨halive i, fun c => hfork i c (halive i)⟩⟩

/-- Then everybody can print, in any order. -/
theorem exists_printed {outside : ℕ} {todo : List ι} (h : (F.machine outside).Reachable s)
    (hnodup : todo.Nodup) (hput : ∀ i ∈ todo, s.life i = .alive ∧ .put ∈ s.rest i)
    (hfork : ∀ i c, .fork c ∉ s.rest i) :
    ∃ t, (F.machine outside).Path Machine.anyStep s t ∧ t.order = s.order ++ todo := by
  induction todo generalizing s with
  | nil => exact ⟨s, .refl, (List.append_nil _).symm⟩
  | cons i todo ih =>
    obtain ⟨hi, hnodup⟩ := List.nodup_cons.1 hnodup
    obtain ⟨halive, hmem⟩ := hput i List.mem_cons_self
    obtain ⟨tail, hrest⟩ := (inv_of_reachable h).next_of_put (hfork i) hmem
    have hstep : (F.machine outside).step s (i, 0) = some { s.after i tail with
        output := s.output ++ [.ids i (s.pid i) (getppid F outside s i)] } := by
      simp [machine, Family.step, halive, hrest]
    obtain ⟨t, hpath, horder⟩ := ih (h.step hstep) hnodup
      (fun j hj => by
        obtain ⟨hjalive, hjput⟩ := hput j (List.mem_cons_of_mem _ hj)
        have hne : j ≠ i := fun hji => hi (hji ▸ hj)
        simp [State.after, hne, hjalive, hjput])
      (fun j c => by
        have := hfork j c
        have := hfork i c
        simp only [State.after, Function.update_apply]
        grind)
    refine ⟨t, (Machine.Path.single trivial hstep).trans hpath, ?_⟩
    rw [horder]
    simp [State.order, Line.who]

/-- Lines stay. -/
theorem order_prefix {outside : ℕ} {C : State ι → ι × ℕ → Prop}
    (h : (F.machine outside).Path C s t) : s.order <+: t.order := by
  refine h.invariant (I := fun u => s.order <+: u.order) List.prefix_rfl
    fun u a v _ hu _ hstep => ?_
  refine hu.trans ?_
  cases (step_cases hstep).2 with
  | fork | waitpid | echild | exit => exact List.prefix_rfl
  | put | result => simp [State.order]

/-- **Any order of the lines is possible.** -/
theorem exists_order (F : Family ι) (outside pid : ℕ) {order : List ι}
    (h : order.Perm Finset.univ.toList) :
    ∃ t, (F.machine outside).Path Machine.anyStep (F.initial pid) t ∧ F.Final t ∧
      t.order = order := by
  have h0 : (F.machine outside).Reachable (F.initial pid) := ⟨_, ⟨pid, rfl⟩, .refl⟩
  obtain ⟨s, hs, hout, hcreated⟩ := exists_created h0 rfl
  have hsreach := h0.path hs
  have hsorder : s.order = [] := by rw [State.order, hout, List.filterMap_nil]
  obtain ⟨t, ht, horder⟩ := exists_printed hsreach (h.nodup_iff.2 (Finset.nodup_toList _))
    (fun i _ => ⟨(hcreated i).1, by simpa [hsorder] using (printed_of_reachable hsreach).mem_iff i⟩)
    fun i => (hcreated i).2
  have htreach := hsreach.path ht
  obtain ⟨u, hu, hfinal⟩ := (inevitable_final htreach).exists_path
  refine ⟨u, (hs.trans ht).trans hu, hfinal, ?_⟩
  -- nobody has a second line
  have hinitial := order_prefix hu
  rw [horder, hsorder, List.nil_append] at hinitial
  have horders := h.trans (hfinal.output (htreach.path hu)).order.symm
  exact (hinitial.eq_of_length horders.length_eq).symm

end Family
