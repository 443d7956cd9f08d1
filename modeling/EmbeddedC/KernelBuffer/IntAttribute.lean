import EmbeddedC.Lib.Decimal
import EmbeddedC.Lib.Machine
import EmbeddedC.KernelBuffer.Sysfs

/-!
# Homework 25: the number attribute of the sysfs module

The kernel reads the number that is written, and the module shows it as text.

* `kstrtoint`: the kernel's function, with its errors;
* `intStore`, `intShow`: the handlers;
* `intAttribute`: the calls, in any order;
* `kstrtoint_ok`: which texts are accepted;
* `int_round`: what is shown is the last number that was accepted, and can be stored again.
-/

namespace EmbeddedC.KernelBuffer

open CString Decimal

/-- `ERANGE` -/
def erange : ℤ := 34

/-- `_kstrtoull` with base 10: digits, maybe a newline, and the end of the text. -/
def kstrtoullDigits (s : List Char) : Except ℤ ℕ :=
  let digits := s.takeWhile Char.isDigit
  let rest := s.dropWhile Char.isDigit
  if 2 ^ 64 ≤ value digits then .error erange
  else if digits = [] then .error einval
  else if rest ≠ [] ∧ rest ≠ ['\n'] then .error einval
  else .ok (value digits)

/-- `kstrtoll` with base 10 -/
def kstrtoll (s : List Char) : Except ℤ ℤ :=
  if s.head? = some '-' then do
    let tmp ← kstrtoullDigits s.tail
    if 2 ^ 63 < tmp then .error erange else .ok (-tmp)
  else do
    let tmp ← kstrtoullDigits (if s.head? = some '+' then s.tail else s)
    if 2 ^ 63 ≤ tmp then .error erange else .ok tmp

/-- The value of an `int`. -/
def IsInt (v : ℤ) : Prop := -2 ^ 31 ≤ v ∧ v < 2 ^ 31

instance (v : ℤ) : Decidable (IsInt v) := inferInstanceAs (Decidable (_ ∧ _))

/-- `kstrtoint` with base 10 -/
def kstrtoint (s : List Char) : Except ℤ ℤ := do
  let tmp ← kstrtoll s
  if IsInt tmp then .ok tmp else .error erange

/-- What a store returns, and the number. -/
structure IntStored where
  ret : ℤ
  dec : ℤ
  deriving DecidableEq

/-- `int_store`, for `count` bytes.  The kernel has put a NUL behind them. -/
def intStore (dec : ℤ) (buf : List Char) : IntStored :=
  match kstrtoint (text (buf ++ [nul])) with
  | .error e => ⟨-e, dec⟩
  | .ok v => ⟨buf.length, v⟩

/-- `int_show`: `sysfs_emit` puts less than a page. -/
def intShow (dec : ℤ) : List Char := (Decimal.text dec ++ ['\n']).take (pageSize - 1)

/-- The number `dec` of the object.  `last` is a history variable: what the last store that was
not rejected has written. -/
structure IntObj where
  dec : ℤ
  last : Option (List Char)
  deriving DecidableEq

def IntObj.store (o : IntObj) (buf : List Char) : IntObj where
  dec := (intStore o.dec buf).dec
  last := if (intStore o.dec buf).ret < 0 then o.last else some buf

/-- The object, under any calls.  It was allocated by `kzalloc`. -/
def intAttribute : Machine IntObj AttrCall where
  init o := o = ⟨0, none⟩
  step o
    | .attrShow => some o
    | .attrStore buf => some (o.store buf)

/-- Some text that may be followed by a newline. -/
def IsLine (s t : List Char) : Prop := s = t ∨ s = t ++ ['\n']

/-- A line with a number without a sign. -/
def DigitsLine (s : List Char) (n : ℕ) : Prop :=
  ∃ t, t ≠ [] ∧ Digits t ∧ value t = n ∧ IsLine s t

/-- A line with a number. -/
def NumberLine (s : List Char) (v : ℤ) : Prop := ∃ t, Signed t v ∧ IsLine s t

variable {o : IntObj} {s t buf : List Char} {v dec : ℤ} {n : ℕ}

/-! ### Lines -/

theorem isLine_cons {c : Char} : IsLine (c :: s) (c :: t) ↔ IsLine s t := by
  simp [IsLine]

/-- A line begins as its text does. -/
theorem IsLine.head? (h : IsLine s t) (ht : t ≠ []) : s.head? = t.head? := by
  obtain ⟨c, t, rfl⟩ := List.exists_cons_of_ne_nil ht
  rcases h with rfl | rfl <;> rfl

theorem DigitsLine.head?_ne {c : Char} (h : DigitsLine s n) (hc : c.isDigit = false) :
    s.head? ≠ some c := by
  obtain ⟨t, hne, ht, -, hs⟩ := h
  rw [hs.head? hne]
  exact ht.head?_ne hc

/-- A number without a sign, or with one of the signs. -/
theorem numberLine_iff : NumberLine s v ↔ (∃ n : ℕ, DigitsLine s n ∧ (n : ℤ) = v) ∨
    (∃ s' n, s = '+' :: s' ∧ DigitsLine s' n ∧ (n : ℤ) = v) ∨
    ∃ s' n, s = '-' :: s' ∧ DigitsLine s' n ∧ -(n : ℤ) = v := by
  constructor
  · rintro ⟨t, ht, hs⟩
    cases ht with
    | plain hne hdigits => exact .inl ⟨_, ⟨t, hne, hdigits, rfl, hs⟩, rfl⟩
    | @plus t hne hdigits =>
      obtain ⟨s', rfl⟩ := List.head?_eq_some_iff.1 (hs.head? (List.cons_ne_nil _ _))
      exact .inr (.inl ⟨s', _, rfl, ⟨t, hne, hdigits, rfl, isLine_cons.1 hs⟩, rfl⟩)
    | @minus t hne hdigits =>
      obtain ⟨s', rfl⟩ := List.head?_eq_some_iff.1 (hs.head? (List.cons_ne_nil _ _))
      exact .inr (.inr ⟨s', _, rfl, ⟨t, hne, hdigits, rfl, isLine_cons.1 hs⟩, rfl⟩)
  · rintro (⟨n, ⟨t, hne, hdigits, rfl, hs⟩, rfl⟩ | ⟨s', n, rfl, ⟨t, hne, hdigits, rfl, hs⟩, rfl⟩ |
      ⟨s', n, rfl, ⟨t, hne, hdigits, rfl, hs⟩, rfl⟩)
    · exact ⟨t, .plain hne hdigits, hs⟩
    · exact ⟨_, .plus hne hdigits, isLine_cons.2 hs⟩
    · exact ⟨_, .minus hne hdigits, isLine_cons.2 hs⟩

/-! ### The kernel's parser -/

/-- A line with a number is refused only if the number is too big. -/
theorem kstrtoullDigits_line (h : DigitsLine s n) :
    kstrtoullDigits s = if 2 ^ 64 ≤ n then .error erange else .ok n := by
  obtain ⟨t, hne, ht, rfl, hs⟩ := h
  obtain ⟨rest, hrest, rfl⟩ : ∃ rest, (rest = [] ∨ rest = ['\n']) ∧ s = t ++ rest := by
    rcases hs with rfl | rfl
    · exact ⟨[], .inl rfl, (List.append_nil s).symm⟩
    · exact ⟨['\n'], .inr rfl, rfl⟩
  have hstop : ∀ c, rest.head? = some c → c.isDigit = false := by
    intro c hc
    rcases hrest with rfl | rfl
    · cases hc
    · obtain rfl := Option.some.inj hc
      decide
  have hend : ¬ (rest ≠ [] ∧ rest ≠ ['\n']) := by
    tauto
  obtain ⟨htake, hdrop⟩ := split_digits ht hstop
  rw [kstrtoullDigits, htake, hdrop, if_neg hne, if_neg hend]

theorem kstrtoullDigits_ok : kstrtoullDigits s = .ok n ↔ n < 2 ^ 64 ∧ DigitsLine s n := by
  constructor
  · intro h
    unfold kstrtoullDigits at h
    dsimp only at h
    split_ifs at h with hbig hne hrest
    obtain rfl := Except.ok.inj h
    refine ⟨Nat.not_le.1 hbig, _, hne, digits_takeWhile s, rfl, ?_⟩
    have hsplit := List.takeWhile_append_dropWhile (p := Char.isDigit) (l := s)
    by_cases hnil : s.dropWhile Char.isDigit = []
    · left
      rw [hnil, List.append_nil] at hsplit
      exact hsplit.symm
    · right
      have hnewline : s.dropWhile Char.isDigit = ['\n'] := by
        by_contra hother
        exact hrest ⟨hnil, hother⟩
      rw [hnewline] at hsplit
      exact hsplit.symm
  · rintro ⟨hn, hline⟩
    rw [kstrtoullDigits_line hline, if_neg (Nat.not_le.2 hn)]

/-- A number that is read and has to be in a range. -/
theorem checked_ok {r : Except ℤ ℕ} {bad : ℕ → Prop} [DecidablePred bad] {f : ℕ → ℤ} :
    (r >>= fun tmp => if bad tmp then .error erange else .ok (f tmp)) = .ok v ↔
      ∃ n, r = .ok n ∧ ¬ bad n ∧ f n = v := by
  cases r with
  | error e => simp [bind, Except.bind]
  | ok n =>
    by_cases hbad : bad n <;> simp [bind, Except.bind, hbad]

theorem checked_error {r : Except ℤ ℕ} {bad : ℕ → Prop} [DecidablePred bad] {f : ℕ → ℤ} {e : ℤ}
    (hr : ∀ e, r = .error e → e = einval ∨ e = erange)
    (h : (r >>= fun tmp => if bad tmp then .error erange else .ok (f tmp)) = .error e) :
    e = einval ∨ e = erange := by
  cases r with
  | error e' =>
    cases h
    exact hr e rfl
  | ok n =>
    by_cases hbad : bad n
    · simp only [bind, Except.bind, if_pos hbad] at h
      exact .inr (Except.error.inj h).symm
    · simp only [bind, Except.bind, if_neg hbad] at h
      cases h

theorem kstrtoll_ok : kstrtoll s = .ok v ↔ NumberLine s v ∧ -2 ^ 63 ≤ v ∧ v < 2 ^ 63 := by
  have hsign : ∀ {n : ℕ}, DigitsLine s n → s.head? ≠ some '-' ∧ s.head? ≠ some '+' :=
    fun h => ⟨h.head?_ne (by decide), h.head?_ne (by decide)⟩
  rw [numberLine_iff]
  unfold kstrtoll
  split_ifs with hminus hplus
  · obtain ⟨s', rfl⟩ := List.head?_eq_some_iff.1 hminus
    rw [checked_ok]
    simp only [List.tail_cons, kstrtoullDigits_ok]
    constructor
    · rintro ⟨n, ⟨-, hline⟩, hsmall, rfl⟩
      exact ⟨.inr (.inr ⟨s', n, rfl, hline, rfl⟩), by omega, by omega⟩
    · rintro ⟨⟨n, hline, -⟩ | ⟨_, _, heq, -⟩ | ⟨_, n, heq, hline, rfl⟩, hlow, -⟩
      · exact absurd rfl (hsign hline).1
      · cases heq
      · cases heq
        exact ⟨n, ⟨by omega, hline⟩, by omega, rfl⟩
  · obtain ⟨s', rfl⟩ := List.head?_eq_some_iff.1 hplus
    rw [checked_ok]
    simp only [List.tail_cons, kstrtoullDigits_ok]
    constructor
    · rintro ⟨n, ⟨-, hline⟩, hsmall, rfl⟩
      exact ⟨.inr (.inl ⟨s', n, rfl, hline, rfl⟩), by omega, by omega⟩
    · rintro ⟨⟨n, hline, -⟩ | ⟨_, n, heq, hline, rfl⟩ | ⟨_, _, heq, -⟩, -, hhigh⟩
      · exact absurd rfl (hsign hline).2
      · cases heq
        exact ⟨n, ⟨by omega, hline⟩, by omega, rfl⟩
      · cases heq
  · rw [checked_ok]
    simp only [kstrtoullDigits_ok]
    constructor
    · rintro ⟨n, ⟨-, hline⟩, hsmall, rfl⟩
      exact ⟨.inl ⟨n, hline, rfl⟩, by omega, by omega⟩
    · rintro ⟨⟨n, hline, rfl⟩ | ⟨_, _, rfl, -⟩ | ⟨_, _, rfl, -⟩, -, hhigh⟩
      · exact ⟨n, ⟨by omega, hline⟩, by omega, rfl⟩
      · exact absurd rfl hplus
      · exact absurd rfl hminus

/-- **Accepted texts.** A number that fits, maybe with a sign, and maybe with a newline. -/
theorem kstrtoint_ok : kstrtoint s = .ok v ↔ NumberLine s v ∧ IsInt v := by
  unfold kstrtoint
  constructor
  · intro h
    cases hparse : kstrtoll s with
    | error e => simp [hparse, bind, Except.bind] at h
    | ok tmp =>
      simp only [hparse, bind, Except.bind] at h
      split_ifs at h with hint
      obtain rfl := Except.ok.inj h
      exact ⟨(kstrtoll_ok.1 hparse).1, hint⟩
  · rintro ⟨hline, hint⟩
    have hparse : kstrtoll s = .ok v :=
      kstrtoll_ok.2 ⟨hline, by unfold IsInt at hint; omega, by unfold IsInt at hint; omega⟩
    simp [hparse, bind, Except.bind, hint]

/-- A number that does not fit. -/
theorem kstrtoint_erange (h : NumberLine s v) (hint : ¬ IsInt v) : kstrtoint s = .error erange := by
  have hll : kstrtoll s = .ok v ∨ kstrtoll s = .error erange := by
    by_cases hrange : -2 ^ 63 ≤ v ∧ v < 2 ^ 63
    · exact .inl (kstrtoll_ok.2 ⟨h, hrange⟩)
    · right
      obtain ⟨n, hline, rfl⟩ | ⟨s', n, rfl, hline, rfl⟩ | ⟨s', n, rfl, hline, rfl⟩ :=
        numberLine_iff.1 h
      · have hminus := hline.head?_ne (c := '-') (by decide)
        have hplus := hline.head?_ne (c := '+') (by decide)
        rw [kstrtoll, if_neg hminus, if_neg hplus, kstrtoullDigits_line hline]
        split
        · rfl
        · exact if_pos (by omega)
      · rw [kstrtoll, if_neg (by simp), if_pos (by rfl), List.tail_cons, kstrtoullDigits_line hline]
        split
        · rfl
        · exact if_pos (by omega)
      · rw [kstrtoll, if_pos (by rfl), List.tail_cons, kstrtoullDigits_line hline]
        split
        · rfl
        · exact if_pos (by omega)
  rcases hll with hll | hll
  · simp [kstrtoint, hll, bind, Except.bind, hint]
  · simp [kstrtoint, hll, bind, Except.bind]

/-- Nothing else is ever returned. -/
theorem kstrtoint_error {e : ℤ} (h : kstrtoint s = .error e) : e = einval ∨ e = erange := by
  have hdigits : ∀ s' e', kstrtoullDigits s' = .error e' → e' = einval ∨ e' = erange := by
    intro s' e' h'
    unfold kstrtoullDigits at h'
    dsimp only at h'
    split_ifs at h' <;> cases h' <;> simp
  have hll : ∀ e', kstrtoll s = .error e' → e' = einval ∨ e' = erange := by
    intro e' h'
    unfold kstrtoll at h'
    split_ifs at h'
    · exact checked_error (hdigits _) h'
    · exact checked_error (hdigits _) h'
    · exact checked_error (hdigits _) h'
  unfold kstrtoint at h
  cases hparse : kstrtoll s with
  | error e' =>
    rw [hparse] at h
    cases h
    exact hll e hparse
  | ok tmp =>
    simp only [hparse, bind, Except.bind] at h
    split_ifs at h
    exact .inr (Except.error.inj h).symm

/-! ### The attribute -/

/-- The text of a number is not cut. -/
theorem intShow_eq (h : IsInt v) : intShow v = Decimal.text v ++ ['\n'] := by
  refine List.take_of_length_le ?_
  have hpage : pageSize - 1 = 4095 := by decide
  have hlength : (Decimal.text v).length ≤ 11 := Decimal.length_text (by unfold IsInt at h; omega)
  rw [List.length_append, List.length_singleton]
  omega

/-- What is shown can be read. -/
theorem kstrtoint_intShow (h : IsInt v) : kstrtoint (text (intShow v ++ [nul])) = .ok v := by
  have hnul : nul ∉ intShow v := by
    rw [intShow_eq h]
    intro hmem
    rcases List.mem_append.1 hmem with hmem | hmem
    · exact Decimal.notMem_text (by decide) (by decide) hmem
    · revert hmem
      decide
  rw [text_append_nul hnul, intShow_eq h]
  exact kstrtoint_ok.2 ⟨⟨_, signed_text v, .inr rfl⟩, h⟩

/-- What a store does, for a text that is accepted and for one that is not. -/
theorem intStore_cases (dec : ℤ) (buf : List Char) :
    (∃ v, NumberLine (text buf) v ∧ IsInt v ∧ intStore dec buf = ⟨buf.length, v⟩) ∨
    (∀ v, NumberLine (text buf) v → ¬ IsInt v) ∧
      (intStore dec buf = ⟨-einval, dec⟩ ∨ intStore dec buf = ⟨-erange, dec⟩) := by
  unfold intStore
  rw [text_concat_nul]
  cases hparse : kstrtoint (text buf) with
  | ok v =>
    obtain ⟨hline, hint⟩ := kstrtoint_ok.1 hparse
    exact .inl ⟨v, hline, hint, rfl⟩
  | error e =>
    right
    constructor
    · intro v hline hint
      rw [kstrtoint_ok.2 ⟨hline, hint⟩] at hparse
      cases hparse
    · rcases kstrtoint_error hparse with rfl | rfl
      · exact .inl rfl
      · exact .inr rfl

/-- The number is the last one that was accepted. -/
structure Numbered (o : IntObj) : Prop where
  int : IsInt o.dec
  zero : o.last = none → o.dec = 0
  line : ∀ buf, o.last = some buf → NumberLine (text buf) o.dec

theorem Numbered.store (h : Numbered o) (buf : List Char) : Numbered (o.store buf) := by
  unfold IntObj.store
  rcases intStore_cases o.dec buf with ⟨v, hline, hint, hstore⟩ | ⟨-, hstore⟩
  · have hret : ¬ ((buf.length : ℤ) < 0) := by omega
    rw [hstore]
    dsimp only
    rw [if_neg hret]
    exact ⟨hint, nofun, by rintro _ ⟨⟩; exact hline⟩
  · have hret : (intStore o.dec buf).ret < 0 ∧ (intStore o.dec buf).dec = o.dec := by
      rcases hstore with hstore | hstore
      · rw [hstore]
        exact ⟨by simp [einval], rfl⟩
      · rw [hstore]
        exact ⟨by simp [erange], rfl⟩
    rw [if_pos hret.1, hret.2]
    exact h

/-- After any calls. -/
theorem numbered_of_reachable (h : intAttribute.Reachable o) : Numbered o := by
  refine h.invariant ?_ ?_
  · rintro _ rfl
    exact ⟨by decide, fun _ => rfl, nofun⟩
  · intro o call o' _ hnumbered hstep
    cases call with
    | attrShow =>
      obtain rfl := Option.some.inj hstep
      exact hnumbered
    | attrStore buf =>
      obtain rfl := Option.some.inj hstep
      exact hnumbered.store buf

/-- **The number attribute.** After any calls the number is the one that the last accepted text
denotes, and what is shown sets any object to that number.  A text is accepted exactly if it is a
number line whose number is an `int`; otherwise the number stays, and `ERANGE` is returned if it
is a number line. -/
theorem int_round (h : intAttribute.Reachable o) :
    ((o.last = none ∧ o.dec = 0 ∨ ∃ buf, o.last = some buf ∧ NumberLine (text buf) o.dec) ∧
      ∀ dec, intStore dec (intShow o.dec) = ⟨(intShow o.dec).length, o.dec⟩) ∧
    ∀ buf, (∀ v, intStore o.dec buf = ⟨buf.length, v⟩ ↔ NumberLine (text buf) v ∧ IsInt v) ∧
      ((∀ v, NumberLine (text buf) v → ¬ IsInt v) →
        (intStore o.dec buf).dec = o.dec ∧
        ((intStore o.dec buf).ret = -einval ∨ (intStore o.dec buf).ret = -erange) ∧
        ((∃ v, NumberLine (text buf) v) → (intStore o.dec buf).ret = -erange)) := by
  have hnumbered := numbered_of_reachable h
  refine ⟨⟨?_, fun dec => ?_⟩, fun buf => ⟨fun v => ?_, fun hrefused => ?_⟩⟩
  · cases hlast : o.last with
    | none => exact .inl ⟨rfl, hnumbered.zero hlast⟩
    | some buf => exact .inr ⟨buf, rfl, hnumbered.line buf hlast⟩
  · rw [intStore, kstrtoint_intShow hnumbered.int]
  · constructor
    · intro hstore
      rcases intStore_cases o.dec buf with ⟨w, hline, hint, hw⟩ | ⟨-, hneg⟩
      · rw [hw] at hstore
        cases hstore
        exact ⟨hline, hint⟩
      · have hlength : (0 : ℤ) ≤ buf.length := by omega
        rcases hneg with hneg | hneg
        · rw [hneg, IntStored.mk.injEq] at hstore
          simp only [einval] at hstore
          omega
        · rw [hneg, IntStored.mk.injEq] at hstore
          simp only [erange] at hstore
          omega
    · intro hline
      rw [intStore, text_concat_nul, kstrtoint_ok.2 hline]
  · rcases intStore_cases o.dec buf with ⟨w, hline, hint, -⟩ | ⟨-, hneg⟩
    · exact absurd hint (hrefused w hline)
    · refine ⟨?_, ?_, ?_⟩
      · rcases hneg with hneg | hneg <;> rw [hneg]
      · rcases hneg with hneg | hneg
        · exact .inl (by rw [hneg])
        · exact .inr (by rw [hneg])
      · rintro ⟨v, hline⟩
        rw [intStore, text_concat_nul, kstrtoint_erange hline (hrefused v hline)]

/-- `-7`, and a store that is rejected. -/
theorem int_round_rejected :
    ((∀ dec, intStore dec (intShow (-7)) = ⟨(intShow (-7)).length, -7⟩) ∧
      intShow (-7) = ['-', '7', '\n']) ∧
    (∀ v, intStore (-7) ['+', '9'] = ⟨2, v⟩ ↔ NumberLine (text ['+', '9']) v ∧ IsInt v) := by
  have hrun : intAttribute.run ⟨0, none⟩ [.attrStore ['-', '0', '7'], .attrStore ['7', ' ']] =
      some ⟨-7, some ['-', '0', '7']⟩ := by
    decide
  have h := int_round (Machine.reachable_of_run rfl hrun)
  exact ⟨⟨h.1.2, by decide⟩, (h.2 ['+', '9']).1⟩

end EmbeddedC.KernelBuffer
