/-
  PiRlm.Lib.Program

  Programs that run next to each other on one shared state.

  A program performs one operation at a time and goes on with its reply.  The environment
  answers each operation with a label, which says whether and how it fails.  What a call
  ends with is proved by rely and guarantee: the guarantee of each party is what the others
  rely on, and an invariant of the shared state is kept by all of them.
-/
import Mathlib
import PiRlm.Lib.Machine

namespace PiRlm.Lib

/-- A program returns, raises an error, or performs an operation. -/
inductive Program {Op : Type} (Reply : Op → Type) (E α : Type) : Type where
  | done (a : α)
  | raise (e : E)
  | call (o : Op) (next : Except E (Reply o) → Program Reply E α)

namespace Program

variable {Op : Type} {Reply : Op → Type} {E α β : Type}

def bind : Program Reply E α → (α → Program Reply E β) → Program Reply E β
  | done a, f => f a
  | raise e, _ => raise e
  | call o next, f => call o fun r => (next r).bind f

instance : Monad (Program Reply E) where
  pure := done
  bind := bind

/-- One operation; its error is raised. -/
def perform (o : Op) : Program Reply E (Reply o) :=
  call o fun r => match r with
    | .ok a => done a
    | .error e => raise e

/-- The outcome as a value. -/
def attempt : Program Reply E α → Program Reply E (Except E α)
  | done a => done (.ok a)
  | raise e => done (.error e)
  | call o next => call o fun r => (next r).attempt

/-- What a program has ended with. -/
def outcome? : Program Reply E α → Option (Except E α)
  | done a => some (.ok a)
  | raise e => some (.error e)
  | call .. => none

end Program

-- ============================================================================
-- The environment and the parties
-- ============================================================================

/-- How operations act on the shared state, for each label of the environment. -/
structure Device {Op : Type} (Reply : Op → Type) (E L S : Type) where
  perform : (o : Op) → L → S → S × Except E (Reply o)
  /-- The label is a failure of the environment's own making. -/
  fault : L → Bool

/-- What the parties on a shared state promise, what they rely on until their next operation,
    and what they take for granted when they perform it. -/
structure Contract (P Op S : Type) where
  inv : S → Prop
  rely : P → Op → S → S → Prop
  ready : P → Op → S → Prop
  guarantee : P → S → S → Prop
  rely_refl : ∀ p o s, rely p o s s
  rely_trans : ∀ p o s s' s'', rely p o s s' → rely p o s' s'' → rely p o s s''
  keeps : ∀ p s s', inv s → guarantee p s s' → inv s'

section Rules

variable {Op : Type} {Reply : Op → Type} {E L S P α β : Type}
variable (device : Device Reply E L S) (contract : Contract P Op S) (p : P)

/-- The weakest precondition of a program of a party: at every operation it keeps its
    guarantee, and at its end the postcondition holds.  A postcondition is told whether the
    environment has made no failure. -/
def Wp : Program Reply E α → Bool → (Bool → Except E α → S → Prop) → S → Prop
  | .done a, clean, Q, s => contract.inv s → Q clean (.ok a) s
  | .raise e, clean, Q, s => contract.inv s → Q clean (.error e) s
  | .call o next, clean, Q, s => ∀ s', contract.rely p o s s' → contract.inv s' →
      contract.ready p o s' → ∀ l,
      contract.guarantee p s' (device.perform o l s').1 ∧
      Wp (next (device.perform o l s').2) (clean && !device.fault l) Q (device.perform o l s').1

variable {device contract p}
variable {program : Program Reply E α} {clean : Bool} {s s' : S}
  {Q Q' : Bool → Except E α → S → Prop}

theorem Wp.mono (h : Wp device contract p program clean Q s)
    (hpost : ∀ clean r s, contract.inv s → Q clean r s → Q' clean r s) :
    Wp device contract p program clean Q' s := by
  induction program generalizing clean s with
  | done a => exact fun hinv => hpost _ _ s hinv (h hinv)
  | raise e => exact fun hinv => hpost _ _ s hinv (h hinv)
  | call o next ih =>
    intro t ht hinv hready l
    obtain ⟨hguarantee, hnext⟩ := h t ht hinv hready l
    exact ⟨hguarantee, ih _ hnext⟩

/-- A failure of the environment is not forgotten. -/
theorem Wp.since (h : Wp device contract p program clean Q s) :
    Wp device contract p program clean
      (fun clean' r s => (clean' = true → clean = true) ∧ Q clean' r s) s := by
  suffices hsince : ∀ start, (clean = true → start = true) → Wp device contract p program clean
      (fun clean' r s => (clean' = true → start = true) ∧ Q clean' r s) s from hsince clean id
  intro start hstart
  induction program generalizing clean s with
  | done a => exact fun hinv => ⟨hstart, h hinv⟩
  | raise e => exact fun hinv => ⟨hstart, h hinv⟩
  | call o next ih =>
    intro t ht hinv hready l
    obtain ⟨hguarantee, hnext⟩ := h t ht hinv hready l
    exact ⟨hguarantee, ih _ hnext fun hclean => hstart (Bool.and_eq_true_iff.mp hclean).1⟩

theorem Wp.bind {f : α → Program Reply E β} {Q : Bool → Except E β → S → Prop}
    (hinv : contract.inv s)
    (h : Wp device contract p program clean (fun clean r s => match r with
      | .ok a => Wp device contract p (f a) clean Q s
      | .error e => Q clean (.error e) s) s) :
    Wp device contract p (program >>= f) clean Q s := by
  show Wp device contract p (program.bind f) clean Q s
  induction program generalizing clean s with
  | done a => exact h hinv
  | raise e => exact h
  | call o next ih =>
    intro t ht htinv hready l
    obtain ⟨hguarantee, hnext⟩ := h t ht htinv hready l
    exact ⟨hguarantee, ih _ (contract.keeps p t _ htinv hguarantee) hnext⟩

theorem Wp.attempt {Q : Bool → Except E (Except E α) → S → Prop}
    (h : Wp device contract p program clean (fun clean r s => Q clean (.ok r) s) s) :
    Wp device contract p program.attempt clean Q s := by
  induction program generalizing clean s with
  | done a => exact h
  | raise e => exact h
  | call o next ih =>
    intro t ht htinv hready l
    obtain ⟨hguarantee, hnext⟩ := h t ht htinv hready l
    exact ⟨hguarantee, ih _ hnext⟩

/-- The others act before the operation, as the party relies on them to. -/
theorem Wp.perform {o : Op} {Q : Bool → Except E (Reply o) → S → Prop}
    (h : ∀ s' l, contract.rely p o s s' → contract.inv s' → contract.ready p o s' →
      contract.guarantee p s' (device.perform o l s').1 ∧
        (contract.inv (device.perform o l s').1 →
          Q (clean && !device.fault l) (device.perform o l s').2 (device.perform o l s').1)) :
    Wp device contract p (Program.perform o) clean Q s := by
  intro t ht htinv hready l
  obtain ⟨hguarantee, hpost⟩ := h t l ht htinv hready
  refine ⟨hguarantee, ?_⟩
  cases hreply : (device.perform o l t).2 with
  | ok a => exact fun huinv => hreply ▸ hpost huinv
  | error e => exact fun huinv => hreply ▸ hpost huinv

end Rules

-- ============================================================================
-- A party alone
-- ============================================================================

/-- The contract of the only party: it keeps an invariant at every operation. -/
def Contract.alone {Op S : Type} (inv : S → Prop) : Contract Unit Op S where
  inv := inv
  rely _ _ s s' := s = s'
  ready _ _ _ := True
  guarantee _ _ s' := inv s'
  rely_refl _ _ _ := rfl
  rely_trans _ _ _ _ _ h h' := h.trans h'
  keeps _ _ _ _ h := h

section Alone

variable {Op : Type} {Reply : Op → Type} {E L S α β : Type} (device : Device Reply E L S)

/-- An execution: the state it leaves, and the outcome unless the labels run out first. -/
def Program.exec : Program Reply E α → List L → S → S × Option (Except E α)
  | .done a, _, s => (s, some (.ok a))
  | .raise e, _, s => (s, some (.error e))
  | .call _ _, [], s => (s, none)
  | .call o next, l :: ls, s =>
    (next (device.perform o l s).2).exec ls (device.perform o l s).1

/-- A program that leaves the state alone, and ends with this outcome unless the environment
    makes a failure. -/
def Program.Reads (inv : S → Prop) (program : Program Reply E α) (r : Except E α) (s : S) : Prop :=
  ∀ clean, Wp device (.alone inv) () program clean (fun clean' r' s' => s' = s ∧
    ((r' = r ∧ clean' = clean) ∨ clean' = false ∧ ∃ e, r' = .error e)) s

variable {device} {inv : S → Prop} {program : Program Reply E α} {clean : Bool} {s : S}
  {Q : Bool → Except E α → S → Prop}

/-- An execution keeps the invariant, and ends in the postcondition. -/
theorem Wp.exec (h : Wp device (.alone inv) () program clean Q s) (hinv : inv s) (ls : List L) :
    inv (program.exec device ls s).1 ∧
      ∀ r, (program.exec device ls s).2 = some r →
        ∃ used, used <+: ls ∧
          Q (clean && used.all fun l => !device.fault l) r (program.exec device ls s).1 := by
  induction program generalizing clean s ls with
  | done a =>
    refine ⟨hinv, fun r hr => ⟨[], List.nil_prefix, ?_⟩⟩
    obtain rfl := Option.some.inj hr
    rw [List.all_nil, Bool.and_true]
    exact h hinv
  | raise e =>
    refine ⟨hinv, fun r hr => ⟨[], List.nil_prefix, ?_⟩⟩
    obtain rfl := Option.some.inj hr
    rw [List.all_nil, Bool.and_true]
    exact h hinv
  | call o next ih =>
    cases ls with
    | nil => exact ⟨hinv, nofun⟩
    | cons l ls =>
      obtain ⟨hguarantee, hnext⟩ := h s rfl hinv trivial l
      obtain ⟨hkeep, hpost⟩ := ih _ hnext hguarantee ls
      refine ⟨hkeep, fun r hr => ?_⟩
      obtain ⟨used, hused, hQ⟩ := hpost r hr
      refine ⟨l :: used, List.cons_prefix_cons.mpr ⟨rfl, hused⟩, ?_⟩
      rw [List.all_cons, ← Bool.and_assoc]
      exact hQ

variable (device) in
/-- With labels for every operation an execution ends. -/
theorem Program.exec_ends (program : Program Reply E α) (labels : ℕ → L) (s : S) :
    ∃ n r, (program.exec device ((List.range n).map labels) s).2 = some r := by
  induction program generalizing labels s with
  | done a => exact ⟨0, _, rfl⟩
  | raise e => exact ⟨0, _, rfl⟩
  | call o next ih =>
    obtain ⟨n, r, hr⟩ := ih (device.perform o (labels 0) s).2 (labels ∘ Nat.succ)
      (device.perform o (labels 0) s).1
    refine ⟨n + 1, r, ?_⟩
    rw [List.range_succ_eq_map, List.map_cons, List.map_map]
    exact hr

/-- An execution without failures of the environment ends in the clean postcondition. -/
theorem Wp.exec_clean (h : Wp device (.alone inv) () program true Q s) (hinv : inv s)
    (labels : ℕ → L) (hclean : ∀ n, device.fault (labels n) = false) :
    ∃ n r, (program.exec device ((List.range n).map labels) s).2 = some r ∧
      Q true r (program.exec device ((List.range n).map labels) s).1 := by
  obtain ⟨n, r, hr⟩ := Program.exec_ends device program labels s
  obtain ⟨used, hused, hQ⟩ := (h.exec hinv _).2 r hr
  have hall : (used.all fun l => !device.fault l) = true := by
    rw [List.all_eq_true]
    intro l hl
    obtain ⟨k, -, rfl⟩ := List.mem_map.mp (hused.subset hl)
    rw [hclean]
    rfl
  rw [hall] at hQ
  exact ⟨n, r, hr, hQ⟩

/-- One operation of the only party. -/
theorem Wp.perform_alone {o : Op} {Q : Bool → Except E (Reply o) → S → Prop}
    (hop : inv s → ∀ l, inv (device.perform o l s).1 ∧
      Q (clean && !device.fault l) (device.perform o l s).2 (device.perform o l s).1) :
    Wp device (.alone inv) () (Program.perform o) clean Q s := by
  refine Wp.perform ?_
  rintro t l rfl hinv -
  obtain ⟨hkeep, hQ⟩ := hop hinv l
  exact ⟨hkeep, fun _ => hQ⟩

theorem Wp.pure_alone {a : α} (hQ : inv s → Q clean (.ok a) s) :
    Wp device (.alone inv) () (pure a : Program Reply E α) clean Q s :=
  hQ

theorem Wp.raise_alone {e : E} (hQ : inv s → Q clean (.error e) s) :
    Wp device (.alone inv) () (.raise e) clean Q s :=
  hQ

namespace Program.Reads

variable {r : Except E α} {a : α} {e : E} {f : α → Program Reply E β} {r' : Except E β}

theorem pure : Reads device inv (Pure.pure a : Program Reply E α) (.ok a) s :=
  fun _ => Wp.pure_alone fun _ => ⟨rfl, .inl ⟨rfl, rfl⟩⟩

theorem raise : Reads device inv (.raise e : Program Reply E α) (.error e) s :=
  fun _ => Wp.raise_alone fun _ => ⟨rfl, .inl ⟨rfl, rfl⟩⟩

theorem perform {o : Op} {r : Except E (Reply o)}
    (hop : inv s → ∀ l, (device.perform o l s).1 = s ∧
      (device.fault l = false → (device.perform o l s).2 = r) ∧
      (device.fault l = true → ∃ e, (device.perform o l s).2 = .error e)) :
    Reads device inv (Program.perform o) r s := by
  intro clean
  refine Wp.perform_alone fun hinv l => ?_
  obtain ⟨hstate, hok, hfault⟩ := hop hinv l
  rw [hstate]
  refine ⟨hinv, rfl, ?_⟩
  cases hl : device.fault l with
  | false => exact .inl ⟨hok hl, Bool.and_true clean⟩
  | true => exact .inr ⟨Bool.and_false clean, hfault hl⟩

/-- What follows a program that reads starts in the same state. -/
theorem wp_bind (h : Reads device inv program (.ok a) s) {Q : Bool → Except E β → S → Prop}
    (hinv : inv s) (hf : Wp device (.alone inv) () (f a) clean Q s)
    (herror : ∀ e, Q false (.error e) s) :
    Wp device (.alone inv) () (program >>= f) clean Q s := by
  refine Wp.bind hinv ((h clean).mono ?_)
  rintro clean' r' s' - ⟨rfl, ⟨rfl, rfl⟩ | ⟨rfl, e, rfl⟩⟩
  · exact hf
  · exact herror e

theorem bind (h : Reads device inv program (.ok a) s) (hinv : inv s)
    (hf : Reads device inv (f a) r' s) : Reads device inv (program >>= f) r' s :=
  fun clean => h.wp_bind hinv (hf clean) fun e => ⟨rfl, .inr ⟨rfl, e, rfl⟩⟩

theorem bind_error (h : Reads device inv program (.error e) s) (hinv : inv s) :
    Reads device inv (program >>= f) (.error e) s := by
  intro clean
  refine Wp.bind hinv ((h clean).mono ?_)
  rintro clean' r' s' - ⟨rfl, ⟨rfl, rfl⟩ | ⟨rfl, e', rfl⟩⟩
  · exact ⟨rfl, .inl ⟨rfl, rfl⟩⟩
  · exact ⟨rfl, .inr ⟨rfl, e', rfl⟩⟩

end Program.Reads

end Alone

-- ============================================================================
-- Executions without failures
-- ============================================================================

section Clean

variable {Op : Type} {Reply : Op → Type} {E L S α β : Type} (device : Device Reply E L S)

/-- Every execution in which the environment makes no failure ends in the postcondition. -/
def Program.Ends : Program Reply E α → (Except E α → S → Prop) → S → Prop
  | .done a, Q, s => Q (.ok a) s
  | .raise e, Q, s => Q (.error e) s
  | .call o next, Q, s => ∀ l, device.fault l = false →
      (next (device.perform o l s).2).Ends Q (device.perform o l s).1

namespace Program.Ends

variable {device} {program : Program Reply E α} {s : S} {Q Q' : Except E α → S → Prop}

theorem mono (h : program.Ends device Q s) (hpost : ∀ r s, Q r s → Q' r s) :
    program.Ends device Q' s := by
  induction program generalizing s with
  | done a => exact hpost _ _ h
  | raise e => exact hpost _ _ h
  | call o next ih => exact fun l hl => ih _ (h l hl)

theorem bind {f : α → Program Reply E β} {Q : Except E β → S → Prop}
    (h : program.Ends device (fun r s => match r with
      | .ok a => (f a).Ends device Q s
      | .error e => Q (.error e) s) s) : (program >>= f).Ends device Q s := by
  show (program.bind f).Ends device Q s
  induction program generalizing s with
  | done a => exact h
  | raise e => exact h
  | call o next ih => exact fun l hl => ih _ (h l hl)

theorem attempt {Q : Except E (Except E α) → S → Prop}
    (h : program.Ends device (fun r s => Q (.ok r) s) s) : program.attempt.Ends device Q s := by
  induction program generalizing s with
  | done a => exact h
  | raise e => exact h
  | call o next ih => exact fun l hl => ih _ (h l hl)

theorem perform {o : Op} {Q : Except E (Reply o) → S → Prop}
    (h : ∀ l, device.fault l = false → Q (device.perform o l s).2 (device.perform o l s).1) :
    (Program.perform o).Ends device Q s := by
  intro l hl
  have hQ := h l hl
  cases hreply : (device.perform o l s).2 with
  | ok a => rw [hreply] at hQ; exact hQ
  | error e => rw [hreply] at hQ; exact hQ

/-- With labels for every operation there is such an end. -/
theorem exec (h : program.Ends device Q s) (labels : ℕ → L)
    (hclean : ∀ n, device.fault (labels n) = false) :
    ∃ n r, (program.exec device ((List.range n).map labels) s).2 = some r ∧
      Q r (program.exec device ((List.range n).map labels) s).1 := by
  induction program generalizing labels s with
  | done a => exact ⟨0, _, rfl, h⟩
  | raise e => exact ⟨0, _, rfl, h⟩
  | call o next ih =>
    obtain ⟨n, r, hr, hQ⟩ := ih _ (h (labels 0) (hclean 0)) (labels ∘ Nat.succ)
      fun n => hclean (n + 1)
    refine ⟨n + 1, r, ?_⟩
    rw [List.range_succ_eq_map, List.map_cons, List.map_map]
    exact ⟨hr, hQ⟩

end Program.Ends

/-- Every execution without failures ends with this outcome in this state. -/
def Program.EndsIn (program : Program Reply E α) (r : Except E α) (s s' : S) : Prop :=
  program.Ends device (fun r' t => r' = r ∧ t = s') s

namespace Program.EndsIn

variable {device} {program : Program Reply E α} {r : Except E α} {a : α} {e : E} {s s' t : S}
  {f : α → Program Reply E β}

theorem ends (h : program.EndsIn device r s s') {Q : Except E α → S → Prop} (hQ : Q r s') :
    program.Ends device Q s := by
  refine Ends.mono h ?_
  rintro r' t ⟨rfl, rfl⟩
  exact hQ

theorem pure : (Pure.pure a : Program Reply E α).EndsIn device (.ok a) s s :=
  ⟨rfl, rfl⟩

theorem raise : (.raise e : Program Reply E α).EndsIn device (.error e) s s :=
  ⟨rfl, rfl⟩

theorem perform {o : Op} {r : Except E (Reply o)}
    (h : ∀ l, device.fault l = false → device.perform o l s = (s', r)) :
    (Program.perform o).EndsIn device r s s' := by
  apply Ends.perform
  intro l hl
  rw [h l hl]
  exact ⟨rfl, rfl⟩

theorem attempt (h : program.EndsIn device r s s') :
    program.attempt.EndsIn device (.ok r) s s' := by
  apply Ends.attempt
  exact h.ends ⟨rfl, rfl⟩

/-- What follows a program that returns goes on in the state it leaves. -/
theorem bind_ends (h : program.EndsIn device (.ok a) s s') {Q : Except E β → S → Prop}
    (hf : (f a).Ends device Q s') : (program >>= f).Ends device Q s := by
  apply Ends.bind
  exact h.ends hf

theorem bind {r : Except E β} (h : program.EndsIn device (.ok a) s s')
    (hf : (f a).EndsIn device r s' t) : (program >>= f).EndsIn device r s t :=
  h.bind_ends hf

end Program.EndsIn

/-- Every execution in which no operation fails, for whatever reason, ends in the
    postcondition. -/
def Program.Succeeds : Program Reply E α → (Except E α → S → Prop) → S → Prop
  | .done a, Q, s => Q (.ok a) s
  | .raise e, Q, s => Q (.error e) s
  | .call o next, Q, s => ∀ l v, (device.perform o l s).2 = .ok v →
      (next (.ok v)).Succeeds Q (device.perform o l s).1

namespace Program.Succeeds

variable {device} {program : Program Reply E α} {s : S} {Q Q' : Except E α → S → Prop}

theorem mono (h : program.Succeeds device Q s) (hpost : ∀ r s, Q r s → Q' r s) :
    program.Succeeds device Q' s := by
  induction program generalizing s with
  | done a => exact hpost _ _ h
  | raise e => exact hpost _ _ h
  | call o next ih => exact fun l v hv => ih _ (h l v hv)

/-- A failure of the environment fails the operation. -/
theorem of_ends (hfault : ∀ o l s, device.fault l = true → ∃ e, (device.perform o l s).2 = .error e)
    (h : program.Ends device Q s) : program.Succeeds device Q s := by
  induction program generalizing s with
  | done a => exact h
  | raise e => exact h
  | call o next ih =>
    intro l v hv
    cases hl : device.fault l with
    | false =>
      have hnext := h l hl
      rw [hv] at hnext
      exact ih _ hnext
    | true =>
      obtain ⟨e, he⟩ := hfault o l s hl
      rw [hv] at he
      exact absurd he nofun

theorem bind {f : α → Program Reply E β} {Q : Except E β → S → Prop}
    (h : program.Succeeds device (fun r s => match r with
      | .ok a => (f a).Succeeds device Q s
      | .error e => Q (.error e) s) s) : (program >>= f).Succeeds device Q s := by
  show (program.bind f).Succeeds device Q s
  induction program generalizing s with
  | done a => exact h
  | raise e => exact h
  | call o next ih => exact fun l v hv => ih _ (h l v hv)

theorem attempt {Q : Except E (Except E α) → S → Prop}
    (h : program.Succeeds device (fun r s => Q (.ok r) s) s) :
    program.attempt.Succeeds device Q s := by
  induction program generalizing s with
  | done a => exact h
  | raise e => exact h
  | call o next ih => exact fun l v hv => ih _ (h l v hv)

/-- Nothing is to show of an operation that fails in any case. -/
theorem perform_fails {o : Op} {Q : Except E (Reply o) → S → Prop}
    (h : ∀ l, ∃ e, (device.perform o l s).2 = .error e) :
    (Program.perform o).Succeeds device Q s := by
  intro l v hv
  obtain ⟨e, he⟩ := h l
  rw [hv] at he
  exact absurd he nofun

end Program.Succeeds

end Clean

-- ============================================================================
-- Values a program may return
-- ============================================================================

section Returns

variable {Op : Type} {Reply : Op → Type} {E L S α β : Type}

/-- Whatever the operations reply, a value that is returned has the property. -/
def Program.Returns (P : α → Prop) : Program Reply E α → Prop
  | .done a => P a
  | .raise _ => True
  | .call _ next => ∀ r, (next r).Returns P

namespace Program.Returns

variable {program : Program Reply E α} {P : α → Prop} {Q : β → Prop}

theorem bind {f : α → Program Reply E β} (h : program.Returns P)
    (hf : ∀ a, P a → (f a).Returns Q) : (program >>= f).Returns Q := by
  show (program.bind f).Returns Q
  induction program with
  | done a => exact hf a h
  | raise e => trivial
  | call o next ih => exact fun r => ih r (h r)

theorem attempt (h : program.Returns P) :
    program.attempt.Returns fun r => ∀ a, r = .ok a → P a := by
  induction program with
  | done a =>
    rintro b ⟨⟩
    exact h
  | raise e => exact nofun
  | call o next ih => exact fun r => ih r (h r)

/-- Every program returns values. -/
theorem any (program : Program Reply E α) : program.Returns fun _ => True := by
  induction program with
  | done a => trivial
  | raise e => trivial
  | call o next ih => exact fun r => ih r

theorem exec (h : program.Returns P) (device : Device Reply E L S) {ls : List L} {s : S} {a : α}
    (hexec : (program.exec device ls s).2 = some (.ok a)) : P a := by
  induction program generalizing ls s with
  | done b =>
    obtain rfl := Except.ok.inj (Option.some.inj hexec)
    exact h
  | raise e => exact absurd (Option.some.inj hexec) nofun
  | call o next ih =>
    cases ls with
    | nil => exact absurd hexec nofun
    | cons l ls => exact ih _ (h _) hexec

end Program.Returns

end Returns

-- ============================================================================
-- Calls of many parties
-- ============================================================================

/-- A call of a party, with the state it started in and whether the environment has made
    no failure in it. -/
structure PartyCall {Op : Type} (Reply : Op → Type) (E S P α : Type) where
  party : P
  start : S
  clean : Bool
  crashed : Bool
  program : Program Reply E α

/-- A shared state and the calls that have been made on it. -/
structure Pool {Op : Type} (Reply : Op → Type) (E S P α : Type) where
  shared : S
  calls : List (PartyCall Reply E S P α)

inductive PoolStep (P L : Type) where
  /-- A party makes a call. -/
  | start (p : P)
  /-- A call performs its next operation. -/
  | perform (c : Nat) (l : L)
  /-- A call stops for good. -/
  | crash (c : Nat)

namespace Pool

variable {Op : Type} {Reply : Op → Type} {E L S P α : Type}
variable (device : Device Reply E L S) (main : P → Program Reply E α)

def step (st : Pool Reply E S P α) : PoolStep P L → Option (Pool Reply E S P α)
  | .start p => some { st with calls := st.calls ++ [⟨p, st.shared, true, false, main p⟩] }
  | .perform c l =>
    match st.calls[c]? with
    | some ⟨p, start, clean, false, .call o next⟩ =>
      some
        { shared := (device.perform o l st.shared).1
          calls := st.calls.set c ⟨p, start, clean && !device.fault l, false,
            next (device.perform o l st.shared).2⟩ }
    | _ => none
  | .crash c =>
    match st.calls[c]? with
    | some call => some { st with calls := st.calls.set c { call with crashed := true } }
    | none => none

/-- The operation is performed in a state that its call takes for granted, and does nothing
    that another call in progress relies on not being done. -/
def Respects (contract : Contract P Op S) (st : Pool Reply E S P α) : PoolStep P L → Prop
  | .perform c l =>
    match st.calls[c]? with
    | some ⟨p, _, _, false, .call o _⟩ =>
      contract.ready p o st.shared ∧
        ∀ (d : Nat) q start clean o' next, d ≠ c →
          st.calls[d]? = some ⟨q, start, clean, false, .call o' next⟩ →
          contract.rely q o' st.shared (device.perform o l st.shared).1
    | _ => True
  | _ => True

variable {device main} {st st' : Pool Reply E S P α} {contract : Contract P Op S}
variable {post : P → S → Bool → Except E α → S → Prop}

/-- Each call that has not crashed meets the postcondition when it ends. -/
structure Sound (device : Device Reply E L S) (contract : Contract P Op S)
    (post : P → S → Bool → Except E α → S → Prop) (st : Pool Reply E S P α) : Prop where
  inv : contract.inv st.shared
  call : ∀ call ∈ st.calls, call.crashed = false →
    Wp device contract call.party call.program call.clean (post call.party call.start) st.shared

/-- A call that has ended meets the postcondition. -/
theorem Sound.ended (h : Sound device contract post st) {call : PartyCall Reply E S P α}
    (hmem : call ∈ st.calls) (hcrashed : call.crashed = false) {r : Except E α}
    (houtcome : call.program.outcome? = some r) :
    post call.party call.start call.clean r st.shared := by
  have hwp := h.call call hmem hcrashed
  revert hwp houtcome
  cases call.program with
  | done a => exact fun houtcome hwp => Option.some.inj houtcome ▸ hwp h.inv
  | raise e => exact fun houtcome hwp => Option.some.inj houtcome ▸ hwp h.inv
  | call o next => exact fun houtcome => absurd houtcome nofun

/-- A step that respects what the calls rely on keeps what they promise. -/
theorem step_sound {e : PoolStep P L} (h : Sound device contract post st)
    (hmain : ∀ p s, contract.inv s → Wp device contract p (main p) true (post p s) s)
    (hpost : ∀ p start clean r q s s', contract.inv s → contract.guarantee q s s' →
      post p start clean r s → post p start clean r s')
    (hrespects : st.Respects device contract e) (hstep : st.step device main e = some st') :
    Sound device contract post st' := by
  cases e with
  | start p =>
    obtain rfl := Option.some.inj hstep
    refine ⟨h.inv, fun call hmem hcrashed => ?_⟩
    rcases List.mem_append.mp hmem with hmem | hmem
    · exact h.call call hmem hcrashed
    · obtain rfl := List.mem_singleton.mp hmem
      exact hmain p st.shared h.inv
  | perform c l =>
    rw [step] at hstep
    rw [Respects] at hrespects
    split at hstep
    · rename_i p start clean o next hcall
      obtain rfl := Option.some.inj hstep
      rw [hcall] at hrespects
      obtain ⟨hready, hother⟩ := hrespects
      obtain ⟨hguarantee, hnext⟩ := h.call _ (List.mem_of_getElem? hcall) rfl st.shared
        (contract.rely_refl p o _) h.inv hready l
      refine ⟨contract.keeps p _ _ h.inv hguarantee, fun call hmem hcrashed => ?_⟩
      obtain ⟨d, hd⟩ := List.mem_iff_getElem?.mp hmem
      rw [List.getElem?_set] at hd
      split_ifs at hd with hcd
      · obtain rfl := Option.some.inj hd
        exact hnext
      · obtain ⟨q, start', clean', crashed, program⟩ := call
        obtain rfl : crashed = false := hcrashed
        have hcall' := h.call _ (List.mem_of_getElem? hd) rfl
        cases program with
        | done a => exact fun _ => hpost _ _ _ _ p _ _ h.inv hguarantee (hcall' h.inv)
        | raise e => exact fun _ => hpost _ _ _ _ p _ _ h.inv hguarantee (hcall' h.inv)
        | call o' next' =>
          -- what the step does, the other call relies on
          have hrely := hother d q start' clean' o' next' (Ne.symm hcd) hd
          exact fun t ht => hcall' t (contract.rely_trans _ _ _ _ _ hrely ht)
    · exact absurd hstep nofun
  | crash c =>
    rw [step] at hstep
    split at hstep
    · obtain rfl := Option.some.inj hstep
      refine ⟨h.inv, fun call hmem hcrashed => ?_⟩
      obtain ⟨d, hd⟩ := List.mem_iff_getElem?.mp hmem
      rw [List.getElem?_set] at hd
      split_ifs at hd with hcd
      · -- the crashed call promises nothing
        obtain rfl := Option.some.inj hd
        exact absurd hcrashed nofun
      · exact h.call call (List.mem_of_getElem? hd) hcrashed
    · exact absurd hstep nofun

/-- In every run whose steps respect what the calls rely on, the calls keep what they promise. -/
theorem run_sound {s : S} {es : List (PoolStep P L)} (hinv : contract.inv s)
    (hmain : ∀ p s, contract.inv s → Wp device contract p (main p) true (post p s) s)
    (hpost : ∀ p start clean r q s s', contract.inv s → contract.guarantee q s s' →
      post p start clean r s → post p start clean r s')
    (hrun : Machine.run (step device main) ⟨s, []⟩ es = some st)
    (halong : Machine.Along (step device main) (fun st e => st.Respects device contract e)
      ⟨s, []⟩ es) :
    Sound device contract post st :=
  Machine.run_invariant
    (fun _ _ _ hsound hrespects hstep => step_sound hsound hmain hpost hrespects hstep)
    ⟨hinv, fun _ hmem => absurd hmem List.not_mem_nil⟩ halong hrun

-- ============================================================================
-- Calls end
-- ============================================================================

/-- A step leaves the program of a call alone, or performs its operation. -/
theorem step_call {e : PoolStep P L} (hstep : st.step device main e = some st') {c : Nat}
    {call : PartyCall Reply E S P α} (hcall : st.calls[c]? = some call) :
    ∃ call', st'.calls[c]? = some call' ∧
      ((call'.program = call.program ∧ ∀ l, e ≠ .perform c l) ∨
        ∃ l o next r, e = .perform c l ∧ call.program = .call o next ∧ call'.program = next r) := by
  have hlt : c < st.calls.length := (List.getElem?_eq_some_iff.mp hcall).1
  cases e with
  | start p =>
    obtain rfl := Option.some.inj hstep
    exact ⟨call, (List.getElem?_append_left hlt).trans hcall, .inl ⟨rfl, nofun⟩⟩
  | perform d l =>
    rw [step] at hstep
    split at hstep
    · rename_i p start clean o next hd
      obtain rfl := Option.some.inj hstep
      by_cases hcd : d = c
      · subst hcd
        obtain rfl := Option.some.inj (hd.symm.trans hcall)
        exact ⟨_, List.getElem?_set_self hlt, .inr ⟨l, o, next, _, rfl, rfl, rfl⟩⟩
      · refine ⟨call, (List.getElem?_set_ne hcd).trans hcall, .inl ⟨rfl, fun l' heq => hcd ?_⟩⟩
        exact (PoolStep.perform.inj heq).1
    · exact absurd hstep nofun
  | crash d =>
    rw [step] at hstep
    split at hstep
    · rename_i call' hd
      obtain rfl := Option.some.inj hstep
      by_cases hcd : d = c
      · subst hcd
        obtain rfl := Option.some.inj (hd.symm.trans hcall)
        exact ⟨_, List.getElem?_set_self hlt, .inl ⟨rfl, nofun⟩⟩
      · exact ⟨call, (List.getElem?_set_ne hcd).trans hcall, .inl ⟨rfl, nofun⟩⟩
    · exact absurd hstep nofun

/-- Until a call performs an operation it stays as it is. -/
theorem call_of_idle {states : ℕ → Pool Reply E S P α} {steps : ℕ → PoolStep P L}
    (hsteps : ∀ n, (states n).step device main (steps n) = some (states (n + 1))) {c n : Nat}
    {call : PartyCall Reply E S P α} (hcall : (states n).calls[c]? = some call) (k : Nat)
    (hidle : ∀ m, n ≤ m → m < n + k → ∀ l, steps m ≠ .perform c l) :
    ∃ call', (states (n + k)).calls[c]? = some call' ∧ call'.program = call.program := by
  induction k with
  | zero => exact ⟨call, hcall, rfl⟩
  | succ k ih =>
    obtain ⟨call', hcall', hprogram⟩ := ih fun m hn hm => hidle m hn (by omega)
    obtain ⟨call'', hcall'', ⟨hsame, -⟩ | ⟨l, o, next, r, heq, -⟩⟩ :=
      step_call (hsteps (n + k)) hcall'
    · exact ⟨call'', hcall'', hsame.trans hprogram⟩
    · exact absurd heq (hidle (n + k) (by omega) (by omega) l)

/-- The next operation that a call performs is the one that its program comes to. -/
theorem exists_performed {states : ℕ → Pool Reply E S P α} {steps : ℕ → PoolStep P L}
    (hsteps : ∀ n, (states n).step device main (steps n) = some (states (n + 1))) {c n : Nat}
    {call : PartyCall Reply E S P α} (hcall : (states n).calls[c]? = some call)
    (hperform : ∃ k l, steps (n + k) = .perform c l) :
    ∃ m call' o next r, (states m).calls[c]? = some call' ∧ call.program = .call o next ∧
      call'.program = next r := by
  classical
  obtain ⟨l, hl⟩ := Nat.find_spec hperform
  obtain ⟨call', hcall', hprogram⟩ := call_of_idle hsteps hcall (Nat.find hperform)
    fun m hm hlt l' heq => Nat.find_min hperform (m := m - n) (by omega)
      ⟨l', by rw [Nat.add_sub_cancel' hm]; exact heq⟩
  obtain ⟨call'', hcall'', ⟨-, hother⟩ | ⟨-, o, next, r, -, heq, hnext⟩⟩ :=
    step_call (hsteps (n + Nat.find hperform)) hcall'
  · exact absurd hl (hother l)
  · exact ⟨_, call'', o, next, r, hcall'', hprogram.symm.trans heq, hnext⟩

/-- No call performs operations for ever, whatever the others do. -/
theorem perform_finite {states : ℕ → Pool Reply E S P α} {steps : ℕ → PoolStep P L}
    (hsteps : ∀ n, (states n).step device main (steps n) = some (states (n + 1))) (c : Nat) :
    ∃ n, ∀ m ≥ n, ∀ l, steps m ≠ .perform c l := by
  by_contra hforever
  push Not at hforever
  have hagain : ∀ n, ∃ k l, steps (n + k) = .perform c l := by
    intro n
    obtain ⟨m, hm, l, hl⟩ := hforever n
    exact ⟨m - n, l, by rw [Nat.add_sub_cancel' hm]; exact hl⟩
  have hnone : ∀ (program : Program Reply E α) n call, (states n).calls[c]? = some call →
      call.program ≠ program := by
    intro program
    induction program with
    | done a =>
      intro n call hcall hprogram
      obtain ⟨-, -, o, next, -, -, heq, -⟩ := exists_performed hsteps hcall (hagain n)
      exact absurd (hprogram.symm.trans heq) nofun
    | raise e =>
      intro n call hcall hprogram
      obtain ⟨-, -, o, next, -, -, heq, -⟩ := exists_performed hsteps hcall (hagain n)
      exact absurd (hprogram.symm.trans heq) nofun
    | call o next ih =>
      intro n call hcall hprogram
      obtain ⟨m, call', o', next', r, hcall', heq, hnext⟩ :=
        exists_performed hsteps hcall (hagain n)
      obtain ⟨rfl, hsame⟩ := Program.call.inj (hprogram.symm.trans heq)
      obtain rfl := eq_of_heq hsame
      exact ih r m call' hcall' hnext
  obtain ⟨m, -, l, hl⟩ := hforever 0
  have hstep := hsteps m
  rw [hl, step] at hstep
  split at hstep
  · rename_i hcall
    exact hnone _ m _ hcall rfl
  · exact absurd hstep nofun

end Pool

end PiRlm.Lib
