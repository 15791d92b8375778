/-
  PiRlm.Runtime.WriterSchedulerRuns

  The queue of a writer scheduler, and what its runs keep.

  A transition closes admission and is the last job, so it begins when all admitted work is
  done.
-/
import Mathlib
import PiRlm.Runtime.WriterSchedulerSound

namespace PiRlm.Runtime

def Job.isTransition : Job → Bool
  | .effect _ => false
  | .release => true
  | .terminal _ => true

/-- The phases of a transition that belong to a job. -/
def Job.runs : Job → Transition → Bool
  | _, .waiting => false
  | .effect _, _ => false
  | .release, .releasing => true
  | .release, .settled outcome => outcome != .guardRejected
  | .release, _ => false
  | .terminal _, .releasing => false
  | .terminal _, _ => true

theorem Job.isTransition_of_runs {job : Job} {transition : Transition}
    (h : job.runs transition = true) : job.isTransition = true := by
  cases job with
  | effect c => cases transition <;> cases h
  | release | terminal guarded => rfl

namespace WriterScheduler

open PiRlm.Lib

variable {st st' : WriterScheduler}

/-! ## The queue -/

structure QueueInv (st : WriterScheduler) : Prop where
  /-- A queued call that has started is the job at the head. -/
  head : ∀ (c : Nat) (call : OwnedCall), st.calls[c]? = some call → call.route = .queued →
    call.status ≠ .waiting → call.status.isSettled = false → st.tail.head? = some (.effect c)
  effects : ∀ c, Job.effect c ∈ st.tail → ∃ call, st.calls[c]? = some call ∧
    call.route = .queued ∧ call.status.isSettled = false
  nodup : st.tail.Nodup
  /-- A transition closes admission and is the last job. -/
  last : ∀ before job after, st.tail = before ++ job :: after → job.isTransition = true →
    after = [] ∧ st.accepting = false
  releases : st.releaseInFlight = false → Job.release ∉ st.tail
  terminals : st.terminalInFlight = false → ∀ guarded, Job.terminal guarded ∉ st.tail
  begun : st.transition ≠ .waiting →
    ∃ job, st.tail.head? = some job ∧ job.runs st.transition = true

/-- Admission is closed and no effect waits in the queue. -/
def Drained (st : WriterScheduler) : Prop :=
  st.accepting = false ∧ ∀ c, Job.effect c ∉ st.tail

theorem QueueInv.drained (h : QueueInv st) (hbegun : st.transition ≠ .waiting) : st.Drained := by
  obtain ⟨job, hhead, hruns⟩ := h.begun hbegun
  have hjob := Job.isTransition_of_runs hruns
  obtain ⟨rest, htail⟩ := List.head?_eq_some_iff.mp hhead
  obtain ⟨hrest, haccepting⟩ := h.last [] job rest htail hjob
  refine ⟨haccepting, fun c hmem => ?_⟩
  rw [htail, hrest, List.mem_singleton] at hmem
  rw [← hmem] at hjob
  cases hjob

/-- The parts of the state that the queue invariant is about, apart from the calls. -/
theorem QueueInv.congr (h : QueueInv st) (hcalls : st'.calls = st.calls)
    (htail : st'.tail = st.tail)
    (haccepting : st'.accepting = true → st.accepting = true)
    (hrelease : st'.releaseInFlight = st.releaseInFlight)
    (hterminal : st'.terminalInFlight = st.terminalInFlight)
    (htransition : st'.transition ≠ .waiting →
      (st.transition ≠ .waiting ∧
        ∀ job : Job, job.runs st.transition = true → job.runs st'.transition = true) ∨
      ∃ job, st.tail.head? = some job ∧ job.runs st'.transition = true) : QueueInv st' := by
  constructor
  · rw [hcalls, htail]
    exact h.head
  · rw [hcalls, htail]
    exact h.effects
  · rw [htail]
    exact h.nodup
  · intro before job after hsplit hjob
    obtain ⟨hafter, hclosed⟩ := h.last before job after (htail ▸ hsplit) hjob
    refine ⟨hafter, ?_⟩
    cases hopen : st'.accepting with
    | false => rfl
    | true =>
      rw [haccepting hopen] at hclosed
      cases hclosed
  · rw [hrelease, htail]
    exact h.releases
  · rw [hterminal, htail]
    exact h.terminals
  · rw [htail]
    intro hne
    rcases htransition hne with ⟨hbegun, hruns⟩ | hjob
    · obtain ⟨job, hhead, hjob⟩ := h.begun hbegun
      exact ⟨job, hhead, hruns job hjob⟩
    · exact hjob

/-- A call outside the queue. -/
theorem QueueInv.addCall (h : QueueInv st) {route : Route} {status : CallStatus}
    (hroute : route = .queued → status = .waiting) : QueueInv (st.addCall route status) where
  head c call hcall hqueued hstarted hsettled := by
    rcases getElem?_addCall hcall with hcall | ⟨-, rfl⟩
    · exact h.head c call hcall hqueued hstarted hsettled
    · exact absurd (hroute hqueued) hstarted
  effects c hmem := by
    obtain ⟨call, hcall, hqueued, hsettled⟩ := h.effects c hmem
    refine ⟨call, ?_, hqueued, hsettled⟩
    rw [WriterScheduler.addCall, List.getElem?_append_left (List.getElem?_eq_some_iff.mp hcall).1]
    exact hcall
  nodup := h.nodup
  last := h.last
  releases := h.releases
  terminals := h.terminals
  begun := h.begun

theorem QueueInv.admitCall (h : QueueInv st) : QueueInv st.admitCall := by
  rw [WriterScheduler.admitCall]
  split_ifs with haccepting
  · have hadd : QueueInv (st.addCall .queued .waiting) := h.addCall fun _ => rfl
    have hnew : Job.effect st.calls.length ∉ st.tail := fun hmem => by
      obtain ⟨call, hcall, -⟩ := h.effects _ hmem
      exact Nat.lt_irrefl _ (List.getElem?_eq_some_iff.mp hcall).1
    have hself : (st.addCall .queued .waiting).calls[st.calls.length]? =
        some { route := .queued, status := .waiting, scope := none } :=
      List.getElem?_concat_length
    constructor
    · intro c call hcall hqueued hstarted hsettled
      have hhead := hadd.head c call hcall hqueued hstarted hsettled
      obtain ⟨rest, htail⟩ := List.head?_eq_some_iff.mp hhead
      have htail : st.tail = .effect c :: rest := htail
      show (st.tail ++ [Job.effect st.calls.length]).head? = some (.effect c)
      rw [htail]
      rfl
    · intro c hmem
      rcases List.mem_append.mp hmem with hold | hlast
      · exact hadd.effects c hold
      · obtain rfl := Job.effect.inj (List.mem_singleton.mp hlast)
        exact ⟨_, hself, rfl, rfl⟩
    · exact List.nodup_append.mpr ⟨h.nodup, List.nodup_singleton _, fun job hjob last hlast heq =>
        hnew (List.mem_singleton.mp hlast ▸ heq ▸ hjob)⟩
    · intro before job after hsplit hjob
      -- there is no transition in the queue, since admission is open
      have hmem : job ∈ st.tail ++ [Job.effect st.calls.length] := by
        show job ∈ ({ st.addCall .queued .waiting with
          tail := st.tail ++ [.effect st.calls.length] } : WriterScheduler).tail
        rw [hsplit]
        exact List.mem_append_right _ List.mem_cons_self
      rcases List.mem_append.mp hmem with hold | hlast
      · obtain ⟨before', after', hsplit'⟩ := List.append_of_mem hold
        rw [(h.last before' job after' hsplit' hjob).2] at haccepting
        cases haccepting
      · rw [List.mem_singleton.mp hlast] at hjob
        cases hjob
    · intro hflag hmem
      rcases List.mem_append.mp hmem with hold | hlast
      · exact h.releases hflag hold
      · cases List.mem_singleton.mp hlast
    · intro hflag guarded hmem
      rcases List.mem_append.mp hmem with hold | hlast
      · exact h.terminals hflag guarded hold
      · cases List.mem_singleton.mp hlast
    · intro hne
      obtain ⟨job, hhead, hjob⟩ := h.begun hne
      obtain ⟨rest, htail⟩ := List.head?_eq_some_iff.mp hhead
      refine ⟨job, ?_, hjob⟩
      show (st.tail ++ [Job.effect st.calls.length]).head? = some job
      rw [htail]
      rfl
  · exact h.addCall (by rintro ⟨⟩)

theorem QueueInv.call (h : QueueInv st) (method : OwnedMethod) (inherited : Inherited) :
    QueueInv (st.call method inherited) := by
  cases inherited with
  | none => exact h.admitCall
  | foreign isOpen =>
    cases isOpen with
    | true => exact h.addCall (by rintro ⟨⟩)
    | false => exact h.admitCall
  | own scope =>
    rw [WriterScheduler.call]
    split_ifs with hopen
    · cases method with
      | run =>
        have hadd : QueueInv (st.addCall (.inline scope true) .executing) := h.addCall (by rintro ⟨⟩)
        exact hadd.congr rfl rfl id rfl rfl fun hne => .inl ⟨hne, fun _ => id⟩
      | runOwnedTransaction => exact h.addCall (by rintro ⟨⟩)
      | runOwnedOperation => exact h.addCall (by rintro ⟨⟩)
    · exact h.admitCall

/-- A transition is queued behind all admitted work. -/
theorem QueueInv.enqueue (h : QueueInv st) (hclosed : st.accepting = false) {job : Job}
    (hjob : job.isTransition = true) (hrelease : st.releaseInFlight = false)
    (hterminal : st.terminalInFlight = false)
    (hcalls : st'.calls = st.calls) (htail : st'.tail = st.tail ++ [job])
    (haccepting : st'.accepting = st.accepting)
    (hflag : st'.releaseInFlight = false → job ≠ .release)
    (hflag' : st'.terminalInFlight = false → ∀ guarded, job ≠ .terminal guarded)
    (htransition : st'.transition = st.transition) : QueueInv st' := by
  have hnone : ∀ old ∈ st.tail, old.isTransition = false := by
    intro old hold
    cases old with
    | effect c => rfl
    | release => exact absurd hold (h.releases hrelease)
    | terminal guarded => exact absurd hold (h.terminals hterminal guarded)
  have hnew : job ∉ st.tail := fun hmem => by
    rw [hnone job hmem] at hjob
    cases hjob
  constructor
  · intro c call hcall hqueued hstarted hsettled
    have hhead := h.head c call (hcalls ▸ hcall) hqueued hstarted hsettled
    obtain ⟨rest, hrest⟩ := List.head?_eq_some_iff.mp hhead
    rw [htail, hrest]
    rfl
  · intro c hmem
    rw [htail] at hmem
    rcases List.mem_append.mp hmem with hold | hlast
    · rw [hcalls]
      exact h.effects c hold
    · rw [← List.mem_singleton.mp hlast] at hjob
      cases hjob
  · rw [htail]
    exact List.nodup_append.mpr ⟨h.nodup, List.nodup_singleton _, fun old hold last hlast heq =>
      hnew (List.mem_singleton.mp hlast ▸ heq ▸ hold)⟩
  · intro before old after hsplit hold
    rw [htail] at hsplit
    refine ⟨?_, haccepting.trans hclosed⟩
    rcases List.eq_nil_or_concat after with hnil | ⟨after', last, hconcat⟩
    · exact hnil
    · rw [hconcat, List.concat_eq_append, ← List.cons_append, ← List.append_assoc] at hsplit
      have hmem : old ∈ st.tail := by
        rw [(List.append_inj' hsplit rfl).1]
        exact List.mem_append_right _ List.mem_cons_self
      rw [hnone old hmem] at hold
      cases hold
  · intro hoff hmem
    rw [htail] at hmem
    rcases List.mem_append.mp hmem with hold | hlast
    · exact h.releases hrelease hold
    · exact hflag hoff (List.mem_singleton.mp hlast).symm
  · intro hoff guarded hmem
    rw [htail] at hmem
    rcases List.mem_append.mp hmem with hold | hlast
    · exact h.terminals hterminal guarded hold
    · exact hflag' hoff guarded (List.mem_singleton.mp hlast).symm
  · rw [htransition, htail]
    intro hne
    obtain ⟨first, hhead, hfirst⟩ := h.begun hne
    obtain ⟨rest, hrest⟩ := List.head?_eq_some_iff.mp hhead
    rw [hrest]
    exact ⟨first, rfl, hfirst⟩

theorem QueueInv.close (h : QueueInv st) : QueueInv { st with accepting := false } :=
  h.congr rfl rfl nofun rfl rfl fun hne => .inl ⟨hne, fun _ => id⟩

theorem QueueInv.terminal (h : QueueInv st) (guarded : Bool) (inherited : Inherited) :
    QueueInv (st.terminal guarded inherited).1 := by
  have henqueue : QueueInv (terminal.enqueue guarded { st with accepting := false }).1 := by
    rw [terminal.enqueue]
    split_ifs with hreleased hrelease hterminal
    · exact h.close
    · exact h.close
    · exact h.close
    · exact h.close.enqueue rfl rfl (Bool.not_eq_true _ ▸ hrelease) (Bool.not_eq_true _ ▸ hterminal)
        rfl rfl rfl (by rintro _ ⟨⟩) (by rintro ⟨⟩) rfl
  rw [WriterScheduler.terminal]
  split_ifs
  · exact h
  · split
    · split_ifs
      · exact h.close
      · exact henqueue
    · exact henqueue

theorem QueueInv.release (h : QueueInv st) (inherited : Inherited) :
    QueueInv (st.release inherited).1 := by
  have henqueue : QueueInv (release.enqueue { st with accepting := false }).1 := by
    rw [release.enqueue]
    split_ifs with hreleased hterminal hrelease
    · exact h.close
    · exact h.close
    · exact h.close
    · exact h.close.enqueue rfl rfl (Bool.not_eq_true _ ▸ hrelease) (Bool.not_eq_true _ ▸ hterminal)
        rfl rfl rfl (by simp) (by simp) rfl
  rw [WriterScheduler.release]
  split_ifs
  · exact h
  · split
    · split_ifs
      · exact h.close
      · exact henqueue
    · exact henqueue

/-- A call goes on, or a queued one starts at the head of the queue. -/
theorem QueueInv.setCall (h : QueueInv st) {c : Nat} {old new : OwnedCall}
    (hold : st.calls[c]? = some old) (hroute : new.route = old.route)
    (hunsettled : old.status.isSettled = false)
    (hsettled : old.route = .queued → new.status.isSettled = false)
    (hstarted : old.route = .queued → old.status ≠ .waiting ∨
      st.tail.head? = some (.effect c)) : QueueInv (st.setCall c new) where
  head k call hcall hqueued hrunning hcallSettled := by
    rcases setCall_cases hold hcall with ⟨rfl, rfl⟩ | ⟨-, hcall⟩
    · rw [hroute] at hqueued
      exact (hstarted hqueued).elim
        (fun hne => h.head k old hold hqueued hne hunsettled) id
    · exact h.head k call hcall hqueued hrunning hcallSettled
  effects k hmem := by
    obtain ⟨call, hcall, hqueued, hcallSettled⟩ := h.effects k hmem
    by_cases hk : k = c
    · subst hk
      obtain rfl := Option.some.inj (hold.symm.trans hcall)
      exact ⟨new, setCall_self new hold, hroute.trans hqueued, hsettled hqueued⟩
    · exact ⟨call, (setCall_ne new hold hk).trans hcall, hqueued, hcallSettled⟩
  nodup := h.nodup
  last := h.last
  releases := h.releases
  terminals := h.terminals
  begun := h.begun

/-- The job at the head leaves the queue. -/
theorem QueueInv.pop (h : QueueInv st) {job : Job} {rest : List Job} (htail : st.tail = job :: rest)
    (hcalls : ∀ (c : Nat) (call : OwnedCall), st'.calls[c]? = some call → call.route = .queued →
      call.status ≠ .waiting → call.status.isSettled = false → job ≠ .effect c ∧
        st.calls[c]? = some call)
    (heffects : ∀ (c : Nat) (call : OwnedCall), job ≠ .effect c → st.calls[c]? = some call →
      st'.calls[c]? = some call)
    (hrest : st'.tail = rest) (haccepting : rest ≠ [] → st'.accepting = st.accepting)
    (hrelease : st'.releaseInFlight = false → st.releaseInFlight = false ∨ job = .release)
    (hterminal : st'.terminalInFlight = false → st.terminalInFlight = false ∨
      ∃ guarded, job = .terminal guarded)
    (htransition : st'.transition = .waiting) : QueueInv st' := by
  have hnodup : job ∉ rest ∧ rest.Nodup := List.nodup_cons.mp (htail ▸ h.nodup)
  constructor
  · intro c call hcall hqueued hstarted hsettled
    obtain ⟨hne, hcall⟩ := hcalls c call hcall hqueued hstarted hsettled
    have hhead := h.head c call hcall hqueued hstarted hsettled
    rw [htail] at hhead
    exact absurd (Option.some.inj hhead) hne
  · intro c hmem
    rw [hrest] at hmem
    obtain ⟨call, hcall, hqueued, hsettled⟩ := h.effects c (htail ▸ List.mem_cons_of_mem _ hmem)
    have hne : job ≠ .effect c := fun heq => hnodup.1 (heq ▸ hmem)
    exact ⟨call, heffects c call hne hcall, hqueued, hsettled⟩
  · exact hrest ▸ hnodup.2
  · intro before old after hsplit hold
    rw [hrest] at hsplit
    have hne : rest ≠ [] := hsplit ▸ List.append_ne_nil_of_right_ne_nil _ (List.cons_ne_nil _ _)
    have hfull : st.tail = (job :: before) ++ old :: after := by rw [htail, hsplit]; rfl
    obtain ⟨hafter, hclosed⟩ := h.last (job :: before) old after hfull hold
    exact ⟨hafter, (haccepting hne).trans hclosed⟩
  · intro hoff hmem
    rw [hrest] at hmem
    rcases hrelease hoff with hold | rfl
    · exact h.releases hold (htail ▸ List.mem_cons_of_mem _ hmem)
    · exact hnodup.1 hmem
  · intro hoff guarded hmem
    rw [hrest] at hmem
    rcases hterminal hoff with hold | ⟨own, rfl⟩
    · exact h.terminals hold guarded (htail ▸ List.mem_cons_of_mem _ hmem)
    · have hempty := (h.last [] (.terminal own) rest htail rfl).1
      rw [hempty] at hmem
      cases hmem
  · exact fun hne => absurd htransition hne

/-- A transition runs only while the head of the queue is one. -/
theorem QueueInv.transition_waiting (h : QueueInv st) {c : Nat}
    (hhead : st.tail.head? = some (.effect c)) : st.transition = .waiting := by
  by_contra hne
  obtain ⟨job, hjob, hruns⟩ := h.begun hne
  obtain rfl := Option.some.inj (hjob.symm.trans hhead)
  cases Job.isTransition_of_runs hruns

theorem QueueInv.settleFenced (h : QueueInv st) {c : Nat} {call : OwnedCall} {ok : Bool}
    (hcall : st.calls[c]? = some call) (hstarted : call.status ≠ .waiting)
    (hsettled : call.status.isSettled = false) : QueueInv (st.settleFenced c call ok) := by
  rw [WriterScheduler.settleFenced]
  split_ifs with hqueued
  · have hhead := h.head c call hcall hqueued hstarted hsettled
    obtain ⟨rest, htail⟩ := List.head?_eq_some_iff.mp hhead
    refine h.pop htail ?_ ?_ (congrArg List.tail htail) (fun _ => rfl) .inl .inl
      (h.transition_waiting hhead)
    · intro k other hother _ _ hunsettled
      rcases setCall_cases hcall hother with ⟨rfl, rfl⟩ | ⟨hne, hother⟩
      · cases hunsettled
      · exact ⟨fun heq => hne (Job.effect.inj heq).symm, hother⟩
    · intro k other hne hother
      have hk : k ≠ c := fun heq => hne (congrArg Job.effect heq.symm)
      exact (setCall_ne _ hcall hk).trans hother
  · exact h.setCall hcall rfl hsettled (fun hbad => absurd hbad hqueued)
      fun hbad => absurd hbad hqueued

theorem QueueInv.advance (h : QueueInv st) {c : Nat} {call : OwnedCall} {e : Event}
    (hcall : st.calls[c]? = some call) (hstep : st.advance c call e = some st') :
    QueueInv st' := by
  cases e with
  | preFence k ok =>
    rw [WriterScheduler.advance] at hstep
    split_ifs at hstep with hstatus hok
    · obtain rfl := Option.some.inj hstep
      have hset : QueueInv (st.setCall c
          { call with status := .executing, scope := some st.scopes.length }) :=
        h.setCall hcall rfl (by rw [hstatus]; rfl) (fun _ => rfl)
          fun _ => .inl (by rw [hstatus]; rintro ⟨⟩)
      exact hset.congr rfl rfl id rfl rfl fun hne => .inl ⟨hne, fun _ => id⟩
    · obtain rfl := Option.some.inj hstep
      exact h.settleFenced hcall (by rw [hstatus]; rintro ⟨⟩) (by rw [hstatus]; rfl)
  | settle k ok =>
    rw [WriterScheduler.advance] at hstep
    split_ifs at hstep with hstatus
    split at hstep
    · rename_i scope tracked hroute
      obtain rfl := Option.some.inj hstep
      refine h.setCall hcall rfl (by rw [hstatus]; rfl) (fun hbad => ?_) fun hbad => ?_
      · rw [hroute] at hbad
        cases hbad
      · rw [hroute] at hbad
        cases hbad
    · obtain rfl := Option.some.inj hstep
      exact h.setCall hcall rfl (by rw [hstatus]; rfl) (fun _ => rfl)
        fun _ => .inl (by rw [hstatus]; rintro ⟨⟩)
  | drained k =>
    rw [WriterScheduler.advance] at hstep
    split at hstep
    · rename_i ok scope hstatus hscope
      split_ifs at hstep with hchildren
      obtain rfl := Option.some.inj hstep
      have hset : QueueInv (st.setCall c
          { call with status := .postFence (ok && st.childrenOk scope) }) :=
        h.setCall hcall rfl (by rw [hstatus]; rfl) (fun _ => rfl)
          fun _ => .inl (by rw [hstatus]; rintro ⟨⟩)
      exact hset.congr rfl rfl id rfl rfl fun hne => .inl ⟨hne, fun _ => id⟩
    · cases hstep
  | postFence k ok =>
    rw [WriterScheduler.advance] at hstep
    split at hstep
    · rename_i primaryOk hstatus
      obtain rfl := Option.some.inj hstep
      exact h.settleFenced hcall (by rw [hstatus]; rintro ⟨⟩) (by rw [hstatus]; rfl)
    · cases hstep
  | _ => cases hstep

theorem QueueInv.startTerminal (h : QueueInv st) {guarded : Bool}
    (hhead : st.tail.head? = some (.terminal guarded)) : QueueInv st.startTerminal :=
  h.congr rfl rfl id rfl rfl fun _ => .inr ⟨_, hhead, rfl⟩

theorem QueueInv.guardTerminal (h : QueueInv st) {guarded : Bool}
    (hhead : st.tail.head? = some (.terminal guarded)) :
    QueueInv (st.guardTerminal guarded) := by
  rw [WriterScheduler.guardTerminal]
  split_ifs
  · exact h.congr rfl rfl id rfl rfl fun _ => .inr ⟨_, hhead, rfl⟩
  · exact h.startTerminal hhead

theorem QueueInv.start (h : QueueInv st) (hstep : st.start = some st') : QueueInv st' := by
  rw [WriterScheduler.start] at hstep
  split at hstep
  · cases hstep
  · rename_i c rest htail
    split at hstep
    · rename_i call hcall
      split_ifs at hstep with hstatus
      obtain rfl := Option.some.inj hstep
      refine h.setCall hcall rfl (by rw [hstatus]; rfl) (fun _ => rfl) fun _ => .inr ?_
      rw [htail]
      rfl
    · cases hstep
  · rename_i rest htail
    split_ifs at hstep
    obtain rfl := Option.some.inj hstep
    refine h.congr rfl rfl id rfl rfl fun _ => .inr ⟨.release, ?_, rfl⟩
    rw [htail]
    rfl
  · rename_i guarded rest htail
    have hhead : st.tail.head? = some (.terminal guarded) := by
      rw [htail]
      rfl
    split_ifs at hstep with hwaiting hprepared
    · obtain rfl := Option.some.inj hstep
      exact h.guardTerminal hhead
    · obtain rfl := Option.some.inj hstep
      exact h.congr rfl rfl id rfl rfl fun _ => .inr ⟨_, hhead, rfl⟩

/-- The handlers take the transition out of the queue. -/
theorem QueueInv.handle (h : QueueInv st) {job : Job} (hhead : st.tail.head? = some job)
    (hbegun : st.transition ≠ .waiting) (outcome : TransitionOutcome) :
    QueueInv (st.handleTransition job outcome) := by
  obtain ⟨rest, htail⟩ := List.head?_eq_some_iff.mp hhead
  obtain ⟨job', hjob', hruns⟩ := h.begun hbegun
  obtain rfl := Option.some.inj (hjob'.symm.trans hhead)
  have hkind := Job.isTransition_of_runs hruns
  have hempty := (h.last [] job' rest htail hkind).1
  obtain ⟨hcalls, -, hwaiting⟩ := @handleTransition_same st job' outcome
  have hrest : (st.handleTransition job' outcome).tail = rest := by
    have htail' : (st.handleTransition job' outcome).tail = st.tail.tail := by
      cases job' <;> cases outcome <;> rfl
    rw [htail', htail]
    rfl
  have hne : ∀ c, job' ≠ .effect c := by
    rintro c rfl
    cases hkind
  refine h.pop htail ?_ ?_ hrest (fun hbad => absurd hempty hbad) ?_ ?_ hwaiting
  · intro c call hcall _ _ _
    exact ⟨hne c, hcalls ▸ hcall⟩
  · intro c call _ hcall
    rw [hcalls]
    exact hcall
  · intro hoff
    cases job' with
    | effect c => cases hkind
    | release => exact .inr rfl
    | terminal guarded =>
      refine .inl (Eq.trans ?_ hoff)
      cases outcome <;> rfl
  · intro hoff
    cases job' with
    | effect c => cases hkind
    | release =>
      refine .inl (Eq.trans ?_ hoff)
      cases outcome <;> rfl
    | terminal guarded => exact .inr ⟨guarded, rfl⟩

theorem QueueInv.advanceTransition (h : QueueInv st) {job : Job} {e : Event}
    (hhead : st.tail.head? = some job) (hstep : st.advanceTransition job e = some st') :
    QueueInv st' := by
  have hruns : st.transition ≠ .waiting → job.runs st.transition = true := fun hne => by
    obtain ⟨job', hhead', hjob'⟩ := h.begun hne
    obtain rfl := Option.some.inj (hhead'.symm.trans hhead)
    exact hjob'
  cases e with
  | releaseTransition ok =>
    rw [WriterScheduler.advanceTransition] at hstep
    split at hstep
    · rename_i htransition
      obtain rfl := Option.some.inj hstep
      have hjob := hruns (by rw [htransition]; rintro ⟨⟩)
      rw [htransition] at hjob
      refine h.congr rfl rfl id rfl rfl fun _ => .inr ⟨job, hhead, ?_⟩
      cases job with
      | effect | terminal => cases hjob
      | release => cases ok <;> rfl
    · cases hstep
  | terminalPreFence ok =>
    cases job with
    | effect | release => cases hstep
    | terminal guarded =>
      rw [WriterScheduler.advanceTransition] at hstep
      split_ifs at hstep with htransition hok
      · obtain rfl := Option.some.inj hstep
        have hprepared : QueueInv { st with terminalPrepared := true } :=
          h.congr rfl rfl id rfl rfl fun hne => .inl ⟨hne, fun _ => id⟩
        exact hprepared.guardTerminal hhead
      · obtain rfl := Option.some.inj hstep
        exact h.congr rfl rfl id rfl rfl fun _ => .inr ⟨_, hhead, rfl⟩
  | guard ok =>
    rw [WriterScheduler.advanceTransition] at hstep
    split_ifs at hstep with htransition hok <;> obtain rfl := Option.some.inj hstep <;>
      have hjob := hruns (by rw [htransition]; rintro ⟨⟩) <;> rw [htransition] at hjob
    · cases job with
      | effect | release => cases hjob
      | terminal guarded => exact h.startTerminal hhead
    · cases job with
      | effect | release => cases hjob
      | terminal guarded => exact h.congr rfl rfl id rfl rfl fun _ => .inr ⟨_, hhead, rfl⟩
  | terminalSettle ok =>
    rw [WriterScheduler.advanceTransition] at hstep
    split at hstep
    · rename_i scope htransition
      obtain rfl := Option.some.inj hstep
      have hjob := hruns (by rw [htransition]; rintro ⟨⟩)
      rw [htransition] at hjob
      cases job with
      | effect | release => cases hjob
      | terminal guarded => exact h.congr rfl rfl id rfl rfl fun _ => .inr ⟨_, hhead, rfl⟩
    · cases hstep
  | terminalDrained =>
    rw [WriterScheduler.advanceTransition] at hstep
    split at hstep
    · rename_i scope ok htransition
      split at hstep
      · obtain rfl := Option.some.inj hstep
        have hjob := hruns (by rw [htransition]; rintro ⟨⟩)
        rw [htransition] at hjob
        cases job with
        | effect | release => cases hjob
        | terminal guarded => exact h.congr rfl rfl id rfl rfl fun _ => .inr ⟨_, hhead, rfl⟩
      · cases hstep
    · cases hstep
  | handled =>
    rw [WriterScheduler.advanceTransition] at hstep
    split at hstep
    · rename_i outcome htransition
      obtain rfl := Option.some.inj hstep
      exact h.handle hhead (by rw [htransition]; rintro ⟨⟩) outcome
    · cases hstep
  | _ => cases hstep

theorem queueInv_step (h : QueueInv st) {e : Event} (hstep : st.step e = some st') :
    QueueInv st' := by
  cases e with
  | call method inherited =>
    obtain rfl := Option.some.inj hstep
    exact h.call method inherited
  | terminal guarded inherited =>
    obtain rfl := Option.some.inj hstep
    exact h.terminal guarded inherited
  | release inherited =>
    obtain rfl := Option.some.inj hstep
    exact h.release inherited
  | start => exact h.start hstep
  | preFence c ok | settle c ok | drained c | postFence c ok =>
    obtain ⟨call, hcall, hadvance⟩ := Option.bind_eq_some_iff.mp hstep
    exact h.advance hcall hadvance
  | releaseTransition ok | terminalPreFence ok | guard ok | terminalSettle ok | terminalDrained
  | handled =>
    obtain ⟨job, hjob, hadvance⟩ := Option.bind_eq_some_iff.mp hstep
    exact h.advanceTransition hjob hadvance

theorem queueInv_init : QueueInv init where
  head _ _ h := absurd h no_calls_init
  effects _ h := absurd h List.not_mem_nil
  nodup := List.nodup_nil
  last before _ _ h := by cases before <;> cases h
  releases _ := List.not_mem_nil
  terminals _ _ := List.not_mem_nil
  begun h := absurd rfl h

/-! ## What runs keep -/

/-- What excludes what in a state. -/
structure Excludes (st : WriterScheduler) : Prop where
  /-- The effect of a queued call runs only at the head of the queue. -/
  queued : ∀ (c : Nat) (call : OwnedCall), st.calls[c]? = some call → call.route = .queued →
    call.status = .executing → st.tail.head? = some (.effect c)
  rejected : ∀ (c : Nat) (call : OwnedCall) (code : SchedulerErrorCode),
    st.calls[c]? = some call → call.route = .rejected code → call.status = .settled false
  /-- A transition that has begun finds all admitted work done. -/
  begun : st.transition ≠ .waiting → st.Drained
  /-- Then only what the effect of a terminal transition started itself executes. -/
  drained : st.Drained → ∀ (c : Nat) (call : OwnedCall), st.calls[c]? = some call →
    call.status = .executing → ∃ root scope, st.terminalScope = some root ∧
      scopeOf call = some scope ∧ st.Within root scope

/-- What a step does to admission. -/
structure StepExcludes (st : WriterScheduler) (e : Event) (st' : WriterScheduler) : Prop where
  /-- The effect of a queued call starts when its pre-fence has succeeded. -/
  fenced : ∀ (c : Nat) (call call' : OwnedCall), st.calls[c]? = some call →
    call.route = .queued → call.status ≠ .executing → st'.calls[c]? = some call' →
    call'.status = .executing → e = .preFence c true ∧ call.status = .preFence
  /-- Only the rejection of a terminal guard opens admission again, and it always does. -/
  reopened : st.accepting = false →
    (st'.accepting = true ↔ e = .handled ∧ st.transition = .settled .guardRejected)
  drained : st.Drained → st'.accepting = false → st'.Drained

theorem excludes_of_inv (hscopes : ScopeInv st) (hqueue : QueueInv st) : Excludes st where
  queued c call hcall hqueued hstatus :=
    hqueue.head c call hcall hqueued (by rw [hstatus]; exact nofun) (by rw [hstatus]; rfl)
  rejected := hscopes.rejected
  begun := hqueue.drained
  drained := by
    rintro ⟨-, hempty⟩ c call hcall hstatus
    obtain ⟨scope, hscope, hopen⟩ := hscopes.executing c call hcall hstatus
    rcases hscopes.root scope hopen with ⟨root, hroot, hwithin⟩ |
      ⟨k, owner, howner, hqueued, hlive⟩
    · exact ⟨root, scope, hroot, hscope, hwithin⟩
    · -- the scope belongs to a queued call, which would be at the head of the queue
      have hstarted : owner.status ≠ .waiting := fun hwaiting => by
        rw [hwaiting] at hlive
        cases hlive
      have hhead := hqueue.head k owner howner hqueued hstarted (live_not_settled hlive)
      exact absurd (List.mem_of_mem_head? hhead) (hempty k)

/-! ### One step -/

/-- A step that neither starts an effect, nor admits one, nor opens admission. -/
structure Quiet (st st' : WriterScheduler) : Prop where
  calls : ∀ (c : Nat) (call call' : OwnedCall), st.calls[c]? = some call →
    st'.calls[c]? = some call' → call'.status = .executing → call.status = .executing
  accepting : st'.accepting = true → st.accepting = true
  tail : ∀ c, Job.effect c ∈ st'.tail → Job.effect c ∈ st.tail ∨ st.accepting = true

theorem Quiet.of_calls (hcalls : st'.calls = st.calls)
    (haccepting : st'.accepting = true → st.accepting = true)
    (htail : ∀ c, Job.effect c ∈ st'.tail → Job.effect c ∈ st.tail) : Quiet st st' where
  calls c call call' hcall hcall' hstatus := by
    rw [hcalls, hcall] at hcall'
    exact Option.some.inj hcall' ▸ hstatus
  accepting := haccepting
  tail c hmem := .inl (htail c hmem)

theorem Quiet.addCall (route : Route) (status : CallStatus) (h : st'.calls =
    st.calls ++ [{ route, status, scope := none }]) (haccepting : st'.accepting = st.accepting)
    (htail : ∀ c, Job.effect c ∈ st'.tail → Job.effect c ∈ st.tail ∨ st.accepting = true) :
    Quiet st st' where
  calls c call call' hcall hcall' hstatus := by
    rw [h, List.getElem?_append_left (List.getElem?_eq_some_iff.mp hcall).1, hcall] at hcall'
    exact Option.some.inj hcall' ▸ hstatus
  accepting := haccepting.symm ▸ id
  tail := htail

theorem Quiet.setCall {c : Nat} {old new : OwnedCall} (hold : st.calls[c]? = some old)
    (hnew : new.status ≠ .executing) (hcalls : st'.calls = (st.setCall c new).calls)
    (haccepting : st'.accepting = st.accepting)
    (htail : ∀ k, Job.effect k ∈ st'.tail → Job.effect k ∈ st.tail) : Quiet st st' where
  calls k call call' hcall hcall' hstatus := by
    rw [hcalls] at hcall'
    rcases setCall_cases hold hcall' with ⟨-, rfl⟩ | ⟨-, hsame⟩
    · exact absurd hstatus hnew
    · exact Option.some.inj (hcall.symm.trans hsame) ▸ hstatus
  accepting := haccepting.symm ▸ id
  tail k hmem := .inl (htail k hmem)

theorem quiet_admit : Quiet st st.admitCall := by
  rw [admitCall]
  split_ifs with haccepting
  · exact .addCall .queued .waiting rfl rfl fun _ _ => .inr haccepting
  · exact .addCall _ _ rfl rfl fun _ => .inl

theorem quiet_call (method : OwnedMethod) (inherited : Inherited) :
    Quiet st (st.call method inherited) := by
  cases inherited with
  | none => exact quiet_admit
  | foreign isOpen =>
    cases isOpen with
    | true => exact .addCall _ _ rfl rfl fun _ => .inl
    | false => exact quiet_admit
  | own scope =>
    rw [call]
    split_ifs
    · cases method with
      | run => exact .addCall _ _ rfl rfl fun _ => .inl
      | runOwnedTransaction => exact .addCall _ _ rfl rfl fun _ => .inl
      | runOwnedOperation => exact .addCall _ _ rfl rfl fun _ => .inl
    · exact quiet_admit

theorem mem_tail_concat {c : Nat} {job : Job} (hjob : job.isTransition = true)
    (h : Job.effect c ∈ st.tail ++ [job]) : Job.effect c ∈ st.tail := by
  rcases List.mem_append.mp h with hold | hlast
  · exact hold
  · rw [← List.mem_singleton.mp hlast] at hjob
    cases hjob

/-- `terminal` and `release` close admission, unless the caller's open scope is foreign. -/
theorem quiet_terminal (guarded : Bool) (inherited : Inherited) :
    Quiet st (st.terminal guarded inherited).1 := by
  have henqueue : Quiet st (terminal.enqueue guarded { st with accepting := false }).1 := by
    rw [terminal.enqueue]
    split_ifs
    · exact .of_calls rfl (by rintro ⟨⟩) fun _ => id
    · exact .of_calls rfl (by rintro ⟨⟩) fun _ => id
    · exact .of_calls rfl (by rintro ⟨⟩) fun _ => id
    · exact .of_calls rfl (by rintro ⟨⟩) fun _ => mem_tail_concat rfl
  rw [terminal]
  split_ifs
  · exact .of_calls rfl id fun _ => id
  · split
    · split_ifs
      · exact .of_calls rfl (by rintro ⟨⟩) fun _ => id
      · exact henqueue
    · exact henqueue

theorem quiet_release (inherited : Inherited) : Quiet st (st.release inherited).1 := by
  have henqueue : Quiet st (release.enqueue { st with accepting := false }).1 := by
    rw [release.enqueue]
    split_ifs
    · exact .of_calls rfl (by rintro ⟨⟩) fun _ => id
    · exact .of_calls rfl (by rintro ⟨⟩) fun _ => id
    · exact .of_calls rfl (by rintro ⟨⟩) fun _ => id
    · exact .of_calls rfl (by rintro ⟨⟩) fun _ => mem_tail_concat rfl
  rw [release]
  split_ifs
  · exact .of_calls rfl id fun _ => id
  · split
    · split_ifs
      · exact .of_calls rfl (by rintro ⟨⟩) fun _ => id
      · exact henqueue
    · exact henqueue

theorem quiet_start (hstep : st.start = some st') : Quiet st st' := by
  rw [start] at hstep
  split at hstep
  · cases hstep
  · split at hstep
    · rename_i call hcall
      split_ifs at hstep
      obtain rfl := Option.some.inj hstep
      refine Quiet.setCall hcall ?_ rfl rfl fun _ => id
      rintro ⟨⟩
    · cases hstep
  · split_ifs at hstep
    obtain rfl := Option.some.inj hstep
    exact .of_calls rfl id fun _ => id
  · rename_i guarded _ _
    split_ifs at hstep
    · obtain rfl := Option.some.inj hstep
      cases guarded <;> exact .of_calls rfl id fun _ => id
    · obtain rfl := Option.some.inj hstep
      exact .of_calls rfl id fun _ => id

theorem quiet_settleFenced {c : Nat} {call : OwnedCall} (ok : Bool)
    (hcall : st.calls[c]? = some call) : Quiet st (st.settleFenced c call ok) := by
  rw [settleFenced]
  split_ifs
  · refine Quiet.setCall hcall ?_ rfl rfl fun _ => List.mem_of_mem_tail
    rintro ⟨⟩
  · refine Quiet.setCall hcall ?_ rfl rfl fun _ => id
    rintro ⟨⟩

/-- The effect of a fenced call starts after its pre-fence, and at no other time. -/
theorem advance_quiet {c : Nat} {call : OwnedCall} {e : Event} (hcall : st.calls[c]? = some call)
    (hstep : st.advance c call e = some st') :
    Quiet st st' ∨ (∃ k, e = .preFence k true) ∧ call.status = .preFence ∧
      st'.accepting = st.accepting ∧ st'.tail = st.tail ∧
      ∀ k, k ≠ c → st'.calls[k]? = st.calls[k]? := by
  cases e with
  | preFence k ok =>
    rw [advance] at hstep
    split_ifs at hstep with hstatus hok
    · obtain rfl := Option.some.inj hstep
      subst hok
      exact .inr ⟨⟨k, rfl⟩, hstatus, rfl, rfl, fun k hk => setCall_ne _ hcall hk⟩
    · obtain rfl := Option.some.inj hstep
      exact .inl (quiet_settleFenced false hcall)
  | settle k ok =>
    rw [advance] at hstep
    split_ifs at hstep
    split at hstep
    · obtain rfl := Option.some.inj hstep
      refine .inl (Quiet.setCall hcall ?_ rfl rfl fun _ => id)
      rintro ⟨⟩
    · obtain rfl := Option.some.inj hstep
      refine .inl (Quiet.setCall hcall ?_ rfl rfl fun _ => id)
      rintro ⟨⟩
  | drained k =>
    rw [advance] at hstep
    split at hstep
    · split_ifs at hstep
      obtain rfl := Option.some.inj hstep
      refine .inl (Quiet.setCall hcall ?_ rfl rfl fun _ => id)
      rintro ⟨⟩
    · cases hstep
  | postFence k ok =>
    rw [advance] at hstep
    split at hstep
    · obtain rfl := Option.some.inj hstep
      exact .inl (quiet_settleFenced _ hcall)
    · cases hstep
  | _ => cases hstep

theorem handleTransition_tail (job : Job) (outcome : TransitionOutcome) :
    (st.handleTransition job outcome).tail = st.tail.tail := by
  cases job <;> cases outcome <;> rfl

theorem handleTransition_accepting (job : Job) {outcome : TransitionOutcome}
    (h : outcome ≠ .guardRejected) :
    (st.handleTransition job outcome).accepting = st.accepting := by
  cases job <;> cases outcome <;> first | rfl | exact absurd rfl h

theorem advanceTransition_quiet {job : Job} {e : Event}
    (hstep : st.advanceTransition job e = some st') :
    Quiet st st' ∨ e = .handled ∧ st.transition = .settled .guardRejected ∧
      st' = st.handleTransition job .guardRejected := by
  cases e with
  | releaseTransition ok =>
    rw [advanceTransition] at hstep
    split at hstep
    · obtain rfl := Option.some.inj hstep
      exact .inl (.of_calls rfl id fun _ => id)
    · cases hstep
  | terminalPreFence ok =>
    cases job with
    | effect | release => cases hstep
    | terminal guarded =>
      rw [advanceTransition] at hstep
      split_ifs at hstep
      · obtain rfl := Option.some.inj hstep
        cases guarded <;> exact .inl (.of_calls rfl id fun _ => id)
      · obtain rfl := Option.some.inj hstep
        exact .inl (.of_calls rfl id fun _ => id)
  | guard ok =>
    rw [advanceTransition] at hstep
    split_ifs at hstep <;> obtain rfl := Option.some.inj hstep <;>
      exact .inl (.of_calls rfl id fun _ => id)
  | terminalSettle ok =>
    rw [advanceTransition] at hstep
    split at hstep
    · obtain rfl := Option.some.inj hstep
      exact .inl (.of_calls rfl id fun _ => id)
    · cases hstep
  | terminalDrained =>
    rw [advanceTransition] at hstep
    split at hstep
    · split at hstep
      · obtain rfl := Option.some.inj hstep
        exact .inl (.of_calls rfl id fun _ => id)
      · cases hstep
    · cases hstep
  | handled =>
    rw [advanceTransition] at hstep
    split at hstep
    · rename_i outcome htransition
      obtain rfl := Option.some.inj hstep
      by_cases hrejected : outcome = .guardRejected
      · subst hrejected
        exact .inr ⟨rfl, htransition, rfl⟩
      · refine .inl (.of_calls (handleTransition_same job outcome).1 ?_ fun c hmem => ?_)
        · rw [handleTransition_accepting job hrejected]
          exact id
        · rw [handleTransition_tail] at hmem
          exact List.mem_of_mem_tail hmem
    · cases hstep
  | _ => cases hstep

theorem Quiet.stepExcludes (h : Quiet st st') {e : Event}
    (he : ¬(e = .handled ∧ st.transition = .settled .guardRejected)) : StepExcludes st e st' where
  fenced c call call' hcall _ hnot hcall' hexecuting :=
    absurd (h.calls c call call' hcall hcall' hexecuting) hnot
  reopened hclosed := by
    refine iff_of_false (fun hopen => ?_) he
    rw [h.accepting hopen] at hclosed
    cases hclosed
  drained hdrained hclosed := by
    refine ⟨hclosed, fun c hmem => ?_⟩
    rcases h.tail c hmem with hold | hopen
    · exact hdrained.2 c hold
    · rw [hdrained.1] at hopen
      cases hopen

theorem stepExcludes_advance {c : Nat} {call : OwnedCall} {e : Event} (hnot : e ≠ .handled)
    (hsame : ∀ k ok, e = .preFence k ok → k = c) (hcall : st.calls[c]? = some call)
    (hstep : st.advance c call e = some st') : StepExcludes st e st' := by
  rcases advance_quiet hcall hstep with hquiet | ⟨⟨k, rfl⟩, hstatus, haccepting, htail, hothers⟩
  · exact hquiet.stepExcludes fun hbad => hnot hbad.1
  · obtain rfl := hsame k true rfl
    refine ⟨fun c other other' hother _ hidle hother' hexecuting => ?_, fun hclosed => ?_,
      fun hdrained hclosed => ⟨hclosed, htail.symm ▸ hdrained.2⟩⟩
    · by_cases hc : c = k
      · subst hc
        obtain rfl := Option.some.inj (hcall.symm.trans hother)
        exact ⟨rfl, hstatus⟩
      · rw [hothers c hc, hother] at hother'
        exact absurd (Option.some.inj hother' ▸ hexecuting) hidle
    · rw [haccepting, hclosed]
      exact iff_of_false Bool.false_ne_true fun hbad => hnot hbad.1

theorem stepExcludes_advanceTransition (hqueue : QueueInv st) {job : Job} {e : Event}
    (hhead : st.tail.head? = some job) (hstep : st.advanceTransition job e = some st') :
    StepExcludes st e st' := by
  by_cases hrejected : e = .handled ∧ st.transition = .settled .guardRejected
  · obtain ⟨rfl, htransition⟩ := hrejected
    rw [advanceTransition, htransition] at hstep
    obtain rfl := Option.some.inj hstep
    obtain ⟨job', hhead', hruns⟩ := hqueue.begun (by rw [htransition]; rintro ⟨⟩)
    obtain rfl := Option.some.inj (hhead'.symm.trans hhead)
    rw [htransition] at hruns
    cases job' with
    | effect | release => cases hruns
    | terminal guarded =>
      refine ⟨fun c call call' hcall _ hidle hcall' hexecuting => ?_,
        fun _ => iff_of_true rfl ⟨rfl, htransition⟩, fun _ hclosed => ?_⟩
      · have hcall' : st.calls[c]? = some call' := hcall'
        exact absurd (Option.some.inj (hcall'.symm.trans hcall) ▸ hexecuting) hidle
      · cases hclosed
  · rcases advanceTransition_quiet hstep with hquiet | ⟨he, htransition, -⟩
    · exact hquiet.stepExcludes hrejected
    · exact absurd ⟨he, htransition⟩ hrejected

theorem stepExcludes_step (hqueue : QueueInv st) {e : Event} (hstep : st.step e = some st') :
    StepExcludes st e st' := by
  cases e with
  | call method inherited =>
    obtain rfl := Option.some.inj hstep
    exact (quiet_call method inherited).stepExcludes fun h => nomatch h.1
  | terminal guarded inherited =>
    obtain rfl := Option.some.inj hstep
    exact (quiet_terminal guarded inherited).stepExcludes fun h => nomatch h.1
  | release inherited =>
    obtain rfl := Option.some.inj hstep
    exact (quiet_release inherited).stepExcludes fun h => nomatch h.1
  | start => exact (quiet_start hstep).stepExcludes fun h => nomatch h.1
  | preFence c ok =>
    obtain ⟨call, hcall, hadvance⟩ := Option.bind_eq_some_iff.mp hstep
    exact stepExcludes_advance nofun (fun k ok he => (Event.preFence.inj he).1.symm) hcall hadvance
  | settle c ok | drained c | postFence c ok =>
    obtain ⟨call, hcall, hadvance⟩ := Option.bind_eq_some_iff.mp hstep
    exact stepExcludes_advance nofun (fun k ok he => nomatch he) hcall hadvance
  | releaseTransition ok | terminalPreFence ok | guard ok | terminalSettle ok | terminalDrained
  | handled =>
    obtain ⟨job, hjob, hadvance⟩ := Option.bind_eq_some_iff.mp hstep
    exact stepExcludes_advanceTransition hqueue hjob hadvance

/-- In a run in which every scope waits for its transactions and operations, effects and
    transitions exclude each other. -/
theorem excludes_of_awaitsNested (events : List Event)
    (hawaits : Machine.Along step AwaitsNested init events) (st : WriterScheduler)
    (hrun : Machine.run step init events = some st) :
    Excludes st ∧ ∀ e st', st.step e = some st' → StepExcludes st e st' := by
  have hinv : ScopeInv st ∧ QueueInv st :=
    Machine.run_invariant (I := fun st => ScopeInv st ∧ QueueInv st)
      (fun st e st' hinv hcond hstep =>
      ⟨scopeInv_step hinv.1 hcond hstep, queueInv_step hinv.2 hstep⟩)
      ⟨scopeInv_init, queueInv_init⟩ hawaits hrun
  exact ⟨excludes_of_inv hinv.1 hinv.2, fun e st' => stepExcludes_step hinv.2⟩

/-- One effect that awaits the transaction inside it, and then the release. -/
theorem excludes_awaited :
    Excludes { init with
      accepting := false, releaseInFlight := true, tail := [.release], transition := .releasing
      scopes := [{ isOpen := false, children := [] }]
      calls := [{ route := .queued, status := .settled true, scope := some 0 },
        { route := .inline 0 false, status := .settled true, scope := none }] } := by
  refine (excludes_of_awaitsNested [.call .run .none, .start, .preFence 0 true,
    .call .runOwnedTransaction (.own 0), .settle 1 true, .settle 0 true, .drained 0,
    .postFence 0 true, .release .none, .start] ?_ _ rfl).1
  decide

/-- An effect that does not await the transaction inside it: the release transition begins
    while the transaction executes. -/
theorem release_overlaps_transaction :
    ∃ st call, Machine.run step init [.call .run .none, .start, .preFence 0 true,
        .call .runOwnedTransaction (.own 0), .settle 0 true, .drained 0, .postFence 0 true,
        .release .none, .start] = some st ∧
      st.transition = .releasing ∧ st.calls[1]? = some call ∧ call.status = .executing ∧
      ¬Excludes st := by
  refine ⟨_, _, rfl, rfl, rfl, rfl, fun h => ?_⟩
  have hdrained := h.begun nofun
  obtain ⟨root, scope, hroot, -⟩ := h.drained hdrained 1 _ rfl rfl
  cases hroot

end WriterScheduler

end PiRlm.Runtime
